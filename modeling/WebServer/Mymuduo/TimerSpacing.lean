import WebServer.Mymuduo.TimerFate

namespace WebServer.Mymuduo

open WebServer.Lib

namespace Interval

/-- A callback that is due at `when` may be called at these readings of the clock, and more than
once only if the timer repeats. -/
def Timely (interval : Interval) : Timestamp → List Timestamp → Prop
  | _, [] => True
  | when, now :: nows => when < now ∧ (nows ≠ [] → interval.positive = true) ∧
      interval.Timely (addTime now interval) nows

def due (interval : Interval) : Timestamp → List Timestamp → Timestamp
  | when, [] => when
  | _, now :: nows => interval.due (addTime now interval) nows

variable {interval : Interval} {when now : Timestamp} {nows : List Timestamp}

@[simp] theorem due_append : interval.due when (nows ++ [now]) = addTime now interval := by
  induction nows generalizing when with
  | nil => rfl
  | cons _ nows ih => exact ih

theorem Timely.append (h : interval.Timely when nows) (hdue : interval.due when nows < now)
    (hrepeats : nows ≠ [] → interval.positive = true) : interval.Timely when (nows ++ [now]) := by
  induction nows generalizing when with
  | nil => exact ⟨hdue, fun h => absurd rfl h, trivial⟩
  | cons first nows ih =>
    obtain ⟨hfirst, -, hrest⟩ := h
    have hpositive := hrepeats (List.cons_ne_nil _ _)
    exact ⟨hfirst, fun _ => hpositive, ih hrest hdue fun _ => hpositive⟩

end Interval

def HandleRead.now : HandleRead → Timestamp
  | .no => .invalid
  | .callbacks now _ _ | .reset now _ _ => now

namespace TimerLoop

open TimerQueue

def called (s : TimerLoop) : Label → List (Nat × Timestamp)
  | .runTimer =>
    match s.handleRead with
    | .callbacks now _ (it :: _) => [((s.queue.timer it.timer).sequence, now)]
    | _ => []
  | _ => []

end TimerLoop

structure RecordedLoop where
  loop : TimerLoop
  calls : List (Nat × Timestamp)

namespace RecordedLoop

open TimerLoop TimerQueue

def new : RecordedLoop := ⟨.new, []⟩

def step (s : RecordedLoop) (l : TimerLoop.Label) : Option RecordedLoop :=
  (s.loop.step l).map fun loop => ⟨loop, s.calls ++ s.loop.called l⟩

def callsOf (s : RecordedLoop) (sequence : Nat) : List Timestamp :=
  (s.calls.filter fun c => c.1 = sequence).map Prod.snd

structure Sound (s : RecordedLoop) : Prop where
  owned : s.loop.Owned
  created : ∀ c ∈ s.calls, c.1 ≤ s.loop.numCreated
  suffix : ∀ now expired ahead, s.loop.handleRead = .callbacks now expired ahead →
    ahead <:+ expired
  expired : ∀ now expired ahead, s.loop.handleRead = .callbacks now expired ahead →
    ∀ it ∈ ahead, (s.loop.queue.timer it.timer).expiration < now

structure Timed (s : RecordedLoop) (a : ActiveTimer) (when : Timestamp) (interval : Interval) :
    Prop where
  timely : interval.Timely when (s.callsOf a.sequence)
  same : a.timer ∈ s.loop.places → s.loop.queue.activeTimer a.timer = a →
    (s.loop.queue.timer a.timer).interval = interval
  unrun : a.timer ∈ s.loop.unrun → s.loop.queue.activeTimer a.timer = a →
    (s.loop.queue.timer a.timer).expiration = interval.due when (s.callsOf a.sequence) ∧
      (s.callsOf a.sequence ≠ [] → interval.positive = true)
  held : a.timer ∈ s.loop.handleRead.held.map (·.timer) →
    a.timer ∉ s.loop.handleRead.ahead.map (·.timer) → s.loop.queue.activeTimer a.timer = a →
    ∃ nows, s.callsOf a.sequence = nows ++ [s.loop.handleRead.now]

variable {s t : RecordedLoop} {l : TimerLoop.Label} {a : ActiveTimer} {when : Timestamp}
  {interval : Interval}

theorem step_eq_some : step s l = some t ↔
    TimerLoop.step s.loop l = some t.loop ∧ t.calls = s.calls ++ s.loop.called l := by
  simp only [step, Option.map_eq_some_iff]
  constructor
  · rintro ⟨loop, hloop, rfl⟩
    exact ⟨hloop, rfl⟩
  · rintro ⟨hloop, hcalls⟩
    exact ⟨t.loop, hloop, by rw [← hcalls]⟩

theorem sound_new : new.Sound := ⟨owned_new, nofun, nofun, nofun⟩

theorem called_eq_nil (s : TimerLoop) (hl : l ≠ .runTimer) : s.called l = [] := by
  cases l with
  | runTimer => exact absurd rfl hl
  | _ => rfl

theorem numCreated_le {s t : TimerLoop} (h : TimerLoop.step s l = some t) :
    s.numCreated ≤ t.numCreated := by
  cases steps_of_step h with
  | addTimer _ _ | otherTimer => exact Nat.le_succ _
  | _ => exact le_rfl

theorem Sound.called_le {u : TimerLoop} (hs : s.Sound) (h : TimerLoop.step s.loop l = some u) :
    ∀ c ∈ s.loop.called l, c.1 ≤ u.numCreated := by
  cases steps_of_step h with
  | runTimer hcall =>
    intro c hc
    simp only [called, hcall, List.mem_singleton] at hc
    subst hc
    refine hs.owned.sequence _ (hs.owned.ids _ (mem_places_of_mem_held ?_))
    rw [hcall]
    exact hs.owned.ahead _ _ _ hcall List.mem_cons_self
  | _ => exact fun c hc => absurd hc List.not_mem_nil

theorem Sound.expired_of_same {u : TimerLoop} (hs : s.Sound) (h : TimerLoop.step s.loop l = some u)
    (hread : u.handleRead = s.loop.handleRead) (now : Timestamp) (expired ahead : List Entry)
    (hcall : u.handleRead = .callbacks now expired ahead) :
    ∀ it ∈ ahead, (u.queue.timer it.timer).expiration < now := by
  intro it hit
  rw [hread] at hcall
  have hplace : it.timer ∈ s.loop.places := by
    refine mem_places_of_mem_held ?_
    rw [hcall]
    exact hs.owned.ahead _ _ _ hcall hit
  rw [timer_of_place hs.owned hplace (by simp [hcall]) h]
  exact hs.expired _ _ _ hcall it hit

theorem Sound.expired_step {u : TimerLoop} (hs : s.Sound) (h : TimerLoop.step s.loop l = some u)
    (now : Timestamp) (expired ahead : List Entry)
    (hcall : u.handleRead = .callbacks now expired ahead) :
    ∀ it ∈ ahead, (u.queue.timer it.timer).expiration < now := by
  have hsame := hs.expired_of_same h
  cases steps_of_step h with
  | addTimer _ _ | otherTimer | addTimerInLoop _ _ | cancelInLoop _ _ | fire _ =>
    exact hsame rfl now expired ahead hcall
  | handleRead _ =>
    rw [beginRead_eq hs.owned.active] at hcall ⊢
    cases hcall
    intro it hit
    obtain ⟨hmem, hlt⟩ := OrdSet.mem_below.mp hit
    exact (hs.owned.linked it hmem).symm ▸ lt_sentry_iff.mp hlt
  | runTimer hcall' =>
    cases hcall
    exact fun it hit => hs.expired _ _ _ hcall' it (List.mem_cons_of_mem _ hit)
  | endCallbacks _ | resetEntry _ | endReset _ => cases hcall

theorem Sound.suffix_step {u : TimerLoop} (hs : s.Sound) (h : TimerLoop.step s.loop l = some u)
    (now : Timestamp) (expired ahead : List Entry)
    (hcall : u.handleRead = .callbacks now expired ahead) : ahead <:+ expired := by
  cases steps_of_step h with
  | addTimer _ _ | otherTimer | addTimerInLoop _ _ | cancelInLoop _ _ | fire _ =>
    exact hs.suffix now expired ahead hcall
  | handleRead _ =>
    cases hcall
    exact List.suffix_refl _
  | runTimer hcall' =>
    cases hcall
    exact (List.suffix_cons _ _).trans (hs.suffix _ _ _ hcall')
  | endCallbacks _ | resetEntry _ | endReset _ => cases hcall

theorem Sound.step (hs : s.Sound) (h : RecordedLoop.step s l = some t) : t.Sound := by
  obtain ⟨hloop, hcalls⟩ := step_eq_some.mp h
  refine ⟨hs.owned.step hloop, fun c hc => ?_, hs.suffix_step hloop, hs.expired_step hloop⟩
  rw [hcalls] at hc
  rcases List.mem_append.mp hc with hc | hc
  · exact (hs.created c hc).trans (numCreated_le hloop)
  · exact hs.called_le hloop c hc

section Quiet

variable {u : TimerLoop} (hs : s.Timed a when interval) (howned : s.loop.Owned)
include hs howned

theorem Timed.of_same (ht : TimerLoop.step s.loop l = some u)
    (hplaces : a.timer ∈ u.places → u.queue.activeTimer a.timer = a →
      a.timer ∈ s.loop.places ∧ u.queue.timer a.timer = s.loop.queue.timer a.timer)
    (hunrun : u.queue.activeTimer a.timer = a → a.timer ∈ u.unrun → a.timer ∈ s.loop.unrun)
    (hheld : u.queue.activeTimer a.timer = a → a.timer ∈ u.handleRead.held.map (·.timer) →
      a.timer ∉ u.handleRead.ahead.map (·.timer) →
      a.timer ∈ s.loop.handleRead.held.map (·.timer) ∧
        a.timer ∉ s.loop.handleRead.ahead.map (·.timer) ∧
        u.handleRead.now = s.loop.handleRead.now) :
    Timed ⟨u, s.calls⟩ a when interval := by
  have hsub : u.unrun ⊆ u.places := (howned.step ht).unrun_subset
  have hactive : a.timer ∈ u.places → u.queue.activeTimer a.timer = a →
      s.loop.queue.activeTimer a.timer = a := by
    intro hplace hid
    rw [activeTimer, ← (hplaces hplace hid).2]
    exact hid
  refine ⟨hs.timely, fun hplace hid => ?_, fun hun hid => ?_, fun hin hnot hid => ?_⟩
  · obtain ⟨hplace', htimer⟩ := hplaces hplace hid
    exact htimer ▸ hs.same hplace' (hactive hplace hid)
  · obtain ⟨-, htimer⟩ := hplaces (hsub hun) hid
    exact htimer ▸ hs.unrun (hunrun hid hun) (hactive (hsub hun) hid)
  · have hplace : a.timer ∈ u.places := List.mem_append_left _ (List.mem_append_right _ hin)
    obtain ⟨hin, hnot, hnow⟩ := hheld hid hin hnot
    exact hnow ▸ hs.held hin hnot (hactive hplace hid)

theorem Timed.addTimer (hid : a ∈ s.loop.timerIds) {p : TimerPtr} {when' : Timestamp}
    {interval' : Interval} (ht : TimerLoop.step s.loop (.addTimer p when' interval') = some u) :
    Timed ⟨u, s.calls⟩ a when interval := by
  cases steps_of_step ht with
  | addTimer _ hfree =>
    have hne : (s.loop.queue.setTimer p ⟨when', interval', s.loop.numCreated + 1⟩).activeTimer
        a.timer = a → a.timer ≠ p := by
      rintro hactive rfl
      have hle := howned.sequence a hid
      rw [← hactive] at hle
      simp only [activeTimer, timer_setTimer_self] at hle
      exact Nat.not_succ_le_self _ hle
    have hdrop : ∀ {q : TimerPtr} {ps : List TimerPtr}, q ≠ p →
        q ∈ ps ++ (s.loop.adding ++ [p]) → q ∈ ps ++ s.loop.adding := by
      intro q ps hq hmem
      rw [← List.append_assoc] at hmem
      exact (List.mem_append.mp hmem).resolve_right fun hlast => hq (List.mem_singleton.mp hlast)
    refine hs.of_same howned ht (fun hplace hactive => ?_) (fun hactive hmem => ?_)
      fun _ hin hnot => ⟨hin, hnot, rfl⟩
    · exact ⟨hdrop (hne hactive) hplace, timer_setTimer_of_ne _ _ (hne hactive)⟩
    · exact hdrop (hne hactive) hmem

theorem Timed.addTimerInLoop {p : TimerPtr} {now : Timestamp}
    (ht : TimerLoop.step s.loop (.addTimerInLoop p now) = some u) :
    Timed ⟨u, s.calls⟩ a when interval := by
  cases steps_of_step ht with
  | addTimerInLoop _ hp =>
    have hmoved : ∀ {q : TimerPtr} {ps : List TimerPtr},
        q ∈ (s.loop.queue.addTimerInLoop p now).timers.elems.map (·.timer) ++ ps ++
          s.loop.adding.erase p →
        q ∈ s.loop.queue.timers.elems.map (·.timer) ++ ps ++ s.loop.adding := by
      intro q ps hmem
      rw [addTimerInLoop_eq] at hmem
      simp only [List.mem_append, mem_timers_insert] at hmem ⊢
      rcases hmem with ((rfl | hmem) | hmem) | hmem
      · exact .inr hp
      · exact .inl (.inl hmem)
      · exact .inl (.inr hmem)
      · exact .inr (List.mem_of_mem_erase hmem)
    refine hs.of_same howned ht (fun hplace _ => ⟨hmoved hplace, ?_⟩) (fun _ hmem => hmoved hmem)
      fun _ hin hnot => ⟨hin, hnot, rfl⟩
    rw [addTimerInLoop_eq]

theorem Timed.handleRead {now : Timestamp}
    (ht : TimerLoop.step s.loop (.handleRead now) = some u) :
    Timed ⟨u, s.calls⟩ a when interval := by
  have hstep := ht
  cases steps_of_step ht with
  | handleRead hno =>
    have hsame : ∀ {q : TimerPtr}, q ∈ (s.loop.queue.timers.eraseBelow (sentry now)).elems.map
        (·.timer) ++ (s.loop.queue.timers.below (sentry now)).map (·.timer) ++ s.loop.adding →
        q ∈ s.loop.queue.timers.elems.map (·.timer) ++ [] ++ s.loop.adding := by
      intro q hmem
      simp only [List.mem_append, List.not_mem_nil, or_false] at hmem ⊢
      rw [mem_timers_below (e := sentry now)]
      exact hmem.imp_left Or.symm
    rw [beginRead_eq howned.active] at hstep ⊢
    refine hs.of_same howned hstep (fun hplace _ => ⟨?_, rfl⟩) (fun _ hmem => ?_)
      fun _ hin hnot => absurd hin hnot
    · simp only [places, hno]
      exact hsame hplace
    · simp only [TimerLoop.unrun, hno]
      exact hsame hmem

theorem Timed.setHandleRead {r : HandleRead} {calling : Bool}
    (ht : TimerLoop.step s.loop l = some { s.loop with
      queue := { s.loop.queue with callingExpiredTimers := calling }, handleRead := r })
    (hheld : r.held = s.loop.handleRead.held) (hahead : r.ahead = s.loop.handleRead.ahead)
    (hnow : r.held ≠ [] → r.now = s.loop.handleRead.now) :
    Timed ⟨{ s.loop with
      queue := { s.loop.queue with callingExpiredTimers := calling }, handleRead := r }, s.calls⟩
      a when interval := by
  refine hs.of_same howned ht (fun hplace _ => ⟨?_, rfl⟩) (fun _ hmem => ?_) fun _ hin hnot => ?_
  · simpa only [places, hheld] using hplace
  · simpa only [TimerLoop.unrun, hahead] using hmem
  · refine ⟨hheld ▸ hin, hahead ▸ hnot, hnow ?_⟩
    rintro hnil
    simp [hnil] at hin

end Quiet

theorem Timed.of_calls {calls : List (Nat × Timestamp)} (hs : s.Timed a when interval)
    (h : callsOf ⟨s.loop, calls⟩ a.sequence = s.callsOf a.sequence) :
    Timed ⟨s.loop, calls⟩ a when interval := by
  constructor
  · exact h ▸ hs.timely
  · exact hs.same
  · exact h ▸ hs.unrun
  · exact h ▸ hs.held

theorem Sound.notMem_of_callbacks (hs : s.Sound) {now : Timestamp} {expired ahead : List Entry}
    {it : Entry} (hcall : s.loop.handleRead = .callbacks now expired (it :: ahead)) :
    it.timer ∉ s.loop.queue.timers.elems.map (·.timer) ∧ it.timer ∉ ahead.map (·.timer) ∧
      it.timer ∉ s.loop.adding := by
  obtain ⟨ran, rfl⟩ := hs.suffix _ _ _ hcall
  have hnodup := hs.owned.nodup
  simp only [places, hcall, HandleRead.held, List.map_append, List.map_cons, List.nodup_append,
    List.mem_append, List.nodup_cons] at hnodup
  obtain ⟨⟨-, ⟨-, ⟨hahead, -⟩, -⟩, htimers⟩, -, hadding⟩ := hnodup
  exact ⟨fun hmem => htimers _ hmem _ (.inr List.mem_cons_self) rfl, hahead,
    fun hmem => hadding _ (.inr (.inr List.mem_cons_self)) _ hmem rfl⟩

theorem Timed.runTimer (hs : s.Timed a when interval) (hsound : s.Sound)
    (hid : a ∈ s.loop.timerIds) (h : RecordedLoop.step s .runTimer = some t) :
    t.Timed a when interval := by
  obtain ⟨hloop, hcalls⟩ := step_eq_some.mp h
  obtain ⟨u, calls⟩ := t
  dsimp only at hloop hcalls
  have hstep := hloop
  cases steps_of_step hloop with
  | @runTimer now expired it ahead hcall =>
    obtain ⟨htimers, hahead, hadding⟩ := hsound.notMem_of_callbacks hcall
    have hheld : it.timer ∈ s.loop.handleRead.held.map (·.timer) := by
      rw [hcall]
      exact List.mem_map_of_mem (hsound.owned.ahead _ _ _ hcall List.mem_cons_self)
    have hplace : it.timer ∈ s.loop.places :=
      List.mem_append_left _ (List.mem_append_right _ hheld)
    simp only [called, hcall] at hcalls
    subst hcalls
    by_cases hself : s.loop.queue.activeTimer it.timer = a
    · have hthis : a.timer = it.timer := hself ▸ rfl
      have hsequence : (s.loop.queue.timer it.timer).sequence = a.sequence := hself ▸ rfl
      have hunrun : a.timer ∈ s.loop.unrun := by
        simp [TimerLoop.unrun, hcall, HandleRead.ahead, hthis]
      obtain ⟨hdue, hrepeats⟩ := hs.unrun hunrun (hthis ▸ hself)
      have hexpired := hsound.expired _ _ _ hcall it List.mem_cons_self
      rw [← hthis, hdue] at hexpired
      have hcallsOf : callsOf ⟨{ s.loop with
          handleRead := .callbacks now expired ahead
          started := s.loop.started ++
            [(s.loop.reads, (s.loop.queue.timer it.timer).sequence)] },
          s.calls ++ [((s.loop.queue.timer it.timer).sequence, now)]⟩ a.sequence =
          s.callsOf a.sequence ++ [now] := by
        simp [callsOf, List.filter_append, hsequence]
      refine ⟨?_, ?_, fun hmem => ?_, fun _ _ _ => ⟨_, hcallsOf⟩⟩
      · rw [hcallsOf]
        exact hs.timely.append hexpired hrepeats
      · intro _ hactive
        exact hs.same (hthis ▸ hplace) hactive
      · simp only [TimerLoop.unrun, HandleRead.ahead, List.mem_append, hthis] at hmem
        exact absurd hmem (not_or.mpr ⟨not_or.mpr ⟨htimers, hahead⟩, hadding⟩)
    · have hne : (s.loop.queue.timer it.timer).sequence ≠ a.sequence := fun heq =>
        hself (hsound.owned.unique _ (hsound.owned.ids _ hplace) _ hid heq)
      refine Timed.of_calls (s := ⟨_, s.calls⟩) ?_ (by simp [callsOf, List.filter_append, hne])
      refine hs.of_same hsound.owned hstep (fun hmem _ => ⟨?_, rfl⟩) (fun _ hmem => ?_)
        fun hactive hin hnot => ?_
      · simpa only [places, hcall, HandleRead.held] using hmem
      · simp only [TimerLoop.unrun, hcall, HandleRead.ahead, List.map_cons, List.mem_append,
          List.mem_cons] at hmem ⊢
        exact hmem.imp_left (Or.imp_right .inr)
      · have hother : a.timer ≠ it.timer := fun heq => hself (heq ▸ hactive)
        rw [hcall]
        refine ⟨hin, fun hmem => ?_, rfl⟩
        exact (List.mem_cons.mp hmem).elim hother hnot

section Reset

variable {now nextExpire : Timestamp} {it : Entry} {ahead : List Entry}

/-- `reset` puts the timer back, due an interval after its call, or it puts another one back. -/
theorem Timed.putBack (hs : s.Timed a when interval) (howned : s.loop.Owned)
    (hreset : s.loop.handleRead = .reset now (it :: ahead) nextExpire)
    (hrepeats : (s.loop.queue.timer it.timer).repeats = true) {nextExpire' : Timestamp}
    {timerfd : Timerfd} {u : TimerLoop} (hu : u = { s.loop with
      queue := { s.loop.queue.setTimer it.timer ((s.loop.queue.timer it.timer).restart now) with
        timers := s.loop.queue.timers.insert
          ⟨addTime now (s.loop.queue.timer it.timer).interval, it.timer⟩
        timerfd := timerfd }
      handleRead := .reset now ahead nextExpire' })
    (ht : TimerLoop.step s.loop l = some u) : Timed ⟨u, s.calls⟩ a when interval := by
  obtain ⟨htimers, hahead, hadding⟩ := howned.notMem_of_reset hreset
  by_cases hthis : a.timer = it.timer
  · have hback : u.queue.activeTimer a.timer = a → s.loop.queue.activeTimer a.timer = a := by
      intro hactive
      rw [← hactive, hu]
      exact (activeTimer_restart _ _ _ _).symm
    have hheld : a.timer ∈ s.loop.handleRead.held.map (·.timer) := by
      simp [hreset, HandleRead.held, hthis]
    have hnot : a.timer ∉ s.loop.handleRead.ahead.map (·.timer) := by
      simp [hreset, HandleRead.ahead]
    have hsame : u.queue.activeTimer a.timer = a →
        (s.loop.queue.timer a.timer).interval = interval := fun hactive =>
      hs.same (List.mem_append_left _ (List.mem_append_right _ hheld)) (hback hactive)
    refine ⟨hs.timely, fun _ hactive => ?_, fun _ hactive => ?_, fun hin => ?_⟩
    · rw [← hsame hactive, hu, hthis]
      simp [Timer.restart]
    · obtain ⟨nows, hcalls⟩ := hs.held hheld hnot (hback hactive)
      have hinterval := hsame hactive
      rw [hthis] at hinterval
      refine ⟨?_, fun _ => hinterval ▸ hrepeats⟩
      change _ = interval.due when (s.callsOf a.sequence)
      rw [hcalls, Interval.due_append, hu, hthis, hreset]
      simp [Timer.restart, hrepeats, hinterval, HandleRead.now]
    · rw [hu] at hin
      exact absurd (hthis ▸ hin) hahead
  · refine hs.of_same howned ht (fun hplace _ => ?_) (fun _ hmem => ?_) fun _ hin _ => ?_
    · rw [hu] at hplace ⊢
      refine ⟨(mem_places_of_reset hreset).mpr ?_, timer_setTimer_of_ne _ _ hthis⟩
      simp only [places, HandleRead.held, List.mem_append, mem_timers_insert] at hplace
      rcases hplace with ((heq | hmem) | hmem) | hmem
      · exact absurd heq hthis
      · exact .inl hmem
      · exact .inr (.inr (.inl hmem))
      · exact .inr (.inr (.inr hmem))
    · rw [hu] at hmem
      simp only [TimerLoop.unrun, hreset, HandleRead.ahead, List.mem_append,
        mem_timers_insert] at hmem ⊢
      exact hmem.imp_left (Or.imp_left fun hmem => hmem.resolve_left hthis)
    · rw [hu] at hin ⊢
      rw [hreset]
      exact ⟨List.mem_cons_of_mem _ hin, List.not_mem_nil, rfl⟩

theorem Timed.resetEntry (hs : s.Timed a when interval) (howned : s.loop.Owned)
    {reading : Timestamp} {u : TimerLoop}
    (ht : TimerLoop.step s.loop (.resetEntry reading) = some u) :
    Timed ⟨u, s.calls⟩ a when interval := by
  have hstep := ht
  cases steps_of_step ht with
  | @resetEntry now it ahead nextExpire _ hreset =>
    rw [resetEntry_snd] at hstep ⊢
    rcases restartEntry_cases s.loop.queue now it with ⟨-, heq⟩ | ⟨hrepeats, -, heq⟩
    · rw [heq] at hstep ⊢
      refine hs.of_same howned hstep (fun hplace _ => ⟨?_, rfl⟩) (fun _ hmem => ?_)
        fun _ hin _ => ?_
      · rw [mem_places_of_reset hreset]
        simp only [places, HandleRead.held, List.mem_append] at hplace
        rcases hplace with (hmem | hmem) | hmem
        · exact .inl hmem
        · exact .inr (.inr (.inl hmem))
        · exact .inr (.inr (.inr hmem))
      · simpa only [TimerLoop.unrun, hreset, HandleRead.ahead] using hmem
      · rw [hreset]
        exact ⟨List.mem_cons_of_mem _ hin, List.not_mem_nil, rfl⟩
    · rw [heq] at hstep ⊢
      exact hs.putBack howned hreset hrepeats rfl hstep

end Reset

theorem Timed.step (hs : s.Timed a when interval) (hsound : s.Sound) (hid : a ∈ s.loop.timerIds)
    (h : RecordedLoop.step s l = some t) : t.Timed a when interval := by
  by_cases hrun : l = .runTimer
  · subst hrun
    exact hs.runTimer hsound hid h
  obtain ⟨hloop, hcalls⟩ := step_eq_some.mp h
  obtain ⟨u, calls⟩ := t
  obtain rfl : calls = s.calls := by
    simpa [called_eq_nil _ hrun] using hcalls
  have howned := hsound.owned
  have hstep := hloop
  cases steps_of_step hloop with
  | addTimer _ _ => exact hs.addTimer howned hid hloop
  | addTimerInLoop _ _ => exact hs.addTimerInLoop howned hloop
  | handleRead _ => exact hs.handleRead howned hloop
  | runTimer _ => exact absurd rfl hrun
  | resetEntry _ => exact hs.resetEntry howned hloop
  | cancelInLoop _ _ =>
    rw [cancelInLoop_eq howned.active] at hstep ⊢
    exact hs.of_same howned hstep (fun hplace _ => ⟨hplace, rfl⟩) (fun _ hmem => hmem)
      fun _ hin hnot => ⟨hin, hnot, rfl⟩
  | otherTimer | fire _ =>
    exact hs.of_same howned hstep (fun hplace _ => ⟨hplace, rfl⟩) (fun _ hmem => hmem)
      fun _ hin hnot => ⟨hin, hnot, rfl⟩
  | endCallbacks hcall =>
    exact hs.setHandleRead howned hstep (by rw [hcall]; rfl) (by rw [hcall]; rfl)
      fun _ => by rw [hcall]; rfl
  | endReset hreset =>
    exact hs.setHandleRead howned hstep (by rw [hreset]; rfl) (by rw [hreset]; rfl)
      fun hne => absurd rfl hne

theorem Sound.timed_addTimer (hs : s.Sound) {p : TimerPtr}
    (h : RecordedLoop.step s (.addTimer p when interval) = some t) :
    t.Timed ⟨p, s.loop.numCreated + 1⟩ when interval ∧
      ⟨p, s.loop.numCreated + 1⟩ ∈ t.loop.timerIds := by
  obtain ⟨hloop, hcalls⟩ := step_eq_some.mp h
  obtain ⟨u, calls⟩ := t
  obtain rfl : calls = s.calls := by simpa [called] using hcalls
  have hnone : callsOf ⟨u, s.calls⟩ (s.loop.numCreated + 1) = [] := by
    refine List.map_eq_nil_iff.mpr (List.filter_eq_nil_iff.mpr fun c hc => ?_)
    have hle := hs.created c hc
    simpa using Nat.ne_of_lt (Nat.lt_succ_of_le hle)
  dsimp only at hloop
  cases steps_of_step hloop with
  | addTimer _ hfree =>
    refine ⟨⟨?_, fun _ _ => ?_, fun _ _ => ⟨?_, fun hne => absurd hnone hne⟩, fun hin => ?_⟩, ?_⟩
    · rw [hnone]
      trivial
    · simp
    · rw [hnone]
      simp [Interval.due]
    · have hplace : p ∈ s.loop.places := List.mem_append_left _ (List.mem_append_right _ hin)
      exact absurd hplace (notMem_places hfree)
    · simp

/-- Whatever else is added or cancelled, in any thread, the callback of a timer is not called
before it is due, and after each call it is due an interval later or, without one, never again. -/
theorem run_timely {before after : List TimerLoop.Label} {p : TimerPtr}
    (hbefore : run RecordedLoop.step new before = some s)
    (h : run RecordedLoop.step new (before ++ .addTimer p when interval :: after) = some t) :
    interval.Timely when (t.callsOf (s.loop.numCreated + 1)) := by
  obtain ⟨s', hs', hrest⟩ := run_append.mp h
  obtain rfl : s' = s := Option.some.inj (hs'.symm.trans hbefore)
  obtain ⟨m, hm, hafter⟩ := run_cons.mp hrest
  have hsound : s'.Sound := invariant_run (fun _ _ _ hs h => hs.step h) sound_new hbefore
  obtain ⟨htimed, hid⟩ := hsound.timed_addTimer hm
  have hinv : t.Sound ∧ ⟨p, s'.loop.numCreated + 1⟩ ∈ t.loop.timerIds ∧
      t.Timed ⟨p, s'.loop.numCreated + 1⟩ when interval := by
    refine invariant_run (I := fun t => t.Sound ∧ ⟨p, s'.loop.numCreated + 1⟩ ∈ t.loop.timerIds ∧
      t.Timed ⟨p, s'.loop.numCreated + 1⟩ when interval) ?_ ⟨hsound.step hm, hid, htimed⟩ hafter
    rintro u l v ⟨hu, hid, htimed⟩ hv
    exact ⟨hu.step hv, timerIds_of_step (step_eq_some.mp hv).1 hid, htimed.step hu hid hv⟩
  exact hinv.2.2.timely

def twoCallsRun : List TimerLoop.Label :=
  [.addTimerInLoop 1 ⟨90⟩, .fire, .handleRead ⟨101⟩, .runTimer, .endCallbacks, .resetEntry ⟨103⟩,
    .endReset, .fire, .handleRead ⟨160⟩, .runTimer, .cancelInLoop ⟨1, 1⟩, .endCallbacks,
    .resetEntry ⟨161⟩, .endReset]

theorem run_timely_twoCalls :
    ∃ t, run RecordedLoop.step new ([] ++ .addTimer 1 ⟨100⟩ (.microseconds 50) :: twoCallsRun) =
        some t ∧ t.callsOf 1 = [⟨101⟩, ⟨160⟩] ∧
      (Interval.microseconds 50).Timely ⟨100⟩ (t.callsOf 1) := by
  have hrun : (run RecordedLoop.step new
      ([] ++ .addTimer 1 ⟨100⟩ (.microseconds 50) :: twoCallsRun)).any
        (fun t => t.callsOf 1 = [⟨101⟩, ⟨160⟩]) = true := by decide +kernel
  obtain ⟨t, ht, hcalls⟩ := (Option.any_eq_true _ _).mp hrun
  exact ⟨t, ht, of_decide_eq_true hcalls, run_timely rfl ht⟩

end RecordedLoop

end WebServer.Mymuduo
