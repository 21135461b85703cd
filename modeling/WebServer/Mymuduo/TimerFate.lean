import WebServer.Mymuduo.TimerCancel

namespace WebServer.Mymuduo

open WebServer.Lib

def HandleRead.ahead : HandleRead → List TimerQueue.Entry
  | .callbacks _ _ ahead => ahead
  | _ => []

namespace TimerLoop

open TimerQueue

def Label.isCancel : Label → Bool
  | .cancelInLoop _ => true
  | _ => false

def unrun (s : TimerLoop) : List TimerPtr :=
  s.queue.timers.elems.map (·.timer) ++ s.handleRead.ahead.map (·.timer) ++ s.adding

def runs (s : TimerLoop) (a : ActiveTimer) : Nat := (s.started.map Prod.snd).count a.sequence

def startedNow (s : TimerLoop) : List Nat :=
  (s.started.filter fun r => r.1 = s.reads).map Prod.snd

structure InOrder (s : TimerLoop) (expired ahead : List Entry) : Prop where
  started : ∃ ran, expired = ran ++ ahead ∧
    s.startedNow = ran.map fun it => (s.queue.timer it.timer).sequence
  sorted : expired.Pairwise fun e f => e.when ≤ f.when
  expiration : ∀ it ∈ expired, (s.queue.timer it.timer).expiration = it.when

/-- No timer is cancelled, and the callbacks come in order. -/
structure Orderly (s : TimerLoop) : Prop where
  canceling : s.queue.cancelingTimers = .empty
  startedBy : s.StartedBy
  created : ∀ r ∈ s.started, r.2 ≤ s.numCreated
  inOrder : ∀ now expired ahead, s.handleRead = .callbacks now expired ahead →
    s.InOrder expired ahead

/-- What has become of the timer with this id, added with this interval: its run is ahead, or
`handleRead` has called it and holds it, or, a one-shot timer, it has run and is not kept. -/
inductive Fate (s : TimerLoop) (a : ActiveTimer) (interval : Interval) : Prop where
  | ahead (place : a.timer ∈ s.unrun) (id : s.queue.activeTimer a.timer = a)
      (same : (s.queue.timer a.timer).interval = interval)
      (runs : interval.positive = false → s.runs a = 0)
  | held (place : a.timer ∈ s.handleRead.held.map (·.timer))
      (notAhead : a.timer ∉ s.handleRead.ahead.map (·.timer))
      (id : s.queue.activeTimer a.timer = a)
      (same : (s.queue.timer a.timer).interval = interval)
      (runs : interval.positive = false → s.runs a = 1)
  | gone (oneShot : interval.positive = false)
      (absent : ∀ p ∈ s.places, s.queue.activeTimer p ≠ a) (runs : s.runs a = 1)

variable {s t : TimerLoop} {l : Label} {a : ActiveTimer} {interval : Interval}

theorem orderly_new : new.Orderly := ⟨rfl, nofun, nofun, nofun⟩

theorem Owned.ahead_subset (h : s.Owned) : s.handleRead.ahead ⊆ s.handleRead.held := by
  cases hread : s.handleRead with
  | callbacks now expired ahead => exact h.ahead now expired ahead hread
  | no | reset _ _ _ => exact List.nil_subset _

theorem Owned.unrun_subset (h : s.Owned) : s.unrun ⊆ s.places := by
  intro p hp
  simp only [unrun, places, List.mem_append] at hp ⊢
  refine hp.imp_left (Or.imp_right fun hmem => ?_)
  obtain ⟨it, hit, rfl⟩ := List.mem_map.mp hmem
  exact List.mem_map_of_mem (h.ahead_subset hit)

theorem InOrder.of_eq {expired ahead : List Entry} (h : s.InOrder expired ahead)
    (hstarted : t.started = s.started) (hreads : t.reads = s.reads)
    (htimer : ∀ it ∈ expired, t.queue.timer it.timer = s.queue.timer it.timer) :
    t.InOrder expired ahead := by
  obtain ⟨ran, rfl, hran⟩ := h.started
  refine ⟨⟨ran, rfl, ?_⟩, h.sorted, fun it hit => ?_⟩
  · rw [startedNow, hstarted, hreads]
    refine hran.trans (List.map_congr_left fun it hit => ?_)
    rw [htimer it (List.mem_append_left _ hit)]
  · rw [htimer it hit]
    exact h.expiration it hit

theorem InOrder.runTimer {expired ahead : List Entry} {now : Timestamp} {it : Entry}
    (h : s.InOrder expired (it :: ahead)) :
    InOrder { s with
      handleRead := .callbacks now expired ahead
      started := s.started ++ [(s.reads, (s.queue.timer it.timer).sequence)] } expired ahead := by
  obtain ⟨ran, hexpired, hran⟩ := h.started
  refine ⟨⟨ran ++ [it], by simp [hexpired], ?_⟩, h.sorted, h.expiration⟩
  simp only [startedNow] at hran
  simp [startedNow, List.filter_append, hran]

theorem InOrder.handleRead (howned : s.Owned) (hstarted : s.StartedBy) (now : Timestamp) :
    InOrder { s with
      queue := { s.queue with
        timers := s.queue.timers.eraseBelow (sentry now)
        callingExpiredTimers := true
        cancelingTimers := .empty
        timerfd := readTimerfd s.queue.timerfd }
      handleRead := .callbacks now (s.queue.timers.below (sentry now))
        (s.queue.timers.below (sentry now))
      reads := s.reads + 1 } (s.queue.timers.below (sentry now))
        (s.queue.timers.below (sentry now)) := by
  refine ⟨⟨[], rfl, ?_⟩, ?_, fun it hit => howned.linked it (OrdSet.mem_below.mp hit).1⟩
  · have hnone : (s.started.filter fun r => r.1 = s.reads + 1) = [] := by
      refine List.filter_eq_nil_iff.mpr fun r hr => ?_
      simpa using Nat.ne_of_lt (Nat.lt_succ_of_le (hstarted r hr))
    simp only [startedNow, hnone]
    rfl
  · have hsorted : (s.queue.timers.below (sentry now)).Pairwise (· < ·) :=
      s.queue.timers.sorted.sublist (List.takeWhile_sublist _)
    exact hsorted.imp fun hlt => Entry.when_le hlt.le

theorem cancelingTimers_restartEntry (q : TimerQueue) (now : Timestamp) (it : Entry) :
    (q.restartEntry now it).cancelingTimers = q.cancelingTimers := by
  rcases restartEntry_cases q now it with ⟨-, heq⟩ | ⟨-, -, heq⟩ <;> rw [heq]
  rfl

theorem Orderly.inOrder_of_eq (h : s.Orderly) (howned : s.Owned)
    (ht : TimerLoop.step s l = some t) (hread : t.handleRead = s.handleRead)
    (hstarted : t.started = s.started) (hreads : t.reads = s.reads) (now : Timestamp)
    (expired ahead : List Entry) (hcall : t.handleRead = .callbacks now expired ahead) :
    t.InOrder expired ahead := by
  rw [hread] at hcall
  refine (h.inOrder now expired ahead hcall).of_eq hstarted hreads fun it hit => ?_
  refine timer_of_place howned (mem_places_of_mem_held (by rw [hcall]; exact hit)) ?_ ht
  intro now' it' ahead' nextExpire hreset
  simp [hcall] at hreset

theorem Orderly.step (h : s.Orderly) (howned : s.Owned) (hl : l.isCancel = false)
    (ht : TimerLoop.step s l = some t) : t.Orderly := by
  refine ⟨?_, h.startedBy.step ht, ?_, ?_⟩
  · cases steps_of_step ht with
    | addTimerInLoop _ _ =>
      rw [addTimerInLoop_eq]
      exact h.canceling
    | cancelInLoop _ _ => cases hl
    | handleRead _ => rw [beginRead_eq howned.active]
    | resetEntry _ =>
      rw [resetEntry_snd]
      exact (cancelingTimers_restartEntry _ _ _).trans h.canceling
    | _ => exact h.canceling
  · cases steps_of_step ht with
    | addTimer _ _ | otherTimer => exact fun r hr => Nat.le_succ_of_le (h.created r hr)
    | runTimer hcall =>
      intro r hr
      rcases List.mem_append.mp hr with hr | hr
      · exact h.created r hr
      · obtain rfl := List.mem_singleton.mp hr
        refine howned.sequence _ (howned.ids _ (mem_places_of_mem_held ?_))
        rw [hcall]
        exact howned.ahead _ _ _ hcall List.mem_cons_self
    | _ => exact h.created
  · cases steps_of_step ht with
    | addTimer _ _ | addTimerInLoop _ _ | otherTimer | fire _ =>
      exact h.inOrder_of_eq howned ht rfl rfl rfl
    | cancelInLoop _ _ => cases hl
    | handleRead _ =>
      intro now' expired ahead hcall
      rw [beginRead_eq howned.active] at hcall ⊢
      cases hcall
      exact .handleRead howned h.startedBy _
    | runTimer hcall =>
      intro now' expired ahead hcall'
      cases hcall'
      exact (h.inOrder _ _ _ hcall).runTimer
    | endCallbacks _ | resetEntry _ | endReset _ => exact nofun

theorem Fate.of_same (h : s.Fate a interval) (howned : s.Owned)
    (hunrun : s.queue.activeTimer a.timer = a → a.timer ∈ s.unrun → a.timer ∈ t.unrun)
    (hheld : s.queue.activeTimer a.timer = a → a.timer ∈ s.handleRead.held.map (·.timer) →
      a.timer ∉ s.handleRead.ahead.map (·.timer) → a.timer ∈ t.handleRead.held.map (·.timer) ∧
        a.timer ∉ t.handleRead.ahead.map (·.timer))
    (htimer : s.queue.activeTimer a.timer = a → a.timer ∈ s.places →
      t.queue.timer a.timer = s.queue.timer a.timer)
    (habsent : (∀ p ∈ s.places, s.queue.activeTimer p ≠ a) →
      ∀ p ∈ t.places, t.queue.activeTimer p ≠ a)
    (hruns : t.runs a = s.runs a) : t.Fate a interval := by
  cases h with
  | ahead hplace hid hsame hcount =>
    have hkept := htimer hid (howned.unrun_subset hplace)
    refine .ahead (hunrun hid hplace) ?_ (by rw [hkept, hsame]) fun hone =>
      hruns.trans (hcount hone)
    rw [activeTimer, hkept]
    exact hid
  | held hplace hnot hid hsame hcount =>
    have hkept := htimer hid (List.mem_append_left _ (List.mem_append_right _ hplace))
    obtain ⟨hplace, hnot⟩ := hheld hid hplace hnot
    refine .held hplace hnot ?_ (by rw [hkept, hsame]) fun hone => hruns.trans (hcount hone)
    rw [activeTimer, hkept]
    exact hid
  | gone hone hgone hcount => exact .gone hone (habsent hgone) (hruns.trans hcount)

theorem absent_of_subset (hplaces : t.places ⊆ s.places)
    (hactive : ∀ p ∈ t.places, t.queue.activeTimer p = s.queue.activeTimer p)
    (h : ∀ p ∈ s.places, s.queue.activeTimer p ≠ a) (p : TimerPtr) (hp : p ∈ t.places) :
    t.queue.activeTimer p ≠ a := by
  rw [hactive p hp]
  exact h p (hplaces hp)

theorem Fate.addTimer (h : s.Fate a interval) (howned : s.Owned) (hid : a ∈ s.timerIds)
    {p : TimerPtr} {when : Timestamp} {interval' : Interval}
    (ht : step s (.addTimer p when interval') = some t) : t.Fate a interval := by
  cases steps_of_step ht with
  | addTimer _ hfree =>
    have hnew := notMem_places hfree
    refine h.of_same howned (fun _ hmem => ?_) (fun _ hmem hnot => ⟨hmem, hnot⟩)
      (fun _ hmem => ?_) (fun habsent p' hp' => ?_) rfl
    · simp only [unrun, List.mem_append] at hmem ⊢
      tauto
    · exact timer_setTimer_of_ne _ _ (ne_of_mem_of_not_mem hmem hnew)
    · have hp'' : p' ∈ s.places ∨ p' = p := by
        simp only [places, List.mem_append, List.mem_singleton] at hp' ⊢
        tauto
      rcases hp'' with hp' | rfl
      · rw [activeTimer_setTimer_of_ne _ _ (ne_of_mem_of_not_mem hp' hnew)]
        exact habsent p' hp'
      · rintro rfl
        have hle := howned.sequence _ hid
        simp only [activeTimer, timer_setTimer_self] at hle
        exact Nat.not_succ_le_self _ hle

theorem mem_timers_insert {timers : OrdSet Entry} {e : Entry} {p : TimerPtr} :
    p ∈ (timers.insert e).elems.map (·.timer) ↔ p = e.timer ∨ p ∈ timers.elems.map (·.timer) := by
  constructor
  · intro hp
    obtain ⟨e', he', rfl⟩ := List.mem_map.mp hp
    rcases OrdSet.mem_insert.mp he' with rfl | he'
    · exact .inl rfl
    · exact .inr (List.mem_map_of_mem he')
  · rintro (rfl | hp)
    · exact List.mem_map_of_mem (OrdSet.mem_insert.mpr (.inl rfl))
    · obtain ⟨e', he', rfl⟩ := List.mem_map.mp hp
      exact List.mem_map_of_mem (OrdSet.mem_insert.mpr (.inr he'))

theorem mem_timers_below {timers : OrdSet Entry} {e : Entry} {p : TimerPtr} :
    p ∈ timers.elems.map (·.timer) ↔
      p ∈ (timers.below e).map (·.timer) ∨ p ∈ (timers.eraseBelow e).elems.map (·.timer) := by
  rw [OrdSet.elems_eq_below_append timers e, List.map_append, List.mem_append]

theorem Fate.addTimerInLoop (h : s.Fate a interval) (howned : s.Owned) {p : TimerPtr}
    {now : Timestamp} (ht : step s (.addTimerInLoop p now) = some t) : t.Fate a interval := by
  cases steps_of_step ht with
  | addTimerInLoop _ hp =>
    rw [addTimerInLoop_eq]
    refine h.of_same howned (fun _ hplace => ?_) (fun _ hplace hnot => ⟨hplace, hnot⟩)
      (fun _ _ => rfl) (absent_of_subset (fun p' hp' => ?_) fun _ _ => rfl) rfl
    · simp only [unrun, List.mem_append, mem_timers_insert] at hplace ⊢
      rcases hplace with hplace | hplace
      · exact .inl (hplace.imp_left .inr)
      · by_cases heq : a.timer = p
        · exact .inl (.inl (.inl heq))
        · exact .inr ((List.mem_erase_of_ne heq).mpr hplace)
    · simp only [places, List.mem_append, mem_timers_insert] at hp' ⊢
      rcases hp' with ((rfl | hp') | hp') | hp'
      · exact .inr hp
      · exact .inl (.inl hp')
      · exact .inl (.inr hp')
      · exact .inr (List.mem_of_mem_erase hp')

theorem Fate.handleRead (h : s.Fate a interval) (howned : s.Owned) {now : Timestamp}
    (ht : step s (.handleRead now) = some t) : t.Fate a interval := by
  cases steps_of_step ht with
  | handleRead hno =>
    rw [beginRead_eq howned.active]
    refine h.of_same howned (fun _ hplace => ?_) (fun _ hplace _ => ?_) (fun _ _ => rfl)
      (absent_of_subset (fun p hp => ?_) fun _ _ => rfl) rfl
    · simp only [unrun, hno, HandleRead.ahead, List.mem_append, List.map_nil, List.not_mem_nil,
        or_false] at hplace ⊢
      rw [mem_timers_below (e := sentry now)] at hplace
      exact hplace.imp_left Or.symm
    · simp only [hno, HandleRead.held, List.map_nil, List.not_mem_nil] at hplace
    · simp only [places, hno, HandleRead.held, List.mem_append, List.map_nil, List.not_mem_nil,
        or_false] at hp ⊢
      rw [mem_timers_below (e := sentry now)]
      exact hp.imp_left Or.symm

theorem runs_append (howned : s.Owned) (hid : a ∈ s.timerIds) {p : TimerPtr} (hp : p ∈ s.places)
    (n : Nat) : ((s.started ++ [(n, (s.queue.timer p).sequence)]).map Prod.snd).count a.sequence =
      s.runs a + if s.queue.activeTimer p = a then 1 else 0 := by
  have hiff : (s.queue.timer p).sequence = a.sequence ↔ s.queue.activeTimer p = a :=
    ⟨fun heq => howned.unique _ (howned.ids p hp) _ hid heq, fun heq => heq ▸ rfl⟩
  simp only [List.map_append, List.count_append, runs, List.map_cons, List.map_nil,
    List.count_singleton, beq_iff_eq, hiff]

theorem Fate.runTimer (h : s.Fate a interval) (howned : s.Owned) (horderly : s.Orderly)
    (hid : a ∈ s.timerIds) (ht : step s .runTimer = some t) : t.Fate a interval := by
  cases steps_of_step ht with
  | @runTimer now expired it ahead hcall =>
    obtain ⟨ran, rfl, -⟩ := (horderly.inOrder _ _ _ hcall).started
    have hplaces : it.timer ∈ s.places :=
      mem_places_of_mem_held (by rw [hcall]; simp [HandleRead.held])
    have hcount := runs_append howned hid hplaces s.reads
    have hnodup : it.timer ∉ ahead.map (·.timer) := by
      have hheld := (List.nodup_append.mp (List.nodup_append.mp howned.nodup).1).2.1
      rw [hcall] at hheld
      simp only [HandleRead.held, List.map_append, List.map_cons, List.nodup_append,
        List.nodup_cons] at hheld
      exact hheld.2.1.1
    by_cases hself : s.queue.activeTimer it.timer = a
    · have hplace : a.timer = it.timer := hself ▸ rfl
      rw [if_pos hself] at hcount
      cases h with
      | ahead _ hid hsame hruns =>
        refine .held ?_ (hplace ▸ hnodup) hid hsame fun hone => ?_
        · simp [HandleRead.held, hplace]
        · exact hcount.trans (congrArg (· + 1) (hruns hone))
      | held _ hnot =>
        rw [hcall] at hnot
        simp [HandleRead.ahead, hplace] at hnot
      | gone _ habsent => exact absurd hself (habsent _ hplaces)
    · rw [if_neg hself, Nat.add_zero] at hcount
      have hne : s.queue.activeTimer a.timer = a → a.timer ≠ it.timer := fun hid heq =>
        hself (heq ▸ hid)
      refine h.of_same howned (fun hid hplace => ?_) (fun _ hplace hnot => ?_) (fun _ _ => rfl)
        (absent_of_subset ?_ fun _ _ => rfl) hcount
      · simp only [unrun, hcall, HandleRead.ahead, List.map_cons, List.mem_append,
          List.mem_cons, hne hid, false_or] at hplace ⊢
        exact hplace
      · rw [hcall] at hplace hnot
        exact ⟨hplace, fun hmem => hnot (List.mem_cons_of_mem _ hmem)⟩
      · simp only [places, hcall]
        exact List.Subset.refl _

section Reset

variable {now nextExpire : Timestamp} {it : Entry} {ahead : List Entry}

theorem mem_places_of_reset (hreset : s.handleRead = .reset now (it :: ahead) nextExpire)
    {p : TimerPtr} : p ∈ s.places ↔ p ∈ s.queue.timers.elems.map (·.timer) ∨ p = it.timer ∨
      p ∈ ahead.map (·.timer) ∨ p ∈ s.adding := by
  simp only [places, hreset, HandleRead.held, List.map_cons, List.mem_append, List.mem_cons,
    or_assoc]

theorem Fate.of_reset (h : s.Fate a interval) (howned : s.Owned)
    (hreset : s.handleRead = .reset now (it :: ahead) nextExpire)
    (hself : s.queue.activeTimer it.timer = a) :
    (s.queue.timer it.timer).interval = interval ∧
      (interval.positive = false → s.runs a = 1) := by
  have hplace : a.timer = it.timer := hself ▸ rfl
  cases h with
  | ahead hmem =>
    obtain ⟨htimers, -, hadding⟩ := howned.notMem_of_reset hreset
    simp only [unrun, hreset, HandleRead.ahead, List.map_nil, List.append_nil, List.mem_append,
      hplace] at hmem
    exact absurd hmem (not_or.mpr ⟨htimers, hadding⟩)
  | held _ _ _ hsame hruns => exact ⟨hplace ▸ hsame, hruns⟩
  | gone _ habsent =>
    exact absurd hself (habsent _ ((mem_places_of_reset hreset).mpr (.inr (.inl rfl))))

theorem mem_ahead_of_reset (hreset : s.handleRead = .reset now (it :: ahead) nextExpire)
    (hself : s.queue.activeTimer it.timer ≠ a) (hid : s.queue.activeTimer a.timer = a)
    (hmem : a.timer ∈ s.handleRead.held.map (·.timer)) : a.timer ∈ ahead.map (·.timer) := by
  have hne : a.timer ≠ it.timer := fun heq => hself (heq ▸ hid)
  rw [hreset] at hmem
  exact List.mem_of_ne_of_mem hne hmem

theorem Fate.letGo (h : s.Fate a interval) (howned : s.Owned)
    (hreset : s.handleRead = .reset now (it :: ahead) nextExpire)
    (hrepeats : (s.queue.timer it.timer).repeats = false) (nextExpire' : Timestamp)
    (timerfd : Timerfd) : Fate { s with
      queue := { s.queue with timerfd := timerfd }
      handleRead := .reset now ahead nextExpire' } a interval := by
  obtain ⟨htimers, hahead, hadding⟩ := howned.notMem_of_reset hreset
  have hsub : ∀ p ∈ s.queue.timers.elems.map (·.timer) ++ ahead.map (·.timer) ++ s.adding,
      p ∈ s.places ∧ p ≠ it.timer := by
    intro p hp
    rw [mem_places_of_reset hreset]
    simp only [List.mem_append] at hp
    rcases hp with (hp | hp) | hp
    · exact ⟨.inl hp, ne_of_mem_of_not_mem hp htimers⟩
    · exact ⟨.inr (.inr (.inl hp)), ne_of_mem_of_not_mem hp hahead⟩
    · exact ⟨.inr (.inr (.inr hp)), ne_of_mem_of_not_mem hp hadding⟩
  by_cases hself : s.queue.activeTimer it.timer = a
  · obtain ⟨hsame, hruns⟩ := h.of_reset howned hreset hself
    have hone : interval.positive = false := hsame ▸ hrepeats
    refine .gone hone (fun p hp hid => ?_) (hruns hone)
    exact (hsub p hp).2 (congrArg ActiveTimer.timer (hid.trans hself.symm))
  · refine h.of_same howned (fun _ hmem => ?_) (fun hid hmem _ =>
      ⟨mem_ahead_of_reset hreset hself hid hmem, List.not_mem_nil⟩) (fun _ _ => rfl)
      (absent_of_subset (fun p hp => (hsub p hp).1) fun _ _ => rfl) rfl
    simpa only [unrun, hreset, HandleRead.ahead] using hmem

theorem Fate.putBack (h : s.Fate a interval) (howned : s.Owned)
    (hreset : s.handleRead = .reset now (it :: ahead) nextExpire)
    (hrepeats : (s.queue.timer it.timer).repeats = true) (when nextExpire' : Timestamp)
    (timerfd : Timerfd) : Fate { s with
      queue := { s.queue.setTimer it.timer ((s.queue.timer it.timer).restart now) with
        timers := s.queue.timers.insert ⟨when, it.timer⟩, timerfd := timerfd }
      handleRead := .reset now ahead nextExpire' } a interval := by
  by_cases hself : s.queue.activeTimer it.timer = a
  · obtain ⟨hsame, -⟩ := h.of_reset howned hreset hself
    have hplace : a.timer = it.timer := hself ▸ rfl
    refine .ahead ?_ ?_ ?_ fun hone => ?_
    · simp only [unrun, List.mem_append, mem_timers_insert]
      exact .inl (.inl (.inl hplace))
    · rw [hplace]
      exact (activeTimer_restart _ _ _ _).trans hself
    · simpa [hplace, Timer.restart] using hsame
    · rw [Timer.repeats, hsame, hone] at hrepeats
      cases hrepeats
  · have hne : s.queue.activeTimer a.timer = a → a.timer ≠ it.timer := fun hid heq =>
      hself (heq ▸ hid)
    refine h.of_same howned (fun _ hmem => ?_) (fun hid hmem _ =>
      ⟨mem_ahead_of_reset hreset hself hid hmem, List.not_mem_nil⟩)
      (fun hid _ => timer_setTimer_of_ne _ _ (hne hid))
      (absent_of_subset (fun p hp => (mem_places_of_reset hreset).mpr ?_) fun p _ =>
        activeTimer_restart _ _ p _) rfl
    · simp only [unrun, hreset, HandleRead.ahead, List.mem_append, mem_timers_insert] at hmem ⊢
      exact hmem.imp_left (Or.imp_left .inr)
    · simp only [places, HandleRead.held, List.mem_append, mem_timers_insert] at hp
      rcases hp with ((rfl | hp) | hp) | hp
      · exact .inr (.inl rfl)
      · exact .inl hp
      · exact .inr (.inr (.inl hp))
      · exact .inr (.inr (.inr hp))

theorem Fate.restartEntry (h : s.Fate a interval) (howned : s.Owned) (horderly : s.Orderly)
    (hreset : s.handleRead = .reset now (it :: ahead) nextExpire) (nextExpire' : Timestamp)
    (timerfd : Timerfd) : Fate { s with
      queue := { s.queue.restartEntry now it with timerfd := timerfd }
      handleRead := .reset now ahead nextExpire' } a interval := by
  have hcanceling : s.queue.activeTimer it.timer ∉ s.queue.cancelingTimers := by
    rw [horderly.canceling]
    exact OrdSet.notMem_empty _
  rcases restartEntry_cases s.queue now it with ⟨hnot, heq⟩ | ⟨hrepeats, -, heq⟩
  · rw [heq]
    exact h.letGo howned hreset (by simpa [hcanceling] using hnot) nextExpire' timerfd
  · rw [heq]
    exact h.putBack howned hreset hrepeats _ nextExpire' timerfd

end Reset

theorem Fate.resetEntry (h : s.Fate a interval) (howned : s.Owned) (horderly : s.Orderly)
    {reading : Timestamp} (ht : step s (.resetEntry reading) = some t) : t.Fate a interval := by
  cases steps_of_step ht with
  | resetEntry hreset =>
    rw [resetEntry_snd]
    exact h.restartEntry howned horderly hreset _ _

theorem Fate.step (h : s.Fate a interval) (howned : s.Owned) (horderly : s.Orderly)
    (hid : a ∈ s.timerIds) (hl : l.isCancel = false) (ht : TimerLoop.step s l = some t) :
    t.Fate a interval := by
  cases steps_of_step ht with
  | addTimer _ _ => exact h.addTimer howned hid ht
  | addTimerInLoop _ _ => exact h.addTimerInLoop howned ht
  | cancelInLoop _ _ => cases hl
  | handleRead _ => exact h.handleRead howned ht
  | runTimer _ => exact h.runTimer howned horderly hid ht
  | resetEntry _ => exact h.resetEntry howned horderly ht
  | otherTimer | fire _ =>
    exact h.of_same howned (fun _ => id) (fun _ hplace hnot => ⟨hplace, hnot⟩) (fun _ _ => rfl)
      (absent_of_subset (List.Subset.refl _) fun _ _ => rfl) rfl
  | endCallbacks hcall =>
    refine h.of_same howned (fun _ hplace => ?_) (fun _ hplace hnot => ?_) (fun _ _ => rfl)
      (absent_of_subset ?_ fun _ _ => rfl) rfl
    · simpa only [unrun, hcall, HandleRead.ahead] using hplace
    · rw [hcall] at hplace
      exact ⟨hplace, List.not_mem_nil⟩
    · simp only [places, hcall]
      exact List.Subset.refl _
  | endReset hreset =>
    refine h.of_same howned (fun _ hplace => ?_) (fun _ hplace hnot => ?_) (fun _ _ => rfl)
      (absent_of_subset ?_ fun _ _ => rfl) rfl
    · simpa only [unrun, hreset, HandleRead.ahead] using hplace
    · rw [hreset] at hplace
      cases hplace
    · simp only [places, hreset]
      exact List.Subset.refl _

def Has (s : TimerLoop) (a : ActiveTimer) : Prop :=
  ∃ e ∈ s.queue.timers, s.queue.activeTimer e.timer = a

def Waits (s : TimerLoop) (a : ActiveTimer) : Prop :=
  ∃ p ∈ s.adding, s.queue.activeTimer p = a

/-- A repeating timer is kept, and a one-shot timer is kept until it has run once. -/
def Accounted (s : TimerLoop) (a : ActiveTimer) (interval : Interval) : Prop :=
  if interval.positive then s.Has a
  else s.Has a ∧ s.runs a = 0 ∨ ¬ s.Has a ∧ s.runs a = 1

theorem Fate.accounted (h : s.Fate a interval) (hno : s.handleRead = .no) (hadded : ¬ s.Waits a) :
    s.Accounted a interval := by
  cases h with
  | ahead hplace hid hsame hruns =>
    have hhas : s.Has a := by
      simp only [unrun, hno, HandleRead.ahead, List.map_nil, List.append_nil,
        List.mem_append] at hplace
      rcases hplace with hplace | hplace
      · obtain ⟨e, he, heq⟩ := List.mem_map.mp hplace
        exact ⟨e, he, by rw [heq, hid]⟩
      · exact absurd ⟨a.timer, hplace, hid⟩ hadded
    rw [Accounted]
    split
    · exact hhas
    · next hone => exact .inl ⟨hhas, hruns (Bool.eq_false_iff.mpr hone)⟩
  | held hplace =>
    rw [hno] at hplace
    cases hplace
  | gone hone habsent hruns =>
    rw [Accounted, if_neg (Bool.eq_false_iff.mp hone)]
    refine .inr ⟨?_, hruns⟩
    rintro ⟨e, he, heq⟩
    exact habsent _ (mem_places_of_mem he) heq

theorem fate_addTimer (horderly : s.Orderly) {p : TimerPtr} {when : Timestamp}
    (ht : step s (.addTimer p when interval) = some t) :
    t.Fate ⟨p, s.numCreated + 1⟩ interval ∧ ⟨p, s.numCreated + 1⟩ ∈ t.timerIds := by
  cases steps_of_step ht with
  | addTimer _ _ =>
    refine ⟨.ahead ?_ ?_ ?_ fun _ => ?_, ?_⟩
    · simp [unrun]
    · simp [activeTimer]
    · simp
    · refine List.count_eq_zero.mpr fun hmem => ?_
      obtain ⟨r, hr, heq⟩ := List.mem_map.mp hmem
      exact absurd (heq ▸ horderly.created r hr) (Nat.not_succ_le_self _)
    · simp

theorem timerIds_of_step (ht : step s l = some t) : s.timerIds ⊆ t.timerIds := by
  cases steps_of_step ht with
  | addTimer _ _ => exact List.subset_append_left _ _
  | _ => exact List.Subset.refl _

theorem orderly_of_run {ls : List Label} (hls : ∀ l ∈ ls, l.isCancel = false)
    (h : run step new ls = some s) : s.Owned ∧ s.Orderly := by
  refine invariant_along (I := fun s => s.Owned ∧ s.Orderly) (P := fun _ l => l.isCancel = false)
    ?_ ⟨owned_new, orderly_new⟩ ((along_iff_forall h).mpr hls) h
  rintro s l t ⟨howned, horderly⟩ hl ht
  exact ⟨howned.step ht, horderly.step howned hl ht⟩

theorem fate_of_run {before after : List Label} {p : TimerPtr} {when : Timestamp}
    (hls : ∀ l ∈ before ++ .addTimer p when interval :: after, l.isCancel = false)
    (hbefore : run step new before = some s)
    (h : run step new (before ++ .addTimer p when interval :: after) = some t) :
    t.Fate ⟨p, s.numCreated + 1⟩ interval := by
  obtain ⟨s', hs', hrest⟩ := run_append.mp h
  obtain rfl : s' = s := Option.some.inj (hs'.symm.trans hbefore)
  obtain ⟨m, hm, hafter⟩ := run_cons.mp hrest
  obtain ⟨hlbefore, hladd, hlafter⟩ := by
    simpa only [List.forall_mem_append, List.forall_mem_cons] using hls
  obtain ⟨howned, horderly⟩ := orderly_of_run hlbefore hbefore
  obtain ⟨hfate, hid⟩ := fate_addTimer horderly hm
  generalize (⟨p, s'.numCreated + 1⟩ : ActiveTimer) = a at hfate hid ⊢
  have hstep : ∀ u (l : Label) v, Owned u ∧ Orderly u ∧ a ∈ u.timerIds ∧ u.Fate a interval →
      l.isCancel = false → step u l = some v →
      Owned v ∧ Orderly v ∧ a ∈ v.timerIds ∧ v.Fate a interval := by
    rintro u l v ⟨howned, horderly, hid, hfate⟩ hl hv
    exact ⟨howned.step hv, horderly.step howned hl hv, timerIds_of_step hv hid,
      hfate.step howned horderly hid hl hv⟩
  exact (invariant_along (P := fun _ (l : Label) => l.isCancel = false) hstep
    ⟨howned.step hm, horderly.step howned hladd hm, hid, hfate⟩
    ((along_iff_forall hafter).mpr hlafter) hafter).2.2.2

/-- No timer is lost or run twice. -/
theorem timers_accounted {ls : List Label} (hls : ∀ l ∈ ls, l.isCancel = false)
    (h : run step new ls = some t) :
    (∀ e ∈ t.queue.timers, (t.queue.timer e.timer).expiration = e.when) ∧
      (t.queue.timers.elems.map (·.timer)).Nodup ∧
      (∀ now expired ahead, t.handleRead = .callbacks now expired ahead →
        t.InOrder expired ahead) ∧
      (t.handleRead = .no → ∀ before p when interval after s,
        ls = before ++ .addTimer p when interval :: after → run step new before = some s →
          ¬ t.Waits ⟨p, s.numCreated + 1⟩ → t.Accounted ⟨p, s.numCreated + 1⟩ interval) := by
  obtain ⟨howned, horderly⟩ := orderly_of_run hls h
  refine ⟨howned.linked, ?_, horderly.inOrder, ?_⟩
  · exact (List.nodup_append.mp (List.nodup_append.mp howned.nodup).1).1
  · rintro hno before p when interval after s rfl hbefore hadded
    exact (fate_of_run hls hbefore h).accounted hno hadded

def twoTimersRun : List Label :=
  [.addTimer 1 ⟨100⟩ (.microseconds 50), .addTimerInLoop 1 ⟨90⟩, .addTimer 2 ⟨95⟩ .zero,
    .addTimerInLoop 2 ⟨90⟩, .fire, .handleRead ⟨101⟩, .runTimer, .runTimer, .endCallbacks,
    .resetEntry ⟨103⟩, .resetEntry ⟨103⟩, .endReset]

theorem timers_accounted_twoTimersRun : ∃ t, run step new twoTimersRun = some t ∧
    t.handleRead = .no ∧ t.started = [(1, 2), (1, 1)] ∧
    (t.queue.timers.elems.map (·.timer)).Nodup ∧
    t.Accounted ⟨1, 1⟩ (.microseconds 50) ∧ t.Accounted ⟨2, 2⟩ .zero := by
  have hrun : (run step new twoTimersRun).any (fun t => t.handleRead = .no ∧
      t.adding = [] ∧ t.started = [(1, 2), (1, 1)]) = true := by decide +kernel
  obtain ⟨t, ht, hstate⟩ := (Option.any_eq_true _ _).mp hrun
  obtain ⟨hno, hadding, hstarted⟩ := of_decide_eq_true hstate
  obtain ⟨-, hnodup, -, haccounted⟩ := timers_accounted (by decide +kernel) ht
  have hadded (a : ActiveTimer) : ¬ t.Waits a := by
    rintro ⟨p, hp, -⟩
    simp [hadding] at hp
  exact ⟨t, ht, hno, hstarted, hnodup,
    haccounted hno [] 1 ⟨100⟩ _ _ new rfl rfl (hadded _),
    haccounted hno (twoTimersRun.take 2) 2 ⟨95⟩ _ _ _ rfl rfl (hadded _)⟩

end TimerLoop

end WebServer.Mymuduo
