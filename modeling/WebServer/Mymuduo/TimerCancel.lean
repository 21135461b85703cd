import WebServer.Mymuduo.TimerOwnership

namespace WebServer.Mymuduo.TimerLoop

open WebServer.Lib TimerQueue

def Pending (s : TimerLoop) (timerId : ActiveTimer) : Prop :=
  ∃ p ∈ s.queue.timers.elems.map (·.timer) ++ s.adding, s.queue.activeTimer p = timerId

def SameTimers (s : TimerLoop) : Prop :=
  ∀ a, a ∈ s.queue.activeTimers ↔ ∃ e ∈ s.queue.timers, a = s.queue.activeTimer e.timer

/-- A cancelled timer that is not pending: only the `handleRead` number `n` still has it, and will
not put it back. -/
structure Gone (n : Nat) (timerId : ActiveTimer) (s : TimerLoop) : Prop where
  id : timerId ∈ s.timerIds
  notPending : ¬ s.Pending timerId
  held : ∀ it ∈ s.handleRead.held, s.queue.activeTimer it.timer = timerId →
    s.reads = n ∧ timerId ∈ s.queue.cancelingTimers
  reads : n ≤ s.reads
  silent : ∀ m, n < m → (m, timerId.sequence) ∉ s.started

def StartedBy (s : TimerLoop) : Prop := ∀ r ∈ s.started, r.1 ≤ s.reads

variable {s t : TimerLoop} {l : Label} {n : Nat} {timerId : ActiveTimer}

theorem sameTimers_iff (h : s.queue.activeTimers = .empty) :
    s.SameTimers ↔ s.queue.timers = .empty := by
  rw [OrdSet.eq_empty_iff]
  constructor
  · intro hsame e he
    exact OrdSet.notMem_empty _ (h ▸ (hsame _).mpr ⟨e, he, rfl⟩)
  · intro hempty a
    rw [h]
    exact iff_of_false (OrdSet.notMem_empty a) fun ⟨e, he, _⟩ => hempty e he

theorem mem_places_of_mem_held {it : Entry} (h : it ∈ s.handleRead.held) : it.timer ∈ s.places :=
  List.mem_append_left _ (List.mem_append_right _ (List.mem_map_of_mem h))

theorem mem_places_of_pending {p : TimerPtr}
    (h : p ∈ s.queue.timers.elems.map (·.timer) ++ s.adding) : p ∈ s.places := by
  rcases List.mem_append.mp h with h | h
  · exact List.mem_append_left _ (List.mem_append_left _ h)
  · exact List.mem_append_right _ h

theorem Gone.addTimer (h : Gone n timerId s) (howned : s.Owned) {p : TimerPtr} {when : Timestamp}
    {interval : Interval} (ht : step s (.addTimer p when interval) = some t) :
    Gone n timerId t := by
  cases steps_of_step ht with
  | addTimer _ hfree =>
    have hnew := notMem_places hfree
    refine ⟨List.mem_append_left _ h.id, ?_, ?_, h.reads, h.silent⟩
    · rintro ⟨p', hp', heq⟩
      rw [← List.append_assoc] at hp'
      rcases List.mem_append.mp hp' with hp' | hp'
      · rw [activeTimer_setTimer_of_ne _ _
          (ne_of_mem_of_not_mem (mem_places_of_pending (s := s) hp') hnew)] at heq
        exact h.notPending ⟨p', hp', heq⟩
      · obtain rfl := List.mem_singleton.mp hp'
        have hle := howned.sequence _ h.id
        simp only [activeTimer, timer_setTimer_self] at heq
        rw [← heq] at hle
        exact Nat.not_succ_le_self _ hle
    · intro it hit heq
      rw [activeTimer_setTimer_of_ne _ _
        (ne_of_mem_of_not_mem (mem_places_of_mem_held (s := s) hit) hnew)] at heq
      exact h.held it hit heq

theorem Gone.addTimerInLoop (h : Gone n timerId s) {p : TimerPtr} {now : Timestamp}
    (ht : step s (.addTimerInLoop p now) = some t) : Gone n timerId t := by
  cases steps_of_step ht with
  | addTimerInLoop _ hp =>
    rw [addTimerInLoop_eq]
    refine ⟨h.id, ?_, h.held, h.reads, h.silent⟩
    rintro ⟨p', hp', heq⟩
    refine h.notPending ⟨p', ?_, heq⟩
    rcases List.mem_append.mp hp' with hp' | hp'
    · obtain ⟨e, he, rfl⟩ := List.mem_map.mp hp'
      rcases OrdSet.mem_insert.mp he with rfl | he
      · exact List.mem_append_right _ hp
      · exact List.mem_append_left _ (List.mem_map_of_mem he)
    · exact List.mem_append_right _ (List.mem_of_mem_erase hp')

theorem Gone.handleRead (h : Gone n timerId s) (howned : s.Owned) {now : Timestamp}
    (ht : step s (.handleRead now) = some t) : Gone n timerId t := by
  cases steps_of_step ht with
  | handleRead hno =>
    rw [beginRead_eq howned.active]
    refine ⟨h.id, ?_, ?_, Nat.le_succ_of_le h.reads, h.silent⟩
    · rintro ⟨p', hp', heq⟩
      refine h.notPending ⟨p', ?_, heq⟩
      rcases List.mem_append.mp hp' with hp' | hp'
      · obtain ⟨e, he, rfl⟩ := List.mem_map.mp hp'
        exact List.mem_append_left _ (List.mem_map_of_mem (OrdSet.mem_eraseBelow.mp he).1)
      · exact List.mem_append_right _ hp'
    · intro it hit heq
      refine absurd ⟨it.timer, List.mem_append_left _ ?_, heq⟩ h.notPending
      exact List.mem_map_of_mem (OrdSet.mem_below.mp hit).1

theorem Gone.runTimer (h : Gone n timerId s) (howned : s.Owned)
    (ht : step s .runTimer = some t) : Gone n timerId t := by
  cases steps_of_step ht with
  | @runTimer now expired it ahead hcall =>
    have hheld : it ∈ s.handleRead.held := by
      rw [hcall]
      exact howned.ahead _ _ _ hcall List.mem_cons_self
    refine ⟨h.id, h.notPending, ?_, h.reads, fun m hm hstarted => ?_⟩
    · intro it' hit'
      exact h.held it' (by rw [hcall]; exact hit')
    · rcases List.mem_append.mp hstarted with hstarted | hlast
      · exact h.silent m hm hstarted
      · obtain ⟨rfl, heq⟩ := Prod.mk.inj (List.mem_singleton.mp hlast)
        have hself := howned.unique _ (howned.ids _ (mem_places_of_mem_held hheld)) _ h.id heq.symm
        exact absurd (h.held it hheld hself).1 hm.ne'

theorem Gone.resetEntry (h : Gone n timerId s) {reading : Timestamp}
    (ht : step s (.resetEntry reading) = some t) : Gone n timerId t := by
  cases steps_of_step ht with
  | @resetEntry now it ahead nextExpire _ hreset =>
    have hheld := h.held
    simp only [hreset, HandleRead.held] at hheld
    have hcanceling : (s.queue.restartEntry now it).cancelingTimers = s.queue.cancelingTimers := by
      rcases restartEntry_cases s.queue now it with ⟨-, heq⟩ | ⟨-, -, heq⟩ <;> rw [heq]
      rfl
    rw [resetEntry_snd]
    refine ⟨h.id, ?_, ?_, h.reads, h.silent⟩
    · rintro ⟨p, hp, heq⟩
      change (s.queue.restartEntry now it).activeTimer p = timerId at heq
      rw [activeTimer_restartEntry] at heq
      rcases restartEntry_cases s.queue now it with ⟨-, hq⟩ | ⟨-, hkeep, hq⟩
      · rw [hq] at hp
        exact h.notPending ⟨p, hp, heq⟩
      · rw [hq] at hp
        rcases List.mem_append.mp hp with hp | hp
        · obtain ⟨e, he, rfl⟩ := List.mem_map.mp hp
          rcases OrdSet.mem_insert.mp he with rfl | he
          · -- `reset` puts back only what is not in `cancelingTimers_`
            exact hkeep (heq ▸ (hheld it List.mem_cons_self heq).2)
          · exact h.notPending ⟨_, List.mem_append_left _ (List.mem_map_of_mem he), heq⟩
        · exact h.notPending ⟨p, List.mem_append_right _ hp, heq⟩
    · intro it' hit' heq
      change (s.queue.restartEntry now it).activeTimer it'.timer = timerId at heq
      rw [activeTimer_restartEntry] at heq
      have hgone := hheld it' (List.mem_cons_of_mem _ hit') heq
      exact ⟨hgone.1, hcanceling ▸ hgone.2⟩

theorem Gone.step (h : Gone n timerId s) (howned : s.Owned) (ht : step s l = some t) :
    Gone n timerId t := by
  cases steps_of_step ht with
  | addTimer _ _ => exact h.addTimer howned ht
  | otherTimer | fire _ => exact ⟨h.id, h.notPending, h.held, h.reads, h.silent⟩
  | addTimerInLoop _ _ => exact h.addTimerInLoop ht
  | cancelInLoop _ _ =>
    rw [cancelInLoop_eq howned.active]
    refine ⟨h.id, h.notPending, fun it hit heq => ⟨(h.held it hit heq).1, ?_⟩, h.reads, h.silent⟩
    have hmem := (h.held it hit heq).2
    split
    · exact OrdSet.mem_insert.mpr (.inr hmem)
    · exact hmem
  | handleRead _ => exact h.handleRead howned ht
  | runTimer _ => exact h.runTimer howned ht
  | endCallbacks hcall =>
    exact ⟨h.id, h.notPending, fun it hit => h.held it (by rw [hcall]; exact hit), h.reads,
      h.silent⟩
  | resetEntry _ => exact h.resetEntry ht
  | endReset _ =>
    exact ⟨h.id, h.notPending, fun _ hit => absurd hit List.not_mem_nil, h.reads, h.silent⟩

theorem StartedBy.step (h : s.StartedBy) (ht : step s l = some t) : t.StartedBy := by
  cases steps_of_step ht with
  | handleRead _ => exact fun r hr => Nat.le_succ_of_le (h r hr)
  | runTimer _ =>
    intro r hr
    rcases List.mem_append.mp hr with hr | hr
    · exact h r hr
    · obtain rfl := List.mem_singleton.mp hr
      exact le_rfl
  | _ => exact h

theorem gone_of_cancel (howned : s.Owned) (hstarted : s.StartedBy)
    (ht : step s (.cancelInLoop timerId) = some t) (hpending : ¬ s.Pending timerId) :
    Gone s.reads timerId t := by
  cases steps_of_step ht with
  | cancelInLoop huser hid =>
    rw [cancelInLoop_eq howned.active]
    refine ⟨hid, hpending, fun it hit _ => ⟨rfl, ?_⟩, le_rfl,
      fun m hm hmem => absurd (hstarted _ hmem) (not_le.mpr hm)⟩
    have hcalling : s.queue.callingExpiredTimers = true := by
      rw [howned.calling]
      cases hread : s.handleRead with
      | no =>
        simp only [hread, HandleRead.held] at hit
        cases hit
      | callbacks now expired ahead => rfl
      | reset now ahead nextExpire => simp [userCode, hread] at huser
    rw [if_pos hcalling]
    exact OrdSet.mem_insert.mpr (.inl rfl)

/-- A way to go on in which pending timers stay pending and `handleRead` is not called. -/
structure Keeps (s t : TimerLoop) : Prop where
  reaches : Reaches step s t
  reads : t.reads = s.reads
  pending : ∀ timerId, s.Pending timerId → t.Pending timerId

theorem Keeps.head {m : TimerLoop} (hm : step s l = some m) (hreads : m.reads = s.reads)
    (hpending : ∀ timerId, s.Pending timerId → m.Pending timerId) (h : Keeps m t) : Keeps s t where
  reaches := .head hm h.reaches
  reads := h.reads.trans hreads
  pending timerId hs := h.pending timerId (hpending timerId hs)

theorem Keeps.refl (s : TimerLoop) : Keeps s s := ⟨.refl s, rfl, fun _ => id⟩

theorem exists_keeps_reset {now : Timestamp} {expired : List Entry} (ahead : List Entry)
    (h : s.handleRead = .callbacks now expired ahead) :
    ∃ t, Keeps s t ∧ t.handleRead = .reset now expired .invalid := by
  induction ahead generalizing s with
  | nil =>
    have hm : step s .endCallbacks = some { s with
        queue := { s.queue with callingExpiredTimers := false }
        handleRead := .reset now expired .invalid } := by simp only [step, h]
    exact ⟨_, .head hm rfl (fun _ => id) (.refl _), rfl⟩
  | cons it ahead ih =>
    have hm : step s .runTimer = some { s with
        handleRead := .callbacks now expired ahead
        started := s.started ++ [(s.reads, (s.queue.timer it.timer).sequence)] } := by
      simp only [step, h]
    obtain ⟨t, ht, hreset⟩ := ih (s := { s with
      handleRead := .callbacks now expired ahead
      started := s.started ++ [(s.reads, (s.queue.timer it.timer).sequence)] }) rfl
    exact ⟨t, .head hm rfl (fun _ => id) ht, hreset⟩

theorem pending_restartEntry {now : Timestamp} {it : Entry} {timerfd : Timerfd} {r : HandleRead}
    (h : s.Pending timerId) : Pending { s with
      queue := { s.queue.restartEntry now it with timerfd := timerfd }, handleRead := r }
      timerId := by
  obtain ⟨p, hp, heq⟩ := h
  refine ⟨p, ?_, (activeTimer_restartEntry s.queue now it p).trans heq⟩
  rcases restartEntry_cases s.queue now it with ⟨-, hq⟩ | ⟨-, -, hq⟩
  · rw [hq]
    exact hp
  · rw [hq]
    rcases List.mem_append.mp hp with hp | hp
    · obtain ⟨e, he, rfl⟩ := List.mem_map.mp hp
      exact List.mem_append_left _ (List.mem_map_of_mem (OrdSet.mem_insert.mpr (.inr he)))
    · exact List.mem_append_right _ hp

theorem exists_keeps_no {now nextExpire : Timestamp} (ahead : List Entry)
    (h : s.handleRead = .reset now ahead nextExpire) : ∃ t, Keeps s t ∧ t.handleRead = .no := by
  induction ahead generalizing s nextExpire with
  | nil =>
    have hm : step s .endReset = some { s with handleRead := .no } := by simp only [step, h]
    exact ⟨_, .head hm rfl (fun _ => id) (.refl _), rfl⟩
  | cons it ahead ih =>
    have hm : step s (.resetEntry .invalid) = some { s with
        queue := (s.queue.resetEntry now nextExpire it .invalid).2
        handleRead := .reset now ahead (s.queue.resetEntry now nextExpire it .invalid).1 } := by
      simp only [step, h]
    obtain ⟨t, ht, hno⟩ := ih (s := { s with
      queue := (s.queue.resetEntry now nextExpire it .invalid).2
      handleRead := .reset now ahead (s.queue.resetEntry now nextExpire it .invalid).1 }) rfl
    refine ⟨t, .head hm rfl (fun timerId hs => ?_) ht, hno⟩
    rw [resetEntry_snd]
    exact pending_restartEntry hs

theorem exists_keeps (h : s.userCode = true) : ∃ t, Keeps s t ∧ t.handleRead = .no := by
  cases hread : s.handleRead with
  | no => exact ⟨s, .refl s, hread⟩
  | callbacks now expired ahead =>
    obtain ⟨m, hm, hreset⟩ := exists_keeps_reset ahead hread
    obtain ⟨t, ht, hno⟩ := exists_keeps_no expired hreset
    exact ⟨t, ⟨hm.reaches.trans ht.reaches, ht.reads.trans hm.reads,
      fun timerId hs => ht.pending timerId (hm.pending timerId hs)⟩, hno⟩
  | reset now ahead nextExpire => simp [userCode, hread] at h

theorem exists_mem_timers (h : s.Pending timerId) (hno : s.handleRead = .no) :
    ∃ t, Reaches step s t ∧ t.handleRead = .no ∧ t.reads = s.reads ∧
      ∃ e ∈ t.queue.timers, t.queue.activeTimer e.timer = timerId := by
  obtain ⟨p, hp, heq⟩ := h
  rcases List.mem_append.mp hp with hp | hp
  · obtain ⟨e, he, rfl⟩ := List.mem_map.mp hp
    exact ⟨s, .refl s, hno, rfl, e, he, heq⟩
  · have huser : s.userCode = true := by simp only [userCode, hno]
    have hm : step s (.addTimerInLoop p .invalid) = some { s with
        queue := s.queue.addTimerInLoop p .invalid, adding := s.adding.erase p } :=
      if_pos ⟨huser, hp⟩
    refine ⟨_, .head hm (.refl _), hno, rfl, ?_⟩
    rw [addTimerInLoop_eq]
    exact ⟨⟨(s.queue.timer p).expiration, p⟩, OrdSet.mem_insert.mpr (.inl rfl), heq⟩

theorem exists_started {now : Timestamp} {expired : List Entry} {it : Entry} (ahead : List Entry)
    (h : s.handleRead = .callbacks now expired ahead) (hit : it ∈ ahead) :
    ∃ t, Reaches step s t ∧ (s.reads, (s.queue.timer it.timer).sequence) ∈ t.started := by
  induction ahead generalizing s with
  | nil => cases hit
  | cons it' ahead ih =>
    let m : TimerLoop := { s with
      handleRead := .callbacks now expired ahead
      started := s.started ++ [(s.reads, (s.queue.timer it'.timer).sequence)] }
    have hm : step s .runTimer = some m := by simp only [step, h, m]
    rcases List.mem_cons.mp hit with rfl | hit
    · exact ⟨m, .head hm (.refl m), List.mem_append_right _ List.mem_cons_self⟩
    · obtain ⟨t, ht, hmem⟩ := ih (s := m) rfl hit
      exact ⟨t, .head hm ht, hmem⟩

theorem exists_started_of_pending (howned : ∀ t, Reaches step s t → t.Owned)
    (huser : s.userCode = true) (h : s.Pending timerId) :
    ∃ t, Reaches step s t ∧ (s.reads + 1, timerId.sequence) ∈ t.started := by
  obtain ⟨a, ha, hno⟩ := exists_keeps huser
  obtain ⟨b, hb, hno, hreads, e, he, heq⟩ := exists_mem_timers (ha.pending timerId h) hno
  have hreach : Reaches step s b := ha.reaches.trans hb
  let now : Timestamp := ⟨e.when.microSecondsSinceEpoch + 1⟩
  have hlt : e < sentry now := lt_sentry_iff.mpr (Int.lt_succ _)
  have hm : step b (.handleRead now) = some { b with
      queue := (b.queue.beginRead now).2
      handleRead := .callbacks now (b.queue.beginRead now).1 (b.queue.beginRead now).1
      reads := b.reads + 1 } := by simp only [step, hno]
  have hexpired : e ∈ (b.queue.beginRead now).1 := by
    rw [beginRead_eq (howned b hreach).active]
    exact OrdSet.mem_below.mpr ⟨he, hlt⟩
  obtain ⟨t, ht, hmem⟩ := exists_started (s := { b with
      queue := (b.queue.beginRead now).2
      handleRead := .callbacks now (b.queue.beginRead now).1 (b.queue.beginRead now).1
      reads := b.reads + 1 }) _ rfl hexpired
  refine ⟨t, hreach.trans (.head hm ht), ?_⟩
  have hsequence : ((b.queue.beginRead now).2.timer e.timer).sequence = timerId.sequence := by
    rw [beginRead_eq (howned b hreach).active, ← heq]
    rfl
  rwa [hsequence, hreads, ha.reads] at hmem

theorem sound_of_run {ls : List Label} (h : run step new ls = some s) : s.Owned ∧ s.StartedBy :=
  invariant_run (I := fun s => Owned s ∧ StartedBy s) (fun _ _ _ hs ht =>
    ⟨hs.1.step ht, hs.2.step ht⟩) ⟨owned_new, nofun⟩ h

theorem Owned.reaches (h : s.Owned) (ht : Reaches TimerLoop.step s t) : t.Owned := by
  obtain ⟨ls, hls⟩ := ht
  exact invariant_run (I := Owned) (fun _ _ _ hs hstep => hs.step hstep) h hls

theorem Gone.reaches (h : Gone n timerId s) (howned : s.Owned)
    (ht : Reaches TimerLoop.step s t) : Gone n timerId t := by
  obtain ⟨ls, hls⟩ := ht
  exact (invariant_run (I := fun s => Owned s ∧ Gone n timerId s) (fun _ _ _ hs hstep =>
    ⟨hs.1.step hstep, hs.2.step hs.1 hstep⟩) ⟨howned, h⟩ hls).2

/-- A cancellation is for good exactly if the timer is not pending, and `activeTimers_` has the
timers of `timers_` exactly if there are none. -/
theorem cancel_iff {ls : List Label} (h : run step new ls = some s) :
    (∀ timerId t, step s (.cancelInLoop timerId) = some t →
      ((∀ u, Reaches step t u → ∀ m, s.reads < m → (m, timerId.sequence) ∉ u.started) ↔
        ¬ s.Pending timerId)) ∧
    (s.SameTimers ↔ s.queue.timers = .empty) := by
  obtain ⟨howned, hstarted⟩ := sound_of_run h
  refine ⟨fun timerId t ht => ⟨fun hnever hpending => ?_, fun hpending u hu m hm => ?_⟩,
    sameTimers_iff howned.active⟩
  · cases steps_of_step ht with
    | cancelInLoop huser _ =>
      obtain ⟨u, hu, hmem⟩ := exists_started_of_pending (fun u hu => (howned.step ht).reaches hu)
        (s := { s with queue := s.queue.cancelInLoop timerId }) huser
        (by rw [cancelInLoop_eq howned.active]; exact hpending)
      exact hnever u hu _ (Nat.lt_succ_self _) hmem
  · exact ((gone_of_cancel howned hstarted ht hpending).reaches (howned.step ht) hu).silent m hm

def selfCancelRun : List Label :=
  [.addTimer 1 ⟨100⟩ (.microseconds 50), .addTimerInLoop 1 ⟨90⟩, .fire,
    .handleRead ⟨101⟩, .runTimer]

theorem never_selfCancelRun : ∃ s t, run step new selfCancelRun = some s ∧
    step s (.cancelInLoop ⟨1, 1⟩) = some t ∧ s.started = [(1, 1)] ∧
    ∀ u, Reaches step t u → ∀ m, 1 < m → (m, 1) ∉ u.started := by
  have hrun : (run step new selfCancelRun).any (fun s =>
      (step s (.cancelInLoop ⟨1, 1⟩)).isSome ∧ s.started = [(1, 1)] ∧ s.reads = 1 ∧
        s.queue.timers.elems = [] ∧ s.adding = []) = true := by decide +kernel
  obtain ⟨s, hs, hstate⟩ := (Option.any_eq_true _ _).mp hrun
  obtain ⟨hstep, hstarted, hreads, htimers, hadding⟩ := of_decide_eq_true hstate
  obtain ⟨t, ht⟩ := Option.isSome_iff_exists.mp hstep
  refine ⟨s, t, hs, ht, hstarted, hreads ▸ ((cancel_iff hs).1 _ t ht).mpr ?_⟩
  rintro ⟨p, hp, -⟩
  simp [htimers, hadding] at hp

def pendingCancelRun : List Label :=
  [.addTimer 1 ⟨100⟩ .zero, .addTimerInLoop 1 ⟨90⟩, .cancelInLoop ⟨1, 1⟩]

theorem started_pendingCancelRun : ∃ s t, run step new pendingCancelRun = some s ∧
    s.reads = 0 ∧ ¬ s.SameTimers ∧ run step s [.fire, .handleRead ⟨101⟩, .runTimer] = some t ∧
    t.started = [(1, 1)] := by
  have hrun : (run step new pendingCancelRun).any (fun s => s.reads = 0 ∧
      s.queue.activeTimers = .empty ∧ s.queue.timers.elems = [⟨⟨100⟩, 1⟩] ∧
      (run step s [.fire, .handleRead ⟨101⟩, .runTimer]).any
        (fun t => t.started = [(1, 1)])) = true := by decide +kernel
  obtain ⟨s, hs, hstate⟩ := (Option.any_eq_true _ _).mp hrun
  obtain ⟨hreads, hactive, htimers, hrest⟩ := of_decide_eq_true hstate
  obtain ⟨t, ht, hstarted⟩ := (Option.any_eq_true _ _).mp hrest
  refine ⟨s, t, hs, hreads, fun hsame => ?_, ht, of_decide_eq_true hstarted⟩
  have hempty := (sameTimers_iff hactive).mp hsame
  rw [hempty] at htimers
  cases htimers

end WebServer.Mymuduo.TimerLoop
