import WebServer.Mymuduo.TimerOwnership

namespace WebServer.Mymuduo

open WebServer.Lib

def Timespec.nanoseconds (ts : Timespec) : Int := ts.tvSec * 1000000000 + ts.tvNsec

/-- Armed with a value that is not zero, to expire at `expiration` at the latest, or 100
microseconds after it was set. -/
def Timerfd.ArmedFor (timerfd : Timerfd) (expiration : Timestamp) : Prop :=
  ∃ now value, timerfd = .armed now value ∧ value ≠ ⟨0, 0⟩ ∧
    value.nanoseconds ≤
      max (expiration.microSecondsSinceEpoch - now.microSecondsSinceEpoch) 100 * 1000

def Timerfd.isArmed : Timerfd → Bool
  | .armed _ _ => true
  | _ => false

theorem nanoseconds_howMuchTimeFromNow (when now : Timestamp) :
    (howMuchTimeFromNow when now).nanoseconds =
      max (when.microSecondsSinceEpoch - now.microSecondsSinceEpoch) 100 * 1000 := by
  simp only [howMuchTimeFromNow, Timespec.nanoseconds, Timestamp.kMicroSecondsPerSecond]
  generalize when.microSecondsSinceEpoch - now.microSecondsSinceEpoch = d
  have hdiv := Int.mul_tdiv_add_tmod (if d < 100 then 100 else d) (1000 * 1000)
  generalize (if d < 100 then 100 else d).tdiv (1000 * 1000) = sec at *
  generalize (if d < 100 then 100 else d).tmod (1000 * 1000) = rest at *
  split at hdiv <;> omega

theorem armedFor_resetTimerfd (expiration now : Timestamp) :
    (resetTimerfd expiration now).ArmedFor expiration := by
  refine ⟨now, _, rfl, fun hzero => ?_, (nanoseconds_howMuchTimeFromNow expiration now).le⟩
  have h := nanoseconds_howMuchTimeFromNow expiration now
  rw [hzero] at h
  simp only [Timespec.nanoseconds] at h
  omega

theorem Timerfd.ArmedFor.isArmed {timerfd : Timerfd} {expiration : Timestamp}
    (h : timerfd.ArmedFor expiration) : timerfd.isArmed = true := by
  obtain ⟨now, value, rfl, -⟩ := h
  rfl

namespace TimerLoop

open TimerQueue

/-- Between operations, with timers, the timerfd is armed for the earliest one.  When it has fired,
`handleRead` is about to run. -/
def Armed (s : TimerLoop) : Prop :=
  s.handleRead = .no → ∀ e, s.queue.timers.begin = some e →
    s.queue.timerfd = .fired ∨ s.queue.timerfd.ArmedFor e.when

/-- `handleRead` finds an expired entry, or it has nothing to arm the timerfd for, or the timerfd
was set since it fired; and the entries that it leaves or puts back have valid expirations. -/
def Rearms (s : TimerLoop) : Label → Prop
  | .handleRead now =>
    (s.queue.timers = .empty ∨ s.queue.timerfd.isArmed = true ∨
      ∃ e ∈ s.queue.timers, e.when < now) ∧
    (∀ e ∈ s.queue.timers, now ≤ e.when → e.when.valid = true) ∧
    ∀ e ∈ s.queue.timers, e.when < now → (s.queue.timer e.timer).repeats = true →
      (addTime now (s.queue.timer e.timer).interval).valid = true
  | _ => True

instance (s : TimerLoop) : DecidablePred (Rearms s) := fun l => by
  cases l <;> simp only [Rearms] <;> infer_instance

/-- The last part is about an invalid `now` only. -/
theorem rearms_of_valid {s : TimerLoop} {now : Timestamp} (hnow : now.valid = true)
    (hintervals : ∀ e ∈ s.queue.timers, 0 ≤ (s.queue.timer e.timer).interval.delta)
    (h : s.queue.timers = .empty ∨ s.queue.timerfd.isArmed = true ∨
      ∃ e ∈ s.queue.timers, e.when < now) : Rearms s (.handleRead now) :=
  ⟨h, fun _ _ hle => valid_of_le hle hnow,
    fun e he _ _ => valid_addTime hnow (hintervals e he)⟩

def now (s : TimerLoop) : Timestamp :=
  match s.handleRead with
  | .no => .invalid
  | .callbacks now _ _ => now
  | .reset now _ _ => now

structure Covered (s : TimerLoop) : Prop where
  begin : ∀ e, s.queue.timers.begin = some e → s.handleRead.held = [] ∨ e.when.valid = false →
    s.queue.timerfd = .fired ∨ s.queue.timerfd.ArmedFor e.when
  restarts : ∀ it ∈ s.handleRead.held, (s.queue.timer it.timer).repeats = true →
    (addTime s.now (s.queue.timer it.timer).interval).valid = true

variable {s t : TimerLoop} {l : Label}

theorem covered_new : new.Covered := ⟨nofun, nofun⟩

theorem Covered.armed (h : s.Covered) : s.Armed := by
  intro hno e he
  exact h.begin e he (.inl (by rw [hno]; rfl))

theorem Covered.addTimer (h : s.Covered) {p : TimerPtr} {when : Timestamp} {interval : Interval}
    (ht : step s (.addTimer p when interval) = some t) : t.Covered := by
  cases steps_of_step ht with
  | addTimer _ hfree =>
    refine ⟨h.begin, fun it hit => ?_⟩
    have hplace : it.timer ∈ s.places :=
      List.mem_append_left _ (List.mem_append_right _ (List.mem_map_of_mem hit))
    have hne : it.timer ≠ p := ne_of_mem_of_not_mem hplace (notMem_places hfree)
    simp only [timer_setTimer_of_ne _ _ hne]
    exact h.restarts it hit

theorem begin_insert {timers : OrdSet Entry} {e b : Entry}
    (h : (timers.insert e).begin = some b) : b = e ∨ timers.begin = some b := by
  obtain ⟨hmem, hleast⟩ := OrdSet.begin_eq_some.mp h
  rcases OrdSet.mem_insert.mp hmem with rfl | hmem
  · exact .inl rfl
  · exact .inr (OrdSet.begin_eq_some.mpr
      ⟨hmem, fun c hc => hleast c (OrdSet.mem_insert.mpr (.inr hc))⟩)

/-- `insert` tells whether the earliest expiration is now the one of the timer. -/
theorem insert_cases {q : TimerQueue} {p : TimerPtr} {b : Entry}
    (h : (q.timers.insert ⟨(q.timer p).expiration, p⟩).begin = some b) :
    ((q.insert p).1 = true ∧ b.when = (q.timer p).expiration) ∨
      ((q.insert p).1 = false ∧ ∃ e, q.timers.begin = some e ∧ e.when = b.when) := by
  have hle : b ≤ ⟨(q.timer p).expiration, p⟩ :=
    (OrdSet.begin_eq_some.mp h).2 _ (OrdSet.mem_insert.mpr (.inl rfl))
  simp only [TimerQueue.insert]
  cases hbegin : q.timers.begin with
  | none =>
    rcases begin_insert h with rfl | hb
    · exact .inl ⟨rfl, rfl⟩
    · cases hbegin.symm.trans hb
  | some e =>
    have hbe : b ≤ e := (OrdSet.begin_eq_some.mp h).2 e
      (OrdSet.mem_insert.mpr (.inr (OrdSet.begin_eq_some.mp hbegin).1))
    rcases begin_insert h with rfl | hb
    · rcases lt_or_eq_of_le (Entry.when_le hbe) with hlt | heq
      · exact .inl ⟨decide_eq_true hlt, rfl⟩
      · exact .inr ⟨decide_eq_false heq.not_lt, e, rfl, heq.symm⟩
    · obtain rfl : e = b := Option.some.inj (hbegin.symm.trans hb)
      exact .inr ⟨decide_eq_false (not_lt.mpr (Entry.when_le hle)), e, rfl, rfl⟩

theorem Covered.addTimerInLoop (h : s.Covered) {p : TimerPtr} {reading : Timestamp}
    (ht : step s (.addTimerInLoop p reading) = some t) : t.Covered := by
  cases steps_of_step ht with
  | addTimerInLoop _ _ =>
    rw [addTimerInLoop_eq]
    refine ⟨fun b hb hcond => ?_, h.restarts⟩
    rcases insert_cases hb with ⟨hchanged, hwhen⟩ | ⟨hsame, e, he, hwhen⟩
    · simp only [hchanged, if_true, hwhen]
      exact .inr (armedFor_resetTimerfd _ _)
    · simp only [hsame, Bool.false_eq_true, if_false, ← hwhen]
      exact h.begin e he (hwhen ▸ hcond)

theorem Covered.cancelInLoop (h : s.Covered) (howned : s.Owned) {timerId : ActiveTimer}
    (ht : step s (.cancelInLoop timerId) = some t) : t.Covered := by
  cases steps_of_step ht with
  | cancelInLoop _ _ =>
    rw [cancelInLoop_eq howned.active]
    exact ⟨h.begin, h.restarts⟩

theorem Covered.handleRead (h : s.Covered) (howned : s.Owned) {now : Timestamp}
    (hl : Rearms s (.handleRead now)) (ht : step s (.handleRead now) = some t) : t.Covered := by
  obtain ⟨hfind, hstay, hrestart⟩ := hl
  cases steps_of_step ht with
  | handleRead hno =>
    rw [beginRead_eq howned.active]
    refine ⟨fun e he hcond => ?_, fun it hit hrepeats => ?_⟩
    · obtain ⟨hmem, hle⟩ := OrdSet.mem_eraseBelow.mp (OrdSet.begin_eq_some.mp he).1
      have hnow : now ≤ e.when := not_lt.mp fun hlt => not_lt.mpr hle (lt_sentry_iff.mpr hlt)
      have hnone : s.queue.timers.below (sentry now) = [] := hcond.resolve_right
        (by simp [hstay e hmem hnow])
      have hnolt : ∀ f ∈ s.queue.timers, ¬ f.when < now := fun f hf hlt =>
        List.not_mem_nil (hnone ▸ OrdSet.mem_below.mpr ⟨hf, lt_sentry_iff.mpr hlt⟩)
      have harmed : s.queue.timerfd.isArmed = true := by
        rcases hfind with hempty | harmed | ⟨f, hf, hlt⟩
        · exact absurd (hempty ▸ hmem) (OrdSet.notMem_empty e)
        · exact harmed
        · exact absurd hlt (hnolt f hf)
      have hbegin : s.queue.timers.begin = some e := by
        refine OrdSet.begin_eq_some.mpr ⟨hmem, fun f hf => ?_⟩
        exact (OrdSet.begin_eq_some.mp he).2 f (OrdSet.mem_eraseBelow.mpr
          ⟨hf, not_lt.mp fun hlt => hnolt f hf (lt_sentry_iff.mp hlt)⟩)
      rcases h.begin e hbegin (.inl (by rw [hno]; rfl)) with hfired | hfor
      · cases hfired ▸ harmed
      · obtain ⟨reading, value, hfd, hvalue⟩ := hfor
        exact .inr ⟨reading, value, by rw [hfd]; rfl, hvalue⟩
    · obtain ⟨hmem, hlt⟩ := OrdSet.mem_below.mp hit
      exact hrestart it hmem (lt_sentry_iff.mp hlt) hrepeats

theorem timerfd_restartEntry (q : TimerQueue) (now : Timestamp) (it : Entry) :
    (q.restartEntry now it).timerfd = q.timerfd := by
  rcases restartEntry_cases q now it with ⟨-, heq⟩ | ⟨-, -, heq⟩ <;> rw [heq]
  rfl

theorem interval_restartEntry (q : TimerQueue) (now : Timestamp) (it : Entry) (p : TimerPtr) :
    ((q.restartEntry now it).timer p).interval = (q.timer p).interval := by
  rcases restartEntry_cases q now it with ⟨-, heq⟩ | ⟨-, -, heq⟩ <;> rw [heq]
  by_cases hp : p = it.timer
  · subst hp
    simp [Timer.restart]
  · simp only [timer_setTimer_of_ne q _ hp]

/-- What the loop body of `reset` does about the timerfd when there are timers. -/
theorem resetEntry_of_begin {q : TimerQueue} {now nextExpire reading : Timestamp} {it e : Entry}
    (h : (q.restartEntry now it).timers.begin = some e) :
    (q.resetEntry now nextExpire it reading).2.timerfd =
      if ((q.restartEntry now it).timer e.timer).expiration.valid then
        resetTimerfd ((q.restartEntry now it).timer e.timer).expiration reading
      else q.timerfd := by
  simp only [TimerQueue.resetEntry, h]
  split
  · rfl
  · exact timerfd_restartEntry q now it

theorem Covered.resetEntry (h : s.Covered) (howned : s.Owned) {reading : Timestamp}
    (ht : step s (.resetEntry reading) = some t) : t.Covered := by
  have hlinked := (howned.step ht).linked
  cases steps_of_step ht with
  | @resetEntry now it ahead nextExpire _ hreset =>
    have hnow : s.now = now := by rw [TimerLoop.now, hreset]
    have hrestarts := h.restarts
    simp only [hreset, HandleRead.held, hnow] at hrestarts
    rw [resetEntry_snd] at hlinked ⊢
    refine ⟨fun e he _ => ?_, fun f hf => ?_⟩
    · have hwhen := hlinked e (OrdSet.begin_eq_some.mp he).1
      rw [resetEntry_of_begin he, hwhen]
      by_cases hvalid : e.when.valid = true
      · rw [if_pos hvalid]
        exact .inr (armedFor_resetTimerfd _ _)
      · -- the entry was the earliest one before, since what is put back is valid
        rw [if_neg hvalid]
        refine h.begin e ?_ (.inr (Bool.eq_false_iff.mpr hvalid))
        rcases restartEntry_cases s.queue now it with ⟨-, heq⟩ | ⟨hrepeats, -, heq⟩
        · simpa only [heq] using he
        · simp only [heq] at he
          rcases begin_insert he with rfl | he
          · exact absurd (hrestarts it List.mem_cons_self hrepeats) hvalid
          · exact he
    · simp only [Timer.repeats, interval_restartEntry]
      exact hrestarts f (List.mem_cons_of_mem _ hf)

theorem Covered.step (h : s.Covered) (howned : s.Owned) (hl : Rearms s l)
    (ht : step s l = some t) : t.Covered := by
  cases steps_of_step ht with
  | addTimer _ _ => exact h.addTimer ht
  | otherTimer => exact ⟨h.begin, h.restarts⟩
  | addTimerInLoop _ _ => exact h.addTimerInLoop ht
  | cancelInLoop _ _ => exact h.cancelInLoop howned ht
  | fire _ => exact ⟨fun _ _ _ => .inl rfl, h.restarts⟩
  | handleRead _ => exact h.handleRead howned hl ht
  | runTimer hcall | endCallbacks hcall =>
    have hbegin := h.begin
    have hrestarts := h.restarts
    simp only [TimerLoop.now, hcall, HandleRead.held] at hbegin hrestarts
    exact ⟨hbegin, hrestarts⟩
  | resetEntry _ => exact h.resetEntry howned ht
  | endReset hreset =>
    exact ⟨fun e he _ => h.begin e he (.inl (by rw [hreset]; rfl)),
      fun _ hit => absurd hit List.not_mem_nil⟩

/-- No timer is left without the timerfd in a run in which every `handleRead` has something to
do. -/
theorem armed_of_rearms {ls : List Label} (hls : Along step Rearms new ls)
    (h : run step new ls = some s) : s.Armed := by
  have hstep : ∀ s l t, Owned s ∧ Covered s → Rearms s l → step s l = some t →
      Owned t ∧ Covered t := by
    rintro s l t ⟨howned, hcovered⟩ hl ht
    exact ⟨howned.step ht, hcovered.step howned hl ht⟩
  exact (invariant_along hstep ⟨owned_new, covered_new⟩ hls h).2.armed

def repeatingRun : List Label :=
  [.addTimer 1 ⟨100⟩ (.microseconds 50), .addTimerInLoop 1 ⟨90⟩, .fire,
    .handleRead ⟨101⟩, .runTimer, .addTimer 2 ⟨400⟩ .zero, .addTimerInLoop 2 ⟨102⟩,
    .endCallbacks, .resetEntry ⟨103⟩, .endReset]

theorem armed_repeatingRun : ∃ s, run step new repeatingRun = some s ∧ s.handleRead = .no ∧
    s.queue.timers.elems.map (·.timer) = [1, 2] ∧ s.Armed := by
  have hrun : (run step new repeatingRun).any (fun s => s.handleRead = .no ∧
      s.queue.timers.elems.map (·.timer) = [1, 2]) = true := by decide +kernel
  obtain ⟨s, hs, hstate⟩ := (Option.any_eq_true _ _).mp hrun
  obtain ⟨hno, htimers⟩ := of_decide_eq_true hstate
  exact ⟨s, hs, hno, htimers, armed_of_rearms (by decide +kernel) hs⟩

/-- A timer for one second later; `now` counts seconds, the timerfd microseconds. -/
def oneSecondRun : List Label :=
  [.addTimer 1 ⟨1701000000⟩ .zero, .addTimerInLoop 1 ⟨1700000000⟩, .fire,
    .handleRead ⟨1700000001⟩, .endCallbacks, .endReset]

theorem not_armed_oneSecondRun : ∃ s, run step new oneSecondRun = some s ∧ s.handleRead = .no ∧
    s.queue.timers.elems.map (·.timer) = [1] ∧ s.queue.timerfd = .disarmed ∧ ¬ s.Armed := by
  have hrun : (run step new oneSecondRun).any (fun s => s.handleRead = .no ∧
      s.queue.timers.elems.map (·.timer) = [1] ∧ s.queue.timerfd = .disarmed ∧
      s.queue.timers.begin = some ⟨⟨1701000000⟩, 1⟩) = true := by decide +kernel
  obtain ⟨s, hs, hstate⟩ := (Option.any_eq_true _ _).mp hrun
  obtain ⟨hno, htimers, hdisarmed, hbegin⟩ := of_decide_eq_true hstate
  refine ⟨s, hs, hno, htimers, hdisarmed, fun harmed => ?_⟩
  rcases harmed hno _ hbegin with hfired | hfor
  · cases hdisarmed.symm.trans hfired
  · cases hdisarmed ▸ hfor.isArmed

end TimerLoop

end WebServer.Mymuduo
