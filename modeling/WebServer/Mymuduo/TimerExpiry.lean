import WebServer.Mymuduo.TimerOwnership

namespace WebServer.Mymuduo.TimerQueue

open WebServer.Lib

/-- What `getExpired` takes out is due, in order and once; what it leaves is not. -/
structure Splits (q : TimerQueue) (now : Timestamp) : Prop where
  expired : ∀ e, e ∈ (q.getExpired now).1 ↔ e ∈ q.timers ∧ e.when ≤ now
  sorted : (q.getExpired now).1.Pairwise fun e f => e.when ≤ f.when
  nodup : (q.getExpired now).1.Nodup
  left : ∀ e, e ∈ (q.getExpired now).2.timers ↔ e ∈ q.timers ∧ now < e.when

variable {q : TimerQueue} {now : Timestamp} {e : Entry}

theorem mem_getExpired : e ∈ (q.getExpired now).1 ↔ e ∈ q.timers ∧ e.when < now :=
  OrdSet.mem_below.trans (and_congr_right fun _ => lt_sentry_iff)

theorem mem_timers_getExpired :
    e ∈ (q.getExpired now).2.timers ↔ e ∈ q.timers ∧ now ≤ e.when :=
  OrdSet.mem_eraseBelow.trans (and_congr_right fun _ =>
    not_lt.symm.trans ((not_congr lt_sentry_iff).trans not_lt))

theorem pairwise_getExpired (q : TimerQueue) (now : Timestamp) :
    (q.getExpired now).1.Pairwise (· < ·) :=
  q.timers.sorted.sublist (List.takeWhile_sublist _)

/-- The entries with the expiration `now` are on the wrong side, and no others. -/
theorem splits_iff (q : TimerQueue) (now : Timestamp) :
    q.Splits now ↔ ∀ e ∈ q.timers, e.when ≠ now := by
  constructor
  · intro h e he hnow
    have hmem := (h.expired e).mpr ⟨he, hnow.le⟩
    exact absurd (mem_getExpired.mp hmem).2 hnow.not_lt
  · intro hne
    refine ⟨fun e => ?_, ?_, ?_, fun e => ?_⟩
    · rw [mem_getExpired]
      exact and_congr_right fun he => (hne e he).le_iff_lt.symm
    · exact (pairwise_getExpired q now).imp fun h => Entry.when_le h.le
    · exact (pairwise_getExpired q now).imp ne_of_lt
    · rw [mem_timers_getExpired]
      exact and_congr_right fun he => (hne e he).symm.le_iff_lt

def dueQueue : TimerQueue where
  timers := OrdSet.empty.insert ⟨⟨100⟩, 1⟩
  activeTimers := .empty
  callingExpiredTimers := false
  cancelingTimers := .empty
  timerfd := .fired
  timer _ := ⟨⟨100⟩, .zero, 1⟩

theorem not_splits_dueQueue : ¬ dueQueue.Splits ⟨100⟩ := by
  intro h
  have hmem := (h.expired ⟨⟨100⟩, 1⟩).mpr ⟨OrdSet.mem_insert.mpr (.inl rfl), le_rfl⟩
  exact lt_irrefl _ (mem_getExpired.mp hmem).2

/-- `addTimer` in the thread of the loop; `make_shared` takes the place `p`. -/
def addTimer (q : TimerQueue) (p : TimerPtr) (timer : Timer) (now : Timestamp) : TimerQueue :=
  (q.setTimer p timer).addTimerInLoop p now

theorem mem_timers_addTimer (q : TimerQueue) (p : TimerPtr) (timer : Timer) (now : Timestamp) :
    ⟨timer.expiration, p⟩ ∈ (q.addTimer p timer now).timers := by
  rw [addTimer, addTimerInLoop_eq]
  exact OrdSet.mem_insert.mpr (.inl (by rw [timer_setTimer_self]))

/-- The timer that is added at the wall clock `w₀`, for `d` seconds later, is taken out at `w`. -/
def Fires (q : TimerQueue) (p : TimerPtr) (interval : Interval) (sequence : Nat) (w₀ d w : Int) :
    Prop :=
  ⟨addTime (.now w₀) (.seconds d), p⟩ ∈ ((q.addTimer p
    ⟨addTime (.now w₀) (.seconds d), interval, sequence⟩ (.now w₀)).getExpired (.now w)).1

variable {p : TimerPtr} {interval : Interval} {sequence : Nat} {w₀ d w : Int}

theorem fires_iff : q.Fires p interval sequence w₀ d w ↔
    w₀ / 1000000 + d * 1000000 < w / 1000000 := by
  rw [Fires, mem_getExpired]
  exact and_iff_right (mem_timers_addTimer q p _ _)

/-- A timer is never early, and late for more than eleven days for each second. -/
theorem fires_in_time_iff (q : TimerQueue) (p : TimerPtr) (interval : Interval) (sequence : Nat)
    (w₀ w : Int) (hd : 1 ≤ d) :
    ((w₀ + (d + 1) * 1000000 ≤ w → q.Fires p interval sequence w₀ d w) ∧
      (w < w₀ + (d - 1) * 1000000 → ¬ q.Fires p interval sequence w₀ d w)) ↔
    w < w₀ + (d + 1) * 1000000 ∨ w₀ / 1000000 + d * 1000000 < w / 1000000 := by
  rw [fires_iff]
  have hearly : w < w₀ + (d - 1) * 1000000 →
      ¬ w₀ / 1000000 + d * 1000000 < w / 1000000 := by omega
  rw [and_iff_left hearly, imp_iff_not_or, not_le]

theorem fires_in_time_millionSeconds : (0 : Int) + (1 + 1) * 1000000 ≤ 1000001000000 ∧
    new.Fires 1 .zero 1 0 1 1000001000000 := by
  have h := (fires_in_time_iff new 1 .zero 1 0 1000001000000 (le_refl 1)).mpr (by decide)
  exact ⟨by decide, h.1 (by decide)⟩

/-- Two seconds after it was added for one second later. -/
theorem not_fires_twoSeconds : (0 : Int) + (1 + 1) * 1000000 ≤ 2000000 ∧
    ¬ new.Fires 1 .zero 1 0 1 2000000 := by
  rw [fires_iff]
  decide

end WebServer.Mymuduo.TimerQueue
