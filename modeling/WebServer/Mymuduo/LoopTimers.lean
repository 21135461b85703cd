import WebServer.Mymuduo.EventLoop
import WebServer.Mymuduo.TimerOwnership

universe u

namespace WebServer.Mymuduo

open WebServer.Lib

abbrev TimerCallback (Callback : Type u) := Option Callback

structure TimerRequest (Callback : Type u) where
  callback : TimerCallback Callback
  expiration : Timestamp
  interval : Interval
  sequence : Nat

structure Insertion (Callback : Type u) where
  request : TimerRequest Callback
  isInLoopThread : Bool

/-- `timerQueue` is what `timerQueue_` points to, `callback` is `callback_` of the timers.  `failed`
is set by a call through the null pointer.  `calls` and `insertions` are the history. -/
structure TimedLoop (Callback : Type u) where
  loop : EventLoop TimerPtr
  timerQueue : Option TimerLoop
  callback : TimerPtr → TimerCallback Callback
  failed : Bool
  calls : List (TimerRequest Callback)
  insertions : List (Insertion Callback)

namespace TimedLoop

variable {Callback : Type u}

/-- The constructor of `EventLoop` sets every member but `timerQueue_`. -/
def new : TimedLoop Callback where
  loop := .new
  timerQueue := none
  callback _ := none
  failed := false
  calls := []
  insertions := []

inductive Label (Callback : Type u) where
  /-- `p` is the place of the timer, `now` the reading of the clock in `howMuchTimeFromNow`. -/
  | runAt (isInLoopThread : Bool) (p : TimerPtr) (time : Timestamp)
      (cb : TimerCallback Callback) (now : Timestamp)
  | runAfter (isInLoopThread : Bool) (p : TimerPtr) (delay : Interval)
      (cb : TimerCallback Callback) (wallClock : Int) (now : Timestamp)
  | runEvery (isInLoopThread : Bool) (p : TimerPtr) (interval : Interval)
      (cb : TimerCallback Callback) (wallClock : Int) (now : Timestamp)
  | swapFunctors
  | nextFunctor (now : Timestamp)
  | endFunctors
  /-- What else there is for the timers of the loop. -/
  | timer (l : TimerLoop.Label)

def Label.isCall : Label Callback → Bool
  | .runAt _ _ _ _ _ => true
  | .runAfter _ _ _ _ _ _ => true
  | .runEvery _ _ _ _ _ _ => true
  | _ => false

def request (s : TimedLoop Callback) (q : TimerLoop) (p : TimerPtr) : TimerRequest Callback where
  callback := s.callback p
  expiration := (q.queue.timer p).expiration
  interval := (q.queue.timer p).interval
  sequence := (q.queue.timer p).sequence

def addTimerInLoop (s : TimedLoop Callback) (q : TimerLoop) (isInLoopThread : Bool) (p : TimerPtr)
    (now : Timestamp) : Option (TimedLoop Callback) :=
  (q.step (.addTimerInLoop p now)).map fun q' =>
    { s with
      timerQueue := some q'
      insertions := s.insertions ++ [⟨s.request q p, isInLoopThread⟩] }

def runInLoop (s : TimedLoop Callback) (q : TimerLoop) (isInLoopThread : Bool) (p : TimerPtr)
    (now : Timestamp) : Option (TimedLoop Callback) :=
  if isInLoopThread then s.addTimerInLoop q isInLoopThread p now
  else some { s with timerQueue := some q, loop := s.loop.queueInLoop isInLoopThread p }

def addTimer (s : TimedLoop Callback) (isInLoopThread : Bool) (p : TimerPtr)
    (cb : TimerCallback Callback) (when : Timestamp) (interval : Interval) (now : Timestamp) :
    Option (TimedLoop Callback) :=
  match s.timerQueue with
  | none => some { s with failed := true }
  | some q =>
    (q.step (.addTimer p when interval)).bind fun q' =>
      let s : TimedLoop Callback := { s with
        callback := fun p' => if p' = p then cb else s.callback p'
        calls := s.calls ++ [⟨cb, when, interval, q'.numCreated⟩] }
      s.runInLoop q' isInLoopThread p now

def runAt (s : TimedLoop Callback) (isInLoopThread : Bool) (p : TimerPtr) (time : Timestamp)
    (cb : TimerCallback Callback) (now : Timestamp) : Option (TimedLoop Callback) :=
  s.addTimer isInLoopThread p cb time .zero now

def runAfter (s : TimedLoop Callback) (isInLoopThread : Bool) (p : TimerPtr) (delay : Interval)
    (cb : TimerCallback Callback) (wallClock : Int) (now : Timestamp) :
    Option (TimedLoop Callback) :=
  let time := addTime (Timestamp.now wallClock) delay
  s.runAt isInLoopThread p time cb now

def runEvery (s : TimedLoop Callback) (isInLoopThread : Bool) (p : TimerPtr) (interval : Interval)
    (cb : TimerCallback Callback) (wallClock : Int) (now : Timestamp) :
    Option (TimedLoop Callback) :=
  let time := addTime (Timestamp.now wallClock) interval
  s.addTimer isInLoopThread p cb time interval now

/-- `handleRead` is not entered while functors are called. -/
def timerEvent (s : TimedLoop Callback) (q : TimerLoop) : TimerLoop.Label → Option TimerLoop
  | .addTimer _ _ _ => none
  | .addTimerInLoop _ _ => none
  | .handleRead now => if s.loop.callingPendingFunctors then none else q.step (.handleRead now)
  | l => q.step l

def idle (s : TimedLoop Callback) : Bool :=
  !s.loop.callingPendingFunctors && s.timerQueue.all fun q => q.handleRead = .no

def next (s : TimedLoop Callback) : Label Callback → Option (TimedLoop Callback)
  | .runAt isInLoopThread p time cb now => s.runAt isInLoopThread p time cb now
  | .runAfter isInLoopThread p delay cb wallClock now =>
    s.runAfter isInLoopThread p delay cb wallClock now
  | .runEvery isInLoopThread p interval cb wallClock now =>
    s.runEvery isInLoopThread p interval cb wallClock now
  | .swapFunctors => if s.idle then some { s with loop := s.loop.swapFunctors } else none
  | .nextFunctor now =>
    s.timerQueue.bind fun q => s.loop.nextFunctor.bind fun (p, loop) =>
      { s with loop := loop }.addTimerInLoop q true p now
  | .endFunctors =>
    if s.loop.callingPendingFunctors && s.loop.functors.isEmpty then
      some { s with loop := s.loop.endFunctors }
    else none
  | .timer l =>
    s.timerQueue.bind fun q => (s.timerEvent q l).map fun q' => { s with timerQueue := some q' }

/-- A program that has called through the null pointer does nothing more. -/
def step (s : TimedLoop Callback) (l : Label Callback) : Option (TimedLoop Callback) :=
  if s.failed then none else s.next l

def pending (s : TimedLoop Callback) : List (TimerRequest Callback) :=
  match s.timerQueue with
  | none => []
  | some q => s.loop.waiting.map (s.request q)

/-- All calls have returned, and for each of them either its functor waits or there was one
insertion, of what was asked for. -/
structure Served (s : TimedLoop Callback) : Prop where
  returned : s.failed = false
  once : (s.insertions.map (·.request) ++ s.pending).Perm s.calls
  distinct : (s.calls.map (·.sequence)).Nodup
  inLoopThread : ∀ i ∈ s.insertions, i.isInLoopThread = true

variable {s t : TimedLoop Callback} {l : Label Callback}

structure Uncalled (s : TimedLoop Callback) : Prop where
  timerQueue : s.timerQueue = none
  failed : s.failed = false
  calls : s.calls = []
  insertions : s.insertions = []

theorem served_of_uncalled (h : s.Uncalled) : s.Served where
  returned := h.failed
  once := by simp [h.insertions, pending, h.timerQueue, h.calls]
  distinct := by simp [h.calls]
  inLoopThread := by simp [h.insertions]

theorem addTimer_of_none (h : s.timerQueue = none) (isInLoopThread : Bool) (p : TimerPtr)
    (cb : TimerCallback Callback) (when : Timestamp) (interval : Interval) (now : Timestamp) :
    s.addTimer isInLoopThread p cb when interval now = some { s with failed := true } := by
  rw [addTimer, h]

theorem step_eq_some : step s l = some t ↔ s.failed = false ∧ s.next l = some t := by
  simp [step]

theorem call_of_none (h : s.timerQueue = none) (hl : l.isCall = true)
    (hstep : step s l = some t) : t.failed = true := by
  obtain ⟨-, hnext⟩ := step_eq_some.mp hstep
  cases l with
  | runAt isInLoopThread p time cb now =>
    simp only [next, runAt, addTimer_of_none h] at hnext
    rw [← Option.some.inj hnext]
  | runAfter isInLoopThread p delay cb wallClock now =>
    simp only [next, runAfter, runAt, addTimer_of_none h] at hnext
    rw [← Option.some.inj hnext]
  | runEvery isInLoopThread p interval cb wallClock now =>
    simp only [next, runEvery, addTimer_of_none h] at hnext
    rw [← Option.some.inj hnext]
  | _ => cases hl

theorem uncalled_new : (new : TimedLoop Callback).Uncalled := ⟨rfl, rfl, rfl, rfl⟩

theorem Uncalled.step (h : s.Uncalled) (hl : l.isCall = false)
    (hstep : TimedLoop.step s l = some t) : t.Uncalled := by
  obtain ⟨-, hnext⟩ := step_eq_some.mp hstep
  cases l with
  | swapFunctors | endFunctors =>
    simp only [next, Option.ite_none_right_eq_some] at hnext
    exact Option.some.inj hnext.2 ▸ { h with }
  | nextFunctor now => simp [next, h.timerQueue] at hnext
  | timer l => simp [next, h.timerQueue] at hnext
  | runAt _ _ _ _ _ | runAfter _ _ _ _ _ _ | runEvery _ _ _ _ _ _ => cases hl

theorem Uncalled.served_iff (h : s.Uncalled) (hstep : TimedLoop.step s l = some t) :
    t.Served ↔ l.isCall = false := by
  refine ⟨fun hserved => ?_, fun hl => served_of_uncalled (h.step hl hstep)⟩
  by_contra hl
  have hfailed := call_of_none h.timerQueue (Bool.not_eq_false _ ▸ hl) hstep
  exact absurd (hfailed.symm.trans hserved.returned) (by decide)

/-- A constructed loop serves its calls exactly in the runs that make none. -/
theorem served_iff_uncalled {ls : List (Label Callback)} (h : run step new ls = some t) :
    t.Served ↔ ∀ l ∈ ls, l.isCall = false := by
  have hkept : ∀ (s : TimedLoop Callback) l t, s.Uncalled ∨ s.failed = true →
      step s l = some t → t.Uncalled ∨ t.failed = true := by
    rintro s l t (hs | hs) hstep
    · cases hl : l.isCall with
      | false => exact .inl (hs.step hl hstep)
      | true => exact .inr (call_of_none hs.timerQueue hl hstep)
    · exact absurd (hs.symm.trans (step_eq_some.mp hstep).1) (by decide)
  have hiff : ∀ (s : TimedLoop Callback) l t, s.Uncalled ∨ s.failed = true →
      step s l = some t → (t.Served ↔ s.Served ∧ l.isCall = false) := by
    rintro s l t (hs | hs) hstep
    · rw [hs.served_iff hstep]
      exact (and_iff_right (served_of_uncalled hs)).symm
    · exact absurd (hs.symm.trans (step_eq_some.mp hstep).1) (by decide)
  rw [iff_and_along hkept hiff (.inl uncalled_new) h, along_iff_forall h]
  exact and_iff_right (served_of_uncalled uncalled_new)

theorem served_iterations : ∃ t,
    run step (new : TimedLoop Unit) [.swapFunctors, .endFunctors, .swapFunctors] = some t ∧
    t.Served := by
  have hrun : (run step (new : TimedLoop Unit)
      [.swapFunctors, .endFunctors, .swapFunctors]).isSome = true := rfl
  obtain ⟨t, ht⟩ := Option.isSome_iff_exists.mp hrun
  exact ⟨t, ht, (served_iff_uncalled ht).mpr (by simp [Label.isCall])⟩

/-- The loop thread asks for a callback in a second. -/
theorem not_served_runAfter : ∃ t, run step (new : TimedLoop Unit)
    [.runAfter true 1 (.seconds 1) (some ()) 0 ⟨0⟩] = some t ∧ t.failed = true ∧ ¬ t.Served :=
  ⟨_, rfl, rfl, fun h => absurd h.returned (by decide)⟩

structure Accounts (s : TimedLoop Callback) (q : TimerLoop) : Prop where
  owned : q.Owned
  once : (s.insertions.map (·.request) ++ q.adding.map (s.request q)).Perm s.calls
  sequence : ∀ c ∈ s.calls, c.sequence ≤ q.numCreated
  distinct : (s.calls.map (·.sequence)).Nodup
  inLoopThread : ∀ i ∈ s.insertions, i.isInLoopThread = true

structure Tracks (s : TimedLoop Callback) (q : TimerLoop) : Prop extends Accounts s q where
  timerQueue : s.timerQueue = some q
  failed : s.failed = false
  adding : q.adding = s.loop.waiting

theorem Tracks.served {q : TimerLoop} (h : s.Tracks q) : s.Served where
  returned := h.failed
  once := by
    have hpending : s.pending = q.adding.map (s.request q) := by
      simp only [pending, h.timerQueue, h.adding]
    rw [hpending]
    exact h.once
  distinct := h.distinct
  inLoopThread := h.inLoopThread

theorem request_congr {q q' : TimerLoop} {ps : List TimerPtr}
    (h : ∀ p ∈ ps, q'.queue.timer p = q.queue.timer p) :
    ps.map (s.request q') = ps.map (s.request q) :=
  List.map_congr_left fun p hp => by rw [request, request, h p hp]

theorem Accounts.timer {q q' : TimerLoop} (h : s.Accounts q) {l : TimerLoop.Label}
    (hq : q.step l = some q') (hadding : q'.adding = q.adding)
    (hcreated : q.numCreated ≤ q'.numCreated) : s.Accounts q' where
  owned := h.owned.step hq
  once := by
    rw [hadding, request_congr fun p hp => TimerLoop.timer_of_adding h.owned hp hq]
    exact h.once
  sequence c hc := (h.sequence c hc).trans hcreated
  distinct := h.distinct
  inLoopThread := h.inLoopThread

theorem Accounts.addTimer {q q' : TimerLoop} (h : s.Accounts q) (cb : TimerCallback Callback)
    {p : TimerPtr} {when : Timestamp} {interval : Interval}
    (hq : q.step (.addTimer p when interval) = some q') :
    Accounts { s with
      callback := fun p' => if p' = p then cb else s.callback p'
      calls := s.calls ++ [⟨cb, when, interval, q'.numCreated⟩] } q' := by
  cases TimerLoop.steps_of_step hq with
  | addTimer _ hfree =>
    have hnew : p ∉ q.adding := fun hp => hfree (by simp [TimerLoop.live, hp])
    refine ⟨h.owned.step hq, ?_, ?_, ?_, h.inLoopThread⟩
    · have hold : ∀ p' ∈ q.adding, request { s with
          callback := fun p' => if p' = p then cb else s.callback p'
          calls := s.calls ++ [⟨cb, when, interval, q.numCreated + 1⟩] } { q with
            queue := q.queue.setTimer p ⟨when, interval, q.numCreated + 1⟩
            adding := q.adding ++ [p]
            numCreated := q.numCreated + 1
            timerIds := q.timerIds ++ [⟨p, q.numCreated + 1⟩] } p' = s.request q p' := by
        intro p' hp'
        have hne := ne_of_mem_of_not_mem hp' hnew
        simp only [request, if_neg hne, TimerQueue.timer_setTimer_of_ne _ _ hne]
      simp only [List.map_append, List.map_congr_left hold, ← List.append_assoc]
      refine h.once.append ?_
      simp [request]
    · intro c hc
      rcases List.mem_append.mp hc with hc | hc
      · exact Nat.le_succ_of_le (h.sequence c hc)
      · obtain rfl := List.mem_singleton.mp hc
        exact le_rfl
    · simp only [List.map_append, List.map_cons, List.map_nil]
      refine List.nodup_append.mpr ⟨h.distinct, List.nodup_singleton _, fun a ha b hb => ?_⟩
      obtain ⟨c, hc, rfl⟩ := List.mem_map.mp ha
      obtain rfl := List.mem_singleton.mp hb
      exact Nat.ne_of_lt (Nat.lt_succ_of_le (h.sequence c hc))

theorem Accounts.addTimerInLoop {q q' : TimerLoop} (h : s.Accounts q) {p : TimerPtr}
    {now : Timestamp} (hq : q.step (.addTimerInLoop p now) = some q') :
    Accounts { s with
      insertions := s.insertions ++ [⟨s.request q p, true⟩] } q' ∧
      q'.adding = q.adding.erase p := by
  cases TimerLoop.steps_of_step hq with
  | addTimerInLoop _ hp =>
    refine ⟨⟨h.owned.step hq, ?_, h.sequence, h.distinct, ?_⟩, rfl⟩
    · refine List.Perm.trans ?_ h.once
      simp only [List.map_append, List.map_cons, List.map_nil, List.append_assoc]
      refine List.Perm.append_left _ ?_
      have hsame : ((q.adding.erase p).map (s.request { q with
          queue := q.queue.addTimerInLoop p now, adding := q.adding.erase p })) =
          (q.adding.erase p).map (s.request q) :=
        request_congr fun p' _ => by rw [TimerQueue.addTimerInLoop_eq]
      exact (List.Perm.of_eq (congrArg (s.request q p :: ·) hsame)).trans
        ((List.perm_cons_erase hp).map (s.request q)).symm
    · intro i hi
      rcases List.mem_append.mp hi with hi | hi
      · exact h.inLoopThread i hi
      · rw [List.mem_singleton.mp hi]

theorem adding_of_addTimer {q q' : TimerLoop} {p : TimerPtr} {when : Timestamp}
    {interval : Interval} (hq : q.step (.addTimer p when interval) = some q') :
    q'.adding = q.adding ++ [p] ∧ p ∉ q.adding := by
  cases TimerLoop.steps_of_step hq with
  | addTimer _ hfree => exact ⟨rfl, fun hp => hfree (by simp [TimerLoop.live, hp])⟩

theorem Tracks.addTimer {q : TimerLoop} (h : s.Tracks q) {isInLoopThread : Bool} {p : TimerPtr}
    {cb : TimerCallback Callback} {when : Timestamp} {interval : Interval} {now : Timestamp}
    (ht : s.addTimer isInLoopThread p cb when interval now = some t) : ∃ q', t.Tracks q' := by
  simp only [TimedLoop.addTimer, h.timerQueue, Option.bind_eq_some_iff] at ht
  obtain ⟨q₁, hq₁, ht⟩ := ht
  obtain ⟨hadding, hnew⟩ := adding_of_addTimer hq₁
  have haccounts := h.toAccounts.addTimer cb hq₁
  cases isInLoopThread with
  | false =>
    simp only [runInLoop, Bool.false_eq_true, if_false, Option.some.injEq] at ht
    subst ht
    refine ⟨q₁, { haccounts with timerQueue := rfl, failed := h.failed, adding := ?_ }⟩
    rw [hadding, h.adding]
    exact (EventLoop.waiting_queueInLoop _ _ _).symm
  | true =>
    simp only [runInLoop, if_true, TimedLoop.addTimerInLoop, Option.map_eq_some_iff] at ht
    obtain ⟨q₂, hq₂, rfl⟩ := ht
    obtain ⟨hinserted, hrest⟩ := haccounts.addTimerInLoop hq₂
    refine ⟨q₂, { hinserted with timerQueue := rfl, failed := h.failed, adding := ?_ }⟩
    rw [hrest, hadding, List.erase_append_right _ hnew, h.adding]
    simp

theorem Tracks.nextFunctor {q : TimerLoop} (h : s.Tracks q) {now : Timestamp}
    (ht : s.next (.nextFunctor now) = some t) : ∃ q', t.Tracks q' := by
  simp only [next, h.timerQueue, Option.bind_some, Option.bind_eq_some_iff, Prod.exists,
    TimedLoop.addTimerInLoop, Option.map_eq_some_iff] at ht
  obtain ⟨p, loop, hnext, q', hq, rfl⟩ := ht
  obtain ⟨hinserted, hrest⟩ := h.toAccounts.addTimerInLoop hq
  refine ⟨q', { hinserted with timerQueue := rfl, failed := h.failed, adding := ?_ }⟩
  rw [hrest, h.adding, EventLoop.waiting_nextFunctor hnext, List.erase_cons_head]

theorem timerEvent_step {q q' : TimerLoop} {l : TimerLoop.Label}
    (h : s.timerEvent q l = some q') :
    q.step l = some q' ∧ q'.adding = q.adding ∧ q.numCreated ≤ q'.numCreated := by
  have hstep : q.step l = some q' := by
    cases l with
    | addTimer _ _ _ | addTimerInLoop _ _ => cases h
    | handleRead now =>
      simp only [timerEvent] at h
      split at h
      · cases h
      · exact h
    | _ => exact h
  refine ⟨hstep, ?_⟩
  cases TimerLoop.steps_of_step hstep with
  | addTimer _ _ | addTimerInLoop _ _ => cases h
  | otherTimer => exact ⟨rfl, Nat.le_succ _⟩
  | cancelInLoop _ _ | fire _ | handleRead _ | runTimer _ | endCallbacks _ | resetEntry _
  | endReset _ => exact ⟨rfl, Nat.le_refl _⟩

theorem Tracks.timer {q : TimerLoop} (h : s.Tracks q) {l : TimerLoop.Label}
    (ht : s.next (.timer l) = some t) : ∃ q', t.Tracks q' := by
  simp only [next, h.timerQueue, Option.bind_some, Option.map_eq_some_iff] at ht
  obtain ⟨q', hq, rfl⟩ := ht
  obtain ⟨hstep, hadding, hcreated⟩ := timerEvent_step hq
  exact ⟨q', { h.toAccounts.timer hstep hadding hcreated with
    timerQueue := rfl, failed := h.failed, adding := hadding.trans h.adding }⟩

theorem Tracks.step {q : TimerLoop} (h : s.Tracks q) (hstep : TimedLoop.step s l = some t) :
    ∃ q', t.Tracks q' := by
  obtain ⟨-, hnext⟩ := step_eq_some.mp hstep
  cases l with
  | runAt _ _ _ _ _ | runAfter _ _ _ _ _ _ | runEvery _ _ _ _ _ _ => exact h.addTimer hnext
  | nextFunctor now => exact h.nextFunctor hnext
  | timer l => exact h.timer hnext
  | swapFunctors =>
    simp only [next, idle, Option.ite_none_right_eq_some, Bool.and_eq_true, Bool.not_eq_true',
      Option.some.injEq] at hnext
    obtain ⟨⟨hcalling, -⟩, rfl⟩ := hnext
    refine ⟨q, { h with adding := ?_ }⟩
    exact h.adding.trans (EventLoop.waiting_swapFunctors hcalling).symm
  | endFunctors =>
    simp only [next, Option.ite_none_right_eq_some, Bool.and_eq_true, List.isEmpty_iff,
      Option.some.injEq] at hnext
    obtain ⟨⟨-, hfunctors⟩, rfl⟩ := hnext
    refine ⟨q, { h with adding := ?_ }⟩
    exact h.adding.trans (EventLoop.waiting_endFunctors hfunctors).symm

/-- If the constructor had made a `TimerQueue`, all calls would be served. -/
theorem served_of_timerQueue {ls : List (Label Callback)}
    (h : run step { new with timerQueue := some .new } ls = some t) : t.Served := by
  have hnew : Tracks { (new : TimedLoop Callback) with timerQueue := some .new } .new :=
    { timerQueue := rfl
      failed := rfl
      adding := rfl
      owned := TimerLoop.owned_new
      once := .nil
      sequence := nofun
      distinct := .nil
      inLoopThread := nofun }
  have hkept : ∀ (s : TimedLoop Callback) l t, (∃ q, s.Tracks q) → step s l = some t →
      ∃ q, t.Tracks q := by
    rintro s l t ⟨q, hq⟩ hstep
    exact hq.step hstep
  obtain ⟨q, hq⟩ := invariant_run hkept ⟨_, hnew⟩ h
  exact hq.served

end TimedLoop

end WebServer.Mymuduo
