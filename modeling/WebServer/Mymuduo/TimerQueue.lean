import Mathlib.Data.Prod.Lex
import WebServer.Lib.OrdSet
import WebServer.Lib.Run
import WebServer.Mymuduo.Timestamp

namespace WebServer.Mymuduo

open WebServer.Lib

structure Timer where
  expiration : Timestamp
  interval : Interval
  sequence : Nat

namespace Timer

def repeats (t : Timer) : Bool := t.interval.positive

def restart (t : Timer) (now : Timestamp) : Timer :=
  { t with expiration := if t.repeats then addTime now t.interval else .invalid }

@[simp] theorem sequence_restart (t : Timer) (now : Timestamp) :
    (t.restart now).sequence = t.sequence := rfl

end Timer

structure Timespec where
  tvSec : Int
  tvNsec : Int
  deriving DecidableEq

def howMuchTimeFromNow (when now : Timestamp) : Timespec :=
  let microseconds := when.microSecondsSinceEpoch - now.microSecondsSinceEpoch
  let microseconds := if microseconds < 100 then 100 else microseconds
  ⟨microseconds.tdiv Timestamp.kMicroSecondsPerSecond,
    microseconds.tmod Timestamp.kMicroSecondsPerSecond * 1000⟩

/-- A `shared_ptr<Timer>` by its address; 0 is the empty one. -/
abbrev TimerPtr := Nat

/-- `armed` has the reading of the clock at `timerfd_settime`; the value is relative to it.  `fired`
is a timerfd with an expiration that is not read. -/
inductive Timerfd where
  | disarmed
  | armed (now : Timestamp) (value : Timespec)
  | fired
  deriving DecidableEq

def resetTimerfd (expiration now : Timestamp) : Timerfd :=
  .armed now (howMuchTimeFromNow expiration now)

def readTimerfd : Timerfd → Timerfd
  | .fired => .disarmed
  | timerfd => timerfd

namespace TimerQueue

structure Entry where
  when : Timestamp
  timer : TimerPtr

/-- Pairs are in lexicographic order. -/
def Entry.key (e : Entry) : Timestamp ×ₗ Nat := toLex (e.when, e.timer)

theorem Entry.key_injective : Function.Injective Entry.key := by
  rintro ⟨when, timer⟩ ⟨when', timer'⟩ h
  cases h
  rfl

instance : LinearOrder Entry := LinearOrder.lift' Entry.key Entry.key_injective

theorem Entry.lt_iff {e f : Entry} :
    e < f ↔ e.when < f.when ∨ e.when = f.when ∧ e.timer < f.timer :=
  Prod.Lex.toLex_lt_toLex

theorem Entry.when_le {e f : Entry} (h : e ≤ f) : e.when ≤ f.when := by
  rcases lt_or_eq_of_le h with hlt | rfl
  · rcases Entry.lt_iff.mp hlt with hlt | ⟨heq, -⟩
    · exact hlt.le
    · exact heq.le
  · exact le_rfl

structure ActiveTimer where
  timer : TimerPtr
  sequence : Nat

def ActiveTimer.key (a : ActiveTimer) : Nat ×ₗ Nat := toLex (a.timer, a.sequence)

theorem ActiveTimer.key_injective : Function.Injective ActiveTimer.key := by
  rintro ⟨timer, sequence⟩ ⟨timer', sequence'⟩ h
  cases h
  rfl

instance : LinearOrder ActiveTimer := LinearOrder.lift' ActiveTimer.key ActiveTimer.key_injective

end TimerQueue

/-- `timer` has what the pointers point to. -/
structure TimerQueue where
  timers : OrdSet TimerQueue.Entry
  activeTimers : OrdSet TimerQueue.ActiveTimer
  callingExpiredTimers : Bool
  cancelingTimers : OrdSet TimerQueue.ActiveTimer
  timerfd : Timerfd
  timer : TimerPtr → Timer

namespace TimerQueue

def new : TimerQueue where
  timers := .empty
  activeTimers := .empty
  callingExpiredTimers := false
  cancelingTimers := .empty
  timerfd := .disarmed
  timer _ := ⟨.invalid, .zero, 0⟩

def setTimer (q : TimerQueue) (p : TimerPtr) (timer : Timer) : TimerQueue :=
  { q with timer := fun p' => if p' = p then timer else q.timer p' }

def activeTimer (q : TimerQueue) (p : TimerPtr) : ActiveTimer := ⟨p, (q.timer p).sequence⟩

/-- Nothing is put into `activeTimers_`. -/
def insert (q : TimerQueue) (p : TimerPtr) : Bool × TimerQueue :=
  let when := (q.timer p).expiration
  let earliestChanged := match q.timers.begin with
    | none => true
    | some it => when < it.when
  (earliestChanged, { q with timers := q.timers.insert ⟨when, p⟩ })

/-- `now` is the reading in `howMuchTimeFromNow`. -/
def addTimerInLoop (q : TimerQueue) (p : TimerPtr) (now : Timestamp) : TimerQueue :=
  let (earliestChanged, q) := q.insert p
  if earliestChanged then { q with timerfd := resetTimerfd (q.timer p).expiration now } else q

def cancelInLoop (q : TimerQueue) (timerId : ActiveTimer) : TimerQueue :=
  if timerId ∈ q.activeTimers then
    { q with
      timers := q.timers.erase ⟨(q.timer timerId.timer).expiration, timerId.timer⟩
      activeTimers := q.activeTimers.erase timerId }
  else if q.callingExpiredTimers then
    { q with cancelingTimers := q.cancelingTimers.insert timerId }
  else q

/-- The member of `TimerQueue`, which is never set; it hides the constant of the same name. -/
def timerEntryPtr : TimerPtr := 0

def sentry (now : Timestamp) : Entry := ⟨now, timerEntryPtr⟩

def getExpired (q : TimerQueue) (now : Timestamp) : List Entry × TimerQueue :=
  let expired := q.timers.below (sentry now)
  (expired, { q with
    timers := q.timers.eraseBelow (sentry now)
    activeTimers := expired.foldl (fun s it => s.erase (q.activeTimer it.timer)) q.activeTimers })

/-- `handleRead` up to the callbacks. -/
def beginRead (q : TimerQueue) (now : Timestamp) : List Entry × TimerQueue :=
  let (expired, q) := { q with timerfd := readTimerfd q.timerfd }.getExpired now
  (expired, { q with callingExpiredTimers := true, cancelingTimers := .empty })

/-- The first half of the loop body of `reset`. -/
def restartEntry (q : TimerQueue) (now : Timestamp) (it : Entry) : TimerQueue :=
  if (q.timer it.timer).repeats && q.activeTimer it.timer ∉ q.cancelingTimers then
    ((q.setTimer it.timer ((q.timer it.timer).restart now)).insert it.timer).2
  else q

/-- The loop body of `reset`, with what becomes of `nextExpire`.  `reading` is the clock in
`howMuchTimeFromNow`. -/
def resetEntry (q : TimerQueue) (now : Timestamp) (nextExpire : Timestamp) (it : Entry)
    (reading : Timestamp) : Timestamp × TimerQueue :=
  let q := q.restartEntry now it
  let nextExpire := match q.timers.begin with
    | none => nextExpire
    | some it => (q.timer it.timer).expiration
  (nextExpire,
    if nextExpire.valid then { q with timerfd := resetTimerfd nextExpire reading } else q)

end TimerQueue

/-- Where `handleRead` is, with its `now` and the entries still ahead: in the callbacks, `expired`
being all of them, or in `reset`. -/
inductive HandleRead where
  | no
  | callbacks (now : Timestamp) (expired ahead : List TimerQueue.Entry)
  | reset (now : Timestamp) (ahead : List TimerQueue.Entry) (nextExpire : Timestamp)
  deriving DecidableEq

def HandleRead.held : HandleRead → List TimerQueue.Entry
  | .no => []
  | .callbacks _ expired _ => expired
  | .reset _ ahead _ => ahead

def HandleRead.calling : HandleRead → Bool
  | .callbacks _ _ _ => true
  | _ => false

/-- `adding` are the timers whose `addTimerInLoop` is still to run and `timerIds` the ids that were
returned.  `reads` counts the calls of `handleRead`; `started` has the callbacks, by the number of
the call and the `sequence_` of the timer. -/
structure TimerLoop where
  queue : TimerQueue
  handleRead : HandleRead
  adding : List TimerPtr
  numCreated : Nat
  timerIds : List TimerQueue.ActiveTimer
  reads : Nat
  started : List (Nat × Nat)

namespace TimerLoop

open TimerQueue

inductive Label where
  /-- `addTimer` in any thread up to `runInLoop`; `make_shared` takes the place `p`. -/
  | addTimer (p : TimerPtr) (when : Timestamp) (interval : Interval)
  /-- A timer of another loop. -/
  | otherTimer
  | addTimerInLoop (p : TimerPtr) (now : Timestamp)
  | cancelInLoop (timerId : ActiveTimer)
  /-- The timerfd expires. -/
  | fire
  | handleRead (now : Timestamp)
  | runTimer
  | endCallbacks
  | resetEntry (reading : Timestamp)
  | endReset

def new : TimerLoop where
  queue := .new
  handleRead := .no
  adding := []
  numCreated := 0
  timerIds := []
  reads := 0
  started := []

def live (s : TimerLoop) : List TimerPtr :=
  s.queue.timers.elems.map (·.timer) ++ s.handleRead.held.map (·.timer) ++ s.adding ++
    s.queue.activeTimers.elems.map (·.timer) ++ s.queue.cancelingTimers.elems.map (·.timer)

/-- Functors and callbacks run; `reset` is not left for them. -/
def userCode (s : TimerLoop) : Bool :=
  match s.handleRead with
  | .no | .callbacks _ _ _ => true
  | .reset _ _ _ => false

def step (s : TimerLoop) : Label → Option TimerLoop
  | .addTimer p when interval =>
    if p ≠ 0 ∧ p ∉ s.live then
      some { s with
        queue := s.queue.setTimer p ⟨when, interval, s.numCreated + 1⟩
        adding := s.adding ++ [p]
        numCreated := s.numCreated + 1
        timerIds := s.timerIds ++ [⟨p, s.numCreated + 1⟩] }
    else none
  | .otherTimer => some { s with numCreated := s.numCreated + 1 }
  | .addTimerInLoop p now =>
    if s.userCode ∧ p ∈ s.adding then
      some { s with queue := s.queue.addTimerInLoop p now, adding := s.adding.erase p }
    else none
  | .cancelInLoop timerId =>
    if s.userCode ∧ timerId ∈ s.timerIds then
      some { s with queue := s.queue.cancelInLoop timerId }
    else none
  | .fire =>
    match s.queue.timerfd with
    | .armed _ _ => some { s with queue := { s.queue with timerfd := .fired } }
    | _ => none
  | .handleRead now =>
    match s.handleRead with
    | .no =>
      let (expired, queue) := s.queue.beginRead now
      some { s with
        queue := queue, handleRead := .callbacks now expired expired, reads := s.reads + 1 }
    | _ => none
  | .runTimer =>
    match s.handleRead with
    | .callbacks now expired (it :: ahead) =>
      some { s with
        handleRead := .callbacks now expired ahead
        started := s.started ++ [(s.reads, (s.queue.timer it.timer).sequence)] }
    | _ => none
  | .endCallbacks =>
    match s.handleRead with
    | .callbacks now expired [] =>
      some { s with
        queue := { s.queue with callingExpiredTimers := false }
        handleRead := .reset now expired .invalid }
    | _ => none
  | .resetEntry reading =>
    match s.handleRead with
    | .reset now (it :: ahead) nextExpire =>
      let (nextExpire, queue) := s.queue.resetEntry now nextExpire it reading
      some { s with queue := queue, handleRead := .reset now ahead nextExpire }
    | _ => none
  | .endReset =>
    match s.handleRead with
    | .reset _ [] _ => some { s with handleRead := .no }
    | _ => none

inductive Steps (s : TimerLoop) : Label → TimerLoop → Prop where
  | addTimer {p : TimerPtr} {when : Timestamp} {interval : Interval} (nonnull : p ≠ 0)
      (free : p ∉ s.live) :
      Steps s (.addTimer p when interval) { s with
        queue := s.queue.setTimer p ⟨when, interval, s.numCreated + 1⟩
        adding := s.adding ++ [p]
        numCreated := s.numCreated + 1
        timerIds := s.timerIds ++ [⟨p, s.numCreated + 1⟩] }
  | otherTimer : Steps s .otherTimer { s with numCreated := s.numCreated + 1 }
  | addTimerInLoop {p : TimerPtr} {now : Timestamp} (user : s.userCode = true)
      (adding : p ∈ s.adding) :
      Steps s (.addTimerInLoop p now)
        { s with queue := s.queue.addTimerInLoop p now, adding := s.adding.erase p }
  | cancelInLoop {timerId : ActiveTimer} (user : s.userCode = true)
      (returned : timerId ∈ s.timerIds) :
      Steps s (.cancelInLoop timerId) { s with queue := s.queue.cancelInLoop timerId }
  | fire {reading : Timestamp} {value : Timespec} (armed : s.queue.timerfd = .armed reading value) :
      Steps s .fire { s with queue := { s.queue with timerfd := .fired } }
  | handleRead {now : Timestamp} (no : s.handleRead = .no) :
      Steps s (.handleRead now) { s with
        queue := (s.queue.beginRead now).2
        handleRead := .callbacks now (s.queue.beginRead now).1 (s.queue.beginRead now).1
        reads := s.reads + 1 }
  | runTimer {now : Timestamp} {expired : List Entry} {it : Entry} {ahead : List Entry}
      (callbacks : s.handleRead = .callbacks now expired (it :: ahead)) :
      Steps s .runTimer { s with
        handleRead := .callbacks now expired ahead
        started := s.started ++ [(s.reads, (s.queue.timer it.timer).sequence)] }
  | endCallbacks {now : Timestamp} {expired : List Entry}
      (callbacks : s.handleRead = .callbacks now expired []) :
      Steps s .endCallbacks { s with
        queue := { s.queue with callingExpiredTimers := false }
        handleRead := .reset now expired .invalid }
  | resetEntry {now : Timestamp} {it : Entry} {ahead : List Entry} {nextExpire : Timestamp}
      {reading : Timestamp} (reset : s.handleRead = .reset now (it :: ahead) nextExpire) :
      Steps s (.resetEntry reading) { s with
        queue := (s.queue.resetEntry now nextExpire it reading).2
        handleRead := .reset now ahead (s.queue.resetEntry now nextExpire it reading).1 }
  | endReset {now nextExpire : Timestamp} (reset : s.handleRead = .reset now [] nextExpire) :
      Steps s .endReset { s with handleRead := .no }

theorem steps_of_step {s t : TimerLoop} {l : Label} (h : step s l = some t) : Steps s l t := by
  cases l with
  | addTimer p when interval =>
    simp only [step, Option.ite_none_right_eq_some, Option.some.injEq] at h
    obtain ⟨⟨hnonnull, hfree⟩, rfl⟩ := h
    exact .addTimer hnonnull hfree
  | otherTimer =>
    obtain rfl := Option.some.inj h
    exact .otherTimer
  | addTimerInLoop p now =>
    simp only [step, Option.ite_none_right_eq_some, Option.some.injEq] at h
    obtain ⟨⟨huser, hadding⟩, rfl⟩ := h
    exact .addTimerInLoop huser hadding
  | cancelInLoop timerId =>
    simp only [step, Option.ite_none_right_eq_some, Option.some.injEq] at h
    obtain ⟨⟨huser, hreturned⟩, rfl⟩ := h
    exact .cancelInLoop huser hreturned
  | fire =>
    simp only [step] at h
    split at h
    · next harmed =>
      obtain rfl := Option.some.inj h
      exact .fire harmed
    · cases h
  | handleRead now =>
    simp only [step] at h
    split at h
    · next hno =>
      obtain rfl := Option.some.inj h
      exact .handleRead hno
    · cases h
  | runTimer =>
    simp only [step] at h
    split at h
    · next hcallbacks =>
      obtain rfl := Option.some.inj h
      exact .runTimer hcallbacks
    · cases h
  | endCallbacks =>
    simp only [step] at h
    split at h
    · next hcallbacks =>
      obtain rfl := Option.some.inj h
      exact .endCallbacks hcallbacks
    · cases h
  | resetEntry reading =>
    simp only [step] at h
    split at h
    · next hreset =>
      obtain rfl := Option.some.inj h
      exact .resetEntry hreset
    · cases h
  | endReset =>
    simp only [step] at h
    split at h
    · next hreset =>
      obtain rfl := Option.some.inj h
      exact .endReset hreset
    · cases h

end TimerLoop

end WebServer.Mymuduo
