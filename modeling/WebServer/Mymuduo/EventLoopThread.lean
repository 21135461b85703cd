import WebServer.Mymuduo.Bytes

namespace WebServer.Mymuduo

/-- Where the thread is: before `sem_post`, at the test of `callback_`, in front of the critical
section that sets `loop_`, in front of `loop()`, in `loop()`, in front of the critical section that
clears `loop_`, or at its end. -/
inductive ThreadPhase where
  | notStarted | created | callback | publish | published | looping | clearing | finished
  deriving DecidableEq

namespace ThreadPhase

/-- The callback has run, and the `EventLoop` on the stack of the thread still exists. -/
def hasLoop : ThreadPhase → Bool
  | .publish | .published | .looping | .clearing => true
  | .notStarted | .created | .callback | .finished => false

def loopSet : ThreadPhase → Bool
  | .published | .looping | .clearing => true
  | .notStarted | .created | .callback | .publish | .finished => false

def ran : ThreadPhase → Bool
  | .publish | .published | .looping | .clearing | .finished => true
  | .notStarted | .created | .callback => false

def wasSet : ThreadPhase → Bool
  | .published | .looping | .clearing | .finished => true
  | .notStarted | .created | .callback | .publish => false

theorem ran_of_wasSet {p : ThreadPhase} (h : p.wasSet = true) : p.ran = true := by
  cases p <;> first | rfl | cases h

theorem wasSet_of_loopSet {p : ThreadPhase} (h : p.loopSet = true) : p.wasSet = true := by
  cases p <;> first | rfl | cases h

end ThreadPhase

/-- `loop` tells whether `loop_` is set; it is then the loop of the thread.  `started`, `joined` and
`detached` are those of `thread_`, `quit` is the `quit_` of the loop, and `told` is set once `quit`
was called on it. -/
structure EventLoopThread where
  loop : Bool
  exiting : Bool
  started : Bool
  joined : Bool
  detached : Bool
  phase : ThreadPhase
  quit : Bool
  told : Bool
  deriving DecidableEq

inductive ThreadStep where
  | semPost | callback | publish | enterLoop | leaveLoop | clear
  deriving DecidableEq

namespace EventLoopThread

def new : EventLoopThread where
  loop := false
  exiting := false
  started := false
  joined := false
  detached := false
  phase := .notStarted
  quit := false
  told := false

/-- `Thread::start`, up to `sem_wait`. -/
def start (t : EventLoopThread) : EventLoopThread := { t with started := true, phase := .created }

/-- `func_` and the lambda around it.  `loop()` takes an earlier `quit` back. -/
def threadFunc (t : EventLoopThread) : ThreadStep → Option EventLoopThread
  | .semPost => if t.phase = .created then some { t with phase := .callback } else none
  | .callback => if t.phase = .callback then some { t with phase := .publish } else none
  | .publish =>
    if t.phase = .publish then some { t with loop := true, phase := .published } else none
  | .enterLoop =>
    if t.phase = .published then some { t with quit := false, phase := .looping } else none
  | .leaveLoop =>
    if t.phase = .looping ∧ t.quit then some { t with phase := .clearing } else none
  | .clear =>
    if t.phase = .clearing then some { t with loop := false, phase := .finished } else none

def callQuit (t : EventLoopThread) : Option EventLoopThread :=
  if t.phase.hasLoop then some { t with quit := true, told := true } else none

structure Sound (t : EventLoopThread) : Prop where
  loop : t.loop = t.phase.loopSet
  started : t.started = decide (t.phase ≠ .notStarted)

inductive Runs (t : EventLoopThread) : ThreadStep → EventLoopThread → Prop where
  | semPost (created : t.phase = .created) : Runs t .semPost { t with phase := .callback }
  | callback (callback : t.phase = .callback) : Runs t .callback { t with phase := .publish }
  | publish (publish : t.phase = .publish) :
      Runs t .publish { t with loop := true, phase := .published }
  | enterLoop (published : t.phase = .published) :
      Runs t .enterLoop { t with quit := false, phase := .looping }
  | leaveLoop (looping : t.phase = .looping) (quit : t.quit = true) :
      Runs t .leaveLoop { t with phase := .clearing }
  | clear (clearing : t.phase = .clearing) :
      Runs t .clear { t with loop := false, phase := .finished }

variable {t u : EventLoopThread} {l : ThreadStep}

theorem runs_of_threadFunc (h : t.threadFunc l = some u) : t.Runs l u := by
  cases l with
  | leaveLoop =>
    simp only [threadFunc, Option.ite_none_right_eq_some, Option.some.injEq] at h
    obtain ⟨⟨hphase, hquit⟩, rfl⟩ := h
    exact .leaveLoop hphase hquit
  | semPost | callback | publish | enterLoop | clear =>
    simp only [threadFunc, Option.ite_none_right_eq_some, Option.some.injEq] at h
    obtain ⟨hphase, rfl⟩ := h
    constructor
    exact hphase

theorem callQuit_eq_some (h : t.callQuit = some u) :
    t.phase.hasLoop = true ∧ u = { t with quit := true, told := true } := by
  simp only [callQuit, Option.ite_none_right_eq_some, Option.some.injEq] at h
  exact ⟨h.1, h.2.symm⟩

theorem sound_new : new.Sound := ⟨rfl, rfl⟩

theorem Sound.start (h : t.Sound) (ht : t.phase = .notStarted) : t.start.Sound where
  loop := by rw [EventLoopThread.start, h.loop, ht]; rfl
  started := rfl

theorem Sound.runs (h : t.Sound) (hu : t.Runs l u) : u.Sound := by
  obtain ⟨hloop, hstarted⟩ := h
  cases hu with
  | semPost hphase | callback hphase | publish hphase | enterLoop hphase | leaveLoop hphase _
  | clear hphase =>
    rw [hphase] at hloop hstarted
    first | exact ⟨hloop, hstarted⟩ | exact ⟨rfl, hstarted⟩

theorem Sound.loop_of_runs (h : t.Sound) (hunset : t.loop = false) (hu : t.Runs l u)
    (hl : l ≠ .publish) : u.loop = false := by
  have hloop := h.loop.symm.trans hunset
  cases hu with
  | semPost _ | callback _ => exact hunset
  | publish _ => exact absurd rfl hl
  | enterLoop hphase | leaveLoop hphase _ =>
    rw [hphase] at hloop
    cases hloop
  | clear _ => rfl

theorem Runs.forward (h : t.Runs l u) :
    u.phase ≠ .notStarted ∧ u.phase ≠ .created ∧ (t.phase.ran = true → u.phase.ran = true) ∧
      (t.phase.wasSet = true → u.phase.wasSet = true) := by
  cases h with
  | semPost hphase | callback hphase | publish hphase | enterLoop hphase | leaveLoop hphase _
  | clear hphase =>
    rw [hphase]
    simp [ThreadPhase.ran, ThreadPhase.wasSet]

theorem getElem?_set_cases {ts : List EventLoopThread} {i j : Nat} {v w : EventLoopThread}
    (h : (ts.set i v)[j]? = some w) : j = i ∧ w = v ∨ ts[j]? = some w := by
  rw [List.getElem?_set] at h
  split at h
  · next heq =>
    split at h
    · exact .inl ⟨heq.symm, (Option.some.inj h).symm⟩
    · cases h
  · exact .inr h

theorem Runs.started (h : t.Runs l u) : t.phase ≠ .notStarted := by
  intro hphase
  cases h with
  | semPost h | callback h | publish h | enterLoop h | leaveLoop h _ | clear h =>
    cases hphase.symm.trans h

theorem Runs.joined (h : t.Runs l u) : u.joined = t.joined := by
  cases h <;> rfl

end EventLoopThread

end WebServer.Mymuduo
