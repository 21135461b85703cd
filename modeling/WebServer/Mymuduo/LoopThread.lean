import WebServer.Lib.Run
import WebServer.Mymuduo.EventLoop

/-! The thread of an event loop and any number of other threads that call `queueInLoop`,
`runInLoop` and `quit`.  A call in another thread is cut behind its critical section. -/

universe u

namespace WebServer.Mymuduo

open WebServer.Lib

inductive ActiveChannel where
  | wakeupChannel | other
  deriving DecidableEq

/-- Where the loop thread is: not in `loop()`, at the test of `quit_`, in `poll`, with channels
still to handle, or in `doPendingFunctors`. -/
inductive LoopPhase where
  | outside
  | test
  | poll
  | handleEvents (activeChannels : List ActiveChannel)
  | doPendingFunctors
  deriving DecidableEq

/-- `owes` is set while the loop thread itself is on the way to a `wakeup`.  `calls` are the
functors of other threads whose `queueInLoop` has left its critical section and has not yet
written, `quits` counts the calls of `quit` that have not.  `queued` and `executed` are the
history. -/
structure LoopThread (Functor : Type u) where
  loop : EventLoop Functor
  quit : Bool
  phase : LoopPhase
  owes : Bool
  calls : List Functor
  quits : Nat
  queued : List Functor
  executed : List Functor

namespace EventLoop

variable {Functor : Type u}

/-- The critical section of `queueInLoop`. -/
def emplaceBack (l : EventLoop Functor) (cb : Functor) : EventLoop Functor :=
  { l with pendingFunctors := l.pendingFunctors ++ [cb] }

/-- The read callback of `wakeupChannel_`. -/
def handleRead (l : EventLoop Functor) : EventLoop Functor := { l with wakeupFd := 0 }

theorem queueInLoop_eq (l : EventLoop Functor) (isInLoopThread : Bool) (cb : Functor) :
    l.queueInLoop isInLoopThread cb =
      if !isInLoopThread || l.callingPendingFunctors then (l.emplaceBack cb).wakeup
      else l.emplaceBack cb := rfl

end EventLoop

namespace LoopThread

variable {Functor : Type u}

inductive Label (Functor : Type u) where
  | enterLoop
  | leaveLoop
  | enterPoll
  | leavePoll (activeChannels : List ActiveChannel)
  | handleEvent
  | swapFunctors
  | nextFunctor
  | endFunctors
  /-- Calls in the loop thread; its `runInLoop` only calls the functor. -/
  | queueInLoop (cb : Functor)
  | runInLoop (cb : Functor)
  | wakeup
  | quit
  /-- Calls in other threads; their `runInLoop` is `queueInLoop`. -/
  | callQueueInLoop (cb : Functor)
  | callWakeup (i : Nat)
  | callQuit
  | quitWakeup
  deriving DecidableEq

def new : LoopThread Functor where
  loop := .new
  quit := false
  phase := .outside
  owes := false
  calls := []
  quits := 0
  queued := []
  executed := []

/-- Code of the user runs outside of `loop()`, in event handlers and in functors. -/
def userCode (s : LoopThread Functor) : Bool :=
  match s.phase with
  | .outside | .handleEvents _ | .doPendingFunctors => true
  | .test | .poll => false

def enabled (s : LoopThread Functor) : Label Functor → Bool
  | .enterLoop => !s.owes && s.phase = .outside
  | .leaveLoop => !s.owes && s.phase = .test && s.quit
  | .enterPoll => !s.owes && s.phase = .test && !s.quit
  | .leavePoll _ => !s.owes && s.phase = .poll
  | .handleEvent => !s.owes && match s.phase with
    | .handleEvents (_ :: _) => true
    | _ => false
  | .swapFunctors => !s.owes && s.phase = .handleEvents []
  | .nextFunctor => !s.owes && s.phase = .doPendingFunctors && !s.loop.functors.isEmpty
  | .endFunctors => !s.owes && s.phase = .doPendingFunctors && s.loop.functors.isEmpty
  | .queueInLoop _ => !s.owes && s.userCode
  | .runInLoop _ => !s.owes && s.userCode
  | .wakeup => s.owes
  | .quit => !s.owes && s.userCode
  | .callQueueInLoop _ => true
  | .callWakeup i => i < s.calls.length
  | .callQuit => true
  | .quitWakeup => 0 < s.quits

def next (s : LoopThread Functor) : Label Functor → LoopThread Functor
  | .enterLoop => { s with quit := false, phase := .test }
  | .leaveLoop => { s with phase := .outside }
  | .enterPoll => { s with phase := .poll }
  | .leavePoll activeChannels => { s with phase := .handleEvents activeChannels }
  | .handleEvent =>
    match s.phase with
    | .handleEvents (.wakeupChannel :: rest) =>
      { s with loop := s.loop.handleRead, phase := .handleEvents rest }
    | .handleEvents (.other :: rest) => { s with phase := .handleEvents rest }
    | _ => s
  | .swapFunctors => { s with loop := s.loop.swapFunctors, phase := .doPendingFunctors }
  | .nextFunctor =>
    match s.loop.nextFunctor with
    | some (f, l) => { s with loop := l, executed := s.executed ++ [f] }
    | none => s
  | .endFunctors => { s with loop := s.loop.endFunctors, phase := .test }
  | .queueInLoop cb =>
    { s with
      loop := s.loop.emplaceBack cb
      owes := s.loop.callingPendingFunctors
      queued := s.queued ++ [cb] }
  | .runInLoop _ => s
  | .wakeup => { s with loop := s.loop.wakeup, owes := false }
  | .quit => { s with quit := true }
  | .callQueueInLoop cb =>
    { s with
      loop := s.loop.emplaceBack cb
      calls := s.calls ++ [cb]
      queued := s.queued ++ [cb] }
  | .callWakeup i => { s with loop := s.loop.wakeup, calls := s.calls.eraseIdx i }
  | .callQuit => { s with quit := true, quits := s.quits + 1 }
  | .quitWakeup => { s with loop := s.loop.wakeup, quits := s.quits - 1 }

def step (s : LoopThread Functor) (l : Label Functor) : Option (LoopThread Functor) :=
  if s.enabled l then some (s.next l) else none

/-- The functors that were executed, those left in the batch and those in the queue, in order, are
the ones that were queued. -/
structure Ledger (s : LoopThread Functor) : Prop where
  ledger : s.executed ++ s.loop.functors ++ s.loop.pendingFunctors = s.queued
  /-- There is a batch in `doPendingFunctors` only. -/
  calling : s.loop.callingPendingFunctors = true ↔ s.phase = .doPendingFunctors

variable {s t : LoopThread Functor} {l : Label Functor}

theorem step_eq_some : step s l = some t ↔ s.enabled l = true ∧ s.next l = t := by
  simp only [step, Option.ite_none_right_eq_some, Option.some.injEq]

theorem ledger_new : (new : LoopThread Functor).Ledger := ⟨rfl, by simp [new, EventLoop.new]⟩

theorem Ledger.emplaceBack (h : s.Ledger) (cb : Functor) (owes : Bool) (calls : List Functor) :
    Ledger { s with
      loop := s.loop.emplaceBack cb, owes := owes, calls := calls,
      queued := s.queued ++ [cb] } where
  ledger := by simp [EventLoop.emplaceBack, ← h.ledger]
  calling := h.calling

theorem Ledger.setPhase (h : s.Ledger) (hs : s.phase ≠ .doPendingFunctors) {phase : LoopPhase}
    (hphase : phase ≠ .doPendingFunctors) (quit : Bool) :
    Ledger { s with phase := phase, quit := quit } where
  ledger := h.ledger
  calling := by
    rw [h.calling]
    exact iff_of_false hs hphase

theorem Ledger.functors_nil (h : s.Ledger) (hs : s.phase ≠ .doPendingFunctors) :
    s.loop.functors = [] := by
  apply (s.loop.noBatch _).1
  rw [← Bool.not_eq_true, h.calling]
  exact hs

theorem Ledger.next (h : s.Ledger) (hl : s.enabled l = true) : (s.next l).Ledger := by
  cases l with
  | enterLoop =>
    simp only [enabled, Bool.and_eq_true, decide_eq_true_eq] at hl
    exact h.setPhase (by simp [hl.2]) (by simp) false
  | leaveLoop =>
    simp only [enabled, Bool.and_eq_true, decide_eq_true_eq] at hl
    exact h.setPhase (by simp [hl.1.2]) (by simp) s.quit
  | enterPoll =>
    simp only [enabled, Bool.and_eq_true, decide_eq_true_eq] at hl
    exact h.setPhase (by simp [hl.1.2]) (by simp) s.quit
  | leavePoll activeChannels =>
    simp only [enabled, Bool.and_eq_true, decide_eq_true_eq] at hl
    exact h.setPhase (by simp [hl.2]) (by simp) s.quit
  | handleEvent =>
    simp only [LoopThread.next]
    split
    · next hphase => exact ⟨h.ledger, by rw [show s.loop.handleRead.callingPendingFunctors =
        s.loop.callingPendingFunctors from rfl, h.calling, hphase]; simp⟩
    · next hphase => exact h.setPhase (by simp [hphase]) (by simp) s.quit
    · exact h
  | swapFunctors =>
    simp only [enabled, Bool.and_eq_true, decide_eq_true_eq] at hl
    have hnil := h.functors_nil (by simp [hl.2])
    refine ⟨?_, by simp [LoopThread.next, EventLoop.swapFunctors]⟩
    rw [← show _ = (s.next .swapFunctors).queued from h.ledger, hnil]
    simp [LoopThread.next, EventLoop.swapFunctors]
  | nextFunctor =>
    simp only [LoopThread.next]
    split
    · next f m hnext =>
      obtain ⟨hfunctors, -, hpending, hcalling⟩ := EventLoop.nextFunctor_spec hnext
      refine ⟨?_, by rw [hcalling]; exact h.calling⟩
      rw [← show _ = s.queued from h.ledger, hfunctors, hpending]
      simp
    · exact h
  | endFunctors =>
    simp only [enabled, Bool.and_eq_true, List.isEmpty_iff] at hl
    refine ⟨?_, by simp [LoopThread.next, EventLoop.endFunctors]⟩
    rw [← show _ = (s.next .endFunctors).queued from h.ledger, hl.2]
    simp [LoopThread.next, EventLoop.endFunctors]
  | queueInLoop cb => exact h.emplaceBack cb s.loop.callingPendingFunctors s.calls
  | runInLoop cb => exact h
  | wakeup => exact ⟨h.ledger, h.calling⟩
  | quit => exact ⟨h.ledger, h.calling⟩
  | callQueueInLoop cb => exact h.emplaceBack cb s.owes (s.calls ++ [cb])
  | callWakeup i => exact ⟨h.ledger, h.calling⟩
  | callQuit => exact ⟨h.ledger, h.calling⟩
  | quitWakeup => exact ⟨h.ledger, h.calling⟩

/-- Whatever the threads do and in which order, queued functors are executed once each, in the
order in which they were queued. -/
theorem executed_append_pending {ls : List (Label Functor)} (h : run step new ls = some s) :
    s.executed ++ s.loop.functors ++ s.loop.pendingFunctors = s.queued := by
  refine (invariant_run (I := Ledger) ?_ ledger_new h).ledger
  intro s l t hs hstep
  obtain ⟨hl, rfl⟩ := step_eq_some.mp hstep
  exact hs.next hl

def nestedRun : List (Label Nat) :=
  [.callQueueInLoop 0, .enterLoop, .callWakeup 0, .enterPoll, .leavePoll [.wakeupChannel],
    .handleEvent, .swapFunctors, .nextFunctor, .queueInLoop 1, .wakeup, .callQueueInLoop 2,
    .endFunctors, .enterPoll, .leavePoll [], .swapFunctors, .nextFunctor]

theorem executed_nestedRun : ∃ s, run step new nestedRun = some s ∧
    s.executed = [0, 1] ∧ s.executed ++ s.loop.functors ++ s.loop.pendingFunctors = s.queued := by
  have hrun : (run step new nestedRun).any (fun s => s.executed = [0, 1]) = true := by decide
  obtain ⟨s, hs, hexecuted⟩ := (Option.any_eq_true _ _).mp hrun
  exact ⟨s, hs, of_decide_eq_true hexecuted, executed_append_pending hs⟩

/-- Where the loop thread enters `poll` with a queue that is not empty, the eventfd is readable. -/
def Awake (s : LoopThread Functor) : Label Functor → Prop
  | .enterPoll => s.loop.pendingFunctors ≠ [] → 0 < s.loop.wakeupFd
  | _ => True

/-- The loop thread queues functors in `loop()` only, and where it enters `poll` no call of another
thread stands between its critical section and its `wakeup`. -/
def InLoop (s : LoopThread Functor) : Label Functor → Prop
  | .queueInLoop _ => s.phase ≠ .outside
  | .enterPoll => s.calls = []
  | _ => True

instance (s : LoopThread Functor) : DecidablePred (InLoop s) := fun l => by
  cases l <;> simp only [InLoop] <;> infer_instance

instance (s : LoopThread Functor) : DecidablePred (Awake s) := fun l => by
  cases l <;> simp only [Awake] <;> infer_instance

/-- Event handlers apart, every functor in the queue has written the eventfd, or it will. -/
structure Alarm (s : LoopThread Functor) : Prop where
  owes : s.owes = true → s.phase = .doPendingFunctors
  written : (∀ cs, s.phase ≠ .handleEvents cs) → s.owes = false → s.loop.wakeupFd = 0 →
    s.loop.pendingFunctors.Sublist s.calls

theorem alarm_new : (new : LoopThread Functor).Alarm where
  owes := nofun
  written _ _ _ := List.nil_sublist _

theorem Alarm.setPhase (h : s.Alarm) (howes : s.owes = false) {phase : LoopPhase}
    (hcs : (∀ cs, phase ≠ .handleEvents cs) → ∀ cs, s.phase ≠ .handleEvents cs) (quit : Bool) :
    Alarm { s with phase := phase, quit := quit } where
  owes ho := absurd (ho.symm.trans howes) (by simp)
  written hne := h.written (hcs hne)

theorem Alarm.awake (h : s.Alarm) (hin : InLoop s l) (hl : s.enabled l = true) : Awake s l := by
  cases l with
  | enterPoll =>
    simp only [enabled, Bool.and_eq_true, Bool.not_eq_true', decide_eq_true_eq] at hl
    intro hpending
    refine Nat.pos_of_ne_zero fun hfd => hpending ?_
    have hwritten := h.written (by simp [hl.1.2]) hl.1.1 hfd
    rw [show s.calls = [] from hin] at hwritten
    exact List.sublist_nil.mp hwritten
  | _ => trivial

theorem Alarm.wakeup (h : s.Alarm) (owes : Bool) (howes : owes = true → s.owes = true)
    (calls : List Functor) (quits : Nat) :
    Alarm { s with loop := s.loop.wakeup, owes := owes, calls := calls, quits := quits } where
  owes ho := h.owes (howes ho)
  written _ _ hfd := absurd hfd (Nat.succ_ne_zero _)

theorem Alarm.next (h : s.Alarm) (hledger : s.Ledger) (hin : InLoop s l)
    (hl : s.enabled l = true) : (s.next l).Alarm := by
  cases l with
  | enterLoop =>
    simp only [enabled, Bool.and_eq_true, Bool.not_eq_true', decide_eq_true_eq] at hl
    exact h.setPhase hl.1 (by simp [hl.2]) false
  | leaveLoop =>
    simp only [enabled, Bool.and_eq_true, Bool.not_eq_true', decide_eq_true_eq] at hl
    exact h.setPhase hl.1.1 (by simp [hl.1.2]) s.quit
  | enterPoll =>
    simp only [enabled, Bool.and_eq_true, Bool.not_eq_true', decide_eq_true_eq] at hl
    exact h.setPhase hl.1.1 (by simp [hl.1.2]) s.quit
  | leavePoll activeChannels =>
    simp only [enabled, Bool.and_eq_true, Bool.not_eq_true', decide_eq_true_eq] at hl
    exact h.setPhase hl.1 (by simp) s.quit
  | handleEvent =>
    simp only [enabled, Bool.and_eq_true, Bool.not_eq_true'] at hl
    simp only [LoopThread.next]
    split
    · exact ⟨fun ho => absurd (ho.symm.trans hl.1) (by simp), fun hne => absurd rfl (hne _)⟩
    · exact h.setPhase hl.1 (fun hne => absurd rfl (hne _)) s.quit
    · exact h
  | swapFunctors => exact ⟨fun _ => rfl, fun _ _ _ => List.nil_sublist _⟩
  | nextFunctor =>
    simp only [LoopThread.next]
    split
    · next f m hnext =>
      obtain ⟨-, -, hpending, -⟩ := EventLoop.nextFunctor_spec hnext
      refine ⟨h.owes, ?_⟩
      rw [hpending, EventLoop.wakeupFd_nextFunctor hnext]
      exact h.written
    · exact h
  | endFunctors =>
    simp only [enabled, Bool.and_eq_true, Bool.not_eq_true', decide_eq_true_eq] at hl
    refine ⟨fun ho => absurd (ho.symm.trans hl.1.1) (by simp), fun _ ho hfd => ?_⟩
    exact h.written (by simp [hl.1.2]) ho hfd
  | queueInLoop cb =>
    simp only [enabled, userCode, Bool.and_eq_true, Bool.not_eq_true'] at hl
    refine ⟨hledger.calling.mp, fun hne ho _ => ?_⟩
    -- in a functor a `wakeup` is owed, in an event handler nothing is
    exfalso
    cases hphase : s.phase with
    | outside => exact hin hphase
    | test => simp [hphase] at hl
    | poll => simp [hphase] at hl
    | handleEvents cs => exact hne cs hphase
    | doPendingFunctors =>
      exact absurd ((hledger.calling.mpr hphase).symm.trans ho) (by simp)
  | runInLoop cb => exact h
  | wakeup => exact h.wakeup false nofun s.calls s.quits
  | quit => exact ⟨h.owes, h.written⟩
  | callQueueInLoop cb =>
    refine ⟨h.owes, fun hne ho hfd => ?_⟩
    exact (h.written hne ho hfd).append (List.Sublist.refl [cb])
  | callWakeup i => exact h.wakeup s.owes id (s.calls.eraseIdx i) s.quits
  | callQuit => exact ⟨h.owes, h.written⟩
  | quitWakeup => exact h.wakeup s.owes id s.calls (s.quits - 1)

/-- No wakeup is lost as long as the loop thread queues nothing outside of `loop()`: whenever it
enters `poll` between the calls of other threads, with a queue that is not empty, the eventfd is
readable. -/
theorem awake_of_inLoop {ls : List (Label Functor)} (hls : Along step InLoop new ls)
    (h : run step new ls = some s) : Along step Awake new ls := by
  refine hls.imp (I := fun s => Ledger s ∧ Alarm s) ?_ ⟨ledger_new, alarm_new⟩ h
  rintro s l t ⟨hledger, halarm⟩ hin hstep
  obtain ⟨hl, rfl⟩ := step_eq_some.mp hstep
  exact ⟨halarm.awake hin hl, hledger.next hl, halarm.next hledger hin hl⟩

def racingRun : List (Label Nat) :=
  [.enterLoop, .callQueueInLoop 0, .callQueueInLoop 1, .callWakeup 1, .callWakeup 0, .enterPoll,
    .leavePoll [.wakeupChannel], .handleEvent, .swapFunctors, .nextFunctor, .queueInLoop 2, .wakeup,
    .nextFunctor, .endFunctors, .enterPoll]

theorem awake_racingRun : ∃ s, run step new racingRun = some s ∧ s.phase = .poll ∧
    s.loop.pendingFunctors = [2] ∧ Along step Awake new racingRun := by
  have hrun : (run step new racingRun).any
      (fun s => s.phase = .poll ∧ s.loop.pendingFunctors = [2]) = true := by decide
  obtain ⟨s, hs, hpoll⟩ := (Option.any_eq_true _ _).mp hrun
  obtain ⟨hphase, hpending⟩ := of_decide_eq_true hpoll
  exact ⟨s, hs, hphase, hpending, awake_of_inLoop (by decide) hs⟩

/-- The callback of an `EventLoopThread` queues a functor; then `loop()` is entered. -/
def initCallbackRun : List (Label Nat) := [.queueInLoop 0, .enterLoop, .enterPoll]

theorem not_awake_initCallback : ∃ s, run step new initCallbackRun = some s ∧ s.phase = .poll ∧
    s.loop.pendingFunctors = [0] ∧ s.loop.wakeupFd = 0 ∧
    ¬Along step Awake new initCallbackRun := by
  have hrun : (run step new initCallbackRun).any (fun s => s.phase = .poll ∧
      s.loop.pendingFunctors = [0] ∧ s.loop.wakeupFd = 0) = true := by decide
  obtain ⟨s, hs, hpoll⟩ := (Option.any_eq_true _ _).mp hrun
  obtain ⟨hphase, hpending, hfd⟩ := of_decide_eq_true hpoll
  exact ⟨s, hs, hphase, hpending, hfd, by decide⟩

end LoopThread

end WebServer.Mymuduo
