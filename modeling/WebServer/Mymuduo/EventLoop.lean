import Mathlib.Logic.Basic

/-! The queue of pending functors of an event loop.  `doPendingFunctors` is cut into its
critical section, the calls of the functors, and the end, where the batch is freed. -/

universe u

namespace WebServer.Mymuduo

/-- `functors` and `ran` are the local batch of `doPendingFunctors`: what is still to be called,
and what was called and is kept until the batch goes out of scope. -/
@[ext] structure EventLoop (Functor : Type u) where
  pendingFunctors : List Functor
  functors : List Functor
  ran : List Functor
  callingPendingFunctors : Bool
  wakeupFd : Nat
  noBatch : callingPendingFunctors = false → functors = [] ∧ ran = []

namespace EventLoop

variable {Functor : Type u}

def new : EventLoop Functor where
  pendingFunctors := []
  functors := []
  ran := []
  callingPendingFunctors := false
  wakeupFd := 0
  noBatch := fun _ => ⟨rfl, rfl⟩

def wakeup (l : EventLoop Functor) : EventLoop Functor := { l with wakeupFd := l.wakeupFd + 1 }

def queueInLoop (l : EventLoop Functor) (isInLoopThread : Bool) (cb : Functor) :
    EventLoop Functor :=
  let l := { l with pendingFunctors := l.pendingFunctors ++ [cb] }
  if !isInLoopThread || l.callingPendingFunctors then l.wakeup else l

/-- The beginning of `doPendingFunctors`, up to the end of its critical section. -/
def swapFunctors (l : EventLoop Functor) : EventLoop Functor where
  pendingFunctors := []
  functors := l.pendingFunctors
  ran := []
  callingPendingFunctors := true
  wakeupFd := l.wakeupFd
  noBatch := nofun

def nextFunctor (l : EventLoop Functor) : Option (Functor × EventLoop Functor) :=
  match h : l.functors with
  | [] => none
  | f :: fs => some (f, { l with
      functors := fs
      ran := l.ran ++ [f]
      noBatch := fun hc => absurd (h.symm.trans (l.noBatch hc).1) (List.cons_ne_nil f fs) })

/-- The end of `doPendingFunctors`. -/
def endFunctors (l : EventLoop Functor) : EventLoop Functor where
  pendingFunctors := l.pendingFunctors
  functors := []
  ran := []
  callingPendingFunctors := false
  wakeupFd := l.wakeupFd
  noBatch := fun _ => ⟨rfl, rfl⟩

def waiting (l : EventLoop Functor) : List Functor := l.functors ++ l.pendingFunctors

/-- The functors that exist: captured values live as long as these. -/
def kept (l : EventLoop Functor) : List Functor := l.ran ++ l.waiting

@[simp] theorem pendingFunctors_queueInLoop (l : EventLoop Functor) (b : Bool) (cb : Functor) :
    (l.queueInLoop b cb).pendingFunctors = l.pendingFunctors ++ [cb] := by
  simp only [queueInLoop]
  split <;> rfl

@[simp] theorem functors_queueInLoop (l : EventLoop Functor) (b : Bool) (cb : Functor) :
    (l.queueInLoop b cb).functors = l.functors := by
  simp only [queueInLoop]
  split <;> rfl

@[simp] theorem callingPendingFunctors_queueInLoop (l : EventLoop Functor) (b : Bool)
    (cb : Functor) : (l.queueInLoop b cb).callingPendingFunctors = l.callingPendingFunctors := by
  simp only [queueInLoop]
  split <;> rfl

@[simp] theorem ran_queueInLoop (l : EventLoop Functor) (b : Bool) (cb : Functor) :
    (l.queueInLoop b cb).ran = l.ran := by
  simp only [queueInLoop]
  split <;> rfl

@[simp] theorem waiting_queueInLoop (l : EventLoop Functor) (b : Bool) (cb : Functor) :
    (l.queueInLoop b cb).waiting = l.waiting ++ [cb] := by
  simp [waiting]

@[simp] theorem kept_queueInLoop (l : EventLoop Functor) (b : Bool) (cb : Functor) :
    (l.queueInLoop b cb).kept = l.kept ++ [cb] := by
  simp [kept]

variable {l m : EventLoop Functor}

theorem waiting_swapFunctors (h : l.callingPendingFunctors = false) :
    l.swapFunctors.waiting = l.waiting := by
  simp [swapFunctors, waiting, (l.noBatch h).1]

theorem kept_swapFunctors (h : l.callingPendingFunctors = false) :
    l.swapFunctors.kept = l.kept := by
  rw [kept, waiting_swapFunctors h, kept, (l.noBatch h).2]
  rfl

theorem nextFunctor_eq_none : l.nextFunctor = none ↔ l.functors = [] := by
  rw [nextFunctor]
  split
  · next h => simp [h]
  · next h => simp [h]

theorem nextFunctor_spec {f : Functor} (h : l.nextFunctor = some (f, m)) :
    l.functors = f :: m.functors ∧ m.ran = l.ran ++ [f] ∧ m.pendingFunctors = l.pendingFunctors ∧
      m.callingPendingFunctors = l.callingPendingFunctors := by
  rw [nextFunctor] at h
  split at h
  · cases h
  · next hfs =>
    obtain ⟨rfl, rfl⟩ := Prod.mk.inj (Option.some.inj h)
    exact ⟨hfs, rfl, rfl, rfl⟩

theorem wakeupFd_nextFunctor {f : Functor} (h : l.nextFunctor = some (f, m)) :
    m.wakeupFd = l.wakeupFd := by
  rw [nextFunctor] at h
  split at h
  · cases h
  · obtain ⟨-, rfl⟩ := Prod.mk.inj (Option.some.inj h)
    rfl

theorem waiting_nextFunctor {f : Functor} (h : l.nextFunctor = some (f, m)) :
    l.waiting = f :: m.waiting := by
  obtain ⟨hfunctors, -, hpending, -⟩ := nextFunctor_spec h
  rw [waiting, waiting, hfunctors, hpending, List.cons_append]

theorem kept_nextFunctor {f : Functor} (h : l.nextFunctor = some (f, m)) : m.kept = l.kept := by
  obtain ⟨-, hran, -, -⟩ := nextFunctor_spec h
  rw [kept, kept, hran, waiting_nextFunctor h, List.append_assoc, List.singleton_append]

theorem waiting_endFunctors (h : l.functors = []) : l.endFunctors.waiting = l.waiting := by
  rw [waiting, waiting, h]
  rfl

end EventLoop

end WebServer.Mymuduo
