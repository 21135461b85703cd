import WebServer.Lib.Run
import WebServer.Mymuduo.EventLoopThread

namespace WebServer.Mymuduo

open WebServer.Lib

/-- Where the thread that owns the pool is: outside, in `startLoop` of thread `i`, in front of the
destructor of thread `i`, in it in front of `loop_->quit()` or in `thread_.join()`, behind all of
them, or in a `quit` through a null `loop_`. -/
inductive OwnerPhase where
  | outside
  | startLoop (i : Nat)
  | destroy (i : Nat)
  | quit (i : Nat)
  | join (i : Nat)
  | destroyed
  | nullQuit
  deriving DecidableEq

namespace OwnerPhase

def isBehind : OwnerPhase → Nat → Bool
  | .destroy i, j | .quit i, j | .join i, j => j < i
  | .destroyed, _ => true
  | .outside, _ | .startLoop _, _ | .nullQuit, _ => false

def isOver : OwnerPhase → Bool
  | .destroyed | .nullQuit => true
  | .outside | .startLoop _ | .destroy _ | .quit _ | .join _ => false

end OwnerPhase

structure OwnedThreads where
  threads : List EventLoopThread
  phase : OwnerPhase
  deriving DecidableEq

def EventLoopThread.destroyThread (t : EventLoopThread) : EventLoopThread :=
  if t.started && !t.joined then { t with detached := true } else t

namespace OwnedThreads

inductive Label where
  /-- Steps of the owner. -/
  | startLoop (i : Nat)
  | returnLoop
  | beginDestroy
  | destroy
  | quitLoop
  | join
  /-- A step of a thread, and a call of `quit` on its loop from elsewhere. -/
  | thread (i : Nat) (l : ThreadStep)
  | quit (i : Nat)
  deriving DecidableEq

def new (n : Nat) : OwnedThreads := ⟨List.replicate n .new, .outside⟩

def setThread (s : OwnedThreads) (i : Nat) (t : EventLoopThread) : OwnedThreads :=
  { s with threads := s.threads.set i t }

/-- The members of thread `i` are destroyed behind the body of its destructor. -/
def destroyMembers (s : OwnedThreads) (i : Nat) (t : EventLoopThread) : OwnedThreads :=
  { s.setThread i t.destroyThread with phase := .destroy (i + 1) }

/-- `~EventLoopThread` of thread `i`, up to `loop_->quit()`. -/
def destroy (s : OwnedThreads) (i : Nat) (t : EventLoopThread) : OwnedThreads :=
  let t := { t with exiting := true }
  if !t.loop then { s.setThread i t with phase := .quit i } else s.destroyMembers i t

/-- `loop_->quit()`, up to the wait in `thread_.join()`. -/
def quitLoop (s : OwnedThreads) (i : Nat) (t : EventLoopThread) : Option OwnedThreads :=
  if t.loop then
    t.callQuit.map fun t => { s.setThread i { t with joined := true } with phase := .join i }
  else some { s with phase := .nullQuit }

def step (s : OwnedThreads) : Label → Option OwnedThreads
  | .startLoop i =>
    if s.phase = .outside then
      s.threads[i]?.bind fun t =>
        if t.phase = .notStarted then some { s.setThread i t.start with phase := .startLoop i }
        else none
    else none
  | .returnLoop =>
    match s.phase with
    | .startLoop i =>
      s.threads[i]?.bind fun t => if t.loop then some { s with phase := .outside } else none
    | _ => none
  | .beginDestroy => if s.phase = .outside then some { s with phase := .destroy 0 } else none
  | .destroy =>
    match s.phase with
    | .destroy i =>
      match s.threads[i]? with
      | none => some { s with phase := .destroyed }
      | some t => some (s.destroy i t)
    | _ => none
  | .quitLoop =>
    match s.phase with
    | .quit i => s.threads[i]?.bind (s.quitLoop i)
    | _ => none
  | .join =>
    match s.phase with
    | .join i =>
      s.threads[i]?.bind fun t =>
        if t.phase = .finished then some (s.destroyMembers i t) else none
    | _ => none
  | .thread i l => s.threads[i]?.bind fun t => (t.threadFunc l).map (s.setThread i)
  | .quit i => s.threads[i]?.bind fun t => t.callQuit.map (s.setThread i)

/-- `quit` is not called through a null pointer, and behind the destructors every loop that was
set has been told to quit and its thread was joined. -/
structure Stops (s : OwnedThreads) : Prop where
  notNull : s.phase ≠ .nullQuit
  joined : s.phase = .destroyed →
    ∀ t ∈ s.threads, t.phase.wasSet = true → t.told = true ∧ t.joined = true

def Place (n : Nat) (threads : List EventLoopThread) : OwnerPhase → Prop
  | .quit i => ∀ t, threads[i]? = some t → t.loop = false
  | .join _ => False
  | .nullQuit => n ≠ 0
  | .outside | .startLoop _ | .destroy _ | .destroyed => True

/-- What the owner and the threads leave as it is.  Outside of `startLoop` no thread is about to
set `loop_`, so a destructor that finds it null calls `quit` through it. -/
structure Owned (n : Nat) (s : OwnedThreads) : Prop where
  length : s.threads.length = n
  sound : ∀ t ∈ s.threads, t.Sound
  notJoined : ∀ t ∈ s.threads, t.joined = false
  settled : ∀ i t, s.threads[i]? = some t → s.phase ≠ .startLoop i →
    t.phase = .notStarted ∨ t.phase.wasSet = true
  behind : ∀ i t, s.threads[i]? = some t → s.phase.isBehind i = true → t.phase.wasSet = true
  place : Place n s.threads s.phase

variable {s u : OwnedThreads} {n i : Nat} {t v : EventLoopThread} {l : Label}

theorem owned_new (n : Nat) : (new n).Owned n where
  length := List.length_replicate
  sound t ht := by
    rw [List.eq_of_mem_replicate ht]
    exact EventLoopThread.sound_new
  notJoined t ht := by
    rw [List.eq_of_mem_replicate ht]
    rfl
  settled i t ht _ := by
    rw [List.eq_of_mem_replicate (List.mem_of_getElem? ht)]
    exact .inl rfl
  behind _ _ _ hbehind := by cases hbehind
  place := trivial

theorem Owned.setThread (h : s.Owned n) (ht : s.threads[i]? = some t) (hv : v.Sound)
    (hjoined : v.joined = false)
    (hsettled : s.phase ≠ .startLoop i → v.phase = .notStarted ∨ v.phase.wasSet = true)
    (hwasSet : t.phase.wasSet = true → v.phase.wasSet = true)
    (hunset : s.phase = .quit i → v.loop = false) : (s.setThread i v).Owned n := by
  refine ⟨List.length_set.trans h.length, fun w hw => ?_, fun w hw => ?_, fun j w hw hphase => ?_,
    fun j w hw hbehind => ?_, ?_⟩
  · rcases List.mem_or_eq_of_mem_set hw with hw | rfl
    · exact h.sound w hw
    · exact hv
  · rcases List.mem_or_eq_of_mem_set hw with hw | rfl
    · exact h.notJoined w hw
    · exact hjoined
  · rcases EventLoopThread.getElem?_set_cases hw with ⟨rfl, rfl⟩ | hw
    · exact hsettled hphase
    · exact h.settled j w hw hphase
  · rcases EventLoopThread.getElem?_set_cases hw with ⟨rfl, rfl⟩ | hw
    · exact hwasSet (h.behind j t ht hbehind)
    · exact h.behind j w hw hbehind
  · have hplace := h.place
    rw [OwnedThreads.setThread]
    generalize s.phase = phase at hplace hunset ⊢
    cases phase with
    | quit j =>
      intro w hw
      rcases EventLoopThread.getElem?_set_cases hw with ⟨rfl, rfl⟩ | hw
      · exact hunset rfl
      · exact hplace w hw
    | outside | startLoop _ | destroy _ | join _ | destroyed | nullQuit => exact hplace

theorem Owned.setPhase (h : s.Owned n) {phase : OwnerPhase}
    (hsettled : ∀ i, s.phase = .startLoop i → ∀ t, s.threads[i]? = some t →
      t.phase = .notStarted ∨ t.phase.wasSet = true)
    (hbehind : ∀ i t, s.threads[i]? = some t → phase.isBehind i = true → t.phase.wasSet = true)
    (hplace : Place n s.threads phase) : ({ s with phase := phase }).Owned n where
  length := h.length
  sound := h.sound
  notJoined := h.notJoined
  settled i t ht _ := by
    by_cases hphase : s.phase = .startLoop i
    · exact hsettled i hphase t ht
    · exact h.settled i t ht hphase
  behind := hbehind
  place := hplace

theorem Owned.unset_of_quit (h : s.Owned n) (hphase : s.phase = .quit i)
    (ht : s.threads[i]? = some t) : t.loop = false := by
  have hplace := h.place
  rw [hphase] at hplace
  exact hplace t ht

theorem Owned.thread (h : s.Owned n) {l : ThreadStep} (ht : s.threads[i]? = some t)
    (hv : t.Runs l v) : (s.setThread i v).Owned n := by
  have hmem := List.mem_of_getElem? ht
  obtain ⟨-, -, -, hwasSet⟩ := hv.forward
  have hphase (hsettled : s.phase ≠ .startLoop i) : t.phase.wasSet = true :=
    (h.settled i t ht hsettled).resolve_left hv.started
  refine h.setThread ht ((h.sound t hmem).runs hv) (hv.joined.trans (h.notJoined t hmem))
    (fun hsettled => .inr (hwasSet (hphase hsettled))) hwasSet fun hquit => ?_
  refine (h.sound t hmem).loop_of_runs (h.unset_of_quit hquit ht) hv ?_
  rintro rfl
  have hset := hphase (by simp [hquit])
  cases hv with
  | publish hpublish =>
    rw [hpublish] at hset
    cases hset

theorem Owned.setMembers (h : s.Owned n) (ht : s.threads[i]? = some t) (hloop : v.loop = t.loop)
    (hstarted : v.started = t.started) (hjoined : v.joined = t.joined)
    (hphase : v.phase = t.phase) : (s.setThread i v).Owned n := by
  have hmem := List.mem_of_getElem? ht
  obtain ⟨hset, hstart⟩ := h.sound t hmem
  refine h.setThread ht ⟨?_, ?_⟩ (hjoined.trans (h.notJoined t hmem)) (fun hout => ?_) ?_
    fun hquit => hloop.trans (h.unset_of_quit hquit ht)
  · rw [hloop, hphase, hset]
  · rw [hstarted, hphase, hstart]
  · rw [hphase]
    exact h.settled i t ht hout
  · rw [hphase]
    exact id

theorem destroyThread_eq (t : EventLoopThread) :
    t.destroyThread = { t with detached := t.detached || t.started && !t.joined } := by
  rw [EventLoopThread.destroyThread]
  split
  · next h => simp [h]
  · next h => simp [Bool.eq_false_iff.mpr h]

theorem Owned.destroy (h : s.Owned n) (hphase : s.phase = .destroy i)
    (ht : s.threads[i]? = some t) : (s.destroy i t).Owned n := by
  have hlt := (List.getElem?_eq_some_iff.mp ht).1
  have hsound := h.sound t (List.mem_of_getElem? ht)
  rw [OwnedThreads.destroy]
  split
  · next hnull =>
    have hset := h.setMembers (v := { t with exiting := true }) ht rfl rfl rfl rfl
    refine hset.setPhase (by simp [OwnedThreads.setThread, hphase])
      (fun j w hw hj => hset.behind j w hw ?_) fun w hw => ?_
    · exact (congrArg (OwnerPhase.isBehind · j) hphase).trans hj
    · rw [OwnedThreads.setThread, List.getElem?_set_self hlt] at hw
      cases hw
      simpa using hnull
  · next hloop =>
    rw [destroyMembers, destroyThread_eq]
    have hset := h.setMembers (v := { t with
      exiting := true, detached := t.detached || t.started && !t.joined }) ht rfl rfl rfl rfl
    refine hset.setPhase (by simp [OwnedThreads.setThread, hphase]) (fun j w hw hj => ?_) trivial
    simp only [OwnerPhase.isBehind, decide_eq_true_eq] at hj
    rcases Nat.lt_succ_iff_lt_or_eq.mp hj with hj | rfl
    · refine hset.behind j w hw ?_
      exact (congrArg (OwnerPhase.isBehind · j) hphase).trans (decide_eq_true hj)
    · rw [OwnedThreads.setThread, List.getElem?_set_self hlt] at hw
      cases hw
      refine ThreadPhase.wasSet_of_loopSet (hsound.loop.symm.trans ?_)
      simpa using hloop

theorem Owned.destroyed (h : s.Owned n) (hphase : s.phase = .destroy i)
    (hnone : s.threads[i]? = none) : ({ s with phase := .destroyed }).Owned n := by
  refine h.setPhase (by simp [hphase]) (fun j w hw _ => h.behind j w hw ?_) trivial
  have hlt := (List.getElem?_eq_some_iff.mp hw).1
  rw [hphase]
  exact decide_eq_true (hlt.trans_le (List.getElem?_eq_none_iff.mp hnone))

theorem Owned.startLoop (h : s.Owned n) (hphase : s.phase = .outside)
    (ht : s.threads[i]? = some t) (hnew : t.phase = .notStarted) :
    ({ s.setThread i t.start with phase := .startLoop i }).Owned n := by
  have hmem := List.mem_of_getElem? ht
  have howner : ({ s with phase := .startLoop i }).Owned n :=
    h.setPhase (by simp [hphase]) (fun j w _ hj => by cases hj) trivial
  refine howner.setThread ht ((h.sound t hmem).start hnew) (h.notJoined t hmem)
    (fun hother => absurd rfl hother) (fun hset => ?_) fun hquit => by cases hquit
  rw [hnew] at hset
  cases hset

theorem Owned.returnLoop (h : s.Owned n) (hphase : s.phase = .startLoop i)
    (ht : s.threads[i]? = some t) (hloop : t.loop = true) :
    ({ s with phase := .outside }).Owned n := by
  refine h.setPhase (fun j hj w hw => .inr ?_) (fun j w _ hj => by cases hj) trivial
  cases hphase.symm.trans hj
  cases ht.symm.trans hw
  have hsound := h.sound t (List.mem_of_getElem? ht)
  exact ThreadPhase.wasSet_of_loopSet (hsound.loop.symm.trans hloop)

theorem Owned.quitLoop (h : s.Owned n) (hphase : s.phase = .quit i)
    (ht : s.threads[i]? = some t) (hu : s.quitLoop i t = some u) : u.Owned n := by
  rw [OwnedThreads.quitLoop, h.unset_of_quit hphase ht] at hu
  cases hu
  refine h.setPhase (by simp [hphase]) (fun j w _ hj => by cases hj) ?_
  have hlt := (List.getElem?_eq_some_iff.mp ht).1
  exact h.length ▸ Nat.ne_zero_of_lt hlt

theorem Owned.step (h : s.Owned n) (hu : step s l = some u) : u.Owned n := by
  cases l with
  | startLoop i =>
    simp only [OwnedThreads.step, Option.ite_none_right_eq_some, Option.bind_eq_some_iff,
      Option.some.injEq] at hu
    obtain ⟨hphase, t, ht, hnew, rfl⟩ := hu
    exact h.startLoop hphase ht hnew
  | returnLoop =>
    simp only [OwnedThreads.step] at hu
    split at hu
    · next i hphase =>
      simp only [Option.bind_eq_some_iff, Option.ite_none_right_eq_some, Option.some.injEq] at hu
      obtain ⟨t, ht, hloop, rfl⟩ := hu
      exact h.returnLoop hphase ht hloop
    · cases hu
  | beginDestroy =>
    simp only [OwnedThreads.step, Option.ite_none_right_eq_some, Option.some.injEq] at hu
    obtain ⟨hphase, rfl⟩ := hu
    refine h.setPhase (by simp [hphase]) (fun j w _ hj => ?_) trivial
    simp [OwnerPhase.isBehind] at hj
  | destroy =>
    simp only [OwnedThreads.step] at hu
    split at hu
    · next i hphase =>
      split at hu
      · next hnone =>
        cases hu
        exact h.destroyed hphase hnone
      · next t ht =>
        cases hu
        exact h.destroy hphase ht
    · cases hu
  | quitLoop =>
    simp only [OwnedThreads.step] at hu
    split at hu
    · next i hphase =>
      obtain ⟨t, ht, hu⟩ := Option.bind_eq_some_iff.mp hu
      exact h.quitLoop hphase ht hu
    · cases hu
  | join =>
    simp only [OwnedThreads.step] at hu
    split at hu
    · next i hphase =>
      have hplace := h.place
      rw [hphase] at hplace
      exact hplace.elim
    · cases hu
  | thread i l =>
    simp only [OwnedThreads.step, Option.bind_eq_some_iff, Option.map_eq_some_iff] at hu
    obtain ⟨t, ht, v, hv, rfl⟩ := hu
    exact h.thread ht (EventLoopThread.runs_of_threadFunc hv)
  | quit i =>
    simp only [OwnedThreads.step, Option.bind_eq_some_iff, Option.map_eq_some_iff] at hu
    obtain ⟨t, ht, v, hv, rfl⟩ := hu
    obtain ⟨-, rfl⟩ := EventLoopThread.callQuit_eq_some hv
    exact h.setMembers ht rfl rfl rfl rfl

theorem owned_of_run {ls : List Label} (h : run step (new n) ls = some s) : s.Owned n :=
  invariant_run (fun _ _ _ hs hu => Owned.step hs hu) (owned_new n) h

theorem Owned.leftRunning (h : s.Owned n) (hphase : s.phase = .destroyed) :
    ∀ t ∈ s.threads, t.phase.wasSet = true ∧ t.joined = false := by
  intro t ht
  obtain ⟨i, hi⟩ := List.getElem?_of_mem ht
  exact ⟨h.behind i t hi (congrArg (OwnerPhase.isBehind · i) hphase), h.notJoined t ht⟩

theorem Owned.stops_iff (h : s.Owned n) (hover : s.phase.isOver = true) : s.Stops ↔ n = 0 := by
  constructor
  · intro hstops
    have hphase : s.phase = .destroyed := by
      have hnotNull := hstops.notNull
      generalize s.phase = phase at hover hnotNull ⊢
      cases phase with
      | destroyed => rfl
      | nullQuit => exact absurd rfl hnotNull
      | outside | startLoop _ | destroy _ | quit _ | join _ => cases hover
    rw [← h.length, List.length_eq_zero_iff, List.eq_nil_iff_forall_not_mem]
    intro t ht
    obtain ⟨hset, hnotJoined⟩ := h.leftRunning hphase t ht
    obtain ⟨-, hjoined⟩ := hstops.joined hphase t ht hset
    cases hnotJoined.symm.trans hjoined
  · intro hn
    have hnil := List.length_eq_zero_iff.mp (h.length.trans hn)
    refine ⟨fun hphase => ?_, fun _ t ht => by simp [hnil] at ht⟩
    have hplace := h.place
    rw [hphase] at hplace
    exact hplace hn

/-- The destruction of a pool stops its threads exactly if it has none. -/
theorem stops_iff_of_run {ls : List Label} (h : run step (new n) ls = some s)
    (hover : s.phase.isOver = true) : s.Stops ↔ n = 0 :=
  (owned_of_run h).stops_iff hover

def halfStarted : List Label :=
  [.startLoop 0, .thread 0 .semPost, .thread 0 .callback, .thread 0 .publish, .returnLoop,
    .thread 0 .enterLoop, .beginDestroy, .destroy, .destroy, .quitLoop]

theorem stops_iff_halfStarted :
    ∃ s, run step (new 2) halfStarted = some s ∧ s.phase = .nullQuit ∧ ¬s.Stops := by
  have hrun : (run step (new 2) halfStarted).any (·.phase = .nullQuit) = true := by decide
  obtain ⟨s, hs, hphase⟩ := (Option.any_eq_true _ _).mp hrun
  have hphase := of_decide_eq_true hphase
  exact ⟨s, hs, hphase, (stops_iff_of_run hs (by rw [hphase]; rfl)).not.mpr (by decide)⟩

def allStarted : List Label :=
  [.startLoop 0, .thread 0 .semPost, .thread 0 .callback, .thread 0 .publish, .returnLoop,
    .thread 0 .enterLoop, .beginDestroy, .destroy, .destroy]

/-- The only thread runs its loop, and is neither told to quit nor joined. -/
theorem not_stops_allStarted :
    ¬∀ n ls s, run step (new n) ls = some s → s.phase.isOver = true → s.Stops := by
  intro hall
  have hrun : (run step (new 1) allStarted).any (fun s =>
      s.phase = .destroyed ∧ ∃ t ∈ s.threads, t.phase = .looping ∧ t.told = false) = true := by
    decide
  obtain ⟨s, hs, hstate⟩ := (Option.any_eq_true _ _).mp hrun
  obtain ⟨hphase, t, ht, hlooping, htold⟩ := of_decide_eq_true hstate
  have hstops := hall 1 allStarted s hs (by rw [hphase]; rfl)
  obtain ⟨hquit, -⟩ := hstops.joined hphase t ht (by rw [hlooping]; rfl)
  cases htold.symm.trans hquit

end OwnedThreads

end WebServer.Mymuduo
