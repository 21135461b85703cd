import WebServer.Lib.Run
import WebServer.Mymuduo.EventLoopThread

namespace WebServer.Mymuduo

open WebServer.Lib

inductive LoopPtr where
  | baseLoop
  | subLoop (i : Nat)
  deriving DecidableEq

/-- A callable `threadInitCallback_`, which returns.  With `quits` it hands out its loop to code
that may call `quit` at any time. -/
structure ThreadInitCallback where
  quits : Bool
  deriving DecidableEq

/-- Where the base thread is: at the test of `i < numThreads_`, in `sem_wait`, at the test of
`loop_` in `startLoop`, in `cond_.wait`, behind `start`, or thrown out of it by the call of an empty
function. -/
inductive StartPhase where
  | notStarted | forLoop | semWait | test | wait | started | threw
  deriving DecidableEq

def StartPhase.inStartLoop : StartPhase → Bool
  | .semWait | .test | .wait => true
  | .notStarted | .forLoop | .started | .threw => false

/-- `cb` is empty or callable.  `called` are the loops that it was called with, and `chosen` the
results of `getNextLoop`. -/
structure EventLoopThreadPool where
  numThreads : Nat
  cb : Option ThreadInitCallback
  started : Nat
  threads : List EventLoopThread
  loops : List LoopPtr
  next : Nat
  phase : StartPhase
  called : List LoopPtr
  chosen : List LoopPtr

namespace EventLoopThreadPool

inductive Label where
  /-- Steps of the base thread. -/
  | start
  | newThread
  | semWait
  | testLoop
  | endStart
  | getNextLoop
  /-- A step of a thread, and a call of `quit` on its loop. -/
  | thread (i : Nat) (l : ThreadStep)
  | quit (i : Nat)
  deriving DecidableEq

def new (numThreads : Nat) (cb : Option ThreadInitCallback) : EventLoopThreadPool where
  numThreads := numThreads
  cb := cb
  started := 0
  threads := []
  loops := []
  next := 0
  phase := .notStarted
  called := []
  chosen := []

def start (s : EventLoopThreadPool) : EventLoopThreadPool :=
  if s.started = 0 then { s with started := s.started + 1, phase := .forLoop }
  else { s with started := s.started + 1 }

def endStart (s : EventLoopThreadPool) : EventLoopThreadPool :=
  if s.numThreads = 0 then
    match s.cb with
    | none => { s with phase := .threw }
    | some _ => { s with called := s.called ++ [.baseLoop], phase := .started }
  else { s with phase := .started }

/-- One round of the `while` in `startLoop`, with the `push_back` behind it. -/
def testLoop (s : EventLoopThreadPool) (t : EventLoopThread) : EventLoopThreadPool :=
  if t.loop then
    { s with loops := s.loops ++ [.subLoop (s.threads.length - 1)], phase := .forLoop }
  else { s with phase := .wait }

/-- `none` where `loops_` would be read behind its end. -/
def getNextLoop (s : EventLoopThreadPool) : Option EventLoopThreadPool :=
  if s.loops.isEmpty then some { s with chosen := s.chosen ++ [.baseLoop] }
  else s.loops[s.next]?.map fun loop =>
    { s with
      chosen := s.chosen ++ [loop]
      next := if s.loops.length ≤ s.next + 1 then 0 else s.next + 1 }

theorem succ_mod_eq (k : Nat) {n : Nat} (hn : n ≠ 0) :
    (if n ≤ k % n + 1 then 0 else k % n + 1) = (k + 1) % n := by
  have hlt := Nat.mod_lt k (Nat.pos_of_ne_zero hn)
  rw [← Nat.mod_add_mod k n 1]
  split
  · next hle =>
    have hlast : k % n + 1 = n := by omega
    rw [hlast, Nat.mod_self]
  · next hle => exact (Nat.mod_eq_of_lt (Nat.lt_of_not_le hle)).symm

/-- What a step of thread `i` does outside of its own object: it calls `callback_` if there is one,
and `notify_one` wakes the base thread. -/
def effect (s : EventLoopThreadPool) (i : Nat) : ThreadStep → EventLoopThreadPool
  | .callback => if s.cb.isSome then { s with called := s.called ++ [.subLoop i] } else s
  | .publish =>
    if s.phase = .wait ∧ i + 1 = s.threads.length then { s with phase := .test } else s
  | _ => s

def setThread (s : EventLoopThreadPool) (i : Nat) (t : EventLoopThread) : EventLoopThreadPool :=
  { s with threads := s.threads.set i t }

/-- Before `start` has returned the loops are known only to the callback. -/
def mayQuit (s : EventLoopThreadPool) : Bool :=
  s.phase = .started || s.cb.any ThreadInitCallback.quits

def step (s : EventLoopThreadPool) : Label → Option EventLoopThreadPool
  | .start => if s.phase = .notStarted ∨ s.phase = .started then some s.start else none
  | .newThread =>
    if s.phase = .forLoop ∧ s.threads.length < s.numThreads then
      some { s with threads := s.threads ++ [EventLoopThread.new.start], phase := .semWait }
    else none
  | .semWait =>
    if s.phase = .semWait then
      s.threads.getLast?.bind fun t =>
        if t.phase = .created then none else some { s with phase := .test }
    else none
  | .testLoop => if s.phase = .test then s.threads.getLast?.map s.testLoop else none
  | .endStart =>
    if s.phase = .forLoop ∧ s.numThreads ≤ s.threads.length then some s.endStart else none
  | .getNextLoop => if s.phase = .started then s.getNextLoop else none
  | .thread i l =>
    s.threads[i]?.bind fun t => (t.threadFunc l).map fun t => (s.setThread i t).effect i l
  | .quit i =>
    if s.mayQuit then s.threads[i]?.bind fun t => t.callQuit.map fun t => s.setThread i t
    else none

inductive Steps (s : EventLoopThreadPool) : Label → EventLoopThreadPool → Prop where
  | start (outside : s.phase = .notStarted ∨ s.phase = .started) : Steps s .start s.start
  | newThread (forLoop : s.phase = .forLoop) (more : s.threads.length < s.numThreads) :
      Steps s .newThread
        { s with threads := s.threads ++ [EventLoopThread.new.start], phase := .semWait }
  | semWait {t : EventLoopThread} (semWait : s.phase = .semWait)
      (last : s.threads.getLast? = some t) (posted : t.phase ≠ .created) :
      Steps s .semWait { s with phase := .test }
  | found {t : EventLoopThread} (test : s.phase = .test) (last : s.threads.getLast? = some t)
      (loop : t.loop = true) :
      Steps s .testLoop
        { s with loops := s.loops ++ [.subLoop (s.threads.length - 1)], phase := .forLoop }
  | notFound {t : EventLoopThread} (test : s.phase = .test) (last : s.threads.getLast? = some t)
      (loop : t.loop = false) : Steps s .testLoop { s with phase := .wait }
  | callEmpty (forLoop : s.phase = .forLoop) (single : s.numThreads = 0) (empty : s.cb = none) :
      Steps s .endStart { s with phase := .threw }
  | callBase {cb : ThreadInitCallback} (forLoop : s.phase = .forLoop) (single : s.numThreads = 0)
      (callable : s.cb = some cb) :
      Steps s .endStart { s with called := s.called ++ [.baseLoop], phase := .started }
  | endStart (forLoop : s.phase = .forLoop) (many : s.numThreads ≠ 0)
      (all : s.numThreads ≤ s.threads.length) : Steps s .endStart { s with phase := .started }
  | getNextLoop {u : EventLoopThreadPool} (started : s.phase = .started)
      (chosen : s.getNextLoop = some u) : Steps s .getNextLoop u
  | thread {i : Nat} {l : ThreadStep} {t u : EventLoopThread} (own : s.threads[i]? = some t)
      (runs : t.Runs l u) : Steps s (.thread i l) ((s.setThread i u).effect i l)
  | quit {i : Nat} {t : EventLoopThread} (mayQuit : s.mayQuit = true)
      (own : s.threads[i]? = some t) (alive : t.phase.hasLoop = true) :
      Steps s (.quit i) (s.setThread i { t with quit := true, told := true })

theorem steps_of_step {s u : EventLoopThreadPool} {l : Label} (h : step s l = some u) :
    Steps s l u := by
  cases l with
  | start =>
    obtain ⟨houtside, rfl⟩ := by simpa [step] using h
    exact .start houtside
  | newThread =>
    simp only [step, Option.ite_none_right_eq_some, Option.some.injEq] at h
    obtain ⟨⟨hphase, hmore⟩, rfl⟩ := h
    exact .newThread hphase hmore
  | semWait =>
    simp only [step, Option.ite_none_right_eq_some, Option.bind_eq_some_iff,
      Option.ite_none_left_eq_some, Option.some.injEq] at h
    obtain ⟨hphase, t, ht, hposted, rfl⟩ := h
    exact .semWait hphase ht hposted
  | testLoop =>
    simp only [step, Option.ite_none_right_eq_some, Option.map_eq_some_iff] at h
    obtain ⟨hphase, t, ht, rfl⟩ := h
    rw [testLoop]
    split
    · next hloop => exact .found hphase ht hloop
    · next hloop => exact .notFound hphase ht (Bool.eq_false_iff.mpr hloop)
  | endStart =>
    simp only [step, Option.ite_none_right_eq_some, Option.some.injEq] at h
    obtain ⟨⟨hphase, hall⟩, rfl⟩ := h
    rw [endStart]
    split
    · next hsingle =>
      split
      · next hcb => exact .callEmpty hphase hsingle hcb
      · next hcb => exact .callBase hphase hsingle hcb
    · next hmany => exact .endStart hphase hmany hall
  | getNextLoop =>
    simp only [step, Option.ite_none_right_eq_some] at h
    exact .getNextLoop h.1 h.2
  | thread i l =>
    simp only [step, Option.bind_eq_some_iff, Option.map_eq_some_iff] at h
    obtain ⟨t, ht, u, hu, rfl⟩ := h
    exact .thread ht (EventLoopThread.runs_of_threadFunc hu)
  | quit i =>
    simp only [step, Option.ite_none_right_eq_some, Option.bind_eq_some_iff,
      Option.map_eq_some_iff] at h
    obtain ⟨hmay, t, ht, u, hu, rfl⟩ := h
    obtain ⟨halive, rfl⟩ := EventLoopThread.callQuit_eq_some hu
    exact .quit hmay ht halive

def current (s : EventLoopThreadPool) : Option EventLoopThread := s.threads[s.loops.length]?

structure Threads (s : EventLoopThreadPool) : Prop where
  sound : ∀ t ∈ s.threads, t.Sound ∧ t.phase ≠ .notStarted
  loops : s.loops = (List.range s.loops.length).map .subLoop
  length : s.threads.length = s.loops.length + if s.phase.inStartLoop then 1 else 0
  le : s.threads.length ≤ s.numThreads
  notStarted : s.phase = .notStarted → s.started = 0 ∧ s.threads = []
  once : s.phase ≠ .notStarted → s.started ≠ 0
  all : s.phase = .started → s.loops.length = s.numThreads
  threw : s.phase = .threw → s.numThreads = 0 ∧ s.cb = none
  wasSet : ∀ i t, s.threads[i]? = some t → i < s.loops.length → t.phase.wasSet = true
  posted : s.phase = .test ∨ s.phase = .wait → ∀ t, s.current = some t → t.phase ≠ .created
  unset : s.phase = .wait → ∀ t, s.current = some t → t.loop = false

variable {s u : EventLoopThreadPool} {l : Label} {n : Nat} {cb : Option ThreadInitCallback}

theorem threads_new : (new n cb).Threads where
  sound := by simp [new]
  loops := rfl
  length := rfl
  le := Nat.zero_le _
  notStarted _ := ⟨rfl, rfl⟩
  once h := absurd rfl h
  all := by simp [new]
  threw := by simp [new]
  wasSet := by simp [new]
  posted := by simp [new]
  unset := by simp [new]

theorem current_eq_last (h : s.Threads) (hphase : s.phase.inStartLoop = true) :
    s.current = s.threads.getLast? := by
  rw [current, List.getLast?_eq_getElem?, h.length, hphase]
  rfl

theorem Threads.wasSet_of_ne (h : s.Threads) {i : Nat} {t : EventLoopThread}
    (ht : s.threads[i]? = some t) (hi : i ≠ s.loops.length) : t.phase.wasSet = true := by
  have hlt := (List.getElem?_eq_some_iff.mp ht).1
  have hlength := h.length
  refine h.wasSet i t ht ?_
  split at hlength <;> omega

theorem Threads.notStarted_of_zero (h : s.Threads) (hzero : s.started = 0) :
    s.phase = .notStarted := by
  by_contra hne
  exact h.once hne hzero

theorem effect_frame (s : EventLoopThreadPool) (i : Nat) (l : ThreadStep) :
    (s.effect i l).numThreads = s.numThreads ∧ (s.effect i l).cb = s.cb ∧
      (s.effect i l).started = s.started ∧ (s.effect i l).threads = s.threads ∧
      (s.effect i l).loops = s.loops ∧ (s.effect i l).next = s.next ∧
      (s.effect i l).chosen = s.chosen := by
  cases l with
  | callback => simp only [effect]; split <;> simp
  | publish => simp only [effect]; split <;> simp
  | semPost | enterLoop | leaveLoop | clear => simp [effect]

theorem effect_phase (s : EventLoopThreadPool) (i : Nat) (l : ThreadStep) :
    (s.effect i l).phase = s.phase ∨
      l = .publish ∧ s.phase = .wait ∧ i + 1 = s.threads.length ∧ (s.effect i l).phase = .test := by
  cases l with
  | callback =>
    simp only [effect]
    split <;> exact .inl rfl
  | publish =>
    simp only [effect]
    split
    · next hwait => exact .inr ⟨trivial, hwait.1, hwait.2, rfl⟩
    · exact .inl rfl
  | semPost | enterLoop | leaveLoop | clear => exact .inl rfl

theorem Threads.set (h : s.Threads) {i : Nat} {t v : EventLoopThread}
    (ht : s.threads[i]? = some t) (hv : v.Sound) (hstarted : v.phase ≠ .notStarted)
    (hwasSet : t.phase.wasSet = true → v.phase.wasSet = true)
    (hposted : t.phase ≠ .created → v.phase ≠ .created)
    (hunset : s.phase = .wait → i = s.loops.length → v.loop = false) :
    (s.setThread i v).Threads := by
  have hlength : (s.setThread i v).threads.length = s.threads.length := List.length_set
  refine ⟨fun w hw => ?_, h.loops, hlength.trans h.length, hlength.trans_le h.le, fun hphase => ?_,
    h.once, h.all, h.threw, fun j w hw hj => ?_, fun hphase w hw => ?_, fun hphase w hw => ?_⟩
  · rcases List.mem_or_eq_of_mem_set hw with hw | rfl
    · exact h.sound w hw
    · exact ⟨hv, hstarted⟩
  · obtain ⟨hzero, hnil⟩ := h.notStarted hphase
    simp [hnil] at ht
  · rcases EventLoopThread.getElem?_set_cases hw with ⟨rfl, rfl⟩ | hw
    · exact hwasSet (h.wasSet j t ht hj)
    · exact h.wasSet j w hw hj
  · rcases EventLoopThread.getElem?_set_cases hw with ⟨hi, rfl⟩ | hw
    · have hcurrent : s.current = some t := by
        rw [← ht, ← hi]
        rfl
      exact hposted (h.posted hphase t hcurrent)
    · exact h.posted hphase w hw
  · rcases EventLoopThread.getElem?_set_cases hw with ⟨hi, rfl⟩ | hw
    · exact hunset hphase hi.symm
    · exact h.unset hphase w hw

theorem Threads.setPhase (h : s.Threads) {phase : StartPhase} {called : List LoopPtr}
    (hin : phase.inStartLoop = s.phase.inStartLoop) (hstarted : s.phase ≠ .notStarted)
    (hstarted' : phase ≠ .notStarted)
    (hall : phase = .started → s.loops.length = s.numThreads)
    (hthrew : phase = .threw → s.numThreads = 0 ∧ s.cb = none)
    (hposted : phase = .test ∨ phase = .wait → ∀ t, s.current = some t → t.phase ≠ .created)
    (hunset : phase = .wait → ∀ t, s.current = some t → t.loop = false) :
    ({ s with phase := phase, called := called }).Threads where
  sound := h.sound
  loops := h.loops
  length := by
    rw [hin]
    exact h.length
  le := h.le
  notStarted hphase := absurd hphase hstarted'
  once _ := h.once hstarted
  all := hall
  threw := hthrew
  wasSet := h.wasSet
  posted := hposted
  unset := hunset

theorem Threads.setCalled (h : s.Threads) (called : List LoopPtr) :
    ({ s with called := called }).Threads :=
  ⟨h.sound, h.loops, h.length, h.le, h.notStarted, h.once, h.all, h.threw, h.wasSet, h.posted,
    h.unset⟩

theorem Threads.thread (h : s.Threads) {i : Nat} {l : ThreadStep} {t v : EventLoopThread}
    (ht : s.threads[i]? = some t) (hv : t.Runs l v) : ((s.setThread i v).effect i l).Threads := by
  obtain ⟨hsound, hstarted⟩ := h.sound t (List.mem_of_getElem? ht)
  obtain ⟨hstarted', hposted, hran, hwasSet⟩ := hv.forward
  have hlast : s.phase = .wait → s.threads.length = s.loops.length + 1 := by
    intro hphase
    rw [h.length, hphase]
    rfl
  by_cases hwakes : l = .publish ∧ s.phase = .wait ∧ i + 1 = s.threads.length
  · obtain ⟨rfl, hphase, hi⟩ := hwakes
    have hawake : ({ s with phase := .test }).Threads :=
      h.setPhase (by rw [hphase]; rfl) (by simp [hphase]) (by simp) (by simp) (by simp)
        (fun _ => h.posted (.inr hphase)) (by simp)
    have heffect : (s.setThread i v).effect i .publish =
        ({ s with phase := .test } : EventLoopThreadPool).setThread i v :=
      if_pos ⟨hphase, hi.trans List.length_set.symm⟩
    rw [heffect]
    exact hawake.set ht (hsound.runs hv) hstarted' hwasSet (fun _ => hposted) (by simp)
  · have hset : (s.setThread i v).Threads := by
      refine h.set ht (hsound.runs hv) hstarted' hwasSet (fun _ => hposted) fun hphase hi => ?_
      have hcurrent : s.current = some t := by rw [current, ← hi, ht]
      refine hsound.loop_of_runs (h.unset hphase t hcurrent) hv ?_
      rintro rfl
      exact hwakes ⟨rfl, hphase, by rw [hlast hphase, hi]⟩
    cases l with
    | callback =>
      simp only [effect]
      split
      · exact hset.setCalled _
      · exact hset
    | publish =>
      have hstay : (s.setThread i v).effect i .publish = s.setThread i v :=
        if_neg fun hcond => hwakes ⟨rfl, hcond.1, hcond.2.trans List.length_set⟩
      rw [hstay]
      exact hset
    | semPost | enterLoop | leaveLoop | clear => exact hset

theorem Threads.start (h : s.Threads) (houtside : s.phase = .notStarted ∨ s.phase = .started) :
    s.start.Threads := by
  rw [EventLoopThreadPool.start]
  split
  · next hzero =>
    have hphase := h.notStarted_of_zero hzero
    obtain ⟨-, hnil⟩ := h.notStarted hphase
    have hlength : s.threads.length = s.loops.length := by
      rw [h.length, hphase]
      rfl
    exact ⟨h.sound, h.loops, hlength, h.le, by simp, by simp, by simp, by simp, h.wasSet, by simp,
      by simp⟩
  · next hnonzero =>
    have hphase : s.phase = .started :=
      houtside.resolve_left fun hphase => hnonzero (h.notStarted hphase).1
    exact ⟨h.sound, h.loops, h.length, h.le, by simp [hphase], by simp, h.all, h.threw, h.wasSet,
      by simp [hphase], by simp [hphase]⟩

theorem Threads.newThread (h : s.Threads) (hphase : s.phase = .forLoop)
    (hmore : s.threads.length < s.numThreads) :
    ({ s with
      threads := s.threads ++ [EventLoopThread.new.start]
      phase := .semWait } : EventLoopThreadPool).Threads := by
  have hlength : s.threads.length = s.loops.length := by
    rw [h.length, hphase]
    rfl
  refine ⟨fun t ht => ?_, h.loops, ?_, ?_, by simp, ?_, by simp, by simp, fun i t ht hi => ?_,
    by simp, by simp⟩
  · rcases List.mem_append.mp ht with ht | ht
    · exact h.sound t ht
    · obtain rfl := List.mem_singleton.mp ht
      exact ⟨EventLoopThread.sound_new.start rfl, by simp [EventLoopThread.start]⟩
  · rw [List.length_append, hlength]
    rfl
  · rw [List.length_append]
    exact hmore
  · exact fun _ => h.once (by simp [hphase])
  · rw [List.getElem?_append_left (by rwa [hlength])] at ht
    exact h.wasSet i t ht hi

theorem Threads.found (h : s.Threads) {t : EventLoopThread} (hphase : s.phase = .test)
    (hlast : s.threads.getLast? = some t) (hloop : t.loop = true) :
    ({ s with
      loops := s.loops ++ [.subLoop (s.threads.length - 1)]
      phase := .forLoop } : EventLoopThreadPool).Threads := by
  have hcurrent : s.current = some t := by rw [current_eq_last h (by rw [hphase]; rfl), hlast]
  have hlength : s.threads.length = s.loops.length + 1 := by
    rw [h.length, hphase]
    rfl
  have hloops : (s.loops ++ [LoopPtr.subLoop (s.threads.length - 1)]).length =
      s.loops.length + 1 := by
    rw [List.length_append, List.length_singleton]
  obtain ⟨hsound, -⟩ := h.sound t (List.mem_of_getLast? hlast)
  refine ⟨h.sound, ?_, ?_, h.le, by simp, ?_, by simp, by simp, fun i u hu hi => ?_, by simp,
    by simp⟩
  · rw [hloops, List.range_succ, List.map_append, ← h.loops, hlength]
    rfl
  · rw [hloops, hlength]
    rfl
  · exact fun _ => h.once (by simp [hphase])
  · by_cases heq : i = s.loops.length
    · obtain rfl : u = t := Option.some.inj (hu.symm.trans (heq ▸ hcurrent))
      exact ThreadPhase.wasSet_of_loopSet (hsound.loop.symm.trans hloop)
    · exact h.wasSet_of_ne hu heq

theorem getNextLoop_cases (hu : s.getNextLoop = some u) :
    s.loops = [] ∧ u = { s with chosen := s.chosen ++ [.baseLoop] } ∨
      ∃ loop, s.loops[s.next]? = some loop ∧ u = { s with
        chosen := s.chosen ++ [loop]
        next := if s.loops.length ≤ s.next + 1 then 0 else s.next + 1 } := by
  rw [getNextLoop] at hu
  split at hu
  · next hempty => exact .inl ⟨List.isEmpty_iff.mp hempty, (Option.some.inj hu).symm⟩
  · obtain ⟨loop, hloop, rfl⟩ := Option.map_eq_some_iff.mp hu
    exact .inr ⟨loop, hloop, rfl⟩

theorem Threads.getNextLoop (h : s.Threads) (hu : s.getNextLoop = some u) : u.Threads := by
  rcases getNextLoop_cases hu with ⟨-, rfl⟩ | ⟨loop, -, rfl⟩ <;>
    exact ⟨h.sound, h.loops, h.length, h.le, h.notStarted, h.once, h.all, h.threw, h.wasSet,
      h.posted, h.unset⟩

theorem Threads.step (h : s.Threads) (hu : Steps s l u) : u.Threads := by
  cases hu with
  | start houtside => exact h.start houtside
  | newThread hphase hmore => exact h.newThread hphase hmore
  | semWait hphase hlast hposted =>
    refine h.setPhase (by rw [hphase]; rfl) (by simp [hphase]) (by simp) (by simp) (by simp)
      (fun _ t ht => ?_) (by simp)
    rw [current_eq_last h (by rw [hphase]; rfl), hlast] at ht
    exact Option.some.inj ht ▸ hposted
  | found hphase hlast hloop => exact h.found hphase hlast hloop
  | notFound hphase hlast hloop =>
    refine h.setPhase (by rw [hphase]; rfl) (by simp [hphase]) (by simp) (by simp) (by simp)
      (fun _ => h.posted (.inl hphase)) fun _ t ht => ?_
    rw [current_eq_last h (by rw [hphase]; rfl), hlast] at ht
    exact Option.some.inj ht ▸ hloop
  | callEmpty hphase hsingle hempty =>
    exact h.setPhase (by rw [hphase]; rfl) (by simp [hphase]) (by simp) (by simp)
      (fun _ => ⟨hsingle, hempty⟩) (by simp) (by simp)
  | callBase hphase hsingle hcb =>
    have hall : s.loops.length = s.numThreads := by
      have hlength := h.length
      have hle := h.le
      omega
    exact h.setPhase (by rw [hphase]; rfl) (by simp [hphase]) (by simp) (fun _ => hall)
      (by simp) (by simp) (by simp)
  | endStart hphase hmany hall =>
    have hall : s.loops.length = s.numThreads := by
      have hlength := h.length
      have hle := h.le
      rw [hphase] at hlength
      simp only [StartPhase.inStartLoop, Bool.false_eq_true, if_false] at hlength
      omega
    exact h.setPhase (by rw [hphase]; rfl) (by simp [hphase]) (by simp) (fun _ => hall)
      (by simp) (by simp) (by simp)
  | getNextLoop hphase hu => exact h.getNextLoop hu
  | thread ht hv => exact h.thread ht hv
  | quit hmay ht halive =>
    obtain ⟨hsound, hstarted⟩ := h.sound _ (List.mem_of_getElem? ht)
    refine h.set ht ⟨hsound.loop, hsound.started⟩ hstarted id id fun hphase hi => ?_
    have hcurrent : s.current = some _ := hi ▸ ht
    have hunset := h.unset hphase _ hcurrent
    exact hunset

end EventLoopThreadPool

end WebServer.Mymuduo
