import WebServer.Mymuduo.EventLoopThreadPool

namespace WebServer.Mymuduo

open WebServer.Lib

namespace EventLoopThreadPool

variable {s u : EventLoopThreadPool} {l : Label} {n : Nat} {cb : Option ThreadInitCallback}

def Label.isProgress : Label → Bool
  | .newThread | .semWait | .testLoop | .endStart | .thread _ _ => true
  | .start | .getNextLoop | .quit _ => false

/-- No thread leaves `loop()` before `start` has returned. -/
def Calm (s : EventLoopThreadPool) : Prop :=
  s.phase ≠ .started →
    ∀ t ∈ s.threads, t.quit = false ∧ t.phase ≠ .clearing ∧ t.phase ≠ .finished

theorem calm_new : (new n cb).Calm := by simp [Calm, new]

theorem calm_runs {t v : EventLoopThread} {l : ThreadStep} (hv : t.Runs l v)
    (ht : t.quit = false ∧ t.phase ≠ .clearing ∧ t.phase ≠ .finished) :
    v.quit = false ∧ v.phase ≠ .clearing ∧ v.phase ≠ .finished := by
  obtain ⟨hquit, hclearing, hfinished⟩ := ht
  cases hv with
  | semPost _ | callback _ | publish _ => exact ⟨hquit, by simp, by simp⟩
  | enterLoop _ => exact ⟨rfl, by simp, by simp⟩
  | leaveLoop _ hquit' => cases hquit.symm.trans hquit'
  | clear hphase => exact absurd hphase hclearing

theorem Calm.step (h : s.Calm) (hthreads : s.Threads)
    (hquiet : s.cb.any ThreadInitCallback.quits = false) (hu : Steps s l u) : u.Calm := by
  cases hu with
  | start houtside =>
    intro hphase t ht
    rw [EventLoopThreadPool.start] at hphase ht
    split at hphase
    · next hzero =>
      have hnot := hthreads.notStarted_of_zero hzero
      rw [if_pos hzero, (hthreads.notStarted hnot).2] at ht
      cases ht
    · next hnonzero =>
      rw [if_neg hnonzero] at ht
      exact h hphase t ht
  | newThread hphase _ =>
    intro _ t ht
    rcases List.mem_append.mp ht with ht | ht
    · exact h (by simp [hphase]) t ht
    · obtain rfl := List.mem_singleton.mp ht
      exact ⟨rfl, by simp [EventLoopThread.start], by simp [EventLoopThread.start]⟩
  | semWait hphase _ _ => exact fun _ => h (by simp [hphase])
  | found hphase _ _ => exact fun _ => h (by simp [hphase])
  | notFound hphase _ _ => exact fun _ => h (by simp [hphase])
  | callEmpty hphase _ _ => exact fun _ => h (by simp [hphase])
  | callBase _ _ _ => exact fun hphase => absurd rfl hphase
  | endStart _ _ _ => exact fun hphase => absurd rfl hphase
  | getNextLoop hphase hu =>
    rcases getNextLoop_cases hu with ⟨-, rfl⟩ | ⟨loop, -, rfl⟩ <;>
      exact fun hgoing => absurd hphase hgoing
  | @thread i l t v ht hv =>
    obtain ⟨-, -, -, hsame, -⟩ := effect_frame (s.setThread i v) i l
    have hgoing : ((s.setThread i v).effect i l).phase ≠ .started → s.phase ≠ .started := by
      intro hne
      rcases effect_phase (s.setThread i v) i l with hphase | ⟨-, hphase, -, -⟩
      · rwa [hphase] at hne
      · have hwait : s.phase = .wait := hphase
        simp [hwait]
    intro hne w hw
    rw [hsame] at hw
    rcases List.mem_or_eq_of_mem_set hw with hw | rfl
    · exact h (hgoing hne) w hw
    · exact calm_runs hv (h (hgoing hne) t (List.mem_of_getElem? ht))
  | quit hmay _ _ =>
    intro hgoing
    have hphase : s.phase = .started := by simpa [mayQuit, hquiet] using hmay
    exact absurd hphase hgoing

theorem exists_current (h : s.Threads) (hin : s.phase.inStartLoop = true) :
    ∃ t, s.current = some t ∧ s.threads.getLast? = some t ∧ t ∈ s.threads := by
  have hlt : s.loops.length < s.threads.length := by
    rw [h.length, if_pos hin]
    exact Nat.lt_succ_self _
  have hcurrent : s.current = some s.threads[s.loops.length] := List.getElem?_eq_getElem hlt
  exact ⟨_, hcurrent, current_eq_last h hin ▸ hcurrent, List.getElem_mem hlt⟩

theorem step_current {t v : EventLoopThread} {l : ThreadStep} (ht : s.current = some t)
    (hv : t.threadFunc l = some v) :
    step s (.thread s.loops.length l) =
      some ((s.setThread s.loops.length v).effect s.loops.length l) := by
  rw [current] at ht
  simp only [step, ht, Option.bind_some, hv, Option.map_some]

theorem exists_progress (h : s.Threads) (hcalm : s.Calm) (hbegun : s.phase ≠ .notStarted)
    (hgoing : s.phase ≠ .started) (hthrew : s.phase ≠ .threw) :
    ∃ l u, l.isProgress = true ∧ step s l = some u := by
  cases hphase : s.phase with
  | notStarted => exact absurd hphase hbegun
  | started => exact absurd hphase hgoing
  | threw => exact absurd hphase hthrew
  | forLoop =>
    by_cases hmore : s.threads.length < s.numThreads
    · exact ⟨.newThread, _, rfl, if_pos ⟨hphase, hmore⟩⟩
    · exact ⟨.endStart, _, rfl, if_pos ⟨hphase, Nat.not_lt.mp hmore⟩⟩
  | semWait =>
    obtain ⟨t, hcurrent, ht, -⟩ := exists_current h (by rw [hphase]; rfl)
    by_cases hcreated : t.phase = .created
    · exact ⟨_, _, rfl, step_current (l := .semPost) hcurrent (if_pos hcreated)⟩
    · refine ⟨.semWait, { s with phase := .test }, rfl, ?_⟩
      simp only [step, hphase, if_true, ht, Option.bind_some, if_neg hcreated]
  | test =>
    obtain ⟨t, -, ht, -⟩ := exists_current h (by rw [hphase]; rfl)
    refine ⟨.testLoop, s.testLoop t, rfl, ?_⟩
    simp only [step, hphase, if_true, ht, Option.map_some]
  | wait =>
    obtain ⟨t, hcurrent, -, hmem⟩ := exists_current h (by rw [hphase]; rfl)
    obtain ⟨hsound, hstarted⟩ := h.sound t hmem
    obtain ⟨-, hclearing, hfinished⟩ := hcalm hgoing t hmem
    have hposted := h.posted (.inr hphase) t hcurrent
    have hloop := hsound.loop.symm.trans (h.unset hphase t hcurrent)
    -- the thread is on its way to `notify_one`
    cases hwhere : t.phase with
    | callback => exact ⟨_, _, rfl, step_current (l := .callback) hcurrent (if_pos hwhere)⟩
    | publish => exact ⟨_, _, rfl, step_current (l := .publish) hcurrent (if_pos hwhere)⟩
    | notStarted => exact absurd hwhere hstarted
    | created => exact absurd hwhere hposted
    | clearing => exact absurd hwhere hclearing
    | finished => exact absurd hwhere hfinished
    | published | looping =>
      rw [hwhere] at hloop
      cases hloop

theorem sum_map_set {α : Type} (f : α → Nat) {xs : List α} {i : Nat} {x y : α}
    (h : xs[i]? = some x) : ((xs.set i y).map f).sum + f x = (xs.map f).sum + f y := by
  induction xs generalizing i with
  | nil => cases h
  | cons z xs ih =>
    cases i with
    | zero =>
      obtain rfl : z = x := by simpa using h
      simp only [List.set_cons_zero, List.map_cons, List.sum_cons]
      omega
    | succ i =>
      have hrest := ih (by simpa using h)
      simp only [List.set_cons_succ, List.map_cons, List.sum_cons]
      omega

def threadWork (t : EventLoopThread) : Nat :=
  match t.phase with
  | .notStarted | .created => 7
  | .callback => 6
  | .publish => 5
  | .published => 3
  | .looping => 2
  | .clearing => 1
  | .finished => 0

def phaseWork : StartPhase → Nat
  | .notStarted | .forLoop => 1
  | .semWait => 4
  | .test => 3
  | .wait => 2
  | .started | .threw => 0

def work (s : EventLoopThreadPool) : Nat :=
  11 * (s.numThreads - s.threads.length) + (s.threads.map threadWork).sum + phaseWork s.phase

theorem threadWork_runs {t v : EventLoopThread} {l : ThreadStep} (h : t.Runs l v) :
    threadWork v + (if l = .publish then 2 else 1) ≤ threadWork t := by
  cases h with
  | semPost hphase | callback hphase | publish hphase | enterLoop hphase | leaveLoop hphase _
  | clear hphase => simp [threadWork, hphase]

theorem phaseWork_effect (s : EventLoopThreadPool) (i : Nat) (l : ThreadStep) :
    phaseWork (s.effect i l).phase + 1 ≤ phaseWork s.phase + if l = .publish then 2 else 1 := by
  rcases effect_phase s i l with hphase | ⟨rfl, hwait, -, htest⟩
  · rw [hphase]
    split <;> omega
  · rw [hwait, htest]
    decide

theorem work_start (h : s.Threads) : s.start.work ≤ s.work := by
  rw [EventLoopThreadPool.start]
  split
  · next hzero =>
    have hphase := h.notStarted_of_zero hzero
    simp only [work, hphase, phaseWork, Nat.le_refl]
  · exact Nat.le_refl _

theorem work_step (h : s.Threads) (hu : Steps s l u) :
    u.work + (if l.isProgress then 1 else 0) ≤ s.work := by
  cases hu with
  | start _ => exact work_start h
  | newThread hphase hmore =>
    simp only [work, hphase, phaseWork, Label.isProgress, List.length_append, List.length_singleton,
      List.map_append, List.sum_append, List.map_cons, List.map_nil, List.sum_cons, List.sum_nil,
      threadWork, EventLoopThread.start]
    simp only [if_true]
    omega
  | semWait hphase _ _ | notFound hphase _ _ | callEmpty hphase _ _ | callBase hphase _ _
  | endStart hphase _ _ | found hphase _ _ =>
    simp only [work, hphase, phaseWork, Label.isProgress, if_true]
    omega
  | getNextLoop _ hu =>
    rcases getNextLoop_cases hu with ⟨-, rfl⟩ | ⟨loop, -, rfl⟩ <;> exact Nat.le_refl _
  | @thread i l t v ht hv =>
    obtain ⟨hnum, -, -, hthreads, -⟩ := effect_frame (s.setThread i v) i l
    have hphase := phaseWork_effect (s.setThread i v) i l
    have hruns := threadWork_runs hv
    have hsum := sum_map_set threadWork (y := v) ht
    have hsame : (s.setThread i v).phase = s.phase := rfl
    have hlength : (s.setThread i v).threads.length = s.threads.length := List.length_set
    have hset : (s.setThread i v).threads = s.threads.set i v := rfl
    have hnumThreads : (s.setThread i v).numThreads = s.numThreads := rfl
    rw [work, hnum, hthreads, hlength, hset, hnumThreads, work]
    rw [hsame] at hphase
    simp only [Label.isProgress, if_true]
    omega
  | @quit i t _ ht _ =>
    have hsum := sum_map_set threadWork (y := { t with quit := true, told := true }) ht
    have hsame : threadWork { t with quit := true, told := true } = threadWork t := rfl
    simp only [work, setThread, List.length_set, Label.isProgress]
    simp only [Bool.false_eq_true, if_false]
    omega

def currentCall (s : EventLoopThreadPool) : List LoopPtr :=
  if s.current.any fun t => t.phase.ran then [.subLoop s.loops.length] else []

def baseCall (s : EventLoopThreadPool) : List LoopPtr :=
  if s.phase = .started ∧ s.numThreads = 0 then [.baseLoop] else []

def CalledOnce (s : EventLoopThreadPool) : Prop :=
  s.called = if s.cb.isSome then s.loops ++ s.currentCall ++ s.baseCall else []

theorem CalledOnce.of_eq (h : s.CalledOnce) (hcalled : u.called = s.called) (hcb : u.cb = s.cb)
    (hloops : u.loops = s.loops) (hcurrent : u.currentCall = s.currentCall)
    (hbase : u.baseCall = s.baseCall) : u.CalledOnce := by
  rw [CalledOnce, hcalled, hcb, hloops, hcurrent, hbase]
  exact h

theorem baseCall_eq_nil (hphase : s.phase ≠ .started) : s.baseCall = [] :=
  if_neg fun h => hphase h.1

theorem currentCall_eq_nil (h : s.threads.length ≤ s.loops.length) : s.currentCall = [] := by
  rw [currentCall, current, List.getElem?_eq_none h]
  rfl

theorem CalledOnce.found (h : s.CalledOnce) (hthreads : s.Threads) {t : EventLoopThread}
    (hphase : s.phase = .test) (hlast : s.threads.getLast? = some t) (hloop : t.loop = true) :
    ({ s with
      loops := s.loops ++ [.subLoop (s.threads.length - 1)]
      phase := .forLoop } : EventLoopThreadPool).CalledOnce := by
  have hin : s.phase.inStartLoop = true := by rw [hphase]; rfl
  have hcurrent : s.current = some t := by rw [current_eq_last hthreads hin, hlast]
  have hlength : s.threads.length = s.loops.length + 1 := by rw [hthreads.length, if_pos hin]
  obtain ⟨hsound, -⟩ := hthreads.sound t (List.mem_of_getLast? hlast)
  have hran := ThreadPhase.ran_of_wasSet
    (ThreadPhase.wasSet_of_loopSet (hsound.loop.symm.trans hloop))
  have hcall : s.currentCall = [.subLoop s.loops.length] := by
    rw [currentCall, hcurrent, if_pos]
    exact hran
  rw [CalledOnce, hcall, baseCall_eq_nil (by simp [hphase]), List.append_nil] at h
  rw [CalledOnce, currentCall_eq_nil, baseCall_eq_nil, List.append_nil, List.append_nil, hlength,
    Nat.add_sub_cancel]
  · exact h
  · simp
  · simp [hlength]

theorem currentCall_setThread {i : Nat} {t v : EventLoopThread} (ht : s.threads[i]? = some t)
    (hran : v.phase.ran = t.phase.ran) : (s.setThread i v).currentCall = s.currentCall := by
  have hcurrent : (s.setThread i v).current.any (fun t => t.phase.ran) =
      s.current.any fun t => t.phase.ran := by
    simp only [current, setThread, List.getElem?_set]
    split
    · next hi =>
      rw [← hi, ht, if_pos (List.getElem?_eq_some_iff.mp ht).1, Option.any_some, Option.any_some,
        hran]
    · rfl
  rw [currentCall, hcurrent]
  rfl

theorem baseCall_effect (s : EventLoopThreadPool) (i : Nat) (l : ThreadStep) :
    (s.effect i l).baseCall = s.baseCall := by
  obtain ⟨hnum, -⟩ := effect_frame s i l
  rcases effect_phase s i l with hphase | ⟨-, hwait, -, htest⟩
  · rw [baseCall, baseCall, hphase, hnum]
  · rw [baseCall_eq_nil (by simp [htest]), baseCall_eq_nil (by simp [hwait])]

theorem called_callback (s : EventLoopThreadPool) (i : Nat) :
    (s.effect i .callback).called =
      if s.cb.isSome then s.called ++ [.subLoop i] else s.called := by
  simp only [effect]
  split <;> rfl

theorem CalledOnce.thread (h : s.CalledOnce) (hthreads : s.Threads) {i : Nat} {l : ThreadStep}
    {t v : EventLoopThread} (ht : s.threads[i]? = some t) (hv : t.Runs l v) :
    ((s.setThread i v).effect i l).CalledOnce := by
  obtain ⟨-, hcb, -, hsame, hloops, -⟩ := effect_frame (s.setThread i v) i l
  have hcurrent : ((s.setThread i v).effect i l).currentCall = (s.setThread i v).currentCall := by
    rw [currentCall, currentCall, current, current, hsame, hloops]
  cases hv with
  | callback hphase =>
    -- only the thread that is waited for has not called it yet
    have hi : i = s.loops.length := by
      by_contra hne
      have hwasSet := hthreads.wasSet_of_ne ht hne
      rw [hphase] at hwasSet
      cases hwasSet
    have hmany : s.numThreads ≠ 0 := by
      have hlt := (List.getElem?_eq_some_iff.mp ht).1
      have hle := hthreads.le
      omega
    have hbase : s.baseCall = [] := if_neg fun h => hmany h.2
    have hbefore : s.currentCall = [] := by
      rw [currentCall, current, ← hi, ht, Option.any_some, hphase]
      rfl
    have hafter : (s.setThread i { t with phase := .publish }).currentCall = [.subLoop i] := by
      have hlt := (List.getElem?_eq_some_iff.mp ht).1
      simp only [currentCall, current, setThread, ← hi, List.getElem?_set_self hlt]
      rfl
    have hbase' : (s.setThread i { t with phase := .publish }).baseCall = s.baseCall := rfl
    rw [CalledOnce, hbefore, hbase, List.append_nil, List.append_nil] at h
    rw [CalledOnce, called_callback, hcurrent, baseCall_effect, hcb, hloops, hafter, hbase', hbase,
      List.append_nil]
    simp only [setThread, h]
    split <;> rfl
  | semPost hphase | publish hphase | enterLoop hphase | leaveLoop hphase _ | clear hphase =>
    refine h.of_eq ?_ hcb hloops ?_ (baseCall_effect _ _ _)
    · simp only [effect]
      first | rfl | (split <;> rfl)
    · rw [hcurrent]
      exact currentCall_setThread ht (by rw [hphase]; rfl)

theorem CalledOnce.step (h : s.CalledOnce) (hthreads : s.Threads) (hu : Steps s l u) :
    u.CalledOnce := by
  cases hu with
  | start _ =>
    rw [EventLoopThreadPool.start]
    split
    · next hzero =>
      have hphase := hthreads.notStarted_of_zero hzero
      exact h.of_eq rfl rfl rfl rfl
        ((baseCall_eq_nil (by simp)).trans (baseCall_eq_nil (by simp [hphase])).symm)
    · exact h
  | newThread hphase _ =>
    have hlength : s.threads.length = s.loops.length := by
      rw [hthreads.length, hphase]
      rfl
    refine h.of_eq rfl rfl rfl ?_
      ((baseCall_eq_nil (by simp)).trans (baseCall_eq_nil (by simp [hphase])).symm)
    rw [currentCall_eq_nil hlength.le, currentCall, current]
    simp [hlength.symm, EventLoopThread.start, ThreadPhase.ran]
  | semWait hphase _ _ | notFound hphase _ _ | callEmpty hphase _ _ =>
    exact h.of_eq rfl rfl rfl rfl
      ((baseCall_eq_nil (by simp)).trans (baseCall_eq_nil (by simp [hphase])).symm)
  | found hphase hlast hloop => exact h.found hthreads hphase hlast hloop
  | callBase hphase hsingle hcb =>
    rw [CalledOnce, baseCall_eq_nil (by simp [hphase]), List.append_nil] at h
    rw [CalledOnce, h, baseCall, hcb]
    simp only [Option.isSome_some, if_true, hsingle, and_self]
    rfl
  | endStart hphase hmany _ =>
    refine h.of_eq rfl rfl rfl rfl ?_
    rw [baseCall_eq_nil (s := s) (by simp [hphase]), baseCall, if_neg fun h => hmany h.2]
  | getNextLoop _ hu =>
    rcases getNextLoop_cases hu with ⟨-, rfl⟩ | ⟨loop, -, rfl⟩ <;> exact h
  | thread ht hv => exact h.thread hthreads ht hv
  | quit _ ht _ => exact h.of_eq rfl rfl rfl (currentCall_setThread ht rfl) rfl

/-- The loop that the `k`-th call of `getNextLoop` is to return. -/
def turn (n k : Nat) : LoopPtr := if n = 0 then .baseLoop else .subLoop (k % n)

structure InTurn (s : EventLoopThreadPool) : Prop where
  chosen : s.chosen = (List.range s.chosen.length).map (turn s.numThreads)
  next : s.numThreads ≠ 0 → s.next = s.chosen.length % s.numThreads
  early : s.phase ≠ .started → s.chosen = []

theorem inTurn_new : (new n cb).InTurn :=
  ⟨rfl, fun _ => (Nat.zero_mod n).symm, fun _ => rfl⟩

theorem InTurn.of_eq (h : s.InTurn) (hchosen : u.chosen = s.chosen) (hnext : u.next = s.next)
    (hnum : u.numThreads = s.numThreads) (hphase : s.phase = .started → u.phase = .started) :
    u.InTurn where
  chosen := by
    rw [hchosen, hnum]
    exact h.chosen
  next := by
    rw [hchosen, hnext, hnum]
    exact h.next
  early hgoing := hchosen.trans (h.early (mt hphase hgoing))

theorem InTurn.getNextLoop (h : s.InTurn) (hthreads : s.Threads) (hphase : s.phase = .started)
    (hu : s.getNextLoop = some u) : u.InTurn := by
  have hall := hthreads.all hphase
  rcases getNextLoop_cases hu with ⟨hempty, rfl⟩ | ⟨loop, hloop, rfl⟩
  · have hzero : s.numThreads = 0 := by rw [← hall, hempty]; rfl
    refine ⟨?_, ?_, fun hne => absurd hphase hne⟩
    · rw [List.length_append, List.length_singleton, List.range_succ, List.map_append, ← h.chosen,
        List.map_singleton, turn, if_pos hzero]
    · exact fun hmany => absurd hzero hmany
  · have hlt := (List.getElem?_eq_some_iff.mp hloop).1
    rw [hall] at hlt
    have hpos : 0 < s.numThreads := Nat.zero_lt_of_lt hlt
    have hturn : loop = turn s.numThreads s.chosen.length := by
      rw [hthreads.loops, hall, List.getElem?_map, List.getElem?_range hlt] at hloop
      rw [turn, if_neg hpos.ne', ← h.next hpos.ne']
      exact (Option.some.inj hloop).symm
    refine ⟨?_, ?_, fun hne => absurd hphase hne⟩
    · rw [List.length_append, List.length_singleton, List.range_succ, List.map_append, ← h.chosen,
        List.map_singleton, hturn]
    · intro hmany
      simp only [List.length_append, List.length_singleton, hall, h.next hmany]
      exact succ_mod_eq _ hmany

theorem InTurn.step (h : s.InTurn) (hthreads : s.Threads) (hu : Steps s l u) : u.InTurn := by
  cases hu with
  | start houtside =>
    rw [EventLoopThreadPool.start]
    split
    · next hzero =>
      refine h.of_eq rfl rfl rfl fun hphase => ?_
      exact absurd hzero (hthreads.once (by simp [hphase]))
    · exact h.of_eq rfl rfl rfl id
  | newThread hphase _ | semWait hphase _ _ | found hphase _ _ | notFound hphase _ _
  | callEmpty hphase _ _ | callBase hphase _ _ | endStart hphase _ _ =>
    exact h.of_eq rfl rfl rfl fun hstarted => by simp [hphase] at hstarted
  | getNextLoop hphase hu => exact h.getNextLoop hthreads hphase hu
  | @thread i l t v _ _ =>
    obtain ⟨hnum, -, -, -, -, hnext, hchosen⟩ := effect_frame (s.setThread i v) i l
    refine h.of_eq hchosen hnext hnum fun hphase => ?_
    rcases effect_phase (s.setThread i v) i l with hsame | ⟨-, hwait, -, -⟩
    · exact hsame.trans hphase
    · cases hphase.symm.trans hwait
  | quit _ _ _ => exact h.of_eq rfl rfl rfl id

structure Reached (n : Nat) (cb : Option ThreadInitCallback) (s : EventLoopThreadPool) : Prop where
  numThreads : s.numThreads = n
  cb : s.cb = cb
  threads : s.Threads
  calledOnce : s.CalledOnce
  inTurn : s.InTurn

theorem steps_frame (hu : Steps s l u) : u.numThreads = s.numThreads ∧ u.cb = s.cb := by
  cases hu with
  | start _ =>
    rw [EventLoopThreadPool.start]
    split <;> exact ⟨rfl, rfl⟩
  | getNextLoop _ hu =>
    rcases getNextLoop_cases hu with ⟨-, rfl⟩ | ⟨loop, -, rfl⟩ <;> exact ⟨rfl, rfl⟩
  | @thread i l _ v _ _ =>
    obtain ⟨hnum, hcb, -⟩ := effect_frame (s.setThread i v) i l
    exact ⟨hnum, hcb⟩
  | newThread _ _ | semWait _ _ _ | found _ _ _ | notFound _ _ _ | callEmpty _ _ _
  | callBase _ _ _ | endStart _ _ _ | quit _ _ _ => exact ⟨rfl, rfl⟩

theorem reached_new : (new n cb).Reached n cb where
  numThreads := rfl
  cb := rfl
  threads := threads_new
  calledOnce := by
    rw [CalledOnce, currentCall_eq_nil (Nat.le_refl _), baseCall_eq_nil (by simp [new])]
    split <;> rfl
  inTurn := inTurn_new

theorem Reached.step (h : s.Reached n cb) (hu : Steps s l u) : u.Reached n cb where
  numThreads := (steps_frame hu).1.trans h.numThreads
  cb := (steps_frame hu).2.trans h.cb
  threads := h.threads.step hu
  calledOnce := h.calledOnce.step h.threads hu
  inTurn := h.inTurn.step h.threads hu

theorem reached_of_run {ls : List Label} (h : run step (new n cb) ls = some s) : s.Reached n cb :=
  invariant_run (fun _ _ _ hs hu => hs.step (steps_of_step hu)) reached_new h

theorem countP_isProgress_le {ls : List Label} (h : run step (new n cb) ls = some s) :
    ls.countP Label.isProgress ≤ 11 * n + 1 := by
  have hle : ls.countP Label.isProgress + s.work ≤ (new n cb).work :=
    countP_add_le (fun s l u hs hu => ⟨hs.step (steps_of_step hu), work_step hs (steps_of_step hu)⟩)
      threads_new h
  have hwork : (new n cb).work = 11 * n + 1 := rfl
  omega

theorem calm_of_run (hquiet : cb.any ThreadInitCallback.quits = false) {ls : List Label}
    (h : run step (new n cb) ls = some s) : s.Calm := by
  have hboth : s.Reached n cb ∧ s.Calm :=
    invariant_run (I := fun s => s.Reached n cb ∧ s.Calm) (fun s l u hs hu =>
      ⟨hs.1.step (steps_of_step hu),
        hs.2.step hs.1.threads (hs.1.cb ▸ hquiet) (steps_of_step hu)⟩)
      ⟨reached_new, calm_new⟩ h
  exact hboth.2

/-- What `start` and `getNextLoop` are for, in a run of the pool. -/
structure Starts (n : Nat) (cb : Option ThreadInitCallback) (ls : List Label)
    (s : EventLoopThreadPool) : Prop where
  noEmptyCall : s.phase ≠ .threw
  /-- `start` completes: it is never stuck, and the steps towards its end are bounded. -/
  notStuck : s.phase ≠ .notStarted → s.phase ≠ .started →
    ∃ l u, l.isProgress = true ∧ step s l = some u
  bounded : ls.countP Label.isProgress ≤ 11 * n + 1
  loops : s.phase = .started → s.loops = (List.range n).map .subLoop
  called : s.phase = .started →
    s.called = if cb = none then [] else if n = 0 then [.baseLoop] else s.loops
  /-- `getNextLoop` never reads `loops_` behind its end. -/
  inBounds : s.phase = .started → (step s .getNextLoop).isSome = true
  chosen : ∀ k loop, s.chosen[k]? = some loop →
    if n = 0 then loop = .baseLoop else s.loops[k % n]? = some loop

theorem called_of_started (h : s.Reached n cb) (hphase : s.phase = .started) :
    s.called = if cb = none then [] else if n = 0 then [.baseLoop] else s.loops := by
  have hall := (h.threads.all hphase).trans h.numThreads
  have hlength : s.threads.length = s.loops.length := by
    rw [h.threads.length, hphase]
    rfl
  have hcalled := h.calledOnce
  rw [CalledOnce, currentCall_eq_nil hlength.le, List.append_nil, baseCall, h.numThreads, hphase,
    h.cb] at hcalled
  rw [hcalled]
  cases cb with
  | none => rfl
  | some cb =>
    by_cases hn : n = 0
    · have hnil : s.loops = [] := List.eq_nil_of_length_eq_zero (hall.trans hn)
      simp [hn, hnil]
    · simp [hn]

theorem chosen_in_turn (h : s.Reached n cb) {k : Nat} {loop : LoopPtr}
    (hk : s.chosen[k]? = some loop) :
    if n = 0 then loop = .baseLoop else s.loops[k % n]? = some loop := by
  have hlt := (List.getElem?_eq_some_iff.mp hk).1
  have hphase : s.phase = .started := by
    by_contra hne
    rw [h.inTurn.early hne] at hk
    cases hk
  have hall := (h.threads.all hphase).trans h.numThreads
  rw [h.inTurn.chosen, List.getElem?_map, List.getElem?_range hlt, h.numThreads] at hk
  have hloop := Option.some.inj hk
  rw [turn] at hloop
  split
  · next hn => rw [← hloop, if_pos hn]
  · next hn =>
    rw [if_neg hn] at hloop
    rw [h.threads.loops, hall, List.getElem?_map,
      List.getElem?_range (Nat.mod_lt k (Nat.pos_of_ne_zero hn)), ← hloop]
    rfl

theorem getNextLoop_isSome (h : s.Reached n cb) (hphase : s.phase = .started) :
    s.getNextLoop.isSome = true := by
  rw [getNextLoop]
  split
  · rfl
  · next hloops =>
    rw [List.isEmpty_iff] at hloops
    have hall := h.threads.all hphase
    have hpos : 0 < s.loops.length := List.length_pos_iff.mpr hloops
    have hnext : s.next < s.loops.length := by
      rw [h.inTurn.next (hall ▸ hpos.ne'), ← hall]
      exact Nat.mod_lt _ hpos
    rw [Option.isSome_map, List.getElem?_eq_getElem hnext]
    rfl

theorem starts_of_run (hempty : n = 0 → cb ≠ none)
    (hquiet : n ≠ 0 → cb.any ThreadInitCallback.quits = false) {ls : List Label}
    (h : run step (new n cb) ls = some s) : Starts n cb ls s := by
  have hreached := reached_of_run h
  have hthrew : s.phase ≠ .threw := by
    intro hphase
    obtain ⟨hzero, hnone⟩ := hreached.threads.threw hphase
    exact hempty (hreached.numThreads ▸ hzero) (hreached.cb ▸ hnone)
  have hcalm : s.Calm := by
    by_cases hn : n = 0
    · have hnil : s.threads = [] := by
        have hle := hreached.threads.le
        rw [hreached.numThreads, hn] at hle
        exact List.eq_nil_of_length_eq_zero (Nat.le_zero.mp hle)
      exact fun _ t ht => absurd (hnil ▸ ht) List.not_mem_nil
    · exact calm_of_run (hquiet hn) h
  refine ⟨hthrew, fun hbegun hgoing => exists_progress hreached.threads hcalm hbegun hgoing hthrew,
    countP_isProgress_le h, fun hphase => ?_, called_of_started hreached, fun hphase => ?_,
    fun k loop => chosen_in_turn hreached⟩
  · rw [hreached.threads.loops, hreached.threads.all hphase, hreached.numThreads]
  · rw [step, if_pos hphase]
    exact getNextLoop_isSome hreached hphase

theorem not_starts_empty : ∃ s, run step (new 0 none) [.start, .endStart] = some s ∧
    ¬Starts 0 none [.start, .endStart] s :=
  ⟨_, rfl, fun h => h.noEmptyCall rfl⟩

/-- The first thread leaves its loop, and the base thread, which has been woken, finds no loop. -/
def quitEarly : List Label :=
  [.start, .newThread, .thread 0 .semPost, .semWait, .testLoop, .thread 0 .callback,
    .thread 0 .publish, .thread 0 .enterLoop, .quit 0, .thread 0 .leaveLoop, .thread 0 .clear,
    .testLoop]

def waitingForever (m : Nat) : EventLoopThreadPool where
  numThreads := m + 1
  cb := some ⟨true⟩
  started := 1
  threads := [{ EventLoopThread.new with
    started := true, phase := .finished, quit := true, told := true }]
  loops := []
  next := 0
  phase := .wait
  called := [.subLoop 0]
  chosen := []

theorem run_quitEarly (m : Nat) :
    run step (new (m + 1) (some ⟨true⟩)) quitEarly = some (waitingForever m) := rfl

theorem stuck (m : Nat) (hl : l.isProgress = true) : step (waitingForever m) l = none := by
  cases l with
  | thread i l =>
    cases i with
    | zero => cases l <;> rfl
    | succ i => rfl
  | newThread | semWait | testLoop | endStart => rfl
  | start | getNextLoop | quit i => cases hl

theorem not_starts_waitingForever (m : Nat) :
    ¬Starts (m + 1) (some ⟨true⟩) quitEarly (waitingForever m) := by
  intro h
  obtain ⟨l, u, hl, hu⟩ := h.notStuck (by simp [waitingForever]) (by simp [waitingForever])
  cases (stuck m hl).symm.trans hu

/-- `start` completes, and the loops are chosen in turn, in every run exactly if it is not left
with an empty function to call and no loop is quit while it waits. -/
theorem starts_iff (n : Nat) (cb : Option ThreadInitCallback) :
    (∀ ls s, run step (new n cb) ls = some s → Starts n cb ls s) ↔
      (n = 0 → cb ≠ none) ∧ (n ≠ 0 → cb.any ThreadInitCallback.quits = false) := by
  constructor
  · intro hall
    constructor
    · rintro rfl rfl
      obtain ⟨s, hs, hnot⟩ := not_starts_empty
      exact hnot (hall _ s hs)
    · intro hn
      obtain ⟨m, rfl⟩ := Nat.exists_eq_succ_of_ne_zero hn
      rw [← Bool.not_eq_true]
      intro hquits
      obtain ⟨c, rfl, hc⟩ := (Option.any_eq_true _ _).mp hquits
      obtain rfl : c = ⟨true⟩ := congrArg ThreadInitCallback.mk hc
      exact not_starts_waitingForever m (hall _ _ (run_quitEarly m))
  · rintro ⟨hempty, hquiet⟩ ls s hs
    exact starts_of_run hempty hquiet hs

/-- A server without threads of its own and without a callback does not start. -/
theorem not_starts_plainServer :
    ¬∀ n cb ls s, run step (new n cb) ls = some s → Starts n cb ls s := by
  intro hall
  obtain ⟨s, hs, hnot⟩ := not_starts_empty
  exact hnot (hall 0 none _ s hs)

end EventLoopThreadPool

end WebServer.Mymuduo
