import Mathlib.Data.Int.CardIntervalMod
import WebServer.Mymuduo.EventLoopThreadPool
import WebServer.Mymuduo.ServerRuns

namespace WebServer.Mymuduo.Server

open WebServer.Lib

variable {s t : Server} {id : Nat}

/-- The loop of a connection, by the number in its name. -/
def assigned (numThreads id : Nat) : Nat :=
  if numThreads = 0 then 0 else (id - 1) % numThreads + 1

def load (s : Server) (i : Nat) : Nat :=
  (List.range s.nextConnId).countP fun id => s.created id && (s.connection id).ioLoop = i

structure SameLoops (s t : Server) : Prop where
  numThreads : t.numThreads = s.numThreads
  next : t.next = s.next
  nextConnId : t.nextConnId = s.nextConnId
  ioLoop : ∀ id, (t.connection id).ioLoop = (s.connection id).ioLoop

theorem SameLoops.refl (s : Server) : SameLoops s s := ⟨rfl, rfl, rfl, fun _ => rfl⟩

theorem SameLoops.trans {u : Server} (h : SameLoops s t) (h' : SameLoops t u) : SameLoops s u :=
  ⟨h'.numThreads.trans h.numThreads, h'.next.trans h.next, h'.nextConnId.trans h.nextConnId,
    fun id => (h'.ioLoop id).trans (h.ioLoop id)⟩

theorem sameLoops_put (s : Server) (id : Nat) (v : TcpServer) : SameLoops s (s.put id v) :=
  ⟨rfl, rfl, rfl, ioLoop_put s id v⟩

theorem sameLoops_destroy (s : Server) (ids : List Nat) : SameLoops s (s.destroy ids) := by
  have hfold : SameLoops s (ids.foldl (fun s id => s.put id (s.view id).destroy) s) := by
    induction ids generalizing s with
    | nil => exact .refl s
    | cons id ids ih => exact (sameLoops_put s id _).trans (ih _)
  exact ⟨hfold.numThreads, hfold.next, hfold.nextConnId, hfold.ioLoop⟩

theorem sameLoops_poll (s : Server) (i : Nat) (events : List (Nat × BitVec 32)) :
    SameLoops s (s.poll i events) := by
  refine ⟨rfl, rfl, rfl, fun id => ?_⟩
  simp only [poll, setLoop]
  split <;> rfl

theorem sameLoops_step {l : Label} (hl : l ≠ .newConnection) (h : step s l = some t) :
    SameLoops s t := by
  obtain ⟨-, rfl⟩ := step_eq_some.mp h
  cases l with
  | newConnection => exact absurd rfl hl
  | poll i events => exact sameLoops_poll s i events
  | handleEvent i =>
    simp only [nextState, handleEvent]
    split <;> exact ⟨rfl, rfl, rfl, fun _ => rfl⟩
  | act i io => exact sameLoops_put s _ _
  | runFunctor i io =>
    simp only [nextState, runTask]
    split
    · exact .refl s
    · next queue _ =>
      have hqueue : SameLoops s (s.setQueue i queue) := ⟨rfl, rfl, rfl, fun _ => rfl⟩
      split <;> exact hqueue.trans (sameLoops_put _ _ _)
  | user id l => exact sameLoops_put s _ _
  | destroyServer ids => exact sameLoops_destroy s ids
  | _ => exact ⟨rfl, rfl, rfl, fun _ => rfl⟩

/-- `next_` goes round, and every connection is in the loop that its number says. -/
structure RoundRobin (n : Nat) (s : Server) : Prop where
  numThreads : s.numThreads = n
  nextConnId : 1 ≤ s.nextConnId
  next : n ≠ 0 → s.next = (s.nextConnId - 1) % n
  ioLoop : ∀ id, s.created id = true → (s.connection id).ioLoop = assigned n id

variable {n : Nat}

theorem roundRobin_new (n : Nat) (w : Bool) : RoundRobin n (new n w) where
  numThreads := rfl
  nextConnId := Nat.le_refl 1
  next _ := (Nat.zero_mod n).symm
  ioLoop id hid := by
    simp [created, new] at hid
    omega

theorem RoundRobin.of_sameLoops (h : RoundRobin n s) (hsame : SameLoops s t) :
    RoundRobin n t where
  numThreads := hsame.numThreads.trans h.numThreads
  nextConnId := hsame.nextConnId ▸ h.nextConnId
  next := by
    rw [hsame.next, hsame.nextConnId]
    exact h.next
  ioLoop id hid := by
    rw [hsame.ioLoop]
    refine h.ioLoop id ?_
    rwa [created, hsame.nextConnId] at hid

def loopPtr : Nat → LoopPtr
  | 0 => .baseLoop
  | i + 1 => .subLoop i

/-- A started pool with the `next_` of the server chooses the same loop. -/
theorem RoundRobin.getNextLoop_pool (h : RoundRobin n s) {p : EventLoopThreadPool}
    (hloops : p.loops = (List.range n).map .subLoop) (hnext : p.next = s.next) :
    p.getNextLoop = some
      { p with chosen := p.chosen ++ [loopPtr s.getNextLoop.1], next := s.getNextLoop.2 } := by
  rw [EventLoopThreadPool.getNextLoop, Server.getNextLoop, h.numThreads, hloops]
  by_cases hn : n = 0
  · simp only [hn, List.range_zero, List.map_nil, List.isEmpty_nil, if_true, loopPtr, ← hnext]
  · have hlt : s.next < n := h.next hn ▸ Nat.mod_lt _ (Nat.pos_of_ne_zero hn)
    have hloop : ((List.range n).map LoopPtr.subLoop)[s.next]? = some (.subLoop s.next) := by
      rw [List.getElem?_map, List.getElem?_range hlt, Option.map_some]
    have hsome : ((List.range n).map LoopPtr.subLoop).isEmpty = false := by simp [hn]
    simp only [hsome, Bool.false_eq_true, if_false, hloop, Option.map_some, List.length_map,
      List.length_range, hn, hnext, loopPtr]

theorem RoundRobin.getNextLoop (h : RoundRobin n s) :
    s.getNextLoop.1 = assigned n s.nextConnId ∧
      (n ≠ 0 → s.getNextLoop.2 = s.nextConnId % n) := by
  have hpos := h.nextConnId
  by_cases hn : n = 0
  · simp [Server.getNextLoop, assigned, h.numThreads, hn]
  · have hnext := h.next hn
    have hmod := EventLoopThreadPool.succ_mod_eq (s.nextConnId - 1) hn
    rw [show s.nextConnId - 1 + 1 = s.nextConnId by omega] at hmod
    simp only [Server.getNextLoop, assigned, h.numThreads, hn, if_false, hnext, hmod]
    exact ⟨trivial, fun _ => trivial⟩

theorem RoundRobin.addConnection (h : RoundRobin n s) : RoundRobin n s.addConnection where
  numThreads := h.numThreads
  nextConnId := Nat.le_succ_of_le h.nextConnId
  next := h.getNextLoop.2
  ioLoop id hid := by
    by_cases hnew : id = s.nextConnId
    · rw [hnew]
      exact (congrArg ServerConnection.ioLoop (Function.update_self _ _ _)).trans
        h.getNextLoop.1
    · have hold : s.created id = true := by
        have hlt : id < s.nextConnId + 1 := lt_of_created hid
        simp only [created, Bool.and_eq_true, decide_eq_true_eq] at hid ⊢
        exact ⟨hid.1, by omega⟩
      exact (congrArg ServerConnection.ioLoop (Function.update_of_ne hnew _ _)).trans
        (h.ioLoop id hold)

theorem RoundRobin.step {l : Label} (h : RoundRobin n s) (ht : step s l = some t) :
    RoundRobin n t := by
  by_cases hl : l = .newConnection
  · subst hl
    obtain ⟨-, rfl⟩ := step_eq_some.mp ht
    exact h.addConnection.of_sameLoops (sameLoops_put _ _ _)
  · exact h.of_sameLoops (sameLoops_step hl ht)

theorem roundRobin_of_run {w : Bool} {ls : List Label} (h : run step (new n w) ls = some s) :
    RoundRobin n s :=
  invariant_run (fun _ _ _ h ht => h.step ht) (roundRobin_new n w) h

theorem RoundRobin.ioLoop_le (h : RoundRobin n s) (hid : s.created id = true) :
    (s.connection id).ioLoop ≤ s.numThreads := by
  rw [h.ioLoop id hid, h.numThreads, assigned]
  split
  · exact Nat.zero_le n
  · next hn => exact Nat.mod_lt _ (Nat.pos_of_ne_zero hn)

/-- Of the connections `1, ..., m`, every `n`-th one is in a loop of the pool. -/
theorem RoundRobin.load_eq (h : RoundRobin n s) {i : Nat} (hi : i < n) :
    s.load (i + 1) = (s.nextConnId - 1) / n + if i < (s.nextConnId - 1) % n then 1 else 0 := by
  have hn : n ≠ 0 := by omega
  have hcount := Nat.count_modEq_card (s.nextConnId - 1) (Nat.pos_of_ne_zero hn) i
  rw [Nat.mod_eq_of_lt hi] at hcount
  obtain ⟨m, hm⟩ : ∃ m, s.nextConnId = m + 1 := ⟨s.nextConnId - 1, by have := h.nextConnId; omega⟩
  have hzero : s.created 0 = false := rfl
  rw [← hcount, load, hm, Nat.add_sub_cancel, Nat.count, List.range_succ_eq_map,
    List.countP_cons_of_neg (by simp [hzero]), List.countP_map]
  refine List.countP_congr fun k hk => ?_
  have hid : s.created (k + 1) = true := by
    simp only [created, hm, Bool.and_eq_true, decide_eq_true_eq]
    have := List.mem_range.mp hk
    omega
  simp [Function.comp_apply, hid, h.ioLoop _ hid, assigned, hn, Nat.ModEq, Nat.mod_eq_of_lt hi]

/-- In every run, whatever becomes of the connections, each one stays in the loop that its number
says, and the loops of the pool were given the same number of connections, up to one. -/
theorem run_roundRobin {w : Bool} {ls : List Label} (h : run step (new n w) ls = some s) :
    (∀ id, s.created id = true → (s.connection id).ioLoop = assigned n id) ∧
      ∀ i j, i < n → j < n → s.load (i + 1) ≤ s.load (j + 1) + 1 := by
  have hs := roundRobin_of_run h
  refine ⟨hs.ioLoop, fun i j hi hj => ?_⟩
  rw [hs.load_eq hi, hs.load_eq hj]
  split <;> omega

/-- Three connections for two loops. -/
theorem run_roundRobin_three :
    ∃ s, run step (new 2 false) [.newConnection, .newConnection, .newConnection] = some s ∧
      (s.connection 1).ioLoop = 1 ∧ (s.connection 2).ioLoop = 2 ∧ (s.connection 3).ioLoop = 1 ∧
      s.load 1 = 2 ∧ s.load 2 ≤ 3 := by
  have hrun : ∃ s ∈ run step (new 2 false) [.newConnection, .newConnection, .newConnection],
      s.nextConnId = 4 ∧ s.load 1 = 2 := by decide +kernel
  obtain ⟨s, hs, hnext, hload⟩ := hrun
  have hcreated : ∀ id, 1 ≤ id → id < 4 → s.created id = true := fun id hid hlt => by
    simp only [created, hnext, Bool.and_eq_true, decide_eq_true_eq]
    exact ⟨hid, hlt⟩
  obtain ⟨hloop, hloads⟩ := run_roundRobin hs
  have hsecond : s.load 2 ≤ s.load 1 + 1 := hloads 1 0 (by decide) (by decide)
  exact ⟨s, hs, hloop 1 (hcreated 1 (by decide) (by decide)),
    hloop 2 (hcreated 2 (by decide) (by decide)), hloop 3 (hcreated 3 (by decide) (by decide)),
    hload, by rwa [hload] at hsecond⟩

end WebServer.Mymuduo.Server
