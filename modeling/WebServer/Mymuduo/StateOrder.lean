import WebServer.Mymuduo.ConnectionStep

namespace WebServer.Mymuduo

open WebServer.Lib

def StateE.rank : StateE → Nat
  | .kConnecting => 0
  | .kConnected => 1
  | .kDisconnecting => 2
  | .kDisconnected => 3

theorem StateE.rank_le (a : StateE) : a.rank ≤ 3 := by cases a <;> decide

theorem TcpConnection.Works.rank_le {c c' : TcpConnection} (h : c.Works c') :
    c.state.rank ≤ c'.state.rank := by
  rcases h.state with heq | ⟨hfrom, hto⟩
  · rw [heq]
  · rw [hfrom, hto]
    decide

namespace TcpServer

structure Established (s : TcpServer) : Prop where
  state : s.conn.state ≠ .kConnecting
  once : .connectEstablished ∉ s.conn.loop.waiting

/-- A `shutdown` in another thread stores `kDisconnecting` after the connection was closed. -/
def storesLate (s : TcpServer) : Label → Bool
  | .advance i => s.conn.state = .kDisconnected && s.calls[i]? = some .shutdown
  | _ => false

/-- `state_` does not move back. -/
def Forward (s t : TcpServer) : Prop := s.conn.state.rank ≤ t.conn.state.rank

variable {s t : TcpServer} {l : Label}

theorem established_of_started (hs : s.Started) : s.Established := by
  refine ⟨by simp [hs.state], ?_⟩
  rw [hs.waiting, destroys]
  split <;> simp

theorem state_connectDestroyed (c : TcpConnection) :
    c.connectDestroyed.state = c.state ∨ c.connectDestroyed.state = .kDisconnected := by
  by_cases h : c.state = .kConnected
  · exact .inr (by simp [TcpConnection.connectDestroyed, TcpConnection.record,
      TcpConnection.setState, h])
  · exact .inl (TcpConnection.connectDestroyed_of_state_ne h).1

theorem connectEstablished_notMem (hs : .connectEstablished ∉ s.conn.loop.waiting)
    (h : step s l = some t) : .connectEstablished ∉ t.conn.loop.waiting := by
  obtain ⟨fs, hwaiting, hfs⟩ := waiting_of_step h
  rw [hwaiting]
  intro hmem
  rcases List.mem_append.mp hmem with hmem | hmem
  · exact hs (mem_waiting_of_remaining hmem)
  · rcases hfs _ hmem with ⟨heq, -⟩ | hkind
    · cases heq
    · cases hkind

theorem Established.step (hs : s.Established) (h : TcpServer.step s l = some t) :
    t.Established := by
  refine ⟨fun hstate => ?_, connectEstablished_notMem hs.once h⟩
  cases connStep_of_step h with
  | works hworks _ =>
    rcases hworks.state with heq | ⟨-, heq⟩
    · exact hs.state (heq ▸ hstate)
    · simp [heq] at hstate
  | poll _ _ heq _ _ => exact hs.state (heq ▸ hstate)
  | connectEstablished hmem => exact hs.once hmem
  | connectDestroyed _ heq _ _ =>
    rcases state_connectDestroyed s.conn with hsame | hclosed
    · exact hs.state (hsame ▸ heq ▸ hstate)
    · simp [heq, hclosed] at hstate
  | handleClose _ _ heq _ _ => simp [heq] at hstate
  | store _ _ _ heq _ _ => simp [heq] at hstate

theorem state_store {i : Nat} (hcall : s.calls[i]? = some .shutdown)
    (h : TcpServer.step s (.advance i) = some t) : t.conn.state = .kDisconnecting := by
  obtain ⟨hen, rfl⟩ := step_eq_some.mp h
  obtain ⟨c, hc, hnext⟩ := advance_cases hen
  obtain rfl : c = .shutdown := Option.some.inj (hc.symm.trans hcall)
  rw [hnext]
  rfl

theorem Established.forward_iff (hs : s.Established) (h : TcpServer.step s l = some t) :
    s.Forward t ↔ s.storesLate l = false := by
  by_cases hstore : ∃ i, l = .advance i ∧ s.calls[i]? = some .shutdown
  · obtain ⟨i, rfl, hcall⟩ := hstore
    rw [Forward, state_store hcall h, storesLate, hcall]
    cases s.conn.state <;> decide
  · have hlate : s.storesLate l = false := by
      cases l with
      | advance i => simpa [storesLate] using fun _ hcall => hstore ⟨i, rfl, hcall⟩
      | _ => rfl
    refine iff_of_true ?_ hlate
    rw [Forward]
    cases connStep_of_step h with
    | works hworks _ => exact hworks.rank_le
    | poll _ _ heq _ _ => rw [heq]
    | connectEstablished hmem => exact absurd hmem hs.once
    | connectDestroyed _ heq _ _ =>
      rcases state_connectDestroyed s.conn with hsame | hclosed
      · rw [heq, hsame]
      · rw [heq, hclosed]
        exact s.conn.state.rank_le
    | handleClose _ _ heq _ _ =>
      rw [heq]
      exact s.conn.state.rank_le
    | store i hl hcall _ _ _ => exact absurd ⟨i, hl, hcall⟩ hstore

theorem Connecting.forward_iff (hs : s.Connecting) (h : TcpServer.step s l = some t) :
    s.Forward t ↔ s.storesLate l = false := by
  refine iff_of_true (by simp [Forward, hs.state, StateE.rank]) ?_
  cases l <;> simp [storesLate, hs.state]

def Phase (s : TcpServer) : Prop := s.Connecting ∨ s.Established

theorem phase_newConnection (sameLoop writeCompleteCallback : Bool) :
    (newConnection sameLoop writeCompleteCallback).Phase := by
  cases sameLoop with
  | true => exact .inr (established_of_started (newConnection_sameLoop _))
  | false => exact .inl (newConnection_otherLoop _)

theorem Phase.step (hs : s.Phase) (h : TcpServer.step s l = some t) : t.Phase := by
  rcases hs with hs | hs
  · exact (connecting_step hs h).imp_right established_of_started
  · exact .inr (hs.step h)

/-- `state_` moves forward in a run exactly if no store of `shutdown` is late in it. -/
theorem ordered_iff_notLate {sameLoop writeCompleteCallback : Bool} {ls : List Label}
    (h : run step (newConnection sameLoop writeCompleteCallback) ls = some s) :
    Ordered step Forward (newConnection sameLoop writeCompleteCallback) ls ↔
      Along step (fun s l => s.storesLate l = false)
        (newConnection sameLoop writeCompleteCallback) ls := by
  refine ordered_iff_along (I := Phase) (r := Forward)
    (fun s => Nat.le_refl s.conn.state.rank) (fun _ _ _ => Nat.le_trans)
    (fun _ _ _ hs ht => hs.step ht) ?_ (phase_newConnection _ _) h
  rintro s l t (hs | hs) ht
  · exact hs.forward_iff ht
  · exact hs.forward_iff ht

def storeRun : List Label :=
  [.hold, .callShutdown, .poll EPOLLHUP, .handleEvent, .advance 0, .act ⟨.ok [], .ok 0, 0⟩]

theorem ordered_storeRun : ∃ s, run step (newConnection true false) storeRun = some s ∧
    s.conn.state = .kDisconnected ∧
    Ordered step Forward (newConnection true false) storeRun := by
  have hrun : (run step (newConnection true false) storeRun).any
      (fun s => s.conn.state = .kDisconnected) = true := by decide +kernel
  obtain ⟨s, hs, hstate⟩ := (Option.any_eq_true _ _).mp hrun
  exact ⟨s, hs, of_decide_eq_true hstate, (ordered_iff_notLate hs).mpr (by decide +kernel)⟩

def lateStoreRun : List Label :=
  [.hold, .callShutdown, .poll EPOLLHUP, .handleEvent, .act ⟨.ok [], .ok 0, 0⟩]

theorem not_ordered_lateStoreRun : ∃ s t,
    run step (newConnection true false) lateStoreRun = some s ∧ step s (.advance 0) = some t ∧
    s.conn.state = .kDisconnected ∧ t.conn.state = .kDisconnecting ∧
    ¬ Ordered step Forward (newConnection true false) (lateStoreRun ++ [.advance 0]) := by
  have hrun : (run step (newConnection true false) lateStoreRun).any
      (fun s => s.conn.state = .kDisconnected ∧
        (step s (.advance 0)).any (fun t => t.conn.state = .kDisconnecting)) = true := by
    decide +kernel
  obtain ⟨s, hs, hstate⟩ := (Option.any_eq_true _ _).mp hrun
  obtain ⟨hclosed, hstep⟩ := of_decide_eq_true hstate
  obtain ⟨t, ht, hstored⟩ := (Option.any_eq_true _ _).mp hstep
  have hstored : t.conn.state = .kDisconnecting := of_decide_eq_true hstored
  refine ⟨s, t, hs, ht, hclosed, hstored, fun hall => ?_⟩
  have hle : s.Forward t := hall lateStoreRun [.advance 0] s t (List.prefix_refl _) hs
    (run_cons.mpr ⟨t, ht, rfl⟩)
  rw [Forward, hclosed, hstored] at hle
  exact absurd hle (by decide)

end TcpServer

end WebServer.Mymuduo
