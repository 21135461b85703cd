import WebServer.Mymuduo.QueuedCallbacks

namespace WebServer.Mymuduo

open WebServer.Lib

def Functor.callsEmpty (c : TcpConnection) : Functor → Bool
  | .writeCompleteCallback => !c.writeCompleteCallback
  | .highWaterMarkCallback _ => !c.highWaterMarkCallback
  | _ => false

theorem Functor.callsEmpty_congr {c c' : TcpConnection} (h : c'.settings = c.settings) :
    Functor.callsEmpty c' = Functor.callsEmpty c := by
  have hcomplete : c'.writeCompleteCallback = c.writeCompleteCallback := congrArg (·.2.1) h
  have hmark : c'.highWaterMarkCallback = c.highWaterMarkCallback := congrArg (·.2.2) h
  funext f
  cases f <;> simp only [callsEmpty, hcomplete, hmark]

theorem Functor.isCallback_of_callsEmpty {c : TcpConnection} {f : Functor}
    (h : f.callsEmpty c = true) : f.isCallback = true := by
  cases f <;> first | rfl | cases h

namespace TcpConnection

def sendCrosses (c : TcpConnection) (data : Data) (result : Except Errno Nat) : Bool :=
  c.state ≠ .kDisconnected ∧ c.crosses (c.leaves data result).length = true

variable {c : TcpConnection} {data : Data} {result : Except Errno Nat}

theorem any_queuedWriteComplete (c : TcpConnection) :
    c.queuedWriteComplete.any (Functor.callsEmpty c) = false := by
  rw [queuedWriteComplete]
  split
  · next h => simp [Functor.callsEmpty, h]
  · rfl

theorem any_queuedByWrite (c : TcpConnection) (result : Except Errno Nat) :
    (c.queuedByWrite result).any (Functor.callsEmpty c) = false := by
  rcases c.queuedByWrite_eq_or result with h | h
  · rw [h, any_queuedWriteComplete]
  · rw [h, List.any_nil]

theorem any_queuedBySend (h : c.highWaterMarkCallback = false) :
    (c.queuedBySend data result).any (Functor.callsEmpty c) = c.sendCrosses data result := by
  by_cases hstate : c.state = .kDisconnected
  · simp [queuedBySend, sendCrosses, hstate]
  · have hdirect : (if c.writesDirectly ∧ c.leaves data result = [] then c.queuedWriteComplete
        else []).any (Functor.callsEmpty c) = false := by
      split
      · exact c.any_queuedWriteComplete
      · rfl
    rw [queuedBySend, if_neg hstate, List.any_append, hdirect, Bool.false_or,
      queuedHighWaterMark]
    cases hcrosses : c.crosses (c.leaves data result).length <;>
      simp [sendCrosses, hcrosses, hstate, Functor.callsEmpty, h]

end TcpConnection

namespace TcpServer

def emptyWaits (s : TcpServer) : Bool := s.conn.loop.waiting.any (Functor.callsEmpty s.conn)

/-- The step calls `sendInLoop`, which takes `outputBuffer_` to the mark. -/
def reachesMark (s : TcpServer) (l : Label) : Bool :=
  match s.outputOf l with
  | some (.sendInLoop data result) => s.conn.sendCrosses data result
  | _ => false

variable {s t : TcpServer} {l : Label}

theorem any_callbacksOf (hs : s.conn.highWaterMarkCallback = false) :
    (s.callbacksOf l).any (Functor.callsEmpty s.conn) = s.reachesMark l := by
  rw [callbacksOf, reachesMark]
  split
  · next houtput =>
    rw [houtput]
    exact TcpConnection.any_queuedBySend hs
  · next houtput =>
    rw [houtput]
    exact s.conn.any_queuedByWrite _
  · next houtput =>
    rw [houtput]
    rfl

theorem any_filter_isCallback (c : TcpConnection) (fs : List Functor) :
    (fs.filter Functor.isCallback).any (Functor.callsEmpty c) = fs.any (Functor.callsEmpty c) := by
  rw [List.any_filter]
  congr 1
  funext f
  cases h : f.callsEmpty c with
  | false => exact Bool.and_false _
  | true => rw [Functor.isCallback_of_callsEmpty h, Bool.true_and]

theorem emptyWaits_of_step (hs : s.conn.highWaterMarkCallback = false)
    (hempty : s.emptyWaits = false) (h : step s l = some t) : t.emptyWaits = s.reachesMark l := by
  obtain ⟨hsettings, hcallbacks⟩ := callbacks_of_step h
  have hremaining : (s.remaining l).any (Functor.callsEmpty s.conn) = false := by
    rw [emptyWaits, List.any_eq_false] at hempty
    rw [List.any_eq_false]
    exact fun f hf => hempty f (mem_waiting_of_remaining hf)
  rw [emptyWaits, Functor.callsEmpty_congr hsettings, ← any_filter_isCallback, hcallbacks,
    List.any_append, any_filter_isCallback, hremaining, Bool.false_or, any_callbacksOf hs]

/-- In a run from `newConnection` no functor with an empty `std::function` is ever queued exactly
if no `sendInLoop` in it takes `outputBuffer_` to the mark. -/
theorem noEmptyCallback_iff_along {sameLoop writeCompleteCallback : Bool} {ls : List Label}
    (h : run step (newConnection sameLoop writeCompleteCallback) ls = some s) :
    (∀ js t, js <+: ls → run step (newConnection sameLoop writeCompleteCallback) js = some t →
        t.emptyWaits = false) ↔
      Along step (fun s l => s.reachesMark l = false)
        (newConnection sameLoop writeCompleteCallback) ls := by
  refine forall_prefix_iff_along (I := fun s => s.conn.highWaterMarkCallback = false)
    (J := fun s => s.emptyWaits = false) ?_ ?_ ?_ ?_ h
  · intro s l t hs ht
    exact (congrArg (·.2.2) (callbacks_of_step ht).settings).trans hs
  · intro s l t hs hempty ht
    rw [emptyWaits_of_step hs hempty ht]
  · cases sameLoop <;> rfl
  · cases sameLoop <;> rfl

def partlyWritten : List Label :=
  [.send ⟨0, ascii "abcd"⟩ (.ok 2), .poll EPOLLOUT, .handleEvent,
    .act ⟨.error .EWOULDBLOCK, .ok 2, 0⟩]

theorem noEmptyCallback_partlyWritten :
    ∃ s, run step (newConnection true true) partlyWritten = some s ∧
      ∀ js t, js <+: partlyWritten → run step (newConnection true true) js = some t →
        t.emptyWaits = false := by
  obtain ⟨s, hs⟩ : ∃ s, run step (newConnection true true) partlyWritten = some s :=
    Option.isSome_iff_exists.mp (by decide +kernel)
  exact ⟨s, hs, (noEmptyCallback_iff_along hs).mpr (by decide +kernel)⟩

theorem emptyWaits_send {buf : Data} (hlen : buf.bytes.length = 64 * 1024 * 1024 + 1) :
    ∃ s, run step (newConnection true false) [.send buf (.ok 1)] = some s ∧
      s.emptyWaits = true := by
  have hfit : TcpConnection.Fits buf.bytes.length (.ok 1) := by
    rw [hlen]
    exact ⟨by decide, fun k hk => by cases hk; decide⟩
  have hen : (newConnection true false).enabled (.send buf (.ok 1)) = true := by
    simpa only [enabled, decide_eq_true_eq] using hfit
  have hstep := step_eq_some.mpr ⟨hen, rfl⟩
  refine ⟨_, run_cons.mpr ⟨_, hstep, rfl⟩, ?_⟩
  rw [emptyWaits_of_step rfl rfl hstep]
  have hstate : (newConnection true false).conn.state = .kConnected := rfl
  have hsend : (newConnection true false).outputOf (.send buf (.ok 1)) =
      some (.sendInLoop buf (.ok 1)) := by
    rw [outputOf, if_pos hstate]
  have hdirect : (newConnection true false).conn.writesDirectly = true := by decide
  have hleaves :
      ((newConnection true false).conn.leaves buf (.ok 1)).length = 64 * 1024 * 1024 := by
    rw [TcpConnection.leaves, if_pos hdirect, TcpConnection.unwritten, List.length_drop, hlen]
  have hcrosses : (newConnection true false).conn.crosses (64 * 1024 * 1024) = true := by decide
  have hmark : (newConnection true false).conn.sendCrosses buf (.ok 1) = true := by
    rw [TcpConnection.sendCrosses, hleaves, hcrosses, hstate]
    decide
  rw [reachesMark, hsend]
  exact hmark

theorem emptyCallback_replicate : ∃ s,
    run step (newConnection true false)
      [.send ⟨0, List.replicate (64 * 1024 * 1024 + 1) 97⟩ (.ok 1)] = some s ∧
      s.emptyWaits = true :=
  emptyWaits_send List.length_replicate

end TcpServer

end WebServer.Mymuduo
