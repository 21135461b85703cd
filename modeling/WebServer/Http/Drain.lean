import WebServer.Http.Client

namespace WebServer.Http

open WebServer.Lib WebServer.Mymuduo

namespace Dialogue

variable {c : TcpConnection} {replies : List Reply} {d : Dialogue}

theorem flushing_deliver (hc : c.Flushing) (r : Reply) (before : UInt8)
    {result : Except Errno Nat} (hfit : TcpConnection.Fits r.bytes.length result) :
    (deliver c r before result).Flushing := by
  have hsent : (c.send ⟨before, r.bytes⟩ result).Flushing := hc.send hfit
  simp only [deliver]
  split
  · exact hsent.shutdown
  · exact hsent

theorem flushing_handleClose (c : TcpConnection) : (c.handleClose closeCallback).Flushing :=
  TcpConnection.flushing_of_disconnected rfl (Channel.isWriting_disableAll _)

theorem flushing_handleRead (hc : c.Flushing) (delivered : Except Errno Bytes) :
    (c.handleRead delivered id closeCallback).Flushing := by
  simp only [TcpConnection.handleRead]
  split_ifs
  · exact hc.congr rfl rfl rfl (List.subset_append_left _ _)
  · exact flushing_handleClose _
  · exact hc.congr rfl rfl rfl (List.Subset.refl _)

theorem flushing_foldl_deliver (hc : c.Flushing) (before : Reply → UInt8) (k : Kernel)
    {rs : List Reply} (hfit : ∀ r ∈ rs, TcpConnection.Fits r.bytes.length (k.result r)) :
    (rs.foldl (fun c r => deliver c r (before r) (k.result r)) c).Flushing := by
  induction rs generalizing c with
  | nil => exact hc
  | cons r rs ih =>
    obtain ⟨hr, hrs⟩ := List.forall_mem_cons.mp hfit
    exact ih (flushing_deliver hc r (before r) hr) hrs

theorem step_flushing (hd : d.http.conn.Flushing) (l : Label) (hl : KernelTakes d l) :
    ∃ d', step d l = some d' ∧ d'.http.conn.Flushing := by
  cases l with
  | handleRead delivered t k httpCallback =>
    have hread := flushing_handleRead hd delivered
    match delivered with
    | .error e => exact ⟨_, rfl, hread⟩
    | .ok [] => exact ⟨_, rfl, hread⟩
    | .ok (b :: bs) =>
      obtain ⟨d', before, buf, hstep, -, hconn⟩ := step_handleRead d b bs t k httpCallback
      refine ⟨d', hstep, ?_⟩
      have hbuf : TcpConnection.Flushing
          { d.http.conn.handleRead (.ok (b :: bs)) id closeCallback with inputBuffer := buf } :=
        hread.congr rfl rfl rfl (List.Subset.refl _)
      rw [hconn]
      exact flushing_foldl_deliver hbuf before k fun r hr => (hl r hr).1
  | handleWrite result => exact ⟨_, rfl, hd.handleWrite result⟩
  | handleClose => exact ⟨_, rfl, flushing_handleClose _⟩
  | connectDestroyed => exact ⟨_, rfl, hd.connectDestroyed⟩

theorem run_handleWrites (d : Dialogue) (results : List (Except Errno Nat)) :
    run step d (results.map .handleWrite) =
      some (d.setConn (results.foldl TcpConnection.handleWrite d.http.conn)) := by
  induction results generalizing d with
  | nil => rfl
  | cons result results ih =>
    rw [List.map_cons, run, step, Option.bind_some, ih]
    rfl

/-- Once the kernel has taken as many bytes as are waiting, the channel is not interested in writing
any more, the client has all responses, with the reply that closes behind them, and then the
connection is half closed, once. -/
def Finishes (d : Dialogue) : Prop :=
  d.http.conn.state ≠ .kDisconnected → ∀ results : List (Except Errno Nat),
    d.http.conn.outputBuffer.readableBytes ≤ (results.map TcpConnection.takenOf).sum →
    ∃ d', run step d (results.map .handleWrite) = some d' ∧
      d'.http.conn.outputBuffer.peek = [] ∧ d'.http.conn.channel.isWriting = false ∧
      readReplies (TcpConnection.kernelBytes d'.http.conn.log) =
        ((Reply.kept d.replies).map HttpResponse.received, Reply.farewell d.replies) ∧
      ((∃ r ∈ d.replies, r.closing = true) → d'.http.conn.log.count .shutdownWrite = 1)

end Dialogue

end WebServer.Http
