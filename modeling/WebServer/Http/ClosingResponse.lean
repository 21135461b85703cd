import WebServer.Http.HttpServer
import WebServer.Lib.Run
import WebServer.Mymuduo.HalfClose

/-! The last response of a connection, over runs of its callbacks in the loop thread.
`handleError` only writes to the log file and is left out. -/

namespace WebServer.Http

open WebServer.Lib WebServer.Mymuduo

inductive Reply where
  | badRequest
  | response (r : HttpResponse)
  deriving DecidableEq

namespace Reply

def bytes : Reply → Bytes
  | .badRequest => HttpServer.badRequest
  | .response r => r.bytes

def closing : Reply → Bool
  | .badRequest => true
  | .response r => r.closeConnection

end Reply

/-- A connection, with the replies made for it so far, whether `send` took them or not. -/
structure Dialogue where
  http : HttpConnection
  replies : List Reply

namespace Dialogue

/-- `httpCallback_` may do something else in each call. -/
inductive Label where
  | handleRead (delivered : Except Errno Bytes) (receiveTime : Timestamp) (k : Kernel)
      (httpCallback : HttpCallback)
  | handleWrite (result : Except Errno Nat)
  | handleClose
  | connectDestroyed

def new (writeCompleteCallback : Bool) : Dialogue where
  http := ⟨.established writeCompleteCallback, []⟩
  replies := []

def setConn (d : Dialogue) (c : TcpConnection) : Dialogue :=
  { d with http := { d.http with conn := c } }

/-- The replies of `onMessage` behind the call of `parseRequest`. -/
def repliesOf (httpCallback : HttpCallback) (ok : Bool) (context : HttpContext) : List Reply :=
  (if !ok then [.badRequest] else []) ++
  (if context.gotAll then [.response (HttpServer.respond httpCallback context.request)] else [])

def onMessage (d : Dialogue) (httpCallback : HttpCallback) (receiveTime : Timestamp)
    (k : Kernel) : Except Fault Dialogue :=
  (HttpContext.new.parseRequest d.http.conn.inputBuffer receiveTime).map fun p =>
    { http := HttpServer.onParsed httpCallback d.http k p.ok p.context p.buf
      replies := d.replies ++ repliesOf httpCallback p.ok p.context }

/-- `closeCallback_`; the connection learns of it when `connectDestroyed` runs. -/
def closeCallback (c : TcpConnection) : TcpConnection := c.record .closeCallback

/-- `messageCallback_` is the last thing that `handleRead` calls. -/
def step (d : Dialogue) : Label → Option Dialogue
  | .handleRead delivered receiveTime k httpCallback =>
    let d := d.setConn (d.http.conn.handleRead delivered id closeCallback)
    match delivered with
    | .ok (_ :: _) => (d.onMessage httpCallback receiveTime k).toOption
    | _ => some d
  | .handleWrite result => some (d.setConn (d.http.conn.handleWrite result))
  | .handleClose => some (d.setConn (d.http.conn.handleClose closeCallback))
  | .connectDestroyed => some (d.setConn d.http.conn.connectDestroyed)

/-- The replies apart, this is `onMessage` of `HttpServer`. -/
theorem onMessage_http (d : Dialogue) (httpCallback : HttpCallback) (t : Timestamp)
    (k : Kernel) :
    (d.onMessage httpCallback t k).map Dialogue.http =
      HttpServer.onMessage httpCallback d.http t k := by
  rw [onMessage, HttpServer.onMessage]
  cases HttpContext.new.parseRequest d.http.conn.inputBuffer t <;> rfl

/-- Nothing follows a closing reply.  The replies that went to `sendInLoop` are the first ones of
those that were made, and `shutdownWrite` comes once, to an empty `outputBuffer_`. -/
structure ClosesLast (d : Dialogue) : Prop where
  passed : ∃ rs last, rs ++ last <+: d.replies ∧
    HttpServer.passed d.http = (rs ++ last).map Reply.bytes ∧
    (∀ r ∈ rs, r.closing = false) ∧ last.length ≤ 1 ∧ ∀ r ∈ last, r.closing = true
  once : d.http.conn.log.count .shutdownWrite ≤ 1
  last : ∀ pre post, d.http.conn.log = pre ++ .shutdownWrite :: post →
    d.http.conn.outputBuffer.peek = [] ∧ ∀ e ∈ post, e.outputs = false

structure Answers (c : TcpConnection) (replies : List Reply) : Prop where
  connected : c.state = .kConnected →
    TcpConnection.messages c.log = replies.map Reply.bytes ∧ ∀ r ∈ replies, r.closing = false
  passed : ∃ rs last, rs ++ last <+: replies ∧
    TcpConnection.messages c.log = (rs ++ last).map Reply.bytes ∧
    (∀ r ∈ rs, r.closing = false) ∧ last.length ≤ 1 ∧ ∀ r ∈ last, r.closing = true

def deliver (c : TcpConnection) (r : Reply) (before : UInt8) (result : Except Errno Nat) :
    TcpConnection :=
  let c := c.send ⟨before, r.bytes⟩ result
  if r.closing then c.shutdown else c

variable {c : TcpConnection} {replies : List Reply}

theorem halfClose_deliver (hc : c.HalfClose) (r : Reply) (before : UInt8)
    (result : Except Errno Nat) : (deliver c r before result).HalfClose := by
  simp only [deliver]
  split
  · exact (hc.send _ result).shutdown
  · exact hc.send _ result

theorem deliver_eq (h : c.state ≠ .kConnected) (r : Reply) (before : UInt8)
    (result : Except Errno Nat) : deliver c r before result = c := by
  simp [deliver, TcpConnection.send, TcpConnection.shutdown, h]

theorem answers_deliver (hc : Answers c replies) (r : Reply) (before : UInt8)
    (result : Except Errno Nat) : Answers (deliver c r before result) (replies ++ [r]) := by
  by_cases hstate : c.state = .kConnected
  · obtain ⟨hmessages, hopen⟩ := hc.connected hstate
    have hpasses := TcpConnection.send_passes hstate ⟨before, r.bytes⟩ result
    have hsent : TcpConnection.messages (c.send ⟨before, r.bytes⟩ result).log =
        (replies ++ [r]).map Reply.bytes := by
      rw [hpasses.messages, hmessages]
      simp
    simp only [deliver]
    split
    · next hclosing =>
      refine ⟨fun h => absurd h (TcpConnection.shutdown_state_ne _), replies, [r],
        List.prefix_rfl, ?_, hopen, Nat.le_refl 1, ?_⟩
      · rw [TcpConnection.shutdown_messages, hsent]
      · simpa using hclosing
    · next hclosing =>
      have hall : ∀ x ∈ replies ++ [r], x.closing = false := by
        intro x hx
        rcases List.mem_append.mp hx with hx | hx
        · exact hopen x hx
        · simpa [List.mem_singleton.mp hx] using hclosing
      refine ⟨fun _ => ⟨hsent, hall⟩, replies ++ [r], [], ?_, ?_, hall, ?_, ?_⟩ <;> simp [hsent]
  · rw [deliver_eq hstate]
    obtain ⟨rs, last, hreplies, hpassed⟩ := hc.passed
    exact ⟨fun h => absurd h hstate, rs, last, hreplies.trans (List.prefix_append replies [r]),
      hpassed⟩

theorem onRequest_conn (httpCallback : HttpCallback) (s : HttpConnection) (req : HttpRequest)
    (result : Except Errno Nat) :
    ∃ before, (HttpServer.onRequest httpCallback s req result).conn =
      deliver s.conn (.response (HttpServer.respond httpCallback req)) before result := by
  refine ⟨((HttpServer.respond httpCallback req).appendToBuffer
    (.new Buffer.kInitialSize)).beforePeek, ?_⟩
  simp only [HttpServer.onRequest, TcpConnection.sendBuffer_fst, HttpResponse.peek_appendToBuffer,
    Buffer.peek_new, List.nil_append]
  rfl

structure Proper (c : TcpConnection) (replies : List Reply) : Prop where
  halfClose : c.HalfClose
  answers : Answers c replies

theorem proper_deliver (hc : Proper c replies) (r : Reply) (before : UInt8)
    (result : Except Errno Nat) : Proper (deliver c r before result) (replies ++ [r]) :=
  ⟨halfClose_deliver hc.halfClose r before result, answers_deliver hc.answers r before result⟩

theorem Proper.of_passes {c' : TcpConnection} (hc : Proper c replies) (hclose : c'.HalfClose)
    (hstate : c'.state = .kConnected → c.state = .kConnected)
    (hmessages : TcpConnection.messages c'.log = TcpConnection.messages c.log) :
    Proper c' replies := by
  refine ⟨hclose, fun h => ?_, ?_⟩
  · rw [hmessages]
    exact hc.answers.connected (hstate h)
  · rw [hmessages]
    exact hc.answers.passed

theorem proper_onParsed {s : HttpConnection} (hs : Proper s.conn replies)
    (httpCallback : HttpCallback) (k : Kernel) (ok : Bool) (context : HttpContext) (buf : Buffer) :
    Proper (HttpServer.onParsed httpCallback s k ok context buf).conn
      (replies ++ repliesOf httpCallback ok context) := by
  have hbuf : Proper { s.conn with inputBuffer := buf } replies :=
    hs.of_passes (hs.halfClose.of_sameOutput ⟨rfl, rfl, rfl, .refl _⟩) id rfl
  have hrequest : ∀ c rs, Proper c rs → Proper
      (if context.gotAll then
        HttpServer.onRequest httpCallback ⟨c, s.served⟩ context.request k.response
      else ⟨c, s.served⟩).conn
      (rs ++ if context.gotAll then
        [.response (HttpServer.respond httpCallback context.request)] else []) := by
    intro c rs hc
    split
    · obtain ⟨before, hconn⟩ :=
        onRequest_conn httpCallback ⟨c, s.served⟩ context.request k.response
      rw [hconn]
      exact proper_deliver hc _ before k.response
    · rwa [List.append_nil]
  cases ok with
  | true => exact hrequest _ _ hbuf
  | false =>
    have hbad := proper_deliver hbuf .badRequest k.before k.badRequest
    rw [repliesOf, ← List.append_assoc]
    exact hrequest _ _ hbad

theorem proper_new (w : Bool) : Proper (new w).http.conn (new w).replies where
  halfClose := TcpConnection.halfClose_established w
  answers := ⟨fun _ => ⟨rfl, by simp [new]⟩, [], [], by simp, rfl, by simp, by simp, by simp⟩

theorem sameOutput_closeCallback (c : TcpConnection) :
    TcpConnection.SameOutput c (closeCallback c) :=
  ⟨rfl, rfl, rfl, (TcpConnection.Quiet.refl c).record rfl⟩

theorem messages_handleRead (c : TcpConnection) (delivered : Except Errno Bytes) :
    TcpConnection.messages (c.handleRead delivered id closeCallback).log =
      TcpConnection.messages c.log := by
  simp only [TcpConnection.handleRead, TcpConnection.handleClose]
  split_ifs <;> simp [closeCallback, TcpConnection.record, TcpConnection.setState,
    TcpConnection.messages]

theorem messages_handleWrite (c : TcpConnection) (result : Except Errno Nat) :
    TcpConnection.messages (c.handleWrite result).log = TcpConnection.messages c.log := by
  rcases c.handleWrite_cases result with
    ⟨-, h⟩ | ⟨-, -, h⟩ | ⟨k, -, -, -, h⟩ | ⟨k, -, -, -, h⟩
  · rw [h]
  · simp [h, TcpConnection.record, TcpConnection.messages]
  · simp [h, TcpConnection.wrote, TcpConnection.record, TcpConnection.messages]
  · obtain ⟨l, -, hdone⟩ := (c.wrote (k + 1)).writeDone_spec
    rw [h, hdone]
    split <;> simp [TcpConnection.wrote, TcpConnection.record, TcpConnection.messages]

theorem messages_handleClose (c : TcpConnection) :
    TcpConnection.messages (c.handleClose closeCallback).log = TcpConnection.messages c.log := by
  simp [closeCallback, TcpConnection.handleClose, TcpConnection.record, TcpConnection.setState,
    TcpConnection.messages]

theorem messages_connectDestroyed (c : TcpConnection) :
    TcpConnection.messages c.connectDestroyed.log = TcpConnection.messages c.log := by
  simp only [TcpConnection.connectDestroyed]
  split_ifs <;> simp [TcpConnection.record, TcpConnection.setState, TcpConnection.messages]

theorem proper_handleRead (hc : Proper c replies) (delivered : Except Errno Bytes) :
    Proper (c.handleRead delivered id closeCallback) replies := by
  apply hc.of_passes (hc.halfClose.handleRead delivered sameOutput_closeCallback) _
    (messages_handleRead c delivered)
  simp only [TcpConnection.handleRead, TcpConnection.handleClose]
  split_ifs <;> simp [closeCallback, TcpConnection.record, TcpConnection.setState]

theorem proper_handleWrite (hc : Proper c replies) (result : Except Errno Nat) :
    Proper (c.handleWrite result) replies := by
  apply hc.of_passes (hc.halfClose.handleWrite result) _ (messages_handleWrite c result)
  rw [TcpConnection.handleWrite_state]
  exact id

theorem proper_handleClose (hc : Proper c replies) :
    Proper (c.handleClose closeCallback) replies := by
  apply hc.of_passes (hc.halfClose.handleClose sameOutput_closeCallback) _
    (messages_handleClose c)
  simp [closeCallback, TcpConnection.handleClose, TcpConnection.record, TcpConnection.setState]

theorem proper_connectDestroyed (hc : Proper c replies) : Proper c.connectDestroyed replies := by
  apply hc.of_passes hc.halfClose.connectDestroyed _ (messages_connectDestroyed c)
  simp only [TcpConnection.connectDestroyed]
  split_ifs <;> simp [TcpConnection.record, TcpConnection.setState]

theorem onMessage_ok (d : Dialogue) (httpCallback : HttpCallback) (t : Timestamp)
    (k : Kernel) : ∃ p, HttpContext.new.parseRequest d.http.conn.inputBuffer t = .ok p ∧
      d.onMessage httpCallback t k =
        .ok ⟨HttpServer.onParsed httpCallback d.http k p.ok p.context p.buf,
          d.replies ++ repliesOf httpCallback p.ok p.context⟩ := by
  obtain ⟨ls, rest, hls, hrest, hpeek⟩ := exists_lines kCRLF_ne_nil
    d.http.conn.inputBuffer.peek
  obtain ⟨b, hp, -⟩ := HttpContext.parseRequest_eq HttpContext.ready_new hls hrest hpeek t
  exact ⟨_, hp, by rw [onMessage, hp]; rfl⟩

variable {d : Dialogue}

theorem step_proper (hd : Proper d.http.conn d.replies) (l : Label) :
    ∃ d', step d l = some d' ∧ Proper d'.http.conn d'.replies := by
  cases l with
  | handleRead delivered t k httpCallback =>
    have hread := proper_handleRead hd delivered
    match delivered with
    | .error e => exact ⟨_, rfl, hread⟩
    | .ok [] => exact ⟨_, rfl, hread⟩
    | .ok (b :: bs) =>
      obtain ⟨p, -, hmessage⟩ :=
        onMessage_ok (d.setConn (d.http.conn.handleRead (.ok (b :: bs)) id closeCallback))
          httpCallback t k
      exact ⟨_, by rw [step, hmessage]; rfl,
        proper_onParsed hread httpCallback k p.ok p.context p.buf⟩
  | handleWrite result => exact ⟨_, rfl, proper_handleWrite hd result⟩
  | handleClose => exact ⟨_, rfl, proper_handleClose hd⟩
  | connectDestroyed => exact ⟨_, rfl, proper_connectDestroyed hd⟩

theorem run_proper (hd : Proper d.http.conn d.replies) (ls : List Label) :
    ∃ d', run step d ls = some d' ∧ Proper d'.http.conn d'.replies := by
  induction ls generalizing d with
  | nil => exact ⟨d, rfl, hd⟩
  | cons l ls ih =>
    obtain ⟨m, hm, hproper⟩ := step_proper hd l
    obtain ⟨d', hrun, hd'⟩ := ih hproper
    exact ⟨d', run_cons.mpr ⟨m, hm, hrun⟩, hd'⟩

/-- In every order of callbacks, with every input and every result of the kernel, nothing follows
a closing reply. -/
theorem run_closesLast (writeCompleteCallback : Bool) (ls : List Label) :
    ∃ d, run step (new writeCompleteCallback) ls = some d ∧ d.ClosesLast := by
  obtain ⟨d, hrun, hd⟩ := run_proper (proper_new writeCompleteCallback) ls
  exact ⟨d, hrun, hd.answers.passed, hd.halfClose.count_le, hd.halfClose.last⟩

end Dialogue

end WebServer.Http
