import WebServer.Http.Grammar
import WebServer.Http.HttpResponse
import WebServer.Mymuduo.TcpConnection

namespace WebServer.Http

open WebServer.Lib WebServer.Mymuduo

/-- What `httpCallback_` makes of a request and the response prepared for it. -/
abbrev HttpCallback := HttpRequest → HttpResponse → HttpResponse

/-- A connection, with the requests for which `httpCallback_` was called. -/
structure HttpConnection where
  conn : TcpConnection
  served : List HttpRequest

/-- What the surroundings decide in one call of `onMessage`: the results of its two possible
writes, and the byte in front of the string that is made of the literal. -/
structure Kernel where
  badRequest : Except Errno Nat
  response : Except Errno Nat
  before : UInt8

namespace HttpServer

def badRequest : Bytes := ascii "HTTP/1.1 400 Bad Request\r\n\r\n"

def defaultHttpCallback : HttpCallback := fun _ resp =>
  ((resp.setStatusCode .k404NotFound).setStatusMessage (ascii "Not Found")).setCloseConnection true

def close (req : HttpRequest) : Bool :=
  let connection := req.getHeader (ascii "Connection")
  connection = ascii "close" ||
    (req.version = .kHttp10 && connection ≠ ascii "Keep-Alive")

def respond (httpCallback : HttpCallback) (req : HttpRequest) : HttpResponse :=
  httpCallback req (.new (close req))

def onRequest (httpCallback : HttpCallback) (s : HttpConnection) (req : HttpRequest)
    (result : Except Errno Nat) : HttpConnection :=
  let response := respond httpCallback req
  let buf := response.appendToBuffer (.new Buffer.kInitialSize)
  let (conn, _) := s.conn.sendBuffer buf result
  let conn := if response.closeConnection then conn.shutdown else conn
  ⟨conn, s.served ++ [req]⟩

/-- `onMessage` behind the call of `parseRequest`. -/
def onParsed (httpCallback : HttpCallback) (s : HttpConnection) (k : Kernel) (ok : Bool)
    (context : HttpContext) (buf : Buffer) : HttpConnection :=
  let conn := { s.conn with inputBuffer := buf }
  let conn := if !ok then (conn.send ⟨k.before, badRequest⟩ k.badRequest).shutdown else conn
  let s := { s with conn := conn }
  if context.gotAll then onRequest httpCallback s context.request k.response else s

/-- `onMessage` on the input buffer of the connection.  The context is a new one in each call. -/
def onMessage (httpCallback : HttpCallback) (s : HttpConnection) (receiveTime : Timestamp)
    (k : Kernel) : Except Fault HttpConnection :=
  (HttpContext.new.parseRequest s.conn.inputBuffer receiveTime).map fun p =>
    onParsed httpCallback s k p.ok p.context p.buf

def receive (s : HttpConnection) (chunk : Bytes) : HttpConnection :=
  { s with conn := { s.conn with inputBuffer := s.conn.inputBuffer.append chunk } }

structure Arrival where
  chunk : Bytes
  time : Timestamp
  kernel : Kernel

def arrival (text : String) : Arrival := ⟨ascii text, .invalid, ⟨.ok 0, .ok 0, 0⟩⟩

def passed (s : HttpConnection) : List Bytes := TcpConnection.messages s.conn.log

variable (httpCallback : HttpCallback) {s : HttpConnection}

/-- A response never looks like the rejection: its `Connection` line has a `C`. -/
theorem bytes_ne_badRequest (r : HttpResponse) : r.bytes ≠ badRequest := by
  have hline : (67 : UInt8) ∈ r.connectionLines := by
    simp only [HttpResponse.connectionLines]
    split
    · decide
    · exact List.mem_append_right _ (by decide)
  have hmem : (67 : UInt8) ∈ r.bytes := by simp [HttpResponse.bytes, hline]
  intro h
  rw [h] at hmem
  exact absurd hmem (by decide)

theorem onRequest_spec (h : s.conn.state = .kConnected) (req : HttpRequest)
    (result : Except Errno Nat) :
    (onRequest httpCallback s req result).served = s.served ++ [req] ∧
      (onRequest httpCallback s req result).conn.inputBuffer = s.conn.inputBuffer ∧
      passed (onRequest httpCallback s req result) =
        passed s ++ [(respond httpCallback req).bytes] := by
  have hpasses := TcpConnection.sendBuffer_passes h
    ((respond httpCallback req).appendToBuffer (.new Buffer.kInitialSize)) result
  refine ⟨rfl, ?_, ?_⟩
  · simp only [onRequest]
    split
    · rw [TcpConnection.shutdown_inputBuffer, hpasses.inputBuffer]
    · exact hpasses.inputBuffer
  · simp only [onRequest, passed]
    rw [← List.nil_append (respond httpCallback req).bytes, ← Buffer.peek_new Buffer.kInitialSize,
      ← HttpResponse.peek_appendToBuffer]
    split
    · rw [TcpConnection.shutdown_messages, hpasses.messages]
    · exact hpasses.messages

theorem onRequest_conn (h : s.conn.state ≠ .kConnected) (req : HttpRequest)
    (result : Except Errno Nat) : (onRequest httpCallback s req result).conn = s.conn := by
  simp [onRequest, TcpConnection.sendBuffer, TcpConnection.shutdown, h]

theorem onParsed_conn (h : s.conn.state ≠ .kConnected) (k : Kernel) (ok : Bool)
    (context : HttpContext) (buf : Buffer) :
    (onParsed httpCallback s k ok context buf).conn = { s.conn with inputBuffer := buf } := by
  have hsend : ∀ r : Except Errno Nat,
      ({ s.conn with inputBuffer := buf }.send ⟨k.before, badRequest⟩ r).shutdown =
        { s.conn with inputBuffer := buf } := by
    simp [TcpConnection.send, TcpConnection.shutdown, h]
  simp only [onParsed, hsend, ite_self]
  split
  · exact onRequest_conn httpCallback (s := ⟨{ s.conn with inputBuffer := buf }, s.served⟩) h _ _
  · rfl

theorem onRequest_inputBuffer (s : HttpConnection) (req : HttpRequest)
    (result : Except Errno Nat) :
    (onRequest httpCallback s req result).conn.inputBuffer = s.conn.inputBuffer := by
  simp only [onRequest, TcpConnection.sendBuffer_fst]
  split
  · rw [TcpConnection.shutdown_inputBuffer, TcpConnection.send_inputBuffer]
  · rw [TcpConnection.send_inputBuffer]

theorem onParsed_inputBuffer (s : HttpConnection) (k : Kernel) (ok : Bool)
    (context : HttpContext) (buf : Buffer) :
    (onParsed httpCallback s k ok context buf).conn.inputBuffer = buf := by
  simp only [onParsed]
  split_ifs
  · rw [onRequest_inputBuffer, TcpConnection.shutdown_inputBuffer, TcpConnection.send_inputBuffer]
  · rw [onRequest_inputBuffer]
  · rw [TcpConnection.shutdown_inputBuffer, TcpConnection.send_inputBuffer]
  · rfl

theorem onParsed_served (s : HttpConnection) (k : Kernel) (ok : Bool) (context : HttpContext)
    (buf : Buffer) : (onParsed httpCallback s k ok context buf).served =
      s.served ++ if context.gotAll then [context.request] else [] := by
  simp only [onParsed]
  split_ifs <;> simp [onRequest]

theorem onMessage_eq {ls : List Bytes} {rest : Bytes} (hls : ∀ l ∈ ls, IsLine Buffer.kCRLF l)
    (hrest : Free Buffer.kCRLF rest)
    (hpeek : s.conn.inputBuffer.peek = joinLines Buffer.kCRLF ls ++ rest) (t : Timestamp)
    (k : Kernel) :
    ∃ b, b.peek = joinLines Buffer.kCRLF (HttpContext.parseLines t .new ls).rest ++ rest ∧
      onMessage httpCallback s t k = .ok (onParsed httpCallback s k
        (HttpContext.parseLines t .new ls).ok (HttpContext.parseLines t .new ls).context b) := by
  obtain ⟨b, hp, hb⟩ := HttpContext.parseRequest_eq HttpContext.ready_new hls hrest hpeek t
  exact ⟨b, hb, by rw [onMessage, hp]; rfl⟩

end HttpServer

end WebServer.Http
