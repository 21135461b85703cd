import WebServer.Http.Transcript

namespace WebServer.Http

open WebServer.Lib WebServer.Mymuduo

namespace Reply

/-- Nothing is sent behind the first reply that closes. -/
def sent : List Reply → List Reply
  | [] => []
  | r :: rs => r :: if r.closing then [] else sent rs

theorem sent_of_open {rs : List Reply} (h : ∀ r ∈ rs, r.closing = false) : sent rs = rs := by
  induction rs with
  | nil => rfl
  | cons r rs ih =>
    obtain ⟨hr, hrs⟩ := List.forall_mem_cons.mp h
    rw [sent, hr, if_neg Bool.false_ne_true, ih hrs]

theorem sent_append_of_closed {rs : List Reply} (h : ∃ r ∈ rs, r.closing = true)
    (ss : List Reply) : sent (rs ++ ss) = sent rs := by
  induction rs with
  | nil => simp at h
  | cons r rs ih =>
    rw [List.cons_append, sent, sent]
    split
    · rfl
    · next hopen =>
      rw [ih]
      simpa [hopen] using h

theorem sent_concat_of_open {rs : List Reply} (h : ∀ r ∈ rs, r.closing = false) (r : Reply) :
    sent (rs ++ [r]) = rs ++ [r] := by
  induction rs with
  | nil => simp [sent]
  | cons x rs ih =>
    obtain ⟨hx, hrs⟩ := List.forall_mem_cons.mp h
    rw [List.cons_append, sent, hx, if_neg Bool.false_ne_true, ih hrs]

theorem sent_prefix (rs ss : List Reply) : sent rs <+: sent (rs ++ ss) := by
  by_cases h : ∃ r ∈ rs, r.closing = true
  · rw [sent_append_of_closed h]
  · have hopen : ∀ r ∈ rs, r.closing = false := fun r hr =>
      Bool.eq_false_of_not_eq_true fun hclosing => h ⟨r, hr, hclosing⟩
    induction rs with
    | nil => exact List.nil_prefix
    | cons r rs ih =>
      obtain ⟨hr, hrs⟩ := List.forall_mem_cons.mp hopen
      rw [List.cons_append, sent, sent, hr, if_neg Bool.false_ne_true, if_neg Bool.false_ne_true]
      exact (List.prefix_cons_inj r).mpr (ih (by simpa [hr] using h) hrs)

end Reply

def Kernel.result (k : Kernel) : Reply → Except Errno Nat
  | .badRequest => k.badRequest
  | .response _ => k.response

/-- A direct write of the reply does not fail. -/
def Takes (c : TcpConnection) (r : Reply) (result : Except Errno Nat) : Prop :=
  TcpConnection.Fits r.bytes.length result ∧ (c.writesDirectly = true → result.isOk = true)

namespace Dialogue

def KernelTakes (d : Dialogue) : Label → Prop
  | .handleRead (.ok (b :: bs)) receiveTime k httpCallback =>
    ∀ r ∈ d.transcript.newReplies ⟨b :: bs, receiveTime, httpCallback⟩,
      Takes d.http.conn r (k.result r)
  | _ => True

instance (c : TcpConnection) (r : Reply) (result : Except Errno Nat) :
    Decidable (Takes c r result) := inferInstanceAs (Decidable (_ ∧ _))

instance (d : Dialogue) : (l : Label) → Decidable (KernelTakes d l)
  | .handleRead (.ok (_ :: _)) _ _ _ => inferInstanceAs (Decidable (∀ r ∈ _, Takes _ r _))
  | .handleRead (.ok []) _ _ _ => .isTrue trivial
  | .handleRead (.error _) _ _ _ => .isTrue trivial
  | .handleWrite _ => .isTrue trivial
  | .handleClose => .isTrue trivial
  | .connectDestroyed => .isTrue trivial

/-- What the connection has taken are the first bytes of what it should send: all of them, as long
as it is not disconnected. -/
structure Transmits (c : TcpConnection) (replies : List Reply) : Prop where
  stream : c.stream = (TcpConnection.messages c.log).flatten
  initial : TcpConnection.messages c.log <+: (Reply.sent replies).map Reply.bytes
  whole : c.state ≠ .kDisconnected →
    TcpConnection.messages c.log = (Reply.sent replies).map Reply.bytes
  connected : c.state = .kConnected → ∀ r ∈ replies, r.closing = false
  closed : c.state ≠ .kConnected → c.state ≠ .kDisconnected → ∃ r ∈ replies, r.closing = true

variable {c c' : TcpConnection} {replies : List Reply}

theorem transmits_new (w : Bool) : Transmits (new w).http.conn (new w).replies where
  stream := rfl
  initial := List.nil_prefix
  whole _ := rfl
  connected _ := by simp [new]
  closed h := absurd rfl h

theorem Transmits.of_sameOutput (hc : Transmits c replies) (hstate : c'.state = c.state)
    (hstream : c'.stream = c.stream)
    (hmessages : TcpConnection.messages c'.log = TcpConnection.messages c.log) :
    Transmits c' replies := by
  constructor
  · rw [hstream, hmessages, hc.stream]
  · rw [hmessages]
    exact hc.initial
  · rw [hstate, hmessages]
    exact hc.whole
  · rw [hstate]
    exact hc.connected
  · rw [hstate]
    exact hc.closed

theorem Transmits.disconnect (hc : Transmits c replies) (hstate : c'.state = .kDisconnected)
    (hstream : c'.stream = c.stream)
    (hmessages : TcpConnection.messages c'.log = TcpConnection.messages c.log) :
    Transmits c' replies where
  stream := by rw [hstream, hmessages, hc.stream]
  initial := by
    rw [hmessages]
    exact hc.initial
  whole h := absurd hstate h
  connected h := by simp [hstate] at h
  closed _ h := absurd hstate h

theorem Transmits.refused (hc : Transmits c replies) (hstate : c.state ≠ .kConnected)
    (rs : List Reply) : Transmits c (replies ++ rs) where
  stream := hc.stream
  initial := hc.initial.trans ((Reply.sent_prefix replies rs).map Reply.bytes)
  whole h := by rw [hc.whole h, Reply.sent_append_of_closed (hc.closed hstate h)]
  connected h := absurd h hstate
  closed h h' := by
    obtain ⟨r, hr, hclosing⟩ := hc.closed h h'
    exact ⟨r, List.mem_append_left rs hr, hclosing⟩

theorem shutdown_stream (c : TcpConnection) : c.shutdown.stream = c.stream := by
  simp only [TcpConnection.shutdown, TcpConnection.shutdownInLoop_spec]
  split_ifs <;> simp [TcpConnection.stream, TcpConnection.record, TcpConnection.setState,
    TcpConnection.kernelBytes, TcpConnection.taken]

theorem Transmits.deliver (hc : Transmits c replies) (r : Reply) (before : UInt8)
    {result : Except Errno Nat} (htakes : Takes c r result) :
    Transmits (deliver c r before result) (replies ++ [r]) := by
  by_cases hstate : c.state = .kConnected
  · have hopen := hc.connected hstate
    have hpasses := TcpConnection.send_passes hstate ⟨before, r.bytes⟩ result
    have hstream : (c.send ⟨before, r.bytes⟩ result).stream = c.stream ++ r.bytes :=
      TcpConnection.send_stream hstate htakes.1 htakes.2
    have hsent : (c.send ⟨before, r.bytes⟩ result).state = .kConnected :=
      hpasses.state.trans hstate
    have hwhole : TcpConnection.messages (c.send ⟨before, r.bytes⟩ result).log =
        (Reply.sent (replies ++ [r])).map Reply.bytes := by
      rw [hpasses.messages, hc.whole (by simp [hstate]), Reply.sent_of_open hopen,
        Reply.sent_concat_of_open hopen, List.map_append]
      rfl
    have hflatten : (c.send ⟨before, r.bytes⟩ result).stream =
        (TcpConnection.messages (c.send ⟨before, r.bytes⟩ result).log).flatten := by
      rw [hstream, hc.stream, hpasses.messages, List.flatten_append]
      simp
    simp only [Dialogue.deliver]
    split
    · next hclosing =>
      have hshut := TcpConnection.shutdown_state hsent
      constructor
      · rw [shutdown_stream, TcpConnection.shutdown_messages, hflatten]
      · rw [TcpConnection.shutdown_messages, hwhole]
      · intro _
        rw [TcpConnection.shutdown_messages, hwhole]
      · intro h
        simp [hshut] at h
      · exact fun _ _ => ⟨r, by simp, hclosing⟩
    · next hclosing =>
      refine ⟨hflatten, by rw [hwhole], fun _ => hwhole, fun _ x hx => ?_, fun h => ?_⟩
      · rcases List.mem_append.mp hx with hx | hx
        · exact hopen x hx
        · simpa [List.mem_singleton.mp hx] using hclosing
      · exact absurd hsent h
  · rw [deliver_eq hstate]
    exact hc.refused hstate [r]

theorem Transmits.handleClose (hc : Transmits c replies) :
    Transmits (c.handleClose closeCallback) replies := by
  refine hc.disconnect rfl ?_ (messages_handleClose c)
  simp [closeCallback, TcpConnection.handleClose, TcpConnection.record, TcpConnection.setState,
    TcpConnection.stream, TcpConnection.kernelBytes, TcpConnection.taken]

theorem Transmits.handleRead (hc : Transmits c replies) (delivered : Except Errno Bytes) :
    Transmits (c.handleRead delivered id closeCallback) replies := by
  have hinput : ∀ b, Transmits { c with inputBuffer := b } replies := fun b =>
    hc.of_sameOutput rfl rfl rfl
  simp only [TcpConnection.handleRead]
  split_ifs
  · refine (hinput (c.inputBuffer.readFd delivered).2).of_sameOutput rfl ?_ ?_ <;>
      simp [TcpConnection.record, TcpConnection.stream, TcpConnection.kernelBytes,
        TcpConnection.taken, TcpConnection.messages]
  · exact (hinput _).handleClose
  · exact hinput _

theorem Transmits.connectDestroyed (hc : Transmits c replies) :
    Transmits c.connectDestroyed replies := by
  have hstream := c.connectDestroyed_stream
  by_cases hstate : c.state = .kConnected
  · refine hc.disconnect ?_ hstream (messages_connectDestroyed c)
    simp [TcpConnection.connectDestroyed, TcpConnection.record, TcpConnection.setState, hstate]
  · refine hc.of_sameOutput ?_ hstream (messages_connectDestroyed c)
    simp [TcpConnection.connectDestroyed, TcpConnection.record, hstate]

theorem Transmits.handleWrite (hc : Transmits c replies) (result : Except Errno Nat) :
    Transmits (c.handleWrite result) replies :=
  hc.of_sameOutput (c.handleWrite_state result) (c.handleWrite_stream result)
    (messages_handleWrite c result)

theorem onParsed_deliver (httpCallback : HttpCallback) (s : HttpConnection) (k : Kernel) (ok : Bool)
    (context : HttpContext) (buf : Buffer) :
    ∃ before : Reply → UInt8, (HttpServer.onParsed httpCallback s k ok context buf).conn =
      (repliesOf httpCallback ok context).foldl (fun c r => deliver c r (before r) (k.result r))
        { s.conn with inputBuffer := buf } := by
  refine ⟨fun
    | .badRequest => k.before
    | .response r => (r.appendToBuffer (.new Buffer.kInitialSize)).beforePeek, ?_⟩
  have hrequest : ∀ c, (HttpServer.onRequest httpCallback ⟨c, s.served⟩ context.request
      k.response).conn = deliver c (.response (HttpServer.respond httpCallback context.request))
        ((HttpServer.respond httpCallback context.request).appendToBuffer
          (.new Buffer.kInitialSize)).beforePeek k.response := by
    intro c
    simp only [HttpServer.onRequest, TcpConnection.sendBuffer_fst,
      HttpResponse.peek_appendToBuffer, Buffer.peek_new, List.nil_append]
    rfl
  simp only [HttpServer.onParsed]
  cases ok <;> cases hgot : context.gotAll <;> simp [repliesOf, hgot, hrequest] <;> rfl

theorem deliver_badRequest_state (c : TcpConnection) (before : UInt8)
    (result : Except Errno Nat) : (deliver c .badRequest before result).state ≠ .kConnected :=
  TcpConnection.shutdown_state_ne _

theorem foldl_deliver_closed (hstate : c.state ≠ .kConnected) (before : Reply → UInt8) (k : Kernel)
    (rs : List Reply) : rs.foldl (fun c r => deliver c r (before r) (k.result r)) c = c := by
  induction rs with
  | nil => rfl
  | cons r rs ih => rw [List.foldl_cons, deliver_eq hstate, ih]

theorem Transmits.foldl_deliver (hc : Transmits c replies) (before : Reply → UInt8) (k : Kernel)
    (httpCallback : HttpCallback) (ok : Bool) (context : HttpContext)
    (htakes : ∀ r ∈ repliesOf httpCallback ok context, Takes c r (k.result r)) :
    Transmits
      ((repliesOf httpCallback ok context).foldl
        (fun c r => Dialogue.deliver c r (before r) (k.result r)) c)
      (replies ++ repliesOf httpCallback ok context) := by
  cases hreplies : repliesOf httpCallback ok context with
  | nil => rwa [List.append_nil]
  | cons r rs =>
    have hfirst := hc.deliver r (before r) (htakes r (by simp [hreplies]))
    cases rs with
    | nil => exact hfirst
    | cons r' rs =>
      -- only a rejection has anything behind it, and it closes
      obtain ⟨rfl, -⟩ : r = .badRequest ∧ rs = [] := by
        simp only [repliesOf] at hreplies
        split at hreplies <;> split at hreplies <;> simp_all
      have hclosed := deliver_badRequest_state c (before .badRequest) (k.result .badRequest)
      rw [List.foldl_cons, foldl_deliver_closed hclosed, ← List.singleton_append,
        ← List.append_assoc]
      exact hfirst.refused hclosed _

variable {d : Dialogue}

theorem step_handleRead (d : Dialogue) (b : UInt8) (bs : Bytes) (t : Timestamp) (k : Kernel)
    (httpCallback : HttpCallback) :
    ∃ (d' : Dialogue) (before : Reply → UInt8) (buf : Buffer),
      step d (.handleRead (.ok (b :: bs)) t k httpCallback) = some d' ∧
      d'.replies = d.replies ++ d.transcript.newReplies ⟨b :: bs, t, httpCallback⟩ ∧
      d'.http.conn = (d.transcript.newReplies ⟨b :: bs, t, httpCallback⟩).foldl
        (fun c r => deliver c r (before r) (k.result r))
        { d.http.conn.handleRead (.ok (b :: bs)) id closeCallback with inputBuffer := buf } := by
  obtain ⟨buf, -, hmessage⟩ := onMessage_reading
    (d.setConn (d.http.conn.handleRead (.ok (b :: bs)) id closeCallback))
    ⟨b :: bs, t, httpCallback⟩ k (a := d.transcript) (peek_handleRead _ _)
  obtain ⟨before, hconn⟩ := onParsed_deliver httpCallback
    (d.setConn (d.http.conn.handleRead (.ok (b :: bs)) id closeCallback)).http k
    (d.transcript.reading ⟨b :: bs, t, httpCallback⟩).ok
    (d.transcript.reading ⟨b :: bs, t, httpCallback⟩).context buf
  exact ⟨_, before, buf, by rw [step, hmessage]; rfl, rfl, hconn⟩

theorem writesDirectly_handleRead (c : TcpConnection) (b : UInt8) (bs : Bytes) (buf : Buffer) :
    TcpConnection.writesDirectly
        { c.handleRead (.ok (b :: bs)) id closeCallback with inputBuffer := buf } =
      c.writesDirectly := by
  simp [TcpConnection.handleRead, TcpConnection.record, TcpConnection.writesDirectly]

theorem step_transmits (hd : Transmits d.http.conn d.replies) (l : Label)
    (hl : KernelTakes d l) :
    ∃ d', step d l = some d' ∧ Transmits d'.http.conn d'.replies := by
  cases l with
  | handleRead delivered t k httpCallback =>
    have hread := hd.handleRead delivered
    match delivered with
    | .error e => exact ⟨_, rfl, hread⟩
    | .ok [] => exact ⟨_, rfl, hread⟩
    | .ok (b :: bs) =>
      obtain ⟨d', before, buf, hstep, hreplies, hconn⟩ := step_handleRead d b bs t k httpCallback
      refine ⟨d', hstep, ?_⟩
      rw [hreplies, hconn]
      have hbuf : Transmits
          { d.http.conn.handleRead (.ok (b :: bs)) id closeCallback with inputBuffer := buf }
          d.replies := hread.of_sameOutput rfl rfl rfl
      refine hbuf.foldl_deliver before k httpCallback _ _ fun r hr => ?_
      obtain ⟨hfit, hok⟩ := hl r hr
      exact ⟨hfit, fun h => hok ((writesDirectly_handleRead _ b bs buf).symm.trans h)⟩
  | handleWrite result => exact ⟨_, rfl, hd.handleWrite result⟩
  | handleClose => exact ⟨_, rfl, hd.handleClose⟩
  | connectDestroyed => exact ⟨_, rfl, hd.connectDestroyed⟩

/-- Whatever happens to the connection, what the kernel has taken and what waits in `outputBuffer_`
are the replies up to the first one that closes; on a disconnected one, the first of them. -/
theorem run_transmits (w : Bool) {ls : List Label} (hls : Along step KernelTakes (new w) ls) :
    ∃ d, run step (new w) ls = some d ∧ Transmits d.http.conn d.replies :=
  exists_run_along (I := fun d => Transmits d.http.conn d.replies)
    (fun hd l hl => step_transmits hd l hl) (transmits_new w) hls

end Dialogue

end WebServer.Http
