import WebServer.Http.ClosingResponse
import WebServer.Http.Pipelining
import WebServer.Mymuduo.Flushing

/-! What a connection makes of its input, without the connection: the requests it serves, the
replies it makes and the bytes it leaves unread are a function of what arrives. -/

namespace WebServer.Http

open WebServer.Lib WebServer.Mymuduo

structure Verdict where
  ok : Bool
  context : HttpContext
  unread : Bytes

/-- `parseRequest` on a text that is in no buffer. -/
def readText (receiveTime : Timestamp) : Nat → HttpContext → Bytes → Verdict
  | 0, c, s => ⟨true, c, s⟩
  | fuel + 1, c, s =>
    match takeLine Buffer.kCRLF s with
    | none => ⟨true, c, s⟩
    | some (l, rest) =>
      match c.feed receiveTime l with
      | .more c => readText receiveTime fuel c rest
      | .reject c => ⟨false, c, s⟩
      | .done c => ⟨true, c, rest⟩

theorem readText_lines {ls : List Bytes} {rest : Bytes} {n : Nat} (hn : ls.length ≤ n)
    (hls : ∀ l ∈ ls, IsLine Buffer.kCRLF l) (hrest : Free Buffer.kCRLF rest) (t : Timestamp)
    (c : HttpContext) :
    readText t n c (joinLines Buffer.kCRLF ls ++ rest) =
      ⟨(HttpContext.parseLines t c ls).ok, (HttpContext.parseLines t c ls).context,
        joinLines Buffer.kCRLF (HttpContext.parseLines t c ls).rest ++ rest⟩ := by
  induction ls generalizing c n with
  | nil =>
    have hnone : takeLine Buffer.kCRLF rest = none := by
      rw [takeLine, search_eq_none_iff.mpr hrest, Option.map_none]
    cases n with
    | zero => rfl
    | succ n => simp only [readText, joinLines_nil, List.nil_append, hnone, HttpContext.parseLines]
  | cons l ls ih =>
    cases n with
    | zero => simp at hn
    | succ n =>
      have hline : takeLine Buffer.kCRLF (joinLines Buffer.kCRLF (l :: ls) ++ rest) =
          some (l, joinLines Buffer.kCRLF ls ++ rest) := by
        rw [joinLines_cons, List.append_assoc]
        exact takeLine_line kCRLF_ne_nil (hls l (by simp)) _
      simp only [readText, hline, HttpContext.parseLines]
      cases c.feed t l with
      | more c => exact ih (by simpa using hn) (fun x hx => hls x (by simp [hx])) c
      | reject c => rfl
      | done c => rfl

structure Arrived where
  chunk : Bytes
  time : Timestamp
  httpCallback : HttpCallback

/-- What arrives in a call; the answers of the kernel are not part of it. -/
def Dialogue.Label.arrived : Dialogue.Label → Option Arrived
  | .handleRead (.ok (b :: bs)) receiveTime _ httpCallback =>
    some ⟨b :: bs, receiveTime, httpCallback⟩
  | _ => none

structure Transcript where
  unread : Bytes
  served : List HttpRequest
  replies : List Reply

namespace Transcript

def empty : Transcript := ⟨[], [], []⟩

def reading (a : Transcript) (x : Arrived) : Verdict :=
  readText x.time (a.unread ++ x.chunk).length .new (a.unread ++ x.chunk)

def newReplies (a : Transcript) (x : Arrived) : List Reply :=
  Dialogue.repliesOf x.httpCallback (a.reading x).ok (a.reading x).context

def receive (a : Transcript) (x : Arrived) : Transcript :=
  let context := (a.reading x).context
  ⟨(a.reading x).unread, a.served ++ (if context.gotAll then [context.request] else []),
    a.replies ++ a.newReplies x⟩

end Transcript

namespace Dialogue

def transcript (d : Dialogue) : Transcript :=
  ⟨d.http.conn.inputBuffer.peek, d.http.served, d.replies⟩

variable {d : Dialogue}

theorem transcript_setConn (d : Dialogue) {c : TcpConnection}
    (h : c.inputBuffer.peek = d.http.conn.inputBuffer.peek) :
    (d.setConn c).transcript = d.transcript := by
  simp only [transcript, setConn, h]

theorem onMessage_reading (d : Dialogue) (x : Arrived) (k : Kernel) {a : Transcript}
    (hpeek : d.http.conn.inputBuffer.peek = a.unread ++ x.chunk) :
    ∃ b, b.peek = (a.reading x).unread ∧
      d.onMessage x.httpCallback x.time k = .ok
        ⟨HttpServer.onParsed x.httpCallback d.http k (a.reading x).ok (a.reading x).context b,
          d.replies ++ a.newReplies x⟩ := by
  obtain ⟨ls, rest, hls, hrest, htext⟩ := exists_lines kCRLF_ne_nil (a.unread ++ x.chunk)
  obtain ⟨b, hparse, hb⟩ := HttpContext.parseRequest_eq HttpContext.ready_new hls hrest
    (hpeek.trans htext) x.time
  have hlen : ls.length ≤ (joinLines Buffer.kCRLF ls ++ rest).length := by
    have := length_le_joinLines kCRLF_ne_nil ls
    rw [List.length_append]
    omega
  rw [Transcript.newReplies, Transcript.reading, htext, readText_lines hlen hls hrest]
  exact ⟨b, hb, by rw [onMessage, hparse]; rfl⟩

theorem transcript_onMessage (d : Dialogue) (x : Arrived) (k : Kernel) {a : Transcript}
    (hpeek : d.http.conn.inputBuffer.peek = a.unread ++ x.chunk)
    (hserved : d.http.served = a.served) (hreplies : d.replies = a.replies) :
    ∃ d', d.onMessage x.httpCallback x.time k = .ok d' ∧ d'.transcript = a.receive x := by
  obtain ⟨b, hb, hmessage⟩ := onMessage_reading d x k hpeek
  refine ⟨_, hmessage, ?_⟩
  simp only [transcript, Transcript.receive, HttpServer.onParsed_inputBuffer,
    HttpServer.onParsed_served, hb, hserved, hreplies]

theorem peek_handleRead (c : TcpConnection) (delivered : Except Errno Bytes) :
    (c.handleRead delivered id closeCallback).inputBuffer.peek =
      c.inputBuffer.peek ++ delivered.toOption.getD [] := by
  have hkept : (c.handleRead delivered id closeCallback).inputBuffer =
      (c.inputBuffer.readFd delivered).2 := by
    simp only [TcpConnection.handleRead, TcpConnection.handleClose, closeCallback]
    split_ifs <;> rfl
  rw [hkept]
  cases delivered with
  | error e => exact (List.append_nil _).symm
  | ok data => exact Buffer.peek_readFd_ok c.inputBuffer data

theorem step_transcript (d : Dialogue) (l : Label) :
    ∃ d', step d l = some d' ∧
      d'.transcript = l.arrived.elim d.transcript d.transcript.receive := by
  cases l with
  | handleRead delivered t k httpCallback =>
    have hpeek := peek_handleRead d.http.conn delivered
    match delivered with
    | .error e => exact ⟨_, rfl, transcript_setConn d (hpeek.trans (List.append_nil _))⟩
    | .ok [] => exact ⟨_, rfl, transcript_setConn d (hpeek.trans (List.append_nil _))⟩
    | .ok (b :: bs) =>
      obtain ⟨d', hmessage, htranscript⟩ := transcript_onMessage
        (d.setConn (d.http.conn.handleRead (.ok (b :: bs)) id closeCallback))
        ⟨b :: bs, t, httpCallback⟩ k (a := d.transcript) hpeek rfl rfl
      exact ⟨d', by rw [step, hmessage]; rfl, htranscript⟩
  | handleWrite result =>
    exact ⟨_, rfl, transcript_setConn d (by rw [TcpConnection.inputBuffer_handleWrite])⟩
  | handleClose => exact ⟨_, rfl, transcript_setConn d rfl⟩
  | connectDestroyed =>
    exact ⟨_, rfl, transcript_setConn d (by rw [TcpConnection.inputBuffer_connectDestroyed])⟩

theorem run_transcript_from (d : Dialogue) (ls : List Label) :
    ∃ d', run step d ls = some d' ∧
      d'.transcript = (ls.filterMap Label.arrived).foldl Transcript.receive d.transcript := by
  induction ls generalizing d with
  | nil => exact ⟨d, rfl, rfl⟩
  | cons l ls ih =>
    obtain ⟨m, hm, hstep⟩ := step_transcript d l
    obtain ⟨d', hrun, hd'⟩ := ih m
    refine ⟨d', run_cons.mpr ⟨m, hm, hrun⟩, ?_⟩
    rw [hd', hstep]
    cases h : l.arrived with
    | none => rw [List.filterMap_cons_none h, Option.elim_none]
    | some x => rw [List.filterMap_cons_some h, Option.elim_some, List.foldl_cons]

/-- Nothing but what arrives decides which requests are served, which replies are made and what
stays unread: neither the results of the writes, nor the callbacks in between. -/
theorem run_transcript (writeCompleteCallback : Bool) (ls : List Label) :
    ∃ d, run step (new writeCompleteCallback) ls = some d ∧
      d.transcript = (ls.filterMap Label.arrived).foldl Transcript.receive .empty :=
  run_transcript_from (new writeCompleteCallback) ls

end Dialogue

/-- One read that ends where a request ends. -/
structure Batch where
  first : RequestText
  others : List RequestText
  time : Timestamp
  httpCallback : HttpCallback

namespace Batch

def texts (x : Batch) : List RequestText := x.first :: x.others

def arrived (x : Batch) : Arrived :=
  ⟨(x.texts.map RequestText.text).flatten, x.time, x.httpCallback⟩

def request (q : RequestText) (x : Batch) : HttpRequest := q.request x.time

def reply (q : RequestText) (x : Batch) : Reply :=
  .response (HttpServer.respond x.httpCallback (q.request x.time))

end Batch

namespace Transcript

theorem readText_texts (q : RequestText) (qs : List RequestText) (t : Timestamp) {n : Nat}
    (hn : ((q :: qs).map RequestText.text).flatten.length ≤ n) :
    readText t n .new ((q :: qs).map RequestText.text).flatten =
      ⟨true, ⟨.kGotAll, q.request t⟩, (qs.map RequestText.text).flatten⟩ := by
  have hls : ∀ l ∈ ((q :: qs).map RequestText.lines).flatten, IsLine Buffer.kCRLF l := by
    intro l hl
    obtain ⟨ls, hls, hmem⟩ := List.mem_flatten.mp hl
    obtain ⟨q, -, rfl⟩ := List.mem_map.mp hls
    exact q.lines_isLine l hmem
  rw [HttpServer.flatten_texts] at hn ⊢
  have hlen := (length_le_joinLines kCRLF_ne_nil _).trans hn
  have hfree : Free Buffer.kCRLF [] := by decide
  have hread := readText_lines hlen hls hfree t .new
  rw [List.append_nil] at hread
  rw [hread, List.map_cons, List.flatten_cons, q.parseLines_lines, HttpServer.flatten_texts,
    List.append_nil]

theorem receive_batch (pending : List RequestText) (served : List HttpRequest)
    (replies : List Reply) (x : Batch) {q : RequestText} {rest : List RequestText}
    (hq : pending ++ x.texts = q :: rest) :
    receive ⟨(pending.map RequestText.text).flatten, served, replies⟩ x.arrived =
      ⟨(rest.map RequestText.text).flatten, served ++ [x.request q], replies ++ [x.reply q]⟩ := by
  have htext : (pending.map RequestText.text).flatten ++ x.arrived.chunk =
      ((q :: rest).map RequestText.text).flatten := by
    rw [← hq, List.map_append, List.flatten_append]
    rfl
  simp only [receive, newReplies, reading, htext,
    readText_texts q rest x.arrived.time (Nat.le_refl _)]
  rfl

theorem foldl_receive_batches (pending : List RequestText) (served : List HttpRequest)
    (replies : List Reply) (xs : List Batch) :
    (xs.map Batch.arrived).foldl receive
        ⟨(pending.map RequestText.text).flatten, served, replies⟩ =
      ⟨(((pending ++ xs.flatMap Batch.texts).drop xs.length).map RequestText.text).flatten,
        served ++ List.zipWith (fun q x => Batch.request q x)
          (pending ++ xs.flatMap Batch.texts) xs,
        replies ++ List.zipWith (fun q x => Batch.reply q x)
          (pending ++ xs.flatMap Batch.texts) xs⟩ := by
  induction xs generalizing pending served replies with
  | nil => simp
  | cons x xs ih =>
    obtain ⟨q, rest, hq⟩ : ∃ q rest, pending ++ x.texts = q :: rest := by
      cases pending with
      | nil => exact ⟨_, _, rfl⟩
      | cons p pending => exact ⟨_, _, rfl⟩
    have hall : pending ++ (x :: xs).flatMap Batch.texts =
        q :: (rest ++ xs.flatMap Batch.texts) := by
      rw [List.flatMap_cons, ← List.append_assoc, hq, List.cons_append]
    rw [List.map_cons, List.foldl_cons, receive_batch pending served replies x hq, ih, hall]
    simp

end Transcript

theorem Dialogue.transcript_batches {writeCompleteCallback : Bool} {ls : List Dialogue.Label}
    {xs : List Batch} (h : ls.filterMap Dialogue.Label.arrived = xs.map Batch.arrived)
    {d : Dialogue} (hrun : run Dialogue.step (.new writeCompleteCallback) ls = some d) :
    d.transcript = ⟨(((xs.flatMap Batch.texts).drop xs.length).map RequestText.text).flatten,
      List.zipWith (fun q x => Batch.request q x) (xs.flatMap Batch.texts) xs,
      List.zipWith (fun q x => Batch.reply q x) (xs.flatMap Batch.texts) xs⟩ := by
  obtain ⟨d', hrun', hd⟩ := Dialogue.run_transcript_from (.new writeCompleteCallback) ls
  obtain rfl : d = d' := Option.some.inj (hrun.symm.trans hrun')
  have hstart : (Dialogue.new writeCompleteCallback).transcript =
      ⟨(([] : List RequestText).map RequestText.text).flatten, [], []⟩ := rfl
  rw [hd, h, hstart, Transcript.foldl_receive_batches]
  simp only [List.nil_append]

/-- When every read ends where a request ends, each read serves one request: the first ones of
those that were sent, in their order, and the others stay in the buffer. -/
theorem Dialogue.run_batches (writeCompleteCallback : Bool) {ls : List Dialogue.Label}
    {xs : List Batch} (h : ls.filterMap Dialogue.Label.arrived = xs.map Batch.arrived) :
    ∃ d, run Dialogue.step (.new writeCompleteCallback) ls = some d ∧
      d.http.served = List.zipWith (fun q x => Batch.request q x) (xs.flatMap Batch.texts) xs ∧
      d.replies = List.zipWith (fun q x => Batch.reply q x) (xs.flatMap Batch.texts) xs ∧
      d.http.conn.inputBuffer.peek =
        (((xs.flatMap Batch.texts).drop xs.length).map RequestText.text).flatten := by
  obtain ⟨d, hrun, -⟩ := Dialogue.run_transcript_from (.new writeCompleteCallback) ls
  have hd := Dialogue.transcript_batches h hrun
  exact ⟨d, hrun, congrArg Transcript.served hd, congrArg Transcript.replies hd,
    congrArg Transcript.unread hd⟩

def Batch.twoReads : List Batch :=
  [⟨HttpServer.getRoot, [HttpServer.getRoot], .invalid, HttpServer.defaultHttpCallback⟩,
    ⟨HttpServer.getRoot, [], .invalid, HttpServer.defaultHttpCallback⟩]

theorem Dialogue.run_batches_twoReads :
    ∃ d, run Dialogue.step (.new false)
        (Batch.twoReads.map fun x => .handleRead (.ok x.arrived.chunk) x.time ⟨.ok 0, .ok 0, 0⟩
          x.httpCallback) = some d ∧
      d.http.served = List.zipWith (fun q x => Batch.request q x)
        (Batch.twoReads.flatMap Batch.texts) Batch.twoReads ∧
      d.replies = List.zipWith (fun q x => Batch.reply q x)
        (Batch.twoReads.flatMap Batch.texts) Batch.twoReads ∧
      d.http.conn.inputBuffer.peek = (((Batch.twoReads.flatMap Batch.texts).drop
        Batch.twoReads.length).map RequestText.text).flatten :=
  Dialogue.run_batches false rfl

end WebServer.Http
