import WebServer.Http.HttpServer
import WebServer.Http.ResponseFraming
import WebServer.Lib.Run

namespace WebServer.Http

open WebServer.Lib WebServer.Mymuduo HttpServer

/-- A request as its client means it, with the body that `Content-Length` announces. -/
structure FramedRequest where
  head : RequestText
  body : Bytes
  announced : body = [] ∨ (head.line.method = .kPost ∨ head.line.method = .kPut) ∧
    (kContentLength, HttpResponse.decimal body.length) ∈ head.headers

namespace FramedRequest

def text (q : FramedRequest) : Bytes := q.head.text ++ q.body

def wire (qs : List FramedRequest) : Bytes := (qs.map text).flatten

def isStart : List FramedRequest → Nat → Bool
  | [], _ => false
  | q :: qs, k => k = 0 || q.text.length ≤ k && isStart qs (k - q.text.length)

def isBody : List FramedRequest → Nat → Bool
  | [], _ => false
  | q :: qs, k =>
    if k < q.text.length then q.head.text.length ≤ k else isBody qs (k - q.text.length)

theorem text_pos (q : FramedRequest) : 0 < q.head.text.length := by
  simp only [RequestText.text, RequestText.lines, List.cons_append, joinLines_cons,
    List.length_append, Buffer.kCRLF, List.length_cons]
  omega

theorem wire_append (qs rs : List FramedRequest) : wire (qs ++ rs) = wire qs ++ wire rs := by
  simp [wire]

theorem wire_cons (q : FramedRequest) (qs : List FramedRequest) :
    wire (q :: qs) = q.head.text ++ (q.body ++ wire qs) := by
  simp [wire, text]

theorem isStart_append (done qs : List FramedRequest) (k : Nat) :
    isStart (done ++ qs) ((wire done).length + k) = isStart qs k := by
  induction done with
  | nil => simp [wire]
  | cons q done ih =>
    have hpos := q.text_pos
    have hcut : (wire (q :: done)).length + k = q.text.length + ((wire done).length + k) := by
      simp [wire, Nat.add_assoc]
    have hne : q.text.length + ((wire done).length + k) ≠ 0 := by
      simp only [text, List.length_append]
      omega
    rw [hcut, List.cons_append, isStart, Nat.add_sub_cancel_left, ih, decide_eq_false hne,
      decide_eq_true (Nat.le_add_right _ _), Bool.false_or, Bool.true_and]

theorem isBody_append (done qs : List FramedRequest) (k : Nat) :
    isBody (done ++ qs) ((wire done).length + k) = isBody qs k := by
  induction done with
  | nil => simp [wire]
  | cons q done ih =>
    have hcut : (wire (q :: done)).length + k = q.text.length + ((wire done).length + k) := by
      simp [wire, Nat.add_assoc]
    rw [hcut, List.cons_append, isBody, Nat.add_sub_cancel_left, ih, if_neg (by omega)]

variable {q : FramedRequest} {qs : List FramedRequest} {k : Nat}

theorem isStart_inside (hpos : 0 < k) (hk : k < q.text.length) : isStart (q :: qs) k = false := by
  simp only [isStart]
  simp
  omega

theorem isBody_head (hk : k < q.head.text.length) : isBody (q :: qs) k = false := by
  have htext : k < q.text.length := by
    simp only [text, List.length_append]
    omega
  rw [isBody, if_pos htext]
  simpa using hk

theorem isBody_of_head {done more : List FramedRequest} {j : Nat} (hle : (wire done).length ≤ j)
    (hlt : j < (wire done).length + q.head.text.length) :
    isBody (done ++ q :: more) j = false := by
  obtain ⟨k, rfl⟩ := Nat.exists_eq_add_of_le hle
  rw [isBody_append]
  exact isBody_head (by omega)

theorem isBody_body (hbody : q.body ≠ []) : isBody (q :: qs) q.head.text.length = true := by
  have hpos := List.length_pos_iff.mpr hbody
  have htext : q.head.text.length < q.text.length := by
    simp only [text, List.length_append]
    omega
  rw [isBody, if_pos htext]
  simp

end FramedRequest

/-- What one call of `parseRequest` has read as a request line or as headers, and whether it has
accepted a request line. -/
structure Reading where
  start : Nat
  stop : Nat
  accepted : Bool

/-- A connection, with the place in the stream up to which its input was retrieved. -/
structure Reader where
  http : HttpConnection
  offset : Nat
  readings : List Reading

namespace Reader

def new (c : TcpConnection) : Reader := ⟨⟨c, []⟩, 0, []⟩

/-- The line that `processRequestLine` has refused is not retrieved. -/
def refused (p : HttpContext.Parse) : Nat :=
  if p.ok then 0 else (p.buf.findCRLF.map (· + 2)).getD 0

def step (httpCallback : HttpCallback) (f : Reader) (a : Arrival) : Option Reader :=
  let s := HttpServer.receive f.http a.chunk
  match HttpContext.new.parseRequest s.conn.inputBuffer a.time with
  | .ok p =>
    let offset := f.offset + (s.conn.inputBuffer.readableBytes - p.buf.readableBytes)
    some {
      http := HttpServer.onParsed httpCallback s a.kernel p.ok p.context p.buf
      offset := offset
      readings := f.readings ++
        [⟨f.offset, offset + refused p, p.context.state ≠ .kExpectRequestLine⟩] }
  | .error _ => none

def accepts (l : Bytes) : Bool :=
  match HttpContext.processRequestLine .new l with
  | .ok (ok, _) => ok
  | .error _ => false

def firstLine (f : Reader) (a : Arrival) : Option Bytes :=
  (takeLine Buffer.kCRLF (f.http.conn.inputBuffer.peek ++ a.chunk)).map Prod.fst

/-- The server reads the stream as the client means it: no byte of a body is read as a request line
or a header, requests are read from where they begin, and `httpCallback_` is called for the requests
of the client, in order. -/
structure Respects (qs : List FramedRequest) (f : Reader) : Prop where
  body : ∀ r ∈ f.readings, ∀ k, r.start ≤ k → k < r.stop → FramedRequest.isBody qs k = false
  start : ∀ r ∈ f.readings, r.accepted = true → FramedRequest.isStart qs r.start = true
  served : f.http.served.map (·.setReceiveTime .invalid) <+:
    qs.map fun q => q.head.request .invalid

/-- A complete line at the front of the input begins a request, or it is no part of a body and
`processRequestLine` refuses it. -/
def InFrame (qs : List FramedRequest) (f : Reader) (a : Arrival) : Prop :=
  ∀ l ∈ f.firstLine a, FramedRequest.isStart qs f.offset = true ∨
    FramedRequest.isBody qs f.offset = false ∧ accepts l = false

instance (qs : List FramedRequest) (f : Reader) (a : Arrival) : Decidable (InFrame qs f a) :=
  inferInstanceAs (Decidable (∀ l ∈ f.firstLine a, _))

/-- The places in the stream apart, this is `onMessage` of `HttpServer`. -/
theorem step_http (httpCallback : HttpCallback) (f : Reader) (a : Arrival) :
    (step httpCallback f a).map Reader.http =
      (HttpServer.onMessage httpCallback (HttpServer.receive f.http a.chunk) a.time
        a.kernel).toOption := by
  rw [step, HttpServer.onMessage]
  cases HttpContext.new.parseRequest (HttpServer.receive f.http a.chunk).conn.inputBuffer a.time <;>
    rfl

variable {f g : Reader} {a : Arrival} {ms : List Bytes} {m rest : Bytes}

def input (f : Reader) (a : Arrival) : Bytes := f.http.conn.inputBuffer.peek ++ a.chunk

theorem accepts_iff {l : Bytes} : accepts l = true ↔ ∃ line : RequestLine, l = line.text := by
  rcases RequestLine.processRequestLine_cases (r := .new) rfl l with
    ⟨line, hl, hline⟩ | ⟨hnone, r, hline⟩
  · exact iff_of_true (by simp only [accepts, hline]) ⟨line, hl⟩
  · exact iff_of_false (by simp [accepts, hline]) hnone

theorem parseLines_refused (h : accepts m = false) (t : Timestamp) (ms : List Bytes) :
    ∃ r, HttpContext.parseLines t .new (m :: ms) = ⟨false, ⟨.kExpectRequestLine, r⟩, m :: ms⟩ :=
  HttpContext.parseLines_rejected (by rw [← accepts_iff, h]; exact Bool.false_ne_true) t ms

theorem parseLines_headers (t : Timestamp) (r : HttpRequest) (ms : List Bytes) :
    (HttpContext.parseLines t ⟨.kExpectHeaders, r⟩ ms).ok = true ∧
      (HttpContext.parseLines t ⟨.kExpectHeaders, r⟩ ms).context.state ≠ .kExpectRequestLine ∧
      (HttpContext.parseLines t ⟨.kExpectHeaders, r⟩ ms).rest <:+ ms := by
  induction ms generalizing r with
  | nil => exact ⟨rfl, by simp [HttpContext.parseLines], List.suffix_rfl⟩
  | cons m ms ih =>
    by_cases hcolon : kColon ∈ m
    · simp only [HttpContext.parseLines, HttpContext.feed, if_pos hcolon]
      obtain ⟨hok, hstate, hrest⟩ := ih (r.addHeader m (m.idxOf kColon))
      exact ⟨hok, hstate, hrest.trans (List.suffix_cons m ms)⟩
    · rw [HttpContext.parseLines_end hcolon]
      exact ⟨rfl, by simp, List.suffix_cons m ms⟩

structure Reads (f : Reader) (a : Arrival) (retrieved refused : Nat) (accepted : Bool)
    (served : List HttpRequest) (g : Reader) : Prop where
  peek : g.http.conn.inputBuffer.peek = (f.input a).drop retrieved
  offset : g.offset = f.offset + retrieved
  readings : g.readings =
    f.readings ++ [⟨f.offset, f.offset + retrieved + refused, accepted⟩]
  served : g.http.served = f.http.served ++ served

theorem step_lines (httpCallback : HttpCallback) (hms : ∀ l ∈ ms, IsLine Buffer.kCRLF l)
    (hrest : Free Buffer.kCRLF rest) (hinput : f.input a = joinLines Buffer.kCRLF ms ++ rest)
    {scan : HttpContext.Scan} (hscan : HttpContext.parseLines a.time .new ms = scan)
    (hsuffix : scan.rest <:+ ms) :
    ∃ g, step httpCallback f a = some g ∧
      Reads f a ((joinLines Buffer.kCRLF ms).length - (joinLines Buffer.kCRLF scan.rest).length)
        (if scan.ok then 0 else ((search Buffer.kCRLF
          (joinLines Buffer.kCRLF scan.rest ++ rest)).map (· + 2)).getD 0)
        (scan.context.state ≠ .kExpectRequestLine)
        (if scan.context.gotAll then [scan.context.request] else []) g := by
  have hpeek : (receive f.http a.chunk).conn.inputBuffer.peek =
      joinLines Buffer.kCRLF ms ++ rest := by
    rw [receive, Buffer.peek_append]
    exact hinput
  obtain ⟨b, hp, hb⟩ := HttpContext.parseRequest_eq HttpContext.ready_new hms hrest hpeek a.time
  rw [hscan] at hp hb
  have hretrieved : (receive f.http a.chunk).conn.inputBuffer.readableBytes - b.readableBytes =
      (joinLines Buffer.kCRLF ms).length - (joinLines Buffer.kCRLF scan.rest).length := by
    rw [← Buffer.length_peek, ← Buffer.length_peek, hpeek, hb, List.length_append,
      List.length_append]
    omega
  obtain ⟨done, hdone⟩ := hsuffix
  refine ⟨_, by rw [step, hp], ?_, ?_, ?_, ?_⟩
  · rw [onParsed_inputBuffer, hb, hinput, ← hdone, joinLines_append, List.length_append,
      Nat.add_sub_cancel, List.append_assoc, List.drop_left]
  · rw [hretrieved]
  · rw [hretrieved, refused, Buffer.findCRLF, hb]
  · rw [onParsed_served]
    rfl

variable (httpCallback : HttpCallback)

theorem step_noLine (h : Free Buffer.kCRLF (f.input a)) :
    ∃ g, step httpCallback f a = some g ∧ Reads f a 0 0 false [] g :=
  have hscan : HttpContext.parseLines a.time .new [] = ⟨true, .new, []⟩ := rfl
  step_lines httpCallback (fun _ hl => absurd hl List.not_mem_nil) h rfl hscan List.suffix_rfl

theorem step_refused (hms : ∀ l ∈ m :: ms, IsLine Buffer.kCRLF l)
    (hrest : Free Buffer.kCRLF rest)
    (hinput : f.input a = joinLines Buffer.kCRLF (m :: ms) ++ rest) (hm : accepts m = false) :
    ∃ g, step httpCallback f a = some g ∧ Reads f a 0 (m.length + 2) false [] g := by
  obtain ⟨r, hscan⟩ := parseLines_refused hm a.time ms
  obtain ⟨g, hg, hreads⟩ := step_lines httpCallback hms hrest hinput hscan List.suffix_rfl
  have hsearch : search Buffer.kCRLF (joinLines Buffer.kCRLF (m :: ms) ++ rest) =
      some m.length := by
    rw [joinLines_cons, List.append_assoc]
    exact search_line kCRLF_ne_nil (hms m (by simp)) _
  refine ⟨g, hg, ?_⟩
  dsimp only at hreads
  rw [hsearch, Nat.sub_self] at hreads
  simpa [HttpContext.gotAll] using hreads

theorem step_head {line : RequestLine} (hms : ∀ l ∈ line.text :: ms, IsLine Buffer.kCRLF l)
    (hrest : Free Buffer.kCRLF rest)
    (hinput : f.input a = joinLines Buffer.kCRLF (line.text :: ms) ++ rest)
    (hcolon : ∀ l ∈ ms, kColon ∈ l) :
    ∃ g, step httpCallback f a = some g ∧
      Reads f a (joinLines Buffer.kCRLF (line.text :: ms)).length 0 true [] g := by
  obtain ⟨g, hg, hreads⟩ := step_lines httpCallback hms hrest hinput
    (HttpContext.parseLines_open line hcolon) List.nil_suffix
  exact ⟨g, hg, by simpa [HttpContext.gotAll] using hreads⟩

theorem step_request {q : RequestText} (hms : ∀ l ∈ q.lines ++ ms, IsLine Buffer.kCRLF l)
    (hrest : Free Buffer.kCRLF rest)
    (hinput : f.input a = joinLines Buffer.kCRLF (q.lines ++ ms) ++ rest) :
    ∃ g, step httpCallback f a = some g ∧
      Reads f a q.text.length 0 true [q.request a.time] g := by
  obtain ⟨g, hg, hreads⟩ := step_lines httpCallback hms hrest hinput
    (q.parseLines_lines a.time ms) (List.suffix_append q.lines ms)
  refine ⟨g, hg, ?_⟩
  simpa [HttpContext.gotAll, RequestText.text] using hreads

theorem step_line (hms : ∀ l ∈ m :: ms, IsLine Buffer.kCRLF l) (hrest : Free Buffer.kCRLF rest)
    (hinput : f.input a = joinLines Buffer.kCRLF (m :: ms) ++ rest) :
    ∃ g n k rs, step httpCallback f a = some g ∧ Reads f a n k (accepts m) rs g ∧ 0 < n + k := by
  cases hm : accepts m with
  | false =>
    obtain ⟨g, hg, hreads⟩ := step_refused httpCallback hms hrest hinput hm
    exact ⟨g, _, _, _, hg, hreads, by omega⟩
  | true =>
    obtain ⟨line, rfl⟩ := accepts_iff.mp hm
    have hscan := HttpContext.parseLines_requestLine (t := a.time) line ms
    obtain ⟨hok, hstate, hsuffix⟩ :=
      parseLines_headers a.time ((line.setOn .new).setReceiveTime a.time) ms
    obtain ⟨g, hg, hreads⟩ := step_lines httpCallback hms hrest hinput hscan
      (hsuffix.trans (List.suffix_cons _ ms))
    obtain ⟨done, hdone⟩ := hsuffix
    have hlen := congrArg (fun l => (joinLines Buffer.kCRLF l).length) hdone
    simp only [joinLines_append, List.length_append] at hlen
    refine ⟨g, _, _, _, hg, by simpa [hstate] using hreads, ?_⟩
    simp only [Buffer.kCRLF, List.length_cons] at hlen ⊢
    omega

open FramedRequest in
inductive Place (qs : List FramedRequest) : Nat → Bytes → List FramedRequest → Prop
  | start (done more : List FramedRequest) (hqs : qs = done ++ more) :
    Place qs (wire done).length (wire more) done
  /-- Lines of a head have been retrieved, which are lost. -/
  | head (done : List FramedRequest) (q : FramedRequest) (more : List FramedRequest)
    (lost : List Bytes) (l : Bytes) (ls : List Bytes) (hqs : qs = done ++ q :: more)
    (hlines : q.head.lines = lost ++ l :: ls) (hlost : lost ≠ []) :
    Place qs ((wire done).length + (joinLines Buffer.kCRLF lost).length)
      (joinLines Buffer.kCRLF (l :: ls) ++ (q.body ++ wire more)) done
  | body (done : List FramedRequest) (q : FramedRequest) (more : List FramedRequest)
    (hqs : qs = done ++ q :: more) (hbody : q.body ≠ []) :
    Place qs ((wire done).length + q.head.text.length) (q.body ++ wire more) (done ++ [q])

/-- The reader has read the stream as it is meant, and `future` will still arrive. -/
structure Follows (qs : List FramedRequest) (f : Reader) (future : Bytes) : Prop where
  place : ∃ unread served, Place qs f.offset unread served ∧
    f.http.conn.inputBuffer.peek ++ future = unread ∧
    f.http.served.map (·.setReceiveTime .invalid) = served.map (·.head.request .invalid)
  respects : Respects qs f

def Strays (qs : List FramedRequest) (r : Reading) : Prop :=
  (∃ k, r.start ≤ k ∧ k < r.stop ∧ FramedRequest.isBody qs k = true) ∨
    r.accepted = true ∧ FramedRequest.isStart qs r.start = false

variable {qs : List FramedRequest}

theorem not_respects_of_strays {r : Reading} (hr : r ∈ f.readings) (h : Strays qs r) :
    ¬ Respects qs f := by
  intro hrespects
  rcases h with ⟨k, hstart, hstop, hbody⟩ | ⟨haccepted, hstart⟩
  · rw [hrespects.body r hr k hstart hstop] at hbody
    cases hbody
  · rw [hrespects.start r hr haccepted] at hstart
    cases hstart

theorem Place.served {n : Nat} {unread : Bytes} {served : List FramedRequest}
    (h : Place qs n unread served) : served <+: qs := by
  cases h with
  | start done more hqs => exact ⟨more, hqs.symm⟩
  | head done q more lost l ls hqs hlines hlost => exact ⟨q :: more, hqs.symm⟩
  | body done q more hqs hbody => exact ⟨more, by rw [hqs]; simp⟩

theorem Place.behind_head {done more : List FramedRequest} {q : FramedRequest}
    (hqs : qs = done ++ q :: more) :
    Place qs ((FramedRequest.wire done).length + q.head.text.length)
      (q.body ++ FramedRequest.wire more) (done ++ [q]) := by
  by_cases hempty : q.body = []
  · have hqs' : qs = (done ++ [q]) ++ more := by rw [hqs]; simp
    have hnext := Place.start _ _ hqs'
    rw [FramedRequest.wire_append, List.length_append, FramedRequest.wire_cons, hempty] at hnext
    rw [hempty]
    simpa [FramedRequest.wire] using hnext
  · exact .body done q more hqs hempty

theorem follows_of_reads {future : Bytes} {n k : Nat} {accepted : Bool} {rs : List HttpRequest}
    {served : List FramedRequest} (hf : Respects qs f) (hreads : Reads f a n k accepted rs g)
    {unread : Bytes} (hplace : Place qs (f.offset + n) unread served)
    (hinput : (f.input a).drop n ++ future = unread)
    (hserved : (f.http.served ++ rs).map (·.setReceiveTime .invalid) =
      served.map (·.head.request .invalid))
    (hbody : ∀ j, f.offset ≤ j → j < f.offset + n + k → FramedRequest.isBody qs j = false)
    (hstart : accepted = true → FramedRequest.isStart qs f.offset = true) :
    Follows qs g future := by
  refine ⟨⟨unread, served, ?_, ?_, ?_⟩, ?_, ?_, ?_⟩
  · rwa [hreads.offset]
  · rwa [hreads.peek]
  · rwa [hreads.served]
  · intro r hr
    rw [hreads.readings] at hr
    rcases List.mem_append.mp hr with hr | hr
    · exact hf.body r hr
    · rw [List.mem_singleton.mp hr]
      exact hbody
  · intro r hr
    rw [hreads.readings] at hr
    rcases List.mem_append.mp hr with hr | hr
    · exact hf.start r hr
    · rw [List.mem_singleton.mp hr]
      exact hstart
  · rw [hreads.served, hserved]
    exact hplace.served.map _

theorem inFrame_noLine (h : Free Buffer.kCRLF (f.input a)) : InFrame qs f a := by
  intro l hl
  rw [firstLine, show f.http.conn.inputBuffer.peek ++ a.chunk = f.input a from rfl, takeLine,
    search_eq_none_iff.mpr h] at hl
  cases hl

theorem inFrame_iff (hms : ∀ l ∈ m :: ms, IsLine Buffer.kCRLF l)
    (hinput : f.input a = joinLines Buffer.kCRLF (m :: ms) ++ rest) :
    InFrame qs f a ↔ FramedRequest.isStart qs f.offset = true ∨
      FramedRequest.isBody qs f.offset = false ∧ accepts m = false := by
  have hline : f.firstLine a = some m := by
    rw [firstLine, show f.http.conn.inputBuffer.peek ++ a.chunk = f.input a from rfl, hinput,
      joinLines_cons, List.append_assoc, takeLine_line kCRLF_ne_nil (hms m (by simp))]
    rfl
  rw [InFrame, hline]
  simp

def Outcome (httpCallback : HttpCallback) (qs : List FramedRequest) (f : Reader) (a : Arrival)
    (future : Bytes) : Prop :=
  ∃ g, step httpCallback f a = some g ∧
    (InFrame qs f a ∧ Follows qs g future ∨ ¬ InFrame qs f a ∧ ∃ r ∈ g.readings, Strays qs r)

theorem mem_of_reads {n k : Nat} {accepted : Bool} {rs : List HttpRequest}
    (h : Reads f a n k accepted rs g) :
    (⟨f.offset, f.offset + n + k, accepted⟩ : Reading) ∈ g.readings := by
  rw [h.readings]
  simp

section

variable {future : Bytes} {more done : List FramedRequest} {q : FramedRequest}

theorem outcome_noLine (hf : Follows qs f (a.chunk ++ future)) (h : Free Buffer.kCRLF (f.input a)) :
    Outcome httpCallback qs f a future := by
  obtain ⟨unread, served, hplace, hunread, hserved⟩ := hf.place
  obtain ⟨g, hg, hreads⟩ := step_noLine httpCallback h
  refine ⟨g, hg, .inl ⟨inFrame_noLine h, ?_⟩⟩
  apply follows_of_reads hf.respects hreads hplace
  · rw [← hunread, input, List.drop_zero, List.append_assoc]
  · rw [List.append_nil, hserved]
  · omega
  · simp

theorem outcome_head (hf : Respects qs f) (hqs : qs = done ++ q :: more) {lost ls : List Bytes}
    {l : Bytes} (hlines : q.head.lines = lost ++ l :: ls) (hlost : lost ≠ [])
    (hoffset : f.offset = (FramedRequest.wire done).length + (joinLines Buffer.kCRLF lost).length)
    (hunread : f.input a ++ future =
      joinLines Buffer.kCRLF (l :: ls) ++ (q.body ++ FramedRequest.wire more))
    (hserved : f.http.served.map (·.setReceiveTime .invalid) =
      done.map (·.head.request .invalid))
    (hms : ∀ x ∈ l :: ms, IsLine Buffer.kCRLF x) (hrest : Free Buffer.kCRLF rest)
    (hinput : f.input a = joinLines Buffer.kCRLF (l :: ms) ++ rest) :
    Outcome httpCallback qs f a future := by
  have hpos : 0 < (joinLines Buffer.kCRLF lost).length :=
    (List.length_pos_iff.mpr hlost).trans_le (length_le_joinLines kCRLF_ne_nil lost)
  have hlen : (joinLines Buffer.kCRLF lost).length + (l.length + 2) ≤ q.head.text.length := by
    rw [RequestText.text, hlines]
    simp only [joinLines_append, joinLines_cons, List.length_append, Buffer.kCRLF,
      List.length_cons, List.length_nil]
    omega
  have hstart : FramedRequest.isStart qs f.offset = false := by
    rw [hoffset, hqs, FramedRequest.isStart_append]
    apply FramedRequest.isStart_inside hpos
    simp only [FramedRequest.text, List.length_append]
    omega
  have hbody : ∀ j, f.offset ≤ j → j < f.offset + 0 + (l.length + 2) →
      FramedRequest.isBody qs j = false := by
    intro j hj hlt
    rw [hqs]
    exact FramedRequest.isBody_of_head (by omega) (by omega)
  have hframe : InFrame qs f a ↔ _ := inFrame_iff hms hinput
  rw [hstart, hbody f.offset (Nat.le_refl _) (by omega)] at hframe
  cases hl : accepts l with
  | false =>
    obtain ⟨g, hg, hreads⟩ := step_refused httpCallback hms hrest hinput hl
    refine ⟨g, hg, .inl ⟨hframe.mpr (.inr ⟨rfl, hl⟩), ?_⟩⟩
    have hplace : Place qs (f.offset + 0) (f.input a ++ future) done := by
      rw [Nat.add_zero, hoffset, hunread]
      exact .head done q more lost l ls hqs hlines hlost
    refine follows_of_reads hf hreads hplace rfl ?_ hbody (by simp)
    rw [List.append_nil, hserved]
  | true =>
    obtain ⟨g, n, k, rs, hg, hreads, -⟩ := step_line httpCallback hms hrest hinput
    refine ⟨g, hg, .inr ⟨fun h => ?_, _, mem_of_reads hreads, .inr ⟨hl, hstart⟩⟩⟩
    rcases hframe.mp h with h | h
    · cases h
    · rw [hl] at h
      cases h.2

theorem outcome_body (hqs : qs = done ++ q :: more) (hbody : q.body ≠ [])
    (hoffset : f.offset = (FramedRequest.wire done).length + q.head.text.length)
    (hms : ∀ l ∈ m :: ms, IsLine Buffer.kCRLF l) (hrest : Free Buffer.kCRLF rest)
    (hinput : f.input a = joinLines Buffer.kCRLF (m :: ms) ++ rest) :
    Outcome httpCallback qs f a future := by
  have hbodyPlace : FramedRequest.isBody qs f.offset = true := by
    rw [hoffset, hqs, FramedRequest.isBody_append]
    exact FramedRequest.isBody_body hbody
  have hstart : FramedRequest.isStart qs f.offset = false := by
    rw [hoffset, hqs, FramedRequest.isStart_append]
    apply FramedRequest.isStart_inside q.text_pos
    have := List.length_pos_iff.mpr hbody
    simp only [FramedRequest.text, List.length_append]
    omega
  obtain ⟨g, n, k, rs, hg, hreads, hpos⟩ := step_line httpCallback hms hrest hinput
  refine ⟨g, hg, .inr ⟨fun h => ?_, _, mem_of_reads hreads, .inl ⟨f.offset, ?_, ?_, hbodyPlace⟩⟩⟩
  · rcases (inFrame_iff hms hinput).mp h with h | h
    · rw [hstart] at h
      cases h
    · rw [hbodyPlace] at h
      cases h.1
  · exact Nat.le_refl _
  · show f.offset < f.offset + n + k
    omega

theorem lines_cases (hms : ∀ l ∈ m :: ms, IsLine Buffer.kCRLF l)
    (hinput : f.input a = joinLines Buffer.kCRLF (m :: ms) ++ rest)
    (hunread : f.input a ++ future =
      q.head.text ++ (q.body ++ FramedRequest.wire more)) :
    (∃ ls, m :: ms = q.head.lines ++ ls) ∨
      ∃ l ls, m = q.head.line.text ∧ q.head.lines = m :: ms ++ l :: ls := by
  obtain ⟨bs, br, hbs, hbr, hcut⟩ := exists_lines kCRLF_ne_nil (q.body ++ FramedRequest.wire more)
  have hlines : m :: ms <+: q.head.lines ++ bs := by
    refine lines_prefix (t := rest) (q := future) (r := br) kCRLF_ne_nil hms ?_ hbr ?_
    · intro l hl
      rcases List.mem_append.mp hl with hl | hl
      · exact q.head.lines_isLine l hl
      · exact hbs l hl
    · rw [← hinput, hunread, hcut, RequestText.text, joinLines_append, List.append_assoc]
  rcases List.prefix_or_prefix_of_prefix hlines (List.prefix_append q.head.lines bs) with h | h
  · obtain ⟨ls, hls⟩ := h
    cases ls with
    | nil => exact .inl ⟨[], by rw [← hls, List.append_nil, List.append_nil]⟩
    | cons l ls => exact .inr ⟨l, ls, (List.cons.inj hls).1, hls.symm⟩
  · obtain ⟨ls, hls⟩ := h
    exact .inl ⟨ls, hls.symm⟩

theorem isStart_of_offset (hqs : qs = done ++ q :: more)
    (hoffset : f.offset = (FramedRequest.wire done).length) :
    FramedRequest.isStart qs f.offset = true := by
  rw [hoffset, hqs, ← Nat.add_zero (FramedRequest.wire done).length, FramedRequest.isStart_append]
  rfl

theorem isBody_of_offset (hqs : qs = done ++ q :: more)
    (hoffset : f.offset = (FramedRequest.wire done).length) {n : Nat}
    (hn : n ≤ q.head.text.length) :
    ∀ j, f.offset ≤ j → j < f.offset + n + 0 → FramedRequest.isBody qs j = false := by
  intro j hj hlt
  rw [hqs]
  exact FramedRequest.isBody_of_head (by omega) (by omega)

theorem follows_wholeHead (httpCallback : HttpCallback) (hf : Respects qs f)
    (hqs : qs = done ++ q :: more) (hoffset : f.offset = (FramedRequest.wire done).length)
    (hunread : f.input a ++ future = q.head.text ++ (q.body ++ FramedRequest.wire more))
    (hserved : f.http.served.map (·.setReceiveTime .invalid) =
      done.map (·.head.request .invalid)) {ls : List Bytes}
    (hms : ∀ l ∈ q.head.lines ++ ls, IsLine Buffer.kCRLF l) (hrest : Free Buffer.kCRLF rest)
    (hinput : f.input a = joinLines Buffer.kCRLF (q.head.lines ++ ls) ++ rest) :
    ∃ g, step httpCallback f a = some g ∧ Follows qs g future := by
  obtain ⟨g, hg, hreads⟩ := step_request httpCallback hms hrest hinput
  refine ⟨g, hg, ?_⟩
  have hplace : Place qs (f.offset + q.head.text.length) (q.body ++ FramedRequest.wire more)
      (done ++ [q]) := by
    rw [hoffset]
    exact .behind_head hqs
  refine follows_of_reads hf hreads hplace ?_ ?_ (isBody_of_offset hqs hoffset (Nat.le_refl _))
    fun _ => isStart_of_offset hqs hoffset
  · rw [hinput, joinLines_append, ← RequestText.text, List.append_assoc, List.drop_left]
    rw [hinput, joinLines_append, ← RequestText.text, List.append_assoc, List.append_assoc]
      at hunread
    rw [← List.append_cancel_left hunread, List.append_assoc]
  · rw [List.map_append, hserved, List.map_append]
    rfl

theorem follows_partHead (httpCallback : HttpCallback) (hf : Respects qs f)
    (hqs : qs = done ++ q :: more) (hoffset : f.offset = (FramedRequest.wire done).length)
    (hunread : f.input a ++ future = q.head.text ++ (q.body ++ FramedRequest.wire more))
    (hserved : f.http.served.map (·.setReceiveTime .invalid) =
      done.map (·.head.request .invalid)) {l : Bytes} {ls : List Bytes}
    (hlines : q.head.lines = q.head.line.text :: ms ++ l :: ls)
    (hms : ∀ l ∈ q.head.line.text :: ms, IsLine Buffer.kCRLF l) (hrest : Free Buffer.kCRLF rest)
    (hinput : f.input a = joinLines Buffer.kCRLF (q.head.line.text :: ms) ++ rest) :
    ∃ g, step httpCallback f a = some g ∧ Follows qs g future := by
  have hcolon := RequestText.mem_kColon_of_between (hlines.trans (List.nil_append _).symm)
  obtain ⟨g, hg, hreads⟩ := step_head httpCallback hms hrest hinput hcolon
  refine ⟨g, hg, ?_⟩
  have htext : q.head.text = joinLines Buffer.kCRLF (q.head.line.text :: ms) ++
      joinLines Buffer.kCRLF (l :: ls) := by
    rw [RequestText.text, hlines, joinLines_append]
  have hle : (joinLines Buffer.kCRLF (q.head.line.text :: ms)).length ≤ q.head.text.length := by
    rw [htext, List.length_append]
    omega
  have hplace : Place qs (f.offset + (joinLines Buffer.kCRLF (q.head.line.text :: ms)).length)
      (joinLines Buffer.kCRLF (l :: ls) ++ (q.body ++ FramedRequest.wire more)) done := by
    rw [hoffset]
    exact .head done q more _ l ls hqs hlines (by simp)
  refine follows_of_reads hf hreads hplace ?_ ?_ (isBody_of_offset hqs hoffset hle)
    fun _ => isStart_of_offset hqs hoffset
  · rw [hinput, List.drop_left]
    rw [hinput, htext, List.append_assoc, List.append_assoc] at hunread
    rw [← List.append_cancel_left hunread]
  · rw [List.append_nil, hserved]

theorem outcome_start (hf : Respects qs f) (hqs : qs = done ++ q :: more)
    (hoffset : f.offset = (FramedRequest.wire done).length)
    (hunread : f.input a ++ future = q.head.text ++ (q.body ++ FramedRequest.wire more))
    (hserved : f.http.served.map (·.setReceiveTime .invalid) =
      done.map (·.head.request .invalid))
    (hms : ∀ l ∈ m :: ms, IsLine Buffer.kCRLF l) (hrest : Free Buffer.kCRLF rest)
    (hinput : f.input a = joinLines Buffer.kCRLF (m :: ms) ++ rest) :
    Outcome httpCallback qs f a future := by
  have hframe : InFrame qs f a :=
    (inFrame_iff hms hinput).mpr (.inl (isStart_of_offset hqs hoffset))
  have hfollows : ∃ g, step httpCallback f a = some g ∧ Follows qs g future := by
    rcases lines_cases hms hinput hunread with ⟨ls, hls⟩ | ⟨l, ls, rfl, hlines⟩
    · rw [hls] at hms hinput
      exact follows_wholeHead httpCallback hf hqs hoffset hunread hserved hms hrest hinput
    · exact follows_partHead httpCallback hf hqs hoffset hunread hserved hlines hms hrest hinput
  obtain ⟨g, hg, hfollows⟩ := hfollows
  exact ⟨g, hg, .inl ⟨hframe, hfollows⟩⟩

end

theorem firstLine_unique {x y : Bytes} {l : Bytes} (hm : IsLine Buffer.kCRLF m)
    (hl : IsLine Buffer.kCRLF l) (h : m ++ Buffer.kCRLF ++ x = l ++ Buffer.kCRLF ++ y) : m = l := by
  have hline := takeLine_line kCRLF_ne_nil hm x
  rw [h, takeLine_line kCRLF_ne_nil hl y] at hline
  exact (congrArg Prod.fst (Option.some.inj hline)).symm

theorem step_follows {future : Bytes} (hf : Follows qs f (a.chunk ++ future)) :
    Outcome httpCallback qs f a future := by
  obtain ⟨ms, rest, hms, hrest, hinput⟩ := exists_lines kCRLF_ne_nil (f.input a)
  cases ms with
  | nil => exact outcome_noLine httpCallback hf (by rw [hinput]; exact hrest)
  | cons m ms =>
    obtain ⟨unread, served, hplace, hunread, hserved⟩ := hf.place
    rw [← List.append_assoc] at hunread
    generalize hoffset : f.offset = offset at hplace
    cases hplace with
    | start done more hqs =>
      cases more with
      | nil =>
        have hlen := congrArg List.length hunread
        rw [show f.http.conn.inputBuffer.peek ++ a.chunk = f.input a from rfl, hinput] at hlen
        simp [FramedRequest.wire, Buffer.kCRLF] at hlen
      | cons q more =>
        rw [FramedRequest.wire_cons] at hunread
        exact outcome_start httpCallback hf.respects hqs hoffset hunread hserved hms hrest hinput
    | head done q more lost l ls hqs hlines hlost =>
      obtain rfl : m = l := by
        rw [show f.http.conn.inputBuffer.peek ++ a.chunk = f.input a from rfl, hinput,
          joinLines_cons, joinLines_cons] at hunread
        simp only [List.append_assoc] at hunread
        rw [← List.append_assoc, ← List.append_assoc l] at hunread
        exact firstLine_unique (hms m (by simp)) (q.head.lines_isLine l (by simp [hlines])) hunread
      exact outcome_head httpCallback hf.respects hqs hlines hlost hoffset hunread hserved hms
        hrest hinput
    | body done q more hqs hbody =>
      exact outcome_body httpCallback hqs hbody hoffset hms hrest hinput

theorem exists_step (httpCallback : HttpCallback) (f : Reader) (a : Arrival) :
    ∃ g, step httpCallback f a = some g ∧ f.readings <+: g.readings := by
  obtain ⟨ms, rest, hms, hrest, hinput⟩ := exists_lines kCRLF_ne_nil (f.input a)
  cases ms with
  | nil =>
    have hfree : Free Buffer.kCRLF (f.input a) := by
      rw [hinput]
      exact hrest
    obtain ⟨g, hg, hreads⟩ := step_noLine httpCallback hfree
    exact ⟨g, hg, _, hreads.readings.symm⟩
  | cons m ms =>
    obtain ⟨g, n, k, rs, hg, hreads, -⟩ := step_line httpCallback hms hrest hinput
    exact ⟨g, hg, _, hreads.readings.symm⟩

theorem exists_run (httpCallback : HttpCallback) (f : Reader) (as : List Arrival) :
    ∃ g, run (step httpCallback) f as = some g ∧ f.readings <+: g.readings := by
  induction as generalizing f with
  | nil => exact ⟨f, rfl, List.prefix_rfl⟩
  | cons a as ih =>
    obtain ⟨m, hm, hmore⟩ := exists_step httpCallback f a
    obtain ⟨g, hg, hmore'⟩ := ih m
    exact ⟨g, run_cons.mpr ⟨m, hm, hg⟩, hmore.trans hmore'⟩

/-- The whole stream, or a part of it that has arrived, is read as it is meant exactly when every
read is in frame. -/
theorem run_follows {future : Bytes} (as : List Arrival)
    (hf : Follows qs f ((as.map Arrival.chunk).flatten ++ future)) :
    ∃ g, run (step httpCallback) f as = some g ∧
      (Respects qs g ↔ Along (step httpCallback) (InFrame qs) f as) := by
  induction as generalizing f with
  | nil => exact ⟨f, rfl, fun _ => trivial, fun _ => hf.respects⟩
  | cons a as ih =>
    rw [List.map_cons, List.flatten_cons, List.append_assoc] at hf
    obtain ⟨m, hm, ⟨hframe, hfollows⟩ | ⟨hframe, r, hr, hstrays⟩⟩ := step_follows httpCallback hf
    · obtain ⟨g, hg, hiff⟩ := ih hfollows
      refine ⟨g, run_cons.mpr ⟨m, hm, hg⟩, fun h => ⟨hframe, fun t ht => ?_⟩, fun h => ?_⟩
      · obtain rfl : m = t := Option.some.inj (hm.symm.trans ht)
        exact hiff.mp h
      · exact hiff.mpr (h.2 m hm)
    · obtain ⟨g, hg, hmore⟩ := exists_run httpCallback m as
      refine ⟨g, run_cons.mpr ⟨m, hm, hg⟩, fun h => ?_, fun h => absurd h.1 hframe⟩
      exact absurd h (not_respects_of_strays (hmore.subset hr) hstrays)

/-- In any cuts, the stream from a client is read as the client means it exactly when no line is
completed while the unread input begins with bytes of a body, or with a part of a head that looks
like a request line. -/
theorem respects_iff (c : TcpConnection) (hbuf : c.inputBuffer.peek = [])
    (qs : List FramedRequest) (as : List Arrival)
    (h : (as.map Arrival.chunk).flatten <+: FramedRequest.wire qs) :
    ∃ g, run (step httpCallback) (new c) as = some g ∧
      (Respects qs g ↔ Along (step httpCallback) (InFrame qs) (new c) as) := by
  obtain ⟨future, hfuture⟩ := h
  have hf : Follows qs (new c) ((as.map Arrival.chunk).flatten ++ future) := by
    refine ⟨⟨_, [], .start [] qs rfl, ?_, rfl⟩, ?_, ?_, ?_⟩
    · simpa [new, hbuf] using hfuture
    · simp [new]
    · simp [new]
    · simp [new]
  exact run_follows httpCallback as hf

def postForm : FramedRequest where
  head :=
    { line := ⟨.kPost, ascii "/form", .kHttp11, by decide, by decide,
        RequestLine.getRoot.version_known⟩
      headers := [(ascii "Content-Length", ascii "19")]
      target_free := by decide
      name_noColon := by decide
      name_free := by decide
      value_free := by decide }
  body := ascii "GET /x HTTP/1.1\r\n\r\n"
  announced := .inr ⟨.inl rfl, by decide⟩

/-- The end of the body has not come yet. -/
theorem respects_iff_postForm :
    ∃ g, run (step defaultHttpCallback) (new (.established false))
        [arrival "POST /form HTTP/1.1\r\nContent-Length: 19\r\n\r\n", arrival "GET /x HTTP/1.1"] =
        some g ∧ Respects [postForm] g := by
  obtain ⟨g, hg, hiff⟩ := respects_iff defaultHttpCallback (.established false) (by decide)
    [postForm] [arrival "POST /form HTTP/1.1\r\nContent-Length: 19\r\n\r\n",
      arrival "GET /x HTTP/1.1"] (by decide)
  exact ⟨g, hg, hiff.mpr (by decide +kernel)⟩

def postFormReads : List Arrival :=
  [arrival "POST /form HTTP/1.1\r\nContent-Length: 19\r\n\r\n", arrival "GET /x HTTP/1.1\r\n\r\n"]

/-- The body is served as a request of its own. -/
theorem not_respects_postForm :
    ∃ g, run (step defaultHttpCallback) (new (.established false)) postFormReads = some g ∧
      g.http.served.map HttpRequest.path = [ascii "/form", ascii "/x"] ∧
      ¬ Respects [postForm] g := by
  have hrun : (run (step defaultHttpCallback) (new (.established false)) postFormReads).any
      (fun g => g.http.served.map HttpRequest.path = [ascii "/form", ascii "/x"]) = true := by
    decide +kernel
  obtain ⟨g, hg, hserved⟩ := (Option.any_eq_true _ _).mp hrun
  refine ⟨g, hg, of_decide_eq_true hserved, fun h => ?_⟩
  have hlen := (congrArg List.length (of_decide_eq_true hserved)).symm.trans (List.length_map _)
  have hle := h.served.length_le
  simp only [List.length_map] at hle
  simp at hlen hle
  omega

end Reader

end WebServer.Http
