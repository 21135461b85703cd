import WebServer.Http.HttpServer

namespace WebServer.Http

open WebServer.Lib WebServer.Mymuduo

def tolower (c : UInt8) : UInt8 := if 65 ≤ c ∧ c ≤ 90 then c + 32 else c

def SameLetters (x y : Bytes) : Prop := x.map tolower = y.map tolower

instance (x y : Bytes) : Decidable (SameLetters x y) := inferInstanceAs (Decidable (_ = _))

/-- Request line and header lines; a header is its name and all that is behind the colon. -/
structure RequestHead where
  line : RequestLine
  headers : List (Bytes × Bytes)
  target_free : Free Buffer.kCRLF line.target
  name_noColon : ∀ h ∈ headers, kColon ∉ h.1
  name_free : ∀ h ∈ headers, Free Buffer.kCRLF h.1
  value_free : ∀ h ∈ headers, Free Buffer.kCRLF h.2

namespace RequestHead

def fieldLine (h : Bytes × Bytes) : Bytes := h.1 ++ kColon :: h.2

def lines (q : RequestHead) : List Bytes := q.line.text :: q.headers.map fieldLine ++ [[]]

def text (q : RequestHead) : Bytes := joinLines Buffer.kCRLF q.lines

def headerMap (q : RequestHead) : OrdMap Bytes Bytes :=
  .ofList (q.headers.map fun h => (h.1, HttpRequest.trim h.2))

def request (q : RequestHead) (t : Timestamp) : HttpRequest :=
  { (q.line.setOn .new).setReceiveTime t with headers := q.headerMap }

theorem lines_isLine (q : RequestHead) : ∀ l ∈ q.lines, IsLine Buffer.kCRLF l := by
  intro l hl
  simp only [lines, List.cons_append, List.mem_cons, List.mem_append, List.mem_map,
    List.not_mem_nil, or_false] at hl
  rcases hl with rfl | ⟨h, hh, rfl⟩ | rfl
  · exact isLine_kCRLF.mpr (q.line.text_free q.target_free)
  · exact isLine_field (q.name_free h hh) (q.value_free h hh)
  · exact isLine_kCRLF.mpr (by decide)

theorem foldl_fieldLine {hs : List (Bytes × Bytes)} (hn : ∀ h ∈ hs, kColon ∉ h.1)
    (r : HttpRequest) :
    (hs.map fieldLine).foldl HttpContext.addLine r =
      { r with
        headers := (hs.map fun h => (h.1, HttpRequest.trim h.2)).foldl
          (fun m e => m.insert e.1 e.2) r.headers } := by
  induction hs generalizing r with
  | nil => rfl
  | cons h hs ih =>
    rw [List.map_cons, List.foldl_cons, fieldLine, HttpContext.addLine_field (hn h (by simp)),
      ih fun x hx => hn x (by simp [hx])]
    rfl

theorem parseLines_lines (q : RequestHead) (t : Timestamp) (more : List Bytes) :
    HttpContext.parseLines t .new (q.lines ++ more) = ⟨true, ⟨.kGotAll, q.request t⟩, more⟩ := by
  have hcolon : ∀ l ∈ q.headers.map fieldLine, kColon ∈ l := by
    intro l hl
    obtain ⟨h, -, rfl⟩ := List.mem_map.mp hl
    simp [fieldLine]
  rw [lines, List.cons_append, List.cons_append, List.append_assoc,
    HttpContext.parseLines_requestLine, HttpContext.parseLines_colons hcolon,
    foldl_fieldLine q.name_noColon, List.singleton_append,
    HttpContext.parseLines_end List.not_mem_nil]
  simp only [request, headerMap, OrdMap.ofList, HttpRequest.setReceiveTime,
    RequestLine.setOn_headers]
  rfl

theorem parseRequest_text (q : RequestHead) {b : Buffer} {more : Bytes}
    (hpeek : b.peek = q.text ++ more) (t : Timestamp) :
    ∃ b', HttpContext.new.parseRequest b t =
      .ok ⟨true, false, ⟨.kGotAll, q.request t⟩, b'⟩ := by
  obtain ⟨ls, rest, hls, hrest, rfl⟩ := exists_lines kCRLF_ne_nil more
  have hall : ∀ l ∈ q.lines ++ ls, IsLine Buffer.kCRLF l := by
    intro l hl
    rcases List.mem_append.mp hl with hl | hl
    · exact q.lines_isLine l hl
    · exact hls l hl
  obtain ⟨b', hp, -⟩ := HttpContext.parseRequest_eq HttpContext.ready_new hall hrest
    (by rw [hpeek, joinLines_append, text, List.append_assoc]) t
  rw [q.parseLines_lines t ls] at hp
  exact ⟨b', hp⟩

/-- The value stored under the name that `onRequest` asks for. -/
def connection (q : RequestHead) : Bytes :=
  ((q.headers.filter fun h => h.1 = ascii "Connection").getLast?.map
    fun h => HttpRequest.trim h.2).getD []

/-- The headers that are the connection header for a client. -/
def connectionHeaders (q : RequestHead) : List (Bytes × Bytes) :=
  q.headers.filter fun h => SameLetters h.1 (ascii "Connection")

theorem getHeader_request (q : RequestHead) (t : Timestamp) :
    (q.request t).getHeader (ascii "Connection") = q.connection := by
  have hfind := OrdMap.find_ofList (q.headers.map fun h => (h.1, HttpRequest.trim h.2))
    (ascii "Connection")
  rw [List.filter_map, List.getLast?_map, Option.map_map] at hfind
  rw [HttpRequest.getHeader, request, headerMap, hfind, connection]
  congr!
  simp

theorem connection_eq_of_headers {q q' : RequestHead}
    (h : q.connectionHeaders = q'.connectionHeaders) : q.connection = q'.connection := by
  have hexact (q : RequestHead) : (q.headers.filter fun h => h.1 = ascii "Connection") =
      q.connectionHeaders.filter fun h => h.1 = ascii "Connection" := by
    rw [connectionHeaders, List.filter_filter]
    refine List.filter_congr fun h _ => ?_
    by_cases hname : h.1 = ascii "Connection"
    · rw [decide_eq_true hname, hname]
      rfl
    · rw [decide_eq_false hname, Bool.false_and]
  rw [connection, connection, hexact, hexact, h]

/-- The same request with letters of names, and of values of a connection header, in another
case. -/
structure Recased (q q' : RequestHead) : Prop where
  line_eq : q'.line = q.line
  headers : List.Forall₂ (fun h h' : Bytes × Bytes => SameLetters h.1 h'.1 ∧
    (h.2 = h'.2 ∨ SameLetters h.1 (ascii "Connection") ∧ SameLetters h.2 h'.2))
    q.headers q'.headers

end RequestHead

namespace HttpServer

/-- The value that a client of the version has to send for the other decision than without a
connection header. -/
def connectionOption : Version → Bytes
  | .kHttp10 => ascii "Keep-Alive"
  | _ => ascii "close"

theorem close_iff (req : HttpRequest) :
    close req = true ↔
      (req.getHeader (ascii "Connection") = connectionOption req.version ↔
        req.version ≠ .kHttp10) := by
  have hne : ascii "close" ≠ ascii "Keep-Alive" := by decide
  rw [close]
  cases req.version with
  | kHttp10 =>
    simp only [connectionOption, Bool.or_eq_true, Bool.and_eq_true, decide_eq_true_eq, ne_eq,
      not_true, iff_false, true_and]
    exact ⟨fun h => h.elim (fun hclose => hclose ▸ hne) id, .inr⟩
  | kHttp11 => simp [connectionOption]
  | kUnknown => simp [connectionOption]

/-- What `onRequest` decides on the request that `parseRequest` finds in the buffer, if it finds
one. -/
def decision (b : Buffer) (t : Timestamp) : Option Bool :=
  match HttpContext.new.parseRequest b t with
  | .ok p => if p.context.gotAll then some (close p.context.request) else none
  | .error _ => none

theorem decision_text (q : RequestHead) {b : Buffer} {more : Bytes}
    (hpeek : b.peek = q.text ++ more) (t : Timestamp) :
    ∃ c, decision b t = some c ∧ (c = true ↔
      (q.connection = connectionOption q.line.version ↔ q.line.version ≠ .kHttp10)) := by
  obtain ⟨b', hp⟩ := q.parseRequest_text hpeek t
  have hversion : (q.request t).version = q.line.version := rfl
  refine ⟨close (q.request t), ?_, ?_⟩
  · rw [decision, hp]
    rfl
  · rw [close_iff, q.getHeader_request, hversion]

/-- Two spellings of a request are treated alike exactly when both or neither have the option of
their version, as it is spelled in the code, under the name as it is spelled there.  So are two
that spell the connection header alike. -/
theorem decision_recased {q q' : RequestHead} (h : q.Recased q') {b b' : Buffer}
    {more more' : Bytes} (hb : b.peek = q.text ++ more) (hb' : b'.peek = q'.text ++ more')
    (t t' : Timestamp) :
    ∃ c c', decision b t = some c ∧ decision b' t' = some c' ∧
      (c = c' ↔ (q.connection = connectionOption q.line.version ↔
        q'.connection = connectionOption q.line.version)) ∧
      (q.connectionHeaders = q'.connectionHeaders → c = c') := by
  obtain ⟨c, hc, hclose⟩ := decision_text q hb t
  obtain ⟨c', hc', hclose'⟩ := decision_text q' hb' t'
  rw [h.line_eq] at hclose'
  have hiff : c = c' ↔ (q.connection = connectionOption q.line.version ↔
      q'.connection = connectionOption q.line.version) := by
    rw [Bool.eq_iff_iff, hclose, hclose']
    by_cases hversion : q.line.version ≠ .kHttp10
    · rw [iff_true_intro hversion, iff_true, iff_true]
    · rw [iff_false_intro hversion, iff_false, iff_false, not_iff_not]
  refine ⟨c, c', hc, hc', hiff, fun hheaders => ?_⟩
  rw [hiff, RequestHead.connection_eq_of_headers hheaders]

def rootWith (headers : List (Bytes × Bytes))
    (h : ∀ h ∈ headers, kColon ∉ h.1 ∧ Free Buffer.kCRLF h.1 ∧ Free Buffer.kCRLF h.2) :
    RequestHead where
  line := .getRoot
  headers := headers
  target_free := RequestLine.getRoot_free
  name_noColon := fun x hx => (h x hx).1
  name_free := fun x hx => (h x hx).2.1
  value_free := fun x hx => (h x hx).2.2

def closing : RequestHead :=
  rootWith [(ascii "Host", ascii " a"), (ascii "Connection", ascii " close")] (by decide)

def closingHOST : RequestHead :=
  rootWith [(ascii "HOST", ascii " a"), (ascii "Connection", ascii " close")] (by decide)

def closingLower : RequestHead :=
  rootWith [(ascii "Host", ascii " a"), (ascii "connection", ascii " close")] (by decide)

def received (q : RequestHead) : Buffer := (Buffer.new 0).append q.text

theorem peek_received (q : RequestHead) : (received q).peek = q.text ++ [] := by
  rw [received, Buffer.peek_append, Buffer.peek_new, List.nil_append, List.append_nil]

theorem recased_closingHOST : closing.Recased closingHOST :=
  ⟨(rfl : RequestLine.getRoot = .getRoot),
    .cons ⟨by decide, .inl rfl⟩ (.cons ⟨by decide, .inl rfl⟩ .nil)⟩

theorem recased_closingLower : closing.Recased closingLower :=
  ⟨(rfl : RequestLine.getRoot = .getRoot),
    .cons ⟨by decide, .inl rfl⟩ (.cons ⟨by decide, .inl rfl⟩ .nil)⟩

theorem decision_recased_host :
    ∃ c, decision (received closing) .invalid = some c ∧
      decision (received closingHOST) .invalid = some c := by
  obtain ⟨c, c', hc, hc', -, hsame⟩ := decision_recased recased_closingHOST (peek_received closing)
    (peek_received closingHOST) .invalid .invalid
  obtain rfl := hsame (by decide)
  exact ⟨c, hc, hc'⟩

/-- `connection: close` leaves the connection open. -/
theorem decision_spelling :
    ¬∀ (q q' : RequestHead) (b b' : Buffer) (more more' : Bytes) (t t' : Timestamp),
      q.Recased q' → b.peek = q.text ++ more → b'.peek = q'.text ++ more' →
        decision b t = decision b' t' := by
  intro h
  obtain ⟨c, hc, hclose⟩ := decision_text closing (peek_received closing) .invalid
  obtain ⟨c', hc', hclose'⟩ := decision_text closingLower (peek_received closingLower) .invalid
  have hsame := h closing closingLower _ _ _ _ .invalid .invalid recased_closingLower
    (peek_received closing) (peek_received closingLower)
  rw [hc, hc', Option.some.injEq] at hsame
  rw [hsame, hclose'] at hclose
  revert hclose
  decide

end HttpServer

end WebServer.Http
