import WebServer.Http.Grammar
import WebServer.Http.HttpResponse
import WebServer.Lib.Frames

namespace WebServer.Http

open WebServer.Lib WebServer.Mymuduo

structure Received where
  statusCode : Nat
  statusMessage : Bytes
  headers : OrdMap Bytes Bytes
  body : Bytes
  deriving DecidableEq

def kContentLength : Bytes := ascii "Content-Length"
def kConnection : Bytes := ascii "Connection"

def readDecimal (s : Bytes) : Option Nat :=
  if s ≠ [] ∧ s.all (fun c => 48 ≤ c ∧ c ≤ 57) then
    some (s.foldl (fun n c => 10 * n + (c.toNat - 48)) 0)
  else none

def readStatusLine (line : Bytes) : Option (Nat × Bytes) :=
  if line.take 9 = ascii "HTTP/1.1 " then
    let rest := line.drop 9
    let space := rest.idxOf kSpace
    if space ≠ rest.length then
      (readDecimal (rest.take space)).map fun code => (code, rest.drop (space + 1))
    else none
  else none

def readHeader (line : Bytes) : Option (Bytes × Bytes) :=
  let colon := line.idxOf kColon
  if (line.drop colon).take 2 = ascii ": " then
    some (line.take colon, line.drop (colon + 2))
  else none

def isField (h : Bytes × Bytes) : Bool := h.1 ≠ kContentLength ∧ h.1 ≠ kConnection

/-- A status line, header lines up to the empty line, and `Content-Length` bytes behind it. -/
def readResponse (s : Bytes) : Option (Received × Bytes) :=
  (takeHead Buffer.kCRLF s.length s).bind fun (lines, rest) =>
    match lines with
    | [] => none
    | status :: headerLines =>
      (readStatusLine status).bind fun (code, message) =>
        (headerLines.mapM readHeader).bind fun headers =>
          (headers.find? fun h => h.1 = kContentLength).bind fun length =>
            (readDecimal length.2).bind fun n =>
              if n ≤ rest.length then
                some (⟨code, message, .ofList (headers.filter isField), rest.take n⟩, rest.drop n)
              else none

/-- A response that leaves the connection open and has no text in it that looks like framing. -/
structure KeepAlive (r : HttpResponse) : Prop where
  closeConnection : r.closeConnection = false
  message_free : Free Buffer.kCRLF r.statusMessage
  name_free : ∀ h ∈ r.headers.entries, Free Buffer.kCRLF h.1
  name_noColon : ∀ h ∈ r.headers.entries, kColon ∉ h.1
  name_isField : ∀ h ∈ r.headers.entries, isField h = true
  value_free : ∀ h ∈ r.headers.entries, Free Buffer.kCRLF h.2
  body_lt : r.body.length < 10 ^ 13

namespace HttpResponse

def received (r : HttpResponse) : Received :=
  ⟨r.statusCode.toNat, r.statusMessage, r.headers, r.body⟩

def lines (r : HttpResponse) : List Bytes :=
  (ascii "HTTP/1.1 " ++ decimal r.statusCode.toNat ++ kSpace :: r.statusMessage) ::
    ((kContentLength, decimal r.body.length) :: (kConnection, ascii "Keep-Alive") ::
      r.headers.entries).map headerLine

end HttpResponse

theorem decimal_eq (n : Nat) :
    ∃ cs : List Char, HttpResponse.decimal n = cs.map (fun c => UInt8.ofNat c.toNat) ∧ cs ≠ [] ∧
      cs.foldl (fun n c => 10 * n + (c.toNat - 48)) 0 = n ∧
      ∀ c ∈ cs, 48 ≤ c.toNat ∧ c.toNat ≤ 57 := by
  refine ⟨Nat.toDigits 10 n, ?_, Nat.toDigits_ne_nil, ?_, fun c hc => ?_⟩
  · rw [HttpResponse.decimal, ascii, Nat.toString_eq_repr, Nat.toList_repr]
  · exact (Nat.ofDigitChars_eq_foldl).symm.trans Nat.ofDigitChars_ten_toDigits
  · have hdigit := Nat.isDigit_of_mem_toDigits (by decide) (by decide) hc
    simp only [Char.isDigit, Bool.and_eq_true, decide_eq_true_eq] at hdigit
    exact ⟨UInt32.le_iff_toNat_le.mp hdigit.1, UInt32.le_iff_toNat_le.mp hdigit.2⟩

theorem toNat_ofNat_digit {c : Char} (h : c.toNat ≤ 57) :
    (UInt8.ofNat c.toNat).toNat = c.toNat := by
  rw [UInt8.toNat_ofNat']
  omega

theorem mem_decimal {n : Nat} {b : UInt8} (h : b ∈ HttpResponse.decimal n) : 48 ≤ b ∧ b ≤ 57 := by
  obtain ⟨cs, hcs, -, -, hdigit⟩ := decimal_eq n
  rw [hcs] at h
  obtain ⟨c, hc, rfl⟩ := List.mem_map.mp h
  obtain ⟨hlow, hhigh⟩ := hdigit c hc
  rw [UInt8.le_iff_toNat_le, UInt8.le_iff_toNat_le, toNat_ofNat_digit hhigh]
  exact ⟨hlow, hhigh⟩

theorem readDecimal_decimal (n : Nat) : readDecimal (HttpResponse.decimal n) = some n := by
  have hall : (HttpResponse.decimal n).all (fun c => 48 ≤ c ∧ c ≤ 57) = true := by
    rw [List.all_eq_true]
    exact fun b hb => decide_eq_true (mem_decimal hb)
  obtain ⟨cs, hcs, hne, hfold, hdigit⟩ := decimal_eq n
  have hvalue : (cs.map fun c => UInt8.ofNat c.toNat).foldl
      (fun n c => 10 * n + (c.toNat - 48)) 0 = n := by
    rw [List.foldl_map]
    refine (List.foldl_ext _ _ 0 fun n c hc => ?_).trans hfold
    rw [toNat_ofNat_digit (hdigit c hc).2]
  rw [readDecimal, if_pos ⟨by simpa [hcs] using hne, hall⟩, hcs, hvalue]

theorem length_decimal {n : Nat} (h : n < 10 ^ 13) : (HttpResponse.decimal n).length ≤ 13 := by
  rw [HttpResponse.decimal, ascii, List.length_map, Nat.toString_eq_repr, Nat.toList_repr]
  exact (Nat.length_toDigits_le_iff (by decide) (by decide)).mpr h

theorem snprintf32_of_le {text : Bytes} (h : text.length ≤ 31) :
    HttpResponse.snprintf32 text = text := List.take_of_length_le h

variable {r : HttpResponse}

theorem statusLine_eq (r : HttpResponse) :
    r.statusLine = ascii "HTTP/1.1 " ++ HttpResponse.decimal r.statusCode.toNat ++
      kSpace :: r.statusMessage ++ Buffer.kCRLF := by
  have hlen : (ascii "HTTP/1.1 " ++ HttpResponse.decimal r.statusCode.toNat ++
      ascii " ").length ≤ 31 := by
    cases r.statusCode <;> decide
  rw [HttpResponse.statusLine, snprintf32_of_le hlen]
  simp [show ascii " " = [kSpace] from rfl, show ascii "\r\n" = Buffer.kCRLF from rfl]

theorem connectionLines_eq (h : KeepAlive r) :
    r.connectionLines = headerLine (kContentLength, HttpResponse.decimal r.body.length) ++
      Buffer.kCRLF ++ headerLine (kConnection, ascii "Keep-Alive") ++ Buffer.kCRLF := by
  have hlen : (ascii "Content-Length: " ++ HttpResponse.decimal r.body.length ++
      ascii "\r\n").length ≤ 31 := by
    have := length_decimal h.body_lt
    simp only [List.length_append, show (ascii "Content-Length: ").length = 16 from rfl,
      show (ascii "\r\n").length = 2 from rfl]
    omega
  rw [HttpResponse.connectionLines, h.closeConnection, if_neg Bool.false_ne_true,
    snprintf32_of_le hlen,
    show ascii "Content-Length: " = kContentLength ++ [kColon, kSpace] from rfl,
    show ascii "Connection: Keep-Alive\r\n" =
      headerLine (kConnection, ascii "Keep-Alive") ++ Buffer.kCRLF from rfl]
  simp [headerLine, show ascii "\r\n" = Buffer.kCRLF from rfl]

theorem bytes_eq (h : KeepAlive r) :
    r.bytes = joinLines Buffer.kCRLF (r.lines ++ [[]]) ++ r.body := by
  have hheaders : r.headerLines =
      joinLines Buffer.kCRLF (r.headers.entries.map headerLine) := by
    simp [HttpResponse.headerLines, joinLines, headerLine, Function.comp_def,
      show ascii ": " = [kColon, kSpace] from rfl, show ascii "\r\n" = Buffer.kCRLF from rfl]
  rw [HttpResponse.bytes, statusLine_eq, connectionLines_eq h, hheaders]
  simp [HttpResponse.lines, show ascii "\r\n" = Buffer.kCRLF from rfl]

theorem free_of_notMem {s : Bytes} (h : (13 : UInt8) ∉ s) : Free Buffer.kCRLF s :=
  fun hfound => h (hfound.subset (by decide))

theorem free_decimal (n : Nat) : Free Buffer.kCRLF (HttpResponse.decimal n) := by
  apply free_of_notMem
  intro hmem
  exact absurd (mem_decimal hmem).1 (by decide)

theorem kContentLength_free : Free Buffer.kCRLF kContentLength := by decide

theorem lines_isLine (h : KeepAlive r) : ∀ l ∈ r.lines, IsLine Buffer.kCRLF l := by
  intro l hl
  rcases List.mem_cons.mp hl with rfl | hl
  · refine isLine_kCRLF.mpr ((free_cut kCRLF_ne_nil (by decide)).mpr ⟨?_, h.message_free⟩)
    cases r.statusCode <;> decide
  · obtain ⟨x, hx, rfl⟩ := List.mem_map.mp hl
    rcases List.mem_cons.mp hx with rfl | hx
    · exact isLine_headerLine kContentLength_free (free_decimal _)
    · rcases List.mem_cons.mp hx with rfl | hx
      · exact isLine_headerLine (by decide) (by decide)
      · exact isLine_headerLine (h.name_free x hx) (h.value_free x hx)

theorem lines_ne_nil (r : HttpResponse) : ∀ l ∈ r.lines, l ≠ [] := by
  intro l hl
  rcases List.mem_cons.mp hl with rfl | hl
  · simp
  · obtain ⟨x, -, rfl⟩ := List.mem_map.mp hl
    simp [headerLine]

theorem readStatusLine_eq (n : Nat) (message : Bytes) :
    readStatusLine (ascii "HTTP/1.1 " ++ HttpResponse.decimal n ++ kSpace :: message) =
      some (n, message) := by
  have hspace : kSpace ∉ HttpResponse.decimal n := fun hmem =>
    absurd (mem_decimal hmem).1 (by decide)
  have hcut : (HttpResponse.decimal n ++ kSpace :: message).idxOf kSpace =
      (HttpResponse.decimal n).length := idxOf_cut hspace message
  rw [readStatusLine, List.append_assoc,
    if_pos (List.take_left' (show (ascii "HTTP/1.1 ").length = 9 from rfl)),
    List.drop_left' (show (ascii "HTTP/1.1 ").length = 9 from rfl)]
  simp only [hcut, List.take_left, drop_cut, readDecimal_decimal]
  simp

theorem readHeader_headerLine {h : Bytes × Bytes} (hname : kColon ∉ h.1) :
    readHeader (headerLine h) = some h := by
  have hcut : (headerLine h).idxOf kColon = h.1.length := idxOf_cut hname _
  have hdrop : (headerLine h).drop (h.1.length + 2) = h.2 := by
    rw [headerLine, ← List.drop_drop, List.drop_left]
    rfl
  have hsep : ((headerLine h).drop h.1.length).take 2 = ascii ": " := by
    rw [headerLine, List.drop_left]
    rfl
  rw [readHeader, hcut, hdrop, if_pos hsep, headerLine, List.take_left]

theorem mapM_readHeader {hs : List (Bytes × Bytes)} (hname : ∀ h ∈ hs, kColon ∉ h.1) :
    (hs.map headerLine).mapM readHeader = some hs := by
  induction hs with
  | nil => rfl
  | cons h hs ih =>
    rw [List.map_cons, List.mapM_cons, readHeader_headerLine (hname h (by simp)),
      ih fun x hx => hname x (by simp [hx])]
    rfl

theorem length_lines_lt (h : KeepAlive r) (rest : Bytes) :
    r.lines.length < (r.bytes ++ rest).length := by
  have hlen := length_le_joinLines kCRLF_ne_nil (r.lines ++ [[]])
  rw [List.length_append, List.length_singleton] at hlen
  rw [bytes_eq h, List.append_assoc, List.length_append]
  omega

theorem readResponse_bytes (h : KeepAlive r) (rest : Bytes) :
    readResponse (r.bytes ++ rest) = some (r.received, rest) := by
  have hname : ∀ x ∈ (kContentLength, HttpResponse.decimal r.body.length) ::
      (kConnection, ascii "Keep-Alive") :: r.headers.entries, kColon ∉ x.1 := by
    intro x hx
    rcases List.mem_cons.mp hx with rfl | hx
    · exact (show kColon ∉ kContentLength by decide)
    · rcases List.mem_cons.mp hx with rfl | hx
      · exact (show kColon ∉ kConnection by decide)
      · exact h.name_noColon x hx
  have hfields : ((kContentLength, HttpResponse.decimal r.body.length) ::
      (kConnection, ascii "Keep-Alive") :: r.headers.entries).filter isField =
        r.headers.entries := by
    rw [List.filter_cons_of_neg (by simp [isField]), List.filter_cons_of_neg (by decide)]
    exact List.filter_eq_self.mpr h.name_isField
  have hhead := takeHead_lines kCRLF_ne_nil (length_lines_lt h rest) (lines_isLine h)
    (lines_ne_nil r) (by decide) (r.body ++ rest)
  rw [← List.append_assoc, ← bytes_eq h] at hhead
  simp only [readResponse, hhead, HttpResponse.lines, Option.bind_some, readStatusLine_eq,
    mapM_readHeader hname, hfields, List.find?_cons_of_pos, decide_true, readDecimal_decimal,
    List.take_left, List.drop_left, OrdMap.ofList_entries]
  rw [if_pos (by simp)]
  rfl

def stream (rs : List HttpResponse) : Bytes :=
  (rs.map fun r => (r.appendToBuffer (.new Buffer.kInitialSize)).peek).flatten

theorem stream_eq (rs : List HttpResponse) : stream rs = (rs.map HttpResponse.bytes).flatten := by
  simp only [stream, HttpResponse.peek_appendToBuffer, Buffer.peek_new, List.nil_append]

/-- The responses are found again in the stream, each with its status code, message, headers and
body, and nothing is left over. -/
theorem readAll_stream {rs : List HttpResponse} (h : ∀ r ∈ rs, KeepAlive r) :
    readAll readResponse (stream rs).length (stream rs) = some (rs.map HttpResponse.received) := by
  have hne : ∀ r : HttpResponse, r.bytes ≠ [] := fun r => by
    simp [HttpResponse.bytes, show ascii "\r\n" = Buffer.kCRLF from rfl, Buffer.kCRLF]
  have hlen : rs.length ≤ (rs.map HttpResponse.bytes).flatten.length := by
    rw [← List.length_map HttpResponse.bytes]
    apply length_le_flatten
    intro l hl
    obtain ⟨r, -, rfl⟩ := List.mem_map.mp hl
    exact hne r
  rw [stream_eq]
  exact readAll_flatten hlen (fun r hr t => readResponse_bytes (h r hr) t) fun r _ => hne r

def trickyPage : HttpResponse :=
  ((((HttpResponse.new false).setStatusCode .k200Ok).setStatusMessage (ascii "OK")).setContentType
    (ascii "text/plain")).setBody (ascii "HTTP/1.1 404 Not Found\r\nContent-Length: 0\r\n\r\n")

theorem keepAlive_trickyPage : KeepAlive trickyPage where
  closeConnection := rfl
  message_free := by decide
  name_free := by decide
  name_noColon := by decide
  name_isField := by decide
  value_free := by decide
  body_lt := by decide

theorem readAll_trickyPage :
    (∀ r ∈ [trickyPage, trickyPage], KeepAlive r) ∧
    readAll readResponse (stream [trickyPage, trickyPage]).length
        (stream [trickyPage, trickyPage]) =
      some [trickyPage.received, trickyPage.received] := by
  have h : ∀ r ∈ [trickyPage, trickyPage], KeepAlive r := by
    intro r hr
    obtain rfl : r = trickyPage := by simpa using hr
    exact keepAlive_trickyPage
  exact ⟨h, readAll_stream h⟩

end WebServer.Http
