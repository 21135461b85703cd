import WebServer.Http.LineParser

namespace WebServer.Http

open WebServer.Lib WebServer.Mymuduo

def versionString : Version → Bytes
  | .kUnknown => []
  | .kHttp10 => ascii "HTTP/1.0"
  | .kHttp11 => ascii "HTTP/1.1"

structure RequestLine where
  method : Method
  target : Bytes
  version : Version
  method_known : method ≠ .kInvalid
  target_noSpace : kSpace ∉ target
  version_known : version ≠ .kUnknown

def RequestLine.getRoot : RequestLine where
  method := .kGet
  target := ascii "/"
  version := .kHttp11
  method_known := by decide
  target_noSpace := by decide
  version_known := by decide

theorem RequestLine.getRoot_free : Free Buffer.kCRLF getRoot.target := by decide

theorem idxOf_cut {a : UInt8} {x : Bytes} (hx : a ∉ x) (t : Bytes) :
    (x ++ a :: t).idxOf a = x.length := by
  rw [List.idxOf_append_of_notMem hx, List.idxOf_cons_self, Nat.add_zero]

theorem drop_cut (a : UInt8) (x t : Bytes) : (x ++ a :: t).drop (x.length + 1) = t := by
  rw [← List.drop_drop, List.drop_left, List.drop_one, List.tail_cons]

theorem exists_cut {a : UInt8} {l : Bytes} (h : l.idxOf a ≠ l.length) :
    ∃ x t, l = x ++ a :: t ∧ a ∉ x := by
  have hmem : a ∈ l := by
    by_contra hn
    exact h (List.idxOf_eq_length hn)
  exact List.eq_append_cons_of_mem hmem

theorem methodString_noSpace (m : Method) : kSpace ∉ HttpRequest.methodString m := by
  cases m <;> decide

namespace HttpContext

variable {r r' : HttpRequest}

theorem processVersion_versionString {v : Version} (h : v ≠ .kUnknown) (r : HttpRequest) :
    processVersion r (versionString v) = (true, r.setVersion v) := by
  cases v with
  | kUnknown => exact absurd rfl h
  | kHttp10 => rfl
  | kHttp11 => rfl

theorem eq_versionString {s : Bytes} {d : UInt8} (hlen : s.length = 8)
    (htake : s.take 7 = ascii "HTTP/1.") (hlast : s.getLast? = some d) :
    s = ascii "HTTP/1." ++ [d] := by
  rw [← List.dropLast_append_getLast? d hlast, List.dropLast_eq_take, hlen, htake]

theorem processVersion_true {s : Bytes} (h : (processVersion r s).1 = true) :
    ∃ v, v ≠ .kUnknown ∧ s = versionString v := by
  simp only [processVersion] at h
  split_ifs at h with hhead h1 h0
  · exact ⟨.kHttp11, by decide, eq_versionString hhead.1 hhead.2 h1⟩
  · exact ⟨.kHttp10, by decide, eq_versionString hhead.1 hhead.2 h0⟩

theorem processRequestLine_cut (h : r.method = .kInvalid) {m target : Bytes}
    (hm : kSpace ∉ m) (htarget : kSpace ∉ target) (v : Bytes) :
    processRequestLine r (m ++ kSpace :: (target ++ kSpace :: v)) =
      .ok (if HttpRequest.methodOf m = .kInvalid then (false, { r with method := .kInvalid })
        else
          processVersion (processTarget { r with method := HttpRequest.methodOf m } target) v) := by
  simp only [processRequestLine, idxOf_cut hm, idxOf_cut htarget, drop_cut, List.take_left,
    HttpRequest.setMethod, if_pos h, Except.map]
  by_cases hknown : HttpRequest.methodOf m = .kInvalid <;> simp [hknown]

theorem exists_cuts (h : r.method = .kInvalid) {l : Bytes}
    (hl : processRequestLine r l = .ok (true, r')) :
    ∃ m target v, kSpace ∉ m ∧ kSpace ∉ target ∧ l = m ++ kSpace :: (target ++ kSpace :: v) := by
  simp only [processRequestLine, HttpRequest.setMethod, if_pos h, Except.map] at hl
  split at hl
  · next hspace =>
    obtain ⟨m, start, rfl, hm⟩ := exists_cut hspace
    rw [idxOf_cut hm, drop_cut] at hl
    split at hl
    · split at hl
      · next hspace' =>
        obtain ⟨target, v, rfl, htarget⟩ := exists_cut hspace'
        exact ⟨m, target, v, hm, htarget, rfl⟩
      · cases hl
    · cases hl
  · cases hl

end HttpContext

namespace RequestLine

def text (q : RequestLine) : Bytes :=
  HttpRequest.methodString q.method ++ kSpace :: (q.target ++ kSpace :: versionString q.version)

def setOn (q : RequestLine) (r : HttpRequest) : HttpRequest :=
  (HttpContext.processTarget { r with method := q.method } q.target).setVersion q.version

theorem setOn_headers (q : RequestLine) (r : HttpRequest) : (q.setOn r).headers = r.headers := by
  simp only [setOn, HttpContext.processTarget]
  split <;> rfl

theorem processRequestLine_text (q : RequestLine) {r : HttpRequest} (h : r.method = .kInvalid) :
    HttpContext.processRequestLine r q.text = .ok (true, q.setOn r) := by
  rw [text, HttpContext.processRequestLine_cut h (methodString_noSpace q.method) q.target_noSpace,
    HttpRequest.methodOf_methodString q.method_known, if_neg q.method_known,
    HttpContext.processVersion_versionString q.version_known, setOn]

theorem exists_of_processRequestLine {r r' : HttpRequest} {l : Bytes}
    (h : r.method = .kInvalid) (hl : HttpContext.processRequestLine r l = .ok (true, r')) :
    ∃ q : RequestLine, l = q.text := by
  obtain ⟨m, target, v, hm, htarget, rfl⟩ := HttpContext.exists_cuts h hl
  rw [HttpContext.processRequestLine_cut h hm htarget] at hl
  split at hl
  · cases hl
  · next hknown =>
    obtain ⟨version, hversion, rfl⟩ := HttpContext.processVersion_true
      (r := HttpContext.processTarget { r with method := HttpRequest.methodOf m } target)
      (s := v) (by rw [Except.ok.inj hl])
    refine ⟨⟨HttpRequest.methodOf m, target, version, hknown, htarget, hversion⟩, ?_⟩
    rw [text, HttpRequest.methodString_methodOf hknown]

theorem processRequestLine_cases {r : HttpRequest} (h : r.method = .kInvalid) (l : Bytes) :
    (∃ q : RequestLine, l = q.text ∧
      HttpContext.processRequestLine r l = .ok (true, q.setOn r)) ∨
    (¬ ∃ q : RequestLine, l = q.text) ∧
      ∃ r', HttpContext.processRequestLine r l = .ok (false, r') := by
  cases hline : HttpContext.processRequestLine r l with
  | error f => exact absurd hline (HttpContext.processRequestLine_ne_error h l f)
  | ok res =>
    obtain ⟨ok, r'⟩ := res
    cases ok with
    | true =>
      obtain ⟨q, rfl⟩ := exists_of_processRequestLine h hline
      exact .inl ⟨q, rfl, hline ▸ q.processRequestLine_text h⟩
    | false =>
      refine .inr ⟨?_, r', rfl⟩
      rintro ⟨q, rfl⟩
      cases hline.symm.trans (q.processRequestLine_text h)

theorem text_free (q : RequestLine) (h : Free Buffer.kCRLF q.target) :
    Free Buffer.kCRLF q.text := by
  have hmethod : Free Buffer.kCRLF (HttpRequest.methodString q.method) := by
    cases q.method <;> decide
  have hversion : Free Buffer.kCRLF (versionString q.version) := by
    cases q.version <;> decide
  have hspace : kSpace ∉ Buffer.kCRLF := by decide
  have hrest := (free_cut kCRLF_ne_nil hspace).mpr ⟨h, hversion⟩
  exact (free_cut kCRLF_ne_nil hspace).mpr ⟨hmethod, hrest⟩

end RequestLine

def headerLine (h : Bytes × Bytes) : Bytes := h.1 ++ kColon :: kSpace :: h.2

theorem isLine_field {name rest : Bytes} (hname : Free Buffer.kCRLF name)
    (hrest : Free Buffer.kCRLF rest) : IsLine Buffer.kCRLF (name ++ kColon :: rest) :=
  isLine_kCRLF.mpr ((free_cut kCRLF_ne_nil (by decide)).mpr ⟨hname, hrest⟩)

theorem isLine_headerLine {h : Bytes × Bytes} (hname : Free Buffer.kCRLF h.1)
    (hvalue : Free Buffer.kCRLF h.2) : IsLine Buffer.kCRLF (headerLine h) := by
  have hspaced : Free Buffer.kCRLF (kSpace :: h.2) :=
    (free_cut (x := []) kCRLF_ne_nil (by decide)).mpr ⟨by decide, hvalue⟩
  exact isLine_field hname hspaced

structure RequestText where
  line : RequestLine
  headers : List (Bytes × Bytes)
  target_free : Free Buffer.kCRLF line.target
  name_noColon : ∀ h ∈ headers, kColon ∉ h.1
  name_free : ∀ h ∈ headers, Free Buffer.kCRLF h.1
  value_free : ∀ h ∈ headers, Free Buffer.kCRLF h.2

namespace HttpContext

variable {t : Timestamp}

def addLine (r : HttpRequest) (l : Bytes) : HttpRequest := r.addHeader l (l.idxOf kColon)

theorem parseLines_colons {hs : List Bytes} (h : ∀ l ∈ hs, kColon ∈ l) (r : HttpRequest)
    (more : List Bytes) :
    parseLines t ⟨.kExpectHeaders, r⟩ (hs ++ more) =
      parseLines t ⟨.kExpectHeaders, hs.foldl addLine r⟩ more := by
  induction hs generalizing r with
  | nil => rfl
  | cons l hs ih =>
    simp only [List.cons_append, parseLines, feed, if_pos (h l (by simp)), List.foldl_cons]
    exact ih (fun x hx => h x (by simp [hx])) (addLine r l)

theorem parseLines_end {l : Bytes} (h : kColon ∉ l) (r : HttpRequest) (more : List Bytes) :
    parseLines t ⟨.kExpectHeaders, r⟩ (l :: more) = ⟨true, ⟨.kGotAll, r⟩, more⟩ := by
  simp only [parseLines, feed, if_neg h]

theorem parseLines_requestLine (q : RequestLine) (more : List Bytes) :
    parseLines t new (q.text :: more) =
      parseLines t ⟨.kExpectHeaders, (q.setOn .new).setReceiveTime t⟩ more := by
  have hline := q.processRequestLine_text (r := .new) rfl
  simp only [parseLines, feed, new, hline]

theorem parseLines_rejected {l : Bytes} (h : ¬ ∃ q : RequestLine, l = q.text) (t : Timestamp)
    (more : List Bytes) :
    ∃ r, parseLines t new (l :: more) = ⟨false, ⟨.kExpectRequestLine, r⟩, l :: more⟩ := by
  rcases RequestLine.processRequestLine_cases (r := .new) rfl l with ⟨q, hq, -⟩ | ⟨-, r, hline⟩
  · exact absurd ⟨q, hq⟩ h
  · exact ⟨r, by simp only [parseLines, feed, new, hline]⟩

theorem parseLines_open (q : RequestLine) {hs : List Bytes} (h : ∀ l ∈ hs, kColon ∈ l) :
    parseLines t new (q.text :: hs) =
      ⟨true, ⟨.kExpectHeaders, hs.foldl addLine ((q.setOn .new).setReceiveTime t)⟩, []⟩ := by
  rw [parseLines_requestLine, ← List.append_nil hs, parseLines_colons h, List.append_nil]
  rfl

theorem addLine_field {name : Bytes} (hn : kColon ∉ name) (r : HttpRequest) (rest : Bytes) :
    addLine r (name ++ kColon :: rest) =
      { r with headers := r.headers.insert name (HttpRequest.trim rest) } := by
  simp only [addLine, HttpRequest.addHeader, idxOf_cut hn, drop_cut, List.take_left]

theorem addLine_headerLine {h : Bytes × Bytes} (hn : kColon ∉ h.1) (r : HttpRequest) :
    addLine r (headerLine h) =
      { r with headers := r.headers.insert h.1 (HttpRequest.trim h.2) } := by
  rw [headerLine, addLine_field hn]
  rfl

theorem foldl_headerLine {hs : List (Bytes × Bytes)} (hn : ∀ h ∈ hs, kColon ∉ h.1)
    (r : HttpRequest) :
    (hs.map headerLine).foldl addLine r =
      { r with
        headers := hs.foldl (fun m h => m.insert h.1 (HttpRequest.trim h.2)) r.headers } := by
  induction hs generalizing r with
  | nil => rfl
  | cons h hs ih =>
    rw [List.map_cons, List.foldl_cons, addLine_headerLine (hn h (by simp)),
      ih fun x hx => hn x (by simp [hx])]
    rfl

end HttpContext

namespace RequestText

def lines (q : RequestText) : List Bytes := q.line.text :: q.headers.map headerLine ++ [[]]

def text (q : RequestText) : Bytes := joinLines Buffer.kCRLF q.lines

def headerMap (q : RequestText) : OrdMap Bytes Bytes :=
  q.headers.foldl (fun m h => m.insert h.1 (HttpRequest.trim h.2)) .empty

def request (q : RequestText) (t : Timestamp) : HttpRequest :=
  { (q.line.setOn .new).setReceiveTime t with headers := q.headerMap }

theorem lines_isLine (q : RequestText) : ∀ l ∈ q.lines, IsLine Buffer.kCRLF l := by
  intro l hl
  simp only [lines, List.cons_append, List.mem_cons, List.mem_append, List.mem_map,
    List.not_mem_nil, or_false] at hl
  rcases hl with rfl | ⟨h, hh, rfl⟩ | rfl
  · exact isLine_kCRLF.mpr (q.line.text_free q.target_free)
  · exact isLine_headerLine (q.name_free h hh) (q.value_free h hh)
  · exact isLine_kCRLF.mpr (by decide)

theorem mem_kColon_headerLine (h : Bytes × Bytes) : kColon ∈ headerLine h := by
  simp [headerLine]

theorem mem_kColon_of_between {q : RequestText} {done ls more : List Bytes} {m x : Bytes}
    (h : q.lines = done ++ (m :: ls ++ x :: more)) : ∀ l ∈ ls, kColon ∈ l := by
  intro l hl
  have hmiddle : q.lines.dropLast.tail = q.headers.map headerLine := by
    rw [lines, List.dropLast_concat, List.tail_cons]
  have hmem : l ∈ q.lines.dropLast.tail := by
    rw [h, List.dropLast_append_of_ne_nil (by simp), List.dropLast_append_of_ne_nil (by simp)]
    cases done with
    | nil => simp [hl]
    | cons y done => simp [hl]
  rw [hmiddle] at hmem
  obtain ⟨y, -, rfl⟩ := List.mem_map.mp hmem
  exact mem_kColon_headerLine y

theorem parseLines_lines (q : RequestText) (t : Timestamp) (more : List Bytes) :
    HttpContext.parseLines t .new (q.lines ++ more) =
      ⟨true, ⟨.kGotAll, q.request t⟩, more⟩ := by
  have hcolon : ∀ l ∈ q.headers.map headerLine, kColon ∈ l := by
    intro l hl
    obtain ⟨h, -, rfl⟩ := List.mem_map.mp hl
    exact mem_kColon_headerLine h
  rw [lines, List.cons_append, List.cons_append, List.append_assoc,
    HttpContext.parseLines_requestLine, HttpContext.parseLines_colons hcolon,
    HttpContext.foldl_headerLine q.name_noColon, List.singleton_append,
    HttpContext.parseLines_end List.not_mem_nil]
  simp only [request, headerMap, HttpRequest.setReceiveTime, RequestLine.setOn_headers]
  rfl

end RequestText

end WebServer.Http
