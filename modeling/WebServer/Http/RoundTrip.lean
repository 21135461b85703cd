import WebServer.Http.Grammar

namespace WebServer.Http

open WebServer.Lib WebServer.Mymuduo

structure PlainRequest where
  method : Method
  path : Bytes
  query : Bytes
  version : Version
  headers : List (Bytes × Bytes)
  method_known : method ≠ .kInvalid
  path_noSpace : kSpace ∉ path
  path_noQuestion : kQuestion ∉ path
  path_free : Free Buffer.kCRLF path
  query_head : query = [] ∨ query.head? = some kQuestion
  query_noSpace : kSpace ∉ query
  query_free : Free Buffer.kCRLF query
  version_known : version ≠ .kUnknown
  name_noColon : ∀ h ∈ headers, kColon ∉ h.1
  name_free : ∀ h ∈ headers, Free Buffer.kCRLF h.1
  value_free : ∀ h ∈ headers, Free Buffer.kCRLF h.2
  value_head : ∀ h ∈ headers, ∀ c, h.2.head? = some c → isspace c = false
  value_last : ∀ h ∈ headers, ∀ c, h.2.getLast? = some c → isspace c = false

namespace PlainRequest

def render (r : PlainRequest) : Bytes :=
  HttpRequest.methodString r.method ++ [kSpace] ++ r.path ++ r.query ++ [kSpace] ++
    versionString r.version ++ Buffer.kCRLF ++
    (r.headers.map fun h => h.1 ++ ascii ": " ++ h.2 ++ Buffer.kCRLF).flatten ++ Buffer.kCRLF

/-- The context has parsed exactly `r`; the last value of a repeated name counts. -/
def ParsedAs (r : PlainRequest) (t : Timestamp) (c : HttpContext) : Prop :=
  c.gotAll = true ∧ c.request.method = r.method ∧ c.request.path = r.path ∧
    c.request.query = r.query ∧ c.request.version = r.version ∧ c.request.receiveTime = t ∧
    ∀ name, c.request.headers.find name =
      (r.headers.filter fun h => h.1 = name).getLast?.map Prod.snd

theorem target_free (r : PlainRequest) : Free Buffer.kCRLF (r.path ++ r.query) := by
  rcases r.query_head with hnil | hhead
  · rw [hnil, List.append_nil]
    exact r.path_free
  · obtain ⟨tail, htail⟩ := List.head?_eq_some_iff.mp hhead
    have hquery := r.query_free
    rw [htail] at hquery ⊢
    exact (free_cut kCRLF_ne_nil (by decide)).mpr
      ⟨r.path_free, fun h => hquery (List.infix_cons h)⟩

def toText (r : PlainRequest) : RequestText where
  line :=
    { method := r.method
      target := r.path ++ r.query
      version := r.version
      method_known := r.method_known
      target_noSpace := by simp [r.path_noSpace, r.query_noSpace]
      version_known := r.version_known }
  headers := r.headers
  target_free := r.target_free
  name_noColon := r.name_noColon
  name_free := r.name_free
  value_free := r.value_free

theorem render_eq (r : PlainRequest) : r.render = r.toText.text := by
  have hheader : ∀ h : Bytes × Bytes,
      h.1 ++ ascii ": " ++ h.2 ++ Buffer.kCRLF = headerLine h ++ Buffer.kCRLF := by
    intro h
    simp [headerLine, show ascii ": " = [kColon, kSpace] from rfl]
  simp only [render, hheader]
  simp [RequestText.text, RequestText.lines, RequestLine.text, toText, joinLines,
    Function.comp_def]

theorem flatten_render (rs : List (PlainRequest × Timestamp)) :
    (rs.map fun r => r.1.render).flatten =
      joinLines Buffer.kCRLF (rs.map fun r => r.1.toText.lines).flatten := by
  induction rs with
  | nil => rfl
  | cons r rs ih =>
    rw [List.map_cons, List.flatten_cons, List.map_cons, List.flatten_cons, joinLines_append, ih,
      render_eq]
    rfl

theorem processTarget_append (r : PlainRequest) {q : HttpRequest} (hq : q.query = []) :
    HttpContext.processTarget q (r.path ++ r.query) =
      { q with path := r.path, query := r.query } := by
  rcases r.query_head with hnil | hhead
  · have hidx : r.path.idxOf kQuestion = r.path.length := List.idxOf_eq_length r.path_noQuestion
    simp only [HttpContext.processTarget, hnil, List.append_nil, hidx]
    simp [HttpRequest.setPath, hq]
  · obtain ⟨tail, htail⟩ := List.head?_eq_some_iff.mp hhead
    have hidx := idxOf_cut r.path_noQuestion tail
    simp [HttpContext.processTarget, htail, hidx, HttpRequest.setPath, HttpRequest.setQuery]

theorem trim_eq {v : Bytes} (hhead : ∀ c, v.head? = some c → isspace c = false)
    (hlast : ∀ c, v.getLast? = some c → isspace c = false) : HttpRequest.trim v = v := by
  have hdrop : v.dropWhile isspace = v := by
    cases v with
    | nil => rfl
    | cons c v => exact List.dropWhile_cons_of_neg (by simp [hhead c rfl])
  rw [HttpRequest.trim, hdrop, List.rdropWhile_eq_self_iff]
  intro hne
  simp [hlast _ (List.getLast?_eq_some_getLast hne)]

theorem find_headerMap (r : PlainRequest) (name : Bytes) :
    r.toText.headerMap.find name =
      (r.headers.filter fun h => h.1 = name).getLast?.map Prod.snd := by
  have htrim : ∀ h ∈ r.headers, HttpRequest.trim h.2 = h.2 := fun h hh =>
    trim_eq (r.value_head h hh) (r.value_last h hh)
  have hmap : r.toText.headerMap = OrdMap.ofList r.headers := by
    refine List.foldl_ext _ _ _ fun m h hh => ?_
    rw [htrim h hh]
  rw [hmap]
  convert OrdMap.find_ofList r.headers name

theorem parsedAs_request (r : PlainRequest) (t : Timestamp) :
    r.ParsedAs t ⟨.kGotAll, r.toText.request t⟩ := by
  have hline : r.toText.line.setOn .new =
      { HttpRequest.new with
        method := r.method, path := r.path, query := r.query, version := r.version } := by
    simp only [RequestLine.setOn, toText]
    rw [processTarget_append r (by rfl)]
    rfl
  refine ⟨rfl, ?_, ?_, ?_, ?_, rfl, r.find_headerMap⟩ <;>
    simp only [RequestText.request, hline] <;> rfl

end PlainRequest

namespace HttpContext

/-- `parseRequest` and `reset` in turn, at the given times: the verdicts with the contexts
before each `reset`, and the context and the buffer at the end. -/
def parseReset : List Timestamp → HttpContext → Buffer →
    Except Fault (List (Bool × HttpContext) × HttpContext × Buffer)
  | [], c, b => .ok ([], c, b)
  | t :: ts, c, b =>
    (c.parseRequest b t).bind fun p =>
      (parseReset ts p.context.reset p.buf).map fun (ps, c, b) => ((p.ok, p.context) :: ps, c, b)

theorem parseRequest_text (q : RequestText) {b : Buffer} {more : List Bytes} {rest : Bytes}
    (hmore : ∀ l ∈ more, IsLine Buffer.kCRLF l) (hrest : Free Buffer.kCRLF rest)
    (hpeek : b.peek = q.text ++ joinLines Buffer.kCRLF more ++ rest) (t : Timestamp) :
    ∃ b', new.parseRequest b t = .ok ⟨true, false, ⟨.kGotAll, q.request t⟩, b'⟩ ∧
      b'.peek = joinLines Buffer.kCRLF more ++ rest := by
  have hls : ∀ l ∈ q.lines ++ more, IsLine Buffer.kCRLF l := by
    intro l hl
    rcases List.mem_append.mp hl with hl | hl
    · exact q.lines_isLine l hl
    · exact hmore l hl
  obtain ⟨b', hp, hb'⟩ := parseRequest_eq ready_new hls hrest
    (by rw [hpeek, joinLines_append, RequestText.text]) t
  rw [q.parseLines_lines t more] at hp hb'
  exact ⟨b', hp, hb'⟩

/-- Parsing a concatenation of rendered requests gives back the requests, and nothing is left. -/
theorem parseReset_render (initialSize : Nat) (rs : List (PlainRequest × Timestamp)) :
    ∃ ps b,
      parseReset (rs.map Prod.snd) .new
        ((Buffer.new initialSize).append (rs.map fun r => r.1.render).flatten) =
          .ok (ps, .new, b) ∧
      List.Forall₂ (fun r p => p.1 = true ∧ r.1.ParsedAs r.2 p.2) rs ps ∧ b.peek = [] := by
  have hbuf : ((Buffer.new initialSize).append (rs.map fun r => r.1.render).flatten).peek =
      joinLines Buffer.kCRLF (rs.map fun r => r.1.toText.lines).flatten := by
    rw [Buffer.peek_append, Buffer.peek_new, List.nil_append, PlainRequest.flatten_render]
  generalize (Buffer.new initialSize).append (rs.map fun r => r.1.render).flatten = b at hbuf ⊢
  induction rs generalizing b with
  | nil => exact ⟨[], b, rfl, .nil, hbuf⟩
  | cons r rs ih =>
    have hmore : ∀ l ∈ (rs.map fun r => r.1.toText.lines).flatten, IsLine Buffer.kCRLF l := by
      intro l hl
      obtain ⟨ls, hls, hmem⟩ := List.mem_flatten.mp hl
      obtain ⟨r, -, rfl⟩ := List.mem_map.mp hls
      exact r.1.toText.lines_isLine l hmem
    have hpeek : b.peek = r.1.toText.text ++
        joinLines Buffer.kCRLF (rs.map fun r => r.1.toText.lines).flatten ++ [] := by
      simp [hbuf, RequestText.text]
    obtain ⟨b', hp, hb'⟩ := parseRequest_text r.1.toText hmore (by decide) hpeek r.2
    obtain ⟨ps, b'', hps, hforall, hempty⟩ := ih b' (by simpa using hb')
    refine ⟨(true, ⟨.kGotAll, r.1.toText.request r.2⟩) :: ps, b'', ?_, .cons ?_ hforall, hempty⟩
    · simp only [List.map_cons, parseReset, hp, Except.bind]
      rw [show reset ⟨.kGotAll, r.1.toText.request r.2⟩ = new from rfl, hps]
      rfl
    · exact ⟨rfl, r.1.parsedAs_request r.2⟩

end HttpContext

end WebServer.Http
