import WebServer.Http.Grammar

namespace WebServer.Http

open WebServer.Mymuduo

structure IsRequestLine (line m target v : Bytes) : Prop where
  text : line = m ++ [kSpace] ++ target ++ [kSpace] ++ v
  method : m ∈ [ascii "GET", ascii "POST", ascii "HEAD", ascii "PUT", ascii "DELETE"]
  target_noSpace : kSpace ∉ target
  version : v = ascii "HTTP/1.0" ∨ v = ascii "HTTP/1.1"

structure HttpRequest.Decomposes (r : HttpRequest) (line m target v : Bytes) : Prop where
  method : HttpRequest.methodString r.method = m
  version : versionString r.version = v
  path : kQuestion ∉ r.path
  query : r.query = [] ∨ r.query.head? = some kQuestion
  target : r.path ++ r.query = target
  render : HttpRequest.methodString r.method ++ [kSpace] ++ r.path ++ r.query ++ [kSpace] ++
    versionString r.version = line

namespace RequestLine

theorem isRequestLine_text (q : RequestLine) : IsRequestLine q.text
    (HttpRequest.methodString q.method) q.target (versionString q.version) where
  text := by simp [text]
  method := by
    have hknown := q.method_known
    revert hknown
    cases q.method <;> decide
  target_noSpace := q.target_noSpace
  version := by
    have hknown := q.version_known
    revert hknown
    cases q.version <;> decide

theorem methodOf_known {m : Bytes}
    (h : m ∈ [ascii "GET", ascii "POST", ascii "HEAD", ascii "PUT", ascii "DELETE"]) :
    HttpRequest.methodOf m ≠ .kInvalid := by
  simp only [List.mem_cons, List.not_mem_nil, or_false] at h
  rcases h with rfl | rfl | rfl | rfl | rfl <;> decide

theorem exists_of_isRequestLine {line m target v : Bytes} (h : IsRequestLine line m target v) :
    ∃ q : RequestLine, q.text = line ∧ HttpRequest.methodString q.method = m ∧
      q.target = target ∧ versionString q.version = v := by
  have hknown := methodOf_known h.method
  have hmethod := HttpRequest.methodString_methodOf hknown
  obtain ⟨version, hversion, hv⟩ : ∃ version, version ≠ Version.kUnknown ∧
      versionString version = v := by
    rcases h.version with rfl | rfl
    · exact ⟨.kHttp10, by decide, rfl⟩
    · exact ⟨.kHttp11, by decide, rfl⟩
  refine ⟨⟨HttpRequest.methodOf m, target, version, hknown, h.target_noSpace, hversion⟩, ?_,
    hmethod, rfl, hv⟩
  simp [text, hmethod, hv, h.text]

end RequestLine

namespace HttpContext

variable {r : HttpRequest} {target : Bytes}

theorem processTarget_fields (hquery : r.query = []) (target : Bytes) :
    kQuestion ∉ (processTarget r target).path ∧
      ((processTarget r target).query = [] ∨
        (processTarget r target).query.head? = some kQuestion) ∧
      (processTarget r target).path ++ (processTarget r target).query = target := by
  by_cases hquestion : target.idxOf kQuestion = target.length
  · have heq : processTarget r target = r.setPath target := by
      simp only [processTarget, hquestion, ne_eq, not_true_eq_false, if_false]
    have hnone : kQuestion ∉ target := fun hmem =>
      (List.idxOf_lt_length_of_mem hmem).ne hquestion
    simp only [heq, HttpRequest.setPath, hquery, List.append_nil]
    exact ⟨hnone, .inl trivial, trivial⟩
  · obtain ⟨path, query, rfl, hpath⟩ := exists_cut hquestion
    simp only [processTarget, idxOf_cut hpath]
    simp [HttpRequest.setPath, HttpRequest.setQuery, hpath]

theorem decomposes_setOn (q : RequestLine) (hquery : r.query = []) :
    (q.setOn r).Decomposes q.text (HttpRequest.methodString q.method) q.target
      (versionString q.version) := by
  obtain ⟨hpath, hhead, htarget⟩ :=
    processTarget_fields (r := { r with method := q.method }) hquery q.target
  have hmethod : (q.setOn r).method = q.method := by
    simp only [RequestLine.setOn, processTarget]
    split <;> rfl
  refine ⟨by rw [hmethod], rfl, hpath, hhead, htarget, ?_⟩
  have hfields : (q.setOn r).path ++ (q.setOn r).query = q.target := htarget
  have hversion : (q.setOn r).version = q.version := rfl
  rw [hmethod, hversion, RequestLine.text, List.append_assoc _ (q.setOn r).path, hfields]
  simp

/-- `processRequestLine` accepts the lines of the grammar and no others, and the fields of the
request then hold the parts. -/
theorem processRequestLine_iff (hmethod : r.method = .kInvalid) (hquery : r.query = [])
    (line : Bytes) : ∃ ok r', processRequestLine r line = .ok (ok, r') ∧
      (ok = true ↔ ∃ m target v, IsRequestLine line m target v) ∧
      ∀ m target v, IsRequestLine line m target v → r'.Decomposes line m target v := by
  cases hres : processRequestLine r line with
  | error f => exact absurd hres (processRequestLine_ne_error hmethod line f)
  | ok res =>
    obtain ⟨ok, r'⟩ := res
    -- what the grammar has is accepted, with the fields of the line
    have haccept : ∀ m target v, IsRequestLine line m target v →
        ok = true ∧ r'.Decomposes line m target v := by
      intro m target v h
      obtain ⟨q, rfl, rfl, rfl, rfl⟩ := RequestLine.exists_of_isRequestLine h
      obtain ⟨rfl, rfl⟩ : ok = true ∧ r' = q.setOn r := by
        have heq := hres.symm.trans (q.processRequestLine_text hmethod)
        simpa using heq
      exact ⟨rfl, decomposes_setOn q hquery⟩
    refine ⟨ok, r', rfl, ⟨?_, ?_⟩, fun m target v h => (haccept m target v h).2⟩
    · rintro rfl
      obtain ⟨q, rfl⟩ := RequestLine.exists_of_processRequestLine hmethod hres
      exact ⟨_, _, _, q.isRequestLine_text⟩
    · rintro ⟨m, target, v, h⟩
      exact (haccept m target v h).1

theorem processRequestLine_getQuery : ∃ r',
    processRequestLine .new (ascii "GET /a?b HTTP/1.1") = .ok (true, r') ∧
      r'.Decomposes (ascii "GET /a?b HTTP/1.1") (ascii "GET") (ascii "/a?b")
        (ascii "HTTP/1.1") := by
  have hline : IsRequestLine (ascii "GET /a?b HTTP/1.1") (ascii "GET") (ascii "/a?b")
      (ascii "HTTP/1.1") := ⟨by decide, by decide, by decide, .inr rfl⟩
  obtain ⟨ok, r', hok, hiff, hparts⟩ := processRequestLine_iff (r := .new) rfl rfl
    (ascii "GET /a?b HTTP/1.1")
  obtain rfl : ok = true := hiff.mpr ⟨_, _, _, hline⟩
  exact ⟨r', hok, hparts _ _ _ hline⟩

end HttpContext

end WebServer.Http
