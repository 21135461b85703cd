import WebServer.Http.HttpServer

namespace WebServer.Http

open WebServer.Lib WebServer.Mymuduo

namespace HttpServer

/-- After one call of `onMessage` for the texts of `qs`, every request has been answered, and
nothing is left of them. -/
def AnswersAll (httpCallback : HttpCallback) (c : TcpConnection) (qs : List RequestText)
    (t : Timestamp) (k : Kernel) : Prop :=
  ∃ s, onMessage httpCallback (receive ⟨c, []⟩ (qs.map RequestText.text).flatten) t k = .ok s ∧
    s.served = qs.map (RequestText.request · t) ∧
    passed s = TcpConnection.messages c.log ++
      qs.map (fun q => (respond httpCallback (q.request t)).bytes) ∧
    s.conn.inputBuffer.peek = []

variable (httpCallback : HttpCallback) {c : TcpConnection}

theorem flatten_texts (qs : List RequestText) :
    (qs.map RequestText.text).flatten =
      joinLines Buffer.kCRLF (qs.map RequestText.lines).flatten := by
  induction qs with
  | nil => rfl
  | cons q qs ih => rw [List.map_cons, List.flatten_cons, ih, List.map_cons, List.flatten_cons,
      joinLines_append, RequestText.text]

theorem onMessage_texts (hc : c.state = .kConnected) (hbuf : c.inputBuffer.peek = [])
    (q : RequestText) (qs : List RequestText) (t : Timestamp) (k : Kernel) :
    ∃ s, onMessage httpCallback (receive ⟨c, []⟩ ((q :: qs).map RequestText.text).flatten) t k =
        .ok s ∧
      s.served = [q.request t] ∧
      passed s = TcpConnection.messages c.log ++ [(respond httpCallback (q.request t)).bytes] ∧
      s.conn.inputBuffer.peek = (qs.map RequestText.text).flatten := by
  have hls : ∀ l ∈ ((q :: qs).map RequestText.lines).flatten, IsLine Buffer.kCRLF l := by
    intro l hl
    obtain ⟨ls, hls, hmem⟩ := List.mem_flatten.mp hl
    obtain ⟨q, -, rfl⟩ := List.mem_map.mp hls
    exact q.lines_isLine l hmem
  have hpeek : (receive ⟨c, []⟩ ((q :: qs).map RequestText.text).flatten).conn.inputBuffer.peek =
      joinLines Buffer.kCRLF ((q :: qs).map RequestText.lines).flatten ++ [] := by
    rw [receive, Buffer.peek_append, hbuf, flatten_texts, List.append_nil, List.nil_append]
  obtain ⟨b, hb, hmessage⟩ := onMessage_eq httpCallback hls (by decide) hpeek t k
  have hscan := q.parseLines_lines t (qs.map RequestText.lines).flatten
  rw [← List.flatten_cons, ← List.map_cons] at hscan
  rw [hscan] at hb hmessage
  obtain ⟨hserved, hinput, hpassed⟩ := onRequest_spec httpCallback
    (s := ⟨{ c with inputBuffer := b }, []⟩) hc (q.request t) k.response
  refine ⟨_, hmessage, hserved, hpassed, (congrArg Buffer.peek hinput).trans ?_⟩
  rw [flatten_texts, ← List.append_nil (joinLines _ _)]
  exact hb

variable {httpCallback} in
theorem AnswersAll.length_le (hc : c.state = .kConnected) (hbuf : c.inputBuffer.peek = [])
    {qs : List RequestText} {t : Timestamp} {k : Kernel}
    (h : AnswersAll httpCallback c qs t k) : qs.length ≤ 1 := by
  cases qs with
  | nil => simp
  | cons q qs =>
    obtain ⟨s, hs, hserved, -, -⟩ :=
      onMessage_texts httpCallback hc hbuf q qs t k
    obtain ⟨s', hs', hserved', -, -⟩ := h
    obtain rfl : s = s' := Except.ok.inj (hs.symm.trans hs')
    have hlen := congrArg List.length (hserved.symm.trans hserved')
    simp only [List.length_cons, List.length_nil, List.length_map] at hlen ⊢
    omega

theorem answersAll_nil (hbuf : c.inputBuffer.peek = []) (t : Timestamp) (k : Kernel) :
    AnswersAll httpCallback c [] t k := by
  have hpeek : (receive ⟨c, []⟩ []).conn.inputBuffer.peek = joinLines Buffer.kCRLF [] ++ [] := by
    simp [receive, hbuf]
  obtain ⟨b, hb, hmessage⟩ := onMessage_eq httpCallback
    (s := receive ⟨c, []⟩ []) (by simp) (by decide) hpeek t k
  refine ⟨_, hmessage, rfl, ?_, hb⟩
  simp [HttpContext.parseLines, onParsed, HttpContext.gotAll, HttpContext.new, passed, receive]

/-- All requests of a read are answered exactly when there is at most one. -/
theorem answersAll_iff (hc : c.state = .kConnected) (hbuf : c.inputBuffer.peek = [])
    (qs : List RequestText) (t : Timestamp) (k : Kernel) :
    AnswersAll httpCallback c qs t k ↔ qs.length ≤ 1 := by
  refine ⟨AnswersAll.length_le hc hbuf, fun hlen => ?_⟩
  cases qs with
  | nil => exact answersAll_nil httpCallback hbuf t k
  | cons q qs =>
    obtain rfl : qs = [] := by simpa using hlen
    exact onMessage_texts httpCallback hc hbuf q [] t k

def getRoot : RequestText where
  line := .getRoot
  headers := []
  target_free := RequestLine.getRoot_free
  name_noColon := by simp
  name_free := by simp
  value_free := by simp

theorem answersAll_getRoot :
    AnswersAll defaultHttpCallback (.established false) [getRoot] .invalid ⟨.ok 0, .ok 0, 0⟩ :=
  (answersAll_iff defaultHttpCallback (by decide) (by decide) [getRoot] .invalid
    ⟨.ok 0, .ok 0, 0⟩).mpr (Nat.le_refl 1)

/-- A callback that leaves every connection open is called for the first of two requests only. -/
theorem not_answersAll_two :
    (∀ q ∈ [getRoot, getRoot],
      (respond (fun _ resp => resp) (q.request .invalid)).closeConnection = false) ∧
    ¬ AnswersAll (fun _ resp => resp) (.established false) [getRoot, getRoot] .invalid
      ⟨.ok 0, .ok 0, 0⟩ := by
  refine ⟨?_, fun h => ?_⟩
  · intro q hq
    obtain rfl : q = getRoot := by simpa using hq
    decide
  · exact absurd (h.length_le (by decide) (by decide)) (by decide)

end HttpServer

end WebServer.Http
