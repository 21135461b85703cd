import WebServer.Http.HttpContext
import WebServer.Lib.Lines

/-! `parseRequest` as a function of the lines of the unread text.  The buffer and its
offsets are gone here; `parseRequest_eq` brings every result back to the code. -/

namespace WebServer.Http

open WebServer.Lib WebServer.Mymuduo

theorem kCRLF_ne_nil : Buffer.kCRLF ≠ [] := by decide

theorem isLine_kCRLF {x : Bytes} : IsLine Buffer.kCRLF x ↔ Free Buffer.kCRLF x :=
  isLine_pair (by decide)

inductive Fed where
  | more (c : HttpContext)
  | reject (c : HttpContext)
  | done (c : HttpContext)

namespace HttpContext

def Ready (c : HttpContext) : Prop :=
  c.state = .kExpectRequestLine ∧ c.request.method = .kInvalid ∨ c.state = .kExpectHeaders

theorem ready_new : new.Ready := .inl ⟨rfl, rfl⟩

theorem processRequestLine_ne_error {r : HttpRequest} (h : r.method = .kInvalid) (line : Bytes)
    (f : Fault) : processRequestLine r line ≠ .error f := by
  simp only [processRequestLine, HttpRequest.setMethod, if_pos h, Except.map]
  split <;> simp

/-- The last two branches are not taken by a context that is ready. -/
def feed (receiveTime : Timestamp) (c : HttpContext) (line : Bytes) : Fed :=
  match c.state with
  | .kExpectRequestLine =>
    match processRequestLine c.request line with
    | .ok (true, r) => .more ⟨.kExpectHeaders, r.setReceiveTime receiveTime⟩
    | .ok (false, r) => .reject { c with request := r }
    | .error _ => .reject c
  | .kExpectHeaders =>
    if kColon ∈ line then
      .more { c with request := c.request.addHeader line (line.idxOf kColon) }
    else .done { c with state := .kGotAll }
  | _ => .reject c

structure Scan where
  ok : Bool
  context : HttpContext
  rest : List Bytes

def parseLines (receiveTime : Timestamp) (c : HttpContext) : List Bytes → Scan
  | [] => ⟨true, c, []⟩
  | l :: ls =>
    match c.feed receiveTime l with
    | .more c => parseLines receiveTime c ls
    | .reject c => ⟨false, c, l :: ls⟩
    | .done c => ⟨true, c, ls⟩

variable {t : Timestamp} {c : HttpContext} {buf : Buffer}

theorem feed_more_ready {c' : HttpContext} {l : Bytes} (h : c.feed t l = .more c') :
    c'.state = .kExpectHeaders := by
  simp only [feed] at h
  split at h
  · split at h <;> cases h
    rfl
  · next hs =>
    split at h <;> cases h
    exact hs
  · cases h

theorem parseStep_line (hc : c.Ready) {l rest : Bytes} (hl : IsLine Buffer.kCRLF l)
    (hpeek : buf.peek = l ++ Buffer.kCRLF ++ rest) :
    parseStep t ⟨true, true, c, buf⟩ = .ok
      (match c.feed t l with
       | .more c => ⟨true, true, c, buf.retrieveUntil (l.length + 2)⟩
       | .reject c => ⟨false, false, c, buf⟩
       | .done c => ⟨true, false, c, buf.retrieveUntil (l.length + 2)⟩) := by
  have hcrlf : buf.findCRLF = some l.length := by
    rw [Buffer.findCRLF, hpeek, search_line kCRLF_ne_nil hl]
  have htake : buf.peek.take l.length = l := by rw [hpeek, List.append_assoc, List.take_left]
  rcases hc with ⟨hstate, hmethod⟩ | hstate
  · simp only [parseStep, feed, hstate, hcrlf, htake]
    cases hr : processRequestLine c.request l with
    | error f => exact absurd hr (processRequestLine_ne_error hmethod l f)
    | ok res =>
      obtain ⟨ok, r⟩ := res
      cases ok <;> simp [Except.map]
  · simp only [parseStep, feed, hstate, hcrlf, htake]
    by_cases hcolon : kColon ∈ l
    · have : l.idxOf kColon ≠ l.length := (List.idxOf_lt_length_of_mem hcolon).ne
      simp [hcolon, this]
    · simp [hcolon]

theorem parseStep_noLine (hc : c.Ready) (hfree : Free Buffer.kCRLF buf.peek) :
    parseStep t ⟨true, true, c, buf⟩ = .ok ⟨true, false, c, buf⟩ := by
  have hcrlf : buf.findCRLF = none := search_eq_none_iff.mpr hfree
  rcases hc with ⟨hstate, -⟩ | hstate <;> simp only [parseStep, hstate, hcrlf]

theorem parse_loop {ls : List Bytes} {rest : Bytes} (hls : ∀ l ∈ ls, IsLine Buffer.kCRLF l)
    (hrest : Free Buffer.kCRLF rest) (hc : c.Ready)
    (hpeek : buf.peek = joinLines Buffer.kCRLF ls ++ rest) {n : Nat} (hn : ls.length + 2 ≤ n) :
    ∃ b, whileLoop Parse.hasMore (parseStep t) .nontermination n ⟨true, true, c, buf⟩ =
        .ok ⟨(parseLines t c ls).ok, false, (parseLines t c ls).context, b⟩ ∧
      b.peek = joinLines Buffer.kCRLF (parseLines t c ls).rest ++ rest := by
  -- induction on the lines; every round but the last one reads one of them
  induction ls generalizing c buf n with
  | nil =>
    obtain ⟨n, rfl⟩ : ∃ m, n = m + 2 := ⟨n - 2, by simp at hn; omega⟩
    have hfree : Free Buffer.kCRLF buf.peek := by simpa [hpeek] using hrest
    rw [whileLoop_of_true rfl (parseStep_noLine hc hfree), whileLoop_of_false rfl]
    exact ⟨buf, rfl, hpeek⟩
  | cons l ls ih =>
    obtain ⟨n, rfl⟩ : ∃ m, n = m + 2 := ⟨n - 2, by simp at hn; omega⟩
    have hpeek' : buf.peek = l ++ Buffer.kCRLF ++ (joinLines Buffer.kCRLF ls ++ rest) := by
      simpa using hpeek
    have hdrop : (buf.retrieveUntil (l.length + 2)).peek = joinLines Buffer.kCRLF ls ++ rest := by
      rw [Buffer.peek_retrieveUntil, hpeek', List.drop_left' (by simp [Buffer.kCRLF])]
    rw [whileLoop_of_true rfl (parseStep_line hc (hls l (by simp)) hpeek')]
    simp only [parseLines]
    cases hfeed : c.feed t l with
    | more c' =>
      simp only [List.length_cons] at hn
      exact ih (fun x hx => hls x (by simp [hx])) (.inr (feed_more_ready hfeed)) hdrop (by omega)
    | reject c' =>
      rw [whileLoop_of_false rfl]
      exact ⟨_, rfl, hpeek⟩
    | done c' =>
      rw [whileLoop_of_false rfl]
      exact ⟨_, rfl, hdrop⟩

theorem parseRequest_eq (hc : c.Ready) {ls : List Bytes} {rest : Bytes}
    (hls : ∀ l ∈ ls, IsLine Buffer.kCRLF l) (hrest : Free Buffer.kCRLF rest)
    (hpeek : buf.peek = joinLines Buffer.kCRLF ls ++ rest) (t : Timestamp) :
    ∃ b, parseRequest c buf t =
        .ok ⟨(parseLines t c ls).ok, false, (parseLines t c ls).context, b⟩ ∧
      b.peek = joinLines Buffer.kCRLF (parseLines t c ls).rest ++ rest := by
  have hlen := length_le_joinLines kCRLF_ne_nil ls
  have hsize : buf.readableBytes = (joinLines Buffer.kCRLF ls).length + rest.length := by
    rw [← Buffer.length_peek, hpeek, List.length_append]
  exact parse_loop hls hrest hc hpeek (by omega)

end HttpContext

end WebServer.Http
