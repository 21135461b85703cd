import WebServer.Http.Grammar
import WebServer.Http.Termination

namespace WebServer.Http

open WebServer.Lib WebServer.Mymuduo

structure HttpRequest.Untouched (r : HttpRequest) : Prop where
  method : r.method = .kInvalid
  path : r.path = []
  query : r.query = []

/-- The line is no request line, but it begins with a method and a space. -/
structure MisleadingLine (line : Bytes) : Prop where
  method : ∃ m, m ≠ .kInvalid ∧ HttpRequest.methodString m ++ [kSpace] <+: line
  rejected : ¬ ∃ q : RequestLine, line = q.text

namespace HttpContext

def Fresh (c : HttpContext) : Prop := c.state = .kExpectRequestLine → c.request.Untouched

/-- What a call is to leave usable: the context is fresh before it and after it, the assertion of
`setMethod` does not fail in it, and a rejection changes nothing. -/
structure Usable (s : HttpContext × Buffer) (i : Call) : Prop where
  before : s.1.Fresh
  after : ∀ s', call s i = some s' → s'.1.Fresh
  asserts : ∀ t, i = .parseRequest t → s.1.parseRequest s.2 t ≠ .error .assertion
  rejects : ∀ t p, i = .parseRequest t → s.1.parseRequest s.2 t = .ok p → p.ok = false →
    p.context = s.1 ∧ p.buf = s.2

def MeetsMisleadingLine (s : HttpContext × Buffer) : Call → Prop
  | .parseRequest _ => s.1.state = .kExpectRequestLine ∧
      ∃ crlf, s.2.findCRLF = some crlf ∧ MisleadingLine (s.2.peek.take crlf)
  | _ => False

variable {t : Timestamp} {c : HttpContext} {buf : Buffer} {r r' : HttpRequest} {line : Bytes}

theorem processVersion_method (r : HttpRequest) (version : Bytes) :
    (processVersion r version).2.method = r.method := by
  simp only [processVersion]
  split_ifs <;> rfl

theorem processTarget_method (r : HttpRequest) (target : Bytes) :
    (processTarget r target).method = r.method := by
  simp only [processTarget]
  split <;> rfl

theorem processRequestLine_method (h : r.method = .kInvalid) {m : Method} (hm : m ≠ .kInvalid)
    (hline : HttpRequest.methodString m ++ [kSpace] <+: line) :
    ∃ ok r', processRequestLine r line = .ok (ok, r') ∧ r'.method = m := by
  obtain ⟨start, rfl⟩ := hline
  rw [List.append_assoc, List.singleton_append]
  simp only [processRequestLine, idxOf_cut (methodString_noSpace m), drop_cut, List.take_left,
    HttpRequest.setMethod, if_pos h, Except.map, HttpRequest.methodOf_methodString hm]
  rw [if_pos (by simp), decide_eq_true hm, if_pos rfl]
  have hversion := processVersion_method (processTarget { r with method := m }
    (start.take (start.idxOf kSpace))) (start.drop (start.idxOf kSpace + 1))
  rw [processTarget_method] at hversion
  split
  · exact ⟨_, _, congrArg Except.ok Prod.mk.eta.symm, hversion⟩
  · exact ⟨_, _, rfl, rfl⟩

theorem processRequestLine_unknown (h : r.method = .kInvalid)
    (hline : ∀ m, m ≠ .kInvalid → ¬ HttpRequest.methodString m ++ [kSpace] <+: line) :
    processRequestLine r line = .ok (false, r) := by
  by_cases hspace : line.idxOf kSpace = line.length
  · simp [processRequestLine, hspace]
  · obtain ⟨m, start, rfl, hm⟩ := exists_cut hspace
    have hunknown : HttpRequest.methodOf m = .kInvalid := by
      by_contra hknown
      refine hline _ hknown ?_
      rw [HttpRequest.methodString_methodOf hknown]
      exact ⟨start, by simp⟩
    have hsame : { r with method := .kInvalid } = r := by rw [← h]
    simp only [processRequestLine, idxOf_cut hm, List.take_left, HttpRequest.setMethod, if_pos h,
      Except.map, hunknown, hsame]
    simp

theorem parseStep_headers (t : Timestamp) {p : Parse}
    (h : p.context.state ≠ .kExpectRequestLine) :
    ∃ p', parseStep t p = .ok p' ∧ p'.ok = p.ok ∧ p'.context.state ≠ .kExpectRequestLine := by
  cases hstate : p.context.state with
  | kExpectRequestLine => exact absurd hstate h
  | kExpectHeaders =>
    simp only [parseStep, hstate]
    split
    · split
      · exact ⟨_, rfl, rfl, by simp⟩
      · exact ⟨_, rfl, rfl, by simp⟩
    · exact ⟨_, rfl, rfl, by simp [hstate]⟩
  | kExpectBody => exact ⟨p, by simp only [parseStep, hstate], rfl, h⟩
  | kGotAll => exact ⟨p, by simp only [parseStep, hstate], rfl, h⟩

theorem loop_headers (t : Timestamp) {p : Parse} (hok : p.ok = true)
    (hstate : p.context.state ≠ .kExpectRequestLine) (n : Nat) :
    whileLoop Parse.hasMore (parseStep t) .nontermination n p ≠ .error .assertion ∧
      ∀ p', whileLoop Parse.hasMore (parseStep t) .nontermination n p = .ok p' →
        p'.ok = true ∧ p'.context.state ≠ .kExpectRequestLine := by
  have hkeeps : ∀ a b : Parse, a.ok = true ∧ a.context.state ≠ .kExpectRequestLine →
      a.hasMore = true → parseStep t a = .ok b →
      b.ok = true ∧ b.context.state ≠ .kExpectRequestLine := by
    rintro a b ⟨ha, hline⟩ - hb
    obtain ⟨b', hb', hok', hstate'⟩ := parseStep_headers t hline
    obtain rfl := Except.ok.inj (hb'.symm.trans hb)
    exact ⟨hok'.trans ha, hstate'⟩
  refine ⟨fun herror => ?_, fun p' hp' => (whileLoop_invariant hkeeps ⟨hok, hstate⟩ hp').1⟩
  rcases whileLoop_error hkeeps ⟨hok, hstate⟩ herror with hstuck | ⟨a, ⟨-, hline⟩, ha⟩
  · cases hstuck
  · obtain ⟨b, hb, -, -⟩ := parseStep_headers t hline
    cases hb.symm.trans ha

theorem parseRequest_noLine (hstate : c.state = .kExpectRequestLine)
    (hcrlf : buf.findCRLF = none) : c.parseRequest buf t = .ok ⟨true, false, c, buf⟩ := by
  have hstep : parseStep t ⟨true, true, c, buf⟩ = .ok ⟨true, false, c, buf⟩ := by
    simp only [parseStep, hstate, hcrlf]
  rw [parseRequest, whileLoop_of_true rfl hstep, whileLoop_of_false rfl]

theorem parseRequest_rejected (hstate : c.state = .kExpectRequestLine) {crlf : Nat}
    (hcrlf : buf.findCRLF = some crlf)
    (hline : processRequestLine c.request (buf.peek.take crlf) = .ok (false, r)) :
    c.parseRequest buf t = .ok ⟨false, false, { c with request := r }, buf⟩ := by
  have hstep : parseStep t ⟨true, true, c, buf⟩ =
      .ok ⟨false, false, { c with request := r }, buf⟩ := by
    simp [parseStep, hstate, hcrlf, hline, Except.map]
  rw [parseRequest, whileLoop_of_true rfl hstep, whileLoop_of_false rfl]

theorem parseRequest_accepted (hstate : c.state = .kExpectRequestLine) {crlf : Nat}
    (hcrlf : buf.findCRLF = some crlf)
    (hline : processRequestLine c.request (buf.peek.take crlf) = .ok (true, r)) :
    c.parseRequest buf t ≠ .error .assertion ∧
      ∀ p, c.parseRequest buf t = .ok p → p.ok = true ∧ p.context.state ≠ .kExpectRequestLine := by
  have hstep : parseStep t ⟨true, true, c, buf⟩ = .ok ⟨true, true,
      ⟨.kExpectHeaders, r.setReceiveTime t⟩, buf.retrieveUntil (crlf + 2)⟩ := by
    simp [parseStep, hstate, hcrlf, hline, Except.map]
  rw [parseRequest, whileLoop_of_true rfl hstep]
  exact loop_headers t rfl (by simp) _

theorem parseRequest_usable {s : HttpContext × Buffer} (hs : s.1.Fresh) (t : Timestamp)
    (h : ¬ MeetsMisleadingLine s (.parseRequest t)) :
    s.1.parseRequest s.2 t ≠ .error .assertion ∧
      ∀ p, s.1.parseRequest s.2 t = .ok p → p.context.Fresh ∧
        (p.ok = false → p.context = s.1 ∧ p.buf = s.2) := by
  by_cases hstate : s.1.state = .kExpectRequestLine
  · have hmethod := (hs hstate).method
    cases hcrlf : s.2.findCRLF with
    | none =>
      rw [parseRequest_noLine hstate hcrlf]
      refine ⟨nofun, ?_⟩
      rintro _ ⟨⟩
      exact ⟨hs, nofun⟩
    | some crlf =>
      by_cases haccepted : ∃ q : RequestLine, s.2.peek.take crlf = q.text
      · obtain ⟨q, hq⟩ := haccepted
        obtain ⟨hasserts, hok⟩ := parseRequest_accepted (t := t) hstate hcrlf
          (hq ▸ q.processRequestLine_text hmethod)
        refine ⟨hasserts, fun p hp => ⟨fun hline => absurd hline (hok p hp).2, fun hfail => ?_⟩⟩
        exact absurd ((hok p hp).1.symm.trans hfail) (by simp)
      · have hunknown : ∀ m, m ≠ .kInvalid →
            ¬ HttpRequest.methodString m ++ [kSpace] <+: s.2.peek.take crlf :=
          fun m hm hfront => h ⟨hstate, crlf, hcrlf, ⟨m, hm, hfront⟩, haccepted⟩
        rw [parseRequest_rejected hstate hcrlf (processRequestLine_unknown hmethod hunknown)]
        refine ⟨nofun, ?_⟩
        rintro _ ⟨⟩
        exact ⟨hs, fun _ => ⟨rfl, rfl⟩⟩
  · obtain ⟨hasserts, hok⟩ := loop_headers t (p := ⟨true, true, s.1, s.2⟩) rfl hstate
      (s.2.readableBytes + 2)
    refine ⟨hasserts, fun p hp => ⟨fun hline => absurd hline (hok p hp).2, fun hfail => ?_⟩⟩
    exact absurd ((hok p hp).1.symm.trans hfail) (by simp)

theorem not_usable {s : HttpContext × Buffer} (hs : s.1.Fresh) {i : Call}
    (h : MeetsMisleadingLine s i) : ¬ Usable s i := by
  cases i with
  | parseRequest t =>
    obtain ⟨hstate, crlf, hcrlf, ⟨m, hm, hfront⟩, hrejected⟩ := h
    have hmethod := (hs hstate).method
    obtain ⟨ok, r, hline, hr⟩ := processRequestLine_method hmethod hm hfront
    cases ok with
    | true => exact absurd (RequestLine.exists_of_processRequestLine hmethod hline) hrejected
    | false =>
      intro husable
      obtain ⟨hsame, -⟩ := husable.rejects t _ rfl (parseRequest_rejected hstate hcrlf hline) rfl
      have hkept : m = .kInvalid := by
        rw [← hr, ← hmethod, ← hsame]
      exact hm hkept
  | append data => exact h.elim
  | reset => exact h.elim

theorem usable_iff {s : HttpContext × Buffer} (hs : s.1.Fresh) (i : Call) :
    Usable s i ↔ ¬ MeetsMisleadingLine s i := by
  refine ⟨fun husable hmeets => not_usable hs hmeets husable, fun hnot => ?_⟩
  cases i with
  | parseRequest t =>
    obtain ⟨hasserts, hok⟩ := parseRequest_usable hs t hnot
    refine ⟨hs, fun s' hs' => ?_, ?_, ?_⟩
    · simp only [call] at hs'
      split at hs'
      · next p hp =>
        obtain rfl := Option.some.inj hs'
        exact (hok p hp).1
      · cases hs'
    · rintro _ ⟨⟩
      exact hasserts
    · rintro _ p ⟨⟩ hp
      exact (hok p hp).2
  | append data =>
    refine ⟨hs, fun s' hs' => ?_, by rintro _ ⟨⟩, by rintro _ _ ⟨⟩⟩
    obtain rfl := Option.some.inj hs'
    exact hs
  | reset =>
    refine ⟨hs, fun s' hs' => ?_, by rintro _ ⟨⟩, by rintro _ _ ⟨⟩⟩
    obtain rfl := Option.some.inj hs'
    exact fun _ => ⟨rfl, rfl, rfl⟩

/-- In a run every call leaves the context usable exactly if none meets a misleading line. -/
theorem usable_iff_along (start : Buffer) (calls : List Call) :
    Along call Usable (new, start) calls ↔
      Along call (fun s i => ¬ MeetsMisleadingLine s i) (new, start) calls :=
  along_congr (I := fun s => s.1.Fresh) (fun _ i hs => usable_iff hs i)
    (fun _ _ _ _ husable ht => husable.after _ ht) (fun _ => ⟨rfl, rfl, rfl⟩) calls

/-- The line `GET bad` is rejected, and the next call fails. -/
theorem not_usable_getBad : ∃ c b,
    call (new, (Buffer.new 0).append (ascii "GET bad\r\n")) (.parseRequest .invalid) =
      some (c, b) ∧
    c.state = .kExpectRequestLine ∧ c.request.method = .kGet ∧
    c.parseRequest b .invalid = .error .assertion ∧
    ¬ Along call Usable (new, (Buffer.new 0).append (ascii "GET bad\r\n"))
      [.parseRequest .invalid] := by
  have hcall : (call (new, (Buffer.new 0).append (ascii "GET bad\r\n"))
      (.parseRequest .invalid)).any (fun s =>
        s.1.state = .kExpectRequestLine ∧ s.1.request.method = .kGet ∧
        (match s.1.parseRequest s.2 .invalid with
          | .error f => decide (f = .assertion)
          | .ok _ => false) = true) = true := by
    decide +kernel
  obtain ⟨⟨c, b⟩, hs, hfacts⟩ := (Option.any_eq_true _ _).mp hcall
  obtain ⟨hstate, hmethod, hnext⟩ := of_decide_eq_true hfacts
  refine ⟨c, b, hs, hstate, hmethod, ?_, fun husable => ?_⟩
  · split at hnext
    · next f hf => rw [hf, of_decide_eq_true hnext]
    · cases hnext
  · have hfresh := husable.1.after (c, b) hs hstate
    cases hmethod.symm.trans hfresh.method

end HttpContext

end WebServer.Http
