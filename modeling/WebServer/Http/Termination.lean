import WebServer.Http.HttpContext
import WebServer.Lib.Run

namespace WebServer.Http.HttpContext

open WebServer.Lib WebServer.Mymuduo

/-- Some number of rounds is enough; a failed assertion ends the loop as well. -/
def Terminates (c : HttpContext) (buf : Buffer) (receiveTime : Timestamp) : Prop :=
  ∃ fuel, whileLoop Parse.hasMore (parseStep receiveTime) .nontermination fuel
    ⟨true, true, c, buf⟩ ≠ .error .nontermination

inductive Call where
  | parseRequest (receiveTime : Timestamp)
  | append (data : Bytes)
  | reset

def call (s : HttpContext × Buffer) : Call → Option (HttpContext × Buffer)
  | .parseRequest receiveTime =>
    match s.1.parseRequest s.2 receiveTime with
    | .ok p => some (p.context, p.buf)
    | .error _ => none
  | .append data => some (s.1, s.2.append data)
  | .reset => some (s.1.reset, s.2)

def Progresses (c : HttpContext) : Prop :=
  c.state = .kExpectRequestLine ∨ c.state = .kExpectHeaders

variable {t : Timestamp} {c : HttpContext} {buf : Buffer}

theorem readableBytes_retrieveUntil (buf : Buffer) (off : Nat) :
    (buf.retrieveUntil off).readableBytes = buf.readableBytes - off := by
  rw [← Buffer.length_peek, Buffer.peek_retrieveUntil, List.length_drop, Buffer.length_peek]

theorem readableBytes_of_findCRLF {crlf : Nat} (h : buf.findCRLF = some crlf) :
    (buf.retrieveUntil (crlf + 2)).readableBytes < buf.readableBytes := by
  have hle : crlf + 2 ≤ buf.readableBytes := Buffer.length_peek buf ▸ search_le h
  rw [readableBytes_retrieveUntil]
  omega

theorem setMethod_ne_nontermination (r : HttpRequest) (m : Bytes) :
    r.setMethod m ≠ .error .nontermination := by
  simp only [HttpRequest.setMethod]
  split <;> simp

theorem processRequestLine_ne_nontermination (r : HttpRequest) (line : Bytes) :
    processRequestLine r line ≠ .error .nontermination := by
  simp only [processRequestLine]
  split
  · cases hset : r.setMethod (line.take (line.idxOf kSpace)) with
    | error f =>
      have hne := setMethod_ne_nontermination r (line.take (line.idxOf kSpace))
      simpa [Except.map, hset] using hne
    | ok res => simp [Except.map]
  · simp

theorem parseStep_ne_nontermination (p : Parse) : parseStep t p ≠ .error .nontermination := by
  simp only [parseStep]
  split
  · split
    · next crlf _ =>
      cases hline : processRequestLine p.context.request (p.buf.peek.take crlf) with
      | error f =>
        have hne := processRequestLine_ne_nontermination p.context.request (p.buf.peek.take crlf)
        simpa [Except.map, hline] using hne
      | ok res => simp [Except.map]
    · simp
  · split
    · split <;> simp
    · simp
  · simp
  · simp

def remaining (p : Parse) : Nat := p.buf.readableBytes + if p.hasMore then 1 else 0

theorem parseStep_progress {p p' : Parse} (hp : p.context.Progresses) (hmore : p.hasMore = true)
    (h : parseStep t p = .ok p') :
    (p'.hasMore = true ∧ p'.context.state = .kExpectHeaders ∨
      p'.hasMore = false ∧ p'.context.state ≠ .kExpectBody) ∧ remaining p' < remaining p := by
  rcases hp with hstate | hstate
  · simp only [parseStep, hstate] at h
    split at h
    · next crlf hcrlf =>
      have hlt := readableBytes_of_findCRLF hcrlf
      cases hline : processRequestLine p.context.request (p.buf.peek.take crlf) with
      | error f => simp [hline, Except.map] at h
      | ok res =>
        obtain ⟨ok, r⟩ := res
        simp only [hline, Except.map, Except.ok.injEq] at h
        subst h
        cases ok
        · exact ⟨.inr ⟨rfl, by simp⟩, by simp [remaining, hmore]⟩
        · exact ⟨.inl ⟨hmore, rfl⟩, by simp [remaining, hmore, hlt]⟩
    · obtain rfl := Except.ok.inj h
      exact ⟨.inr ⟨rfl, by simp [hstate]⟩, by simp [remaining, hmore]⟩
  · simp only [parseStep, hstate] at h
    split at h
    · next crlf hcrlf =>
      have hlt := readableBytes_of_findCRLF hcrlf
      split at h
      · obtain rfl := Except.ok.inj h
        exact ⟨.inl ⟨hmore, rfl⟩, by simp [remaining, hmore, hlt]⟩
      · obtain rfl := Except.ok.inj h
        exact ⟨.inr ⟨rfl, by simp⟩, by simp [remaining, hmore]; omega⟩
    · obtain rfl := Except.ok.inj h
      exact ⟨.inr ⟨rfl, by simp [hstate]⟩, by simp [remaining, hmore]⟩

/-- The loop invariant: with more to do there is a branch that makes progress. -/
def InLoop (p : Parse) : Prop :=
  p.context.state ≠ .kExpectBody ∧ (p.hasMore = true → p.context.Progresses)

theorem InLoop.parseStep {p p' : Parse} (h : InLoop p) (hmore : p.hasMore = true)
    (hp : parseStep t p = .ok p') : InLoop p' ∧ remaining p' < remaining p := by
  obtain ⟨hnext, hlt⟩ := parseStep_progress (h.2 hmore) hmore hp
  refine ⟨?_, hlt⟩
  rcases hnext with ⟨-, hstate⟩ | ⟨hdone, hstate⟩
  · exact ⟨by simp [hstate], fun _ => .inr hstate⟩
  · exact ⟨hstate, fun hmore => absurd (hdone.symm.trans hmore) (by simp)⟩

theorem Progresses.inLoop (h : c.Progresses) (buf : Buffer) : InLoop ⟨true, true, c, buf⟩ := by
  refine ⟨?_, fun _ => h⟩
  rcases h with h | h <;> simp [h]

theorem parseRequest_ne_nontermination (h : c.Progresses) (buf : Buffer) (t : Timestamp) :
    c.parseRequest buf t ≠ .error .nontermination :=
  whileLoop_ne_stuck (fun p _ => parseStep_ne_nontermination p)
    (fun _ _ hp hmore hstep => hp.parseStep hmore hstep) (h.inLoop buf) (by simp [remaining])

theorem not_terminates (h : ¬ c.Progresses) : ¬ c.Terminates buf t := by
  rintro ⟨fuel, hne⟩
  have hstay : ∀ p, p.hasMore = true ∧ p.context = c → p.hasMore = true ∧
      ∃ p', parseStep t p = .ok p' ∧ p'.hasMore = true ∧ p'.context = c := by
    rintro p ⟨hmore, rfl⟩
    refine ⟨hmore, p, ?_, hmore, rfl⟩
    simp only [Progresses, not_or] at h
    cases hstate : p.context.state with
    | kExpectRequestLine => exact absurd hstate h.1
    | kExpectHeaders => exact absurd hstate h.2
    | kExpectBody => simp only [parseStep, hstate]
    | kGotAll => simp only [parseStep, hstate]
  exact hne (whileLoop_eq_stuck hstay fuel ⟨rfl, rfl⟩)

theorem terminates_iff : c.Terminates buf t ↔ c.Progresses := by
  constructor
  · intro h
    by_contra hnot
    exact not_terminates hnot h
  · intro h
    exact ⟨_, parseRequest_ne_nontermination h buf t⟩

theorem call_state {s s' : HttpContext × Buffer} {i : Call} (hs : s.1.state ≠ .kExpectBody)
    (h : call s i = some s') : s'.1.state ≠ .kExpectBody := by
  cases i with
  | parseRequest receiveTime =>
    simp only [call] at h
    split at h
    · next p hp =>
      obtain rfl := Option.some.inj h
      by_cases hprogress : s.1.Progresses
      · exact (whileLoop_invariant (fun _ _ hI hmore hstep => (hI.parseStep hmore hstep).1)
          (hprogress.inLoop s.2) hp).1.1
      · have hends : s.1.Terminates s.2 receiveTime :=
          ⟨s.2.readableBytes + 2, fun hstuck => by cases hp.symm.trans hstuck⟩
        exact absurd hends (not_terminates hprogress)
    · cases h
  | append data =>
    obtain rfl := Option.some.inj h
    exact hs
  | reset =>
    obtain rfl := Option.some.inj h
    simp [reset]

/-- After any calls, `parseRequest` comes to an end unless a request is complete. -/
theorem terminates_iff_not_gotAll {start b : Buffer} {calls : List Call}
    (h : run call (new, start) calls = some (c, b)) (buf : Buffer) (t : Timestamp) :
    c.Terminates buf t ↔ c.gotAll = false := by
  have hstate : c.state ≠ .kExpectBody :=
    invariant_run (I := fun s => s.1.state ≠ .kExpectBody) (fun _ _ _ hs hcall =>
      call_state hs hcall) (by simp [new]) h
  rw [terminates_iff, Progresses, gotAll]
  cases hc : c.state <;> simp_all

/-- The request line in two pieces. -/
theorem terminates_split : ∃ c b, run call (new, (Buffer.new 0).append (ascii "GET / HT"))
    [.parseRequest .invalid, .append (ascii "TP/1.1\r\n"), .parseRequest .invalid] =
      some (c, b) ∧ c.gotAll = false ∧ c.Terminates b .invalid := by
  have hrun : (run call (new, (Buffer.new 0).append (ascii "GET / HT"))
      [.parseRequest .invalid, .append (ascii "TP/1.1\r\n"), .parseRequest .invalid]).any
        (fun s => s.1.gotAll = false) = true := by decide +kernel
  obtain ⟨⟨c, b⟩, hs, hgot⟩ := (Option.any_eq_true _ _).mp hrun
  have hgot : c.gotAll = false := of_decide_eq_true hgot
  exact ⟨c, b, hs, hgot, (terminates_iff_not_gotAll hs b .invalid).mpr hgot⟩

/-- A whole request, and `parseRequest` once more. -/
theorem not_terminates_getRoot : ∃ c b, run call
    (new, (Buffer.new 0).append (ascii "GET / HTTP/1.1\r\n\r\n")) [.parseRequest .invalid] =
      some (c, b) ∧ ¬ c.Terminates b .invalid := by
  have hrun : (run call (new, (Buffer.new 0).append (ascii "GET / HTTP/1.1\r\n\r\n"))
      [.parseRequest .invalid]).any (fun s => s.1.state = .kGotAll) = true := by decide +kernel
  obtain ⟨⟨c, b⟩, hs, hstate⟩ := (Option.any_eq_true _ _).mp hrun
  have hstate : c.state = .kGotAll := of_decide_eq_true hstate
  refine ⟨c, b, hs, not_terminates ?_⟩
  simp [Progresses, hstate]

end WebServer.Http.HttpContext
