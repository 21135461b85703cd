import WebServer.Http.Acceptance
import WebServer.Http.ClosingResponse
import WebServer.Http.FailedParse

namespace WebServer.Http

open WebServer.Lib WebServer.Mymuduo

def RequestInFront (s : Bytes) : Prop :=
  ∃ l ls, kColon ∉ l ∧ HeadLines l ls ∧ joinLines Buffer.kCRLF ls <+: s

namespace HttpContext

variable {t : Timestamp} {buf : Buffer} {p : Parse}

theorem gotAll_iff_requestInFront (hp : new.parseRequest buf t = .ok p) :
    p.context.gotAll = true ↔ RequestInFront buf.peek := by
  obtain ⟨ls, rest, hls, hrest, hpeek⟩ := exists_lines kCRLF_ne_nil buf.peek
  obtain ⟨b, hp', -⟩ := parseRequest_eq ready_new hls hrest hpeek t
  obtain rfl := Except.ok.inj (hp'.symm.trans hp)
  rw [hpeek]
  constructor
  · intro hgot
    obtain ⟨l, xs, more, rfl, hl, hxs⟩ :=
      exists_headLines (t := t) (fun x hx => isLine_kCRLF.mp (hls x hx)) hgot
    exact ⟨l, xs, hl, hxs, by simp⟩
  · rintro ⟨l, xs, hl, hxs, hfront⟩
    obtain ⟨more, rfl⟩ := exists_more hxs hls hrest hfront
    obtain ⟨c, hc, hgot⟩ := hxs.parseLines (t := t) hl more
    rw [hc]
    exact hgot

theorem gotAll_of_rejected (hp : new.parseRequest buf t = .ok p) (hok : p.ok = false) :
    p.context.gotAll = false := by
  cases hcrlf : buf.findCRLF with
  | none =>
    obtain rfl := Except.ok.inj ((parseRequest_noLine rfl hcrlf).symm.trans hp)
    cases hok
  | some crlf =>
    rcases RequestLine.processRequestLine_cases (r := .new) rfl (buf.peek.take crlf) with
      ⟨q, -, hline⟩ | ⟨-, r, hline⟩
    · have haccepted := ((parseRequest_accepted rfl hcrlf hline).2 p hp).1
      exact absurd (haccepted.symm.trans hok) (by simp)
    · obtain rfl := Except.ok.inj ((parseRequest_rejected rfl hcrlf hline).symm.trans hp)
      rfl

end HttpContext

def Reply.isResponse : Reply → Bool
  | .badRequest => false
  | .response _ => true

def NoneBehind (replies : List Reply) (n : Nat) : Prop :=
  ∀ pre r post, replies = pre ++ r :: post → pre.length < n → r.closing = true →
    ∀ x ∈ post, x.isResponse = false

theorem noneBehind_append {n : Nat} {rs new : List Reply} (hn : n ≤ rs.length) :
    NoneBehind (rs ++ new) n ↔ NoneBehind rs n ∧
      ((rs.take n).any Reply.closing = true → ∀ x ∈ new, x.isResponse = false) := by
  constructor
  · intro h
    constructor
    · rintro pre r post rfl hpre hr x hx
      exact h pre r (post ++ new) (by simp) hpre hr x (List.mem_append_left new hx)
    · intro hany x hx
      obtain ⟨r, hmem, hr⟩ := List.any_eq_true.mp hany
      obtain ⟨pre, post, htake⟩ := List.append_of_mem hmem
      have hpre : pre.length < n := by
        have hlen := congrArg List.length htake
        simp only [List.length_take, List.length_append, List.length_cons] at hlen
        omega
      refine h pre r (post ++ rs.drop n ++ new) ?_ hpre hr x (List.mem_append_right _ hx)
      calc
        rs ++ new = rs.take n ++ rs.drop n ++ new := by rw [List.take_append_drop]
        _ = pre ++ r :: (post ++ rs.drop n ++ new) := by rw [htake]; simp
  · rintro ⟨hrs, hnew⟩ pre r post heq hpre hr x hx
    rcases List.append_eq_append_iff.mp heq with ⟨as, rfl, -⟩ | ⟨bs, hbs, htail⟩
    · simp only [List.length_append] at hpre
      omega
    · cases bs with
      | nil =>
        have hlen := congrArg List.length hbs
        simp only [List.length_append, List.length_nil] at hlen
        omega
      | cons b bs =>
        obtain ⟨rfl, rfl⟩ := List.cons.inj htail
        rcases List.mem_append.mp hx with hx | hx
        · exact hrs pre r bs hbs hpre hr x hx
        · refine hnew (List.any_eq_true.mpr ⟨r, ?_, hr⟩) x hx
          rw [hbs]
          exact List.mem_take_iff_getElem.mpr ⟨pre.length, by simp [hpre], by simp⟩

theorem noneBehind_of_open {n : Nat} {rs new : List Reply} (hrs : ∀ r ∈ rs, r.closing = false)
    (hnew : new.length ≤ 1) : NoneBehind (rs ++ new) n := by
  rintro pre r post heq - hr x hx
  have hpost := List.length_pos_of_mem hx
  rcases List.append_eq_append_iff.mp heq with ⟨as, rfl, rfl⟩ | ⟨bs, rfl, htail⟩
  · simp only [List.length_append, List.length_cons] at hnew
    omega
  · cases bs with
    | nil =>
      obtain rfl : r :: post = new := htail
      simp only [List.length_cons] at hnew
      omega
    | cons b bs =>
      obtain ⟨rfl, -⟩ := List.cons.inj htail
      exact absurd (hrs r (by simp)) (by simp [hr])

namespace Dialogue

def sent (d : Dialogue) : List Reply := d.replies.take (HttpServer.passed d.http).length

def closing (d : Dialogue) : Bool := d.sent.any Reply.closing

/-- `httpCallback_` is not called any more once a closing reply has been sent. -/
def ServesNoneLate (d : Dialogue) : Prop :=
  NoneBehind d.replies (HttpServer.passed d.http).length

/-- A read brings a request to its end while the connection is being closed. -/
def LateRequest (d : Dialogue) : Label → Prop
  | .handleRead (.ok (b :: bs)) _ _ _ =>
    d.closing = true ∧ RequestInFront (d.http.conn.inputBuffer.peek ++ b :: bs)
  | _ => False

structure Consistent (d : Dialogue) : Prop extends Proper d.http.conn d.replies where
  served : d.http.served.length = d.replies.countP Reply.isResponse

variable {d d' : Dialogue} {l : Label}

theorem Consistent.sent (hd : d.Consistent) :
    d.sent.map Reply.bytes = HttpServer.passed d.http := by
  obtain ⟨rs, last, hprefix, hpassed, -⟩ := hd.answers.passed
  rw [Dialogue.sent, HttpServer.passed, hpassed, List.length_map,
    List.prefix_iff_eq_take.mp hprefix |>.symm]

theorem Consistent.passed_le (hd : d.Consistent) :
    (HttpServer.passed d.http).length ≤ d.replies.length := by
  obtain ⟨rs, last, hprefix, hpassed, -⟩ := hd.answers.passed
  rw [HttpServer.passed, hpassed, List.length_map]
  exact hprefix.length_le

theorem Consistent.not_closing (hd : d.Consistent) (hstate : d.http.conn.state = .kConnected) :
    d.closing = false := by
  rw [closing, List.any_eq_false]
  intro r hr
  simpa using (hd.answers.connected hstate).2 r (List.mem_of_mem_take hr)

theorem handleRead_data (c : TcpConnection) {data : Bytes} (h : data ≠ []) :
    (c.handleRead (.ok data) id closeCallback).state = c.state ∧
      (c.handleRead (.ok data) id closeCallback).inputBuffer.peek = c.inputBuffer.peek ++ data := by
  have hpos := List.length_pos_of_ne_nil h
  simp [TcpConnection.handleRead, hpos, TcpConnection.record]

inductive Speaks (d : Dialogue) (l : Label) (d' : Dialogue) : Prop where
  | quiet (late : ¬ d.LateRequest l) (replies : d'.replies = d.replies)
      (served : d'.http.served = d.http.served)
      (passed : HttpServer.passed d'.http = HttpServer.passed d.http)
  | onMessage (s : HttpConnection) (httpCallback : HttpCallback) (k : Kernel)
      (p : HttpContext.Parse)
      (late : d.LateRequest l ↔ d.closing = true ∧ p.context.gotAll = true)
      (rejected : p.ok = false → p.context.gotAll = false)
      (state : s.conn.state = d.http.conn.state) (served : s.served = d.http.served)
      (passed : HttpServer.passed s = HttpServer.passed d.http)
      (next : d' = ⟨HttpServer.onParsed httpCallback s k p.ok p.context p.buf,
        d.replies ++ repliesOf httpCallback p.ok p.context⟩)

theorem speaks_of_step (h : step d l = some d') : Speaks d l d' := by
  cases l with
  | handleRead delivered t k httpCallback =>
    match delivered with
    | .error e =>
      obtain rfl := Option.some.inj h
      exact .quiet id rfl rfl (messages_handleRead _ _)
    | .ok [] =>
      obtain rfl := Option.some.inj h
      exact .quiet id rfl rfl (messages_handleRead _ _)
    | .ok (b :: bs) =>
      obtain ⟨hstate, hpeek⟩ := handleRead_data d.http.conn (List.cons_ne_nil b bs)
      obtain ⟨p, hp, hmessage⟩ :=
        onMessage_ok (d.setConn (d.http.conn.handleRead (.ok (b :: bs)) id closeCallback))
          httpCallback t k
      rw [step, hmessage] at h
      obtain rfl := Option.some.inj h
      refine .onMessage
        (d.setConn (d.http.conn.handleRead (.ok (b :: bs)) id closeCallback)).http
        httpCallback k p ?_ (HttpContext.gotAll_of_rejected hp) hstate rfl
        (messages_handleRead _ _) rfl
      rw [HttpContext.gotAll_iff_requestInFront hp]
      exact and_congr_right fun _ => by rw [← hpeek]; rfl
  | handleWrite result =>
    obtain rfl := Option.some.inj h
    exact .quiet id rfl rfl (messages_handleWrite _ _)
  | handleClose =>
    obtain rfl := Option.some.inj h
    exact .quiet id rfl rfl (messages_handleClose _)
  | connectDestroyed =>
    obtain rfl := Option.some.inj h
    exact .quiet id rfl rfl (messages_connectDestroyed _)

theorem countP_repliesOf (httpCallback : HttpCallback) (ok : Bool) (context : HttpContext) :
    (repliesOf httpCallback ok context).countP Reply.isResponse =
      if context.gotAll then 1 else 0 := by
  rw [repliesOf, List.countP_append]
  cases ok <;> split_ifs <;> rfl

theorem length_repliesOf (httpCallback : HttpCallback) {ok : Bool} {context : HttpContext}
    (h : ok = false → context.gotAll = false) :
    (repliesOf httpCallback ok context).length ≤ 1 := by
  rw [repliesOf]
  cases ok with
  | true => cases context.gotAll <;> simp
  | false => simp [h rfl]

theorem Consistent.step (hd : d.Consistent) (h : Dialogue.step d l = some d') :
    d'.Consistent := by
  obtain ⟨m, hm, hproper⟩ := step_proper hd.toProper l
  obtain rfl := Option.some.inj (hm.symm.trans h)
  refine ⟨hproper, ?_⟩
  cases speaks_of_step h with
  | quiet _ hreplies hserved _ => rw [hserved, hreplies, hd.served]
  | onMessage s httpCallback k p _ _ _ hserved _ hnext =>
    rw [hnext, HttpServer.onParsed_served, List.length_append, hserved, hd.served,
      List.countP_append, countP_repliesOf]
    split_ifs <;> rfl

theorem servesNoneLate_of_step (hd : d.Consistent) (h : Dialogue.step d l = some d') :
    d'.ServesNoneLate ↔ d.ServesNoneLate ∧ ¬ d.LateRequest l := by
  cases speaks_of_step h with
  | quiet hlate hreplies _ hpassed =>
    rw [ServesNoneLate, hreplies, hpassed]
    exact (and_iff_left hlate).symm
  | onMessage s httpCallback k p hlate hrejected hstate _ hpassed hnext =>
    by_cases hconnected : d.http.conn.state = .kConnected
    · obtain ⟨-, hopen⟩ := hd.answers.connected hconnected
      have hbefore : d.ServesNoneLate := by
        have hnil : ([] : List Reply).length ≤ 1 := Nat.zero_le 1
        have hnone := noneBehind_of_open (n := (HttpServer.passed d.http).length) hopen hnil
        rwa [List.append_nil] at hnone
      have hafter : d'.ServesNoneLate := by
        rw [hnext]
        exact noneBehind_of_open hopen (length_repliesOf httpCallback hrejected)
      refine iff_of_true hafter ⟨hbefore, fun hl => ?_⟩
      rw [hlate, hd.not_closing hconnected] at hl
      exact absurd hl.1 (by simp)
    · have hsame : HttpServer.passed d'.http = HttpServer.passed d.http := by
        rw [hnext, HttpServer.passed, HttpServer.onParsed_conn httpCallback (hstate ▸ hconnected)]
        exact hpassed
      have hresponse : (∀ x ∈ repliesOf httpCallback p.ok p.context, x.isResponse = false) ↔
          ¬ p.context.gotAll = true := by
        rw [repliesOf]
        cases p.ok <;> split_ifs <;> simp_all [Reply.isResponse]
      rw [ServesNoneLate, hsame, hnext, noneBehind_append hd.passed_le, hresponse, hlate,
        not_and]
      exact Iff.rfl

theorem consistent_new (writeCompleteCallback : Bool) : (new writeCompleteCallback).Consistent :=
  ⟨proper_new writeCompleteCallback, rfl⟩

/-- In a run no request is served behind a closing reply that was sent exactly if no read of the
run completes a request while the connection is being closed. -/
theorem servesNoneLate_iff_along (writeCompleteCallback : Bool) (ls : List Label) :
    ∃ d, run step (new writeCompleteCallback) ls = some d ∧
      d.http.served.length = d.replies.countP Reply.isResponse ∧
      d.sent.map Reply.bytes = HttpServer.passed d.http ∧
      (d.ServesNoneLate ↔
        Along step (fun d l => ¬ d.LateRequest l) (new writeCompleteCallback) ls) := by
  have hnew := consistent_new writeCompleteCallback
  obtain ⟨d, hrun, -⟩ := run_proper hnew.toProper ls
  have hd : d.Consistent := invariant_run (fun _ _ _ hs ht => hs.step ht) hnew hrun
  refine ⟨d, hrun, hd.served, hd.sent, ?_⟩
  have hstart : (new writeCompleteCallback).ServesNoneLate := by
    intro pre r post heq
    simp [new] at heq
  rw [iff_and_along (I := Consistent) (fun _ _ _ hs ht => hs.step ht)
    (fun _ _ _ hs ht => servesNoneLate_of_step hs ht) hnew hrun]
  exact and_iff_right hstart

def twoReads : List Label :=
  let read := .handleRead (.ok (ascii "GET / HTTP/1.0\r\n\r\n")) .invalid ⟨.ok 0, .ok 0, 0⟩
    fun _ resp => resp
  [read, read]

theorem not_servesNoneLate_twoReads : ∃ d, run step (new false) twoReads = some d ∧
    d.http.served.length = 2 ∧ ¬ d.ServesNoneLate := by
  have hrun : (run step (new false) twoReads).any (fun d => d.http.served.length = 2 ∧
      (HttpServer.passed d.http).length = 1 ∧
      d.replies.map (fun r => (r.closing, r.isResponse)) = [(true, true), (true, true)]) =
        true := by
    decide +kernel
  obtain ⟨d, hd, hfacts⟩ := (Option.any_eq_true _ _).mp hrun
  obtain ⟨hserved, hpassed, hreplies⟩ := of_decide_eq_true hfacts
  refine ⟨d, hd, hserved, fun hnone => ?_⟩
  obtain ⟨r, rs, hr, hclosing, hrs⟩ := List.map_eq_cons_iff.mp hreplies
  obtain ⟨x, xs, rfl, hx, -⟩ := List.map_eq_cons_iff.mp hrs
  have hlate := hnone [] r (x :: xs) hr (hpassed ▸ Nat.zero_lt_one) (congrArg Prod.fst hclosing) x
    List.mem_cons_self
  exact absurd (hlate.symm.trans (congrArg Prod.snd hx)) Bool.false_ne_true

end Dialogue

end WebServer.Http
