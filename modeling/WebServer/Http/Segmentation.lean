import WebServer.Http.HttpServer

namespace WebServer.Http

open WebServer.Lib WebServer.Mymuduo

def OpenLines (q : RequestText) (pre : Bytes) (ls : List Bytes) : Prop :=
  ∃ done rest, q.lines = done ++ ls ∧ pre = joinLines Buffer.kCRLF done ++ rest ∧
    Free Buffer.kCRLF rest

def StartsRequest (ls : List Bytes) : Prop := ∃ (line : RequestLine) (more : List Bytes),
  ls = line.text :: more

def SameRequest (q : RequestText) (ls : List Bytes) : Prop :=
  ∃ q' : RequestText, q'.lines = ls ∧ ∀ t, q'.request t = q.request t

/-- Wherever one of the chunks behind `before` ends, the last one apart, the first open line is
an acceptable request line, and from the last such place on the lines are the same request. -/
structure Harmless (q : RequestText) (before : Bytes) (chunks : List Bytes) : Prop where
  starts : ∀ pre, pre <+: chunks → pre ≠ chunks →
    ∀ ls, OpenLines q (before ++ pre.flatten) ls → StartsRequest ls
  same : ∀ ls, OpenLines q (before ++ chunks.dropLast.flatten) ls → SameRequest q ls

namespace RequestText

theorem request_setReceiveTime (q : RequestText) (t t' : Timestamp) :
    (q.request t).setReceiveTime t' = q.request t' := rfl

theorem request_congr {q q' : RequestText} (h : q.lines = q'.lines) (t : Timestamp) :
    q.request t = q'.request t := by
  have hq := q.parseLines_lines t []
  rw [h, q'.parseLines_lines t []] at hq
  injection hq with _ hctx
  injection hctx with _ hreq
  exact hreq.symm

theorem line_free {line : RequestLine} (h : Free Buffer.kCRLF line.text) :
    Free Buffer.kCRLF line.target := by
  have hspace : kSpace ∉ Buffer.kCRLF := by decide
  exact ((free_cut kCRLF_ne_nil hspace).mp ((free_cut kCRLF_ne_nil hspace).mp h).2).1

theorem line_ne_nil (line : RequestLine) : line.text ≠ [] := by simp [RequestLine.text]

theorem exists_suffix {q : RequestText} {done more : List Bytes} {line : RequestLine}
    (h : q.lines = done ++ line.text :: more) :
    ∃ q' : RequestText, q'.lines = line.text :: more := by
  cases done with
  | nil => exact ⟨q, h⟩
  | cons x done =>
    have hfree : Free Buffer.kCRLF line.text :=
      isLine_kCRLF.mp (q.lines_isLine line.text (by simp [h]))
    obtain ⟨-, htail⟩ := List.cons.inj h
    -- the line is one of the header lines, since it is not the empty line at the end
    have hcut : ∃ u, q.headers.map headerLine = done ++ line.text :: u ∧ more = u ++ [[]] := by
      rcases List.append_eq_append_iff.mp htail with ⟨u, -, hu⟩ | ⟨u, hdone, hu⟩
      · cases u with
        | nil => exact absurd (List.cons.inj hu).1.symm (line_ne_nil line)
        | cons y u => simp at hu
      · cases u with
        | nil => exact absurd (List.cons.inj hu).1 (line_ne_nil line)
        | cons y u =>
          obtain ⟨rfl, rfl⟩ := List.cons.inj hu
          exact ⟨u, hdone, rfl⟩
    obtain ⟨u, hmap, rfl⟩ := hcut
    obtain ⟨hs₁, hs₂, hheaders, -, hmap₂⟩ := List.map_eq_append_iff.mp hmap
    obtain ⟨x, hs, rfl, -, rfl⟩ := List.map_eq_cons_iff.mp hmap₂
    have hmem : ∀ y ∈ hs, y ∈ q.headers := by
      intro y hy
      rw [hheaders]
      simp [hy]
    exact ⟨{ line := line, headers := hs, target_free := line_free hfree
             name_noColon := fun y hy => q.name_noColon y (hmem y hy)
             name_free := fun y hy => q.name_free y (hmem y hy)
             value_free := fun y hy => q.value_free y (hmem y hy) }, rfl⟩

theorem headerLine_ne_line {h : Bytes × Bytes} (hn : kSpace ∉ h.1) (line : RequestLine) :
    headerLine h ≠ line.text := by
  intro heq
  -- both are cut at the first space: the method would end with the colon
  have hfirst := congrArg (fun l : Bytes => l.take (l.idxOf kSpace)) heq
  have hleft : headerLine h = (h.1 ++ [kColon]) ++ kSpace :: h.2 := by simp [headerLine]
  have hname : kSpace ∉ h.1 ++ [kColon] := by
    simp only [List.mem_append, List.mem_singleton, not_or]
    exact ⟨hn, by decide⟩
  simp only [hleft, RequestLine.text, idxOf_cut hname, idxOf_cut (methodString_noSpace line.method),
    List.take_left] at hfirst
  have hcolon : kColon ∈ HttpRequest.methodString line.method := by rw [← hfirst]; simp
  have hnot : kColon ∉ HttpRequest.methodString line.method := by cases line.method <;> decide
  exact hnot hcolon

end RequestText

theorem OpenLines.unique {q : RequestText} {pre : Bytes} {ls ls' : List Bytes}
    (h : OpenLines q pre ls) (h' : OpenLines q pre ls') : ls = ls' := by
  obtain ⟨done, rest, hls, rfl, hrest⟩ := h
  obtain ⟨done', rest', hls', hpre, hrest'⟩ := h'
  have hline : ∀ l ∈ done, IsLine Buffer.kCRLF l := fun l hl =>
    q.lines_isLine l (by simp [hls, hl])
  have hline' : ∀ l ∈ done', IsLine Buffer.kCRLF l := fun l hl =>
    q.lines_isLine l (by simp [hls', hl])
  obtain ⟨rfl, -⟩ := lines_unique kCRLF_ne_nil hline hline' hrest hrest' hpre
  exact List.append_cancel_left (hls.symm.trans hls')

theorem exists_complete {ls : List Bytes} {v more : Bytes}
    (hls : ∀ l ∈ ls, IsLine Buffer.kCRLF l) (h : v ++ more = joinLines Buffer.kCRLF ls) :
    ∃ ms ls' rest, ls = ms ++ ls' ∧ v = joinLines Buffer.kCRLF ms ++ rest ∧
      Free Buffer.kCRLF rest := by
  obtain ⟨ms, rest, hms, hrest, rfl⟩ := exists_lines kCRLF_ne_nil v
  obtain ⟨ls', rfl⟩ := lines_prefix (r := []) kCRLF_ne_nil hms hls (by decide) (by simpa using h)
  exact ⟨ms, ls', rest, rfl, rfl, hrest⟩

theorem text_eq (q : RequestText) :
    ∃ more, q.text = q.line.text ++ Buffer.kCRLF ++ more :=
  ⟨_, joinLines_cons _ _⟩

theorem OpenLines.eq_lines {q : RequestText} {pre : Bytes} {ls : List Bytes}
    (h : OpenLines q pre ls) (hlen : pre.length < q.line.text.length + 2) : ls = q.lines := by
  obtain ⟨done, rest, hls, rfl, -⟩ := h
  cases done with
  | nil => exact hls.symm
  | cons x done =>
    obtain ⟨rfl, -⟩ := List.cons.inj hls
    simp only [joinLines_cons, Buffer.kCRLF, List.length_append, List.length_cons,
      List.length_nil] at hlen
    omega

theorem OpenLines.exists {q : RequestText} {pre more : Bytes} (h : pre ++ more = q.text) :
    ∃ ls, OpenLines q pre ls := by
  obtain ⟨ms, ls, rest, hlines, hpre, hrest⟩ := exists_complete q.lines_isLine h
  exact ⟨ls, ms, rest, hlines, hpre, hrest⟩

theorem OpenLines.ne_nil {q : RequestText} {pre more : Bytes} {ls : List Bytes}
    (h : OpenLines q pre ls) (htext : pre ++ more = q.text) (hmore : more ≠ []) : ls ≠ [] := by
  obtain ⟨done, rest, hls, rfl, -⟩ := h
  rintro rfl
  rw [RequestText.text, hls, List.append_nil, List.append_assoc] at htext
  have hlen := congrArg List.length htext
  simp only [List.length_append] at hlen
  exact hmore (List.length_eq_zero_iff.mp (by omega))

theorem OpenLines.length_lt {q : RequestText} (hn : ∀ h ∈ q.headers, kSpace ∉ h.1)
    {pre more : Bytes} (hpre : pre ++ more = q.text) {ls : List Bytes} (h : OpenLines q pre ls)
    (hstart : StartsRequest ls) : pre.length < q.line.text.length + 2 := by
  obtain ⟨done, rest, hls, rfl, hrest⟩ := h
  obtain ⟨line, more', rfl⟩ := hstart
  cases done with
  | nil =>
    obtain ⟨tail, htail⟩ := text_eq q
    by_contra hlong
    refine hrest ?_
    have hfront : q.line.text ++ Buffer.kCRLF <+: rest := by
      refine List.prefix_of_prefix_length_le ⟨tail, htail.symm⟩ ⟨more, by simpa using hpre⟩ ?_
      simp [Buffer.kCRLF] at hlong ⊢
      omega
    exact (List.suffix_append q.line.text Buffer.kCRLF).isInfix.trans hfront.isInfix
  | cons x done =>
    obtain ⟨-, htail⟩ := List.cons.inj hls
    have hmem : line.text ∈ q.headers.map headerLine ++ [[]] := by
      rw [show q.headers.map headerLine ++ [[]] = done ++ line.text :: more' from htail]
      simp
    rcases List.mem_append.mp hmem with hheader | hempty
    · obtain ⟨y, hy, hline⟩ := List.mem_map.mp hheader
      exact absurd hline (RequestText.headerLine_ne_line (hn y hy) line)
    · exact absurd (List.mem_singleton.mp hempty) (RequestText.line_ne_nil line)

theorem harmless_iff_of_noSpace {q : RequestText} (hn : ∀ h ∈ q.headers, kSpace ∉ h.1)
    {chunks : List Bytes} (hne : chunks ≠ []) (hcut : chunks.flatten = q.text) :
    Harmless q [] chunks ↔
      ∀ p, p <+: chunks → p ≠ chunks → p.flatten.length < q.line.text.length + 2 := by
  constructor
  · rintro ⟨hstarts, -⟩ p hp hpne
    obtain ⟨more, rfl⟩ := hp
    obtain ⟨ls, hls⟩ := OpenLines.exists (by rwa [List.flatten_append] at hcut)
    exact hls.length_lt hn (by rwa [List.flatten_append] at hcut) (hstarts p (by simp) hpne ls hls)
  · intro hshort
    have hopen : ∀ p, p <+: chunks → p ≠ chunks → ∀ ls, OpenLines q ([] ++ p.flatten) ls →
        ls = q.lines := fun p hp hpne ls hls => hls.eq_lines (hshort p hp hpne)
    refine ⟨fun p hp hpne ls hls => ?_, fun ls hls => ?_⟩
    · exact ⟨q.line, _, hopen p hp hpne ls hls⟩
    · have hproper : chunks.dropLast ≠ chunks := by
        intro h
        have hlen := congrArg List.length h
        have hpos := List.length_pos_iff.mpr hne
        rw [List.length_dropLast] at hlen
        omega
      exact ⟨q, (hopen _ (List.dropLast_prefix _) hproper ls hls).symm, fun _ => rfl⟩

namespace HttpServer

def deliver (httpCallback : HttpCallback) (s : HttpConnection) (a : Arrival) :
    Except Fault HttpConnection :=
  onMessage httpCallback (receive s a.chunk) a.time a.kernel

def deliverAll (httpCallback : HttpCallback) :
    HttpConnection → List Arrival → Except Fault HttpConnection
  | s, [] => .ok s
  | s, a :: as => (deliver httpCallback s a).bind fun s => deliverAll httpCallback s as

/-- One response was passed on, that to `q` as read at some time; no request but `q` was served. -/
def Answered (httpCallback : HttpCallback) (c : TcpConnection) (q : RequestText)
    (s : HttpConnection) : Prop :=
  ∃ t, s.served = [q.request t] ∧
    passed s = TcpConnection.messages c.log ++ [(respond httpCallback (q.request t)).bytes]

/-- In chunks and as a whole, the text is answered alike. -/
def AnsweredAlike (httpCallback : HttpCallback) (c : TcpConnection) (q : RequestText)
    (as : List Arrival) (whole : Arrival) : Prop :=
  ∃ s w, deliverAll httpCallback ⟨c, []⟩ as = .ok s ∧ deliver httpCallback ⟨c, []⟩ whole = .ok w ∧
    Answered httpCallback c q s ∧ Answered httpCallback c q w

/-- Everything complete in the bytes `pre` at the front of `q` has been read and forgotten. -/
structure Waiting (c : TcpConnection) (q : RequestText) (pre : Bytes) (s : HttpConnection) :
    Prop where
  state : s.conn.state = .kConnected
  served : s.served = []
  passed : passed s = TcpConnection.messages c.log
  buffer : ∃ done ls, q.lines = done ++ ls ∧
    pre = joinLines Buffer.kCRLF done ++ s.conn.inputBuffer.peek ∧
    Free Buffer.kCRLF s.conn.inputBuffer.peek

structure Broken (c : TcpConnection) (s : HttpConnection) : Prop where
  state : s.conn.state ≠ .kConnected
  passed : passed s = TcpConnection.messages c.log ++ [badRequest]

variable (httpCallback : HttpCallback) {c : TcpConnection} {q : RequestText} {pre : Bytes}
  {s : HttpConnection}

theorem Waiting.openLines (h : Waiting c q pre s) : ∃ ls, OpenLines q pre ls := by
  obtain ⟨done, ls, hlines, hpre, hfree⟩ := h.buffer
  exact ⟨ls, done, _, hlines, hpre, hfree⟩

variable {httpCallback} in
theorem Broken.not_answered (h : Broken c s) : ¬ Answered httpCallback c q s := by
  rintro ⟨t, -, hpassed⟩
  have hlast := List.append_cancel_left (h.passed.symm.trans hpassed)
  exact bytes_ne_badRequest _ (List.cons.inj hlast).1.symm

theorem deliver_broken (h : Broken c s) (a : Arrival) :
    ∃ s', deliver httpCallback s a = .ok s' ∧ Broken c s' := by
  obtain ⟨ls, rest, hls, hrest, hcut⟩ := exists_lines kCRLF_ne_nil
    (receive s a.chunk).conn.inputBuffer.peek
  obtain ⟨b, -, hmessage⟩ := onMessage_eq httpCallback hls hrest hcut a.time
    a.kernel
  have hconn := onParsed_conn httpCallback (s := receive s a.chunk) h.state
    a.kernel (HttpContext.parseLines a.time .new ls).ok
    (HttpContext.parseLines a.time .new ls).context b
  refine ⟨_, hmessage, ?_, ?_⟩
  · rw [hconn]
    exact h.state
  · rw [passed, hconn]
    exact h.passed

theorem deliverAll_broken (h : Broken c s) (as : List Arrival) :
    ∃ s', deliverAll httpCallback s as = .ok s' ∧ Broken c s' := by
  induction as generalizing s with
  | nil => exact ⟨s, rfl, h⟩
  | cons a as ih =>
    obtain ⟨m, hm, hbroken⟩ := deliver_broken httpCallback h a
    obtain ⟨s', hs', hbroken'⟩ := ih hbroken
    exact ⟨s', by rw [deliverAll, hm]; exact hs', hbroken'⟩

theorem onParsed_reject (hstate : s.conn.state = .kConnected)
    (hpassed : passed s = TcpConnection.messages c.log) {m : Bytes} {t : Timestamp}
    (ms : List Bytes) (hm : ∀ line : RequestLine, m ≠ line.text) (k : Kernel) (buf : Buffer) :
    Broken c (onParsed httpCallback s k (HttpContext.parseLines t .new (m :: ms)).ok
      (HttpContext.parseLines t .new (m :: ms)).context buf) := by
  have hscan : (HttpContext.parseLines t .new (m :: ms)).ok = false ∧
      (HttpContext.parseLines t .new (m :: ms)).context.gotAll = false := by
    obtain ⟨r, hr⟩ := HttpContext.parseLines_rejected (not_exists.mpr hm) t ms
    rw [hr]
    exact ⟨rfl, rfl⟩
  have hpasses := TcpConnection.send_passes (c := { s.conn with inputBuffer := buf }) hstate
    ⟨k.before, badRequest⟩ k.badRequest
  simp only [onParsed, hscan.1, hscan.2, Bool.not_false, if_true, Bool.false_eq_true, if_false]
  refine ⟨TcpConnection.shutdown_state_ne _, ?_⟩
  rw [passed, TcpConnection.shutdown_messages, hpasses.messages]
  exact congrArg (· ++ [badRequest]) hpassed

theorem deliver_waiting (hs : Waiting c q pre s) (a : Arrival) {more : Bytes}
    (hmore : pre ++ a.chunk ++ more = q.text) (hne : more ≠ []) :
    ∃ s', deliver httpCallback s a = .ok s' ∧
      ((Waiting c q (pre ++ a.chunk) s' ∧
          ∀ ls, OpenLines q pre ls → StartsRequest ls ∨ OpenLines q (pre ++ a.chunk) ls) ∨
        (Broken c s' ∧ ∀ ls, OpenLines q pre ls → ¬ StartsRequest ls)) := by
  obtain ⟨done, ls, hlines, hpre, hfree⟩ := hs.buffer
  have hls : ∀ l ∈ ls, IsLine Buffer.kCRLF l := fun l hl => q.lines_isLine l (by simp [hlines, hl])
  have hrest : s.conn.inputBuffer.peek ++ a.chunk ++ more = joinLines Buffer.kCRLF ls := by
    rw [hpre, RequestText.text, hlines, joinLines_append] at hmore
    simpa using hmore
  obtain ⟨ms, ls', rest, rfl, hcut, hfree'⟩ := exists_complete hls hrest
  have hms : ∀ l ∈ ms, IsLine Buffer.kCRLF l := fun l hl => hls l (by simp [hl])
  have hpeek : (receive s a.chunk).conn.inputBuffer.peek = joinLines Buffer.kCRLF ms ++ rest := by
    rw [receive, Buffer.peek_append, hcut]
  obtain ⟨b, hb, hmessage⟩ := onMessage_eq httpCallback hms hfree' hpeek a.time
    a.kernel
  have hopen : OpenLines q pre (ms ++ ls') := ⟨done, _, hlines, hpre, hfree⟩
  have hpre' : pre ++ a.chunk = joinLines Buffer.kCRLF (done ++ ms) ++ rest := by
    rw [hpre, joinLines_append, List.append_assoc, hcut, List.append_assoc]
  have hopen' : OpenLines q (pre ++ a.chunk) ls' :=
    ⟨done ++ ms, rest, by rw [hlines, List.append_assoc], hpre', hfree'⟩
  have hwait : ∀ context : HttpContext, context.gotAll = false → b.peek = rest →
      Waiting c q (pre ++ a.chunk)
        (onParsed httpCallback (receive s a.chunk) a.kernel true context b) := by
    intro context hgot hb
    simp only [onParsed, hgot, Bool.not_true, Bool.false_eq_true, if_false]
    refine ⟨hs.state, hs.served, hs.passed, done ++ ms, ls', ?_, ?_, ?_⟩
    · rw [hlines, List.append_assoc]
    · rw [hpre', hb]
    · rwa [hb]
  refine ⟨_, hmessage, ?_⟩
  cases ms with
  | nil =>
    left
    refine ⟨hwait _ rfl hb, fun ls hls => .inr ?_⟩
    rwa [hls.unique hopen]
  | cons m ms =>
    by_cases hm : ∃ line : RequestLine, m = line.text
    · left
      obtain ⟨line, rfl⟩ := hm
      obtain ⟨x, more', rfl⟩ := List.exists_cons_of_ne_nil (hopen'.ne_nil hmore hne)
      have hcolon := RequestText.mem_kColon_of_between hlines
      rw [HttpContext.parseLines_open line hcolon] at hb ⊢
      exact ⟨hwait _ rfl hb, fun ls hls => .inl ⟨line, ms ++ x :: more', hls.unique hopen⟩⟩
    · right
      refine ⟨onParsed_reject httpCallback (s := receive s a.chunk) hs.state hs.passed ms
        (fun line h => hm ⟨line, h⟩) a.kernel b, fun ls hls => ?_⟩
      rintro ⟨line, more', hline⟩
      rw [hls.unique hopen] at hline
      exact hm ⟨line, (List.cons.inj hline).1⟩

theorem deliver_last (hs : Waiting c q pre s) (a : Arrival) (ha : a.chunk ≠ [])
    (htext : pre ++ a.chunk = q.text) :
    ∃ s', deliver httpCallback s a = .ok s' ∧
      (Answered httpCallback c q s' ↔ ∀ ls, OpenLines q pre ls → SameRequest q ls) := by
  obtain ⟨done, ls, hlines, hpre, hfree⟩ := hs.buffer
  have hls : ∀ l ∈ ls, IsLine Buffer.kCRLF l := fun l hl => q.lines_isLine l (by simp [hlines, hl])
  have hpeek : (receive s a.chunk).conn.inputBuffer.peek = joinLines Buffer.kCRLF ls ++ [] := by
    rw [hpre, RequestText.text, hlines, joinLines_append] at htext
    rw [receive, Buffer.peek_append, List.append_nil]
    simpa using htext
  obtain ⟨b, hb, hmessage⟩ := onMessage_eq httpCallback hls (by decide) hpeek
    a.time a.kernel
  have hopen : OpenLines q pre ls := ⟨done, _, hlines, hpre, hfree⟩
  refine ⟨_, hmessage, ?_⟩
  by_cases hstart : StartsRequest ls
  · obtain ⟨line, more, rfl⟩ := hstart
    obtain ⟨q', hq'⟩ := RequestText.exists_suffix hlines
    have hscan := q'.parseLines_lines a.time []
    rw [List.append_nil, hq'] at hscan
    obtain ⟨hserved, -, hpassed⟩ := onRequest_spec httpCallback
      (s := ⟨{ (receive s a.chunk).conn with inputBuffer := b }, s.served⟩) hs.state
      (q'.request a.time) a.kernel.response
    have hparsed : onParsed httpCallback (receive s a.chunk) a.kernel true
        ⟨.kGotAll, q'.request a.time⟩ b =
        onRequest httpCallback ⟨{ (receive s a.chunk).conn with inputBuffer := b }, s.served⟩
          (q'.request a.time) a.kernel.response := rfl
    replace hserved := hserved.trans (congrArg (· ++ [q'.request a.time]) hs.served)
    rw [hscan, hparsed]
    constructor
    · rintro ⟨t, hserved', -⟩ ls hls
      have hsame : q'.request a.time = q.request t := by
        simpa using hserved.symm.trans hserved'
      refine ⟨q', hq'.trans (hls.unique hopen).symm, fun t' => ?_⟩
      rw [← q'.request_setReceiveTime a.time t', hsame, q.request_setReceiveTime]
    · intro hsame
      obtain ⟨q'', hq'', hrequest⟩ := hsame _ hopen
      have heq : q'.request a.time = q.request a.time := by
        rw [← hrequest, RequestText.request_congr (hq'.trans hq''.symm)]
      refine ⟨a.time, by rw [hserved, heq]; rfl, ?_⟩
      rw [hpassed, heq]
      exact congrArg (· ++ [(respond httpCallback (q.request a.time)).bytes]) hs.passed
  · obtain ⟨m, ms, rfl⟩ := List.exists_cons_of_ne_nil (hopen.ne_nil htext ha)
    have hbroken := onParsed_reject httpCallback (s := receive s a.chunk)
      (t := a.time) hs.state hs.passed ms
      (fun line h => hstart ⟨line, ms, congrArg (· :: ms) h⟩) a.kernel b
    refine ⟨fun h => absurd h hbroken.not_answered, fun h => ?_⟩
    obtain ⟨q', hq', -⟩ := h _ hopen
    exact absurd ⟨q'.line, _, hq'.symm⟩ hstart

theorem Harmless.cons_iff {chunk : Bytes} {chunks : List Bytes} (hne : chunks ≠ [])
    (hstart : ∀ ls, OpenLines q pre ls → StartsRequest ls ∨ OpenLines q (pre ++ chunk) ls) :
    Harmless q pre (chunk :: chunks) ↔ Harmless q (pre ++ chunk) chunks := by
  constructor
  · rintro ⟨hstarts, hsame⟩
    refine ⟨fun p hp hpne ls hls => ?_, fun ls hls => hsame ls ?_⟩
    · refine hstarts (chunk :: p) (by simpa using hp) (by simpa using hpne) ls ?_
      simpa using hls
    · rw [List.dropLast_cons_of_ne_nil hne]
      simpa using hls
  · rintro ⟨hstarts, hsame⟩
    refine ⟨fun p hp hpne ls hls => ?_, fun ls hls => hsame ls ?_⟩
    · cases p with
      | nil =>
        rcases hstart ls (by simpa using hls) with h | h
        · exact h
        · exact hstarts [] (by simp) (Ne.symm hne) ls (by simpa using h)
      | cons x p =>
        obtain ⟨rfl, htail⟩ := List.cons_prefix_cons.mp hp
        exact hstarts p htail (fun h => hpne (by rw [h])) ls (by simpa using hls)
    · rw [List.dropLast_cons_of_ne_nil hne] at hls
      simpa using hls

theorem deliverAll_waiting (hs : Waiting c q pre s) (as : List Arrival) (hne : as ≠ [])
    (hchunk : ∀ a ∈ as, a.chunk ≠ []) (htext : pre ++ (as.map Arrival.chunk).flatten = q.text) :
    ∃ s', deliverAll httpCallback s as = .ok s' ∧
      (Answered httpCallback c q s' ↔ Harmless q pre (as.map Arrival.chunk)) := by
  -- induction on the chunks that are still to come
  induction as generalizing s pre with
  | nil => exact absurd rfl hne
  | cons a as ih =>
    by_cases has : as = []
    · subst has
      obtain ⟨s', hs', hanswered⟩ := deliver_last httpCallback hs a
        (hchunk a (by simp)) (by simpa using htext)
      refine ⟨s', by rw [deliverAll, hs']; rfl, hanswered.trans ⟨fun h => ⟨?_, ?_⟩, fun h => ?_⟩⟩
      · intro p hp hpne ls hls
        obtain rfl : p = [] := by
          rcases List.prefix_cons_iff.mp hp with rfl | ⟨p', rfl, hp'⟩
          · rfl
          · exact absurd (by rw [List.prefix_nil.mp hp']; rfl) hpne
        obtain ⟨q', hq', -⟩ := h ls (by simpa using hls)
        exact ⟨q'.line, _, hq'.symm⟩
      · intro ls hls
        exact h ls (by simpa using hls)
      · intro ls hls
        exact h.same ls (by simpa using hls)
    · have hmore : (as.map Arrival.chunk).flatten ≠ [] := by
        obtain ⟨b, bs, rfl⟩ := List.exists_cons_of_ne_nil has
        have hb := hchunk b (by simp)
        simp [hb]
      obtain ⟨m, hm, hcase⟩ := deliver_waiting httpCallback hs a
        (by simpa using htext) hmore
      rcases hcase with ⟨hwait, hopen⟩ | ⟨hbroken, hnot⟩
      · obtain ⟨s', hs', hanswered⟩ := ih hwait has (fun x hx => hchunk x (by simp [hx]))
          (by simpa using htext)
        refine ⟨s', by rw [deliverAll, hm]; exact hs', hanswered.trans ?_⟩
        exact (Harmless.cons_iff (by simpa using has) hopen).symm
      · obtain ⟨s', hs', hbroken'⟩ := deliverAll_broken httpCallback hbroken as
        refine ⟨s', by rw [deliverAll, hm]; exact hs',
          fun h => absurd h hbroken'.not_answered, fun h => ?_⟩
        obtain ⟨ls, hls⟩ := hs.openLines
        exact absurd (h.starts [] (by simp) (by simp) ls (by simpa using hls)) (hnot ls hls)

theorem waiting_start (hc : c.state = .kConnected) (hbuf : c.inputBuffer.peek = [])
    (q : RequestText) : Waiting c q [] ⟨c, []⟩ :=
  ⟨hc, rfl, rfl, [], q.lines, rfl, by simp [hbuf], by rw [hbuf]; decide⟩

/-- A request text in chunks is answered as in one piece exactly when its cuts are harmless. -/
theorem answeredAlike_iff (hc : c.state = .kConnected) (hbuf : c.inputBuffer.peek = [])
    (q : RequestText) (as : List Arrival) (hchunk : ∀ a ∈ as, a.chunk ≠ [])
    (hcut : (as.map Arrival.chunk).flatten = q.text) (whole : Arrival)
    (hwhole : whole.chunk = q.text) :
    AnsweredAlike httpCallback c q as whole ↔ Harmless q [] (as.map Arrival.chunk) := by
  have hq : q.text ≠ [] := by simp [RequestText.text, RequestText.lines, Buffer.kCRLF]
  have hne : as ≠ [] := by
    rintro rfl
    exact hq hcut.symm
  have hstart := waiting_start hc hbuf q
  obtain ⟨s, hs, hanswered⟩ := deliverAll_waiting httpCallback hstart as hne hchunk
    (by simpa using hcut)
  obtain ⟨w, hw, hanswered'⟩ := deliver_last httpCallback hstart whole
    (by rwa [hwhole]) (by simpa using hwhole)
  have hwholeAnswered : Answered httpCallback c q w := by
    refine hanswered'.mpr fun ls hls => ?_
    obtain rfl := hls.unique ⟨[], [], rfl, rfl, by decide⟩
    exact ⟨q, rfl, fun _ => rfl⟩
  constructor
  · rintro ⟨s', w', hs', -, h, -⟩
    obtain rfl : s = s' := Except.ok.inj (hs.symm.trans hs')
    exact hanswered.mp h
  · intro h
    exact ⟨s, w, hs, hw, hanswered.mpr h, hwholeAnswered⟩

def getHost : RequestText where
  line := .getRoot
  headers := [(ascii "Host", ascii "a")]
  target_free := RequestLine.getRoot_free
  name_noColon := List.forall_mem_singleton.mpr (by decide)
  name_free := List.forall_mem_singleton.mpr (by decide)
  value_free := List.forall_mem_singleton.mpr (by decide)

theorem answeredAlike_cut_in_request_line :
    AnsweredAlike defaultHttpCallback (.established false) getHost
        [arrival "GET /", arrival " HTTP/1.1\r\nHost: a\r\n\r\n"]
        (arrival "GET / HTTP/1.1\r\nHost: a\r\n\r\n") := by
  refine (answeredAlike_iff defaultHttpCallback (by decide) (by decide) getHost _ (by decide)
    (by decide) _ (by decide)).mpr ?_
  refine (harmless_iff_of_noSpace (by decide) (by simp) (by decide)).mpr fun p hp => ?_
  have hmem := (List.mem_inits _ _).mpr hp
  clear hp
  revert p
  decide

/-- The cut behind the request line: what follows is taken for another request line. -/
theorem not_answeredAlike_cut_behind_request_line :
    ¬ AnsweredAlike defaultHttpCallback (.established false) getHost
      [arrival "GET / HTTP/1.1\r\n", arrival "Host: a\r\n\r\n"]
      (arrival "GET / HTTP/1.1\r\nHost: a\r\n\r\n") := by
  rintro ⟨s, w, hs, -, hanswered, -⟩
  obtain ⟨s', hs', hiff⟩ := deliverAll_waiting defaultHttpCallback
    (waiting_start (c := .established false) (by decide) (by decide) getHost)
    [arrival "GET / HTTP/1.1\r\n", arrival "Host: a\r\n\r\n"] (by simp) (by decide) (by decide)
  obtain rfl : s = s' := Except.ok.inj (hs.symm.trans hs')
  have hshort := (harmless_iff_of_noSpace (by decide) (by simp) (by decide)).mp
    (hiff.mp hanswered) [ascii "GET / HTTP/1.1\r\n"] (by decide) (by decide)
  exact absurd hshort (by decide)

end HttpServer

end WebServer.Http
