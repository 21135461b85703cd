import WebServer.Http.ResponseFraming
import WebServer.Http.Wire

namespace WebServer.Http

open WebServer.Lib WebServer.Mymuduo

structure WellFramed (r : HttpResponse) : Prop where
  message_free : Free Buffer.kCRLF r.statusMessage
  name_free : ∀ h ∈ r.headers.entries, Free Buffer.kCRLF h.1
  name_noColon : ∀ h ∈ r.headers.entries, kColon ∉ h.1
  name_isField : ∀ h ∈ r.headers.entries, isField h = true
  value_free : ∀ h ∈ r.headers.entries, Free Buffer.kCRLF h.2
  body_lt : r.closeConnection = false → r.body.length < 10 ^ 13

theorem WellFramed.keepAlive {r : HttpResponse} (h : WellFramed r)
    (hopen : r.closeConnection = false) : KeepAlive r where
  closeConnection := hopen
  message_free := h.message_free
  name_free := h.name_free
  name_noColon := h.name_noColon
  name_isField := h.name_isField
  value_free := h.value_free
  body_lt := h.body_lt hopen

theorem stable_readResponse : Stable readResponse := by
  intro s x t h w
  simp only [readResponse, Option.bind_eq_some_iff] at h
  obtain ⟨⟨lines, rest⟩, hhead, h⟩ := h
  have hlen : s.length ≤ (s ++ w).length := by simp
  simp only [readResponse, takeHead_append hlen hhead w, Option.bind_some]
  cases lines with
  | nil => cases h
  | cons status headerLines =>
    simp only [Option.bind_eq_some_iff] at h ⊢
    obtain ⟨code, hstatus, headers, hheaders, length, hlength, n, hn, h⟩ := h
    refine ⟨code, hstatus, headers, hheaders, length, hlength, n, hn, ?_⟩
    rw [Option.ite_none_right_eq_some] at h ⊢
    obtain ⟨hle, h⟩ := h
    simp only [Option.some.injEq, Prod.mk.injEq] at h ⊢
    refine ⟨by rw [List.length_append]; omega, ?_, ?_⟩
    · rw [List.take_append_of_le_length hle]
      exact h.1
    · rw [List.drop_append_of_le_length hle, h.2]

namespace HttpResponse

def closingLines (r : HttpResponse) : List Bytes :=
  (ascii "HTTP/1.1 " ++ decimal r.statusCode.toNat ++ kSpace :: r.statusMessage) ::
    ((kConnection, ascii "close") :: r.headers.entries).map headerLine

theorem bytes_closing {r : HttpResponse} (hclose : r.closeConnection = true) :
    r.bytes = joinLines Buffer.kCRLF (r.closingLines ++ [[]]) ++ r.body := by
  have hheaders : r.headerLines =
      joinLines Buffer.kCRLF (r.headers.entries.map headerLine) := by
    simp [headerLines, joinLines, headerLine, Function.comp_def,
      show ascii ": " = [kColon, kSpace] from rfl, show ascii "\r\n" = Buffer.kCRLF from rfl]
  have hconnection : r.connectionLines =
      headerLine (kConnection, ascii "close") ++ Buffer.kCRLF := by
    rw [connectionLines, hclose, if_pos rfl]
    rfl
  rw [bytes, statusLine_eq, hconnection, hheaders]
  simp [closingLines, show ascii "\r\n" = Buffer.kCRLF from rfl]

theorem bytes_ne_nil (r : HttpResponse) : r.bytes ≠ [] := by
  simp [bytes, show ascii "\r\n" = Buffer.kCRLF from rfl, Buffer.kCRLF]

end HttpResponse

variable {r : HttpResponse}

theorem closingLines_isLine (h : WellFramed r) :
    ∀ l ∈ r.closingLines, IsLine Buffer.kCRLF l := by
  intro l hl
  rcases List.mem_cons.mp hl with rfl | hl
  · refine isLine_kCRLF.mpr ((free_cut kCRLF_ne_nil (by decide)).mpr ⟨?_, h.message_free⟩)
    cases r.statusCode <;> decide
  · obtain ⟨x, hx, rfl⟩ := List.mem_map.mp hl
    rcases List.mem_cons.mp hx with rfl | hx
    · exact isLine_headerLine (by decide) (by decide)
    · exact isLine_headerLine (h.name_free x hx) (h.value_free x hx)

theorem closingLines_ne_nil (r : HttpResponse) : ∀ l ∈ r.closingLines, l ≠ [] := by
  intro l hl
  rcases List.mem_cons.mp hl with rfl | hl
  · simp
  · obtain ⟨x, -, rfl⟩ := List.mem_map.mp hl
    simp [headerLine]

theorem readResponse_closing (h : WellFramed r) (hclose : r.closeConnection = true) :
    readResponse r.bytes = none := by
  have hname : ∀ x ∈ (kConnection, ascii "close") :: r.headers.entries, kColon ∉ x.1 := by
    intro x hx
    rcases List.mem_cons.mp hx with rfl | hx
    · exact (show kColon ∉ kConnection by decide)
    · exact h.name_noColon x hx
  have hlength : ((kConnection, ascii "close") :: r.headers.entries).find?
      (fun x => x.1 = kContentLength) = none := by
    rw [List.find?_eq_none]
    intro x hx
    rcases List.mem_cons.mp hx with rfl | hx
    · simp [kConnection, kContentLength, show ascii "Connection" ≠ ascii "Content-Length" by decide]
    · have hfield := h.name_isField x hx
      simp only [isField, ne_eq, decide_eq_true_eq] at hfield
      simpa using hfield.1
  have hlen : r.closingLines.length < r.bytes.length := by
    have hle := length_le_joinLines kCRLF_ne_nil (r.closingLines ++ [[]])
    rw [HttpResponse.bytes_closing hclose, List.length_append]
    rw [List.length_append, List.length_singleton] at hle
    omega
  have hhead := takeHead_lines kCRLF_ne_nil hlen (closingLines_isLine h) (closingLines_ne_nil r)
    (by decide) r.body
  rw [← HttpResponse.bytes_closing hclose] at hhead
  simp only [readResponse, hhead, HttpResponse.closingLines, Option.bind_some, readStatusLine_eq,
    mapM_readHeader hname, hlength, Option.bind_none]

theorem readResponse_badRequest : readResponse HttpServer.badRequest = none := by decide

namespace Reply

def kept : List Reply → List HttpResponse
  | .response r :: rs => if r.closeConnection then [] else r :: kept rs
  | _ => []

def farewell : List Reply → Bytes
  | [] => []
  | r :: rs => if r.closing then r.bytes else farewell rs

theorem flatten_sent (rs : List Reply) :
    ((sent rs).map Reply.bytes).flatten =
      ((kept rs).map HttpResponse.bytes).flatten ++ farewell rs := by
  induction rs with
  | nil => rfl
  | cons x rs ih =>
    cases x with
    | badRequest => simp [sent, kept, farewell, closing, bytes]
    | response r =>
      by_cases hclose : r.closeConnection = true
      · simp [sent, kept, farewell, closing, bytes, hclose]
      · simp [sent, kept, farewell, closing, bytes, hclose, ih]

theorem mem_kept {rs : List Reply} (h : r ∈ kept rs) :
    .response r ∈ rs ∧ r.closeConnection = false := by
  induction rs with
  | nil => cases h
  | cons x rs ih =>
    cases x with
    | badRequest => cases h
    | response r' =>
      rw [kept] at h
      split at h
      · cases h
      · next hopen =>
        rcases List.mem_cons.mp h with rfl | h
        · exact ⟨List.mem_cons_self, Bool.eq_false_of_not_eq_true hopen⟩
        · exact ⟨List.mem_cons_of_mem _ (ih h).1, (ih h).2⟩

theorem kept_map {α : Type} {f : α → HttpResponse} {goesOn : α → Bool} {l : List α}
    (h : ∀ a ∈ l, (f a).closeConnection = !goesOn a) :
    kept ((l.map f).map .response) = (l.takeWhile goesOn).map f := by
  induction l with
  | nil => rfl
  | cons a l ih =>
    obtain ⟨ha, hl⟩ := List.forall_mem_cons.mp h
    cases hopen : goesOn a <;> simp [kept, ha, hopen, ← ih hl]

theorem farewell_of_open {rs : List Reply} (h : ∀ r ∈ rs, r.closing = false) :
    farewell rs = [] := by
  induction rs with
  | nil => rfl
  | cons r rs ih =>
    obtain ⟨hr, hrs⟩ := List.forall_mem_cons.mp h
    rw [farewell, hr, if_neg Bool.false_ne_true, ih hrs]

theorem readResponse_farewell {rs : List Reply} (h : ∀ r, .response r ∈ rs → WellFramed r) :
    readResponse (farewell rs) = none := by
  induction rs with
  | nil => rfl
  | cons x rs ih =>
    have hrest := ih fun r hr => h r (List.mem_cons_of_mem x hr)
    cases x with
    | badRequest => exact readResponse_badRequest
    | response r =>
      rw [farewell]
      split
      · next hclose => exact readResponse_closing (h r List.mem_cons_self) hclose
      · exact hrest

end Reply

def readReplies (s : Bytes) : List Received × Bytes := readAvailable readResponse s.length s

theorem readReplies_prefix {rs : List Reply} (h : ∀ r, .response r ∈ rs → WellFramed r)
    {p : Bytes} (hp : p <+: ((Reply.sent rs).map Reply.bytes).flatten) :
    ∃ cs ds u, Reply.kept rs = cs ++ ds ∧ readReplies p = (cs.map HttpResponse.received, u) ∧
      p = (cs.map HttpResponse.bytes).flatten ++ u ∧
      (ds = [] ∧ u <+: Reply.farewell rs ∨
        ∃ d ds', ds = d :: ds' ∧ u <+: d.bytes ∧ u ≠ d.bytes) := by
  rw [Reply.flatten_sent] at hp
  refine readAvailable_prefix (Nat.le_refl _) stable_readResponse (fun r hr => ?_)
    (fun r _ => r.bytes_ne_nil) (Reply.readResponse_farewell h) hp
  obtain ⟨hmem, hopen⟩ := Reply.mem_kept hr
  have hread := readResponse_bytes ((h r hmem).keepAlive hopen) []
  rwa [List.append_nil] at hread

theorem readReplies_whole {rs : List Reply} (h : ∀ r, .response r ∈ rs → WellFramed r) :
    readReplies ((Reply.sent rs).map Reply.bytes).flatten =
      ((Reply.kept rs).map HttpResponse.received, Reply.farewell rs) := by
  obtain ⟨cs, ds, u, hkept, hread, hbytes, hleft⟩ := readReplies_prefix h List.prefix_rfl
  rw [Reply.flatten_sent, hkept, List.map_append, List.flatten_append, List.append_assoc] at hbytes
  have hrest := List.append_cancel_left hbytes
  rcases hleft with ⟨rfl, -⟩ | ⟨r, ds', rfl, hu, hne⟩
  · rw [hread, hkept, List.append_nil, ← hrest, List.map_nil, List.flatten_nil, List.nil_append]
  · -- an incomplete response is shorter than it would have to be
    have hlen := congrArg List.length hrest
    have hlt : u.length ≠ r.bytes.length := fun heq => hne (hu.eq_of_length heq)
    have hle := hu.length_le
    simp only [List.map_cons, List.flatten_cons, List.length_append] at hlen
    omega

/-- What a client makes of what the kernel has taken: the first responses, each as it was made,
and, when nothing is left to write, all of them, with the reply that closes behind them. -/
def Dialogue.Understood (d : Dialogue) : Prop :=
  ∃ cs ds u, Reply.kept d.replies = cs ++ ds ∧
    readReplies (TcpConnection.kernelBytes d.http.conn.log) = (cs.map HttpResponse.received, u) ∧
    TcpConnection.kernelBytes d.http.conn.log = (cs.map HttpResponse.bytes).flatten ++ u ∧
    (d.http.conn.state ≠ .kDisconnected → d.http.conn.outputBuffer.peek = [] →
      ds = [] ∧ u = Reply.farewell d.replies)

theorem Dialogue.Transmits.understood {d : Dialogue} (hd : Transmits d.http.conn d.replies)
    (h : ∀ r, .response r ∈ d.replies → WellFramed r) : d.Understood := by
  have hwire : TcpConnection.kernelBytes d.http.conn.log <+:
      ((Reply.sent d.replies).map Reply.bytes).flatten := by
    have hstream : TcpConnection.kernelBytes d.http.conn.log <+: d.http.conn.stream :=
      List.prefix_append _ _
    rw [hd.stream] at hstream
    exact hstream.trans hd.initial.flatten
  obtain ⟨cs, ds, u, hkept, hread, hbytes, hleft⟩ := readReplies_prefix h hwire
  refine ⟨cs, ds, u, hkept, hread, hbytes, fun hstate hempty => ?_⟩
  have hall : TcpConnection.kernelBytes d.http.conn.log =
      ((Reply.sent d.replies).map Reply.bytes).flatten := by
    rw [← hd.whole hstate, ← hd.stream, TcpConnection.stream, hempty, List.append_nil]
  rw [hall, readReplies_whole h, hkept, Prod.mk.injEq, List.map_append] at hread
  exact ⟨by simpa using hread.1, hread.2.symm⟩

/-- Nothing in the responses to what arrives looks like framing. -/
def AllFramed (xs : List Arrived) : Prop :=
  ∀ r, .response r ∈ (xs.foldl Transcript.receive .empty).replies → WellFramed r

theorem mem_newReplies {a : Transcript} {x : Arrived} (h : .response r ∈ a.newReplies x) :
    ∃ req, r = HttpServer.respond x.httpCallback req := by
  simp only [Transcript.newReplies, Dialogue.repliesOf, List.mem_append] at h
  rcases h with h | h
  · split at h <;> simp at h
  · split at h
    · simp only [List.mem_singleton, Reply.response.injEq] at h
      exact ⟨_, h⟩
    · cases h

theorem framed_foldl {xs : List Arrived}
    (h : ∀ x ∈ xs, ∀ req, WellFramed (HttpServer.respond x.httpCallback req)) {a : Transcript}
    (ha : ∀ r, .response r ∈ a.replies → WellFramed r) :
    ∀ r, .response r ∈ (xs.foldl Transcript.receive a).replies → WellFramed r := by
  induction xs generalizing a with
  | nil => exact ha
  | cons x xs ih =>
    obtain ⟨hx, hxs⟩ := List.forall_mem_cons.mp h
    refine ih hxs fun r hr => ?_
    rcases List.mem_append.mp hr with hr | hr
    · exact ha r hr
    · obtain ⟨req, rfl⟩ := mem_newReplies hr
      exact hx req

theorem allFramed_of_callbacks {xs : List Arrived}
    (h : ∀ x ∈ xs, ∀ req, WellFramed (HttpServer.respond x.httpCallback req)) : AllFramed xs :=
  framed_foldl h fun _ hr => absurd hr List.not_mem_nil

theorem Dialogue.responses_framed {w : Bool} {ls : List Dialogue.Label} {d : Dialogue}
    (hrun : run Dialogue.step (.new w) ls = some d)
    (hframed : AllFramed (ls.filterMap Dialogue.Label.arrived)) :
    ∀ r, .response r ∈ d.replies → WellFramed r := by
  obtain ⟨d', hrun', htranscript⟩ := Dialogue.run_transcript_from (.new w) ls
  obtain rfl : d = d' := Option.some.inj (hrun.symm.trans hrun')
  have hreplies : d.replies =
      ((ls.filterMap Dialogue.Label.arrived).foldl Transcript.receive
        (Dialogue.new w).transcript).replies := by rw [← htranscript]; rfl
  rw [hreplies]
  exact hframed

/-- In every run in which no direct write fails and the responses are well framed, whatever arrives
and however much of the output the kernel has taken, the client finds in it the responses that were
made. -/
theorem Dialogue.run_understood (w : Bool) {ls : List Dialogue.Label}
    (hls : Along Dialogue.step Dialogue.KernelTakes (.new w) ls)
    (hframed : AllFramed (ls.filterMap Dialogue.Label.arrived)) :
    ∃ d, run Dialogue.step (.new w) ls = some d ∧ d.Understood := by
  obtain ⟨d, hrun, hd⟩ := Dialogue.run_transmits w hls
  exact ⟨d, hrun, hd.understood (Dialogue.responses_framed hrun hframed)⟩

theorem wellFramed_default (req : HttpRequest) :
    WellFramed (HttpServer.respond HttpServer.defaultHttpCallback req) :=
  ⟨show Free Buffer.kCRLF (ascii "Not Found") by decide, List.forall_mem_nil _,
    List.forall_mem_nil _, List.forall_mem_nil _, List.forall_mem_nil _, nofun⟩

theorem allFramed_default (xs : List Batch)
    (h : ∀ x ∈ xs, x.httpCallback = HttpServer.defaultHttpCallback) :
    AllFramed (xs.map Batch.arrived) := by
  refine allFramed_of_callbacks fun a ha req => ?_
  obtain ⟨x, hx, rfl⟩ := List.mem_map.mp ha
  rw [show x.arrived.httpCallback = _ from h x hx]
  exact wellFramed_default req

def Dialogue.partialWrite : List Dialogue.Label :=
  [.handleRead (.ok HttpServer.getRoot.text) .invalid ⟨.ok 0, .ok 5, 0⟩
      HttpServer.defaultHttpCallback,
    .handleWrite (.ok 7)]

theorem Dialogue.run_understood_partialWrite :
    ∃ d, run Dialogue.step (.new false) Dialogue.partialWrite = some d ∧ d.Understood :=
  Dialogue.run_understood false (by decide +kernel)
    (allFramed_default [⟨HttpServer.getRoot, [], .invalid, HttpServer.defaultHttpCallback⟩]
      (by simp))

end WebServer.Http
