import WebServer.Http.LineParser

namespace WebServer.Http

open WebServer.Lib WebServer.Mymuduo

def HttpContext.eraseTime (c : HttpContext) : HttpContext :=
  { c with request := c.request.setReceiveTime .invalid }

def Fed.eraseTime : Fed → Fed
  | .more c => .more c.eraseTime
  | .reject c => .reject c.eraseTime
  | .done c => .done c.eraseTime

def HttpContext.Scan.eraseTime (s : HttpContext.Scan) : HttpContext.Scan :=
  { s with context := s.context.eraseTime }

namespace HttpContext

variable {c : HttpContext}

theorem Scan.of_eraseTime_eq {s s' : Scan} (h : s.eraseTime = s'.eraseTime) :
    s.ok = s'.ok ∧ s.context.eraseTime = s'.context.eraseTime ∧ s.rest = s'.rest := by
  simpa [Scan.eraseTime] using h

theorem processTarget_setReceiveTime (r : HttpRequest) (target : Bytes) (t : Timestamp) :
    processTarget (r.setReceiveTime t) target = (processTarget r target).setReceiveTime t := by
  simp only [processTarget]
  split <;> rfl

theorem processVersion_setReceiveTime (r : HttpRequest) (version : Bytes) (t : Timestamp) :
    processVersion (r.setReceiveTime t) version =
      ((processVersion r version).1, (processVersion r version).2.setReceiveTime t) := by
  simp only [processVersion]
  split_ifs <;> rfl

theorem setMethod_setReceiveTime (r : HttpRequest) (m : Bytes) (t : Timestamp) :
    (r.setReceiveTime t).setMethod m =
      (r.setMethod m).map fun p => (p.1, p.2.setReceiveTime t) := by
  by_cases hm : r.method = .kInvalid <;>
    simp [HttpRequest.setMethod, HttpRequest.setReceiveTime, hm, Except.map]

theorem processRequestLine_setReceiveTime (r : HttpRequest) (line : Bytes) (t : Timestamp) :
    processRequestLine (r.setReceiveTime t) line =
      (processRequestLine r line).map fun p => (p.1, p.2.setReceiveTime t) := by
  simp only [processRequestLine, setMethod_setReceiveTime]
  split
  · cases r.setMethod (line.take (line.idxOf kSpace)) with
    | error f => rfl
    | ok res =>
      obtain ⟨known, r⟩ := res
      simp only [Except.map]
      split
      · split
        · rw [processTarget_setReceiveTime, processVersion_setReceiveTime]
        · rfl
      · rfl
  · rfl

theorem feed_done_gotAll {t : Timestamp} {d : HttpContext} {l : Bytes} (h : c.feed t l = .done d) :
    d.gotAll = true := by
  simp only [feed] at h
  split at h
  · split at h <;> cases h
  · split at h <;> cases h
    rfl
  · cases h

theorem eraseTime_state (c : HttpContext) : c.eraseTime.state = c.state := rfl

theorem eraseTime_method (c : HttpContext) : c.eraseTime.request.method = c.request.method := rfl

theorem gotAll_congr {c d : HttpContext} (h : c.eraseTime = d.eraseTime) :
    c.gotAll = d.gotAll := by
  rw [gotAll, gotAll, ← eraseTime_state c, ← eraseTime_state d, h]

theorem ready_congr {c d : HttpContext} (h : c.eraseTime = d.eraseTime) (hd : d.Ready) :
    c.Ready := by
  rwa [Ready, ← eraseTime_state c, ← eraseTime_method c, h]

theorem feed_eraseTime (t t' : Timestamp) (l : Bytes) :
    (c.feed t l).eraseTime = (c.eraseTime.feed t' l).eraseTime := by
  cases hs : c.state with
  | kExpectRequestLine =>
    simp only [feed, eraseTime, hs, processRequestLine_setReceiveTime]
    cases processRequestLine c.request l with
    | error f => simp [Except.map, Fed.eraseTime, eraseTime, hs, HttpRequest.setReceiveTime]
    | ok res =>
      obtain ⟨ok, r⟩ := res
      cases ok <;> simp [Except.map, Fed.eraseTime, eraseTime, HttpRequest.setReceiveTime]
  | kExpectHeaders =>
    simp only [feed, eraseTime, hs]
    split <;> rfl
  | kExpectBody => simp [feed, eraseTime, hs, Fed.eraseTime, HttpRequest.setReceiveTime]
  | kGotAll => simp [feed, eraseTime, hs, Fed.eraseTime, HttpRequest.setReceiveTime]

theorem feed_congr {c d : HttpContext} (h : c.eraseTime = d.eraseTime) (t t' : Timestamp)
    (l : Bytes) : (c.feed t l).eraseTime = (d.feed t' l).eraseTime := by
  rw [feed_eraseTime t t', h, ← feed_eraseTime t' t']

theorem parseLines_congr {c d : HttpContext} (h : c.eraseTime = d.eraseTime) (t t' : Timestamp)
    (ls : List Bytes) : (parseLines t c ls).eraseTime = (parseLines t' d ls).eraseTime := by
  induction ls generalizing c d with
  | nil => simp [parseLines, Scan.eraseTime, h]
  | cons l ls ih =>
    have hfeed := feed_congr h t t' l
    simp only [parseLines]
    cases h₁ : c.feed t l <;> cases h₂ : d.feed t' l <;>
      simp only [h₁, h₂, Fed.eraseTime, reduceCtorEq, Fed.more.injEq, Fed.reject.injEq,
        Fed.done.injEq] at hfeed
    · exact ih hfeed
    · simp [Scan.eraseTime, hfeed]
    · simp [Scan.eraseTime, hfeed]

theorem parseLines_rest {t : Timestamp} {c : HttpContext} (hc : c.Ready) {ls : List Bytes}
    (hok : (parseLines t c ls).ok = true) (hgot : (parseLines t c ls).context.gotAll = false) :
    (parseLines t c ls).rest = [] ∧ (parseLines t c ls).context.Ready := by
  induction ls generalizing c with
  | nil => exact ⟨rfl, hc⟩
  | cons l ls ih =>
    simp only [parseLines] at hok hgot ⊢
    cases hfeed : c.feed t l with
    | more d =>
      simp only [hfeed] at hok hgot
      exact ih (.inr (feed_more_ready hfeed)) hok hgot
    | reject d => simp [hfeed] at hok
    | done d =>
      rw [hfeed] at hgot
      exact absurd (feed_done_gotAll hfeed) (by simp [hgot])

theorem parseLines_append (t : Timestamp) {c : HttpContext} (hc : c.Ready) (ls ms : List Bytes) :
    parseLines t c (ls ++ ms) =
      if (parseLines t c ls).ok = true ∧ (parseLines t c ls).context.gotAll = false then
        parseLines t (parseLines t c ls).context ms
      else { parseLines t c ls with rest := (parseLines t c ls).rest ++ ms } := by
  induction ls generalizing c with
  | nil =>
    have : c.gotAll = false := by
      rcases hc with ⟨hs, -⟩ | hs <;> simp [gotAll, hs]
    simp [parseLines, this]
  | cons l ls ih =>
    cases hfeed : c.feed t l with
    | more d =>
      simp only [List.cons_append, parseLines, hfeed]
      exact ih (.inr (feed_more_ready hfeed))
    | reject d => simp [parseLines, hfeed]
    | done d => simp [parseLines, hfeed, feed_done_gotAll hfeed]

end HttpContext

/-- A context and its buffer between two calls of `parseRequest`, with the last verdict. -/
structure Session where
  ok : Bool
  context : HttpContext
  buf : Buffer

namespace Session

/-- A chunk arrives: it is appended, and parsed unless a result is already there. -/
def feedChunk (σ : Session) (chunk : Bytes × Timestamp) : Except Fault Session :=
  let buf := σ.buf.append chunk.1
  if σ.ok = true ∧ σ.context.gotAll = false then
    (σ.context.parseRequest buf chunk.2).map fun p => ⟨p.ok, p.context, p.buf⟩
  else .ok { σ with buf := buf }

def feedChunks : Session → List (Bytes × Timestamp) → Except Fault Session
  | σ, [] => .ok σ
  | σ, chunk :: chunks => (σ.feedChunk chunk).bind fun σ => feedChunks σ chunks

def start (initialSize : Nat) : Session := ⟨true, .new, .new initialSize⟩

def Follows (σ : Session) (s : Bytes) : Prop :=
  ∃ ls rest, (∀ l ∈ ls, IsLine Buffer.kCRLF l) ∧ Free Buffer.kCRLF rest ∧
    s = joinLines Buffer.kCRLF ls ++ rest ∧
    σ.ok = (HttpContext.parseLines .invalid .new ls).ok ∧
    σ.context.eraseTime = (HttpContext.parseLines .invalid .new ls).context.eraseTime ∧
    σ.buf.peek =
      joinLines Buffer.kCRLF (HttpContext.parseLines .invalid .new ls).rest ++ rest

/-- Same verdict, parse state, request up to its receive time, and unread bytes. -/
def Agree (σ τ : Session) : Prop :=
  σ.ok = τ.ok ∧ σ.context.state = τ.context.state ∧
    σ.context.request.method = τ.context.request.method ∧
    σ.context.request.path = τ.context.request.path ∧
    σ.context.request.query = τ.context.request.query ∧
    σ.context.request.version = τ.context.request.version ∧
    σ.context.request.headers = τ.context.request.headers ∧ σ.buf.peek = τ.buf.peek

theorem start_follows (n : Nat) : (start n).Follows [] :=
  ⟨[], [], by simp, by decide, rfl, rfl, rfl, by simp [start, HttpContext.parseLines]⟩

theorem feedChunk_follows {σ : Session} {s : Bytes} (h : σ.Follows s) (chunk : Bytes × Timestamp) :
    ∃ τ, σ.feedChunk chunk = .ok τ ∧ τ.Follows (s ++ chunk.1) := by
  obtain ⟨ls, rest, hls, hrest, rfl, hok, hctx, hpeek⟩ := h
  obtain ⟨ms, rest', hms, hrest', hcut⟩ := exists_lines kCRLF_ne_nil (rest ++ chunk.1)
  have hlines : ∀ l ∈ ls ++ ms, IsLine Buffer.kCRLF l := by
    intro l hl
    rcases List.mem_append.mp hl with hl | hl
    · exact hls l hl
    · exact hms l hl
  have htext : joinLines Buffer.kCRLF ls ++ rest ++ chunk.1 =
      joinLines Buffer.kCRLF (ls ++ ms) ++ rest' := by
    rw [List.append_assoc, hcut, joinLines_append, List.append_assoc]
  have happ := HttpContext.parseLines_append .invalid HttpContext.ready_new ls ms
  have hgot := HttpContext.gotAll_congr hctx
  simp only [feedChunk]
  by_cases hgo : σ.ok = true ∧ σ.context.gotAll = false
  · rw [if_pos hgo]
    rw [if_pos (by rw [← hok, ← hgot]; exact hgo)] at happ
    rw [hok, hgot] at hgo
    obtain ⟨hnone, hready⟩ := HttpContext.parseLines_rest HttpContext.ready_new hgo.1 hgo.2
    have hready' : σ.context.Ready := HttpContext.ready_congr hctx hready
    have hbuf : (σ.buf.append chunk.1).peek = joinLines Buffer.kCRLF ms ++ rest' := by
      rw [Buffer.peek_append, hpeek, hnone, joinLines_nil, List.nil_append, hcut]
    obtain ⟨b, hparse, hb⟩ := HttpContext.parseRequest_eq hready' hms hrest' hbuf chunk.2
    obtain ⟨hok', hctx', hrest''⟩ := HttpContext.Scan.of_eraseTime_eq
      (HttpContext.parseLines_congr hctx chunk.2 .invalid ms)
    refine ⟨_, by rw [hparse]; rfl, ls ++ ms, rest', hlines, hrest', htext, ?_, ?_, ?_⟩
    · rw [happ, hok']
    · rw [happ, hctx']
    · rw [happ, hb, hrest'']
  · rw [if_neg hgo]
    rw [if_neg (by rw [← hok, ← hgot]; exact hgo)] at happ
    refine ⟨_, rfl, ls ++ ms, rest', hlines, hrest', htext, ?_, ?_, ?_⟩
    · rw [happ]; exact hok
    · rw [happ]; exact hctx
    · rw [happ, Buffer.peek_append, hpeek, List.append_assoc, hcut]
      simp

theorem feedChunks_follows {σ : Session} {s : Bytes} (h : σ.Follows s)
    (chunks : List (Bytes × Timestamp)) :
    ∃ τ, σ.feedChunks chunks = .ok τ ∧ τ.Follows (s ++ (chunks.map Prod.fst).flatten) := by
  induction chunks generalizing σ s with
  | nil => exact ⟨σ, rfl, by simpa using h⟩
  | cons chunk chunks ih =>
    obtain ⟨τ, hτ, hfollows⟩ := feedChunk_follows h chunk
    obtain ⟨υ, hυ, hfollows'⟩ := ih hfollows
    exact ⟨υ, by simp [feedChunks, hτ, Except.bind, hυ], by simpa using hfollows'⟩

theorem Follows.agree {σ τ : Session} {s : Bytes} (hσ : σ.Follows s) (hτ : τ.Follows s) :
    σ.Agree τ := by
  obtain ⟨ls, rest, hls, hrest, rfl, hok, hctx, hpeek⟩ := hσ
  obtain ⟨ms, rest', hms, hrest', htext, hok', hctx', hpeek'⟩ := hτ
  obtain ⟨rfl, rfl⟩ := lines_unique kCRLF_ne_nil hls hms hrest hrest' htext
  obtain ⟨hstate, hmethod, hversion, hpath, hquery, hheaders⟩ :
      σ.context.state = τ.context.state ∧
        σ.context.request.method = τ.context.request.method ∧
        σ.context.request.version = τ.context.request.version ∧
        σ.context.request.path = τ.context.request.path ∧
        σ.context.request.query = τ.context.request.query ∧
        σ.context.request.headers = τ.context.request.headers := by
    simpa [HttpContext.eraseTime, HttpRequest.setReceiveTime] using hctx.trans hctx'.symm
  exact ⟨hok.trans hok'.symm, hstate, hmethod, hpath, hquery, hversion, hheaders,
    hpeek.trans hpeek'.symm⟩

/-- However a text is cut into chunks, parsing it chunk by chunk ends where one call on the
whole text ends. -/
theorem feedChunks_agree_whole (n m : Nat) (chunks : List (Bytes × Timestamp)) (t : Timestamp) :
    ∃ σ p, (start n).feedChunks chunks = .ok σ ∧
      HttpContext.new.parseRequest
        ((Buffer.new m).append (chunks.map Prod.fst).flatten) t = .ok p ∧
      σ.Agree ⟨p.ok, p.context, p.buf⟩ := by
  obtain ⟨σ, hσ, hfollows⟩ := feedChunks_follows (start_follows n) chunks
  obtain ⟨τ, hτ, hwhole⟩ := feedChunk_follows (start_follows m) ((chunks.map Prod.fst).flatten, t)
  simp only [feedChunk, start] at hτ
  rw [if_pos (by decide)] at hτ
  cases hp : HttpContext.new.parseRequest
      ((Buffer.new m).append (chunks.map Prod.fst).flatten) t with
  | error f => simp [hp, Except.map] at hτ
  | ok p =>
    obtain rfl : (⟨p.ok, p.context, p.buf⟩ : Session) = τ := by simpa [hp, Except.map] using hτ
    exact ⟨σ, p, hσ, rfl, hfollows.agree hwhole⟩

end Session

end WebServer.Http
