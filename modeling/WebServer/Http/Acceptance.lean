import WebServer.Http.Grammar

namespace WebServer.Http

open WebServer.Lib WebServer.Mymuduo

def HeadLines (last : Bytes) (ls : List Bytes) : Prop :=
  (∀ l ∈ ls, Free Buffer.kCRLF l) ∧
    ∃ (q : RequestLine) (hs : List Bytes),
      ls = q.text :: hs ++ [last] ∧ ∀ h ∈ hs, h ≠ [] ∧ kColon ∈ h

def IsHead (s : Bytes) : Prop := ∃ ls, HeadLines [] ls ∧ s = joinLines Buffer.kCRLF ls

def ColonlessEnd (s : Bytes) : Prop :=
  ∃ l ls, l ≠ [] ∧ kColon ∉ l ∧ HeadLines l ls ∧ joinLines Buffer.kCRLF ls <+: s

/-- `parseRequest` accepts `s` exactly when it starts with a head, and consumes the head. -/
def ParsesHeads (initialSize : Nat) (t : Timestamp) (s : Bytes) : Prop :=
  ∃ p, HttpContext.new.parseRequest ((Buffer.new initialSize).append s) t = .ok p ∧
    (p.ok = true ∧ p.context.gotAll = true ↔ ∃ h, IsHead h ∧ h <+: s) ∧
    (p.ok = true ∧ p.context.gotAll = true → ∀ h, IsHead h → h <+: s → s = h ++ p.buf.peek)

variable {t : Timestamp}

theorem HeadLines.isLine {l : Bytes} {ls : List Bytes} (h : HeadLines l ls) :
    ∀ x ∈ ls, IsLine Buffer.kCRLF x := fun x hx => isLine_kCRLF.mpr (h.1 x hx)

theorem HeadLines.last_eq {l l' : Bytes} {ls : List Bytes} (h : HeadLines l ls)
    (h' : HeadLines l' ls) : l = l' := by
  obtain ⟨-, q, hs, rfl, -⟩ := h
  obtain ⟨-, q', hs', heq, -⟩ := h'
  have hlast := congrArg List.getLast? heq
  rwa [List.getLast?_concat, List.getLast?_concat, Option.some.injEq] at hlast

theorem HeadLines.parseLines {l : Bytes} {ls : List Bytes} (h : HeadLines l ls)
    (hl : kColon ∉ l) (more : List Bytes) :
    ∃ c, HttpContext.parseLines t .new (ls ++ more) = ⟨true, c, more⟩ ∧ c.gotAll = true := by
  obtain ⟨-, q, hs, rfl, hcolon⟩ := h
  refine ⟨⟨.kGotAll, hs.foldl HttpContext.addLine ((q.setOn .new).setReceiveTime t)⟩, ?_, rfl⟩
  rw [List.cons_append, List.cons_append, List.append_assoc, HttpContext.parseLines_requestLine,
    HttpContext.parseLines_colons fun x hx => (hcolon x hx).2, List.singleton_append,
    HttpContext.parseLines_end hl]

theorem exists_colonless {r : HttpRequest} {ls : List Bytes}
    (h : (HttpContext.parseLines t ⟨.kExpectHeaders, r⟩ ls).context.gotAll = true) :
    ∃ hs l more, ls = hs ++ l :: more ∧ (∀ x ∈ hs, kColon ∈ x) ∧ kColon ∉ l := by
  induction ls generalizing r with
  | nil => simp [HttpContext.parseLines, HttpContext.gotAll] at h
  | cons x ls ih =>
    by_cases hx : kColon ∈ x
    · simp only [HttpContext.parseLines, HttpContext.feed, if_pos hx] at h
      obtain ⟨hs, l, more, rfl, hhs, hl⟩ := ih h
      refine ⟨x :: hs, l, more, rfl, ?_, hl⟩
      intro y hy
      rcases List.mem_cons.mp hy with rfl | hy
      · exact hx
      · exact hhs y hy
    · exact ⟨[], x, ls, rfl, by simp, hx⟩

theorem exists_headLines {ls : List Bytes} (hfree : ∀ x ∈ ls, Free Buffer.kCRLF x)
    (hgot : (HttpContext.parseLines t .new ls).context.gotAll = true) :
    ∃ l xs more, ls = xs ++ more ∧ kColon ∉ l ∧ HeadLines l xs := by
  cases ls with
  | nil => simp [HttpContext.parseLines, HttpContext.gotAll, HttpContext.new] at hgot
  | cons x ls =>
    by_cases haccepted : ∃ q : RequestLine, x = q.text
    · obtain ⟨q, rfl⟩ := haccepted
      rw [HttpContext.parseLines_requestLine] at hgot
      obtain ⟨hs, l, more, rfl, hhs, hl⟩ := exists_colonless hgot
      refine ⟨l, q.text :: hs ++ [l], more, by simp, hl, ?_, q, hs, rfl, ?_⟩
      · intro y hy
        exact hfree y (by simp at hy ⊢; tauto)
      · intro h hh
        exact ⟨List.ne_nil_of_mem (hhs h hh), hhs h hh⟩
    · obtain ⟨r, hr⟩ := HttpContext.parseLines_rejected haccepted t ls
      rw [hr] at hgot
      cases hgot

theorem exists_more {l : Bytes} {xs ls : List Bytes} {rest : Bytes} (h : HeadLines l xs)
    (hls : ∀ x ∈ ls, IsLine Buffer.kCRLF x) (hrest : Free Buffer.kCRLF rest)
    (hfront : joinLines Buffer.kCRLF xs <+: joinLines Buffer.kCRLF ls ++ rest) :
    ∃ more, ls = xs ++ more := by
  obtain ⟨u, hu⟩ := hfront
  obtain ⟨more, hmore⟩ := lines_prefix (t := []) kCRLF_ne_nil h.isLine hls hrest (by simpa using hu)
  exact ⟨more, hmore.symm⟩

theorem parse_text (initialSize : Nat) (t : Timestamp) (s : Bytes) :
    ∃ ls rest p, (∀ l ∈ ls, IsLine Buffer.kCRLF l) ∧ Free Buffer.kCRLF rest ∧
      s = joinLines Buffer.kCRLF ls ++ rest ∧
      HttpContext.new.parseRequest ((Buffer.new initialSize).append s) t = .ok p ∧
      p.ok = (HttpContext.parseLines t .new ls).ok ∧
      p.context = (HttpContext.parseLines t .new ls).context ∧
      p.buf.peek = joinLines Buffer.kCRLF (HttpContext.parseLines t .new ls).rest ++ rest := by
  obtain ⟨ls, rest, hls, hrest, rfl⟩ := exists_lines kCRLF_ne_nil s
  have hpeek : ((Buffer.new initialSize).append (joinLines Buffer.kCRLF ls ++ rest)).peek =
      joinLines Buffer.kCRLF ls ++ rest := by simp
  obtain ⟨b, hp, hb⟩ := HttpContext.parseRequest_eq HttpContext.ready_new hls hrest hpeek t
  exact ⟨ls, rest, _, hls, hrest, rfl, hp, rfl, rfl, hb⟩

theorem not_parsesHeads {n : Nat} {s : Bytes} (h : ColonlessEnd s) : ¬ ParsesHeads n t s := by
  rintro ⟨p, hp, hiff, -⟩
  obtain ⟨l, xs, hne, hl, hxs, hfront⟩ := h
  obtain ⟨ls, rest, p', hls, hrest, rfl, hp', hok, hctx, -⟩ := parse_text n t s
  obtain rfl : p' = p := Except.ok.inj (hp'.symm.trans hp)
  obtain ⟨more, rfl⟩ := exists_more hxs hls hrest hfront
  obtain ⟨c, hc, hgot⟩ := hxs.parseLines (t := t) hl more
  obtain ⟨h, ⟨ys, hys, rfl⟩, hfront'⟩ := hiff.mp (by rw [hok, hctx, hc]; exact ⟨rfl, hgot⟩)
  obtain ⟨more', heq⟩ := exists_more hys hls hrest hfront'
  obtain ⟨c', hc', -⟩ := hys.parseLines (t := t) (by simp) more'
  rw [← heq, hc] at hc'
  obtain ⟨-, -, rfl⟩ := HttpContext.Scan.mk.inj hc'
  obtain rfl := List.append_cancel_right heq
  exact hne (hxs.last_eq hys)

theorem parsesHeads {s : Bytes} (n : Nat) (t : Timestamp) (h : ¬ ColonlessEnd s) :
    ParsesHeads n t s := by
  obtain ⟨ls, rest, p, hls, hrest, rfl, hp, hok, hctx, hpeek⟩ := parse_text n t s
  refine ⟨p, hp, ⟨?_, ?_⟩, ?_⟩
  · rintro ⟨-, hgot⟩
    obtain ⟨l, xs, more, rfl, hl, hxs⟩ :=
      exists_headLines (t := t) (fun x hx => isLine_kCRLF.mp (hls x hx)) (by rw [← hctx, hgot])
    have hfront : joinLines Buffer.kCRLF xs <+: joinLines Buffer.kCRLF (xs ++ more) ++ rest := by
      simp
    obtain rfl : l = [] := by
      by_contra hne
      exact h ⟨l, xs, hne, hl, hxs, hfront⟩
    exact ⟨_, ⟨xs, hxs, rfl⟩, hfront⟩
  · rintro ⟨h, ⟨xs, hxs, rfl⟩, hfront⟩
    obtain ⟨more, rfl⟩ := exists_more hxs hls hrest hfront
    obtain ⟨c, hc, hgot⟩ := hxs.parseLines (t := t) (by simp) more
    rw [hok, hctx, hc]
    exact ⟨rfl, hgot⟩
  · rintro - h ⟨xs, hxs, rfl⟩ hfront
    obtain ⟨more, rfl⟩ := exists_more hxs hls hrest hfront
    obtain ⟨c, hc, -⟩ := hxs.parseLines (t := t) (by simp) more
    rw [hpeek, hc]
    simp

/-- `parseRequest` follows the grammar on exactly the texts whose header lines do not end with
a non-empty line without a colon. -/
theorem parsesHeads_iff (initialSize : Nat) (t : Timestamp) (s : Bytes) :
    ParsesHeads initialSize t s ↔ ¬ ColonlessEnd s :=
  ⟨fun hparse hend => not_parsesHeads hend hparse, parsesHeads initialSize t⟩

/-- The line `foo` is taken for the end of the headers. -/
theorem not_parsesHeads_foo :
    ¬ ParsesHeads Buffer.kInitialSize .invalid (ascii "GET / HTTP/1.1\r\nfoo\r\n") := by
  refine not_parsesHeads ⟨ascii "foo", [ascii "GET / HTTP/1.1", ascii "foo"], by decide, by decide,
    ⟨by decide, .getRoot, [], rfl, by simp⟩, ?_⟩
  decide

end WebServer.Http
