import WebServer.Lib.Loop
import WebServer.Mymuduo.RawBuffer

namespace WebServer.Mymuduo

open WebServer.Lib

/-- The `k`-th call of `fwrite_unlocked` takes any part of the bytes it is given, and may set the
error indicator of the file. -/
structure Fwrite where
  taken : Nat → Nat → Nat
  taken_le : ∀ k count, taken k count ≤ count
  fails : Nat → Bool

/-- A call of `write`: where its data begins in the line, and what it was to take and has taken. -/
structure FileWrite where
  start : Nat
  count : Nat
  taken : Nat
  deriving DecidableEq

/-- `content` is what the calls so far have taken. -/
structure AppendFile where
  content : Bytes
  writes : List FileWrite
  error : Bool

namespace AppendFile

def write (k : Fwrite) (f : AppendFile) (logline : Bytes) (start count : Nat) :
    Nat × AppendFile :=
  let x := k.taken f.writes.length count
  (x,
    { content := f.content ++ ((logline.drop start).take count).take x
      writes := f.writes ++ [⟨start, count, x⟩]
      error := f.error || k.fails f.writes.length })

/-- The variables of `append`; `ended` is set by its `break`. -/
structure Append where
  file : AppendFile
  n : Nat
  remain : Nat
  ended : Bool
  stderr : Bytes

def appendRound (k : Fwrite) (logline : Bytes) (a : Append) : Append :=
  let (x, file) := a.file.write k logline a.n a.remain
  if x = 0 then
    { a with
      file := file
      ended := true
      stderr :=
        if file.error then a.stderr ++ ascii "AppendFile::append() failed !\n" else a.stderr }
  else
    let n := sizeAdd a.n x
    { a with file := file, n := n, remain := sizeSub logline.length n }

/-- The variables of `append` in front of its loop. -/
def appendFirst (k : Fwrite) (f : AppendFile) (logline : Bytes) : Append :=
  let (n, file) := f.write k logline 0 logline.length
  ⟨file, n, sizeSub logline.length n, false, []⟩

def goesOn (a : Append) : Bool := !a.ended && 0 < a.remain

/-- `append`; an error when its loop is not at its end after `fuel` tests. -/
def append (k : Fwrite) (f : AppendFile) (logline : Bytes) (fuel : Nat) : Except Unit Append :=
  whileLoop goesOn (fun a => .ok (appendRound k logline a)) () fuel (f.appendFirst k logline)

/-- Each write begins where the bytes taken so far end, the first one at `n`, and has the rest of
the `size` bytes to write. -/
def Contiguous (size : Nat) : Nat → List FileWrite → Prop
  | _, [] => True
  | n, w :: ws =>
    w.start = n ∧ w.count = size - n ∧ w.taken ≤ w.count ∧ Contiguous size (n + w.taken) ws

def total (ws : List FileWrite) : Nat := (ws.map (·.taken)).sum

theorem total_concat (ws : List FileWrite) (w : FileWrite) :
    total (ws ++ [w]) = total ws + w.taken := by
  simp [total]

theorem contiguous_concat {size n : Nat} {ws : List FileWrite} {w : FileWrite}
    (h : Contiguous size n ws) (hstart : w.start = n + total ws)
    (hcount : w.count = size - w.start) (htaken : w.taken ≤ w.count) :
    Contiguous size n (ws ++ [w]) := by
  induction ws generalizing n with
  | nil =>
    have hn : w.start = n := hstart
    exact ⟨hn, hn ▸ hcount, htaken, trivial⟩
  | cons v ws ih =>
    obtain ⟨hv, hcountv, htakenv, hrest⟩ := h
    refine ⟨hv, hcountv, htakenv, ih hrest ?_⟩
    simpa [total, Nat.add_assoc] using hstart

structure Written (f : AppendFile) (logline : Bytes) (first : FileWrite)
    (inner : List FileWrite) (a : Append) : Prop where
  writes : a.file.writes = f.writes ++ first :: inner
  contiguous : Contiguous logline.length 0 (first :: inner)
  n_eq : a.n = total (first :: inner)
  n_le : a.n ≤ logline.length
  remain_eq : a.remain = logline.length - a.n
  content : a.file.content = f.content ++ logline.take a.n
  ended : a.ended = true → ∃ w, inner.getLast? = some w ∧ w.taken = 0

variable {k : Fwrite} {f : AppendFile} {logline : Bytes} {first : FileWrite}
  {inner : List FileWrite} {a : Append}

theorem written_first (k : Fwrite) (f : AppendFile) (logline : Bytes) :
    ∃ first, Written f logline first [] (f.appendFirst k logline) := by
  have hle := k.taken_le f.writes.length logline.length
  refine ⟨_, rfl, ⟨rfl, rfl, hle, trivial⟩, ?_, hle, sizeSub_of_le hle, ?_, nofun⟩
  · simp [appendFirst, write, total]
  · simp [appendFirst, write]

theorem Written.round (h : Written f logline first inner a) (hline : logline.length < sizeMod)
    (hended : a.ended = false) :
    ∃ w, Written f logline first (inner ++ [w]) (appendRound k logline a) ∧
      w.taken ≤ a.remain ∧
      if w.taken = 0 then (appendRound k logline a).ended = true
      else (appendRound k logline a).ended = false ∧
        (appendRound k logline a).remain = a.remain - w.taken := by
  have hle := k.taken_le a.file.writes.length a.remain
  generalize hx : k.taken a.file.writes.length a.remain = x at hle
  have hcontiguous : Contiguous logline.length 0 ((first :: inner) ++ [⟨a.n, a.remain, x⟩]) :=
    contiguous_concat h.contiguous (by simp [h.n_eq]) h.remain_eq hle
  have htotal : total ((first :: inner) ++ [⟨a.n, a.remain, x⟩]) = a.n + x := by
    rw [total_concat, h.n_eq]
  have hn := h.n_le
  have hremain := h.remain_eq
  have hadd : sizeAdd a.n x = a.n + x := sizeAdd_eq (by omega)
  have hcontent : f.content ++ logline.take a.n ++ ((logline.drop a.n).take a.remain).take x =
      f.content ++ logline.take (a.n + x) := by
    rw [List.append_assoc, List.take_take, Nat.min_eq_left hle, ← List.take_add]
  refine ⟨⟨a.n, a.remain, x⟩, ?_, hle, ?_⟩
  · simp only [appendRound, write, hx]
    split
    · next hzero =>
      subst hzero
      refine ⟨by simp [h.writes], hcontiguous, htotal.symm, hn, hremain, ?_, fun _ => ?_⟩
      · simp [h.content]
      · exact ⟨_, List.getLast?_concat, rfl⟩
    · refine ⟨by simp [h.writes], hcontiguous, ?_, ?_, ?_, ?_, by simp [hended]⟩
      · simp only [hadd, ← htotal, List.cons_append]
      · simp only [hadd]
        omega
      · simp only [hadd]
        exact sizeSub_of_le (by omega)
      · simpa only [h.content, hadd] using hcontent
  · simp only [appendRound, write, hx]
    split
    · rfl
    · refine ⟨hended, ?_⟩
      simp only [hadd]
      rw [sizeSub_of_le (by omega)]
      omega

def roundsLeft (a : Append) : Nat := if a.ended then 0 else a.remain

theorem Written.next (h : Written f logline first inner a) (hline : logline.length < sizeMod)
    (hcond : goesOn a = true) : (∃ inner, Written f logline first inner (appendRound k logline a)) ∧
      roundsLeft (appendRound k logline a) < roundsLeft a := by
  simp only [goesOn, Bool.and_eq_true, Bool.not_eq_true', decide_eq_true_eq] at hcond
  obtain ⟨hended, hpos⟩ := hcond
  obtain ⟨w, hwritten, htaken, hends⟩ := h.round (k := k) hline hended
  refine ⟨⟨_, hwritten⟩, ?_⟩
  simp only [roundsLeft, hended]
  split at hends
  · simpa [hends] using hpos
  · simp only [hends.1, hends.2]
    simp
    omega

theorem exists_append (k : Fwrite) (f : AppendFile) (hline : logline.length < sizeMod) :
    ∃ a first inner, f.append k logline (logline.length + 1) = .ok a ∧
      Written f logline first inner a ∧ goesOn a = false := by
  obtain ⟨first, hfirst⟩ := written_first k f logline
  have hround : ∀ a b, (∃ inner, Written f logline first inner a) → goesOn a = true →
      (.ok (appendRound k logline a) : Except Unit Append) = .ok b →
      (∃ inner, Written f logline first inner b) ∧ roundsLeft b < roundsLeft a := by
    rintro a b ⟨inner, ha⟩ hcond hb
    obtain rfl := Except.ok.inj hb
    exact ha.next hline hcond
  have hrounds : roundsLeft (f.appendFirst k logline) ≤ logline.length := by
    have hremain := hfirst.remain_eq
    rw [roundsLeft]
    split <;> omega
  have hne : f.append k logline (logline.length + 1) ≠ .error () :=
    whileLoop_ne_stuck (fun _ _ => by simp) hround ⟨[], hfirst⟩ (Nat.lt_succ_of_le hrounds)
  cases h : f.append k logline (logline.length + 1) with
  | error e => exact absurd h hne
  | ok a =>
    obtain ⟨⟨inner, hwritten⟩, hcond⟩ := whileLoop_invariant
      (fun a b ha hcond hb => (hround a b ha hcond hb).1) ⟨[], hfirst⟩ h
    exact ⟨a, first, inner, rfl, hwritten, hcond⟩

/-- `append` comes to its end, and its writes take the line from the front, one behind the other;
bytes are left only behind a write of the loop that took none. -/
theorem append_spec (k : Fwrite) (f : AppendFile) (hline : logline.length < sizeMod) :
    ∃ a first inner, (∀ fuel, logline.length < fuel → f.append k logline fuel = .ok a) ∧
      a.file.writes = f.writes ++ first :: inner ∧
      Contiguous logline.length 0 (first :: inner) ∧
      a.file.content = f.content ++ logline.take (total (first :: inner)) ∧
      (total (first :: inner) < logline.length →
        ∃ w, inner.getLast? = some w ∧ w.taken = 0) := by
  obtain ⟨a, first, inner, ha, hwritten, hcond⟩ := exists_append k f hline
  refine ⟨a, first, inner, fun fuel hfuel => whileLoop_of_le ha hfuel, hwritten.writes,
    hwritten.contiguous, hwritten.n_eq ▸ hwritten.content, fun hlt => ?_⟩
  simp only [goesOn, Bool.and_eq_false_iff, Bool.not_eq_false', decide_eq_false_iff_not] at hcond
  refine hwritten.ended (hcond.resolve_right fun hremain => hremain ?_)
  rw [hwritten.remain_eq, hwritten.n_eq]
  omega

def slowDisk : Fwrite where
  taken k count := if k = 3 then 0 else min 2 count
  taken_le k count := by
    split
    · exact Nat.zero_le _
    · exact Nat.min_le_right _ _
  fails k := k = 3

theorem append_spec_slowDisk : ∃ a first inner,
    AppendFile.append slowDisk ⟨[], [], false⟩ (ascii "log line\n") 10 = .ok a ∧
      a.file.writes = first :: inner ∧ total (first :: inner) = 6 ∧
      a.file.content = ascii "log li" ∧ a.stderr = ascii "AppendFile::append() failed !\n" := by
  have hline : (ascii "log line\n").length < sizeMod := by decide
  obtain ⟨a, first, inner, ha, hwrites, -, hcontent, -⟩ :=
    append_spec slowDisk ⟨[], [], false⟩ hline
  have hrun : (AppendFile.append slowDisk ⟨[], [], false⟩ (ascii "log line\n") 10).toOption.any
      (fun a => total a.file.writes = 6 ∧
        a.stderr = ascii "AppendFile::append() failed !\n") = true := by decide
  rw [ha 10 (by decide)] at hrun
  obtain ⟨htotal, hstderr⟩ := of_decide_eq_true hrun
  rw [hwrites, List.nil_append] at htotal
  exact ⟨a, first, inner, ha 10 (by decide), hwrites, htotal, by rw [hcontent, htotal]; rfl,
    hstderr⟩

end AppendFile

end WebServer.Mymuduo
