import Mathlib.Data.List.TakeWhile
import WebServer.Mymuduo.LogStream
import WebServer.Mymuduo.Timestamp

namespace WebServer.Mymuduo

open WebServer.Lib

def strrchr (c : UInt8) : Bytes → Option Nat
  | [] => none
  | b :: bs =>
    match strrchr c bs with
    | some i => some (i + 1)
    | none => if b = c then some 0 else none

/-- `data` is `[data_, data_ + size_)`. -/
structure SourceFile where
  data : Bytes
  deriving DecidableEq

def SourceFile.ofArray (arr : Bytes) : SourceFile :=
  match strrchr 47 (cStr arr) with
  | some slash => ⟨arr.drop (slash + 1)⟩
  | none => ⟨arr⟩

theorem strrchr_eq_none {c : UInt8} {bs : Bytes} (h : strrchr c bs = none) : c ∉ bs := by
  induction bs with
  | nil => exact List.not_mem_nil
  | cons b bs ih =>
    rw [strrchr] at h
    split at h
    · cases h
    · next hrest =>
      split at h
      · cases h
      · next hb => exact fun hmem => (List.mem_cons.mp hmem).elim (fun hc => hb hc.symm) (ih hrest)

theorem strrchr_eq_some {c : UInt8} {bs : Bytes} {i : Nat} (h : strrchr c bs = some i) :
    bs = bs.take i ++ c :: bs.drop (i + 1) ∧ c ∉ bs.drop (i + 1) := by
  induction bs generalizing i with
  | nil => cases h
  | cons b bs ih =>
    rw [strrchr] at h
    split at h
    · next j hrest =>
      obtain rfl := Option.some.inj h
      obtain ⟨heq, hnot⟩ := ih hrest
      exact ⟨by rw [List.take_succ_cons, List.drop_succ_cons, List.cons_append, ← heq], hnot⟩
    · next hrest =>
      split at h
      · next hb =>
        obtain rfl := Option.some.inj h
        exact ⟨by simp [hb], strrchr_eq_none hrest⟩
      · cases h

/-- The base name is what follows the last slash. -/
theorem SourceFile.ofArray_spec {arr : Bytes} (h : 0 ∉ arr) :
    ∃ dir, arr = dir ++ (ofArray arr).data ∧ 47 ∉ (ofArray arr).data ∧
      (dir = [] ∨ dir.getLast? = some 47) := by
  have hstr : cStr arr = arr := by
    rw [cStr, List.takeWhile_eq_self_iff]
    exact fun b hb => decide_eq_true fun hzero => h (hzero ▸ hb)
  rw [ofArray, hstr]
  split
  · next slash hslash =>
    obtain ⟨heq, hnot⟩ := strrchr_eq_some hslash
    exact ⟨arr.take slash ++ [47], by rw [List.append_assoc]; exact heq, hnot, .inr (by simp)⟩
  · next hnone => exact ⟨[], rfl, strrchr_eq_none hnone, .inl rfl⟩

theorem SourceFile.length_ofArray_le (arr : Bytes) : (ofArray arr).data.length ≤ arr.length := by
  rw [ofArray]
  split
  · rw [List.length_drop]
    exact Nat.sub_le _ _
  · exact Nat.le_refl _

inductive LogLevel where
  | INFO | ERROR | FATAL | DEBUG
  deriving DecidableEq

/-- `LogLevelName[level]`.  The names are not in the order of the levels. -/
def LogLevel.name : LogLevel → Bytes
  | .INFO => ascii "DEBUG "
  | .ERROR => ascii "INFO  "
  | .FATAL => ascii "WARN  "
  | .DEBUG => ascii "ERROR "

structure Tm where
  tm_year : Nat
  tm_mon : Nat
  tm_mday : Nat
  tm_hour : Nat
  tm_min : Nat
  tm_sec : Nat

structure Clock where
  now : Timestamp
  localtime : Int → Tm
  tid : IntegerType.int.Value

/-- `%4d` and, with zeros, `%02d` and `%06d`, of numbers that are not negative. -/
def padded (fill : UInt8) (width : Nat) (n : Int) : Bytes :=
  let text := decimalDigits.writeInt n
  List.replicate (width - text.length) fill ++ text

structure Logger where
  stream : LogStream
  level : LogLevel
  line : IntegerType.int.Value
  basename : SourceFile

namespace Logger

def formatTime (s : LogStream) (clock : Clock) : Option LogStream := do
  let seconds := clock.now.microSecondsSinceEpoch.tdiv 1000000
  let microseconds := castInt (clock.now.microSecondsSinceEpoch.tmod 1000000)
  let tm := clock.localtime seconds
  let t_time := padded 32 4 (tm.tm_year + 1900) ++ ascii "/" ++ padded 48 2 (tm.tm_mon + 1) ++
    ascii "/" ++ padded 48 2 tm.tm_mday ++ ascii " " ++ padded 48 2 tm.tm_hour ++ ascii ":" ++
    padded 48 2 tm.tm_min ++ ascii ":" ++ padded 48 2 tm.tm_sec
  let buf := padded 48 6 microseconds ++ ascii " "
  let s ← s.append (t_time.take 17)
  s.append (buf.take 7)

/-- `Impl::Impl`; every constructor of `Logger` passes zero for `savedErrno`. -/
def impl (clock : Clock) (getErrnoMsg : IntegerType.int.Value → Bytes) (level : LogLevel)
    (savedErrno : IntegerType.int.Value) (file : SourceFile) (line : IntegerType.int.Value) :
    Option Logger := do
  let s ← formatTime .new clock
  let s ← s.append (decimalDigits.writeInt clock.tid.toInt)
  let s ← s.append level.name
  let s ←
    if savedErrno ≠ 0 then do
      let s ← s.insert (.cString (some (getErrnoMsg savedErrno)))
      let s ← s.insert (.cString (some (ascii " (errno=")))
      let s ← s.insert (.integer .int savedErrno)
      s.insert (.cString (some (ascii ") ")))
    else some s
  some ⟨s, level, line, file⟩

/-- The constructors; `func` is the argument that only the last of them has. -/
def new (clock : Clock) (getErrnoMsg : IntegerType.int.Value → Bytes) (file : SourceFile)
    (line : IntegerType.int.Value) (level : LogLevel) (func : Option Bytes) : Option Logger := do
  let l ← impl clock getErrnoMsg level 0 file line
  match func with
  | none => some l
  | some func =>
    let s ← l.stream.insert (.cString (some func))
    let s ← s.insert (.char 32)
    some { l with stream := s }

def finish (l : Logger) : Option LogStream := do
  let s ← l.stream.insert (.cString (some (ascii " - ")))
  let s ← s.append l.basename.data
  let s ← s.insert (.char 58)
  let s ← s.insert (.integer .int l.line)
  s.insert (.char 10)

/-- What is passed to `g_output`, and whether the program is aborted then. -/
def destroy (l : Logger) : Option (Bytes × Bool) :=
  l.finish.map fun s => (s.buffer.content, l.level = .FATAL)

def trailer (basename : SourceFile) (line : IntegerType.int.Value) : List LogInsertion :=
  [.cString (some (ascii " - ")), .string basename.data, .char 58, .integer .int line, .char 10]

theorem finish_eq_run (l : Logger) :
    l.finish = run LogStream.insert l.stream (trailer l.basename l.line) := by
  simp only [finish, trailer, run, LogStream.insert, bind, Option.bind_fun_some]

def trailerText (basename : SourceFile) (line : IntegerType.int.Value) : Bytes :=
  ascii " - " ++ basename.data ++ ascii ":" ++ decimalDigits.writeInt line.toInt ++ ascii "\n"

end Logger

namespace LogLine

def Whole : Nat → List LogInsertion → Prop
  | _, [] => True
  | n, i :: is =>
    (i.piece = [] ∨ n + i.reserve ≤ kSmallBuffer ∧ n + i.piece.length < kSmallBuffer) ∧
      Whole (n + i.piece.length) is

theorem fits_iff (a : LogLine) (i : LogInsertion) :
    a.Fits i ↔ a.data.length + i.reserve ≤ kSmallBuffer ∧
      a.data.length + i.piece.length < kSmallBuffer := by
  have hle := a.length_le
  rw [Fits, FixedBuffer.avail]
  omega

theorem data_insert_eq_iff (a : LogLine) (i : LogInsertion) :
    (a.insert i).data = a.data ++ i.piece ↔
      i.piece = [] ∨ a.data.length + i.reserve ≤ kSmallBuffer ∧
        a.data.length + i.piece.length < kSmallBuffer := by
  rw [← fits_iff]
  by_cases h : a.Fits i
  · exact iff_of_true (data_insert_of_fits h) (.inr h)
  · rw [insert_of_not_fits h, List.self_eq_append_right, or_iff_left h]

theorem length_insert_le (a : LogLine) (i : LogInsertion) :
    (a.insert i).data.length ≤ a.data.length + i.piece.length := by
  by_cases h : a.Fits i
  · rw [data_insert_of_fits h, List.length_append]
  · rw [insert_of_not_fits h]
    exact Nat.le_add_right _ _

theorem length_foldl_insert_le (a : LogLine) (is : List LogInsertion) :
    (is.foldl insert a).data.length ≤
      a.data.length + (is.flatMap LogInsertion.piece).length := by
  induction is generalizing a with
  | nil => exact Nat.le_refl _
  | cons i is ih =>
    have hi := a.length_insert_le i
    have his := ih (a.insert i)
    rw [List.foldl_cons, List.flatMap_cons, List.length_append]
    omega

theorem data_foldl_eq_iff (a : LogLine) (is : List LogInsertion) :
    (is.foldl insert a).data = a.data ++ is.flatMap LogInsertion.piece ↔
      Whole a.data.length is := by
  induction is generalizing a with
  | nil => simp [Whole]
  | cons i is ih =>
    rw [List.foldl_cons, List.flatMap_cons, Whole, ← data_insert_eq_iff]
    by_cases h : (a.insert i).data = a.data ++ i.piece
    · rw [and_iff_right h, ← List.append_assoc, ← h, ih, h, List.length_append]
    · refine iff_of_false (fun hall => ?_) fun hwhole => h hwhole.1
      -- what is not taken now is missing in the end
      rw [data_insert_eq_iff, not_or, ← fits_iff] at h
      have hlen := congrArg List.length hall
      have hle := length_foldl_insert_le (a.insert i) is
      have hpos := List.length_pos_of_ne_nil h.1
      rw [insert_of_not_fits h.2] at hlen hle
      simp only [List.length_append] at hlen
      omega

theorem foldl_insert_of_not_fits {a : LogLine} {is : List LogInsertion}
    (h : ∀ i ∈ is, ¬a.Fits i) : is.foldl insert a = a := by
  induction is with
  | nil => rfl
  | cons i is ih =>
    obtain ⟨hi, his⟩ := List.forall_mem_cons.mp h
    rw [List.foldl_cons, insert_of_not_fits hi, ih his]

theorem foldl_trailer_eq_iff (a : LogLine) (basename : SourceFile)
    (line : IntegerType.int.Value) :
    ((Logger.trailer basename line).foldl insert a).data =
        a.data ++ Logger.trailerText basename line ↔
      a.data.length + basename.data.length ≤ 3948 := by
  have hsep : (LogInsertion.cString (some (ascii " - "))).piece = ascii " - " := by decide
  have hsep_length : (ascii " - ").length = 3 := rfl
  have hbase : (LogInsertion.string basename.data).piece = basename.data := rfl
  have hcolon : (LogInsertion.char 58).piece = ascii ":" := rfl
  have hcolon_length : (ascii ":").length = 1 := rfl
  have hnumber : (LogInsertion.integer .int line).piece = decimalDigits.writeInt line.toInt := rfl
  have hnewline : (LogInsertion.char 10).piece = ascii "\n" := rfl
  have hnewline_length : (ascii "\n").length = 1 := rfl
  have htext : Logger.trailerText basename line =
      (Logger.trailer basename line).flatMap LogInsertion.piece := by
    simp only [Logger.trailerText, Logger.trailer, List.flatMap_cons, List.flatMap_nil, hsep,
      hbase, hcolon, hnumber, hnewline, List.append_assoc, List.append_nil]
  have hpos := decimalDigits.length_writeInt_pos line.toInt
  have hlt := LogInsertion.length_piece_integer .int line
  rw [hnumber, kMaxNumericSize] at hlt
  rw [htext, data_foldl_eq_iff]
  simp only [Logger.trailer, Whole, LogInsertion.reserve, hsep, hbase, hcolon, hnumber, hnewline,
    ← List.length_eq_zero_iff, hsep_length, hcolon_length, hnewline_length, and_true,
    kMaxNumericSize, kSmallBuffer]
  omega

end LogLine

namespace Logger

def record (clock : Clock) (getErrnoMsg : IntegerType.int.Value → Bytes) (file : SourceFile)
    (line : IntegerType.int.Value) (level : LogLevel) (func : Option Bytes)
    (is : List LogInsertion) : Option (Bytes × Bool) := do
  let l ← new clock getErrnoMsg file line level func
  let s ← run LogStream.insert l.stream is
  { l with stream := s }.destroy

section

variable {clock : Clock} {getErrnoMsg : IntegerType.int.Value → Bytes} {file : Bytes}
  {line : IntegerType.int.Value} {level : LogLevel} {func : Option Bytes} {l : Logger}

theorem follows_append {s t : LogStream} {data : Bytes} (h : ∃ a, s.Follows a)
    (ht : s.append data = some t) : ∃ a, t.Follows a := by
  obtain ⟨a, ha⟩ := h
  exact ⟨_, (LogStream.measured_of_insert (i := .string data) ha ht).2⟩

theorem new_spec {file : SourceFile} (h : new clock getErrnoMsg file line level func = some l) :
    l.basename = file ∧ l.line = line ∧ l.level = level ∧ ∃ a, l.stream.Follows a := by
  simp only [new, impl, formatTime, ne_eq, not_true, if_false, Option.bind_eq_bind,
    Option.bind_eq_some_iff, Option.some.injEq] at h
  obtain ⟨l', ⟨s₁, ⟨s₀, h₀, h₁⟩, s₂, h₂, s₃, h₃, s₄, rfl, rfl⟩, h⟩ := h
  have hsound := follows_append (follows_append (follows_append (follows_append
    ⟨_, LogStream.follows_new⟩ h₀) h₁) h₂) h₃
  cases func with
  | none =>
    obtain rfl := Option.some.inj h
    exact ⟨rfl, rfl, rfl, hsound⟩
  | some func =>
    simp only [Option.bind_eq_some_iff, Option.some.injEq] at h
    obtain ⟨s₅, h₅, s₆, h₆, rfl⟩ := h
    exact ⟨rfl, rfl, rfl, follows_append (follows_append hsound h₅) h₆⟩

theorem measured_trailer (hfile : file.length < 2 ^ 31) {i : LogInsertion}
    (hi : i ∈ trailer (.ofArray file) line) (s : LogStream) : s.Measured i := by
  have hbase := SourceFile.length_ofArray_le file
  have hnumber := LogInsertion.length_piece_integer .int line
  rw [kMaxNumericSize] at hnumber
  refine LogStream.measured_of_length_lt ?_ s
  simp only [trailer, List.mem_cons, List.not_mem_nil, or_false] at hi
  rcases hi with rfl | rfl | rfl | rfl | rfl
  · decide
  · rw [LogInsertion.piece]
    omega
  · decide
  · omega
  · decide

theorem destroy_eq {s : LogStream} (hs : ∃ a, s.Follows a) (hfile : file.length < 2 ^ 31) :
    destroy ⟨s, level, line, .ofArray file⟩ =
      some (((trailer (.ofArray file) line).foldl LogLine.insert s.line).data,
        decide (level = .FATAL)) := by
  obtain ⟨a, ha⟩ := hs
  have hmeasured : Along LogStream.insert LogStream.Measured s (trailer (.ofArray file) line) :=
    along_of_forall (fun _ hi => measured_trailer hfile hi) s
  obtain ⟨t, ht, hfollows⟩ := exists_run_foldl LogStream.insert_follows ha hmeasured
  rw [destroy, finish_eq_run, ht, Option.map_some, ha.line_eq, hfollows.1.content_eq]

/-- A logger that can be constructed takes every insertion that does not overflow its stream, and
passes on the content and those pieces of the trailer that fit: all of them exactly when 48 bytes
are left behind the third. -/
theorem record_spec (hnew : new clock getErrnoMsg (.ofArray file) line level func = some l)
    (hfile : file.length < 256) {is : List LogInsertion}
    (his : Along LogStream.insert LogStream.Measured l.stream is) :
    ∃ s out, run LogStream.insert l.stream is = some s ∧
      record clock getErrnoMsg (.ofArray file) line level func is =
        some (out, decide (level = .FATAL)) ∧
      out = s.buffer.content ++ (LogLine.fitted s.line (trailer (.ofArray file) line)).flatten ∧
      (out = s.buffer.content ++ trailerText (.ofArray file) line ↔
        s.buffer.content.length + (SourceFile.ofArray file).data.length ≤ 3948) := by
  obtain ⟨hbasename, hline, hlevel, a, ha⟩ := new_spec hnew
  obtain ⟨s, hs, hfollows⟩ := exists_run_foldl LogStream.insert_follows ha his
  refine ⟨s, _, hs, ?_, LogLine.data_foldl_insert s.line _, LogLine.foldl_trailer_eq_iff s.line _ _⟩
  simp only [record, hnew, Option.bind_eq_bind, Option.bind_some, hs, hbasename, hline, hlevel]
  exact destroy_eq ⟨_, hfollows⟩ (by omega)

end

def sampleClock : Clock where
  now := ⟨1700000000123456⟩
  localtime _ := ⟨123, 10, 14, 22, 13, 20⟩
  tid := 1

theorem record_spec_sample :
    ∃ l s out, new sampleClock (fun _ => []) (.ofArray (ascii "src/a.cc")) 7 .ERROR none = some l ∧
      run LogStream.insert l.stream [.string (ascii "down"), .pointer 255] = some s ∧
      record sampleClock (fun _ => []) (.ofArray (ascii "src/a.cc")) 7 .ERROR none
        [.string (ascii "down"), .pointer 255] = some (out, decide (LogLevel.ERROR = .FATAL)) ∧
      out = s.buffer.content ++
        (LogLine.fitted s.line (trailer (.ofArray (ascii "src/a.cc")) 7)).flatten := by
  obtain ⟨l, hl⟩ : ∃ l, new sampleClock (fun _ => []) (.ofArray (ascii "src/a.cc")) 7 .ERROR none =
      some l := Option.isSome_iff_exists.mp (by decide +kernel)
  have hmeasured : Along LogStream.insert LogStream.Measured l.stream
      [.string (ascii "down"), .pointer 255] := by
    refine along_of_forall (fun i hi => LogStream.measured_of_length_lt ?_) _
    simp only [List.mem_cons, List.not_mem_nil, or_false] at hi
    rcases hi with rfl | rfl <;> decide
  obtain ⟨s, out, hs, hrecord, hout, -⟩ := record_spec hl (by decide) hmeasured
  exact ⟨l, s, out, hl, hs, hrecord, hout⟩

/-- A message that leaves one byte free is not followed by any of the trailer. -/
theorem record_not_terminated :
    ∃ out, record sampleClock (fun _ => []) (.ofArray (ascii "src/a.cc")) 7 .INFO none
        [.string (List.replicate 3968 120)] = some (out, false) ∧
      ¬trailerText (.ofArray (ascii "src/a.cc")) 7 <:+ out := by
  have hcontent : ((new sampleClock (fun _ => []) (.ofArray (ascii "src/a.cc")) 7 .INFO none).bind
      fun l => (run LogStream.insert l.stream [.string (List.replicate 3968 120)]).map
        fun s => s.buffer.content) =
      some (ascii "2023/11/14 22:13:123456 1DEBUG " ++ List.replicate 3968 120) := by
    decide +kernel
  obtain ⟨l, hl, hrun⟩ := Option.bind_eq_some_iff.mp hcontent
  obtain ⟨s, hs, hcontent⟩ := Option.map_eq_some_iff.mp hrun
  obtain ⟨hbasename, hline, hlevel, a, ha⟩ := new_spec hl
  obtain ⟨m, hm, hrest⟩ := run_cons.mp hs
  obtain rfl : m = s := by simpa using hrest
  have hdestroy : destroy ⟨m, .INFO, 7, .ofArray (ascii "src/a.cc")⟩ =
      some (((trailer (.ofArray (ascii "src/a.cc")) 7).foldl LogLine.insert m.line).data,
        decide (LogLevel.INFO = .FATAL)) :=
    destroy_eq ⟨_, (LogStream.measured_of_insert ha hm).2⟩ (by decide)
  have hlength : m.line.data.length = 3999 := by
    have hdata : m.line.data = m.buffer.content := rfl
    rw [hdata, hcontent]
    decide +kernel
  have hsome : ∀ i ∈ trailer (.ofArray (ascii "src/a.cc")) 7, 0 < i.piece.length := by
    decide +kernel
  have hfull : ∀ i ∈ trailer (.ofArray (ascii "src/a.cc")) 7, ¬m.line.Fits i := by
    intro i hi hfits
    have hsize := ((LogLine.fits_iff _ _).mp hfits).2
    have hpos := hsome i hi
    rw [hlength, kSmallBuffer] at hsize
    omega
  rw [LogLine.foldl_insert_of_not_fits hfull] at hdestroy
  refine ⟨m.buffer.content, ?_, ?_⟩
  · simp only [record, hl, Option.bind_eq_bind, Option.bind_some, hs, hbasename, hline, hlevel]
    exact hdestroy
  · rw [hcontent]
    decide +kernel

end Logger

end WebServer.Mymuduo
