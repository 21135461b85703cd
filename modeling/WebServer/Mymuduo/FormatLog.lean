import WebServer.Mymuduo.TimePrefix

namespace WebServer.Mymuduo

open WebServer.Lib

/-- What `snprintf(buf, size, ...)` leaves in an array of `size` zeros, and what it returns: the
length of the text, or a negative number when that is no `int`. -/
def snprintf (size : Nat) (text : Bytes) : Bytes × Int :=
  (copyTo (List.replicate size 0) 0 (text.take (size - 1) ++ [0]),
    if text.length < 2 ^ 31 then text.length else -1)

theorem snprintf_of_lt {size : Nat} {text : Bytes} (h : text.length < size) :
    (snprintf size text).1.take text.length = text := by
  have hwhole : text.take (size - 1) = text := List.take_of_length_le (by omega)
  rw [snprintf, copyTo, List.take_zero, List.nil_append, hwhole, List.append_assoc,
    List.take_left' rfl]

theorem snprintf_of_eq {size : Nat} (hsize : 0 < size) {text : Bytes} (h : text.length = size) :
    (snprintf size text).1.take size = text.take (size - 1) ++ [0] := by
  have hlength : (text.take (size - 1) ++ [0]).length = size := by
    rw [List.length_append, List.length_take, List.length_singleton]
    omega
  rw [snprintf, copyTo, List.take_zero, List.nil_append, List.take_left' hlength]

namespace Logger

/-- What a macro passes to `g_output`, and whether the program is aborted then, for arguments that
format to `text`; no more than `none` if it makes no logger. -/
def logFmt (level : LogLevel) (clock : Clock) (getErrnoMsg : IntegerType.int.Value → Bytes)
    (file : SourceFile) (line : IntegerType.int.Value) (text : Bytes) :
    Option (Option (Bytes × Bool)) :=
  let buf := (snprintf 1024 text).1
  let cnt := (snprintf 1024 text).2
  if cnt ≥ 0 ∧ cnt ≤ 1024 then do
    let l ← new clock getErrnoMsg file line level none
    let s ← l.stream.append (buf.take cnt.toNat)
    let out ← { l with stream := s }.destroy
    some (some out)
  else some none

def LOG_FMT_INFO := logFmt .INFO
def LOG_FMT_ERROR := logFmt .ERROR
def LOG_FMT_FATAL := logFmt .FATAL

theorem new_short (clock : Clock) (getErrnoMsg : IntegerType.int.Value → Bytes) (file : SourceFile)
    (line : IntegerType.int.Value) (level : LogLevel) :
    ∃ s a, new clock getErrnoMsg file line level none = some ⟨s, level, line, file⟩ ∧
      s.Follows a ∧ a.data.length ≤ 41 := by
  obtain ⟨s₀, a₀, hs₀, hfollows₀, ha₀⟩ := formatTime_new clock
  have hlength₀ : a₀.data.length ≤ 24 := by
    rw [ha₀, List.length_append, List.length_take, List.length_take]
    omega
  have htid : (decimalDigits.writeInt clock.tid.toInt).length ≤ 11 := by
    refine decimalDigits.length_writeInt_le (by decide) ?_
    have hlow : -2 ^ 32 ≤ 2 * clock.tid.toInt := BitVec.le_two_mul_toInt
    have hhigh : 2 * clock.tid.toInt < 2 ^ 32 := BitVec.two_mul_toInt_lt
    omega
  have hname : level.name.length = 6 := by cases level <;> rfl
  obtain ⟨s₁, hs₁, hfollows₁⟩ := LogStream.append_follows hfollows₀
    (Nat.lt_of_le_of_lt htid (by decide))
  obtain ⟨s₂, hs₂, hfollows₂⟩ := LogStream.append_follows hfollows₁
    (Nat.lt_of_le_of_lt hname.le (by decide))
  refine ⟨s₂, _, ?_, hfollows₂, ?_⟩
  · simp only [new, impl, ne_eq, not_true, if_false, Option.bind_eq_bind, hs₀, Option.bind_some,
      hs₁, hs₂]
  · have htid_le := LogLine.length_insert_le a₀ (.string (decimalDigits.writeInt clock.tid.toInt))
    have hname_le := LogLine.length_insert_le
      (a₀.insert (.string (decimalDigits.writeInt clock.tid.toInt))) (.string level.name)
    simp only [LogInsertion.piece] at htid_le hname_le
    exact hname_le.trans (by omega)

/-- The macro does what inserting `text` into the stream of the same logger does, and all of
`text` is taken, or it makes no record. -/
def AgreesWithStream (level : LogLevel) (clock : Clock)
    (getErrnoMsg : IntegerType.int.Value → Bytes) (file : SourceFile)
    (line : IntegerType.int.Value) (text : Bytes) : Prop :=
  logFmt level clock getErrnoMsg file line text = some none ∨
    ∃ l s out, new clock getErrnoMsg file line level none = some l ∧
      l.stream.insert (.string text) = some s ∧
      s.buffer.content = l.stream.buffer.content ++ text ∧
      { l with stream := s }.destroy = some out ∧
      logFmt level clock getErrnoMsg file line text = some (some out)

section

variable {level : LogLevel} {clock : Clock} {getErrnoMsg : IntegerType.int.Value → Bytes}
  {file : Bytes} {line : IntegerType.int.Value} {text : Bytes}

theorem logFmt_of_le {file : SourceFile} (h : text.length ≤ 1024) {l : Logger}
    (hnew : new clock getErrnoMsg file line level none = some l) :
    logFmt level clock getErrnoMsg file line text =
      (l.stream.append ((snprintf 1024 text).1.take text.length)).bind fun s =>
        { l with stream := s }.destroy.bind fun out => some (some out) := by
  have hcnt : (snprintf 1024 text).2 = text.length := if_pos (by omega)
  rw [logFmt]
  simp only [hcnt, hnew, Int.toNat_natCast]
  rw [if_pos (by omega)]
  rfl

theorem logFmt_of_lt {file : SourceFile} (h : 1024 < text.length) :
    logFmt level clock getErrnoMsg file line text = some none := by
  rw [logFmt, snprintf]
  refine if_neg ?_
  split <;> omega

theorem append_short {s : LogStream} {a : LogLine} (h : s.Follows a) (ha : a.data.length ≤ 41)
    (htext : text.length ≤ 1024) :
    ∃ t, s.append text = some t ∧ (∃ b, t.Follows b) ∧
      t.buffer.content = s.buffer.content ++ text := by
  obtain ⟨t, ht, hfollows⟩ := LogStream.append_follows h (Nat.lt_of_le_of_lt htext (by decide))
  refine ⟨t, ht, ⟨_, hfollows⟩, ?_⟩
  rw [hfollows.1.content_eq, h.1.content_eq, FixedBuffer.data_append]
  have hsize : kSmallBuffer = 4000 := rfl
  rw [FixedBuffer.avail]
  omega

theorem exists_destroy (level : LogLevel) (line : IntegerType.int.Value) {s : LogStream}
    (hs : ∃ a, s.Follows a) (hfile : file.length < 2 ^ 31) :
    ∃ out, destroy ⟨s, level, line, .ofArray file⟩ = some out ∧ s.buffer.content <+: out.1 := by
  refine ⟨_, destroy_eq hs hfile, ?_⟩
  rw [LogLine.data_foldl_insert]
  exact List.prefix_append _ _

theorem content_eq_of_destroy {s t : LogStream} (hs : ∃ a, s.Follows a) (ht : ∃ a, t.Follows a)
    (hfile : file.length < 2 ^ 31)
    (hlength : s.buffer.content.length = t.buffer.content.length)
    (hsame : destroy ⟨s, level, line, .ofArray file⟩ = destroy ⟨t, level, line, .ofArray file⟩) :
    s.buffer.content = t.buffer.content := by
  obtain ⟨out, hout, hprefix⟩ := exists_destroy level line hs hfile
  obtain ⟨out', hout', hprefix'⟩ := exists_destroy level line ht hfile
  obtain rfl := Option.some.inj (hout.symm.trans (hsame.trans hout'))
  exact (List.prefix_of_prefix_length_le hprefix hprefix' hlength.le).eq_of_length hlength

theorem not_agrees_of_length (hfile : file.length < 2 ^ 31) (htext : 0 ∉ text)
    (hlength : text.length = 1024) :
    ¬AgreesWithStream level clock getErrnoMsg (.ofArray file) line text := by
  obtain ⟨s, a, hnew, hfollows, hshort⟩ := new_short clock getErrnoMsg (.ofArray file) line level
  have hprinted : (snprintf 1024 text).1.take text.length = text.take 1023 ++ [0] := by
    rw [hlength]
    exact snprintf_of_eq (by decide) hlength
  have hprinted_length : (text.take 1023 ++ [0]).length = text.length := by
    rw [List.length_append, List.length_take, List.length_singleton]
    omega
  obtain ⟨t, ht, hsound, hcontent⟩ := append_short hfollows hshort
    (hprinted_length.trans hlength).le
  obtain ⟨out, hout, -⟩ := exists_destroy level line hsound hfile
  have hmacro : logFmt level clock getErrnoMsg (.ofArray file) line text = some (some out) := by
    rw [logFmt_of_le hlength.le hnew, hprinted, ht, Option.bind_some, hout, Option.bind_some]
  rintro (hnone | ⟨l, t', out', hl, ht', hcontent', hout', hmacro'⟩)
  · cases hnone.symm.trans hmacro
  · obtain rfl := Option.some.inj (hnew.symm.trans hl)
    obtain rfl : out = out' := by
      simpa using hmacro.symm.trans hmacro'
    have hcontents : t.buffer.content = t'.buffer.content := by
      refine content_eq_of_destroy hsound
        ⟨_, (LogStream.measured_of_insert hfollows ht').2⟩ hfile ?_ (hout.trans hout'.symm)
      rw [hcontent, hcontent', List.length_append, hprinted_length, List.length_append]
    -- a text without NUL is not what is printed
    rw [hcontent, hcontent'] at hcontents
    exact htext (List.append_cancel_left hcontents ▸ by simp)

theorem agrees_of_length_ne (hfile : file.length < 2 ^ 31) (hlength : text.length ≠ 1024) :
    AgreesWithStream level clock getErrnoMsg (.ofArray file) line text := by
  obtain ⟨s, a, hnew, hfollows, hshort⟩ := new_short clock getErrnoMsg (.ofArray file) line level
  rcases Nat.lt_or_gt_of_ne hlength with hlt | hgt
  · obtain ⟨t, ht, hsound, hcontent⟩ := append_short hfollows hshort hlt.le
    obtain ⟨out, hout, -⟩ := exists_destroy level line hsound hfile
    refine .inr ⟨_, t, out, hnew, ht, hcontent, hout, ?_⟩
    rw [logFmt_of_le hlt.le hnew, snprintf_of_lt hlt, ht, Option.bind_some, hout, Option.bind_some]
  · exact .inl (logFmt_of_lt hgt)

/-- The macros agree with the stream for every text that is not as long as the array.  `__FILE__`
has fewer bytes than `N`, which is an `int`. -/
theorem agreesWithStream_iff (level : LogLevel) (clock : Clock)
    (getErrnoMsg : IntegerType.int.Value → Bytes) (file : {arr : Bytes // arr.length < 2 ^ 31 - 1})
    (line : IntegerType.int.Value) {text : Bytes} (htext : 0 ∉ text) :
    AgreesWithStream level clock getErrnoMsg (.ofArray file) line text ↔ text.length ≠ 1024 := by
  have hfile : file.val.length < 2 ^ 31 := file.property.trans (by decide)
  exact ⟨fun hagrees hlength => not_agrees_of_length hfile htext hlength hagrees,
    agrees_of_length_ne hfile⟩

end

theorem agreesWithStream_down :
    AgreesWithStream .ERROR sampleClock (fun _ => []) (.ofArray (ascii "src/a.cc")) 7
      (ascii "down") :=
  (agreesWithStream_iff .ERROR sampleClock (fun _ => []) ⟨ascii "src/a.cc", by decide⟩ 7
    (by decide)).mpr (by decide)

/-- The record of 1024 letters has 1023 of them, and a NUL. -/
theorem not_agreesWithStream_full :
    ¬AgreesWithStream .INFO sampleClock (fun _ => []) (.ofArray (ascii "src/a.cc")) 7
        (List.replicate 1024 97) ∧
      (LOG_FMT_INFO sampleClock (fun _ => []) (.ofArray (ascii "src/a.cc")) 7
        (List.replicate 1024 97)).map (fun out => out.map fun out => out.1.take 1055) =
      some (some (ascii "2023/11/14 22:13:123456 1DEBUG " ++ List.replicate 1023 97 ++ [0])) :=
  ⟨not_agrees_of_length (by decide) (fun h => absurd (List.eq_of_mem_replicate h) (by decide))
      List.length_replicate,
    by decide +kernel⟩

end Logger

end WebServer.Mymuduo
