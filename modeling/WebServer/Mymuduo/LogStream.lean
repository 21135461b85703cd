import WebServer.Lib.Run
import WebServer.Mymuduo.FixedBuffer

namespace WebServer.Mymuduo

open WebServer.Lib

structure LogStream where
  buffer : RawFixedBuffer kSmallBuffer

/-- One `operator<<`.  A C string is the memory that the pointer leads to, up to the end of its
object; `floating` has the text of `"%.12g"` or `"%.12Lg"`, which is at most twenty bytes. -/
inductive LogInsertion where
  | short (v : BitVec 16)
  | unsignedShort (v : BitVec 16)
  | integer (t : IntegerType) (v : t.Value)
  | pointer (p : IntegerType.unsignedLong.Value)
  | floating (text : {text : Bytes // text.length ≤ 20})
  | char (v : UInt8)
  | cString (str : Option Bytes)
  | string (v : Bytes)

/-- The bytes of a C string, as many as `strlen` counts. -/
def cStr (str : Bytes) : Bytes := str.takeWhile (· ≠ 0)

namespace LogStream

def new : LogStream := ⟨.new⟩

def append (s : LogStream) (data : Bytes) : Option LogStream := (s.buffer.append data).map mk

/-- What writes in place: `written` is what it stores, `len` what it adds. -/
def format (s : LogStream) (written : Bytes) (len : Nat) : Option LogStream :=
  if kMaxNumericSize ≤ s.buffer.avail then (s.buffer.store written).map fun b => ⟨b.add len⟩
  else some s

def formatInteger (s : LogStream) (t : IntegerType) (v : t.Value) : Option LogStream :=
  s.format (convert t v).1 (convert t v).2

/-- `none` when a write leaves `data_`. -/
def insert (s : LogStream) : LogInsertion → Option LogStream
  | .short v => s.formatInteger .int (v.signExtend _)
  | .unsignedShort v => s.formatInteger .unsignedInt (v.setWidth _)
  | .integer t v => s.formatInteger t v
  | .pointer p => s.format (ascii "0x" ++ (convertHex p).1) ((convertHex p).2 + 2)
  | .floating text => s.format (text.val ++ [0]) text.val.length
  | .char v => s.append [v]
  | .cString none => s.append (ascii "(null)")
  | .cString (some str) => s.append (cStr str)
  | .string v => s.append v

end LogStream

namespace LogInsertion

def piece : LogInsertion → Bytes
  | .short v => decimalDigits.writeInt v.toInt
  | .unsignedShort v => decimalDigits.writeInt v.toNat
  | .integer t v => decimalDigits.writeInt (t.toInt v)
  | .pointer p => ascii "0x" ++ hexDigits.write p.toNat
  | .floating text => text
  | .char v => [v]
  | .cString none => ascii "(null)"
  | .cString (some str) => cStr str
  | .string v => v

theorem piece_short (v : BitVec 16) :
    (short v).piece = (integer .int (v.signExtend _)).piece :=
  congrArg decimalDigits.writeInt (BitVec.toInt_signExtend_of_le (by decide)).symm

theorem piece_unsignedShort (v : BitVec 16) :
    (unsignedShort v).piece = (integer .unsignedInt (v.setWidth _)).piece :=
  congrArg (fun n : Nat => decimalDigits.writeInt n) (BitVec.toNat_setWidth_of_le (by decide)).symm

theorem piece_pointer (p : IntegerType.unsignedLong.Value) :
    (pointer p).piece ++ [0] = ascii "0x" ++ (convertHex p).1 ∧
      (pointer p).piece.length = (convertHex p).2 + 2 := by
  rw [convertHex_eq, piece, List.append_assoc, List.length_append, Nat.add_comm]
  exact ⟨rfl, rfl⟩

/-- The free space that is asked for whatever the piece is. -/
def reserve : LogInsertion → Nat
  | .short _ | .unsignedShort _ | .integer _ _ | .pointer _ | .floating _ => kMaxNumericSize
  | .char _ | .cString _ | .string _ => 0

theorem length_piece_integer (t : IntegerType) (v : t.Value) :
    (integer t v).piece.length + 1 < kMaxNumericSize := by
  have hlen := length_convert_lt t v
  rwa [convert_eq, List.length_append] at hlen

theorem length_piece_lt {i : LogInsertion} (h : i.reserve ≠ 0) :
    i.piece.length < kMaxNumericSize := by
  cases i with
  | short v =>
    rw [piece_short]
    exact Nat.lt_of_succ_lt (length_piece_integer _ _)
  | unsignedShort v =>
    rw [piece_unsignedShort]
    exact Nat.lt_of_succ_lt (length_piece_integer _ _)
  | integer t v => exact Nat.lt_of_succ_lt (length_piece_integer t v)
  | pointer p =>
    have hlen : (ascii "0x" ++ (convertHex p).1).length < kMaxNumericSize := by
      rw [List.length_append]
      exact length_convertHex_lt p
    rw [← (piece_pointer p).1, List.length_append] at hlen
    exact Nat.lt_of_add_right_lt hlen
  | floating text => exact Nat.lt_of_le_of_lt text.property (by decide)
  | char v => exact absurd rfl h
  | cString str => exact absurd rfl h
  | string v => exact absurd rfl h

end LogInsertion

/-- What a stream is for: pieces are added whole, or left out when they do not fit. -/
abbrev LogLine := FixedBuffer kSmallBuffer

namespace LogLine

def Fits (a : LogLine) (i : LogInsertion) : Prop :=
  i.reserve ≤ a.avail ∧ i.piece.length < a.avail

instance (a : LogLine) (i : LogInsertion) : Decidable (a.Fits i) :=
  inferInstanceAs (Decidable (_ ∧ _))

def insert (a : LogLine) (i : LogInsertion) : LogLine :=
  if i.reserve ≤ a.avail then a.append i.piece else a

def fitted : LogLine → List LogInsertion → List Bytes
  | _, [] => []
  | a, i :: is => if a.Fits i then i.piece :: fitted (a.insert i) is else fitted (a.insert i) is

theorem data_insert_of_fits {a : LogLine} {i : LogInsertion} (h : a.Fits i) :
    (a.insert i).data = a.data ++ i.piece := by
  rw [insert, if_pos h.1, FixedBuffer.data_append h.2]

theorem insert_of_not_fits {a : LogLine} {i : LogInsertion} (h : ¬a.Fits i) : a.insert i = a := by
  rw [insert]
  split
  · next hreserve =>
    exact FixedBuffer.data_append_of_le (Nat.not_lt.mp fun hpiece => h ⟨hreserve, hpiece⟩)
  · rfl

theorem length_insert_lt {a : LogLine} (h : a.data.length < kSmallBuffer) (i : LogInsertion) :
    (a.insert i).data.length < kSmallBuffer := by
  rw [insert]
  split
  · exact FixedBuffer.length_append_lt h i.piece
  · exact h

theorem data_foldl_insert (a : LogLine) (is : List LogInsertion) :
    (is.foldl insert a).data = a.data ++ (fitted a is).flatten := by
  induction is generalizing a with
  | nil => simp [fitted]
  | cons i is ih =>
    rw [List.foldl_cons, ih, fitted]
    split
    · next h => rw [data_insert_of_fits h, List.flatten_cons, List.append_assoc]
    · next h => rw [insert_of_not_fits h]

end LogLine

namespace LogStream

/-- The narrowing in `append` does not make a piece look smaller than the space left. -/
def Measured (s : LogStream) (i : LogInsertion) : Prop :=
  2 ^ 31 ≤ i.piece.length → s.buffer.avail ≤ castInt i.piece.length

instance (s : LogStream) (i : LogInsertion) : Decidable (s.Measured i) :=
  inferInstanceAs (Decidable (_ → _))

theorem measured_of_length_lt {i : LogInsertion} (h : i.piece.length < 2 ^ 31) (s : LogStream) :
    s.Measured i :=
  fun hlarge => absurd h (Nat.not_lt.mpr hlarge)

section

variable {s : LogStream} {a : LogLine}

theorem append_holds (h : s.buffer.Holds a) {data : Bytes}
    (hcast : 2 ^ 31 ≤ data.length → s.buffer.avail ≤ castInt data.length) :
    ∃ t, s.append data = some t ∧ t.buffer.Holds (a.append data) := by
  obtain ⟨b, hb, hholds⟩ := h.append (by decide) hcast
  exact ⟨⟨b⟩, by rw [append, hb, Option.map_some], hholds⟩

theorem format_holds (h : s.buffer.Holds a) {written : Bytes} (piece : Bytes)
    (hwritten : written = piece ++ [0]) (hlen : written.length < kMaxNumericSize) :
    ∃ t, s.format written piece.length = some t ∧
      t.buffer.Holds (if kMaxNumericSize ≤ a.avail then a.append piece else a) := by
  have havail := h.avail_eq (by decide)
  rw [format]
  by_cases hroom : kMaxNumericSize ≤ a.avail
  · subst hwritten
    rw [List.length_append, List.length_singleton] at hlen
    obtain ⟨b, hb, hholds⟩ := h.store piece [0] (by omega) (by simp; omega)
    exact ⟨_, by rw [if_pos (by omega), hb, Option.map_some], by rwa [if_pos hroom]⟩
  · exact ⟨s, by rw [if_neg (by omega)], by rwa [if_neg hroom]⟩

theorem formatInteger_holds (h : s.buffer.Holds a) (t : IntegerType) (v : t.Value) :
    ∃ u, s.formatInteger t v = some u ∧
      u.buffer.Holds (a.insert (.integer t v)) := by
  have hformat := format_holds h (decimalDigits.writeInt (t.toInt v))
    (congrArg Prod.fst (convert_eq t v)) (length_convert_lt t v)
  rw [formatInteger, congrArg Prod.snd (convert_eq t v)]
  exact hformat

/-- An insertion does what it is meant to do, unless it takes a length for smaller than it is. -/
theorem insert_holds (h : s.buffer.Holds a) (i : LogInsertion) (hi : s.Measured i) :
    ∃ t, s.insert i = some t ∧ t.buffer.Holds (a.insert i) := by
  cases i with
  | short v =>
    have hholds := formatInteger_holds h .int (v.signExtend _)
    rwa [LogLine.insert, ← LogInsertion.piece_short] at hholds
  | unsignedShort v =>
    have hholds := formatInteger_holds h .unsignedInt (v.setWidth _)
    rwa [LogLine.insert, ← LogInsertion.piece_unsignedShort] at hholds
  | integer t v => exact formatInteger_holds h t v
  | pointer p =>
    obtain ⟨hpiece, hlen⟩ := LogInsertion.piece_pointer p
    rw [insert, ← hpiece, ← hlen]
    refine format_holds h _ rfl ?_
    rw [hpiece, List.length_append]
    exact length_convertHex_lt p
  | floating text =>
    have hlen := text.property
    exact format_holds h _ rfl (by rw [List.length_append, kMaxNumericSize]; simp; omega)
  | char v => exact append_holds h hi
  | cString str => cases str <;> exact append_holds h hi
  | string v => exact append_holds h hi

theorem insert_eq_append {i : LogInsertion} (h : i.reserve = 0) (s : LogStream) :
    s.insert i = s.append i.piece := by
  cases i with
  | char v => rfl
  | cString str => cases str <;> rfl
  | string v => rfl
  | short v => cases h
  | unsignedShort v => cases h
  | integer t v => cases h
  | pointer p => cases h
  | floating text => cases h

theorem insert_eq_none (h : s.buffer.Holds a) {i : LogInsertion} (hi : ¬s.Measured i) :
    s.insert i = none := by
  obtain ⟨hlarge, hcast⟩ := Classical.not_imp.mp hi
  have hreserve : i.reserve = 0 := by
    by_contra hne
    have hlt := LogInsertion.length_piece_lt hne
    rw [kMaxNumericSize] at hlt
    omega
  rw [insert_eq_append hreserve, append, h.append_eq_none (by decide) hlarge (not_le.mp hcast),
    Option.map_none]

end

/-- After these insertions the stream is within its buffer, and has the pieces that fit. -/
def Within (is : List LogInsertion) : Prop :=
  ∃ t, run insert new is = some t ∧ 0 ≤ t.buffer.length ∧ t.buffer.length < kSmallBuffer ∧
    t.buffer.content = (LogLine.fitted .new is).flatten

def Follows (s : LogStream) (a : LogLine) : Prop :=
  s.buffer.Holds a ∧ a.data.length < kSmallBuffer

def line (s : LogStream) : LogLine :=
  ⟨s.buffer.content, by
    rw [RawFixedBuffer.content]
    exact (List.length_take_le' _ _).trans s.buffer.length_data.le⟩

theorem Follows.line_eq {s : LogStream} {a : LogLine} (h : s.Follows a) : s.line = a := by
  cases a with
  | mk data hdata =>
    have hcontent : s.buffer.content = data := h.1.content_eq
    simp only [line, hcontent]

theorem follows_new : new.Follows .new := ⟨RawFixedBuffer.holds_new, by decide⟩

theorem insert_follows {s : LogStream} {a : LogLine} (h : s.Follows a) (i : LogInsertion)
    (hi : s.Measured i) : ∃ t, s.insert i = some t ∧ t.Follows (a.insert i) := by
  obtain ⟨t, ht, hholds⟩ := insert_holds h.1 i hi
  exact ⟨t, ht, hholds, LogLine.length_insert_lt h.2 i⟩

theorem measured_of_insert {s t : LogStream} {a : LogLine} {i : LogInsertion} (h : s.Follows a)
    (ht : s.insert i = some t) : s.Measured i ∧ t.Follows (a.insert i) := by
  have hi : s.Measured i := by
    by_contra hi
    cases (insert_eq_none h.1 hi).symm.trans ht
  obtain ⟨t', ht', h'⟩ := insert_follows h i hi
  obtain rfl : t = t' := Option.some.inj (ht.symm.trans ht')
  exact ⟨hi, h'⟩

theorem within_of_along {is : List LogInsertion} (h : Along insert Measured new is) :
    Within is := by
  obtain ⟨t, ht, hholds, hlt⟩ := exists_run_foldl insert_follows follows_new h
  have hlength := hholds.length_eq (by decide)
  refine ⟨t, ht, by omega, by omega, ?_⟩
  rw [hholds.content_eq, LogLine.data_foldl_insert]
  rfl

/-- All insertions stay within the buffer exactly when no length is taken for a smaller one. -/
theorem within_iff_along (is : List LogInsertion) :
    (∀ js, js <+: is → Within js) ↔ Along insert Measured new is := by
  constructor
  · intro h
    obtain ⟨t, ht, -⟩ := h is (List.prefix_refl is)
    refine along_of_run (I := fun s => ∃ a, Follows s a) ?_ ⟨_, follows_new⟩ ht
    rintro s i t ⟨a, ha⟩ ht
    obtain ⟨hi, ht'⟩ := measured_of_insert ha ht
    exact ⟨hi, _, ht'⟩
  · intro h js hjs
    exact within_of_along (h.initial hjs)

/-- A string of 4 GiB has the length zero as `int`. -/
theorem not_within_replicate : ¬Within [.string (List.replicate (2 ^ 32) 97)] := by
  rintro ⟨t, ht, -⟩
  have hnone : new.insert (.string (List.replicate (2 ^ 32) 97)) = none := by
    refine insert_eq_none RawFixedBuffer.holds_new ?_
    simp only [Measured, LogInsertion.piece, List.length_replicate]
    decide
  rw [run, hnone] at ht
  cases ht

end LogStream

end WebServer.Mymuduo
