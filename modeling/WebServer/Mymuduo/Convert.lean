import WebServer.Lib.Numeral
import WebServer.Mymuduo.Bytes

namespace WebServer.Mymuduo

open WebServer.Lib

def castInt (n : Int) : Int := n.bmod (2 ^ 32)

theorem castInt_eq {n : Int} (hlow : -2 ^ 31 ≤ n) (hhigh : n < 2 ^ 31) : castInt n = n :=
  Int.bmod_eq_of_le (by simpa using hlow) (by simpa using hhigh)

inductive IntegerType where
  | int | unsignedInt | long | unsignedLong | longLong | unsignedLongLong
  deriving DecidableEq

namespace IntegerType

def width : IntegerType → Nat
  | .int | .unsignedInt => 32
  | .long | .unsignedLong | .longLong | .unsignedLongLong => 64

def signed : IntegerType → Bool
  | .int | .long | .longLong => true
  | .unsignedInt | .unsignedLong | .unsignedLongLong => false

abbrev Value (t : IntegerType) := BitVec t.width

variable (t : IntegerType)

def toInt (v : t.Value) : Int := if t.signed then v.toInt else v.toNat

def div (x y : t.Value) : t.Value := if t.signed then x.sdiv y else x / y

def rem (x y : t.Value) : t.Value := if t.signed then x.srem y else x % y

variable {t}

theorem toInt_ofNat {base : Nat} (h : base < 2 ^ 31) :
    t.toInt (BitVec.ofNat t.width base) = base := by
  have hmod : base % 2 ^ t.width = base :=
    Nat.mod_eq_of_lt (by cases t <;> simp only [width] <;> omega)
  have hbmod : (base : Int).bmod (2 ^ t.width) = base :=
    Int.bmod_eq_of_le_mul_two (by omega) (by cases t <;> simp only [width] <;> omega)
  rw [toInt, BitVec.toInt_ofNat', BitVec.toNat_ofNat, hmod, hbmod, ite_self]

theorem signed_or_nonneg (v : t.Value) : t.signed ∨ 0 ≤ t.toInt v := by
  rw [toInt]
  split
  · next h => exact .inl h
  · exact .inr (Int.natCast_nonneg _)

theorem toInt_rem (x y : t.Value) : t.toInt (t.rem x y) = (t.toInt x).tmod (t.toInt y) := by
  simp only [toInt, rem]
  split
  · exact BitVec.toInt_srem x y
  · rw [BitVec.toNat_umod, Int.ofNat_tmod]

theorem toInt_div {x y : t.Value} (hy : 0 ≤ t.toInt y) :
    t.toInt (t.div x y) = (t.toInt x).tdiv (t.toInt y) := by
  simp only [toInt, div] at hy ⊢
  split
  · next hsigned =>
    rw [if_pos hsigned] at hy
    refine BitVec.toInt_sdiv_of_ne_or_ne x y (.inr ?_)
    rintro rfl
    revert hy
    cases t <;> decide
  · rw [BitVec.toNat_udiv, Int.ofNat_tdiv]

theorem natAbs_toInt_lt (v : t.Value) : (t.toInt v).natAbs < 10 ^ 20 := by
  have hlt : 2 ^ t.width ≤ 2 ^ 64 := Nat.pow_le_pow_right (by decide) (by cases t <;> decide)
  have hnat := v.isLt
  have hlow := BitVec.le_two_mul_toInt (x := v)
  have hhigh := BitVec.two_mul_toInt_lt (x := v)
  have hcast : ((2 ^ t.width : Nat) : Int) = 2 ^ t.width := Nat.cast_pow 2 t.width
  rw [toInt]
  split <;> omega

end IntegerType

/-- `digits[9 + lsd]`, which is `zero[lsd]`. -/
def zero (lsd : Int) : UInt8 := (ascii "9876543210123456789").getD (9 + lsd).toNat 0

def digitsHex (lsd : Int) : UInt8 := (ascii "0123456789ABCDEF").getD lsd.toNat 0

/-- What the loop `do { *p++ = digitAt[i % base]; i /= base; } while (i != 0);` stores. -/
def digitLoop (t : IntegerType) (base : {n : Nat // 1 < n ∧ n < 2 ^ 31}) (digitAt : Int → UInt8)
    (i : t.Value) : Bytes :=
  let lsd := castInt (t.toInt (t.rem i (BitVec.ofNat _ base)))
  let next := t.div i (BitVec.ofNat _ base)
  digitAt lsd :: if t.toInt next = 0 then [] else digitLoop t base digitAt next
termination_by (t.toInt i).natAbs
decreasing_by
  rename_i hne
  have hbase := IntegerType.toInt_ofNat (t := t) base.2.2
  rw [IntegerType.toInt_div (by omega), hbase] at hne ⊢
  rw [Int.natAbs_tdiv, Int.natAbs_natCast]
  refine Nat.div_lt_self (Int.natAbs_pos.mpr ?_) base.2.1
  rintro h
  exact hne (by rw [h, Int.zero_tdiv])

/-- The text up to the terminating NUL, and the length returned. -/
def convert (t : IntegerType) (value : t.Value) : Bytes × Nat :=
  let p := digitLoop t ⟨10, by decide⟩ zero value
  let p := if t.toInt value < 0 then p ++ ascii "-" else p
  (p.reverse ++ [0], p.length)

/-- `uintptr_t` is `unsigned long`. -/
def convertHex (value : IntegerType.unsignedLong.Value) : Bytes × Nat :=
  let p := digitLoop .unsignedLong ⟨16, by decide⟩ digitsHex value
  (p.reverse ++ [0], p.length)

section

variable {t : IntegerType} {base : {n : Nat // 1 < n ∧ n < 2 ^ 31}} {digitAt : Int → UInt8}

theorem toInt_rem_base (i : t.Value) :
    castInt (t.toInt (t.rem i (BitVec.ofNat _ base))) = (t.toInt i).tmod base := by
  rw [IntegerType.toInt_rem, IntegerType.toInt_ofNat base.2.2]
  have habs : ((t.toInt i).tmod base).natAbs < base := by
    rw [Int.natAbs_tmod, Int.natAbs_natCast]
    exact Nat.mod_lt _ (by have := base.2.1; omega)
  have hbase := base.2.2
  exact castInt_eq (by omega) (by omega)

theorem toInt_div_base (i : t.Value) :
    t.toInt (t.div i (BitVec.ofNat _ base)) = (t.toInt i).tdiv base := by
  have hbase := IntegerType.toInt_ofNat (t := t) base.2.2
  rw [IntegerType.toInt_div (by omega), hbase]

/-- The loop stores the digits from the lowest, for a table that has those of the negative
remainders too where the type has them. -/
theorem digitLoop_eq {A : Alphabet UInt8 base}
    (hdigit : ∀ lsd : Int, lsd.natAbs < base → t.signed ∨ 0 ≤ lsd →
      digitAt lsd = A.digit lsd.natAbs)
    (i : t.Value) :
    digitLoop t base digitAt i = (lowDigits base (t.toInt i).natAbs).map A.digit := by
  induction i using digitLoop.induct t base with
  | case1 i next ih =>
    have habs : ((t.toInt i).tmod base).natAbs = (t.toInt i).natAbs % base := by
      rw [Int.natAbs_tmod, Int.natAbs_natCast]
    have hquot : (t.toInt next).natAbs = (t.toInt i).natAbs / base := by
      rw [toInt_div_base, Int.natAbs_tdiv, Int.natAbs_natCast]
      rfl
    have hlsd : digitAt ((t.toInt i).tmod base) = A.digit ((t.toInt i).natAbs % base) := by
      rw [← habs]
      refine hdigit _ (by rw [habs]; exact Nat.mod_lt _ (by have := base.2.1; omega)) ?_
      exact (IntegerType.signed_or_nonneg i).imp_right (Int.tmod_nonneg _)
    rw [digitLoop, toInt_rem_base, hlsd, lowDigits_eq_cons base.2.1, ← hquot, List.map_cons]
    congr 1
    by_cases h : t.toInt next = 0
    · rw [if_pos h, if_pos (Int.natAbs_eq_zero.mpr h), List.map_nil]
    · rw [if_neg h, if_neg (mt Int.natAbs_eq_zero.mp h), ih h]

end

def decimalDigits : Alphabet UInt8 10 where
  digit d := 48 + UInt8.ofNat d
  value c := if 48 ≤ c ∧ c ≤ 57 then some (c.toNat - 48) else none
  minus := 45
  one_lt := by decide
  value_digit := by decide
  value_minus := by decide

def hexDigits : Alphabet UInt8 16 where
  digit d := if d < 10 then 48 + UInt8.ofNat d else 55 + UInt8.ofNat d
  value c :=
    if 48 ≤ c ∧ c ≤ 57 then some (c.toNat - 48)
    else if 65 ≤ c ∧ c ≤ 70 then some (c.toNat - 55) else none
  minus := 45
  one_lt := by decide
  value_digit := by decide
  value_minus := by decide

theorem zero_eq {lsd : Int} (h : lsd.natAbs < 10) : zero lsd = decimalDigits.digit lsd.natAbs := by
  have hall : ∀ d : Nat, d < 10 →
      zero d = decimalDigits.digit d ∧ zero (-d) = decimalDigits.digit d := by
    decide
  obtain ⟨hpos, hneg⟩ := hall lsd.natAbs h
  rcases Int.natAbs_eq lsd with heq | heq
  · rwa [← heq] at hpos
  · rwa [← heq] at hneg

theorem digitsHex_eq {lsd : Int} (h : lsd.natAbs < 16) (hpos : 0 ≤ lsd) :
    digitsHex lsd = hexDigits.digit lsd.natAbs := by
  have hall : ∀ d : Nat, d < 16 → digitsHex d = hexDigits.digit d := by decide
  have hd := hall lsd.natAbs h
  rwa [Int.natAbs_of_nonneg hpos] at hd

theorem convert_eq (t : IntegerType) (v : t.Value) :
    convert t v =
      (decimalDigits.writeInt (t.toInt v) ++ [0], (decimalDigits.writeInt (t.toInt v)).length) := by
  have hloop : digitLoop t ⟨10, by decide⟩ zero v =
      (lowDigits 10 (t.toInt v).natAbs).map decimalDigits.digit :=
    digitLoop_eq (fun _ h _ => zero_eq h) v
  have hminus : ascii "-" = [decimalDigits.minus] := rfl
  rw [convert, hloop, hminus, Alphabet.writeInt, Alphabet.write, numeral]
  split <;> simp

theorem convertHex_eq (v : IntegerType.unsignedLong.Value) :
    convertHex v = (hexDigits.write v.toNat ++ [0], (hexDigits.write v.toNat).length) := by
  have hloop : digitLoop .unsignedLong ⟨16, by decide⟩ digitsHex v =
      (lowDigits 16 (IntegerType.unsignedLong.toInt v).natAbs).map hexDigits.digit :=
    digitLoop_eq (t := .unsignedLong)
      (fun _ h hpos => digitsHex_eq h (hpos.resolve_left Bool.false_ne_true)) v
  have hnat : (IntegerType.unsignedLong.toInt v).natAbs = v.toNat := rfl
  rw [convertHex, hloop, hnat, Alphabet.write, numeral]
  simp

def kMaxNumericSize : Nat := 48

theorem length_convert_lt (t : IntegerType) (v : t.Value) :
    (convert t v).1.length < kMaxNumericSize := by
  have hlen := decimalDigits.length_writeInt_le (k := 20) (by decide)
    (IntegerType.natAbs_toInt_lt v)
  rw [convert_eq, List.length_append, List.length_singleton, kMaxNumericSize]
  omega

theorem length_convertHex_lt (v : IntegerType.unsignedLong.Value) :
    2 + (convertHex v).1.length < kMaxNumericSize := by
  have hlen := hexDigits.length_write_le (k := 16) (by decide) v.isLt
  rw [convertHex_eq, List.length_append, List.length_singleton, kMaxNumericSize]
  omega

/-- `convert` and `convertHex` write the canonical numeral of the value and a NUL, return the
length of the numeral, and stay below the reserve. -/
theorem convert_canonical :
    (∀ (t : IntegerType) (v : t.Value), ∃ ds, Canonical 10 ds ∧
      let text := (if t.toInt v < 0 then ascii "-" else []) ++ ds.map decimalDigits.digit
      convert t v = (text ++ [0], text.length) ∧ decimalDigits.readInt text = some (t.toInt v) ∧
        (convert t v).1.length < kMaxNumericSize) ∧
    ∀ v : IntegerType.unsignedLong.Value, ∃ ds, Canonical 16 ds ∧
      let text := ds.map hexDigits.digit
      convertHex v = (text ++ [0], text.length) ∧ hexDigits.read text = some v.toNat ∧
        2 + (convertHex v).1.length < kMaxNumericSize := by
  constructor
  · intro t v
    refine ⟨numeral 10 (t.toInt v).natAbs, canonical_numeral (by decide) _, ?_⟩
    have htext : (if t.toInt v < 0 then ascii "-" else []) ++
        (numeral 10 (t.toInt v).natAbs).map decimalDigits.digit =
        decimalDigits.writeInt (t.toInt v) := by
      rw [Alphabet.writeInt]
      split <;> rfl
    rw [htext]
    exact ⟨convert_eq t v, decimalDigits.readInt_writeInt _, length_convert_lt t v⟩
  · intro v
    exact ⟨numeral 16 v.toNat, canonical_numeral (by decide) _, convertHex_eq v,
      hexDigits.read_write _, length_convertHex_lt v⟩

example : convert .int (BitVec.intMin _) = (ascii "-2147483648\x00", 11) := by
  rw [convert_eq]
  decide

end WebServer.Mymuduo
