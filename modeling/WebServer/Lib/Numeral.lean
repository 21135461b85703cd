import Mathlib.Data.Nat.Digits.Lemmas

/-! Numerals: the digits of a number from the highest to the lowest, over any alphabet. -/

universe u

namespace WebServer.Lib

/-- The digits of `n` in base `b` from the lowest, with one digit for zero. -/
def lowDigits (b n : Nat) : List Nat := n % b :: Nat.digits b (n / b)

def numeral (b n : Nat) : List Nat := (lowDigits b n).reverse

variable {b n : Nat}

theorem lowDigits_zero (b : Nat) : lowDigits b 0 = [0] := by
  simp [lowDigits]

theorem lowDigits_of_pos (hb : 1 < b) (hn : 0 < n) : lowDigits b n = Nat.digits b n :=
  (Nat.digits_def' hb hn).symm

theorem lowDigits_eq_cons (hb : 1 < b) (n : Nat) :
    lowDigits b n = n % b :: if n / b = 0 then [] else lowDigits b (n / b) := by
  split
  · next h => simp [lowDigits, h]
  · next h => rw [lowDigits_of_pos hb (Nat.pos_of_ne_zero h), lowDigits]

theorem ofDigits_lowDigits (b n : Nat) : Nat.ofDigits b (lowDigits b n) = n := by
  rw [lowDigits, Nat.ofDigits_cons, Nat.ofDigits_digits]
  exact Nat.mod_add_div n b

theorem lt_of_mem_lowDigits (hb : 1 < b) {d : Nat} (h : d ∈ lowDigits b n) : d < b := by
  rcases List.mem_cons.mp h with rfl | h
  · exact Nat.mod_lt n (Nat.zero_lt_of_lt hb)
  · exact Nat.digits_lt_base hb h

theorem length_numeral_le (hb : 1 < b) {k : Nat} (hk : 0 < k) (hn : n < b ^ k) :
    (numeral b n).length ≤ k := by
  rw [numeral, List.length_reverse]
  rcases Nat.eq_zero_or_pos n with rfl | hpos
  · rw [lowDigits_zero]
    exact hk
  · rw [lowDigits_of_pos hb hpos]
    exact (Nat.digits_length_le_iff hb n).mpr hn

theorem numeral_ne_nil (b n : Nat) : numeral b n ≠ [] := by
  simp [numeral, lowDigits]

theorem lt_of_mem_numeral (hb : 1 < b) {d : Nat} (h : d ∈ numeral b n) : d < b :=
  lt_of_mem_lowDigits hb (List.mem_reverse.mp h)

theorem ofDigits_numeral (b n : Nat) : Nat.ofDigits b (numeral b n).reverse = n := by
  rw [numeral, List.reverse_reverse, ofDigits_lowDigits]

structure Canonical (b : Nat) (ds : List Nat) : Prop where
  ne_nil : ds ≠ []
  lt_base : ∀ d ∈ ds, d < b
  eq_zero : ds.head? = some 0 → ds = [0]

theorem canonical_numeral (hb : 1 < b) (n : Nat) : Canonical b (numeral b n) where
  ne_nil := numeral_ne_nil b n
  lt_base := fun _ => lt_of_mem_numeral hb
  eq_zero := by
    intro h
    rcases Nat.eq_zero_or_pos n with rfl | hpos
    · rw [numeral, lowDigits_zero, List.reverse_singleton]
    · have hlast := Nat.getLast_digit_ne_zero b hpos.ne'
      rw [numeral, lowDigits_of_pos hb hpos, List.head?_reverse,
        List.getLast?_eq_some_getLast (Nat.digits_ne_nil_iff_ne_zero.mpr hpos.ne')] at h
      exact absurd (Option.some.inj h) hlast

structure Alphabet (α : Type u) (b : Nat) where
  digit : Nat → α
  value : α → Option Nat
  minus : α
  one_lt : 1 < b
  value_digit : ∀ d, d < b → value (digit d) = some d
  value_minus : value minus = none

namespace Alphabet

variable {α : Type u} (A : Alphabet α b)

def write (n : Nat) : List α := (numeral b n).map A.digit

def read : List α → Option Nat
  | [] => none
  | cs => (cs.mapM A.value).map fun ds => Nat.ofDigits b ds.reverse

def writeInt (z : Int) : List α :=
  if z < 0 then A.minus :: A.write z.natAbs else A.write z.natAbs

def readInt [DecidableEq α] : List α → Option Int
  | [] => none
  | c :: cs =>
    if c = A.minus then (A.read cs).map fun m : Nat => -(m : Int)
    else (A.read (c :: cs)).map fun m : Nat => (m : Int)

theorem mapM_value {ds : List Nat} (h : ∀ d ∈ ds, d < b) :
    (ds.map A.digit).mapM A.value = some ds := by
  induction ds with
  | nil => rfl
  | cons d ds ih =>
    obtain ⟨hd, hds⟩ := List.forall_mem_cons.mp h
    simp [A.value_digit d hd, ih hds]

theorem write_ne_nil (n : Nat) : A.write n ≠ [] := by
  simp [write, numeral_ne_nil]

theorem read_write (n : Nat) : A.read (A.write n) = some n := by
  cases h : A.write n with
  | nil => exact absurd h (A.write_ne_nil n)
  | cons c cs =>
    rw [read, ← h, write, A.mapM_value fun d => lt_of_mem_numeral A.one_lt, Option.map_some,
      ofDigits_numeral]
    simp

theorem minus_notMem_write (n : Nat) : A.minus ∉ A.write n := by
  intro h
  obtain ⟨d, hd, hminus⟩ := List.mem_map.mp h
  have hvalue := A.value_digit d (lt_of_mem_numeral A.one_lt hd)
  rw [hminus, A.value_minus] at hvalue
  cases hvalue

theorem readInt_write [DecidableEq α] (n : Nat) : A.readInt (A.write n) = some (n : Int) := by
  cases h : A.write n with
  | nil => exact absurd h (A.write_ne_nil n)
  | cons c cs =>
    have hc : c ≠ A.minus := fun hc => A.minus_notMem_write n (by simp [h, hc])
    rw [readInt, if_neg hc, ← h, read_write, Option.map_some]

theorem readInt_writeInt [DecidableEq α] (z : Int) : A.readInt (A.writeInt z) = some z := by
  rw [writeInt]
  split
  · next h =>
    rw [readInt, if_pos rfl, read_write, Option.map_some]
    congr 1
    omega
  · next h =>
    rw [readInt_write]
    congr 1
    omega

theorem writeInt_injective : Function.Injective A.writeInt := by
  classical
  intro y z h
  exact Option.some.inj ((A.readInt_writeInt y).symm.trans (h ▸ A.readInt_writeInt z))

theorem length_writeInt_pos (z : Int) : 0 < (A.writeInt z).length := by
  have hpos := List.length_pos_iff.mpr (A.write_ne_nil z.natAbs)
  rw [writeInt]
  split
  · exact Nat.succ_pos _
  · exact hpos

theorem length_write_le {k : Nat} (hk : 0 < k) (hn : n < b ^ k) : (A.write n).length ≤ k := by
  rw [write, List.length_map]
  exact length_numeral_le A.one_lt hk hn

theorem length_writeInt_le {k : Nat} (hk : 0 < k) {z : Int} (hz : z.natAbs < b ^ k) :
    (A.writeInt z).length ≤ k + 1 := by
  have hlen := A.length_write_le hk hz
  rw [writeInt]
  split
  · simpa using hlen
  · omega

def fill (c : α) (w n : Nat) : List α := List.replicate (w - (A.write n).length) c ++ A.write n

theorem length_fill (c : α) {w : Nat} (hw : 0 < w) (hn : n < b ^ w) :
    (A.fill c w n).length = w := by
  have hle := A.length_write_le hw hn
  rw [fill, List.length_append, List.length_replicate]
  omega

theorem filterMap_value_write (n : Nat) : (A.write n).filterMap A.value = numeral b n := by
  have hsome : ∀ d ∈ numeral b n, A.value (A.digit d) = some d :=
    fun d hd => A.value_digit d (lt_of_mem_numeral A.one_lt hd)
  rw [write, List.filterMap_map]
  exact (List.filterMap_congr hsome).trans List.filterMap_some

theorem ofDigits_fill {c : α} (hc : A.value c = none ∨ A.value c = some 0) (w n : Nat) :
    Nat.ofDigits b ((A.fill c w n).filterMap A.value).reverse = n := by
  rw [fill, List.filterMap_append, filterMap_value_write, List.reverse_append]
  rcases hc with hc | hc
  · rw [List.filterMap_replicate_of_none hc, List.reverse_nil, List.append_nil, ofDigits_numeral]
  · rw [List.filterMap_replicate_of_some hc, List.reverse_replicate,
      Nat.ofDigits_append_replicate_zero, ofDigits_numeral]

theorem fill_injective {c : α} (hc : A.value c = none ∨ A.value c = some 0) (w : Nat) :
    Function.Injective (A.fill c w) := by
  intro m n h
  rw [← A.ofDigits_fill hc w m, h, A.ofDigits_fill hc]

end Alphabet

end WebServer.Lib
