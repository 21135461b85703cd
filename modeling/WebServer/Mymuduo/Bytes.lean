import Mathlib.Data.List.Lex
import Mathlib.Data.UInt
import Mathlib.Order.Lattice

namespace WebServer.Mymuduo

abbrev Bytes := List UInt8

instance linearOrderUInt8 : LinearOrder UInt8 where
  le_refl := UInt8.le_refl
  le_trans _ _ _ := UInt8.le_trans
  le_antisymm _ _ := UInt8.le_antisymm
  le_total := UInt8.le_total
  lt_iff_le_not_ge _ _ := by simp only [UInt8.lt_iff_toNat_lt, UInt8.le_iff_toNat_le]; omega
  toDecidableLE := inferInstance

def ascii (s : String) : Bytes := s.toList.map fun c => UInt8.ofNat c.toNat

/-- `::isspace` in the C locale. -/
def isspace (c : UInt8) : Bool := c = 32 ∨ (9 ≤ c ∧ c ≤ 13)

def sizeMod : Nat := 2 ^ 64

/-- The largest number of bytes an object has, and the largest result of `::write`. -/
def ssizeMax : Nat := 2 ^ 63 - 1

def sizeSub (a b : Nat) : Nat := if b ≤ a then a - b else a + sizeMod - b

theorem sizeSub_of_le {a b : Nat} (h : b ≤ a) : sizeSub a b = a - b := if_pos h

inductive Errno where
  | EWOULDBLOCK | EPIPE | ECONNRESET | other (code : Nat)
  deriving DecidableEq

end WebServer.Mymuduo
