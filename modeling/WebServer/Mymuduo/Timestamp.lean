import Mathlib.Order.Basic
import WebServer.Mymuduo.Bytes

namespace WebServer.Mymuduo

structure Timestamp where
  microSecondsSinceEpoch : Int
  deriving DecidableEq

namespace Timestamp

/-- `Timestamp::invalid()`, the value of a default-constructed time stamp. -/
def invalid : Timestamp := ⟨0⟩

instance : LE Timestamp := ⟨fun a b => a.microSecondsSinceEpoch ≤ b.microSecondsSinceEpoch⟩

instance : LT Timestamp := ⟨fun a b => a.microSecondsSinceEpoch < b.microSecondsSinceEpoch⟩

instance : LinearOrder Timestamp where
  le_refl a := Int.le_refl a.microSecondsSinceEpoch
  le_trans _ _ _ := Int.le_trans
  le_antisymm a b hab hba := by
    cases a
    cases b
    exact congrArg mk (Int.le_antisymm hab hba)
  le_total a b := Int.le_total a.microSecondsSinceEpoch b.microSecondsSinceEpoch
  lt_iff_le_not_ge a b := Int.lt_iff_le_and_not_ge
  toDecidableLE a b := Int.decLe a.microSecondsSinceEpoch b.microSecondsSinceEpoch
  toDecidableLT a b := Int.decLt a.microSecondsSinceEpoch b.microSecondsSinceEpoch

theorem le_iff {a b : Timestamp} : a ≤ b ↔ a.microSecondsSinceEpoch ≤ b.microSecondsSinceEpoch :=
  Iff.rfl

def kMicroSecondsPerSecond : Int := 1000 * 1000

def valid (t : Timestamp) : Bool := 0 < t.microSecondsSinceEpoch

/-- The wall clock is in microseconds; `time(NULL)` has its whole seconds. -/
def now (wallClock : Int) : Timestamp := ⟨wallClock / 1000000⟩

end Timestamp

/-- A number of seconds, as the code reads it: what `addTime` adds, and whether it is positive. -/
structure Interval where
  delta : Int
  positive : Bool

namespace Interval

def zero : Interval := ⟨0, false⟩

def microseconds (n : Nat) : Interval := ⟨n, true⟩

def seconds (n : Int) : Interval := ⟨n * Timestamp.kMicroSecondsPerSecond, 0 < n⟩

end Interval

def addTime (timestamp : Timestamp) (seconds : Interval) : Timestamp :=
  ⟨timestamp.microSecondsSinceEpoch + seconds.delta⟩

theorem valid_of_le {t u : Timestamp} (h : t ≤ u) (ht : t.valid = true) : u.valid = true := by
  simp only [Timestamp.valid, decide_eq_true_eq] at *
  exact lt_of_lt_of_le ht h

theorem valid_addTime {t : Timestamp} {seconds : Interval} (ht : t.valid = true)
    (hs : 0 ≤ seconds.delta) : (addTime t seconds).valid = true := by
  refine valid_of_le (Timestamp.le_iff.mpr ?_) ht
  exact Int.le_add_of_nonneg_right hs

end WebServer.Mymuduo
