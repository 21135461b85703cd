import Mathlib.Order.Monotone.Basic

namespace WebServer.Lib

/-- `year` counts from 1900, `month` from zero and `day` from one. -/
structure Date where
  year : Nat
  month : Nat
  day : Nat
  deriving DecidableEq

namespace Date

def isLeap (year : Nat) : Bool :=
  4 ∣ 1900 + year ∧ (¬100 ∣ 1900 + year ∨ 400 ∣ 1900 + year)

def daysInMonth (year month : Nat) : Nat :=
  if month = 1 then if isLeap year then 29 else 28
  else if month = 3 ∨ month = 5 ∨ month = 8 ∨ month = 10 then 30
  else 31

theorem daysInMonth_le (year month : Nat) : daysInMonth year month ≤ 31 := by
  rw [daysInMonth]
  split
  · split <;> decide
  · split <;> decide

structure Valid (d : Date) : Prop where
  month_lt : d.month < 12
  day_pos : 1 ≤ d.day
  day_le : d.day ≤ 31

def next (d : Date) : Date :=
  if d.day < daysInMonth d.year d.month then { d with day := d.day + 1 }
  else if d.month < 11 then ⟨d.year, d.month + 1, 1⟩
  else ⟨d.year + 1, 0, 1⟩

def epoch : Date := ⟨70, 0, 1⟩

def ofDay : Nat → Date
  | 0 => epoch
  | n + 1 => (ofDay n).next

theorem Valid.next {d : Date} (h : d.Valid) : d.next.Valid := by
  have hle := daysInMonth_le d.year d.month
  obtain ⟨hmonth, hpos, -⟩ := h
  rw [Date.next]
  split
  · next hday => exact ⟨hmonth, Nat.le_add_left _ _, hday.trans_le hle⟩
  · split
    · next hlast => exact ⟨Nat.succ_lt_succ hlast, by simp, by simp⟩
    · exact ⟨by simp, by simp, by simp⟩

theorem valid_ofDay (n : Nat) : (ofDay n).Valid := by
  induction n with
  | zero => exact ⟨by decide, by decide, by decide⟩
  | succ n ih => exact ih.next

def rank (d : Date) : Nat := (d.year * 12 + d.month) * 31 + d.day

theorem Valid.rank_lt_next {d : Date} (h : d.Valid) : d.rank < d.next.rank := by
  obtain ⟨hmonth, hpos, hle⟩ := h
  rw [Date.next]
  split
  · simp only [rank]
    omega
  · split
    · simp only [rank]
      omega
    · simp only [rank]
      omega

theorem ofDay_injective : Function.Injective ofDay := by
  have hmono : StrictMono fun n => (ofDay n).rank :=
    strictMono_nat_of_lt_succ fun n => (valid_ofDay n).rank_lt_next
  exact fun m n h => hmono.injective (congrArg rank h)

end Date

end WebServer.Lib
