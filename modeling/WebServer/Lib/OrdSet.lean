import Mathlib.Data.List.TakeWhile
import Mathlib.Order.Lattice

universe u

namespace WebServer.Lib

variable {α : Type u} [LinearOrder α]

structure OrdSet (α : Type u) [LinearOrder α] where
  elems : List α
  sorted : elems.Pairwise (· < ·)

namespace OrdSet

instance : Membership α (OrdSet α) := ⟨fun s a => a ∈ s.elems⟩

instance (a : α) (s : OrdSet α) : Decidable (a ∈ s) := inferInstanceAs (Decidable (a ∈ s.elems))

instance {p : α → Prop} [DecidablePred p] (s : OrdSet α) : Decidable (∀ a ∈ s, p a) :=
  inferInstanceAs (Decidable (∀ a ∈ s.elems, p a))

instance {p : α → Prop} [DecidablePred p] (s : OrdSet α) : Decidable (∃ a ∈ s, p a) :=
  inferInstanceAs (Decidable (∃ a ∈ s.elems, p a))

instance : DecidableEq (OrdSet α) := fun s t =>
  decidable_of_iff (s.elems = t.elems) ⟨fun h => by cases s; cases t; cases h; rfl, congrArg _⟩

def empty : OrdSet α := ⟨[], .nil⟩

@[simp] theorem mem_elems {a : α} {s : OrdSet α} : a ∈ s.elems ↔ a ∈ s := Iff.rfl

@[simp] theorem notMem_empty (a : α) : a ∉ (empty : OrdSet α) := List.not_mem_nil

theorem eq_empty_iff {s : OrdSet α} : s = empty ↔ ∀ a, a ∉ s := by
  constructor
  · rintro rfl a
    exact notMem_empty a
  · intro h
    obtain ⟨elems, sorted⟩ := s
    obtain rfl : elems = [] := List.eq_nil_iff_forall_not_mem.mpr h
    rfl

def insertElem (a : α) : List α → List α
  | [] => [a]
  | b :: l => if a < b then a :: b :: l else if b < a then b :: insertElem a l else b :: l

theorem mem_insertElem {a b : α} {l : List α} : b ∈ insertElem a l ↔ b = a ∨ b ∈ l := by
  induction l with
  | nil => simp [insertElem]
  | cons c l ih =>
    simp only [insertElem]
    split_ifs with hac hca
    · simp
    · simp only [List.mem_cons, ih]
      exact or_left_comm
    · obtain rfl : a = c := le_antisymm (not_lt.mp hca) (not_lt.mp hac)
      simp

theorem perm_insertElem {a : α} {l : List α} (h : a ∉ l) : (insertElem a l).Perm (a :: l) := by
  induction l with
  | nil => exact .refl _
  | cons b l ih =>
    obtain ⟨hab, hl⟩ := not_or.mp (List.mem_cons.not.mp h)
    simp only [insertElem]
    split_ifs with hlt hgt
    · exact .refl _
    · exact ((ih hl).cons b).trans (.swap a b l)
    · exact absurd (le_antisymm (not_lt.mp hgt) (not_lt.mp hlt)) hab

theorem sorted_insertElem (a : α) {l : List α} (h : l.Pairwise (· < ·)) :
    (insertElem a l).Pairwise (· < ·) := by
  induction l with
  | nil => simp [insertElem]
  | cons b l ih =>
    obtain ⟨hb, hl⟩ := List.pairwise_cons.mp h
    simp only [insertElem]
    split_ifs with hab hba
    · refine List.pairwise_cons.mpr ⟨fun c hc => ?_, h⟩
      rcases List.mem_cons.mp hc with rfl | hc
      · exact hab
      · exact hab.trans (hb c hc)
    · refine List.pairwise_cons.mpr ⟨fun c hc => ?_, ih hl⟩
      rcases mem_insertElem.mp hc with rfl | hc
      · exact hba
      · exact hb c hc
    · exact h

def insert (s : OrdSet α) (a : α) : OrdSet α := ⟨insertElem a s.elems, sorted_insertElem a s.sorted⟩

@[simp] theorem mem_insert {a b : α} {s : OrdSet α} : b ∈ s.insert a ↔ b = a ∨ b ∈ s :=
  mem_insertElem

theorem perm_insert {a : α} {s : OrdSet α} (h : a ∉ s) : (s.insert a).elems.Perm (a :: s.elems) :=
  perm_insertElem h

def erase (s : OrdSet α) (a : α) : OrdSet α :=
  ⟨s.elems.filter (· ≠ a), s.sorted.sublist List.filter_sublist⟩

def begin (s : OrdSet α) : Option α := s.elems.head?

theorem begin_eq_some {s : OrdSet α} {a : α} :
    s.begin = some a ↔ a ∈ s ∧ ∀ b ∈ s, a ≤ b := by
  obtain ⟨elems, sorted⟩ := s
  cases elems with
  | nil => exact iff_of_false nofun fun h => absurd h.1 List.not_mem_nil
  | cons c l =>
    obtain ⟨hc, -⟩ := List.pairwise_cons.mp sorted
    constructor
    · intro h
      obtain rfl : c = a := Option.some.inj h
      refine ⟨List.mem_cons_self, fun b hb => ?_⟩
      rcases List.mem_cons.mp hb with rfl | hb
      · exact le_rfl
      · exact (hc b hb).le
    · rintro ⟨ha, hleast⟩
      rcases List.mem_cons.mp ha with rfl | ha
      · rfl
      · exact absurd (hc a ha) (not_lt.mpr (hleast c List.mem_cons_self))

theorem begin_eq_none {s : OrdSet α} : s.begin = none ↔ s = empty := by
  rw [begin, List.head?_eq_none_iff, eq_empty_iff, List.eq_nil_iff_forall_not_mem]
  rfl

def below (s : OrdSet α) (a : α) : List α := s.elems.takeWhile (· < a)

def eraseBelow (s : OrdSet α) (a : α) : OrdSet α :=
  ⟨s.elems.dropWhile (· < a), s.sorted.sublist (List.dropWhile_sublist _)⟩

theorem elems_eq_below_append (s : OrdSet α) (a : α) :
    s.elems = s.below a ++ (s.eraseBelow a).elems := (List.takeWhile_append_dropWhile ..).symm

theorem mem_of_below_or_eraseBelow {s : OrdSet α} {a b : α} :
    b ∈ s ↔ b ∈ s.below a ∨ b ∈ s.eraseBelow a := by
  rw [← mem_elems, elems_eq_below_append s a, List.mem_append, mem_elems]

theorem lt_of_mem_below {s : OrdSet α} {a b : α} (h : b ∈ s.below a) : b < a :=
  of_decide_eq_true (List.mem_takeWhile_imp (p := fun e => decide (e < a)) h)

theorem le_of_mem_eraseBelow {s : OrdSet α} {a b : α} (h : b ∈ s.eraseBelow a) : a ≤ b := by
  cases hbegin : (s.eraseBelow a).begin with
  | none => exact absurd h (begin_eq_none.mp hbegin ▸ notMem_empty b)
  | some c =>
    have hc := List.head?_dropWhile_not (fun e => decide (e < a)) s.elems
    rw [show (s.elems.dropWhile (fun e => decide (e < a))).head? = some c from hbegin] at hc
    exact (not_lt.mp (of_decide_eq_false hc)).trans ((begin_eq_some.mp hbegin).2 b h)

@[simp] theorem mem_below {s : OrdSet α} {a b : α} : b ∈ s.below a ↔ b ∈ s ∧ b < a := by
  constructor
  · intro h
    exact ⟨mem_of_below_or_eraseBelow.mpr (.inl h), lt_of_mem_below h⟩
  · rintro ⟨h, hlt⟩
    rcases mem_of_below_or_eraseBelow.mp h with h | h
    · exact h
    · exact absurd hlt (not_lt.mpr (le_of_mem_eraseBelow h))

@[simp] theorem mem_eraseBelow {s : OrdSet α} {a b : α} :
    b ∈ s.eraseBelow a ↔ b ∈ s ∧ a ≤ b := by
  constructor
  · intro h
    exact ⟨mem_of_below_or_eraseBelow.mpr (.inr h), le_of_mem_eraseBelow h⟩
  · rintro ⟨h, hle⟩
    rcases mem_of_below_or_eraseBelow.mp h with h | h
    · exact absurd (lt_of_mem_below h) (not_lt.mpr hle)
    · exact h

end OrdSet

end WebServer.Lib
