import Mathlib.Data.List.Infix

/-! Searching a list for an element or for a pattern, and cutting it there. -/

universe u

namespace WebServer.Lib

variable {α : Type u}

/-- `pat` occurs nowhere in `s`. -/
def Free (pat s : List α) : Prop := ¬ pat <:+: s

theorem free_cut {pat x y : List α} {a : α} (hpat : pat ≠ []) (ha : a ∉ pat) :
    Free pat (x ++ a :: y) ↔ Free pat x ∧ Free pat y := by
  constructor
  · intro h
    refine ⟨fun hx => h (hx.trans (List.prefix_append x _).isInfix), fun hy => h ?_⟩
    exact hy.trans ⟨x ++ [a], [], by simp⟩
  · rintro ⟨hx, hy⟩ ⟨s, t, hst⟩
    rw [List.append_assoc, List.append_eq_append_iff] at hst
    rcases hst with ⟨u, rfl, hu⟩ | ⟨u, rfl, hu⟩
    · rw [List.append_eq_append_iff] at hu
      rcases hu with ⟨w, rfl, -⟩ | ⟨w, rfl, hw⟩
      · exact hx ⟨s, w, by simp⟩
      · cases w with
        | nil => exact hx ⟨s, [], by simp⟩
        | cons b w =>
          obtain ⟨rfl, -⟩ := List.cons.inj hw
          exact ha (by simp)
    · cases u with
      | nil =>
        cases pat with
        | nil => exact hpat rfl
        | cons b p =>
          obtain ⟨rfl, -⟩ := List.cons.inj hu
          exact ha (by simp)
      | cons b u =>
        obtain ⟨rfl, rfl⟩ := List.cons.inj hu
        exact hy ⟨u, t, by simp⟩

variable [DecidableEq α]

def search (pat : List α) : List α → Option Nat
  | [] => if pat = [] then some 0 else none
  | a :: s => if pat.isPrefixOf (a :: s) then some 0 else (search pat s).map (· + 1)

instance (pat s : List α) : Decidable (Free pat s) := inferInstanceAs (Decidable (¬ _))

theorem search_cons (pat : List α) (a : α) (s : List α) :
    search pat (a :: s) = if pat <+: a :: s then some 0 else (search pat s).map (· + 1) := by
  simp [search, List.isPrefixOf_iff_prefix]

theorem search_eq_none_iff {pat s : List α} : search pat s = none ↔ Free pat s := by
  induction s with
  | nil => simp [search, Free, List.infix_nil]
  | cons a s ih =>
    rw [search_cons, Free, List.infix_cons_iff]
    by_cases h : pat <+: a :: s
    · simp [h]
    · simp [h, ih, Free]

theorem search_spec {pat s : List α} {n : Nat} (h : search pat s = some n) :
    s = s.take n ++ pat ++ s.drop (n + pat.length) := by
  induction s generalizing n with
  | nil =>
    simp only [search] at h
    split at h <;> simp_all
  | cons a s ih =>
    rw [search_cons] at h
    split at h
    · next hp =>
      obtain rfl : 0 = n := by simpa using h
      obtain ⟨t, ht⟩ := hp
      simp [← ht]
    · cases hs : search pat s with
      | none => simp [hs] at h
      | some m =>
        obtain rfl : m + 1 = n := by simpa [hs] using h
        have := ih hs
        rw [show m + 1 + pat.length = (m + pat.length) + 1 by omega]
        simpa using this

theorem search_le {pat s : List α} {n : Nat} (h : search pat s = some n) :
    n + pat.length ≤ s.length := by
  induction s generalizing n with
  | nil =>
    simp only [search] at h
    split at h
    · next hp =>
      obtain rfl : 0 = n := by simpa using h
      simp [hp]
    · simp at h
  | cons a s ih =>
    rw [search_cons] at h
    split at h
    · next hp =>
      obtain rfl : 0 = n := by simpa using h
      simpa using hp.length_le
    · cases hs : search pat s with
      | none => simp [hs] at h
      | some m =>
        obtain rfl : m + 1 = n := by simpa [hs] using h
        have := ih hs
        simp only [List.length_cons]
        omega

theorem search_append {pat s : List α} {n : Nat} (h : search pat s = some n) (t : List α) :
    search pat (s ++ t) = some n := by
  induction s generalizing n with
  | nil =>
    simp only [search] at h
    split at h
    · next hp => cases t <;> simp_all [search]
    · simp at h
  | cons a s ih =>
    rw [search_cons] at h
    rw [List.cons_append, search_cons]
    split at h
    · next hp =>
      rw [if_pos (by simpa using hp.trans (List.prefix_append (a :: s) t))]
      exact h
    · next hp =>
      cases hs : search pat s with
      | none => simp [hs] at h
      | some m =>
        have hlen := search_le hs
        rw [if_neg, ih hs]
        · simpa [hs] using h
        · intro hpt
          have hle : pat.length ≤ (a :: s).length := by simp only [List.length_cons]; omega
          exact hp (List.prefix_of_prefix_length_le hpt (List.prefix_append (a :: s) t) hle)

/-- Nothing before the first match, not even overlapping it, matches. -/
theorem free_before_search {pat s : List α} {n : Nat} (hpat : pat ≠ [])
    (h : search pat s = some n) : Free pat (s.take n ++ pat.dropLast) := by
  have hs := search_spec h
  rw [← search_eq_none_iff]
  cases hq : search pat (s.take n ++ pat.dropLast) with
  | none => rfl
  | some m =>
    exfalso
    have hle := search_le h
    have hm := search_le hq
    have hpos : 0 < pat.length := List.length_pos_iff.mpr hpat
    simp only [List.length_append, List.length_take, List.length_dropLast] at hm
    have hlast : pat.dropLast ++ [pat.getLast hpat] = pat := List.dropLast_append_getLast hpat
    have happ := search_append hq ([pat.getLast hpat] ++ s.drop (n + pat.length))
    rw [← List.append_assoc, List.append_assoc (s.take n), hlast, ← hs, h] at happ
    have : n = m := by simpa using happ
    omega

theorem search_free_append {pat x : List α} (hpat : pat ≠ []) (h : Free pat (x ++ pat.dropLast))
    (t : List α) : search pat (x ++ pat ++ t) = some x.length := by
  induction x with
  | nil =>
    cases pat with
    | nil => exact absurd rfl hpat
    | cons a p => simp [search_cons]
  | cons a x ih =>
    have hnot : ¬ pat <+: a :: (x ++ pat ++ t) := by
      -- such a match would end before the last element of the given occurrence of `pat`
      intro hp
      have hlast : pat.dropLast ++ [pat.getLast hpat] = pat := List.dropLast_append_getLast hpat
      have hq : a :: x ++ pat.dropLast <+: a :: (x ++ pat ++ t) := by
        refine ⟨[pat.getLast hpat] ++ t, ?_⟩
        rw [← List.append_assoc, List.append_assoc (a :: x), hlast]
        rfl
      have hle : pat.length ≤ (a :: x ++ pat.dropLast).length := by simp; omega
      exact h (List.prefix_of_prefix_length_le hp hq hle).isInfix
    have hx : Free pat (x ++ pat.dropLast) := fun hi => h (List.infix_cons hi)
    rw [List.cons_append, List.cons_append, search_cons, if_neg hnot, ih hx]
    rfl

theorem search_eq_some_iff {pat s : List α} (hpat : pat ≠ []) {n : Nat} :
    search pat s = some n ↔
      ∃ x t, s = x ++ pat ++ t ∧ x.length = n ∧ Free pat (x ++ pat.dropLast) := by
  constructor
  · intro h
    have hle := search_le h
    refine ⟨s.take n, s.drop (n + pat.length), search_spec h, ?_, free_before_search hpat h⟩
    simp only [List.length_take]
    omega
  · rintro ⟨x, t, rfl, rfl, hx⟩
    exact search_free_append hpat hx t

end WebServer.Lib
