import WebServer.Lib.Search

/-! Texts as sequences of lines, each ended by the terminator `pat`, and a rest without one. -/

universe u

namespace WebServer.Lib

variable {α : Type u} {pat : List α}

/-- The first occurrence of `pat` in `x ++ pat` is the one behind `x`. -/
def IsLine (pat x : List α) : Prop := Free pat (x ++ pat.dropLast)

def joinLines (pat : List α) (ls : List (List α)) : List α := (ls.map (· ++ pat)).flatten

@[simp] theorem joinLines_nil : joinLines pat [] = [] := rfl

@[simp] theorem joinLines_cons (l : List α) (ls : List (List α)) :
    joinLines pat (l :: ls) = l ++ pat ++ joinLines pat ls := rfl

@[simp] theorem joinLines_append (ls ms : List (List α)) :
    joinLines pat (ls ++ ms) = joinLines pat ls ++ joinLines pat ms := by
  simp [joinLines]

theorem length_le_joinLines (hpat : pat ≠ []) (ls : List (List α)) :
    ls.length ≤ (joinLines pat ls).length := by
  induction ls with
  | nil => exact Nat.le_refl 0
  | cons l ls ih =>
    have hpos := List.length_pos_iff.mpr hpat
    simp only [joinLines_cons, List.length_append, List.length_cons]
    omega

theorem isLine_pair {a b : α} (hab : a ≠ b) {x : List α} : IsLine [a, b] x ↔ Free [a, b] x := by
  constructor
  · intro h hx
    exact h (hx.trans (List.infix_append' [] x [a]))
  · intro h hx
    -- an occurrence that is not in `x` would end with `a`
    obtain ⟨s, t, hst⟩ := hx
    rcases List.eq_nil_or_concat t with rfl | ⟨t, c, rfl⟩
    · have hlast := congrArg List.getLast? hst
      simp at hlast
      exact hab hlast.symm
    · apply h
      refine ⟨s, t, ?_⟩
      have hcut : (s ++ [a, b] ++ t) ++ [c] = x ++ [a] := by simpa using hst
      exact (List.append_inj' hcut rfl).1

variable [DecidableEq α]

instance (pat x : List α) : Decidable (IsLine pat x) := inferInstanceAs (Decidable (Free _ _))

theorem search_line (hpat : pat ≠ []) {l : List α} (hl : IsLine pat l) (t : List α) :
    search pat (l ++ pat ++ t) = some l.length := search_free_append hpat hl t

/-- Every text has a unique decomposition into lines; this is its existence. -/
theorem exists_lines (hpat : pat ≠ []) (s : List α) :
    ∃ ls t, (∀ l ∈ ls, IsLine pat l) ∧ Free pat t ∧ s = joinLines pat ls ++ t := by
  induction h : s.length using Nat.strong_induction_on generalizing s with
  | _ n ih =>
    cases hs : search pat s with
    | none => exact ⟨[], s, by simp, search_eq_none_iff.mp hs, rfl⟩
    | some m =>
      obtain ⟨x, r, rfl, -, hx⟩ := (search_eq_some_iff hpat).mp hs
      have hpos : 0 < pat.length := List.length_pos_iff.mpr hpat
      obtain ⟨ls, t, hls, ht, rfl⟩ := ih r.length (by simp at h; omega) r rfl
      refine ⟨x :: ls, t, ?_, ht, by simp⟩
      intro l hl
      rcases List.mem_cons.mp hl with rfl | hl
      · exact hx
      · exact hls l hl

theorem lines_prefix (hpat : pat ≠ []) {ls ms : List (List α)} {t q r : List α}
    (hls : ∀ l ∈ ls, IsLine pat l) (hms : ∀ l ∈ ms, IsLine pat l) (hr : Free pat r)
    (h : joinLines pat ls ++ t ++ q = joinLines pat ms ++ r) : ls <+: ms := by
  induction ls generalizing ms with
  | nil => exact List.nil_prefix
  | cons l ls ih =>
    have hl := hls l (by simp)
    have hsearch := search_line hpat hl (joinLines pat ls ++ t ++ q)
    rw [show l ++ pat ++ (joinLines pat ls ++ t ++ q) = joinLines pat (l :: ls) ++ t ++ q by simp,
      h] at hsearch
    cases ms with
    | nil =>
    rw [joinLines_nil, List.nil_append, search_eq_none_iff.mpr hr] at hsearch
    cases hsearch
    | cons m ms =>
      have hm := search_line hpat (hms m (by simp)) (joinLines pat ms ++ r)
      rw [joinLines_cons, List.append_assoc, hm] at hsearch
      have hlen : m.length = l.length := Option.some.inj hsearch
      simp only [joinLines_cons, List.append_assoc] at h
      obtain ⟨rfl, hrest⟩ := List.append_inj h hlen.symm
      have hrest := List.append_cancel_left hrest
      refine (List.prefix_cons_inj l).mpr (ih (fun x hx => hls x (by simp [hx]))
        (fun x hx => hms x (by simp [hx])) ?_)
      simpa using hrest

theorem lines_unique (hpat : pat ≠ []) {ls ms : List (List α)} {t r : List α}
    (hls : ∀ l ∈ ls, IsLine pat l) (hms : ∀ l ∈ ms, IsLine pat l) (ht : Free pat t)
    (hr : Free pat r) (h : joinLines pat ls ++ t = joinLines pat ms ++ r) : ls = ms ∧ t = r := by
  have h₁ := lines_prefix (q := []) hpat hls hms hr (by simpa using h)
  have h₂ := lines_prefix (q := []) hpat hms hls ht (by simpa using h.symm)
  obtain rfl := h₁.eq_of_length_le h₂.length_le
  exact ⟨rfl, List.append_cancel_left h⟩

def takeLine (pat s : List α) : Option (List α × List α) :=
  (search pat s).map fun n => (s.take n, s.drop (n + pat.length))

def takeHead (pat : List α) : Nat → List α → Option (List (List α) × List α)
  | 0, _ => none
  | fuel + 1, s =>
    (takeLine pat s).bind fun (l, t) =>
      if l = [] then some ([], t)
      else (takeHead pat fuel t).map fun (ls, t) => (l :: ls, t)

theorem takeLine_line (hpat : pat ≠ []) {l : List α} (hl : IsLine pat l) (t : List α) :
    takeLine pat (l ++ pat ++ t) = some (l, t) := by
  rw [takeLine, search_line hpat hl, Option.map_some, ← List.length_append, List.drop_left,
    List.append_assoc, List.take_left]

theorem takeHead_lines (hpat : pat ≠ []) {ls : List (List α)} {fuel : Nat}
    (hfuel : ls.length < fuel) (hls : ∀ l ∈ ls, IsLine pat l) (hne : ∀ l ∈ ls, l ≠ [])
    (hempty : IsLine pat []) (t : List α) :
    takeHead pat fuel (joinLines pat (ls ++ [[]]) ++ t) = some (ls, t) := by
  induction ls generalizing fuel with
  | nil =>
    cases fuel with
    | zero => simp at hfuel
    | succ fuel =>
      have hline := takeLine_line hpat hempty t
      simp only [List.nil_append] at hline
      simp [takeHead, hline]
  | cons l ls ih =>
    cases fuel with
    | zero => simp at hfuel
    | succ fuel =>
      have hline := takeLine_line hpat (hls l (by simp)) (joinLines pat (ls ++ [[]]) ++ t)
      have hlen : ls.length < fuel := by simpa using hfuel
      have hrest := ih hlen (fun x hx => hls x (by simp [hx]))
        (fun x hx => hne x (by simp [hx]))
      rw [takeHead, List.cons_append, joinLines_cons, List.append_assoc, hline, Option.bind_some]
      simp only [hne l (by simp), if_false, hrest, Option.map_some]

theorem takeLine_append {s l t : List α} (h : takeLine pat s = some (l, t)) (w : List α) :
    takeLine pat (s ++ w) = some (l, t ++ w) := by
  cases hn : search pat s with
  | none => simp [takeLine, hn] at h
  | some n =>
    have hle := search_le hn
    simp only [takeLine, hn, Option.map_some, Option.some.injEq, Prod.mk.injEq] at h
    rw [takeLine, search_append hn w, Option.map_some, List.take_append_of_le_length (by omega),
      List.drop_append_of_le_length hle, h.1, h.2]

theorem takeHead_append {s t : List α} {ls : List (List α)} {m n : Nat} (hmn : m ≤ n)
    (h : takeHead pat m s = some (ls, t)) (w : List α) :
    takeHead pat n (s ++ w) = some (ls, t ++ w) := by
  induction m generalizing n s ls with
  | zero => cases h
  | succ m ih =>
    obtain ⟨n, rfl⟩ : ∃ k, n = k + 1 := ⟨n - 1, by omega⟩
    simp only [takeHead, Option.bind_eq_some_iff] at h
    obtain ⟨⟨l, u⟩, hline, hrest⟩ := h
    simp only [takeHead, takeLine_append hline w, Option.bind_some]
    by_cases hl : l = []
    · simp only [hl, if_true, Option.some.injEq, Prod.mk.injEq] at hrest ⊢
      exact ⟨hrest.1, by rw [hrest.2]⟩
    · simp only [hl, if_false, Option.map_eq_some_iff, Prod.mk.injEq] at hrest ⊢
      obtain ⟨⟨ms, v⟩, hmore, rfl, rfl⟩ := hrest
      exact ⟨(ms, v ++ w), ih (by omega) hmore, rfl, rfl⟩

end WebServer.Lib
