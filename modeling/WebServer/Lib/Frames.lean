import Mathlib.Logic.Basic

/-! A stream of frames, each of which can be read from the front of what is left. -/

universe u v w

namespace WebServer.Lib

variable {α : Type u} {β : Type v} {γ : Type w}

/-- Frames are read until nothing is left; `none` when that fails. -/
def readAll (read : List α → Option (γ × List α)) : Nat → List α → Option (List γ)
  | _, [] => some []
  | 0, _ :: _ => none
  | fuel + 1, a :: s =>
    (read (a :: s)).bind fun (c, t) => (readAll read fuel t).map (c :: ·)

theorem readAll_flatten {read : List α → Option (γ × List α)} {write : β → List α} {f : β → γ}
    {bs : List β} {fuel : Nat} (hfuel : bs.length ≤ fuel)
    (hread : ∀ b ∈ bs, ∀ t, read (write b ++ t) = some (f b, t)) (hne : ∀ b ∈ bs, write b ≠ []) :
    readAll read fuel (bs.map write).flatten = some (bs.map f) := by
  induction bs generalizing fuel with
  | nil => cases fuel <;> rfl
  | cons b bs ih =>
    cases fuel with
    | zero => simp at hfuel
    | succ fuel =>
      have hlen : bs.length ≤ fuel := by simpa using hfuel
      have hrest := ih hlen (fun x hx => hread x (by simp [hx]))
        (fun x hx => hne x (by simp [hx]))
      have hhead := hread b (by simp) (bs.map write).flatten
      rw [List.map_cons, List.flatten_cons, List.map_cons]
      cases hw : write b with
      | nil => exact absurd hw (hne b (by simp))
      | cons a s =>
        rw [hw] at hhead
        rw [List.cons_append] at hhead ⊢
        simp only [readAll, hhead, Option.bind_some, hrest, Option.map_some]

theorem length_le_flatten {ls : List (List α)} (hne : ∀ l ∈ ls, l ≠ []) :
    ls.length ≤ ls.flatten.length := by
  induction ls with
  | nil => exact Nat.le_refl 0
  | cons l ls ih =>
    have hpos := List.length_pos_iff.mpr (hne l (by simp))
    have hrest := ih fun x hx => hne x (by simp [hx])
    simp only [List.flatten_cons, List.length_append, List.length_cons]
    omega

theorem prefix_append_cases {p a b : List α} (h : p <+: a ++ b) :
    (p <+: a ∧ p ≠ a) ∨ ∃ u, u <+: b ∧ p = a ++ u := by
  by_cases hlen : p.length < a.length
  · have hp := List.prefix_of_prefix_length_le h (List.prefix_append a b) (Nat.le_of_lt hlen)
    exact .inl ⟨hp, fun heq => Nat.lt_irrefl _ (heq ▸ hlen)⟩
  · obtain ⟨u, rfl⟩ := List.prefix_of_prefix_length_le (List.prefix_append a b) h
      (Nat.le_of_not_lt hlen)
    exact .inr ⟨u, (List.prefix_append_right_inj a).mp h, rfl⟩

/-- Frames are read as long as that is possible; the second part is what is left then. -/
def readAvailable (read : List α → Option (γ × List α)) : Nat → List α → List γ × List α
  | 0, s => ([], s)
  | fuel + 1, s =>
    match read s with
    | none => ([], s)
    | some (c, t) => (c :: (readAvailable read fuel t).1, (readAvailable read fuel t).2)

theorem readAvailable_none {read : List α → Option (γ × List α)} {s : List α} (fuel : Nat)
    (h : read s = none) : readAvailable read fuel s = ([], s) := by
  cases fuel with
  | zero => rfl
  | succ fuel => simp only [readAvailable, h]

/-- What was read stays so when more comes behind it. -/
def Stable (read : List α → Option (γ × List α)) : Prop :=
  ∀ s c t, read s = some (c, t) → ∀ w, read (s ++ w) = some (c, t ++ w)

theorem Stable.eq_none_of_prefix {read : List α → Option (γ × List α)} (h : Stable read)
    {p s : List α} (hp : p <+: s) (hs : read s = none) : read p = none := by
  obtain ⟨w, rfl⟩ := hp
  cases hread : read p with
  | none => rfl
  | some r =>
    rw [h p r.1 r.2 hread w] at hs
    cases hs

theorem Stable.eq_none_of_part {read : List α → Option (γ × List α)} (h : Stable read)
    {p s : List α} {c : γ} (hp : p <+: s) (hne : p ≠ s) (hs : read s = some (c, [])) :
    read p = none := by
  obtain ⟨w, rfl⟩ := hp
  cases hread : read p with
  | none => rfl
  | some r =>
    rw [h p r.1 r.2 hread w] at hs
    simp only [Option.some.injEq, Prod.mk.injEq, List.append_eq_nil_iff] at hs
    exact absurd (by rw [hs.2.2, List.append_nil]) hne

/-- Of a beginning of written frames and a last text that is no frame, the complete frames are
read, and what is left is the beginning of what would come next. -/
theorem readAvailable_prefix {read : List α → Option (γ × List α)} {write : β → List α}
    {f : β → γ} {bs : List β} {last p : List α} {fuel : Nat} (hfuel : p.length ≤ fuel)
    (hstable : Stable read) (hread : ∀ b ∈ bs, read (write b) = some (f b, []))
    (hne : ∀ b ∈ bs, write b ≠ []) (hlast : read last = none)
    (h : p <+: (bs.map write).flatten ++ last) :
    ∃ cs ds u, bs = cs ++ ds ∧ readAvailable read fuel p = (cs.map f, u) ∧
      p = (cs.map write).flatten ++ u ∧
      (ds = [] ∧ u <+: last ∨ ∃ d ds', ds = d :: ds' ∧ u <+: write d ∧ u ≠ write d) := by
  induction bs generalizing p fuel with
  | nil =>
    exact ⟨[], [], p, rfl, readAvailable_none fuel (hstable.eq_none_of_prefix h hlast), rfl,
      .inl ⟨rfl, h⟩⟩
  | cons b bs ih =>
    have hfirst := hread b (by simp)
    rw [List.map_cons, List.flatten_cons, List.append_assoc] at h
    rcases prefix_append_cases h with ⟨hp, hpne⟩ | ⟨t, ht, rfl⟩
    · exact ⟨[], b :: bs, p, rfl,
        readAvailable_none fuel (hstable.eq_none_of_part hp hpne hfirst), rfl,
        .inr ⟨b, bs, rfl, hp, hpne⟩⟩
    · have hpos := List.length_pos_iff.mpr (hne b (by simp))
      rw [List.length_append] at hfuel
      obtain ⟨fuel, rfl⟩ : ∃ n, fuel = n + 1 := ⟨fuel - 1, by omega⟩
      have hlen : t.length ≤ fuel := by omega
      obtain ⟨cs, ds, u, rfl, hrest, rfl, hleft⟩ := ih hlen
        (fun x hx => hread x (by simp [hx])) (fun x hx => hne x (by simp [hx])) ht
      have hmore := hstable _ _ _ hfirst ((cs.map write).flatten ++ u)
      rw [List.nil_append] at hmore
      refine ⟨b :: cs, ds, u, rfl, ?_, by simp, hleft⟩
      simp only [readAvailable, hmore, hrest, List.map_cons]

end WebServer.Lib
