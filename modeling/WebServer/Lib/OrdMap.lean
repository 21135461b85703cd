import Mathlib.Order.Lattice

/-! Finite maps as key-sorted association lists.  Sortedness is a field, so two
maps with the same lookups are equal and iteration goes in key order. -/

universe u v

namespace WebServer.Lib

variable {κ : Type u} {β : Type v} [LinearOrder κ]

structure OrdMap (κ : Type u) (β : Type v) [LinearOrder κ] where
  entries : List (κ × β)
  sorted : entries.Pairwise (fun a b => a.1 < b.1)

namespace OrdMap

instance [DecidableEq β] : DecidableEq (OrdMap κ β) := fun m n =>
  decidable_of_iff (m.entries = n.entries) ⟨fun h => by cases m; cases n; cases h; rfl, congrArg _⟩

def empty : OrdMap κ β := ⟨[], .nil⟩

def findEntry (k : κ) : List (κ × β) → Option β
  | [] => none
  | (k', v) :: m => if k = k' then some v else findEntry k m

def find (m : OrdMap κ β) (k : κ) : Option β := findEntry k m.entries

def insertEntry (k : κ) (v : β) : List (κ × β) → List (κ × β)
  | [] => [(k, v)]
  | (k', v') :: m =>
    if k < k' then (k, v) :: (k', v') :: m
    else if k = k' then (k, v) :: m
    else (k', v') :: insertEntry k v m

theorem mem_insertEntry {k : κ} {v : β} {e : κ × β} {m : List (κ × β)}
    (h : e ∈ insertEntry k v m) : e = (k, v) ∨ e ∈ m := by
  induction m with
  | nil => simpa [insertEntry] using h
  | cons e' m ih =>
    obtain ⟨k', v'⟩ := e'
    simp only [insertEntry] at h
    split_ifs at h <;> grind

theorem insertEntry_sorted (k : κ) (v : β) {m : List (κ × β)}
    (h : m.Pairwise (fun a b => a.1 < b.1)) :
    (insertEntry k v m).Pairwise (fun a b => a.1 < b.1) := by
  induction m with
  | nil => simp [insertEntry]
  | cons e' m ih =>
    obtain ⟨k', v'⟩ := e'
    obtain ⟨hhead, htail⟩ := List.pairwise_cons.mp h
    simp only [insertEntry]
    split_ifs with hlt heq
    · refine List.pairwise_cons.mpr ⟨fun e he => ?_, h⟩
      rcases List.mem_cons.mp he with rfl | he
      · exact hlt
      · exact hlt.trans (hhead e he)
    · subst heq
      exact List.pairwise_cons.mpr ⟨hhead, htail⟩
    · refine List.pairwise_cons.mpr ⟨fun e he => ?_, ih htail⟩
      rcases mem_insertEntry he with rfl | he
      · exact lt_of_le_of_ne (not_lt.mp hlt) (Ne.symm heq)
      · exact hhead e he

def insert (m : OrdMap κ β) (k : κ) (v : β) : OrdMap κ β :=
  ⟨insertEntry k v m.entries, insertEntry_sorted k v m.sorted⟩

@[simp] theorem find_empty (k : κ) : (empty : OrdMap κ β).find k = none := rfl

theorem findEntry_insertEntry (k j : κ) (v : β) (m : List (κ × β)) :
    findEntry j (insertEntry k v m) = if j = k then some v else findEntry j m := by
  induction m with
  | nil => rfl
  | cons e' m ih =>
    obtain ⟨k', v'⟩ := e'
    simp only [insertEntry]
    split_ifs <;> simp_all [findEntry]

@[simp] theorem find_insert (m : OrdMap κ β) (k j : κ) (v : β) :
    (m.insert k v).find j = if j = k then some v else m.find j :=
  findEntry_insertEntry k j v m.entries

def erase (m : OrdMap κ β) (k : κ) : OrdMap κ β :=
  ⟨m.entries.filter (fun e => e.1 ≠ k), m.sorted.filter _⟩

@[simp] theorem find_erase (m : OrdMap κ β) (k j : κ) :
    (m.erase k).find j = if j = k then none else m.find j := by
  simp only [erase, find]
  induction m.entries with
  | nil => simp [findEntry]
  | cons e l ih =>
    by_cases he : e.1 = k
    · rw [List.filter_cons_of_neg (by simpa using he), ih, findEntry]
      split
      · rfl
      · next hj => rw [if_neg fun h => hj (h.trans he)]
    · rw [List.filter_cons_of_pos (by simpa using he), findEntry, findEntry, ih]
      by_cases hj : j = e.1
      · rw [if_pos hj, if_neg (hj ▸ he), if_pos hj]
      · rw [if_neg hj, if_neg hj]

theorem findEntry_eq_none {k : κ} {m : List (κ × β)} (h : ∀ e ∈ m, k < e.1) :
    findEntry k m = none := by
  induction m with
  | nil => rfl
  | cons e m ih =>
    have hne : k ≠ e.1 := (h e (by simp)).ne
    simp only [findEntry, if_neg hne]
    exact ih fun e' he' => h e' (by simp [he'])

theorem entries_ext {m n : List (κ × β)} (hm : m.Pairwise (fun a b => a.1 < b.1))
    (hn : n.Pairwise (fun a b => a.1 < b.1)) (h : ∀ k, findEntry k m = findEntry k n) :
    m = n := by
  induction m generalizing n with
  | nil =>
    cases n with
    | nil => rfl
    | cons e n => simpa [findEntry] using h e.1
  | cons d m ih =>
    cases n with
    | nil => simpa [findEntry] using h d.1
    | cons e n =>
      obtain ⟨hd, hm⟩ := List.pairwise_cons.mp hm
      obtain ⟨he, hn⟩ := List.pairwise_cons.mp hn
      -- the smallest key of either list is found in the other one
      have hkey : d.1 = e.1 := by
        rcases lt_trichotomy d.1 e.1 with hlt | heq | hgt
        · have hnone := findEntry_eq_none (k := d.1) (m := n) fun x hx => hlt.trans (he x hx)
          have := h d.1
          simp [findEntry, hlt.ne, hnone] at this
        · exact heq
        · have hnone := findEntry_eq_none (k := e.1) (m := m) fun x hx => hgt.trans (hd x hx)
          have := h e.1
          simp [findEntry, hgt.ne, hnone] at this
      have hval : d.2 = e.2 := by simpa [findEntry, hkey] using h d.1
      have htail : ∀ k, findEntry k m = findEntry k n := by
        intro k
        by_cases hk : k = d.1
        · subst hk
          rw [findEntry_eq_none hd, findEntry_eq_none fun x hx => hkey ▸ he x hx]
        · have hk' : k ≠ e.1 := fun h' => hk (h'.trans hkey.symm)
          simpa [findEntry, hk, hk'] using h k
      rw [ih hm hn htail, Prod.ext hkey hval]

@[ext] theorem ext {m n : OrdMap κ β} (h : ∀ k, m.find k = n.find k) : m = n := by
  have := entries_ext m.sorted n.sorted h
  cases m; cases n; cases this; rfl

def ofList (l : List (κ × β)) : OrdMap κ β := l.foldl (fun m e => m.insert e.1 e.2) empty

theorem find_foldl_insert (l : List (κ × β)) (m : OrdMap κ β) (k : κ) :
    (l.foldl (fun m e => m.insert e.1 e.2) m).find k =
      ((l.filter (fun e => e.1 = k)).getLast?.map Prod.snd).or (m.find k) := by
  induction l generalizing m with
  | nil => simp
  | cons e l ih =>
    rw [List.foldl_cons, ih, find_insert]
    by_cases hk : e.1 = k
    · rw [List.filter_cons_of_pos (by simpa using hk), if_pos hk.symm, List.getLast?_cons]
      cases (l.filter (fun e => e.1 = k)).getLast? <;> simp
    · rw [List.filter_cons_of_neg (by simpa using hk), if_neg (Ne.symm hk)]

theorem find_ofList (l : List (κ × β)) (k : κ) :
    (ofList l).find k = (l.filter (fun e => e.1 = k)).getLast?.map Prod.snd := by
  simp [ofList, find_foldl_insert]

theorem findEntry_eq_getLast {m : List (κ × β)} (h : m.Pairwise (fun a b => a.1 < b.1)) (k : κ) :
    findEntry k m = (m.filter (fun e => e.1 = k)).getLast?.map Prod.snd := by
  induction m with
  | nil => rfl
  | cons e m ih =>
    obtain ⟨he, hm⟩ := List.pairwise_cons.mp h
    by_cases hk : e.1 = k
    · have hnone : m.filter (fun e => e.1 = k) = [] := by
        rw [List.filter_eq_nil_iff]
        intro x hx heq
        exact (he x hx).ne (hk.trans (of_decide_eq_true heq).symm)
      rw [List.filter_cons_of_pos (by simpa using hk), hnone, findEntry, if_pos hk.symm]
      rfl
    · rw [List.filter_cons_of_neg (by simpa using hk), findEntry, if_neg (Ne.symm hk), ih hm]

@[simp] theorem ofList_entries (m : OrdMap κ β) : ofList m.entries = m := by
  apply OrdMap.ext
  intro k
  rw [find_ofList, ← findEntry_eq_getLast m.sorted, find]

end OrdMap

end WebServer.Lib
