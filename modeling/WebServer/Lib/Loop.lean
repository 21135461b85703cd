import Mathlib.Logic.Basic

/-! `while` loops over a state, with a bound on the number of tests of the condition. -/

universe u v

namespace WebServer.Lib

variable {σ : Type u} {ε : Type v}

/-- `while (cond s) s = body s`.  The loop fails with `stuck` when `fuel` tests of the
condition were not enough. -/
def whileLoop (cond : σ → Bool) (body : σ → Except ε σ) (stuck : ε) : Nat → σ → Except ε σ
  | 0, _ => .error stuck
  | n + 1, s => if cond s then (body s).bind (whileLoop cond body stuck n) else .ok s

variable {cond : σ → Bool} {body : σ → Except ε σ} {stuck : ε}

theorem whileLoop_of_false {s : σ} (h : cond s = false) (n : Nat) :
    whileLoop cond body stuck (n + 1) s = .ok s := by
  simp [whileLoop, h]

theorem whileLoop_of_true {s t : σ} (h : cond s = true) (hb : body s = .ok t) (n : Nat) :
    whileLoop cond body stuck (n + 1) s = whileLoop cond body stuck n t := by
  simp [whileLoop, h, hb, Except.bind]

theorem whileLoop_of_le {n m : Nat} {s t : σ} (h : whileLoop cond body stuck n s = .ok t)
    (hnm : n ≤ m) : whileLoop cond body stuck m s = .ok t := by
  induction n generalizing m s with
  | zero => cases h
  | succ n ih =>
    cases m with
    | zero => exact absurd hnm (Nat.not_succ_le_zero n)
    | succ m =>
      cases hcond : cond s with
      | false =>
        rw [whileLoop_of_false hcond] at h ⊢
        exact h
      | true =>
        cases hb : body s with
        | error e => simp [whileLoop, hcond, hb, Except.bind] at h
        | ok u =>
          rw [whileLoop_of_true hcond hb] at h ⊢
          exact ih h (Nat.le_of_succ_le_succ hnm)

theorem whileLoop_invariant {I : σ → Prop}
    (hbody : ∀ s t, I s → cond s = true → body s = .ok t → I t) {n : Nat} {s t : σ} (hs : I s)
    (h : whileLoop cond body stuck n s = .ok t) : I t ∧ cond t = false := by
  induction n generalizing s with
  | zero => cases h
  | succ n ih =>
    cases hcond : cond s with
    | false =>
      obtain rfl : s = t := Except.ok.inj ((whileLoop_of_false hcond n).symm.trans h)
      exact ⟨hs, hcond⟩
    | true =>
      cases hb : body s with
      | error e => simp [whileLoop, hcond, hb, Except.bind] at h
      | ok m =>
        rw [whileLoop_of_true hcond hb] at h
        exact ih (hbody s m hs hcond hb) h

theorem whileLoop_ne_stuck {I : σ → Prop} {measure : σ → Nat}
    (hstuck : ∀ s, I s → body s ≠ .error stuck)
    (hbody : ∀ s t, I s → cond s = true → body s = .ok t → I t ∧ measure t < measure s)
    {n : Nat} {s : σ} (hs : I s) (hn : measure s < n) :
    whileLoop cond body stuck n s ≠ .error stuck := by
  induction n generalizing s with
  | zero => exact absurd hn (Nat.not_lt_zero _)
  | succ n ih =>
    cases hcond : cond s with
    | false => simp [whileLoop_of_false hcond]
    | true =>
      cases hb : body s with
      | error e =>
        have hne := hstuck s hs
        simpa [whileLoop, hcond, hb, Except.bind] using hne
      | ok m =>
        obtain ⟨hm, hlt⟩ := hbody s m hs hcond hb
        rw [whileLoop_of_true hcond hb]
        exact ih hm (by omega)

theorem whileLoop_error {I : σ → Prop}
    (hbody : ∀ s t, I s → cond s = true → body s = .ok t → I t) {n : Nat} {s : σ} {e : ε} (hs : I s)
    (h : whileLoop cond body stuck n s = .error e) :
    e = stuck ∨ ∃ t, I t ∧ body t = .error e := by
  induction n generalizing s with
  | zero => exact .inl (Except.error.inj h).symm
  | succ n ih =>
    cases hcond : cond s with
    | false => simp [whileLoop_of_false hcond] at h
    | true =>
      cases hb : body s with
      | error e' =>
        obtain rfl : e' = e := by simpa [whileLoop, hcond, hb, Except.bind] using h
        exact .inr ⟨s, hs, hb⟩
      | ok m =>
        rw [whileLoop_of_true hcond hb] at h
        exact ih (hbody s m hs hcond hb) h

theorem whileLoop_eq_stuck {I : σ → Prop}
    (hbody : ∀ s, I s → cond s = true ∧ ∃ t, body s = .ok t ∧ I t) (n : Nat) {s : σ} (hs : I s) :
    whileLoop cond body stuck n s = .error stuck := by
  induction n generalizing s with
  | zero => rfl
  | succ n ih =>
    obtain ⟨hcond, t, ht, hI⟩ := hbody s hs
    rw [whileLoop_of_true hcond ht]
    exact ih hI

end WebServer.Lib
