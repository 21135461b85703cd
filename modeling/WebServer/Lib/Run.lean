import Mathlib.Logic.Basic

/-! Runs of a partial step function, and the induction rules for them. -/

universe u v w x

namespace WebServer.Lib

variable {σ : Type u} {ι : Type v}

/-- The state after the listed steps; `none` when one of them is not enabled. -/
def run (step : σ → ι → Option σ) : σ → List ι → Option σ
  | s, [] => some s
  | s, i :: is => (step s i).bind fun t => run step t is

/-- Every step of the run is taken in a state that meets `P`. -/
def Along (step : σ → ι → Option σ) (P : σ → ι → Prop) : σ → List ι → Prop
  | _, [] => True
  | s, i :: is => P s i ∧ ∀ t, step s i = some t → Along step P t is

variable {step : σ → ι → Option σ} {P : σ → ι → Prop}

@[simp] theorem run_nil (s : σ) : run step s [] = some s := rfl

theorem run_cons {s t : σ} {i : ι} {is : List ι} :
    run step s (i :: is) = some t ↔ ∃ m, step s i = some m ∧ run step m is = some t := by
  rw [← Option.bind_eq_some_iff]
  rfl

theorem run_append {s t : σ} {is js : List ι} :
    run step s (is ++ js) = some t ↔ ∃ m, run step s is = some m ∧ run step m js = some t := by
  induction is generalizing s with
  | nil => simp
  | cons i is ih =>
    rw [List.cons_append, run_cons]
    constructor
    · rintro ⟨n, hn, hrest⟩
      obtain ⟨m, hm, hlast⟩ := ih.mp hrest
      exact ⟨m, run_cons.mpr ⟨n, hn, hm⟩, hlast⟩
    · rintro ⟨m, hm, hlast⟩
      obtain ⟨n, hn, hrest⟩ := run_cons.mp hm
      exact ⟨n, hn, ih.mpr ⟨m, hrest, hlast⟩⟩

theorem along_of_forall {is : List ι} (h : ∀ i ∈ is, ∀ s, P s i) (s : σ) : Along step P s is := by
  induction is generalizing s with
  | nil => trivial
  | cons i is ih =>
    exact ⟨h i List.mem_cons_self s, fun t _ => ih (fun j hj => h j (List.mem_cons_of_mem _ hj)) t⟩

theorem along_iff_forall {Q : ι → Prop} {s t : σ} {is : List ι} (h : run step s is = some t) :
    Along step (fun _ i => Q i) s is ↔ ∀ i ∈ is, Q i := by
  refine ⟨fun halong => ?_, fun hall => along_of_forall (fun i hi _ => hall i hi) s⟩
  induction is generalizing s with
  | nil => simp
  | cons i is ih =>
    obtain ⟨m, hm, hrest⟩ := run_cons.mp h
    exact List.forall_mem_cons.mpr ⟨halong.1, ih hrest (halong.2 m hm)⟩

theorem Along.initial {s : σ} {is js : List ι} (h : Along step P s is) (hjs : js <+: is) :
    Along step P s js := by
  induction js generalizing s is with
  | nil => trivial
  | cons j js ih =>
    obtain ⟨is, rfl⟩ := hjs
    exact ⟨h.1, fun t ht => ih (h.2 t ht) (List.prefix_append js is)⟩

theorem Along.later {s t : σ} {is js : List ι} (h : Along step P s (is ++ js))
    (hrun : run step s is = some t) : Along step P t js := by
  induction is generalizing s with
  | nil =>
    obtain rfl : s = t := by simpa using hrun
    exact h
  | cons i is ih =>
    obtain ⟨m, hm, hrest⟩ := run_cons.mp hrun
    exact ih (h.2 m hm) hrest

theorem along_append {s : σ} {is js : List ι} (h : Along step P s is)
    (hjs : ∀ t, run step s is = some t → Along step P t js) : Along step P s (is ++ js) := by
  induction is generalizing s with
  | nil => exact hjs s rfl
  | cons i is ih =>
    refine ⟨h.1, fun t ht => ih (h.2 t ht) fun u hu => hjs u ?_⟩
    exact run_cons.mpr ⟨t, ht, hu⟩

theorem along_congr {Q : σ → ι → Prop} {I : σ → Prop} (hPQ : ∀ s i, I s → (P s i ↔ Q s i))
    (hstep : ∀ s i t, I s → P s i → step s i = some t → I t) {s : σ} (hs : I s) (is : List ι) :
    Along step P s is ↔ Along step Q s is := by
  induction is generalizing s with
  | nil => exact Iff.rfl
  | cons i is ih =>
    constructor
    · rintro ⟨hP, hrest⟩
      exact ⟨(hPQ s i hs).mp hP, fun t ht => (ih (hstep s i t hs hP ht)).mp (hrest t ht)⟩
    · rintro ⟨hQ, hrest⟩
      have hP := (hPQ s i hs).mpr hQ
      exact ⟨hP, fun t ht => (ih (hstep s i t hs hP ht)).mpr (hrest t ht)⟩

/-- An invariant that every step keeps, where the step meets `P`, holds at the end of every
run whose steps all meet `P`. -/
theorem invariant_along {I : σ → Prop}
    (hstep : ∀ s i t, I s → P s i → step s i = some t → I t)
    {s t : σ} {is : List ι} (hI : I s) (hP : Along step P s is) (h : run step s is = some t) :
    I t := by
  induction is generalizing s with
  | nil =>
    obtain rfl : s = t := by simpa using h
    exact hI
  | cons i is ih =>
    obtain ⟨m, hm, hrest⟩ := run_cons.mp h
    exact ih (hstep s i m hI hP.1 hm) (hP.2 m hm) hrest

theorem exists_run_along {I : σ → Prop} (hstep : ∀ {s : σ}, I s → ∀ i, P s i →
    ∃ t, step s i = some t ∧ I t) {s : σ} {is : List ι} (hI : I s) (hP : Along step P s is) :
    ∃ t, run step s is = some t ∧ I t := by
  induction is generalizing s with
  | nil => exact ⟨s, rfl, hI⟩
  | cons i is ih =>
    obtain ⟨m, hm, hIm⟩ := hstep hI i hP.1
    obtain ⟨t, ht, hIt⟩ := ih hIm (hP.2 m hm)
    exact ⟨t, run_cons.mpr ⟨m, hm, ht⟩, hIt⟩

theorem exists_run_foldl {τ : Type w} {f : τ → ι → τ} {R : σ → τ → Prop}
    (hstep : ∀ {s a}, R s a → ∀ i, P s i → ∃ t, step s i = some t ∧ R t (f a i))
    {s : σ} {a : τ} {is : List ι} (hR : R s a) (hP : Along step P s is) :
    ∃ t, run step s is = some t ∧ R t (is.foldl f a) := by
  induction is generalizing s a with
  | nil => exact ⟨s, rfl, hR⟩
  | cons i is ih =>
    obtain ⟨m, hm, hRm⟩ := hstep hR i hP.1
    obtain ⟨t, ht, hRt⟩ := ih hRm (hP.2 m hm)
    exact ⟨t, run_cons.mpr ⟨m, hm, ht⟩, hRt⟩

theorem Along.imp {I : σ → Prop} {Q : σ → ι → Prop} {s t : σ} {is : List ι}
    (hP : Along step P s is) (hstep : ∀ s i t, I s → P s i → step s i = some t → Q s i ∧ I t)
    (hI : I s) (h : run step s is = some t) : Along step Q s is := by
  induction is generalizing s with
  | nil => trivial
  | cons i is ih =>
    obtain ⟨m, hm, hrest⟩ := run_cons.mp h
    obtain ⟨hQ, hIm⟩ := hstep s i m hI hP.1 hm
    refine ⟨hQ, fun n hn => ?_⟩
    obtain rfl : m = n := Option.some.inj (hm.symm.trans hn)
    exact ih (hP.2 m hm) hIm hrest

theorem along_of_run {I : σ → Prop} (hstep : ∀ s i t, I s → step s i = some t → P s i ∧ I t)
    {s t : σ} {is : List ι} (hI : I s) (h : run step s is = some t) : Along step P s is :=
  (along_of_forall (fun _ _ _ => trivial) s).imp (fun s i t hs (_ : True) => hstep s i t hs) hI h

theorem invariant_run {I : σ → Prop} (hstep : ∀ s i t, I s → step s i = some t → I t)
    {s t : σ} {is : List ι} (hI : I s) (h : run step s is = some t) : I t :=
  invariant_along (P := fun _ _ => True) (fun s i t hs _ => hstep s i t hs) hI
    (along_of_forall (fun _ _ _ => trivial) s) h

theorem countP_add_le {I : σ → Prop} {P : ι → Bool} {μ : σ → Nat}
    (hstep : ∀ s i t, I s → step s i = some t → I t ∧ μ t + (if P i then 1 else 0) ≤ μ s)
    {s t : σ} {is : List ι} (hI : I s) (h : run step s is = some t) :
    is.countP P + μ t ≤ μ s := by
  induction is generalizing s with
  | nil =>
    obtain rfl : s = t := by simpa using h
    simp
  | cons i is ih =>
    obtain ⟨m, hm, hrest⟩ := run_cons.mp h
    obtain ⟨hIm, hle⟩ := hstep s i m hI hm
    have hrest_le := ih hIm hrest
    rw [List.countP_cons]
    omega

/-- Where a step of `P` lowers a measure unless it comes to the goal, and the others do not raise
it, a run with more steps of `P` than the measure allows has come to the goal. -/
theorem goal_or_countP_add_le {I D : σ → Prop} {p : ι → Bool} {μ : σ → Nat}
    (hstep : ∀ s i t, I s → P s i → step s i = some t →
      I t ∧ (D s → D t) ∧ (D t ∨ μ t + (if p i then 1 else 0) ≤ μ s))
    {s t : σ} {is : List ι} (hI : I s) (hP : Along step P s is) (h : run step s is = some t) :
    D t ∨ is.countP p + μ t ≤ μ s := by
  have hkeep : ∀ {s : σ} {is : List ι}, I s → D s → Along step P s is → run step s is = some t →
      D t := fun hI hD hP h =>
    (invariant_along (I := fun s => I s ∧ D s) (fun s i t hs hP ht =>
      have hnext := hstep s i t hs.1 hP ht
      ⟨hnext.1, hnext.2.1 hs.2⟩) ⟨hI, hD⟩ hP h).2
  induction is generalizing s with
  | nil =>
    obtain rfl : s = t := by simpa using h
    exact .inr (by simp)
  | cons i is ih =>
    obtain ⟨m, hm, hrest⟩ := run_cons.mp h
    obtain ⟨hIm, -, hmeasure⟩ := hstep s i m hI hP.1 hm
    rcases hmeasure with hD | hle
    · exact .inl (hkeep hIm hD (hP.2 m hm) hrest)
    · refine (ih hIm (hP.2 m hm) hrest).imp_right fun hrest_le => ?_
      rw [List.countP_cons]
      omega

def Reaches (step : σ → ι → Option σ) (s t : σ) : Prop := ∃ is, run step s is = some t

theorem Reaches.refl (s : σ) : Reaches step s s := ⟨[], rfl⟩

theorem Reaches.head {s m t : σ} {i : ι} (hm : step s i = some m) (h : Reaches step m t) :
    Reaches step s t := by
  obtain ⟨is, hrest⟩ := h
  exact ⟨i :: is, run_cons.mpr ⟨m, hm, hrest⟩⟩

theorem Reaches.trans {s m t : σ} (h : Reaches step s m) (h' : Reaches step m t) :
    Reaches step s t := by
  obtain ⟨is, his⟩ := h
  obtain ⟨js, hjs⟩ := h'
  exact ⟨is ++ js, run_append.mpr ⟨m, his, hjs⟩⟩

/-- A property that a step keeps exactly when the step meets `P` holds after every part of a run
exactly when all steps of the run meet `P`. -/
theorem forall_prefix_iff_along {I J : σ → Prop} (hI : ∀ s i t, I s → step s i = some t → I t)
    (hJ : ∀ s i t, I s → J s → step s i = some t → (J t ↔ P s i))
    {s u : σ} {is : List ι} (hs : I s) (hs' : J s) (h : run step s is = some u) :
    (∀ js t, js <+: is → run step s js = some t → J t) ↔ Along step P s is := by
  induction is generalizing s with
  | nil =>
    refine ⟨fun _ => trivial, fun _ js t hjs ht => ?_⟩
    obtain rfl : js = [] := by simpa using hjs
    obtain rfl : s = t := by simpa using ht
    exact hs'
  | cons i is ih =>
    obtain ⟨m, hm, hrest⟩ := run_cons.mp h
    constructor
    · intro hall
      have hmJ : J m := hall [i] m (by simp) (run_cons.mpr ⟨m, hm, rfl⟩)
      refine ⟨(hJ s i m hs hs' hm).mp hmJ, fun t ht => ?_⟩
      obtain rfl : m = t := Option.some.inj (hm.symm.trans ht)
      refine (ih (hI s i m hs hm) hmJ hrest).mp fun js t hjs ht => ?_
      exact hall (i :: js) t (by simpa using hjs) (run_cons.mpr ⟨m, hm, ht⟩)
    · rintro ⟨hP, halong⟩ js t hjs ht
      cases js with
      | nil =>
        obtain rfl : s = t := by simpa using ht
        exact hs'
      | cons j js =>
        obtain ⟨rfl, htail⟩ := List.cons_prefix_cons.mp hjs
        obtain ⟨m', hm', ht⟩ := run_cons.mp ht
        obtain rfl : m = m' := Option.some.inj (hm.symm.trans hm')
        have hmJ : J m := (hJ s j m hs hs' hm).mpr hP
        exact (ih (hI s j m hs hm) hmJ hrest).mpr (halong m hm) js t htail ht

/-- A property that holds after a step exactly when it held before and the step meets `P` holds
at the end of a run exactly when it held at its start and all steps of the run meet `P`. -/
theorem iff_and_along {I J : σ → Prop} (hI : ∀ s i t, I s → step s i = some t → I t)
    (hJ : ∀ s i t, I s → step s i = some t → (J t ↔ J s ∧ P s i))
    {s t : σ} {is : List ι} (hs : I s) (h : run step s is = some t) :
    J t ↔ J s ∧ Along step P s is := by
  induction is generalizing s with
  | nil =>
    obtain rfl : s = t := by simpa using h
    exact ⟨fun ht => ⟨ht, trivial⟩, And.left⟩
  | cons i is ih =>
    obtain ⟨m, hm, hrest⟩ := run_cons.mp h
    rw [ih (hI s i m hs hm) hrest, hJ s i m hs hm]
    constructor
    · rintro ⟨⟨hs', hP⟩, halong⟩
      refine ⟨hs', hP, fun t ht => ?_⟩
      obtain rfl : m = t := Option.some.inj (hm.symm.trans ht)
      exact halong
    · rintro ⟨hs', hP, halong⟩
      exact ⟨⟨hs', hP⟩, halong m hm⟩

/-- The labels that `e` gives to the steps of the run, in order. -/
def relabel {κ : Type w} (step : σ → ι → Option σ) (e : σ → ι → List κ) : σ → List ι → List κ
  | _, [] => []
  | s, i :: is => e s i ++ (step s i).elim [] fun t => relabel step e t is

theorem forall_mem_relabel {κ : Type w} {e : σ → ι → List κ} {p : κ → Prop}
    (h : ∀ s i, ∀ k ∈ e s i, p k) (s : σ) (is : List ι) : ∀ k ∈ relabel step e s is, p k := by
  induction is generalizing s with
  | nil => exact List.forall_mem_nil p
  | cons i is ih =>
    intro k hk
    rw [relabel, List.mem_append] at hk
    rcases hk with hk | hk
    · exact h s i k hk
    · cases hm : step s i with
      | none => simp [hm] at hk
      | some t => exact ih t k (by simpa [hm] using hk)

theorem relabel_foldl {τ : Type w} {κ : Type x} {e : σ → ι → List κ} {g : σ → τ}
    {call : τ → κ → τ} (hstep : ∀ s i t, step s i = some t → g t = (e s i).foldl call (g s))
    {s t : σ} {is : List ι} (h : run step s is = some t) :
    g t = (relabel step e s is).foldl call (g s) := by
  induction is generalizing s with
  | nil =>
    obtain rfl : s = t := by simpa using h
    rfl
  | cons i is ih =>
    obtain ⟨m, hm, hrest⟩ := run_cons.mp h
    rw [relabel, hm, Option.elim_some, List.foldl_append, ← hstep s i m hm]
    exact ih hrest

/-- Where each step is followed in another system by the steps that `e` makes of it, each run is
followed by a run. -/
theorem run_relabel {τ : Type w} {κ : Type x} {step' : τ → κ → Option τ} {Q : τ → κ → Prop}
    {e : σ → ι → List κ} {R : σ → τ → Prop}
    (hstep : ∀ s i t a, R s a → P s i → step s i = some t →
      ∃ b, run step' a (e s i) = some b ∧ Along step' Q a (e s i) ∧ R t b)
    {s t : σ} {a : τ} {is : List ι} (hR : R s a) (hP : Along step P s is)
    (h : run step s is = some t) :
    ∃ b, run step' a (relabel step e s is) = some b ∧ Along step' Q a (relabel step e s is) ∧
      R t b := by
  induction is generalizing s a with
  | nil =>
    obtain rfl : s = t := by simpa using h
    exact ⟨a, rfl, trivial, hR⟩
  | cons i is ih =>
    obtain ⟨m, hm, hrest⟩ := run_cons.mp h
    obtain ⟨c, hc, hQ, hRm⟩ := hstep s i m a hR hP.1 hm
    obtain ⟨b, hb, hQ', hRt⟩ := ih hRm (hP.2 m hm) hrest
    rw [relabel, hm, Option.elim_some]
    refine ⟨b, run_append.mpr ⟨c, hc, hb⟩, along_append hQ fun d hd => ?_, hRt⟩
    obtain rfl : c = d := Option.some.inj (hc.symm.trans hd)
    exact hQ'

/-- What `f` sees of the states of the run, the first one included. -/
def trace {α : Type w} (step : σ → ι → Option σ) (f : σ → α) : σ → List ι → List α
  | s, [] => [f s]
  | s, i :: is => f s :: (step s i).elim [] fun t => trace step f t is

def pairs {α : Type w} {β : Type u} (e : α → α → List β) : List α → List β
  | a :: b :: l => e a b ++ pairs e (b :: l)
  | _ => []

theorem trace_eq_cons {α : Type w} (f : σ → α) (s : σ) (is : List ι) :
    ∃ l, trace step f s is = f s :: l := by
  cases is with
  | nil => exact ⟨[], rfl⟩
  | cons i is => exact ⟨_, rfl⟩

theorem run_collects {α : Type w} {β : Type u} {I : σ → Prop} {f : σ → α} {g : σ → List β}
    {e : α → α → List β}
    (hstep : ∀ s i t, I s → step s i = some t → I t ∧ g t = g s ++ e (f s) (f t))
    {s t : σ} {is : List ι} (hs : I s) (h : run step s is = some t) :
    g t = g s ++ pairs e (trace step f s is) := by
  induction is generalizing s with
  | nil =>
    obtain rfl : s = t := by simpa using h
    exact (List.append_nil _).symm
  | cons i is ih =>
    obtain ⟨m, hm, hrest⟩ := run_cons.mp h
    obtain ⟨hIm, hg⟩ := hstep s i m hs hm
    obtain ⟨l, hl⟩ : ∃ l, trace step f m is = f m :: l := trace_eq_cons f m is
    rw [ih hIm hrest, hg, trace, hm, Option.elim_some, hl, pairs, List.append_assoc]

def Ordered (step : σ → ι → Option σ) (r : σ → σ → Prop) (s : σ) (is : List ι) : Prop :=
  ∀ js ks a b, js ++ ks <+: is → run step s js = some a → run step a ks = some b → r a b

/-- A preorder that a step keeps exactly when it meets `P` orders a run exactly when all steps of
the run meet `P`. -/
theorem ordered_iff_along {I : σ → Prop} {r : σ → σ → Prop} (hrefl : ∀ s, r s s)
    (htrans : ∀ s t u, r s t → r t u → r s u) (hI : ∀ s i t, I s → step s i = some t → I t)
    (hr : ∀ s i t, I s → step s i = some t → (r s t ↔ P s i))
    {s u : σ} {is : List ι} (hs : I s) (h : run step s is = some u) :
    Ordered step r s is ↔ Along step P s is := by
  induction is generalizing s with
  | nil =>
    refine ⟨fun _ => trivial, fun _ js ks a b hjs ha hb => ?_⟩
    obtain ⟨rfl, rfl⟩ : js = [] ∧ ks = [] := by simpa using hjs
    obtain rfl : s = a := by simpa using ha
    obtain rfl : s = b := by simpa using hb
    exact hrefl s
  | cons i is ih =>
    obtain ⟨m, hm, hrest⟩ := run_cons.mp h
    have hmI := hI s i m hs hm
    constructor
    · intro hall
      have hsm : r s m := hall [] [i] s m (by simp) rfl (run_cons.mpr ⟨m, hm, rfl⟩)
      refine ⟨(hr s i m hs hm).mp hsm, fun t ht => ?_⟩
      obtain rfl : m = t := Option.some.inj (hm.symm.trans ht)
      refine (ih hmI hrest).mp fun js ks a b hjs ha hb => ?_
      exact hall (i :: js) ks a b (by simpa using hjs) (run_cons.mpr ⟨m, hm, ha⟩) hb
    · rintro ⟨hP, halong⟩
      have hsm := (hr s i m hs hm).mpr hP
      have hlater := (ih hmI hrest).mpr (halong m hm)
      intro js ks a b hjs ha hb
      cases js with
      | nil =>
        obtain rfl : s = a := by simpa using ha
        cases ks with
        | nil =>
          obtain rfl : s = b := by simpa using hb
          exact hrefl s
        | cons k ks =>
          obtain ⟨rfl, htail⟩ := List.cons_prefix_cons.mp hjs
          obtain ⟨m', hm', hb⟩ := run_cons.mp hb
          obtain rfl : m = m' := Option.some.inj (hm.symm.trans hm')
          exact htrans _ _ _ hsm (hlater [] ks m b htail rfl hb)
      | cons j js =>
        obtain ⟨rfl, htail⟩ := List.cons_prefix_cons.mp hjs
        obtain ⟨m', hm', ha⟩ := run_cons.mp ha
        obtain rfl : m = m' := Option.some.inj (hm.symm.trans hm')
        exact hlater js ks a b htail ha hb

instance decidableAlong [∀ s i, Decidable (P s i)] (s : σ) :
    (is : List ι) → Decidable (Along step P s is)
  | [] => .isTrue trivial
  | i :: is =>
    match h : step s i with
    | none => decidable_of_iff (P s i) ⟨fun hP => ⟨hP, by simp [h]⟩, fun hP => hP.1⟩
    | some t =>
      have := decidableAlong t is
      decidable_of_iff (P s i ∧ Along step P t is)
        ⟨fun hP => ⟨hP.1, fun _ ht => Option.some.inj (h.symm.trans ht) ▸ hP.2⟩,
          fun hP => ⟨hP.1, hP.2 t h⟩⟩

end WebServer.Lib
