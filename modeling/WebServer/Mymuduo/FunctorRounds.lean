import WebServer.Mymuduo.LoopThread

universe u

namespace WebServer.Mymuduo

open WebServer.Lib

namespace LoopThread

variable {Functor : Type u} {s t : LoopThread Functor} {l : Label Functor} {n : Nat}

def Label.endsRound : Label Functor → Bool
  | .endFunctors => true
  | _ => false

/-- The rounds that can end before the first `n` functors that ever were queued are executed. -/
def roundsLeft (n : Nat) (s : LoopThread Functor) : Nat :=
  if s.loop.callingPendingFunctors = true ∧ s.executed.length + s.loop.functors.length < n then 2
  else 1

theorem roundsLeft_pos (n : Nat) (s : LoopThread Functor) : 1 ≤ s.roundsLeft n := by
  rw [roundsLeft]
  split <;> omega

theorem roundsLeft_le (n : Nat) (s : LoopThread Functor) : s.roundsLeft n ≤ 2 := by
  rw [roundsLeft]
  split <;> omega

structure SameBatch (s t : LoopThread Functor) : Prop where
  calling : t.loop.callingPendingFunctors = s.loop.callingPendingFunctors
  length : t.executed.length + t.loop.functors.length =
    s.executed.length + s.loop.functors.length
  executed : s.executed <+: t.executed

theorem sameBatch_next (h₁ : l ≠ .swapFunctors) (h₂ : l ≠ .endFunctors) :
    SameBatch s (s.next l) := by
  cases l with
  | swapFunctors => exact absurd rfl h₁
  | endFunctors => exact absurd rfl h₂
  | handleEvent =>
    simp only [next]
    split <;> exact ⟨rfl, rfl, List.prefix_refl _⟩
  | nextFunctor =>
    simp only [next]
    split
    · next f m hnext =>
      obtain ⟨hfunctors, -, -, hcalling⟩ := EventLoop.nextFunctor_spec hnext
      refine ⟨hcalling, ?_, List.prefix_append _ _⟩
      simp only [hfunctors, List.length_append, List.length_cons, List.length_nil]
      omega
    · exact ⟨rfl, rfl, List.prefix_refl _⟩
  | _ => exact ⟨rfl, rfl, List.prefix_refl _⟩

theorem executed_prefix_next (s : LoopThread Functor) (l : Label Functor) :
    s.executed <+: (s.next l).executed := by
  by_cases h₁ : l = .swapFunctors
  · subst h₁
    exact List.prefix_refl _
  by_cases h₂ : l = .endFunctors
  · subst h₂
    exact List.prefix_refl _
  exact (sameBatch_next h₁ h₂).executed

theorem queued_prefix_next (s : LoopThread Functor) (l : Label Functor) :
    s.queued <+: (s.next l).queued := by
  cases l with
  | handleEvent | nextFunctor =>
    simp only [next]
    split <;> exact List.prefix_refl _
  | queueInLoop _ | callQueueInLoop _ => exact List.prefix_append _ _
  | _ => exact List.prefix_refl _

/-- A round either comes to the end of what was queued or leaves one round less to wait for. -/
theorem Ledger.roundsLeft_next (h : s.Ledger) (hn : n ≤ s.queued.length)
    (hl : s.enabled l = true) : n ≤ (s.next l).executed.length ∨
      (s.next l).roundsLeft n + (if l.endsRound then 1 else 0) ≤ s.roundsLeft n := by
  by_cases h₁ : l = .swapFunctors
  · subst h₁
    simp only [enabled, Bool.and_eq_true, decide_eq_true_eq] at hl
    have hnil := h.functors_nil (by simp [hl.2])
    have hlength : s.executed.length + s.loop.pendingFunctors.length = s.queued.length := by
      rw [← h.ledger, hnil]
      simp
    have hone : (s.next .swapFunctors).roundsLeft n = 1 := by
      rw [roundsLeft, if_neg]
      simp only [LoopThread.next, EventLoop.swapFunctors]
      omega
    exact .inr (hone ▸ roundsLeft_pos n s)
  by_cases h₂ : l = .endFunctors
  · subst h₂
    simp only [enabled, Bool.and_eq_true, decide_eq_true_eq, List.isEmpty_iff] at hl
    have hcalling := h.calling.mpr hl.1.2
    by_cases hdone : n ≤ s.executed.length
    · exact .inl hdone
    · have htwo : s.roundsLeft n = 2 := by
        rw [roundsLeft, if_pos]
        exact ⟨hcalling, by simpa [hl.2] using hdone⟩
      have hone : (s.next .endFunctors).roundsLeft n = 1 := by
        simp [roundsLeft, LoopThread.next, EventLoop.endFunctors]
      right
      rw [htwo, hone]
      exact Nat.le_refl 2
  · have hsame := sameBatch_next (s := s) h₁ h₂
    have hends : l.endsRound = false := by
      cases l with
      | endFunctors => exact absurd rfl h₂
      | _ => rfl
    right
    rw [roundsLeft, roundsLeft, hsame.calling, hsame.length, hends]
    exact Nat.le_refl _

/-- Whatever is queued behind it, before it or while it waits, a functor is executed before the
second round from then on is over. -/
theorem executed_of_rounds {ls ls' : List (Label Functor)} (h : run step new ls = some s)
    (h' : run step s ls' = some t) (hrounds : 2 ≤ ls'.countP Label.endsRound) :
    s.queued <+: t.executed := by
  have hledger : ∀ (s : LoopThread Functor) l t, Ledger s → step s l = some t → Ledger t := by
    intro s l t hs hstep
    obtain ⟨hl, rfl⟩ := step_eq_some.mp hstep
    exact hs.next hl
  have hs : s.Ledger := invariant_run hledger ledger_new h
  have hqueued : s.queued <+: t.queued := by
    refine invariant_run (I := fun u => s.queued <+: u.queued) ?_ (List.prefix_refl _) h'
    intro u l v hu hstep
    obtain ⟨-, rfl⟩ := step_eq_some.mp hstep
    exact hu.trans (u.queued_prefix_next l)
  have hdone : s.queued.length ≤ t.executed.length := by
    have hgoal := goal_or_countP_add_le (P := fun _ _ => True) (p := Label.endsRound)
      (I := fun u : LoopThread Functor => Ledger u ∧ s.queued.length ≤ u.queued.length)
      (D := fun u => s.queued.length ≤ u.executed.length) (μ := roundsLeft s.queued.length) ?_
      ⟨hs, Nat.le_refl _⟩ (along_of_forall (fun _ _ _ => trivial) s) h'
    · refine hgoal.resolve_right fun hle => ?_
      have hpos := t.roundsLeft_pos s.queued.length
      have htwo := s.roundsLeft_le s.queued.length
      omega
    · rintro u l v ⟨hu, hlength⟩ - hstep
      obtain ⟨hl, rfl⟩ := step_eq_some.mp hstep
      have hmore := (u.queued_prefix_next l).length_le
      have hkept := (u.executed_prefix_next l).length_le
      exact ⟨⟨hu.next hl, Nat.le_trans hlength hmore⟩, fun hD => Nat.le_trans hD hkept,
        hu.roundsLeft_next hlength hl⟩
  have hexecuted : t.executed <+: t.queued := by
    rw [← (invariant_run hledger hs h').ledger, List.append_assoc]
    exact List.prefix_append _ _
  exact List.prefix_of_prefix_length_le hqueued hexecuted hdone

def lateFunctor : List (Label Nat) :=
  [.callQueueInLoop 0, .callWakeup 0, .enterLoop, .enterPoll, .leavePoll [.wakeupChannel],
    .handleEvent, .swapFunctors, .callQueueInLoop 1]

def twoRounds : List (Label Nat) :=
  [.nextFunctor, .endFunctors, .callWakeup 0, .callQueueInLoop 2, .enterPoll,
    .leavePoll [.wakeupChannel], .handleEvent, .swapFunctors, .nextFunctor, .nextFunctor,
    .endFunctors]

theorem executed_of_rounds_lateFunctor : ∃ s t, run step new lateFunctor = some s ∧
    run step s twoRounds = some t ∧ s.queued = [0, 1] ∧ s.queued <+: t.executed := by
  have hrun : (run step new lateFunctor).any (fun s => s.queued = [0, 1] &&
      (run step s twoRounds).isSome) = true := by decide
  obtain ⟨s, hs, hrest⟩ := (Option.any_eq_true _ _).mp hrun
  simp only [Bool.and_eq_true, decide_eq_true_eq, Option.isSome_iff_exists] at hrest
  obtain ⟨hqueued, t, ht⟩ := hrest
  exact ⟨s, t, hs, ht, hqueued, executed_of_rounds hs ht (by decide)⟩

end LoopThread

end WebServer.Mymuduo
