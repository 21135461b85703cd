import WebServer.Mymuduo.LoopThread

universe u

namespace WebServer.Mymuduo.LoopThread

open WebServer.Lib

variable {Functor : Type u} {r s t : LoopThread Functor} {l : Label Functor}

/-- The request stands, and the loop thread does not sleep over it. -/
structure Quitting (s : LoopThread Functor) : Prop where
  quit : s.quit = true
  awake : s.phase = .poll → 0 < s.loop.wakeupFd

theorem Quitting.of_phase_ne (hquit : s.quit = true) (hphase : s.phase ≠ .poll) : s.Quitting :=
  ⟨hquit, fun hpoll => absurd hpoll hphase⟩

theorem Quitting.next (h : s.Quitting) (hen : s.enabled l = true) (hl : l ≠ .enterLoop) :
    (s.next l).Quitting := by
  cases l with
  | enterLoop => exact absurd rfl hl
  | enterPoll => simp [enabled, h.quit] at hen
  | handleEvent =>
    simp only [LoopThread.next]
    split
    · exact .of_phase_ne h.quit (by simp)
    · exact .of_phase_ne h.quit (by simp)
    · exact h
  | nextFunctor =>
    simp only [LoopThread.next]
    split
    · next f m hnext =>
      exact ⟨h.quit, EventLoop.wakeupFd_nextFunctor hnext ▸ h.awake⟩
    · exact h
  | leaveLoop | leavePoll _ | swapFunctors | endFunctors =>
    exact .of_phase_ne h.quit (by simp [LoopThread.next])
  | queueInLoop _ | runInLoop _ | callQueueInLoop _ => exact ⟨h.quit, h.awake⟩
  | wakeup | callWakeup _ | quitWakeup => exact ⟨h.quit, fun _ => Nat.succ_pos _⟩
  | quit | callQuit => exact ⟨rfl, h.awake⟩

theorem not_quitting_enterLoop (s : LoopThread Functor) : ¬ (s.next .enterLoop).Quitting :=
  fun h => absurd h.quit (by simp [next])

theorem Quitting.step_iff (h : s.Quitting) (hstep : step s l = some t) :
    t.Quitting ↔ l ≠ .enterLoop := by
  obtain ⟨hen, rfl⟩ := step_eq_some.mp hstep
  refine ⟨fun hq => ?_, h.next hen⟩
  rintro rfl
  exact s.not_quitting_enterLoop hq

theorem quitting_quitWakeup (h : step r .quitWakeup = some s) : s.Quitting ↔ r.quit = true := by
  obtain ⟨-, rfl⟩ := step_eq_some.mp h
  exact ⟨Quitting.quit, fun hquit => ⟨hquit, fun _ => Nat.succ_pos _⟩⟩

/-- A `quit` that has returned is kept by all that follows exactly if the request was still there
when it returned and `loop()` does not begin after it. -/
theorem quitting_iff_notEntered {ls : List (Label Functor)}
    (hreturn : step r .quitWakeup = some s) (h : run step s ls = some t) :
    (∀ js u, js <+: ls → run step s js = some u → u.Quitting) ↔
      r.quit = true ∧ .enterLoop ∉ ls := by
  by_cases hquit : r.quit = true
  · have hs := (quitting_quitWakeup hreturn).mpr hquit
    rw [forall_prefix_iff_along (I := fun _ => True) (P := fun _ l => l ≠ .enterLoop)
      (fun _ _ _ _ _ => trivial) (fun _ _ _ _ hJ hstep => hJ.step_iff hstep) trivial hs h,
      along_iff_forall (Q := fun l => l ≠ .enterLoop) h]
    exact ⟨fun hall => ⟨hquit, fun hmem => hall _ hmem rfl⟩,
      fun hentered l hl heq => hentered.2 (heq ▸ hl)⟩
  · refine iff_of_false (fun hall => ?_) fun hentered => hquit hentered.1
    exact hquit ((quitting_quitWakeup hreturn).mp (hall [] s List.nil_prefix rfl))

def quitInPoll : List (Label Nat) := [.enterLoop, .enterPoll, .callQuit]

theorem quitting_quitInPoll : ∃ r s t, run step new quitInPoll = some r ∧
    step r .quitWakeup = some s ∧
    run step s [.leavePoll [.wakeupChannel], .handleEvent, .swapFunctors, .endFunctors] = some t ∧
    ∀ js u, js <+: [.leavePoll [.wakeupChannel], .handleEvent, .swapFunctors, .endFunctors] →
      run step s js = some u → u.Quitting := by
  have hrun : (run step new quitInPoll).any (fun r => r.quit &&
      (step r .quitWakeup).any fun s => (run step s [.leavePoll [.wakeupChannel], .handleEvent,
        .swapFunctors, .endFunctors]).isSome) = true := by decide
  obtain ⟨r, hr, hrest⟩ := (Option.any_eq_true _ _).mp hrun
  obtain ⟨hquit, hstep⟩ := (Bool.and_eq_true _ _).mp hrest
  obtain ⟨s, hs, hsome⟩ := (Option.any_eq_true _ _).mp hstep
  obtain ⟨t, ht⟩ := Option.isSome_iff_exists.mp hsome
  exact ⟨r, s, t, hr, hs, ht, (quitting_iff_notEntered hs ht).mpr ⟨hquit, by decide⟩⟩

def enterAfterQuit : List (Label Nat) :=
  [.enterLoop, .enterPoll, .leavePoll [.wakeupChannel], .handleEvent, .swapFunctors,
    .endFunctors, .enterPoll]

theorem not_quitting_enterAfterQuit : ∃ r s t, run step new [.callQuit] = some r ∧
    step r .quitWakeup = some s ∧ run step s enterAfterQuit = some t ∧
    (t.quits = 0 ∧ t.quit = false ∧ t.phase = .poll ∧ t.loop.wakeupFd = 0) ∧
    ¬ ∀ js u, js <+: enterAfterQuit → run step s js = some u → u.Quitting := by
  have hrun : (run step new ([.callQuit] : List (Label Nat))).any (fun r =>
      (step r .quitWakeup).any fun s => (run step s enterAfterQuit).any fun t =>
        t.quits = 0 ∧ t.quit = false ∧ t.phase = .poll ∧ t.loop.wakeupFd = 0) = true := by decide
  obtain ⟨r, hr, hstep⟩ := (Option.any_eq_true _ _).mp hrun
  obtain ⟨s, hs, hentered⟩ := (Option.any_eq_true _ _).mp hstep
  obtain ⟨t, ht, hlost⟩ := (Option.any_eq_true _ _).mp hentered
  have hlost := of_decide_eq_true hlost
  refine ⟨r, s, t, hr, hs, ht, hlost, fun hall => ?_⟩
  have hquit := (hall enterAfterQuit t (List.prefix_refl _) ht).quit
  exact absurd (hlost.2.1.symm.trans hquit) (by decide)

end WebServer.Mymuduo.LoopThread
