import WebServer.Mymuduo.EpollPoller

universe u

namespace WebServer.Mymuduo

open WebServer.Lib

namespace EpollPoller

variable {ι : Type u}

/-- A channel without events is not watched, and does not say that it is. -/
def DisabledOut (s : EpollPoller ι) : Prop :=
  ∀ i, (s.channel i).isNoneEvent = true →
    s.interest (s.fd i) = none ∧ (s.channel i).index ≠ .kAdded

/-- No update finds a channel without events that is not in the interest set: `updateChannel`
adds what is new or deleted without a look at its events. -/
def DisablesAdded (s : EpollPoller ι) : ι × Op → Prop
  | (_, .remove) => True
  | (i, op) =>
    eventsOf (s.channel i).events op = Channel.kNoneEvent → (s.channel i).index = .kAdded

instance (s : EpollPoller ι) : DecidablePred (DisablesAdded s) := fun (_, op) => by
  cases op <;> simp only [DisablesAdded] <;> infer_instance

variable [DecidableEq ι] {s t : EpollPoller ι}

theorem changes_of_step (h : s.Bookkeeping) {i : ι} {op : Op} (ht : step s (i, op) = some t) :
    (op = .remove ∧ Changes s i ⟨(s.channel i).events, .kNew⟩ t) ∨
      op ≠ .remove ∧ Changes s i ⟨eventsOf (s.channel i).events op,
        indexAfter (eventsOf (s.channel i).events op) (s.channel i).index⟩ t := by
  cases op with
  | remove =>
    obtain ⟨-, hremoved⟩ := Option.ite_none_right_eq_some.mp ht
    obtain rfl := Option.some.inj hremoved
    exact .inl ⟨rfl, h.removeChannel i⟩
  | _ =>
    obtain ⟨m, hm, hchanges⟩ := h.updateChannel i (eventsOf (s.channel i).events _)
    obtain rfl : m = t := Option.some.inj (hm.symm.trans ht)
    exact .inr ⟨nofun, hchanges⟩

theorem bookkeeping_step (h : s.Bookkeeping) {l : ι × Op} (ht : step s l = some t) :
    t.Bookkeeping := by
  obtain ⟨i, op⟩ := l
  rcases changes_of_step h ht with ⟨-, hchanges⟩ | ⟨-, hchanges⟩ <;> exact hchanges.bookkeeping

omit [DecidableEq ι] in
theorem Bookkeeping.disabledOut_iff (h : s.Bookkeeping) :
    s.DisabledOut ↔ ∀ i, (s.channel i).isNoneEvent = true → (s.channel i).index ≠ .kAdded := by
  refine forall_congr' fun i => imp_congr_right fun _ => ⟨And.right, fun hi => ⟨?_, hi⟩⟩
  rw [h.interest i, if_neg hi]

theorem Changes.disabledOut_iff {i : ι} {c : PolledChannel} (h : Changes s i c t)
    (hbook : s.Bookkeeping) (hs : s.DisabledOut) :
    t.DisabledOut ↔ (c.isNoneEvent = true → c.index ≠ .kAdded) := by
  rw [h.bookkeeping.disabledOut_iff]
  rw [hbook.disabledOut_iff] at hs
  rw [h.channel]
  constructor
  · intro hall
    simpa using hall i
  · intro hc j
    by_cases hj : j = i
    · subst hj
      simpa using hc
    · rw [Function.update_of_ne hj]
      exact hs j

theorem disabledOut_step_iff (h : s.Bookkeeping) (hs : s.DisabledOut) {l : ι × Op}
    (ht : step s l = some t) : t.DisabledOut ↔ s.DisablesAdded l := by
  obtain ⟨i, op⟩ := l
  rcases changes_of_step h ht with ⟨rfl, hchanges⟩ | ⟨hop, hchanges⟩
  · rw [hchanges.disabledOut_iff h hs]
    exact ⟨fun _ => trivial, fun _ _ => nofun⟩
  · have hadds : s.DisablesAdded (i, op) ↔ (eventsOf (s.channel i).events op = Channel.kNoneEvent →
        (s.channel i).index = .kAdded) := by
      cases op with
      | remove => exact absurd rfl hop
      | _ => exact Iff.rfl
    rw [hchanges.disabledOut_iff h hs, hadds]
    -- what is new or deleted becomes added, what is added and without events becomes deleted
    cases (s.channel i).index <;> simp [indexAfter, PolledChannel.isNoneEvent]

/-- In every run a channel without events is out of the interest set, and not marked as added,
exactly if no update is made without events for a channel that is new or deleted. -/
theorem disabledOut_iff_along (fd : ι ↪ Int) {ls : List (ι × Op)}
    (h : run step (new fd) ls = some s) :
    (∀ js t, js <+: ls → run step (new fd) js = some t → t.DisabledOut) ↔
      Along step DisablesAdded (new fd) ls :=
  forall_prefix_iff_along (fun _ _ _ hI ht => bookkeeping_step hI ht)
    (fun _ _ _ hI hJ ht => disabledOut_step_iff hI hJ ht) (bookkeeping_new fd)
    (fun _ _ => ⟨rfl, nofun⟩) h

def enabledOnce : List (Bool × Op) :=
  [(true, .enableReading), (true, .disableAll), (true, .remove)]

theorem disabledOut_iff_along_added : ∃ s, run step (new twoFds) enabledOnce = some s ∧
    ∀ js t, js <+: enabledOnce → run step (new twoFds) js = some t → t.DisabledOut :=
  ⟨_, rfl, (disabledOut_iff_along twoFds rfl).mpr (by decide)⟩

/-- `disableAll` adds a channel that was never enabled, with an empty mask. -/
theorem not_disabledOut_disableAll :
    ∃ s, run step (new twoFds) [(true, .disableAll)] = some s ∧
      (s.channel true).isNoneEvent = true ∧ (s.channel true).index = .kAdded ∧
      s.interest (s.fd true) = some 0 ∧ ¬s.DisabledOut :=
  ⟨_, rfl, rfl, rfl, rfl, fun h => (h true rfl).2 rfl⟩

end EpollPoller

end WebServer.Mymuduo
