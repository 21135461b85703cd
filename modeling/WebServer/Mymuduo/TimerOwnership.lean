import WebServer.Mymuduo.TimerQueue

/-! Every timer is in one place: still to be added, in `timers_`, or held by `handleRead`. -/

namespace WebServer.Mymuduo

open WebServer.Lib

namespace TimerQueue

variable {q : TimerQueue} {p : TimerPtr} {now : Timestamp}

@[simp] theorem timer_setTimer_self (q : TimerQueue) (p : TimerPtr) (timer : Timer) :
    (q.setTimer p timer).timer p = timer := if_pos rfl

theorem timer_setTimer_of_ne {p' : TimerPtr} (q : TimerQueue) (timer : Timer) (h : p' ≠ p) :
    (q.setTimer p timer).timer p' = q.timer p' := if_neg h

theorem activeTimer_restart (q : TimerQueue) (p p' : TimerPtr) (now : Timestamp) :
    (q.setTimer p ((q.timer p).restart now)).activeTimer p' = q.activeTimer p' := by
  by_cases h : p' = p
  · subst h
    simp [activeTimer]
  · simp only [activeTimer, timer_setTimer_of_ne q _ h]

theorem activeTimer_setTimer_of_ne {p' : TimerPtr} (q : TimerQueue) (timer : Timer) (h : p' ≠ p) :
    (q.setTimer p timer).activeTimer p' = q.activeTimer p' := by
  simp only [activeTimer, timer_setTimer_of_ne q timer h]

theorem addTimerInLoop_eq (q : TimerQueue) (p : TimerPtr) (now : Timestamp) :
    q.addTimerInLoop p now = { q with
      timers := q.timers.insert ⟨(q.timer p).expiration, p⟩
      timerfd :=
        if (q.insert p).1 then resetTimerfd (q.timer p).expiration now else q.timerfd } := by
  simp only [addTimerInLoop]
  split <;> rfl

theorem cancelInLoop_eq (h : q.activeTimers = .empty) (timerId : ActiveTimer) :
    q.cancelInLoop timerId = { q with
      cancelingTimers :=
        if q.callingExpiredTimers then q.cancelingTimers.insert timerId
        else q.cancelingTimers } := by
  rw [cancelInLoop, if_neg (h ▸ OrdSet.notMem_empty timerId)]
  split <;> rfl

theorem lt_sentry_iff {e : Entry} : e < sentry now ↔ e.when < now := by
  simp [Entry.lt_iff, sentry, timerEntryPtr]

theorem foldl_erase_empty (l : List Entry) (f : Entry → ActiveTimer) :
    l.foldl (fun s it => s.erase (f it)) (OrdSet.empty : OrdSet ActiveTimer) = .empty := by
  induction l with
  | nil => rfl
  | cons it l ih => exact ih

theorem beginRead_eq (h : q.activeTimers = .empty) (now : Timestamp) :
    q.beginRead now = (q.timers.below (sentry now), { q with
      timers := q.timers.eraseBelow (sentry now)
      callingExpiredTimers := true
      cancelingTimers := .empty
      timerfd := readTimerfd q.timerfd }) := by
  simp only [beginRead, getExpired, h, foldl_erase_empty]

theorem restartEntry_cases (q : TimerQueue) (now : Timestamp) (it : Entry) :
    (¬ ((q.timer it.timer).repeats = true ∧ q.activeTimer it.timer ∉ q.cancelingTimers) ∧
      q.restartEntry now it = q) ∨
    ((q.timer it.timer).repeats = true ∧ q.activeTimer it.timer ∉ q.cancelingTimers ∧
      q.restartEntry now it = { q.setTimer it.timer ((q.timer it.timer).restart now) with
        timers := q.timers.insert ⟨addTime now (q.timer it.timer).interval, it.timer⟩ }) := by
  by_cases h : (q.timer it.timer).repeats = true ∧ q.activeTimer it.timer ∉ q.cancelingTimers
  · refine .inr ⟨h.1, h.2, ?_⟩
    have hrestart : ((q.timer it.timer).restart now).expiration =
        addTime now (q.timer it.timer).interval := if_pos h.1
    rw [restartEntry, if_pos (by simpa using h), insert, timer_setTimer_self, hrestart]
    rfl
  · exact .inl ⟨h, by rw [restartEntry, if_neg (by simpa using h)]⟩

@[simp] theorem activeTimer_restartEntry (q : TimerQueue) (now : Timestamp) (it : Entry)
    (p : TimerPtr) : (q.restartEntry now it).activeTimer p = q.activeTimer p := by
  rcases restartEntry_cases q now it with ⟨-, heq⟩ | ⟨-, -, heq⟩ <;> rw [heq]
  exact activeTimer_restart q it.timer p now

theorem resetEntry_snd (q : TimerQueue) (nextExpire : Timestamp) (it : Entry)
    (reading : Timestamp) : (q.resetEntry now nextExpire it reading).2 =
      { q.restartEntry now it with
        timerfd := (q.resetEntry now nextExpire it reading).2.timerfd } := by
  simp only [resetEntry]
  split <;> split <;> rfl

end TimerQueue

namespace TimerLoop

open TimerQueue

/-- Where the timers are that may still run. -/
def places (s : TimerLoop) : List TimerPtr :=
  s.queue.timers.elems.map (·.timer) ++ s.handleRead.held.map (·.timer) ++ s.adding

/-- A timer is in one place, with the sequence number of its id. -/
structure Owned (s : TimerLoop) : Prop where
  active : s.queue.activeTimers = .empty
  calling : s.queue.callingExpiredTimers = s.handleRead.calling
  ahead : ∀ now expired ahead, s.handleRead = .callbacks now expired ahead → ahead ⊆ expired
  nodup : s.places.Nodup
  linked : ∀ e ∈ s.queue.timers, (s.queue.timer e.timer).expiration = e.when
  ids : ∀ p ∈ s.places, s.queue.activeTimer p ∈ s.timerIds
  sequence : ∀ a ∈ s.timerIds, a.sequence ≤ s.numCreated
  unique : ∀ a ∈ s.timerIds, ∀ b ∈ s.timerIds, a.sequence = b.sequence → a = b

variable {s t : TimerLoop} {l : Label}

theorem notMem_places {p : TimerPtr} (hfree : p ∉ s.live) : p ∉ s.places := fun hp =>
  hfree (List.mem_append_left _ (List.mem_append_left _ hp))

theorem owned_new : new.Owned where
  active := rfl
  calling := rfl
  ahead := nofun
  nodup := .nil
  linked _ := nofun
  ids _ := nofun
  sequence _ := nofun
  unique _ := nofun

theorem perm_map_insert {timers : OrdSet Entry} {e : Entry}
    (h : e.timer ∉ timers.elems.map (·.timer)) :
    ((timers.insert e).elems.map (·.timer)).Perm (e.timer :: timers.elems.map (·.timer)) :=
  (OrdSet.perm_insert fun he => h (List.mem_map_of_mem he)).map _

theorem mem_places_of_mem {e : Entry} (h : e ∈ s.queue.timers) : e.timer ∈ s.places :=
  List.mem_append_left _ (List.mem_append_left _ (List.mem_map_of_mem h))

theorem Owned.addTimer (h : s.Owned) {p : TimerPtr} {when : Timestamp} {interval : Interval}
    (ht : step s (.addTimer p when interval) = some t) : t.Owned := by
  cases steps_of_step ht with
  | addTimer _ hfree =>
    have hnew := notMem_places hfree
    have hplaces : places { s with
        queue := s.queue.setTimer p ⟨when, interval, s.numCreated + 1⟩
        adding := s.adding ++ [p]
        numCreated := s.numCreated + 1
        timerIds := s.timerIds ++ [⟨p, s.numCreated + 1⟩] } = s.places ++ [p] :=
      (List.append_assoc _ _ _).symm
    refine ⟨h.active, h.calling, h.ahead, ?_, ?_, ?_, ?_, ?_⟩
    · rw [hplaces]
      refine List.nodup_append.mpr ⟨h.nodup, List.nodup_singleton p, fun p' hp' r hr => ?_⟩
      obtain rfl := List.mem_singleton.mp hr
      exact ne_of_mem_of_not_mem hp' hnew
    · intro e he
      rw [timer_setTimer_of_ne _ _ (ne_of_mem_of_not_mem (mem_places_of_mem (s := s) he) hnew)]
      exact h.linked e he
    · intro p' hp'
      rw [hplaces] at hp'
      rcases List.mem_append.mp hp' with hp' | hp'
      · refine List.mem_append_left _ ?_
        simp only [activeTimer]
        rw [timer_setTimer_of_ne _ _ (ne_of_mem_of_not_mem hp' hnew)]
        exact h.ids p' hp'
      · obtain rfl := List.mem_singleton.mp hp'
        simp [activeTimer]
    · intro a ha
      rcases List.mem_append.mp ha with ha | ha
      · exact Nat.le_succ_of_le (h.sequence a ha)
      · obtain rfl := List.mem_singleton.mp ha
        exact le_rfl
    · intro a ha b hb hab
      rcases List.mem_append.mp ha with ha | ha <;> rcases List.mem_append.mp hb with hb | hb
      · exact h.unique a ha b hb hab
      · obtain rfl := List.mem_singleton.mp hb
        exact absurd (hab ▸ h.sequence a ha) (Nat.not_succ_le_self _)
      · obtain rfl := List.mem_singleton.mp ha
        exact absurd (hab ▸ h.sequence b hb) (Nat.not_succ_le_self _)
      · exact (List.mem_singleton.mp ha).trans (List.mem_singleton.mp hb).symm

theorem Owned.addTimerInLoop (h : s.Owned) {p : TimerPtr} {now : Timestamp}
    (ht : step s (.addTimerInLoop p now) = some t) : t.Owned := by
  cases steps_of_step ht with
  | addTimerInLoop _ hp =>
    have hnew : p ∉ s.queue.timers.elems.map (·.timer) := fun hmem =>
      (List.nodup_append.mp h.nodup).2.2 p (List.mem_append_left _ hmem) p hp rfl
    have hperm : (places { s with
        queue := s.queue.addTimerInLoop p now, adding := s.adding.erase p }).Perm s.places := by
      rw [places, addTimerInLoop_eq]
      refine (((perm_map_insert hnew).append_right _).append_right _).trans ?_
      refine List.perm_middle.symm.trans ?_
      exact (List.perm_cons_erase hp).symm.append_left _
    refine ⟨?_, ?_, h.ahead, hperm.nodup_iff.mpr h.nodup, ?_, ?_, h.sequence, h.unique⟩
    · rw [addTimerInLoop_eq]
      exact h.active
    · rw [addTimerInLoop_eq]
      exact h.calling
    · rw [addTimerInLoop_eq]
      intro e he
      rcases OrdSet.mem_insert.mp he with rfl | he
      · rfl
      · exact h.linked e he
    · intro p' hp'
      rw [addTimerInLoop_eq]
      exact h.ids p' (hperm.mem_iff.mp hp')

theorem Owned.cancelInLoop (h : s.Owned) {timerId : ActiveTimer}
    (ht : step s (.cancelInLoop timerId) = some t) : t.Owned := by
  cases steps_of_step ht with
  | cancelInLoop _ _ =>
    rw [cancelInLoop_eq h.active]
    exact ⟨h.active, h.calling, h.ahead, h.nodup, h.linked, h.ids, h.sequence, h.unique⟩

theorem Owned.handleRead (h : s.Owned) {now : Timestamp}
    (ht : step s (.handleRead now) = some t) : t.Owned := by
  cases steps_of_step ht with
  | handleRead hno =>
    rw [beginRead_eq h.active]
    have hperm : (places { s with
        queue := { s.queue with
          timers := s.queue.timers.eraseBelow (sentry now)
          callingExpiredTimers := true
          cancelingTimers := .empty
          timerfd := readTimerfd s.queue.timerfd }
        handleRead := .callbacks now (s.queue.timers.below (sentry now))
          (s.queue.timers.below (sentry now))
        reads := s.reads + 1 }).Perm s.places := by
      simp only [places, hno, HandleRead.held, List.map_nil, List.append_nil]
      rw [OrdSet.elems_eq_below_append s.queue.timers (sentry now), List.map_append]
      exact List.perm_append_comm.append_right _
    refine ⟨h.active, rfl, ?_, hperm.nodup_iff.mpr h.nodup,
      ?_, ?_, h.sequence, h.unique⟩
    · intro now' expired ahead heq
      cases heq
      exact List.Subset.refl _
    · intro e he
      exact h.linked e (OrdSet.mem_eraseBelow.mp he).1
    · intro p hp
      exact h.ids p (hperm.mem_iff.mp hp)

theorem Owned.notMem_of_reset (h : s.Owned) {now nextExpire : Timestamp} {it : Entry}
    {ahead : List Entry} (hreset : s.handleRead = .reset now (it :: ahead) nextExpire) :
    it.timer ∉ s.queue.timers.elems.map (·.timer) ∧ it.timer ∉ ahead.map (·.timer) ∧
      it.timer ∉ s.adding := by
  have hnodup := h.nodup
  simp only [places, hreset, HandleRead.held, List.map_cons, List.nodup_append, List.mem_append,
    List.nodup_cons] at hnodup
  obtain ⟨⟨-, ⟨hahead, -⟩, htimers⟩, -, hadding⟩ := hnodup
  exact ⟨fun hmem => htimers _ hmem _ List.mem_cons_self rfl, hahead,
    fun hmem => hadding _ (.inr List.mem_cons_self) _ hmem rfl⟩

theorem Owned.restartEntry (h : s.Owned) {now nextExpire : Timestamp} {it : Entry}
    {ahead : List Entry} (hreset : s.handleRead = .reset now (it :: ahead) nextExpire)
    (nextExpire' : Timestamp) (timerfd : Timerfd) :
    Owned { s with
      queue := { s.queue.restartEntry now it with timerfd := timerfd }
      handleRead := .reset now ahead nextExpire' } := by
  have hplaces : s.places = s.queue.timers.elems.map (·.timer) ++
      it.timer :: (ahead.map (·.timer) ++ s.adding) := by
    simp only [places, hreset, HandleRead.held, List.map_cons, List.append_assoc,
      List.cons_append]
  obtain ⟨hnew, -, -⟩ := h.notMem_of_reset hreset
  have hcalling : s.queue.callingExpiredTimers = false := by
    rw [h.calling, hreset]
    rfl
  rcases restartEntry_cases s.queue now it with ⟨-, heq⟩ | ⟨hrepeats, -, heq⟩
  · rw [heq]
    have hsub : (s.queue.timers.elems.map (·.timer) ++ ahead.map (·.timer) ++ s.adding).Sublist
        s.places := by
      rw [hplaces, List.append_assoc]
      exact (List.Sublist.refl _).append (List.sublist_cons_self _ _)
    exact ⟨h.active, hcalling, nofun, h.nodup.sublist hsub, h.linked,
      fun p hp => h.ids p (hsub.subset hp), h.sequence, h.unique⟩
  · rw [heq]
    have hperm (when : Timestamp) : ((s.queue.timers.insert ⟨when, it.timer⟩).elems.map (·.timer) ++
        ahead.map (·.timer) ++ s.adding).Perm s.places := by
      rw [hplaces, List.append_assoc]
      exact ((perm_map_insert (e := ⟨when, it.timer⟩) hnew).append_right _).trans
        List.perm_middle.symm
    refine ⟨h.active, hcalling, nofun, (hperm _).nodup_iff.mpr h.nodup, ?_, ?_, h.sequence,
      h.unique⟩
    · intro e he
      rcases OrdSet.mem_insert.mp he with rfl | he
      · simp [Timer.restart, hrepeats]
      · have hne := ne_of_mem_of_not_mem (List.mem_map_of_mem he) hnew
        simp only [timer_setTimer_of_ne _ _ hne]
        exact h.linked e he
    · intro p hp
      exact (activeTimer_restart _ _ p _).symm ▸ h.ids p ((hperm _).mem_iff.mp hp)

theorem Owned.setHandleRead (h : s.Owned) {r : HandleRead} (hheld : r.held = s.handleRead.held)
    {calling : Bool} (hcalling : calling = r.calling)
    (hahead : ∀ now expired ahead, r = .callbacks now expired ahead → ahead ⊆ expired)
    (started : List (Nat × Nat)) : Owned { s with
      queue := { s.queue with callingExpiredTimers := calling }
      handleRead := r, started := started } := by
  have hplaces : places { s with
      queue := { s.queue with callingExpiredTimers := calling }
      handleRead := r, started := started } = s.places := by simp only [places, hheld]
  exact ⟨h.active, hcalling, hahead, hplaces.symm ▸ h.nodup, h.linked, hplaces.symm ▸ h.ids,
    h.sequence, h.unique⟩

theorem Owned.step (h : s.Owned) (ht : step s l = some t) : t.Owned := by
  cases steps_of_step ht with
  | addTimer _ _ => exact h.addTimer ht
  | otherTimer =>
    exact ⟨h.active, h.calling, h.ahead, h.nodup, h.linked, h.ids,
      fun a ha => Nat.le_succ_of_le (h.sequence a ha), h.unique⟩
  | addTimerInLoop _ _ => exact h.addTimerInLoop ht
  | cancelInLoop _ _ => exact h.cancelInLoop ht
  | fire _ =>
    exact ⟨h.active, h.calling, h.ahead, h.nodup, h.linked, h.ids, h.sequence, h.unique⟩
  | handleRead _ => exact h.handleRead ht
  | runTimer hcall =>
    refine h.setHandleRead (by rw [hcall]; rfl) (h.calling.trans (by rw [hcall]; rfl)) ?_ _
    intro now' expired' ahead' heq
    cases heq
    exact fun e he => h.ahead _ _ _ hcall (List.mem_cons_of_mem _ he)
  | @endCallbacks now expired hcall =>
    refine h.setHandleRead (r := .reset now expired .invalid) (by rw [hcall]; rfl) rfl ?_ _
    exact nofun
  | resetEntry hreset =>
    rw [resetEntry_snd]
    exact h.restartEntry hreset _ _
  | endReset hreset =>
    refine h.setHandleRead (r := .no) (by rw [hreset]; rfl)
      (h.calling.trans (by rw [hreset]; rfl)) ?_ _
    exact nofun

theorem timer_of_place (h : s.Owned) {p : TimerPtr} (hp : p ∈ s.places)
    (hreset : ∀ now it ahead nextExpire, s.handleRead = .reset now (it :: ahead) nextExpire →
      p ≠ it.timer) (ht : TimerLoop.step s l = some t) :
    t.queue.timer p = s.queue.timer p := by
  cases steps_of_step ht with
  | addTimer _ hfree =>
    exact timer_setTimer_of_ne _ _ (ne_of_mem_of_not_mem hp (notMem_places hfree))
  | addTimerInLoop _ _ => rw [addTimerInLoop_eq]
  | cancelInLoop _ _ => rw [cancelInLoop_eq h.active]
  | handleRead _ => rw [beginRead_eq h.active]
  | @resetEntry now it ahead nextExpire reading hread =>
    rw [resetEntry_snd]
    rcases restartEntry_cases s.queue now it with ⟨-, heq⟩ | ⟨-, -, heq⟩
    · rw [heq]
    · rw [heq]
      exact timer_setTimer_of_ne _ _ (hreset _ _ _ _ hread)
  | otherTimer | fire _ | runTimer _ | endCallbacks _ | endReset _ => rfl

theorem timer_of_adding (h : s.Owned) {p : TimerPtr} (hp : p ∈ s.adding)
    (ht : TimerLoop.step s l = some t) : t.queue.timer p = s.queue.timer p := by
  refine timer_of_place h (List.mem_append_right _ hp) ?_ ht
  rintro now it ahead nextExpire hread rfl
  exact (h.notMem_of_reset hread).2.2 hp

end TimerLoop

end WebServer.Mymuduo
