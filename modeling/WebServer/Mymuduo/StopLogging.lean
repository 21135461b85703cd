import WebServer.Mymuduo.LogBuffers

namespace WebServer.Mymuduo.AsyncLogging

open WebServer.Lib

def swappedOut (s : AsyncLogging) : Bytes :=
  (s.batches.map fun b => b.written ++ b.erased).flatten.flatten

/-- The file has the first lines, those due among them, and nothing else. -/
def Flushed (s : AsyncLogging) : Prop :=
  ∃ n, s.due.length ≤ n ∧ s.output.flushed = (s.lines.take n).flatten

/-- No iteration has swapped out more than 25 buffers. -/
def NoBacklog (s : AsyncLogging) : Prop :=
  ∀ b ∈ s.batches, b.written.length + b.erased.length ≤ 25

instance (s : AsyncLogging) : Decidable s.NoBacklog :=
  inferInstanceAs (Decidable (∀ b ∈ s.batches, _))

/-- `threadFunc` has seen `running_` and not yet swapped, or the lines due are swapped out. -/
def Collects (s : AsyncLogging) : Prop :=
  s.backEnd = .tested ∨ s.backEnd = .waiting ∨ s.due.flatten <+: s.swappedOut

instance (s : AsyncLogging) : Decidable s.Collects :=
  inferInstanceAs (Decidable (_ ∨ _ ∨ _))

structure Stopping (s : AsyncLogging) : Prop where
  due : s.due <+: s.lines
  started : s.stopping ≠ .no → s.backEnd ≠ .notStarted
  running : s.stopping = .stored → s.running = false
  exited : s.backEnd = .exited → s.output.flushed = s.output.passed

variable {s t u : AsyncLogging} {l : Label}

theorem stopping_new : new.Stopping := ⟨List.prefix_rfl, absurd rfl, nofun, nofun⟩

theorem append_frame {line : Bytes} (h : s.append line = some t) :
    t.due = s.due ∧ t.lines = s.lines ∧ t.stopping = s.stopping ∧ t.running = s.running ∧
      t.backEnd = s.backEnd ∧ t.output = s.output ∧ t.swappedOut = s.swappedOut := by
  obtain ⟨b, -, rfl⟩ := Option.map_eq_some_iff.mp h
  split <;> exact ⟨rfl, rfl, rfl, rfl, rfl, rfl, rfl⟩

theorem recycle_frame (h : s.recycle = some t) :
    t.due = s.due ∧ t.lines = s.lines ∧ t.stopping = s.stopping ∧ t.running = s.running ∧
      t.swappedOut = s.swappedOut := by
  simp only [recycle, Option.bind_eq_some_iff, Option.map_eq_some_iff] at h
  obtain ⟨⟨b1, bs⟩, -, ⟨b2, bs'⟩, -, rfl⟩ := h
  exact ⟨rfl, rfl, rfl, rfl, rfl⟩

theorem Stopping.step (h : s.Stopping) (ht : step s l = some t) : t.Stopping := by
  cases steps_of_step ht with
  | append _ hu =>
    obtain ⟨hdue, hlines, hstopping, hrunning, hbackEnd, houtput, -⟩ := append_frame hu
    refine ⟨?_, ?_, ?_, ?_⟩
    · simp only [hdue, hlines]
      exact h.due.trans (List.prefix_append _ _)
    · simpa only [hstopping, hbackEnd] using h.started
    · simpa only [hstopping, hrunning] using h.running
    · simpa only [hbackEnd, houtput] using h.exited
  | start hb =>
    refine ⟨h.due, fun _ => by simp, fun hstored => ?_, by simp⟩
    exact absurd hb (h.started (by simp [show s.stopping = .stored from hstored]))
  | callStop hb _ => exact ⟨List.prefix_rfl, fun _ => hb, by simp, h.exited⟩
  | storeStop hcalled =>
    exact ⟨h.due, fun _ => h.started (by simp [hcalled]), fun _ => rfl, h.exited⟩
  | join _ _ => exact ⟨h.due, absurd rfl, by simp, by simp⟩
  | test _ _ => exact ⟨h.due, fun _ => by simp, h.running, by simp⟩
  | exit _ _ => exact ⟨h.due, fun _ => by simp, h.running, fun _ => rfl⟩
  | wait _ _ => exact ⟨h.due, fun _ => by simp, h.running, by simp⟩
  | swap _ hu =>
    obtain ⟨b, -, rfl⟩ := Option.map_eq_some_iff.mp hu
    exact ⟨h.due, fun _ => by simp, h.running, by simp⟩
  | erase _ =>
    simp only [AsyncLogging.erase]
    split <;> exact ⟨h.due, fun _ => by simp, h.running, by simp⟩
  | write _ _ => exact ⟨h.due, fun _ => by simp, h.running, by simp⟩
  | recycle _ hu =>
    obtain ⟨hdue, hlines, hstopping, hrunning, -⟩ := recycle_frame hu
    refine ⟨?_, fun _ => by simp, ?_, by simp⟩
    · simpa only [hdue, hlines] using h.due
    · simpa only [hstopping, hrunning] using h.running

theorem collects_congr (hdue : t.due = s.due) (hout : t.swappedOut = s.swappedOut)
    (hb : (t.backEnd = .tested ∨ t.backEnd = .waiting) ↔
      (s.backEnd = .tested ∨ s.backEnd = .waiting)) : t.Collects ↔ s.Collects := by
  simp only [Collects, ← or_assoc, hb, hdue, hout]

theorem erase_frame (s : AsyncLogging) :
    s.erase.due = s.due ∧ s.erase.stopping = s.stopping := by
  simp only [erase]
  split <;> exact ⟨rfl, rfl⟩

theorem swappedOut_erase (h : s.batch.erased = []) : s.erase.swappedOut = s.swappedOut := by
  simp only [erase]
  split
  · simp [swappedOut, batches, h]
  · rfl

theorem swappedOut_swap (h : s.Circulation) (hb : s.backEnd = .waiting ∨ s.backEnd = .tested)
    (ht : s.swap = some t) :
    swappedOut { t with batch := ⟨t.buffersToWrite.map (·.data), []⟩, backEnd := .swapped } =
      s.lines.flatten := by
  obtain ⟨hidle, hspares⟩ : s.Idle ∧ s.Spares := by
    rcases hb with hb | hb <;> simpa only [Back, hb] using h.back
  obtain ⟨b, hcurrent, rfl⟩ := Option.map_eq_some_iff.mp ht
  rw [← h.lines.flatten, contents_of_current hcurrent]
  simp [swappedOut, batches, hidle.batch]

theorem collects_step (h : s.Circulation) (hstopping : s.Stopping) (hstored : s.stopping = .stored)
    (hl : l ≠ .join) (ht : step s l = some t) :
    t.stopping = .stored ∧ (t.Collects ↔ s.Collects) := by
  have hrunning := hstopping.running hstored
  cases steps_of_step ht with
  | append _ hu =>
    obtain ⟨hdue, -, hstop, -, hbackEnd, -, hout⟩ := append_frame hu
    exact ⟨hstop.trans hstored, collects_congr hdue hout (by simp only [hbackEnd])⟩
  | start hb => exact absurd hb (hstopping.started (by simp [hstored]))
  | callStop _ hno => simp [hstored] at hno
  | storeStop hcalled => simp [hstored] at hcalled
  | join _ _ => exact absurd rfl hl
  | test _ hr => simp [hrunning] at hr
  | exit hb _ => exact ⟨hstored, collects_congr rfl rfl (by simp [hb])⟩
  | wait hb _ => exact ⟨hstored, iff_of_true (.inr (.inl rfl)) (.inl hb)⟩
  | swap hphase hu =>
    have hout := swappedOut_swap h hphase hu
    obtain ⟨b, -, rfl⟩ := Option.map_eq_some_iff.mp hu
    refine ⟨hstored, iff_of_true (.inr (.inr ?_)) (hphase.symm.imp_right .inl)⟩
    rw [hout]
    exact hstopping.due.flatten
  | erase hb =>
    have herased : s.batch.erased = [] := by
      have hback := h.back
      simp only [Back, hb] at hback
      exact hback.2.1
    obtain ⟨hdue, hstop⟩ := erase_frame s
    exact ⟨hstop.trans hstored, collects_congr hdue (swappedOut_erase herased) (by simp [hb])⟩
  | write hb _ => exact ⟨hstored, collects_congr rfl rfl (by simp [hb])⟩
  | recycle hb hu =>
    obtain ⟨hdue, -, hstop, -, hout⟩ := recycle_frame hu
    refine ⟨hstop.trans hstored, collects_congr hdue ?_ (by simp [hb])⟩
    rw [← hout]
    simp [swappedOut, batches]

theorem WholeLines.exists_take {lines front back : List Bytes}
    (h : WholeLines lines (front ++ back)) : ∃ n, front.flatten = (lines.take n).flatten := by
  obtain ⟨groups, rfl, hcontents⟩ := h
  obtain ⟨swapped, rest, rfl, rfl, -⟩ := List.map_eq_append_iff.mp hcontents
  refine ⟨swapped.flatten.length, ?_⟩
  rw [List.flatten_append, List.take_left, List.flatten_flatten]

theorem flushed_iff_prefix (hdue : s.due <+: s.lines) {n : Nat}
    (hfile : s.output.flushed = (s.lines.take n).flatten) :
    s.Flushed ↔ s.due.flatten <+: s.output.flushed := by
  constructor
  · rintro ⟨m, hm, hflushed⟩
    rw [hflushed]
    rw [List.prefix_iff_eq_take.mp hdue]
    exact (List.take_prefix_take_left hm).flatten
  · intro hin
    rcases Nat.le_total s.due.length n with hn | hn
    · exact ⟨n, hn, hfile⟩
    · refine ⟨s.due.length, le_rfl, ?_⟩
      rw [← List.prefix_iff_eq_take.mp hdue]
      refine (hin.eq_of_length_le ?_).symm
      rw [hfile]
      refine List.IsPrefix.length_le (List.IsPrefix.flatten ?_)
      rw [List.prefix_iff_eq_take.mp hdue]
      exact List.take_prefix_take_left hn

theorem erased_of_noBacklog (h : s.Circulation) (hs : s.NoBacklog) {b : Batch}
    (hb : b ∈ s.batches) : b.erased = [] := by
  by_contra hne
  exact Nat.lt_irrefl _ (Nat.lt_of_lt_of_le (h.erased b hb hne).2 (hs b hb))

theorem flushed_of_exited (h : s.Circulation) (hstopping : s.Stopping) (hs : s.NoBacklog)
    (hb : s.backEnd = .exited) : s.output.flushed = s.swappedOut := by
  have hidle : s.Idle := by simpa only [Back, hb] using h.back
  have hwritten : s.batches.map (fun b => b.written ++ b.erased) = s.batches.map (·.written) := by
    refine List.map_congr_left fun b hb => ?_
    rw [erased_of_noBacklog h hs hb, List.append_nil]
  rw [hstopping.exited hb, hidle.passed, swappedOut, hwritten, batches_written, hidle.batch]
  exact (List.append_nil _).symm

/-- What `stop` has to do with the lines due is decided when `running_` becomes false. -/
theorem collects_run {ls : List Label} {t' : AsyncLogging} (h : s.Circulation) (hs : s.Stopping)
    (hstore : step s .storeStop = some t) (hjoin : Label.join ∉ ls)
    (hrun : run step t ls = some t') :
    t'.Circulation ∧ t'.Stopping ∧ (t'.Collects ↔ s.Collects) := by
  have hnojoin : Along step (fun _ l => l ≠ .join) t ls :=
    along_of_forall (fun l hl _ => ne_of_mem_of_not_mem hl hjoin) t
  have hstart : t.stopping = .stored ∧ (t.Collects ↔ s.Collects) := by
    cases steps_of_step hstore with
    | storeStop _ => exact ⟨rfl, collects_congr rfl rfl Iff.rfl⟩
  have hkeep : ∀ v l w, (v.Circulation ∧ v.Stopping ∧ v.stopping = .stored ∧
      (v.Collects ↔ s.Collects)) → l ≠ .join → step v l = some w →
      w.Circulation ∧ w.Stopping ∧ w.stopping = .stored ∧ (w.Collects ↔ s.Collects) := by
    rintro v l w ⟨hv, hstopping, hstored, hcollects⟩ hl hw
    obtain ⟨hstored', hcollects'⟩ := collects_step hv hstopping hstored hl hw
    exact ⟨hv.step hw, hstopping.step hw, hstored', hcollects'.trans hcollects⟩
  obtain ⟨hcirc, hstopping, -, hcollects⟩ := invariant_along hkeep
    ⟨h.step hstore, hs.step hstore, hstart⟩ hnojoin hrun
  exact ⟨hcirc, hstopping, hcollects⟩

/-- When `stop` has returned, the lines due are in the file exactly if `threadFunc` was still to
collect them when `running_` became false. -/
theorem flushed_iff_collects {ls ls' : List Label} {s' : AsyncLogging}
    (hs : run step new ls = some s) (hstore : step s .storeStop = some s')
    (hrun : run step s' ls' = some t) (hjoin : Label.join ∉ ls') (hu : step t .join = some u)
    (hbacklog : u.NoBacklog) : u.Flushed ↔ s.Collects := by
  have hreach : s.Circulation ∧ s.Stopping :=
    invariant_run (I := fun v => Circulation v ∧ Stopping v)
      (fun _ _ _ hv hw => ⟨hv.1.step hw, hv.2.step hw⟩) ⟨circulation_new, stopping_new⟩ hs
  obtain ⟨hcirc, hstopping, hcollects⟩ := collects_run hreach.1 hreach.2 hstore hjoin hrun
  obtain ⟨hexited, hu⟩ : t.backEnd = .exited ∧
      u = { t with backEnd := .notStarted, stopping := .no } := by
    cases steps_of_step hu with
    | join hexited _ => exact ⟨hexited, rfl⟩
  subst hu
  have hfile : t.output.flushed = t.swappedOut :=
    flushed_of_exited hcirc hstopping hbacklog hexited
  obtain ⟨n, hn⟩ : ∃ n, t.swappedOut = (t.lines.take n).flatten := by
    have hlines := hcirc.lines
    rw [contents, List.append_assoc] at hlines
    exact hlines.exists_take
  calc t.Flushed
    _ ↔ t.due.flatten <+: t.output.flushed := flushed_iff_prefix hstopping.due (hfile.trans hn)
    _ ↔ t.Collects := by simp [Collects, hexited, hfile]
    _ ↔ s.Collects := hcollects

def waitingRun : List Label := [.start, .test, .wait, .append [97], .callStop]

theorem flushed_waitingRun : ∃ s s' t u, run step new waitingRun = some s ∧
    step s .storeStop = some s' ∧
    run step s' [.append [98], .swap, .erase, .write, .recycle, .test] = some t ∧
    step t .join = some u ∧ u.due = [[97]] ∧ u.Flushed := by
  have hrun : (run step new waitingRun).any (fun s => s.Collects ∧
      (step s .storeStop).any fun s' =>
        (run step s' [.append [98], .swap, .erase, .write, .recycle, .test]).any fun t =>
          (step t .join).any fun u => u.NoBacklog ∧ u.due = [[97]]) = true := by decide
  obtain ⟨s, hs, hrun⟩ := (Option.any_eq_true _ _).mp hrun
  obtain ⟨hcollects, hrun⟩ := of_decide_eq_true hrun
  obtain ⟨s', hs', hrun⟩ := (Option.any_eq_true _ _).mp hrun
  obtain ⟨t, ht, hrun⟩ := (Option.any_eq_true _ _).mp hrun
  obtain ⟨u, hu, hrun⟩ := (Option.any_eq_true _ _).mp hrun
  obtain ⟨hbacklog, hdue⟩ := of_decide_eq_true hrun
  exact ⟨s, s', t, u, hs, hs', ht, hu, hdue,
    (flushed_iff_collects hs hs' ht (by decide) hu hbacklog).mpr hcollects⟩

def writingRun : List Label :=
  [.append [97], .start, .test, .wait, .swap, .append [98], .callStop]

theorem not_flushed_writingRun : ∃ s s' t u, run step new writingRun = some s ∧
    step s .storeStop = some s' ∧ run step s' [.erase, .write, .recycle, .test] = some t ∧
    step t .join = some u ∧ u.NoBacklog ∧ u.due = [[97], [98]] ∧ u.output.flushed = [97] ∧
    ¬ u.Flushed := by
  have hrun : (run step new writingRun).any (fun s => (step s .storeStop).any fun s' =>
      (run step s' [.erase, .write, .recycle, .test]).any fun t => (step t .join).any fun u =>
        u.NoBacklog ∧ u.due = [[97], [98]] ∧ u.output.flushed = [97] ∧
          u.lines = [[97], [98]]) = true := by decide
  obtain ⟨s, hs, hrun⟩ := (Option.any_eq_true _ _).mp hrun
  obtain ⟨s', hs', hrun⟩ := (Option.any_eq_true _ _).mp hrun
  obtain ⟨t, ht, hrun⟩ := (Option.any_eq_true _ _).mp hrun
  obtain ⟨u, hu, hrun⟩ := (Option.any_eq_true _ _).mp hrun
  obtain ⟨hbacklog, hdue, hflushed, hlines⟩ := of_decide_eq_true hrun
  refine ⟨s, s', t, u, hs, hs', ht, hu, hbacklog, hdue, hflushed, ?_⟩
  rintro ⟨n, hn, hfile⟩
  rw [hlines, List.take_of_length_le (by simpa [hdue] using hn), hflushed] at hfile
  exact absurd hfile (by decide)

end WebServer.Mymuduo.AsyncLogging
