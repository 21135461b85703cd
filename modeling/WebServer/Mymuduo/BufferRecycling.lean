import WebServer.Mymuduo.LogBuffers

namespace WebServer.Mymuduo.AsyncLogging

open WebServer.Lib

/-- `step` for lines that may be longer than a buffer, too. -/
def stepAnyLine (s : AsyncLogging) : Label → Option AsyncLogging
  | .append logline => (s.append logline).map fun s => { s with lines := s.lines ++ [logline] }
  | l => step s l

def resized (s : AsyncLogging) : List LargeBuffer :=
  if 2 < s.buffersToWrite.length then s.buffersToWrite.take 2 else s.buffersToWrite

def behindFirst (s : AsyncLogging) : List LargeBuffer :=
  if s.newBuffer1.isNone then s.resized.dropLast else s.resized

/-- No pointer that is followed is empty, and `back()` is not taken of an empty vector. -/
structure NeverDry (s : AsyncLogging) : Prop where
  current : s.currentBuffer ≠ none
  newBuffer1 : s.backEnd = .tested → ∃ b, s.newBuffer1 = some b ∧ b.data = []
  newBuffer2 : s.backEnd = .tested → ∃ b, s.newBuffer2 = some b ∧ b.data = []
  buffersToWrite : s.backEnd = .tested → s.buffersToWrite = []
  swapped : s.backEnd = .swapped → s.buffersToWrite ≠ []
  back1 : s.backEnd = .writing s.buffersToWrite.length → s.newBuffer1 = none → s.resized ≠ []
  back2 : s.backEnd = .writing s.buffersToWrite.length → s.newBuffer2 = none → s.behindFirst ≠ []

variable {s t : AsyncLogging} {l : Label}

theorem supplied_new : new.Supplied := circulation_new.toSupplied

theorem Supplied.stepAnyLine (h : s.Supplied) (ht : s.stepAnyLine l = some t) : t.Supplied := by
  cases l with
  | append logline =>
    obtain ⟨u, hu, rfl⟩ := Option.map_eq_some_iff.mp ht
    exact h.append hu
  | start | callStop | storeStop | join | test | wait | swap | erase | write | recycle =>
    simp only [AsyncLogging.stepAnyLine] at ht
    exact h.step ht

theorem Taken.length_resized (h : s.Taken) :
    1 ≤ s.resized.length ∧ (s.newBuffer2 = none → 2 ≤ s.resized.length) := by
  have hpos := List.length_pos_of_ne_nil h.buffersToWrite
  rw [resized]
  split
  · rw [List.length_take]
    omega
  · exact ⟨hpos, h.used⟩

/-- Behind the critical section there is a written buffer for every one that was handed out. -/
theorem Supplied.neverDry (h : s.Supplied) : s.NeverDry := by
  obtain ⟨b, hb⟩ := h.current
  have hback := h.back
  have htested (hb : s.backEnd = .tested) : s.Idle ∧ s.Spares := by
    simpa only [Back, hb] using hback
  have hswapped (hb : s.backEnd = .swapped) : s.Taken := by
    simp only [Back, hb] at hback
    exact hback.1
  have hwriting (hb : s.backEnd = .writing s.buffersToWrite.length) : s.Taken := by
    simp only [Back, hb] at hback
    exact hback.1
  refine ⟨by simp [hb], fun hb => (htested hb).2.newBuffer1, fun hb => (htested hb).2.newBuffer2,
    fun hb => (htested hb).1.buffersToWrite, fun hb => (hswapped hb).buffersToWrite,
    fun hb _ => ?_, fun hb hnone => ?_⟩
  · exact List.ne_nil_of_length_pos (hwriting hb).length_resized.1
  · have htwo := (hwriting hb).length_resized.2 hnone
    apply List.ne_nil_of_length_pos
    rw [behindFirst, (hwriting hb).newBuffer1, Option.isNone_none, if_pos rfl, List.length_dropLast]
    omega

/-- Whatever is appended between the steps of `threadFunc`, the buffers never run out. -/
theorem neverDry_of_run {ls : List Label} (h : run stepAnyLine new ls = some s) : s.NeverDry :=
  (invariant_run (fun _ _ _ hs ht => Supplied.stepAnyLine hs ht) supplied_new h).neverDry

def refillRun : List Label :=
  [.start, .test, .append [97], .wait, .swap, .append [98], .erase, .write]

theorem neverDry_refillRun : ∃ s, run stepAnyLine new refillRun = some s ∧
    s.backEnd = .writing s.buffersToWrite.length ∧ s.newBuffer1.isNone ∧ s.NeverDry := by
  have hrun : (run stepAnyLine new refillRun).any (fun s =>
      s.backEnd = .writing s.buffersToWrite.length ∧ s.newBuffer1.isNone) = true := by decide
  obtain ⟨s, hs, hstate⟩ := (Option.any_eq_true _ _).mp hrun
  obtain ⟨hwriting, hnone⟩ := of_decide_eq_true hstate
  exact ⟨s, hs, hwriting, hnone, neverDry_of_run hs⟩

end WebServer.Mymuduo.AsyncLogging
