import WebServer.Mymuduo.StopLogging

namespace WebServer.Mymuduo.AsyncLogging

open WebServer.Lib

def Label.works : Label → Bool
  | .test | .wait | .swap | .erase | .write | .recycle => true
  | _ => false

def iterationSteps : Nat := 30

def left (s : AsyncLogging) : Nat :=
  match s.backEnd with
  | .notStarted | .exited => 0
  | .test => 30
  | .tested => 29
  | .waiting => 28
  | .swapped => 27
  | .writing i => s.buffersToWrite.length - i + 1

def finished (s : AsyncLogging) : Bytes :=
  (s.trail.map fun b => b.written ++ b.erased).flatten.flatten

def Taking (text : Bytes) (s : AsyncLogging) : Prop :=
  s.backEnd = .test ∨ s.backEnd = .tested ∨ s.backEnd = .waiting ∨ text <+: s.swappedOut

instance (text : Bytes) (s : AsyncLogging) : Decidable (s.Taking text) :=
  inferInstanceAs (Decidable (_ ∨ _))

/-- The most steps until the iteration that takes the text is over. -/
def stepsLeft (text : Bytes) (s : AsyncLogging) : Nat :=
  s.left + if s.Taking text then 0 else iterationSteps

structure Bounded (s : AsyncLogging) : Prop where
  running : s.running = true → s.backEnd ≠ .notStarted ∧ s.backEnd ≠ .exited
  short : ∀ i, s.backEnd = .writing i → i ≤ s.buffersToWrite.length ∧ s.buffersToWrite.length ≤ 25

structure Working (text : Bytes) (s : AsyncLogging) : Prop where
  circulation : s.Circulation
  bounded : s.Bounded
  running : s.running = true
  text : text <+: s.lines.flatten

variable {s t : AsyncLogging} {l : Label} {text : Bytes}

theorem bounded_new : new.Bounded := ⟨nofun, nofun⟩

theorem length_erase (s : AsyncLogging) : s.erase.buffersToWrite.length ≤ 25 := by
  simp only [erase]
  split
  · simp only [List.length_take]
    omega
  · omega

theorem append_buffersToWrite {line : Bytes} (h : s.append line = some t) :
    t.buffersToWrite = s.buffersToWrite ∧ t.trail = s.trail ∧ t.batch = s.batch := by
  obtain ⟨b, -, rfl⟩ := Option.map_eq_some_iff.mp h
  split <;> exact ⟨rfl, rfl, rfl⟩

theorem recycle_batch (h : s.recycle = some t) : t.trail = s.trail ∧ t.batch = s.batch ∧
    t.output = s.output.flush := by
  simp only [recycle, Option.bind_eq_some_iff, Option.map_eq_some_iff] at h
  obtain ⟨⟨b1, bs⟩, -, ⟨b2, bs'⟩, -, rfl⟩ := h
  exact ⟨rfl, rfl, rfl⟩

theorem erase_batch (s : AsyncLogging) : s.erase.trail = s.trail ∧ s.erase.output = s.output ∧
    s.erase.lines = s.lines ∧ s.erase.running = s.running := by
  simp only [erase]
  split <;> exact ⟨rfl, rfl, rfl, rfl⟩

theorem Bounded.step (h : s.Bounded) (ht : step s l = some t) : t.Bounded := by
  cases steps_of_step ht with
  | append _ hu =>
    obtain ⟨-, -, -, hrunning, hbackEnd, -, -⟩ := append_frame hu
    obtain ⟨hwrite, -, -⟩ := append_buffersToWrite hu
    refine ⟨?_, ?_⟩
    · simpa only [hrunning, hbackEnd] using h.running
    · simpa only [hbackEnd, hwrite] using h.short
  | callStop _ _ => exact ⟨h.running, h.short⟩
  | storeStop _ => exact ⟨nofun, h.short⟩
  | join hexited _ => exact ⟨fun hrunning => absurd hexited (h.running hrunning).2, nofun⟩
  | exit _ hstopped => exact ⟨fun hrunning => by simp [hstopped] at hrunning, nofun⟩
  | erase _ =>
    refine ⟨fun _ => by simp, ?_⟩
    rintro i hi
    obtain rfl : 0 = i := by simpa using hi
    exact ⟨Nat.zero_le _, length_erase s⟩
  | @write i b hb hi =>
    obtain ⟨hlt, -⟩ := List.getElem?_eq_some_iff.mp hi
    refine ⟨fun _ => by simp, ?_⟩
    rintro j hj
    obtain rfl : i + 1 = j := by simpa using hj
    exact ⟨hlt, (h.short i hb).2⟩
  | start _ | test _ _ | wait _ _ | swap _ _ | recycle _ _ =>
    exact ⟨fun _ => by simp, by simp⟩

theorem running_of_step (hl : l ≠ .storeStop) (ht : step s l = some t)
    (hrunning : s.running = true) : t.running = true := by
  cases steps_of_step ht with
  | append _ hu => exact (append_frame hu).2.2.2.1.trans hrunning
  | start _ => rfl
  | storeStop _ => exact absurd rfl hl
  | swap _ hu =>
    obtain ⟨b, -, rfl⟩ := Option.map_eq_some_iff.mp hu
    exact hrunning
  | erase _ => exact (erase_batch s).2.2.2.trans hrunning
  | recycle _ hu => exact (recycle_frame hu).2.2.2.1.trans hrunning
  | _ => exact hrunning

theorem lines_of_step (ht : step s l = some t) : s.lines <+: t.lines := by
  cases steps_of_step ht with
  | append _ hu => exact (append_frame hu).2.1 ▸ List.prefix_append _ _
  | swap _ hu =>
    obtain ⟨b, -, rfl⟩ := Option.map_eq_some_iff.mp hu
    exact List.prefix_rfl
  | erase _ => exact (erase_batch s).2.2.1 ▸ List.prefix_rfl
  | recycle _ hu => exact (recycle_frame hu).2.1 ▸ List.prefix_rfl
  | _ => exact List.prefix_rfl

theorem Working.step (h : s.Working text) (hl : l ≠ .storeStop) (ht : step s l = some t) :
    t.Working text where
  circulation := h.circulation.step ht
  bounded := h.bounded.step ht
  running := running_of_step hl ht h.running
  text := h.text.trans (lines_of_step ht).flatten

theorem Working.exists_works (h : s.Working text) :
    ∃ l t, l.works = true ∧ AsyncLogging.step s l = some t := by
  obtain ⟨hstarted, hexited⟩ := h.bounded.running h.running
  obtain ⟨b, hcurrent⟩ := h.circulation.current
  cases hb : s.backEnd with
  | notStarted => exact absurd hb hstarted
  | exited => exact absurd hb hexited
  | test => exact ⟨.test, _, rfl, by simp [AsyncLogging.step, hb, h.running]; rfl⟩
  | tested =>
    by_cases hempty : s.buffers = []
    · exact ⟨.wait, _, rfl, by simp [AsyncLogging.step, hb, hempty]; rfl⟩
    · exact ⟨.swap, _, rfl, by simp [AsyncLogging.step, hb, hempty, swap, hcurrent]; rfl⟩
  | waiting => exact ⟨.swap, _, rfl, by simp [AsyncLogging.step, hb, swap, hcurrent]; rfl⟩
  | swapped => exact ⟨.erase, _, rfl, by simp [AsyncLogging.step, hb]; rfl⟩
  | writing i =>
    rcases Nat.lt_or_eq_of_le (h.bounded.short i hb).1 with hi | hi
    · exact ⟨.write, _, rfl, by simp [AsyncLogging.step, hb, hi]; rfl⟩
    · have hback := h.circulation.back
      simp only [Back, hb] at hback
      obtain ⟨b1, b2, -, -, hrecycle⟩ := hback.1.exists_recycle
      exact ⟨.recycle, _, rfl, by simp [AsyncLogging.step, hb, hi, hrecycle]; rfl⟩

theorem stepsLeft_congr (hb : t.backEnd = s.backEnd) (hw : t.buffersToWrite = s.buffersToWrite)
    (hout : t.swappedOut = s.swappedOut) : stepsLeft text t = stepsLeft text s := by
  have htaking : t.Taking text ↔ s.Taking text := by simp only [Taking, hb, hout]
  have hleft : t.left = s.left := by simp only [left, hb, hw]
  simp only [stepsLeft, hleft, htaking]

theorem Bounded.left_le (h : s.Bounded) :
    s.left ≤ iterationSteps ∧ (s.backEnd ≠ .test → s.left < iterationSteps) := by
  cases hb : s.backEnd with
  | writing i =>
    have hshort := (h.short i hb).2
    simp only [left, hb, iterationSteps]
    omega
  | _ => simp [left, hb, iterationSteps]

theorem Bounded.stepsLeft_lt (h : s.Bounded) (text : Bytes) :
    stepsLeft text s < 2 * iterationSteps := by
  obtain ⟨hle, hlt⟩ := h.left_le
  simp only [iterationSteps] at hle hlt
  simp only [stepsLeft, iterationSteps]
  split
  · omega
  · next hnot =>
    have := hlt fun hb => hnot (.inl hb)
    omega

theorem taking_iff (hb : s.backEnd = .swapped ∨ ∃ i, s.backEnd = .writing i) :
    s.Taking text ↔ text <+: s.swappedOut := by
  rcases hb with hb | ⟨i, hb⟩ <;> simp [Taking, hb]

theorem stepsLeft_lt (hleft : t.left < s.left) (htaking : s.Taking text → t.Taking text) :
    stepsLeft text t + 1 ≤ stepsLeft text s := by
  simp only [stepsLeft]
  split
  · split <;> omega
  · next hnot =>
    rw [if_neg fun h => hnot (htaking h)]
    omega

theorem finished_of_step (ht : step s l = some t) :
    t.finished = s.finished ∨ s.backEnd = .writing s.buffersToWrite.length ∧ l = .recycle ∧
      t.finished = s.swappedOut ∧ t.backEnd = .test := by
  cases steps_of_step ht with
  | append _ hu =>
    obtain ⟨-, htrail, -⟩ := append_buffersToWrite hu
    exact .inl (by simp only [finished, htrail])
  | swap _ hu =>
    obtain ⟨b, -, rfl⟩ := Option.map_eq_some_iff.mp hu
    exact .inl rfl
  | erase _ => exact .inl (by simp only [finished, (erase_batch s).1])
  | recycle hb hu =>
    obtain ⟨htrail, hbatch, -⟩ := recycle_batch hu
    exact .inr ⟨hb, rfl, by simp only [finished, swappedOut, batches, htrail, hbatch], rfl⟩
  | _ => exact .inl rfl

theorem finished_prefix (s : AsyncLogging) : s.finished <+: s.swappedOut := by
  simp [finished, swappedOut, batches]

/-- A step of the back end brings the text closer to the end of the iteration that takes it. -/
theorem Working.stepsLeft_step (h : s.Working text) (hl : l ≠ .storeStop)
    (ht : AsyncLogging.step s l = some t) :
    text <+: t.finished ∨ stepsLeft text t + (if l.works then 1 else 0) ≤ stepsLeft text s := by
  cases steps_of_step ht with
  | append _ hu =>
    obtain ⟨-, -, -, -, hbackEnd, -, hout⟩ := append_frame hu
    exact .inr (stepsLeft_congr hbackEnd (append_buffersToWrite hu).1 hout).le
  | start hb => exact absurd hb (h.bounded.running h.running).1
  | callStop _ _ => exact .inr (stepsLeft_congr rfl rfl rfl).le
  | storeStop _ => exact absurd rfl hl
  | join hb _ => exact absurd hb (h.bounded.running h.running).2
  | test hb _ => exact .inr (stepsLeft_lt (by simp [left, hb]) fun _ => .inr (.inl rfl))
  | exit _ hstopped => simp [h.running] at hstopped
  | wait hb _ => exact .inr (stepsLeft_lt (by simp [left, hb]) fun _ => .inr (.inr (.inl rfl)))
  | swap hphase hu =>
    have hout := swappedOut_swap h.circulation hphase hu
    obtain ⟨b, -, rfl⟩ := Option.map_eq_some_iff.mp hu
    refine .inr (stepsLeft_lt ?_ fun _ => .inr (.inr (.inr (hout.symm ▸ h.text))))
    rcases hphase with hb | hb <;> simp [left, hb]
  | erase hb =>
    have hlength := length_erase s
    have herased : s.batch.erased = [] := by
      have hback := h.circulation.back
      simp only [Back, hb] at hback
      exact hback.2.1
    refine .inr (stepsLeft_lt ?_ fun htaking => .inr (.inr (.inr ?_)))
    · simp only [left, hb]
      omega
    · change text <+: s.erase.swappedOut
      rw [swappedOut_erase herased]
      exact (taking_iff (.inl hb)).mp htaking
  | @write i b hb hi =>
    obtain ⟨hlt, -⟩ := List.getElem?_eq_some_iff.mp hi
    refine .inr (stepsLeft_lt ?_ fun htaking => .inr (.inr (.inr ?_)))
    · simp only [left, hb]
      omega
    · exact (taking_iff (.inr ⟨i, hb⟩)).mp htaking
  | recycle hb hu =>
    obtain ⟨htrail, hbatch, -⟩ := recycle_batch hu
    by_cases htaking : s.Taking text
    · refine .inl ?_
      simp only [finished, htrail, hbatch]
      exact (taking_iff (.inr ⟨_, hb⟩)).mp htaking
    · refine .inr ?_
      rw [stepsLeft, stepsLeft, if_neg htaking, if_pos (.inl rfl)]
      simp [left, hb, Label.works, iterationSteps]

def Filed (s : AsyncLogging) : Prop :=
  match s.backEnd with
  | .writing i => ∃ k ≤ i, s.output.flushed = s.passedOn ++ (s.batch.written.take k).flatten
  | _ => s.output.flushed = s.passedOn

theorem Filed.step (h : s.Filed) (hs : s.Circulation) (ht : AsyncLogging.step s l = some t) :
    t.Filed := by
  have hback := (hs.step ht).back
  cases steps_of_step ht with
  | append _ hu =>
    obtain ⟨-, -, -, -, hbackEnd, houtput, -⟩ := append_frame hu
    obtain ⟨-, htrail, hbatch⟩ := append_buffersToWrite hu
    simpa only [Filed, passedOn, hbackEnd, houtput, htrail, hbatch] using h
  | callStop _ _ | storeStop _ => exact h
  | start hb | join hb _ | test hb _ | wait hb _ =>
    simp only [Filed, hb] at h
    exact h
  | exit _ _ =>
    simp only [Back] at hback
    exact hback.passed
  | swap hphase hu =>
    have hflushed : s.output.flushed = s.passedOn := by
      rcases hphase with hb | hb <;> simpa only [Filed, hb] using h
    obtain ⟨b, -, rfl⟩ := Option.map_eq_some_iff.mp hu
    exact hflushed
  | erase hb =>
    obtain ⟨htrail, houtput, -⟩ := erase_batch s
    simp only [Filed, hb] at h
    refine ⟨0, Nat.le_refl 0, ?_⟩
    simpa [passedOn, htrail, houtput] using h
  | @write i b hb hi =>
    simp only [Back] at hback
    obtain ⟨k, hk, hflushed⟩ : ∃ k ≤ i,
        s.output.flushed = s.passedOn ++ (s.batch.written.take k).flatten := by
      simpa only [Filed, hb] using h
    simp only [Filed, LogFile.append]
    split
    · next hcount =>
      refine ⟨i + 1, Nat.le_refl _, ?_⟩
      rw [← LogFile.passed_append]
      exact hback.2
    · exact ⟨k, Nat.le_succ_of_le hk, hflushed⟩
  | recycle _ hu =>
    simp only [Back] at hback
    have hpassed := hback.1.passed
    obtain ⟨-, -, houtput⟩ := recycle_batch hu
    simp only [Filed, houtput, LogFile.flush] at hpassed ⊢
    exact hpassed

theorem Filed.run {ls : List Label} (h : s.Filed) (hs : s.Circulation)
    (ht : Lib.run AsyncLogging.step s ls = some t) : t.Circulation ∧ t.Filed :=
  invariant_run (I := fun v => Circulation v ∧ Filed v)
    (fun _ _ _ hv hw => ⟨hv.1.step hw, hv.2.step hv.1 hw⟩) ⟨hs, h⟩ ht

theorem Filed.spec (h : s.Filed) : s.passedOn <+: s.output.flushed ∧
    ∃ k, s.output.flushed = s.passedOn ++ (s.batch.written.take k).flatten := by
  have hspec : ∃ k, s.output.flushed = s.passedOn ++ (s.batch.written.take k).flatten := by
    cases hb : s.backEnd with
    | writing i =>
      simp only [Filed, hb] at h
      obtain ⟨k, -, hk⟩ := h
      exact ⟨k, hk⟩
    | _ =>
      simp only [Filed, hb] at h
      exact ⟨0, by simpa using h⟩
  obtain ⟨k, hk⟩ := hspec
  exact ⟨hk ▸ List.prefix_append _ _, k, hk⟩

theorem Filed.exists_take (h : s.Filed) (hs : s.Circulation) (hbacklog : s.NoBacklog) :
    s.finished <+: s.output.flushed ∧ ∃ n, s.output.flushed = (s.lines.take n).flatten := by
  have hnone : ∀ b ∈ s.batches, b.erased = [] := fun b hb => erased_of_noBacklog hs hbacklog hb
  have hwritten : ∀ bs : List Batch, (∀ b ∈ bs, b.erased = []) →
      bs.map (fun b => b.written ++ b.erased) = bs.map (·.written) := fun bs hbs =>
    List.map_congr_left fun b hb => by rw [hbs b hb, List.append_nil]
  have htrail : ∀ b ∈ s.trail, b.erased = [] := fun b hb => hnone b (List.mem_append_left _ hb)
  obtain ⟨hpre, k, hk⟩ := h.spec
  refine ⟨?_, ?_⟩
  · rwa [finished, hwritten _ htrail]
  · have hlines := hs.lines
    have hsplit : s.contents = ((s.trail.map (·.written)).flatten ++ s.batch.written.take k) ++
        (s.batch.written.drop k ++ s.buffers.map (·.data) ++
          s.currentBuffer.toList.map (·.data)) := by
      rw [contents, hwritten _ hnone]
      simp only [batches, List.map_append, List.map_cons, List.map_nil, List.flatten_append,
        List.flatten_cons, List.flatten_nil, List.append_nil, List.append_assoc]
      rw [← List.append_assoc (s.batch.written.take k), List.take_append_drop]
    rw [hsplit] at hlines
    obtain ⟨n, hn⟩ := hlines.exists_take
    exact ⟨n, by rw [hk, ← hn, passedOn, List.flatten_append]⟩

theorem Working.goal_or_le {ls : List Label} (h : s.Working text)
    (hls : .storeStop ∉ ls) (ht : run AsyncLogging.step s ls = some t) : t.Working text ∧
    (text <+: t.finished ∨ ls.countP Label.works + stepsLeft text t ≤ stepsLeft text s) := by
  have hQ : Along AsyncLogging.step (fun _ l => l ≠ .storeStop) s ls :=
    along_of_forall (fun l hl _ => ne_of_mem_of_not_mem hl hls) s
  refine ⟨invariant_along (fun _ _ _ h hl ht => h.step hl ht) h hQ ht, ?_⟩
  refine goal_or_countP_add_le (I := Working text) (D := fun t => text <+: t.finished)
    (p := Label.works)
    (fun s l t h hl ht => ⟨h.step hl ht, fun hdone => ?_, h.stepsLeft_step hl ht⟩) h hQ ht
  rcases finished_of_step ht with heq | ⟨-, -, heq, -⟩
  · exact heq ▸ hdone
  · exact heq ▸ hdone.trans s.finished_prefix

def tenIterations : List Label :=
  (List.replicate 10 [.test, .wait, .swap, .erase, .write, .recycle]).flatten

end WebServer.Mymuduo.AsyncLogging
