import WebServer.Mymuduo.AsyncLogging

namespace WebServer.Mymuduo.AsyncLogging

open WebServer.Lib

section

variable {lines contents : List Bytes}

theorem WholeLines.append_nil (h : WholeLines lines contents) :
    WholeLines lines (contents ++ [[]]) := by
  obtain ⟨groups, hlines, hcontents⟩ := h
  exact ⟨groups ++ [[]], by simp [hlines], by simp [hcontents]⟩

theorem WholeLines.append_line (h : WholeLines lines contents) (line : Bytes) :
    WholeLines (lines ++ [line]) (contents ++ [line]) := by
  obtain ⟨groups, hlines, hcontents⟩ := h
  exact ⟨groups ++ [[line]], by simp [hlines], by simp [hcontents]⟩

theorem WholeLines.extend {c : Bytes} (h : WholeLines lines (contents ++ [c])) (line : Bytes) :
    WholeLines (lines ++ [line]) (contents ++ [c ++ line]) := by
  obtain ⟨groups, hlines, hcontents⟩ := h
  obtain ⟨front, back, rfl, hfront, hback⟩ := List.map_eq_append_iff.mp hcontents
  obtain ⟨last, rfl, rfl⟩ := List.map_eq_singleton_iff.mp hback
  exact ⟨front ++ [last ++ [line]], by simp [← hlines], by simp [hfront]⟩

theorem WholeLines.flatten (h : WholeLines lines contents) : contents.flatten = lines.flatten := by
  obtain ⟨groups, hlines, hcontents⟩ := h
  rw [← hlines, ← hcontents, List.flatten_flatten]

end

def passedOn (s : AsyncLogging) : Bytes := (s.trail.map (·.written)).flatten.flatten

structure Idle (s : AsyncLogging) : Prop where
  buffersToWrite : s.buffersToWrite = []
  batch : s.batch = ⟨[], []⟩
  passed : s.output.passed = s.passedOn

structure Spares (s : AsyncLogging) : Prop where
  newBuffer1 : ∃ b, s.newBuffer1 = some b ∧ b.data = []
  newBuffer2 : ∃ b, s.newBuffer2 = some b ∧ b.data = []

/-- Behind the critical section: there is a written buffer for every spare that was handed out. -/
structure Taken (s : AsyncLogging) : Prop where
  newBuffer1 : s.newBuffer1 = none
  newBuffer2 : ∀ b ∈ s.newBuffer2, b.data = []
  buffersToWrite : s.buffersToWrite ≠ []
  used : s.newBuffer2 = none → 2 ≤ s.buffersToWrite.length
  batch : s.batch.written = s.buffersToWrite.map (·.data)

def Back (s : AsyncLogging) : Prop :=
  match s.backEnd with
  | .notStarted | .exited => s.Idle
  | .test | .tested | .waiting => s.Idle ∧ s.Spares
  | .swapped => s.Taken ∧ s.batch.erased = [] ∧ s.output.passed = s.passedOn
  | .writing i => s.Taken ∧ s.output.passed = s.passedOn ++ (s.batch.written.take i).flatten

structure Supplied (s : AsyncLogging) : Prop where
  current : ∃ b, s.currentBuffer = some b
  next : ∀ b ∈ s.nextBuffer, b.data = []
  used : s.nextBuffer = none → s.buffers ≠ []
  back : s.Back

structure Circulation (s : AsyncLogging) : Prop extends Supplied s where
  lines : WholeLines s.lines s.contents
  erased : ∀ b ∈ s.batches, b.erased ≠ [] →
    b.written.length = 2 ∧ 25 < b.written.length + b.erased.length

variable {s t : AsyncLogging} {l : Label}

theorem circulation_new : new.Circulation where
  current := ⟨.new, rfl⟩
  next b hb := by
    obtain rfl : FixedBuffer.new = b := Option.some.inj hb
    rfl
  used := nofun
  back := ⟨rfl, rfl, rfl⟩
  lines := ⟨[[]], rfl, rfl⟩
  erased b hb := by
    obtain rfl : b = ⟨[], []⟩ := by simpa [batches, new] using hb
    exact absurd rfl

theorem Back.idle_spares (h : s.Back) (hb : s.backEnd = .waiting ∨ s.backEnd = .tested) :
    s.Idle ∧ s.Spares := by
  rcases hb with hb | hb <;> simpa only [Back, hb] using h

theorem Back.frame (h : s.Back) (running : Bool) (currentBuffer nextBuffer : Option LargeBuffer)
    (buffers : List LargeBuffer) (stopping : StopPhase) (lines due : List Bytes) : Back { s with
      running := running, currentBuffer := currentBuffer, nextBuffer := nextBuffer
      buffers := buffers, stopping := stopping, lines := lines, due := due } := by
  have hidle (backEnd : BackEnd) (h : s.Idle) : Idle { s with
      running := running, currentBuffer := currentBuffer, nextBuffer := nextBuffer
      buffers := buffers, stopping := stopping, lines := lines, due := due
      backEnd := backEnd } := ⟨h.buffersToWrite, h.batch, h.passed⟩
  have htaken (backEnd : BackEnd) (h : s.Taken) : Taken { s with
      running := running, currentBuffer := currentBuffer, nextBuffer := nextBuffer
      buffers := buffers, stopping := stopping, lines := lines, due := due
      backEnd := backEnd } :=
    ⟨h.newBuffer1, h.newBuffer2, h.buffersToWrite, h.used, h.batch⟩
  simp only [Back] at h ⊢
  cases hb : s.backEnd with
  | notStarted | exited =>
    rw [hb] at h
    exact hidle _ h
  | test | tested | waiting =>
    rw [hb] at h
    exact ⟨hidle _ h.1, h.2.newBuffer1, h.2.newBuffer2⟩
  | swapped | writing i =>
    rw [hb] at h
    exact ⟨htaken _ h.1, h.2⟩

theorem contents_of_current {b : LargeBuffer} (h : s.currentBuffer = some b) :
    s.contents = (s.batches.map fun b => b.written ++ b.erased).flatten ++
      s.buffers.map (·.data) ++ [b.data] := by
  rw [contents, h]
  rfl

theorem FixedBuffer.data_append_of_nil {b : LargeBuffer} {line : Bytes} (hb : b.data = [])
    (h : line.length < kLargeBuffer) : (b.append line).data = line := by
  rw [FixedBuffer.data_append (by simpa [FixedBuffer.avail, hb] using h), hb, List.nil_append]

theorem Supplied.append (h : s.Supplied) {line : Bytes} (ht : s.append line = some t) :
    Supplied { t with lines := t.lines ++ [line] } := by
  obtain ⟨b, hb⟩ := h.current
  simp only [AsyncLogging.append, hb, Option.map_some, Option.some.injEq] at ht
  split at ht
  · subst ht
    exact ⟨⟨_, rfl⟩, h.next, h.used, h.back.frame _ _ _ _ _ _ _⟩
  · subst ht
    exact ⟨⟨_, rfl⟩, nofun, fun _ => by simp, h.back.frame _ _ _ _ _ _ _⟩

theorem Circulation.append (h : s.Circulation) {line : Bytes} (hline : line.length < kLargeBuffer)
    (ht : s.append line = some t) : Circulation { t with lines := t.lines ++ [line] } := by
  have hsupplied := h.toSupplied.append ht
  obtain ⟨b, hb⟩ := h.current
  have hlines := h.lines
  rw [contents_of_current hb] at hlines
  simp only [AsyncLogging.append, hb, Option.map_some, Option.some.injEq] at ht
  split at ht
  · next hfit =>
    subst ht
    refine ⟨hsupplied, ?_, h.erased⟩
    rw [contents_of_current rfl, FixedBuffer.data_append hfit]
    exact hlines.extend line
  · next hfull =>
    subst ht
    refine ⟨hsupplied, ?_, h.erased⟩
    have hfresh : (s.nextBuffer.getD .new).data = [] := by
      cases hnext : s.nextBuffer with
      | none => rfl
      | some n => exact h.next n hnext
    rw [contents_of_current rfl, FixedBuffer.data_append_of_nil hfresh hline]
    simpa [batches] using hlines.append_line line

theorem Supplied.swap (h : s.Supplied) (hidle : s.Idle) (hspares : s.Spares)
    (ht : s.swap = some t) : Supplied { t with
      batch := ⟨t.buffersToWrite.map (·.data), []⟩, backEnd := .swapped } := by
  obtain ⟨b, hb⟩ := h.current
  obtain ⟨b1, hb1, hnil1⟩ := hspares.newBuffer1
  obtain ⟨b2, hb2, hnil2⟩ := hspares.newBuffer2
  simp only [AsyncLogging.swap, hb, Option.map_some, Option.some.injEq] at ht
  subst ht
  refine ⟨⟨b1, hb1⟩, ?_, ?_, ⟨⟨rfl, ?_, by simp, ?_, rfl⟩, rfl, hidle.passed⟩⟩
  · intro c hc
    cases hnext : s.nextBuffer with
    | none =>
      obtain rfl : b2 = c := by simpa [hnext, hb2] using hc
      exact hnil2
    | some n => exact h.next c (by simpa [hnext] using hc)
  · intro hnone
    cases hnext : s.nextBuffer <;> simp [hnext, hb2] at hnone
  · intro c hc
    cases hnext : s.nextBuffer with
    | none => simp [hnext] at hc
    | some n =>
      obtain rfl : b2 = c := by simpa [hnext, hb2] using hc
      exact hnil2
  · intro hnone
    cases hnext : s.nextBuffer with
    | none =>
      have hne := List.length_pos_of_ne_nil (h.used hnext)
      simp only [List.length_append, List.length_singleton]
      omega
    | some n => simp [hnext, hb2] at hnone

theorem Circulation.swap (h : s.Circulation) (hidle : s.Idle) (hspares : s.Spares)
    (ht : s.swap = some t) : Circulation { t with
      batch := ⟨t.buffersToWrite.map (·.data), []⟩, backEnd := .swapped } := by
  have hsupplied := h.toSupplied.swap hidle hspares ht
  obtain ⟨b, hb⟩ := h.current
  obtain ⟨b1, hb1, hnil1⟩ := hspares.newBuffer1
  simp only [AsyncLogging.swap, hb, Option.map_some, Option.some.injEq] at ht
  subst ht
  refine ⟨hsupplied, ?_, ?_⟩
  · have hlines := h.lines.append_nil
    rw [contents_of_current hb] at hlines
    rw [contents_of_current hb1, hnil1]
    simpa [batches, hidle.batch, hidle.buffersToWrite] using hlines
  · intro c hc
    rcases List.mem_append.mp hc with htrail | hlast
    · exact h.erased c (List.mem_append_left _ htrail)
    · obtain rfl := List.mem_singleton.mp hlast
      exact absurd rfl

theorem Supplied.erase (h : s.Supplied) (hswapped : s.backEnd = .swapped) :
    Supplied { s.erase with backEnd := .writing 0 } := by
  obtain ⟨htaken, -, hpassed⟩ : s.Taken ∧ s.batch.erased = [] ∧
      s.output.passed = s.passedOn := by simpa only [Back, hswapped] using h.back
  simp only [AsyncLogging.erase]
  split
  · next hlong =>
    refine ⟨h.current, h.next, h.used, ⟨⟨htaken.newBuffer1, htaken.newBuffer2, ?_, ?_, ?_⟩, ?_⟩⟩
    · apply List.ne_nil_of_length_pos
      simp only [List.length_take]
      omega
    · intro _
      simp only [List.length_take]
      omega
    · simp only [htaken.batch, List.map_take]
    · simpa [passedOn] using hpassed
  · have htaken' : Taken { s with backEnd := .writing 0 } :=
      ⟨htaken.newBuffer1, htaken.newBuffer2, htaken.buffersToWrite, htaken.used, htaken.batch⟩
    exact ⟨h.current, h.next, h.used, ⟨htaken', by simpa [passedOn] using hpassed⟩⟩

theorem Circulation.erase (h : s.Circulation) (hswapped : s.backEnd = .swapped) :
    Circulation { s.erase with backEnd := .writing 0 } := by
  have hsupplied := h.toSupplied.erase hswapped
  obtain ⟨htaken, herased, -⟩ : s.Taken ∧ s.batch.erased = [] ∧
      s.output.passed = s.passedOn := by simpa only [Back, hswapped] using h.back
  refine ⟨hsupplied, ?_, ?_⟩
  · simp only [AsyncLogging.erase]
    split
    · have hlines := h.lines
      simpa [contents, batches, herased] using hlines
    · exact h.lines
  · simp only [AsyncLogging.erase]
    split
    · intro c hc hne
      rcases List.mem_append.mp hc with htrail | hlast
      · exact h.erased c (List.mem_append_left _ htrail) hne
      · obtain rfl := List.mem_singleton.mp hlast
        simp only [htaken.batch, List.length_take, List.length_drop, List.length_map]
        omega
    · exact h.erased

theorem Supplied.write (h : s.Supplied) {i : Nat} (hwriting : s.backEnd = .writing i)
    {b : LargeBuffer} (hb : s.buffersToWrite[i]? = some b) :
    Supplied { s with output := s.output.append b.data, backEnd := .writing (i + 1) } := by
  obtain ⟨htaken, hpassed⟩ : s.Taken ∧
      s.output.passed = s.passedOn ++ (s.batch.written.take i).flatten := by
    simpa only [Back, hwriting] using h.back
  refine ⟨h.current, h.next, h.used, ⟨⟨htaken.newBuffer1, htaken.newBuffer2,
    htaken.buffersToWrite, htaken.used, htaken.batch⟩, ?_⟩⟩
  have hdata : s.batch.written[i]? = some b.data := by simp [htaken.batch, hb]
  simp only [LogFile.passed_append, hpassed, List.take_add_one, hdata]
  simp [passedOn]

theorem exists_refill_none {bs : List LargeBuffer} (h : bs ≠ []) :
    ∃ b, refill none bs = some (b, bs.dropLast) ∧ b.data = [] := by
  exact ⟨(bs.getLast h).reset, by simp [refill, List.getLast?_eq_some_getLast h], rfl⟩

theorem Taken.exists_recycle (h : s.Taken) : ∃ b1 b2 : LargeBuffer, b1.data = [] ∧ b2.data = [] ∧
    s.recycle = some { s with
      newBuffer1 := some b1, newBuffer2 := some b2, buffersToWrite := []
      output := s.output.flush } := by
  have hpos := List.length_pos_of_ne_nil h.buffersToWrite
  simp only [recycle, h.newBuffer1]
  generalize hbs :
    (if 2 < s.buffersToWrite.length then s.buffersToWrite.take 2 else s.buffersToWrite) = bs
  have hlength : bs.length = min 2 s.buffersToWrite.length := by
    rw [← hbs]
    split
    · rw [List.length_take]
    · omega
  have hne : bs ≠ [] := List.ne_nil_of_length_pos (by omega)
  obtain ⟨b1, hb1, hnil1⟩ := exists_refill_none hne
  cases hnew : s.newBuffer2 with
  | some b2 => exact ⟨b1, b2, hnil1, h.newBuffer2 b2 hnew, by rw [hb1]; rfl⟩
  | none =>
    have htwo := h.used hnew
    have hne' : bs.dropLast ≠ [] :=
      List.ne_nil_of_length_pos (by simp only [List.length_dropLast]; omega)
    obtain ⟨b2, hb2, hnil2⟩ := exists_refill_none hne'
    exact ⟨b1, b2, hnil1, hnil2, by simp [hb1, hb2]⟩

theorem Supplied.recycle (h : s.Supplied)
    (hwriting : s.backEnd = .writing s.buffersToWrite.length) (ht : s.recycle = some t) :
    Supplied { t with trail := t.trail ++ [t.batch], batch := ⟨[], []⟩, backEnd := .test } := by
  obtain ⟨htaken, hpassed⟩ : s.Taken ∧ s.output.passed =
      s.passedOn ++ (s.batch.written.take s.buffersToWrite.length).flatten := by
    simpa only [Back, hwriting] using h.back
  obtain ⟨b1, b2, hnil1, hnil2, hrecycle⟩ := htaken.exists_recycle
  obtain rfl := Option.some.inj (hrecycle.symm.trans ht)
  refine ⟨h.current, h.next, h.used,
    ⟨⟨rfl, rfl, ?_⟩, ⟨b1, rfl, hnil1⟩, ⟨b2, rfl, hnil2⟩⟩⟩
  rw [List.take_of_length_le (by simp [htaken.batch])] at hpassed
  simpa [LogFile.flush, passedOn] using hpassed

theorem Supplied.step (h : s.Supplied) (ht : step s l = some t) : t.Supplied := by
  cases steps_of_step ht with
  | append _ hu => exact h.append hu
  | start hb =>
    have hidle : s.Idle := by simpa only [Back, hb] using h.back
    exact ⟨h.current, h.next, h.used, ⟨⟨hidle.buffersToWrite, hidle.batch, hidle.passed⟩,
      ⟨.new, rfl, rfl⟩, ⟨.new, rfl, rfl⟩⟩⟩
  | callStop _ _ | storeStop _ =>
    exact ⟨h.current, h.next, h.used, h.back.frame _ _ _ _ _ _ _⟩
  | join hb _ =>
    have hidle : s.Idle := by simpa only [Back, hb] using h.back
    exact ⟨h.current, h.next, h.used, ⟨hidle.buffersToWrite, hidle.batch, hidle.passed⟩⟩
  | exit hb _ =>
    obtain ⟨hidle, -⟩ : s.Idle ∧ s.Spares := by simpa only [Back, hb] using h.back
    exact ⟨h.current, h.next, h.used, ⟨hidle.buffersToWrite, hidle.batch, hidle.passed⟩⟩
  | test hb _ | wait hb _ =>
    obtain ⟨hidle, hspares⟩ : s.Idle ∧ s.Spares := by simpa only [Back, hb] using h.back
    exact ⟨h.current, h.next, h.used, ⟨⟨hidle.buffersToWrite, hidle.batch, hidle.passed⟩,
      hspares.newBuffer1, hspares.newBuffer2⟩⟩
  | swap hb hu =>
    obtain ⟨hidle, hspares⟩ := h.back.idle_spares hb
    exact h.swap hidle hspares hu
  | erase hb => exact h.erase hb
  | write hb hi => exact h.write hb hi
  | recycle hb hu => exact h.recycle hb hu

theorem Circulation.recycle (h : s.Circulation)
    (hwriting : s.backEnd = .writing s.buffersToWrite.length) (ht : s.recycle = some t) :
    Circulation { t with trail := t.trail ++ [t.batch], batch := ⟨[], []⟩, backEnd := .test } := by
  have hsupplied := h.toSupplied.recycle hwriting ht
  obtain ⟨htaken, -⟩ : s.Taken ∧ s.output.passed =
      s.passedOn ++ (s.batch.written.take s.buffersToWrite.length).flatten := by
    simpa only [Back, hwriting] using h.back
  obtain ⟨b1, b2, -, -, hrecycle⟩ := htaken.exists_recycle
  obtain rfl := Option.some.inj (hrecycle.symm.trans ht)
  refine ⟨hsupplied, ?_, ?_⟩
  · have hlines := h.lines
    simpa [contents, batches] using hlines
  · intro c hc hne
    rcases List.mem_append.mp hc with hbatches | hlast
    · exact h.erased c hbatches hne
    · obtain rfl := List.mem_singleton.mp hlast
      exact absurd rfl hne

theorem Circulation.step (h : s.Circulation) (ht : step s l = some t) : t.Circulation := by
  have hsupplied := h.toSupplied.step ht
  cases steps_of_step ht with
  | append hline hu => exact h.append hline hu
  | start _ | callStop _ _ | storeStop _ | join _ _ | test _ _ | exit _ _ | wait _ _ | write _ _ =>
    exact ⟨hsupplied, h.lines, h.erased⟩
  | swap hb hu =>
    obtain ⟨hidle, hspares⟩ := h.back.idle_spares hb
    exact h.swap hidle hspares hu
  | erase hb => exact h.erase hb
  | recycle hb hu => exact h.recycle hb hu

theorem circulation_of_run {ls : List Label} (h : run step new ls = some s) : s.Circulation :=
  invariant_run (fun _ _ _ hs hstep => Circulation.step hs hstep) circulation_new h

theorem batches_written (s : AsyncLogging) :
    (s.batches.map (·.written)).flatten.flatten = s.passedOn ++ s.batch.written.flatten := by
  simp [batches, passedOn]

theorem Idle.passed_append_unwritten (h : s.Idle) : s.output.passed ++
    (s.buffersToWrite.map (·.data)).flatten = (s.batches.map (·.written)).flatten.flatten := by
  rw [batches_written, h.passed, h.buffersToWrite, h.batch]
  rfl

theorem Circulation.passed_append_unwritten (h : s.Circulation) : s.output.passed ++
    (s.unwritten.map (·.data)).flatten = (s.batches.map (·.written)).flatten.flatten := by
  have hback := h.back
  simp only [Back] at hback
  cases hb : s.backEnd with
  | notStarted | exited =>
    rw [hb] at hback
    simpa only [unwritten, hb] using Idle.passed_append_unwritten hback
  | test | tested | waiting =>
    rw [hb] at hback
    simpa only [unwritten, hb] using Idle.passed_append_unwritten hback.1
  | swapped =>
    rw [hb] at hback
    obtain ⟨htaken, -, hpassed⟩ := hback
    rw [batches_written, hpassed, htaken.batch, unwritten, hb]
  | writing i =>
    rw [hb] at hback
    obtain ⟨htaken, hpassed⟩ := hback
    simp only [unwritten, hb]
    rw [batches_written, hpassed, List.append_assoc, List.map_drop, ← htaken.batch,
      ← List.flatten_append, List.take_append_drop]

/-- Whatever threads append, and wherever `threadFunc` is: no line is lost that was not in an
erased buffer. -/
theorem noLoss_of_run {ls : List Label} (h : run step new ls = some s) : s.NoLoss where
  lines := (circulation_of_run h).lines
  kept := by
    rw [(circulation_of_run h).passed_append_unwritten, kept, List.flatten_append,
      List.flatten_append]
  erased := (circulation_of_run h).erased

def busyRun : List Label :=
  [.append [97], .start, .test, .append [98], .wait, .swap, .append [99], .erase, .write,
    .append [100], .recycle, .test, .wait, .swap, .append [101]]

theorem noLoss_busyRun : ∃ s, run step new busyRun = some s ∧ s.output.flushed = [97, 98] ∧
    s.buffersToWrite.map (·.data) = [[99, 100]] ∧ s.NoLoss := by
  have hrun : (run step new busyRun).any (fun s => s.output.flushed = [97, 98] ∧
      s.buffersToWrite.map (·.data) = [[99, 100]]) = true := by decide
  obtain ⟨s, hs, hstate⟩ := (Option.any_eq_true _ _).mp hrun
  obtain ⟨hflushed, hwrite⟩ := of_decide_eq_true hstate
  exact ⟨s, hs, hflushed, hwrite, noLoss_of_run hs⟩

end WebServer.Mymuduo.AsyncLogging
