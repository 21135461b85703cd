import WebServer.Mymuduo.AppendFile
import WebServer.Mymuduo.LogProgress

namespace WebServer.Mymuduo

open WebServer.Lib

namespace AppendFile

/-- No call of `fwrite_unlocked` that was given bytes has taken none. -/
def Takes (f : AppendFile) : Prop := ∀ w ∈ f.writes, 0 < w.count → 0 < w.taken

instance (f : AppendFile) : Decidable f.Takes := inferInstanceAs (Decidable (∀ w ∈ f.writes, _))

theorem count_of_contiguous {size n : Nat} {ws : List FileWrite} {w : FileWrite}
    (h : Contiguous size n (ws ++ [w])) : w.count = size - (n + total ws) := by
  induction ws generalizing n with
  | nil => exact h.2.1
  | cons v ws ih =>
    have hrest := ih h.2.2.2
    simpa [total, Nat.add_assoc] using hrest

theorem exists_append_take (k : Fwrite) (f : AppendFile) {logline : Bytes}
    (hline : logline.length < sizeMod) : ∃ a n ws,
      f.append k logline (logline.length + 1) = .ok a ∧ a.file.writes = f.writes ++ ws ∧
      a.file.content = f.content ++ logline.take n ∧
      (a.file.Takes → logline.take n = logline) := by
  obtain ⟨a, first, inner, ha, hwritten, hcond⟩ := exists_append k f hline
  refine ⟨a, a.n, _, ha, hwritten.writes, hwritten.content, fun htakes => ?_⟩
  simp only [goesOn, Bool.and_eq_false_iff, Bool.not_eq_false', decide_eq_false_iff_not] at hcond
  have hremain := hwritten.remain_eq
  by_contra hshort
  have hlt : a.n < logline.length :=
    Nat.lt_of_not_le fun hle => hshort (List.take_of_length_le hle)
  obtain ⟨w, hlast, htaken⟩ := hwritten.ended (hcond.resolve_right (by omega))
  obtain ⟨ws, rfl⟩ := List.getLast?_eq_some_iff.mp hlast
  have hcontiguous : Contiguous logline.length 0 ((first :: ws) ++ [w]) := hwritten.contiguous
  have hcount := count_of_contiguous hcontiguous
  have htotal : a.n = total (first :: ws) := by
    rw [hwritten.n_eq, ← List.cons_append, total_concat, htaken, Nat.add_zero]
  have hpos := htakes w (by simp [hwritten.writes]) (by omega)
  omega

end AppendFile

/-- `LogFile` with its `file_`; `flushed` is what `fflush` has found in it the last time. -/
structure LogOutput where
  file : AppendFile
  flushed : Bytes
  count : Nat

namespace LogOutput

inductive Call where
  | construct
  | append (logline : Bytes)
  | flush

def Call.logline : Call → Option Bytes
  | .append logline => some logline
  | .construct | .flush => none

def new : LogOutput := ⟨⟨[], [], false⟩, [], 0⟩

def flush (f : LogOutput) : LogOutput := { f with flushed := f.file.content }

/-- `appendInLock`; the loop of `AppendFile::append` takes a byte in each round at least. -/
def append (k : Fwrite) (f : LogOutput) (logline : Bytes) : Option LogOutput :=
  (f.file.append k logline (logline.length + 1)).toOption.map fun a =>
    let f := { f with file := a.file, count := f.count + 1 }
    if LogFile.flushEveryN ≤ f.count then { f with count := 0 }.flush else f

/-- The constructor opens the file behind what it has. -/
def step (k : Fwrite) (f : LogOutput) : Call → Option LogOutput
  | .construct => some { f with file := { f.file with error := false }, count := 0 }
  | .append logline => f.append k logline
  | .flush => some f.flush

end LogOutput

def LogFile.call (o : LogFile) : LogOutput.Call → LogFile
  | .construct => { o with count := 0 }
  | .append logline => o.append logline
  | .flush => o.flush

theorem LogFile.passed_foldl (o : LogFile) (cs : List LogOutput.Call) :
    (cs.foldl LogFile.call o).passed =
      o.passed ++ (cs.filterMap LogOutput.Call.logline).flatten := by
  induction cs generalizing o with
  | nil => simp
  | cons c cs ih =>
    rw [List.foldl_cons, ih]
    cases c with
    | construct | flush => rfl
    | append logline =>
      simp [LogFile.call, LogOutput.Call.logline, List.append_assoc]

namespace LogOutput

variable {k : Fwrite} {f g : LogOutput} {o : LogFile} {logline : Bytes}

structure Holds (f : LogOutput) (o : LogFile) : Prop where
  count : f.count = o.count
  passed : f.file.Takes → f.file.content = o.passed
  flushed : f.file.Takes → f.flushed = o.flushed

theorem Holds.flush (h : Holds f o) : Holds f.flush o.flush := ⟨h.count, h.passed, h.passed⟩

theorem Holds.construct (h : Holds f o) :
    Holds { f with file := { f.file with error := false }, count := 0 } { o with count := 0 } :=
  ⟨rfl, h.passed, h.flushed⟩

theorem exists_append (k : Fwrite) (f : LogOutput) (hline : logline.length < sizeMod) :
    ∃ g n, f.append k logline = some g ∧ g.file.content = f.file.content ++ logline.take n ∧
      (f.flushed <+: f.file.content → g.flushed <+: g.file.content) ∧
      ∀ o, Holds f o → Holds g (o.append logline) := by
  obtain ⟨a, n, ws, ha, hwrites, hcontent, htakes⟩ := f.file.exists_append_take k hline
  have htakes' (h : a.file.Takes) : f.file.Takes := fun w hw => h w (by simp [hwrites, hw])
  have happend : f.append k logline = some
      (if LogFile.flushEveryN ≤ f.count + 1 then
        (LogOutput.flush ⟨a.file, f.flushed, 0⟩) else ⟨a.file, f.flushed, f.count + 1⟩) := by
    rw [append, ha]
    rfl
  refine ⟨_, n, happend, ?_, fun hprev => ?_, fun o ho => ?_⟩
  · split <;> exact hcontent
  · split
    · exact List.prefix_rfl
    · exact hcontent ▸ hprev.trans (List.prefix_append _ _)
  · have hpassed (h : a.file.Takes) : a.file.content = o.passed ++ logline := by
      rw [hcontent, ho.passed (htakes' h), htakes h]
    rw [LogFile.append, ← ho.count]
    split
    · exact ⟨rfl, hpassed, hpassed⟩
    · exact ⟨rfl, hpassed, fun h => ho.flushed (htakes' h)⟩

/-- The file comes to have a part of each line, from its front, in the order of the calls; where no
call of `fwrite_unlocked` refuses, it is what `LogFile` is for the one that calls it. -/
theorem exists_run (k : Fwrite) (f : LogOutput) (hflushed : f.flushed <+: f.file.content)
    {cs : List Call} (hlines : ∀ c ∈ cs, ∀ logline ∈ c.logline, logline.length < sizeMod) :
    ∃ g parts, run (step k) f cs = some g ∧ g.flushed <+: g.file.content ∧
      g.file.content = f.file.content ++ parts.flatten ∧
      List.Forall₂ (· <+: ·) parts (cs.filterMap Call.logline) ∧
      ∀ o, Holds f o → Holds g (cs.foldl LogFile.call o) := by
  induction cs generalizing f with
  | nil => exact ⟨f, [], rfl, hflushed, by simp, .nil, fun _ ho => ho⟩
  | cons c cs ih =>
    obtain ⟨hc, hcs⟩ := List.forall_mem_cons.mp hlines
    cases c with
    | construct =>
      obtain ⟨g, parts, hg, hbegins, hcontent, hparts, hholds⟩ :=
        ih { f with file := { f.file with error := false }, count := 0 } hflushed hcs
      exact ⟨g, parts, hg, hbegins, hcontent, hparts, fun o ho => hholds _ ho.construct⟩
    | flush =>
      obtain ⟨g, parts, hg, hbegins, hcontent, hparts, hholds⟩ := ih f.flush List.prefix_rfl hcs
      exact ⟨g, parts, hg, hbegins, hcontent, hparts, fun o ho => hholds _ ho.flush⟩
    | append logline =>
      obtain ⟨m, n, hm, hfirst, hprev, happend⟩ := exists_append k f (hc logline rfl)
      obtain ⟨g, parts, hg, hbegins, hcontent, hparts, hholds⟩ := ih m (hprev hflushed) hcs
      refine ⟨g, logline.take n :: parts, run_cons.mpr ⟨m, hm, hg⟩, hbegins, ?_,
        .cons (List.take_prefix _ _) hparts, fun o ho => hholds _ (happend o ho)⟩
      rw [hcontent, hfirst, List.flatten_cons, List.append_assoc]

end LogOutput

namespace AsyncLogging

variable {s t : AsyncLogging} {l : Label} {k : Fwrite}

def outputCalls (s : AsyncLogging) : Label → List LogOutput.Call
  | .start => [.construct]
  | .test => if s.running then [] else [.flush]
  | .write =>
    match s.backEnd with
    | .writing i => (s.buffersToWrite[i]?).toList.map fun b => .append b.data
    | _ => []
  | .recycle => [.flush]
  | .append _ | .callStop | .storeStop | .join | .wait | .swap | .erase => []

def calls (ls : List Label) : List LogOutput.Call := relabel step outputCalls new ls

theorem length_logline (s : AsyncLogging) (l : Label) :
    ∀ c ∈ s.outputCalls l, ∀ logline ∈ c.logline, logline.length < sizeMod := by
  intro c hc logline hlogline
  cases c with
  | construct | flush => cases hlogline
  | append bytes =>
    obtain rfl := Option.some.inj hlogline
    cases l with
    | write =>
      simp only [outputCalls] at hc
      split at hc
      · obtain ⟨b, -, hb⟩ := List.mem_map.mp hc
        obtain rfl := LogOutput.Call.append.inj hb
        exact Nat.lt_of_le_of_lt b.length_le (by decide)
      · cases hc
    | test =>
      simp only [outputCalls] at hc
      split at hc <;> simp at hc
    | _ => simp [outputCalls] at hc

theorem output_of_step (ht : step s l = some t) :
    t.output = (s.outputCalls l).foldl LogFile.call s.output := by
  cases steps_of_step ht with
  | append _ hu =>
    obtain ⟨b, -, rfl⟩ := Option.map_eq_some_iff.mp hu
    simp only [outputCalls, List.foldl_nil]
    split <;> rfl
  | swap _ hu =>
    obtain ⟨b, -, rfl⟩ := Option.map_eq_some_iff.mp hu
    rfl
  | erase _ => exact (erase_batch s).2.1
  | recycle _ hu => exact (recycle_batch hu).2.2
  | test _ hrunning => simp [outputCalls, hrunning]
  | exit _ hstopped => simp [outputCalls, hstopped, LogFile.call]
  | write hb hi => simp [outputCalls, hb, hi, LogFile.call]
  | _ => rfl

/-- Under any appends and stops: what is in the file are parts of the buffers, each from its front,
in their order.  Where no call of `fwrite_unlocked` refuses, it is all that was passed on, however
small the parts that the calls take, and what is flushed are whole lines. -/
theorem run_written (k : Fwrite) {ls : List Label} (h : run step new ls = some s) :
    ∃ f parts, run (LogOutput.step k) .new (calls ls) = some f ∧
      f.flushed <+: f.file.content ∧ f.file.content = parts.flatten ∧
      List.Forall₂ (· <+: ·) parts ((calls ls).filterMap LogOutput.Call.logline) ∧
      s.output.passed = ((calls ls).filterMap LogOutput.Call.logline).flatten ∧
      (f.file.Takes → f.file.content = s.output.passed ∧ f.flushed = s.output.flushed ∧
        (s.NoBacklog → ∃ n, f.flushed = (s.lines.take n).flatten)) := by
  have houtput : s.output = (calls ls).foldl LogFile.call new.output :=
    relabel_foldl (fun _ _ _ => output_of_step) h
  have hlines : ∀ c ∈ calls ls, ∀ logline ∈ c.logline, logline.length < sizeMod :=
    forall_mem_relabel length_logline new ls
  obtain ⟨f, parts, hf, hflushed, hcontent, hparts, hholds⟩ :=
    LogOutput.exists_run k .new List.prefix_rfl hlines
  have hfiled : new.Filed := rfl
  have hs := hfiled.run circulation_new h
  have hf' := hholds new.output ⟨rfl, fun _ => rfl, fun _ => rfl⟩
  rw [← houtput] at hf'
  refine ⟨f, parts, hf, hflushed, hcontent, hparts, ?_, fun htakes => ?_⟩
  · rw [houtput, LogFile.passed_foldl]
    rfl
  · refine ⟨hf'.passed htakes, hf'.flushed htakes, fun hbacklog => ?_⟩
    rw [hf'.flushed htakes]
    exact (hs.2.exists_take hs.1 hbacklog).2

def twoBytes : Fwrite where
  taken _ count := min 2 count
  taken_le _ _ := Nat.min_le_right _ _
  fails _ := false

def oneIteration : List Label :=
  [.start, .append (ascii "first\n"), .append (ascii "second\n"), .test, .wait, .swap, .erase,
    .write, .recycle]

theorem run_written_twoBytes : ∃ s f, run step new oneIteration = some s ∧
    run (LogOutput.step twoBytes) .new (calls oneIteration) = some f ∧
    f.file.writes.length = 7 ∧ f.file.content = s.output.passed ∧ f.flushed = s.output.flushed ∧
    ∃ n, f.flushed = (s.lines.take n).flatten := by
  have hrun : ∃ s ∈ run step new oneIteration, s.NoBacklog := by decide +kernel
  obtain ⟨s, hs, hbacklog⟩ := hrun
  obtain ⟨f, parts, hf, -, -, -, -, hwhole⟩ := run_written twoBytes hs
  have houtput : (run (LogOutput.step twoBytes) .new (calls oneIteration)).any
      (fun f => f.file.Takes ∧ f.file.writes.length = 7) = true := by decide +kernel
  rw [hf] at houtput
  obtain ⟨htakes, hwrites⟩ := of_decide_eq_true houtput
  obtain ⟨hcontent, hflushed, hlines⟩ := hwhole htakes
  exact ⟨s, f, hs, hf, hwrites, hcontent, hflushed, hlines hbacklog⟩

end AsyncLogging

end WebServer.Mymuduo
