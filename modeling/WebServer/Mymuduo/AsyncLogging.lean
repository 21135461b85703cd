import WebServer.Lib.Run
import WebServer.Mymuduo.FixedBuffer

/-! The asynchronous log: any number of threads that append lines, the thread that writes them,
and `start` and `stop`.  Every step is a critical section or works on local variables. -/

namespace WebServer.Mymuduo

open WebServer.Lib

abbrev LargeBuffer := FixedBuffer kLargeBuffer

/-- `passed` is what was passed to `append`, `flushed` the part of it that was flushed
to the file. -/
structure LogFile where
  passed : Bytes
  flushed : Bytes
  count : Nat
  deriving DecidableEq

namespace LogFile

def flushEveryN : Nat := 1024

def flush (f : LogFile) : LogFile := { f with flushed := f.passed }

def append (f : LogFile) (logline : Bytes) : LogFile :=
  let f := { f with passed := f.passed ++ logline, count := f.count + 1 }
  if flushEveryN ≤ f.count then { f with count := 0 }.flush else f

@[simp] theorem passed_append (f : LogFile) (logline : Bytes) :
    (f.append logline).passed = f.passed ++ logline := by
  simp only [append]
  split <;> rfl

end LogFile

/-- Where `threadFunc` is: not begun, at the test of `running_`, behind it, in `wait_for`, behind
the critical section, at `buffersToWrite[i]`, or at its end. -/
inductive BackEnd where
  | notStarted | test | tested | waiting | swapped
  | writing (i : Nat)
  | exited
  deriving DecidableEq

/-- The buffers of one iteration, by their contents: those to be written and those erased. -/
structure Batch where
  written : List Bytes
  erased : List Bytes
  deriving DecidableEq

inductive StopPhase where
  | no | called | stored
  deriving DecidableEq

/-- An empty pointer is `none`.  `lines` are the lines in the order of the lock, `due` those that
were there when `stop` was called; `batch` is the current iteration and `trail` has the earlier
ones. -/
structure AsyncLogging where
  running : Bool
  currentBuffer : Option LargeBuffer
  nextBuffer : Option LargeBuffer
  buffers : List LargeBuffer
  output : LogFile
  newBuffer1 : Option LargeBuffer
  newBuffer2 : Option LargeBuffer
  buffersToWrite : List LargeBuffer
  backEnd : BackEnd
  stopping : StopPhase
  lines : List Bytes
  due : List Bytes
  batch : Batch
  trail : List Batch

namespace AsyncLogging

inductive Label where
  | append (logline : Bytes)
  | start
  | callStop
  | storeStop
  | join
  /-- The steps of `threadFunc`. -/
  | test
  | wait
  | swap
  | erase
  | write
  | recycle
  deriving DecidableEq

def new : AsyncLogging where
  running := false
  currentBuffer := some .new
  nextBuffer := some .new
  buffers := []
  output := ⟨[], [], 0⟩
  newBuffer1 := none
  newBuffer2 := none
  buffersToWrite := []
  backEnd := .notStarted
  stopping := .no
  lines := []
  due := []
  batch := ⟨[], []⟩
  trail := []

/-- `none` when an empty pointer is followed. -/
def append (s : AsyncLogging) (logline : Bytes) : Option AsyncLogging :=
  s.currentBuffer.map fun b =>
    if logline.length < b.avail then { s with currentBuffer := some (b.append logline) }
    else
      { s with
        buffers := s.buffers ++ [b]
        currentBuffer := some ((s.nextBuffer.getD .new).append logline)
        nextBuffer := none }

/-- The end of the critical section of `threadFunc`. -/
def swap (s : AsyncLogging) : Option AsyncLogging :=
  s.currentBuffer.map fun b =>
    { s with
      buffers := s.buffersToWrite
      buffersToWrite := s.buffers ++ [b]
      currentBuffer := s.newBuffer1
      newBuffer1 := none
      nextBuffer := if s.nextBuffer.isNone then s.newBuffer2 else s.nextBuffer
      newBuffer2 := if s.nextBuffer.isNone then none else s.newBuffer2 }

def erase (s : AsyncLogging) : AsyncLogging :=
  if 25 < s.buffersToWrite.length then
    { s with
      buffersToWrite := s.buffersToWrite.take 2
      batch := ⟨s.batch.written.take 2, s.batch.written.drop 2⟩ }
  else s

/-- A spare buffer that was handed out is replaced by the last of the written ones. -/
def refill (slot : Option LargeBuffer) (bs : List LargeBuffer) :
    Option (LargeBuffer × List LargeBuffer) :=
  match slot with
  | some b => some (b, bs)
  | none => bs.getLast?.map fun b => (b.reset, bs.dropLast)

/-- The end of an iteration. -/
def recycle (s : AsyncLogging) : Option AsyncLogging :=
  let bs := if 2 < s.buffersToWrite.length then s.buffersToWrite.take 2 else s.buffersToWrite
  (refill s.newBuffer1 bs).bind fun (newBuffer1, bs) =>
    (refill s.newBuffer2 bs).map fun (newBuffer2, _) =>
      { s with
        newBuffer1 := some newBuffer1
        newBuffer2 := some newBuffer2
        buffersToWrite := []
        output := s.output.flush }

/-- Lines are shorter than a buffer.  `start` and `stop` are called in turns. -/
def step (s : AsyncLogging) : Label → Option AsyncLogging
  | .append logline =>
    if logline.length < kLargeBuffer then
      (s.append logline).map fun s => { s with lines := s.lines ++ [logline] }
    else none
  | .start =>
    if s.backEnd = .notStarted then
      some { s with
        running := true
        output := { s.output with count := 0 }
        newBuffer1 := some .new
        newBuffer2 := some .new
        backEnd := .test }
    else none
  | .callStop =>
    if s.backEnd ≠ .notStarted ∧ s.stopping = .no then
      some { s with stopping := .called, due := s.lines }
    else none
  | .storeStop =>
    if s.stopping = .called then some { s with running := false, stopping := .stored } else none
  | .join =>
    if s.backEnd = .exited ∧ s.stopping = .stored then
      some { s with backEnd := .notStarted, stopping := .no }
    else none
  | .test =>
    if s.backEnd = .test then
      if s.running then some { s with backEnd := .tested }
      else some { s with output := s.output.flush, backEnd := .exited }
    else none
  | .wait =>
    if s.backEnd = .tested ∧ s.buffers = [] then some { s with backEnd := .waiting } else none
  | .swap =>
    if s.backEnd = .waiting ∨ s.backEnd = .tested ∧ s.buffers ≠ [] then
      s.swap.map fun s =>
        { s with batch := ⟨s.buffersToWrite.map (·.data), []⟩, backEnd := .swapped }
    else none
  | .erase =>
    if s.backEnd = .swapped then some { s.erase with backEnd := .writing 0 } else none
  | .write =>
    match s.backEnd with
    | .writing i =>
      s.buffersToWrite[i]?.map fun b =>
        { s with output := s.output.append b.data, backEnd := .writing (i + 1) }
    | _ => none
  | .recycle =>
    if s.backEnd = .writing s.buffersToWrite.length then
      s.recycle.map fun s =>
        { s with trail := s.trail ++ [s.batch], batch := ⟨[], []⟩, backEnd := .test }
    else none

inductive Steps (s : AsyncLogging) : Label → AsyncLogging → Prop where
  | append {logline : Bytes} {u : AsyncLogging} (short : logline.length < kLargeBuffer)
      (appended : s.append logline = some u) :
      Steps s (.append logline) { u with lines := u.lines ++ [logline] }
  | start (notStarted : s.backEnd = .notStarted) :
      Steps s .start { s with
        running := true
        output := { s.output with count := 0 }
        newBuffer1 := some .new
        newBuffer2 := some .new
        backEnd := .test }
  | callStop (started : s.backEnd ≠ .notStarted) (no : s.stopping = .no) :
      Steps s .callStop { s with stopping := .called, due := s.lines }
  | storeStop (called : s.stopping = .called) :
      Steps s .storeStop { s with running := false, stopping := .stored }
  | join (exited : s.backEnd = .exited) (stored : s.stopping = .stored) :
      Steps s .join { s with backEnd := .notStarted, stopping := .no }
  | test (test : s.backEnd = .test) (running : s.running = true) :
      Steps s .test { s with backEnd := .tested }
  | exit (test : s.backEnd = .test) (stopped : s.running = false) :
      Steps s .test { s with output := s.output.flush, backEnd := .exited }
  | wait (tested : s.backEnd = .tested) (empty : s.buffers = []) :
      Steps s .wait { s with backEnd := .waiting }
  | swap {u : AsyncLogging} (locked : s.backEnd = .waiting ∨ s.backEnd = .tested)
      (swapped : s.swap = some u) :
      Steps s .swap
        { u with batch := ⟨u.buffersToWrite.map (·.data), []⟩, backEnd := .swapped }
  | erase (swapped : s.backEnd = .swapped) :
      Steps s .erase { s.erase with backEnd := .writing 0 }
  | write {i : Nat} {b : LargeBuffer} (writing : s.backEnd = .writing i)
      (buffer : s.buffersToWrite[i]? = some b) :
      Steps s .write { s with output := s.output.append b.data, backEnd := .writing (i + 1) }
  | recycle {u : AsyncLogging} (written : s.backEnd = .writing s.buffersToWrite.length)
      (recycled : s.recycle = some u) :
      Steps s .recycle
        { u with trail := u.trail ++ [u.batch], batch := ⟨[], []⟩, backEnd := .test }

theorem steps_of_step {s t : AsyncLogging} {l : Label} (h : step s l = some t) : Steps s l t := by
  cases l with
  | append logline =>
    simp only [step, Option.ite_none_right_eq_some, Option.map_eq_some_iff] at h
    obtain ⟨hshort, u, hu, rfl⟩ := h
    exact .append hshort hu
  | start =>
    simp only [step, Option.ite_none_right_eq_some, Option.some.injEq] at h
    obtain ⟨hb, rfl⟩ := h
    exact .start hb
  | callStop =>
    simp only [step, Option.ite_none_right_eq_some, Option.some.injEq] at h
    obtain ⟨⟨hb, hno⟩, rfl⟩ := h
    exact .callStop hb hno
  | storeStop =>
    simp only [step, Option.ite_none_right_eq_some, Option.some.injEq] at h
    obtain ⟨hcalled, rfl⟩ := h
    exact .storeStop hcalled
  | join =>
    simp only [step, Option.ite_none_right_eq_some, Option.some.injEq] at h
    obtain ⟨⟨hexited, hstored⟩, rfl⟩ := h
    exact .join hexited hstored
  | test =>
    simp only [step, Option.ite_none_right_eq_some] at h
    obtain ⟨hb, h⟩ := h
    split at h
    · next hrunning =>
      obtain rfl := Option.some.inj h
      exact .test hb hrunning
    · next hrunning =>
      obtain rfl := Option.some.inj h
      exact .exit hb (Bool.eq_false_of_not_eq_true hrunning)
  | wait =>
    simp only [step, Option.ite_none_right_eq_some, Option.some.injEq] at h
    obtain ⟨⟨hb, hempty⟩, rfl⟩ := h
    exact .wait hb hempty
  | swap =>
    simp only [step, Option.ite_none_right_eq_some, Option.map_eq_some_iff] at h
    obtain ⟨hb, u, hu, rfl⟩ := h
    exact .swap (hb.imp_right And.left) hu
  | erase =>
    simp only [step, Option.ite_none_right_eq_some, Option.some.injEq] at h
    obtain ⟨hb, rfl⟩ := h
    exact .erase hb
  | write =>
    simp only [step] at h
    split at h
    · next i hb =>
      obtain ⟨b, hi, rfl⟩ := Option.map_eq_some_iff.mp h
      exact .write hb hi
    · cases h
  | recycle =>
    simp only [step, Option.ite_none_right_eq_some, Option.map_eq_some_iff] at h
    obtain ⟨hb, u, hu, rfl⟩ := h
    exact .recycle hb hu

def unwritten (s : AsyncLogging) : List LargeBuffer :=
  match s.backEnd with
  | .writing i => s.buffersToWrite.drop i
  | _ => s.buffersToWrite

def batches (s : AsyncLogging) : List Batch := s.trail ++ [s.batch]

/-- The contents of all buffers there ever were, from the first one that was swapped out to
`currentBuffer_`. -/
def contents (s : AsyncLogging) : List Bytes :=
  (s.batches.map fun b => b.written ++ b.erased).flatten ++ s.buffers.map (·.data) ++
    s.currentBuffer.toList.map (·.data)

def kept (s : AsyncLogging) : List Bytes :=
  (s.batches.map (·.written)).flatten ++ s.buffers.map (·.data) ++
    s.currentBuffer.toList.map (·.data)

/-- The contents are the lines in order, cut between lines. -/
def WholeLines (lines contents : List Bytes) : Prop :=
  ∃ groups : List (List Bytes), groups.flatten = lines ∧ groups.map List.flatten = contents

/-- No line is lost but with an erased buffer, none is repeated, split or moved. -/
structure NoLoss (s : AsyncLogging) : Prop where
  /-- The buffers have the appended lines. -/
  lines : WholeLines s.lines s.contents
  /-- What was passed on and what is in the buffers are the lines but for the erased buffers. -/
  kept : s.output.passed ++ (s.unwritten.map (·.data)).flatten ++
    (s.buffers.map (·.data)).flatten ++ (s.currentBuffer.toList.map (·.data)).flatten =
    s.kept.flatten
  /-- Buffers are erased in iterations of more than 25, from the third one on. -/
  erased : ∀ b ∈ s.batches, b.erased ≠ [] →
    b.written.length = 2 ∧ 25 < b.written.length + b.erased.length

end AsyncLogging

end WebServer.Mymuduo
