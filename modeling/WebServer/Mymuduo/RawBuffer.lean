import WebServer.Lib.Run
import WebServer.Mymuduo.Buffer

/-! `Buffer` with its indices as `size_t` and its vector bounded by `max_size()`, and the
byte queue that it implements as long as no sum of sizes wraps around. -/

namespace WebServer.Mymuduo

open WebServer.Lib

/-- `std::vector<char>::max_size()`; a larger request throws `std::length_error`. -/
def maxSize : Nat := 2 ^ 63 - 1

def sizeAdd (a b : Nat) : Nat := (a + b) % sizeMod

theorem sizeAdd_eq {a b : Nat} (h : a + b < sizeMod) : sizeAdd a b = a + b := Nat.mod_eq_of_lt h

structure RawBuffer where
  buffer : Bytes
  readerIndex : Nat
  writerIndex : Nat
  deriving DecidableEq

namespace RawBuffer

open Buffer (kCheapPretend kExtraSize)

/-- The constructor; `none` when the vector cannot be that large. -/
def new (initialSize : Nat) : Option RawBuffer :=
  if sizeAdd kCheapPretend initialSize ≤ maxSize then
    some ⟨List.replicate (sizeAdd kCheapPretend initialSize) 0, kCheapPretend, kCheapPretend⟩
  else none

def readableBytes (b : RawBuffer) : Nat := sizeSub b.writerIndex b.readerIndex
def writableBytes (b : RawBuffer) : Nat := sizeSub b.buffer.length b.writerIndex
def prependableBytes (b : RawBuffer) : Nat := b.readerIndex
def peek (b : RawBuffer) : Bytes := (b.buffer.drop b.readerIndex).take b.readableBytes

def retrieveAll (b : RawBuffer) : RawBuffer :=
  { b with readerIndex := kCheapPretend, writerIndex := kCheapPretend }

def retrieve (b : RawBuffer) (len : Nat) : RawBuffer :=
  if len < b.readableBytes then { b with readerIndex := sizeAdd b.readerIndex len }
  else b.retrieveAll

def retrieveUntil (b : RawBuffer) (off : Nat) : RawBuffer := b.retrieve off

def retrieveAsString (b : RawBuffer) (len : Nat) : Option (Bytes × RawBuffer) :=
  if b.readerIndex + len ≤ b.buffer.length then
    some ((b.buffer.drop b.readerIndex).take len, b.retrieve len)
  else none

/-- `none` when `resize` throws. -/
def makeSpace (b : RawBuffer) (len : Nat) : Option RawBuffer :=
  if sizeAdd b.writableBytes b.prependableBytes < sizeAdd len kCheapPretend then
    if sizeAdd b.writerIndex len ≤ maxSize then
      some { b with buffer := resize b.buffer (sizeAdd b.writerIndex len) }
    else none
  else
    some
      { buffer := copyTo b.buffer kCheapPretend b.peek
        readerIndex := kCheapPretend
        writerIndex := sizeAdd kCheapPretend b.readableBytes }

def ensureWritableBytes (b : RawBuffer) (len : Nat) : Option RawBuffer :=
  if b.writableBytes < len then b.makeSpace len else some b

def append (b : RawBuffer) (data : Bytes) : Option RawBuffer :=
  (b.ensureWritableBytes data.length).map fun c =>
    { c with
      buffer := copyTo c.buffer c.writerIndex data
      writerIndex := sizeAdd c.writerIndex data.length }

def readCapacity (b : RawBuffer) : Nat :=
  if b.writableBytes < kExtraSize then b.writableBytes + kExtraSize else b.writableBytes

def readFd (b : RawBuffer) : Except Errno Bytes → Option (Int × RawBuffer)
  | .error _ => some (-1, b)
  | .ok data =>
    if data.length ≤ b.writableBytes then
      some (data.length,
        { b with
          buffer := copyTo b.buffer b.writerIndex data
          writerIndex := sizeAdd b.writerIndex data.length })
    else
      let full : RawBuffer :=
        { b with
          buffer := copyTo b.buffer b.writerIndex (data.take b.writableBytes)
          writerIndex := b.buffer.length }
      (full.append (data.drop b.writableBytes)).map fun c => (data.length, c)

def Inv (b : RawBuffer) : Prop :=
  kCheapPretend ≤ b.readerIndex ∧ b.readerIndex ≤ b.writerIndex ∧
    b.writerIndex ≤ b.buffer.length

instance (b : RawBuffer) : Decidable b.Inv := inferInstanceAs (Decidable (_ ∧ _ ∧ _))

/-- A call of a public member, or the data or failure `readv` delivers to `readFd`. -/
inductive Op where
  | append (data : Bytes)
  | retrieve (len : Nat)
  | retrieveUntil (off : Nat)
  | retrieveAll
  | retrieveAsString (len : Nat)
  | ensureWritableBytes (len : Nat)
  | readFd (delivered : Except Errno Bytes)

/-- `none` when the call throws. -/
def step (b : RawBuffer) : Op → Option RawBuffer
  | .append data => b.append data
  | .retrieve len => some (b.retrieve len)
  | .retrieveUntil off => some (b.retrieveUntil off)
  | .retrieveAll => some b.retrieveAll
  | .retrieveAsString len => (b.retrieveAsString len).map Prod.snd
  | .ensureWritableBytes len => b.ensureWritableBytes len
  | .readFd delivered => (b.readFd delivered).map Prod.snd

def Op.onQueue (q : Bytes) : Op → Bytes
  | .append data => q ++ data
  | .retrieve len => q.drop len
  | .retrieveUntil off => q.drop off
  | .retrieveAll => []
  | .retrieveAsString len => q.drop len
  | .ensureWritableBytes _ => q
  | .readFd (.ok data) => q ++ data
  | .readFd (.error _) => q

/-- What a caller owes: a range of memory to append, an end within the readable part, and
from the kernel no more than the iovecs can take. -/
def Op.Legal (b : RawBuffer) : Op → Prop
  | .append data => data.length ≤ maxSize
  | .retrieve len => len < sizeMod
  | .retrieveUntil off => off ≤ b.readableBytes
  | .retrieveAll => True
  | .retrieveAsString len => len ≤ b.readableBytes
  | .ensureWritableBytes len => len < sizeMod
  | .readFd (.ok data) => data.length ≤ b.readCapacity
  | .readFd (.error _) => True

/-- `writerIndex_ + len` does not wrap around where `makeSpace` computes it. -/
def Op.NoWrap (b : RawBuffer) : Op → Prop
  | .ensureWritableBytes len => sizeMod ≤ len + kCheapPretend ∨ b.writerIndex + len < sizeMod
  | _ => True

/-- Every run of steps that meet `ok`, from a buffer of the given initial size, keeps the
index order and holds what a byte queue holds after the same calls. -/
def RefinesQueue (ok : RawBuffer → Op → Prop) (initialSize : Nat) : Prop :=
  ∀ start ops b, new initialSize = some start → Along step ok start ops →
    run step start ops = some b → b.Inv ∧ b.peek = ops.foldl Op.onQueue []

end RawBuffer

def Buffer.toRaw (b : Buffer) : RawBuffer := ⟨b.buffer, b.readerIndex, b.writerIndex⟩

namespace RawBuffer

open Buffer (kCheapPretend kExtraSize)

theorem inv_toRaw (b : Buffer) : b.toRaw.Inv :=
  ⟨b.cheap_le_reader, b.reader_le_writer, b.writer_le_size⟩

theorem maxSize_lt_sizeMod : maxSize + maxSize < sizeMod := by decide

variable {b : Buffer}

theorem readableBytes_toRaw (b : Buffer) : b.toRaw.readableBytes = b.readableBytes :=
  sizeSub_of_le b.reader_le_writer

theorem writableBytes_toRaw (b : Buffer) : b.toRaw.writableBytes = b.writableBytes :=
  sizeSub_of_le b.writer_le_size

theorem peek_toRaw (b : Buffer) : b.toRaw.peek = b.peek := by
  rw [peek, readableBytes_toRaw]
  rfl

theorem retrieve_toRaw (hb : b.buffer.length ≤ maxSize) (len : Nat) :
    b.toRaw.retrieve len = (b.retrieve len).toRaw := by
  have h₁ := b.reader_le_writer
  have h₂ := b.writer_le_size
  have h₃ := maxSize_lt_sizeMod
  simp only [retrieve, Buffer.retrieve, readableBytes_toRaw]
  split
  · next h =>
    simp only [Buffer.readableBytes] at h
    simp only [Buffer.toRaw]
    rw [sizeAdd_eq (by omega)]
  · rfl

theorem room_toRaw (hb : b.buffer.length ≤ maxSize) :
    sizeAdd b.toRaw.writableBytes b.toRaw.prependableBytes =
      b.writableBytes + b.prependableBytes := by
  have h₂ := b.reader_le_writer
  have h₃ := b.writer_le_size
  have h₄ := maxSize_lt_sizeMod
  rw [writableBytes_toRaw]
  exact sizeAdd_eq (by simp only [Buffer.writableBytes, prependableBytes, Buffer.toRaw]; omega)

theorem compact_toRaw (hb : b.buffer.length ≤ maxSize) :
    (⟨copyTo b.toRaw.buffer kCheapPretend b.toRaw.peek, kCheapPretend,
      sizeAdd kCheapPretend b.toRaw.readableBytes⟩ : RawBuffer) = b.compact.toRaw := by
  have h₁ := b.cheap_le_reader
  have h₂ := b.reader_le_writer
  have h₃ := b.writer_le_size
  have h₄ := maxSize_lt_sizeMod
  rw [peek_toRaw, readableBytes_toRaw, sizeAdd_eq]
  · rfl
  · simp only [Buffer.readableBytes]
    omega

theorem length_compact_le (hb : b.buffer.length ≤ maxSize) :
    b.compact.buffer.length ≤ maxSize := by
  have h₁ := b.cheap_le_reader
  have h₂ := b.reader_le_writer
  have h₃ := b.writer_le_size
  simp only [Buffer.compact]
  rw [length_copyTo]
  · exact hb
  · simp only [Buffer.length_peek, Buffer.readableBytes]
    omega

/-- What `makeSpace` does to a well-formed buffer: unless a sum wraps around, it throws or
leaves a well-formed buffer with the same content. -/
theorem makeSpace_toRaw (hb : b.buffer.length ≤ maxSize) {len : Nat} {r : RawBuffer}
    (hlen : len < sizeMod) (hw : sizeMod ≤ len + kCheapPretend ∨ b.writerIndex + len < sizeMod)
    (h : b.toRaw.makeSpace len = some r) :
    ∃ c : Buffer, r = c.toRaw ∧ c.peek = b.peek ∧ c.buffer.length ≤ maxSize ∧
      (len + kCheapPretend < sizeMod → c = b.makeSpace len) := by
  have h₁ := b.cheap_le_reader
  have hcompactSize := length_compact_le hb
  simp only [makeSpace, room_toRaw hb, compact_toRaw hb] at h
  by_cases hwrap : len + kCheapPretend < sizeMod
  · have hw' : b.writerIndex + len < sizeMod := by omega
    rw [sizeAdd_eq hwrap, sizeAdd_eq (a := b.toRaw.writerIndex) hw'] at h
    simp only [Buffer.makeSpace]
    split at h
    · next hlt =>
      split at h
      · next hmax =>
        obtain rfl := Option.some.inj h
        refine ⟨b.makeSpace len, ?_, b.peek_makeSpace len, ?_, fun _ => ?_⟩
        · simp only [Buffer.makeSpace, if_pos hlt]; rfl
        · simp only [Buffer.makeSpace, if_pos hlt, length_resize]
          exact hmax
        · simp only [Buffer.makeSpace]
      · cases h
    · next hge =>
      obtain rfl := Option.some.inj h
      exact ⟨b.compact, rfl, b.peek_compact, hcompactSize, fun _ => (if_neg hge).symm⟩
  · -- `len + kCheapPretend` wrapped to less than `kCheapPretend`, so the content is moved
    have hsmall : sizeAdd len kCheapPretend < kCheapPretend := by
      rw [sizeAdd, Nat.mod_eq_sub_mod (by omega), Nat.mod_eq_of_lt] <;>
        simp only [kCheapPretend, sizeMod] at * <;> omega
    rw [if_neg] at h
    · obtain rfl := Option.some.inj h
      exact ⟨b.compact, rfl, b.peek_compact, hcompactSize, fun hc => absurd hc hwrap⟩
    · simp only [Buffer.prependableBytes]; omega

theorem ensureWritableBytes_toRaw (hb : b.buffer.length ≤ maxSize) {len : Nat} {r : RawBuffer}
    (hlen : len < sizeMod) (hw : sizeMod ≤ len + kCheapPretend ∨ b.writerIndex + len < sizeMod)
    (h : b.toRaw.ensureWritableBytes len = some r) :
    ∃ c : Buffer, r = c.toRaw ∧ c.peek = b.peek ∧ c.buffer.length ≤ maxSize ∧
      (len + kCheapPretend < sizeMod → c = b.ensureWritableBytes len) := by
  simp only [ensureWritableBytes, writableBytes_toRaw] at h
  simp only [Buffer.ensureWritableBytes]
  split at h
  · next hlt =>
    simp only [if_pos hlt]
    exact makeSpace_toRaw hb hlen hw h
  · next hge =>
    obtain rfl := Option.some.inj h
    exact ⟨b, rfl, rfl, hb, fun _ => (if_neg hge).symm⟩

theorem append_toRaw (hb : b.buffer.length ≤ maxSize) {data : Bytes} {r : RawBuffer}
    (hdata : data.length ≤ maxSize) (h : b.toRaw.append data = some r) :
    r = (b.append data).toRaw ∧ (b.append data).buffer.length ≤ maxSize := by
  have hw := b.writer_le_size
  have hmod := maxSize_lt_sizeMod
  obtain ⟨c, hc, rfl⟩ := Option.map_eq_some_iff.mp h
  have hcheap : data.length + kCheapPretend < sizeMod := by
    have : maxSize + kCheapPretend < sizeMod := by decide
    omega
  obtain ⟨c, rfl, -, hmax, heq⟩ :=
    ensureWritableBytes_toRaw hb (by omega) (.inr (by omega)) hc
  obtain rfl := heq hcheap
  have hfit := (b.append data).writer_le_size
  have hsize : (b.append data).buffer.length =
      (b.ensureWritableBytes data.length).buffer.length := by
    have hroom := b.le_writableBytes_ensureWritableBytes data.length
    have hle := (b.ensureWritableBytes data.length).writer_le_size
    simp only [Buffer.writableBytes] at hroom
    simp only [Buffer.append]
    rw [length_copyTo]
    omega
  refine ⟨?_, by omega⟩
  have hsum : (b.ensureWritableBytes data.length).toRaw.writerIndex + data.length < sizeMod := by
    have : (b.append data).writerIndex ≤ maxSize := by omega
    simp only [Buffer.append] at this
    simp only [Buffer.toRaw]
    omega
  rw [sizeAdd_eq hsum]
  rfl

theorem readFd_toRaw (hb : b.buffer.length ≤ maxSize) {delivered : Except Errno Bytes} {n : Int}
    {r : RawBuffer} (hfit : Op.Legal b.toRaw (.readFd delivered))
    (h : b.toRaw.readFd delivered = some (n, r)) :
    n = (b.readFd delivered).1 ∧ r = (b.readFd delivered).2.toRaw ∧
      (b.readFd delivered).2.buffer.length ≤ maxSize := by
  have hw := b.writer_le_size
  have hmod := maxSize_lt_sizeMod
  cases delivered with
  | error e =>
    obtain ⟨rfl, rfl⟩ : -1 = n ∧ b.toRaw = r := by simpa [readFd] using h
    exact ⟨rfl, rfl, hb⟩
  | ok data =>
    simp only [readFd, writableBytes_toRaw] at h
    simp only [Buffer.readFd]
    by_cases hle : data.length ≤ b.writableBytes
    · rw [if_pos hle] at h
      obtain ⟨rfl, rfl⟩ := Prod.mk.inj (Option.some.inj h)
      rw [dif_pos hle]
      simp only [Buffer.writableBytes] at hle
      refine ⟨rfl, ?_, ?_⟩
      · rw [sizeAdd_eq (by simp only [Buffer.toRaw]; omega)]
        rfl
      · simp only
        rw [length_copyTo]
        · exact hb
        · omega
    · rw [if_neg hle] at h
      rw [dif_neg hle]
      obtain ⟨c, hc, heq⟩ := Option.map_eq_some_iff.mp h
      obtain ⟨rfl, rfl⟩ := Prod.mk.inj heq
      have hfull : (copyTo b.buffer b.writerIndex (data.take b.writableBytes)).length =
          b.buffer.length := by
        apply length_copyTo
        simp only [List.length_take, Buffer.writableBytes] at hle ⊢
        omega
      have hdrop : (data.drop b.writableBytes).length ≤ maxSize := by
        -- what overflows the vector fits `extrabuf`
        have hextra : kExtraSize ≤ maxSize := by decide
        simp only [Op.Legal, readCapacity, writableBytes_toRaw] at hfit
        rw [List.length_drop]
        split at hfit <;> omega
      obtain ⟨rfl, hsize⟩ := append_toRaw (b := ⟨copyTo b.buffer b.writerIndex
        (data.take b.writableBytes), b.readerIndex, b.buffer.length, b.cheap_le_reader,
        b.reader_le_writer.trans hw, hfull.ge⟩) (by simpa only [hfull] using hb) hdrop hc
      exact ⟨rfl, rfl, hsize⟩

def Represents (r : RawBuffer) (q : Bytes) : Prop :=
  ∃ b : Buffer, r = b.toRaw ∧ b.buffer.length ≤ maxSize ∧ b.peek = q

theorem new_represents {initialSize : Nat} (h : initialSize + kCheapPretend < sizeMod)
    {r : RawBuffer} (hr : new initialSize = some r) : Represents r [] := by
  have hsum : sizeAdd kCheapPretend initialSize = kCheapPretend + initialSize :=
    sizeAdd_eq (by omega)
  simp only [new, hsum] at hr
  split at hr
  · next hmax =>
    obtain rfl := Option.some.inj hr
    exact ⟨Buffer.new initialSize, rfl, by simpa [Buffer.new] using hmax, Buffer.peek_new _⟩
  · cases hr

theorem step_represents {r s : RawBuffer} {q : Bytes} {op : Op} (hq : Represents r q)
    (hlegal : Op.Legal r op) (hwrap : Op.NoWrap r op) (h : step r op = some s) :
    Represents s (op.onQueue q) := by
  obtain ⟨b, rfl, hb, rfl⟩ := hq
  have hretrieve : ∀ len, (b.retrieve len).buffer.length ≤ maxSize := by
    intro len
    simp only [Buffer.retrieve]
    split <;> exact hb
  cases op with
  | append data =>
    obtain ⟨rfl, hsize⟩ := append_toRaw hb hlegal h
    exact ⟨_, rfl, hsize, b.peek_append data⟩
  | retrieve len =>
    obtain rfl := Option.some.inj h
    exact ⟨_, retrieve_toRaw hb len, hretrieve len, b.peek_retrieve len⟩
  | retrieveUntil off =>
    obtain rfl := Option.some.inj h
    exact ⟨_, retrieve_toRaw hb off, hretrieve off, b.peek_retrieve off⟩
  | retrieveAll =>
    obtain rfl := Option.some.inj h
    exact ⟨b.retrieveAll, rfl, hb, b.peek_retrieveAll⟩
  | retrieveAsString len =>
    obtain ⟨⟨str, c⟩, hc, rfl⟩ := Option.map_eq_some_iff.mp h
    simp only [retrieveAsString] at hc
    split at hc
    · obtain ⟨-, rfl⟩ := Prod.mk.inj (Option.some.inj hc)
      exact ⟨_, retrieve_toRaw hb len, hretrieve len, b.peek_retrieve len⟩
    · cases hc
  | ensureWritableBytes len =>
    obtain ⟨c, rfl, hpeek, hsize, -⟩ := ensureWritableBytes_toRaw hb hlegal hwrap h
    exact ⟨c, rfl, hsize, hpeek⟩
  | readFd delivered =>
    obtain ⟨⟨n, c⟩, hc, rfl⟩ := Option.map_eq_some_iff.mp h
    obtain ⟨-, rfl, hsize⟩ := readFd_toRaw hb hlegal hc
    refine ⟨_, rfl, hsize, ?_⟩
    cases delivered with
    | ok data => exact b.peek_readFd_ok data
    | error e => rfl

/-- Without wrap-around every run of calls works like a byte queue. -/
theorem run_represents {r s : RawBuffer} {q : Bytes} {ops : List Op} (hq : Represents r q)
    (hok : Along step (fun b op => Op.Legal b op ∧ Op.NoWrap b op) r ops)
    (h : run step r ops = some s) : Represents s (ops.foldl Op.onQueue q) := by
  induction ops generalizing r q with
  | nil =>
    obtain rfl : r = s := by simpa using h
    exact hq
  | cons op ops ih =>
    obtain ⟨m, hm, hrest⟩ := run_cons.mp h
    exact ih (step_represents hq hok.1.1 hok.1.2 hm) (hok.2 m hm) hrest

theorem refinesQueue_of_noWrap (initialSize : Nat) (h : initialSize + kCheapPretend < sizeMod) :
    RefinesQueue (fun b op => Op.Legal b op ∧ Op.NoWrap b op) initialSize := by
  intro start ops r hstart hok hr
  obtain ⟨b, rfl, hb, hpeek⟩ := run_represents (new_represents h hstart) hok hr
  exact ⟨inv_toRaw b, (peek_toRaw b).trans hpeek⟩

theorem refinesQueue_kInitialSize :
    RefinesQueue (fun b op => Op.Legal b op ∧ Op.NoWrap b op) Buffer.kInitialSize :=
  refinesQueue_of_noWrap Buffer.kInitialSize (by decide)

/-- `Buffer(SIZE_MAX)` makes a vector of 7 bytes with both indices at 8. -/
theorem not_refinesQueue_sizeMax : ¬ RefinesQueue Op.Legal (sizeMod - 1) := by
  intro h
  obtain ⟨hinv, -⟩ := h ⟨List.replicate 7 0, 8, 8⟩ [] _ (by decide) trivial rfl
  exact absurd hinv (by decide)

end RawBuffer

end WebServer.Mymuduo
