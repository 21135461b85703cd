import WebServer.Lib.Search
import WebServer.Mymuduo.Bytes

/-! The input and output buffers of a connection: a vector with a reader and a
writer index.  Sizes are unbounded here; `RawBuffer` has them as `size_t`. -/

namespace WebServer.Mymuduo

open WebServer.Lib

def Buffer.kCheapPretend : Nat := 8
def Buffer.kInitialSize : Nat := 1024

/-- The size of the stack buffer `readFd` offers to the kernel behind the vector. -/
def Buffer.kExtraSize : Nat := 65536

def Buffer.kCRLF : Bytes := [13, 10]

/-- `buffer[readerIndex, writerIndex)` is the readable part. -/
structure Buffer where
  buffer : Bytes
  readerIndex : Nat
  writerIndex : Nat
  cheap_le_reader : Buffer.kCheapPretend ≤ readerIndex
  reader_le_writer : readerIndex ≤ writerIndex
  writer_le_size : writerIndex ≤ buffer.length

def resize (v : Bytes) (n : Nat) : Bytes := v.take n ++ List.replicate (n - v.length) 0

/-- `std::copy` of `data` to the range that begins at index `i`. -/
def copyTo (v : Bytes) (i : Nat) (data : Bytes) : Bytes :=
  v.take i ++ data ++ v.drop (i + data.length)

@[simp] theorem length_resize (v : Bytes) (n : Nat) : (resize v n).length = n := by
  simp [resize]; omega

theorem length_copyTo {v data : Bytes} {i : Nat} (h : i + data.length ≤ v.length) :
    (copyTo v i data).length = v.length := by
  simp [copyTo]; omega

namespace Buffer

def new (initialSize : Nat) : Buffer where
  buffer := List.replicate (kCheapPretend + initialSize) 0
  readerIndex := kCheapPretend
  writerIndex := kCheapPretend
  cheap_le_reader := Nat.le_refl _
  reader_le_writer := Nat.le_refl _
  writer_le_size := by simp

def readableBytes (b : Buffer) : Nat := b.writerIndex - b.readerIndex
def writableBytes (b : Buffer) : Nat := b.buffer.length - b.writerIndex
def prependableBytes (b : Buffer) : Nat := b.readerIndex

def peek (b : Buffer) : Bytes := (b.buffer.drop b.readerIndex).take b.readableBytes

def findCRLF (b : Buffer) : Option Nat := search kCRLF b.peek

def retrieveAll (b : Buffer) : Buffer where
  buffer := b.buffer
  readerIndex := kCheapPretend
  writerIndex := kCheapPretend
  cheap_le_reader := Nat.le_refl _
  reader_le_writer := Nat.le_refl _
  writer_le_size := by
    have := b.cheap_le_reader
    have := b.reader_le_writer
    have := b.writer_le_size
    omega

def retrieve (b : Buffer) (len : Nat) : Buffer :=
  if h : len < b.readableBytes then
    { b with
      readerIndex := b.readerIndex + len
      cheap_le_reader := Nat.le_add_right_of_le b.cheap_le_reader
      reader_le_writer := by simp only [readableBytes] at h; omega }
  else b.retrieveAll

def retrieveUntil (b : Buffer) (off : Nat) : Buffer := b.retrieve off

/-- `retrieveAsString(len)`; `none` when it would read behind the vector. -/
def retrieveAsString (b : Buffer) (len : Nat) : Option (Bytes × Buffer) :=
  if b.readerIndex + len ≤ b.buffer.length then
    some ((b.buffer.drop b.readerIndex).take len, b.retrieve len)
  else none

def retrieveAllAsString (b : Buffer) : Option (Bytes × Buffer) :=
  b.retrieveAsString b.readableBytes

@[simp] theorem length_peek (b : Buffer) : b.peek.length = b.readableBytes := by
  have := b.writer_le_size
  simp [peek, readableBytes]
  omega

/-- The second branch of `makeSpace`: the readable part moves to the front. -/
def compact (b : Buffer) : Buffer where
  buffer := copyTo b.buffer kCheapPretend b.peek
  readerIndex := kCheapPretend
  writerIndex := kCheapPretend + b.readableBytes
  cheap_le_reader := Nat.le_refl _
  reader_le_writer := Nat.le_add_right _ _
  writer_le_size := by
    have h₁ := b.cheap_le_reader
    have h₂ := b.reader_le_writer
    have h₃ := b.writer_le_size
    rw [length_copyTo] <;> simp only [length_peek, readableBytes] <;> omega

def makeSpace (b : Buffer) (len : Nat) : Buffer :=
  if b.writableBytes + b.prependableBytes < len + kCheapPretend then
    { b with
      buffer := resize b.buffer (b.writerIndex + len)
      writer_le_size := by simp }
  else b.compact

def ensureWritableBytes (b : Buffer) (len : Nat) : Buffer :=
  if b.writableBytes < len then b.makeSpace len else b

theorem le_writableBytes_ensureWritableBytes (b : Buffer) (len : Nat) :
    len ≤ (b.ensureWritableBytes len).writableBytes := by
  have h₁ := b.cheap_le_reader
  have h₂ := b.reader_le_writer
  have h₃ := b.writer_le_size
  simp only [ensureWritableBytes]
  split
  · simp only [makeSpace]
    split
    · simp [writableBytes]
    · next hroom =>
      simp only [compact, writableBytes, prependableBytes] at hroom ⊢
      rw [length_copyTo] <;> simp only [length_peek, readableBytes] <;> omega
  · omega

def append (b : Buffer) (data : Bytes) : Buffer :=
  let c := b.ensureWritableBytes data.length
  { c with
    buffer := copyTo c.buffer c.writerIndex data
    writerIndex := c.writerIndex + data.length
    reader_le_writer := Nat.le_add_right_of_le c.reader_le_writer
    writer_le_size := by
      have h₁ := c.writer_le_size
      have h₂ : data.length ≤ c.writableBytes := b.le_writableBytes_ensureWritableBytes _
      simp only [writableBytes] at h₂
      rw [length_copyTo] <;> omega }

/-- `readFd`: the kernel fills the vector's free part first and `extrabuf` with the rest.
The first component is the `ssize_t` it returns. -/
def readFd (b : Buffer) : Except Errno Bytes → Int × Buffer
  | .error _ => (-1, b)
  | .ok data =>
    if h : data.length ≤ b.writableBytes then
      (data.length,
        { b with
          buffer := copyTo b.buffer b.writerIndex data
          writerIndex := b.writerIndex + data.length
          reader_le_writer := Nat.le_add_right_of_le b.reader_le_writer
          writer_le_size := by
            have := b.writer_le_size
            simp only [writableBytes] at h
            rw [length_copyTo] <;> omega })
    else
      let full : Buffer :=
        { b with
          buffer := copyTo b.buffer b.writerIndex (data.take b.writableBytes)
          writerIndex := b.buffer.length
          reader_le_writer := b.reader_le_writer.trans b.writer_le_size
          writer_le_size := by
            have := b.writer_le_size
            rw [length_copyTo]
            simp only [writableBytes, List.length_take]
            omega }
      (data.length, full.append (data.drop b.writableBytes))

/-- The byte in front of `peek()`; there always is one, in the prependable part. -/
def beforePeek (b : Buffer) : UInt8 := b.buffer.getD (b.readerIndex - 1) 0

@[simp] theorem peek_new (n : Nat) : (new n).peek = [] := by simp [new, peek, readableBytes]

@[simp] theorem peek_retrieveAll (b : Buffer) : b.retrieveAll.peek = [] := by
  simp [retrieveAll, peek, readableBytes]

@[simp] theorem peek_retrieve (b : Buffer) (len : Nat) :
    (b.retrieve len).peek = b.peek.drop len := by
  simp only [retrieve]
  split
  · next h =>
    simp only [peek, readableBytes, List.drop_take, List.drop_drop]
    congr 1
    omega
  · next h =>
    rw [peek_retrieveAll, List.drop_of_length_le]
    simpa using h

@[simp] theorem peek_retrieveUntil (b : Buffer) (off : Nat) :
    (b.retrieveUntil off).peek = b.peek.drop off := peek_retrieve b off

theorem retrieveAsString_of_le {b : Buffer} {len : Nat} (h : len ≤ b.readableBytes) :
    b.retrieveAsString len = some (b.peek.take len, b.retrieve len) := by
  have h₁ := b.reader_le_writer
  have h₂ := b.writer_le_size
  simp only [readableBytes] at h
  rw [retrieveAsString, if_pos (by omega), peek, List.take_take, readableBytes,
    Nat.min_eq_left (by omega)]

theorem retrieveAllAsString_eq (b : Buffer) :
    b.retrieveAllAsString = some (b.peek, b.retrieve b.readableBytes) := by
  rw [retrieveAllAsString, retrieveAsString_of_le (Nat.le_refl _),
    List.take_of_length_le (Nat.le_of_eq b.length_peek)]

@[simp] theorem peek_compact (b : Buffer) : b.compact.peek = b.peek := by
  have h₁ := b.cheap_le_reader
  have h₂ := b.reader_le_writer
  have h₃ := b.writer_le_size
  have hfront : (b.buffer.take kCheapPretend).length = kCheapPretend := by simp; omega
  simp only [compact, peek, copyTo, readableBytes, List.append_assoc]
  rw [List.drop_left' hfront, List.take_left']
  simp
  omega

@[simp] theorem peek_makeSpace (b : Buffer) (len : Nat) : (b.makeSpace len).peek = b.peek := by
  have h₁ := b.cheap_le_reader
  have h₂ := b.reader_le_writer
  have h₃ := b.writer_le_size
  simp only [makeSpace]
  split
  · -- growth keeps the indices and everything below the writer index
    simp only [peek, readableBytes, resize]
    rw [List.drop_append_of_le_length, List.take_append_of_le_length, List.drop_take,
      List.take_take, Nat.min_eq_left] <;> simp <;> omega
  · exact peek_compact b

@[simp] theorem peek_ensureWritableBytes (b : Buffer) (len : Nat) :
    (b.ensureWritableBytes len).peek = b.peek := by
  simp only [ensureWritableBytes]
  split
  · exact peek_makeSpace b len
  · rfl

theorem take_drop_copyTo {v : Bytes} (data : Bytes) {r w : Nat} (hr : r ≤ w) (hw : w ≤ v.length) :
    ((copyTo v w data).drop r).take (w + data.length - r) = (v.drop r).take (w - r) ++ data := by
  have hlen : ((v.take w).drop r).length = w - r := by simp [hw]
  have hcut : w + data.length - r = ((v.take w).drop r).length + data.length := by omega
  rw [copyTo, List.append_assoc, List.drop_append_of_le_length (by simp; omega), hcut,
    List.take_length_add_append, List.take_left' rfl, List.drop_take]

@[simp] theorem peek_append (b : Buffer) (data : Bytes) :
    (b.append data).peek = b.peek ++ data := by
  have hc := peek_ensureWritableBytes b data.length
  simp only [append, peek, readableBytes] at hc ⊢
  rw [take_drop_copyTo data (Buffer.reader_le_writer _) (Buffer.writer_le_size _), hc]

@[simp] theorem readFd_fst_ok (b : Buffer) (data : Bytes) :
    (b.readFd (.ok data)).1 = data.length := by
  simp only [readFd]
  split <;> rfl

@[simp] theorem peek_readFd_ok (b : Buffer) (data : Bytes) :
    (b.readFd (.ok data)).2.peek = b.peek ++ data := by
  simp only [readFd]
  split
  · simp only [peek, readableBytes]
    rw [take_drop_copyTo data b.reader_le_writer b.writer_le_size]
  · next h =>
    -- the vector is filled up first, then `extrabuf` is appended
    have hw := b.writer_le_size
    have hlen : (data.take b.writableBytes).length = b.buffer.length - b.writerIndex := by
      simp only [List.length_take, writableBytes] at h ⊢
      omega
    rw [peek_append]
    simp only [peek, readableBytes]
    have htd := take_drop_copyTo (data.take b.writableBytes) b.reader_le_writer hw
    rw [hlen, Nat.add_sub_of_le hw] at htd
    rw [htd, List.append_assoc, List.take_append_drop]

end Buffer

end WebServer.Mymuduo
