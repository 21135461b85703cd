import WebServer.Mymuduo.Buffer
import WebServer.Mymuduo.Convert

/-! `detail::FixedBuffer`: as what it is for, and as the code has it, with the array it writes
to and its sizes as `int`. -/

namespace WebServer.Mymuduo

/-- `data` is `[data_, cur_)`. -/
structure FixedBuffer (size : Nat) where
  data : Bytes
  length_le : data.length ≤ size

namespace FixedBuffer

variable {size : Nat}

def new : FixedBuffer size := ⟨[], Nat.zero_le size⟩

def avail (b : FixedBuffer size) : Nat := size - b.data.length

def append (b : FixedBuffer size) (buf : Bytes) : FixedBuffer size :=
  if h : buf.length < b.avail then
    ⟨b.data ++ buf, by simp only [avail] at h; rw [List.length_append]; omega⟩
  else b

def reset (_ : FixedBuffer size) : FixedBuffer size := new

theorem data_append {b : FixedBuffer size} {buf : Bytes} (h : buf.length < b.avail) :
    (b.append buf).data = b.data ++ buf := by
  rw [append, dif_pos h]

theorem data_append_of_le {b : FixedBuffer size} {buf : Bytes} (h : b.avail ≤ buf.length) :
    b.append buf = b := by
  rw [append, dif_neg (Nat.not_lt.mpr h)]

theorem length_append_lt {b : FixedBuffer size} (h : b.data.length < size) (buf : Bytes) :
    (b.append buf).data.length < size := by
  rcases Nat.lt_or_ge buf.length b.avail with hlt | hge
  · rw [data_append hlt, List.length_append]
    rw [avail] at hlt
    omega
  · rwa [data_append_of_le hge]

end FixedBuffer

def kLargeBuffer : Nat := 4000 * 1000

def kSmallBuffer : Nat := 4000

/-- `cur` is `cur_ - data_`.  The constructor leaves `data_` as it is; no operation reads it. -/
structure RawFixedBuffer (size : Nat) where
  data : Bytes
  cur : Nat
  length_data : data.length = size

namespace RawFixedBuffer

variable {size : Nat}

def new : RawFixedBuffer size := ⟨List.replicate size 0, 0, List.length_replicate⟩

def length (b : RawFixedBuffer size) : Int := castInt b.cur
def avail (b : RawFixedBuffer size) : Int := castInt (size - b.cur)
def add (b : RawFixedBuffer size) (len : Nat) : RawFixedBuffer size := { b with cur := b.cur + len }

def content (b : RawFixedBuffer size) : Bytes := b.data.take b.cur

/-- Writing `bytes` from `current()` on; `none` when that leaves `data_`. -/
def store (b : RawFixedBuffer size) (bytes : Bytes) : Option (RawFixedBuffer size) :=
  if h : b.cur + bytes.length ≤ size then
    some
      { b with
        data := copyTo b.data b.cur bytes
        length_data := by rw [length_copyTo (by rwa [b.length_data]), b.length_data] }
  else none

def append (b : RawFixedBuffer size) (buf : Bytes) : Option (RawFixedBuffer size) :=
  if castInt buf.length < b.avail then (b.store buf).map fun c => c.add buf.length else some b

structure Holds (b : RawFixedBuffer size) (a : FixedBuffer size) : Prop where
  cur_eq : b.cur = a.data.length
  content_eq : b.content = a.data

theorem holds_new : (new : RawFixedBuffer size).Holds .new := ⟨rfl, rfl⟩

section

variable {b : RawFixedBuffer size} {a : FixedBuffer size}

theorem Holds.avail_eq (h : b.Holds a) (hsize : size < 2 ^ 31) : b.avail = a.avail := by
  have hle := a.length_le
  rw [avail, FixedBuffer.avail, h.cur_eq, castInt_eq (by omega) (by omega)]
  omega

theorem Holds.length_eq (h : b.Holds a) (hsize : size < 2 ^ 31) : b.length = a.data.length := by
  have hle := a.length_le
  rw [length, h.cur_eq, castInt_eq (by omega) (by omega)]

theorem Holds.store_eq_none (h : b.Holds a) {bytes : Bytes} (hlt : a.avail < bytes.length) :
    b.store bytes = none := by
  rw [FixedBuffer.avail] at hlt
  rw [store, dif_neg (by have := h.cur_eq; omega)]

theorem Holds.store (h : b.Holds a) (buf rest : Bytes)
    (hlt : buf.length < a.avail) (hle : buf.length + rest.length ≤ a.avail) :
    ∃ c, b.store (buf ++ rest) = some c ∧ (c.add buf.length).Holds (a.append buf) := by
  have hcur := h.cur_eq
  have hdata := b.length_data
  have hsize := a.length_le
  rw [FixedBuffer.avail] at hle
  have hstore : b.cur + (buf ++ rest).length ≤ size := by rw [List.length_append]; omega
  refine ⟨_, dif_pos hstore, ⟨?_, ?_⟩⟩
  · rw [FixedBuffer.data_append hlt, List.length_append, ← hcur]
    rfl
  · have htake := Buffer.take_drop_copyTo (v := b.data) (buf ++ rest) (Nat.zero_le b.cur) (by omega)
    rw [List.drop_zero, List.drop_zero, Nat.sub_zero, Nat.sub_zero] at htake
    have hcut : b.cur + buf.length ≤ b.cur + (buf ++ rest).length := by simp
    calc (copyTo b.data b.cur (buf ++ rest)).take (b.cur + buf.length)
        = ((copyTo b.data b.cur (buf ++ rest)).take (b.cur + (buf ++ rest).length)).take
            (b.cur + buf.length) := by rw [List.take_take, Nat.min_eq_left hcut]
      _ = (a.append buf).data := by
        have hcontent : b.data.take b.cur = a.data := h.content_eq
        rw [htake, hcontent, hcur, List.take_length_add_append, List.take_left' rfl,
          FixedBuffer.data_append hlt]

/-- A piece whose length is the same as `int`, or is no smaller than the space left, is handled
as it is meant to be. -/
theorem Holds.append (h : b.Holds a) (hsize : size < 2 ^ 31) {buf : Bytes}
    (hcast : 2 ^ 31 ≤ buf.length → b.avail ≤ castInt buf.length) :
    ∃ c, b.append buf = some c ∧ c.Holds (a.append buf) := by
  have havail := h.avail_eq hsize
  rcases Nat.lt_or_ge buf.length a.avail with hlt | hge
  · have ha : a.avail ≤ size := Nat.sub_le _ _
    obtain ⟨c, hc, hholds⟩ := h.store _ [] hlt (by simpa using hlt.le)
    rw [List.append_nil] at hc
    refine ⟨_, ?_, hholds⟩
    rw [RawFixedBuffer.append, castInt_eq (by omega) (by omega), if_pos (by omega), hc,
      Option.map_some]
  · refine ⟨b, ?_, by rwa [FixedBuffer.data_append_of_le hge]⟩
    rw [RawFixedBuffer.append, if_neg]
    rcases Nat.lt_or_ge buf.length (2 ^ 31) with hsmall | hlarge
    · rw [castInt_eq (by omega) (by omega)]
      omega
    · exact not_lt.mpr (hcast hlarge)

theorem Holds.append_eq_none (h : b.Holds a) (hsize : size < 2 ^ 31) {buf : Bytes}
    (hlarge : 2 ^ 31 ≤ buf.length) (hcast : castInt buf.length < b.avail) :
    b.append buf = none := by
  have ha : a.avail ≤ size := Nat.sub_le _ _
  rw [RawFixedBuffer.append, if_pos hcast, h.store_eq_none (by omega), Option.map_none]

end

end RawFixedBuffer

end WebServer.Mymuduo
