import WebServer.Mymuduo.RawBuffer

namespace WebServer.Mymuduo

open WebServer.Lib

namespace Buffer

theorem length_ensureWritableBytes_le (b : Buffer) (len : Nat) :
    (b.ensureWritableBytes len).buffer.length ≤
      max b.buffer.length (2 * (b.readableBytes + len) + kCheapPretend) := by
  have h₁ := b.cheap_le_reader
  have h₂ := b.reader_le_writer
  have h₃ := b.writer_le_size
  simp only [ensureWritableBytes, makeSpace]
  split
  · split
    · next hroom =>
      refine le_max_of_le_right ?_
      simp only [writableBytes, prependableBytes, readableBytes, length_resize] at hroom ⊢
      omega
    · refine le_max_of_le_left (Nat.le_of_eq ?_)
      simp only [compact]
      rw [length_copyTo]
      simp only [length_peek, readableBytes]
      omega
  · exact le_max_left _ _

theorem length_append (b : Buffer) (data : Bytes) :
    (b.append data).buffer.length = (b.ensureWritableBytes data.length).buffer.length := by
  have hroom := b.le_writableBytes_ensureWritableBytes data.length
  have hle := (b.ensureWritableBytes data.length).writer_le_size
  simp only [writableBytes] at hroom
  simp only [append]
  rw [length_copyTo]
  omega

theorem length_append_le (b : Buffer) (data : Bytes) : (b.append data).buffer.length ≤
    max b.buffer.length (2 * (b.readableBytes + data.length) + kCheapPretend) :=
  (b.length_append data).trans_le (b.length_ensureWritableBytes_le data.length)

/-- What goes to `extrabuf` counts as appended. -/
theorem length_readFd_le (b : Buffer) (data : Bytes) : (b.readFd (.ok data)).2.buffer.length ≤
    max b.buffer.length (2 * (b.readableBytes + data.length) + kCheapPretend) := by
  have h₂ := b.reader_le_writer
  have h₃ := b.writer_le_size
  simp only [readFd]
  split
  · next hfit =>
    refine le_max_of_le_left (Nat.le_of_eq ?_)
    simp only [writableBytes] at hfit
    simp only
    rw [length_copyTo]
    omega
  · next hfit =>
    refine (length_append_le _ _).trans (Nat.le_of_eq ?_)
    have hfull : (copyTo b.buffer b.writerIndex (data.take b.writableBytes)).length =
        b.buffer.length := by
      rw [length_copyTo]
      simp only [List.length_take, writableBytes]
      omega
    simp only [readableBytes, hfull, List.length_drop]
    simp only [writableBytes] at hfit ⊢
    congr 2
    omega

theorem length_retrieve (b : Buffer) (len : Nat) :
    (b.retrieve len).buffer.length = b.buffer.length := by
  simp only [retrieve]
  split <;> rfl

end Buffer

namespace RawBuffer

open Buffer (kCheapPretend)

def Op.added : Op → Nat
  | .append data | .readFd (.ok data) => data.length
  | .ensureWritableBytes len => len
  | .retrieve _ | .retrieveUntil _ | .retrieveAll | .retrieveAsString _ | .readFd (.error _) => 0

/-- The content and what the call makes room for are `m` bytes at most. -/
def Op.Within (m : Nat) (b : RawBuffer) (op : Op) : Prop :=
  Op.Legal b op ∧ Op.NoWrap b op ∧ b.readableBytes + op.added ≤ m

def Stores (n : Nat) (r : RawBuffer) : Prop :=
  ∃ b : Buffer, r = b.toRaw ∧ b.buffer.length ≤ maxSize ∧ b.buffer.length ≤ n

variable {r s : RawBuffer} {m n : Nat} {op : Op}

theorem Stores.step (h : Stores n r) (hmn : 2 * m + kCheapPretend ≤ n) (hop : Op.Within m r op)
    (hs : RawBuffer.step r op = some s) : Stores n s := by
  obtain ⟨b, rfl, hb, hn⟩ := h
  obtain ⟨hlegal, hwrap, hadded⟩ := hop
  rw [readableBytes_toRaw] at hadded
  have hretrieve (len : Nat) : Stores n (b.toRaw.retrieve len) :=
    ⟨b.retrieve len, retrieve_toRaw hb len, (b.length_retrieve len).trans_le hb,
      (b.length_retrieve len).trans_le hn⟩
  cases op with
  | append data =>
    obtain ⟨rfl, hsize⟩ := append_toRaw hb hlegal hs
    simp only [Op.added] at hadded
    exact ⟨_, rfl, hsize, (b.length_append_le data).trans (max_le hn (by omega))⟩
  | retrieve len | retrieveUntil len =>
    obtain rfl := Option.some.inj hs
    exact hretrieve len
  | retrieveAll =>
    obtain rfl := Option.some.inj hs
    exact ⟨b.retrieveAll, rfl, hb, hn⟩
  | retrieveAsString len =>
    obtain ⟨⟨str, c⟩, hc, rfl⟩ := Option.map_eq_some_iff.mp hs
    simp only [retrieveAsString] at hc
    split at hc
    · obtain ⟨-, rfl⟩ := Prod.mk.inj (Option.some.inj hc)
      exact hretrieve len
    · cases hc
  | ensureWritableBytes len =>
    obtain ⟨c, rfl, -, hsize, heq⟩ := ensureWritableBytes_toRaw hb hlegal hwrap hs
    simp only [Op.added] at hadded
    refine ⟨c, rfl, hsize, ?_⟩
    by_cases hlen : len + kCheapPretend < sizeMod
    · obtain rfl := heq hlen
      exact (b.length_ensureWritableBytes_le len).trans (max_le hn (by omega))
    · -- so large a room is more than any vector has
      have hmod := maxSize_lt_sizeMod
      have hmax : kCheapPretend ≤ maxSize := by decide
      omega
  | readFd delivered =>
    obtain ⟨⟨i, c⟩, hc, rfl⟩ := Option.map_eq_some_iff.mp hs
    obtain ⟨-, rfl, hsize⟩ := readFd_toRaw hb hlegal hc
    refine ⟨_, rfl, hsize, ?_⟩
    cases delivered with
    | ok data =>
      simp only [Op.added] at hadded
      exact (b.length_readFd_le data).trans (max_le hn (by omega))
    | error e => exact hn

/-- However many bytes go through the buffer, the vector stays within twice the largest content, or
as it was made. -/
theorem run_storage {initialSize m : Nat} {ops : List Op}
    (hsize : initialSize + kCheapPretend < sizeMod) {start : RawBuffer}
    (hstart : new initialSize = some start) (hops : Along RawBuffer.step (Op.Within m) start ops)
    (h : run RawBuffer.step start ops = some r) :
    r.buffer.length ≤ max (kCheapPretend + initialSize) (2 * m + kCheapPretend) := by
  have hnew : start.buffer.length = kCheapPretend + initialSize ∧
      Represents start [] := by
    refine ⟨?_, new_represents hsize hstart⟩
    have hsum : sizeAdd kCheapPretend initialSize = kCheapPretend + initialSize :=
      sizeAdd_eq (by omega)
    simp only [new, hsum, Option.ite_none_right_eq_some, Option.some.injEq] at hstart
    rw [← hstart.2]
    exact List.length_replicate
  obtain ⟨hlength, b, rfl, hb, -⟩ := hnew
  have hstores : Stores (max (kCheapPretend + initialSize) (2 * m + kCheapPretend)) b.toRaw :=
    ⟨b, rfl, hb, hlength.trans_le (le_max_left _ _)⟩
  obtain ⟨c, rfl, -, hc⟩ := invariant_along
    (fun _ _ _ hs hop hstep => hs.step (le_max_right _ _) hop hstep) hstores hops h
  exact hc

def tenBytes : List Op :=
  [.append (List.replicate 10 1), .retrieve 6, .append (List.replicate 10 2), .retrieve 8,
    .readFd (.ok (List.replicate 10 3)), .retrieve 9, .append (List.replicate 10 4)]

instance (m : Nat) (b : RawBuffer) : (op : Op) → Decidable (Op.Within m b op)
  | .append _ => inferInstanceAs (Decidable (_ ≤ _ ∧ True ∧ _))
  | .retrieve _ => inferInstanceAs (Decidable (_ < _ ∧ True ∧ _))
  | .retrieveUntil _ | .retrieveAsString _ => inferInstanceAs (Decidable (_ ≤ _ ∧ True ∧ _))
  | .retrieveAll | .readFd (.error _) => inferInstanceAs (Decidable (True ∧ True ∧ _))
  | .ensureWritableBytes _ => inferInstanceAs (Decidable (_ < _ ∧ (_ ∨ _) ∧ _))
  | .readFd (.ok _) => inferInstanceAs (Decidable (_ ≤ _ ∧ True ∧ _))

theorem run_storage_tenBytes : ∃ start r, new 16 = some start ∧
    run RawBuffer.step start tenBytes = some r ∧ r.buffer.length ≤ 42 := by
  have hrun : ∃ start ∈ new 16, Along RawBuffer.step (Op.Within 17) start tenBytes ∧
      (run RawBuffer.step start tenBytes).isSome = true := by decide +kernel
  obtain ⟨start, hstart, hops, hsome⟩ := hrun
  obtain ⟨r, hr⟩ := Option.isSome_iff_exists.mp hsome
  exact ⟨start, r, hstart, hr, run_storage (by decide) hstart hops hr⟩

end RawBuffer

end WebServer.Mymuduo
