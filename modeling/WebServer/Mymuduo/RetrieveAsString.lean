import WebServer.Mymuduo.RawBuffer

namespace WebServer.Mymuduo.RawBuffer

open WebServer.Lib
open Buffer (kCheapPretend kExtraSize)

/-- The string is what the call removes from the readable part. -/
def ReturnsRemoved (b : RawBuffer) (len : Nat) : Prop :=
  ∃ str c, b.retrieveAsString len = some (str, c) ∧ b.peek = str ++ c.peek

/-- Nothing is written outside of the vector, and the ranges that are passed in are memory. -/
def Op.InBounds (b : RawBuffer) : Op → Prop
  | .append data => data.length ≤ maxSize ∧ ∀ c ∈ b.ensureWritableBytes data.length,
      c.writerIndex + data.length ≤ c.buffer.length
  | .retrieve len => len < sizeMod
  | .retrieveUntil off => off ≤ b.readableBytes
  | .retrieveAll => True
  | .retrieveAsString len => len < sizeMod
  | .ensureWritableBytes len => len < sizeMod
  | .readFd (.ok data) => b.writerIndex ≤ b.buffer.length ∧ data.length ≤ b.readCapacity
  | .readFd (.error _) => True

instance (b : RawBuffer) : DecidablePred (Op.InBounds b) := fun op => by
  cases op with
  | readFd delivered => cases delivered <;> simp only [Op.InBounds] <;> infer_instance
  | _ => simp only [Op.InBounds]; infer_instance

/-- What every sequence of calls keeps, even where a size has wrapped around. -/
structure Ordered (b : RawBuffer) : Prop where
  cheap_le_reader : kCheapPretend ≤ b.readerIndex
  reader_le_writer : b.readerIndex ≤ b.writerIndex
  writer_lt : b.writerIndex < sizeMod
  size_le : b.buffer.length ≤ maxSize

variable {b c : RawBuffer} {len : Nat}

theorem Ordered.readableBytes_eq (h : b.Ordered) :
    b.readableBytes = b.writerIndex - b.readerIndex :=
  sizeSub_of_le h.reader_le_writer

theorem kCheapPretend_lt_sizeMod : kCheapPretend < sizeMod := by decide

theorem ordered_new {initialSize : Nat} (h : new initialSize = some b) : b.Ordered := by
  rw [new] at h
  split at h
  · next hmax =>
    obtain rfl := Option.some.inj h
    exact ⟨Nat.le_refl _, Nat.le_refl _, kCheapPretend_lt_sizeMod, by simpa using hmax⟩
  · cases h

theorem ordered_retrieveAll (h : b.Ordered) : b.retrieveAll.Ordered :=
  ⟨Nat.le_refl _, Nat.le_refl _, kCheapPretend_lt_sizeMod, h.size_le⟩

theorem Ordered.retrieve (h : b.Ordered) (len : Nat) : (b.retrieve len).Ordered := by
  rw [RawBuffer.retrieve]
  split
  · next hlen =>
    obtain ⟨hcheap, hle, hlt, hsize⟩ := h
    rw [readableBytes, sizeSub_of_le hle] at hlen
    have hadd : sizeAdd b.readerIndex len = b.readerIndex + len := sizeAdd_eq (by omega)
    exact ⟨by simp only [hadd]; omega, by simp only [hadd]; omega, hlt, hsize⟩
  · exact ordered_retrieveAll h

theorem length_compact (h : b.Ordered) :
    (copyTo b.buffer kCheapPretend b.peek).length = b.buffer.length := by
  have hcheap := h.cheap_le_reader
  rcases Nat.le_total b.buffer.length b.readerIndex with hout | hin
  · have hnil : b.peek = [] := by rw [peek, List.drop_of_length_le hout, List.take_nil]
    simp [copyTo, hnil]
  · refine length_copyTo ?_
    have hpeek : b.peek.length ≤ b.buffer.length - b.readerIndex := by
      rw [peek, ← List.length_drop]
      exact List.length_take_le' _ _
    omega

theorem Ordered.makeSpace (h : b.Ordered) (hc : b.makeSpace len = some c) : c.Ordered := by
  rw [RawBuffer.makeSpace] at hc
  split at hc
  · split at hc
    · next hmax =>
      obtain rfl := Option.some.inj hc
      exact ⟨h.cheap_le_reader, h.reader_le_writer, h.writer_lt, by simpa using hmax⟩
    · cases hc
  · obtain rfl := Option.some.inj hc
    have hcheap := h.cheap_le_reader
    have hle := h.reader_le_writer
    have hlt := h.writer_lt
    have hreadable := h.readableBytes_eq
    have hadd : sizeAdd kCheapPretend b.readableBytes = kCheapPretend + b.readableBytes :=
      sizeAdd_eq (by omega)
    refine ⟨Nat.le_refl _, ?_, ?_, ?_⟩
    · simp only [hadd]
      exact Nat.le_add_right _ _
    · simp only [hadd]
      omega
    · simpa only [length_compact h] using h.size_le

theorem Ordered.ensureWritableBytes (h : b.Ordered) (hc : b.ensureWritableBytes len = some c) :
    c.Ordered := by
  rw [RawBuffer.ensureWritableBytes] at hc
  split at hc
  · exact h.makeSpace hc
  · obtain rfl := Option.some.inj hc
    exact h

theorem Ordered.append (h : b.Ordered) {data : Bytes} (hin : Op.InBounds b (.append data))
    (hc : b.append data = some c) : c.Ordered := by
  obtain ⟨d, hd, rfl⟩ := Option.map_eq_some_iff.mp hc
  have hmod := maxSize_lt_sizeMod
  have hroom := hin.2 d hd
  obtain ⟨hcheap, hle, -, hsize⟩ := h.ensureWritableBytes hd
  have hadd : sizeAdd d.writerIndex data.length = d.writerIndex + data.length :=
    sizeAdd_eq (by omega)
  refine ⟨hcheap, ?_, ?_, ?_⟩
  · simp only [hadd]
    omega
  · simp only [hadd]
    omega
  · simpa only [length_copyTo hroom] using hsize

theorem ordered_of_inv (h : b.Inv) (hsize : b.buffer.length ≤ maxSize) : b.Ordered :=
  ⟨h.1, h.2.1, by have := maxSize_lt_sizeMod; have := h.2.2; omega, hsize⟩

theorem Ordered.readFd (h : b.Ordered) {data : Bytes} (hin : Op.InBounds b (.readFd (.ok data)))
    {n : Int} (hc : b.readFd (.ok data) = some (n, c)) : c.Ordered := by
  let d : Buffer :=
    ⟨b.buffer, b.readerIndex, b.writerIndex, h.cheap_le_reader, h.reader_le_writer, hin.1⟩
  have hlegal : Op.Legal d.toRaw (.readFd (.ok data)) := hin.2
  obtain ⟨-, rfl, hsize⟩ := readFd_toRaw h.size_le hlegal hc
  exact ordered_of_inv (inv_toRaw _) hsize

theorem Ordered.step (h : b.Ordered) {op : Op} (hin : Op.InBounds b op)
    (hc : RawBuffer.step b op = some c) : c.Ordered := by
  cases op with
  | append data => exact h.append hin hc
  | retrieve len =>
    obtain rfl := Option.some.inj hc
    exact h.retrieve len
  | retrieveUntil off =>
    obtain rfl := Option.some.inj hc
    exact h.retrieve off
  | retrieveAll =>
    obtain rfl := Option.some.inj hc
    exact ordered_retrieveAll h
  | retrieveAsString len =>
    obtain ⟨⟨str, d⟩, hd, rfl⟩ := Option.map_eq_some_iff.mp hc
    simp only [retrieveAsString, Option.ite_none_right_eq_some, Option.some.injEq,
      Prod.mk.injEq] at hd
    obtain ⟨-, -, rfl⟩ := hd
    exact h.retrieve len
  | ensureWritableBytes len => exact h.ensureWritableBytes hc
  | readFd delivered =>
    obtain ⟨⟨n, d⟩, hd, rfl⟩ := Option.map_eq_some_iff.mp hc
    cases delivered with
    | ok data => exact h.readFd hin hd
    | error e =>
      obtain ⟨-, rfl⟩ : -1 = n ∧ b = d := by simpa [RawBuffer.readFd] using hd
      exact h

/-- What is read beyond `writerIndex_` is not removed. -/
theorem returnsRemoved_iff (h : b.Ordered) :
    b.ReturnsRemoved len ↔ len ≤ b.readableBytes ∧ b.readerIndex + len ≤ b.buffer.length := by
  have hlength : b.peek.length ≤ b.readableBytes := List.length_take_le _ _
  constructor
  · rintro ⟨str, c, hstr, hpeek⟩
    simp only [retrieveAsString, Option.ite_none_right_eq_some, Option.some.injEq,
      Prod.mk.injEq] at hstr
    obtain ⟨hin, rfl, -⟩ := hstr
    have hle := congrArg List.length hpeek
    rw [List.length_append, List.length_take, List.length_drop] at hle
    exact ⟨by omega, hin⟩
  · rintro ⟨hlen, hin⟩
    refine ⟨_, b.retrieve len, if_pos hin, ?_⟩
    rcases Nat.lt_or_eq_of_le hlen with hlt | rfl
    · have hlt' := hlt
      rw [h.readableBytes_eq] at hlt'
      have hwriter := h.writer_lt
      have hadd : sizeAdd b.readerIndex len = b.readerIndex + len := sizeAdd_eq (by omega)
      have hrest : (b.retrieve len).peek =
          (b.buffer.drop (b.readerIndex + len)).take (b.readableBytes - len) := by
        rw [retrieve, if_pos hlt, peek, readableBytes, hadd, sizeSub_of_le (by simp only; omega),
          h.readableBytes_eq]
        simp only [Nat.sub_sub]
      rw [hrest, peek, ← List.drop_drop, ← List.take_add, Nat.add_sub_cancel' hlen]
    · have hnil : (b.retrieve b.readableBytes).peek = [] := by
        rw [retrieve, if_neg (Nat.lt_irrefl _), peek, retrieveAll, readableBytes,
          sizeSub_of_le (Nat.le_refl _), Nat.sub_self, List.take_zero]
      rw [hnil, List.append_nil]
      rfl

/-- In every state that calls lead to, `retrieveAsString` returns what it removes exactly for the
lengths that the readable part has within the vector. -/
theorem returnsRemoved_iff_of_run {initialSize : Nat} {start : RawBuffer} {ops : List Op}
    (hstart : new initialSize = some start) (hops : Along step Op.InBounds start ops)
    (h : run step start ops = some b) (len : Nat) :
    b.ReturnsRemoved len ↔ len ≤ b.readableBytes ∧ b.readerIndex + len ≤ b.buffer.length :=
  returnsRemoved_iff
    (invariant_along (fun _ _ _ hb hin hc => Ordered.step hb hin hc) (ordered_new hstart) hops h)

/-- A text is taken out in two pieces. -/
theorem returnsRemoved_twoPieces : ∃ start b, new 16 = some start ∧
    run step start [.append (ascii "GET /"), .retrieveAsString 4] = some b ∧
    b.ReturnsRemoved 1 := by
  have hrun : (new 16).any (fun start =>
      Along step Op.InBounds start [.append (ascii "GET /"), .retrieveAsString 4] ∧
        (run step start [.append (ascii "GET /"), .retrieveAsString 4]).any (fun b =>
          1 ≤ b.readableBytes ∧ b.readerIndex + 1 ≤ b.buffer.length)) = true := by
    decide +kernel
  obtain ⟨start, hstart, hrun⟩ := (Option.any_eq_true _ _).mp hrun
  obtain ⟨hops, hrun⟩ := of_decide_eq_true hrun
  obtain ⟨b, hb, hreadable⟩ := (Option.any_eq_true _ _).mp hrun
  exact ⟨start, b, hstart, hb,
    (returnsRemoved_iff_of_run hstart hops hb 1).mpr (of_decide_eq_true hreadable)⟩

/-- Four bytes of an earlier message follow the two that are readable. -/
theorem not_returnsRemoved_stale : ∃ start b c, new 16 = some start ∧
    run step start [.append (ascii "secret"), .retrieveAll, .append (ascii "ab")] = some b ∧
    b.peek = ascii "ab" ∧ b.retrieveAsString 6 = some (ascii "abcret", c) ∧
    ¬ b.ReturnsRemoved 6 := by
  have hrun : (new 16).any (fun start =>
      (run step start [.append (ascii "secret"), .retrieveAll, .append (ascii "ab")]).any fun b =>
        b.peek = ascii "ab" ∧
          (b.retrieveAsString 6).any fun r => r.1 = ascii "abcret") = true := by
    decide +kernel
  obtain ⟨start, hstart, hrun⟩ := (Option.any_eq_true _ _).mp hrun
  obtain ⟨b, hb, hrun⟩ := (Option.any_eq_true _ _).mp hrun
  obtain ⟨hpeek, hrun⟩ := of_decide_eq_true hrun
  obtain ⟨⟨str, c⟩, hstr, hrun⟩ := (Option.any_eq_true _ _).mp hrun
  obtain rfl := of_decide_eq_true hrun
  refine ⟨start, b, c, hstart, hb, hpeek, hstr, ?_⟩
  rintro ⟨str, d, hstr', hremoved⟩
  obtain rfl : ascii "abcret" = str := congrArg Prod.fst (Option.some.inj (hstr.symm.trans hstr'))
  have hlength := congrArg List.length hremoved
  rw [hpeek, List.length_append] at hlength
  have htwo : (ascii "ab").length = 2 := rfl
  have hsix : (ascii "abcret").length = 6 := rfl
  omega

theorem legal_of_inBounds {op : Op} (h : Op.InBounds b op)
    (hop : ∀ len, op ≠ .retrieveAsString len) : Op.Legal b op := by
  cases op with
  | append data => exact h.1
  | retrieve len => exact h
  | retrieveUntil off => exact h
  | retrieveAll => trivial
  | retrieveAsString len => exact absurd rfl (hop len)
  | ensureWritableBytes len => exact h
  | readFd delivered =>
    cases delivered with
    | ok data => exact h.2
    | error e => trivial

theorem represents_step {q : Bytes} {op : Op} (hq : Represents b q) (hin : Op.InBounds b op)
    (hwrap : Op.NoWrap b op) (h : step b op = some c) : ∃ q', Represents c q' := by
  by_cases hop : ∃ len, op = .retrieveAsString len
  · obtain ⟨len, rfl⟩ := hop
    obtain ⟨⟨str, d⟩, hd, rfl⟩ := Option.map_eq_some_iff.mp h
    simp only [retrieveAsString, Option.ite_none_right_eq_some, Option.some.injEq,
      Prod.mk.injEq] at hd
    obtain ⟨-, -, rfl⟩ := hd
    have hlegal : Op.Legal b (.retrieve len) := hin
    exact ⟨_, step_represents hq hlegal hwrap rfl⟩
  · exact ⟨_, step_represents hq (legal_of_inBounds hin fun len h => hop ⟨len, h⟩) hwrap h⟩

/-- As long as no size wraps around, the length is all that counts. -/
theorem returnsRemoved_iff_le {initialSize : Nat} {start : RawBuffer} {ops : List Op}
    (hsize : initialSize + kCheapPretend < sizeMod) (hstart : new initialSize = some start)
    (hops : Along step (fun b op => Op.InBounds b op ∧ Op.NoWrap b op) start ops)
    (h : run step start ops = some b) (len : Nat) :
    b.ReturnsRemoved len ↔ len ≤ b.readableBytes := by
  obtain ⟨q, d, rfl, hmax, -⟩ := invariant_along (I := fun b => ∃ q, Represents b q)
    (fun _ _ _ hb hop hc => hb.elim fun _ hq => represents_step hq hop.1 hop.2 hc)
    ⟨_, new_represents hsize hstart⟩ hops h
  have hinv := inv_toRaw d
  have hordered := ordered_of_inv hinv hmax
  rw [returnsRemoved_iff hordered, hordered.readableBytes_eq]
  obtain ⟨-, hle, hin⟩ := hinv
  refine ⟨And.left, fun hlen => ⟨hlen, ?_⟩⟩
  omega

end WebServer.Mymuduo.RawBuffer
