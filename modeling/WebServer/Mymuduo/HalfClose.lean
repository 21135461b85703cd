import WebServer.Mymuduo.TcpConnection

namespace WebServer.Mymuduo

def Effect.outputs : Effect → Bool
  | .accepted _ | .sendInLoop _ | .write _ _ | .shutdownWrite => true
  | _ => false

namespace TcpConnection

structure HalfClose (c : TcpConnection) : Prop where
  /-- `handleWrite` will be called for what is left. -/
  buffered : c.state ≠ .kDisconnected → c.outputBuffer.peek ≠ [] → c.channel.isWriting = true
  disconnected : c.state = .kDisconnected → c.channel.isWriting = false
  notYet : c.state = .kConnected ∨ c.channel.isWriting = true → .shutdownWrite ∉ c.log
  /-- The output is empty at a `shutdownWrite`, and nothing comes to it any more. -/
  last : ∀ pre post, c.log = pre ++ .shutdownWrite :: post →
    c.outputBuffer.peek = [] ∧ ∀ e ∈ post, e.outputs = false

theorem halfClose_established (w : Bool) : (established w).HalfClose where
  buffered _ hpeek := absurd (Buffer.peek_new _) hpeek
  disconnected h := nomatch h
  notYet _ h := by simp [established, connectEstablished, new, record, setState] at h
  last pre post h := by
    have hmem : .shutdownWrite ∈ (established w).log := by simp [h]
    simp [established, connectEstablished, new, record, setState] at hmem

variable {c d : TcpConnection}

theorem last_of_notMem (h : .shutdownWrite ∉ c.log) (pre post : List Effect)
    (hlog : c.log = pre ++ .shutdownWrite :: post) :
    c.outputBuffer.peek = [] ∧ ∀ e ∈ post, e.outputs = false :=
  absurd (by simp [hlog]) h

theorem HalfClose.count_le (h : c.HalfClose) : c.log.count .shutdownWrite ≤ 1 := by
  by_cases hmem : .shutdownWrite ∈ c.log
  · obtain ⟨pre, post, hlog, hpre⟩ := List.eq_append_cons_of_mem hmem
    have hpost : .shutdownWrite ∉ post := fun hin =>
      absurd ((h.last pre post hlog).2 _ hin) (by decide)
    rw [hlog, List.count_append, List.count_cons_self, List.count_eq_zero_of_not_mem hpre,
      List.count_eq_zero_of_not_mem hpost]
  · rw [List.count_eq_zero_of_not_mem hmem]
    exact Nat.zero_le 1

def Quiet (c d : TcpConnection) : Prop :=
  ∃ es, d.log = c.log ++ es ∧ ∀ e ∈ es, Effect.outputs e = false

theorem Quiet.refl (c : TcpConnection) : Quiet c c := ⟨[], by simp, by simp⟩

theorem Quiet.record (h : Quiet c d) {e : Effect} (he : e.outputs = false) :
    Quiet c (d.record e) := by
  obtain ⟨es, hlog, hes⟩ := h
  refine ⟨es ++ [e], by simp [TcpConnection.record, hlog], ?_⟩
  intro x hx
  rcases List.mem_append.mp hx with hx | hx
  · exact hes x hx
  · rwa [List.mem_singleton.mp hx]

structure SameOutput (c d : TcpConnection) : Prop where
  state : d.state = c.state
  isWriting : d.channel.isWriting = c.channel.isWriting
  peek : d.outputBuffer.peek = c.outputBuffer.peek
  log : Quiet c d

theorem notMem_of_outputs {es : List Effect} (h : ∀ e ∈ es, e.outputs = false) :
    .shutdownWrite ∉ es := fun hin => absurd (h _ hin) (by decide)

theorem last_append {es : List Effect} (hes : ∀ e ∈ es, e.outputs = false)
    (h : ∀ pre post, c.log = pre ++ .shutdownWrite :: post →
      c.outputBuffer.peek = [] ∧ ∀ e ∈ post, e.outputs = false)
    {pre post : List Effect} (hlog : c.log ++ es = pre ++ .shutdownWrite :: post) :
    c.outputBuffer.peek = [] ∧ ∀ e ∈ post, e.outputs = false := by
  rcases List.append_eq_append_iff.mp hlog with ⟨u, -, hu⟩ | ⟨u, hc, hu⟩
  · exact absurd (by simp [hu]) (notMem_of_outputs hes)
  · cases u with
    | nil =>
      obtain rfl : .shutdownWrite :: post = es := hu
      exact absurd (hes .shutdownWrite (by simp)) (by decide)
    | cons e u =>
      obtain ⟨rfl, rfl⟩ := List.cons.inj hu
      obtain ⟨hpeek, hu⟩ := h pre u hc
      refine ⟨hpeek, fun e he => ?_⟩
      exact (List.mem_append.mp he).elim (hu e) (hes e)

theorem HalfClose.of_sameOutput (hc : c.HalfClose) (h : SameOutput c d) : d.HalfClose := by
  obtain ⟨es, hlog, hes⟩ := h.log
  constructor
  · rw [h.state, h.peek, h.isWriting]
    exact hc.buffered
  · rw [h.state, h.isWriting]
    exact hc.disconnected
  · rw [h.state, h.isWriting, hlog, List.mem_append, not_or]
    exact fun hwriting => ⟨hc.notYet hwriting, notMem_of_outputs hes⟩
  · rw [h.peek, hlog]
    exact fun _ _ => last_append hes hc.last

theorem HalfClose.disconnect (hc : c.HalfClose) (hstate : d.state = .kDisconnected)
    (hwriting : d.channel.isWriting = false) (hpeek : d.outputBuffer.peek = c.outputBuffer.peek)
    (hquiet : Quiet c d) : d.HalfClose := by
  obtain ⟨es, hlog, hes⟩ := hquiet
  refine ⟨fun h => absurd hstate h, fun _ => hwriting, fun h => ?_, ?_⟩
  · simp [hstate, hwriting] at h
  · rw [hpeek, hlog]
    exact fun _ _ => last_append hes hc.last

theorem HalfClose.handleClose (hc : c.HalfClose) {closeCallback : TcpConnection → TcpConnection}
    (hclose : ∀ c, SameOutput c (closeCallback c)) : (c.handleClose closeCallback).HalfClose := by
  simp only [TcpConnection.handleClose]
  refine HalfClose.of_sameOutput ?_ (hclose _)
  exact hc.disconnect rfl (by simp [record]) rfl ((Quiet.refl c).record rfl)

theorem HalfClose.connectDestroyed (hc : c.HalfClose) : c.connectDestroyed.HalfClose := by
  by_cases hstate : c.state = .kConnected
  · have hrecord : (c.record .connectDestroyed).state = .kConnected := hstate
    simp only [TcpConnection.connectDestroyed, hrecord, if_true]
    exact hc.disconnect rfl (by simp [record]) rfl
      ((((Quiet.refl c).record (e := .connectDestroyed) rfl).record rfl).record rfl)
  · have hrecord : (c.record .connectDestroyed).state ≠ .kConnected := hstate
    simp only [TcpConnection.connectDestroyed, hrecord, if_false]
    exact hc.of_sameOutput ⟨rfl, by simp [record], rfl,
      ((Quiet.refl c).record (e := .connectDestroyed) rfl).record rfl⟩

theorem HalfClose.handleRead (hc : c.HalfClose) (delivered : Except Errno Bytes)
    {closeCallback : TcpConnection → TcpConnection}
    (hclose : ∀ c, SameOutput c (closeCallback c)) :
    (c.handleRead delivered id closeCallback).HalfClose := by
  have hinput : ∀ b, HalfClose { c with inputBuffer := b } := fun b =>
    hc.of_sameOutput ⟨rfl, rfl, rfl, .refl c⟩
  simp only [TcpConnection.handleRead]
  split_ifs
  · exact (hinput _).of_sameOutput ⟨rfl, rfl, rfl, (Quiet.refl _).record rfl⟩
  · exact (hinput _).handleClose hclose
  · exact hinput _

theorem isWriting_keepRest (c : TcpConnection) (data : Data) (a : Attempt) :
    (c.keepRest data a).channel.isWriting = true := by
  simp only [keepRest]
  split
  · exact Channel.isWriting_enableWriting _
  · next h => simpa using h

theorem log_keepRest (c : TcpConnection) (data : Data) (a : Attempt) :
    (c.keepRest data a).log = c.log := by
  obtain ⟨l, hcheck, -⟩ := c.checkHighWaterMark_spec a.remaining
  simp only [keepRest, hcheck]
  split <;> rfl

/-- `sendInLoop` with any result: nothing of it is a `shutdownWrite`, and what it leaves in
`outputBuffer_` will be written. -/
theorem sendInLoop_halfClose (data : Data) (result : Except Errno Nat)
    (hbuffered : c.outputBuffer.peek ≠ [] → c.channel.isWriting = true)
    (hlog : .shutdownWrite ∉ c.log) :
    ((c.sendInLoop data result).outputBuffer.peek ≠ [] →
        (c.sendInLoop data result).channel.isWriting = true) ∧
      .shutdownWrite ∉ (c.sendInLoop data result).log := by
  have hrecord : .shutdownWrite ∉ (c.record (.sendInLoop data.bytes)).log := by
    simpa [record] using hlog
  obtain ⟨hsends, -⟩ := (c.record (.sendInLoop data.bytes)).writeDirect_spec data result
  have hwrite : .shutdownWrite ∉
      ((c.record (.sendInLoop data.bytes)).writeDirect data result).1.log := by
    rw [hsends.log, List.mem_append, not_or]
    refine ⟨hrecord, ?_⟩
    split <;> simp
  simp only [sendInLoop]
  split
  · exact ⟨hbuffered, hrecord⟩
  · split
    · exact ⟨fun _ => isWriting_keepRest _ _ _, by rwa [log_keepRest]⟩
    · refine ⟨?_, hwrite⟩
      rw [hsends.peek, hsends.channel, List.append_nil, if_pos (.inr rfl)]
      exact hbuffered

theorem HalfClose.send (hc : c.HalfClose) (data : Data) (result : Except Errno Nat) :
    (c.send data result).HalfClose := by
  by_cases hstate : c.state = .kConnected
  · have hkept := (send_passes hstate data result).state.trans hstate
    have hopen : c.state ≠ .kDisconnected := by simp [hstate]
    have haccepted : .shutdownWrite ∉ (c.record (.accepted data.bytes)).log := by
      simpa [record] using hc.notYet (.inl hstate)
    obtain ⟨hbuffered, hlog⟩ :=
      sendInLoop_halfClose (c := c.record (.accepted data.bytes)) data result
        (hc.buffered hopen) haccepted
    rw [TcpConnection.send, if_pos hstate] at hkept ⊢
    refine ⟨fun _ => hbuffered, fun h => ?_, fun _ => hlog, last_of_notMem hlog⟩
    rw [hkept] at h
    cases h
  · rwa [TcpConnection.send, if_neg hstate]

theorem last_concat (hlog : .shutdownWrite ∉ c.log) {pre post : List Effect}
    (h : c.log ++ [.shutdownWrite] = pre ++ .shutdownWrite :: post) : post = [] := by
  rcases List.append_eq_append_iff.mp h with ⟨u, -, hu⟩ | ⟨u, hc, hu⟩
  · cases u with
    | nil => exact (List.cons.inj hu).2.symm
    | cons e u => simp at hu
  · cases u with
    | nil => exact (List.cons.inj hu).2
    | cons e u =>
      obtain ⟨rfl, -⟩ := List.cons.inj hu
      exact absurd (by simp [hc]) hlog

theorem halfClose_shutdownInLoop (hstate : c.state = .kDisconnecting)
    (hbuffered : c.outputBuffer.peek ≠ [] → c.channel.isWriting = true)
    (hlog : .shutdownWrite ∉ c.log) : c.shutdownInLoop.HalfClose := by
  have hne : c.state ≠ .kDisconnected := by simp [hstate]
  rw [shutdownInLoop_spec]
  split
  · exact ⟨fun _ => hbuffered, (absurd · hne), fun _ => hlog, last_of_notMem hlog⟩
  · next hwriting =>
    have hpeek : c.outputBuffer.peek = [] := by
      by_contra hpeek
      exact hwriting (hbuffered hpeek)
    refine ⟨fun _ => hbuffered, (absurd · hne), fun h => ?_, fun pre post h => ⟨hpeek, ?_⟩⟩
    · rcases h with h | h
      · exact absurd (hstate.symm.trans h) (by simp)
      · exact absurd h hwriting
    · rw [last_concat hlog h]
      simp

theorem HalfClose.shutdown (hc : c.HalfClose) : c.shutdown.HalfClose := by
  by_cases hstate : c.state = .kConnected
  · rw [TcpConnection.shutdown, if_pos hstate]
    exact halfClose_shutdownInLoop rfl (hc.buffered (by simp [hstate])) (hc.notYet (.inl hstate))
  · rwa [TcpConnection.shutdown, if_neg hstate]

theorem halfClose_writing (hstate : c.state ≠ .kDisconnected) (hw : c.channel.isWriting = true)
    (hlog : .shutdownWrite ∉ c.log) : c.HalfClose :=
  ⟨fun _ _ => hw, (absurd · hstate), fun _ => hlog, last_of_notMem hlog⟩

theorem halfClose_writeDone (hstate : c.state ≠ .kDisconnected) (hpeek : c.outputBuffer.peek = [])
    (hlog : .shutdownWrite ∉ c.log) : c.writeDone.HalfClose := by
  obtain ⟨l, hqueue, -⟩ := queueWriteComplete_spec { c with channel := c.channel.disableWriting }
  simp only [writeDone, hqueue]
  split
  · next hclosing => exact halfClose_shutdownInLoop hclosing (absurd hpeek) hlog
  · exact ⟨fun _ => absurd hpeek, (absurd · hstate), fun _ => hlog, last_of_notMem hlog⟩

theorem HalfClose.handleWrite (hc : c.HalfClose) (result : Except Errno Nat) :
    (c.handleWrite result).HalfClose := by
  have hopen : c.channel.isWriting = true → c.state ≠ .kDisconnected := by
    intro hw hstate
    rw [hc.disconnected hstate] at hw
    cases hw
  have hlog : c.channel.isWriting = true → ∀ r : Except Errno Nat,
      .shutdownWrite ∉ (c.record (.write c.outputBuffer.peek r)).log := by
    intro hw r
    simpa [record] using hc.notYet (.inr hw)
  rcases c.handleWrite_cases result with
    ⟨-, h⟩ | ⟨hw, -, h⟩ | ⟨k, hw, -, -, h⟩ | ⟨k, hw, -, hk, h⟩
  · rwa [h]
  · rw [h]
    exact halfClose_writing (hopen hw) hw (hlog hw result)
  · rw [h]
    exact halfClose_writing (hopen hw) hw (hlog hw _)
  · rw [h]
    refine halfClose_writeDone (c := c.wrote (k + 1)) (hopen hw) ?_ (hlog hw _)
    rw [wrote, Buffer.peek_retrieve, List.drop_eq_nil_iff, Buffer.length_peek]
    exact hk

end TcpConnection

end WebServer.Mymuduo
