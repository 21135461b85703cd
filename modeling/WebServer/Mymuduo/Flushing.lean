import WebServer.Mymuduo.WriteInterest

namespace WebServer.Mymuduo

namespace TcpConnection

/-- `handleWrite` is called as long as there is something to write, and a connection that is to
be closed and has nothing to write is half closed. -/
structure Flushing (c : TcpConnection) : Prop where
  interested : c.Interested
  opened : c.state ≠ .kConnecting
  closing : c.state = .kDisconnecting → c.channel.isWriting = true ∨ .shutdownWrite ∈ c.log

variable {c c' : TcpConnection}

theorem flushing_established (w : Bool) : (established w).Flushing where
  interested := (interested_new w).connectEstablished (by simp [new])
  opened := by simp [established, connectEstablished, setState, record]
  closing h := by simp [established, connectEstablished, setState, record] at h

theorem flushing_of_connected (h : c.Interested) (hstate : c.state = .kConnected) : c.Flushing :=
  ⟨h, by simp [hstate], by simp [hstate]⟩

theorem flushing_of_disconnected (hstate : c.state = .kDisconnected)
    (hwriting : c.channel.isWriting = false) : c.Flushing :=
  ⟨interested_of_disconnected hstate hwriting, by simp [hstate], by simp [hstate]⟩

theorem Flushing.congr (h : c.Flushing) (hstate : c'.state = c.state)
    (hwriting : c'.channel.isWriting = c.channel.isWriting)
    (houtput : c'.outputBuffer = c.outputBuffer) (hlog : c.log ⊆ c'.log) : c'.Flushing := by
  refine ⟨h.interested.congr hstate hwriting (by rw [houtput]), hstate ▸ h.opened, ?_⟩
  rw [hstate, hwriting]
  exact fun hclosing => (h.closing hclosing).imp_right fun hmem => hlog hmem

theorem Flushing.send (h : c.Flushing) {data : Data} {result : Except Errno Nat}
    (hfit : Fits data.bytes.length result) : (c.send data result).Flushing := by
  by_cases hstate : c.state = .kConnected
  · exact flushing_of_connected (h.interested.send hfit) ((send_state c data result).trans hstate)
  · rwa [TcpConnection.send, if_neg hstate]

theorem shutdown_state (h : c.state = .kConnected) : c.shutdown.state = .kDisconnecting := by
  simp only [shutdown, h, if_true, shutdownInLoop_spec]
  split_ifs <;> rfl

theorem Flushing.shutdown (h : c.Flushing) : c.shutdown.Flushing := by
  by_cases hstate : c.state = .kConnected
  · have hset : c.shutdown.state = .kDisconnecting := shutdown_state hstate
    refine ⟨h.interested.shutdown, by simp [hset], fun _ => ?_⟩
    rw [TcpConnection.shutdown, if_pos hstate, shutdownInLoop_spec]
    split
    · next hwriting => exact .inl hwriting
    · exact .inr (by simp [record])
  · rwa [TcpConnection.shutdown, if_neg hstate]

theorem Flushing.connectDestroyed (h : c.Flushing) : c.connectDestroyed.Flushing := by
  by_cases hstate : c.state = .kConnected
  · have hrecord : (c.record .connectDestroyed).state = .kConnected := hstate
    simp only [TcpConnection.connectDestroyed, if_pos hrecord]
    exact flushing_of_disconnected rfl (Channel.isWriting_disableAll _)
  · have hkept : (c.record .connectDestroyed).state ≠ .kConnected := hstate
    simp only [TcpConnection.connectDestroyed, if_neg hkept]
    exact h.congr rfl (Channel.isWriting_remove _) rfl
      (List.Subset.trans (List.subset_append_left _ _) (List.subset_append_left _ _))

theorem Flushing.handleWrite (h : c.Flushing) (result : Except Errno Nat) :
    (c.handleWrite result).Flushing := by
  refine ⟨h.interested.handleWrite result, (c.handleWrite_state result).symm ▸ h.opened, ?_⟩
  rcases c.handleWrite_cases result with
    ⟨-, heq⟩ | ⟨hw, -, heq⟩ | ⟨k, hw, -, -, heq⟩ | ⟨k, -, -, -, heq⟩
  · rw [heq]
    exact h.closing
  · rw [heq]
    exact fun _ => .inl hw
  · rw [heq]
    exact fun _ => .inl hw
  · obtain ⟨l, -, hdone⟩ := (c.wrote (k + 1)).writeDone_spec
    rw [heq, hdone]
    intro hclosing
    split
    · exact .inr (by simp [record])
    · next hstate =>
      rw [if_neg hstate] at hclosing
      exact absurd hclosing hstate

theorem stream_record (c : TcpConnection) {e : Effect} (he : taken e = []) :
    (c.record e).stream = c.stream := by
  simp [stream, record, kernelBytes, he]

theorem send_stream (hstate : c.state = .kConnected) {data : Data} {result : Except Errno Nat}
    (hfit : Fits data.bytes.length result) (hok : c.writesDirectly = true → result.isOk = true) :
    (c.send data result).stream = c.stream ++ data.bytes := by
  have hopen : (c.record (.accepted data.bytes)).state ≠ .kDisconnected := by
    simp [record, hstate]
  rw [send, if_pos hstate, sendInLoop_stream hopen hfit, stream_record c rfl]
  split
  · next e hdirect =>
    have hdirect : c.writesDirectly = true := hdirect
    cases hok hdirect
  · rfl

theorem connectDestroyed_stream (c : TcpConnection) : c.connectDestroyed.stream = c.stream := by
  simp only [connectDestroyed]
  split_ifs <;> simp [record, setState, stream, kernelBytes, taken]

theorem inputBuffer_connectDestroyed (c : TcpConnection) :
    c.connectDestroyed.inputBuffer = c.inputBuffer := by
  simp only [connectDestroyed]
  split <;> rfl

theorem inputBuffer_handleWrite (c : TcpConnection) (result : Except Errno Nat) :
    (c.handleWrite result).inputBuffer = c.inputBuffer := by
  rcases c.handleWrite_cases result with
    ⟨-, h⟩ | ⟨-, -, h⟩ | ⟨k, -, -, -, h⟩ | ⟨k, -, -, -, h⟩
  · rw [h]
  · rw [h]
    rfl
  · rw [h]
    rfl
  · obtain ⟨l, -, hdone⟩ := (c.wrote (k + 1)).writeDone_spec
    rw [h, hdone]
    split <;> rfl

def takenOf : Except Errno Nat → Nat
  | .ok k => k
  | .error _ => 0

theorem Flushing.readableBytes_handleWrite (h : c.Flushing) (hstate : c.state ≠ .kDisconnected)
    (result : Except Errno Nat) :
    (c.handleWrite result).outputBuffer.readableBytes =
      c.outputBuffer.readableBytes - takenOf result := by
  rcases c.handleWrite_cases result with
    ⟨hw, heq⟩ | ⟨-, hresult, heq⟩ | ⟨k, -, rfl, -, heq⟩ | ⟨k, -, rfl, -, heq⟩
  · have hzero : c.outputBuffer.readableBytes = 0 := by
      by_contra hne
      rw [h.interested.mpr ⟨hstate, hne⟩] at hw
      cases hw
    rw [heq, hzero, Nat.zero_sub]
  · have hzero : takenOf result = 0 := by
      match result, hresult with
      | .error e, _ => rfl
      | .ok 0, _ => rfl
      | .ok (k + 1), hresult => exact absurd rfl (hresult k)
    rw [heq, hzero]
    rfl
  · rw [heq, readableBytes_wrote]
    rfl
  · rw [heq, readableBytes_writeDone, readableBytes_wrote]
    rfl

theorem Flushing.handleWrites (h : c.Flushing) (hstate : c.state ≠ .kDisconnected)
    (results : List (Except Errno Nat)) :
    (results.foldl TcpConnection.handleWrite c).Flushing ∧
      (results.foldl TcpConnection.handleWrite c).state = c.state ∧
      (results.foldl TcpConnection.handleWrite c).stream = c.stream ∧
      (results.foldl TcpConnection.handleWrite c).outputBuffer.readableBytes =
        c.outputBuffer.readableBytes - (results.map takenOf).sum := by
  induction results generalizing c with
  | nil => exact ⟨h, rfl, rfl, rfl⟩
  | cons result results ih =>
    have hkept := c.handleWrite_state result
    obtain ⟨hflushing, hstate', hstream, hbytes⟩ := ih (h.handleWrite result) (hkept ▸ hstate)
    refine ⟨hflushing, hstate'.trans hkept, hstream.trans (c.handleWrite_stream result), ?_⟩
    rw [List.foldl_cons, hbytes, h.readableBytes_handleWrite hstate, List.map_cons, List.sum_cons]
    omega

/-- When the kernel has taken as many bytes as were waiting, it has taken everything, and a
connection that is to be closed is half closed. -/
theorem Flushing.drained (h : c.Flushing) (hstate : c.state ≠ .kDisconnected)
    {results : List (Except Errno Nat)}
    (hresults : c.outputBuffer.readableBytes ≤ (results.map takenOf).sum) :
    (results.foldl TcpConnection.handleWrite c).outputBuffer.peek = [] ∧
      (results.foldl TcpConnection.handleWrite c).channel.isWriting = false ∧
      kernelBytes (results.foldl TcpConnection.handleWrite c).log = c.stream ∧
      (c.state = .kDisconnecting →
        .shutdownWrite ∈ (results.foldl TcpConnection.handleWrite c).log) := by
  obtain ⟨hflushing, hkept, hstream, hbytes⟩ := h.handleWrites hstate results
  have hzero : (results.foldl TcpConnection.handleWrite c).outputBuffer.readableBytes = 0 := by
    omega
  have hempty : (results.foldl TcpConnection.handleWrite c).outputBuffer.peek = [] := by
    rw [← List.length_eq_zero_iff, Buffer.length_peek, hzero]
  have hquiet : (results.foldl TcpConnection.handleWrite c).channel.isWriting = false :=
    Bool.eq_false_of_not_eq_true fun hwriting => (hflushing.interested.mp hwriting).2 hzero
  refine ⟨hempty, hquiet, ?_, fun hclosing => ?_⟩
  · rw [← hstream, stream, hempty, List.append_nil]
  · exact (hflushing.closing (hkept.trans hclosing)).resolve_left (by simp [hquiet])

end TcpConnection

end WebServer.Mymuduo
