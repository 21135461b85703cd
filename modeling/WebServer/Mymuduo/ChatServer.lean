import WebServer.Mymuduo.Flushing

/-! The server of the test program `muduo_server.cpp`, which sends back what it reads, over runs of
the callbacks of one connection in its loop thread.  What it prints is left out. -/

namespace WebServer.Mymuduo

open WebServer.Lib

def Buffer.retrieveAllString (b : Buffer) : Option (Bytes × Buffer) :=
  b.retrieveAsString b.readableBytes

theorem Buffer.retrieveAllString_eq (b : Buffer) :
    b.retrieveAllString = some (b.peek, b.retrieve b.readableBytes) := b.retrieveAllAsString_eq

namespace ChatServer

def onConnection (c : TcpConnection) : TcpConnection := if c.connected then c else c.shutdown

/-- `before` is the byte in front of the string, `result` that of a direct write in `send`. -/
def onMessage (c : TcpConnection) (before : UInt8) (result : Except Errno Nat) :
    Option TcpConnection :=
  c.inputBuffer.retrieveAllString.map fun (buf, buffer) =>
    TcpConnection.send { c with inputBuffer := buffer } ⟨before, buf⟩ result

inductive Label where
  | handleRead (delivered : Except Errno Bytes) (before : UInt8) (result : Except Errno Nat)
  | handleWrite (result : Except Errno Nat)
  | handleClose
  | connectDestroyed

/-- What `handleClose` calls: `onConnection`, and then `closeCallback_`. -/
def closeCallback (c : TcpConnection) : TcpConnection := (onConnection c).record .closeCallback

/-- `onConnection` does nothing in `connectDestroyed`, where the state is `kDisconnected`. -/
def step (c : TcpConnection) : Label → Option TcpConnection
  | .handleRead delivered before result =>
    let c := c.handleRead delivered id closeCallback
    match delivered with
    | .ok (_ :: _) => onMessage c before result
    | _ => some c
  | .handleWrite result => some (c.handleWrite result)
  | .handleClose => some (c.handleClose closeCallback)
  | .connectDestroyed => some c.connectDestroyed

def Label.received : Label → Bytes
  | .handleRead (.ok data) _ _ => data
  | _ => []

/-- The kernel can give this result, and a direct write does not fail. -/
def KernelTakes (c : TcpConnection) : Label → Prop
  | .handleRead (.ok (b :: bs)) _ result =>
    TcpConnection.Fits (b :: bs).length result ∧
      (c.writesDirectly = true → result.isOk = true)
  | _ => True

instance (c : TcpConnection) : (l : Label) → Decidable (KernelTakes c l)
  | .handleRead (.ok (_ :: _)) _ _ => inferInstanceAs (Decidable (_ ∧ _))
  | .handleRead (.ok []) _ _ => .isTrue trivial
  | .handleRead (.error _) _ _ => .isTrue trivial
  | .handleWrite _ => .isTrue trivial
  | .handleClose => .isTrue trivial
  | .connectDestroyed => .isTrue trivial

/-- The connection has sent, or has in `outputBuffer_`, what it has read: all of it, as long as it
is connected. -/
structure Echoes (c : TcpConnection) (received : Bytes) : Prop where
  input : c.inputBuffer.peek = []
  flushing : c.Flushing
  state : c.state = .kConnected ∨ c.state = .kDisconnected
  initial : c.stream <+: received
  whole : c.state = .kConnected → c.stream = received

variable {c c' : TcpConnection} {received : Bytes}

theorem echoes_established (w : Bool) : Echoes (.established w) [] where
  input := Buffer.peek_new _
  flushing := TcpConnection.flushing_established w
  state := .inl rfl
  initial := List.prefix_refl _
  whole _ := rfl

theorem onConnection_of_disconnected (h : c.state = .kDisconnected) : onConnection c = c := by
  simp [onConnection, TcpConnection.connected, TcpConnection.shutdown, h]

theorem handleClose_eq (c : TcpConnection) : c.handleClose closeCallback =
    c.handleClose (TcpConnection.record · .closeCallback) :=
  congrArg (TcpConnection.record · .closeCallback) (onConnection_of_disconnected rfl)

theorem onMessage_eq (c : TcpConnection) (before : UInt8) (result : Except Errno Nat) :
    onMessage c before result = some (TcpConnection.send
      { c with inputBuffer := c.inputBuffer.retrieve c.inputBuffer.readableBytes }
      ⟨before, c.inputBuffer.peek⟩ result) := by
  rw [onMessage, Buffer.retrieveAllString_eq, Option.map_some]

theorem Echoes.disconnect (h : Echoes c received) (hinput : c'.inputBuffer.peek = [])
    (hflushing : c'.Flushing) (hstate : c'.state = .kDisconnected)
    (hstream : c'.stream = c.stream) (data : Bytes) : Echoes c' (received ++ data) where
  input := hinput
  flushing := hflushing
  state := .inr hstate
  initial := hstream ▸ h.initial.trans (List.prefix_append _ _)
  whole hconnected := by simp [hstate] at hconnected

theorem Echoes.handleClose (h : Echoes c received) :
    Echoes (c.handleClose closeCallback) received := by
  have hstream : (c.handleClose closeCallback).stream = c.stream := by
    rw [handleClose_eq]
    simp only [TcpConnection.handleClose]
    rw [TcpConnection.stream_record _ rfl, TcpConnection.stream_record _ rfl]
    rfl
  have hflushing : (c.handleClose closeCallback).Flushing := by
    rw [handleClose_eq]
    exact TcpConnection.flushing_of_disconnected rfl (Channel.isWriting_disableAll _)
  have hinput : (c.handleClose closeCallback).inputBuffer.peek = [] := by
    rw [handleClose_eq]
    exact h.input
  have hstate : (c.handleClose closeCallback).state = .kDisconnected := by
    rw [handleClose_eq]
    rfl
  rw [← List.append_nil received]
  exact h.disconnect hinput hflushing hstate hstream []

theorem Echoes.connectDestroyed (h : Echoes c received) : Echoes c.connectDestroyed received := by
  have hinput : c.connectDestroyed.inputBuffer.peek = [] := by
    rw [TcpConnection.inputBuffer_connectDestroyed, h.input]
  have hstate : c.connectDestroyed.state = .kDisconnected := by
    rcases h.state with hstate | hstate <;>
      simp [TcpConnection.connectDestroyed, TcpConnection.record, TcpConnection.setState, hstate]
  rw [← List.append_nil received]
  exact h.disconnect hinput h.flushing.connectDestroyed hstate c.connectDestroyed_stream []

theorem Echoes.handleWrite (h : Echoes c received) (result : Except Errno Nat) :
    Echoes (c.handleWrite result) received where
  input := by rw [TcpConnection.inputBuffer_handleWrite, h.input]
  flushing := h.flushing.handleWrite result
  state := (c.handleWrite_state result).symm ▸ h.state
  initial := (c.handleWrite_stream result).symm ▸ h.initial
  whole hstate := by
    rw [c.handleWrite_stream result]
    exact h.whole ((c.handleWrite_state result).symm.trans hstate)

theorem Echoes.onMessage (h : Echoes c received) (hflushing : c'.Flushing)
    (hstate : c'.state = c.state) (hstream : c'.stream = c.stream) (before : UInt8)
    {result : Except Errno Nat} (hfit : TcpConnection.Fits c'.inputBuffer.peek.length result)
    (hok : c'.writesDirectly = true → result.isOk = true) :
    ∃ c'', ChatServer.onMessage c' before result = some c'' ∧
      Echoes c'' (received ++ c'.inputBuffer.peek) := by
  refine ⟨_, onMessage_eq c' before result, ?_⟩
  have hempty : (c'.inputBuffer.retrieve c'.inputBuffer.readableBytes).peek = [] := by
    rw [Buffer.peek_retrieve, ← Buffer.length_peek, List.drop_length]
  have hread : TcpConnection.Flushing
      { c' with inputBuffer := c'.inputBuffer.retrieve c'.inputBuffer.readableBytes } :=
    hflushing.congr rfl rfl rfl (List.Subset.refl _)
  rcases h.state with hopen | hclosed
  · have hopen' := hstate.trans hopen
    have hfit' : TcpConnection.Fits (Data.bytes ⟨before, c'.inputBuffer.peek⟩).length result := hfit
    have hwhole := (TcpConnection.send_stream
      (c := { c' with inputBuffer := c'.inputBuffer.retrieve c'.inputBuffer.readableBytes })
      hopen' hfit' hok).trans
      (congrArg (· ++ c'.inputBuffer.peek) (hstream.trans (h.whole hopen)))
    exact
      { input := by rw [TcpConnection.send_inputBuffer, hempty]
        flushing := hread.send hfit
        state := .inl ((TcpConnection.send_state _ _ _).trans hopen')
        initial := hwhole ▸ List.prefix_refl _
        whole := fun _ => hwhole }
  · have hclosed' := hstate.trans hclosed
    rw [TcpConnection.send, if_neg (by simp [hclosed'])]
    exact h.disconnect hempty hread hclosed' hstream _

theorem Echoes.handleRead (h : Echoes c received) (b : UInt8) (bs : Bytes) (before : UInt8)
    {result : Except Errno Nat} (hl : KernelTakes c (.handleRead (.ok (b :: bs)) before result)) :
    ∃ c', step c (.handleRead (.ok (b :: bs)) before result) = some c' ∧
      Echoes c' (received ++ b :: bs) := by
  have hread : c.handleRead (.ok (b :: bs)) id closeCallback =
      TcpConnection.record { c with inputBuffer := (c.inputBuffer.readFd (.ok (b :: bs))).2 }
        .messageCallback := by
    simp [TcpConnection.handleRead]
  have hpeek : (c.handleRead (.ok (b :: bs)) id closeCallback).inputBuffer.peek = b :: bs := by
    rw [hread]
    exact (Buffer.peek_readFd_ok _ _).trans (congrArg (· ++ b :: bs) h.input)
  have hflushing : (c.handleRead (.ok (b :: bs)) id closeCallback).Flushing :=
    hread ▸ h.flushing.congr rfl rfl rfl (List.subset_append_left _ _)
  have hstream : (c.handleRead (.ok (b :: bs)) id closeCallback).stream = c.stream := by
    rw [hread]
    exact TcpConnection.stream_record _ rfl
  obtain ⟨c', hc', hechoes⟩ := h.onMessage hflushing (by rw [hread]; rfl) hstream before
    (by rw [hpeek]; exact hl.1) fun hdirect => hl.2 (by rwa [hread] at hdirect)
  exact ⟨c', hc', hpeek ▸ hechoes⟩

theorem step_echoes (h : Echoes c received) (l : Label) (hl : KernelTakes c l) :
    ∃ c', step c l = some c' ∧ Echoes c' (received ++ l.received) := by
  cases l with
  | handleRead delivered before result =>
    match delivered with
    | .error e => exact ⟨c, rfl, (List.append_nil received).symm ▸ h⟩
    | .ok [] =>
      have hread : c.handleRead (.ok []) id closeCallback = TcpConnection.handleClose
          { c with inputBuffer := (c.inputBuffer.readFd (.ok [])).2 } closeCallback := by
        simp [TcpConnection.handleRead]
      refine ⟨_, rfl, (List.append_nil received).symm ▸ hread ▸ Echoes.handleClose ?_⟩
      exact
        { input := (Buffer.peek_readFd_ok _ _).trans ((List.append_nil _).trans h.input)
          flushing := h.flushing.congr rfl rfl rfl (List.Subset.refl _)
          state := h.state
          initial := h.initial
          whole := h.whole }
    | .ok (b :: bs) => exact h.handleRead b bs before hl
  | handleWrite result =>
    exact ⟨_, rfl, (List.append_nil received).symm ▸ h.handleWrite result⟩
  | handleClose => exact ⟨_, rfl, (List.append_nil received).symm ▸ h.handleClose⟩
  | connectDestroyed => exact ⟨_, rfl, (List.append_nil received).symm ▸ h.connectDestroyed⟩

/-- Whatever pieces arrive and however little the kernel takes at a time, as long as no direct write
fails, the peer gets back what it has sent, in order and nothing else; all of it, once the kernel
has taken what is waiting. -/
theorem run_echoes (w : Bool) {ls : List Label}
    (hls : Along step KernelTakes (TcpConnection.established w) ls) :
    ∃ c, run step (TcpConnection.established w) ls = some c ∧
      TcpConnection.kernelBytes c.log <+: ls.flatMap Label.received ∧
      (c.state ≠ .kDisconnected → ∀ results : List (Except Errno Nat),
        c.outputBuffer.readableBytes ≤ (results.map TcpConnection.takenOf).sum →
        TcpConnection.kernelBytes (results.foldl TcpConnection.handleWrite c).log =
          ls.flatMap Label.received) := by
  obtain ⟨c, hrun, hc⟩ := exists_run_foldl (f := fun acc l => acc ++ Label.received l)
    (R := Echoes) (fun h l hl => step_echoes h l hl) (echoes_established w) hls
  rw [← List.flatMap_eq_foldl] at hc
  refine ⟨c, hrun, (List.prefix_append _ _).trans hc.initial, fun hopen results hresults => ?_⟩
  rw [(hc.flushing.drained hopen hresults).2.2.1]
  exact hc.whole (hc.state.resolve_right hopen)

def twoStrings : List Label :=
  [.handleRead (.ok (ascii "hello ")) 0 (.ok 2), .handleRead (.ok (ascii "world")) 0 (.ok 0),
    .handleWrite (.error .EWOULDBLOCK), .handleWrite (.ok 7)]

theorem run_echoes_twoStrings :
    ∃ c, run step (TcpConnection.established false) twoStrings = some c ∧
      TcpConnection.kernelBytes c.log <+: twoStrings.flatMap Label.received ∧
      (c.state ≠ .kDisconnected → ∀ results : List (Except Errno Nat),
        c.outputBuffer.readableBytes ≤ (results.map TcpConnection.takenOf).sum →
        TcpConnection.kernelBytes (results.foldl TcpConnection.handleWrite c).log =
          twoStrings.flatMap Label.received) :=
  run_echoes false (by decide +kernel)

end ChatServer

end WebServer.Mymuduo
