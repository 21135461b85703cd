import WebServer.Mymuduo.Buffer
import WebServer.Mymuduo.Channel
import WebServer.Mymuduo.EventLoop

/-! `TcpConnection`: what one call of each function does in the loop thread.  The results of
system calls are arguments, and everything a connection does to its surroundings is logged. -/

namespace WebServer.Mymuduo

inductive StateE where
  | kDisconnected | kConnecting | kConnected | kDisconnecting
  deriving DecidableEq

/-- What `[data, data + len)` holds, with the byte in front of `data`. -/
structure Data where
  before : UInt8
  bytes : Bytes
  deriving DecidableEq

/-- `[data + off, data + off + n)`, where the sum of pointer and offset may wrap around. -/
def Data.range (d : Data) (off n : Nat) : Bytes :=
  if off = sizeMod - 1 then (d.before :: d.bytes).take n else (d.bytes.drop off).take n

/-- How a functor that `send` queues has captured the message: by `c_str()` and `size()`, or
by value. -/
inductive Source where
  | pointer (address len : Nat)
  | copy (message : Bytes)
  deriving DecidableEq

/-- What `loop_` is given to run.  `sent` is what the argument of `send` held in the call. -/
inductive Functor where
  | connectEstablished
  | connectDestroyed
  | sendInLoop (source : Source) (sent : Bytes)
  | shutdownInLoop
  | writeCompleteCallback
  | highWaterMarkCallback (size : Nat)
  deriving DecidableEq

/-- The functor has a `TcpConnectionPtr` bound to it, not the bare `this`. -/
def Functor.owns : Functor → Bool
  | .sendInLoop _ _ => false
  | .shutdownInLoop => false
  | _ => true

inductive Effect where
  /-- `send` found `state_ == kConnected`. -/
  | accepted (message : Bytes)
  | sendInLoop (message : Bytes)
  | write (offered : Bytes) (result : Except Errno Nat)
  | shutdownWrite
  | connectionCallback (connected : Bool)
  | messageCallback
  | closeCallback
  | connectDestroyed
  /-- `channel_->remove()`, with the value of `isNoneEvent()`. -/
  | remove (isNoneEvent : Bool)
  | writeCompleteCallback
  | highWaterMarkCallback (size : Nat)
  /-- An empty `std::function` was called. -/
  | badFunctionCall
  deriving DecidableEq

/-- The two callbacks are given by whether they are set. -/
structure TcpConnection where
  state : StateE
  channel : Channel
  inputBuffer : Buffer
  outputBuffer : Buffer
  highWaterMark : Nat
  writeCompleteCallback : Bool
  highWaterMarkCallback : Bool
  loop : EventLoop Functor
  log : List Effect

namespace TcpConnection

def record (c : TcpConnection) (e : Effect) : TcpConnection := { c with log := c.log ++ [e] }

/-- `loop_->queueInLoop(f)`, called in the loop thread. -/
def queueInLoop (c : TcpConnection) (f : Functor) : TcpConnection :=
  { c with loop := c.loop.queueInLoop true f }

def new (writeCompleteCallback : Bool) : TcpConnection where
  state := .kConnecting
  channel := .new
  inputBuffer := .new Buffer.kInitialSize
  outputBuffer := .new Buffer.kInitialSize
  highWaterMark := 64 * 1024 * 1024
  writeCompleteCallback := writeCompleteCallback
  highWaterMarkCallback := false
  loop := .new
  log := []

def setState (c : TcpConnection) (state : StateE) : TcpConnection := { c with state := state }

def connected (c : TcpConnection) : Bool := c.state = .kConnected

def writesDirectly (c : TcpConnection) : Bool :=
  !c.channel.isWriting && c.outputBuffer.readableBytes = 0

/-- `sendInLoop` has these local variables after its attempt to write. -/
structure Attempt where
  nwrote : Nat
  remaining : Nat
  faultError : Bool

/-- The result of `::write` in a variable of type `size_t`. -/
def nwroteOf : Except Errno Nat → Nat
  | .ok k => k
  | .error _ => sizeMod - 1

def isFault : Except Errno Nat → Bool
  | .error .EPIPE => true
  | .error .ECONNRESET => true
  | _ => false

/-- The variables after a `::write` of `len` bytes; `nwrote >= 0` compares a `size_t`. -/
def attempt (len : Nat) (result : Except Errno Nat) : Attempt :=
  let nwrote := nwroteOf result
  if 0 ≤ nwrote then ⟨nwrote, sizeSub len nwrote, false⟩ else ⟨0, len, isFault result⟩

def queueWriteComplete (c : TcpConnection) : TcpConnection :=
  if c.writeCompleteCallback then c.queueInLoop .writeCompleteCallback else c

/-- The first part of `sendInLoop`: the direct write, when it is made. -/
def writeDirect (c : TcpConnection) (data : Data) (result : Except Errno Nat) :
    TcpConnection × Attempt :=
  let len := data.bytes.length
  if c.writesDirectly then
    let a := attempt len result
    let c := c.record (.write data.bytes result)
    (if a.remaining = 0 then c.queueWriteComplete else c, a)
  else (c, ⟨0, len, false⟩)

def checkHighWaterMark (c : TcpConnection) (remaining : Nat) : TcpConnection :=
  let oldLen := c.outputBuffer.readableBytes
  if c.highWaterMark ≤ oldLen + remaining ∧ oldLen < c.highWaterMark ∧ c.highWaterMark ≠ 0 then
    c.queueInLoop (.highWaterMarkCallback (oldLen + remaining))
  else c

/-- The second part of `sendInLoop`: what was not written is kept for `handleWrite`. -/
def keepRest (c : TcpConnection) (data : Data) (a : Attempt) : TcpConnection :=
  let c := c.checkHighWaterMark a.remaining
  let c := { c with outputBuffer := c.outputBuffer.append (data.range a.nwrote a.remaining) }
  if !c.channel.isWriting then { c with channel := c.channel.enableWriting } else c

/-- `sendInLoop(data, len)`, with the result of its `::write` if it makes one. -/
def sendInLoop (c : TcpConnection) (data : Data) (result : Except Errno Nat) : TcpConnection :=
  let c := c.record (.sendInLoop data.bytes)
  if c.state = .kDisconnected then c
  else
    let (c, a) := c.writeDirect data result
    if !a.faultError && 0 < a.remaining then c.keepRest data a else c

/-- `send(const std::string &)` in the loop thread. -/
def send (c : TcpConnection) (buf : Data) (result : Except Errno Nat) : TcpConnection :=
  if c.state = .kConnected then (c.record (.accepted buf.bytes)).sendInLoop buf result else c

/-- `send(Buffer *)` in the loop thread, with the buffer after the call. -/
def sendBuffer (c : TcpConnection) (buf : Buffer) (result : Except Errno Nat) :
    TcpConnection × Buffer :=
  if c.state = .kConnected then
    ((c.record (.accepted buf.peek)).sendInLoop ⟨buf.beforePeek, buf.peek⟩ result, buf.retrieveAll)
  else (c, buf)

def shutdownInLoop (c : TcpConnection) : TcpConnection :=
  if !c.channel.isWriting then c.record .shutdownWrite else c

/-- `shutdown()` in the loop thread. -/
def shutdown (c : TcpConnection) : TcpConnection :=
  if c.state = .kConnected then (c.setState .kDisconnecting).shutdownInLoop else c

def connectEstablished (c : TcpConnection) : TcpConnection :=
  let c := c.setState .kConnected
  let c := { c with channel := c.channel.tie.enableReading }
  c.record (.connectionCallback c.connected)

def established (writeCompleteCallback : Bool) : TcpConnection :=
  (new writeCompleteCallback).connectEstablished

def connectDestroyed (c : TcpConnection) : TcpConnection :=
  let c := c.record .connectDestroyed
  let c :=
    if c.state = .kConnected then
      let c := c.setState .kDisconnected
      let c := { c with channel := c.channel.disableAll }
      c.record (.connectionCallback c.connected)
    else c
  let c := c.record (.remove c.channel.isNoneEvent)
  { c with channel := c.channel.remove }

/-- `closeCallback` is what `closeCallback_` does. -/
def handleClose (c : TcpConnection) (closeCallback : TcpConnection → TcpConnection) :
    TcpConnection :=
  let c := c.setState .kDisconnected
  let c := { c with channel := c.channel.disableAll }
  closeCallback (c.record (.connectionCallback c.connected))

/-- `handleRead`, with what `readv` delivers: no bytes mean the end of the stream. -/
def handleRead (c : TcpConnection) (delivered : Except Errno Bytes)
    (messageCallback closeCallback : TcpConnection → TcpConnection) : TcpConnection :=
  let (n, inputBuffer) := c.inputBuffer.readFd delivered
  let c := { c with inputBuffer := inputBuffer }
  if 0 < n then messageCallback (c.record .messageCallback)
  else if n = 0 then c.handleClose closeCallback
  else c

/-- The part of `handleWrite` behind the write that empties `outputBuffer_`. -/
def writeDone (c : TcpConnection) : TcpConnection :=
  let c := { c with channel := c.channel.disableWriting }
  let c := c.queueWriteComplete
  if c.state = .kDisconnecting then c.shutdownInLoop else c

/-- `handleWrite`, with the result of the `::write` in `writeFd`. -/
def handleWrite (c : TcpConnection) (result : Except Errno Nat) : TcpConnection :=
  if c.channel.isWriting then
    let c := c.record (.write c.outputBuffer.peek result)
    match result with
    | .ok (n + 1) =>
      let c := { c with outputBuffer := c.outputBuffer.retrieve (n + 1) }
      if c.outputBuffer.readableBytes = 0 then c.writeDone else c
    | _ => c
  else c

def taken : Effect → Bytes
  | .write offered (.ok k) => offered.take k
  | _ => []

def kernelBytes (log : List Effect) : Bytes := log.flatMap taken

/-- What the kernel took, and what is to be written next. -/
def stream (c : TcpConnection) : Bytes := kernelBytes c.log ++ c.outputBuffer.peek

/-- What `::write` can return for an object of `len` bytes. -/
structure Fits (len : Nat) (result : Except Errno Nat) : Prop where
  len_le : len ≤ ssizeMax
  ok_le : ∀ k, result = .ok k → k ≤ len

instance (len : Nat) (result : Except Errno Nat) : Decidable (Fits len result) :=
  decidable_of_iff (len ≤ ssizeMax ∧ result.toOption.getD 0 ≤ len) <| by
    constructor
    · rintro ⟨hlen, hk⟩
      exact ⟨hlen, by rintro k rfl; exact hk⟩
    · rintro ⟨hlen, hk⟩
      refine ⟨hlen, ?_⟩
      cases result with
      | ok k => exact hk k rfl
      | error e => exact Nat.zero_le _

variable {c : TcpConnection} {data : Data} {result : Except Errno Nat}

theorem writesDirectly_peek (h : c.writesDirectly = true) : c.outputBuffer.peek = [] := by
  simp only [writesDirectly, Bool.and_eq_true, decide_eq_true_eq] at h
  rw [← List.length_eq_zero_iff, Buffer.length_peek]
  exact h.2

theorem attempt_ok {len k : Nat} (h : k ≤ len) : attempt len (.ok k) = ⟨k, len - k, false⟩ := by
  simp [attempt, nwroteOf, sizeSub_of_le h]

theorem attempt_error {len : Nat} (h : len ≤ ssizeMax) (e : Errno) :
    attempt len (.error e) = ⟨sizeMod - 1, len + 1, false⟩ := by
  have hlen : ¬ sizeMod - 1 ≤ len := by simp only [ssizeMax, sizeMod] at h ⊢; omega
  have hsub : sizeSub len (sizeMod - 1) = len + 1 := by
    rw [sizeSub, if_neg hlen]
    simp only [sizeMod]
    omega
  simp [attempt, nwroteOf, hsub]

theorem range_ok (d : Data) {k : Nat} (h : Fits d.bytes.length (.ok k)) :
    d.range k (d.bytes.length - k) = d.bytes.drop k := by
  have hk := h.ok_le k rfl
  have hlen := h.len_le
  have hne : k ≠ sizeMod - 1 := by simp only [ssizeMax, sizeMod] at hlen ⊢; omega
  rw [Data.range, if_neg hne, List.take_of_length_le (by simp)]

theorem range_error (d : Data) :
    d.range (sizeMod - 1) (d.bytes.length + 1) = d.before :: d.bytes := by
  rw [Data.range, if_pos rfl, List.take_of_length_le (by simp)]

theorem range_all (d : Data) : d.range 0 d.bytes.length = d.bytes := by
  simp [Data.range, sizeMod]

structure QueuedCallbacks (l m : EventLoop Functor) : Prop where
  functors : m.functors = l.functors
  ran : m.ran = l.ran
  calling : m.callingPendingFunctors = l.callingPendingFunctors
  pending : ∃ fs, m.pendingFunctors = l.pendingFunctors ++ fs ∧
    ∀ f ∈ fs, f = .writeCompleteCallback ∨ ∃ n, f = .highWaterMarkCallback n

theorem QueuedCallbacks.refl (l : EventLoop Functor) : QueuedCallbacks l l :=
  ⟨rfl, rfl, rfl, [], by simp⟩

theorem QueuedCallbacks.trans {l m n : EventLoop Functor} (h₁ : QueuedCallbacks l m)
    (h₂ : QueuedCallbacks m n) : QueuedCallbacks l n := by
  obtain ⟨fs, hfs, hmem⟩ := h₁.pending
  obtain ⟨gs, hgs, hmem'⟩ := h₂.pending
  refine ⟨h₂.functors.trans h₁.functors, h₂.ran.trans h₁.ran, h₂.calling.trans h₁.calling,
    fs ++ gs, by rw [hgs, hfs, List.append_assoc], ?_⟩
  intro f hf
  rcases List.mem_append.mp hf with hf | hf
  · exact hmem f hf
  · exact hmem' f hf

theorem queuedCallbacks_queueInLoop (l : EventLoop Functor) {f : Functor}
    (hf : f = .writeCompleteCallback ∨ ∃ n, f = .highWaterMarkCallback n) :
    QueuedCallbacks l (l.queueInLoop true f) :=
  ⟨by simp, by simp, by simp, [f], by simp, by simpa using hf⟩

theorem QueuedCallbacks.grows {l m : EventLoop Functor} (h : QueuedCallbacks l m) :
    ∃ fs, m.waiting = l.waiting ++ fs ∧ m.kept = l.kept ++ fs ∧
      ∀ f ∈ fs, f = .writeCompleteCallback ∨ ∃ n, f = .highWaterMarkCallback n := by
  obtain ⟨fs, hfs, hmem⟩ := h.pending
  have hwaiting : m.waiting = l.waiting ++ fs := by
    simp only [EventLoop.waiting, h.functors, hfs, List.append_assoc]
  refine ⟨fs, hwaiting, ?_, hmem⟩
  rw [EventLoop.kept, EventLoop.kept, hwaiting, h.ran, List.append_assoc]

theorem queueWriteComplete_spec (c : TcpConnection) :
    ∃ l, c.queueWriteComplete = { c with loop := l } ∧ QueuedCallbacks c.loop l := by
  simp only [queueWriteComplete]
  split
  · exact ⟨_, rfl, queuedCallbacks_queueInLoop _ (.inl rfl)⟩
  · exact ⟨_, rfl, .refl _⟩

theorem checkHighWaterMark_spec (c : TcpConnection) (remaining : Nat) :
    ∃ l, c.checkHighWaterMark remaining = { c with loop := l } ∧ QueuedCallbacks c.loop l := by
  simp only [checkHighWaterMark]
  split
  · exact ⟨_, rfl, queuedCallbacks_queueInLoop _ (.inr ⟨_, rfl⟩)⟩
  · exact ⟨_, rfl, .refl _⟩

/-- What a part of `sendInLoop` did: what it wrote to the log, what it appended to
`outputBuffer_`, and what it queued. -/
structure Sends (c : TcpConnection) (effects : List Effect) (rest : Bytes) (c' : TcpConnection) :
    Prop where
  state : c'.state = c.state
  inputBuffer : c'.inputBuffer = c.inputBuffer
  log : c'.log = c.log ++ effects
  peek : c'.outputBuffer.peek = c.outputBuffer.peek ++ rest
  channel : c'.channel =
    if c.channel.isWriting ∨ rest = [] then c.channel else c.channel.enableWriting
  loop : QueuedCallbacks c.loop c'.loop

theorem Sends.trans {c c₁ c₂ : TcpConnection} {e₁ e₂ : List Effect} {rest : Bytes}
    (h₁ : Sends c e₁ [] c₁) (h₂ : Sends c₁ e₂ rest c₂) : Sends c (e₁ ++ e₂) rest c₂ := by
  have hchannel : c₁.channel = c.channel := by simpa using h₁.channel
  refine ⟨h₂.state.trans h₁.state, h₂.inputBuffer.trans h₁.inputBuffer, ?_, ?_, ?_,
    h₁.loop.trans h₂.loop⟩
  · rw [h₂.log, h₁.log, List.append_assoc]
  · rw [h₂.peek, h₁.peek, List.append_nil]
  · rw [h₂.channel, hchannel]

theorem sends_record (c : TcpConnection) (e : Effect) : Sends c [e] [] (c.record e) :=
  ⟨rfl, rfl, rfl, by simp [record], by simp [record], .refl _⟩

theorem keepRest_spec (c : TcpConnection) (data : Data) {a : Attempt}
    (h : data.range a.nwrote a.remaining ≠ []) :
    Sends c [] (data.range a.nwrote a.remaining) (c.keepRest data a) := by
  obtain ⟨l, hcheck, hl⟩ := c.checkHighWaterMark_spec a.remaining
  simp only [keepRest, hcheck]
  by_cases hw : c.channel.isWriting = true
  · constructor <;> simp [hw, hl]
  · constructor <;> simp [hw, h, hl]

def unwritten (data : Data) : Except Errno Nat → Bytes
  | .ok k => data.bytes.drop k
  | .error _ => data.before :: data.bytes

theorem writeDirect_spec (c : TcpConnection) (data : Data) (result : Except Errno Nat) :
    Sends c (if c.writesDirectly then [.write data.bytes result] else []) []
        (c.writeDirect data result).1 ∧
      (c.writeDirect data result).2 =
        if c.writesDirectly then attempt data.bytes.length result
        else ⟨0, data.bytes.length, false⟩ := by
  simp only [writeDirect]
  split
  · obtain ⟨l, hqueue, hl⟩ := (c.record (.write data.bytes result)).queueWriteComplete_spec
    refine ⟨?_, rfl⟩
    simp only [hqueue]
    split
    · exact ⟨rfl, rfl, rfl, by simp [record], by simp [record], hl⟩
    · exact ⟨rfl, rfl, rfl, by simp [record], by simp [record], .refl _⟩
  · exact ⟨⟨rfl, rfl, by simp, by simp, by simp, .refl _⟩, rfl⟩

theorem sendInLoop_disconnected (h : c.state = .kDisconnected) (data : Data)
    (result : Except Errno Nat) : c.sendInLoop data result = c.record (.sendInLoop data.bytes) := by
  simp [sendInLoop, record, h]

theorem range_attempt (c : TcpConnection) (hfit : Fits data.bytes.length result)
    {a : Attempt}
    (ha : a = if c.writesDirectly then attempt data.bytes.length result
      else ⟨0, data.bytes.length, false⟩) :
    a.faultError = false ∧ (a.remaining = 0 ↔ data.range a.nwrote a.remaining = []) ∧
      data.range a.nwrote a.remaining =
        if c.writesDirectly then unwritten data result else data.bytes := by
  by_cases hw : c.writesDirectly = true
  · rw [if_pos hw] at ha ⊢
    cases result with
    | ok k =>
      rw [attempt_ok (hfit.ok_le k rfl)] at ha
      subst ha
      rw [range_ok data hfit]
      exact ⟨rfl, by rw [List.drop_eq_nil_iff, Nat.sub_eq_zero_iff_le], rfl⟩
    | error e =>
      rw [attempt_error hfit.len_le] at ha
      subst ha
      rw [range_error]
      exact ⟨rfl, by simp, rfl⟩
  · rw [if_neg hw] at ha ⊢
    subst ha
    rw [range_all]
    exact ⟨rfl, List.length_eq_zero_iff, rfl⟩

theorem sendInLoop_spec (h : c.state ≠ .kDisconnected) (hfit : Fits data.bytes.length result) :
    Sends c
      (.sendInLoop data.bytes :: if c.writesDirectly then [.write data.bytes result] else [])
      (if c.writesDirectly then unwritten data result else data.bytes)
      (c.sendInLoop data result) := by
  obtain ⟨hsends, hattempt⟩ := (c.record (.sendInLoop data.bytes)).writeDirect_spec data result
  obtain ⟨hfault, hzero, hrange⟩ := range_attempt (c.record (.sendInLoop data.bytes)) hfit hattempt
  have hwrite := (c.sends_record (.sendInLoop data.bytes)).trans hsends
  rw [show (c.record (.sendInLoop data.bytes)).writesDirectly = c.writesDirectly from rfl]
    at hwrite hrange
  have hbody : c.sendInLoop data result =
      (let (c₁, a) := (c.record (.sendInLoop data.bytes)).writeDirect data result
       if !a.faultError && 0 < a.remaining then c₁.keepRest data a else c₁) := if_neg h
  rw [hbody, ← hrange]
  generalize (c.record (.sendInLoop data.bytes)).writeDirect data result = p at *
  obtain ⟨c₁, a⟩ := p
  replace hfault : a.faultError = false := hfault
  by_cases hrest : a.remaining = 0
  · rw [hzero.mp hrest]
    simpa [hrest] using hwrite
  · have hsends := hwrite.trans (keepRest_spec c₁ data fun hnil => hrest (hzero.mpr hnil))
    simpa [hfault, Nat.pos_of_ne_zero hrest] using hsends

/-- How a call changes the stream: a failed direct write adds the byte in front of the data. -/
theorem sendInLoop_stream (h : c.state ≠ .kDisconnected) (hfit : Fits data.bytes.length result) :
    (c.sendInLoop data result).stream =
      c.stream ++
        match c.writesDirectly, result with
        | true, .error _ => data.before :: data.bytes
        | _, _ => data.bytes := by
  have hsends := sendInLoop_spec h hfit
  rw [stream, stream, hsends.log, hsends.peek]
  by_cases hw : c.writesDirectly = true
  · rw [if_pos hw, if_pos hw, writesDirectly_peek hw, hw]
    cases result with
    | ok k => simp [kernelBytes, taken, unwritten]
    | error e => simp [kernelBytes, taken, unwritten]
  · rw [if_neg hw, if_neg hw, Bool.eq_false_of_not_eq_true hw]
    simp [kernelBytes, taken]

theorem shutdownInLoop_spec (c : TcpConnection) :
    c.shutdownInLoop = if c.channel.isWriting then c else c.record .shutdownWrite := by
  cases h : c.channel.isWriting <;> simp [shutdownInLoop, h]

theorem writeDone_spec (c : TcpConnection) :
    ∃ l, QueuedCallbacks c.loop l ∧ c.writeDone =
      let d := { c with channel := c.channel.disableWriting, loop := l }
      if c.state = .kDisconnecting then d.record .shutdownWrite else d := by
  obtain ⟨l, hqueue, hl⟩ :=
    queueWriteComplete_spec { c with channel := c.channel.disableWriting }
  refine ⟨l, hl, ?_⟩
  simp [writeDone, hqueue, shutdownInLoop_spec]

def wrote (c : TcpConnection) (k : Nat) : TcpConnection :=
  { c.record (.write c.outputBuffer.peek (.ok k)) with outputBuffer := c.outputBuffer.retrieve k }

/-- The outcomes of `handleWrite`: no write, a write that takes nothing, a write that leaves
something, and a write that leaves nothing. -/
theorem handleWrite_cases (c : TcpConnection) (result : Except Errno Nat) :
    (c.channel.isWriting = false ∧ c.handleWrite result = c) ∨
    (c.channel.isWriting = true ∧ (∀ k, result ≠ .ok (k + 1)) ∧
      c.handleWrite result = c.record (.write c.outputBuffer.peek result)) ∨
    (∃ k, c.channel.isWriting = true ∧ result = .ok (k + 1) ∧
      k + 1 < c.outputBuffer.readableBytes ∧ c.handleWrite result = c.wrote (k + 1)) ∨
    (∃ k, c.channel.isWriting = true ∧ result = .ok (k + 1) ∧
      c.outputBuffer.readableBytes ≤ k + 1 ∧
      c.handleWrite result = (c.wrote (k + 1)).writeDone) := by
  cases hw : c.channel.isWriting with
  | false => exact .inl ⟨rfl, by simp [handleWrite, hw]⟩
  | true =>
    right
    match result with
    | .error e => exact .inl ⟨rfl, by simp, by simp [handleWrite, hw]⟩
    | .ok 0 => exact .inl ⟨rfl, by simp, by simp [handleWrite, hw]⟩
    | .ok (k + 1) =>
      right
      have hrest : (c.wrote (k + 1)).outputBuffer.readableBytes =
          c.outputBuffer.readableBytes - (k + 1) := by
        rw [← Buffer.length_peek, wrote, Buffer.peek_retrieve, List.length_drop,
          Buffer.length_peek]
      have hbody : c.handleWrite (.ok (k + 1)) =
          if (c.wrote (k + 1)).outputBuffer.readableBytes = 0 then (c.wrote (k + 1)).writeDone
          else c.wrote (k + 1) := by
        rw [handleWrite, if_pos hw]
        rfl
      rw [hbody, hrest]
      by_cases hlt : k + 1 < c.outputBuffer.readableBytes
      · exact .inl ⟨k, rfl, rfl, hlt, if_neg (by omega)⟩
      · exact .inr ⟨k, rfl, rfl, by omega, if_pos (by omega)⟩

theorem wrote_stream (c : TcpConnection) (k : Nat) : (c.wrote k).stream = c.stream := by
  simp [wrote, stream, record, kernelBytes, taken]

theorem writeDone_stream (c : TcpConnection) : c.writeDone.stream = c.stream := by
  obtain ⟨l, -, hdone⟩ := c.writeDone_spec
  rw [hdone]
  split <;> simp [stream, record, kernelBytes, taken]

theorem writeDone_state (c : TcpConnection) : c.writeDone.state = c.state := by
  obtain ⟨l, -, hdone⟩ := c.writeDone_spec
  rw [hdone]
  split <;> rfl

theorem handleWrite_stream (c : TcpConnection) (result : Except Errno Nat) :
    (c.handleWrite result).stream = c.stream := by
  rcases c.handleWrite_cases result with
    ⟨-, h⟩ | ⟨-, hresult, h⟩ | ⟨k, -, -, -, h⟩ | ⟨k, -, -, -, h⟩
  · rw [h]
  · rw [h]
    match result, hresult with
    | .error e, _ => simp [stream, record, kernelBytes, taken]
    | .ok 0, _ => simp [stream, record, kernelBytes, taken]
    | .ok (k + 1), hresult => exact absurd rfl (hresult k)
  · rw [h, wrote_stream]
  · rw [h, writeDone_stream, wrote_stream]

theorem handleWrite_state (c : TcpConnection) (result : Except Errno Nat) :
    (c.handleWrite result).state = c.state := by
  rcases c.handleWrite_cases result with
    ⟨-, h⟩ | ⟨-, -, h⟩ | ⟨k, -, -, -, h⟩ | ⟨k, -, -, -, h⟩
  · rw [h]
  · rw [h]; rfl
  · rw [h]; rfl
  · rw [h, writeDone_state]; rfl

theorem sendInLoop_loop (c : TcpConnection) (hfit : Fits data.bytes.length result) :
    QueuedCallbacks c.loop (c.sendInLoop data result).loop := by
  by_cases h : c.state = .kDisconnected
  · rw [sendInLoop_disconnected h]
    exact .refl _
  · exact (sendInLoop_spec h hfit).loop

theorem send_loop (c : TcpConnection) (hfit : Fits data.bytes.length result) :
    QueuedCallbacks c.loop (c.send data result).loop := by
  rw [send]
  split
  · exact (c.record (.accepted data.bytes)).sendInLoop_loop hfit
  · exact .refl _

theorem sendBuffer_fst (c : TcpConnection) (buf : Buffer) (result : Except Errno Nat) :
    (c.sendBuffer buf result).1 = c.send ⟨buf.beforePeek, buf.peek⟩ result := by
  rw [sendBuffer, send]
  split <;> rfl

@[simp] theorem shutdownInLoop_loop (c : TcpConnection) : c.shutdownInLoop.loop = c.loop := by
  rw [shutdownInLoop_spec]
  split <;> rfl

@[simp] theorem shutdown_loop (c : TcpConnection) : c.shutdown.loop = c.loop := by
  rw [shutdown]
  split
  · rw [shutdownInLoop_loop]
    rfl
  · rfl

@[simp] theorem connectDestroyed_loop (c : TcpConnection) : c.connectDestroyed.loop = c.loop := by
  simp only [connectDestroyed]
  split <;> rfl

@[simp] theorem handleRead_loop (c : TcpConnection) (delivered : Except Errno Bytes) :
    (c.handleRead delivered id id).loop = c.loop := by
  simp only [handleRead]
  split_ifs <;> rfl

theorem handleRead_open (c : TcpConnection) {delivered : Except Errno Bytes}
    (h : delivered ≠ .ok []) :
    ∃ b, c.handleRead delivered id id = { c with inputBuffer := b } ∨
      c.handleRead delivered id id = record { c with inputBuffer := b } .messageCallback := by
  refine ⟨(c.inputBuffer.readFd delivered).2, ?_⟩
  cases delivered with
  | error e => exact .inl (by simp [handleRead, Buffer.readFd])
  | ok data =>
    have hpos : 0 < data.length := List.length_pos_of_ne_nil fun hnil => h (hnil ▸ rfl)
    exact .inr (by simp [handleRead, hpos])

theorem handleWrite_loop (c : TcpConnection) (result : Except Errno Nat) :
    QueuedCallbacks c.loop (c.handleWrite result).loop := by
  rcases c.handleWrite_cases result with
    ⟨-, h⟩ | ⟨-, -, h⟩ | ⟨k, -, -, -, h⟩ | ⟨k, -, -, -, h⟩
  · rw [h]
    exact .refl _
  · rw [h]
    exact .refl _
  · rw [h]
    exact .refl _
  · obtain ⟨l, hl, hdone⟩ := (c.wrote (k + 1)).writeDone_spec
    rw [h, hdone]
    split <;> exact hl

def messages (log : List Effect) : List Bytes :=
  log.filterMap fun
    | .sendInLoop message => some message
    | _ => none

@[simp] theorem messages_append (l m : List Effect) :
    messages (l ++ m) = messages l ++ messages m := by
  simp [messages]

structure Passes (c : TcpConnection) (ms : List Bytes) (c' : TcpConnection) : Prop where
  state : c'.state = c.state
  inputBuffer : c'.inputBuffer = c.inputBuffer
  messages : messages c'.log = TcpConnection.messages c.log ++ ms

theorem Passes.trans {c c₁ c₂ : TcpConnection} {ms ms' : List Bytes} (h₁ : Passes c ms c₁)
    (h₂ : Passes c₁ ms' c₂) : Passes c (ms ++ ms') c₂ :=
  ⟨h₂.state.trans h₁.state, h₂.inputBuffer.trans h₁.inputBuffer, by
    rw [h₂.messages, h₁.messages, List.append_assoc]⟩

theorem passes_record (c : TcpConnection) (e : Effect) :
    Passes c (TcpConnection.messages [e]) (c.record e) :=
  ⟨rfl, rfl, by simp [record]⟩

theorem writeDirect_passes (c : TcpConnection) (data : Data) (result : Except Errno Nat) :
    Passes c [] (c.writeDirect data result).1 := by
  obtain ⟨hsends, -⟩ := c.writeDirect_spec data result
  refine ⟨hsends.state, hsends.inputBuffer, ?_⟩
  rw [hsends.log, messages_append]
  split <;> simp [TcpConnection.messages]

theorem keepRest_passes (c : TcpConnection) (data : Data) (a : Attempt) :
    Passes c [] (c.keepRest data a) := by
  obtain ⟨l, hcheck, -⟩ := c.checkHighWaterMark_spec a.remaining
  simp only [keepRest, hcheck]
  split <;> constructor <;> simp

theorem sendInLoop_passes (c : TcpConnection) (data : Data) (result : Except Errno Nat) :
    Passes c [data.bytes] (c.sendInLoop data result) := by
  have hrecord := c.passes_record (.sendInLoop data.bytes)
  have hwrite := writeDirect_passes (c.record (.sendInLoop data.bytes)) data result
  simp only [sendInLoop]
  split
  · exact hrecord
  · split
    · exact (hrecord.trans hwrite).trans (keepRest_passes _ data _)
    · exact hrecord.trans hwrite

theorem send_passes (h : c.state = .kConnected) (data : Data) (result : Except Errno Nat) :
    Passes c [data.bytes] (c.send data result) := by
  rw [send, if_pos h]
  exact (c.passes_record (.accepted data.bytes)).trans (sendInLoop_passes _ data result)

theorem send_state (c : TcpConnection) (data : Data) (result : Except Errno Nat) :
    (c.send data result).state = c.state := by
  by_cases h : c.state = .kConnected
  · exact (send_passes h data result).state
  · rw [send, if_neg h]

theorem send_inputBuffer (c : TcpConnection) (data : Data) (result : Except Errno Nat) :
    (c.send data result).inputBuffer = c.inputBuffer := by
  by_cases h : c.state = .kConnected
  · exact (send_passes h data result).inputBuffer
  · rw [send, if_neg h]

theorem sendBuffer_passes (h : c.state = .kConnected) (buf : Buffer)
    (result : Except Errno Nat) : Passes c [buf.peek] (c.sendBuffer buf result).1 := by
  rw [sendBuffer, if_pos h]
  exact (c.passes_record (.accepted buf.peek)).trans
    (sendInLoop_passes _ ⟨buf.beforePeek, buf.peek⟩ result)

theorem shutdown_inputBuffer (c : TcpConnection) : c.shutdown.inputBuffer = c.inputBuffer := by
  simp only [shutdown, shutdownInLoop_spec]
  split_ifs <;> rfl

theorem shutdown_messages (c : TcpConnection) :
    messages c.shutdown.log = messages c.log := by
  simp only [shutdown, shutdownInLoop_spec]
  split_ifs <;> simp [record, setState, messages]

theorem shutdown_state_ne (c : TcpConnection) : c.shutdown.state ≠ .kConnected := by
  simp only [shutdown, shutdownInLoop_spec]
  split_ifs <;> simp_all [record, setState]

end TcpConnection

end WebServer.Mymuduo
