import Mathlib.Logic.Function.Basic
import WebServer.Lib.Run
import WebServer.Mymuduo.TcpConnection

/-! One connection of a `TcpServer` and everything that works on it: the loop that the connection
lives in, the base loop of the server, and other threads that call `send` and `shutdown`. -/

namespace WebServer.Mymuduo

open WebServer.Lib

/-- What the loop thread has still to do in `handleEvent`: the callbacks of the channel, the end
of a `handleClose`, where `closeCallback_` is called, and the end, where the guard goes away. -/
inductive Action where
  | callback (cb : EventCallback)
  | closeCallback
  | letGo
  deriving DecidableEq

/-- A call in another thread that has found `state_ == kConnected`: a `send` that has its functor
to queue, a `shutdown` before its store, and one that has only `shutdownInLoop` to queue. -/
inductive Call where
  | send (source : Source) (sent : Bytes)
  | shutdown
  | shutdownStored
  deriving DecidableEq

def Functor.send? : Functor → Option (Source × Bytes)
  | .sendInLoop source sent => some (source, sent)
  | _ => none

def Call.uses (address : Nat) : Call → Bool
  | .send (.pointer a _) _ => a = address
  | _ => false

/-- A functor of `send` that has run: what was sent, what it read (nothing where the memory was
not there any more), and whether some `shared_ptr` owned the connection. -/
structure Delivery where
  sent : Bytes
  passed : Option Bytes
  owned : Bool
  deriving DecidableEq

/-- `base` has the calls of `removeConnectionInLoop`, unless the base loop is the loop of the
connection.  `held` counts the `TcpConnectionPtr`s of the user, `strings` are the strings of other
threads by address. -/
structure TcpServer where
  conn : TcpConnection
  base : EventLoop Unit
  sameLoop : Bool
  alive : Bool
  inMap : Bool
  active : Bool
  actions : List Action
  calls : List Call
  held : Nat
  strings : Nat → Option Bytes
  deliveries : List Delivery

/-- The results of the system calls in a step, and the byte in front of a message. -/
structure Syscalls where
  read : Except Errno Bytes
  write : Except Errno Nat
  before : UInt8

/-- Whether `handleClose` runs in this step of `handleEvent`. -/
def Action.closes (io : Syscalls) : Action → Bool
  | .callback .closeCallback => true
  | .callback .readCallback => io.read = .ok []
  | _ => false

namespace TcpServer

/-- Some `shared_ptr` owns the connection. -/
def owned (s : TcpServer) : Bool :=
  s.inMap || 0 < s.held || !s.actions.isEmpty || !s.base.kept.isEmpty ||
    s.conn.loop.kept.any Functor.owns

def setLoop (s : TcpServer) (l : EventLoop Functor) : TcpServer :=
  { s with conn := { s.conn with loop := l } }

def queueInLoop (s : TcpServer) (isInLoopThread : Bool) (f : Functor) : TcpServer :=
  s.setLoop (s.conn.loop.queueInLoop isInLoopThread f)

def new (sameLoop writeCompleteCallback : Bool) : TcpServer where
  conn := .new writeCompleteCallback
  base := .new
  sameLoop := sameLoop
  alive := true
  inMap := true
  active := false
  actions := []
  calls := []
  held := 0
  strings := fun _ => none
  deliveries := []

/-- `newConnection`, with the `runInLoop` at its end. -/
def newConnection (sameLoop writeCompleteCallback : Bool) : TcpServer :=
  let s := new sameLoop writeCompleteCallback
  if sameLoop then { s with conn := s.conn.connectEstablished }
  else s.queueInLoop false .connectEstablished

def removeConnectionInLoop (s : TcpServer) : TcpServer :=
  let s := { s with inMap := false }
  s.queueInLoop s.sameLoop .connectDestroyed

/-- `closeCallback_` is bound to this function of the server. -/
def removeConenction (s : TcpServer) : TcpServer :=
  if s.sameLoop then s.removeConnectionInLoop else { s with base := s.base.queueInLoop false () }

def destroy (s : TcpServer) : TcpServer :=
  let s := { s with alive := false }
  if s.inMap then
    let s := { s with inMap := false }
    if s.sameLoop then { s with conn := s.conn.connectDestroyed }
    else s.queueInLoop false .connectDestroyed
  else s

/-- What `sendInLoop` finds at the place it was given. -/
def readSource (s : TcpServer) : Source → Option Bytes
  | .copy message => some message
  | .pointer address len =>
    (s.strings address).bind fun content =>
      if len ≤ content.length then some (content.take len) else none

/-- A queued `sendInLoop`.  Nothing is said of the connection where the memory is gone. -/
def runSend (s : TcpServer) (source : Source) (sent : Bytes) (io : Syscalls) : TcpServer :=
  let passed := s.readSource source
  let s := { s with deliveries := s.deliveries ++ [⟨sent, passed, s.owned⟩] }
  match passed with
  | some message => { s with conn := s.conn.sendInLoop ⟨io.before, message⟩ io.write }
  | none => s

def runFunctor (s : TcpServer) (f : Functor) (io : Syscalls) : TcpServer :=
  match f with
  | .connectEstablished => { s with conn := s.conn.connectEstablished }
  | .connectDestroyed => { s with conn := s.conn.connectDestroyed }
  | .sendInLoop source sent => s.runSend source sent io
  | .shutdownInLoop => { s with conn := s.conn.shutdownInLoop }
  | .writeCompleteCallback => { s with conn := s.conn.record .writeCompleteCallback }
  | .highWaterMarkCallback n =>
    let e := if s.conn.highWaterMarkCallback then .highWaterMarkCallback n else .badFunctionCall
    { s with conn := s.conn.record e }

/-- The next thing to do in `handleEvent`; `rest` comes after it. -/
def act (s : TcpServer) (a : Action) (rest : List Action) (io : Syscalls) : TcpServer :=
  match a with
  | .callback .closeCallback =>
    { s with conn := s.conn.handleClose id, actions := .closeCallback :: rest }
  | .callback .errorCallback => { s with actions := rest }
  | .callback .readCallback =>
    { s with
      conn := s.conn.handleRead io.read id id
      actions := if io.read = .ok [] then .closeCallback :: rest else rest }
  | .callback .writeCallback =>
    { s with conn := s.conn.handleWrite io.write, actions := rest }
  | .closeCallback =>
    let s := { s with conn := s.conn.record .closeCallback, actions := rest }
    s.removeConenction
  | .letGo => { s with actions := rest }

inductive Label where
  | poll (revents : BitVec 32)
  | handleEvent
  | act (io : Syscalls)
  | swapFunctors
  | runFunctor (io : Syscalls)
  | endFunctors
  /-- Calls of the user in the loop thread. -/
  | send (buf : Data) (result : Except Errno Nat)
  | sendBuffer (buf : Buffer) (result : Except Errno Nat)
  | shutdown
  /-- Calls in other threads, up to the end of the test of `state_`. -/
  | callSend (address : Nat)
  | callSendBuffer (buf : Buffer)
  | callShutdown
  /-- The next step of a call that has been begun. -/
  | advance (i : Nat)
  /-- The store of a `shutdown` falls between the test and the store of `connectDestroyed`. -/
  | storeLost (i : Nat)
  | hold
  | drop
  | newString (address : Nat) (content : Bytes)
  | overwrite (address : Nat) (content : Bytes)
  | release (address : Nat)
  | baseSwap
  | baseRun
  | baseEnd
  | destroyServer

def advance (s : TcpServer) (i : Nat) : Call → TcpServer
  | .send source sent =>
    let s := { s with calls := s.calls.eraseIdx i }
    s.queueInLoop false (.sendInLoop source sent)
  | .shutdown =>
    { s with
      conn := s.conn.setState .kDisconnecting
      calls := s.calls.set i .shutdownStored }
  | .shutdownStored =>
    let s := { s with calls := s.calls.eraseIdx i }
    s.queueInLoop false .shutdownInLoop

/-- Another thread has begun a call, if it finds `state_ == kConnected`. -/
def begin (s : TcpServer) (c : Call) : TcpServer :=
  if s.conn.state = .kConnected then { s with calls := s.calls ++ [c] } else s

/-- `send` in another thread, up to the test; the functor captures the rest. -/
def beginSend (s : TcpServer) (source : Source) (sent : Bytes) : TcpServer :=
  if s.conn.state = .kConnected then
    { s with conn := s.conn.record (.accepted sent), calls := s.calls ++ [.send source sent] }
  else s

def idle (s : TcpServer) : Bool :=
  s.actions.isEmpty && !s.active && !s.conn.loop.callingPendingFunctors

def fits (s : TcpServer) (io : Syscalls) : Functor → Bool
  | .sendInLoop source _ =>
    (s.readSource source).all fun message => TcpConnection.Fits message.length io.write
  | _ => true

def enabled (s : TcpServer) : Label → Bool
  | .poll _ => s.idle && s.conn.channel.interest.isSome
  | .handleEvent => s.active
  | .act io => !s.actions.isEmpty &&
      TcpConnection.Fits s.conn.outputBuffer.readableBytes io.write
  | .swapFunctors => s.idle
  | .runFunctor io => s.conn.loop.nextFunctor.any fun (f, _) => s.fits io f
  | .endFunctors => s.conn.loop.callingPendingFunctors && s.conn.loop.functors.isEmpty
  | .send buf result => TcpConnection.Fits buf.bytes.length result
  | .sendBuffer buf result => TcpConnection.Fits buf.readableBytes result
  | .shutdown => true
  | .callSend address => s.calls.length < s.held && (s.strings address).isSome
  | .callSendBuffer _ => s.calls.length < s.held
  | .callShutdown => s.calls.length < s.held
  | .advance i => i < s.calls.length
  | .storeLost i => s.calls[i]? = some .shutdown && s.conn.state = .kDisconnected
  | .hold => s.owned
  | .drop => s.calls.length < s.held
  | .newString address _ => (s.strings address).isNone
  | .overwrite address _ => (s.strings address).isSome && !s.calls.any (Call.uses address)
  | .release address => (s.strings address).isSome && !s.calls.any (Call.uses address)
  | .baseSwap => !s.sameLoop && !s.base.callingPendingFunctors
  | .baseRun => !s.base.functors.isEmpty
  | .baseEnd => s.base.callingPendingFunctors && s.base.functors.isEmpty
  | .destroyServer => s.alive

def next (s : TcpServer) : Label → TcpServer
  | .poll revents =>
    { s with
      conn := { s.conn with channel := { s.conn.channel with revents := revents } }
      active := true }
  | .handleEvent =>
    { s with
      active := false
      actions :=
        if s.conn.channel.tied && !s.owned then []
        else (Channel.handleEventWithGuard s.conn.channel.revents).map .callback ++ [.letGo] }
  | .act io =>
    match s.actions with
    | [] => s
    | a :: rest => s.act a rest io
  | .swapFunctors => s.setLoop s.conn.loop.swapFunctors
  | .runFunctor io =>
    match s.conn.loop.nextFunctor with
    | none => s
    | some (f, l) => (s.setLoop l).runFunctor f io
  | .endFunctors => s.setLoop s.conn.loop.endFunctors
  | .send buf result => { s with conn := s.conn.send buf result }
  | .sendBuffer buf result => { s with conn := (s.conn.sendBuffer buf result).1 }
  | .shutdown => { s with conn := s.conn.shutdown }
  | .callSend address =>
    match s.strings address with
    | none => s
    | some content => s.beginSend (.pointer address content.length) content
  | .callSendBuffer buf =>
    match buf.retrieveAllAsString with
    | none => s
    | some (message, _) => s.beginSend (.copy message) buf.peek
  | .callShutdown => s.begin .shutdown
  | .advance i =>
    match s.calls[i]? with
    | none => s
    | some c => s.advance i c
  | .storeLost i => { s with calls := s.calls.set i .shutdownStored }
  | .hold => { s with held := s.held + 1 }
  | .drop => { s with held := s.held - 1 }
  | .newString address content => { s with strings := Function.update s.strings address content }
  | .overwrite address content => { s with strings := Function.update s.strings address content }
  | .release address => { s with strings := Function.update s.strings address none }
  | .baseSwap => { s with base := s.base.swapFunctors }
  | .baseRun =>
    match s.base.nextFunctor with
    | none => s
    | some ((), l) =>
      let s := { s with base := l }
      s.removeConnectionInLoop
  | .baseEnd => { s with base := s.base.endFunctors }
  | .destroyServer => s.destroy

def step (s : TcpServer) (l : Label) : Option TcpServer :=
  if s.enabled l then some (s.next l) else none

variable {s t : TcpServer}

theorem step_eq_some {l : Label} :
    step s l = some t ↔ s.enabled l = true ∧ s.next l = t := by
  simp [step]

theorem act_cases {io : Syscalls} (h : s.enabled (.act io) = true) :
    ∃ a rest, s.actions = a :: rest ∧ s.next (.act io) = s.act a rest io := by
  simp only [enabled, Bool.and_eq_true, Bool.not_eq_true', List.isEmpty_eq_false_iff] at h
  obtain ⟨a, rest, ha⟩ := List.exists_cons_of_ne_nil h.1
  exact ⟨a, rest, ha, by simp only [next, ha]⟩

theorem runFunctor_cases {io : Syscalls} (h : s.enabled (.runFunctor io) = true) :
    ∃ f l, s.conn.loop.nextFunctor = some (f, l) ∧ s.fits io f = true ∧
      s.next (.runFunctor io) = (s.setLoop l).runFunctor f io := by
  simp only [enabled, Option.any_eq_true] at h
  obtain ⟨⟨f, l⟩, hnext, hfit⟩ := h
  exact ⟨f, l, hnext, hfit, by simp only [next, hnext]⟩

theorem callSend_cases {address : Nat} (h : s.enabled (.callSend address) = true) :
    ∃ content, s.strings address = some content ∧ 0 < s.held ∧
      s.next (.callSend address) = s.beginSend (.pointer address content.length) content := by
  simp only [enabled, Bool.and_eq_true, decide_eq_true_eq, Option.isSome_iff_exists] at h
  obtain ⟨hheld, content, hcontent⟩ := h
  exact ⟨content, hcontent, Nat.zero_lt_of_lt hheld, by simp only [next, hcontent]⟩

theorem next_callSendBuffer (s : TcpServer) (buf : Buffer) :
    s.next (.callSendBuffer buf) = s.beginSend (.copy buf.peek) buf.peek := by
  simp only [next, Buffer.retrieveAllAsString_eq]

theorem advance_cases {i : Nat} (h : s.enabled (.advance i) = true) :
    ∃ c, s.calls[i]? = some c ∧ s.next (.advance i) = s.advance i c := by
  simp only [enabled, decide_eq_true_eq] at h
  have hc := List.getElem?_eq_getElem h
  exact ⟨s.calls[i], hc, by simp only [next, hc]⟩

theorem baseRun_cases (h : s.enabled .baseRun = true) :
    ∃ l, s.base.nextFunctor = some ((), l) ∧
      s.next .baseRun = { s with base := l }.removeConnectionInLoop := by
  cases hnext : s.base.nextFunctor with
  | none => simp [enabled, EventLoop.nextFunctor_eq_none.mp hnext] at h
  | some p => exact ⟨p.2, rfl, by simp only [next, hnext]⟩

theorem baseRun_disabled (h : s.base.waiting = []) : s.enabled .baseRun = false := by
  simp [enabled, (List.append_eq_nil_iff.mp h).1]

theorem notCalling_of_swapFunctors (h : s.enabled .swapFunctors = true) :
    s.conn.loop.callingPendingFunctors = false := by
  simp only [enabled, idle, Bool.and_eq_true, Bool.not_eq_true'] at h
  exact h.2

theorem waiting_swapFunctors (h : s.enabled .swapFunctors = true) :
    s.conn.loop.swapFunctors.waiting = s.conn.loop.waiting :=
  EventLoop.waiting_swapFunctors (notCalling_of_swapFunctors h)

theorem waiting_endFunctors (h : s.enabled .endFunctors = true) :
    s.conn.loop.endFunctors.waiting = s.conn.loop.waiting := by
  simp only [enabled, Bool.and_eq_true, List.isEmpty_iff] at h
  exact EventLoop.waiting_endFunctors h.2

theorem notCalling_of_baseSwap (h : s.enabled .baseSwap = true) :
    s.base.callingPendingFunctors = false := by
  simp only [enabled, Bool.and_eq_true, Bool.not_eq_true'] at h
  exact h.2

theorem waiting_baseSwap (h : s.enabled .baseSwap = true) :
    s.base.swapFunctors.waiting = s.base.waiting :=
  EventLoop.waiting_swapFunctors (notCalling_of_baseSwap h)

theorem waiting_baseEnd (h : s.enabled .baseEnd = true) :
    s.base.endFunctors.waiting = s.base.waiting := by
  simp only [enabled, Bool.and_eq_true, List.isEmpty_iff] at h
  exact EventLoop.waiting_endFunctors h.2

theorem fits_of_send {buf : Data} {result : Except Errno Nat}
    (h : s.enabled (.send buf result) = true) : TcpConnection.Fits buf.bytes.length result :=
  of_decide_eq_true h

theorem fits_of_sendBuffer {buf : Buffer} {result : Except Errno Nat}
    (h : s.enabled (.sendBuffer buf result) = true) :
    TcpConnection.Fits buf.peek.length result := by
  rw [Buffer.length_peek]
  exact of_decide_eq_true h

theorem next_sendBuffer (s : TcpServer) (buf : Buffer) (result : Except Errno Nat) :
    s.next (.sendBuffer buf result) = s.next (.send ⟨buf.beforePeek, buf.peek⟩ result) := by
  simp only [next, TcpConnection.sendBuffer_fst]

theorem runFunctor_loop (s : TcpServer) (f : Functor) (io : Syscalls) (h : s.fits io f = true) :
    TcpConnection.QueuedCallbacks s.conn.loop (s.runFunctor f io).conn.loop := by
  cases f with
  | connectEstablished => exact .refl _
  | connectDestroyed => simpa [runFunctor] using .refl _
  | sendInLoop source sent =>
    simp only [runFunctor, runSend]
    cases hread : s.readSource source with
    | none => exact .refl _
    | some message =>
      apply TcpConnection.sendInLoop_loop
      simpa [fits, hread] using h
  | shutdownInLoop => simpa [runFunctor] using .refl _
  | writeCompleteCallback => exact .refl _
  | highWaterMarkCallback n => exact .refl _

theorem runFunctor_eq (s : TcpServer) (f : Functor) (io : Syscalls) :
    s.runFunctor f io =
      { s with
        conn := (s.runFunctor f io).conn
        deliveries := s.deliveries ++
          (f.send?.map fun (source, sent) => ⟨sent, s.readSource source, s.owned⟩).toList } := by
  cases f with
  | sendInLoop source sent =>
    cases hread : s.readSource source <;> simp [runFunctor, runSend, Functor.send?, hread]
  | _ => simp [runFunctor, Functor.send?]

theorem act_loop (s : TcpServer) {a : Action} (rest : List Action) (io : Syscalls)
    (ha : a ≠ .closeCallback) :
    TcpConnection.QueuedCallbacks s.conn.loop (s.act a rest io).conn.loop := by
  cases a with
  | callback cb =>
    cases cb with
    | closeCallback => exact .refl _
    | errorCallback => exact .refl _
    | readCallback => simpa [act] using .refl _
    | writeCallback => exact s.conn.handleWrite_loop io.write
  | closeCallback => exact absurd rfl ha
  | letGo => exact .refl _

theorem act_eq (s : TcpServer) {a : Action} (rest : List Action) (io : Syscalls)
    (ha : a ≠ .closeCallback) :
    s.act a rest io =
      { s with conn := (s.act a rest io).conn, actions := (s.act a rest io).actions } := by
  cases a with
  | callback cb => cases cb <;> rfl
  | closeCallback => exact absurd rfl ha
  | letGo => rfl

theorem act_actions (s : TcpServer) (a : Action) (rest : List Action) (io : Syscalls) :
    (s.act a rest io).actions = if a.closes io then .closeCallback :: rest else rest := by
  cases a with
  | callback cb => cases cb <;> simp [act, Action.closes]
  | closeCallback =>
    simp only [act, removeConenction]
    split <;> rfl
  | letGo => rfl

structure CallStep (s t : TcpServer) : Prop where
  eq : t = { s with conn := t.conn, calls := t.calls }
  kept : s.conn.loop.kept ⊆ t.conn.loop.kept

theorem callStep_beginSend (s : TcpServer) (source : Source) (sent : Bytes) :
    CallStep s (s.beginSend source sent) := by
  rw [beginSend]
  split <;> exact ⟨rfl, List.Subset.refl _⟩

theorem callStep_begin (s : TcpServer) (c : Call) : CallStep s (s.begin c) := by
  rw [begin]
  split <;> exact ⟨rfl, List.Subset.refl _⟩

theorem callStep_advance (s : TcpServer) (i : Nat) (c : Call) : CallStep s (s.advance i c) := by
  cases c with
  | send source sent => exact ⟨rfl, by simp [advance, queueInLoop, setLoop]⟩
  | shutdown => exact ⟨rfl, List.Subset.refl _⟩
  | shutdownStored => exact ⟨rfl, by simp [advance, queueInLoop, setLoop]⟩

def Label.isCall : Label → Bool
  | .callSend _ => true
  | .callSendBuffer _ => true
  | .callShutdown => true
  | .advance _ => true
  | .storeLost _ => true
  | _ => false

theorem callStep_next {l : Label} (h : l.isCall = true) : CallStep s (s.next l) := by
  cases l with
  | callSend address =>
    rw [next]
    split
    · exact ⟨rfl, List.Subset.refl _⟩
    · exact s.callStep_beginSend _ _
  | callSendBuffer buf =>
    rw [next_callSendBuffer]
    exact s.callStep_beginSend _ _
  | callShutdown => exact s.callStep_begin _
  | advance i =>
    rw [next]
    split
    · exact ⟨rfl, List.Subset.refl _⟩
    · exact s.callStep_advance i _
  | storeLost i => exact ⟨rfl, List.Subset.refl _⟩
  | _ => cases h

end TcpServer

end WebServer.Mymuduo
