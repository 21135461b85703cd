import WebServer.Mymuduo.ConnectionStep
import WebServer.Mymuduo.OutputStream

namespace WebServer.Mymuduo

open WebServer.Lib

def Functor.isCallback : Functor → Bool
  | .writeCompleteCallback | .highWaterMarkCallback _ => true
  | _ => false

namespace TcpServer

def sentBy (s : TcpServer) (io : Syscalls) : Functor → Option OutputStream.Label
  | .sendInLoop source _ =>
    (s.readSource source).map fun message => .sendInLoop ⟨io.before, message⟩ io.write
  | _ => none

def outputOf (s : TcpServer) : Label → Option OutputStream.Label
  | .send buf result =>
    if s.conn.state = .kConnected then some (.sendInLoop buf result) else none
  | .sendBuffer buf result =>
    if s.conn.state = .kConnected then some (.sendInLoop ⟨buf.beforePeek, buf.peek⟩ result)
    else none
  | .runFunctor io => s.conn.loop.nextFunctor.bind fun (f, _) => s.sentBy io f
  | .act io =>
    if s.actions.head? = some (.callback .writeCallback) then some (.handleWrite io.write)
    else none
  | _ => none

inductive Calls (s : TcpServer) (l : Label) (c : TcpConnection) : TcpConnection → Prop where
  | none (output : s.outputOf l = .none) : Calls s l c c
  | record (e : Effect) (output : s.outputOf l = .none) : Calls s l c (c.record e)
  | poll (revents : BitVec 32) (output : s.outputOf l = .none) :
      Calls s l c { c with channel := { c.channel with revents := revents } }
  | send (buf : Data) (result : Except Errno Nat)
      (fit : TcpConnection.Fits buf.bytes.length result)
      (output : s.outputOf l =
        if s.conn.state = .kConnected then some (.sendInLoop buf result) else .none) :
      Calls s l c (c.send buf result)
  | sendInLoop (data : Data) (result : Except Errno Nat)
      (fit : TcpConnection.Fits data.bytes.length result)
      (output : s.outputOf l = some (.sendInLoop data result)) :
      Calls s l c (c.sendInLoop data result)
  | shutdown (output : s.outputOf l = .none) : Calls s l c c.shutdown
  | shutdownInLoop (output : s.outputOf l = .none) : Calls s l c c.shutdownInLoop
  | connectEstablished (waiting : .connectEstablished ∈ s.conn.loop.waiting)
      (output : s.outputOf l = .none) : Calls s l c c.connectEstablished
  | connectDestroyed (output : s.outputOf l = .none) : Calls s l c c.connectDestroyed
  | handleRead (delivered : Except Errno Bytes) (output : s.outputOf l = .none) :
      Calls s l c (c.handleRead delivered id id)
  | handleClose (output : s.outputOf l = .none) : Calls s l c (c.handleClose id)
  | handleWrite (result : Except Errno Nat) (output : s.outputOf l = some (.handleWrite result)) :
      Calls s l c (c.handleWrite result)
  | store (call : l.isCall = true) (output : s.outputOf l = .none) :
      Calls s l c (c.setState .kDisconnecting)

inductive FunctionStep (s : TcpServer) (l : Label) (t : TcpServer) : Prop where
  | intro (m : EventLoop Functor) (c : TcpConnection) (fs : List Functor)
      (remaining : m.waiting = s.remaining l)
      (calls : Calls s l { s.conn with loop := m } c)
      (conn : t.conn = { c with loop := t.conn.loop })
      (waiting : t.conn.loop.waiting = c.loop.waiting ++ fs)
      (quiet : ∀ f ∈ fs, f.isCallback = false)

variable {s t : TcpServer} {l : Label}

theorem functionStep_of_calls (hremaining : s.remaining l = s.conn.loop.waiting)
    (h : Calls s l s.conn t.conn) : FunctionStep s l t :=
  .intro s.conn.loop t.conn [] hremaining.symm h rfl (List.append_nil _).symm (by simp)

theorem functionStep_of_loop (fs : List Functor) (houtput : s.outputOf l = none)
    (hremaining : s.remaining l = s.conn.loop.waiting)
    (hconn : t.conn = { s.conn with loop := t.conn.loop })
    (hwaiting : t.conn.loop.waiting = s.conn.loop.waiting ++ fs)
    (hfs : ∀ f ∈ fs, f.isCallback = false) : FunctionStep s l t :=
  .intro s.conn.loop s.conn fs hremaining.symm (.none houtput) hconn hwaiting hfs

theorem functionStep_queueInLoop {b : Bool} {f : Functor} (houtput : s.outputOf l = none)
    (hremaining : s.remaining l = s.conn.loop.waiting)
    (hconn : t.conn = { s.conn with loop := s.conn.loop.queueInLoop b f })
    (hf : f.isCallback = false) : FunctionStep s l t := by
  refine functionStep_of_loop [f] houtput hremaining ?_ ?_ (by simpa using hf)
  · rw [hconn]
  · rw [hconn, EventLoop.waiting_queueInLoop]

theorem functionStep_act {a : Action} {rest : List Action} {io : Syscalls}
    (hactions : s.actions = a :: rest) : FunctionStep s (.act io) (s.act a rest io) := by
  have hnone : a ≠ .callback .writeCallback → s.outputOf (.act io) = none := by
    intro hne
    simp [outputOf, hactions, hne]
  cases a with
  | callback cb =>
    cases cb with
    | closeCallback => exact functionStep_of_calls rfl (.handleClose (hnone (by simp)))
    | errorCallback => exact functionStep_of_calls rfl (.none (hnone (by simp)))
    | readCallback => exact functionStep_of_calls rfl (.handleRead io.read (hnone (by simp)))
    | writeCallback =>
      exact functionStep_of_calls rfl (.handleWrite io.write (by simp [outputOf, hactions]))
  | closeCallback =>
    have hrecord : Calls s (.act io) s.conn (s.conn.record .closeCallback) :=
      .record .closeCallback (hnone (by simp))
    simp only [act, removeConenction]
    split
    · exact .intro s.conn.loop (s.conn.record .closeCallback) [.connectDestroyed] rfl hrecord rfl
        (EventLoop.waiting_queueInLoop _ _ _) (by simp [Functor.isCallback])
    · exact functionStep_of_calls rfl hrecord
  | letGo => exact functionStep_of_calls rfl (.none (hnone (by simp)))

theorem functionStep_runFunctor {io : Syscalls} (h : s.enabled (.runFunctor io) = true) :
    FunctionStep s (.runFunctor io) (s.next (.runFunctor io)) := by
  obtain ⟨f, m, hnext, hfit, hrun⟩ := runFunctor_cases h
  have hwaiting := EventLoop.waiting_nextFunctor hnext
  have hremaining : m.waiting = s.remaining (.runFunctor io) := by
    rw [remaining, hwaiting, List.tail_cons]
  have houtput : s.outputOf (.runFunctor io) = s.sentBy io f := by
    rw [outputOf, hnext]
    rfl
  have hcalls {t : TcpServer}
      (hcalled : Calls s (.runFunctor io) { s.conn with loop := m } t.conn) :
      FunctionStep s (.runFunctor io) t :=
    .intro m t.conn [] hremaining hcalled rfl (List.append_nil _).symm (by simp)
  rw [hrun]
  cases f with
  | connectEstablished =>
    refine hcalls (.connectEstablished ?_ houtput)
    rw [hwaiting]
    exact List.mem_cons_self
  | connectDestroyed => exact hcalls (.connectDestroyed houtput)
  | shutdownInLoop => exact hcalls (.shutdownInLoop houtput)
  | writeCompleteCallback => exact hcalls (.record _ houtput)
  | highWaterMarkCallback n => exact hcalls (.record _ houtput)
  | sendInLoop source sent =>
    simp only [runFunctor, runSend]
    cases hread : s.readSource source with
    | none =>
      have hread' : (s.setLoop m).readSource source = none := hread
      rw [hread']
      refine hcalls (.none (houtput.trans ?_))
      rw [sentBy, hread]
      rfl
    | some message =>
      have hread' : (s.setLoop m).readSource source = some message := hread
      have hfit' : TcpConnection.Fits (Data.mk io.before message).bytes.length io.write := by
        simpa [fits, hread] using hfit
      rw [hread']
      refine hcalls (.sendInLoop ⟨io.before, message⟩ io.write hfit' (houtput.trans ?_))
      rw [sentBy, hread]
      rfl

theorem functionStep_beginSend {source : Source} {sent : Bytes} (houtput : s.outputOf l = none)
    (hremaining : s.remaining l = s.conn.loop.waiting) :
    FunctionStep s l (s.beginSend source sent) := by
  rw [beginSend]
  split
  · exact functionStep_of_calls hremaining (.record _ houtput)
  · exact functionStep_of_calls hremaining (.none houtput)

theorem functionStep_of_step (h : step s l = some t) : FunctionStep s l t := by
  obtain ⟨hen, rfl⟩ := step_eq_some.mp h
  cases l with
  | poll revents => exact functionStep_of_calls rfl (.poll revents rfl)
  | act io =>
    obtain ⟨a, rest, hactions, hact⟩ := act_cases hen
    rw [hact]
    exact functionStep_act hactions
  | swapFunctors =>
    exact functionStep_of_loop [] rfl rfl rfl
      ((waiting_swapFunctors hen).trans (List.append_nil _).symm) (by simp)
  | runFunctor io => exact functionStep_runFunctor hen
  | endFunctors =>
    exact functionStep_of_loop [] rfl rfl rfl
      ((waiting_endFunctors hen).trans (List.append_nil _).symm) (by simp)
  | send buf result =>
    exact functionStep_of_calls rfl (.send buf result (fits_of_send hen) rfl)
  | sendBuffer buf result =>
    rw [next_sendBuffer]
    exact functionStep_of_calls rfl (.send _ result (fits_of_sendBuffer hen) rfl)
  | shutdown => exact functionStep_of_calls rfl (.shutdown rfl)
  | callSend address =>
    obtain ⟨content, -, -, hnext⟩ := callSend_cases hen
    rw [hnext]
    exact functionStep_beginSend rfl rfl
  | callSendBuffer buf =>
    rw [next_callSendBuffer]
    exact functionStep_beginSend rfl rfl
  | callShutdown =>
    rw [next, begin]
    split <;> exact functionStep_of_calls rfl (.none rfl)
  | advance i =>
    obtain ⟨c, -, hnext⟩ := advance_cases hen
    rw [hnext]
    cases c with
    | send source sent => exact functionStep_queueInLoop rfl rfl rfl rfl
    | shutdown => exact functionStep_of_calls rfl (.store rfl rfl)
    | shutdownStored => exact functionStep_queueInLoop rfl rfl rfl rfl
  | baseRun =>
    obtain ⟨m, -, hnext⟩ := baseRun_cases hen
    rw [hnext]
    exact functionStep_queueInLoop rfl rfl rfl rfl
  | destroyServer =>
    simp only [next, destroy]
    split
    · split
      · exact functionStep_of_calls rfl (.connectDestroyed rfl)
      · exact functionStep_queueInLoop rfl rfl rfl rfl
    · exact functionStep_of_calls rfl (.none rfl)
  | handleEvent | storeLost _ | hold | drop | newString _ _ | overwrite _ _ | release _
  | baseSwap | baseEnd => exact functionStep_of_calls rfl (.none rfl)

end TcpServer

end WebServer.Mymuduo
