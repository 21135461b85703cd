import WebServer.Mymuduo.Lifecycle

namespace WebServer.Mymuduo

open WebServer.Lib

def Effect.isTeardown : Effect → Bool
  | .connectionCallback _ => true
  | .remove _ => true
  | _ => false

namespace TcpConnection

structure Works (c c' : TcpConnection) : Prop where
  log : ∃ es, c'.log = c.log ++ es ∧ ∀ e ∈ es, e.isTeardown = false
  state : c'.state = c.state ∨ c.state = .kConnected ∧ c'.state = .kDisconnecting
  channel : c'.channel = c.channel ∨
    c.state ≠ .kDisconnected ∧ c'.channel = c.channel.enableWriting ∨
    c.channel.isWriting = true ∧ c'.channel = c.channel.disableWriting

variable {c c' : TcpConnection}

theorem works_of_log (es : List Effect) (hlog : c'.log = c.log ++ es)
    (hes : ∀ e ∈ es, e.isTeardown = false) (hstate : c'.state = c.state)
    (hchannel : c'.channel = c.channel) : Works c c' :=
  ⟨⟨es, hlog, hes⟩, .inl hstate, .inl hchannel⟩

theorem works_of_setLoop {m : EventLoop Functor} (h : Works { c with loop := m } c') :
    Works c c' :=
  ⟨h.log, h.state, h.channel⟩

theorem works_record {e : Effect} (he : e.isTeardown = false) : Works c (c.record e) :=
  works_of_log [e] rfl (by simpa using he) rfl rfl

theorem works_sendInLoop {d : Data} {result : Except Errno Nat}
    (hfit : Fits d.bytes.length result) : Works c (c.sendInLoop d result) := by
  by_cases h : c.state = .kDisconnected
  · rw [sendInLoop_disconnected h]
    exact works_record rfl
  · have hsends := sendInLoop_leaves h hfit
    have hchannel := hsends.channel
    refine ⟨⟨_, hsends.log, fun e he => ?_⟩, .inl hsends.state, ?_⟩
    · split at he <;> simp only [List.mem_cons, List.not_mem_nil, or_false] at he
      · rcases he with rfl | rfl <;> rfl
      · rw [he]
        rfl
    · split at hchannel
      · exact .inl hchannel
      · exact .inr (.inl ⟨h, hchannel⟩)

theorem works_send {buf : Data} {result : Except Errno Nat}
    (hfit : Fits buf.bytes.length result) : Works c (c.send buf result) := by
  rw [send]
  split
  · obtain ⟨⟨es, hlog, hes⟩, hstate, hchannel⟩ :=
      works_sendInLoop (c := c.record (.accepted buf.bytes)) hfit
    refine ⟨⟨.accepted buf.bytes :: es, ?_, ?_⟩, hstate, hchannel⟩
    · simpa [record] using hlog
    · simpa [Effect.isTeardown] using hes
  · exact works_of_log [] (List.append_nil _).symm (by simp) rfl rfl

theorem works_shutdownInLoop : Works c c.shutdownInLoop := by
  rw [shutdownInLoop_spec]
  split
  · exact works_of_log [] (List.append_nil _).symm (by simp) rfl rfl
  · exact works_record rfl

theorem works_shutdown : Works c c.shutdown := by
  by_cases h : c.state = .kConnected
  · rw [shutdown, if_pos h]
    obtain ⟨hlog, hstate, hchannel⟩ := works_shutdownInLoop (c := c.setState .kDisconnecting)
    have hstate : (c.setState .kDisconnecting).shutdownInLoop.state = .kDisconnecting :=
      hstate.elim id And.right
    refine ⟨hlog, .inr ⟨h, hstate⟩, .inl ?_⟩
    rw [shutdownInLoop_spec]
    split <;> rfl
  · rw [shutdown_of_state_ne h]
    exact works_of_log [] (List.append_nil _).symm (by simp) rfl rfl

theorem works_handleRead {delivered : Except Errno Bytes} (h : delivered ≠ .ok []) :
    Works c (c.handleRead delivered id id) := by
  obtain ⟨b, hread | hread⟩ := c.handleRead_open h
  · rw [hread]
    exact works_of_log [] (List.append_nil _).symm (by simp) rfl rfl
  · rw [hread]
    exact works_of_log [.messageCallback] rfl (by simp [Effect.isTeardown]) rfl rfl

theorem works_handleWrite {result : Except Errno Nat} : Works c (c.handleWrite result) := by
  rcases c.handleWrite_cases result with
    ⟨-, h⟩ | ⟨-, -, h⟩ | ⟨k, -, -, -, h⟩ | ⟨k, hwriting, -, -, h⟩
  · rw [h]
    exact works_of_log [] (List.append_nil _).symm (by simp) rfl rfl
  · rw [h]
    exact works_record rfl
  · rw [h]
    exact works_of_log [.write c.outputBuffer.peek (.ok (k + 1))] rfl
      (by simp [Effect.isTeardown]) rfl rfl
  · obtain ⟨l, -, hdone⟩ := (c.wrote (k + 1)).writeDone_spec
    rw [h, hdone]
    split
    · exact ⟨⟨[.write c.outputBuffer.peek (.ok (k + 1)), .shutdownWrite], by simp [wrote, record],
        by simp [Effect.isTeardown]⟩, .inl rfl, .inr (.inr ⟨hwriting, rfl⟩)⟩
    · exact ⟨⟨[.write c.outputBuffer.peek (.ok (k + 1))], rfl, by simp [Effect.isTeardown]⟩,
        .inl rfl, .inr (.inr ⟨hwriting, rfl⟩)⟩

theorem connectDestroyed_setLoop (c : TcpConnection) (m : EventLoop Functor) :
    connectDestroyed { c with loop := m } = { c.connectDestroyed with loop := m } := by
  by_cases h : c.state = .kConnected <;> simp [connectDestroyed, record, setState, connected, h]

end TcpConnection

namespace TcpServer

def runsConnectDestroyed (s : TcpServer) : Label → Bool
  | .runFunctor _ => s.conn.loop.functors.head? = some .connectDestroyed
  | .destroyServer => s.sameLoop && s.inMap
  | _ => false

inductive ConnStep (s : TcpServer) (l : Label) (t : TcpServer) : Prop where
  | works (h : s.conn.Works t.conn) (quiet : s.runsConnectDestroyed l = false)
  | poll (revents : BitVec 32) (label : l = .poll revents)
      (state : t.conn.state = s.conn.state)
      (channel : t.conn.channel = { s.conn.channel with revents := revents })
      (log : t.conn.log = s.conn.log)
  | connectEstablished (waiting : .connectEstablished ∈ s.conn.loop.waiting)
      (quiet : s.runsConnectDestroyed l = false)
      (state : t.conn.state = .kConnected)
      (channel : t.conn.channel = s.conn.channel.tie.enableReading)
      (log : t.conn.log = s.conn.log ++ [.connectionCallback true])
  | connectDestroyed (runs : s.runsConnectDestroyed l = true)
      (state : t.conn.state = s.conn.connectDestroyed.state)
      (channel : t.conn.channel = s.conn.connectDestroyed.channel)
      (log : t.conn.log = s.conn.connectDestroyed.log)
  | handleClose (io : Syscalls) (label : l = .act io)
      (state : t.conn.state = .kDisconnected)
      (channel : t.conn.channel = s.conn.channel.disableAll)
      (log : t.conn.log = s.conn.log ++ [.connectionCallback false])
  | store (i : Nat) (label : l = .advance i) (call : s.calls[i]? = some .shutdown)
      (state : t.conn.state = .kDisconnecting)
      (channel : t.conn.channel = s.conn.channel)
      (log : t.conn.log = s.conn.log)

variable {s t : TcpServer} {l : Label}

theorem connStep_refl (hstate : t.conn.state = s.conn.state)
    (hchannel : t.conn.channel = s.conn.channel) (hlog : t.conn.log = s.conn.log)
    (hquiet : s.runsConnectDestroyed l = false) : ConnStep s l t :=
  .works (TcpConnection.works_of_log [] (hlog.trans (List.append_nil _).symm) (by simp) hstate
    hchannel) hquiet

theorem connStep_act {a : Action} {rest : List Action} {io : Syscalls} :
    ConnStep s (.act io) (s.act a rest io) := by
  cases a with
  | callback cb =>
    cases cb with
    | closeCallback => exact .handleClose io rfl rfl rfl rfl
    | errorCallback => exact connStep_refl rfl rfl rfl rfl
    | readCallback =>
      by_cases hopen : io.read = .ok []
      · have hread : (s.act (.callback .readCallback) rest io).conn =
            TcpConnection.handleClose
              { s.conn with inputBuffer := (s.conn.inputBuffer.readFd io.read).2 } id := by
          simp [act, TcpConnection.handleRead, hopen]
        exact .handleClose io rfl (congrArg _ hread) (congrArg _ hread) (congrArg _ hread)
      · exact .works (TcpConnection.works_handleRead hopen) rfl
    | writeCallback => exact .works TcpConnection.works_handleWrite rfl
  | closeCallback =>
    have hworks : s.conn.Works (s.conn.record .closeCallback) := TcpConnection.works_record rfl
    by_cases hsame : s.sameLoop = true
    · have hact : (s.act .closeCallback rest io).conn =
          { s.conn.record .closeCallback with
            loop := s.conn.loop.queueInLoop true .connectDestroyed } := by
        simp [act, removeConenction, removeConnectionInLoop, queueInLoop, setLoop, hsame,
          TcpConnection.record]
      exact .works (hact ▸ ⟨hworks.log, hworks.state, hworks.channel⟩) rfl
    · have hact : (s.act .closeCallback rest io).conn = s.conn.record .closeCallback := by
        simp [act, removeConenction, hsame]
      exact .works (hact ▸ hworks) rfl
  | letGo => exact connStep_refl rfl rfl rfl rfl

theorem works_runFunctor (m : EventLoop Functor) {f : Functor} {io : Syscalls}
    (hf : f.isLifecycle = false) (hfit : s.fits io f = true) :
    s.conn.Works ((s.setLoop m).runFunctor f io).conn := by
  apply TcpConnection.works_of_setLoop (m := m)
  cases f with
  | connectEstablished | connectDestroyed => cases hf
  | sendInLoop source sent =>
    simp only [runFunctor, runSend]
    cases hread : (s.setLoop m).readSource source with
    | none => exact TcpConnection.works_of_log [] (List.append_nil _).symm (by simp) rfl rfl
    | some message =>
      have hread' : s.readSource source = some message := hread
      have hfit' : TcpConnection.Fits message.length io.write := by
        simpa [fits, hread'] using hfit
      exact TcpConnection.works_sendInLoop hfit'
  | shutdownInLoop => exact TcpConnection.works_shutdownInLoop
  | writeCompleteCallback => exact TcpConnection.works_record rfl
  | highWaterMarkCallback n =>
    simp only [runFunctor]
    split <;> exact TcpConnection.works_record rfl

theorem connStep_runFunctor {io : Syscalls} (h : s.enabled (.runFunctor io) = true) :
    ConnStep s (.runFunctor io) (s.next (.runFunctor io)) := by
  obtain ⟨f, m, hnext, hfit, hrun⟩ := runFunctor_cases h
  have hhead : s.conn.loop.functors.head? = some f := by
    rw [(EventLoop.nextFunctor_spec hnext).1]
    rfl
  have hquiet : f ≠ .connectDestroyed → s.runsConnectDestroyed (.runFunctor io) = false := by
    intro hne
    simp [runsConnectDestroyed, hhead, hne]
  rw [hrun]
  cases f with
  | connectEstablished =>
    refine .connectEstablished ?_ (hquiet (by simp)) rfl rfl rfl
    rw [EventLoop.waiting_nextFunctor hnext]
    exact List.mem_cons_self
  | connectDestroyed =>
    have heq : ((s.setLoop m).runFunctor .connectDestroyed io).conn =
        { s.conn.connectDestroyed with loop := m } := s.conn.connectDestroyed_setLoop m
    exact .connectDestroyed (by simp [runsConnectDestroyed, hhead]) (by rw [heq]) (by rw [heq])
      (by rw [heq])
  | sendInLoop _ _ | shutdownInLoop | writeCompleteCallback | highWaterMarkCallback _ =>
    exact .works (works_runFunctor m rfl hfit) (hquiet (by simp))

theorem connStep_beginSend (source : Source) (sent : Bytes)
    (hquiet : s.runsConnectDestroyed l = false) : ConnStep s l (s.beginSend source sent) := by
  rw [beginSend]
  split
  · exact .works (TcpConnection.works_record rfl) hquiet
  · exact connStep_refl rfl rfl rfl hquiet

theorem connStep_destroy : ConnStep s .destroyServer s.destroy := by
  simp only [destroy]
  split
  · next hmap =>
    split
    · next hsame =>
      exact .connectDestroyed (by simp_all [runsConnectDestroyed]) rfl rfl rfl
    · next hsame => exact connStep_refl rfl rfl rfl (by simp_all [runsConnectDestroyed])
  · next hmap => exact connStep_refl rfl rfl rfl (by simp_all [runsConnectDestroyed])

theorem connStep_of_step (h : step s l = some t) : ConnStep s l t := by
  obtain ⟨hen, rfl⟩ := step_eq_some.mp h
  cases l with
  | poll revents => exact .poll revents rfl rfl rfl rfl
  | act io =>
    obtain ⟨a, rest, -, hact⟩ := act_cases hen
    exact hact ▸ connStep_act
  | runFunctor io => exact connStep_runFunctor hen
  | send buf result => exact .works (TcpConnection.works_send (fits_of_send hen)) rfl
  | sendBuffer buf result =>
    rw [next_sendBuffer]
    exact .works (TcpConnection.works_send (fits_of_sendBuffer hen)) rfl
  | shutdown => exact .works TcpConnection.works_shutdown rfl
  | callSend address =>
    obtain ⟨content, -, -, hnext⟩ := callSend_cases hen
    exact hnext ▸ connStep_beginSend _ _ rfl
  | callSendBuffer buf =>
    rw [next_callSendBuffer]
    exact connStep_beginSend _ _ rfl
  | callShutdown =>
    rw [next, begin]
    split <;> exact connStep_refl rfl rfl rfl rfl
  | advance i =>
    obtain ⟨c, hc, hnext⟩ := advance_cases hen
    rw [hnext]
    cases c with
    | send source sent => exact connStep_refl rfl rfl rfl rfl
    | shutdown => exact .store i rfl hc rfl rfl rfl
    | shutdownStored => exact connStep_refl rfl rfl rfl rfl
  | baseRun =>
    obtain ⟨m, -, hnext⟩ := baseRun_cases hen
    exact hnext ▸ connStep_refl rfl rfl rfl rfl
  | destroyServer => exact connStep_destroy
  | handleEvent | swapFunctors | endFunctors | storeLost _ | hold | drop | newString _ _
  | overwrite _ _ | release _ | baseSwap | baseEnd => exact connStep_refl rfl rfl rfl rfl

def remaining (s : TcpServer) : Label → List Functor
  | .runFunctor _ => s.conn.loop.waiting.tail
  | _ => s.conn.loop.waiting

theorem mem_waiting_of_remaining {f : Functor} (h : f ∈ s.remaining l) :
    f ∈ s.conn.loop.waiting := by
  cases l <;> first | exact h | exact List.mem_of_mem_tail h

def Queues (t : TcpServer) (f : Functor) : Prop :=
  f = .connectDestroyed ∧ t.inMap = false ∨ f.isLifecycle = false

theorem queues_of_grows {m m' : EventLoop Functor} (h : TcpConnection.QueuedCallbacks m m')
    (t : TcpServer) : ∃ fs, m'.waiting = m.waiting ++ fs ∧ ∀ f ∈ fs, t.Queues f := by
  obtain ⟨fs, hfs, -, hcallback⟩ := h.grows
  refine ⟨fs, hfs, fun f hf => .inr ?_⟩
  rcases hcallback f hf with rfl | ⟨n, rfl⟩ <;> rfl

theorem queues_of_eq {m m' : EventLoop Functor} (h : m'.waiting = m.waiting) (t : TcpServer) :
    ∃ fs, m'.waiting = m.waiting ++ fs ∧ ∀ f ∈ fs, t.Queues f :=
  ⟨[], h.trans (List.append_nil _).symm, by simp⟩

theorem queues_queueInLoop (m : EventLoop Functor) (b : Bool) {f : Functor} {t : TcpServer}
    (hf : t.Queues f) :
    ∃ fs, (m.queueInLoop b f).waiting = m.waiting ++ fs ∧ ∀ f ∈ fs, t.Queues f :=
  ⟨[f], EventLoop.waiting_queueInLoop m b f, by simpa using hf⟩

/-- A step takes at most the first functor, and queues callbacks, calls of other threads, and
`connectDestroyed` when the connection is out of the map. -/
theorem waiting_of_step (h : step s l = some t) :
    ∃ fs, t.conn.loop.waiting = s.remaining l ++ fs ∧ ∀ f ∈ fs, t.Queues f := by
  obtain ⟨hen, rfl⟩ := step_eq_some.mp h
  cases l with
  | act io =>
    obtain ⟨a, rest, -, hact⟩ := act_cases hen
    rw [hact]
    by_cases ha : a = .closeCallback
    · subst ha
      simp only [act, removeConenction]
      split
      · exact queues_queueInLoop _ _ (.inl ⟨rfl, rfl⟩)
      · exact queues_of_eq rfl _
    · exact queues_of_grows (s.act_loop rest io ha) _
  | swapFunctors => exact queues_of_eq (waiting_swapFunctors hen) _
  | endFunctors => exact queues_of_eq (waiting_endFunctors hen) _
  | runFunctor io =>
    obtain ⟨f, m, hnext, hfit, hrun⟩ := runFunctor_cases hen
    rw [hrun, remaining, EventLoop.waiting_nextFunctor hnext]
    exact queues_of_grows ((s.setLoop m).runFunctor_loop f io hfit) _
  | send buf result => exact queues_of_grows (s.conn.send_loop (fits_of_send hen)) _
  | sendBuffer buf result =>
    rw [next_sendBuffer]
    exact queues_of_grows (s.conn.send_loop (fits_of_sendBuffer hen)) _
  | shutdown => exact queues_of_eq (congrArg EventLoop.waiting s.conn.shutdown_loop) _
  | callSend address =>
    obtain ⟨content, -, -, hnext⟩ := callSend_cases hen
    rw [hnext, beginSend]
    split <;> exact queues_of_eq rfl _
  | callSendBuffer buf =>
    rw [next_callSendBuffer, beginSend]
    split <;> exact queues_of_eq rfl _
  | callShutdown =>
    rw [next, begin]
    split <;> exact queues_of_eq rfl _
  | advance i =>
    obtain ⟨c, -, hnext⟩ := advance_cases hen
    rw [hnext]
    cases c with
    | send source sent => exact queues_queueInLoop _ _ (.inr rfl)
    | shutdown => exact queues_of_eq rfl _
    | shutdownStored => exact queues_queueInLoop _ _ (.inr rfl)
  | baseRun =>
    obtain ⟨m, -, hnext⟩ := baseRun_cases hen
    rw [hnext]
    exact queues_queueInLoop _ _ (.inl ⟨rfl, rfl⟩)
  | destroyServer =>
    simp only [next, destroy]
    split
    · split
      · exact queues_of_eq (congrArg EventLoop.waiting s.conn.connectDestroyed_loop) _
      · exact queues_queueInLoop _ _ (.inl ⟨rfl, rfl⟩)
    · exact queues_of_eq rfl _
  | poll _ | handleEvent | storeLost _ | hold | drop | newString _ _ | overwrite _ _ | release _
  | baseSwap | baseEnd => exact queues_of_eq rfl _

end TcpServer

end WebServer.Mymuduo
