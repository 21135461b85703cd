import WebServer.Mymuduo.TcpServer

namespace WebServer.Mymuduo

open WebServer.Lib

namespace TcpConnection

variable {c : TcpConnection}

theorem send_of_state_ne (h : c.state ≠ .kConnected) (buf : Data) (result : Except Errno Nat) :
    c.send buf result = c := if_neg h

theorem shutdown_of_state_ne (h : c.state ≠ .kConnected) : c.shutdown = c := if_neg h

end TcpConnection

namespace TcpServer

structure Fresh (s : TcpServer) : Prop where
  peek : s.conn.outputBuffer.peek = []
  inMap : s.inMap = s.alive
  active : s.active = false
  actions : s.actions = []
  calls : s.calls = []
  base : s.base.waiting = []

def destroys (s : TcpServer) : List Functor := if s.alive then [] else [.connectDestroyed]

structure Connecting (s : TcpServer) : Prop extends Fresh s where
  state : s.conn.state = .kConnecting
  channel : s.conn.channel = .new
  log : s.conn.log = []
  waiting : s.conn.loop.waiting = .connectEstablished :: s.destroys
  sameLoop : s.sameLoop = false

structure Started (s : TcpServer) : Prop extends Fresh s where
  state : s.conn.state = .kConnected
  channel : s.conn.channel = Channel.new.tie.enableReading
  log : s.conn.log = [.connectionCallback true]
  waiting : s.conn.loop.waiting = s.destroys

variable {s t : TcpServer} {l : Label}

theorem beginSend_of_state_ne (h : s.conn.state ≠ .kConnected) (source : Source) (sent : Bytes) :
    s.beginSend source sent = s := if_neg h

theorem begin_of_state_ne (h : s.conn.state ≠ .kConnected) (c : Call) : s.begin c = s := if_neg h

theorem newConnection_sameLoop (writeCompleteCallback : Bool) :
    (newConnection true writeCompleteCallback).Started where
  peek := Buffer.peek_new _
  inMap := rfl
  active := rfl
  actions := rfl
  calls := rfl
  base := rfl
  state := rfl
  channel := rfl
  log := rfl
  waiting := rfl

theorem newConnection_otherLoop (writeCompleteCallback : Bool) :
    (newConnection false writeCompleteCallback).Connecting where
  peek := Buffer.peek_new _
  inMap := rfl
  active := rfl
  actions := rfl
  calls := rfl
  base := rfl
  state := rfl
  channel := rfl
  log := rfl
  waiting := rfl
  sameLoop := rfl

theorem alive_act (s : TcpServer) (a : Action) (rest : List Action) (io : Syscalls) :
    (s.act a rest io).alive = s.alive := by
  by_cases ha : a = .closeCallback
  · subst ha
    simp only [act, removeConenction]
    split <;> rfl
  · rw [s.act_eq rest io ha]

theorem alive_next (h : l ≠ .destroyServer) : (s.next l).alive = s.alive := by
  cases l with
  | destroyServer => exact absurd rfl h
  | act io =>
    rw [next]
    split
    · rfl
    · exact s.alive_act _ _ io
  | runFunctor io =>
    rw [next]
    split
    · rfl
    · rw [runFunctor_eq]
      rfl
  | baseRun =>
    rw [next]
    split <;> rfl
  | callSend _ | callSendBuffer _ | callShutdown | advance _ | storeLost _ =>
    rw [(callStep_next rfl).eq]
  | _ => rfl

theorem connecting_setLoop (hs : s.Connecting) {m : EventLoop Functor}
    (h : m.waiting = s.conn.loop.waiting) : (s.setLoop m).Connecting :=
  { hs with waiting := h.trans hs.waiting }

theorem connecting_runFunctor (hs : s.Connecting) {io : Syscalls}
    (h : s.enabled (.runFunctor io) = true) : (s.next (.runFunctor io)).Started := by
  obtain ⟨f, m, hnext, -, hrun⟩ := runFunctor_cases h
  obtain ⟨rfl, hm⟩ := List.cons.inj ((EventLoop.waiting_nextFunctor hnext).symm.trans hs.waiting)
  rw [hrun]
  exact
    { hs with
      state := rfl
      channel := by rw [← hs.channel]; rfl
      log := congrArg (· ++ [Effect.connectionCallback true]) hs.log
      waiting := hm }

theorem connecting_destroy (hs : s.Connecting) (halive : s.alive = true) :
    s.destroy.Connecting := by
  have hmap := hs.inMap.trans halive
  have hwaiting := hs.waiting
  simp only [destroys, halive, if_true] at hwaiting
  have heq : s.destroy =
      queueInLoop { s with alive := false, inMap := false } false .connectDestroyed := by
    simp [destroy, hmap, hs.sameLoop]
  rw [heq]
  exact
    { hs with
      inMap := rfl
      waiting := by simp [queueInLoop, setLoop, hwaiting, destroys] }

theorem connecting_step (hs : s.Connecting) (h : step s l = some t) :
    t.Connecting ∨ t.Started := by
  obtain ⟨hen, rfl⟩ := step_eq_some.mp h
  have hstate : s.conn.state ≠ .kConnected := by simp [hs.state]
  cases l with
  | poll revents => simp [enabled, hs.channel, Channel.new] at hen
  | handleEvent => simp [enabled, hs.active] at hen
  | act io => simp [enabled, hs.actions] at hen
  | swapFunctors => exact .inl (connecting_setLoop hs (waiting_swapFunctors hen))
  | runFunctor io => exact .inr (connecting_runFunctor hs hen)
  | endFunctors => exact .inl (connecting_setLoop hs (waiting_endFunctors hen))
  | send buf result =>
    rw [next, TcpConnection.send_of_state_ne hstate]
    exact .inl hs
  | sendBuffer buf result =>
    rw [next_sendBuffer, next, TcpConnection.send_of_state_ne hstate]
    exact .inl hs
  | shutdown =>
    rw [next, TcpConnection.shutdown_of_state_ne hstate]
    exact .inl hs
  | callSend address =>
    obtain ⟨content, -, -, hnext⟩ := callSend_cases hen
    rw [hnext, beginSend_of_state_ne hstate]
    exact .inl hs
  | callSendBuffer buf =>
    rw [next_callSendBuffer, beginSend_of_state_ne hstate]
    exact .inl hs
  | callShutdown =>
    rw [next, begin_of_state_ne hstate]
    exact .inl hs
  | advance i => simp [enabled, hs.calls] at hen
  | storeLost i => simp [enabled, hs.calls] at hen
  | baseSwap => exact .inl { hs with base := (waiting_baseSwap hen).trans hs.base }
  | baseRun =>
    rw [baseRun_disabled hs.base] at hen
    cases hen
  | baseEnd => exact .inl { hs with base := (waiting_baseEnd hen).trans hs.base }
  | destroyServer => exact .inl (connecting_destroy hs hen)
  | hold | drop | newString _ _ | overwrite _ _ | release _ => exact .inl { hs with }

/-- What holds right after `connectEstablished` and is kept by every step that meets `P` holds
after every run whose steps all meet `P`, unless `connectEstablished` has still to run. -/
theorem connecting_or {I : TcpServer → Prop} {P : TcpServer → Label → Prop}
    (hstart : ∀ s, s.Started → I s) (hstep : ∀ s l t, I s → P s l → step s l = some t → I t)
    {sameLoop writeCompleteCallback : Bool} {ls : List Label}
    (hP : Along step P (newConnection sameLoop writeCompleteCallback) ls)
    (h : run step (newConnection sameLoop writeCompleteCallback) ls = some s) :
    s.Connecting ∨ I s := by
  have hinit : (newConnection sameLoop writeCompleteCallback).Connecting ∨
      I (newConnection sameLoop writeCompleteCallback) := by
    cases sameLoop with
    | true => exact .inr (hstart _ (newConnection_sameLoop _))
    | false => exact .inl (newConnection_otherLoop _)
  apply invariant_along (I := fun s => s.Connecting ∨ I s) _ hinit hP h
  intro s l t hs hl ht
  rcases hs with hs | hs
  · exact (connecting_step hs ht).imp_right (hstart t)
  · exact .inr (hstep s l t hs hl ht)

end TcpServer

end WebServer.Mymuduo
