import WebServer.Mymuduo.NewConnection

/-! How often the callbacks of a connection's life cycle are called, over all ways to its end: a
hang-up, the end of the stream, and `~TcpServer`. -/

namespace WebServer.Mymuduo

open WebServer.Lib

def Effect.isLifecycle : Effect → Bool
  | .connectionCallback _ => true
  | .closeCallback => true
  | .connectDestroyed => true
  | _ => false

def Functor.isLifecycle : Functor → Bool
  | .connectEstablished => true
  | .connectDestroyed => true
  | _ => false

namespace TcpConnection

/-- The state after `handleClose`, also when a `shutdown` stores `kDisconnecting` once more. -/
structure Shut (c : TcpConnection) : Prop where
  state : c.state = .kDisconnected ∨ c.state = .kDisconnecting
  events : c.channel.events = 0

def leaves (c : TcpConnection) (data : Data) (result : Except Errno Nat) : Bytes :=
  if c.writesDirectly then unwritten data result else data.bytes

structure Serves (c c' : TcpConnection) : Prop where
  log : ∀ e, e.isLifecycle = true → c'.log.count e = c.log.count e
  waiting : ∀ f, f.isLifecycle = true → c'.loop.waiting.count f = c.loop.waiting.count f
  state : c'.state = c.state ∨ c'.state = .kDisconnecting
  channel : c'.channel = c.channel ∨ c'.channel = c.channel.enableWriting ∨
    c'.channel = c.channel.disableWriting

variable {c c' : TcpConnection}

theorem Serves.refl (c : TcpConnection) : Serves c c :=
  ⟨fun _ _ => rfl, fun _ _ => rfl, .inl rfl, .inl rfl⟩

theorem count_log_append {e : Effect} (he : e.isLifecycle = true) {log es : List Effect}
    (h : ∀ e ∈ es, e.isLifecycle = false) : (log ++ es).count e = log.count e := by
  have hnot : e ∉ es := fun hmem => by simpa [he] using h e hmem
  rw [List.count_append, List.count_eq_zero.mpr hnot, Nat.add_zero]

theorem QueuedCallbacks.count_waiting {l m : EventLoop Functor} (h : QueuedCallbacks l m)
    {f : Functor} (hf : f.isLifecycle = true) : m.waiting.count f = l.waiting.count f := by
  obtain ⟨fs, hwaiting, -, hfs⟩ := h.grows
  have hnot : f ∉ fs := by
    intro hmem
    rcases hfs f hmem with rfl | ⟨n, rfl⟩ <;> cases hf
  rw [hwaiting, List.count_append, List.count_eq_zero.mpr hnot, Nat.add_zero]

theorem serves_of_log (es : List Effect) (hlog : c'.log = c.log ++ es)
    (hes : ∀ e ∈ es, e.isLifecycle = false) (hloop : QueuedCallbacks c.loop c'.loop)
    (hstate : c'.state = c.state ∨ c'.state = .kDisconnecting)
    (hchannel : c'.channel = c.channel ∨ c'.channel = c.channel.enableWriting ∨
      c'.channel = c.channel.disableWriting) : Serves c c' :=
  ⟨fun _ he => hlog ▸ count_log_append he hes, fun _ hf => hloop.count_waiting hf, hstate,
    hchannel⟩

theorem serves_record {e : Effect} (he : e.isLifecycle = false) : Serves c (c.record e) :=
  serves_of_log [e] rfl (by simpa using he) (.refl _) (.inl rfl) (.inl rfl)

theorem sendInLoop_leaves {data : Data} {result : Except Errno Nat}
    (h : c.state ≠ .kDisconnected) (hfit : Fits data.bytes.length result) :
    Sends c (.sendInLoop data.bytes :: if c.writesDirectly then [.write data.bytes result] else [])
      (c.leaves data result) (c.sendInLoop data result) :=
  sendInLoop_spec h hfit

theorem serves_sendInLoop {data : Data} {result : Except Errno Nat}
    (hfit : Fits data.bytes.length result) : Serves c (c.sendInLoop data result) := by
  by_cases h : c.state = .kDisconnected
  · rw [sendInLoop_disconnected h]
    exact serves_record rfl
  · have hsends := sendInLoop_leaves h hfit
    have hchannel := hsends.channel
    refine serves_of_log _ hsends.log (fun e he => ?_) hsends.loop (.inl hsends.state) ?_
    · split at he <;> simp only [List.mem_cons, List.not_mem_nil, or_false] at he
      · rcases he with rfl | rfl <;> rfl
      · rw [he]
        rfl
    · split at hchannel
      · exact .inl hchannel
      · exact .inr (.inl hchannel)

theorem sendInLoop_shut (h : c.Shut) {data : Data} {result : Except Errno Nat}
    (hfit : Fits data.bytes.length result)
    (hleaves : c.state = .kDisconnecting → c.leaves data result = []) :
    (c.sendInLoop data result).channel = c.channel := by
  rcases h.state with hstate | hstate
  · rw [sendInLoop_disconnected hstate]
    rfl
  · have hsends := sendInLoop_leaves (c := c) (by simp [hstate]) hfit
    rw [hsends.channel, if_pos (.inr (hleaves hstate))]

theorem serves_send {buf : Data} {result : Except Errno Nat}
    (hfit : Fits buf.bytes.length result) : Serves c (c.send buf result) := by
  rw [send]
  split
  · have hrecord := serves_record (c := c) (e := .accepted buf.bytes) rfl
    have hsend := serves_sendInLoop (c := c.record (.accepted buf.bytes)) hfit
    exact
      { log := fun e he => (hsend.log e he).trans (hrecord.log e he)
        waiting := hsend.waiting
        state := hsend.state
        channel := hsend.channel }
  · exact .refl c

theorem serves_shutdownInLoop : Serves c c.shutdownInLoop := by
  rw [shutdownInLoop_spec]
  split
  · exact .refl c
  · exact serves_record rfl

theorem serves_shutdown : Serves c c.shutdown := by
  rw [shutdown]
  split
  · have hshut := serves_shutdownInLoop (c := c.setState .kDisconnecting)
    exact { hshut with state := .inr (hshut.state.elim id id) }
  · exact .refl c

theorem serves_handleRead {delivered : Except Errno Bytes} (h : delivered ≠ .ok []) :
    Serves c (c.handleRead delivered id id) := by
  obtain ⟨b, hread | hread⟩ := c.handleRead_open h
  · rw [hread]
    exact ⟨fun _ _ => rfl, fun _ _ => rfl, .inl rfl, .inl rfl⟩
  · rw [hread]
    exact serves_of_log [.messageCallback] rfl (by simp [Effect.isLifecycle]) (.refl _)
      (.inl rfl) (.inl rfl)

theorem serves_wrote {k : Nat} : Serves c (c.wrote k) :=
  serves_of_log [.write c.outputBuffer.peek (.ok k)] rfl (by simp [Effect.isLifecycle])
    (.refl _) (.inl rfl) (.inl rfl)

theorem serves_handleWrite {result : Except Errno Nat} : Serves c (c.handleWrite result) := by
  rcases c.handleWrite_cases result with
    ⟨-, h⟩ | ⟨-, -, h⟩ | ⟨k, -, -, -, h⟩ | ⟨k, -, -, -, h⟩
  · rw [h]
    exact .refl c
  · rw [h]
    exact serves_record rfl
  · rw [h]
    exact serves_wrote
  · obtain ⟨l, hl, hdone⟩ := (c.wrote (k + 1)).writeDone_spec
    rw [h, hdone]
    split
    · exact serves_of_log [.write c.outputBuffer.peek (.ok (k + 1)), .shutdownWrite]
        (by simp [wrote, record]) (by simp [Effect.isLifecycle]) hl (.inl rfl) (.inr (.inr rfl))
    · exact serves_of_log [.write c.outputBuffer.peek (.ok (k + 1))] rfl
        (by simp [Effect.isLifecycle]) hl (.inl rfl) (.inr (.inr rfl))

end TcpConnection

namespace TcpConnection

theorem Serves.revents {c c' : TcpConnection} (h : c.Serves c') :
    c'.channel.revents = c.channel.revents := by
  rcases h.channel with h | h | h <;> simp [h, Channel.enableWriting, Channel.disableWriting]

theorem handleClose_eq (c : TcpConnection) : c.handleClose id =
    { c with
      state := .kDisconnected, channel := c.channel.disableAll,
      log := c.log ++ [.connectionCallback false] } := rfl

theorem connectDestroyed_of_state_ne {c : TcpConnection} (h : c.state ≠ .kConnected) :
    c.connectDestroyed.state = c.state ∧ c.connectDestroyed.channel = c.channel.remove := by
  simp [connectDestroyed, record, h]

theorem connectDestroyed_count (c : TcpConnection) :
    c.connectDestroyed.log.count (.connectionCallback true) =
        c.log.count (.connectionCallback true) ∧
      c.connectDestroyed.log.count (.connectionCallback false) =
        c.log.count (.connectionCallback false) + (if c.state = .kConnected then 1 else 0) ∧
      c.connectDestroyed.log.count .closeCallback = c.log.count .closeCallback ∧
      c.connectDestroyed.log.count .connectDestroyed = c.log.count .connectDestroyed + 1 := by
  by_cases h : c.state = .kConnected <;>
    simp [connectDestroyed, record, setState, connected, h, List.count_append]

/-- `disableAll` was called: by `handleClose`, or by the `connectDestroyed` of `~TcpServer`. -/
def closed (c : TcpConnection) : Bool := c.state ≠ .kConnecting && c.channel.isNoneEvent

end TcpConnection

namespace TcpServer

/-- What keeps the connection from being closed twice. -/
def closesOnce (s : TcpServer) : Label → Bool
  | .act io => s.actions.head?.all fun a =>
      !a.closes io || s.alive &&
        (a ≠ .callback .readCallback || !Channel.hungUp s.conn.channel.revents)
  | .runFunctor io => s.conn.loop.functors.head?.all fun
      | .sendInLoop source _ => !(s.conn.closed && s.conn.state = .kDisconnecting) ||
          (s.readSource source).all fun message =>
            (s.conn.leaves ⟨io.before, message⟩ io.write).isEmpty
      | _ => true
  | .destroyServer => !(s.inMap && s.conn.closed)
  | _ => true

def touchesLifecycle (s : TcpServer) : Label → Bool
  | .poll _ => true
  | .handleEvent => true
  | .act io => s.actions.head?.any fun a => a = .closeCallback || a.closes io
  | .runFunctor _ => s.conn.loop.functors.head?.any Functor.isLifecycle
  | .baseRun => true
  | .destroyServer => true
  | _ => false

structure Service (s : TcpServer) (l : Label) (t : TcpServer) : Prop where
  conn : s.conn.Serves t.conn
  shut : s.conn.Shut → s.closesOnce l = true → t.conn.channel = s.conn.channel
  alive : t.alive = s.alive
  inMap : t.inMap = s.inMap
  active : t.active = s.active
  actions : t.actions = s.actions ∨ ∃ a, s.actions = a :: t.actions ∧ a ≠ .closeCallback
  base : t.base.waiting = s.base.waiting

variable {s t : TcpServer} {l : Label}

theorem Service.refl (s : TcpServer) (l : Label) : Service s l s :=
  ⟨.refl _, fun _ _ => rfl, rfl, rfl, rfl, .inl rfl, rfl⟩

theorem service_setLoop {m : EventLoop Functor} (h : ∀ f, f.isLifecycle = true →
    m.waiting.count f = s.conn.loop.waiting.count f) : Service s l (s.setLoop m) :=
  ⟨⟨fun _ _ => rfl, h, .inl rfl, .inl rfl⟩, fun _ _ => rfl, rfl, rfl, rfl, .inl rfl, rfl⟩

theorem service_queueInLoop (s : TcpServer) (l : Label) (b : Bool) {f : Functor}
    (hf : f.isLifecycle = false) : Service s l (s.queueInLoop b f) := by
  apply service_setLoop
  intro g hg
  have hne : g ≠ f := by
    rintro rfl
    simp [hf] at hg
  simp [hne.symm]

theorem state_ne_of_shut (h : s.conn.Shut) : s.conn.state ≠ .kConnected := by
  rcases h.state with h | h <;> simp [h]

theorem isWriting_of_shut (h : s.conn.Shut) : s.conn.channel.isWriting = false := by
  simp [Channel.isWriting, h.events]

theorem service_setConn {c : TcpConnection} (hc : s.conn.Serves c)
    (hshut : s.conn.Shut → c = s.conn) : Service s l { s with conn := c } :=
  ⟨hc, fun h _ => congrArg TcpConnection.channel (hshut h), rfl, rfl, rfl, .inl rfl, rfl⟩

theorem serves_act (s : TcpServer) {a : Action} (rest : List Action) {io : Syscalls}
    (hne : a ≠ .closeCallback) (hopen : a.closes io = false) :
    s.conn.Serves (s.act a rest io).conn ∧
      (s.conn.Shut → (s.act a rest io).conn.channel = s.conn.channel) := by
  cases a with
  | callback cb =>
    cases cb with
    | closeCallback => cases hopen
    | errorCallback => exact ⟨.refl _, fun _ => rfl⟩
    | readCallback =>
      simp only [Action.closes, decide_eq_false_iff_not] at hopen
      refine ⟨TcpConnection.serves_handleRead hopen, fun _ => ?_⟩
      obtain ⟨b, hread | hread⟩ := s.conn.handleRead_open hopen
      · rw [act, hread]
      · rw [act, hread]
        rfl
    | writeCallback =>
      refine ⟨TcpConnection.serves_handleWrite, fun h => ?_⟩
      simp [act, TcpConnection.handleWrite, isWriting_of_shut h]
  | closeCallback => exact absurd rfl hne
  | letGo => exact ⟨.refl _, fun _ => rfl⟩

theorem service_act {a : Action} {rest : List Action} {io : Syscalls}
    (ha : s.actions = a :: rest) (hne : a ≠ .closeCallback) (hopen : a.closes io = false) :
    Service s l (s.act a rest io) := by
  have hactions : (s.act a rest io).actions = rest := by
    rw [act_actions, hopen]
    rfl
  have hrest : (s.act a rest io).actions = s.actions ∨
      ∃ b, s.actions = b :: (s.act a rest io).actions ∧ b ≠ .closeCallback :=
    .inr ⟨a, by rw [ha, hactions], hne⟩
  obtain ⟨hconn, hshut⟩ := serves_act s rest hne hopen
  rw [s.act_eq rest io hne] at hrest hconn hshut ⊢
  exact ⟨hconn, fun h _ => hshut h, rfl, rfl, rfl, hrest, rfl⟩

theorem serves_runFunctor (s : TcpServer) {f : Functor} {io : Syscalls}
    (hfit : s.fits io f = true) (hf : f.isLifecycle = false) :
    s.conn.Serves (s.runFunctor f io).conn := by
  cases f with
  | connectEstablished => cases hf
  | connectDestroyed => cases hf
  | sendInLoop source sent =>
    simp only [runFunctor, runSend]
    cases hread : s.readSource source with
    | none => exact .refl _
    | some message => exact TcpConnection.serves_sendInLoop (by simpa [fits, hread] using hfit)
  | shutdownInLoop => exact TcpConnection.serves_shutdownInLoop
  | writeCompleteCallback => exact TcpConnection.serves_record rfl
  | highWaterMarkCallback n =>
    apply TcpConnection.serves_record
    split <;> rfl

theorem channel_runFunctor (h : s.conn.Shut) {f : Functor} {io : Syscalls}
    (hfit : s.fits io f = true) (hf : f.isLifecycle = false)
    (honce : ∀ source sent message, f = .sendInLoop source sent →
      s.readSource source = some message → s.conn.state = .kDisconnecting →
        s.conn.leaves ⟨io.before, message⟩ io.write = []) :
    (s.runFunctor f io).conn.channel = s.conn.channel := by
  cases f with
  | connectEstablished => cases hf
  | connectDestroyed => cases hf
  | sendInLoop source sent =>
    simp only [runFunctor, runSend]
    cases hread : s.readSource source with
    | none => rfl
    | some message =>
      exact TcpConnection.sendInLoop_shut h (by simpa [fits, hread] using hfit)
        (honce source sent message rfl hread)
  | shutdownInLoop =>
    rw [runFunctor, TcpConnection.shutdownInLoop_spec]
    split <;> rfl
  | writeCompleteCallback => rfl
  | highWaterMarkCallback n => rfl

theorem closed_of_shut (h : s.conn.Shut) : s.conn.closed = true := by
  have hnone : s.conn.channel.isNoneEvent = true := by
    simp [Channel.isNoneEvent, Channel.kNoneEvent, h.events]
  rcases h.state with hstate | hstate <;> simp [TcpConnection.closed, hstate, hnone]

theorem service_runFunctor {io : Syscalls} (h : s.enabled (.runFunctor io) = true)
    (hl : s.touchesLifecycle (.runFunctor io) = false) :
    Service s (.runFunctor io) (s.next (.runFunctor io)) := by
  obtain ⟨f, m, hnext, hfit, hrun⟩ := runFunctor_cases h
  obtain ⟨hfunctors, -⟩ := EventLoop.nextFunctor_spec hnext
  have hf : f.isLifecycle = false := by simpa [touchesLifecycle, hfunctors] using hl
  have hserves := (s.setLoop m).serves_runFunctor hfit hf
  rw [hrun, runFunctor_eq]
  refine ⟨{ hserves with waiting := fun g hg => ?_ }, fun hshut honce => ?_, rfl, rfl, rfl,
    .inl rfl, rfl⟩
  · have hne : f ≠ g := by
      rintro rfl
      simp [hf] at hg
    rw [EventLoop.waiting_nextFunctor hnext, List.count_cons_of_ne hne]
    exact hserves.waiting g hg
  · apply channel_runFunctor (s := s.setLoop m) ⟨hshut.state, hshut.events⟩ hfit hf
    rintro source sent message rfl hread hstate
    have hread' : s.readSource source = some message := hread
    have hstate' : s.conn.state = .kDisconnecting := hstate
    have hleaves : s.conn.leaves ⟨io.before, message⟩ io.write = [] := by
      simpa [closesOnce, hfunctors, closed_of_shut hshut, hstate', hread'] using honce
    exact hleaves

theorem service_beginSend (source : Source) (sent : Bytes) :
    Service s l (s.beginSend source sent) := by
  rw [beginSend]
  split
  · exact ⟨TcpConnection.serves_record rfl, fun _ _ => rfl, rfl, rfl, rfl, .inl rfl, rfl⟩
  · exact .refl s l

theorem service_advance (i : Nat) (c : Call) : Service s l (s.advance i c) := by
  cases c with
  | send source sent =>
    exact { service_queueInLoop { s with calls := s.calls.eraseIdx i } l false
      (f := .sendInLoop source sent) rfl with }
  | shutdown =>
    exact ⟨⟨fun _ _ => rfl, fun _ _ => rfl, .inr rfl, .inl rfl⟩, fun _ _ => rfl, rfl, rfl, rfl,
      .inl rfl, rfl⟩
  | shutdownStored =>
    exact { service_queueInLoop { s with calls := s.calls.eraseIdx i } l false
      (f := .shutdownInLoop) rfl with }

theorem service_next (hen : s.enabled l = true) (hl : s.touchesLifecycle l = false) :
    Service s l (s.next l) := by
  cases l with
  | poll _ | handleEvent | baseRun | destroyServer => cases hl
  | act io =>
    obtain ⟨a, rest, ha, hnext⟩ := act_cases hen
    simp only [touchesLifecycle, ha, List.head?_cons, Option.any_some, Bool.or_eq_false_iff,
      decide_eq_false_iff_not] at hl
    rw [hnext]
    exact service_act ha hl.1 hl.2
  | swapFunctors => exact service_setLoop fun f _ => by rw [waiting_swapFunctors hen]
  | runFunctor io => exact service_runFunctor hen hl
  | endFunctors => exact service_setLoop fun f _ => by rw [waiting_endFunctors hen]
  | send buf result =>
    exact service_setConn (TcpConnection.serves_send (fits_of_send hen)) fun h =>
      TcpConnection.send_of_state_ne (state_ne_of_shut h) _ _
  | sendBuffer buf result =>
    rw [next_sendBuffer]
    exact service_setConn (TcpConnection.serves_send (fits_of_sendBuffer hen)) fun h =>
      TcpConnection.send_of_state_ne (state_ne_of_shut h) _ _
  | shutdown =>
    exact service_setConn TcpConnection.serves_shutdown fun h =>
      TcpConnection.shutdown_of_state_ne (state_ne_of_shut h)
  | callSend address =>
    obtain ⟨content, -, -, hnext⟩ := callSend_cases hen
    rw [hnext]
    exact service_beginSend _ content
  | callSendBuffer buf =>
    rw [next_callSendBuffer]
    exact service_beginSend _ buf.peek
  | callShutdown =>
    rw [next, begin]
    split
    · exact { Service.refl s _ with }
    · exact .refl s _
  | advance i =>
    obtain ⟨c, -, hnext⟩ := advance_cases hen
    rw [hnext]
    exact service_advance i c
  | baseSwap => exact { Service.refl s .baseSwap with base := waiting_baseSwap hen }
  | baseEnd => exact { Service.refl s .baseEnd with base := waiting_baseEnd hen }
  | storeLost _ | hold | drop | newString _ _ | overwrite _ _ | release _ =>
    exact { Service.refl s _ with }

def events (s : TcpServer) : List Action :=
  (Channel.handleEventWithGuard s.conn.channel.revents).map .callback ++ [.letGo]

/-- The connection is established, and neither side has closed it. -/
structure Open (s : TcpServer) : Prop where
  alive : s.alive = true
  inMap : s.inMap = true
  established : s.conn.log.count (.connectionCallback true) = 1
  disconnected : s.conn.log.count (.connectionCallback false) = 0
  closeCallback : s.conn.log.count .closeCallback = 0
  destroyed : s.conn.log.count .connectDestroyed = 0
  state : s.conn.state = .kConnected ∨ s.conn.state = .kDisconnecting
  channel : s.conn.channel.Watching
  noEstablish : s.conn.loop.waiting.count .connectEstablished = 0
  noDestroy : s.conn.loop.waiting.count .connectDestroyed = 0
  active : s.active = true → s.actions = []
  actions : s.actions <:+ s.events
  base : s.base.waiting = []

/-- `handleClose` has run; `closeCallback_`, the removal and `connectDestroyed` follow, each of
them once.  `due` calls of `closeCallback_` have not led to a removal yet. -/
structure Closed (s : TcpServer) (due : Nat) : Prop where
  established : s.conn.log.count (.connectionCallback true) = 1
  disconnected : s.conn.log.count (.connectionCallback false) = 1
  shut : s.conn.Shut
  interest : s.conn.channel.interest = none
  noEstablish : s.conn.loop.waiting.count .connectEstablished = 0
  active : s.active = false
  noClose : .callback .closeCallback ∉ s.actions
  noRead : .callback .readCallback ∈ s.actions → Channel.hungUp s.conn.channel.revents = true
  closeOnce : s.conn.log.count .closeCallback + s.actions.count .closeCallback = 1
  removeOnce : s.conn.log.count .closeCallback = s.base.waiting.length +
    s.conn.loop.waiting.count .connectDestroyed + s.conn.log.count .connectDestroyed + due

structure Destroyed (s : TcpServer) : Prop where
  alive : s.alive = false
  established : s.conn.log.count (.connectionCallback true) = 1
  disconnected : s.conn.log.count (.connectionCallback false) ≤ s.conn.log.count .connectDestroyed
  closeCallback : s.conn.log.count .closeCallback = 0
  noEstablish : s.conn.loop.waiting.count .connectEstablished = 0
  destroyOnce : s.conn.loop.waiting.count .connectDestroyed +
    s.conn.log.count .connectDestroyed = 1
  actions : .closeCallback ∉ s.actions
  base : s.base.waiting = []

/-- Every callback of the life cycle was called at most once. -/
structure OnceOnly (c : TcpConnection) : Prop where
  connected : c.log.count (.connectionCallback true) ≤ 1
  disconnected : c.log.count (.connectionCallback false) ≤ 1
  closeCallback : c.log.count .closeCallback ≤ 1
  connectDestroyed : c.log.count .connectDestroyed ≤ 1

theorem onceOnly_open (h : s.Open) : OnceOnly s.conn :=
  ⟨h.established.le, by simp [h.disconnected], by simp [h.closeCallback], by simp [h.destroyed]⟩

theorem onceOnly_closed (h : s.Closed 0) : OnceOnly s.conn := by
  have hclose := h.closeOnce
  have hremove := h.removeOnce
  exact ⟨h.established.le, h.disconnected.le, by omega, by omega⟩

theorem onceOnly_destroyed (h : s.Destroyed) : OnceOnly s.conn := by
  have hdestroy := h.destroyOnce
  have hdisconnected := h.disconnected
  exact ⟨h.established.le, by omega, by simp [h.closeCallback], by omega⟩

theorem Service.suffix (h : Service s l t) : t.actions <:+ s.actions := by
  rcases h.actions with heq | ⟨a, heq, -⟩
  · rw [heq]
  · rw [heq]
    exact List.suffix_cons _ _

theorem Service.count_closeCallback (h : Service s l t) :
    t.actions.count .closeCallback = s.actions.count .closeCallback := by
  rcases h.actions with heq | ⟨a, heq, hne⟩
  · rw [heq]
  · rw [heq, List.count_cons_of_ne hne]

theorem open_service (hs : s.Open) (h : Service s l t) : t.Open where
  alive := h.alive.trans hs.alive
  inMap := h.inMap.trans hs.inMap
  established := (h.conn.log _ rfl).trans hs.established
  disconnected := (h.conn.log _ rfl).trans hs.disconnected
  closeCallback := (h.conn.log _ rfl).trans hs.closeCallback
  destroyed := (h.conn.log _ rfl).trans hs.destroyed
  state := by
    rcases h.conn.state with heq | heq
    · rw [heq]
      exact hs.state
    · exact .inr heq
  channel := by
    rcases h.conn.channel with heq | heq | heq
    · rw [heq]
      exact hs.channel
    · rw [heq]
      exact Channel.watching_enableWriting hs.channel
    · rw [heq]
      exact Channel.watching_disableWriting hs.channel
  noEstablish := (h.conn.waiting _ rfl).trans hs.noEstablish
  noDestroy := (h.conn.waiting _ rfl).trans hs.noDestroy
  active hactive := by
    have hnil := hs.active (h.active.symm.trans hactive)
    exact List.suffix_nil.mp (hnil ▸ h.suffix)
  actions := by
    rw [events, h.conn.revents]
    exact h.suffix.trans hs.actions
  base := h.base.trans hs.base

theorem closed_service {due : Nat} (hs : s.Closed due) (honce : s.closesOnce l = true)
    (h : Service s l t) : t.Closed due := by
  have hchannel := h.shut hs.shut honce
  have hsubset := h.suffix.subset
  exact
    { established := (h.conn.log _ rfl).trans hs.established
      disconnected := (h.conn.log _ rfl).trans hs.disconnected
      shut := by
        refine ⟨?_, by rw [hchannel]; exact hs.shut.events⟩
        rcases h.conn.state with heq | heq
        · rw [heq]
          exact hs.shut.state
        · exact .inr heq
      interest := by rw [hchannel]; exact hs.interest
      noEstablish := (h.conn.waiting _ rfl).trans hs.noEstablish
      active := h.active.trans hs.active
      noClose := fun hmem => hs.noClose (hsubset hmem)
      noRead := fun hmem => by rw [hchannel]; exact hs.noRead (hsubset hmem)
      closeOnce := by
        rw [h.conn.log _ rfl, h.count_closeCallback]
        exact hs.closeOnce
      removeOnce := by
        rw [h.conn.log _ rfl, h.conn.log _ rfl, h.conn.waiting _ rfl, h.base]
        exact hs.removeOnce }

theorem destroyed_service (hs : s.Destroyed) (h : Service s l t) : t.Destroyed where
  alive := h.alive.trans hs.alive
  established := (h.conn.log _ rfl).trans hs.established
  disconnected := by
    rw [h.conn.log _ rfl, h.conn.log _ rfl]
    exact hs.disconnected
  closeCallback := (h.conn.log _ rfl).trans hs.closeCallback
  noEstablish := (h.conn.waiting _ rfl).trans hs.noEstablish
  destroyOnce := by
    rw [h.conn.waiting _ rfl, h.conn.log _ rfl]
    exact hs.destroyOnce
  actions hmem := hs.actions (h.suffix.subset hmem)
  base := h.base.trans hs.base

theorem closeCallback_notMem_events (s : TcpServer) : .closeCallback ∉ s.events := by
  simp [events]

theorem events_nodup (s : TcpServer) : s.events.Nodup := by
  have hnodup := Channel.nodup_handleEventWithGuard s.conn.channel.revents
  rw [events, List.nodup_append]
  refine ⟨hnodup.map fun _ _ => Action.callback.inj, List.nodup_singleton _, ?_⟩
  simp

theorem callback_closeCallback_notMem {a : Action} {rest : List Action}
    (h : a :: rest <:+ s.events) : .callback .closeCallback ∉ rest := by
  have htail := Channel.closeCallback_notMem_tail s.conn.channel.revents
  intro hmem
  have hsuffix : rest <:+ s.events.tail := by
    obtain ⟨front, hfront⟩ := h
    cases front with
    | nil => rw [← hfront]; exact List.suffix_refl _
    | cons b front => exact ⟨front ++ [a], by rw [← hfront]; simp⟩
  have hin := hsuffix.subset hmem
  rw [events] at hin
  cases hcbs : Channel.handleEventWithGuard s.conn.channel.revents with
  | nil => simp [hcbs] at hin
  | cons cb cbs =>
    rw [hcbs] at htail hin
    exact htail (by simpa using hin)

theorem act_closes (s : TcpServer) {a : Action} (rest : List Action) {io : Syscalls}
    (h : a.closes io = true) :
    ∃ b, s.act a rest io =
      { s with
        conn := TcpConnection.handleClose { s.conn with inputBuffer := b } id
        actions := .closeCallback :: rest } := by
  cases a with
  | callback cb =>
    cases cb with
    | closeCallback => exact ⟨s.conn.inputBuffer, rfl⟩
    | errorCallback => cases h
    | readCallback =>
      have hread : io.read = .ok [] := of_decide_eq_true h
      refine ⟨(s.conn.inputBuffer.readFd (.ok [])).2, ?_⟩
      simp [act, hread, TcpConnection.handleRead]
    | writeCallback => cases h
  | closeCallback => cases h
  | letGo => cases h

theorem closed_act (hs : s.Open) {a : Action} {rest : List Action} {io : Syscalls}
    (ha : s.actions = a :: rest) (hclose : a.closes io = true) : (s.act a rest io).Closed 0 := by
  obtain ⟨b, hact⟩ := s.act_closes rest hclose
  have hsuffix : a :: rest <:+ s.events := ha ▸ hs.actions
  have hmem : a ∈ s.events := hsuffix.subset List.mem_cons_self
  have hrest : rest ⊆ s.events := fun x hx => hsuffix.subset (List.mem_cons_of_mem _ hx)
  have hnodup := (s.events_nodup.sublist hsuffix.sublist)
  rw [hact, TcpConnection.handleClose_eq]
  exact
    { established := by simpa [List.count_append] using hs.established
      disconnected := by simpa [List.count_append] using hs.disconnected
      shut := ⟨.inl rfl, Channel.disableAll_events _⟩
      interest := Channel.interest_disableAll hs.channel
      noEstablish := hs.noEstablish
      active := by
        cases hactive : s.active with
        | false => rfl
        | true => simp [hs.active hactive] at ha
      noClose := by simpa using callback_closeCallback_notMem hsuffix
      noRead := fun hread => by
        have hread : .callback .readCallback ∈ rest := by simpa using hread
        -- the close is no read, so it is a hang-up
        have hhup : a = .callback .closeCallback := by
          cases a with
          | callback cb =>
            cases cb with
            | closeCallback => rfl
            | readCallback => exact absurd hread (List.nodup_cons.mp hnodup).1
            | errorCallback => cases hclose
            | writeCallback => cases hclose
          | closeCallback => cases hclose
          | letGo => cases hclose
        rw [hhup, events, List.mem_append] at hmem
        have hcb : .closeCallback ∈ Channel.handleEventWithGuard s.conn.channel.revents := by
          simpa using hmem
        have hhungUp := (Channel.closeCallback_mem_iff _).mp hcb
        simpa using hhungUp
      closeOnce := by
        have hnone : rest.count .closeCallback = 0 :=
          List.count_eq_zero.mpr fun hmem => s.closeCallback_notMem_events (hrest hmem)
        simp [List.count_append, hs.closeCallback, hnone]
      removeOnce := by
        have hdestroy := hs.noDestroy
        have hdestroyed := hs.destroyed
        have hclosed := hs.closeCallback
        simp [List.count_append, hs.base, hclosed, hdestroyed, hdestroy] }

theorem count_pos_of_nextFunctor {f : Functor} {m : EventLoop Functor}
    (h : s.conn.loop.nextFunctor = some (f, m)) : s.conn.loop.waiting.count f ≠ 0 := by
  rw [EventLoop.waiting_nextFunctor h, List.count_cons_self]
  exact Nat.succ_ne_zero _

/-- Once the connection is established, the one functor of the life cycle that can run next is
`connectDestroyed`. -/
theorem runFunctor_lifecycle {io : Syscalls} (h : s.enabled (.runFunctor io) = true)
    (hl : s.touchesLifecycle (.runFunctor io) = true)
    (hestablish : s.conn.loop.waiting.count .connectEstablished = 0) :
    ∃ m, s.conn.loop.nextFunctor = some (.connectDestroyed, m) ∧
      s.next (.runFunctor io) = (s.setLoop m).runFunctor .connectDestroyed io := by
  obtain ⟨f, m, hnext, -, hrun⟩ := runFunctor_cases h
  have hf : f.isLifecycle = true := by
    simpa [touchesLifecycle, (EventLoop.nextFunctor_spec hnext).1] using hl
  cases f with
  | connectEstablished => exact absurd hestablish (count_pos_of_nextFunctor hnext)
  | connectDestroyed => exact ⟨m, hnext, hrun⟩
  | _ => cases hf

theorem open_poll (hs : s.Open) (revents : BitVec 32) (h : s.enabled (.poll revents) = true) :
    (s.next (.poll revents)).Open := by
  simp only [enabled, idle, Bool.and_eq_true, List.isEmpty_iff] at h
  have hnil : s.actions = [] := h.1.1.1
  exact
    { hs with
      channel := ⟨hs.channel.index, hs.channel.events⟩
      active := fun _ => hnil
      actions := by rw [next, hnil]; exact List.nil_suffix }

theorem open_destroy (hs : s.Open) : s.destroy.Destroyed := by
  have hnone : .closeCallback ∉ s.actions := fun hmem =>
    s.closeCallback_notMem_events (hs.actions.subset hmem)
  simp only [destroy, hs.inMap, if_true]
  split
  · obtain ⟨htrue, hfalse, hclose, hdestroyed⟩ := s.conn.connectDestroyed_count
    exact
      { alive := rfl
        established := htrue.trans hs.established
        disconnected := by
          rw [hfalse, hdestroyed, hs.disconnected, hs.destroyed]
          split <;> decide
        closeCallback := hclose.trans hs.closeCallback
        noEstablish := by simp [hs.noEstablish]
        destroyOnce := by simp [hdestroyed, hs.noDestroy, hs.destroyed]
        actions := hnone
        base := hs.base }
  · exact
      { alive := rfl
        established := hs.established
        disconnected := by simp [queueInLoop, setLoop, hs.disconnected]
        closeCallback := hs.closeCallback
        noEstablish := by simp [queueInLoop, setLoop, List.count_append, hs.noEstablish]
        destroyOnce := by
          simp [queueInLoop, setLoop, List.count_append, hs.noDestroy, hs.destroyed]
        actions := hnone
        base := hs.base }

theorem open_step (hs : s.Open) (h : step s l = some t) : t.Open ∨ t.Closed 0 ∨ t.Destroyed := by
  obtain ⟨hen, rfl⟩ := step_eq_some.mp h
  cases hl : s.touchesLifecycle l with
  | false => exact .inl (open_service hs (service_next hen hl))
  | true =>
    cases l with
    | poll revents => exact .inl (open_poll hs revents hen)
    | handleEvent =>
      refine .inl { hs with active := nofun, actions := ?_ }
      simp only [next]
      split
      · exact List.nil_suffix
      · exact List.suffix_refl _
    | act io =>
      obtain ⟨a, rest, ha, hnext⟩ := act_cases hen
      have hne : a ≠ .closeCallback := by
        rintro rfl
        exact s.closeCallback_notMem_events (hs.actions.subset (by simp [ha]))
      have hclose : a.closes io = true := by simpa [touchesLifecycle, ha, hne] using hl
      rw [hnext]
      exact .inr (.inl (closed_act hs ha hclose))
    | runFunctor io =>
      obtain ⟨m, hnext, -⟩ := runFunctor_lifecycle hen hl hs.noEstablish
      exact absurd hs.noDestroy (count_pos_of_nextFunctor hnext)
    | baseRun =>
      rw [baseRun_disabled hs.base] at hen
      cases hen
    | destroyServer => exact .inr (.inr (open_destroy hs))
    | _ => cases hl

theorem closed_connectDestroyed (hs : s.Closed 0) {m : EventLoop Functor}
    (h : s.conn.loop.nextFunctor = some (.connectDestroyed, m)) (io : Syscalls) :
    ((s.setLoop m).runFunctor .connectDestroyed io).Closed 0 := by
  have hne : (s.setLoop m).conn.state ≠ .kConnected :=
    state_ne_of_shut (s := s.setLoop m) ⟨hs.shut.state, hs.shut.events⟩
  obtain ⟨htrue, hfalse, hclose, hdestroyed⟩ := (s.setLoop m).conn.connectDestroyed_count
  obtain ⟨hstate, hchannel⟩ := TcpConnection.connectDestroyed_of_state_ne hne
  have hestablish := hs.noEstablish
  have hremove := hs.removeOnce
  rw [EventLoop.waiting_nextFunctor h] at hestablish hremove
  exact
    { established := htrue.trans hs.established
      disconnected := by
        rw [runFunctor, hfalse, if_neg hne]
        exact hs.disconnected
      shut := ⟨by rw [runFunctor, hstate]; exact hs.shut.state, by
        rw [runFunctor, hchannel]; exact hs.shut.events⟩
      interest := by rw [runFunctor, hchannel]; exact Channel.interest_remove hs.interest
      noEstablish := by simpa [runFunctor, setLoop] using hestablish
      active := hs.active
      noClose := hs.noClose
      noRead := fun hmem => by rw [runFunctor, hchannel]; exact hs.noRead hmem
      closeOnce := by rw [runFunctor, hclose]; exact hs.closeOnce
      removeOnce := by
        rw [List.count_cons_self] at hremove
        rw [runFunctor, hclose, hdestroyed, TcpConnection.connectDestroyed_loop]
        simp only [setLoop]
        omega }

theorem closed_removeConnectionInLoop (hs : s.Closed 1) : s.removeConnectionInLoop.Closed 0 where
  established := hs.established
  disconnected := hs.disconnected
  shut := ⟨hs.shut.state, hs.shut.events⟩
  interest := hs.interest
  noEstablish := by
    simpa [removeConnectionInLoop, queueInLoop, setLoop, List.count_append] using hs.noEstablish
  active := hs.active
  noClose := hs.noClose
  noRead := hs.noRead
  closeOnce := hs.closeOnce
  removeOnce := by
    have hremove := hs.removeOnce
    simp only [removeConnectionInLoop, queueInLoop, setLoop, EventLoop.waiting_queueInLoop,
      List.count_append, List.count_singleton_self]
    omega

theorem closed_removeConenction (hs : s.Closed 1) : s.removeConenction.Closed 0 := by
  rw [removeConenction]
  split
  · exact closed_removeConnectionInLoop hs
  · refine { hs with removeOnce := ?_ }
    have hremove := hs.removeOnce
    simp only [EventLoop.waiting_queueInLoop, List.length_append, List.length_singleton]
    omega

theorem closed_closeCallback (hs : s.Closed 0) {rest : List Action}
    (ha : s.actions = .closeCallback :: rest) (io : Syscalls) :
    (s.act .closeCallback rest io).Closed 0 := by
  have hclose := hs.closeOnce
  have hremove := hs.removeOnce
  have hsubset : rest ⊆ s.actions := ha ▸ List.subset_cons_self _ _
  rw [ha, List.count_cons_self] at hclose
  apply closed_removeConenction
  exact
    { established := by simpa [TcpConnection.record, List.count_append] using hs.established
      disconnected := by simpa [TcpConnection.record, List.count_append] using hs.disconnected
      shut := ⟨hs.shut.state, hs.shut.events⟩
      interest := hs.interest
      noEstablish := hs.noEstablish
      active := hs.active
      noClose := fun hmem => hs.noClose (hsubset hmem)
      noRead := fun hmem => hs.noRead (hsubset hmem)
      closeOnce := by
        simp only [TcpConnection.record, List.count_append, List.count_singleton_self]
        omega
      removeOnce := by
        simp [TcpConnection.record, List.count_append, hremove] }

theorem closed_baseRun (hs : s.Closed 0) (h : s.enabled .baseRun = true) :
    (s.next .baseRun).Closed 0 := by
  obtain ⟨m, hnext, hrun⟩ := baseRun_cases h
  have hremove := hs.removeOnce
  rw [EventLoop.waiting_nextFunctor hnext, List.length_cons] at hremove
  rw [hrun]
  apply closed_removeConnectionInLoop
  exact
    { hs with
      removeOnce := by
        rw [hremove]
        simp only
        omega }

theorem closed_step (hs : s.Closed 0) (honce : s.closesOnce l = true) (h : step s l = some t) :
    t.Closed 0 := by
  obtain ⟨hen, rfl⟩ := step_eq_some.mp h
  cases hl : s.touchesLifecycle l with
  | false => exact closed_service hs honce (service_next hen hl)
  | true =>
    cases l with
    | poll revents => simp [enabled, hs.interest] at hen
    | handleEvent => simp [enabled, hs.active] at hen
    | act io =>
      obtain ⟨a, rest, ha, hnext⟩ := act_cases hen
      rw [hnext]
      by_cases hne : a = .closeCallback
      · subst hne
        exact closed_closeCallback hs ha io
      · -- no second close: there is no hang-up left, and a read after a hang-up finds no end
        have hclose : a.closes io = true := by simpa [touchesLifecycle, ha, hne] using hl
        have hmem : a ∈ s.actions := by simp [ha]
        cases a with
        | callback cb =>
          cases cb with
          | closeCallback => exact absurd hmem hs.noClose
          | readCallback => simp [closesOnce, ha, hclose, hs.noRead hmem] at honce
          | errorCallback => cases hclose
          | writeCallback => cases hclose
        | closeCallback => exact absurd rfl hne
        | letGo => cases hclose
    | runFunctor io =>
      obtain ⟨m, hnext, hrun⟩ := runFunctor_lifecycle hen hl hs.noEstablish
      rw [hrun]
      exact closed_connectDestroyed hs hnext io
    | baseRun => exact closed_baseRun hs hen
    | destroyServer =>
      have hmap : s.inMap = false := by
        simpa [closesOnce, closed_of_shut hs.shut] using honce
      simp only [next, destroy, hmap]
      exact { hs with }
    | _ => cases hl

theorem destroyed_connectDestroyed (hs : s.Destroyed) {m : EventLoop Functor}
    (h : s.conn.loop.nextFunctor = some (.connectDestroyed, m)) (io : Syscalls) :
    ((s.setLoop m).runFunctor .connectDestroyed io).Destroyed := by
  obtain ⟨htrue, hfalse, hclose, hdestroyed⟩ := (s.setLoop m).conn.connectDestroyed_count
  have hestablish := hs.noEstablish
  have honce := hs.destroyOnce
  rw [EventLoop.waiting_nextFunctor h] at hestablish honce
  rw [List.count_cons_self] at honce
  exact
    { hs with
      established := htrue.trans hs.established
      disconnected := by
        have hdisconnected := hs.disconnected
        rw [runFunctor, hfalse, hdestroyed]
        apply Nat.add_le_add hdisconnected
        split <;> decide
      closeCallback := hclose.trans hs.closeCallback
      noEstablish := by simpa [runFunctor, setLoop] using hestablish
      destroyOnce := by
        rw [runFunctor, hdestroyed, TcpConnection.connectDestroyed_loop]
        simp only [setLoop]
        omega }

theorem destroyed_step (hs : s.Destroyed) (honce : s.closesOnce l = true)
    (h : step s l = some t) : t.Destroyed := by
  obtain ⟨hen, rfl⟩ := step_eq_some.mp h
  cases hl : s.touchesLifecycle l with
  | false => exact destroyed_service hs (service_next hen hl)
  | true =>
    cases l with
    | poll revents => exact { hs with }
    | handleEvent =>
      refine { hs with actions := ?_ }
      simp only [next]
      split
      · simp
      · exact s.closeCallback_notMem_events
    | act io =>
      obtain ⟨a, rest, ha, -⟩ := act_cases hen
      have hne : a ≠ .closeCallback := by
        rintro rfl
        exact hs.actions (by simp [ha])
      have hclose : a.closes io = true := by simpa [touchesLifecycle, ha, hne] using hl
      simp [closesOnce, ha, hclose, hs.alive] at honce
    | runFunctor io =>
      obtain ⟨m, hnext, hrun⟩ := runFunctor_lifecycle hen hl hs.noEstablish
      rw [hrun]
      exact destroyed_connectDestroyed hs hnext io
    | baseRun =>
      rw [baseRun_disabled hs.base] at hen
      cases hen
    | destroyServer => simp [enabled, hs.alive] at hen
    | _ => cases hl

theorem open_started (hs : s.Started) (halive : s.alive = true) : s.Open := by
  have hwaiting : s.conn.loop.waiting = [] := by simp [hs.waiting, destroys, halive]
  exact
    { alive := halive
      inMap := hs.inMap.trans halive
      established := by simp [hs.log]
      disconnected := by simp [hs.log]
      closeCallback := by simp [hs.log]
      destroyed := by simp [hs.log]
      state := .inl hs.state
      channel := by rw [hs.channel]; exact Channel.watching_new
      noEstablish := by simp [hwaiting]
      noDestroy := by simp [hwaiting]
      active := fun _ => hs.actions
      actions := by rw [hs.actions]; exact List.nil_suffix
      base := hs.base }

theorem destroyed_started (hs : s.Started) (halive : s.alive = false) : s.Destroyed := by
  have hwaiting : s.conn.loop.waiting = [.connectDestroyed] := by
    simp [hs.waiting, destroys, halive]
  exact
    { alive := halive
      established := by simp [hs.log]
      disconnected := by simp [hs.log]
      closeCallback := by simp [hs.log]
      noEstablish := by simp [hwaiting]
      destroyOnce := by simp [hwaiting, hs.log]
      actions := by simp [hs.actions]
      base := hs.base }

/-- Every callback of the life cycle is called once at most, in every run in which no end of the
stream is read after a hang-up, nothing is closed after `~TcpServer`, the server is not destroyed
while a closed connection is in its map, and no message is left over behind a close. -/
theorem onceOnly_of_closesOnce {sameLoop writeCompleteCallback : Bool} {ls : List Label}
    (honce : Along step (fun s l => s.closesOnce l = true)
      (newConnection sameLoop writeCompleteCallback) ls)
    (h : run step (newConnection sameLoop writeCompleteCallback) ls = some s) :
    OnceOnly s.conn := by
  have hphase : s.Connecting ∨ s.Open ∨ s.Closed 0 ∨ s.Destroyed := by
    apply connecting_or _ _ honce h
    · intro s hs
      cases halive : s.alive with
      | true => exact .inl (open_started hs halive)
      | false => exact .inr (.inr (destroyed_started hs halive))
    · intro s l t hs hl ht
      rcases hs with hs | hs | hs
      · exact open_step hs ht
      · exact .inr (.inl (closed_step hs hl ht))
      · exact .inr (.inr (destroyed_step hs hl ht))
  rcases hphase with hs | hs | hs | hs
  · constructor <;> simp [hs.log]
  · exact onceOnly_open hs
  · exact onceOnly_closed hs
  · exact onceOnly_destroyed hs

/-- A hang-up, and the removal through the base loop. -/
theorem onceOnly_hangUp :
    ∃ t, run step (newConnection false false)
        [.swapFunctors, .runFunctor ⟨.ok [], .ok 0, 0⟩, .endFunctors, .poll EPOLLHUP,
          .handleEvent, .act ⟨.ok [], .ok 0, 0⟩, .act ⟨.ok [], .ok 0, 0⟩, .act ⟨.ok [], .ok 0, 0⟩,
          .baseSwap, .baseRun, .swapFunctors, .runFunctor ⟨.ok [], .ok 0, 0⟩] = some t ∧
      t.conn.log.count .connectDestroyed = 1 ∧ OnceOnly t.conn := by
  have hrun : (run step (newConnection false false)
      [.swapFunctors, .runFunctor ⟨.ok [], .ok 0, 0⟩, .endFunctors, .poll EPOLLHUP,
        .handleEvent, .act ⟨.ok [], .ok 0, 0⟩, .act ⟨.ok [], .ok 0, 0⟩, .act ⟨.ok [], .ok 0, 0⟩,
        .baseSwap, .baseRun, .swapFunctors, .runFunctor ⟨.ok [], .ok 0, 0⟩]).any
        (fun t => t.conn.log.count .connectDestroyed = 1) = true := by
    decide +kernel
  obtain ⟨t, ht, hcount⟩ := (Option.any_eq_true _ _).mp hrun
  exact ⟨t, ht, of_decide_eq_true hcount, onceOnly_of_closesOnce (by decide) ht⟩

/-- A hang-up together with `EPOLLPRI`: `handleClose` runs twice in one `handleEventWithGuard`. -/
theorem not_onceOnly_hangUp_pri :
    ∃ t, run step (newConnection true false)
        [.poll (EPOLLHUP ||| EPOLLPRI), .handleEvent, .act ⟨.ok [], .ok 0, 0⟩,
          .act ⟨.ok [], .ok 0, 0⟩, .act ⟨.ok [], .ok 0, 0⟩] = some t ∧ ¬ OnceOnly t.conn := by
  have hrun : (run step (newConnection true false)
      [.poll (EPOLLHUP ||| EPOLLPRI), .handleEvent, .act ⟨.ok [], .ok 0, 0⟩,
        .act ⟨.ok [], .ok 0, 0⟩, .act ⟨.ok [], .ok 0, 0⟩]).any
        (fun t => t.conn.log.count (.connectionCallback false) = 2) = true := by
    decide +kernel
  obtain ⟨t, ht, hcount⟩ := (Option.any_eq_true _ _).mp hrun
  refine ⟨t, ht, fun honce => ?_⟩
  have htwice : t.conn.log.count (.connectionCallback false) = 2 := of_decide_eq_true hcount
  have hle := honce.disconnected
  omega

end TcpServer

end WebServer.Mymuduo
