import WebServer.Mymuduo.CrossThreadSend
import WebServer.Mymuduo.NewConnection

/-! `shutdown` against `send`: what the kernel has of the accepted messages when `shutdownWrite`
is called, and that nothing is written after it. -/

namespace WebServer.Mymuduo

open WebServer.Lib

def Effect.isPlain : Effect → Bool
  | .accepted _ => false
  | .sendInLoop _ => false
  | .write _ _ => false
  | .shutdownWrite => false
  | _ => true

namespace TcpConnection

/-- The messages that `send` was called with while the connection was connected. -/
def accepted (log : List Effect) : List Bytes :=
  log.filterMap fun
    | .accepted message => some message
    | _ => none

/-- The bytes are the messages, one behind the other, each with one byte at most in front: a
failed direct write leaves a byte there. -/
def Carries (bytes : Bytes) (ms : List Bytes) : Prop :=
  ∃ blocks : List (Bytes × Bytes), blocks.map Prod.snd = ms ∧ (∀ b ∈ blocks, b.1.length ≤ 1) ∧
    bytes = blocks.flatMap fun b => b.1 ++ b.2

def HandedOver (log : List Effect) : Prop :=
  ∃ ms : List Bytes, ms.Perm (accepted log) ∧ Carries (kernelBytes log) ms

/-- Whenever `shutdownWrite` is called, everything that was accepted has been handed over, and
nothing is written afterwards. -/
def Graceful (log : List Effect) : Prop :=
  ∀ pre post, log = pre ++ .shutdownWrite :: post →
    HandedOver pre ∧ ∀ offered result, .write offered result ∉ post

theorem carries_nil : Carries [] [] := ⟨[], rfl, by simp, rfl⟩

theorem carries_snoc {bytes m : Bytes} {ms : List Bytes} (h : Carries bytes ms) (front : Bytes)
    (hfront : front.length ≤ 1) : Carries (bytes ++ (front ++ m)) (ms ++ [m]) := by
  obtain ⟨blocks, rfl, hle, rfl⟩ := h
  refine ⟨blocks ++ [(front, m)], by simp, ?_, by simp⟩
  intro b hb
  rcases List.mem_append.mp hb with hb | hb
  · exact hle b hb
  · rw [List.mem_singleton.mp hb]
    exact hfront

@[simp] theorem accepted_append (l m : List Effect) :
    accepted (l ++ m) = accepted l ++ accepted m := by
  simp [accepted]

theorem graceful_of_not_mem {log : List Effect} (h : .shutdownWrite ∉ log) : Graceful log := by
  rintro pre post rfl
  simp at h

theorem graceful_snoc {log : List Effect} {e : Effect} (h : Graceful log)
    (hshut : e = .shutdownWrite → HandedOver log)
    (hwrite : ∀ offered result, e = .write offered result → .shutdownWrite ∉ log) :
    Graceful (log ++ [e]) := by
  intro pre post heq
  rcases List.eq_nil_or_concat post with rfl | ⟨post, e', rfl⟩
  · obtain ⟨rfl, he⟩ := List.append_inj' heq rfl
    exact ⟨hshut (List.singleton_inj.mp he), by simp⟩
  · rw [List.concat_eq_append, ← List.cons_append, ← List.append_assoc] at heq
    obtain ⟨rfl, he⟩ := List.append_inj' heq rfl
    obtain rfl := List.singleton_inj.mp he
    obtain ⟨hpre, hpost⟩ := h pre post rfl
    refine ⟨hpre, fun offered result hmem => ?_⟩
    rw [List.concat_eq_append] at hmem
    rcases List.mem_append.mp hmem with hmem | hmem
    · exact hpost offered result hmem
    · exact hwrite offered result (List.mem_singleton.mp hmem).symm (by simp)

/-- What is kept while the connection is open: `pending` are the accepted messages that
`sendInLoop` has not been called with. -/
structure Handing (c : TcpConnection) (pending : List Bytes) : Prop where
  state : c.state = .kConnected ∨ c.state = .kDisconnecting
  writing : c.channel.isWriting = false → c.outputBuffer.peek = []
  carries : Carries c.stream (messages c.log)
  balance : (accepted c.log).Perm (messages c.log ++ pending)
  shut : .shutdownWrite ∈ c.log →
    c.state = .kDisconnecting ∧ pending = [] ∧ c.channel.isWriting = false
  graceful : Graceful c.log

variable {c : TcpConnection} {p q : List Bytes}

theorem Handing.state_ne (h : Handing c p) : c.state ≠ .kDisconnected := by
  rcases h.state with h | h <;> simp [h]

theorem Handing.perm (h : Handing c p) (hpq : p.Perm q) : Handing c q :=
  { h with
    balance := h.balance.trans (hpq.append_left _)
    shut := fun hmem =>
      have ⟨hstate, hp, hw⟩ := h.shut hmem
      ⟨hstate, List.nil_perm.mp (hp ▸ hpq), hw⟩ }

theorem Handing.handedOver (h : Handing c []) (hw : c.channel.isWriting = false) :
    HandedOver c.log := by
  refine ⟨messages c.log, ?_, ?_⟩
  · simpa using h.balance.symm
  · have hcarries := h.carries
    rwa [stream, h.writing hw, List.append_nil] at hcarries

theorem messages_plain {e : Effect} (he : e.isPlain = true) : messages [e] = [] := by
  cases e <;> first | rfl | cases he

theorem accepted_plain {e : Effect} (he : e.isPlain = true) : accepted [e] = [] := by
  cases e <;> first | rfl | cases he

theorem taken_plain {e : Effect} (he : e.isPlain = true) : taken e = [] := by
  cases e <;> first | rfl | cases he

theorem Handing.plain (h : Handing c p) {e : Effect} (he : e.isPlain = true) :
    Handing (c.record e) p where
  state := h.state
  writing := h.writing
  carries := by
    simpa [stream, record, kernelBytes, taken_plain he, messages_plain he] using h.carries
  balance := by simpa [record, accepted_plain he, messages_plain he] using h.balance
  shut hmem := by
    rcases List.mem_append.mp hmem with hmem | hmem
    · exact h.shut hmem
    · rw [← List.mem_singleton.mp hmem] at he
      cases he
  graceful := by
    apply graceful_snoc h.graceful
    · rintro rfl
      cases he
    · rintro offered result rfl
      cases he

theorem Handing.congr {c' : TcpConnection} (h : Handing c p) (hstate : c'.state = c.state)
    (hwriting : c'.channel.isWriting = c.channel.isWriting)
    (hpeek : c'.outputBuffer.peek = c.outputBuffer.peek) (hlog : c'.log = c.log) :
    Handing c' p where
  state := hstate ▸ h.state
  writing := by rw [hwriting, hpeek]; exact h.writing
  carries := by rw [stream, hlog, hpeek]; exact h.carries
  balance := hlog ▸ h.balance
  shut := by rw [hlog, hstate, hwriting]; exact h.shut
  graceful := hlog ▸ h.graceful

theorem Handing.disconnecting (h : Handing c p) : Handing (c.setState .kDisconnecting) p :=
  { h with
    state := .inr rfl
    shut := fun hmem => ⟨rfl, (h.shut hmem).2⟩ }

theorem Handing.accept (h : Handing c p) (hc : c.state = .kConnected) (m : Bytes) :
    Handing (c.record (.accepted m)) (m :: p) := by
  have hshut : .shutdownWrite ∉ c.log := fun hmem => by simpa [hc] using (h.shut hmem).1
  have hshut' : .shutdownWrite ∉ (c.record (.accepted m)).log := by simpa [record] using hshut
  exact
    { state := h.state
      writing := h.writing
      carries := by simpa [stream, record, kernelBytes, taken, messages] using h.carries
      balance := by
        have hbalance := (h.balance.append_right [m]).trans (List.perm_append_singleton m _)
        simpa [record, accepted, messages] using hbalance.trans List.perm_middle.symm
      shut := fun hmem => absurd hmem hshut'
      graceful := graceful_of_not_mem hshut' }

theorem Handing.sendInLoop {data : Data} {result : Except Errno Nat}
    (h : Handing c (data.bytes :: p)) (hfit : Fits data.bytes.length result) :
    Handing (c.sendInLoop data result) p := by
  have hsends := sendInLoop_spec h.state_ne hfit
  have hstream := sendInLoop_stream h.state_ne hfit
  have hmessages : messages (c.sendInLoop data result).log = messages c.log ++ [data.bytes] :=
    (c.sendInLoop_passes data result).messages
  have haccepted : accepted (c.sendInLoop data result).log = accepted c.log := by
    rw [hsends.log]
    split <;> simp [accepted]
  have hshut : .shutdownWrite ∉ (c.sendInLoop data result).log := by
    have hbefore : .shutdownWrite ∉ c.log := fun hmem => by simpa using (h.shut hmem).2.1
    rw [hsends.log]
    split <;> simpa using hbefore
  refine ⟨hsends.state ▸ h.state, ?_, ?_, ?_, fun hmem => absurd hmem hshut,
    graceful_of_not_mem hshut⟩
  · -- `enableWriting` is called unless everything is written
    intro hw
    have hchannel := hsends.channel
    have hpeek := hsends.peek
    generalize (if c.writesDirectly then unwritten data result else data.bytes) = rest
      at hchannel hpeek
    rw [hchannel] at hw
    split at hw
    · next hrest => rw [hpeek, h.writing hw, hrest.resolve_left (by simp [hw]), List.append_nil]
    · simp at hw
  · rw [hstream, hmessages]
    split
    · exact carries_snoc h.carries [data.before] (Nat.le_refl _)
    · exact carries_snoc h.carries [] (Nat.zero_le _)
  · rw [haccepted, hmessages, List.append_assoc]
    exact h.balance

theorem Handing.shutdownWrite (h : Handing c []) (hc : c.state = .kDisconnecting)
    (hw : c.channel.isWriting = false) : Handing (c.record .shutdownWrite) [] where
  state := h.state
  writing := h.writing
  carries := by simpa [stream, record, kernelBytes, taken, messages] using h.carries
  balance := by simpa [record, accepted, messages] using h.balance
  shut _ := ⟨hc, rfl, hw⟩
  graceful := graceful_snoc h.graceful (fun _ => h.handedOver hw) (by simp)

theorem Handing.shutdownInLoop (h : Handing c p) (hc : c.state = .kDisconnecting)
    (hp : c.channel.isWriting = false → p = []) : Handing c.shutdownInLoop p := by
  rw [shutdownInLoop_spec]
  cases hw : c.channel.isWriting with
  | true => exact h
  | false =>
    obtain rfl := hp hw
    exact h.shutdownWrite hc hw

theorem Handing.write {c' : TcpConnection} (h : Handing c p) (hw : c.channel.isWriting = true)
    {offered : Bytes} {result : Except Errno Nat} (hstate : c'.state = c.state)
    (hchannel : c'.channel = c.channel) (hlog : c'.log = c.log ++ [.write offered result])
    (hstream : c'.stream = c.stream) : Handing c' p := by
  have hshut : .shutdownWrite ∉ c'.log := by
    have hbefore : .shutdownWrite ∉ c.log := fun hmem => by simpa [hw] using (h.shut hmem).2.2
    simpa [hlog] using hbefore
  have hmessages : messages c'.log = messages c.log := by simp [hlog, messages]
  have haccepted : accepted c'.log = accepted c.log := by simp [hlog, accepted]
  exact
    { state := hstate ▸ h.state
      writing := fun hw' => by rw [hchannel, hw] at hw'; cases hw'
      carries := by rw [hstream, hmessages]; exact h.carries
      balance := by rw [haccepted, hmessages]; exact h.balance
      shut := fun hmem => absurd hmem hshut
      graceful := graceful_of_not_mem hshut }

def writesAll (c : TcpConnection) (result : Except Errno Nat) : Bool :=
  c.channel.isWriting && 0 < result.toOption.getD 0 &&
    c.outputBuffer.readableBytes ≤ result.toOption.getD 0

theorem Handing.writeDone (h : Handing c p) (hpeek : c.outputBuffer.peek = [])
    (hshut : .shutdownWrite ∉ c.log) (hp : c.state = .kDisconnecting → p = []) :
    Handing c.writeDone p := by
  obtain ⟨l, -, hdone⟩ := c.writeDone_spec
  have hd : Handing { c with channel := c.channel.disableWriting, loop := l } p :=
    { h with
      writing := fun _ => hpeek
      shut := fun hmem => absurd hmem hshut }
  rw [hdone]
  split
  · next hc =>
    obtain rfl := hp hc
    exact hd.shutdownWrite hc (by simp)
  · exact hd

theorem Handing.handleWrite {result : Except Errno Nat} (h : Handing c p)
    (hp : c.writesAll result = true → c.state = .kDisconnecting → p = []) :
    Handing (c.handleWrite result) p := by
  have hstream := c.handleWrite_stream result
  rcases c.handleWrite_cases result with
    ⟨-, hbody⟩ | ⟨hw, -, hbody⟩ | ⟨k, hw, -, -, hbody⟩ | ⟨k, hw, hresult, hle, hbody⟩
  · rw [hbody]
    exact h
  · rw [hbody] at hstream ⊢
    exact h.write hw rfl rfl rfl hstream
  · rw [hbody] at hstream ⊢
    exact h.write hw rfl rfl rfl hstream
  · have hwrote : Handing (c.wrote (k + 1)) p :=
      h.write hw rfl rfl rfl (c.wrote_stream (k + 1))
    rw [hbody]
    apply hwrote.writeDone
    · rw [wrote, Buffer.peek_retrieve, List.drop_eq_nil_iff, Buffer.length_peek]
      exact hle
    · intro hmem
      simpa [wrote, record, hw] using (hwrote.shut hmem).2.2
    · exact hp (by simp [writesAll, hw, hresult, hle, Except.toOption])

end TcpConnection

namespace TcpServer

def closes (s : TcpServer) : Label → Bool
  | .act io => s.actions.head?.any (Action.closes io)
  | .destroyServer => true
  | _ => false

def shutsDown (s : TcpServer) : Label → Bool
  | .act io => s.actions.head? = some (.callback .writeCallback) &&
      s.conn.writesAll io.write && s.conn.state = .kDisconnecting
  | .runFunctor _ =>
    s.conn.loop.functors.head? = some .shutdownInLoop && !s.conn.channel.isWriting
  | .shutdown => s.conn.connected && !s.conn.channel.isWriting
  | _ => false

/-- Nothing is closed, the strings of `send` are kept, and no functor of `send` waits when
`shutdownWrite` is called. -/
def inTime (s : TcpServer) (l : Label) : Bool :=
  !s.closes l && s.keepsStrings l && (!s.shutsDown l || s.sends.isEmpty)

structure Tidy (s : TcpServer) : Prop where
  waiting : ∀ f ∈ s.conn.loop.waiting, f ≠ .connectEstablished ∧ f ≠ .connectDestroyed ∧
    (f = .shutdownInLoop → s.conn.state = .kDisconnecting)
  stored : .shutdownStored ∈ s.calls → s.conn.state = .kDisconnecting
  actions : .closeCallback ∉ s.actions
  base : s.base.waiting = []

variable {s t : TcpServer} {l : Label}

theorem tidy_setConn (hs : s.Tidy) {c : TcpConnection} {as : List Action}
    (hloop : TcpConnection.QueuedCallbacks s.conn.loop c.loop)
    (hstate : s.conn.state = .kDisconnecting → c.state = .kDisconnecting)
    (has : .closeCallback ∉ as) : { s with conn := c, actions := as }.Tidy := by
  obtain ⟨fs, hwaiting, -, hfs⟩ := hloop.grows
  refine ⟨fun f hf => ?_, fun hmem => hstate (hs.stored hmem), has, hs.base⟩
  rw [hwaiting] at hf
  rcases List.mem_append.mp hf with hf | hf
  · obtain ⟨hest, hdest, hshut⟩ := hs.waiting f hf
    exact ⟨hest, hdest, fun h => hstate (hshut h)⟩
  · rcases hfs f hf with rfl | ⟨n, rfl⟩ <;> simp

theorem tidy_setLoop (hs : s.Tidy) {m : EventLoop Functor}
    (h : m.waiting ⊆ s.conn.loop.waiting) : (s.setLoop m).Tidy :=
  { hs with waiting := fun f hf => hs.waiting f (h hf) }

theorem tidy_setCalls (hs : s.Tidy) (cs : List Call)
    (h : ∀ c ∈ cs, c ∈ s.calls ∨ c ≠ .shutdownStored) :
    { s with calls := cs }.Tidy :=
  { hs with stored := fun hmem => hs.stored ((h _ hmem).resolve_right (by simp)) }

theorem act_state (s : TcpServer) {a : Action} {rest : List Action} {io : Syscalls}
    (ha : a ≠ .closeCallback) (hopen : a.closes io = false) :
    (s.act a rest io).conn.state = s.conn.state := by
  cases a with
  | callback cb =>
    cases cb with
    | closeCallback => cases hopen
    | errorCallback => rfl
    | readCallback =>
      simp only [Action.closes, decide_eq_false_iff_not] at hopen
      obtain ⟨b, hread | hread⟩ := s.conn.handleRead_open hopen
      · rw [act, hread]
      · rw [act, hread]
        rfl
    | writeCallback => exact s.conn.handleWrite_state io.write
  | closeCallback => exact absurd rfl ha
  | letGo => rfl

theorem tidy_act (hs : s.Tidy) {a : Action} {rest : List Action} {io : Syscalls}
    (ha : s.actions = a :: rest) (hopen : a.closes io = false) : (s.act a rest io).Tidy := by
  have hne : a ≠ .closeCallback := by
    rintro rfl
    exact hs.actions (by simp [ha])
  have hrest : .closeCallback ∉ rest := fun hmem => hs.actions (by simp [ha, hmem])
  rw [s.act_eq rest io hne, act_actions, hopen]
  exact tidy_setConn hs (s.act_loop rest io hne) (fun h => (s.act_state hne hopen).trans h) hrest

theorem tidy_runFunctor (hs : s.Tidy) {io : Syscalls} (h : s.enabled (.runFunctor io) = true) :
    (s.next (.runFunctor io)).Tidy := by
  obtain ⟨f, m, hnext, hfit, hrun⟩ := runFunctor_cases h
  have hwaiting := EventLoop.waiting_nextFunctor hnext
  have hm := tidy_setLoop hs (m := m) (by rw [hwaiting]; exact List.subset_cons_self _ _)
  obtain ⟨hest, hdest, -⟩ := hs.waiting f (by rw [hwaiting]; exact List.mem_cons_self)
  have hstate : ((s.setLoop m).runFunctor f io).conn.state = s.conn.state := by
    cases f with
    | connectEstablished => exact absurd rfl hest
    | connectDestroyed => exact absurd rfl hdest
    | sendInLoop source sent =>
      simp only [runFunctor, runSend]
      split
      · exact (TcpConnection.sendInLoop_passes _ _ _).state
      · rfl
    | shutdownInLoop =>
      rw [runFunctor, TcpConnection.shutdownInLoop_spec]
      split <;> rfl
    | writeCompleteCallback => rfl
    | highWaterMarkCallback n => rfl
  have hset := tidy_setConn hm ((s.setLoop m).runFunctor_loop f io hfit) (fun h => hstate.trans h)
    hm.actions
  rw [hrun, runFunctor_eq]
  exact { hset with }

theorem tidy_send (hs : s.Tidy) {buf : Data} {result : Except Errno Nat}
    (hfit : TcpConnection.Fits buf.bytes.length result) : (s.next (.send buf result)).Tidy :=
  tidy_setConn hs (s.conn.send_loop hfit) (fun h => (s.conn.send_state _ _).trans h) hs.actions

theorem tidy_beginSend (hs : s.Tidy) (source : Source) (sent : Bytes) :
    (s.beginSend source sent).Tidy := by
  rw [beginSend]
  split
  · have hcalls := tidy_setCalls hs (s.calls ++ [.send source sent]) (by
      simp +contextual [or_imp])
    exact { hcalls with }
  · exact hs

theorem tidy_advance (hs : s.Tidy) {i : Nat} {c : Call} (hc : s.calls[i]? = some c) :
    (s.advance i c).Tidy := by
  have hmem : c ∈ s.calls := List.mem_of_getElem? hc
  have herase : { s with calls := s.calls.eraseIdx i }.Tidy :=
    tidy_setCalls hs _ fun c hc => .inl (List.mem_of_mem_eraseIdx hc)
  cases c with
  | send source sent =>
    refine { herase with waiting := fun f hf => ?_ }
    simp only [advance, queueInLoop, setLoop, EventLoop.waiting_queueInLoop, List.mem_append,
      List.mem_singleton] at hf
    rcases hf with hf | rfl
    · exact hs.waiting f hf
    · simp
  | shutdown =>
    exact
      { hs with
        waiting := fun f hf => ⟨(hs.waiting f hf).1, (hs.waiting f hf).2.1, fun _ => rfl⟩
        stored := fun _ => rfl }
  | shutdownStored =>
    refine { herase with waiting := fun f hf => ?_ }
    simp only [advance, queueInLoop, setLoop, EventLoop.waiting_queueInLoop, List.mem_append,
      List.mem_singleton] at hf
    rcases hf with hf | rfl
    · exact hs.waiting f hf
    · exact ⟨by simp, by simp, fun _ => hs.stored hmem⟩

theorem step_tidy (hs : s.Tidy) (hd : s.conn.state ≠ .kDisconnected) (hopen : s.closes l = false)
    (h : step s l = some t) : t.Tidy := by
  obtain ⟨hen, rfl⟩ := step_eq_some.mp h
  cases l with
  | poll revents => exact { hs with }
  | handleEvent =>
    refine { hs with actions := ?_ }
    simp only [next]
    split <;> simp
  | act io =>
    obtain ⟨a, rest, ha, hnext⟩ := act_cases hen
    rw [hnext]
    exact tidy_act hs ha (by simpa [closes, ha] using hopen)
  | swapFunctors =>
    exact tidy_setLoop hs (by rw [waiting_swapFunctors hen]; exact List.Subset.refl _)
  | runFunctor io => exact tidy_runFunctor hs hen
  | endFunctors =>
    exact tidy_setLoop hs (by rw [waiting_endFunctors hen]; exact List.Subset.refl _)
  | send buf result => exact tidy_send hs (fits_of_send hen)
  | sendBuffer buf result =>
    rw [next_sendBuffer]
    exact tidy_send hs (fits_of_sendBuffer hen)
  | shutdown =>
    refine tidy_setConn hs (by simpa using .refl _) (fun h => ?_) hs.actions
    rwa [TcpConnection.shutdown_of_state_ne (by simp [h])]
  | callSend address =>
    obtain ⟨content, -, -, hnext⟩ := callSend_cases hen
    rw [hnext]
    exact tidy_beginSend hs _ content
  | callSendBuffer buf =>
    rw [next_callSendBuffer]
    exact tidy_beginSend hs _ buf.peek
  | callShutdown =>
    rw [next, begin]
    split
    · exact tidy_setCalls hs _ (by simp +contextual [or_imp])
    · exact hs
  | advance i =>
    obtain ⟨c, hc, hnext⟩ := advance_cases hen
    rw [hnext]
    exact tidy_advance hs hc
  | storeLost i =>
    simp only [enabled, Bool.and_eq_true, decide_eq_true_eq] at hen
    exact absurd hen.2 hd
  | baseSwap => exact { hs with base := (waiting_baseSwap hen).trans hs.base }
  | baseRun =>
    rw [baseRun_disabled hs.base] at hen
    cases hen
  | baseEnd => exact { hs with base := (waiting_baseEnd hen).trans hs.base }
  | destroyServer => cases hopen
  | hold | drop | newString _ _ | overwrite _ _ | release _ => exact { hs with }

def pending (s : TcpServer) : List Bytes := s.sends.map Prod.snd

theorem pending_setConn {c : TcpConnection}
    (h : TcpConnection.QueuedCallbacks s.conn.loop c.loop) :
    { s with conn := c }.pending = s.pending :=
  congrArg (List.map Prod.snd) (sends_congr h rfl)

theorem handing_send (hs : s.conn.Handing s.pending) {buf : Data} {result : Except Errno Nat}
    (hfit : TcpConnection.Fits buf.bytes.length result) :
    (s.conn.send buf result).Handing s.pending := by
  rw [TcpConnection.send]
  split
  · next hc => exact (hs.accept hc buf.bytes).sendInLoop hfit
  · exact hs

theorem handing_shutdown (hs : s.conn.Handing s.pending)
    (hdrained : s.shutsDown .shutdown = true → s.sends = []) :
    s.conn.shutdown.Handing s.pending := by
  rw [TcpConnection.shutdown]
  split
  · next hc =>
    apply hs.disconnecting.shutdownInLoop rfl
    intro hw
    have hw' : s.conn.channel.isWriting = false := hw
    rw [pending, hdrained (by simp [shutsDown, TcpConnection.connected, hc, hw'])]
    rfl
  · exact hs

theorem handing_beginSend (hs : s.conn.Handing s.pending) (source : Source) (sent : Bytes) :
    (s.beginSend source sent).conn.Handing (s.beginSend source sent).pending := by
  rw [beginSend]
  split
  · next hc =>
    apply (hs.accept hc sent).perm
    simp only [pending, sends, List.filterMap_append, List.map_append, ← List.append_assoc]
    exact (List.perm_append_singleton _ _).symm
  · exact hs

theorem handing_advance (hs : s.conn.Handing s.pending) (i : Nat) (c : Call) :
    (s.advance i c).conn.Handing s.pending := by
  cases c with
  | send source sent => exact hs.congr rfl rfl rfl rfl
  | shutdown => exact hs.disconnecting
  | shutdownStored => exact hs.congr rfl rfl rfl rfl

theorem handing_act (ht : s.Tidy) (hs : s.conn.Handing s.pending) {a : Action}
    {rest : List Action} {io : Syscalls} (ha : s.actions = a :: rest)
    (hopen : a.closes io = false)
    (hdrained : s.shutsDown (.act io) = true → s.sends = []) :
    (s.act a rest io).conn.Handing (s.act a rest io).pending := by
  have hne : a ≠ .closeCallback := by
    rintro rfl
    exact ht.actions (by simp [ha])
  rw [pending, sends_congr (s.act_loop rest io hne) (by rw [s.act_eq rest io hne]), ← pending]
  cases a with
  | callback cb =>
    cases cb with
    | closeCallback => cases hopen
    | errorCallback => exact hs
    | readCallback =>
      simp only [Action.closes, decide_eq_false_iff_not] at hopen
      obtain ⟨b, hread | hread⟩ := s.conn.handleRead_open hopen
      · rw [act, hread]
        exact hs.congr rfl rfl rfl rfl
      · rw [act, hread]
        have hinput : TcpConnection.Handing { s.conn with inputBuffer := b } s.pending :=
          hs.congr rfl rfl rfl rfl
        exact hinput.plain rfl
    | writeCallback =>
      apply hs.handleWrite
      intro hall hc
      rw [pending, hdrained (by simp [shutsDown, ha, hall, hc])]
      rfl
  | closeCallback => exact absurd rfl hne
  | letGo => exact hs

theorem handing_runFunctor (ht : s.Tidy) (hr : s.Reads) (hs : s.conn.Handing s.pending)
    {io : Syscalls} (h : s.enabled (.runFunctor io) = true)
    (hdrained : s.shutsDown (.runFunctor io) = true → s.sends = []) :
    (s.next (.runFunctor io)).conn.Handing (s.next (.runFunctor io)).pending := by
  obtain ⟨f, m, hnext, hfit, hrun⟩ := runFunctor_cases h
  have hwaiting := EventLoop.waiting_nextFunctor hnext
  obtain ⟨hest, hdest, hshut⟩ := ht.waiting f (by rw [hwaiting]; exact List.mem_cons_self)
  have hsends := sends_nextFunctor hnext
  have hm : (s.setLoop m).conn.Handing s.pending := hs.congr rfl rfl rfl rfl
  rw [hrun, pending, (s.setLoop m).sends_runFunctor hfit]
  cases f with
  | connectEstablished => exact absurd rfl hest
  | connectDestroyed => exact absurd rfl hdest
  | sendInLoop source sent =>
    have hread : s.readSource source = some sent :=
      hr (source, sent) (by simp [hsends, Functor.send?])
    have hread' : (s.setLoop m).readSource source = some sent := hread
    rw [pending, hsends] at hm
    simp only [runFunctor, runSend, hread']
    have hfits : TcpConnection.Fits (Data.mk io.before sent).bytes.length io.write := by
      simpa [fits, hread] using hfit
    exact hm.sendInLoop hfits
  | shutdownInLoop =>
    obtain ⟨hfunctors, -⟩ := EventLoop.nextFunctor_spec hnext
    rw [← show s.sends = (s.setLoop m).sends from hsends]
    apply hm.shutdownInLoop (hshut rfl)
    intro hw
    have hw' : s.conn.channel.isWriting = false := hw
    rw [pending, hdrained (by simp [shutsDown, hfunctors, hw'])]
    rfl
  | writeCompleteCallback =>
    rw [← show s.sends = (s.setLoop m).sends from hsends]
    exact hm.plain rfl
  | highWaterMarkCallback n =>
    rw [← show s.sends = (s.setLoop m).sends from hsends]
    simp only [runFunctor]
    split <;> exact hm.plain rfl

theorem step_handing (ht : s.Tidy) (hr : s.Reads) (hs : s.conn.Handing s.pending)
    (hin : s.inTime l = true) (h : step s l = some t) : t.conn.Handing t.pending := by
  obtain ⟨hen, rfl⟩ := step_eq_some.mp h
  simp only [inTime, Bool.and_eq_true, Bool.not_eq_true', Bool.or_eq_true, List.isEmpty_iff] at hin
  obtain ⟨⟨hopen, -⟩, hdrained⟩ := hin
  replace hdrained : s.shutsDown l = true → s.sends = [] := fun h => by simpa [h] using hdrained
  cases l with
  | poll revents => exact hs.congr rfl rfl rfl rfl
  | act io =>
    obtain ⟨a, rest, ha, hnext⟩ := act_cases hen
    rw [hnext]
    exact handing_act ht hs ha (by simpa [closes, ha] using hopen) hdrained
  | swapFunctors =>
    rw [next, pending, sends, setLoop, waiting_swapFunctors hen]
    exact hs.congr rfl rfl rfl rfl
  | runFunctor io => exact handing_runFunctor ht hr hs hen hdrained
  | endFunctors =>
    rw [next, pending, sends, setLoop, waiting_endFunctors hen]
    exact hs.congr rfl rfl rfl rfl
  | send buf result =>
    have hfit := fits_of_send hen
    rw [next, pending_setConn (s.conn.send_loop hfit)]
    exact handing_send hs hfit
  | sendBuffer buf result =>
    have hfit := fits_of_sendBuffer hen
    rw [next_sendBuffer, next, pending_setConn (s.conn.send_loop hfit)]
    exact handing_send hs hfit
  | shutdown =>
    rw [next, pending_setConn (by simpa using .refl _)]
    exact handing_shutdown hs hdrained
  | callSend address =>
    obtain ⟨content, -, -, hnext⟩ := callSend_cases hen
    rw [hnext]
    exact handing_beginSend hs _ content
  | callSendBuffer buf =>
    rw [next_callSendBuffer]
    exact handing_beginSend hs _ buf.peek
  | callShutdown =>
    rw [next, pending, sends_beginShutdown, begin]
    split <;> exact hs
  | advance i =>
    obtain ⟨c, hc, hnext⟩ := advance_cases hen
    rw [hnext]
    exact (handing_advance hs i c).perm ((sends_advance hc).map Prod.snd).symm
  | storeLost i =>
    simp only [enabled, Bool.and_eq_true, decide_eq_true_eq] at hen
    exact absurd hen.2 hs.state_ne
  | baseRun =>
    rw [baseRun_disabled ht.base] at hen
    cases hen
  | destroyServer => cases hopen
  | _ => exact hs

structure Serving (s : TcpServer) : Prop where
  tidy : s.Tidy
  reads : s.Reads
  handing : s.conn.Handing s.pending

theorem serving_of_started (hs : s.Started) (halive : s.alive = true) : s.Serving := by
  have hwaiting : s.conn.loop.waiting = [] := by simp [hs.waiting, destroys, halive]
  have hsends : s.sends = [] := by simp [sends, hwaiting, hs.calls]
  have hlog : .shutdownWrite ∉ s.conn.log := by simp [hs.log]
  refine ⟨?_, by simp [Reads, hsends], ?_⟩
  · exact ⟨by simp [hwaiting], by simp [hs.calls], by simp [hs.actions], hs.base⟩
  · exact
      { state := .inl hs.state
        writing := fun _ => hs.peek
        carries := by
          simpa [TcpConnection.stream, hs.peek, hs.log, TcpConnection.kernelBytes,
            TcpConnection.taken, TcpConnection.messages] using TcpConnection.carries_nil
        balance := by
          simp [hs.log, pending, hsends, TcpConnection.accepted, TcpConnection.messages]
        shut := fun hmem => absurd hmem hlog
        graceful := TcpConnection.graceful_of_not_mem hlog }

theorem step_serving (hs : s.Serving) (hin : s.inTime l = true) (h : step s l = some t) :
    t.Serving := by
  have hopen := hin
  simp only [inTime, Bool.and_eq_true, Bool.not_eq_true'] at hopen
  exact ⟨step_tidy hs.tidy hs.handing.state_ne hopen.1.1 h, step_reads hs.reads hopen.1.2 h,
    step_handing hs.tidy hs.reads hs.handing hin h⟩

theorem step_alive (hs : s.alive = true) (hin : s.inTime l = true) (h : step s l = some t) :
    t.alive = true := by
  obtain ⟨-, rfl⟩ := step_eq_some.mp h
  rw [alive_next, hs]
  rintro rfl
  simp [inTime, closes] at hin

/-- The shutdown is graceful if no functor of `send` waits when `shutdownWrite` is called, and
the strings that were sent are kept until then. -/
theorem graceful_of_inTime {sameLoop writeCompleteCallback : Bool} {ls : List Label}
    (hin : Along step (fun s l => s.inTime l = true)
      (newConnection sameLoop writeCompleteCallback) ls)
    (h : run step (newConnection sameLoop writeCompleteCallback) ls = some s) :
    TcpConnection.Graceful s.conn.log := by
  have halive : s.alive = true :=
    invariant_along (fun _ _ _ hs hin h => step_alive hs hin h) (by cases sameLoop <;> rfl) hin h
  have hserving : s.Connecting ∨ (s.alive = true → s.Serving) := by
    apply connecting_or (fun _ => serving_of_started) _ hin h
    intro s l t hs hl ht halive
    refine step_serving (hs ?_) hl ht
    obtain ⟨-, rfl⟩ := step_eq_some.mp ht
    rwa [alive_next] at halive
    rintro rfl
    simp [inTime, closes] at hl
  rcases hserving with hs | hs
  · apply TcpConnection.graceful_of_not_mem
    simp [hs.log]
  · exact (hs halive).handing.graceful

/-- The second byte of another thread's message goes out after `shutdown`. -/
theorem graceful_ab :
    ∃ t, run step (newConnection true false)
        [.newString 0 (ascii "ab"), .hold, .callSend 0, .advance 0, .swapFunctors,
          .runFunctor ⟨.ok [], .ok 1, 0⟩, .endFunctors, .shutdown, .poll EPOLLOUT, .handleEvent,
          .act ⟨.ok [], .ok 1, 0⟩] = some t ∧
      .shutdownWrite ∈ t.conn.log ∧ TcpConnection.Graceful t.conn.log := by
  have hrun : (run step (newConnection true false)
      [.newString 0 (ascii "ab"), .hold, .callSend 0, .advance 0, .swapFunctors,
        .runFunctor ⟨.ok [], .ok 1, 0⟩, .endFunctors, .shutdown, .poll EPOLLOUT, .handleEvent,
        .act ⟨.ok [], .ok 1, 0⟩]).any (fun t => .shutdownWrite ∈ t.conn.log) = true := by
    decide +kernel
  obtain ⟨t, ht, hshut⟩ := (Option.any_eq_true _ _).mp hrun
  exact ⟨t, ht, of_decide_eq_true hshut, graceful_of_inTime (by decide +kernel) ht⟩

/-- The loop thread calls `shutdown` while a functor of `send` waits. -/
theorem not_graceful_waiting :
    ∃ t, run step (newConnection true false)
        [.newString 0 (ascii "ab"), .hold, .callSend 0, .advance 0, .shutdown, .swapFunctors,
          .runFunctor ⟨.ok [], .ok 2, 0⟩] = some t ∧ ¬ TcpConnection.Graceful t.conn.log := by
  have hrun : (run step (newConnection true false)
      [.newString 0 (ascii "ab"), .hold, .callSend 0, .advance 0, .shutdown, .swapFunctors,
        .runFunctor ⟨.ok [], .ok 2, 0⟩]).any (fun t => t.conn.log =
          [.connectionCallback true, .accepted (ascii "ab")] ++ .shutdownWrite ::
            [.sendInLoop (ascii "ab"), .write (ascii "ab") (.ok 2)]) = true := by
    decide
  obtain ⟨t, ht, hlog⟩ := (Option.any_eq_true _ _).mp hrun
  refine ⟨t, ht, fun hgraceful => ?_⟩
  exact (hgraceful _ _ (of_decide_eq_true hlog)).2 (ascii "ab") (.ok 2) (by simp)

end TcpServer

end WebServer.Mymuduo
