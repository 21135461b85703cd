import WebServer.Mymuduo.ServerRuns
import WebServer.Mymuduo.StateOrder

namespace WebServer.Mymuduo

open WebServer.Lib

namespace Channel

def Tracked (c : Channel) : Prop := c.index ≠ .kAdded → c.interest = none

theorem tracked_updateChannel (c : Channel) : c.updateChannel.Tracked := by
  intro h
  cases hindex : c.index with
  | kNew => simp [updateChannel, hindex] at h
  | kDeleted => simp [updateChannel, hindex] at h
  | kAdded =>
    rw [updateChannel_kAdded hindex] at h ⊢
    split
    · rfl
    · next hne =>
      rw [if_neg hne] at h
      exact absurd hindex h

theorem interest_remove_of_tracked {c : Channel} (h : c.Tracked) : c.remove.interest = none := by
  by_cases hindex : c.index = .kAdded
  · simp [remove, removeChannel, hindex]
  · exact interest_remove (h hindex)

end Channel

namespace TcpServer

variable {s t : TcpServer} {l : Label}

def Closing (s : TcpServer) : Prop :=
  s.inMap = false ∨ s.base.waiting ≠ [] ∨ .closeCallback ∈ s.actions

def Anchored (s : TcpServer) : Prop :=
  s.inMap = true ∨ s.base.waiting ≠ [] ∨ .closeCallback ∈ s.actions ∨
    .connectDestroyed ∈ s.conn.loop.waiting

structure Unregistered (s : TcpServer) : Prop where
  state : s.conn.state = .kDisconnected
  index : s.conn.channel.index = .kNew
  interest : s.conn.channel.interest = none
  active : s.active = false
  actions : s.actions = []

structure Registered (s : TcpServer) : Prop where
  established : s.Established
  removed : .connectDestroyed ∈ s.conn.loop.waiting → s.inMap = false
  closing : s.Closing → s.conn.state = .kDisconnected
  events : s.conn.state = .kDisconnected → s.conn.channel.events = 0
  tracked : s.conn.channel.Tracked
  dispatching : s.active = true → s.actions = []
  calling : s.conn.loop.callingPendingFunctors = true → s.active = false ∧ s.actions = []
  anchored : s.Anchored ∨ s.Unregistered

structure SameOwners (s t : TcpServer) : Prop where
  inMap : t.inMap = s.inMap
  base : t.base.waiting = s.base.waiting
  waiting : t.conn.loop.waiting = s.conn.loop.waiting

inductive OwnerStep (s : TcpServer) (l : Label) (t : TcpServer) : Prop where
  | service (h : Service s l t)
  | poll (same : SameOwners s t) (idle : s.idle = true)
      (interest : s.conn.channel.interest.isSome = true) (actions : t.actions = s.actions)
  | handleEvent (same : SameOwners s t) (dispatched : s.active = true) (active : t.active = false)
      (actions : .closeCallback ∉ t.actions)
  | handleClose (same : SameOwners s t) (rest : List Action) (a : Action)
      (actions : s.actions = a :: rest) (closes : t.actions = .closeCallback :: rest)
      (state : t.conn.state = .kDisconnected) (active : t.active = s.active)
  | closeCallback (actions : s.actions = .closeCallback :: t.actions)
      (owned : t.base.waiting ≠ [] ∨ .connectDestroyed ∈ t.conn.loop.waiting)
      (active : t.active = s.active) (inMap : t.inMap = s.inMap ∨ t.inMap = false)
  | connectEstablished (waiting : .connectEstablished ∈ s.conn.loop.waiting)
  | connectDestroyed (runs : s.runsConnectDestroyed l = true) (inMap : t.inMap = s.inMap)
      (base : t.base.waiting = s.base.waiting) (active : t.active = s.active)
      (actions : t.actions = s.actions)
  | baseRun (base : s.base.waiting ≠ []) (owned : .connectDestroyed ∈ t.conn.loop.waiting)
      (active : t.active = s.active) (actions : t.actions = s.actions) (inMap : t.inMap = false)

theorem ownerStep_act {io : Syscalls} (h : s.enabled (.act io) = true) :
    OwnerStep s (.act io) (s.next (.act io)) := by
  obtain ⟨a, rest, ha, hact⟩ := act_cases h
  by_cases hcloses : a.closes io = true
  · obtain ⟨b, heq⟩ := s.act_closes rest hcloses
    rw [hact, heq]
    exact .handleClose ⟨rfl, rfl, rfl⟩ rest a ha rfl rfl rfl
  by_cases hclose : a = .closeCallback
  · subst hclose
    rw [hact]
    simp only [act, removeConenction]
    split
    · exact .closeCallback ha (.inr (by simp [removeConnectionInLoop, queueInLoop, setLoop])) rfl
        (.inr rfl)
    · exact .closeCallback ha (.inl (by simp)) rfl (.inl rfl)
  · exact .service (service_next h (by simp [touchesLifecycle, ha, hcloses, hclose]))

theorem ownerStep_runFunctor {io : Syscalls} (h : s.enabled (.runFunctor io) = true) :
    OwnerStep s (.runFunctor io) (s.next (.runFunctor io)) := by
  obtain ⟨f, m, hnext, -, hrun⟩ := runFunctor_cases h
  have hhead : s.conn.loop.functors.head? = some f := by
    rw [(EventLoop.nextFunctor_spec hnext).1]
    rfl
  have hwaiting : f ∈ s.conn.loop.waiting := by
    rw [EventLoop.waiting_nextFunctor hnext]
    exact List.mem_cons_self
  cases f with
  | connectEstablished => exact .connectEstablished hwaiting
  | connectDestroyed =>
    rw [hrun]
    exact .connectDestroyed (by simp [runsConnectDestroyed, hhead]) rfl rfl rfl rfl
  | _ => exact .service (service_next h (by simp [touchesLifecycle, hhead, Functor.isLifecycle]))

theorem ownerStep_baseRun (h : s.enabled .baseRun = true) :
    OwnerStep s .baseRun (s.next .baseRun) := by
  obtain ⟨m, hnext, hrun⟩ := baseRun_cases h
  have hne : s.base.waiting ≠ [] := by
    rw [EventLoop.waiting_nextFunctor hnext]
    exact List.cons_ne_nil _ _
  rw [hrun]
  exact .baseRun hne (by simp [removeConnectionInLoop, queueInLoop, setLoop]) rfl rfl rfl

theorem closeCallback_notMem_handleEvent (s : TcpServer) :
    .closeCallback ∉ (s.next .handleEvent).actions := by
  simp only [next]
  split
  · exact List.not_mem_nil
  · exact s.closeCallback_notMem_events

theorem ownerStep_of_step (hl : l ≠ .destroyServer) (h : step s l = some t) : OwnerStep s l t := by
  obtain ⟨hen, rfl⟩ := step_eq_some.mp h
  cases l with
  | poll revents =>
    simp only [enabled, Bool.and_eq_true] at hen
    exact .poll ⟨rfl, rfl, rfl⟩ hen.1 hen.2 rfl
  | handleEvent => exact .handleEvent ⟨rfl, rfl, rfl⟩ hen rfl s.closeCallback_notMem_handleEvent
  | act io => exact ownerStep_act hen
  | runFunctor io => exact ownerStep_runFunctor hen
  | baseRun => exact ownerStep_baseRun hen
  | destroyServer => exact absurd rfl hl
  | _ => exact .service (service_next hen rfl)

theorem closing_of_same (hinMap : t.inMap = s.inMap) (hbase : t.base.waiting = s.base.waiting)
    (hactions : .closeCallback ∈ t.actions → .closeCallback ∈ s.actions) (h : t.Closing) :
    s.Closing := by
  rcases h with h | h | h
  · exact .inl (hinMap ▸ h)
  · exact .inr (.inl (hbase ▸ h))
  · exact .inr (.inr (hactions h))

theorem Registered.closing_of_step (hs : s.Registered) (hl : l ≠ .destroyServer)
    (h : step s l = some t) (hc : t.Closing) : s.Closing ∨ t.conn.state = .kDisconnected := by
  cases ownerStep_of_step hl h with
  | service hservice =>
    exact .inl (closing_of_same hservice.inMap hservice.base (fun hmem => hservice.suffix.mem hmem)
      hc)
  | poll hsame _ _ hactions =>
    exact .inl (closing_of_same hsame.inMap hsame.base (fun hmem => hactions ▸ hmem) hc)
  | handleEvent hsame _ _ hactions =>
    exact .inl (closing_of_same hsame.inMap hsame.base (fun hmem => absurd hmem hactions) hc)
  | handleClose _ _ _ _ _ hstate _ => exact .inr hstate
  | closeCallback hactions _ _ _ =>
    exact .inl (.inr (.inr (hactions ▸ List.mem_cons_self)))
  | connectEstablished hwaiting => exact absurd hwaiting hs.established.once
  | connectDestroyed _ hinMap hbase _ hactions =>
    exact .inl (closing_of_same hinMap hbase (fun hmem => hactions ▸ hmem) hc)
  | baseRun hbase _ _ _ _ => exact .inl (.inr (.inl hbase))

theorem anchored_of_same (h : s.Anchored) (hinMap : t.inMap = s.inMap)
    (hbase : t.base.waiting = s.base.waiting)
    (hactions : .closeCallback ∈ s.actions → .closeCallback ∈ t.actions)
    (hwaiting : .connectDestroyed ∈ s.conn.loop.waiting →
      .connectDestroyed ∈ t.conn.loop.waiting) : t.Anchored := by
  rcases h with h | h | h | h
  · exact .inl (hinMap ▸ h)
  · exact .inr (.inl (hbase ▸ h))
  · exact .inr (.inr (.inl (hactions h)))
  · exact .inr (.inr (.inr (hwaiting h)))

theorem closeCallback_mem_service (h : Service s l t) (hmem : .closeCallback ∈ s.actions) :
    .closeCallback ∈ t.actions := by
  rcases h.actions with heq | ⟨a, heq, hne⟩
  · exact heq ▸ hmem
  · rw [heq] at hmem
    exact List.mem_of_ne_of_mem (Ne.symm hne) hmem

theorem connectDestroyed_mem_service (h : Service s l t)
    (hmem : .connectDestroyed ∈ s.conn.loop.waiting) :
    .connectDestroyed ∈ t.conn.loop.waiting := by
  rw [← List.count_pos_iff] at hmem ⊢
  rwa [h.conn.waiting _ rfl]

theorem Registered.anchored_of_step (hs : s.Registered) (ha : s.Anchored)
    (hl : l ≠ .destroyServer) (h : step s l = some t) :
    t.Anchored ∨ s.runsConnectDestroyed l = true := by
  cases ownerStep_of_step hl h with
  | service hservice =>
    exact .inl (anchored_of_same ha hservice.inMap hservice.base
      (closeCallback_mem_service hservice) (connectDestroyed_mem_service hservice))
  | poll hsame _ _ hactions =>
    exact .inl (anchored_of_same ha hsame.inMap hsame.base (fun hmem => hactions ▸ hmem)
      fun hmem => hsame.waiting ▸ hmem)
  | handleEvent hsame hdispatched _ _ =>
    refine .inl (anchored_of_same ha hsame.inMap hsame.base (fun hmem => ?_)
      fun hmem => hsame.waiting ▸ hmem)
    rw [hs.dispatching hdispatched] at hmem
    cases hmem
  | handleClose _ _ _ _ hcloses _ _ =>
    exact .inl (.inr (.inr (.inl (hcloses ▸ List.mem_cons_self))))
  | closeCallback _ howned _ _ => exact .inl (.inr (howned.imp_right .inr))
  | connectEstablished hwaiting => exact absurd hwaiting hs.established.once
  | connectDestroyed hruns _ _ _ _ => exact .inr hruns
  | baseRun _ howned _ _ _ => exact .inl (.inr (.inr (.inr howned)))

theorem Registered.dispatching_of_step (hs : s.Registered) (hl : l ≠ .destroyServer)
    (h : step s l = some t) (hactive : t.active = true) : t.actions = [] := by
  cases ownerStep_of_step hl h with
  | service hservice =>
    have hnil := hs.dispatching (hservice.active ▸ hactive)
    exact List.suffix_nil.mp (hnil ▸ hservice.suffix)
  | poll _ hidle _ hactions =>
    simp only [idle, Bool.and_eq_true, List.isEmpty_iff] at hidle
    rw [hactions, hidle.1.1]
  | handleEvent _ _ hdone _ => simp [hdone] at hactive
  | handleClose _ _ _ hactions _ _ hsame =>
    simp [hs.dispatching (hsame ▸ hactive)] at hactions
  | closeCallback hactions _ hsame _ => simp [hs.dispatching (hsame ▸ hactive)] at hactions
  | connectEstablished hwaiting => exact absurd hwaiting hs.established.once
  | connectDestroyed _ _ _ hsame hactions | baseRun _ _ hsame hactions _ =>
    rw [hactions, hs.dispatching (hsame ▸ hactive)]

theorem calling_of_step (h : step s l = some t)
    (hcalling : t.conn.loop.callingPendingFunctors = true) :
    s.conn.loop.callingPendingFunctors = true ∨ l = .swapFunctors := by
  obtain ⟨hen, rfl⟩ := step_eq_some.mp h
  cases l with
  | swapFunctors => exact .inr rfl
  | endFunctors => cases hcalling
  | act io => exact .inl ((local_act hen).loop.calling ▸ hcalling)
  | runFunctor io =>
    obtain ⟨f, m, hnext, hfit, hrun⟩ := runFunctor_cases hen
    have hloop := (local_runFunctor (s := s.setLoop m) hfit).loop.calling
    rw [hrun, hloop] at hcalling
    exact .inl ((EventLoop.nextFunctor_spec hnext).2.2.2 ▸ hcalling)
  | baseRun =>
    obtain ⟨m, -, hrun⟩ := baseRun_cases hen
    have hloop := (local_removeConnectionInLoop { s with base := m }).loop.calling
    rw [hrun, hloop] at hcalling
    exact .inl hcalling
  | destroyServer => exact .inl ((Server.local_destroy s).loop.calling ▸ hcalling)
  | poll _ | handleEvent | baseSwap | baseEnd | newString _ _ | overwrite _ _ | release _ =>
    exact .inl hcalling
  | _ => exact .inl ((local_user rfl hen).1.loop.calling ▸ hcalling)

theorem Registered.calling_step (hs : s.Registered) (hl : l ≠ .destroyServer)
    (h : step s l = some t) (hcalling : t.conn.loop.callingPendingFunctors = true) :
    t.active = false ∧ t.actions = [] := by
  rcases calling_of_step h hcalling with hcalling | rfl
  · obtain ⟨hactive, hactions⟩ := hs.calling hcalling
    cases ownerStep_of_step hl h with
    | service hservice =>
      exact ⟨hservice.active.trans hactive, List.suffix_nil.mp (hactions ▸ hservice.suffix)⟩
    | poll _ hidle _ _ => simp [idle, hcalling] at hidle
    | handleEvent _ hdispatched _ _ => simp [hactive] at hdispatched
    | handleClose _ _ _ hne _ _ _ => simp [hactions] at hne
    | closeCallback hne _ _ _ => simp [hactions] at hne
    | connectEstablished hwaiting => exact absurd hwaiting hs.established.once
    | connectDestroyed _ _ _ hsame heq | baseRun _ _ hsame heq _ =>
      exact ⟨hsame.trans hactive, heq.trans hactions⟩
  · obtain ⟨hidle, rfl⟩ := step_eq_some.mp h
    simp only [enabled, idle, Bool.and_eq_true, Bool.not_eq_true', List.isEmpty_iff] at hidle
    exact ⟨hidle.1.2, hidle.1.1⟩

theorem Registered.state_of_runs (hs : s.Registered) (hl : l ≠ .destroyServer)
    (hruns : s.runsConnectDestroyed l = true) : s.conn.state = .kDisconnected := by
  cases l with
  | runFunctor io =>
    have hmem : .connectDestroyed ∈ s.conn.loop.functors :=
      List.mem_of_head? (of_decide_eq_true hruns)
    exact hs.closing (.inl (hs.removed (List.mem_append_left _ hmem)))
  | destroyServer => exact absurd rfl hl
  | _ => cases hruns

structure Calm (s : TcpServer) (l : Label) : Prop where
  alive : l ≠ .destroyServer
  notLate : s.storesLate l = false

theorem Registered.state_step (hs : s.Registered) (hl : s.storesLate l = false)
    (h : step s l = some t) (hstate : s.conn.state = .kDisconnected) :
    t.conn.state = .kDisconnected := by
  have hforward := (hs.established.forward_iff h).mpr hl
  rw [Forward, hstate] at hforward
  cases heq : t.conn.state with
  | kDisconnected => rfl
  | _ => simp [heq, StateE.rank] at hforward

theorem Registered.closing_step (hs : s.Registered) (hl : s.Calm l) (h : step s l = some t)
    (hc : t.Closing) : t.conn.state = .kDisconnected := by
  rcases hs.closing_of_step hl.alive h hc with hc | hstate
  · exact hs.state_step hl.notLate h (hs.closing hc)
  · exact hstate

theorem channel_of_closed (hs : s.Registered) (h : step s l = some t)
    (hstate : s.conn.state = .kDisconnected) :
    t.conn.channel = s.conn.channel ∨ (∃ revents, l = .poll revents ∧
      t.conn.channel = { s.conn.channel with revents := revents }) ∨
    s.runsConnectDestroyed l = true ∧ t.conn.channel = s.conn.channel.remove ∨
    (∃ io, l = .act io ∧ t.conn.channel = s.conn.channel.disableAll) := by
  cases connStep_of_step h with
  | works hworks _ =>
    rcases hworks.channel with heq | ⟨hne, -⟩ | ⟨hwriting, -⟩
    · exact .inl heq
    · exact absurd hstate hne
    · simp [Channel.isWriting, hs.events hstate] at hwriting
  | poll revents hlabel _ heq _ => exact .inr (.inl ⟨revents, hlabel, heq⟩)
  | connectEstablished hwaiting => exact absurd hwaiting hs.established.once
  | connectDestroyed hruns _ heq _ =>
    have hne : s.conn.state ≠ .kConnected := by simp [hstate]
    exact .inr (.inr (.inl
      ⟨hruns, heq.trans (TcpConnection.connectDestroyed_of_state_ne hne).2⟩))
  | handleClose io hlabel _ heq _ => exact .inr (.inr (.inr ⟨io, hlabel, heq⟩))
  | store i hlabel hcall _ heq _ => exact .inl heq

theorem Registered.events_step (hs : s.Registered) (hl : s.Calm l) (h : step s l = some t)
    (hstate : t.conn.state = .kDisconnected) : t.conn.channel.events = 0 := by
  by_cases hclosed : s.conn.state = .kDisconnected
  · have hevents := hs.events hclosed
    rcases channel_of_closed hs h hclosed with
      heq | ⟨revents, -, heq⟩ | ⟨-, heq⟩ | ⟨io, -, heq⟩
    · rw [heq, hevents]
    · rw [heq, hevents]
    · rw [heq, Channel.remove_events, hevents]
    · rw [heq, Channel.disableAll_events]
  · cases connStep_of_step h with
    | works hworks _ =>
      rcases hworks.state with heq | ⟨-, heq⟩
      · exact absurd (heq ▸ hstate) hclosed
      · simp [heq] at hstate
    | poll _ _ heq _ _ => exact absurd (heq ▸ hstate) hclosed
    | connectEstablished hwaiting => exact absurd hwaiting hs.established.once
    | connectDestroyed hruns _ _ _ => exact absurd (hs.state_of_runs hl.alive hruns) hclosed
    | handleClose _ _ _ heq _ => rw [heq, Channel.disableAll_events]
    | store _ _ _ heq _ _ => simp [heq] at hstate

theorem Registered.tracked_step (hs : s.Registered) (hl : s.Calm l) (h : step s l = some t) :
    t.conn.channel.Tracked := by
  cases connStep_of_step h with
  | works hworks _ =>
    rcases hworks.channel with heq | ⟨-, heq⟩ | ⟨-, heq⟩
    · exact heq ▸ hs.tracked
    · exact heq ▸ Channel.tracked_updateChannel _
    · exact heq ▸ Channel.tracked_updateChannel _
  | poll revents _ _ heq _ => exact heq ▸ hs.tracked
  | connectEstablished hwaiting => exact absurd hwaiting hs.established.once
  | connectDestroyed hruns _ heq _ =>
    have hne : s.conn.state ≠ .kConnected := by simp [hs.state_of_runs hl.alive hruns]
    rw [heq, (TcpConnection.connectDestroyed_of_state_ne hne).2]
    exact fun _ => Channel.interest_remove_of_tracked hs.tracked
  | handleClose _ _ _ heq _ => exact heq ▸ Channel.tracked_updateChannel _
  | store _ _ _ _ heq _ => exact heq ▸ hs.tracked

theorem Registered.unregistered_of_runs (hs : s.Registered) (hl : s.Calm l)
    (h : step s l = some t) (hruns : s.runsConnectDestroyed l = true) : t.Unregistered := by
  have hstate := hs.state_of_runs hl.alive hruns
  have hne : s.conn.state ≠ .kConnected := by simp [hstate]
  obtain ⟨io, rfl⟩ : ∃ io, l = .runFunctor io := by
    cases l with
    | runFunctor io => exact ⟨io, rfl⟩
    | destroyServer => exact absurd rfl hl.alive
    | _ => cases hruns
  have hcalling : s.conn.loop.callingPendingFunctors = true := by
    by_contra hne
    have hnil := (s.conn.loop.noBatch (Bool.eq_false_iff.mpr hne)).1
    simp [runsConnectDestroyed, hnil] at hruns
  have hchannel : t.conn.channel = s.conn.channel.remove := by
    cases connStep_of_step h with
    | connectDestroyed _ _ heq _ =>
      exact heq.trans (TcpConnection.connectDestroyed_of_state_ne hne).2
    | works _ hquiet | connectEstablished _ hquiet => simp [hruns] at hquiet
    | poll _ hlabel | handleClose _ hlabel | store _ hlabel => cases hlabel
  have hstate' := hs.state_step hl.notLate h hstate
  obtain ⟨hactive, hactions⟩ := hs.calling hcalling
  obtain ⟨hen, rfl⟩ := step_eq_some.mp h
  obtain ⟨f, m, -, -, hrun⟩ := runFunctor_cases hen
  refine ⟨hstate', ?_, ?_, ?_, ?_⟩
  · rw [hchannel]
    rfl
  · rw [hchannel]
    exact Channel.interest_remove_of_tracked hs.tracked
  · rw [hrun, runFunctor_eq]
    exact hactive
  · rw [hrun, runFunctor_eq]
    exact hactions

theorem Registered.unregistered_step (hs : s.Registered) (hu : s.Unregistered) (hl : s.Calm l)
    (h : step s l = some t) : t.Unregistered := by
  have hchannel : t.conn.channel.index = .kNew ∧ t.conn.channel.interest = none := by
    rcases channel_of_closed hs h hu.state with
      heq | ⟨revents, -, heq⟩ | ⟨-, heq⟩ | ⟨io, rfl, -⟩
    · exact heq ▸ ⟨hu.index, hu.interest⟩
    · exact heq ▸ ⟨hu.index, hu.interest⟩
    · exact heq ▸ ⟨rfl, Channel.interest_remove hu.interest⟩
    · have hen := (step_eq_some.mp h).1
      simp [enabled, hu.actions] at hen
  have hdispatch : t.active = s.active ∧ t.actions <:+ s.actions := by
    cases ownerStep_of_step hl.alive h with
    | service hservice => exact ⟨hservice.active, hservice.suffix⟩
    | poll _ _ hinterest _ => simp [hu.interest] at hinterest
    | handleEvent _ hdispatched _ _ => simp [hu.active] at hdispatched
    | handleClose _ _ _ hne _ _ _ => simp [hu.actions] at hne
    | closeCallback hne _ _ _ => simp [hu.actions] at hne
    | connectEstablished hwaiting => exact absurd hwaiting hs.established.once
    | connectDestroyed _ _ _ hactive hactions | baseRun _ _ hactive hactions _ =>
      exact ⟨hactive, hactions ▸ List.suffix_refl _⟩
  exact ⟨hs.state_step hl.notLate h hu.state, hchannel.1, hchannel.2,
    hdispatch.1.trans hu.active, List.suffix_nil.mp (hu.actions ▸ hdispatch.2)⟩

theorem Registered.inMap_step (hs : s.Registered) (hl : l ≠ .destroyServer)
    (h : step s l = some t) (hinMap : s.inMap = false) : t.inMap = false := by
  cases ownerStep_of_step hl h with
  | service hservice => exact hservice.inMap.trans hinMap
  | poll hsame _ _ _ | handleEvent hsame _ _ _ | handleClose hsame _ _ _ _ _ _ =>
    exact hsame.inMap.trans hinMap
  | closeCallback _ _ _ hmap => exact hmap.elim (fun heq => heq.trans hinMap) id
  | connectEstablished hwaiting => exact absurd hwaiting hs.established.once
  | connectDestroyed _ hmap _ _ _ => exact hmap.trans hinMap
  | baseRun _ _ _ _ hmap => exact hmap

theorem Registered.removed_step (hs : s.Registered) (hl : l ≠ .destroyServer)
    (h : step s l = some t) (hmem : .connectDestroyed ∈ t.conn.loop.waiting) :
    t.inMap = false := by
  obtain ⟨fs, hwaiting, hfs⟩ := waiting_of_step h
  rw [hwaiting, List.mem_append] at hmem
  rcases hmem with hmem | hmem
  · exact hs.inMap_step hl h (hs.removed (mem_waiting_of_remaining hmem))
  · rcases hfs _ hmem with ⟨-, hinMap⟩ | hkind
    · exact hinMap
    · cases hkind

theorem Registered.step (hs : s.Registered) (hl : s.Calm l) (h : TcpServer.step s l = some t) :
    t.Registered where
  established := hs.established.step h
  removed := hs.removed_step hl.alive h
  closing := hs.closing_step hl h
  events := hs.events_step hl h
  tracked := hs.tracked_step hl h
  dispatching := hs.dispatching_of_step hl.alive h
  calling := hs.calling_step hl.alive h
  anchored := by
    rcases hs.anchored with ha | hu
    · rcases hs.anchored_of_step ha hl.alive h with ha | hruns
      · exact .inl ha
      · exact .inr (hs.unregistered_of_runs hl h hruns)
    · exact .inr (hs.unregistered_step hu hl h)

theorem registered_of_started (hs : s.Started) (halive : s.alive = true) : s.Registered := by
  have hwaiting : s.conn.loop.waiting = [] := hs.waiting.trans (if_pos halive)
  refine
    { established := established_of_started hs
      removed := fun hmem => ?_
      closing := fun hc => ?_
      events := fun hstate => ?_
      tracked := hs.channel ▸ Channel.tracked_updateChannel _
      dispatching := fun _ => hs.actions
      calling := fun _ => ⟨hs.active, hs.actions⟩
      anchored := .inl (.inl (hs.inMap.trans halive)) }
  · simp [hwaiting] at hmem
  · rcases hc with hc | hc | hc
    · simp [hs.inMap, halive] at hc
    · exact absurd hs.base hc
    · simp [hs.actions] at hc
  · simp [hs.state] at hstate

theorem Registered.owned (hs : s.Registered)
    (h : s.conn.channel.index ≠ .kNew ∨ s.active = true) : s.owned = true := by
  rcases hs.anchored with (ha | ha | ha | ha) | hu
  · simp [TcpServer.owned, ha]
  · have hkept : s.base.kept ≠ [] := fun hnil => ha (List.append_eq_nil_iff.mp hnil).2
    simp [TcpServer.owned, hkept]
  · simp [TcpServer.owned, List.ne_nil_of_mem ha]
  · have hany : s.conn.loop.kept.any Functor.owns = true :=
      List.any_eq_true.mpr ⟨_, List.mem_append_right _ ha, rfl⟩
    simp [TcpServer.owned, hany]
  · rcases h with h | h
    · exact absurd hu.index h
    · simp [hu.active] at h

theorem Connecting.unregistered (hs : s.Connecting) :
    s.conn.channel.index = .kNew ∧ s.active = false :=
  ⟨by rw [hs.channel]; rfl, hs.active⟩

end TcpServer

namespace Server

variable {s : Server} {id : Nat}

def registered (s : Server) (id : Nat) : Bool :=
  (s.connection id).conn.channel.index ≠ .kNew ||
    id ∈ (s.loops (s.connection id).ioLoop).activeChannels

theorem onEach_notLate {l : Label} (hl : ∀ id i, l ≠ .user id (.advance i)) :
    s.onEach (fun v l => !v.storesLate l) l = true := by
  refine onEach_iff.mpr fun id _ l' hview => ?_
  cases l' with
  | advance i =>
    cases l with
    | user id' l' =>
      simp only [viewLabel, Option.ite_none_right_eq_some, Option.some.injEq] at hview
      exact absurd (congrArg (Label.user id') hview.2) (hl id' i)
    | swapFunctors | runFunctor | endFunctors =>
      simp only [viewLabel] at hview
      split at hview <;> simp at hview
    | _ => simp [viewLabel] at hview
  | _ => rfl

/-- While the server exists, no connection goes away that is registered in its loop. -/
theorem owned_of_registered {numThreads : Nat} {writeCompleteCallback : Bool} {ls : List Label}
    (hlate : Along step (fun s l => s.onEach (fun v l => !v.storesLate l) l = true)
      (new numThreads writeCompleteCallback) ls)
    (h : run step (new numThreads writeCompleteCallback) ls = some s) (halive : s.alive = true)
    (hid : s.created id = true) (hregistered : s.registered id = true) :
    (s.view id).owned = true := by
  have hinv : (s.view id).alive = true → (s.view id).Connecting ∨ (s.view id).Registered := by
    apply invariant_view (I := fun v => v.alive = true → v.Connecting ∨ v.Registered) _ _ _ hlate h
      hid
    · exact fun v hv halive => hv.imp_right (TcpServer.registered_of_started · halive)
    · intro v hv halive
      rcases hv halive with hv | hv
      · exact .inl { hv with }
      · exact .inr { hv with
          established := ⟨hv.established.state, hv.established.once⟩
          anchored := hv.anchored.imp_right fun hu => { hu with } }
    · intro v l u hv hl hu halive
      have hne : l ≠ .destroyServer := by
        rintro rfl
        obtain ⟨-, rfl⟩ := TcpServer.step_eq_some.mp hu
        rw [TcpServer.next, ← alive_destroy] at halive
        cases halive
      have halive' : v.alive = true := by
        obtain ⟨-, rfl⟩ := TcpServer.step_eq_some.mp hu
        exact (TcpServer.alive_next hne).symm.trans halive
      rcases hv halive' with hv | hv
      · exact (TcpServer.connecting_step hv hu).imp_right (TcpServer.registered_of_started · halive)
      · exact .inr (hv.step ⟨hne, by simpa using hl⟩ hu)
  have hchannel : (s.view id).conn.channel.index ≠ .kNew ∨ (s.view id).active = true := by
    simpa [registered, view] using hregistered
  rcases hinv halive with hv | hv
  · obtain ⟨hindex, hactive⟩ := hv.unregistered
    simp [hindex, hactive] at hchannel
  · exact hv.owned hchannel

def hangUpRun : List Label :=
  [.newConnection, .swapFunctors 1, .runFunctor 1 ⟨.ok [], .ok 0, 0⟩, .endFunctors 1,
    .poll 1 [(1, EPOLLHUP)]]

theorem owned_of_registered_hangUp : ∃ s, run step (new 2 false) hangUpRun = some s ∧
    s.registered 1 = true ∧ (s.view 1).owned = true := by
  have hrun : (run step (new 2 false) hangUpRun).any
      (fun s => s.alive && s.created 1 && s.registered 1) = true := by decide +kernel
  obtain ⟨s, hs, hstate⟩ := (Option.any_eq_true _ _).mp hrun
  simp only [Bool.and_eq_true] at hstate
  obtain ⟨⟨halive, hcreated⟩, hregistered⟩ := hstate
  have hnone : ∀ l ∈ hangUpRun, ∀ id i, l ≠ .user id (.advance i) := by simp [hangUpRun]
  exact ⟨s, hs, hregistered,
    owned_of_registered (along_of_forall (fun _ hl _ => onEach_notLate (hnone _ hl)) _) hs halive
      hcreated hregistered⟩

end Server

end WebServer.Mymuduo
