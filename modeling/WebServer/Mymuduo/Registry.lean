import WebServer.Mymuduo.Registration
import WebServer.Mymuduo.ServerLoad

namespace WebServer.Mymuduo

open WebServer.Lib

namespace Channel

def Synced (c : Channel) : Prop := c.index = .kAdded → c.interest = some c.events

theorem synced_updateChannel (c : Channel) : c.updateChannel.Synced := by
  intro h
  cases hindex : c.index with
  | kNew => simp [updateChannel, hindex]
  | kDeleted => simp [updateChannel, hindex]
  | kAdded =>
    rw [updateChannel_kAdded hindex] at h ⊢
    split
    · next hnone => simp [hnone] at h
    · rfl

end Channel

namespace TcpServer

variable {s t : TcpServer} {l : Label}

/-- What a connection keeps of its way through the server: it is watched until `handleClose` runs,
and then it is on its way out of `connections_`. -/
structure Watched (s : TcpServer) : Prop extends Registered s where
  watching : s.conn.state ≠ .kDisconnected → s.conn.channel.Watching ∧ s.conn.channel.Synced
  leaving : s.conn.state = .kDisconnected → s.Closing

theorem watched_of_started (hs : s.Started) (halive : s.alive = true) : s.Watched where
  toRegistered := registered_of_started hs halive
  watching _ := hs.channel ▸ ⟨Channel.watching_new, Channel.synced_updateChannel _⟩
  leaving hstate := by simp [hs.state] at hstate

theorem Watched.watching_step (hs : s.Watched) (hl : s.Calm l) (h : TcpServer.step s l = some t)
    (hstate : t.conn.state ≠ .kDisconnected) :
    t.conn.channel.Watching ∧ t.conn.channel.Synced := by
  have hopen : s.conn.state ≠ .kDisconnected := fun hclosed =>
    hstate (hs.state_step hl.notLate h hclosed)
  obtain ⟨hwatching, hsynced⟩ := hs.watching hopen
  cases connStep_of_step h with
  | works hworks _ =>
    rcases hworks.channel with heq | ⟨-, heq⟩ | ⟨-, heq⟩
    · exact heq ▸ ⟨hwatching, hsynced⟩
    · exact heq ▸ ⟨Channel.watching_enableWriting hwatching, Channel.synced_updateChannel _⟩
    · exact heq ▸ ⟨Channel.watching_disableWriting hwatching, Channel.synced_updateChannel _⟩
  | poll _ _ _ heq _ => exact heq ▸ ⟨⟨hwatching.index, hwatching.events⟩, hsynced⟩
  | connectEstablished hwaiting => exact absurd hwaiting hs.established.once
  | connectDestroyed hruns _ _ _ => exact absurd (hs.state_of_runs hl.alive hruns) hopen
  | handleClose _ _ heq _ _ => exact absurd heq hstate
  | store _ _ _ _ heq _ => exact heq ▸ ⟨hwatching, hsynced⟩

theorem Watched.closing_step (hs : s.Watched) (ht : t.Registered) (hl : l ≠ .destroyServer)
    (h : TcpServer.step s l = some t) (hc : s.Closing) : t.Closing := by
  have hsame : t.inMap = s.inMap → t.base.waiting = s.base.waiting →
      (.closeCallback ∈ s.actions → .closeCallback ∈ t.actions) → t.Closing := by
    intro hinMap hbase hactions
    exact hc.imp (hinMap.trans ·) (Or.imp (hbase ▸ ·) hactions)
  cases ownerStep_of_step hl h with
  | service hservice =>
    exact hsame hservice.inMap hservice.base (closeCallback_mem_service hservice)
  | poll howners _ _ hactions => exact hsame howners.inMap howners.base (hactions ▸ ·)
  | handleEvent howners hdispatched _ _ =>
    exact hsame howners.inMap howners.base fun hmem => by
      simp [hs.dispatching hdispatched] at hmem
  | handleClose _ _ _ _ hcloses _ _ => exact .inr (.inr (hcloses ▸ List.mem_cons_self))
  | closeCallback _ howned _ _ =>
    exact howned.elim (fun hbase => .inr (.inl hbase)) fun hmem => .inl (ht.removed hmem)
  | connectEstablished hwaiting => exact absurd hwaiting hs.established.once
  | connectDestroyed _ hinMap hbase _ hactions => exact hsame hinMap hbase (hactions ▸ ·)
  | baseRun _ _ _ _ hinMap => exact .inl hinMap

theorem Watched.leaving_step (hs : s.Watched) (ht : t.Registered) (hl : s.Calm l)
    (h : TcpServer.step s l = some t) (hstate : t.conn.state = .kDisconnected) : t.Closing := by
  by_cases hclosed : s.conn.state = .kDisconnected
  · exact hs.closing_step ht hl.alive h (hs.leaving hclosed)
  obtain ⟨io, rfl⟩ : ∃ io, l = .act io := by
    cases connStep_of_step h with
    | works hworks _ =>
      rcases hworks.state with heq | ⟨-, heq⟩
      · exact absurd (heq.symm.trans hstate) hclosed
      · simp [heq] at hstate
    | poll _ _ heq _ _ => exact absurd (heq.symm.trans hstate) hclosed
    | connectEstablished hwaiting => exact absurd hwaiting hs.established.once
    | connectDestroyed hruns _ _ _ => exact absurd (hs.state_of_runs hl.alive hruns) hclosed
    | handleClose io hlabel _ _ _ => exact ⟨io, hlabel⟩
    | store _ _ _ heq _ _ => simp [heq] at hstate
  have hne : s.actions ≠ [] := by
    have hen := (step_eq_some.mp h).1
    simp only [enabled, Bool.and_eq_true, Bool.not_eq_true', List.isEmpty_eq_false_iff] at hen
    exact hen.1
  cases ownerStep_of_step hl.alive h with
  | service hservice =>
    rcases hservice.conn.state with heq | heq
    · exact absurd (heq.symm.trans hstate) hclosed
    · simp [heq] at hstate
  | poll _ hidle _ _ =>
    simp only [idle, Bool.and_eq_true, List.isEmpty_iff] at hidle
    exact absurd hidle.1.1 hne
  | handleEvent _ hdispatched _ _ => exact absurd (hs.dispatching hdispatched) hne
  | handleClose _ _ _ _ hcloses _ _ => exact .inr (.inr (hcloses ▸ List.mem_cons_self))
  | closeCallback _ howned _ _ =>
    exact howned.elim (fun hbase => .inr (.inl hbase)) fun hmem => .inl (ht.removed hmem)
  | connectEstablished hwaiting => exact absurd hwaiting hs.established.once
  | connectDestroyed hruns _ _ _ _ => cases hruns
  | baseRun _ _ _ _ hinMap => exact .inl hinMap

theorem Watched.step (hs : s.Watched) (hl : s.Calm l) (h : TcpServer.step s l = some t) :
    t.Watched where
  toRegistered := hs.toRegistered.step hl h
  watching := hs.watching_step hl h
  leaving := hs.leaving_step (hs.toRegistered.step hl h) hl h

structure Settled (s : TcpServer) : Prop where
  waiting : s.conn.loop.waiting = []
  base : s.base.waiting = []
  actions : s.actions = []

theorem Watched.settled (hs : s.Watched) (h : s.Settled) :
    s.inMap = true ∧ s.conn.state ≠ .kDisconnected ∧ s.conn.channel.Watching ∧
        s.conn.channel.interest = some s.conn.channel.events ∨
      s.inMap = false ∧ s.Unregistered := by
  cases hinMap : s.inMap with
  | true =>
    have hopen : s.conn.state ≠ .kDisconnected := fun hclosed => by
      rcases hs.leaving hclosed with hc | hc | hc
      · simp [hinMap] at hc
      · exact hc h.base
      · simp [h.actions] at hc
    obtain ⟨hwatching, hsynced⟩ := hs.watching hopen
    exact .inl ⟨rfl, hopen, hwatching, hsynced hwatching.index⟩
  | false =>
    refine .inr ⟨rfl, hs.anchored.resolve_left ?_⟩
    rintro (ha | ha | ha | ha)
    · simp [hinMap] at ha
    · exact ha h.base
    · simp [h.actions] at ha
    · simp [h.waiting] at ha

end TcpServer

namespace Server

variable {s : Server} {id : Nat}

structure Keeps (I : TcpServer → Prop) : Prop where
  start : ∀ v : TcpServer, v.Started → v.alive = true → I v
  unwoken : ∀ v : TcpServer, I v → I v.unwoken
  step : ∀ (v : TcpServer) l u, I v → v.Calm l → TcpServer.step v l = some u → I u

def WhileAlive (I : TcpServer → Prop) (v : TcpServer) : Prop :=
  v.alive = true → v.Connecting ∨ I v

theorem alive_of_step {v u : TcpServer} {l : TcpServer.Label} (hu : TcpServer.step v l = some u)
    (halive : u.alive = true) : l ≠ .destroyServer ∧ v.alive = true := by
  obtain ⟨-, rfl⟩ := TcpServer.step_eq_some.mp hu
  have hne : l ≠ .destroyServer := by
    rintro rfl
    rw [TcpServer.next, ← alive_destroy] at halive
    cases halive
  exact ⟨hne, (TcpServer.alive_next hne).symm.trans halive⟩

section Keeps

variable {I : TcpServer → Prop} (hI : Keeps I)
include hI

theorem Keeps.step_whileAlive {v u : TcpServer} {l : TcpServer.Label} (hv : WhileAlive I v)
    (hl : (!v.storesLate l) = true) (hu : TcpServer.step v l = some u) : WhileAlive I u := by
  intro halive
  obtain ⟨hne, halive'⟩ := alive_of_step hu halive
  rcases hv halive' with hv | hv
  · exact (TcpServer.connecting_step hv hu).imp_right (hI.start u · halive)
  · exact .inr (hI.step v l u hv ⟨hne, by simpa using hl⟩ hu)

theorem Keeps.views_step {t : Server} {l : Label} (hs : s.Views (WhileAlive I))
    (hl : s.onEach (fun v l => !v.storesLate l) l = true) (h : Server.step s l = some t) :
    t.Views (WhileAlive I) := by
  refine hs.step (fun v hv halive => hv.imp_right (hI.start v · halive)) ?_
    (fun v l u hv hl hu => hI.step_whileAlive hv hl hu) hl h
  intro v hv halive
  rcases hv halive with hv | hv
  · exact .inl { hv with }
  · exact .inr (hI.unwoken v hv)

theorem Keeps.views_run {numThreads : Nat} {writeCompleteCallback : Bool} {ls : List Label}
    (hlate : Along Server.step (fun s l => s.onEach (fun v l => !v.storesLate l) l = true)
      (new numThreads writeCompleteCallback) ls)
    (h : run Server.step (new numThreads writeCompleteCallback) ls = some s) :
    s.Views (WhileAlive I) :=
  invariant_along (fun _ _ _ hs hl ht => hI.views_step hs hl ht) (views_new _ _ _) hlate h

end Keeps

theorem keeps_registered : Keeps TcpServer.Registered where
  start _ := TcpServer.registered_of_started
  unwoken _ hv := { hv with
    established := ⟨hv.established.state, hv.established.once⟩
    anchored := hv.anchored.imp_right fun hu => { hu with } }
  step _ _ _ hv := hv.step

theorem keeps_watched : Keeps TcpServer.Watched where
  start _ := TcpServer.watched_of_started
  unwoken v hv := { hv with
    toRegistered := keeps_registered.unwoken v hv.toRegistered }
  step _ _ _ hv := hv.step

def Drained (s : Server) : Prop :=
  ∀ i ≤ s.numThreads, (s.loops i).idle = true ∧ (s.loops i).queue.waiting = []

instance (s : Server) : Decidable s.Drained := Nat.decidableBallLE _ _

theorem Drained.settled (h : s.Drained) (hid : (s.connection id).ioLoop ≤ s.numThreads) :
    (s.view id).Settled := by
  obtain ⟨hidle, hwaiting⟩ := h (s.connection id).ioLoop hid
  simp only [EventLoop.waiting, List.append_eq_nil_iff] at hwaiting
  simp only [IoLoop.idle, Bool.and_eq_true, List.isEmpty_iff] at hidle
  have hbase := (h 0 (Nat.zero_le _)).2
  simp only [EventLoop.waiting, List.append_eq_nil_iff] at hbase
  refine ⟨?_, ?_, ?_⟩
  · simp [view, EventLoop.waiting, EventLoop.part, hwaiting.1, hwaiting.2]
  · rw [view]
    split
    · rfl
    · simp [EventLoop.waiting, EventLoop.part, hbase.1, hbase.2]
  · simp [view, hidle.1.1]

end Server

namespace ServerConnection

/-- The connection is in `connections_` and its channel is watched for what it asks for, or it is
closed and in no poller. -/
def Filed (c : ServerConnection) : Prop :=
  c.inMap = true ∧ c.conn.state ≠ .kDisconnected ∧ c.conn.channel.index = .kAdded ∧
      c.conn.channel.interest = some c.conn.channel.events ∨
    c.inMap = false ∧ c.conn.state = .kDisconnected ∧ c.conn.channel.index = .kNew ∧
      c.conn.channel.interest = none

end ServerConnection

namespace Server

variable {s : Server} {id : Nat}

/-- When the loops have run what was queued, `connections_` has the connections that epoll watches
and no others. -/
theorem filed_of_drained {numThreads : Nat} {writeCompleteCallback : Bool} {ls : List Label}
    (hlate : Along step (fun s l => s.onEach (fun v l => !v.storesLate l) l = true)
      (new numThreads writeCompleteCallback) ls)
    (h : run step (new numThreads writeCompleteCallback) ls = some s) (halive : s.alive = true)
    (hdrained : s.Drained) (hid : s.created id = true) : (s.connection id).Filed := by
  have hsettled := hdrained.settled ((roundRobin_of_run h).ioLoop_le hid)
  rcases (keeps_watched.views_run hlate h).view id hid halive with hv | hv
  · have hnil := hv.waiting.symm.trans hsettled.waiting
    cases hnil
  · rcases hv.settled hsettled with ⟨hinMap, hopen, hwatching, hinterest⟩ | ⟨hinMap, hu⟩
    · exact .inl ⟨hinMap, hopen, hwatching.index, hinterest⟩
    · exact .inr ⟨hinMap, hu.state, hu.index, hu.interest⟩

def oneLeavesRun : List Label :=
  [.newConnection, .newConnection, .swapFunctors 1, .runFunctor 1 ⟨.ok [], .ok 0, 0⟩,
    .endFunctors 1, .swapFunctors 2, .runFunctor 2 ⟨.ok [], .ok 0, 0⟩, .endFunctors 2,
    .poll 1 [(1, EPOLLHUP)], .handleEvent 1, .act 1 ⟨.ok [], .ok 0, 0⟩,
    .act 1 ⟨.ok [], .ok 0, 0⟩, .act 1 ⟨.ok [], .ok 0, 0⟩, .swapFunctors 0,
    .runFunctor 0 ⟨.ok [], .ok 0, 0⟩, .endFunctors 0, .swapFunctors 1,
    .runFunctor 1 ⟨.ok [], .ok 0, 0⟩, .endFunctors 1]

theorem filed_of_drained_oneLeaves : ∃ s, run step (new 2 false) oneLeavesRun = some s ∧
    (s.connection 1).Filed ∧ (s.connection 2).Filed := by
  have hrun : (run step (new 2 false) oneLeavesRun).any
      (fun s => s.alive && s.created 1 && s.created 2 && decide s.Drained) = true := by
    decide +kernel
  obtain ⟨s, hs, hstate⟩ := (Option.any_eq_true _ _).mp hrun
  simp only [Bool.and_eq_true, decide_eq_true_eq] at hstate
  obtain ⟨⟨⟨halive, hfirst⟩, hsecond⟩, hdrained⟩ := hstate
  have hnone : ∀ l ∈ oneLeavesRun, ∀ id i, l ≠ .user id (.advance i) := by simp [oneLeavesRun]
  have hlate : Along step (fun s l => s.onEach (fun v l => !v.storesLate l) l = true)
      (new 2 false) oneLeavesRun := along_of_forall (fun _ hl _ => onEach_notLate (hnone _ hl)) _
  exact ⟨s, hs, filed_of_drained hlate hs halive hdrained hfirst,
    filed_of_drained hlate hs halive hdrained hsecond⟩

end Server

end WebServer.Mymuduo
