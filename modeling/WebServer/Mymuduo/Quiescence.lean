import WebServer.Mymuduo.ServerRuns
import WebServer.Mymuduo.StateOrder

namespace WebServer.Mymuduo

open WebServer.Lib

namespace TcpConnection

def down (c : TcpConnection) : Bool := .connectionCallback false ∈ c.log

def readEvents (c : TcpConnection) : BitVec 32 := if c.down then 0 else Channel.kReadEvent

/-- Reading is enabled up to the disconnection, and nothing in `kDisconnected`. -/
structure EventsFit (c : TcpConnection) : Prop where
  closed : c.state = .kDisconnected → c.channel.events = 0
  events : c.channel.events = c.readEvents ∨
    c.channel.events = c.readEvents ||| Channel.kWriteEvent

variable {c c' : TcpConnection}

theorem readEvents_of_log {es : List Effect} (hlog : c'.log = c.log ++ es)
    (hes : .connectionCallback false ∉ es) : c'.readEvents = c.readEvents := by
  have hdown : c'.down = c.down := by simp [down, hlog, hes]
  rw [readEvents, readEvents, hdown]

theorem readEvents_cases (c : TcpConnection) :
    c.readEvents = 0 ∨ c.readEvents = Channel.kReadEvent := by
  rw [readEvents]
  split
  · exact .inl rfl
  · exact .inr rfl

theorem EventsFit.enableWriting (h : c.EventsFit) :
    c.channel.events ||| Channel.kWriteEvent = c.readEvents ||| Channel.kWriteEvent := by
  rcases h.events with heq | heq
  · rw [heq]
  · rw [heq, BitVec.or_assoc, BitVec.or_self]

theorem EventsFit.disableWriting (h : c.EventsFit) :
    c.channel.events &&& ~~~Channel.kWriteEvent = c.readEvents := by
  rcases h.events with heq | heq <;> rw [heq] <;>
    rcases c.readEvents_cases with hread | hread <;> rw [hread] <;> decide

theorem eventsFit_works (h : c.EventsFit) (hworks : c.Works c') : c'.EventsFit := by
  obtain ⟨es, hlog, hes⟩ := hworks.log
  have hread : c'.readEvents = c.readEvents :=
    readEvents_of_log hlog fun hmem => by simpa [Effect.isTeardown] using hes _ hmem
  have hstate : c'.state = .kDisconnected → c.state = .kDisconnected := by
    intro hclosed
    rcases hworks.state with heq | ⟨-, heq⟩
    · exact heq ▸ hclosed
    · simp [heq] at hclosed
  rcases hworks.channel with heq | ⟨hne, heq⟩ | ⟨-, heq⟩
  · exact ⟨fun hclosed => heq ▸ h.closed (hstate hclosed), by rw [hread, heq]; exact h.events⟩
  · refine ⟨fun hclosed => absurd (hstate hclosed) hne, .inr ?_⟩
    rw [hread, heq, Channel.enableWriting_events, h.enableWriting]
  · refine ⟨fun hclosed => ?_, .inl ?_⟩
    · rw [heq, Channel.disableWriting_events, h.closed (hstate hclosed)]
      rfl
    · rw [hread, heq, Channel.disableWriting_events, h.disableWriting]

theorem eventsFit_of_closed (hevents : c'.channel.events = 0)
    (hlog : .connectionCallback false ∈ c'.log) : c'.EventsFit :=
  ⟨fun _ => hevents, .inl (by simp [readEvents, down, hlog, hevents])⟩

theorem EventsFit.of_eq (h : c.EventsFit)
    (hstate : c'.state = .kDisconnected → c.state = .kDisconnected)
    (hevents : c'.channel.events = c.channel.events) (hlog : c'.log = c.log) : c'.EventsFit := by
  have hread : c'.readEvents = c.readEvents := by rw [readEvents, readEvents, down, down, hlog]
  exact ⟨fun hclosed => hevents.trans (h.closed (hstate hclosed)), hread ▸ hevents ▸ h.events⟩

theorem EventsFit.connectDestroyed (h : c.EventsFit) : c.connectDestroyed.EventsFit := by
  by_cases hstate : c.state = .kConnected
  · apply eventsFit_of_closed <;>
      simp [TcpConnection.connectDestroyed, record, setState, connected, hstate]
  · obtain ⟨hsame, hchannel⟩ := connectDestroyed_of_state_ne hstate
    have hlog : c.connectDestroyed.log =
        c.log ++ [.connectDestroyed, .remove c.channel.isNoneEvent] := by
      simp [TcpConnection.connectDestroyed, record, hstate]
    have hread := readEvents_of_log hlog (by simp)
    refine ⟨fun hclosed => ?_, ?_⟩
    · rw [hchannel, Channel.remove_events, h.closed (hsame ▸ hclosed)]
    · rw [hread, hchannel, Channel.remove_events]
      exact h.events

theorem remove_mem_connectDestroyed {b : Bool} : .remove b ∈ c.connectDestroyed.log ↔
    .remove b ∈ c.log ∨ b = (c.state = .kConnected || c.channel.isNoneEvent) := by
  by_cases hstate : c.state = .kConnected
  · simp [connectDestroyed, record, setState, hstate, Channel.isNoneEvent, Channel.kNoneEvent]
  · simp [connectDestroyed, record, hstate]

end TcpConnection

namespace TcpServer

variable {s t : TcpServer} {l : Label}

structure Fitting (s : TcpServer) : Prop extends Established s where
  events : s.conn.EventsFit

/-- `connectDestroyed` finds a connection in `kDisconnecting` only after its disconnection, and not
writing. -/
def removesQuiescent (s : TcpServer) (l : Label) : Bool :=
  !(s.runsConnectDestroyed l && s.conn.state = .kDisconnecting) ||
    s.conn.down && !s.conn.channel.isWriting

/-- `isNoneEvent()` held whenever `remove` was called. -/
def RemovesQuiet (s : TcpServer) : Prop := ∀ b, .remove b ∈ s.conn.log → b = true

theorem fitting_of_started (hs : s.Started) : s.Fitting where
  toEstablished := established_of_started hs
  events := by
    refine ⟨fun hclosed => by simp [hs.state] at hclosed, .inl ?_⟩
    rw [hs.channel, TcpConnection.readEvents, TcpConnection.down, hs.log]
    decide

theorem Fitting.step (hs : s.Fitting) (h : TcpServer.step s l = some t) : t.Fitting where
  toEstablished := hs.toEstablished.step h
  events := by
    cases connStep_of_step h with
    | works hworks _ => exact TcpConnection.eventsFit_works hs.events hworks
    | poll _ _ hstate hchannel hlog =>
      exact hs.events.of_eq (fun hclosed => hstate ▸ hclosed) (by rw [hchannel]) hlog
    | connectEstablished hwaiting => exact absurd hwaiting hs.once
    | connectDestroyed _ hstate hchannel hlog =>
      exact hs.events.connectDestroyed.of_eq (fun hclosed => hstate ▸ hclosed) (by rw [hchannel])
        hlog
    | handleClose _ _ _ hchannel hlog =>
      exact TcpConnection.eventsFit_of_closed (by simp [hchannel]) (by simp [hlog])
    | store _ _ _ hstate hchannel hlog =>
      exact hs.events.of_eq (fun hclosed => by simp [hstate] at hclosed) (by rw [hchannel]) hlog

theorem Fitting.isNoneEvent_iff (hs : s.Fitting) :
    (s.conn.state = .kConnected || s.conn.channel.isNoneEvent) = true ↔
      (s.conn.state = .kDisconnecting → (s.conn.down && !s.conn.channel.isWriting) = true) := by
  cases hstate : s.conn.state with
  | kConnecting => exact absurd hstate hs.state
  | kConnected => simp
  | kDisconnected => simp [Channel.isNoneEvent, hs.events.closed hstate, Channel.kNoneEvent]
  | kDisconnecting =>
    have hevents := hs.events.events
    simp only [Channel.isNoneEvent, Channel.isWriting]
    cases hdown : s.conn.down with
    | true =>
      simp only [TcpConnection.readEvents, hdown, if_true] at hevents
      rcases hevents with heq | heq <;> rw [heq] <;> decide
    | false =>
      simp only [TcpConnection.readEvents, hdown] at hevents
      rcases hevents with heq | heq <;> rw [heq] <;> decide

theorem remove_mem_of_step {b : Bool} (hquiet : s.runsConnectDestroyed l = false)
    (h : step s l = some t) : .remove b ∈ t.conn.log ↔ .remove b ∈ s.conn.log := by
  cases connStep_of_step h with
  | works hworks _ =>
    obtain ⟨es, hlog, hes⟩ := hworks.log
    have hnot : .remove b ∉ es := fun hmem => by simpa [Effect.isTeardown] using hes _ hmem
    simp [hlog, hnot]
  | poll _ _ _ _ hlog | store _ _ _ _ _ hlog => rw [hlog]
  | connectEstablished _ _ _ _ hlog | handleClose _ _ _ _ hlog => simp [hlog]
  | connectDestroyed hruns => simp [hruns] at hquiet

theorem Fitting.removesQuiet_iff (hs : s.Fitting) (h : TcpServer.step s l = some t) :
    t.RemovesQuiet ↔ s.RemovesQuiet ∧ s.removesQuiescent l = true := by
  by_cases hruns : s.runsConnectDestroyed l = true
  · have hlog : t.conn.log = s.conn.connectDestroyed.log := by
      cases connStep_of_step h with
      | connectDestroyed _ _ _ hlog => exact hlog
      | works _ hquiet | connectEstablished _ hquiet => simp [hruns] at hquiet
      | poll _ hlabel | handleClose _ hlabel | store _ hlabel =>
        rw [hlabel] at hruns
        cases hruns
    have hquiescent : s.removesQuiescent l = true ↔
        (s.conn.state = .kConnected || s.conn.channel.isNoneEvent) = true := by
      rw [hs.isNoneEvent_iff]
      simp only [removesQuiescent, hruns, Bool.true_and, Bool.or_eq_true, Bool.not_eq_true',
        decide_eq_false_iff_not]
      tauto
    rw [hquiescent]
    simp only [RemovesQuiet, hlog, TcpConnection.remove_mem_connectDestroyed]
    constructor
    · exact fun hall => ⟨fun b hmem => hall b (.inl hmem), hall _ (.inr rfl)⟩
    · rintro ⟨hall, hnone⟩ b (hmem | rfl)
      · exact hall b hmem
      · exact hnone
  · have hquiet := Bool.eq_false_iff.mpr hruns
    simp [RemovesQuiet, remove_mem_of_step hquiet h, removesQuiescent, hquiet]

theorem Connecting.quiet (hs : s.Connecting) : s.runsConnectDestroyed l = false := by
  cases l with
  | runFunctor io =>
    by_contra hne
    have hhead := of_decide_eq_true (Bool.not_eq_false _ ▸ hne)
    obtain ⟨fs, hfs⟩ := List.head?_eq_some_iff.mp hhead
    have hwaiting := hs.waiting
    simp [EventLoop.waiting, hfs] at hwaiting
  | destroyServer => simp [runsConnectDestroyed, hs.sameLoop]
  | _ => rfl

theorem removesQuiet_iff (hs : s.Connecting ∨ s.Fitting) (h : step s l = some t) :
    t.RemovesQuiet ↔ s.RemovesQuiet ∧ s.removesQuiescent l = true := by
  rcases hs with hs | hs
  · simp [RemovesQuiet, remove_mem_of_step hs.quiet h, removesQuiescent, hs.quiet]
  · exact hs.removesQuiet_iff h

end TcpServer

namespace Server

variable {s : Server}

def RemovesQuiet (s : Server) : Prop :=
  ∀ id, s.created id = true → (s.view id).RemovesQuiet

/-- The assertion in `remove` holds throughout a run exactly if `connectDestroyed` is not what ends
a connection in `kDisconnecting`. -/
theorem removesQuiet_iff_along {numThreads : Nat} {writeCompleteCallback : Bool} {ls : List Label}
    (h : run step (new numThreads writeCompleteCallback) ls = some s) :
    s.RemovesQuiet ↔ Along step (fun s l => s.onEach TcpServer.removesQuiescent l = true)
      (new numThreads writeCompleteCallback) ls := by
  have hstart : ∀ v : TcpServer, v.Connecting ∨ v.Started → v.Connecting ∨ v.Fitting :=
    fun v hv => hv.imp_right TcpServer.fitting_of_started
  have hunwoken : ∀ v : TcpServer, v.Connecting ∨ v.Fitting →
      v.unwoken.Connecting ∨ v.unwoken.Fitting :=
    fun v hv => hv.imp (fun hv => { hv with })
      fun hv => ⟨⟨hv.state, hv.once⟩, hv.events.of_eq id rfl rfl⟩
  have hstep : ∀ (s : Server) l t, s.Views (fun v => v.Connecting ∨ v.Fitting) →
      step s l = some t → t.Views (fun v => v.Connecting ∨ v.Fitting) := by
    intro s l t hs ht
    refine hs.step (p := fun _ _ => true) hstart hunwoken ?_ (onEach_iff.mpr fun _ _ _ _ => rfl) ht
    rintro v l u (hv | hv) - hu
    · exact (TcpServer.connecting_step hv hu).imp_right TcpServer.fitting_of_started
    · exact .inr (hv.step hu)
  have hfresh : ∀ v : TcpServer, v.Connecting ∨ v.Started → v.RemovesQuiet := by
    rintro v (hv | hv) b hmem <;> simp [hv.log] at hmem
  have hiff := iff_and_along (J := RemovesQuiet) hstep
    (fun s l t hs ht => hs.forall_iff hfresh (fun _ => Iff.rfl)
      (fun v l u hv hu => TcpServer.removesQuiet_iff hv hu) ht) (views_new _ _ _) h
  refine hiff.trans (and_iff_right ?_)
  exact (views_new TcpServer.RemovesQuiet numThreads writeCompleteCallback).view

def halfClosedRun : List Label := [.newConnection, .user 1 .shutdown, .destroyServer [1]]

theorem removesQuiet_closedRun : ∃ s, run step (new 0 false)
    [.newConnection, .destroyServer [1]] = some s ∧
    .remove true ∈ (s.view 1).conn.log ∧ s.RemovesQuiet := by
  have hrun : (run step (new 0 false) [.newConnection, .destroyServer [1]]).any
      (fun s => .remove true ∈ (s.view 1).conn.log) = true := by decide +kernel
  obtain ⟨s, hs, hmem⟩ := (Option.any_eq_true _ _).mp hrun
  exact ⟨s, hs, of_decide_eq_true hmem, (removesQuiet_iff_along hs).mpr (by decide +kernel)⟩

theorem not_removesQuiet_halfClosedRun :
    ∃ s, run step (new 0 false) halfClosedRun = some s ∧ ¬ s.RemovesQuiet := by
  have hrun : (run step (new 0 false) halfClosedRun).any
      (fun s => s.created 1 ∧ .remove false ∈ (s.view 1).conn.log) = true := by decide +kernel
  obtain ⟨s, hs, hstate⟩ := (Option.any_eq_true _ _).mp hrun
  obtain ⟨hcreated, hmem⟩ := of_decide_eq_true hstate
  exact ⟨s, hs, fun hquiet => absurd (hquiet 1 hcreated false hmem) (by decide)⟩

end Server

end WebServer.Mymuduo
