import WebServer.Http.Conversations

namespace WebServer.Http

open WebServer.Lib WebServer.Mymuduo
open TcpConnection (Alike LoopFree)

structure Unestablished (v : TcpServer) : Prop extends v.Connecting where
  conn : Alike (.new false) v.conn

def ofLoop : TcpServer.Label → Bool
  | .poll _ | .handleEvent | .act _ | .swapFunctors | .runFunctor _ | .endFunctors
  | .baseSwap | .baseRun | .baseEnd => true
  | _ => false

section View

variable {v u : TcpServer} {d : Dialogue} {l : TcpServer.Label}

theorem follows_started (h : v.Started) (halive : v.alive = true)
    (hconn : Alike (.established false) v.conn) : Follows v (.new false) := by
  have hwaiting : v.conn.loop.waiting = [] := h.waiting.trans (if_pos halive)
  refine
    { conn := ?_
      writeCompleteCallback := by rw [hconn]; rfl
      waiting := by simp [hwaiting]
      calling := fun _ => ⟨h.active, h.actions⟩
      active := fun _ => h.actions
      later := by simp [h.actions] }
  rw [settled_of_nil h.actions]
  exact hconn.symm

theorem Unestablished.step (h : Unestablished v) (halive : v.alive = true) (hl : ofLoop l = true)
    (hstep : TcpServer.step v l = some u) : Unestablished u ∨ Follows u (.new false) := by
  have hnext := TcpServer.connecting_step h.toConnecting hstep
  obtain ⟨hen, rfl⟩ := TcpServer.step_eq_some.mp hstep
  have hsame (hconn : Alike v.conn (v.next l).conn) :
      Unestablished (v.next l) ∨ Follows (v.next l) (.new false) := by
    rcases hnext with hconnecting | hstarted
    · exact .inl ⟨hconnecting, h.conn.trans hconn⟩
    · have hstate : (v.next l).conn.state = v.conn.state := by
        rw [hconn]
        rfl
      simp [hstarted.state, h.state] at hstate
  cases l with
  | poll revents => simp [TcpServer.enabled, h.channel, Channel.new] at hen
  | handleEvent => simp [TcpServer.enabled, h.active] at hen
  | act io => simp [TcpServer.enabled, h.actions] at hen
  | runFunctor io =>
    obtain ⟨f, m, hnextf, -, hrun⟩ := TcpServer.runFunctor_cases hen
    obtain ⟨rfl, -⟩ :=
      List.cons.inj ((EventLoop.waiting_nextFunctor hnextf).symm.trans h.waiting)
    refine .inr (follows_started (TcpServer.connecting_runFunctor h.toConnecting hen) ?_ ?_)
    · rw [hrun]
      exact halive
    · rw [hrun]
      exact TcpConnection.loopFree_connectEstablished.alike (h.conn.trans rfl)
  | baseRun =>
    rw [TcpServer.baseRun_disabled h.base] at hen
    cases hen
  | swapFunctors | endFunctors | baseSwap | baseEnd => exact hsame rfl
  | _ => cases hl

def effectOf (v : TcpServer) : TcpServer.Label → TcpConnection → TcpConnection
  | .act io => v.actions.head?.elim id (afterAction io)
  | .runFunctor _ =>
    if v.conn.loop.functors.head? = some .connectDestroyed then TcpConnection.connectDestroyed
    else id
  | _ => id

def Throws (v : TcpServer) (l : TcpServer.Label) : Prop :=
  ∃ io n, l = .runFunctor io ∧ v.conn.loop.functors.head? = some (.highWaterMarkCallback n)

theorem Follows.step (h : Follows v d) (hl : ofLoop l = true) (hthrows : ¬ Throws v l)
    (hstep : TcpServer.step v l = some u) :
    Follows u (d.setConn (effectOf v l d.http.conn)) := by
  obtain ⟨hen, rfl⟩ := TcpServer.step_eq_some.mp hstep
  cases l with
  | poll revents => exact h.poll hen
  | handleEvent => exact h.handleEvent hen
  | act io =>
    obtain ⟨a, rest, hactions, hact⟩ := TcpServer.act_cases hen
    rw [hact, effectOf, hactions]
    exact h.act hen hactions
  | swapFunctors => exact h.swapFunctors hen
  | runFunctor io =>
    obtain ⟨f, m, hnext, -, hrun⟩ := TcpServer.runFunctor_cases hen
    have hhead : v.conn.loop.functors.head? = some f := by
      rw [(EventLoop.nextFunctor_spec hnext).1]
      rfl
    have hmem : f ∈ v.conn.loop.waiting := by
      rw [EventLoop.waiting_nextFunctor hnext]
      exact List.mem_cons_self
    obtain rfl | ⟨n, rfl⟩ := h.waiting f hmem
    · rw [hrun, effectOf, if_pos hhead]
      exact h.connectDestroyed hnext
    · exact absurd ⟨io, n, rfl, hhead⟩ hthrows
  | endFunctors => exact h.endFunctors hen
  | baseSwap => exact h.setBase _
  | baseRun => exact h.baseRun hen
  | baseEnd => exact h.setBase _
  | _ => cases hl

theorem follows_unwoken : Follows v d → Follows v.unwoken d := by
  intro h
  have hbase := h.setBase v.base.unwoken
  exact hbase.setLoop (m := v.conn.loop.unwoken) h.waiting h.calling

theorem unestablished_unwoken (h : Unestablished v) : Unestablished v.unwoken :=
  ⟨{ h.toConnecting with }, h.conn.trans rfl⟩

end View

namespace HttpService

variable {s t : HttpService} {id : Nat} {d : Dialogue} {l : Label} {m : Server}
  {httpCallback : HttpCallback}

theorem ofLoop_of_viewLabel {l' : TcpServer.Label}
    (h : s.server.viewLabel id l.server = some l') : ofLoop l' = true := by
  cases l with
  | newConnection => cases h
  | poll i events =>
    simp only [Label.server, Server.viewLabel, Option.map_eq_some_iff] at h
    obtain ⟨revents, -, rfl⟩ := h
    rfl
  | handleEvent i | act i io _ _ =>
    simp only [Label.server, Server.viewLabel] at h
    split at h <;> cases h
    rfl
  | swapFunctors i | endFunctors i =>
    simp only [Label.server, Server.viewLabel] at h
    split at h
    · cases h
      rfl
    · split at h <;> cases h
      rfl
  | runFunctor i io =>
    simp only [Label.server, Server.viewLabel] at h
    split at h
    · cases h
    · split at h <;> cases h
      rfl
    · split at h <;> cases h
      rfl

theorem settings_step (h : s.server.step l.server = some m) :
    m.alive = s.server.alive ∧ m.writeCompleteCallback = s.server.writeCompleteCallback := by
  obtain ⟨-, rfl⟩ := Server.step_eq_some.mp h
  cases l with
  | handleEvent i =>
    simp only [Label.server, Server.nextState, Server.handleEvent]
    split <;> exact ⟨rfl, rfl⟩
  | runFunctor i io =>
    simp only [Label.server, Server.nextState, Server.runTask]
    split
    · exact ⟨rfl, rfl⟩
    · split <;> exact ⟨rfl, rfl⟩
  | _ => exact ⟨rfl, rfl⟩

def effect (s : HttpService) (id : Nat) (l : Label) : TcpConnection → TcpConnection :=
  (s.server.viewLabel id l.server).elim (fun c => c) (effectOf (s.server.view id))

/-- `d` is where the connection is, when it was established, and before that at the start. -/
structure Tracks (id : Nat) (s : HttpService) (d : Dialogue) : Prop where
  sound : s.server.Sound
  alive : s.server.alive = true
  writeCompleteCallback : s.server.writeCompleteCallback = false
  served : d.http.served = s.served id
  replies : d.replies = s.replies id
  phase : d = .new false ∧ (s.server.created id = true → Unestablished (s.server.view id)) ∨
    s.server.created id = true ∧ Follows (s.server.view id) d

theorem alike_view_put (s : Server) (id : Nat) (v : TcpServer) :
    Alike v.conn ((s.put id v).view id).conn := by
  have hview : Alike ((s.put id v).connection id).conn ((s.put id v).view id).conn := rfl
  rw [Server.connection_put_self] at hview
  exact (show Alike v.conn { v.conn with loop := .new } from rfl).trans hview

theorem alike_start {v : TcpServer} (h : Alike (.new false) v.conn) :
    Alike (.new false) (Server.start v).conn ∨
      Alike (.established false) (Server.start v).conn := by
  rw [Server.start]
  split
  · exact .inr (TcpConnection.loopFree_connectEstablished.alike h)
  · exact .inl (h.trans rfl)

theorem alike_newConnection (s : Server) (h : s.writeCompleteCallback = false) :
    Alike (.new false) (s.newConnection.view s.nextConnId).conn ∨
      Alike (.established false) (s.newConnection.view s.nextConnId).conn := by
  have hadded : s.addConnection.connection s.nextConnId =
      .new s.getNextLoop.1 true s.writeCompleteCallback := Function.update_self _ _ _
  have hnew : Alike (.new false) (s.addConnection.view s.nextConnId).conn := by
    simp only [Server.view, hadded, ServerConnection.new, h]
    rfl
  have hconn : Alike (Server.start (s.addConnection.view s.nextConnId)).conn
      (s.newConnection.view s.nextConnId).conn := by
    rw [Server.newConnection_eq]
    exact alike_view_put _ _ _
  exact (alike_start hnew).imp (·.trans hconn) (·.trans hconn)

theorem phase_newConnection {s : Server} (hs : s.Sound) (halive : s.alive = true)
    (h : s.writeCompleteCallback = false) :
    Unestablished (s.newConnection.view s.nextConnId) ∨
      Follows (s.newConnection.view s.nextConnId) (.new false) := by
  have hstate {c c' : TcpConnection} (h : Alike c c') : c'.state = c.state := by
    rw [h]
    rfl
  rcases Server.view_newConnection hs halive with hconnecting | hstarted
  · refine .inl ⟨hconnecting, (alike_newConnection s h).resolve_right fun hconn => ?_⟩
    have := (hstate hconn).symm.trans hconnecting.state
    cases this
  · refine .inr (follows_started hstarted halive
      ((alike_newConnection s h).resolve_left fun hconn => ?_))
    have := (hstate hconn).symm.trans hstarted.state
    cases this

theorem exists_actions {s m : Server} {i : Nat} {io : Syscalls}
    (h : s.step (.act i io) = some m) : ∃ a rest, (s.loops i).actions = a :: rest := by
  obtain ⟨hen, -⟩ := Server.step_eq_some.mp h
  simp only [Server.enabled, Bool.and_eq_true, Bool.not_eq_true',
    List.isEmpty_eq_false_iff] at hen
  exact List.exists_cons_of_ne_nil hen.1

theorem exists_nextFunctor {s m : Server} {i : Nat} {io : Syscalls}
    (h : s.step (.runFunctor i io) = some m) :
    ∃ task queue, (s.loops i).queue.nextFunctor = some (task, queue) := by
  obtain ⟨hen, -⟩ := Server.step_eq_some.mp h
  simp only [Server.enabled, Option.any_eq_true] at hen
  obtain ⟨⟨task, queue⟩, hnext, -⟩ := hen
  exact ⟨task, queue, hnext⟩

theorem actions_view {s : Server} (hs : s.Sound) {i : Nat} (h : (s.loops i).actions ≠ []) :
    (s.view (s.loops i).current).actions = (s.loops i).actions := by
  obtain ⟨-, hloop⟩ := hs.current i h
  simp only [Server.view, hloop, if_true]

theorem throws_of_view (hs : s.server.Sound) (hm : s.server.step l.server = some m)
    {l' : TcpServer.Label} (hl : s.server.viewLabel id l.server = some l')
    (h : Throws (s.server.view id) l') : ∃ i io, l = .runFunctor i io ∧ s.throws i = true := by
  obtain ⟨io, n, rfl, hhead⟩ := h
  cases l with
  | runFunctor i io' =>
    refine ⟨i, io', rfl, ?_⟩
    obtain ⟨task, queue, hnext⟩ := exists_nextFunctor hm
    have hfunctors := (EventLoop.nextFunctor_spec hnext).1
    rw [Label.server, Server.viewLabel, hfunctors] at hl
    cases task with
    | removeConnectionInLoop id' =>
      simp only at hl
      split at hl <;> cases hl
    | conn id' f =>
      simp only at hl
      split at hl
      · next heq =>
        subst heq
        obtain ⟨m', hm', -⟩ := Server.view_setQueue_conn hs hnext
        rw [(EventLoop.nextFunctor_spec hm').1, List.head?_cons] at hhead
        obtain rfl := Option.some.inj hhead
        simp [throws, hfunctors]
      · cases hl
  | newConnection | poll _ _ | handleEvent _ | act _ _ _ _ | swapFunctors _ | endFunctors _ =>
    simp [Label.server, Server.viewLabel, ite_eq_iff] at hl

theorem effectOf_unestablished {v : TcpServer} (h : Unestablished v) (l' : TcpServer.Label)
    (c : TcpConnection) : effectOf v l' c = c := by
  cases l' with
  | act io => simp [effectOf, h.actions]
  | runFunctor io =>
    refine congrFun (if_neg fun hhead => ?_) c
    have hwaiting := h.waiting
    obtain ⟨fs, hfunctors⟩ : ∃ fs, v.conn.loop.functors = .connectDestroyed :: fs :=
      List.head?_eq_some_iff.mp hhead
    rw [EventLoop.waiting, hfunctors] at hwaiting
    cases hwaiting
  | _ => rfl

theorem effect_of_other (id : Nat) (hact : ∀ i io t k, l ≠ .act i io t k)
    (hrun : ∀ i io, l ≠ .runFunctor i io) (c : TcpConnection) : s.effect id l c = c := by
  cases l with
  | act i io t k => exact absurd rfl (hact i io t k)
  | runFunctor i io => exact absurd rfl (hrun i io)
  | newConnection => rfl
  | poll i events =>
    cases hevents : events.lookup id <;>
      simp [effect, Label.server, Server.viewLabel, hevents, effectOf]
  | handleEvent i | swapFunctors i | endFunctors i =>
    simp only [effect, Label.server, Server.viewLabel]
    split_ifs <;> rfl

theorem effect_of_notCreated (hs : s.server.Sound) (hm : s.server.step l.server = some m)
    (hid : s.server.created id ≠ true) (c : TcpConnection) : s.effect id l c = c := by
  cases l with
  | act i io t k =>
    obtain ⟨a, rest, hactions⟩ := exists_actions hm
    have hcreated := (hs.current i (by simp [hactions])).1
    have hne : (s.server.loops i).current ≠ id := fun heq => hid (heq ▸ hcreated)
    simp [effect, Label.server, Server.viewLabel, hne]
  | runFunctor i io =>
    obtain ⟨task, queue, hnext⟩ := exists_nextFunctor hm
    have hmem : task ∈ (s.server.loops i).queue.kept := by
      rw [EventLoop.kept, EventLoop.waiting_nextFunctor hnext]
      simp
    have hruns := hs.queue i task hmem
    have hfunctors := (EventLoop.nextFunctor_spec hnext).1
    cases task with
    | conn id' f =>
      have hne : id' ≠ id := fun heq => hid (heq ▸ hruns.1)
      simp [effect, Label.server, Server.viewLabel, hfunctors, hne]
    | removeConnectionInLoop id' =>
      have hne : id' ≠ id := fun heq => hid (heq ▸ hruns.1)
      simp [effect, Label.server, Server.viewLabel, hfunctors, hne]
  | newConnection | poll _ _ | handleEvent _ | swapFunctors _ | endFunctors _ =>
    exact effect_of_other id (by simp) (by simp) c

theorem follows_server_step (hs : s.server.Sound) (hm : s.server.step l.server = some m)
    (hthrows : ∀ i io, l = .runFunctor i io → s.throws i = false)
    (hid : s.server.created id = true) (h : Follows (s.server.view id) d) :
    Follows (m.view id) (d.setConn (s.effect id l d.http.conn)) := by
  have hview := Server.view_step hs hm hid
  cases hl : s.server.viewLabel id l.server with
  | none =>
    rw [hl] at hview
    have heffect : s.effect id l d.http.conn = d.http.conn := by rw [effect, hl]; rfl
    have hsame : m.view id = s.server.view id := hview
    rw [heffect, hsame]
    exact h
  | some l' =>
    rw [hl] at hview
    obtain ⟨u, hu, hunwoken⟩ := hview
    have heffect : s.effect id l = effectOf (s.server.view id) l' := by rw [effect, hl]; rfl
    have hquiet : ¬ Throws (s.server.view id) l' := fun hthrow => by
      obtain ⟨i, io, rfl, htrue⟩ := throws_of_view hs hm hl hthrow
      simp [hthrows i io rfl] at htrue
    rw [heffect, hunwoken]
    exact follows_unwoken (h.step (ofLoop_of_viewLabel hl) hquiet hu)

theorem unestablished_server_step (hs : s.server.Sound) (halive : s.server.alive = true)
    (hm : s.server.step l.server = some m) (hid : s.server.created id = true)
    (h : Unestablished (s.server.view id)) :
    (∀ c, s.effect id l c = c) ∧
      (Unestablished (m.view id) ∨ Follows (m.view id) (.new false)) := by
  have hview := Server.view_step hs hm hid
  cases hl : s.server.viewLabel id l.server with
  | none =>
    rw [hl] at hview
    have hsame : m.view id = s.server.view id := hview
    exact ⟨fun c => by rw [effect, hl]; rfl, .inl (hsame ▸ h)⟩
  | some l' =>
    rw [hl] at hview
    obtain ⟨u, hu, hunwoken⟩ := hview
    have heffect : s.effect id l = effectOf (s.server.view id) l' := by rw [effect, hl]; rfl
    refine ⟨fun c => by rw [heffect, effectOf_unestablished h], ?_⟩
    rw [hunwoken]
    exact (h.step halive (ofLoop_of_viewLabel hl) hu).imp unestablished_unwoken follows_unwoken

theorem Tracks.server_step (h : Tracks id s d) (hm : s.server.step l.server = some m)
    (hthrows : ∀ i io, l = .runFunctor i io → s.throws i = false) :
    Tracks id { s with server := m } (d.setConn (s.effect id l d.http.conn)) := by
  obtain ⟨halive, hcallback⟩ := settings_step hm
  refine ⟨h.sound.step hm, halive.trans h.alive, hcallback.trans h.writeCompleteCallback, h.served,
    h.replies, ?_⟩
  by_cases hid : s.server.created id = true
  · have hcreated := Server.created_of_step h.sound hm hid
    rcases h.phase with ⟨hd, hstart⟩ | ⟨-, hfollows⟩
    · obtain ⟨heffect, hnext⟩ :=
        unestablished_server_step h.sound h.alive hm hid (hstart hid)
      rw [heffect]
      rcases hnext with hun | hfollows
      · exact .inl ⟨hd, fun _ => hun⟩
      · exact .inr ⟨hcreated, hd ▸ hfollows⟩
    · exact .inr ⟨hcreated, follows_server_step h.sound hm hthrows hid hfollows⟩
  · rw [effect_of_notCreated h.sound hm hid]
    have hd := (h.phase.resolve_right fun hfollows => hid hfollows.1).1
    by_cases hnew : m.created id = true
    · obtain ⟨hlabel, rfl⟩ := (Server.created_step h.sound hm hnew).resolve_left hid
      have hnewConnection : m = s.server.newConnection := by
        rw [hlabel] at hm
        exact (Server.step_eq_some.mp hm).2.symm
      subst hnewConnection
      rcases phase_newConnection h.sound h.alive h.writeCompleteCallback with hun | hfollows
      · exact .inl ⟨hd, fun _ => hun⟩
      · exact .inr ⟨hnew, hd ▸ hfollows⟩
    · exact .inl ⟨hd, fun htrue => absurd htrue hnew⟩

theorem effect_act (hs : s.server.Sound) (httpCallback : HttpCallback) {i : Nat} (io : Syscalls)
    (receiveTime : Timestamp) (k : Kernel) {a : Action} {rest : List Action}
    (hactions : (s.server.loops i).actions = a :: rest)
    (hcurrent : (s.server.loops i).current = id) :
    s.effect id (.act i io receiveTime k) = afterAction io a ∧
      s.dialogueLabel httpCallback id (.act i io receiveTime k) =
        callbackLabel httpCallback io receiveTime k a := by
  have hview := actions_view hs (by simp [hactions] : (s.server.loops i).actions ≠ [])
  rw [hcurrent, hactions] at hview
  constructor
  · simp [effect, Label.server, Server.viewLabel, hcurrent, effectOf, hview]
  · simp [dialogueLabel, hcurrent, hactions]

theorem effect_act_other (httpCallback : HttpCallback) {i : Nat} (io : Syscalls)
    (receiveTime : Timestamp) (k : Kernel) (hcurrent : (s.server.loops i).current ≠ id) :
    (∀ c, s.effect id (.act i io receiveTime k) c = c) ∧
      s.dialogueLabel httpCallback id (.act i io receiveTime k) = none := by
  constructor
  · intro c
    simp [effect, Label.server, Server.viewLabel, hcurrent]
  · simp [dialogueLabel, hcurrent]

theorem run_callbackLabel (d : Dialogue) (io : Syscalls) (receiveTime : Timestamp) (k : Kernel)
    (a : Action) (h : a = .callback .readCallback → ∀ b bs, io.read ≠ .ok (b :: bs)) :
    run Dialogue.step d (callbackLabel httpCallback io receiveTime k a).toList =
      some (d.setConn (afterAction io a d.http.conn)) := by
  cases a with
  | callback cb =>
    cases cb with
    | readCallback =>
      simp only [callbackLabel, Option.toList_some, run, Dialogue.step, afterAction]
      split
      · next b bs hread => exact absurd hread (h rfl b bs)
      · rfl
    | closeCallback | errorCallback | writeCallback => rfl
  | closeCallback | letGo => rfl

theorem effect_runFunctor (hs : s.server.Sound) {i : Nat} {io : Syscalls}
    (hm : s.server.step (.runFunctor i io) = some m) (d : Dialogue) :
    run Dialogue.step d (s.dialogueLabel httpCallback id (.runFunctor i io)).toList =
      some (d.setConn (s.effect id (.runFunctor i io) d.http.conn)) := by
  obtain ⟨task, queue, hnext⟩ := exists_nextFunctor hm
  have hfunctors := (EventLoop.nextFunctor_spec hnext).1
  cases task with
  | removeConnectionInLoop id' =>
    have heffect : s.effect id (.runFunctor i io) d.http.conn = d.http.conn := by
      simp only [effect, Label.server, Server.viewLabel, hfunctors]
      split_ifs <;> rfl
    rw [heffect]
    simp [dialogueLabel, hfunctors]
    rfl
  | conn id' f =>
    by_cases hid : id' = id
    · subst hid
      obtain ⟨m', hm', -⟩ := Server.view_setQueue_conn hs hnext
      have hhead : (s.server.view id').conn.loop.functors.head? = some f := by
        rw [(EventLoop.nextFunctor_spec hm').1, List.head?_cons]
      by_cases hf : f = .connectDestroyed
      · subst hf
        simp [dialogueLabel, effect, Label.server, Server.viewLabel, hfunctors, effectOf, hhead]
        rfl
      · simp [dialogueLabel, effect, Label.server, Server.viewLabel, hfunctors, effectOf, hhead, hf]
        rfl
    · simp [dialogueLabel, effect, Label.server, Server.viewLabel, hfunctors, hid]
      rfl

theorem delivers_spec {i : Nat} {io : Syscalls} (h : s.delivers i io = true) :
    (s.server.loops i).actions.head? = some (.callback .readCallback) ∧
      ∃ b bs, io.read = .ok (b :: bs) := by
  simp only [delivers, Bool.and_eq_true, decide_eq_true_eq] at h
  refine ⟨h.1, ?_⟩
  have hread := h.2
  split at hread
  · next b bs heq => exact ⟨b, bs, heq⟩
  · cases hread

def answered (s : HttpService) (id : Nat) (e : Dialogue) : HttpService where
  server := s.server.put id { s.server.view id with conn := e.http.conn }
  served := Function.update s.served id e.http.served
  replies := Function.update s.replies id e.replies

theorem served_answered (s : HttpService) (id : Nat) (e : Dialogue) :
    (s.answered id e).served id = e.http.served := Function.update_self id _ _

theorem replies_answered (s : HttpService) (id : Nat) (e : Dialogue) :
    (s.answered id e).replies id = e.replies := Function.update_self id _ _

/-- A step of the server calls `onMessage` for the connection that has got something, and nothing
else that is not a step of `TcpServer`. -/
theorem step_cases (h : HttpService.step httpCallback s l = some t) :
    ∃ m, s.server.step l.server = some m ∧
      ((∀ i io, l = .runFunctor i io → s.throws i = false) ∧
          (∀ i io r k, l = .act i io r k → s.delivers i io = false) ∧ t = { s with server := m } ∨
        ∃ i io r k e, l = .act i io r k ∧ s.delivers i io = true ∧
          (dialogue { s with server := m } (s.server.loops i).current).onMessage httpCallback r k =
            .ok e ∧
          Marks (m.view (s.server.loops i).current).conn e.http.conn ∧
          t = answered { s with server := m } (s.server.loops i).current e) := by
  obtain ⟨m, hm, hrest⟩ := Option.bind_eq_some_iff.mp h
  refine ⟨m, hm, ?_⟩
  cases l with
  | runFunctor i io =>
    left
    by_cases hthrows : s.throws i = true
    · simp [hthrows] at hrest
    · have hfalse := Bool.eq_false_of_not_eq_true hthrows
      simp only [hfalse, Bool.false_eq_true, if_false, Option.some.injEq] at hrest
      exact ⟨fun _ _ heq => by cases heq; exact hfalse, by simp, hrest.symm⟩
  | newConnection | poll _ _ | handleEvent _ | swapFunctors _ | endFunctors _ =>
    simp only [Option.some.injEq] at hrest
    exact .inl ⟨by simp, by simp, hrest.symm⟩
  | act i io r k =>
    by_cases hdelivers : s.delivers i io = true
    · right
      simp only [hdelivers, if_true] at hrest
      obtain ⟨e, he, hrest⟩ := Option.bind_eq_some_iff.mp hrest
      split at hrest
      · next hfit =>
        have hok : (dialogue { s with server := m } (s.server.loops i).current).onMessage
            httpCallback r k = .ok e := by
          revert he
          cases (dialogue { s with server := m } (s.server.loops i).current).onMessage
            httpCallback r k with
          | error f => simp [Except.toOption]
          | ok e' => simp [Except.toOption]
        exact ⟨i, io, r, k, e, rfl, hdelivers, hok, marks_onMessage hok hfit,
          (Option.some.inj hrest).symm⟩
      · cases hrest
    · left
      have hfalse := Bool.eq_false_of_not_eq_true hdelivers
      simp only [hfalse, Bool.false_eq_true, if_false, Option.some.injEq] at hrest
      exact ⟨by simp, fun _ _ _ _ heq => by cases heq; exact hfalse, hrest.symm⟩

theorem Tracks.answered_other (h : Tracks id s d) {id' : Nat} (hne : id ≠ id') {e : Dialogue}
    (hcreated : s.server.created id' = true) (hmarks : Marks (s.server.view id').conn e.http.conn) :
    Tracks id (s.answered id' e) d where
  sound := h.sound.put hcreated (TcpServer.local_of_eq hmarks.loop rfl rfl rfl rfl rfl)
  alive := h.alive
  writeCompleteCallback := h.writeCompleteCallback
  served := h.served.trans (Function.update_of_ne hne _ _).symm
  replies := h.replies.trans (Function.update_of_ne hne _ _).symm
  phase := by
    have hview : (s.answered id' e).server.view id = s.server.view id :=
      Server.view_put_of_ne hne _ _
    rw [hview]
    exact h.phase

theorem Tracks.answered_self (h : Tracks id s d) (hid : s.server.created id = true)
    (hfollows : Follows (s.server.view id) d) (hopen : .closeCallback ∉ (s.server.view id).actions)
    {receiveTime : Timestamp} {k : Kernel} {e : Dialogue}
    (he : (s.dialogue id).onMessage httpCallback receiveTime k = .ok e)
    (hmarks : Marks (s.server.view id).conn e.http.conn) :
    ∃ d', d.onMessage httpCallback receiveTime k = .ok d' ∧ Tracks id (s.answered id e) d' := by
  have hlocal := TcpServer.local_of_eq (s := s.server.view id)
    (t := { s.server.view id with conn := e.http.conn }) hmarks.loop rfl rfl rfl rfl rfl
  rw [dialogue, ← h.served, ← h.replies] at he
  obtain ⟨d', hd', hfollows', hserved, hreplies⟩ := hfollows.onMessage hopen he hmarks
  refine ⟨d', hd', ?_⟩
  exact
    { sound := h.sound.put hid hlocal
      alive := h.alive
      writeCompleteCallback := h.writeCompleteCallback
      served := hserved.trans (served_answered s id e).symm
      replies := hreplies.trans (replies_answered s id e).symm
      phase := by
        have hview : (s.answered id e).server.view id = _ :=
          Server.view_put_self hlocal (Server.current_of_actions rfl)
        rw [hview]
        exact .inr ⟨hid, follows_unwoken hfollows'⟩ }

theorem Tracks.follows (h : Tracks id s d) {i : Nat} {a : Action} {rest : List Action}
    (hactions : (s.server.loops i).actions = a :: rest)
    (hcurrent : (s.server.loops i).current = id) : Follows (s.server.view id) d := by
  subst hcurrent
  have hne : (s.server.loops i).actions ≠ [] := by simp [hactions]
  have hview := (actions_view h.sound hne).trans hactions
  refine (h.phase.resolve_left fun hstart => ?_).2
  simp [(hstart.2 (h.sound.current i hne).1).actions] at hview

theorem closeCallback_notMem_read (hs : s.server.Sound) {i : Nat} {io : Syscalls}
    (hm : s.server.step (.act i io) = some m) (hdelivers : s.delivers i io = true)
    (hfollows : Follows (s.server.view (s.server.loops i).current) d) :
    .closeCallback ∉ (m.view (s.server.loops i).current).actions := by
  obtain ⟨hhead, b, bs, hread⟩ := delivers_spec hdelivers
  obtain ⟨rest, hactions⟩ := List.head?_eq_some_iff.mp hhead
  have hne : (s.server.loops i).actions ≠ [] := by simp [hactions]
  have hview := Server.view_step hs hm (hs.current i hne).1
  rw [Server.viewLabel, if_pos rfl] at hview
  obtain ⟨u, hu, hunwoken⟩ := hview
  obtain ⟨-, rfl⟩ := TcpServer.step_eq_some.mp hu
  have hbefore := (actions_view hs hne).trans hactions
  have hlater := hfollows.later
  rw [hbefore, List.tail_cons] at hlater
  have hafter : (m.view (s.server.loops i).current).actions = rest := by
    rw [hunwoken]
    simp only [TcpServer.unwoken, TcpServer.next, hbefore, TcpServer.act_actions, Action.closes,
      hread]
    simp
  rwa [hafter]

theorem run_dialogueLabel (hs : s.server.Sound) (hm : s.server.step l.server = some m)
    (hdelivers : ∀ i io r k, l = .act i io r k → s.delivers i io = false) (d : Dialogue) :
    run Dialogue.step d (s.dialogueLabel httpCallback id l).toList =
      some (d.setConn (s.effect id l d.http.conn)) := by
  cases l with
  | runFunctor i io => exact effect_runFunctor hs hm d
  | newConnection | poll _ _ | handleEvent _ | swapFunctors _ | endFunctors _ =>
    exact congrArg (fun c => some (d.setConn c)) (effect_of_other id (by simp) (by simp) _).symm
  | act i io r k =>
    by_cases hcurrent : (s.server.loops i).current = id
    · obtain ⟨a, rest, hactions⟩ := exists_actions hm
      obtain ⟨heffect, hlabel⟩ := effect_act hs httpCallback io r k hactions hcurrent
      rw [heffect, hlabel]
      refine run_callbackLabel d io r k a fun ha b bs hread => ?_
      simpa [delivers, hactions, ha, hread] using hdelivers i io r k rfl
    · obtain ⟨heffect, hlabel⟩ := effect_act_other httpCallback io r k hcurrent
      rw [heffect, hlabel]
      rfl

/-- A step of the server is a step of the dialogue of each connection, or none. -/
theorem Tracks.step (h : Tracks id s d) (hstep : HttpService.step httpCallback s l = some t) :
    ∃ d', run Dialogue.step d (s.dialogueLabel httpCallback id l).toList = some d' ∧
      Tracks id t d' := by
  obtain ⟨m, hm, ⟨hthrows, hdelivers, rfl⟩ | ⟨i, io, r, k, e, rfl, hdelivers, he, hmarks, rfl⟩⟩ :=
    step_cases hstep
  · exact ⟨_, run_dialogueLabel h.sound hm hdelivers d, h.server_step hm hthrows⟩
  · have hserver := h.server_step hm nofun
    obtain ⟨hhead, b, bs, hread⟩ := delivers_spec hdelivers
    obtain ⟨rest, hactions⟩ := List.head?_eq_some_iff.mp hhead
    have hne : (s.server.loops i).actions ≠ [] := by simp [hactions]
    obtain ⟨hcreated, -⟩ := h.sound.current i hne
    have hcreated' := Server.created_of_step h.sound hm hcreated
    by_cases hid : id = (s.server.loops i).current
    · subst hid
      obtain ⟨heffect, hlabel⟩ := effect_act h.sound httpCallback io r k hactions rfl
      have hfollows := h.follows hactions rfl
      have hnext := follows_server_step h.sound hm nofun hcreated hfollows
      obtain ⟨d', hd', htracks⟩ := hserver.answered_self hcreated' hnext
        (closeCallback_notMem_read h.sound hm hdelivers hfollows) he hmarks
      refine ⟨d', ?_, htracks⟩
      rw [heffect, afterAction, hread] at hd'
      rw [hlabel]
      simp only [callbackLabel, Option.toList_some, run, Dialogue.step, hread, hd']
      rfl
    · obtain ⟨heffect, hlabel⟩ := effect_act_other httpCallback io r k (Ne.symm hid)
      rw [heffect] at hserver
      exact ⟨d, by rw [hlabel]; rfl, hserver.answered_other hid hcreated' hmarks⟩

theorem tracks_new (id numThreads : Nat) : Tracks id (new numThreads) (.new false) where
  sound := Server.sound_new _ _
  alive := rfl
  writeCompleteCallback := rfl
  served := rfl
  replies := rfl
  phase := .inl ⟨rfl, fun hid => (Server.views_new _ numThreads false).view id hid⟩

/-- The callbacks of the connection in a run of the server. -/
def callbacks (httpCallback : HttpCallback) (id : Nat) : HttpService → List Label →
    List Dialogue.Label :=
  relabel (step httpCallback) fun s l => (s.dialogueLabel httpCallback id l).toList

/-- The connection, with the `closeCallback_` that its `handleClose` has still to call. -/
def current (s : HttpService) (id : Nat) : Dialogue where
  http := ⟨settled (s.server.view id), s.served id⟩
  replies := s.replies id

/-- Where the steps of `P` are steps of `Q` for the connection. -/
theorem exists_tracks_along {P : HttpService → Label → Prop} {Q : Dialogue → Dialogue.Label → Prop}
    (hPQ : ∀ s l m d, Tracks id s d → s.server.step l.server = some m → P s l →
      Along Dialogue.step Q d (s.dialogueLabel httpCallback id l).toList)
    {numThreads : Nat} {ls : List Label} (hls : Along (step httpCallback) P (new numThreads) ls)
    (h : run (step httpCallback) (new numThreads) ls = some s) :
    ∃ d, run Dialogue.step (.new false) (callbacks httpCallback id (new numThreads) ls) = some d ∧
      Along Dialogue.step Q (.new false) (callbacks httpCallback id (new numThreads) ls) ∧
      Tracks id s d := by
  refine run_relabel (fun s l t d hd hl ht => ?_) (tracks_new id numThreads) hls h
  obtain ⟨d', hd', htracks⟩ := hd.step ht
  obtain ⟨m, hm, -⟩ := step_cases ht
  exact ⟨d', hd', hPQ s l m d hd hm hl, htracks⟩

theorem exists_tracks {numThreads : Nat} {ls : List Label}
    (h : run (step httpCallback) (new numThreads) ls = some s) (id : Nat) :
    ∃ d, run Dialogue.step (.new false) (callbacks httpCallback id (new numThreads) ls) = some d ∧
      Tracks id s d := by
  obtain ⟨d, hrun, -, htracks⟩ := exists_tracks_along (P := fun _ _ => True) (Q := fun _ _ => True)
    (fun _ _ _ _ (_ : Tracks id _ _) _ _ => along_of_forall (fun _ _ _ => trivial) _)
    (along_of_forall (fun _ _ _ => trivial) _) h
  exact ⟨d, hrun, htracks⟩

/-- In every run of the server, whatever becomes of the other connections, each connection that was
established goes through the callbacks of its own, and through nothing else. -/
theorem run_callbacks {numThreads : Nat} {ls : List Label}
    (h : run (step httpCallback) (new numThreads) ls = some s) (hid : s.server.created id = true)
    (hstate : (s.server.connection id).conn.state ≠ .kConnecting) :
    ∃ d, run Dialogue.step (.new false) (callbacks httpCallback id (new numThreads) ls) = some d ∧
      d.http.served = s.served id ∧ d.replies = s.replies id ∧
      Alike (s.current id).http.conn d.http.conn := by
  obtain ⟨d, hrun, htracks⟩ := exists_tracks h id
  refine ⟨d, hrun, htracks.served, htracks.replies, ?_⟩
  rcases htracks.phase with ⟨-, hstart⟩ | ⟨-, hfollows⟩
  · exact absurd (hstart hid).state hstate
  · exact hfollows.conn

def reading (data : Bytes) : Syscalls := ⟨.ok data, .ok 0, 0⟩

def twoClients : List Label :=
  [.newConnection, .newConnection,
    .swapFunctors 1, .runFunctor 1 (reading []), .endFunctors 1,
    .swapFunctors 2, .runFunctor 2 (reading []), .endFunctors 2,
    .poll 2 [(2, EPOLLIN)], .handleEvent 2,
    .act 2 (reading (ascii "GET / HT")) .invalid ⟨.ok 0, .ok 0, 0⟩,
    .poll 1 [(1, EPOLLIN)], .handleEvent 1,
    .act 1 (reading HttpServer.getRoot.text) .invalid ⟨.ok 0, .ok 5, 0⟩,
    .act 2 (reading []) .invalid ⟨.ok 0, .ok 0, 0⟩,
    .act 1 (reading []) .invalid ⟨.ok 0, .ok 0, 0⟩,
    .poll 2 [(2, EPOLLIN)], .handleEvent 2,
    .act 2 (reading (ascii "TP/1.1\r\n\r\n")) .invalid ⟨.ok 0, .ok 9, 0⟩]

theorem run_callbacks_twoClients :
    ∃ s, run (step HttpServer.defaultHttpCallback) (new 2) twoClients = some s ∧
      ∃ d, run Dialogue.step (.new false)
          (callbacks HttpServer.defaultHttpCallback 2 (new 2) twoClients) = some d ∧
        d.http.served = s.served 2 ∧ d.replies = s.replies 2 ∧
        Alike (s.current 2).http.conn d.http.conn := by
  have hrun : ∃ s ∈ run (step HttpServer.defaultHttpCallback) (new 2) twoClients,
      s.server.created 2 = true ∧ (s.server.connection 2).conn.state ≠ .kConnecting := by
    decide +kernel
  obtain ⟨s, hs, hid, hstate⟩ := hrun
  exact ⟨s, hs, run_callbacks hs hid hstate⟩

end HttpService

end WebServer.Http
