import WebServer.Mymuduo.ServerViews

namespace WebServer.Mymuduo.Server

open WebServer.Lib
open TcpServer (Local)

variable {s t : Server} {id : Nat} {l : Label}

section NewConnection

theorem created_addConnection (h : s.created id = true) :
    s.addConnection.created id = true ∧ s.addConnection.connection id = s.connection id := by
  simp only [created, Bool.and_eq_true, decide_eq_true_eq] at h
  refine ⟨?_, Function.update_of_ne (Nat.ne_of_lt h.2) _ _⟩
  simp only [created, Bool.and_eq_true, decide_eq_true_eq]
  exact ⟨h.1, Nat.lt_succ_of_lt h.2⟩

theorem created_nextConnId (h : 1 ≤ s.nextConnId) :
    s.addConnection.created s.nextConnId = true := by
  simp [created, addConnection, h]

theorem not_created_nextConnId : s.created s.nextConnId ≠ true := by
  simp [created]

theorem view_addConnection_of_ne (h : id ≠ s.nextConnId) :
    s.addConnection.view id = s.view id := by
  have hconnection : s.addConnection.connection id = s.connection id :=
    Function.update_of_ne h _ _
  simp only [view, hconnection]
  rfl

theorem runs_addConnection {i : Nat} {task : Task} (h : s.Runs i task) :
    s.addConnection.Runs i task := by
  cases task with
  | conn id f =>
    obtain ⟨hcreated, hconnection⟩ := created_addConnection h.1
    exact ⟨hcreated, by rw [hconnection]; exact h.2⟩
  | removeConnectionInLoop id =>
    obtain ⟨hcreated, hconnection⟩ := created_addConnection h.1
    exact ⟨hcreated, by rw [hconnection]; exact h.2⟩

theorem Sound.addConnection (hs : s.Sound) : s.addConnection.Sound where
  nextConnId := Nat.succ_le_succ (Nat.zero_le _)
  queue i task hmem := runs_addConnection (hs.queue i task hmem)
  active i id hmem := by
    obtain ⟨hid, hloop⟩ := hs.active i id hmem
    obtain ⟨hcreated, hconnection⟩ := created_addConnection hid
    exact ⟨hcreated, by rw [hconnection, hloop]⟩
  nodup := hs.nodup
  current i hne := by
    obtain ⟨hid, hloop⟩ := hs.current i hne
    obtain ⟨hcreated, hconnection⟩ := created_addConnection hid
    exact ⟨hcreated, (congrArg ServerConnection.ioLoop hconnection).trans hloop⟩

theorem part_eq_nil (hs : s.Sound) {β : Type} {g : Task → Option β} {i : Nat}
    (hg : ∀ task, s.Runs i task → g task = none) : ((s.loops i).queue.part g).waiting = [] := by
  have hnil : (s.loops i).queue.waiting.filterMap g = [] := by
    refine List.filterMap_eq_nil_iff.mpr fun task hmem => hg task (hs.queue i task ?_)
    exact List.mem_append_right _ hmem
  simpa [EventLoop.waiting, EventLoop.part] using hnil

theorem functors_nextConnId (hs : s.Sound) (i : Nat) :
    ((s.loops i).queue.part (Task.functor? s.nextConnId)).waiting = [] := by
  refine part_eq_nil hs fun task hruns => ?_
  cases task with
  | conn id f => exact if_neg fun heq => not_created_nextConnId (heq ▸ hruns.1)
  | removeConnectionInLoop id => rfl

theorem removes_nextConnId (hs : s.Sound) (i : Nat) :
    ((s.loops i).queue.part (Task.remove? s.nextConnId)).waiting = [] := by
  refine part_eq_nil hs fun task hruns => ?_
  cases task with
  | conn id f => rfl
  | removeConnectionInLoop id => exact if_neg fun heq => not_created_nextConnId (heq ▸ hruns.1)

structure Unborn (v : TcpServer) : Prop extends TcpServer.Fresh v where
  state : v.conn.state = .kConnecting
  channel : v.conn.channel = .new
  log : v.conn.log = []
  waiting : v.conn.loop.waiting = []
  alive : v.alive = true

theorem actions_nextConnId (hs : s.Sound) (i : Nat) :
    (if (s.loops i).current = s.nextConnId then (s.loops i).actions else []) = [] := by
  split_ifs with hcur
  · by_contra hne
    exact not_created_nextConnId (hcur ▸ (hs.current i hne).1)
  · rfl

theorem active_nextConnId (hs : s.Sound) (i : Nat) :
    s.nextConnId ∉ (s.loops i).activeChannels :=
  fun hmem => not_created_nextConnId (hs.active i _ hmem).1

theorem unborn_addConnection (hs : s.Sound) (halive : s.alive = true) :
    Unborn (s.addConnection.view s.nextConnId) := by
  have hconnection : s.addConnection.connection s.nextConnId =
      .new s.getNextLoop.1 true s.writeCompleteCallback := Function.update_self _ _ _
  have hview : s.addConnection.view s.nextConnId =
      { conn := { TcpConnection.new s.writeCompleteCallback with
          loop := (s.loops s.getNextLoop.1).queue.part (Task.functor? s.nextConnId) }
        base := if s.getNextLoop.1 = 0 then .new
          else (s.loops 0).queue.part (Task.remove? s.nextConnId)
        sameLoop := s.getNextLoop.1 = 0
        alive := s.alive
        inMap := true
        active := s.nextConnId ∈ (s.loops s.getNextLoop.1).activeChannels
        actions := if (s.loops s.getNextLoop.1).current = s.nextConnId then
          (s.loops s.getNextLoop.1).actions else []
        calls := []
        held := 0
        strings := s.strings
        deliveries := [] } := by
    simp only [view, hconnection, ServerConnection.new]
    rfl
  rw [hview]
  exact
    { peek := Buffer.peek_new _
      inMap := halive.symm
      active := decide_eq_false (active_nextConnId hs _)
      actions := actions_nextConnId hs _
      calls := rfl
      base := by
        simp only
        split_ifs
        · rfl
        · exact removes_nextConnId hs 0
      state := rfl
      channel := rfl
      log := rfl
      waiting := functors_nextConnId hs _
      alive := halive }

def start (v : TcpServer) : TcpServer :=
  if v.sameLoop then { v with conn := v.conn.connectEstablished }
  else v.queueInLoop false .connectEstablished

theorem newConnection_eq (s : Server) : s.newConnection =
    s.addConnection.put s.nextConnId (start (s.addConnection.view s.nextConnId)) := rfl

theorem local_start (v : TcpServer) : Local v (start v) := by
  rw [start]
  split
  · exact TcpServer.local_of_eq (.refl _) rfl rfl rfl rfl rfl
  · exact TcpServer.local_of_eq (v.conn.loop.extends_queueInLoop false .connectEstablished)
      rfl rfl rfl rfl rfl

theorem actions_start (v : TcpServer) : (start v).actions = v.actions := by
  rw [start]
  split <;> rfl

theorem destroys_of_alive {v : TcpServer} (h : v.alive = true) : v.destroys = [] := if_pos h

theorem start_cases {v : TcpServer} (h : Unborn v) :
    (start v).unwoken.Connecting ∨ (start v).unwoken.Started := by
  by_cases hsame : v.sameLoop = true
  · refine .inr ?_
    rw [start, if_pos hsame]
    exact
      { h with
        state := rfl
        channel := congrArg (fun c : Channel => c.tie.enableReading) h.channel
        log := congrArg (· ++ [Effect.connectionCallback true]) h.log
        waiting := h.waiting.trans (destroys_of_alive h.alive).symm }
  · refine .inl ?_
    rw [start, if_neg hsame]
    have hwaiting : (v.queueInLoop false .connectEstablished).conn.loop.waiting =
        v.conn.loop.waiting ++ [.connectEstablished] := EventLoop.waiting_queueInLoop _ _ _
    exact
      { h with
        waiting := by
          refine (hwaiting.trans ?_).trans (congrArg _ (destroys_of_alive h.alive).symm)
          rw [h.waiting, List.nil_append]
        sameLoop := Bool.eq_false_iff.mpr hsame }

theorem Sound.newConnection (hs : s.Sound) : s.newConnection.Sound :=
  hs.addConnection.put (created_nextConnId hs.nextConnId) (local_start _)

theorem view_newConnection_of_ne (h : id ≠ s.nextConnId) :
    s.newConnection.view id = s.view id := by
  rw [newConnection_eq, view_put_of_ne h, view_addConnection_of_ne h]

theorem view_newConnection (hs : s.Sound) (halive : s.alive = true) :
    (s.newConnection.view s.nextConnId).Connecting ∨
      (s.newConnection.view s.nextConnId).Started := by
  have hunborn := unborn_addConnection hs halive
  rw [newConnection_eq, view_put_self (local_start _)
    (.inr ((actions_start _).trans hunborn.actions))]
  exact start_cases hunborn

end NewConnection

def viewLabel (s : Server) (id : Nat) : Label → Option TcpServer.Label
  | .newConnection => none
  | .poll _ events => (events.lookup id).map .poll
  | .handleEvent i =>
    if (s.loops i).activeChannels.head? = some id then some .handleEvent else none
  | .act i io => if (s.loops i).current = id then some (.act io) else none
  | .swapFunctors i =>
    if (s.connection id).ioLoop = i then some .swapFunctors
    else if i = 0 then some .baseSwap else none
  | .runFunctor i io =>
    match (s.loops i).queue.functors with
    | [] => none
    | .conn id' _ :: _ => if id' = id then some (.runFunctor io) else none
    | .removeConnectionInLoop id' :: _ => if id' = id then some .baseRun else none
  | .endFunctors i =>
    if (s.connection id).ioLoop = i then some .endFunctors
    else if i = 0 then some .baseEnd else none
  | .user id' l => if id' = id then some l else none
  | .newString address content => some (.newString address content)
  | .overwrite address content => some (.overwrite address content)
  | .release address => some (.release address)
  | .destroyServer _ => some .destroyServer

/-- The step that a connection takes, up to what is written to a `wakeupFd`; or it takes none. -/
def ViewStep (v : TcpServer) (l : Option TcpServer.Label) (v' : TcpServer) : Prop :=
  match l with
  | none => v' = v
  | some l => ∃ u, TcpServer.step v l = some u ∧ v' = u.unwoken

theorem base_unwoken (s : Server) (id : Nat) :
    (s.view id).base.unwoken = (s.view id).base := by
  simp only [view]
  split_ifs <;> rfl

section Steps

variable {i : Nat}

theorem viewStep_of_eq {v u v' : TcpServer} {l : TcpServer.Label} (hen : v.enabled l = true)
    (hu : v.next l = u) (h : v' = u.unwoken) : ViewStep v (some l) v' :=
  ⟨u, TcpServer.step_eq_some.mpr ⟨hen, hu⟩, h⟩

theorem idle_view (h : (s.loops (s.connection id).ioLoop).idle = true) :
    (s.view id).idle = true := by
  simp only [IoLoop.idle, Bool.and_eq_true, List.isEmpty_iff, Bool.not_eq_true'] at h
  obtain ⟨⟨hactions, hactive⟩, hcalling⟩ := h
  simp [TcpServer.idle, view, hactions, hactive, hcalling, EventLoop.part]

theorem viewStep_setQueue {f : ∀ {α : Type}, EventLoop α → EventLoop α} {l l' : TcpServer.Label}
    (hpart : ∀ {β : Type} (g : Task → Option β),
      (f (s.loops i).queue).part g = f ((s.loops i).queue.part g))
    (hunwoken : ∀ {β : Type} (m : EventLoop β), (f m).unwoken = f m.unwoken)
    (hnext : ∀ v : TcpServer, v.next l = v.setLoop (f v.conn.loop))
    (hnext' : ∀ v : TcpServer, v.next l' = { v with base := f v.base })
    (hen : (s.connection id).ioLoop = i → (s.view id).enabled l = true)
    (hen' : (s.view id).sameLoop = false →
      (s.view id).base = (s.loops i).queue.part (Task.remove? id) →
      (s.view id).enabled l' = true) :
    ViewStep (s.view id) (if (s.connection id).ioLoop = i then some l
      else if i = 0 then some l' else none) ((s.setQueue i (f (s.loops i).queue)).view id) := by
  rw [view_setQueue, hpart, hpart]
  by_cases hi : (s.connection id).ioLoop = i
  · subst hi
    rw [if_pos rfl, if_pos rfl, if_neg fun h => h.2 h.1]
    refine viewStep_of_eq (hen rfl) (hnext _) ?_
    simp only [TcpServer.unwoken, TcpServer.setLoop, base_unwoken, hunwoken]
    rfl
  rw [if_neg hi, if_neg (Ne.symm hi)]
  by_cases h0 : i = 0
  · subst h0
    have hbase : (s.view id).base = (s.loops 0).queue.part (Task.remove? id) := if_neg hi
    rw [if_pos rfl, if_pos ⟨rfl, hi⟩, ← hbase]
    refine viewStep_of_eq (hen' (decide_eq_false hi) hbase) (hnext' _) ?_
    simp only [TcpServer.unwoken, hunwoken, base_unwoken]
    rfl
  · rw [if_neg h0, if_neg fun h => h0 h.1]
    rfl

theorem viewStep_swapFunctors (h : s.enabled (.swapFunctors i) = true) (id : Nat) :
    ViewStep (s.view id) (s.viewLabel id (.swapFunctors i))
      ((s.nextState (.swapFunctors i)).view id) := by
  simp only [enabled, Bool.and_eq_true, decide_eq_true_eq] at h
  have hcalling := h.2
  simp only [IoLoop.idle, Bool.and_eq_true, Bool.not_eq_true'] at hcalling
  refine viewStep_setQueue (fun _ => rfl) (fun _ => rfl) (fun _ => rfl) (fun _ => rfl) ?_ ?_
  · rintro rfl
    exact idle_view h.2
  · intro hsame hbase
    simp [TcpServer.enabled, hsame, hbase, EventLoop.part, hcalling.2]

theorem viewStep_endFunctors (h : s.enabled (.endFunctors i) = true) (id : Nat) :
    ViewStep (s.view id) (s.viewLabel id (.endFunctors i))
      ((s.nextState (.endFunctors i)).view id) := by
  simp only [enabled, Bool.and_eq_true, List.isEmpty_iff] at h
  refine viewStep_setQueue (fun _ => rfl) (fun _ => rfl) (fun _ => rfl) (fun _ => rfl) ?_ ?_
  · rintro rfl
    simp [TcpServer.enabled, view, EventLoop.part, h.1, h.2]
  · intro _ hbase
    simp [TcpServer.enabled, hbase, EventLoop.part, h.1, h.2]

theorem current_of_actions {v : TcpServer} (h : v.actions = (s.view id).actions) :
    (s.loops (s.connection id).ioLoop).current = id ∨ v.actions = [] := by
  by_cases hcur : (s.loops (s.connection id).ioLoop).current = id
  · exact .inl hcur
  · exact .inr (h.trans (if_neg hcur))

theorem viewStep_user {l : TcpServer.Label} {id' : Nat} (h : s.enabled (.user id' l) = true)
    (id : Nat) :
    ViewStep (s.view id) (s.viewLabel id (.user id' l)) ((s.nextState (.user id' l)).view id) := by
  simp only [enabled, Bool.and_eq_true] at h
  obtain ⟨hlocal, hactions⟩ := TcpServer.local_user h.1.2 h.2
  rw [nextState, viewLabel]
  by_cases hid : id' = id
  · subst hid
    rw [if_pos rfl]
    exact viewStep_of_eq h.2 rfl (view_put_self hlocal (current_of_actions hactions))
  · rw [if_neg hid]
    exact view_put_of_ne (Ne.symm hid) _ _

theorem viewStep_act {io : Syscalls} (hs : s.Sound) (h : s.enabled (.act i io) = true) (id : Nat) :
    ViewStep (s.view id) (s.viewLabel id (.act i io)) ((s.nextState (.act i io)).view id) := by
  simp only [enabled, Bool.and_eq_true, Bool.not_eq_true', List.isEmpty_eq_false_iff] at h
  rw [nextState, viewLabel]
  by_cases hid : (s.loops i).current = id
  · subst hid
    obtain ⟨-, hloop⟩ := hs.current i h.1
    rw [if_pos rfl]
    refine viewStep_of_eq h.2 rfl (view_put_self (TcpServer.local_act h.2) (.inl ?_))
    rw [hloop]
  · rw [if_neg hid]
    exact view_put_of_ne (Ne.symm hid) _ _

theorem view_setQueue_of_none {task : Task} {queue : EventLoop Task}
    (h : (s.loops i).queue.nextFunctor = some (task, queue)) (hfunctor : task.functor? id = none)
    (hremove : task.remove? id = none) : (s.setQueue i queue).view id = s.view id := by
  have hloop : (if i = (s.connection id).ioLoop then queue.part (Task.functor? id)
      else (s.view id).conn.loop) = (s.view id).conn.loop := by
    split_ifs with hi
    · subst hi
      exact EventLoop.part_nextFunctor_none h hfunctor
    · rfl
  have hbase : (if i = 0 ∧ (s.connection id).ioLoop ≠ 0 then queue.part (Task.remove? id)
      else (s.view id).base) = (s.view id).base := by
    split_ifs with hi
    · obtain ⟨rfl, hother⟩ := hi
      exact (EventLoop.part_nextFunctor_none h hremove).trans (if_neg hother).symm
    · rfl
  rw [view_setQueue, hloop, hbase]

theorem view_setQueue_conn {f : Functor} {queue : EventLoop Task} (hs : s.Sound)
    (h : (s.loops i).queue.nextFunctor = some (.conn id f, queue)) :
    ∃ m, (s.view id).conn.loop.nextFunctor = some (f, m) ∧
      (s.setQueue i queue).view id = (s.view id).setLoop m := by
  have hmem : Task.conn id f ∈ (s.loops i).queue.kept := by
    rw [EventLoop.kept, EventLoop.waiting_nextFunctor h]
    simp
  obtain ⟨-, rfl⟩ := hs.queue i _ hmem
  refine ⟨queue.part (Task.functor? id), EventLoop.part_nextFunctor_some h (if_pos rfl), ?_⟩
  rw [view_setQueue, if_pos rfl, if_neg fun h => h.2 h.1]
  rfl

theorem view_setQueue_remove {queue : EventLoop Task} (hs : s.Sound)
    (h : (s.loops i).queue.nextFunctor = some (.removeConnectionInLoop id, queue)) :
    ∃ m, (s.view id).base.nextFunctor = some ((), m) ∧
      (s.setQueue i queue).view id = { s.view id with base := m } := by
  have hmem : Task.removeConnectionInLoop id ∈ (s.loops i).queue.kept := by
    rw [EventLoop.kept, EventLoop.waiting_nextFunctor h]
    simp
  obtain ⟨-, rfl, hother⟩ := hs.queue i _ hmem
  have hbase : (s.view id).base = (s.loops 0).queue.part (Task.remove? id) := if_neg hother
  refine ⟨queue.part (Task.remove? id), ?_, ?_⟩
  · rw [hbase]
    exact EventLoop.part_nextFunctor_some h (if_pos rfl)
  · rw [view_setQueue, if_neg (Ne.symm hother), if_pos ⟨rfl, hother⟩]

theorem runFunctor_nextState {task : Task} {queue : EventLoop Task} {io : Syscalls}
    (h : (s.loops i).queue.nextFunctor = some (task, queue)) :
    s.nextState (.runFunctor i io) = (s.setQueue i queue).runTask task io := by
  simp only [nextState, h]

theorem runFunctor_viewLabel {task : Task} {queue : EventLoop Task} {io : Syscalls}
    (h : (s.loops i).queue.nextFunctor = some (task, queue)) (id : Nat) :
    s.viewLabel id (.runFunctor i io) =
      if task.functor? id ≠ none then some (.runFunctor io)
      else if task.remove? id ≠ none then some .baseRun else none := by
  have hfunctors := (EventLoop.nextFunctor_spec h).1
  cases task with
  | conn id' f =>
    by_cases hid : id' = id <;> simp [viewLabel, hfunctors, Task.functor?, Task.remove?, hid]
  | removeConnectionInLoop id' =>
    by_cases hid : id' = id <;> simp [viewLabel, hfunctors, Task.functor?, Task.remove?, hid]

theorem viewStep_runFunctor {io : Syscalls} (hs : s.Sound)
    (h : s.enabled (.runFunctor i io) = true) (id : Nat) :
    ViewStep (s.view id) (s.viewLabel id (.runFunctor i io))
      ((s.nextState (.runFunctor i io)).view id) := by
  simp only [enabled, Option.any_eq_true] at h
  obtain ⟨⟨task, queue⟩, hnext, hfits⟩ := h
  rw [runFunctor_nextState hnext, runFunctor_viewLabel hnext]
  cases task with
  | conn id' f =>
    by_cases hid : id' = id
    · subst hid
      obtain ⟨m, hm, hview⟩ := view_setQueue_conn hs hnext
      have hfits' : ((s.setQueue i queue).view id').fits io f = true := hview ▸ hfits
      have hlocal := TcpServer.local_runFunctor hfits'
      have hactions : (((s.setQueue i queue).view id').runFunctor f io).actions =
          ((s.setQueue i queue).view id').actions := by
        rw [TcpServer.runFunctor_eq]
      simp only [Task.functor?, if_true, ne_eq, reduceCtorEq, not_false_iff]
      refine viewStep_of_eq (u := ((s.view id').setLoop m).runFunctor f io) ?_ ?_ ?_
      · simpa only [TcpServer.enabled, hm, Option.any_some] using hfits
      · simp only [TcpServer.next, hm]
      · rw [runTask, view_put_self hlocal (current_of_actions hactions), hview]
    · have hfunctor : (Task.conn id' f).functor? id = none := if_neg hid
      rw [if_neg fun h => h hfunctor, if_neg fun h => h rfl, runTask,
        view_put_of_ne (Ne.symm hid), view_setQueue_of_none hnext hfunctor rfl]
      rfl
  | removeConnectionInLoop id' =>
    rw [if_neg fun h => h rfl]
    by_cases hid : id' = id
    · subst hid
      obtain ⟨m, hm, hview⟩ := view_setQueue_remove hs hnext
      simp only [Task.remove?, if_true, ne_eq, reduceCtorEq, not_false_iff]
      refine viewStep_of_eq (u := { s.view id' with base := m }.removeConnectionInLoop) ?_ ?_ ?_
      · simp [TcpServer.enabled, (EventLoop.nextFunctor_spec hm).1]
      · simp only [TcpServer.next, hm]
      · rw [runTask, view_put_self (TcpServer.local_removeConnectionInLoop _)
          (current_of_actions rfl), hview]
    · have hremove : (Task.removeConnectionInLoop id').remove? id = none := if_neg hid
      rw [if_neg fun h => h hremove, runTask, view_put_of_ne (Ne.symm hid),
        view_setQueue_of_none hnext rfl hremove]
      rfl

theorem polls_of_lookup {events : List (Nat × BitVec 32)} {revents : BitVec 32}
    (h : (events.all fun e => s.polls i e.1) = true) (hid : events.lookup id = some revents) :
    id ∈ events.map Prod.fst ∧ (s.connection id).ioLoop = i ∧
      (s.connection id).conn.channel.interest.isSome = true := by
  obtain ⟨before, after, rfl, -⟩ := List.lookup_eq_some_iff.mp hid
  have hpolls := List.all_eq_true.mp h (id, revents) (by simp)
  simp only [polls, Bool.and_eq_true, decide_eq_true_eq] at hpolls
  exact ⟨by simp, hpolls.1.2, hpolls.2⟩

theorem notMem_of_lookup {events : List (Nat × BitVec 32)} (h : events.lookup id = none) :
    id ∉ events.map Prod.fst := by
  intro hmem
  obtain ⟨e, he, rfl⟩ := List.mem_map.mp hmem
  simpa using List.lookup_eq_none_iff.mp h e he

theorem view_setLoop (s : Server) (i : Nat) (active : List Nat) (current : Nat)
    (actions : List Action) (id : Nat) :
    (s.setLoop i ⟨(s.loops i).queue, active, current, actions⟩).view id = { s.view id with
      active := if (s.connection id).ioLoop = i then decide (id ∈ active) else (s.view id).active
      actions := if (s.connection id).ioLoop = i then (if current = id then actions else [])
        else (s.view id).actions } := by
  have hconnection : (s.setLoop i ⟨(s.loops i).queue, active, current, actions⟩).connection id =
      s.connection id := rfl
  have hqueue : ∀ j, ((s.setLoop i ⟨(s.loops i).queue, active, current, actions⟩).loops j).queue =
      (s.loops j).queue := by
    intro j
    simp only [setLoop, Function.update_apply]
    split_ifs with hj
    · rw [hj]
    · rfl
  by_cases hi : (s.connection id).ioLoop = i
  · have hloop : (s.setLoop i ⟨(s.loops i).queue, active, current, actions⟩).loops i = _ :=
      Function.update_self _ _ _
    rw [if_pos hi, if_pos hi]
    simp only [view, hqueue]
    rw [hconnection, hi, hloop]
    rfl
  · have hloop : (s.setLoop i ⟨(s.loops i).queue, active, current, actions⟩).loops
        (s.connection id).ioLoop = _ := Function.update_of_ne hi _ _
    rw [if_neg hi, if_neg hi]
    simp only [view, hqueue]
    rw [hconnection, hloop]
    rfl

theorem view_poll_none {events : List (Nat × BitVec 32)} (h : events.lookup id = none) :
    (s.poll i events).view id =
      (s.setLoop i { s.loops i with activeChannels := events.map Prod.fst }).view id := by
  have hconnection : (s.poll i events).connection id = s.connection id := by
    simp only [poll, setLoop, h]
  simp only [view, hconnection]
  rfl

theorem view_poll_some {events : List (Nat × BitVec 32)} {revents : BitVec 32} {v : TcpServer}
    (hv : (s.setLoop i { s.loops i with activeChannels := events.map Prod.fst }).view id = v)
    (h : events.lookup id = some revents) :
    (s.poll i events).view id = { v with
      conn := { v.conn with channel := { v.conn.channel with revents := revents } } } := by
  have hconnection : (s.poll i events).connection id =
      { s.connection id with conn := { (s.connection id).conn with
          channel := { (s.connection id).conn.channel with revents := revents } } } := by
    simp only [poll, setLoop, h]
  subst hv
  simp only [view, hconnection]
  rfl

theorem viewStep_poll {events : List (Nat × BitVec 32)} (h : s.enabled (.poll i events) = true)
    (id : Nat) :
    ViewStep (s.view id) (s.viewLabel id (.poll i events))
      ((s.nextState (.poll i events)).view id) := by
  simp only [enabled, Bool.and_eq_true, decide_eq_true_eq] at h
  obtain ⟨⟨⟨-, hidle⟩, -⟩, hpolls⟩ := h
  have hset := s.view_setLoop i (events.map Prod.fst) (s.loops i).current (s.loops i).actions id
  rw [nextState, viewLabel]
  cases hid : events.lookup id with
  | none =>
    refine ((view_poll_none hid).trans hset).trans ?_
    split_ifs with hi hcur
    · subst hi
      simp only [IoLoop.idle, Bool.and_eq_true, List.isEmpty_iff] at hidle
      simp [view, notMem_of_lookup hid, hidle.1.2, hcur]
    · subst hi
      simp only [IoLoop.idle, Bool.and_eq_true, List.isEmpty_iff] at hidle
      simp [view, notMem_of_lookup hid, hidle.1.2, hcur]
    · rfl
  | some revents =>
    obtain ⟨hmem, rfl, hinterest⟩ := polls_of_lookup hpolls hid
    refine viewStep_of_eq (l := .poll revents) ?_ rfl ?_
    · simp only [TcpServer.enabled, Bool.and_eq_true]
      exact ⟨idle_view hidle, hinterest⟩
    · rw [view_poll_some hset hid, if_pos rfl, if_pos rfl, decide_eq_true hmem]
      simp only [TcpServer.next, TcpServer.unwoken, base_unwoken]
      rfl

theorem handleEvent_nextState {id' : Nat} {rest : List Nat}
    (h : (s.loops i).activeChannels = id' :: rest) :
    s.nextState (.handleEvent i) =
      s.setLoop i ⟨(s.loops i).queue, rest, id', ((s.view id').next .handleEvent).actions⟩ := by
  simp only [nextState, handleEvent, h]

theorem viewStep_handleEvent (hs : s.Sound) (h : s.enabled (.handleEvent i) = true) (id : Nat) :
    ViewStep (s.view id) (s.viewLabel id (.handleEvent i))
      ((s.nextState (.handleEvent i)).view id) := by
  simp only [enabled, Bool.and_eq_true, Bool.not_eq_true', List.isEmpty_iff,
    List.isEmpty_eq_false_iff] at h
  obtain ⟨hactions, hne⟩ := h
  obtain ⟨id', rest, hactive⟩ := List.exists_cons_of_ne_nil hne
  have hnodup : id' ∉ rest := (List.nodup_cons.mp (hactive ▸ hs.nodup i)).1
  have hloop : (s.connection id').ioLoop = i := (hs.active i id' (by simp [hactive])).2
  rw [handleEvent_nextState hactive, view_setLoop, viewLabel, hactive]
  by_cases hid : id' = id
  · subst hid
    rw [if_pos (List.head?_cons), if_pos hloop, if_pos hloop, if_pos rfl, decide_eq_false hnodup]
    refine viewStep_of_eq ?_ rfl ?_
    · simp [TcpServer.enabled, view, hloop, hactive]
    · simp only [TcpServer.next, TcpServer.unwoken, base_unwoken]
      rfl
  · have hhead : (id' :: rest).head? ≠ some id := fun h => hid (Option.some.inj h)
    rw [if_neg hhead]
    by_cases hi : (s.connection id).ioLoop = i
    · rw [if_pos hi, if_pos hi, if_neg hid]
      have hnil : (s.view id).actions = [] := by simp [view, hi, hactions]
      have hmem : (s.view id).active = decide (id ∈ rest) := by
        simp [view, hi, hactive, Ne.symm hid]
      rw [ViewStep, ← hnil, ← hmem]
    · rw [if_neg hi, if_neg hi]
      rfl

theorem put_alive (s : Server) (id : Nat) (v : TcpServer) (b : Bool) :
    s.put id { v with alive := b } = s.put id v := rfl

theorem local_destroy (v : TcpServer) : Local v { v.destroy with alive := v.alive } := by
  simp only [TcpServer.destroy]
  split_ifs
  · exact TcpServer.local_of_eq (by simpa using .refl _) rfl rfl rfl rfl rfl
  · exact TcpServer.local_of_eq (v.conn.loop.extends_queueInLoop false .connectDestroyed)
      rfl rfl rfl rfl rfl
  · exact TcpServer.local_of_eq (.refl _) rfl rfl rfl rfl rfl

theorem actions_destroy (v : TcpServer) : v.destroy.actions = v.actions := by
  simp only [TcpServer.destroy]
  split_ifs <;> rfl

theorem destroy_loop (hs : s.Sound) {ids : List Nat} (hnodup : ids.Nodup)
    (hcreated : ∀ id ∈ ids, s.created id = true) :
    let m := ids.foldl (fun s id => s.put id (s.view id).destroy) s
    m.Sound ∧ m.nextConnId = s.nextConnId ∧ ∀ id, m.view id =
      if id ∈ ids then { (s.view id).destroy with alive := s.alive }.unwoken else s.view id := by
  induction ids generalizing s with
  | nil => exact ⟨hs, rfl, fun id => (if_neg List.not_mem_nil).symm⟩
  | cons id' ids ih =>
    obtain ⟨hnotMem, hnodup⟩ := List.nodup_cons.mp hnodup
    have hlocal := local_destroy (s.view id')
    have hself := view_put_self hlocal (current_of_actions (actions_destroy (s.view id')))
    have hput := hs.put (hcreated id' List.mem_cons_self) hlocal
    rw [put_alive] at hself hput
    obtain ⟨hsound, hnext, hview⟩ := ih hput hnodup fun id hid =>
      hcreated id (List.mem_cons_of_mem _ hid)
    refine ⟨hsound, hnext, fun id => (hview id).trans ?_⟩
    by_cases hid : id = id'
    · subst hid
      rw [if_neg hnotMem, if_pos List.mem_cons_self, hself]
      rfl
    · rw [view_put_of_ne hid]
      simp only [List.mem_cons, hid, false_or]
      rfl

theorem alive_destroy (v : TcpServer) : { v.destroy with alive := false } = v.destroy := by
  simp only [TcpServer.destroy]
  split_ifs <;> rfl

theorem destroy_of_notInMap {v : TcpServer} (h : v.inMap = false) :
    v.destroy = { v with alive := false } := by
  rw [TcpServer.destroy, if_neg (by simpa using h)]

theorem view_unwoken (s : Server) (id : Nat) : (s.view id).unwoken = s.view id := by
  simp only [TcpServer.unwoken, base_unwoken]
  rfl

theorem viewStep_destroyServer {ids : List Nat} (hs : s.Sound)
    (h : s.enabled (.destroyServer ids) = true) (hid : s.created id = true) :
    ViewStep (s.view id) (s.viewLabel id (.destroyServer ids))
      ((s.nextState (.destroyServer ids)).view id) := by
  simp only [enabled, Bool.and_eq_true, decide_eq_true_eq, List.all_eq_true] at h
  obtain ⟨⟨⟨halive, hnodup⟩, hcreated⟩, hall⟩ := h
  obtain ⟨-, -, hview⟩ := destroy_loop hs hnodup hcreated
  have hdestroyed : (s.nextState (.destroyServer ids)).view id =
      { (ids.foldl (fun s id => s.put id (s.view id).destroy) s).view id with alive := false } :=
    rfl
  refine viewStep_of_eq (u := (s.view id).destroy) halive rfl ?_
  rw [hdestroyed, hview]
  split_ifs with hmem
  · exact congrArg TcpServer.unwoken (alive_destroy (s.view id))
  · have hlt : id < s.nextConnId := by
      simp only [created, Bool.and_eq_true, decide_eq_true_eq] at hid
      exact hid.2
    have hinMap : (s.view id).inMap = false := by
      simpa [hmem, view] using hall id (List.mem_range.mpr hlt)
    rw [destroy_of_notInMap hinMap]
    exact congrArg (fun v : TcpServer => { v with alive := false }) (s.view_unwoken id).symm

theorem Sound.setLoop (hs : s.Sound) {active : List Nat} {current : Nat} {actions : List Action}
    (hnodup : active.Nodup)
    (hactive : ∀ id ∈ active, s.created id = true ∧ (s.connection id).ioLoop = i)
    (hcurrent : actions ≠ [] → s.created current = true ∧ (s.connection current).ioLoop = i) :
    (s.setLoop i ⟨(s.loops i).queue, active, current, actions⟩).Sound := by
  have hloops : ∀ j, (s.setLoop i ⟨(s.loops i).queue, active, current, actions⟩).loops j =
      if j = i then ⟨(s.loops i).queue, active, current, actions⟩ else s.loops j :=
    fun j => Function.update_apply _ _ _ _
  refine ⟨hs.nextConnId, fun j task hmem => ?_, fun j id hmem => ?_, fun j => ?_, fun j hne => ?_⟩
  · rw [hloops] at hmem
    split_ifs at hmem with hj
    · exact hj ▸ hs.queue i task hmem
    · exact hs.queue j task hmem
  · rw [hloops] at hmem
    split_ifs at hmem with hj
    · exact hj ▸ hactive id hmem
    · exact hs.active j id hmem
  · rw [hloops]
    split_ifs
    · exact hnodup
    · exact hs.nodup j
  · rw [hloops] at hne ⊢
    split_ifs at hne ⊢ with hj
    · exact hj ▸ hcurrent hne
    · exact hs.current j hne

theorem Sound.of_ioLoop (hs : s.Sound) (hnext : t.nextConnId = s.nextConnId)
    (hloops : t.loops = s.loops) (hioLoop : ∀ id, (t.connection id).ioLoop =
      (s.connection id).ioLoop) : t.Sound := by
  have hcreated : ∀ id, t.created id = s.created id := fun id => by rw [created, created, hnext]
  refine ⟨hnext ▸ hs.nextConnId, fun j task hmem => ?_, fun j id hmem => ?_, fun j => ?_,
    fun j hne => ?_⟩
  · have hruns := hs.queue j task (hloops ▸ hmem)
    cases task <;> simpa only [Runs, hcreated, hioLoop] using hruns
  · rw [hcreated, hioLoop]
    exact hs.active j id (hloops ▸ hmem)
  · exact hloops ▸ hs.nodup j
  · rw [hcreated, hioLoop, hloops]
    exact hs.current j (hloops ▸ hne)

theorem Sound.poll {events : List (Nat × BitVec 32)} (hs : s.Sound)
    (h : s.enabled (.poll i events) = true) : (s.poll i events).Sound := by
  simp only [enabled, Bool.and_eq_true, decide_eq_true_eq, List.all_eq_true] at h
  obtain ⟨⟨-, hnodup⟩, hpolls⟩ := h
  have hset : (s.setLoop i { s.loops i with activeChannels := events.map Prod.fst }).Sound := by
    refine hs.setLoop hnodup (fun id hid => ?_) (hs.current i)
    obtain ⟨e, he, rfl⟩ := List.mem_map.mp hid
    have hpoll := hpolls e he
    simp only [polls, Bool.and_eq_true, decide_eq_true_eq] at hpoll
    exact hpoll.1
  refine hset.of_ioLoop rfl rfl fun id => ?_
  simp only [Server.poll]
  split <;> rfl

theorem Sound.handleEvent (hs : s.Sound) (h : s.enabled (.handleEvent i) = true) :
    (s.nextState (.handleEvent i)).Sound := by
  simp only [enabled, Bool.and_eq_true, Bool.not_eq_true', List.isEmpty_eq_false_iff] at h
  obtain ⟨id, rest, hactive⟩ := List.exists_cons_of_ne_nil h.2
  have hsound : ∀ id' ∈ id :: rest, s.created id' = true ∧ (s.connection id').ioLoop = i :=
    fun id' hid => hs.active i id' (hactive ▸ hid)
  rw [handleEvent_nextState hactive]
  exact hs.setLoop (List.nodup_cons.mp (hactive ▸ hs.nodup i)).2
    (fun id' hid => hsound id' (List.mem_cons_of_mem _ hid))
    fun _ => hsound id List.mem_cons_self

theorem Sound.runFunctor {io : Syscalls} (hs : s.Sound)
    (h : s.enabled (.runFunctor i io) = true) : (s.nextState (.runFunctor i io)).Sound := by
  simp only [enabled, Option.any_eq_true] at h
  obtain ⟨⟨task, queue⟩, hnext, hfits⟩ := h
  have hmem : task ∈ (s.loops i).queue.kept := by
    rw [EventLoop.kept, EventLoop.waiting_nextFunctor hnext]
    simp
  have hset : (s.setQueue i queue).Sound :=
    hs.setQueue (EventLoop.kept_nextFunctor hnext ▸ List.Subset.refl _)
  rw [runFunctor_nextState hnext]
  cases task with
  | conn id f =>
    refine hset.put (hs.queue i _ hmem).1 (TcpServer.local_runFunctor ?_)
    obtain ⟨m, -, hview⟩ := view_setQueue_conn hs hnext
    rw [hview]
    exact hfits
  | removeConnectionInLoop id =>
    exact hset.put (hs.queue i _ hmem).1 (TcpServer.local_removeConnectionInLoop _)

theorem kept_endFunctors_subset (l : EventLoop Task) : l.endFunctors.kept ⊆ l.kept := by
  intro task hmem
  have hmem : task ∈ l.pendingFunctors := by
    simpa [EventLoop.endFunctors, EventLoop.kept, EventLoop.waiting] using hmem
  exact List.mem_append_right _ (List.mem_append_right _ hmem)

theorem Sound.step {l : Label} (hs : s.Sound) (h : step s l = some t) : t.Sound := by
  obtain ⟨hen, rfl⟩ := step_eq_some.mp h
  cases l with
  | newConnection => exact hs.newConnection
  | poll i events => exact hs.poll hen
  | handleEvent i => exact hs.handleEvent hen
  | act i io =>
    simp only [enabled, Bool.and_eq_true, Bool.not_eq_true', List.isEmpty_eq_false_iff] at hen
    exact hs.put (hs.current i hen.1).1 (TcpServer.local_act hen.2)
  | swapFunctors i =>
    simp only [enabled, IoLoop.idle, Bool.and_eq_true, Bool.not_eq_true'] at hen
    exact hs.setQueue (EventLoop.kept_swapFunctors hen.2.2 ▸ List.Subset.refl _)
  | runFunctor i io => exact hs.runFunctor hen
  | endFunctors i => exact hs.setQueue (kept_endFunctors_subset _)
  | user id l =>
    simp only [enabled, Bool.and_eq_true] at hen
    exact hs.put hen.1.1 (TcpServer.local_user hen.1.2 hen.2).1
  | newString _ _ | overwrite _ _ | release _ => exact hs.of_ioLoop rfl rfl fun _ => rfl
  | destroyServer ids =>
    simp only [enabled, Bool.and_eq_true, decide_eq_true_eq, List.all_eq_true] at hen
    obtain ⟨hsound, -, -⟩ := destroy_loop hs hen.1.1.2 hen.1.2
    exact hsound.of_ioLoop rfl rfl fun _ => rfl

theorem lt_of_created (h : s.created id = true) : id < s.nextConnId := by
  simp only [created, Bool.and_eq_true, decide_eq_true_eq] at h
  exact h.2

theorem view_strings (hcreated : s.created id = true) {address : Nat}
    (h : s.unused address = true) : (s.view id).calls.any (Call.uses address) = false := by
  have hid := List.all_eq_true.mp h id (List.mem_range.mpr (lt_of_created hcreated))
  simpa [view] using hid

/-- A step of the server is a step of each of its connections, or none. -/
theorem view_step {l : Label} (hs : s.Sound) (h : step s l = some t)
    (hid : s.created id = true) : ViewStep (s.view id) (s.viewLabel id l) (t.view id) := by
  obtain ⟨hen, rfl⟩ := step_eq_some.mp h
  cases l with
  | newConnection => exact view_newConnection_of_ne (Nat.ne_of_lt (lt_of_created hid))
  | poll i events => exact viewStep_poll hen id
  | handleEvent i => exact viewStep_handleEvent hs hen id
  | act i io => exact viewStep_act hs hen id
  | swapFunctors i => exact viewStep_swapFunctors hen id
  | runFunctor i io => exact viewStep_runFunctor hs hen id
  | endFunctors i => exact viewStep_endFunctors hen id
  | user id' l => exact viewStep_user hen id
  | newString address content =>
    refine viewStep_of_eq hen rfl ?_
    simp only [TcpServer.next, TcpServer.unwoken, base_unwoken]
    rfl
  | overwrite address _ | release address =>
    simp only [enabled, Bool.and_eq_true] at hen
    refine viewStep_of_eq ?_ rfl ?_
    · simp only [TcpServer.enabled, view_strings hid hen.2]
      simpa [view] using hen.1
    · simp only [TcpServer.next, TcpServer.unwoken, base_unwoken]
      rfl
  | destroyServer ids => exact viewStep_destroyServer hs hen hid

theorem nextConnId_step {l : Label} (hs : s.Sound) (h : step s l = some t)
    (hl : l ≠ .newConnection) : t.nextConnId = s.nextConnId := by
  obtain ⟨hen, rfl⟩ := step_eq_some.mp h
  cases l with
  | newConnection => exact absurd rfl hl
  | destroyServer ids =>
    simp only [enabled, Bool.and_eq_true, decide_eq_true_eq, List.all_eq_true] at hen
    exact (destroy_loop hs hen.1.1.2 hen.1.2).2.1
  | handleEvent i =>
    simp only [nextState, handleEvent]
    split <;> rfl
  | runFunctor i io =>
    simp only [nextState, runTask]
    split
    · rfl
    · split <;> rfl
  | _ => rfl

theorem created_step {l : Label} (hs : s.Sound) (h : step s l = some t)
    (hid : t.created id = true) :
    s.created id = true ∨ l = .newConnection ∧ id = s.nextConnId := by
  by_cases hl : l = .newConnection
  · subst hl
    obtain ⟨-, rfl⟩ := step_eq_some.mp h
    have hlt : id < s.nextConnId + 1 := lt_of_created hid
    rcases Nat.lt_or_eq_of_le (Nat.le_of_lt_succ hlt) with hlt | heq
    · simp only [created, Bool.and_eq_true, decide_eq_true_eq] at hid ⊢
      exact .inl ⟨hid.1, hlt⟩
    · exact .inr ⟨rfl, heq⟩
  · rw [created, nextConnId_step hs h hl] at hid
    exact .inl hid

theorem created_of_step {l : Label} (hs : s.Sound) (h : step s l = some t)
    (hid : s.created id = true) : t.created id = true := by
  by_cases hl : l = .newConnection
  · subst hl
    obtain ⟨-, rfl⟩ := step_eq_some.mp h
    exact (created_addConnection hid).1
  · rw [created, nextConnId_step hs h hl]
    exact hid

end Steps

section Runs

def onEach (p : TcpServer → TcpServer.Label → Bool) (s : Server) (l : Label) : Bool :=
  (List.range s.nextConnId).all fun id => !s.created id || (s.viewLabel id l).all (p (s.view id))

theorem onEach_spec {p : TcpServer → TcpServer.Label → Bool} {l : Label}
    (h : s.onEach p l = true) (hid : s.created id = true) {l' : TcpServer.Label}
    (hl : s.viewLabel id l = some l') : p (s.view id) l' = true := by
  have hall := List.all_eq_true.mp h id (List.mem_range.mpr (lt_of_created hid))
  simpa [hid, hl] using hall

structure Views (I : TcpServer → Prop) (s : Server) : Prop where
  sound : s.Sound
  view : ∀ id, s.created id = true → I (s.view id)

theorem views_new (I : TcpServer → Prop) (numThreads : Nat) (writeCompleteCallback : Bool) :
    (new numThreads writeCompleteCallback).Views I where
  sound := sound_new _ _
  view id hid := by
    simp [created, new] at hid
    omega

/-- What a connection has at its start and keeps in its own steps that meet `p` is kept by the
steps of the server that do. -/
theorem Views.step {I : TcpServer → Prop} {p : TcpServer → TcpServer.Label → Bool}
    (hstart : ∀ v : TcpServer, v.Connecting ∨ v.Started → I v)
    (hunwoken : ∀ v, I v → I v.unwoken)
    (hstep : ∀ v l u, I v → p v l = true → TcpServer.step v l = some u → I u)
    {l : Label} (hs : s.Views I) (hp : s.onEach p l = true) (h : Server.step s l = some t) :
    t.Views I := by
  refine ⟨hs.sound.step h, fun id hid => ?_⟩
  rcases created_step hs.sound h hid with hold | ⟨rfl, rfl⟩
  · have hview := view_step hs.sound h hold
    cases hl : s.viewLabel id l with
    | none =>
      rw [hl] at hview
      exact hview ▸ hs.view id hold
    | some l' =>
      rw [hl] at hview
      obtain ⟨u, hu, heq⟩ := hview
      exact heq ▸ hunwoken u (hstep _ l' u (hs.view id hold) (onEach_spec hp hold hl) hu)
  · obtain ⟨hen, rfl⟩ := step_eq_some.mp h
    simp only [enabled, Bool.and_eq_true] at hen
    exact hstart _ (view_newConnection hs.sound hen.1.1)

theorem invariant_view {I : TcpServer → Prop} {p : TcpServer → TcpServer.Label → Bool}
    (hstart : ∀ v : TcpServer, v.Connecting ∨ v.Started → I v)
    (hunwoken : ∀ v, I v → I v.unwoken)
    (hstep : ∀ v l u, I v → p v l = true → TcpServer.step v l = some u → I u)
    {numThreads : Nat} {writeCompleteCallback : Bool} {ls : List Label}
    (hp : Along step (fun s l => s.onEach p l = true) (new numThreads writeCompleteCallback) ls)
    (h : run step (new numThreads writeCompleteCallback) ls = some s)
    (hid : s.created id = true) : I (s.view id) :=
  (invariant_along (fun _ _ _ hs hp ht => hs.step hstart hunwoken hstep hp ht)
    (views_new I _ _) hp h).view id hid

theorem onEach_iff {p : TcpServer → TcpServer.Label → Bool} {l : Label} :
    s.onEach p l = true ↔ ∀ id, s.created id = true → ∀ l', s.viewLabel id l = some l' →
      p (s.view id) l' = true := by
  refine ⟨fun h id hid l' => onEach_spec h hid, fun h => List.all_eq_true.mpr fun id _ => ?_⟩
  by_cases hid : s.created id = true
  · cases hl : s.viewLabel id l with
    | none => simp
    | some l' => simp [h id hid l' hl]
  · simp [hid]

/-- What a connection has after its own step exactly if it had it before and the step meets `p`,
all connections have after a step of the server exactly if they had it and that step does. -/
theorem Views.forall_iff {I J : TcpServer → Prop} {p : TcpServer → TcpServer.Label → Bool}
    (hstart : ∀ v : TcpServer, v.Connecting ∨ v.Started → J v)
    (hunwoken : ∀ v : TcpServer, J v.unwoken ↔ J v)
    (hstep : ∀ v l u, I v → TcpServer.step v l = some u → (J u ↔ J v ∧ p v l = true))
    {l : Label} (hs : s.Views I) (h : Server.step s l = some t) :
    (∀ id, t.created id = true → J (t.view id)) ↔
      (∀ id, s.created id = true → J (s.view id)) ∧ s.onEach p l = true := by
  have hold : ∀ id, s.created id = true → (J (t.view id) ↔ J (s.view id) ∧
      ∀ l', s.viewLabel id l = some l' → p (s.view id) l' = true) := by
    intro id hid
    have hview := view_step hs.sound h hid
    cases hl : s.viewLabel id l with
    | none =>
      rw [hl] at hview
      rw [hview]
      simp
    | some l' =>
      rw [hl] at hview
      obtain ⟨u, hu, heq⟩ := hview
      rw [heq, hunwoken, hstep _ l' u (hs.view id hid) hu]
      simp
  rw [onEach_iff]
  constructor
  · intro ht
    have hkept : ∀ id, s.created id = true → t.created id = true := fun id hid =>
      created_of_step hs.sound h hid
    exact ⟨fun id hid => ((hold id hid).mp (ht id (hkept id hid))).1,
      fun id hid => ((hold id hid).mp (ht id (hkept id hid))).2⟩
  · rintro ⟨hJ, hp⟩ id hid
    rcases created_step hs.sound h hid with hid | ⟨rfl, rfl⟩
    · exact (hold id hid).mpr ⟨hJ id hid, hp id hid⟩
    · obtain ⟨hen, rfl⟩ := step_eq_some.mp h
      simp only [enabled, Bool.and_eq_true] at hen
      exact hstart _ (view_newConnection hs.sound hen.1.1)

end Runs

end WebServer.Mymuduo.Server
