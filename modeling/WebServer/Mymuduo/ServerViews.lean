import WebServer.Mymuduo.ConnectionStep
import WebServer.Mymuduo.Server

namespace WebServer.Mymuduo

open WebServer.Lib

namespace EventLoop

variable {α β : Type} {g : α → Option β} {f : β → α} {l m : EventLoop α} {old new : EventLoop β}

def unwoken (l : EventLoop β) : EventLoop β := { l with wakeupFd := 0 }

structure Extends (old new : EventLoop β) : Prop where
  functors : new.functors = old.functors
  ran : new.ran = old.ran
  calling : new.callingPendingFunctors = old.callingPendingFunctors
  pending : old.pendingFunctors <+: new.pendingFunctors

theorem Extends.refl (l : EventLoop β) : Extends l l := ⟨rfl, rfl, rfl, List.prefix_refl _⟩

theorem extends_queueInLoop (l : EventLoop β) (b : Bool) (cb : β) :
    Extends l (l.queueInLoop b cb) :=
  ⟨by simp, by simp, by simp, by simp⟩

theorem part_nextFunctor_some {a : α} {b : β} (h : l.nextFunctor = some (a, m))
    (hg : g a = some b) : (l.part g).nextFunctor = some (b, m.part g) := by
  obtain ⟨hfunctors, hran, hpending, hcalling⟩ := nextFunctor_spec h
  cases hnext : (l.part g).nextFunctor with
  | none =>
    have hnil := nextFunctor_eq_none.mp hnext
    simp [part, hfunctors, hg] at hnil
  | some p =>
    obtain ⟨b', m'⟩ := p
    obtain ⟨hfunctors', hran', hpending', hcalling'⟩ := nextFunctor_spec hnext
    have hwakeup := wakeupFd_nextFunctor hnext
    simp only [part, hfunctors, List.filterMap_cons, hg, List.cons.injEq] at hfunctors'
    obtain ⟨rfl, htail⟩ := hfunctors'
    refine congrArg some (congrArg (Prod.mk b) (EventLoop.ext ?_ ?_ ?_ ?_ ?_))
    · simpa [part, hpending] using hpending'
    · exact htail.symm
    · simpa [part, hran, hg] using hran'
    · simpa [part, hcalling] using hcalling'
    · exact hwakeup

theorem part_nextFunctor_none {a : α} (h : l.nextFunctor = some (a, m)) (hg : g a = none) :
    m.part g = l.part g := by
  obtain ⟨hfunctors, hran, hpending, hcalling⟩ := nextFunctor_spec h
  refine EventLoop.ext ?_ ?_ ?_ ?_ rfl
  · simp [part, hpending]
  · simp [part, hfunctors, hg]
  · simp [part, hran, hg]
  · simp [part, hcalling]

theorem part_receive (hg : ∀ b, g (f b) = some b) (h : Extends (l.part g) new) :
    (l.receive f (l.part g) new).part g = new.unwoken := by
  obtain ⟨added, hadded⟩ := h.pending
  refine EventLoop.ext ?_ h.functors.symm h.ran.symm h.calling.symm rfl
  have hmap : (added.map f).filterMap g = added := by
    simp [List.filterMap_map, hg]
  simp only [part, receive, unwoken, ← hadded, List.drop_left, List.filterMap_append, hmap]

theorem part_receive_of_none {γ : Type} {g : α → Option γ} (hg : ∀ b, g (f b) = none) :
    (l.receive f old new).part g = l.part g := by
  refine EventLoop.ext ?_ rfl rfl rfl rfl
  have hnone : g ∘ f = fun _ => none := funext hg
  simp only [part, receive, List.filterMap_append, List.filterMap_map, hnone]
  simp

theorem receive_refl (l : EventLoop α) (old : EventLoop β) : l.receive f old old = l := by
  refine EventLoop.ext ?_ rfl rfl rfl ?_ <;> simp [receive]

end EventLoop

namespace TcpServer

def unwoken (s : TcpServer) : TcpServer :=
  { s with
    conn := { s.conn with loop := s.conn.loop.unwoken }
    base := s.base.unwoken }

structure Local (s t : TcpServer) : Prop where
  loop : EventLoop.Extends s.conn.loop t.conn.loop
  base : EventLoop.Extends s.base t.base
  sameBase : s.sameLoop = true → t.base = s.base
  sameLoop : t.sameLoop = s.sameLoop
  alive : t.alive = s.alive
  active : t.active = s.active
  strings : t.strings = s.strings

variable {s t : TcpServer}

theorem extends_of_queued {l m : EventLoop Functor} (h : TcpConnection.QueuedCallbacks l m) :
    EventLoop.Extends l m := by
  obtain ⟨fs, hfs, -⟩ := h.pending
  exact ⟨h.functors, h.ran, h.calling, hfs ▸ List.prefix_append _ _⟩

theorem local_of_eq (hloop : EventLoop.Extends s.conn.loop t.conn.loop) (hbase : t.base = s.base)
    (hsame : t.sameLoop = s.sameLoop) (halive : t.alive = s.alive) (hactive : t.active = s.active)
    (hstrings : t.strings = s.strings) : Local s t :=
  ⟨hloop, hbase ▸ .refl _, fun _ => hbase, hsame, halive, hactive, hstrings⟩

theorem local_removeConnectionInLoop (s : TcpServer) : Local s s.removeConnectionInLoop :=
  local_of_eq (EventLoop.extends_queueInLoop _ _ _) rfl rfl rfl rfl rfl

theorem local_act {io : Syscalls} (h : s.enabled (.act io) = true) :
    Local s (s.next (.act io)) := by
  obtain ⟨a, rest, -, hact⟩ := act_cases h
  rw [hact]
  by_cases ha : a = .closeCallback
  · subst ha
    simp only [act, removeConenction]
    split
    · exact local_of_eq (EventLoop.extends_queueInLoop _ _ _) rfl rfl rfl rfl rfl
    · next hsame =>
      exact ⟨.refl _, s.base.extends_queueInLoop false (), fun h => absurd h hsame, rfl, rfl, rfl,
        rfl⟩
  · have hloop := extends_of_queued (s.act_loop rest io ha)
    rw [s.act_eq rest io ha] at hloop ⊢
    exact local_of_eq hloop rfl rfl rfl rfl rfl

theorem local_runFunctor {f : Functor} {io : Syscalls} (h : s.fits io f = true) :
    Local s (s.runFunctor f io) := by
  have hloop := extends_of_queued (s.runFunctor_loop f io h)
  rw [s.runFunctor_eq] at hloop ⊢
  exact local_of_eq hloop rfl rfl rfl rfl rfl

theorem local_of_loop (hloop : EventLoop.Extends s.conn.loop t.conn.loop) (h : t = { s with
    conn := t.conn, calls := t.calls, held := t.held, deliveries := t.deliveries }) :
    Local s t ∧ t.actions = s.actions := by
  rw [h]
  exact ⟨local_of_eq hloop rfl rfl rfl rfl rfl, rfl⟩

theorem local_user {l : Label} (hl : Server.isUser l = true) (h : s.enabled l = true) :
    Local s (s.next l) ∧ (s.next l).actions = s.actions := by
  cases l with
  | send buf result =>
    exact local_of_loop (extends_of_queued (s.conn.send_loop (fits_of_send h))) rfl
  | sendBuffer buf result =>
    rw [next_sendBuffer]
    exact local_of_loop (extends_of_queued (s.conn.send_loop (fits_of_sendBuffer h))) rfl
  | shutdown => exact local_of_loop (by simpa [next] using .refl _) rfl
  | callSend address =>
    obtain ⟨content, -, -, hnext⟩ := callSend_cases h
    rw [hnext, beginSend]
    split <;> exact local_of_loop (.refl _) rfl
  | callSendBuffer buf =>
    rw [next_callSendBuffer, beginSend]
    split <;> exact local_of_loop (.refl _) rfl
  | callShutdown =>
    rw [next, begin]
    split <;> exact local_of_loop (.refl _) rfl
  | advance i =>
    obtain ⟨c, -, hnext⟩ := advance_cases h
    rw [hnext]
    cases c with
    | send source sent =>
      exact local_of_loop (s.conn.loop.extends_queueInLoop false (.sendInLoop source sent)) rfl
    | shutdown => exact local_of_loop (.refl _) rfl
    | shutdownStored =>
      exact local_of_loop (s.conn.loop.extends_queueInLoop false .shutdownInLoop) rfl
  | storeLost _ | hold | drop => exact local_of_loop (.refl _) rfl
  | _ => cases hl

end TcpServer

namespace Server

open TcpServer (Local)

variable {s t : Server} {id : Nat} {v : TcpServer}

theorem functor?_receive_of_ne {id' : Nat} (h : id' ≠ id) (l : EventLoop Task)
    (old new : EventLoop Functor) :
    (l.receive (.conn id) old new).part (Task.functor? id') = l.part (Task.functor? id') :=
  EventLoop.part_receive_of_none fun _ => if_neg h.symm

theorem functor?_receive_remove (l : EventLoop Task) (id id' : Nat) (old new : EventLoop Unit) :
    (l.receive (fun _ => .removeConnectionInLoop id) old new).part (Task.functor? id') =
      l.part (Task.functor? id') :=
  EventLoop.part_receive_of_none fun _ => rfl

theorem remove?_receive_conn (l : EventLoop Task) (id id' : Nat) (old new : EventLoop Functor) :
    (l.receive (.conn id) old new).part (Task.remove? id') = l.part (Task.remove? id') :=
  EventLoop.part_receive_of_none fun _ => rfl

theorem remove?_receive_of_ne {id' : Nat} (h : id' ≠ id) (l : EventLoop Task)
    (old new : EventLoop Unit) :
    (l.receive (fun _ => .removeConnectionInLoop id) old new).part (Task.remove? id') =
      l.part (Task.remove? id') :=
  EventLoop.part_receive_of_none fun _ => if_neg h.symm

theorem loops_put (s : Server) (id : Nat) (v : TcpServer) (j : Nat) :
    ((s.put id v).loops j).activeChannels = (s.loops j).activeChannels ∧
      ((s.put id v).loops j).current = (s.loops j).current ∧
      ((s.put id v).loops j).actions =
        if j = (s.connection id).ioLoop ∧ (s.loops j).current = id then v.actions
        else (s.loops j).actions := by
  simp only [put, setQueue, setLoop, setConnection, Function.update_apply]
  split_ifs <;> simp_all

theorem queue_put (s : Server) (id : Nat) (v : TcpServer) (j : Nat) :
    ((s.put id v).loops j).queue =
      if j = 0 then
        (if j = (s.connection id).ioLoop then
          (s.loops j).queue.receive (.conn id) (s.view id).conn.loop v.conn.loop
        else (s.loops j).queue).receive (fun _ => .removeConnectionInLoop id) (s.view id).base
          v.base
      else if j = (s.connection id).ioLoop then
        (s.loops j).queue.receive (.conn id) (s.view id).conn.loop v.conn.loop
      else (s.loops j).queue := by
  simp only [put, setQueue, setLoop, setConnection, Function.update_apply]
  split_ifs <;> simp_all

theorem connection_put_self (s : Server) (id : Nat) (v : TcpServer) :
    (s.put id v).connection id = { s.connection id with
      conn := { v.conn with loop := .new }
      inMap := v.inMap
      calls := v.calls
      held := v.held
      deliveries := v.deliveries } := Function.update_self _ _ _

theorem connection_put_of_ne {id' : Nat} (h : id' ≠ id) (s : Server) (v : TcpServer) :
    (s.put id v).connection id' = s.connection id' := Function.update_of_ne h _ _

theorem functors_put_of_ne {id' : Nat} (h : id' ≠ id) (s : Server) (v : TcpServer) (j : Nat) :
    ((s.put id v).loops j).queue.part (Task.functor? id') =
      (s.loops j).queue.part (Task.functor? id') := by
  rw [queue_put]
  split_ifs <;> simp only [functor?_receive_remove, functor?_receive_of_ne h]

theorem removes_put_of_ne {id' : Nat} (h : id' ≠ id) (s : Server) (v : TcpServer) (j : Nat) :
    ((s.put id v).loops j).queue.part (Task.remove? id') =
      (s.loops j).queue.part (Task.remove? id') := by
  rw [queue_put]
  split_ifs <;> simp only [remove?_receive_conn, remove?_receive_of_ne h]

theorem view_put_of_ne {id' : Nat} (h : id' ≠ id) (s : Server) (v : TcpServer) :
    (s.put id v).view id' = s.view id' := by
  obtain ⟨hactive, hcurrent, hactions⟩ := s.loops_put id v (s.connection id').ioLoop
  have hkeep : (if (s.loops (s.connection id').ioLoop).current = id' then
        ((s.put id v).loops (s.connection id').ioLoop).actions else []) =
      if (s.loops (s.connection id').ioLoop).current = id' then
        (s.loops (s.connection id').ioLoop).actions else [] := by
    rw [hactions]
    split_ifs with hcur hother
    · exact absurd (hcur.symm.trans hother.2) h
    · rfl
    · rfl
  simp only [view, connection_put_of_ne h, functors_put_of_ne h, removes_put_of_ne h, hactive,
    hcurrent, hkeep]
  rfl

theorem functors_put_self (h : EventLoop.Extends (s.view id).conn.loop v.conn.loop) :
    ((s.put id v).loops (s.connection id).ioLoop).queue.part (Task.functor? id) =
      v.conn.loop.unwoken := by
  rw [queue_put, if_pos rfl]
  split_ifs
  · rw [functor?_receive_remove]
    exact EventLoop.part_receive (fun _ => if_pos rfl) h
  · exact EventLoop.part_receive (fun _ => if_pos rfl) h

theorem removes_put_self (h : EventLoop.Extends (s.view id).base v.base)
    (hloop : (s.connection id).ioLoop ≠ 0) :
    ((s.put id v).loops 0).queue.part (Task.remove? id) = v.base.unwoken := by
  have hbase : (s.view id).base = (s.loops 0).queue.part (Task.remove? id) := if_neg hloop
  rw [hbase] at h
  rw [queue_put, if_pos rfl, if_neg hloop.symm, hbase]
  exact EventLoop.part_receive (fun _ => if_pos rfl) h

theorem view_put_self (h : Local (s.view id) v)
    (hactions : (s.loops (s.connection id).ioLoop).current = id ∨ v.actions = []) :
    (s.put id v).view id = v.unwoken := by
  obtain ⟨hactive, hcurrent, hacts⟩ := s.loops_put id v (s.connection id).ioLoop
  have hkeep : (if (s.loops (s.connection id).ioLoop).current = id then
      ((s.put id v).loops (s.connection id).ioLoop).actions else []) = v.actions := by
    by_cases hcur : (s.loops (s.connection id).ioLoop).current = id
    · rw [if_pos hcur, hacts, if_pos ⟨rfl, hcur⟩]
    · rw [if_neg hcur]
      exact (hactions.resolve_left hcur).symm
  have hbase : (if (s.connection id).ioLoop = 0 then .new
      else ((s.put id v).loops 0).queue.part (Task.remove? id)) = v.base.unwoken := by
    split_ifs with hloop
    · have hsame := h.sameBase (decide_eq_true hloop)
      rw [hsame, show (s.view id).base = .new from if_pos hloop]
      rfl
    · exact removes_put_self h.base hloop
  simp only [view, connection_put_self, functors_put_self h.loop, hactive, hcurrent, hkeep, hbase,
    TcpServer.unwoken, TcpServer.mk.injEq, true_and, and_true]
  exact ⟨h.sameLoop.symm, h.alive.symm, h.active.symm, h.strings.symm⟩

def Runs (s : Server) (i : Nat) : Task → Prop
  | .conn id _ => s.created id = true ∧ (s.connection id).ioLoop = i
  | .removeConnectionInLoop id =>
    s.created id = true ∧ i = 0 ∧ (s.connection id).ioLoop ≠ 0

/-- What a loop has is about connections that were made, each in its own loop. -/
structure Sound (s : Server) : Prop where
  nextConnId : 1 ≤ s.nextConnId
  queue : ∀ i, ∀ task ∈ (s.loops i).queue.kept, s.Runs i task
  active : ∀ i, ∀ id ∈ (s.loops i).activeChannels,
    s.created id = true ∧ (s.connection id).ioLoop = i
  nodup : ∀ i, (s.loops i).activeChannels.Nodup
  current : ∀ i, (s.loops i).actions ≠ [] → s.created (s.loops i).current = true ∧
    (s.connection (s.loops i).current).ioLoop = i

theorem sound_new (numThreads : Nat) (writeCompleteCallback : Bool) :
    (new numThreads writeCompleteCallback).Sound where
  nextConnId := Nat.le_refl 1
  queue _ _ h := absurd h List.not_mem_nil
  active _ _ h := absurd h List.not_mem_nil
  nodup _ := .nil
  current _ h := absurd rfl h

theorem ioLoop_put (s : Server) (id : Nat) (v : TcpServer) (id' : Nat) :
    ((s.put id v).connection id').ioLoop = (s.connection id').ioLoop := by
  by_cases h : id' = id
  · rw [h, connection_put_self]
  · rw [connection_put_of_ne h]

theorem created_put (s : Server) (id : Nat) (v : TcpServer) (id' : Nat) :
    (s.put id v).created id' = s.created id' := rfl

theorem runs_put (s : Server) (id : Nat) (v : TcpServer) (i : Nat) (task : Task) :
    (s.put id v).Runs i task ↔ s.Runs i task := by
  cases task <;> simp only [Runs, created_put, ioLoop_put]

theorem mem_kept_receive {β : Type} {l : EventLoop Task} {f : β → Task} {old new : EventLoop β}
    {task : Task} (h : task ∈ (l.receive f old new).kept) : task ∈ l.kept ∨ ∃ b, task = f b := by
  simp only [EventLoop.receive, EventLoop.kept, EventLoop.waiting, List.mem_append,
    List.mem_map] at h ⊢
  rcases h with h | h | h | ⟨b, -, rfl⟩
  · exact .inl (.inl h)
  · exact .inl (.inr (.inl h))
  · exact .inl (.inr (.inr h))
  · exact .inr ⟨b, rfl⟩

theorem queue_sound_put (hs : s.Sound) (hid : s.created id = true) (h : Local (s.view id) v)
    (i : Nat) {task : Task} (hmem : task ∈ ((s.put id v).loops i).queue.kept) :
    s.Runs i task := by
  have hconn : task ∈ (if i = (s.connection id).ioLoop then
      (s.loops i).queue.receive (.conn id) (s.view id).conn.loop v.conn.loop
      else (s.loops i).queue).kept → s.Runs i task := by
    intro hmem
    split_ifs at hmem with hi
    · rcases mem_kept_receive hmem with hmem | ⟨f, rfl⟩
      · exact hs.queue i task hmem
      · exact ⟨hid, hi.symm⟩
    · exact hs.queue i task hmem
  rw [queue_put] at hmem
  by_cases hi : i = 0
  · rw [if_pos hi] at hmem
    by_cases hsame : (s.connection id).ioLoop = 0
    · rw [h.sameBase (decide_eq_true hsame), EventLoop.receive_refl] at hmem
      exact hconn hmem
    · rcases mem_kept_receive hmem with hmem | ⟨-, rfl⟩
      · exact hconn hmem
      · exact ⟨hid, hi, hsame⟩
  · rw [if_neg hi] at hmem
    exact hconn hmem

theorem Sound.put (hs : s.Sound) (hid : s.created id = true) (h : Local (s.view id) v) :
    (s.put id v).Sound := by
  refine ⟨hs.nextConnId, fun i task hmem => ?_, fun i id' hmem => ?_, fun i => ?_,
    fun i hne => ?_⟩
  · exact (runs_put s id v i task).mpr (queue_sound_put hs hid h i hmem)
  · rw [(s.loops_put id v i).1] at hmem
    rw [created_put, ioLoop_put]
    exact hs.active i id' hmem
  · rw [(s.loops_put id v i).1]
    exact hs.nodup i
  · obtain ⟨-, hcurrent, hactions⟩ := s.loops_put id v i
    rw [hactions] at hne
    rw [hcurrent, created_put, ioLoop_put]
    split_ifs at hne with hcur
    · rw [hcur.2]
      exact ⟨hid, hcur.1.symm⟩
    · exact hs.current i hne

theorem Sound.setQueue (hs : s.Sound) {i : Nat} {queue : EventLoop Task}
    (h : queue.kept ⊆ (s.loops i).queue.kept) : (s.setQueue i queue).Sound := by
  have hloops : ∀ j, ((s.setQueue i queue).loops j).activeChannels = (s.loops j).activeChannels ∧
      ((s.setQueue i queue).loops j).current = (s.loops j).current ∧
      ((s.setQueue i queue).loops j).actions = (s.loops j).actions ∧
      ((s.setQueue i queue).loops j).queue.kept ⊆ (s.loops j).queue.kept := by
    intro j
    simp only [Server.setQueue, setLoop, Function.update_apply]
    split_ifs with hj
    · subst hj
      exact ⟨rfl, rfl, rfl, h⟩
    · exact ⟨rfl, rfl, rfl, List.Subset.refl _⟩
  refine ⟨hs.nextConnId, fun j task hmem => ?_, fun j id hmem => ?_, fun j => ?_, fun j hne => ?_⟩
  · exact hs.queue j task ((hloops j).2.2.2 hmem)
  · exact hs.active j id ((hloops j).1 ▸ hmem)
  · exact (hloops j).1 ▸ hs.nodup j
  · rw [(hloops j).2.1]
    exact hs.current j ((hloops j).2.2.1 ▸ hne)

theorem loops_setQueue_self (s : Server) (i : Nat) (queue : EventLoop Task) :
    (s.setQueue i queue).loops i = { s.loops i with queue := queue } := Function.update_self _ _ _

theorem loops_setQueue_of_ne {i j : Nat} (h : j ≠ i) (s : Server) (queue : EventLoop Task) :
    (s.setQueue i queue).loops j = s.loops j := Function.update_of_ne h _ _

theorem view_setQueue (s : Server) (i : Nat) (queue : EventLoop Task) (id : Nat) :
    (s.setQueue i queue).view id = { s.view id with
      conn := { (s.view id).conn with
        loop := if i = (s.connection id).ioLoop then queue.part (Task.functor? id)
          else (s.view id).conn.loop }
      base := if i = 0 ∧ (s.connection id).ioLoop ≠ 0 then queue.part (Task.remove? id)
        else (s.view id).base } := by
  have hconnection : ∀ j, (s.setQueue j queue).connection = s.connection := fun _ => rfl
  rcases eq_or_ne (s.connection id).ioLoop i with rfl | hi
  · rw [if_pos rfl, if_neg fun h => h.2 h.1]
    by_cases h0 : (s.connection id).ioLoop = 0
    · simp only [view, hconnection, h0, loops_setQueue_self, if_true]
      rfl
    · simp only [view, hconnection, loops_setQueue_self, if_neg h0,
        loops_setQueue_of_ne (Ne.symm h0)]
      rfl
  · rw [if_neg hi.symm]
    by_cases h0 : i = 0
    · subst h0
      rw [if_pos ⟨rfl, hi⟩]
      simp only [view, hconnection, loops_setQueue_self, if_neg hi,
        loops_setQueue_of_ne hi]
      rfl
    · rw [if_neg fun h => h0 h.1]
      simp only [view, hconnection, loops_setQueue_of_ne hi,
        loops_setQueue_of_ne (Ne.symm h0)]
      rfl

end Server

end WebServer.Mymuduo
