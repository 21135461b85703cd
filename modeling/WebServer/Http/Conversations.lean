import WebServer.Http.HttpService
import WebServer.Mymuduo.Alike
import WebServer.Mymuduo.QueuedCallbacks
import WebServer.Mymuduo.Registration
import WebServer.Mymuduo.ServerRuns

namespace WebServer.Http

open WebServer.Lib WebServer.Mymuduo
open TcpConnection (Alike LoopFree)

structure Marks (c c' : TcpConnection) : Prop where
  writeCompleteCallback : c'.writeCompleteCallback = c.writeCompleteCallback
  loop : EventLoop.Extends c.loop c'.loop
  waiting : c.writeCompleteCallback = false → ∃ fs, c'.loop.waiting = c.loop.waiting ++ fs ∧
    ∀ f ∈ fs, ∃ n, f = .highWaterMarkCallback n

section Marks

variable {c c' c'' : TcpConnection}

theorem marks_of_loop (hcallback : c'.writeCompleteCallback = c.writeCompleteCallback)
    (hloop : c'.loop = c.loop) : Marks c c' :=
  ⟨hcallback, hloop ▸ .refl _, fun _ => ⟨[], by rw [hloop, List.append_nil], by simp⟩⟩

theorem Marks.trans (h : Marks c c') (h' : Marks c' c'') : Marks c c'' where
  writeCompleteCallback := h'.writeCompleteCallback.trans h.writeCompleteCallback
  loop := ⟨h'.loop.functors.trans h.loop.functors, h'.loop.ran.trans h.loop.ran,
    h'.loop.calling.trans h.loop.calling, h.loop.pending.trans h'.loop.pending⟩
  waiting hunset := by
    obtain ⟨fs, hfs, hmarks⟩ := h.waiting hunset
    obtain ⟨gs, hgs, hmarks'⟩ := h'.waiting (h.writeCompleteCallback.trans hunset)
    refine ⟨fs ++ gs, by rw [hgs, hfs, List.append_assoc], fun f hf => ?_⟩
    rcases List.mem_append.mp hf with hf | hf
    · exact hmarks f hf
    · exact hmarks' f hf

theorem marks_of_adds {fs : List Functor} (h : TcpConnection.Adds c fs c')
    (hloop : TcpConnection.QueuedCallbacks c.loop c'.loop)
    (hfs : c.writeCompleteCallback = false → .writeCompleteCallback ∉ fs) : Marks c c' := by
  obtain ⟨gs, hgs, hcallbacks⟩ := hloop.pending
  obtain rfl : fs = gs := List.append_cancel_left (h.pending.symm.trans hgs)
  refine ⟨congrArg (fun p => p.2.1) h.settings, TcpServer.extends_of_queued hloop,
    fun hunset => ⟨fs, ?_, fun f hf => ?_⟩⟩
  · rw [EventLoop.waiting, hloop.functors, hgs, ← List.append_assoc]
    rfl
  · exact (hcallbacks f hf).resolve_left fun heq => hfs hunset (heq ▸ hf)

theorem marks_send (c : TcpConnection) {data : Data} {result : Except Errno Nat}
    (hfit : TcpConnection.Fits data.bytes.length result) : Marks c (c.send data result) := by
  refine marks_of_adds (c.send_adds hfit) (c.send_loop hfit) fun hunset => ?_
  simp only [TcpConnection.queuedBySend, TcpConnection.queuedWriteComplete, hunset,
    TcpConnection.queuedHighWaterMark]
  split_ifs <;> simp_all

theorem marks_shutdown (c : TcpConnection) : Marks c c.shutdown :=
  marks_of_adds c.shutdown_adds (by simpa using .refl _) fun _ => List.not_mem_nil

theorem marks_handleWrite (c : TcpConnection) (result : Except Errno Nat) :
    Marks c (c.handleWrite result) := by
  refine marks_of_adds (c.handleWrite_adds result) (c.handleWrite_loop result) fun hunset => ?_
  rcases c.queuedByWrite_eq_or result with hcomplete | hnil
  · simp [hcomplete, TcpConnection.queuedWriteComplete, hunset]
  · simp [hnil]

theorem marks_deliver (c : TcpConnection) (r : Reply) (before : UInt8)
    {result : Except Errno Nat} (hfit : TcpConnection.Fits r.bytes.length result) :
    Marks c (Dialogue.deliver c r before result) := by
  have hsend : Marks c (c.send ⟨before, r.bytes⟩ result) := marks_send c hfit
  simp only [Dialogue.deliver]
  split
  · exact hsend.trans (marks_shutdown _)
  · exact hsend

theorem marks_foldl_deliver (c : TcpConnection) (before : Reply → UInt8) (k : Kernel)
    {rs : List Reply} (hfit : ∀ r ∈ rs, TcpConnection.Fits r.bytes.length (k.result r)) :
    Marks c (rs.foldl (fun c r => Dialogue.deliver c r (before r) (k.result r)) c) := by
  induction rs generalizing c with
  | nil => exact marks_of_loop rfl rfl
  | cons r rs ih =>
    obtain ⟨hr, hrs⟩ := List.forall_mem_cons.mp hfit
    exact (marks_deliver c r (before r) hr).trans (ih _ hrs)

theorem marks_onParsed (httpCallback : HttpCallback) (s : HttpConnection) (k : Kernel) (ok : Bool)
    (context : HttpContext) (buf : Buffer)
    (hfit : ∀ r ∈ Dialogue.repliesOf httpCallback ok context,
      TcpConnection.Fits r.bytes.length (k.result r)) :
    Marks s.conn (HttpServer.onParsed httpCallback s k ok context buf).conn := by
  obtain ⟨before, hdeliver⟩ := Dialogue.onParsed_deliver httpCallback s k ok context buf
  have hbuf : Marks s.conn { s.conn with inputBuffer := buf } := marks_of_loop rfl rfl
  rw [hdeliver]
  exact hbuf.trans (marks_foldl_deliver _ before k hfit)

theorem marks_onMessage {d e : Dialogue} {httpCallback : HttpCallback} {t : Timestamp} {k : Kernel}
    (he : d.onMessage httpCallback t k = .ok e)
    (hfit : ∀ r ∈ e.replies.drop d.replies.length,
      TcpConnection.Fits r.bytes.length (k.result r)) : Marks d.http.conn e.http.conn := by
  rw [Dialogue.onMessage] at he
  cases hparse : HttpContext.new.parseRequest d.http.conn.inputBuffer t with
  | error f =>
    rw [hparse] at he
    cases he
  | ok p =>
    rw [hparse] at he
    obtain rfl := Except.ok.inj he
    rw [List.drop_left] at hfit
    exact marks_onParsed httpCallback d.http k p.ok p.context p.buf hfit

end Marks

/-- The connection, with the `closeCallback_` that its `handleClose` has still to call. -/
def settled (v : TcpServer) : TcpConnection :=
  if v.actions.head? = some .closeCallback then v.conn.record .closeCallback else v.conn

def MayWait (f : Functor) : Prop := f = .connectDestroyed ∨ ∃ n, f = .highWaterMarkCallback n

structure Follows (v : TcpServer) (d : Dialogue) : Prop where
  conn : Alike (settled v) d.http.conn
  writeCompleteCallback : v.conn.writeCompleteCallback = false
  waiting : ∀ f ∈ v.conn.loop.waiting, MayWait f
  calling : v.conn.loop.callingPendingFunctors = true → v.active = false ∧ v.actions = []
  active : v.active = true → v.actions = []
  later : .closeCallback ∉ v.actions.tail

section Follows

variable {v u : TcpServer} {d : Dialogue} {a : Action} {rest : List Action} {io : Syscalls}

theorem settled_of_notMem (h : .closeCallback ∉ v.actions) : settled v = v.conn :=
  if_neg fun hhead => h (List.mem_of_head? hhead)

theorem settled_of_nil (h : v.actions = []) : settled v = v.conn :=
  settled_of_notMem (by simp [h])

def afterAction (io : Syscalls) : Action → TcpConnection → TcpConnection
  | .callback .closeCallback => (TcpConnection.handleClose · Dialogue.closeCallback)
  | .callback .readCallback => (TcpConnection.handleRead · io.read id Dialogue.closeCallback)
  | .callback .writeCallback => (TcpConnection.handleWrite · io.write)
  | _ => id

theorem loopFree_afterAction (io : Syscalls) (a : Action) : LoopFree (afterAction io a) := by
  have hclose : LoopFree Dialogue.closeCallback := TcpConnection.loopFree_record _
  cases a with
  | callback cb =>
    cases cb with
    | closeCallback => exact TcpConnection.loopFree_handleClose hclose
    | errorCallback => exact TcpConnection.loopFree_id
    | readCallback =>
      exact TcpConnection.loopFree_handleRead io.read TcpConnection.loopFree_id hclose
    | writeCallback => exact TcpConnection.loopFree_handleWrite io.write
  | closeCallback | letGo => exact TcpConnection.loopFree_id

theorem handleRead_of_open (c : TcpConnection) {delivered : Except Errno Bytes}
    (h : delivered ≠ .ok []) :
    c.handleRead delivered id id = c.handleRead delivered id Dialogue.closeCallback := by
  match delivered with
  | .error e => simp [TcpConnection.handleRead, Buffer.readFd]
  | .ok [] => exact absurd rfl h
  | .ok (b :: bs) => simp [TcpConnection.handleRead]

theorem settled_act (hlater : .closeCallback ∉ rest) (hactions : v.actions = a :: rest) :
    Alike (afterAction io a (settled v)) (settled (v.act a rest io)) := by
  have hopen : a ≠ .closeCallback → settled v = v.conn := fun hne =>
    settled_of_notMem (by simp [hactions, Ne.symm hne, hlater])
  have hkept {u : TcpServer} (hu : u.actions = rest) : settled u = u.conn :=
    settled_of_notMem (by rwa [hu])
  cases a with
  | callback cb =>
    rw [hopen (by simp)]
    cases cb with
    | closeCallback => rfl
    | errorCallback =>
      rw [hkept (by rfl)]
      rfl
    | readCallback =>
      by_cases hread : io.read = .ok []
      · simp [TcpServer.act, afterAction, settled, hread, TcpConnection.handleRead]
        rfl
      · rw [hkept (by simp [TcpServer.act, hread])]
        have hact : (v.act (.callback .readCallback) rest io).conn =
            afterAction io (.callback .readCallback) v.conn := handleRead_of_open v.conn hread
        rw [hact]
    | writeCallback =>
      rw [hkept (by rfl)]
      rfl
  | closeCallback =>
    have hsettled : settled v = v.conn.record .closeCallback := if_pos (by simp [hactions])
    rw [hsettled, hkept (by simp [TcpServer.act_actions, Action.closes])]
    simp only [TcpServer.act, TcpServer.removeConenction]
    split
    · rfl
    · rfl
  | letGo =>
    rw [hopen (by simp), hkept (by rfl)]
    rfl

theorem marks_act (ha : a ≠ .closeCallback) :
    Marks v.conn (v.act a rest io).conn := by
  cases a with
  | callback cb =>
    cases cb with
    | closeCallback => exact marks_of_loop rfl rfl
    | errorCallback => exact marks_of_loop rfl rfl
    | readCallback =>
      have hadds := v.conn.handleRead_adds io.read
      exact marks_of_adds hadds (by simpa [TcpServer.act] using .refl _) fun _ => List.not_mem_nil
    | writeCallback => exact marks_handleWrite v.conn io.write
  | closeCallback => exact absurd rfl ha
  | letGo => exact marks_of_loop rfl rfl

theorem Follows.waiting_of_marks (h : Follows v d) (hmarks : Marks v.conn u.conn) :
    ∀ f ∈ u.conn.loop.waiting, MayWait f := by
  obtain ⟨fs, hfs, hnew⟩ := hmarks.waiting h.writeCompleteCallback
  intro f hf
  rw [hfs, List.mem_append] at hf
  rcases hf with hf | hf
  · exact h.waiting f hf
  · exact .inr (hnew f hf)

theorem Follows.waiting_act (h : Follows v d) :
    ∀ f ∈ (v.act a rest io).conn.loop.waiting, MayWait f := by
  by_cases ha : a = .closeCallback
  · subst ha
    simp only [TcpServer.act, TcpServer.removeConenction]
    split
    · intro f hf
      simp only [TcpServer.removeConnectionInLoop, TcpServer.queueInLoop, TcpServer.setLoop,
        EventLoop.waiting_queueInLoop, List.mem_append, List.mem_singleton] at hf
      rcases hf with hf | hf
      · exact h.waiting f hf
      · exact .inl hf
    · exact h.waiting
  · exact h.waiting_of_marks (marks_act ha)

theorem writeCompleteCallback_act (hwcc : v.conn.writeCompleteCallback = false) :
    (v.act a rest io).conn.writeCompleteCallback = false := by
  by_cases ha : a = .closeCallback
  · subst ha
    simp only [TcpServer.act, TcpServer.removeConenction]
    split
    · exact hwcc
    · exact hwcc
  · exact (marks_act ha).writeCompleteCallback.trans hwcc

theorem Follows.act (h : Follows v d) (hen : v.enabled (.act io) = true)
    (hactions : v.actions = a :: rest) :
    Follows (v.act a rest io) (d.setConn (afterAction io a d.http.conn)) := by
  have hnext : v.next (.act io) = v.act a rest io := by simp only [TcpServer.next, hactions]
  have hlocal := TcpServer.local_act hen
  rw [hnext] at hlocal
  have hlater : .closeCallback ∉ rest := by
    have := h.later
    rwa [hactions, List.tail_cons] at this
  have hne : v.actions ≠ [] := by simp [hactions]
  refine
    { conn := ?_
      writeCompleteCallback := writeCompleteCallback_act h.writeCompleteCallback
      waiting := h.waiting_act
      calling := fun hcalling => absurd (h.calling (hlocal.loop.calling ▸ hcalling)).2 hne
      active := fun hactive => absurd (h.active (hlocal.active ▸ hactive)) hne
      later := ?_ }
  · exact (settled_act hlater hactions).symm.trans ((loopFree_afterAction io a).alike h.conn)
  · rw [TcpServer.act_actions]
    split
    · exact hlater
    · exact fun hmem => hlater (List.mem_of_mem_tail hmem)

theorem Follows.poll (h : Follows v d) {revents : BitVec 32}
    (hen : v.enabled (.poll revents) = true) : Follows (v.next (.poll revents)) d := by
  simp only [TcpServer.enabled, TcpServer.idle, Bool.and_eq_true, Bool.not_eq_true',
    List.isEmpty_iff] at hen
  obtain ⟨⟨⟨hactions, -⟩, hcalling⟩, -⟩ := hen
  have hconn := h.conn
  rw [settled_of_nil hactions] at hconn
  refine
    { conn := ?_
      writeCompleteCallback := h.writeCompleteCallback
      waiting := h.waiting
      calling := fun hc => absurd (hcalling.symm.trans hc) (by simp)
      active := fun _ => hactions
      later := h.later }
  rw [settled_of_nil (v := v.next (.poll revents)) hactions]
  exact (show Alike (v.next (.poll revents)).conn v.conn from rfl).trans hconn

theorem Follows.handleEvent (h : Follows v d) (hen : v.enabled .handleEvent = true) :
    Follows (v.next .handleEvent) d := by
  have hactive : v.active = true := hen
  have hconn := h.conn
  rw [settled_of_nil (h.active hactive)] at hconn
  have hnone := v.closeCallback_notMem_handleEvent
  refine
    { conn := ?_
      writeCompleteCallback := h.writeCompleteCallback
      waiting := h.waiting
      calling := fun hcalling => ?_
      active := nofun
      later := fun hmem => hnone (List.mem_of_mem_tail hmem) }
  · rw [settled_of_notMem hnone]
    exact hconn
  · exact absurd ((h.calling hcalling).1.symm.trans hactive) (by simp)

theorem Follows.setLoop (h : Follows v d) {m : EventLoop Functor}
    (hwaiting : ∀ f ∈ m.waiting, MayWait f)
    (hcalling : m.callingPendingFunctors = true → v.active = false ∧ v.actions = []) :
    Follows (v.setLoop m) d := by
  have hsettled : Alike (settled (v.setLoop m)) (settled v) := by
    by_cases hhead : v.actions.head? = some .closeCallback
    · have hset : settled (v.setLoop m) = (v.setLoop m).conn.record .closeCallback := if_pos hhead
      rw [hset, settled, if_pos hhead]
      rfl
    · have hset : settled (v.setLoop m) = (v.setLoop m).conn := if_neg hhead
      rw [hset, settled, if_neg hhead]
      rfl
  exact
    { conn := hsettled.trans h.conn
      writeCompleteCallback := h.writeCompleteCallback
      waiting := hwaiting
      calling := hcalling
      active := h.active
      later := h.later }

theorem Follows.swapFunctors (h : Follows v d) (hen : v.enabled .swapFunctors = true) :
    Follows (v.next .swapFunctors) d := by
  refine h.setLoop (fun f hf => h.waiting f ?_) fun _ => ?_
  · rwa [TcpServer.waiting_swapFunctors hen] at hf
  · simp only [TcpServer.enabled, TcpServer.idle, Bool.and_eq_true, Bool.not_eq_true',
      List.isEmpty_iff] at hen
    exact ⟨hen.1.2, hen.1.1⟩

theorem Follows.endFunctors (h : Follows v d) (hen : v.enabled .endFunctors = true) :
    Follows (v.next .endFunctors) d := by
  refine h.setLoop (fun f hf => h.waiting f ?_) nofun
  rwa [TcpServer.waiting_endFunctors hen] at hf

theorem Follows.setBase (h : Follows v d) (m : EventLoop Unit) : Follows { v with base := m } d :=
  ⟨h.conn, h.writeCompleteCallback, h.waiting, h.calling, h.active, h.later⟩

theorem Follows.baseRun (h : Follows v d) (hen : v.enabled .baseRun = true) :
    Follows (v.next .baseRun) d := by
  obtain ⟨m, -, hnext⟩ := TcpServer.baseRun_cases hen
  have hremoved : Follows { v with base := m, inMap := false } d :=
    ⟨h.conn, h.writeCompleteCallback, h.waiting, h.calling, h.active, h.later⟩
  rw [hnext]
  refine hremoved.setLoop (fun f hf => ?_) fun hcalling => h.calling ?_
  · rw [EventLoop.waiting_queueInLoop, List.mem_append, List.mem_singleton] at hf
    exact hf.elim (h.waiting f) .inl
  · rwa [EventLoop.callingPendingFunctors_queueInLoop] at hcalling

theorem Follows.connectDestroyed (h : Follows v d) {m : EventLoop Functor}
    (hnext : v.conn.loop.nextFunctor = some (.connectDestroyed, m)) :
    Follows ((v.setLoop m).runFunctor .connectDestroyed io)
      (d.setConn d.http.conn.connectDestroyed) := by
  obtain ⟨hfunctors, -, -, hcalls⟩ := EventLoop.nextFunctor_spec hnext
  have hcalling : v.conn.loop.callingPendingFunctors = true := by
    by_contra hfalse
    have hnil := (v.conn.loop.noBatch (Bool.eq_false_of_not_eq_true hfalse)).1
    simp [hfunctors] at hnil
  obtain ⟨hactive, hactions⟩ := h.calling hcalling
  have hconn := h.conn
  rw [settled_of_nil hactions] at hconn
  have hdestroyed := TcpConnection.loopFree_connectDestroyed.alike
    ((show Alike (v.setLoop m).conn v.conn from rfl).trans hconn)
  have hloop : (v.setLoop m).conn.connectDestroyed.loop = m := by simp [TcpServer.setLoop]
  have hmarks : Marks (v.setLoop m).conn (v.setLoop m).conn.connectDestroyed :=
    marks_of_adds (TcpConnection.connectDestroyed_adds _) (by simpa using .refl _)
      fun _ => List.not_mem_nil
  refine
    { conn := ?_
      writeCompleteCallback := hmarks.writeCompleteCallback.trans h.writeCompleteCallback
      waiting := fun f hf => h.waiting f ?_
      calling := fun _ => ⟨hactive, hactions⟩
      active := fun _ => hactions
      later := h.later }
  · rw [settled_of_nil (v := (v.setLoop m).runFunctor .connectDestroyed io) hactions]
    exact hdestroyed
  · rw [EventLoop.waiting_nextFunctor hnext]
    exact List.mem_cons_of_mem _ (hloop ▸ hf)

end Follows

section OnMessage

variable {v : TcpServer} {d e : Dialogue}

theorem loopFree_deliver (r : Reply) (before : UInt8) (result : Except Errno Nat) :
    LoopFree (Dialogue.deliver · r before result) := by
  have hsend := TcpConnection.loopFree_send ⟨before, r.bytes⟩ result
  exact TcpConnection.loopFree_ite (p := fun _ => r.closing = true) (fun _ _ _ => .rfl)
    (TcpConnection.loopFree_shutdown.comp hsend) hsend

theorem loopFree_onRequest (httpCallback : HttpCallback) (served : List HttpRequest)
    (req : HttpRequest) (result : Except Errno Nat) :
    LoopFree fun c => (HttpServer.onRequest httpCallback ⟨c, served⟩ req result).conn := by
  have hconn : ∀ c, (HttpServer.onRequest httpCallback ⟨c, served⟩ req result).conn =
      Dialogue.deliver c (.response (HttpServer.respond httpCallback req))
        ((HttpServer.respond httpCallback req).appendToBuffer
          (.new Buffer.kInitialSize)).beforePeek result := by
    intro c
    simp only [HttpServer.onRequest, TcpConnection.sendBuffer_fst,
      HttpResponse.peek_appendToBuffer, Buffer.peek_new, List.nil_append]
    rfl
  simp only [hconn]
  exact loopFree_deliver _ _ result

theorem loopFree_onParsed (httpCallback : HttpCallback) (served : List HttpRequest) (k : Kernel)
    (ok : Bool) (context : HttpContext) (buf : Buffer) :
    LoopFree fun c => (HttpServer.onParsed httpCallback ⟨c, served⟩ k ok context buf).conn := by
  have hbuf : LoopFree fun c : TcpConnection => { c with inputBuffer := buf } := fun _ _ _ => rfl
  have hreject : LoopFree fun c : TcpConnection => if (!ok) = true then
      (c.send ⟨k.before, HttpServer.badRequest⟩ k.badRequest).shutdown else c :=
    TcpConnection.loopFree_ite (fun _ _ _ => .rfl)
      (TcpConnection.loopFree_shutdown.comp (TcpConnection.loopFree_send _ _))
      TcpConnection.loopFree_id
  have hrequest : LoopFree fun c => (if context.gotAll = true then
      HttpServer.onRequest httpCallback ⟨c, served⟩ context.request k.response
      else ⟨c, served⟩ : HttpConnection).conn := by
    cases context.gotAll with
    | true => exact loopFree_onRequest httpCallback served context.request k.response
    | false => exact TcpConnection.loopFree_id
  exact hrequest.comp (hreject.comp hbuf)

theorem Follows.setConn (h : Follows v d) (hopen : .closeCallback ∉ v.actions) {c : TcpConnection}
    (hmarks : Marks v.conn c) (hconn : Alike c e.http.conn) : Follows { v with conn := c } e := by
  have hsettled : settled { v with conn := c } = c := settled_of_notMem hopen
  exact
    { conn := by rwa [hsettled]
      writeCompleteCallback := hmarks.writeCompleteCallback.trans h.writeCompleteCallback
      waiting := h.waiting_of_marks (u := { v with conn := c }) hmarks
      calling := fun hcalling => h.calling (hmarks.loop.calling ▸ hcalling)
      active := h.active
      later := h.later }

theorem Follows.onMessage (h : Follows v d) (hopen : .closeCallback ∉ v.actions)
    {httpCallback : HttpCallback} {t : Timestamp} {k : Kernel}
    (he : Dialogue.onMessage ⟨⟨v.conn, d.http.served⟩, d.replies⟩ httpCallback t k = .ok e)
    (hmarks : Marks v.conn e.http.conn) :
    ∃ d', d.onMessage httpCallback t k = .ok d' ∧ Follows { v with conn := e.http.conn } d' ∧
      d'.http.served = e.http.served ∧ d'.replies = e.replies := by
  have hconn := h.conn
  rw [settled_of_notMem hopen] at hconn
  have hbuffer : d.http.conn.inputBuffer = v.conn.inputBuffer := by
    rw [hconn]
    rfl
  rw [Dialogue.onMessage] at he
  cases hparse : HttpContext.new.parseRequest v.conn.inputBuffer t with
  | error f =>
    rw [hparse] at he
    cases he
  | ok p =>
    rw [hparse] at he
    obtain rfl := Except.ok.inj he
    have hd : d.onMessage httpCallback t k = .ok
        { http := HttpServer.onParsed httpCallback d.http k p.ok p.context p.buf
          replies := d.replies ++ Dialogue.repliesOf httpCallback p.ok p.context } := by
      rw [Dialogue.onMessage, hbuffer, hparse]
      rfl
    refine ⟨_, hd, h.setConn hopen hmarks ?_, ?_, rfl⟩
    · exact (loopFree_onParsed httpCallback d.http.served k p.ok p.context p.buf).alike hconn
    · simp only [HttpServer.onParsed_served]

end OnMessage

end WebServer.Http
