import WebServer.Mymuduo.Registry

/-! The descriptors of the connections of a server.  The kernel gives a number again after `close`,
while the loop of the old connection may still be at work. -/

namespace WebServer.Mymuduo

open WebServer.Lib

namespace TcpServer

variable {s : TcpServer}

theorem Registered.unregistered_of_not_owned (hs : s.Registered) (h : s.owned = false) :
    s.Unregistered := by
  simp only [TcpServer.owned, Bool.or_eq_false_iff, decide_eq_false_iff_not, Bool.not_eq_false',
    List.isEmpty_iff, EventLoop.kept, List.append_eq_nil_iff, List.any_append] at h
  obtain ⟨⟨⟨⟨hinMap, -⟩, hactions⟩, -, hbase⟩, -, hwaiting⟩ := h
  refine hs.anchored.resolve_left ?_
  rintro (ha | ha | ha | ha)
  · simp [hinMap] at ha
  · exact ha hbase
  · simp [hactions] at ha
  · exact absurd (List.any_eq_false.mp hwaiting _ ha) (by simp [Functor.owns])

theorem Connecting.owned (hs : s.Connecting) : s.owned = true := by
  simp [TcpServer.owned, EventLoop.kept, hs.waiting, Functor.owns]

end TcpServer

namespace Server

variable {s t : Server} {l : Label} {id : Nat}

def NotLate (s : Server) (l : Label) : Prop :=
  s.onEach (fun v l => !v.storesLate l) l = true

theorem alive_step (h : step s l = some t) (halive : t.alive = true) : s.alive = true := by
  obtain ⟨hen, rfl⟩ := step_eq_some.mp h
  cases l with
  | destroyServer ids => cases halive
  | handleEvent i =>
    simp only [nextState, handleEvent] at halive
    split at halive <;> exact halive
  | runFunctor i io =>
    simp only [nextState, runTask] at halive
    split at halive
    · exact halive
    · split at halive <;> exact halive
  | _ => exact halive

section Views

variable (hs : s.Views (WhileAlive TcpServer.Registered))
include hs

theorem Views.unregistered_of_not_owned (halive : s.alive = true) (hid : s.created id = true)
    (h : (s.view id).owned = false) : (s.view id).Unregistered := by
  rcases hs.view id hid halive with hv | hv
  · simp [hv.owned] at h
  · exact hv.unregistered_of_not_owned h

theorem Views.unregistered_step (hl : s.NotLate l) (h : Server.step s l = some t)
    (halive : t.alive = true) (hid : s.created id = true) (hu : (s.view id).Unregistered) :
    (t.view id).Unregistered := by
  have hv : (s.view id).Registered := by
    refine (hs.view id hid (alive_step h halive)).resolve_left fun hv => ?_
    have hstate := hu.state
    simp [hv.state] at hstate
  have hview := view_step hs.sound h hid
  cases hlabel : s.viewLabel id l with
  | none =>
    rw [hlabel] at hview
    exact hview ▸ hu
  | some l' =>
    rw [hlabel] at hview
    obtain ⟨u, hstep, heq⟩ := hview
    have halive' : u.alive = true := (congrArg TcpServer.alive heq).symm.trans halive
    have hnotLate := onEach_spec hl hid hlabel
    have hu' := hv.unregistered_step hu
      ⟨(alive_of_step hstep halive').1, by simpa using hnotLate⟩ hstep
    exact heq ▸ { hu' with }

end Views

end Server

/-- A server with the descriptors of its connections; `closed` says whether `~Socket` has run.
`aborted` is the end of a `Logger` with the level `FATAL`. -/
structure SocketServer where
  server : Server
  sockfd : Nat → Nat
  closed : Nat → Bool
  aborted : Bool

namespace SocketServer

def new (numThreads : Nat) (writeCompleteCallback : Bool) : SocketServer where
  server := .new numThreads writeCompleteCallback
  sockfd _ := 0
  closed _ := false
  aborted := false

inductive Label where
  /-- `Acceptor::handleRead`, with the results of `accept4` and of `getsockname`. -/
  | handleRead (connfd : Except Errno Nat) (getsockname : Except Errno Unit)
  | server (l : Server.Label)

def inUse (s : SocketServer) (fd : Nat) : Bool :=
  (List.range s.server.nextConnId).any fun id =>
    s.server.created id && !s.closed id && s.sockfd id = fd

/-- `~TcpConnection` of the connections that nothing owns any more. -/
def closeSockets (s : SocketServer) : SocketServer :=
  { s with closed := fun id => s.closed id || s.server.created id && !(s.server.view id).owned }

def enabled (s : SocketServer) : Label → Bool
  | .handleRead connfd _ => !s.aborted && s.server.enabled .newConnection &&
      match connfd with
      | .ok fd => !s.inUse fd
      | .error _ => true
  | .server .newConnection => false
  | .server l => !s.aborted && s.server.enabled l

def next (s : SocketServer) : Label → SocketServer
  | .handleRead (.ok connfd) (.ok ()) =>
    closeSockets { s with
      server := s.server.nextState .newConnection
      sockfd := Function.update s.sockfd s.server.nextConnId connfd }
  | .handleRead _ _ => { s with aborted := true }
  | .server l => closeSockets { s with server := s.server.nextState l }

def step (s : SocketServer) (l : Label) : Option SocketServer :=
  if s.enabled l then some (s.next l) else none

variable {s t : SocketServer} {l : Label} {id : Nat}

def NotLate (s : SocketServer) : Label → Prop
  | .handleRead _ _ => True
  | .server l => s.server.NotLate l

inductive Steps (s : SocketServer) : Label → SocketServer → Prop where
  | accepted {connfd : Nat} {server : Server} (free : s.inUse connfd = false)
      (step : Server.step s.server .newConnection = some server) :
      Steps s (.handleRead (.ok connfd) (.ok ())) (closeSockets { s with
        server := server
        sockfd := Function.update s.sockfd s.server.nextConnId connfd })
  | aborted (connfd : Except Errno Nat) (getsockname : Except Errno Unit) :
      Steps s (.handleRead connfd getsockname) { s with aborted := true }
  | server {l : Server.Label} {server : Server} (ne : l ≠ .newConnection)
      (step : Server.step s.server l = some server) :
      Steps s (.server l) (closeSockets { s with server := server })

theorem steps_of_step (h : step s l = some t) : Steps s l t := by
  simp only [step, Option.ite_none_right_eq_some, Option.some.injEq] at h
  obtain ⟨hen, rfl⟩ := h
  cases l with
  | handleRead connfd getsockname =>
    cases connfd with
    | error e => exact .aborted _ _
    | ok fd =>
      cases getsockname with
      | error e => exact .aborted _ _
      | ok _ =>
        simp only [enabled, Bool.and_eq_true, Bool.not_eq_true'] at hen
        exact .accepted hen.2 (Server.step_eq_some.mpr ⟨hen.1.2, rfl⟩)
  | server l =>
    have hne : l ≠ .newConnection := by
      rintro rfl
      cases hen
    have hen' : s.server.enabled l = true := by
      cases l with
      | newConnection => exact absurd rfl hne
      | _ => exact (Bool.and_eq_true_iff.mp hen).2
    exact .server hne (Server.step_eq_some.mpr ⟨hen', rfl⟩)

/-- Descriptors that are not closed belong to one connection, and a connection that has closed
its own has nothing left in a poller. -/
structure Sockets (s : SocketServer) : Prop where
  views : s.server.Views (Server.WhileAlive TcpServer.Registered)
  created : ∀ id, s.closed id = true → s.server.created id = true
  gone : s.server.alive = true → ∀ id, s.closed id = true → (s.server.view id).Unregistered
  distinct : ∀ id id', s.server.created id = true → s.server.created id' = true →
    s.closed id = false → s.closed id' = false → s.sockfd id = s.sockfd id' → id = id'

theorem sockets_new (numThreads : Nat) (writeCompleteCallback : Bool) :
    (new numThreads writeCompleteCallback).Sockets where
  views := Server.views_new _ _ _
  created _ h := nomatch h
  gone _ _ h := nomatch h
  distinct id _ hid := by
    simp [new, Server.created, Server.new] at hid
    omega

theorem Sockets.closeSockets (hs : s.Sockets) : s.closeSockets.Sockets where
  views := hs.views
  created id h := by
    simp only [SocketServer.closeSockets, Bool.or_eq_true, Bool.and_eq_true] at h
    exact h.elim (hs.created id) And.left
  gone halive id h := by
    simp only [SocketServer.closeSockets, Bool.or_eq_true, Bool.and_eq_true,
      Bool.not_eq_true'] at h
    rcases h with h | ⟨hid, howned⟩
    · exact hs.gone halive id h
    · exact hs.views.unregistered_of_not_owned halive hid howned
  distinct id id' hid hid' h h' := by
    simp only [SocketServer.closeSockets, Bool.or_eq_false_iff] at h h'
    exact hs.distinct id id' hid hid' h.1 h'.1

theorem Sockets.not_inUse {fd : Nat} (hfree : s.inUse fd = false) (hid : s.server.created id = true)
    (hopen : s.closed id = false) : s.sockfd id ≠ fd := by
  have hall := List.any_eq_false.mp hfree id (List.mem_range.mpr (Server.lt_of_created hid))
  simpa [hid, hopen] using hall

theorem Sockets.accepted (hs : s.Sockets) {connfd : Nat} {server : Server}
    (hfree : s.inUse connfd = false)
    (h : Server.step s.server .newConnection = some server) :
    Sockets { s with
      server := server
      sockfd := Function.update s.sockfd s.server.nextConnId connfd } := by
  have hl : s.server.NotLate .newConnection := Server.onEach_notLate (by simp)
  have hcreated : s.server.created s.server.nextConnId = false := by simp [Server.created]
  refine
    { views := Server.keeps_registered.views_step hs.views hl h
      created := fun id hclosed => Server.created_of_step hs.views.sound h (hs.created id hclosed)
      gone := fun halive id hclosed => ?_
      distinct := fun id id' hid hid' hopen hopen' heq => ?_ }
  · exact hs.views.unregistered_step hl h halive (hs.created id hclosed)
      (hs.gone (Server.alive_step h halive) id hclosed)
  · have hne : ∀ id, s.server.created id = true → id ≠ s.server.nextConnId := by
      rintro id hid rfl
      simp [hcreated] at hid
    rcases Server.created_step hs.views.sound h hid with hid | ⟨-, rfl⟩ <;>
      rcases Server.created_step hs.views.sound h hid' with hid' | ⟨-, rfl⟩
    · simp only [Function.update_of_ne (hne _ hid), Function.update_of_ne (hne _ hid')] at heq
      exact hs.distinct id id' hid hid' hopen hopen' heq
    · simp only [Function.update_of_ne (hne _ hid), Function.update_self] at heq
      exact absurd heq (Sockets.not_inUse hfree hid hopen)
    · simp only [Function.update_of_ne (hne _ hid'), Function.update_self] at heq
      exact absurd heq.symm (Sockets.not_inUse hfree hid' hopen')
    · rfl

theorem Sockets.server (hs : s.Sockets) {l : Server.Label} {server : Server}
    (hne : l ≠ .newConnection) (hl : s.server.NotLate l)
    (h : Server.step s.server l = some server) : Sockets { s with server := server } where
  views := Server.keeps_registered.views_step hs.views hl h
  created id hclosed := Server.created_of_step hs.views.sound h (hs.created id hclosed)
  gone halive id hclosed := hs.views.unregistered_step hl h halive (hs.created id hclosed)
    (hs.gone (Server.alive_step h halive) id hclosed)
  distinct id id' hid hid' := by
    have hold : ∀ id, server.created id = true → s.server.created id = true := fun id hid =>
      (Server.created_step hs.views.sound h hid).resolve_right fun hnew => hne hnew.1
    exact hs.distinct id id' (hold id hid) (hold id' hid')

theorem Sockets.step (hs : s.Sockets) (hl : s.NotLate l) (h : SocketServer.step s l = some t) :
    t.Sockets := by
  cases steps_of_step h with
  | accepted hfree hstep => exact (hs.accepted hfree hstep).closeSockets
  | aborted _ _ => exact { hs with }
  | server hne hstep => exact (hs.server hne hl hstep).closeSockets

/-- While the server exists, a channel that is in its poller or to be dispatched has a descriptor
that is open, and no other such channel has the same one. -/
theorem sockfd_of_registered {numThreads : Nat} {writeCompleteCallback : Bool} {ls : List Label}
    (hlate : Along SocketServer.step NotLate (new numThreads writeCompleteCallback) ls)
    (h : run SocketServer.step (new numThreads writeCompleteCallback) ls = some s)
    (halive : s.server.alive = true) (hid : s.server.created id = true)
    (hregistered : s.server.registered id = true) :
    s.closed id = false ∧ ∀ id', s.server.created id' = true → s.server.registered id' = true →
      s.sockfd id' = s.sockfd id → id' = id := by
  have hs : s.Sockets :=
    invariant_along (fun _ _ _ hs hl ht => hs.step hl ht) (sockets_new _ _) hlate h
  have hopen : ∀ id, s.server.registered id = true → s.closed id = false := by
    intro id hregistered
    by_contra hclosed
    have hu := hs.gone halive id (by simpa using hclosed)
    have hindex : (s.server.connection id).conn.channel.index = .kNew := hu.index
    have hactive := of_decide_eq_false hu.active
    simp [Server.registered, hindex, hactive] at hregistered
  exact ⟨hopen id hregistered, fun id' hid' hregistered' heq =>
    hs.distinct id' id hid' hid (hopen id' hregistered') (hopen id hregistered) heq⟩

def reuseRun : List Label :=
  [.handleRead (.ok 7) (.ok ()), .server (.swapFunctors 1),
    .server (.runFunctor 1 ⟨.ok [], .ok 0, 0⟩), .server (.endFunctors 1),
    .server (.poll 1 [(1, EPOLLHUP)]), .server (.handleEvent 1),
    .server (.act 1 ⟨.ok [], .ok 0, 0⟩), .server (.act 1 ⟨.ok [], .ok 0, 0⟩),
    .server (.act 1 ⟨.ok [], .ok 0, 0⟩), .server (.swapFunctors 0),
    .server (.runFunctor 0 ⟨.ok [], .ok 0, 0⟩), .server (.endFunctors 0),
    .server (.swapFunctors 1), .server (.runFunctor 1 ⟨.ok [], .ok 0, 0⟩),
    .server (.endFunctors 1), .handleRead (.ok 7) (.ok ()), .server (.swapFunctors 1),
    .server (.runFunctor 1 ⟨.ok [], .ok 0, 0⟩), .server (.endFunctors 1)]

theorem sockfd_of_registered_reuse : ∃ s, run SocketServer.step (new 1 false) reuseRun = some s ∧
    s.sockfd 1 = s.sockfd 2 ∧ s.closed 1 = true ∧ s.closed 2 = false ∧
    ∀ id', s.server.created id' = true → s.server.registered id' = true →
      s.sockfd id' = s.sockfd 2 → id' = 2 := by
  have hrun : (run SocketServer.step (new 1 false) reuseRun).any
      (fun s => s.server.alive && s.server.created 2 && s.server.registered 2 &&
        decide (s.sockfd 1 = s.sockfd 2) && s.closed 1) = true := by decide +kernel
  obtain ⟨s, hs, hstate⟩ := (Option.any_eq_true _ _).mp hrun
  simp only [Bool.and_eq_true, decide_eq_true_eq] at hstate
  obtain ⟨⟨⟨⟨halive, hcreated⟩, hregistered⟩, hsame⟩, hclosed⟩ := hstate
  have hnone : ∀ l ∈ reuseRun, ∀ s, SocketServer.NotLate s l := by
    intro l hl s
    cases l with
    | handleRead connfd getsockname => trivial
    | server l => exact Server.onEach_notLate (by rintro id i rfl; simp [reuseRun] at hl)
  obtain ⟨hopen, hunique⟩ := sockfd_of_registered (along_of_forall (fun l hl s => hnone l hl s) _)
    hs halive hcreated hregistered
  exact ⟨s, hs, hsame, hclosed, hopen, hunique⟩

end SocketServer

end WebServer.Mymuduo
