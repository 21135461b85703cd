import WebServer.Mymuduo.TcpServer

/-! A `TcpServer` with all its connections, its base loop and the loops of its thread pool.  What
is about one connection is done by the functions of that connection. -/

namespace WebServer.Mymuduo

open WebServer.Lib

namespace EventLoop

def part {α β : Type} (g : α → Option β) (l : EventLoop α) : EventLoop β where
  pendingFunctors := l.pendingFunctors.filterMap g
  functors := l.functors.filterMap g
  ran := l.ran.filterMap g
  callingPendingFunctors := l.callingPendingFunctors
  wakeupFd := 0
  noBatch := fun h => by simp [l.noBatch h]

/-- `l` gets what was queued, as `f` of it, between `old` and `new`. -/
def receive {α β : Type} (l : EventLoop α) (f : β → α) (old new : EventLoop β) : EventLoop α :=
  { l with
    pendingFunctors := l.pendingFunctors ++
      (new.pendingFunctors.drop old.pendingFunctors.length).map f
    wakeupFd := l.wakeupFd + (new.wakeupFd - old.wakeupFd) }

end EventLoop

/-- What a loop is given to run, with the connection by the number in its name. -/
inductive Task where
  | conn (id : Nat) (f : Functor)
  | removeConnectionInLoop (id : Nat)
  deriving DecidableEq

namespace Task

def functor? (id : Nat) : Task → Option Functor
  | .conn id' f => if id' = id then some f else none
  | .removeConnectionInLoop _ => none

def remove? (id : Nat) : Task → Option Unit
  | .conn _ _ => none
  | .removeConnectionInLoop id' => if id' = id then some () else none

end Task

/-- A loop in its thread.  `activeChannels` are still to be dispatched; `current` is the one in
`handleEvent`, with what there is to do for it. -/
structure IoLoop where
  queue : EventLoop Task
  activeChannels : List Nat
  current : Nat
  actions : List Action

namespace IoLoop

def new : IoLoop where
  queue := .new
  activeChannels := []
  current := 0
  actions := []

def idle (l : IoLoop) : Bool :=
  l.actions.isEmpty && l.activeChannels.isEmpty && !l.queue.callingPendingFunctors

end IoLoop

/-- A connection with its loop.  The functors it has queued are in that loop, none are in `conn`;
`inMap` is whether `connections_` has it. -/
structure ServerConnection where
  ioLoop : Nat
  conn : TcpConnection
  inMap : Bool
  calls : List Call
  held : Nat
  deliveries : List Delivery

namespace ServerConnection

def new (ioLoop : Nat) (inMap writeCompleteCallback : Bool) : ServerConnection where
  ioLoop := ioLoop
  conn := .new writeCompleteCallback
  inMap := inMap
  calls := []
  held := 0
  deliveries := []

end ServerConnection

/-- Loop 0 is the base loop, the others are those of the pool.  `next` is `next_` of the pool. -/
structure Server where
  numThreads : Nat
  next : Nat
  alive : Bool
  nextConnId : Nat
  writeCompleteCallback : Bool
  connection : Nat → ServerConnection
  loops : Nat → IoLoop
  strings : Nat → Option Bytes

namespace Server

def new (numThreads : Nat) (writeCompleteCallback : Bool) : Server where
  numThreads := numThreads
  next := 0
  alive := true
  nextConnId := 1
  writeCompleteCallback := writeCompleteCallback
  connection _ := .new 0 false writeCompleteCallback
  loops _ := .new
  strings _ := none

def setLoop (s : Server) (i : Nat) (l : IoLoop) : Server :=
  { s with loops := Function.update s.loops i l }

def setQueue (s : Server) (i : Nat) (queue : EventLoop Task) : Server :=
  s.setLoop i { s.loops i with queue := queue }

def created (s : Server) (id : Nat) : Bool := 1 ≤ id && id < s.nextConnId

/-- The connection, with the part of the loops that is about it. -/
def view (s : Server) (id : Nat) : TcpServer :=
  let c := s.connection id
  let l := s.loops c.ioLoop
  { conn := { c.conn with loop := l.queue.part (Task.functor? id) }
    base := if c.ioLoop = 0 then .new else (s.loops 0).queue.part (Task.remove? id)
    sameLoop := c.ioLoop = 0
    alive := s.alive
    inMap := c.inMap
    active := id ∈ l.activeChannels
    actions := if l.current = id then l.actions else []
    calls := c.calls
    held := c.held
    strings := s.strings
    deliveries := c.deliveries }

def setConnection (s : Server) (id : Nat) (t : TcpServer) : Server :=
  { s with
    connection := Function.update s.connection id
      { s.connection id with
        conn := { t.conn with loop := .new }
        inMap := t.inMap
        calls := t.calls
        held := t.held
        deliveries := t.deliveries } }

/-- `t` is the view of the connection after something was done to it; what it has queued goes to
the loops. -/
def put (s : Server) (id : Nat) (t : TcpServer) : Server :=
  let i := (s.connection id).ioLoop
  let old := s.view id
  let s := s.setConnection id t
  let l := s.loops i
  let s := s.setLoop i { l with
    queue := l.queue.receive (.conn id) old.conn.loop t.conn.loop
    actions := if l.current = id then t.actions else l.actions }
  s.setQueue 0 ((s.loops 0).queue.receive (fun _ => .removeConnectionInLoop id) old.base t.base)

/-- `getNextLoop`, with `next_` after it. -/
def getNextLoop (s : Server) : Nat × Nat :=
  if s.numThreads = 0 then (0, s.next)
  else (s.next + 1, if s.numThreads ≤ s.next + 1 then 0 else s.next + 1)

/-- `newConnection` up to the `runInLoop` at its end. -/
def addConnection (s : Server) : Server :=
  let (ioLoop, next) := s.getNextLoop
  { s with
    next := next
    nextConnId := s.nextConnId + 1
    connection := Function.update s.connection s.nextConnId
      (.new ioLoop true s.writeCompleteCallback) }

def newConnection (s : Server) : Server :=
  let id := s.nextConnId
  let s := s.addConnection
  let v := s.view id
  s.put id
    (if v.sameLoop then { v with conn := v.conn.connectEstablished }
    else v.queueInLoop false .connectEstablished)

/-- `~TcpServer`, which goes through `connections_` in the order of `ids`. -/
def destroy (s : Server) (ids : List Nat) : Server :=
  { ids.foldl (fun s id => s.put id (s.view id).destroy) s with alive := false }

inductive Label where
  | newConnection
  | poll (i : Nat) (events : List (Nat × BitVec 32))
  | handleEvent (i : Nat)
  | act (i : Nat) (io : Syscalls)
  | swapFunctors (i : Nat)
  | runFunctor (i : Nat) (io : Syscalls)
  | endFunctors (i : Nat)
  /-- A call of the user in the loop thread, or a step in another thread, for one connection. -/
  | user (id : Nat) (l : TcpServer.Label)
  | newString (address : Nat) (content : Bytes)
  | overwrite (address : Nat) (content : Bytes)
  | release (address : Nat)
  | destroyServer (ids : List Nat)

def isUser : TcpServer.Label → Bool
  | .send _ _ => true
  | .sendBuffer _ _ => true
  | .shutdown => true
  | .callSend _ => true
  | .callSendBuffer _ => true
  | .callShutdown => true
  | .advance _ => true
  | .storeLost _ => true
  | .hold => true
  | .drop => true
  | _ => false

def unused (s : Server) (address : Nat) : Bool :=
  (List.range s.nextConnId).all fun id => !(s.connection id).calls.any (Call.uses address)

def polls (s : Server) (i id : Nat) : Bool :=
  s.created id && (s.connection id).ioLoop = i && (s.connection id).conn.channel.interest.isSome

def enabled (s : Server) : Label → Bool
  | .newConnection => s.alive && (s.loops 0).actions.isEmpty &&
      !(s.loops 0).queue.callingPendingFunctors
  | .poll i events => i ≤ s.numThreads && (s.loops i).idle && (events.map Prod.fst).Nodup &&
      events.all fun e => s.polls i e.1
  | .handleEvent i => (s.loops i).actions.isEmpty && !(s.loops i).activeChannels.isEmpty
  | .act i io => !(s.loops i).actions.isEmpty &&
      (s.view (s.loops i).current).enabled (.act io)
  | .swapFunctors i => i ≤ s.numThreads && (s.loops i).idle
  | .runFunctor i io => (s.loops i).queue.nextFunctor.any fun
      | (.conn id f, _) => (s.view id).fits io f
      | (.removeConnectionInLoop _, _) => true
  | .endFunctors i => (s.loops i).queue.callingPendingFunctors &&
      (s.loops i).queue.functors.isEmpty
  | .user id l => s.created id && isUser l && (s.view id).enabled l
  | .newString address _ => (s.strings address).isNone
  | .overwrite address _ => (s.strings address).isSome && s.unused address
  | .release address => (s.strings address).isSome && s.unused address
  | .destroyServer ids => s.alive && ids.Nodup && ids.all s.created &&
      (List.range s.nextConnId).all fun id => !(s.connection id).inMap || id ∈ ids

def poll (s : Server) (i : Nat) (events : List (Nat × BitVec 32)) : Server :=
  let s := s.setLoop i { s.loops i with activeChannels := events.map Prod.fst }
  { s with
    connection := fun id =>
      let c := s.connection id
      match events.lookup id with
      | none => c
      | some revents =>
        { c with conn := { c.conn with channel := { c.conn.channel with revents := revents } } } }

def handleEvent (s : Server) (i : Nat) : Server :=
  match (s.loops i).activeChannels with
  | [] => s
  | id :: rest =>
    let t := (s.view id).next .handleEvent
    s.setLoop i { s.loops i with activeChannels := rest, current := id, actions := t.actions }

def runTask (s : Server) (task : Task) (io : Syscalls) : Server :=
  match task with
  | .conn id f => s.put id ((s.view id).runFunctor f io)
  | .removeConnectionInLoop id => s.put id (s.view id).removeConnectionInLoop

def nextState (s : Server) : Label → Server
  | .newConnection => s.newConnection
  | .poll i events => s.poll i events
  | .handleEvent i => s.handleEvent i
  | .act i io =>
    let id := (s.loops i).current
    s.put id ((s.view id).next (.act io))
  | .swapFunctors i => s.setQueue i (s.loops i).queue.swapFunctors
  | .runFunctor i io =>
    match (s.loops i).queue.nextFunctor with
    | none => s
    | some (task, queue) => (s.setQueue i queue).runTask task io
  | .endFunctors i => s.setQueue i (s.loops i).queue.endFunctors
  | .user id l => s.put id ((s.view id).next l)
  | .newString address content => { s with strings := Function.update s.strings address content }
  | .overwrite address content => { s with strings := Function.update s.strings address content }
  | .release address => { s with strings := Function.update s.strings address none }
  | .destroyServer ids => s.destroy ids

def step (s : Server) (l : Label) : Option Server :=
  if s.enabled l then some (s.nextState l) else none

theorem step_eq_some {s t : Server} {l : Label} :
    step s l = some t ↔ s.enabled l = true ∧ s.nextState l = t := by
  simp [step]

end Server

end WebServer.Mymuduo
