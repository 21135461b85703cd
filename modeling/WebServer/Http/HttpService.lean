import WebServer.Http.Wire
import WebServer.Mymuduo.Server

namespace WebServer.Http

open WebServer.Lib WebServer.Mymuduo

structure HttpService where
  server : Server
  served : Nat → List HttpRequest
  replies : Nat → List Reply

namespace HttpService

/-- `HttpServer` sets neither `writeCompleteCallback_` nor `highWaterMarkCallback_`. -/
def new (numThreads : Nat) : HttpService where
  server := .new numThreads false
  served _ := []
  replies _ := []

def dialogue (s : HttpService) (id : Nat) : Dialogue where
  http := ⟨(s.server.view id).conn, s.served id⟩
  replies := s.replies id

inductive Label where
  | newConnection
  | poll (i : Nat) (events : List (Nat × BitVec 32))
  | handleEvent (i : Nat)
  /-- `receiveTime` and `k` are for the call of `onMessage`, if there is one. -/
  | act (i : Nat) (io : Syscalls) (receiveTime : Timestamp) (k : Kernel)
  | swapFunctors (i : Nat)
  | runFunctor (i : Nat) (io : Syscalls)
  | endFunctors (i : Nat)

def Label.server : Label → Server.Label
  | .newConnection => .newConnection
  | .poll i events => .poll i events
  | .handleEvent i => .handleEvent i
  | .act i io _ _ => .act i io
  | .swapFunctors i => .swapFunctors i
  | .runFunctor i io => .runFunctor i io
  | .endFunctors i => .endFunctors i

/-- The loop is at a `handleRead` that gets some bytes: `messageCallback_` is called. -/
def delivers (s : HttpService) (i : Nat) (io : Syscalls) : Bool :=
  (s.server.loops i).actions.head? = some (.callback .readCallback) &&
    match io.read with
    | .ok (_ :: _) => true
    | _ => false

/-- The loop is at a functor that calls the empty `highWaterMarkCallback_`. -/
def throws (s : HttpService) (i : Nat) : Bool :=
  match (s.server.loops i).queue.functors.head? with
  | some (.conn _ (.highWaterMarkCallback _)) => true
  | _ => false

/-- `HttpServer::onMessage` for the connection, if the kernel can give these results. -/
def onMessage (httpCallback : HttpCallback) (s : HttpService) (id : Nat) (receiveTime : Timestamp)
    (k : Kernel) : Option HttpService :=
  ((s.dialogue id).onMessage httpCallback receiveTime k).toOption.bind fun d =>
    if ∀ r ∈ d.replies.drop (s.replies id).length,
        TcpConnection.Fits r.bytes.length (k.result r) then
      some
        { server := s.server.put id { s.server.view id with conn := d.http.conn }
          served := Function.update s.served id d.http.served
          replies := Function.update s.replies id d.replies }
    else none

/-- The exception of an empty `highWaterMarkCallback_` is caught nowhere: no state follows. -/
def step (httpCallback : HttpCallback) (s : HttpService) (l : Label) : Option HttpService :=
  (s.server.step l.server).bind fun server =>
    match l with
    | .act i io receiveTime k =>
      if s.delivers i io then
        onMessage httpCallback { s with server := server } (s.server.loops i).current receiveTime k
      else some { s with server := server }
    | .runFunctor i _ => if s.throws i then none else some { s with server := server }
    | _ => some { s with server := server }

def callbackLabel (httpCallback : HttpCallback) (io : Syscalls) (receiveTime : Timestamp)
    (k : Kernel) : Action → Option Dialogue.Label
  | .callback .readCallback => some (.handleRead io.read receiveTime k httpCallback)
  | .callback .writeCallback => some (.handleWrite io.write)
  | .callback .closeCallback => some .handleClose
  | _ => none

def dialogueLabel (httpCallback : HttpCallback) (s : HttpService) (id : Nat) :
    Label → Option Dialogue.Label
  | .act i io receiveTime k =>
    if (s.server.loops i).current = id then
      (s.server.loops i).actions.head?.bind (callbackLabel httpCallback io receiveTime k)
    else none
  | .runFunctor i _ =>
    if (s.server.loops i).queue.functors.head? = some (.conn id .connectDestroyed) then
      some .connectDestroyed
    else none
  | _ => none

end HttpService

end WebServer.Http
