import Mathlib.Logic.Function.Basic
import ReMuduo.LoopAgenda
import ReMuduo.Machine

/-! # One event loop with its connections

An event loop that runs a `TcpServer` (`src/base/TcpServer.cpp`) and all its connections.
The loop itself is that of `ReMuduo.LoopAgenda`; here is what it calls.

User code runs in the callbacks of the connections, in the timers and in queued
functors.  There it may call any method of any connection, any number of times; each
call is an input of the run, and so is the return.  The timers of the connections
themselves call nothing else.  The wakeup of the loop by other threads, the timer queue
and the destruction of the server are not followed here. -/
namespace ReMuduo

/-- The functors in `pendingFunctors_`. -/
inductive LoopFunctor
  | connectDestroyed (c : ConnId)
  /-- `writeCompleteCallback_` or `highWaterMarkCallback_` of a connection. -/
  | callback (c : ConnId) (f : UserFunctor)
  /-- A functor that user code has queued. -/
  | user
deriving DecidableEq

/-- The tasks of the loop: what continues after a callback is the rest of what a method of a
connection asks for. -/
abbrev Task := LoopTask (ConnId × List Effect) LoopFunctor

/-- The callbacks of a connection that its user sees.  For `connectionCallback_` it is
recorded what `connected()` answers there. -/
inductive Callback
  | connection (connected : Bool)
  | message
  | close
deriving DecidableEq

/-- The loop, the server's `connections_`, and the callbacks each connection has made.  A
connection that has not been accepted is `kConnecting`. -/
structure ServerLoop extends LoopThread (ConnId × List Effect) LoopFunctor where
  conns : ConnId → TcpConnection
  nextConnId : Nat
  connections : List ConnId
  callbacks : ConnId → List Callback
  assertFailed : Bool

/-- What user code may call.  On the loop thread `::write` may answer `w`. -/
inductive UserCall
  | send (c : ConnId) (data : List UInt8) (w : WriteResult)
  | shutdown (c : ConnId)
  | forceClose (c : ConnId)
  | queueInLoop

/-- The inputs of a run. -/
abbrev LoopInput := LoopEvent ConnOptions UserCall

namespace ServerLoop

def initial : ServerLoop where
  conns := fun _ => TcpConnection.initial false false (64 * 1024 * 1024)
  nextConnId := 1
  connections := []
  pendingFunctors := []
  currentActiveChannel := none
  agenda := []
  callbacks := fun _ => []
  assertFailed := false

/-! ## What the methods of a connection ask for -/

def setConn (s : ServerLoop) (c : ConnId) (conn : TcpConnection) : ServerLoop :=
  { s with conns := Function.update s.conns c conn }

def addFunctor (s : ServerLoop) (f : LoopFunctor) : ServerLoop :=
  { s with pendingFunctors := s.pendingFunctors ++ [f] }

/-- Notes a callback of a connection. -/
def note (s : ServerLoop) (c : ConnId) (cb : Callback) : ServerLoop :=
  { s with callbacks := Function.update s.callbacks c (s.callbacks c ++ [cb]) }

/-- A callback into user code; `rest` is what its method does afterwards. -/
def callUser (s : ServerLoop) (c : ConnId) (cb : Callback) (rest : List Effect) : ServerLoop :=
  { s.note c cb with agenda := .user :: .resume (c, rest) :: s.agenda }

/-- `TcpServer::removeConnection`, which is the close callback of every connection. -/
def removeConnection (s : ServerLoop) (c : ConnId) : ServerLoop :=
  let s := s.note c .close
  if c ∈ s.connections then
    addFunctor { s with connections := s.connections.erase c } (.connectDestroyed c)
  else { s with assertFailed := true }

/-- `EventLoop::removeChannel`, for the channel of a connection. -/
def removeChannel (s : ServerLoop) (c : ConnId) : ServerLoop :=
  if s.currentActiveChannel = some (.conn c) then s
  else s.setConn c { s.conns c with channel := (s.conns c).channel.removeChannel }

/-- Does what a method asks for, up to the first callback into user code. -/
def perform (s : ServerLoop) (c : ConnId) : List Effect → ServerLoop
  | [] => s
  | .connectionCallback :: rest =>
    s.callUser c (.connection ((s.conns c).state == .kConnected)) rest
  | .messageCallback :: rest => s.callUser c .message rest
  | .closeCallback :: rest => (s.removeConnection c).perform c rest
  | .removeChannel :: rest => (s.removeChannel c).perform c rest
  | .queueInLoop f :: rest => (s.addFunctor (.callback c f)).perform c rest
  -- the socket and the timers are not part of this state
  | .shutdownWrite :: rest => s.perform c rest
  | .cancelTimers :: rest => s.perform c rest
  | .resetIdleTimer :: rest => s.perform c rest

/-- A method of a connection has run, with this result. -/
def call (s : ServerLoop) (c : ConnId) (r : TcpConnection × List Effect) : ServerLoop :=
  (s.setConn c r.1).perform c r.2

/-- `TcpServer::newConnection`, with `connectEstablished` run in the same loop. -/
def newConnection (s : ServerLoop) (conn : TcpConnection) : ServerLoop :=
  call
    { s with
      nextConnId := s.nextConnId + 1
      connections := s.connections ++ [s.nextConnId] }
    s.nextConnId conn.connectEstablished

/-! ## Steps -/

/-- A channel that `epoll_wait` can report. -/
def Registered (s : ServerLoop) : ActiveChannel → Prop
  | .conn c => (s.conns c).channel.epoll.isSome
  | _ => True

instance (s : ServerLoop) : DecidablePred s.Registered
  | .conn c => inferInstanceAs (Decidable ((s.conns c).channel.epoll.isSome = true))
  | .timerfd | .acceptor | .wakeup => isTrue trivial

/-- What user code may do. -/
def userCall (s : ServerLoop) : UserCall → Option ServerLoop
  | .send c data w => if c < s.nextConnId then some (s.call c ((s.conns c).send data w)) else none
  | .shutdown c => if c < s.nextConnId then some (s.call c (s.conns c).shutdown) else none
  | .forceClose c => if c < s.nextConnId then some (s.call c (s.conns c).forceClose) else none
  | .queueInLoop => some (s.addFunctor .user)

/-- A functor runs. -/
def runFunctor (s : ServerLoop) : LoopFunctor → LoopInput → Option ServerLoop
  | .connectDestroyed c, .next => some (s.call c (s.conns c).connectDestroyed)
  | .callback _ _, .next => some { s with toLoopThread := s.toLoopThread.push [.user] }
  | .user, .next => some { s with toLoopThread := s.toLoopThread.push [.user] }
  | _, _ => none

/-- What the loop calls. -/
def methods : LoopMethods ServerLoop (ConnId × List Effect) LoopFunctor ConnOptions UserCall where
  thread s := s.toLoopThread
  onThread s f := { s with toLoopThread := f s.toLoopThread }
  conn s c := s.conns c
  registered s channel := decide (s.Registered channel)
  handled s c r := s.call c r
  newConnection s new := some (s.newConnection new.connection)
  resume s rest := s.perform rest.1 rest.2
  functor s f i := s.runFunctor f i
  user s u := s.userCall u

/-- A failed assertion ends the process. -/
def step (s : ServerLoop) (i : LoopInput) : Option ServerLoop :=
  if s.assertFailed then none else methods.step s i

theorem step_cases {s s' : ServerLoop} {i : LoopInput} (h : s.step i = some s') :
    methods.Step s i s' :=
  LoopMethods.step_cases (Option.ite_none_left_eq_some.mp h).2

end ServerLoop
end ReMuduo
