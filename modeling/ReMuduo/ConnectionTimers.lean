import Mathlib.Logic.Function.Basic
import ReMuduo.TcpConnection
import ReMuduo.TimerPending

/-! # The timers of a connection

A connection may have three timers (`src/base/TcpConnection.cpp`): one that closes it
after a while, one that closes it when it has been idle, and a periodic one that sends
heartbeats.  It keeps the `TimerId` of each in a member and cancels them through that
member only, in the setters, in `handleClose` and in `onKeepAliveTimeout`.

The machine here is one connection with the timer queue of its loop
(`ReMuduo.TimerQueue`).  Its steps are the events of the loop thread, the calls that
callbacks make in between, the calls of other threads, which post functors, and
everything that happens to the timers of others in the same queue.  A call of another thread,
with its tests, stores and posts, is one step, and so are a functor and the end of
`handleRead`: they do not overlap.  The loop goes round as in `EventLoop::loop`: it polls,
handles the events, and runs the functors that it found after the last event.  The channel is
not enabled before `connectEstablished`, so there are no events of it while the state is
`kConnecting`; the calls may come earlier, as those of `TcpServer::newConnection` do.
`bound` remembers which timers call back into the connection, so that what the queue
holds can be compared with what the members name. -/
namespace ReMuduo

/-- The timers of a connection. -/
inductive TimerKind
  | connectionTimeout
  | idle
  | keepAlive
deriving DecidableEq

/-- A `double` number of seconds that may also be negative. -/
structure Delay where
  seconds : Seconds
  negative : Bool
  sign : seconds.positive = true → negative = false

namespace Delay

/-- `seconds > 0`. -/
def positive (d : Delay) : Bool := d.seconds.positive

def zero : Delay := ⟨.zero, false, fun _ => rfl⟩

/-- A positive number of seconds, of this many whole microseconds. -/
def ofMicros (n : Nat) : Delay := ⟨.ofMicros n, false, fun _ => rfl⟩

end Delay

/-- `TimerId()`. -/
def TimerId.null : TimerId := ⟨nullptr, 0⟩

/-- The functors that the calls of other threads post. -/
inductive TimedFunctor
  | setConnectionTimeoutInLoop (seconds : Delay)
  | resetIdleTimerInLoop
  | setupKeepAliveTimer
  /-- `TimerQueue::cancelInLoop`, posted by `EventLoop::cancel`. -/
  | cancelInLoop (id : TimerId)
  | forceCloseInLoop

/-- Where `EventLoop::loop` is: in `poll`, in the handlers of events, or in
`doPendingFunctors`, with this many functors of the connection left of those it took. -/
inductive LoopPhase
  | poll
  | events
  | functors (left : Nat)
deriving DecidableEq

/-- A timer of the connection has fired, before or after `handleClose` ran. -/
structure Firing where
  id : TimerId
  kind : TimerKind
  closed : Bool
deriving DecidableEq

/-- A connection and the timer queue of its loop.  `timerId` are the members
`connectionTimeoutTimerId_`, `idleTimerId_` and `keepAliveTimerId_`; `functors` are those of
the connection that the loop has not run yet, whether it has taken them already or not;
`reading` says that `handleRead` is in the message callback, `closed` that `handleClose`
has run. -/
structure TimedConnection where
  loop : TimerLoop
  phase : LoopPhase
  state : StateE
  timerId : TimerKind → TimerId
  idleTimeout : Delay
  keepAliveEnabled : Bool
  keepAliveInterval : Delay
  functors : List TimedFunctor
  reading : Bool
  closed : Bool
  bound : TimerId → Option TimerKind
  firings : List Firing

/-- The steps.  An address stands for what `new Timer` returns if the step makes a timer. -/
inductive TimedOp
  /-- `EventLoop::loop` enters `poll`, goes on to the events, and to the functors. -/
  | poll
  | dispatch
  | doPendingFunctors
  /-- An operation of the timer queue; a `runNext` may call back into the connection. -/
  | timer (op : TimerOp)
  | connectEstablished
  /-- `handleRead` has read something and calls the message callback. -/
  | message
  /-- The message callback returns, and `handleRead` ends. -/
  | messageEnd (a : Addr)
  /-- `handleClose`, called by a handler of the channel. -/
  | handleClose
  /-- The loop takes the next functor. -/
  | functor (a : Addr)
  /-- Calls on the loop thread. -/
  | setConnectionTimeout (seconds : Delay) (a : Addr)
  | setIdleTimeout (seconds : Delay) (a : Addr)
  | enableKeepAlive (enable : Bool) (interval : Delay) (a : Addr)
  | forceClose
  | shutdown
  | connectDestroyed
  /-- The same calls on other threads, each of them as a whole. -/
  | postSetConnectionTimeout (seconds : Delay)
  | postSetIdleTimeout (seconds : Delay)
  | postEnableKeepAlive (enable : Bool) (interval : Delay)
  | postForceClose
  | postShutdown

namespace TimedConnection

/-- A connection as constructed, on a loop whose timer queue is `loop`. -/
def initial (loop : TimerLoop) : TimedConnection where
  loop := loop
  phase := .events
  state := .kConnecting
  timerId := fun _ => .null
  idleTimeout := .zero
  keepAliveEnabled := false
  keepAliveInterval := .ofMicros 30000000
  functors := []
  reading := false
  closed := false
  bound := fun _ => none
  firings := []

/-! ## On the loop thread -/

/-- `if (id.isValid()) loop_->cancel(id)`, for one of the members. -/
def cancel (s : TimedConnection) (kind : TimerKind) : Option TimedConnection :=
  if (s.timerId kind).isValid then
    (s.loop.step (.cancelInLoop (s.timerId kind))).map (fun l => { s with loop := l })
  else some s

/-- A member is assigned. -/
def setTimerId (s : TimedConnection) (kind : TimerKind) (id : TimerId) : TimedConnection :=
  { s with timerId := Function.update s.timerId kind id }

/-- `TimerQueue::addTimer` with a callback of the connection, its result assigned to the
member. -/
def addTimer (s : TimedConnection) (kind : TimerKind) (a : Addr) (when : Int)
    (interval : Seconds) : Option TimedConnection :=
  ((s.loop.step (.newTimer a when interval)).bind (·.step (.addTimerInLoop a))).map fun l =>
    ({ s with
      loop := l
      bound := Function.update s.bound ⟨a, s.loop.queue.numCreated⟩ (some kind) } :
        TimedConnection).setTimerId kind ⟨a, s.loop.queue.numCreated⟩

/-- `id = loop_->runAfter(delay, callback)`. -/
def runAfter (s : TimedConnection) (kind : TimerKind) (a : Addr) (delay : Delay) :
    Option TimedConnection :=
  if delay.negative then some (s.setTimerId kind .null)
  else if Timestamp.valid (addTime s.loop.clock.wall delay.seconds) then
    s.addTimer kind a (addTime s.loop.clock.wall delay.seconds) .zero
  else some (s.setTimerId kind .null)

/-- `id = loop_->runEvery(interval, callback)`. -/
def runEvery (s : TimedConnection) (kind : TimerKind) (a : Addr) (interval : Delay) :
    Option TimedConnection :=
  if interval.positive then
    s.addTimer kind a (addTime s.loop.clock.wall interval.seconds) interval.seconds
  else some (s.setTimerId kind .null)

def setConnectionTimeoutInLoop (s : TimedConnection) (a : Addr) (seconds : Delay) :
    Option TimedConnection :=
  (s.cancel .connectionTimeout).bind fun s =>
    if seconds.positive then s.runAfter .connectionTimeout a seconds else some s

def resetIdleTimerInLoop (s : TimedConnection) (a : Addr) : Option TimedConnection :=
  (s.cancel .idle).bind fun s => s.runAfter .idle a s.idleTimeout

def setupKeepAliveTimer (s : TimedConnection) (a : Addr) : Option TimedConnection :=
  if s.keepAliveEnabled then s.runEvery .keepAlive a s.keepAliveInterval else some s

/-- `loop_->cancel(id); id = TimerId();` if the member is valid. -/
def cancelAndForget (s : TimedConnection) (kind : TimerKind) : Option TimedConnection :=
  if (s.timerId kind).isValid then (s.cancel kind).map (·.setTimerId kind .null) else some s

/-- `setIdleTimeout(seconds)`. -/
def setIdleTimeout (s : TimedConnection) (a : Addr) (seconds : Delay) :
    Option TimedConnection :=
  let s := { s with idleTimeout := seconds }
  if seconds.positive then s.resetIdleTimerInLoop a else s.cancelAndForget .idle

/-- `enableKeepAlive(enable, interval)`. -/
def enableKeepAlive (s : TimedConnection) (a : Addr) (enable : Bool) (interval : Delay) :
    Option TimedConnection :=
  let s := { s with keepAliveEnabled := enable, keepAliveInterval := interval }
  if enable then s.setupKeepAliveTimer a else s.cancelAndForget .keepAlive

def handleClose (s : TimedConnection) : Option TimedConnection :=
  ((({ s with state := .kDisconnected, closed := true } : TimedConnection).cancel
    .connectionTimeout).bind (·.cancel .idle)).bind (·.cancel .keepAlive)

/-- `forceClose()`, and also `forceCloseInLoop()`: on the loop thread they do the same
(`TcpConnection.forceClose_eq`). -/
def forceClose (s : TimedConnection) : Option TimedConnection :=
  if s.state = .kConnected ∨ s.state = .kDisconnecting then s.handleClose else some s

/-- `shutdown()`; its `shutdownInLoop` does not concern the timers. -/
def shutdown (s : TimedConnection) : TimedConnection :=
  if s.state = .kConnected then { s with state := .kDisconnecting } else s

def connectDestroyed (s : TimedConnection) : TimedConnection :=
  if s.state = .kConnected then { s with state := .kDisconnected } else s

/-- `onConnectionTimeout`, `onIdleTimeout` and `onKeepAliveTimeout`.  The heartbeat that the
last one sends while the connection is up does not concern the timers. -/
def onTimeout (s : TimedConnection) : TimerKind → Option TimedConnection
  | .connectionTimeout => s.forceClose
  | .idle => s.forceClose
  | .keepAlive => if s.state ≠ .kConnected then s.cancel .keepAlive else some s

/-- The callback of a timer runs, if it is one of the connection. -/
def fire (s : TimedConnection) (id : TimerId) : Option TimedConnection :=
  match s.bound id with
  | none => some s
  | some kind =>
    ({ s with firings := s.firings ++ [⟨id, kind, s.closed⟩] } : TimedConnection).onTimeout kind

/-- The loop is neither in a batch of timers nor in the message callback. -/
def atRest (s : TimedConnection) : Bool := s.loop.batch.isNone && !s.reading

/-- The loop may handle the next event. -/
def atEvents (s : TimedConnection) : Bool := decide (s.phase = .events) && s.atRest

/-- The loop thread runs code that may call the connection. -/
def awake (s : TimedConnection) : Bool := decide (s.phase ≠ .poll)

/-! ## On other threads -/

def post (s : TimedConnection) (f : TimedFunctor) : TimedConnection :=
  { s with functors := s.functors ++ [f] }

/-- `loop_->cancel(id); id = TimerId();` if the member is valid: the cancelling is posted,
the member is cleared at once. -/
def postCancelAndForget (s : TimedConnection) (kind : TimerKind) : TimedConnection :=
  if (s.timerId kind).isValid then
    (s.post (.cancelInLoop (s.timerId kind))).setTimerId kind .null
  else s

def postSetIdleTimeout (s : TimedConnection) (seconds : Delay) : TimedConnection :=
  let s := { s with idleTimeout := seconds }
  if seconds.positive then s.post .resetIdleTimerInLoop else s.postCancelAndForget .idle

def postEnableKeepAlive (s : TimedConnection) (enable : Bool) (interval : Delay) :
    TimedConnection :=
  let s := { s with keepAliveEnabled := enable, keepAliveInterval := interval }
  if enable then s.post .setupKeepAliveTimer else s.postCancelAndForget .keepAlive

def postForceClose (s : TimedConnection) : TimedConnection :=
  if s.state = .kConnected ∨ s.state = .kDisconnecting then
    post { s with state := .kDisconnecting } .forceCloseInLoop
  else s

/-! ## The machine -/

/-- A functor runs. -/
def runFunctor (s : TimedConnection) (a : Addr) : TimedFunctor → Option TimedConnection
  | .setConnectionTimeoutInLoop seconds => s.setConnectionTimeoutInLoop a seconds
  | .resetIdleTimerInLoop => s.resetIdleTimerInLoop a
  | .setupKeepAliveTimer => s.setupKeepAliveTimer a
  | .cancelInLoop id => (s.loop.step (.cancelInLoop id)).map (fun l => { s with loop := l })
  | .forceCloseInLoop => s.forceClose

/-- An operation of the timer queue.  Nobody else cancels the timers of the connection. -/
def timerStep (s : TimedConnection) (op : TimerOp) : Option TimedConnection :=
  match op with
  | .cancelInLoop id =>
    if s.bound id = none then
      (s.loop.step (.cancelInLoop id)).map (fun l => { s with loop := l })
    else none
  | .handleRead =>
    if s.atEvents then (s.loop.step .handleRead).map (fun l => { s with loop := l }) else none
  | .runNext =>
    match s.phase, s.loop.next with
    | .events, some id => (s.loop.step .runNext).bind (fun l => fire { s with loop := l } id)
    | _, _ => none
  | op => (s.loop.step op).map (fun l => { s with loop := l })

def step (s : TimedConnection) : TimedOp → Option TimedConnection
  | .poll =>
    if s.phase = .functors 0 ∧ s.atRest then some { s with phase := .poll } else none
  | .dispatch => if s.phase = .poll then some { s with phase := .events } else none
  | .doPendingFunctors =>
    if s.atEvents then some { s with phase := .functors s.functors.length } else none
  | .timer op => s.timerStep op
  | .connectEstablished =>
    if s.awake ∧ s.state = .kConnecting then some { s with state := .kConnected } else none
  | .message =>
    if s.atEvents ∧ s.state ≠ .kConnecting then some { s with reading := true } else none
  | .messageEnd a =>
    if s.reading then
      if s.idleTimeout.positive then resetIdleTimerInLoop { s with reading := false } a
      else some { s with reading := false }
    else none
  | .handleClose => if s.atEvents ∧ s.state ≠ .kConnecting then s.handleClose else none
  | .functor a =>
    match s.phase, s.functors with
    | .functors (n + 1), f :: rest =>
      runFunctor { s with phase := .functors n, functors := rest } a f
    | _, _ => none
  | .setConnectionTimeout seconds a =>
    if s.awake then s.setConnectionTimeoutInLoop a seconds else none
  | .setIdleTimeout seconds a => if s.awake then s.setIdleTimeout a seconds else none
  | .enableKeepAlive enable interval a =>
    if s.awake then s.enableKeepAlive a enable interval else none
  | .forceClose => if s.awake then s.forceClose else none
  | .shutdown => if s.awake then some s.shutdown else none
  | .connectDestroyed => if s.awake then some s.connectDestroyed else none
  | .postSetConnectionTimeout seconds => some (s.post (.setConnectionTimeoutInLoop seconds))
  | .postSetIdleTimeout seconds => some (s.postSetIdleTimeout seconds)
  | .postEnableKeepAlive enable interval => some (s.postEnableKeepAlive enable interval)
  | .postForceClose => some s.postForceClose
  | .postShutdown => some s.shutdown

end TimedConnection
end ReMuduo
