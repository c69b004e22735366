import ReMuduo.TcpConnection

/-! # An iteration of an event loop

`EventLoop::loop` (`src/base/Eventloop.cpp`) polls, calls `handleEvent` on each active
channel and then runs the pending functors.  What a loop still has to do, in the order in
which it will be done, is its `agenda`.  Work that a callback starts goes to its front,
so the agenda is also the call stack: while user code runs, `user` is at its head, and
behind it is what continues when that code returns.

What the loop calls is a parameter (`LoopMethods`): the handlers of connections, `accept`,
the functors, and what user code may do.  `LoopMethods.step` is a step of the loop, and
`LoopMethods.Step` says what it can be.  `ReMuduo.ServerLoop` has one such loop,
`ReMuduo.ServerLoops` any number of them. -/
namespace ReMuduo

/-- The number of a connection, which makes its name unique. -/
abbrev ConnId := Nat

/-- The channels of a loop. -/
inductive ActiveChannel
  | conn (c : ConnId)
  | timerfd
  | acceptor
  | wakeup
deriving DecidableEq

/-- The callbacks that are set: a connection sets all four, the others only read. -/
def ActiveChannel.isSet : ActiveChannel → ChannelCallback → Bool
  | .conn _, _ => true
  | _, cb => cb == .read

/-- What a loop still has to do.  `κ` is what may continue after a callback into user code, and
`φ` are the functors. -/
inductive LoopTask (κ φ : Type)
  /-- User code is running. -/
  | user
  /-- The rest of a method, after the callback it has made returns. -/
  | resume (rest : κ)
  /-- A callback of `handleEventWithGuard`. -/
  | callback (channel : ActiveChannel) (cb : ChannelCallback)
  /-- `handleEvent` of an active channel. -/
  | handleEvent (channel : ActiveChannel) (revents : Revents)
  | doPendingFunctors
  | functor (f : φ)
deriving DecidableEq

/-- An event loop. -/
@[ext] structure LoopThread (κ φ : Type) where
  pendingFunctors : List φ
  currentActiveChannel : Option ActiveChannel
  agenda : List (LoopTask κ φ)

namespace LoopThread

variable {κ φ : Type} (t : LoopThread κ φ)

def initial : LoopThread κ φ := ⟨[], none, []⟩

/-- `queueInLoop`. -/
def post (f : φ) : LoopThread κ φ := { t with pendingFunctors := t.pendingFunctors ++ [f] }

def push (tasks : List (LoopTask κ φ)) : LoopThread κ φ := { t with agenda := tasks ++ t.agenda }

/-- The first task is taken off the agenda. -/
def take (rest : List (LoopTask κ φ)) : LoopThread κ φ := { t with agenda := rest }

/-- `poll` has returned these active channels. -/
def poll (batch : List (ActiveChannel × Revents)) : LoopThread κ φ :=
  t.push (batch.map (fun p => .handleEvent p.1 p.2) ++ [.doPendingFunctors])

/-- `handleEventWithGuard`. -/
def eventTasks (channel : ActiveChannel) (revents : Revents) : List (LoopTask κ φ) :=
  (revents.callbacks.filter channel.isSet).map (.callback channel)

/-- `currentActiveChannel_->handleEvent()`. -/
def handleEvent (channel : ActiveChannel) (revents : Revents) : LoopThread κ φ :=
  { t with
    currentActiveChannel := some channel
    agenda := eventTasks channel revents ++ t.agenda }

/-- `doPendingFunctors`: the functors are swapped out, and will be run. -/
def doPendingFunctors : LoopThread κ φ where
  pendingFunctors := []
  currentActiveChannel := none
  agenda := t.pendingFunctors.map .functor ++ t.agenda

/-- The event of a channel is handled by callbacks of that channel. -/
theorem mem_eventTasks {channel : ActiveChannel} {revents : Revents} {x : LoopTask κ φ}
    (h : x ∈ eventTasks channel revents) : ∃ cb, x = .callback channel cb := by
  obtain ⟨cb, -, rfl⟩ := List.mem_map.mp h
  exact ⟨cb, rfl⟩

end LoopThread

/-- The inputs of a loop.  `α` is what comes with a new connection, and `υ` are the calls of
user code. -/
inductive LoopEvent (α υ : Type)
  /-- `poll` returns these active channels. -/
  | poll (batch : List (ActiveChannel × Revents))
  /-- The next task is done, where it asks nothing of the environment. -/
  | next
  /-- The next task reads, and `readFd` answers this. -/
  | read (received : SysResult (List UInt8))
  /-- The next task writes, and `::write` answers this. -/
  | write (w : WriteResult)
  /-- The next task accepts a connection. -/
  | accept (new : α)
  | acceptFailed
  /-- User code calls something. -/
  | call (u : υ)
  /-- User code returns. -/
  | ret

/-- What has been accepted. -/
def LoopEvent.accepted {α υ : Type} : LoopEvent α υ → Option α
  | .accept new => some new
  | _ => none

/-- What is set for a connection that is accepted. -/
structure ConnOptions where
  writeCompleteCallback : Bool
  highWaterMarkCallback : Bool
  highWaterMark : Nat

def ConnOptions.connection (o : ConnOptions) : TcpConnection :=
  .initial o.writeCompleteCallback o.highWaterMarkCallback o.highWaterMark

/-- What a loop calls, where `σ` is the state of everything.  The loop is on the `thread`. -/
structure LoopMethods (σ κ φ α υ : Type) where
  thread : σ → LoopThread κ φ
  onThread : σ → (LoopThread κ φ → LoopThread κ φ) → σ
  conn : σ → ConnId → TcpConnection
  /-- A channel that `epoll_wait` can report. -/
  registered : σ → ActiveChannel → Bool
  /-- A handler of a connection has run, with this result. -/
  handled : σ → ConnId → TcpConnection × List Effect → σ
  newConnection : σ → α → Option σ
  resume : σ → κ → σ
  functor : σ → φ → LoopEvent α υ → Option σ
  user : σ → υ → Option σ

namespace LoopMethods

variable {σ κ φ α υ : Type} (m : LoopMethods σ κ φ α υ) (s : σ)

/-- The inputs of user code, with `rest` behind it on the agenda. -/
def userStep (rest : List (LoopTask κ φ)) : LoopEvent α υ → Option σ
  | .call u => m.user s u
  | .ret => some (m.onThread s (·.take rest))
  | _ => none

/-- The next task of the agenda, which has been taken off it. -/
def taskStep : LoopTask κ φ → LoopEvent α υ → Option σ
  | .resume rest, .next => some (m.resume s rest)
  | .handleEvent channel revents, .next => some (m.onThread s (·.handleEvent channel revents))
  | .callback (.conn c) .close, .next => some (m.handled s c (m.conn s c).handleClose)
  -- `handleError` only logs
  | .callback (.conn _) .error, .next => some s
  | .callback (.conn c) .read, .read received =>
    some (m.handled s c ((m.conn s c).handleRead received))
  | .callback (.conn c) .write, .write w => some (m.handled s c ((m.conn s c).handleWrite w))
  | .callback .timerfd .read, .next => some (m.onThread s (·.push [.user]))
  | .callback .acceptor .read, .accept new => m.newConnection s new
  | .callback .acceptor .read, .acceptFailed => some s
  | .callback .wakeup .read, .next => some s
  | .doPendingFunctors, .next => some (m.onThread s (·.doPendingFunctors))
  | .functor f, e => m.functor s f e
  | _, _ => none

/-- A step of the loop. -/
def step (e : LoopEvent α υ) : Option σ :=
  match (m.thread s).agenda with
  | [] =>
    match e with
    | .poll batch =>
      if (batch.map Prod.fst).Nodup ∧ ∀ p ∈ batch, m.registered s p.1 = true then
        some (m.onThread s (·.poll batch))
      else none
    | _ => none
  | .user :: rest => m.userStep s rest e
  | task :: rest => m.taskStep (m.onThread s (·.take rest)) task e

/-! ## What a step can do -/

/-- What the next task does, on a state `s` from which it has been taken. -/
inductive Does (s : σ) : LoopTask κ φ → LoopEvent α υ → σ → Prop
  | resume (rest : κ) : Does s (.resume rest) .next (m.resume s rest)
  | handleEvent (channel : ActiveChannel) (revents : Revents) :
      Does s (.handleEvent channel revents) .next (m.onThread s (·.handleEvent channel revents))
  | handleClose (c : ConnId) :
      Does s (.callback (.conn c) .close) .next (m.handled s c (m.conn s c).handleClose)
  | handleRead (c : ConnId) (received : SysResult (List UInt8)) :
      Does s (.callback (.conn c) .read) (.read received)
        (m.handled s c ((m.conn s c).handleRead received))
  | handleWrite (c : ConnId) (w : WriteResult) :
      Does s (.callback (.conn c) .write) (.write w)
        (m.handled s c ((m.conn s c).handleWrite w))
  | timer : Does s (.callback .timerfd .read) .next (m.onThread s (·.push [.user]))
  | accept (new : α) (s' : σ) (h : m.newConnection s new = some s') :
      Does s (.callback .acceptor .read) (.accept new) s'
  /-- A callback that changes nothing here. -/
  | skip (channel : ActiveChannel) (cb : ChannelCallback) (e : LoopEvent α υ)
      (he : e.accepted = none) : Does s (.callback channel cb) e s
  | doPendingFunctors : Does s .doPendingFunctors .next (m.onThread s (·.doPendingFunctors))
  | functor (f : φ) (e : LoopEvent α υ) (s' : σ) (h : m.functor s f e = some s') :
      Does s (.functor f) e s'

/-- What a step does. -/
inductive Step (s : σ) : LoopEvent α υ → σ → Prop
  | poll (batch : List (ActiveChannel × Revents)) (hagenda : (m.thread s).agenda = [])
      (hregistered : ∀ p ∈ batch, m.registered s p.1 = true) :
      Step s (.poll batch) (m.onThread s (·.poll batch))
  | call (u : υ) (s' : σ) (rest : List (LoopTask κ φ))
      (hagenda : (m.thread s).agenda = .user :: rest) (h : m.user s u = some s') :
      Step s (.call u) s'
  | ret (rest : List (LoopTask κ φ)) (hagenda : (m.thread s).agenda = .user :: rest) :
      Step s .ret (m.onThread s (·.take rest))
  | task (task : LoopTask κ φ) (rest : List (LoopTask κ φ)) (e : LoopEvent α υ) (s' : σ)
      (hagenda : (m.thread s).agenda = task :: rest) (huser : task ≠ .user)
      (hdoes : m.Does (m.onThread s (·.take rest)) task e s') : Step s e s'

variable {m s} {s' : σ} {e : LoopEvent α υ}

theorem taskStep_does {task : LoopTask κ φ} (h : m.taskStep s task e = some s') :
    m.Does s task e s' := by
  unfold taskStep at h
  split at h
  case h_1 rest => exact Option.some.inj h ▸ .resume rest
  case h_2 channel revents => exact Option.some.inj h ▸ .handleEvent channel revents
  case h_3 c => exact Option.some.inj h ▸ .handleClose c
  case h_5 c received => exact Option.some.inj h ▸ .handleRead c received
  case h_6 c w => exact Option.some.inj h ▸ .handleWrite c w
  case h_7 => exact Option.some.inj h ▸ .timer
  case h_8 new => exact .accept new s' h
  case h_11 => exact Option.some.inj h ▸ .doPendingFunctors
  case h_12 f => exact .functor f e s' h
  case h_4 | h_9 | h_10 => exact Option.some.inj h ▸ .skip _ _ _ rfl
  case h_13 => cases h

theorem step_cases (h : m.step s e = some s') : m.Step s e s' := by
  unfold step at h
  split at h
  case h_1 hagenda =>
    cases e with
    | poll batch =>
      obtain ⟨⟨-, hregistered⟩, ⟨⟩⟩ := Option.ite_none_right_eq_some.mp h
      exact .poll batch hagenda hregistered
    | next | read | write | accept | acceptFailed | call | ret => cases h
  case h_2 rest hagenda =>
    cases e with
    | call u => exact .call u s' rest hagenda h
    | ret => exact Option.some.inj h ▸ .ret rest hagenda
    | poll | next | read | write | accept | acceptFailed => cases h
  case h_3 task rest huser hagenda => exact .task task rest e s' hagenda huser (taskStep_does h)

end LoopMethods
end ReMuduo
