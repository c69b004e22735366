import Mathlib.Logic.Function.Basic
import ReMuduo.ServerLoop
import ReMuduo.SharedConnection

/-! # A server with several event loops

`ReMuduo.ServerLoop` follows one loop that does everything.  Here a `TcpServer`
(`src/base/TcpServer.cpp`) has a base loop, which accepts, and any number of I/O loops,
each in its own thread; every connection belongs to one of them.  The loops talk to each
other through `runInLoop` and `queueInLoop` only: accepting a connection is one message to
its I/O loop, and closing it goes from the I/O loop to the base loop and back.  If the two
loops are the same, `runInLoop` calls at once.

Each loop works as `ReMuduo.LoopAgenda` says: its `agenda` is what it still has to do in this
iteration, with user code at the head while user code runs.  User code, and threads that
have no loop, may call `send`, `shutdown` and `forceClose` of any connection.  On another
thread than that of the connection's loop such a call is one step: the test of `state_`, the
store and the posting of the functor are not separated.  The functor holds the connection by a
raw pointer.

The timers are left out: their callbacks call `forceClose` and `send`, as user code does,
and the functors that set them own the connection.  So are the destruction of the server and
the reading of the wakeup channel. -/
namespace ReMuduo

/-- `nextConnId_` is an `int`, and must not reach this. -/
def intLimit : Nat := 2147483648

/-- What does not change while the server runs.  `toIpPort` writes at most 21 characters:
four numbers of an address, a colon and a port. -/
structure ServerConfig (ℓ : Type) where
  base : ℓ
  ipPort : List Char
  short : ipPort.length ≤ 21

/-- `snprintf(buf, 64, "-%s#%d", ipPort_, id)` appended to `name_`, which is `ipPort_`. -/
def ServerConfig.connName {ℓ : Type} (cfg : ServerConfig ℓ) (id : ConnId) : List Char :=
  cfg.ipPort ++ ('-' :: cfg.ipPort ++ '#' :: Nat.toDigits 10 id).take 63

/-- The functors in `pendingFunctors_`. -/
inductive ServerFunctor
  | connectEstablished (c : ConnId)
  | removeConnectionInLoop (c : ConnId)
  | connectDestroyed (c : ConnId)
  /-- A functor that `send`, `shutdown` or `forceClose` binds to `this`. -/
  | raw (c : ConnId) (f : ConnectionFunctor)
  /-- A callback of a connection, or what user code has queued. -/
  | user

/-- What continues when a callback into user code has returned. -/
inductive AfterCallback
  /-- The rest of `handleClose`, after the connection callback: `closeCallback_`. -/
  | closing (c : ConnId)
  /-- The rest of `connectDestroyed`, after the connection callback: `channel_->remove()`. -/
  | destroying (c : ConnId)

/-- What a loop still has to do. -/
abbrev ServerTask := LoopTask AfterCallback ServerFunctor

/-- An event loop of the server. -/
abbrev ServerThread := LoopThread AfterCallback ServerFunctor

/-- What has happened to a connection, and on which loop; for `connectDestroyed` also which
channel the loop was handling. -/
inductive LifeEvent (ℓ : Type)
  | newConnection
  | connectEstablished (l : ℓ)
  | handleClose (l : ℓ)
  /-- `connections_.erase` has returned `n`. -/
  | removeConnectionInLoop (n : Nat)
  | connectDestroyed (l : ℓ) (active : Option ActiveChannel)
  | removeChannel (refused : Bool)
deriving DecidableEq

/-- The server, its loops and its connections.  `loopOf` is the loop of each connection. -/
@[ext] structure ServerLoops (ℓ : Type) where
  conns : ConnId → TcpConnection
  loopOf : ConnId → ℓ
  nextConnId : Nat
  connections : List Char → Option ConnId
  loops : ℓ → ServerThread
  life : ConnId → List (LifeEvent ℓ)
  assertFailed : Bool

/-- The calls that may come from any thread. -/
inductive ConnectionCall
  | send (data : List UInt8)
  | shutdown
  | forceClose

/-- What user code on a loop may do. -/
inductive ServerCall (ℓ : Type)
  /-- It calls a method; on the connection's own thread `::write` may answer `w`. -/
  | method (m : ConnectionCall) (c : ConnId) (w : WriteResult)
  | queueInLoop (l : ℓ)

/-- The inputs of a loop.  For a connection that is accepted, `getNextLoop` answers with a loop. -/
abbrev ServerEvent (ℓ : Type) := LoopEvent (ℓ × ConnOptions) (ServerCall ℓ)

/-- The steps: of a loop, or of a thread that has none. -/
inductive ServerOp (ℓ : Type)
  | loop (l : ℓ) (e : ServerEvent ℓ)
  | foreign (m : ConnectionCall) (c : ConnId)

namespace ServerLoops

variable {ℓ : Type} [DecidableEq ℓ] (cfg : ServerConfig ℓ)

def initial : ServerLoops ℓ where
  conns := fun _ => TcpConnection.initial false false (64 * 1024 * 1024)
  loopOf := fun _ => cfg.base
  nextConnId := 1
  connections := fun _ => none
  loops := fun _ => .initial
  life := fun _ => []
  assertFailed := false

variable (s : ServerLoops ℓ)

/-- Changes one loop. -/
def onLoop (l : ℓ) (f : ServerThread → ServerThread) : ServerLoops ℓ :=
  { s with loops := Function.update s.loops l (f (s.loops l)) }

def post (l : ℓ) (f : ServerFunctor) : ServerLoops ℓ := s.onLoop l (·.post f)

def push (l : ℓ) (tasks : List ServerTask) : ServerLoops ℓ := s.onLoop l (·.push tasks)

/-- The first task is taken off the agenda. -/
def take (l : ℓ) (rest : List ServerTask) : ServerLoops ℓ := s.onLoop l (·.take rest)

def setConn (c : ConnId) (conn : TcpConnection) : ServerLoops ℓ :=
  { s with conns := Function.update s.conns c conn }

/-- Notes what has happened to a connection. -/
def note (c : ConnId) (e : LifeEvent ℓ) : ServerLoops ℓ :=
  { s with life := Function.update s.life c (s.life c ++ [e]) }

/-! ## The methods of a connection -/

/-- The functors that a method queues for user code. -/
def queued (es : List Effect) : List ServerFunctor :=
  es.filterMap fun
    | .queueInLoop _ => some .user
    | _ => none

/-- What a method of a connection has done itself, on the thread of loop `l`. -/
def store (l : ℓ) (c : ConnId) (r : TcpConnection × List Effect) : ServerLoops ℓ :=
  (s.setConn c r.1).onLoop l fun t =>
    { t with pendingFunctors := t.pendingFunctors ++ queued r.2 }

/-- A method of a connection has run on the thread of loop `l`, up to its first callback into
user code.  Among the methods only `handleClose` calls `closeCallback_`, after the connection
callback; after the message callback nothing follows that matters here. -/
def after (l : ℓ) (c : ConnId) (r : TcpConnection × List Effect) : ServerLoops ℓ :=
  if .closeCallback ∈ r.2 then
    ((s.store l c r).note c (.handleClose l)).push l [.user, .resume (.closing c)]
  else if .messageCallback ∈ r.2 then (s.store l c r).push l [.user]
  else s.store l c r

def connectEstablished (l : ℓ) (c : ConnId) : ServerLoops ℓ :=
  ((s.setConn c (s.conns c).connectEstablished.1).note c (.connectEstablished l)).push l [.user]

/-- `channel_->remove()`, which ends in `EventLoop::removeChannel`. -/
def removeChannel (l : ℓ) (c : ConnId) : ServerLoops ℓ :=
  if (s.loops l).currentActiveChannel = some (.conn c) then s.note c (.removeChannel true)
  else
    (s.setConn c { s.conns c with channel := (s.conns c).channel.removeChannel }).note c
      (.removeChannel false)

def connectDestroyed (l : ℓ) (c : ConnId) : ServerLoops ℓ :=
  let s' := (s.setConn c (s.conns c).connectDestroyed.1).note c
    (.connectDestroyed l (s.loops l).currentActiveChannel)
  if (s.conns c).state = .kConnected then s'.push l [.user, .resume (.destroying c)]
  else s'.removeChannel l c

/-- A call on the thread of the connection's loop. -/
def callInLoop (l : ℓ) (c : ConnId) (w : WriteResult) : ConnectionCall → ServerLoops ℓ
  | .send data => s.after l c ((s.conns c).send data w)
  | .shutdown => s.after l c (s.conns c).shutdown
  | .forceClose => s.after l c (s.conns c).forceClose

/-- A call on another thread, which tests, stores and posts in one step.  (The test and the store
are two steps in `SharedConnection.step`.) -/
def callForeign (c : ConnId) : ConnectionCall → ServerLoops ℓ
  | .send data =>
    if (s.conns c).state = .kConnected then s.post (s.loopOf c) (.raw c (.sendInLoop data))
    else s
  | .shutdown =>
    if (s.conns c).state = .kConnected then
      (s.setConn c { s.conns c with state := .kDisconnecting }).post (s.loopOf c)
        (.raw c .shutdownInLoop)
    else s
  | .forceClose =>
    if (s.conns c).state = .kConnected ∨ (s.conns c).state = .kDisconnecting then
      (s.setConn c { s.conns c with state := .kDisconnecting }).post (s.loopOf c)
        (.raw c .forceCloseInLoop)
    else s

/-! ## The methods of the server -/

/-- The new connection gets its number and is put into `connections_`. -/
def enter (io : ℓ) (conn : TcpConnection) : ServerLoops ℓ :=
  note
    { s with
      conns := Function.update s.conns s.nextConnId conn
      loopOf := Function.update s.loopOf s.nextConnId io
      nextConnId := s.nextConnId + 1
      connections :=
        Function.update s.connections (cfg.connName s.nextConnId) (some s.nextConnId) }
    s.nextConnId .newConnection

/-- `newConnection`, on the base loop. -/
def newConnection (io : ℓ) (conn : TcpConnection) : ServerLoops ℓ :=
  if io = cfg.base then (s.enter cfg io conn).connectEstablished io s.nextConnId
  else (s.enter cfg io conn).post io (.connectEstablished s.nextConnId)

def removeConnectionInLoop (c : ConnId) : ServerLoops ℓ :=
  if (s.connections (cfg.connName c)).isSome then
    (note { s with connections := Function.update s.connections (cfg.connName c) none } c
      (.removeConnectionInLoop 1)).post (s.loopOf c) (.connectDestroyed c)
  else { s.note c (.removeConnectionInLoop 0) with assertFailed := true }

/-- `removeConnection`, the close callback of every connection, called on loop `l`. -/
def removeConnection (l : ℓ) (c : ConnId) : ServerLoops ℓ :=
  if l = cfg.base then s.removeConnectionInLoop cfg c
  else s.post cfg.base (.removeConnectionInLoop c)

/-! ## Steps -/

/-- A channel that `epoll_wait` can report to loop `l`. -/
def Registered (l : ℓ) : ActiveChannel → Prop
  | .conn c => s.loopOf c = l ∧ (s.conns c).channel.epoll.isSome
  | .acceptor => l = cfg.base
  | _ => True

instance (l : ℓ) : DecidablePred (s.Registered cfg l)
  | .conn c => inferInstanceAs (Decidable (s.loopOf c = l ∧ (s.conns c).channel.epoll.isSome))
  | .acceptor => inferInstanceAs (Decidable (l = cfg.base))
  | .timerfd | .wakeup => isTrue trivial

/-- A functor runs. -/
def runFunctor (l : ℓ) : ServerFunctor → ServerEvent ℓ → Option (ServerLoops ℓ)
  | .connectEstablished c, .next => some (s.connectEstablished l c)
  | .removeConnectionInLoop c, .next => some (s.removeConnectionInLoop cfg c)
  | .connectDestroyed c, .next => some (s.connectDestroyed l c)
  | .raw c (.sendInLoop data), .write w => some (s.after l c ((s.conns c).sendInLoop data w))
  | .raw c .shutdownInLoop, .next => some (s.after l c (s.conns c, (s.conns c).shutdownInLoop))
  | .raw c .forceCloseInLoop, .next => some (s.after l c (s.conns c).forceCloseInLoop)
  | .user, .next => some (s.push l [.user])
  | _, _ => none

/-- What follows on a callback. -/
def resume (l : ℓ) : AfterCallback → ServerLoops ℓ
  | .closing c => s.removeConnection cfg l c
  | .destroying c => s.removeChannel l c

/-- What user code does on the thread of loop `l`. -/
def userCall (l : ℓ) : ServerCall ℓ → Option (ServerLoops ℓ)
  | .method m c w =>
    if c < s.nextConnId then
      some (if s.loopOf c = l then s.callInLoop l c w m else s.callForeign c m)
    else none
  | .queueInLoop l' => some (s.post l' .user)

/-- What loop `l` calls. -/
def methods (l : ℓ) :
    LoopMethods (ServerLoops ℓ) AfterCallback ServerFunctor (ℓ × ConnOptions) (ServerCall ℓ) where
  thread s := s.loops l
  onThread s f := s.onLoop l f
  conn s c := s.conns c
  registered s channel := decide (s.Registered cfg l channel)
  handled s c r := s.after l c r
  newConnection s new :=
    if s.nextConnId < intLimit then some (s.newConnection cfg new.1 new.2.connection) else none
  resume s rest := s.resume cfg l rest
  functor s f e := s.runFunctor cfg l f e
  user s u := s.userCall l u

/-- A failed assertion ends the process. -/
def step (s : ServerLoops ℓ) (op : ServerOp ℓ) : Option (ServerLoops ℓ) :=
  if s.assertFailed then none
  else
    match op with
    | .loop l e => (methods cfg l).step s e
    | .foreign m c => if c < s.nextConnId then some (s.callForeign c m) else none

end ServerLoops

/-- The loop of a connection that has been accepted. -/
def ServerOp.accepted {ℓ : Type} : ServerOp ℓ → Option ℓ
  | .loop _ e => e.accepted.map Prod.fst
  | .foreign _ _ => none

/-! ## What a step can do -/

namespace TcpConnection

/-- The handlers of the events of the channel. -/
inductive Serves (c : TcpConnection) : TcpConnection × List Effect → Prop
  | handleClose : Serves c c.handleClose
  | handleRead (received : SysResult (List UInt8)) : Serves c (c.handleRead received)
  | handleWrite (w : WriteResult) : Serves c (c.handleWrite w)

/-- The methods that user code calls, and what other threads post for them. -/
inductive Called (c : TcpConnection) : TcpConnection × List Effect → Prop
  | send (data : List UInt8) (w : WriteResult) : Called c (c.send data w)
  | shutdown : Called c c.shutdown
  | forceClose : Called c c.forceClose
  | sendInLoop (data : List UInt8) (w : WriteResult) : Called c (c.sendInLoop data w)
  | shutdownInLoop : Called c (c, c.shutdownInLoop)
  | forceCloseInLoop : Called c c.forceCloseInLoop

variable {c : TcpConnection} {r : TcpConnection × List Effect}

theorem Serves.handler (h : c.Serves r) : c.Handler r := by
  cases h with
  | handleClose => exact handleClose_handler c
  | handleRead received => exact handleRead_handler c received
  | handleWrite w => exact handleWrite_handler c w

theorem Called.handler (h : c.Called r) : c.Handler r := by
  cases h with
  | send data w => exact send_handler c data w
  | shutdown => exact shutdown_handler c
  | forceClose =>
    rw [forceClose_eq]
    exact forceCloseInLoop_handler c
  | sendInLoop data w => exact sendInLoop_handler c data w
  | shutdownInLoop => exact shutdownInLoop_handler c
  | forceCloseInLoop => exact forceCloseInLoop_handler c

end TcpConnection

namespace ServerLoops

variable {ℓ : Type} [DecidableEq ℓ] (cfg : ServerConfig ℓ)

/-- What the next task of loop `l` does, on a state `s` from which it has been taken. -/
inductive Done (s : ServerLoops ℓ) (l : ℓ) :
    ServerTask → ServerEvent ℓ → ServerLoops ℓ → Prop
  | closing (c : ConnId) : Done s l (.resume (.closing c)) .next (s.removeConnection cfg l c)
  | destroying (c : ConnId) : Done s l (.resume (.destroying c)) .next (s.removeChannel l c)
  | handleEvent (channel : ActiveChannel) (revents : Revents) :
      Done s l (.handleEvent channel revents) .next (s.onLoop l (·.handleEvent channel revents))
  /-- A handler of a connection. -/
  | event (c : ConnId) (cb : ChannelCallback) (e : ServerEvent ℓ) (he : e.accepted = none)
      (r : TcpConnection × List Effect) (hr : (s.conns c).Serves r) :
      Done s l (.callback (.conn c) cb) e (s.after l c r)
  | accept (io : ℓ) (o : ConnOptions) (h : s.nextConnId < intLimit) :
      Done s l (.callback .acceptor .read) (.accept (io, o)) (s.newConnection cfg io o.connection)
  /-- A callback that changes nothing here. -/
  | skip (channel : ActiveChannel) (cb : ChannelCallback) (e : ServerEvent ℓ)
      (he : e.accepted = none) : Done s l (.callback channel cb) e s
  | timer : Done s l (.callback .timerfd .read) .next (s.push l [.user])
  | doPendingFunctors : Done s l .doPendingFunctors .next (s.onLoop l (·.doPendingFunctors))
  | established (c : ConnId) :
      Done s l (.functor (.connectEstablished c)) .next (s.connectEstablished l c)
  | remove (c : ConnId) :
      Done s l (.functor (.removeConnectionInLoop c)) .next (s.removeConnectionInLoop cfg c)
  | destroyed (c : ConnId) :
      Done s l (.functor (.connectDestroyed c)) .next (s.connectDestroyed l c)
  | raw (c : ConnId) (f : ConnectionFunctor) (e : ServerEvent ℓ) (he : e.accepted = none)
      (r : TcpConnection × List Effect) (hr : (s.conns c).Called r) :
      Done s l (.functor (.raw c f)) e (s.after l c r)
  | user : Done s l (.functor .user) .next (s.push l [.user])

/-- What a step does. -/
inductive Step (s : ServerLoops ℓ) : ServerOp ℓ → ServerLoops ℓ → Prop
  | poll (l : ℓ) (batch : List (ActiveChannel × Revents)) (hagenda : (s.loops l).agenda = [])
      (hregistered : ∀ p ∈ batch, s.Registered cfg l p.1) :
      Step s (.loop l (.poll batch)) (s.onLoop l (·.poll batch))
  /-- A call on the connection's own thread; it does nothing before `connectEstablished`. -/
  | call (l : ℓ) (u : ServerCall ℓ) (c : ConnId) (r : TcpConnection × List Effect)
      (hc : c < s.nextConnId) (hl : s.loopOf c = l)
      (hagenda : ∃ rest, (s.loops l).agenda = .user :: rest) (hr : (s.conns c).Called r)
      (hearly : (s.conns c).state = .kConnecting → r = (s.conns c, [])) :
      Step s (.loop l (.call u)) (s.after l c r)
  /-- A call on another thread, which may be that of a loop. -/
  | foreign (op : ServerOp ℓ) (hop : op.accepted = none) (m : ConnectionCall) (c : ConnId)
      (hc : c < s.nextConnId) : Step s op (s.callForeign c m)
  | queueInLoop (l l' : ℓ) : Step s (.loop l (.call (.queueInLoop l'))) (s.post l' .user)
  | ret (l : ℓ) (rest : List ServerTask) (hagenda : (s.loops l).agenda = .user :: rest) :
      Step s (.loop l .ret) (s.take l rest)
  | task (l : ℓ) (task : ServerTask) (rest : List ServerTask) (e : ServerEvent ℓ)
      (s' : ServerLoops ℓ) (hagenda : (s.loops l).agenda = task :: rest) (huser : task ≠ .user)
      (hdone : Done cfg (s.take l rest) l task e s') : Step s (.loop l e) s'

variable {cfg} {s s' : ServerLoops ℓ} {l : ℓ} {e : ServerEvent ℓ}

theorem runFunctor_done {f : ServerFunctor} (h : s.runFunctor cfg l f e = some s') :
    Done cfg s l (.functor f) e s' := by
  unfold runFunctor at h
  split at h
  case h_1 c => exact Option.some.inj h ▸ .established c
  case h_2 c => exact Option.some.inj h ▸ .remove c
  case h_3 c => exact Option.some.inj h ▸ .destroyed c
  case h_4 c data w => exact Option.some.inj h ▸ .raw c _ _ rfl _ (.sendInLoop data w)
  case h_5 c => exact Option.some.inj h ▸ .raw c _ _ rfl _ .shutdownInLoop
  case h_6 c => exact Option.some.inj h ▸ .raw c _ _ rfl _ .forceCloseInLoop
  case h_7 => exact Option.some.inj h ▸ .user
  case h_8 => cases h

theorem does_done {task : ServerTask} (h : (methods cfg l).Does s task e s') :
    Done cfg s l task e s' := by
  cases h with
  | resume rest =>
    cases rest with
    | closing c => exact .closing c
    | destroying c => exact .destroying c
  | handleEvent channel revents => exact .handleEvent channel revents
  | handleClose c => exact .event c _ _ rfl _ .handleClose
  | handleRead c received => exact .event c _ _ rfl _ (.handleRead received)
  | handleWrite c w => exact .event c _ _ rfl _ (.handleWrite w)
  | timer => exact .timer
  | accept new s' h =>
    obtain ⟨hlimit, ⟨⟩⟩ := Option.ite_none_right_eq_some.mp h
    exact .accept new.1 new.2 hlimit
  | skip channel cb e he => exact .skip channel cb e he
  | doPendingFunctors => exact .doPendingFunctors
  | functor f e s' h => exact runFunctor_done h

theorem callInLoop_step {u : ServerCall ℓ} {c : ConnId} {w : WriteResult} (m : ConnectionCall)
    (hc : c < s.nextConnId) (hl : s.loopOf c = l)
    (hagenda : ∃ rest, (s.loops l).agenda = .user :: rest) :
    Step cfg s (.loop l (.call u)) (s.callInLoop l c w m) := by
  cases m with
  | send data =>
    refine .call l u c _ hc hl hagenda (.send data w) fun h => ?_
    simp [TcpConnection.send, h]
  | shutdown =>
    refine .call l u c _ hc hl hagenda .shutdown fun h => ?_
    simp [TcpConnection.shutdown, h]
  | forceClose =>
    refine .call l u c _ hc hl hagenda .forceClose fun h => ?_
    simp [TcpConnection.forceClose, h]

theorem userCall_step {rest : List ServerTask} (hagenda : (s.loops l).agenda = .user :: rest)
    {u : ServerCall ℓ} (h : s.userCall l u = some s') : Step cfg s (.loop l (.call u)) s' := by
  cases u with
  | method m c w =>
    obtain ⟨hc, h⟩ := Option.ite_none_right_eq_some.mp h
    obtain rfl := Option.some.inj h
    split
    · rename_i hl
      exact callInLoop_step m hc hl ⟨rest, hagenda⟩
    · exact .foreign _ rfl m c hc
  | queueInLoop l' => exact Option.some.inj h ▸ .queueInLoop l l'

theorem step_cases {op : ServerOp ℓ} (h : s.step cfg op = some s') :
    s.assertFailed = false ∧ Step cfg s op s' := by
  obtain ⟨hassert, h⟩ := Option.ite_none_left_eq_some.mp h
  refine ⟨Bool.eq_false_iff.mpr hassert, ?_⟩
  cases op with
  | foreign m c =>
    obtain ⟨hc, ⟨⟩⟩ := Option.ite_none_right_eq_some.mp h
    exact .foreign _ rfl m c hc
  | loop l e =>
    cases LoopMethods.step_cases h with
    | poll batch hagenda hregistered =>
      exact .poll l batch hagenda fun p hp => of_decide_eq_true (hregistered p hp)
    | call u s' rest hagenda h => exact userCall_step hagenda h
    | ret rest hagenda => exact .ret l rest hagenda
    | task task rest e s' hagenda huser hdoes =>
      exact .task l task rest e s' hagenda huser (does_done hdoes)

end ServerLoops
end ReMuduo
