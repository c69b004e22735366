import ReMuduo.Buffer
import ReMuduo.Channel

/-! # The methods of a connection

`TcpConnection` (`src/base/TcpConnection.cpp`), method by method, as it runs on the loop
thread.  A method changes the connection and asks things of its surroundings: it queues
functors, calls back into user code, shuts the socket down.  What it asks is the list
of its `Effect`s, in order; the change of the connection itself comes first, as it does
in the source.  System calls come with what the kernel answers.

The timers of a connection are not followed here: when they fire is up to the
environment, and all they do is call the methods below. -/
namespace ReMuduo

/-- `EWOULDBLOCK`. -/
def EWOULDBLOCK : Errno := 11

/-- `EPIPE`. -/
def EPIPE : Errno := 32

/-- `ECONNRESET`. -/
def ECONNRESET : Errno := 104

/-- `StateE`. -/
inductive StateE
  | kDisconnected
  | kConnecting
  | kConnected
  | kDisconnecting
deriving DecidableEq

/-- What `::write` answers: the number of bytes it accepted, or -1, and the value of
`errno` afterwards.  A call that does not fail leaves there whatever it was before. -/
structure WriteResult where
  ret : Option Nat
  errno : Errno
deriving DecidableEq

/-- The peer is gone, as far as the two tests of `errno` in the source tell. -/
def WriteResult.broken (w : WriteResult) : Bool :=
  w.errno != EWOULDBLOCK && (w.errno == EPIPE || w.errno == ECONNRESET)

/-- The functors a connection queues for user code. -/
inductive UserFunctor
  | writeComplete
  | highWaterMark (size : Nat)
deriving DecidableEq

/-- What a method asks of its surroundings. -/
inductive Effect
  | queueInLoop (f : UserFunctor)
  /-- `socket_->shutdownWrite()`. -/
  | shutdownWrite
  /-- `loop_->cancel` for each of the three timers that is set. -/
  | cancelTimers
  /-- The end of `handleRead` after a message: the idle timer and `lastActivityTime_`. -/
  | resetIdleTimer
  | connectionCallback
  | messageCallback
  | closeCallback
  /-- `channel_->remove()`. -/
  | removeChannel
deriving DecidableEq

/-- A connection.  `written` is what the kernel has accepted from its socket so far. -/
structure TcpConnection where
  state : StateE
  channel : Channel
  inputBuffer : ByteBuffer
  outputBuffer : ByteBuffer
  writeCompleteCallback : Bool
  highWaterMarkCallback : Bool
  highWaterMark : Nat
  written : List UInt8

namespace TcpConnection

/-- The connection as its constructor leaves it, with the callbacks that are set then. -/
def initial (writeCompleteCallback highWaterMarkCallback : Bool) (highWaterMark : Nat) :
    TcpConnection where
  state := .kConnecting
  channel := Channel.initial
  inputBuffer := ByteBuffer.ofSize Buffer.kInitialSize
  outputBuffer := ByteBuffer.ofSize Buffer.kInitialSize
  writeCompleteCallback := writeCompleteCallback
  highWaterMarkCallback := highWaterMarkCallback
  highWaterMark := highWaterMark
  written := []

def connectEstablished (c : TcpConnection) : TcpConnection × List Effect :=
  ({ c with state := .kConnected, channel := c.channel.enableReading }, [.connectionCallback])

def connectDestroyed (c : TcpConnection) : TcpConnection × List Effect :=
  if c.state = .kConnected then
    ({ c with state := .kDisconnected, channel := c.channel.disableAll },
      [.connectionCallback, .removeChannel])
  else (c, [.removeChannel])

def handleClose (c : TcpConnection) : TcpConnection × List Effect :=
  ({ c with state := .kDisconnected, channel := c.channel.disableAll },
    [.cancelTimers, .connectionCallback, .closeCallback])

/-- `handleRead`, where `readFd` answers with `received`.  A failed read ends in
`handleError`, which only logs. -/
def handleRead (c : TcpConnection) (received : SysResult (List UInt8)) :
    TcpConnection × List Effect :=
  match received with
  | .ok [] => c.handleClose
  | .ok (byte :: bytes) =>
    ({ c with inputBuffer := c.inputBuffer.readFd (byte :: bytes) },
      [.messageCallback, .resetIdleTimer])
  | .error _ => (c, [])

def shutdownInLoop (c : TcpConnection) : List Effect :=
  if c.channel.isWriting then [] else [.shutdownWrite]

/-- `handleWrite`, where `::write` of the readable bytes answers with `w`. -/
def handleWrite (c : TcpConnection) (w : WriteResult) : TcpConnection × List Effect :=
  if c.channel.isWriting then
    match w.ret with
    | some (n + 1) =>
      let c := { c with
        written := c.written ++ c.outputBuffer.contents.take (n + 1)
        outputBuffer := c.outputBuffer.retrieve (n + 1) }
      if c.outputBuffer.readableBytes = 0 then
        let c := { c with channel := c.channel.disableWriting }
        (c, (if c.writeCompleteCallback then [.queueInLoop .writeComplete] else []) ++
          if c.state = .kDisconnecting then c.shutdownInLoop else [])
      else (c, [])
    | _ => if w.broken then c.handleClose else (c, [])
  else (c, [])

/-- The second half of `sendInLoop`: what `::write` has not taken goes to the output
buffer. -/
def sendRemaining (c : TcpConnection) (remaining : List UInt8) : TcpConnection × List Effect :=
  if 0 < remaining.length then
    let oldLen := c.outputBuffer.readableBytes
    let newLen := oldLen + remaining.length
    ({ c with
      outputBuffer := c.outputBuffer.append remaining
      channel := if c.channel.isWriting then c.channel else c.channel.enableWriting },
      if c.highWaterMark ≤ newLen ∧ oldLen < c.highWaterMark ∧ c.highWaterMarkCallback = true then
        [.queueInLoop (.highWaterMark newLen)]
      else [])
  else (c, [])

/-- `sendInLoop(data)`, where the direct `::write`, if there is one, answers with `w`. -/
def sendInLoop (c : TcpConnection) (data : List UInt8) (w : WriteResult) :
    TcpConnection × List Effect :=
  if c.state = .kDisconnected then (c, [])
  else if c.channel.isWriting = false ∧ c.outputBuffer.readableBytes = 0 then
    match w.ret with
    | some nwrote =>
      let r := sendRemaining { c with written := c.written ++ data.take nwrote } (data.drop nwrote)
      (r.1, (if data.length - nwrote = 0 ∧ c.writeCompleteCallback = true then
          [.queueInLoop .writeComplete] else []) ++ r.2)
    | none => if w.broken then (c, []) else c.sendRemaining data
  else c.sendRemaining data

/-- `send(message)` on the loop thread. -/
def send (c : TcpConnection) (data : List UInt8) (w : WriteResult) : TcpConnection × List Effect :=
  if c.state = .kConnected then c.sendInLoop data w else (c, [])

/-- `shutdown()` on the loop thread. -/
def shutdown (c : TcpConnection) : TcpConnection × List Effect :=
  if c.state = .kConnected then
    let c := { c with state := .kDisconnecting }
    (c, c.shutdownInLoop)
  else (c, [])

def forceCloseInLoop (c : TcpConnection) : TcpConnection × List Effect :=
  if c.state = .kConnected ∨ c.state = .kDisconnecting then c.handleClose else (c, [])

/-- `forceClose()` on the loop thread. -/
def forceClose (c : TcpConnection) : TcpConnection × List Effect :=
  if c.state = .kConnected ∨ c.state = .kDisconnecting then
    forceCloseInLoop { c with state := .kDisconnecting }
  else (c, [])

/-- On the loop thread the two tests of `forceClose` are one. -/
theorem forceClose_eq (c : TcpConnection) : c.forceClose = c.forceCloseInLoop := by
  unfold forceClose forceCloseInLoop
  split
  · simp [handleClose]
  · rfl

/-! ## What `sendInLoop` leaves alone -/

variable {c : TcpConnection} {data : List UInt8} {w : WriteResult} {e : Effect}

@[simp] theorem state_sendRemaining (c : TcpConnection) (rest : List UInt8) :
    (c.sendRemaining rest).1.state = c.state := by
  unfold sendRemaining
  split <;> rfl

@[simp] theorem state_sendInLoop (c : TcpConnection) (data : List UInt8) (w : WriteResult) :
    (c.sendInLoop data w).1.state = c.state := by
  unfold sendInLoop
  split
  · rfl
  · split
    · split
      · exact state_sendRemaining _ _
      · split
        · rfl
        · exact state_sendRemaining _ _
    · exact state_sendRemaining _ _

theorem sendRemaining_effects {rest : List UInt8} (h : e ∈ (c.sendRemaining rest).2) :
    ∃ f, e = .queueInLoop f := by
  unfold sendRemaining at h
  split at h
  · dsimp only at h
    split at h
    · exact ⟨_, List.mem_singleton.mp h⟩
    · cases h
  · cases h

/-- All that `sendInLoop` asks of its surroundings is to queue functors for user code. -/
theorem sendInLoop_effects (h : e ∈ (c.sendInLoop data w).2) : ∃ f, e = .queueInLoop f := by
  unfold sendInLoop at h
  split at h
  · cases h
  · split at h
    · split at h
      · rcases List.mem_append.mp h with h | h
        · split at h
          · exact ⟨_, List.mem_singleton.mp h⟩
          · cases h
        · exact sendRemaining_effects h
      · split at h
        · cases h
        · exact sendRemaining_effects h
    · exact sendRemaining_effects h

end TcpConnection
end ReMuduo
