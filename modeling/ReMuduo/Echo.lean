import ReMuduo.MessageOrder

/-! # An echo server

The servers of `benchmark/` all have the same message callback: `conn->send(buf)`, with the input
buffer of the connection.  `send(Buffer*)` hands the readable bytes to `sendInLoop` and then
retrieves them; if the connection is no longer `kConnected` it does neither, and the bytes stay
where they are.

Here a connection with this callback is run with everything else that can happen to it: short
writes, `shutdown` and `forceClose` on any thread, errors and the end of the stream.  Bytes move
from the socket to the input buffer, from there to the output buffer and back to the socket, and
at each moment these three, the last one first, are what has been received
(`echo_returns_received`). -/
namespace ReMuduo

/-- `retrieveAll()`. -/
def ByteBuffer.retrieveAll (b : ByteBuffer) : ByteBuffer :=
  ⟨b.toBuffer.retrieveAll, (Buffer.retrieveAll_spec b.valid).1⟩

@[simp] theorem ByteBuffer.contents_retrieveAll (b : ByteBuffer) : b.retrieveAll.contents = [] :=
  (Buffer.retrieveAll_spec b.valid).2

@[simp] theorem ByteBuffer.contents_readFd (b : ByteBuffer) (bytes : List UInt8) :
    (b.readFd bytes).contents = b.contents ++ bytes := ByteBuffer.contents_ofSpec _

namespace TcpConnection

variable (c : TcpConnection)

/-- `send(message)` with a buffer, on the loop thread, and what is left of the buffer. -/
def sendBuffer (message : ByteBuffer) (w : WriteResult) :
    (TcpConnection × List Effect) × ByteBuffer :=
  if c.state = .kConnected then (c.sendInLoop message.contents w, message.retrieveAll)
  else ((c, []), message)

/-- The message callback `conn->send(buf)`. -/
def echo (w : WriteResult) : TcpConnection × List Effect :=
  let r := c.sendBuffer c.inputBuffer w
  ({ r.1.1 with inputBuffer := r.2 }, r.1.2)

/-- `handleRead` with this callback, where `::write` answers with `w`. -/
def handleReadEcho (received : SysResult (List UInt8)) (w : WriteResult) :
    TcpConnection × List Effect :=
  let r := c.handleRead received
  if .messageCallback ∈ r.2 then
    let e := r.1.echo w
    (e.1, e.2 ++ r.2)
  else r

/-! ## What the methods leave in the input buffer -/

theorem inputBuffer_handleWrite (w : WriteResult) :
    (c.handleWrite w).1.inputBuffer = c.inputBuffer := by
  unfold handleWrite
  split
  · split
    · dsimp only
      split <;> rfl
    · split <;> rfl
  · rfl

theorem inputBuffer_shutdown : c.shutdown.1.inputBuffer = c.inputBuffer := by
  unfold shutdown
  split <;> rfl

theorem inputBuffer_forceCloseInLoop : c.forceCloseInLoop.1.inputBuffer = c.inputBuffer := by
  unfold forceCloseInLoop
  split <;> rfl

theorem inputBuffer_connectDestroyed : c.connectDestroyed.1.inputBuffer = c.inputBuffer := by
  unfold connectDestroyed
  split <;> rfl

/-- What has been received and is still in the connection or was written, in order. -/
def echoed : List UInt8 := c.stream ++ c.inputBuffer.contents

/-- The callback moves bytes from the input buffer to the stream. -/
theorem echoed_echo {w : WriteResult} (hw : w.ret = none → w.broken = false) :
    (c.echo w).1.echoed = c.echoed ∧ (c.echo w).1.state = c.state ∧
      (c.state = .kConnected → (c.echo w).1.inputBuffer.contents = []) := by
  unfold echo sendBuffer
  by_cases hstate : c.state = .kConnected
  · have htakes : c.takes w = true := by
      cases hret : w.ret with
      | none => simp [takes, hstate, hw hret]
      | some n => simp [takes, hstate, hret]
    have hstream := c.stream_sendInLoop c.inputBuffer.contents w
    rw [if_pos htakes] at hstream
    rw [if_pos hstate]
    refine ⟨?_, state_sendInLoop _ _ _, fun _ => ByteBuffer.contents_retrieveAll _⟩
    show (c.sendInLoop c.inputBuffer.contents w).1.stream ++ c.inputBuffer.retrieveAll.contents = _
    rw [hstream, ByteBuffer.contents_retrieveAll, List.append_nil]
    rfl
  · rw [if_neg hstate]
    exact ⟨rfl, rfl, fun h => absurd h hstate⟩

/-- The bytes that `readFd` delivers. -/
def delivered : SysResult (List UInt8) → List UInt8
  | .ok data => data
  | .error _ => []

/-- `handleRead` adds what it receives. -/
theorem echoed_handleReadEcho (received : SysResult (List UInt8)) {w : WriteResult}
    (hw : w.ret = none → w.broken = false) :
    (c.handleReadEcho received w).1.echoed = c.echoed ++ delivered received ∧
      ((c.handleReadEcho received w).1.state = .kConnected →
        c.state = .kConnected ∧ (c.inputBuffer.contents = [] →
          (c.handleReadEcho received w).1.inputBuffer.contents = [])) := by
  unfold handleReadEcho handleRead
  cases received with
  | error e => exact ⟨(List.append_nil _).symm, fun h => ⟨h, id⟩⟩
  | ok data =>
    cases data with
    | nil =>
      refine ⟨(List.append_nil _).symm, fun h => ?_⟩
      cases h
    | cons byte bytes =>
      dsimp only
      rw [if_pos List.mem_cons_self]
      obtain ⟨hechoed, hstate, hempty⟩ := echoed_echo
        { c with inputBuffer := c.inputBuffer.readFd (byte :: bytes) } hw
      refine ⟨?_, fun h => ?_⟩
      · rw [hechoed]
        simp [echoed, stream, delivered]
      · rw [hstate] at h
        exact ⟨h, fun _ => hempty h⟩

end TcpConnection

/-- A connection of an echo server, with what it has received so far. -/
structure EchoConnection (τ : Type) where
  shared : SharedConnection τ
  received : List UInt8

inductive EchoOp (τ : Type)
  /-- The handler of the channel reads; `w` answers the `::write` of the callback. -/
  | handleRead (received : SysResult (List UInt8)) (w : WriteResult)
  /-- Any other step of the machine of the connection, apart from `send`. -/
  | other (op : SharedOp τ)

/-- A direct `::write` that fails does not mean that the peer is gone. -/
def EchoOp.Healthy {τ : Type} : EchoOp τ → Prop
  | .handleRead _ w => w.ret = none → w.broken = false
  | .other _ => True

/-- The steps an echo server leaves to its surroundings. -/
def SharedOp.echoes {τ : Type} : SharedOp τ → Bool
  | .post _ | .send _ _ | .handleRead _ => false
  | _ => true

namespace EchoConnection

variable {τ : Type} [DecidableEq τ]

def established (writeComplete highWater : Bool) (mark : Nat) : EchoConnection τ :=
  ⟨.established writeComplete highWater mark, []⟩

def step (s : EchoConnection τ) : EchoOp τ → Option (EchoConnection τ)
  | .handleRead received w =>
    some
      { shared := s.shared.after .handler false (s.shared.conn.handleReadEcho received w)
        received := s.received ++ TcpConnection.delivered received }
  | .other op =>
    if op.echoes then (s.shared.step op).map fun shared => { s with shared := shared } else none

variable {s s' : EchoConnection τ} {op : EchoOp τ} {ops : List (EchoOp τ)}

/-- No message was posted, what was received is in the connection or was written, and nothing
waits in the input buffer of a connection that is up. -/
structure Echoing (s : EchoConnection τ) : Prop where
  unsent : s.shared.functors.filterMap Senders.payload = []
  echoed : s.shared.conn.echoed = s.received
  input : s.shared.conn.state = .kConnected → s.shared.conn.inputBuffer.contents = []

omit [DecidableEq τ] in
theorem established_echoing (writeComplete highWater : Bool) (mark : Nat) :
    (established writeComplete highWater mark : EchoConnection τ).Echoing := by
  constructor <;> simp [established, SharedConnection.established, TcpConnection.echoed,
    TcpConnection.stream, TcpConnection.connectEstablished, TcpConnection.initial]

/-- Only `handleRead` touches the input buffer. -/
theorem step_input {c c' : SharedConnection τ} {op : SharedOp τ} (hop : op.echoes = true)
    (hfunctor : op.sendsNothing = true) (h : c.step op = some c') :
    c'.conn.inputBuffer = c.conn.inputBuffer := by
  cases op with
  | post | send | handleRead => cases hop
  | functor => cases hfunctor
  | test t call =>
    simp only [SharedConnection.step] at h
    split at h
    · cases h
    · split at h <;> cases h <;> rfl
  | store t =>
    simp only [SharedConnection.step] at h
    split at h <;> cases h
    rfl
  | shutdown =>
    cases h
    exact TcpConnection.inputBuffer_shutdown _
  | forceClose =>
    cases h
    rw [TcpConnection.forceClose_eq]
    exact TcpConnection.inputBuffer_forceCloseInLoop _
  | handleWrite w =>
    cases h
    exact TcpConnection.inputBuffer_handleWrite _ _
  | handleClose =>
    cases h
    rfl
  | connectDestroyed =>
    cases h
    exact TcpConnection.inputBuffer_connectDestroyed _

/-- What the other steps leave alone. -/
theorem other_frame {c c' : SharedConnection τ} {op : SharedOp τ} (hop : op.echoes = true)
    (hunsent : c.functors.filterMap Senders.payload = []) (h : c.step op = some c') :
    c'.functors.filterMap Senders.payload = [] ∧ c'.conn.stream = c.conn.stream ∧
      c'.conn.inputBuffer = c.conn.inputBuffer ∧
      (c'.conn.state = .kConnected → c.conn.state = .kConnected) := by
  have hstate : c'.conn.state = .kConnected → c.conn.state = .kConnected := by
    intro hup
    cases SharedConnection.step_logged h with
    | quiet _ hconn _ => rwa [hconn] at hup
    | stored hdown _ => cases hdown.symm.trans hup
    | method _ hconn _ hmethod _ =>
      rw [hconn] at hup
      exact hmethod.leads.connected hup
  cases op with
  | post | send | handleRead => cases hop
  | functor w =>
    simp only [SharedConnection.step] at h
    split at h
    · cases h
    · rename_i f rest hfunctors
      cases h
      obtain ⟨hrest, hstream⟩ := Senders.runFunctor_stream { c with functors := rest } w f
      rw [hfunctors] at hunsent
      cases f with
      | sendInLoop data => cases hunsent
      | shutdownInLoop => exact ⟨hunsent, hstream.trans (List.append_nil _), rfl, hstate⟩
      | forceCloseInLoop =>
        exact ⟨hunsent, hstream.trans (List.append_nil _),
          TcpConnection.inputBuffer_forceCloseInLoop _, hstate⟩
  | test | store | shutdown | forceClose | handleWrite | handleClose | connectDestroyed =>
    obtain ⟨hstream, hfunctors⟩ := Senders.other_frame rfl h
    exact ⟨hfunctors.trans hunsent, hstream, step_input rfl rfl h, hstate⟩

theorem step_echoing (hs : s.Echoing) (hop : op.Healthy) (h : s.step op = some s') :
    s'.Echoing := by
  cases op with
  | handleRead received w =>
    cases h
    obtain ⟨hechoed, hinput⟩ := s.shared.conn.echoed_handleReadEcho received hop
    refine ⟨hs.unsent, hechoed.trans (by rw [hs.echoed]), fun hup => ?_⟩
    obtain ⟨hbefore, hempty⟩ := hinput hup
    exact hempty (hs.input hbefore)
  | other op =>
    obtain ⟨hop, h⟩ := Option.ite_none_right_eq_some.mp h
    obtain ⟨shared, hshared, rfl⟩ := Option.map_eq_some_iff.mp h
    obtain ⟨hunsent, hstream, hinput, hstate⟩ := other_frame hop hs.unsent hshared
    refine ⟨hunsent, ?_, fun hup => ?_⟩
    · rw [← hs.echoed, TcpConnection.echoed, TcpConnection.echoed, hstream, hinput]
    · rw [hinput]
      exact hs.input (hstate hup)

/-- **An echo server returns what it receives.**  For every interleaving of reads, writes and
closes of a connection with `shutdown` and `forceClose` on any threads, as long as no direct
write finds the peer gone: what the kernel has accepted, what waits in the output buffer and what
is left in the input buffer are, in this order, the bytes received; and nothing is left in the
input buffer as long as the connection is `kConnected`. -/
theorem echo_returns_received {writeComplete highWater : Bool} {mark : Nat}
    (hrun : Machine.run step (established writeComplete highWater mark) ops = some s)
    (hops : ∀ op ∈ ops, op.Healthy) :
    s.shared.conn.written ++ s.shared.conn.outputBuffer.contents ++
        s.shared.conn.inputBuffer.contents = s.received ∧
      (s.shared.conn.state = .kConnected → s.shared.conn.inputBuffer.contents = []) := by
  have hs : s.Echoing := Machine.run_invariant_mem
    (fun op hop _ _ hs h => step_echoing hs (hops op hop) h) hrun (established_echoing _ _ _)
  exact ⟨hs.echoed, hs.input⟩

/-- The first bytes are echoed in two writes; those that come after a `shutdown` on another thread
stay in the input buffer. -/
def halfClosed : List (EchoOp Nat) :=
  [.handleRead (.ok [1, 2, 3]) ⟨some 1, 0⟩, .other (.test 5 .shutdown), .other (.store 5),
    .handleRead (.ok [4, 5]) ⟨none, EWOULDBLOCK⟩, .other (.functor ⟨none, 0⟩),
    .other (.handleWrite ⟨some 2, 0⟩)]

theorem echo_returns_received_halfClosed :
    ∃ s, Machine.run step (established true true 64) halfClosed = some s ∧
      s.shared.conn.state = .kDisconnecting ∧
      s.shared.conn.written ++ s.shared.conn.outputBuffer.contents ++
        s.shared.conn.inputBuffer.contents = [1, 2, 3, 4, 5] := by
  have hview : (Machine.run step (established true true 64) halfClosed).map
      (fun s => (s.shared.conn.state, s.received)) = some (.kDisconnecting, [1, 2, 3, 4, 5]) := by
    decide +kernel
  obtain ⟨s, hrun, hs⟩ := Option.map_eq_some_iff.mp hview
  simp only [Prod.mk.injEq] at hs
  have hecho := echo_returns_received hrun (by simp [halfClosed, EchoOp.Healthy]; decide)
  exact ⟨s, hrun, hs.1, hecho.1.trans hs.2⟩

end EchoConnection
end ReMuduo
