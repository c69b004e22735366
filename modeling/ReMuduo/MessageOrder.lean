import ReMuduo.SharedConnection

/-! # The order of messages from several threads

Any thread may call `send` on a connection (`src/base/TcpConnection.cpp`).  On the loop thread the
message goes to `sendInLoop` at once; another thread posts it, and the loop thread runs the
posted calls later, in the order in which they were posted.  `sendInLoop` in turn may find the
connection closed or the peer gone, and drops the message as a whole, or it writes one part of it
and buffers the other.

Here the machine of `SharedConnection` is run with a record of who sent what: the messages posted,
those of them still queued, and all messages `sendInLoop` was given, with the sender and with
what became of them.  The bytes that reach the kernel and the output buffer are the messages that
were taken, one after the other, none torn apart by another (`messages_in_order`). -/
namespace ReMuduo

namespace TcpConnection

variable (c : TcpConnection)

/-- What the kernel has accepted and what waits to be written. -/
def stream : List UInt8 := c.written ++ c.outputBuffer.contents

/-- `sendInLoop` takes the message: the connection is not disconnected, and if it writes directly
it does not find the peer gone. -/
def takes (w : WriteResult) : Bool :=
  decide (c.state ≠ .kDisconnected) && !(c.writesDirectly && w.ret.isNone && w.broken)

theorem stream_sendRemaining (rest : List UInt8) :
    (c.sendRemaining rest).1.stream = c.stream ++ rest := by
  unfold sendRemaining
  split
  · simp [stream]
  · rename_i hrest
    rw [List.eq_nil_of_length_eq_zero (Nat.eq_zero_of_not_pos hrest), List.append_nil]

/-- `sendInLoop` adds the message to the stream, or drops it. -/
theorem stream_sendInLoop (data : List UInt8) (w : WriteResult) :
    (c.sendInLoop data w).1.stream = c.stream ++ if c.takes w then data else [] := by
  unfold sendInLoop
  by_cases hstate : c.state = .kDisconnected
  · simp [takes, hstate]
  · rw [if_neg hstate]
    by_cases hdirect : c.channel.isWriting = false ∧ c.outputBuffer.readableBytes = 0
    · have hnil : c.outputBuffer.contents = [] := by
        rw [← List.length_eq_zero_iff, ByteBuffer.length_contents, hdirect.2]
      have hwrites : c.writesDirectly = true := by simp [writesDirectly, hstate, hdirect]
      rw [if_pos hdirect]
      cases hret : w.ret with
      | some n =>
        -- what the kernel takes first is followed by nothing that is buffered
        dsimp only
        rw [stream_sendRemaining]
        simp [stream, hnil, takes, hstate, hret, List.append_assoc]
      | none =>
        dsimp only
        split
        · rename_i hbroken
          simp [takes, hstate, hwrites, hret, hbroken]
        · rename_i hbroken
          rw [stream_sendRemaining]
          simp [takes, hstate, hret, hbroken]
    · have hwrites : c.writesDirectly = false := by
        simpa [writesDirectly, hstate] using hdirect
      rw [if_neg hdirect, stream_sendRemaining]
      simp [takes, hstate, hwrites]

/-- `handleWrite` moves bytes from the buffer to the kernel. -/
theorem stream_handleWrite (w : WriteResult) : (c.handleWrite w).1.stream = c.stream := by
  unfold handleWrite
  split
  · split
    · rename_i n hret
      have hmove : c.written ++ c.outputBuffer.contents.take (n + 1) ++
          (c.outputBuffer.retrieve (n + 1)).contents = c.stream := by
        rw [ByteBuffer.contents_retrieve, List.append_assoc, List.take_append_drop, stream]
      dsimp only
      split
      · exact hmove
      · exact hmove
    · split
      · rfl
      · rfl
  · rfl

theorem stream_send (data : List UInt8) (w : WriteResult) :
    (c.send data w).1.stream =
      c.stream ++ if c.state = .kConnected ∧ c.takes w = true then data else [] := by
  unfold send
  by_cases hstate : c.state = .kConnected
  · rw [if_pos hstate, stream_sendInLoop]
    simp [hstate]
  · rw [if_neg hstate]
    simp [hstate]

theorem stream_handleRead (received : SysResult (List UInt8)) :
    (c.handleRead received).1.stream = c.stream := by
  unfold handleRead
  split <;> rfl

theorem stream_shutdown : c.shutdown.1.stream = c.stream := by
  unfold shutdown
  split <;> rfl

theorem stream_forceCloseInLoop : c.forceCloseInLoop.1.stream = c.stream := by
  unfold forceCloseInLoop
  split <;> rfl

theorem stream_connectDestroyed : c.connectDestroyed.1.stream = c.stream := by
  unfold connectDestroyed
  split <;> rfl

end TcpConnection

/-- A message that `sendInLoop` was given: the thread that posted it, `none` for the loop
thread, and whether it was taken. -/
structure Message (τ : Type) where
  sender : Option τ
  data : List UInt8
  taken : Bool
deriving DecidableEq

namespace Message

variable {τ : Type}

/-- The bytes of the message in the stream. -/
def bytes (m : Message τ) : List UInt8 := if m.taken then m.data else []

/-- The message as it was posted, if it was. -/
def posted (m : Message τ) : Option (τ × List UInt8) := m.sender.map (·, m.data)

end Message

/-- A connection with its senders: the messages posted so far, those of them that wait in the
queue of the loop, and all that `sendInLoop` was given. -/
structure Senders (τ : Type) where
  shared : SharedConnection τ
  posted : List (τ × List UInt8)
  queued : List (τ × List UInt8)
  processed : List (Message τ)

inductive SenderOp (τ : Type)
  /-- `send(data)` on the thread `t`. -/
  | post (t : τ) (data : List UInt8)
  /-- The loop thread takes the next functor; `w` answers its `::write`. -/
  | functor (w : WriteResult)
  /-- `send(data)` on the loop thread. -/
  | send (data : List UInt8) (w : WriteResult)
  /-- Any other step. -/
  | other (op : SharedOp τ)

/-- The steps that are not about messages. -/
def SharedOp.sendsNothing {τ : Type} : SharedOp τ → Bool
  | .post _ | .functor _ | .send _ _ => false
  | _ => true

namespace Senders

variable {τ : Type} [DecidableEq τ]

def established (writeComplete highWater : Bool) (mark : Nat) : Senders τ :=
  ⟨.established writeComplete highWater mark, [], [], []⟩

def step (s : Senders τ) : SenderOp τ → Option (Senders τ)
  | .post t data =>
    (s.shared.step (.post data)).map fun shared =>
      if s.shared.conn.state = .kConnected then
        { s with
          shared := shared
          posted := s.posted ++ [(t, data)]
          queued := s.queued ++ [(t, data)] }
      else { s with shared := shared }
  | .functor w =>
    (s.shared.step (.functor w)).map fun shared =>
      match s.shared.functors, s.queued with
      | .sendInLoop data :: _, (t, _) :: queued =>
        { s with
          shared := shared
          queued := queued
          processed := s.processed ++ [⟨some t, data, s.shared.conn.takes w⟩] }
      | _, _ => { s with shared := shared }
  | .send data w =>
    (s.shared.step (.send data w)).map fun shared =>
      if s.shared.conn.state = .kConnected then
        { s with
          shared := shared
          processed := s.processed ++ [⟨none, data, s.shared.conn.takes w⟩] }
      else { s with shared := shared }
  | .other op =>
    if op.sendsNothing then (s.shared.step op).map fun shared => { s with shared := shared }
    else none

variable {s s' : Senders τ} {op : SenderOp τ} {ops : List (SenderOp τ)}

/-- The payload of a functor that sends. -/
def payload : ConnectionFunctor → Option (List UInt8)
  | .sendInLoop data => some data
  | _ => none

/-- The queue of the loop holds what is queued, in order; what was posted has been processed or is
queued; and the stream is what was taken. -/
structure Ordered (s : Senders τ) : Prop where
  queue : s.shared.functors.filterMap payload = s.queued.map Prod.snd
  posted : s.posted = s.processed.filterMap Message.posted ++ s.queued
  stream : s.shared.conn.stream = (s.processed.map Message.bytes).flatten

omit [DecidableEq τ] in
theorem established_ordered (writeComplete highWater : Bool) (mark : Nat) :
    (established writeComplete highWater mark : Senders τ).Ordered where
  queue := rfl
  posted := rfl
  stream := by
    simp [established, SharedConnection.established, TcpConnection.stream,
      TcpConnection.connectEstablished, TcpConnection.initial]

/-- A step that is not about messages leaves the stream alone, and adds no functor that sends. -/
theorem other_frame {c c' : SharedConnection τ} {op : SharedOp τ} (hop : op.sendsNothing = true)
    (h : c.step op = some c') :
    c'.conn.stream = c.conn.stream ∧
      c'.functors.filterMap payload = c.functors.filterMap payload := by
  cases op with
  | post | functor | send => cases hop
  | test t call =>
    simp only [SharedConnection.step] at h
    split at h
    · cases h
    · split at h <;> cases h <;> exact ⟨rfl, rfl⟩
  | store t =>
    simp only [SharedConnection.step] at h
    split at h
    · cases h
    · rename_i call hcall
      cases h
      refine ⟨rfl, ?_⟩
      cases call <;> simp [SharedConnection.after, ForeignCall.functor, payload]
  | shutdown =>
    cases h
    exact ⟨TcpConnection.stream_shutdown _, rfl⟩
  | forceClose =>
    cases h
    refine ⟨?_, rfl⟩
    rw [TcpConnection.forceClose_eq]
    exact TcpConnection.stream_forceCloseInLoop _
  | handleRead received =>
    cases h
    exact ⟨TcpConnection.stream_handleRead _ _, rfl⟩
  | handleWrite w =>
    cases h
    exact ⟨TcpConnection.stream_handleWrite _ _, rfl⟩
  | handleClose =>
    cases h
    exact ⟨rfl, rfl⟩
  | connectDestroyed =>
    cases h
    exact ⟨TcpConnection.stream_connectDestroyed _, rfl⟩

omit [DecidableEq τ] in
/-- The loop thread runs the functor `f`. -/
theorem runFunctor_stream (c : SharedConnection τ) (w : WriteResult) (f : ConnectionFunctor) :
    (c.runFunctor w f).functors = c.functors ∧
      (c.runFunctor w f).conn.stream = c.conn.stream ++
        match f with
        | .sendInLoop data => if c.conn.takes w then data else []
        | .shutdownInLoop | .forceCloseInLoop => [] := by
  cases f with
  | sendInLoop data => exact ⟨rfl, TcpConnection.stream_sendInLoop _ _ _⟩
  | shutdownInLoop => exact ⟨rfl, (List.append_nil _).symm⟩
  | forceCloseInLoop =>
    exact ⟨rfl, (TcpConnection.stream_forceCloseInLoop _).trans (List.append_nil _).symm⟩

theorem step_ordered (hs : s.Ordered) (h : s.step op = some s') : s'.Ordered := by
  cases op with
  | post t data =>
    obtain ⟨shared, hshared, rfl⟩ := Option.map_eq_some_iff.mp h
    simp only [SharedConnection.step] at hshared
    split at hshared
    · rename_i hstate
      cases hshared
      rw [if_pos hstate]
      refine ⟨?_, ?_, hs.stream⟩
      · simp [payload, hs.queue]
      · simp [hs.posted]
    · rename_i hstate
      cases hshared
      rw [if_neg hstate]
      exact hs
  | functor w =>
    obtain ⟨shared, hshared, rfl⟩ := Option.map_eq_some_iff.mp h
    have hqueue := hs.queue
    simp only [SharedConnection.step] at hshared
    split at hshared
    · cases hshared
    · rename_i f rest hfunctors
      cases hshared
      obtain ⟨hrest, hstream⟩ := runFunctor_stream { s.shared with functors := rest } w f
      rw [hfunctors] at hqueue ⊢
      cases f with
      | sendInLoop data =>
        -- the message at the front of the queue is the one that was posted first
        obtain ⟨⟨t, data'⟩, queued, hqueued, rfl, htail⟩ :=
          List.map_eq_cons_iff.mp (show s.queued.map Prod.snd = data :: _ from hqueue.symm)
        rw [hqueued]
        refine ⟨?_, ?_, ?_⟩
        · rw [hrest]
          exact htail.symm
        · rw [hs.posted, hqueued]
          simp [Message.posted]
        · rw [hstream]
          simp [hs.stream, Message.bytes]
      | shutdownInLoop | forceCloseInLoop =>
        refine ⟨?_, hs.posted, ?_⟩
        · rw [hrest]
          exact hqueue
        · rw [hstream]
          simpa using hs.stream
  | send data w =>
    obtain rfl := Option.some.inj h
    have hstream := s.shared.conn.stream_send data w
    split
    · rename_i hstate
      refine ⟨hs.queue, ?_, ?_⟩
      · simp [hs.posted, Message.posted]
      · simpa [hstate, hs.stream, Message.bytes, SharedConnection.after] using hstream
    · rename_i hstate
      refine ⟨hs.queue, hs.posted, ?_⟩
      simpa [hstate, hs.stream, SharedConnection.after] using hstream
  | other op =>
    obtain ⟨hop, h⟩ := Option.ite_none_right_eq_some.mp h
    obtain ⟨shared, hshared, rfl⟩ := Option.map_eq_some_iff.mp h
    obtain ⟨hstream, hfunctors⟩ := other_frame hop hshared
    exact ⟨hfunctors.trans hs.queue, hs.posted, hstream.trans hs.stream⟩

/-- The messages of one thread. -/
def ofThread (t : τ) (messages : List (τ × List UInt8)) : List (List UInt8) :=
  (messages.filter (·.1 = t)).map Prod.snd

/-- **Messages are sent whole and in order.**  For every interleaving of `send` (one step on
another thread), `shutdown` and `forceClose` (a test, then a store with the post) on any threads
with the loop thread, and for all answers of the kernel: what the kernel has accepted followed by
the output buffer is the sequence of the messages that `sendInLoop` took, each of them in one
piece; and for each thread, the messages it posted are those that `sendInLoop` was given, in the
same order, followed by those still queued. -/
theorem messages_in_order {writeComplete highWater : Bool} {mark : Nat}
    (hrun : Machine.run step (established writeComplete highWater mark) ops = some s) :
    s.shared.conn.written ++ s.shared.conn.outputBuffer.contents =
        ((s.processed.filter (·.taken)).map Message.data).flatten ∧
      ∀ t, ofThread t s.posted =
        ofThread t (s.processed.filterMap Message.posted) ++ ofThread t s.queued := by
  have hs : s.Ordered := Machine.run_invariant (fun _ _ _ hs h => step_ordered hs h) hrun
    (established_ordered _ _ _)
  refine ⟨?_, fun t => ?_⟩
  · refine hs.stream.trans ?_
    -- a message that was dropped has no bytes
    induction s.processed with
    | nil => rfl
    | cons m rest ih => cases htaken : m.taken <;> simp [Message.bytes, htaken, ih]
  · rw [hs.posted]
    simp [ofThread]

/-- Two threads post, the loop thread sends in between, and the kernel takes a part of each
write. -/
def twoThreads : List (SenderOp Nat) :=
  [.post 1 [10, 11], .post 2 [20], .functor ⟨some 1, 0⟩, .send [30, 31] ⟨none, EWOULDBLOCK⟩,
    .post 1 [12], .functor ⟨none, EWOULDBLOCK⟩, .other (.handleWrite ⟨some 2, 0⟩)]

theorem messages_in_order_twoThreads :
    ∃ s, Machine.run step (established true true 64) twoThreads = some s ∧
      s.shared.conn.written ++ s.shared.conn.outputBuffer.contents = [10, 11, 30, 31, 20] ∧
      [[10, 11], [12]] =
        ofThread 1 (s.processed.filterMap Message.posted) ++ ofThread 1 s.queued := by
  have hview : (Machine.run step (established true true 64) twoThreads).map
      (fun s => ((s.processed.filter (·.taken)).map Message.data, s.posted)) =
        some ([[10, 11], [30, 31], [20]], [(1, [10, 11]), (2, [20]), (1, [12])]) := by
    decide +kernel
  obtain ⟨s, hrun, hs⟩ := Option.map_eq_some_iff.mp hview
  simp only [Prod.mk.injEq] at hs
  have horder := messages_in_order hrun
  rw [hs.1] at horder
  have hthread := horder.2 1
  rw [hs.2] at hthread
  exact ⟨s, hrun, horder.1, hthread⟩

end Senders
end ReMuduo
