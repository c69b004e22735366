import ReMuduo.Machine
import ReMuduo.TcpConnection

/-! # The output stream of a connection

Bytes given to `sendInLoop` reach the kernel by two paths, the direct `::write` and the
output buffer that `handleWrite` drains, and both may take any part of what is offered.
The runs here are all sequences of methods on one connection, with any answers of the
kernel short of a broken peer; `Intact` says that what the kernel has accepted,
followed by what is buffered, is what was given to `sendInLoop`, and that the channel
waits for writability exactly as long as something is buffered.

`shutdown` and `forceClose` on another thread are a test and a store of `state_`, taken
as one step, and a functor that runs later on the loop thread. -/
namespace ReMuduo

/-- The kernel accepts at most what it is offered, and fails for no reason that means the
peer is gone. -/
def WriteResult.Allowed (w : WriteResult) (offered : Nat) : Prop :=
  match w.ret with
  | some n => n ≤ offered
  | none => w.errno ≠ EPIPE ∧ w.errno ≠ ECONNRESET

instance (w : WriteResult) (offered : Nat) : Decidable (w.Allowed offered) := by
  unfold WriteResult.Allowed
  split <;> infer_instance

namespace TcpConnection

variable {c : TcpConnection} {sent data : List UInt8} {w : WriteResult}

/-- Nothing given to `sendInLoop` is lost, duplicated or out of order. -/
def Intact (c : TcpConnection) (sent : List UInt8) : Prop :=
  c.state ≠ .kDisconnected →
    c.written ++ c.outputBuffer.contents = sent ∧
      (c.channel.isWriting = true ↔ c.outputBuffer.contents ≠ [])

theorem initial_intact (writeComplete highWater : Bool) (mark : Nat) :
    (initial writeComplete highWater mark).Intact [] := by
  intro _
  simp [initial, Channel.initial, Channel.isWriting, kNoneEvent]

theorem handleClose_intact (c : TcpConnection) (sent : List UInt8) :
    c.handleClose.1.Intact sent := fun h => absurd rfl h

/-- An empty buffer leaves nothing to wait for. -/
theorem contents_eq_nil_iff : c.outputBuffer.contents = [] ↔ c.outputBuffer.readableBytes = 0 := by
  rw [← ByteBuffer.length_contents, List.length_eq_zero_iff]

theorem sendRemaining_intact (hc : c.Intact sent) (rest : List UInt8) :
    (c.sendRemaining rest).1.Intact (sent ++ rest) := by
  unfold sendRemaining
  split
  · rename_i hrest
    intro hstate
    obtain ⟨hstream, -⟩ := hc hstate
    refine ⟨?_, ?_⟩
    · show c.written ++ (c.outputBuffer.append rest).contents = _
      rw [ByteBuffer.contents_append, ← List.append_assoc, hstream]
    · have hwriting : (if c.channel.isWriting = true then c.channel
          else c.channel.enableWriting).isWriting = true := by
        split
        · assumption
        · exact Channel.isWriting_enableWriting _
      refine iff_of_true hwriting ?_
      show (c.outputBuffer.append rest).contents ≠ []
      rw [ByteBuffer.contents_append]
      exact List.append_ne_nil_of_right_ne_nil _ (List.ne_nil_of_length_pos hrest)
  · rename_i hrest
    rw [List.eq_nil_of_length_eq_zero (Nat.eq_zero_of_not_pos hrest), List.append_nil]
    exact hc

theorem sendInLoop_intact (hc : c.Intact sent) (hw : w.Allowed data.length) :
    (c.sendInLoop data w).1.Intact (sent ++ data) := by
  unfold sendInLoop
  split
  · rename_i hstate
    exact fun h => absurd hstate h
  · rename_i hstate
    split
    · rename_i hdirect
      obtain ⟨hidle, hempty⟩ := hdirect
      have hnil := contents_eq_nil_iff.mpr hempty
      split
      · rename_i n hret
        -- what the kernel takes first is followed by nothing that is buffered
        have hc' : TcpConnection.Intact { c with written := c.written ++ data.take n }
            (sent ++ data.take n) := by
          intro hstate
          obtain ⟨hstream, hiff⟩ := hc hstate
          refine ⟨?_, hiff⟩
          show c.written ++ data.take n ++ c.outputBuffer.contents = _
          rw [hnil, List.append_nil] at hstream
          rw [hnil, List.append_nil, hstream]
        have := sendRemaining_intact hc' (data.drop n)
        rwa [List.append_assoc, List.take_append_drop] at this
      · rename_i hret
        rw [if_neg]
        · exact sendRemaining_intact hc data
        · rw [WriteResult.Allowed, hret] at hw
          simp [WriteResult.broken, hw.1, hw.2]
    · exact sendRemaining_intact hc data

theorem handleWrite_intact (hc : c.Intact sent) :
    (c.handleWrite w).1.Intact sent := by
  unfold handleWrite
  split
  · rename_i hwriting
    split
    · rename_i n hret
      -- what is accepted moves from the front of the buffer to the end of the stream
      have hmove : c.state ≠ .kDisconnected →
          c.written ++ c.outputBuffer.contents.take (n + 1) ++
            (c.outputBuffer.retrieve (n + 1)).contents = sent := by
        intro hstate
        rw [ByteBuffer.contents_retrieve, List.append_assoc, List.take_append_drop]
        exact (hc hstate).1
      dsimp only
      split
      · rename_i hempty
        refine fun hstate => ⟨hmove hstate, ?_⟩
        refine iff_of_false ?_ (not_not.mpr ?_)
        · rw [Channel.isWriting_disableWriting]
          nofun
        · exact contents_eq_nil_iff.mpr hempty
      · rename_i hmore
        exact fun hstate => ⟨hmove hstate, iff_of_true hwriting (mt contents_eq_nil_iff.mp hmore)⟩
    · split
      · exact handleClose_intact _ _
      · exact hc
  · exact hc

/-- A state that is not `kDisconnected` may be stored without harm. -/
theorem Intact.setState (hc : c.Intact sent) (hstate : c.state ≠ .kDisconnected) (st : StateE) :
    TcpConnection.Intact { c with state := st } sent :=
  fun _ => hc hstate

/-- The socket is shut down only when nothing waits to be written. -/
theorem shutdownInLoop_idle (h : Effect.shutdownWrite ∈ c.shutdownInLoop) :
    c.channel.isWriting = false := by
  unfold shutdownInLoop at h
  split at h
  · cases h
  · rename_i hidle
    exact Bool.not_eq_true _ ▸ hidle

theorem sendInLoop_no_shutdown (c : TcpConnection) (data : List UInt8) (w : WriteResult) :
    Effect.shutdownWrite ∉ (c.sendInLoop data w).2 := by
  intro h
  obtain ⟨f, hf⟩ := sendInLoop_effects h
  cases hf

theorem handleClose_no_shutdown (c : TcpConnection) :
    Effect.shutdownWrite ∉ c.handleClose.2 := by
  simp [handleClose]

theorem handleWrite_shutdown (h : Effect.shutdownWrite ∈ (c.handleWrite w).2) :
    (c.handleWrite w).1.channel.isWriting = false := by
  unfold handleWrite at h ⊢
  split at h
  · rename_i hwriting
    rw [if_pos hwriting]
    split at h
    · dsimp only at h ⊢
      split at h
      · rename_i hempty
        rw [if_pos hempty]
        exact Channel.isWriting_disableWriting _
      · cases h
    · split at h
      · exact absurd h (handleClose_no_shutdown c)
      · cases h
  · cases h

end TcpConnection

/-! ## Runs of methods on one connection -/

/-- A call of `shutdownWrite()`: the state of the connection then, what the kernel had
accepted and what had been given to `sendInLoop`. -/
structure Shutdown where
  state : StateE
  written : List UInt8
  sent : List UInt8

/-- A connection with what has been given to `sendInLoop`, and the shutdowns so far. -/
structure OutputStream where
  conn : TcpConnection
  sent : List UInt8
  shutdowns : List Shutdown

/-- The methods of a connection, with the answers of the kernel.  `postShutdown` and
`postForceClose` are `shutdown` and `forceClose` on another thread, up to the functor
they queue. -/
inductive ConnectionOp
  | connectEstablished
  | sendInLoop (data : List UInt8) (w : WriteResult)
  | handleWrite (w : WriteResult)
  | handleRead (received : SysResult (List UInt8))
  | handleClose
  | shutdown
  | postShutdown
  | shutdownInLoop
  | forceClose
  | postForceClose
  | forceCloseInLoop
  | connectDestroyed

namespace OutputStream

/-- The connection as constructed. -/
def initial (writeCompleteCallback highWaterMarkCallback : Bool) (highWaterMark : Nat) :
    OutputStream :=
  ⟨TcpConnection.initial writeCompleteCallback highWaterMarkCallback highWaterMark, [], []⟩

/-- A method has run, and `data` has been given to `sendInLoop`. -/
def after (s : OutputStream) (data : List UInt8) (r : TcpConnection × List Effect) :
    OutputStream where
  conn := r.1
  sent := s.sent ++ data
  shutdowns := s.shutdowns ++
    (r.2.filter (· = .shutdownWrite)).map (fun _ => ⟨r.1.state, r.1.written, s.sent ++ data⟩)

def step (s : OutputStream) : ConnectionOp → Option OutputStream
  | .connectEstablished =>
    if s.conn.state = .kConnecting then some (s.after [] s.conn.connectEstablished) else none
  | .sendInLoop data w =>
    if w.Allowed data.length then some (s.after data (s.conn.sendInLoop data w)) else none
  | .handleWrite w =>
    if w.Allowed s.conn.outputBuffer.readableBytes then some (s.after [] (s.conn.handleWrite w))
    else none
  | .handleRead received => some (s.after [] (s.conn.handleRead received))
  | .handleClose => some (s.after [] s.conn.handleClose)
  | .shutdown => some (s.after [] s.conn.shutdown)
  | .postShutdown =>
    if s.conn.state = .kConnected then
      some { s with conn := { s.conn with state := .kDisconnecting } }
    else none
  | .shutdownInLoop => some (s.after [] (s.conn, s.conn.shutdownInLoop))
  | .forceClose => some (s.after [] s.conn.forceClose)
  | .postForceClose =>
    if s.conn.state = .kConnected ∨ s.conn.state = .kDisconnecting then
      some { s with conn := { s.conn with state := .kDisconnecting } }
    else none
  | .forceCloseInLoop => some (s.after [] s.conn.forceCloseInLoop)
  | .connectDestroyed => some (s.after [] s.conn.connectDestroyed)

/-- The stream is intact now and was complete at every shutdown. -/
structure Intact (s : OutputStream) : Prop where
  stream : s.conn.Intact s.sent
  shutdowns : ∀ x ∈ s.shutdowns, x.state ≠ .kDisconnected → x.written = x.sent

variable {s s' : OutputStream}

/-- What is to be shown of a method: it keeps the stream intact, and it shuts the socket
down only when the channel does not wait for writability. -/
theorem Intact.after (hs : s.Intact) {data : List UInt8} {r : TcpConnection × List Effect}
    (hr : r.1.Intact (s.sent ++ data))
    (hfin : Effect.shutdownWrite ∈ r.2 → r.1.channel.isWriting = false) :
    (s.after data r).Intact where
  stream := hr
  shutdowns := by
    intro x hx hstate
    rcases List.mem_append.mp hx with hx | hx
    · exact hs.shutdowns x hx hstate
    · obtain ⟨e, he, rfl⟩ := List.mem_map.mp hx
      obtain ⟨hmem, heq⟩ := List.mem_filter.mp he
      obtain rfl := of_decide_eq_true heq
      obtain ⟨hstream, hiff⟩ := hr hstate
      have hidle := hfin hmem
      have hnil : r.1.outputBuffer.contents = [] := by
        by_contra hne
        rw [hiff.mpr hne] at hidle
        cases hidle
      rw [hnil, List.append_nil] at hstream
      exact hstream

theorem Intact.handleClose (hs : s.Intact) : (s.after [] s.conn.handleClose).Intact :=
  hs.after (TcpConnection.handleClose_intact _ _)
    (fun hmem => absurd hmem (TcpConnection.handleClose_no_shutdown _))

theorem Intact.forceCloseInLoop (hs : s.Intact) :
    (s.after [] s.conn.forceCloseInLoop).Intact := by
  unfold TcpConnection.forceCloseInLoop
  split
  · exact hs.handleClose
  · exact hs.after (by rw [List.append_nil]; exact hs.stream) (by simp)

theorem step_intact {op : ConnectionOp} (hs : s.Intact) (h : s.step op = some s') :
    s'.Intact := by
  have hsame : s.conn.Intact (s.sent ++ []) := by
    rw [List.append_nil]
    exact hs.stream
  cases op with
  | connectEstablished =>
    simp only [step] at h
    split at h
    · rename_i hstate
      cases h
      refine hs.after ?_ (by simp [TcpConnection.connectEstablished])
      intro _
      refine (hsame (by rw [hstate]; nofun)).imp_right (fun hiff => ?_)
      show s.conn.channel.enableReading.isWriting = true ↔ _
      rw [Channel.isWriting_enableReading]
      exact hiff
    · cases h
  | sendInLoop data w =>
    simp only [step] at h
    split at h
    · rename_i hw
      cases h
      exact hs.after (TcpConnection.sendInLoop_intact hs.stream hw)
        (fun hmem => absurd hmem (TcpConnection.sendInLoop_no_shutdown _ _ _))
    · cases h
  | handleWrite w =>
    simp only [step] at h
    split at h
    · cases h
      exact hs.after (TcpConnection.handleWrite_intact hsame)
        TcpConnection.handleWrite_shutdown
    · cases h
  | handleRead received =>
    cases h
    match received with
    | .ok [] => exact hs.handleClose
    | .ok (byte :: bytes) => exact hs.after hsame (by simp [TcpConnection.handleRead])
    | .error e => exact hs.after hsame (by simp [TcpConnection.handleRead])
  | handleClose =>
    cases h
    exact hs.handleClose
  | shutdown =>
    cases h
    simp only [TcpConnection.shutdown]
    split
    · rename_i hstate
      refine hs.after (hsame.setState (by rw [hstate]; nofun) _) ?_
      exact TcpConnection.shutdownInLoop_idle
    · exact hs.after hsame (by simp)
  | postShutdown =>
    simp only [step] at h
    split at h
    · rename_i hstate
      cases h
      exact ⟨hs.stream.setState (by rw [hstate]; nofun) _, hs.shutdowns⟩
    · cases h
  | shutdownInLoop =>
    cases h
    exact hs.after hsame TcpConnection.shutdownInLoop_idle
  | forceClose =>
    cases h
    rw [TcpConnection.forceClose_eq]
    exact hs.forceCloseInLoop
  | postForceClose =>
    simp only [step] at h
    split at h
    · rename_i hstate
      cases h
      exact ⟨hs.stream.setState (by rcases hstate with h | h <;> rw [h] <;> nofun) _,
        hs.shutdowns⟩
    · cases h
  | forceCloseInLoop =>
    cases h
    exact hs.forceCloseInLoop
  | connectDestroyed =>
    cases h
    simp only [TcpConnection.connectDestroyed]
    split
    · exact hs.after (fun h => absurd rfl h) (by simp)
    · exact hs.after hsame (by simp)

/-- **The output stream of a connection is intact.**  In every state of every run that is
not `kDisconnected`, what the kernel has accepted followed by what is buffered is what
has been given to `sendInLoop`, and the channel waits for writability exactly when
something is buffered; and whenever `shutdownWrite()` is issued in such a state, all of
it has been accepted. -/
theorem output_stream_intact {writeComplete highWater : Bool} {mark : Nat}
    {ops : List ConnectionOp}
    (h : Machine.run step (initial writeComplete highWater mark) ops = some s) :
    (s.conn.state ≠ .kDisconnected →
      s.conn.written ++ s.conn.outputBuffer.contents = s.sent ∧
        (s.conn.channel.isWriting = true ↔ s.conn.outputBuffer.contents ≠ [])) ∧
      ∀ x ∈ s.shutdowns, x.state ≠ .kDisconnected → x.written = x.sent := by
  have hs : s.Intact := Machine.run_invariant (fun _ _ _ hs hstep => step_intact hs hstep) h
    ⟨TcpConnection.initial_intact _ _ _, by simp [initial]⟩
  exact ⟨hs.stream, hs.shutdowns⟩

/-- Partial writes on both paths, with a shutdown that waits for the last of them. -/
def partialWrites : List ConnectionOp :=
  [.connectEstablished, .sendInLoop [1, 2, 3] ⟨some 1, 0⟩, .sendInLoop [4] ⟨none, EWOULDBLOCK⟩,
    .postShutdown, .shutdownInLoop, .handleWrite ⟨some 2, 0⟩, .handleWrite ⟨some 1, 0⟩]

theorem output_stream_intact_partialWrites :
    ∃ s, Machine.run step (initial true true 64) partialWrites = some s ∧
      s.conn.state = .kDisconnecting ∧ s.shutdowns.length = 1 ∧
      s.conn.written ++ s.conn.outputBuffer.contents = [1, 2, 3, 4] ∧
      ∀ x ∈ s.shutdowns, x.state ≠ .kDisconnected → x.written = x.sent := by
  have hrun : (Machine.run step (initial true true 64) partialWrites).map
      (fun s => (s.conn.state, s.shutdowns.length, s.sent)) =
        some (.kDisconnecting, 1, [1, 2, 3, 4]) := by decide +kernel
  obtain ⟨s, hs, heq⟩ := Option.map_eq_some_iff.mp hrun
  simp only [Prod.mk.injEq] at heq
  obtain ⟨hstate, hlength, hsent⟩ := heq
  have h := output_stream_intact hs
  refine ⟨s, hs, hstate, hlength, ?_, h.2⟩
  rw [← hsent]
  exact (h.1 (by rw [hstate]; nofun)).1

end OutputStream
end ReMuduo
