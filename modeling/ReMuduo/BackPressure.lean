import ReMuduo.OutputStream

/-! # Back-pressure notifications

A connection tells its user about its backlog, the bytes in the output buffer, by two
callbacks that it queues in its loop: one when a send takes the backlog to the
high-water mark, one when all that was sent has been accepted by the kernel.  `Notice`
says of one call on the connection which of them it queues.  The runs are those of the
output stream, with any calls on the connection between the sends and the writes, and
their history keeps the connection before and after each call. -/
namespace ReMuduo

/-- The functor an effect queues for user code. -/
def Effect.userFunctor : Effect → Option UserFunctor
  | .queueInLoop f => some f
  | _ => none

/-- The functors queued for user code by a call. -/
def queued (effects : List Effect) : List UserFunctor := effects.filterMap Effect.userFunctor

@[simp] theorem queued_nil : queued [] = [] := rfl

@[simp] theorem queued_cons_queueInLoop (f : UserFunctor) (effects : List Effect) :
    queued (.queueInLoop f :: effects) = f :: queued effects := rfl

@[simp] theorem queued_append (l l' : List Effect) : queued (l ++ l') = queued l ++ queued l' :=
  List.filterMap_append

namespace TcpConnection

variable {c : TcpConnection} {data : List UInt8} {w : WriteResult} {r : TcpConnection × List Effect}

/-- The bytes that wait to be written. -/
abbrev backlog (c : TcpConnection) : Nat := c.outputBuffer.readableBytes

/-- Both callbacks are set, and the high-water mark is `mark`. -/
structure Notifying (mark : Nat) (c : TcpConnection) : Prop where
  writeComplete : c.writeCompleteCallback = true
  highWater : c.highWaterMarkCallback = true
  mark_eq : c.highWaterMark = mark

/-- What a call leaves of a connection that notifies its user, and what it queues.
`payload` is what the call was given to send, if it was a `sendInLoop`. -/
structure Notice (mark : Nat) (c : TcpConnection) (payload : Option (List UInt8))
    (r : TcpConnection × List Effect) : Prop where
  notifying : Notifying mark r.1
  /-- A call queues one functor at most. -/
  once : (queued r.2).length ≤ 1
  /-- The high-water callback is for the sends that cross the mark. -/
  highWater : ∀ size, .highWaterMark size ∈ queued r.2 ↔
    payload.isSome = true ∧ c.backlog < mark ∧ mark ≤ r.1.backlog ∧ size = r.1.backlog
  /-- Only a send adds to the backlog. -/
  shrinks : payload = none → r.1.backlog ≤ c.backlog
  /-- The write-complete callback is for an empty backlog, … -/
  complete : .writeComplete ∈ queued r.2 → r.1.backlog = 0
  /-- … which has been emptied or was given something to send, … -/
  fresh : .writeComplete ∈ queued r.2 → payload = none → c.backlog ≠ 0
  /-- … and whenever that has happened, it is queued. -/
  drained : r.1.backlog = 0 →
    .writeComplete ∈ queued r.2 ∨ c.backlog = 0 ∧ payload.getD [] = []

/-- A call that is no send, leaves the output alone and queues nothing. -/
theorem Notice.silent {mark : Nat} (hr : Notifying mark r.1)
    (hbuffer : r.1.outputBuffer = c.outputBuffer) (hqueued : queued r.2 = []) :
    Notice mark c none r where
  notifying := hr
  once := by simp [hqueued]
  highWater := by simp [hqueued]
  shrinks := fun _ => Nat.le_of_eq (congrArg ByteBuffer.readableBytes hbuffer)
  complete := by simp [hqueued]
  fresh := by simp [hqueued]
  drained := fun h => .inr ⟨by rwa [backlog, hbuffer] at h, rfl⟩

/-! ## The two calls that move bytes -/

theorem sendRemaining_backlog (c : TcpConnection) (rest : List UInt8) :
    (c.sendRemaining rest).1.backlog = c.backlog + rest.length := by
  unfold sendRemaining
  split
  · show (c.outputBuffer.append rest).readableBytes = c.outputBuffer.readableBytes + _
    rw [← ByteBuffer.length_contents, ← ByteBuffer.length_contents, ByteBuffer.contents_append,
      List.length_append]
  · rename_i hrest
    rw [Nat.eq_zero_of_not_pos hrest]
    rfl

theorem sendRemaining_notifying {mark : Nat} (hc : Notifying mark c) (rest : List UInt8) :
    Notifying mark (c.sendRemaining rest).1 := by
  unfold sendRemaining
  split
  · exact ⟨hc.writeComplete, hc.highWater, hc.mark_eq⟩
  · exact hc

/-- What is buffered is announced if it crosses the mark.  Nothing to buffer crosses
nothing. -/
theorem sendRemaining_queued {mark : Nat} (hc : Notifying mark c) (rest : List UInt8) :
    queued (c.sendRemaining rest).2 =
      if c.backlog < mark ∧ mark ≤ c.backlog + rest.length then
        [.highWaterMark (c.backlog + rest.length)]
      else [] := by
  unfold sendRemaining
  split
  · dsimp only
    rw [hc.mark_eq, hc.highWater]
    by_cases hcross : c.backlog < mark ∧ mark ≤ c.backlog + rest.length
    · rw [if_pos hcross, if_pos ⟨hcross.2, hcross.1, rfl⟩]
      rfl
    · rw [if_neg hcross, if_neg fun h => hcross ⟨h.2.1, h.1⟩]
      rfl
  · rename_i hrest
    rw [if_neg, queued_nil]
    omega

theorem sendRemaining_notice {mark : Nat} (hc : Notifying mark c) (data : List UInt8) :
    Notice mark c (some data) (c.sendRemaining data) where
  notifying := sendRemaining_notifying hc data
  once := by
    rw [sendRemaining_queued hc]
    split <;> simp
  highWater := by
    intro size
    rw [sendRemaining_queued hc, sendRemaining_backlog]
    split
    · rename_i hcross
      simp [hcross.1, hcross.2]
    · rename_i hcross
      simp only [List.not_mem_nil, false_iff]
      exact fun h => hcross ⟨h.2.1, h.2.2.1⟩
  shrinks := by simp
  complete := by
    rw [sendRemaining_queued hc]
    split <;> simp
  fresh := by simp
  drained := by
    rw [sendRemaining_backlog]
    intro hzero
    obtain ⟨hbacklog, hlength⟩ := Nat.add_eq_zero_iff.mp hzero
    exact .inr ⟨hbacklog, List.eq_nil_of_length_eq_zero hlength⟩

/-- The kernel takes the first `n` bytes, and the rest, if any, is buffered. -/
theorem direct_notice {mark n : Nat} (hc : Notifying mark c) (hempty : c.backlog = 0)
    (hr : r = sendRemaining { c with written := c.written ++ data.take n } (data.drop n)) :
    Notice mark c (some data) (r.1, (if data.length - n = 0 ∧ c.writeCompleteCallback = true then
      [.queueInLoop .writeComplete] else []) ++ r.2) := by
  have hc' : Notifying mark { c with written := c.written ++ data.take n } :=
    ⟨hc.writeComplete, hc.highWater, hc.mark_eq⟩
  have hbacklog : r.1.backlog = data.length - n := by
    rw [hr, sendRemaining_backlog, List.length_drop]
    show c.backlog + _ = _
    rw [hempty, Nat.zero_add]
  have hqueued : queued r.2 =
      if 0 < mark ∧ mark ≤ r.1.backlog then [.highWaterMark r.1.backlog] else [] := by
    rw [hbacklog, hr, sendRemaining_queued hc', List.length_drop]
    show (if c.backlog < mark ∧ _ ≤ c.backlog + _ then [UserFunctor.highWaterMark (c.backlog + _)]
      else []) = _
    rw [hempty, Nat.zero_add]
  -- all accepted, so nothing crosses the mark; or something left, so nothing is complete
  have hall : queued ((if data.length - n = 0 ∧ c.writeCompleteCallback = true then
      [Effect.queueInLoop .writeComplete] else []) ++ r.2) =
        if r.1.backlog = 0 then [.writeComplete]
        else if 0 < mark ∧ mark ≤ r.1.backlog then [.highWaterMark r.1.backlog] else [] := by
    rw [queued_append, hqueued, ← hbacklog]
    by_cases hzero : r.1.backlog = 0
    · have hcross : ¬ (0 < mark ∧ mark ≤ 0) := by omega
      simp only [hzero, hc.writeComplete, hcross, and_self, reduceIte, queued_cons_queueInLoop,
        queued_nil, List.append_nil]
    · simp [hzero]
  refine ⟨hr ▸ sendRemaining_notifying hc' _, ?_, ?_, by simp, ?_, by simp, ?_⟩
  all_goals rw [hall]
  · split
    · simp
    · split <;> simp
  · intro size
    rw [hempty]
    by_cases hzero : r.1.backlog = 0
    · simp only [hzero, reduceIte, List.mem_singleton, reduceCtorEq, false_iff]
      omega
    · by_cases hcross : 0 < mark ∧ mark ≤ r.1.backlog
      · simp [hzero, hcross]
      · simp only [hzero, hcross, reduceIte, List.not_mem_nil, false_iff]
        exact fun h => hcross ⟨h.2.1, h.2.2.1⟩
  · split
    · exact fun _ => ‹_›
    · split <;> simp
  · exact fun hzero => .inl (by simp [hzero])

theorem sendInLoop_notice {mark : Nat} (hc : Notifying mark c) (hstate : c.state ≠ .kDisconnected)
    (hw : w.Allowed data.length) : Notice mark c (some data) (c.sendInLoop data w) := by
  unfold sendInLoop
  rw [if_neg hstate]
  split
  · rename_i hdirect
    split
    · exact direct_notice hc hdirect.2 rfl
    · rename_i hret
      rw [WriteResult.Allowed, hret] at hw
      rw [if_neg (by simp [WriteResult.broken, hw.1, hw.2])]
      exact sendRemaining_notice hc data
  · exact sendRemaining_notice hc data

theorem handleClose_notice {mark : Nat} (hc : Notifying mark c) :
    Notice mark c none c.handleClose :=
  .silent ⟨hc.writeComplete, hc.highWater, hc.mark_eq⟩ rfl rfl

theorem queued_shutdownInLoop (c : TcpConnection) : queued c.shutdownInLoop = [] := by
  unfold shutdownInLoop
  split <;> rfl

/-- `handleWrite` drains a part of the backlog, and announces the end of it.  That it does
nothing without a backlog is what the channel's interest in writability is for. -/
theorem handleWrite_notice {mark : Nat} (hc : Notifying mark c)
    (hwriting : c.channel.isWriting = true → c.backlog ≠ 0) :
    Notice mark c none (c.handleWrite w) := by
  have hsame : Notice mark c none (c, []) := .silent hc rfl rfl
  unfold handleWrite
  split
  · rename_i hinterest
    have hne := hwriting hinterest
    split
    · rename_i n hret
      have hshrinks : (c.outputBuffer.retrieve (n + 1)).readableBytes ≤
          c.outputBuffer.readableBytes := by
        rw [← ByteBuffer.length_contents, ← ByteBuffer.length_contents,
          ByteBuffer.contents_retrieve, List.length_drop]
        exact Nat.sub_le ..
      dsimp only
      split
      · rename_i hempty
        have hqueued : queued ((if c.writeCompleteCallback = true then
            [Effect.queueInLoop .writeComplete] else []) ++
              if c.state = .kDisconnecting then
                shutdownInLoop { c with
                  written := c.written ++ c.outputBuffer.contents.take (n + 1)
                  outputBuffer := c.outputBuffer.retrieve (n + 1)
                  channel := c.channel.disableWriting }
              else []) = [.writeComplete] := by
          rw [queued_append, if_pos hc.writeComplete]
          split
          · rw [queued_shutdownInLoop]
            rfl
          · rfl
        refine ⟨⟨hc.writeComplete, hc.highWater, hc.mark_eq⟩, ?_, ?_, fun _ => hshrinks, ?_, ?_, ?_⟩
        all_goals simp only [hqueued]
        · simp
        · simp
        · exact fun _ => hempty
        · exact fun _ _ => hne
        · simp
      · rename_i hmore
        exact ⟨⟨hc.writeComplete, hc.highWater, hc.mark_eq⟩, by simp, by simp, fun _ => hshrinks,
          by simp, by simp, fun hzero => absurd hzero hmore⟩
    · split
      · exact handleClose_notice hc
      · exact hsame
  · exact hsame

end TcpConnection

/-! ## Runs -/

/-- What a call is given to send. -/
def ConnectionOp.payload : ConnectionOp → Option (List UInt8)
  | .sendInLoop data _ => some data
  | _ => none

/-- A call of a run: the connection before it, the call, what it asked of its surroundings,
and the stream after it. -/
structure CallRecord where
  before : TcpConnection
  op : ConnectionOp
  effects : List Effect
  after : OutputStream

/-- A stream with the calls so far. -/
structure NotifiedStream where
  stream : OutputStream
  history : List CallRecord

namespace OutputStream

/-- The call of a step, with its effects. -/
def call (s : OutputStream) : ConnectionOp → TcpConnection × List Effect
  | .connectEstablished => s.conn.connectEstablished
  | .sendInLoop data w => s.conn.sendInLoop data w
  | .handleWrite w => s.conn.handleWrite w
  | .handleRead received => s.conn.handleRead received
  | .handleClose => s.conn.handleClose
  | .shutdown => s.conn.shutdown
  | .postShutdown => ({ s.conn with state := .kDisconnecting }, [])
  | .shutdownInLoop => (s.conn, s.conn.shutdownInLoop)
  | .forceClose => s.conn.forceClose
  | .postForceClose => ({ s.conn with state := .kDisconnecting }, [])
  | .forceCloseInLoop => s.conn.forceCloseInLoop
  | .connectDestroyed => s.conn.connectDestroyed

variable {s s' : OutputStream} {op : ConnectionOp}

/-- A step of the output stream is its call. -/
theorem step_call (h : s.step op = some s') : s'.conn = (s.call op).1 := by
  cases op with
  | handleRead | handleClose | shutdown | shutdownInLoop | forceClose | forceCloseInLoop |
    connectDestroyed =>
    cases h
    rfl
  | connectEstablished | sendInLoop | handleWrite | postShutdown | postForceClose =>
    obtain ⟨-, ⟨⟩⟩ := Option.ite_none_right_eq_some.mp h
    rfl

/-- `kDisconnected` is final. -/
theorem step_disconnected (h : s.step op = some s') (hstate : s.conn.state = .kDisconnected) :
    s'.conn.state = .kDisconnected := by
  rw [step_call h]
  cases op with
  | connectEstablished =>
    obtain ⟨hconnecting, -⟩ := Option.ite_none_right_eq_some.mp h
    rw [hstate] at hconnecting
    cases hconnecting
  | postShutdown =>
    obtain ⟨hconnected, -⟩ := Option.ite_none_right_eq_some.mp h
    rw [hstate] at hconnected
    cases hconnected
  | postForceClose =>
    obtain ⟨hopen, -⟩ := Option.ite_none_right_eq_some.mp h
    rw [hstate] at hopen
    rcases hopen with hopen | hopen <;> cases hopen
  | sendInLoop data w => exact (TcpConnection.state_sendInLoop _ _ _).trans hstate
  | handleWrite w =>
    simp only [call, TcpConnection.handleWrite]
    split
    · split
      · split <;> exact hstate
      · split
        · rfl
        · exact hstate
    · exact hstate
  | handleRead received =>
    match received with
    | .ok [] => rfl
    | .ok (byte :: bytes) => exact hstate
    | .error e => exact hstate
  | handleClose => rfl
  | shutdown | forceClose | forceCloseInLoop | connectDestroyed =>
    simp [call, TcpConnection.shutdown, TcpConnection.forceClose, TcpConnection.forceCloseInLoop,
      TcpConnection.connectDestroyed, hstate]
  | shutdownInLoop => exact hstate

/-- Every call on a connection that has not reached `kDisconnected` gives notice of what it
does to the backlog. -/
theorem step_notice {mark : Nat} (hs : s.Intact) (hc : s.conn.Notifying mark)
    (hstate : s.conn.state ≠ .kDisconnected) (h : s.step op = some s') :
    TcpConnection.Notice mark s.conn op.payload (s.call op) := by
  have hkeep : ∀ (st : StateE) (ch : Channel),
      TcpConnection.Notifying mark { s.conn with state := st, channel := ch } :=
    fun _ _ => ⟨hc.writeComplete, hc.highWater, hc.mark_eq⟩
  have hclose := TcpConnection.handleClose_notice hc
  have hsame : TcpConnection.Notice mark s.conn none (s.conn, []) := .silent hc rfl rfl
  cases op with
  | connectEstablished => exact .silent (hkeep _ _) rfl rfl
  | sendInLoop data w =>
    obtain ⟨hw, -⟩ := Option.ite_none_right_eq_some.mp h
    exact TcpConnection.sendInLoop_notice hc hstate hw
  | handleWrite w =>
    refine TcpConnection.handleWrite_notice hc (fun hwriting => ?_)
    exact mt TcpConnection.contents_eq_nil_iff.mpr ((hs.stream hstate).2.mp hwriting)
  | handleRead received =>
    match received with
    | .ok [] => exact hclose
    | .ok (byte :: bytes) =>
      exact .silent ⟨hc.writeComplete, hc.highWater, hc.mark_eq⟩ rfl rfl
    | .error e => exact hsame
  | handleClose => exact hclose
  | shutdown =>
    simp only [call, TcpConnection.shutdown]
    split
    · exact .silent (hkeep _ s.conn.channel) rfl (TcpConnection.queued_shutdownInLoop _)
    · exact hsame
  | postShutdown | postForceClose => exact .silent (hkeep _ s.conn.channel) rfl rfl
  | shutdownInLoop => exact .silent hc rfl (TcpConnection.queued_shutdownInLoop _)
  | forceClose =>
    simp only [call, TcpConnection.forceClose_eq, TcpConnection.forceCloseInLoop]
    split
    · exact hclose
    · exact hsame
  | forceCloseInLoop =>
    simp only [call, TcpConnection.forceCloseInLoop]
    split
    · exact hclose
    · exact hsame
  | connectDestroyed =>
    simp only [call, TcpConnection.connectDestroyed]
    split
    · exact .silent (hkeep _ _) rfl rfl
    · exact .silent hc rfl rfl

end OutputStream

namespace NotifiedStream

variable {s s' : NotifiedStream} {op : ConnectionOp} {mark : Nat}

/-- A connection as constructed, with both callbacks set. -/
def initial (mark : Nat) : NotifiedStream := ⟨OutputStream.initial true true mark, []⟩

def step (s : NotifiedStream) (op : ConnectionOp) : Option NotifiedStream :=
  (s.stream.step op).map fun stream =>
    { stream := stream
      history := s.history ++ [⟨s.stream.conn, op, (s.stream.call op).2, stream⟩] }

/-- What holds of the calls so far, as long as the connection is not down. -/
structure Valid (mark : Nat) (s : NotifiedStream) : Prop where
  intact : s.stream.Intact
  notifying : s.stream.conn.Notifying mark
  /-- Each call gave notice, and all that was sent had been accepted when it said so. -/
  notice : ∀ x ∈ s.history,
    TcpConnection.Notice mark x.before x.op.payload (x.after.conn, x.effects)
  accepted : ∀ x ∈ s.history, .writeComplete ∈ queued x.effects →
    x.after.conn.written = x.after.sent
  /-- With no backlog left, every send has been answered by a write-complete. -/
  answered : s.stream.conn.backlog = 0 → ∀ l x l', s.history = l ++ x :: l' →
    x.op.payload.getD [] ≠ [] → ∃ y ∈ x :: l', .writeComplete ∈ queued y.effects
  /-- Since a write-complete there was a send, or there is no backlog. -/
  quiet : ∀ l x l', s.history = l ++ x :: l' → .writeComplete ∈ queued x.effects →
    (∃ y ∈ l', y.op.payload.isSome = true) ∨ s.stream.conn.backlog = 0
  /-- Between two write-completes there was a send. -/
  alternating : ∀ l x l' y l'', s.history = l ++ x :: l' ++ y :: l'' →
    .writeComplete ∈ queued x.effects → .writeComplete ∈ queued y.effects →
    ∃ z ∈ l' ++ [y], z.op.payload.isSome = true

theorem initial_valid (mark : Nat) : (initial mark).Valid mark where
  intact := ⟨TcpConnection.initial_intact _ _ _, by simp [initial, OutputStream.initial]⟩
  notifying := ⟨rfl, rfl, rfl⟩
  notice := fun _ hx => absurd hx List.not_mem_nil
  accepted := fun _ hx => absurd hx List.not_mem_nil
  answered := by simp [initial]
  quiet := by simp [initial]
  alternating := by simp [initial]

theorem step_valid (hs : s.Valid mark) (hstate : s'.stream.conn.state ≠ .kDisconnected)
    (h : s.step op = some s') : s'.Valid mark := by
  obtain ⟨stream, hstep, rfl⟩ := Option.map_eq_some_iff.mp h
  have hbefore : s.stream.conn.state ≠ .kDisconnected :=
    mt (OutputStream.step_disconnected hstep) hstate
  have hintact := OutputStream.step_intact hs.intact hstep
  have hnotice := OutputStream.step_notice hs.intact hs.notifying hbefore hstep
  have hcall : s.stream.call op = (stream.conn, (s.stream.call op).2) := by
    rw [OutputStream.step_call hstep]
  rw [hcall] at hnotice
  refine ⟨hintact, hnotice.notifying, ?_, ?_, ?_, ?_, ?_⟩
  · intro x hx
    rcases List.mem_append.mp hx with hx | hx
    · exact hs.notice x hx
    · rw [List.mem_singleton.mp hx]
      exact hnotice
  · intro x hx hcomplete
    rcases List.mem_append.mp hx with hx | hx
    · exact hs.accepted x hx hcomplete
    · obtain rfl := List.mem_singleton.mp hx
      have hempty := TcpConnection.contents_eq_nil_iff.mpr (hnotice.complete hcomplete)
      have hstream := (hintact.stream hstate).1
      rwa [hempty, List.append_nil] at hstream
  · intro hzero l x l' hsplit hpayload
    rcases Machine.concat_eq_append_cons.mp hsplit with ⟨rfl, rfl, rfl⟩ | ⟨l₁, rfl, hold⟩
    · rcases hnotice.drained hzero with hqueued | ⟨-, hnil⟩
      · exact ⟨_, List.mem_cons_self, hqueued⟩
      · exact absurd hnil hpayload
    · rcases hnotice.drained hzero with hqueued | ⟨hzero, -⟩
      · exact ⟨_, List.mem_append_right (x :: l₁) (List.mem_singleton.mpr rfl), hqueued⟩
      · obtain ⟨y, hy, hqueued⟩ := hs.answered hzero l x l₁ hold hpayload
        exact ⟨y, List.mem_append_left [_] hy, hqueued⟩
  · intro l x l' hsplit hqueued
    rcases Machine.concat_eq_append_cons.mp hsplit with ⟨rfl, rfl, rfl⟩ | ⟨l₁, rfl, hold⟩
    · exact .inr (hnotice.complete hqueued)
    · rcases hs.quiet l x l₁ hold hqueued with ⟨y, hy, hsend⟩ | hzero
      · exact .inl ⟨y, List.mem_append_left _ hy, hsend⟩
      · by_cases hsend : op.payload = none
        · exact .inr (Nat.le_zero.mp (hzero ▸ hnotice.shrinks hsend))
        · exact .inl ⟨_, List.mem_append_right _ (List.mem_singleton.mpr rfl),
            Option.isSome_iff_ne_none.mpr hsend⟩
  · intro l x l' y l'' hsplit hx hy
    rcases Machine.concat_eq_append_cons.mp hsplit with ⟨rfl, hold, rfl⟩ | ⟨l₁, rfl, hold⟩
    · rcases hs.quiet l x l' hold hx with ⟨z, hz, hsend⟩ | hzero
      · exact ⟨z, List.mem_append_left _ hz, hsend⟩
      · refine ⟨_, List.mem_append_right _ (List.mem_singleton.mpr rfl), ?_⟩
        by_contra hnone
        exact hnotice.fresh hy (by simpa using hnone) hzero
    · exact hs.alternating l x l' y l₁ hold hx hy

theorem run_valid {ops : List ConnectionOp} (hrun : Machine.run step (initial mark) ops = some s)
    (hstate : s.stream.conn.state ≠ .kDisconnected) : s.Valid mark := by
  refine Machine.run_invariant
    (P := fun s => s.stream.conn.state ≠ .kDisconnected → s.Valid mark) ?_ hrun
    (fun _ => initial_valid mark) hstate
  intro s op s' hs h hstate
  obtain ⟨stream, hstep, rfl⟩ := Option.map_eq_some_iff.mp h
  exact step_valid (hs (mt (OutputStream.step_disconnected hstep) hstate)) hstate h

/-- **Back-pressure notifications.**  In every run on a connection that has not reached
`kDisconnected`: a call queues one notification at most; the high-water callback is queued
by exactly those sends that take the backlog from below the mark to it or past it, with the
new backlog, so that between two of them the backlog was below the mark; the write-complete
callback is queued only with an empty backlog and all that was sent accepted by the kernel;
whenever the backlog is empty it has been queued since the last send of something; and
between two of them there was a send. -/
theorem back_pressure_notices {ops : List ConnectionOp}
    (hrun : Machine.run step (initial mark) ops = some s)
    (hstate : s.stream.conn.state ≠ .kDisconnected) :
    (∀ x ∈ s.history, (queued x.effects).length ≤ 1 ∧
      (∀ size, .highWaterMark size ∈ queued x.effects ↔
        x.op.payload.isSome = true ∧ x.before.backlog < mark ∧
          mark ≤ x.after.conn.backlog ∧ size = x.after.conn.backlog) ∧
      (.writeComplete ∈ queued x.effects →
        x.after.conn.backlog = 0 ∧ x.after.conn.written = x.after.sent)) ∧
    (∀ l x l' y l'', s.history = l ++ x :: l' ++ y :: l'' →
      (∃ size, .highWaterMark size ∈ queued x.effects) →
      (∃ size, .highWaterMark size ∈ queued y.effects) →
      ∃ z ∈ l' ++ [y], z.before.backlog < mark) ∧
    (s.stream.conn.backlog = 0 → ∀ l x l', s.history = l ++ x :: l' →
      x.op.payload.getD [] ≠ [] → ∃ y ∈ x :: l', .writeComplete ∈ queued y.effects) ∧
    ∀ l x l' y l'', s.history = l ++ x :: l' ++ y :: l'' →
      .writeComplete ∈ queued x.effects → .writeComplete ∈ queued y.effects →
      ∃ z ∈ l' ++ [y], z.op.payload.isSome = true := by
  have hs := run_valid hrun hstate
  refine ⟨fun x hx => ?_, ?_, hs.answered, hs.alternating⟩
  · have hnotice := hs.notice x hx
    exact ⟨hnotice.once, hnotice.highWater,
      fun hqueued => ⟨hnotice.complete hqueued, hs.accepted x hx hqueued⟩⟩
  · rintro l x l' y l'' hsplit - ⟨size, hy⟩
    have hmem : y ∈ s.history := by simp [hsplit]
    exact ⟨y, List.mem_append_right _ (List.mem_singleton.mpr rfl),
      (((hs.notice y hmem).highWater size).mp hy).2.1⟩

/-- A send that crosses a mark of two bytes, one above it, the write that drains both, and a
send the kernel takes at once. -/
def crossAndDrain : List ConnectionOp :=
  [.connectEstablished, .sendInLoop [1, 2, 3] ⟨some 1, 0⟩, .sendInLoop [4] ⟨none, EWOULDBLOCK⟩,
    .handleWrite ⟨some 3, 0⟩, .sendInLoop [5] ⟨some 1, 0⟩]

theorem back_pressure_notices_crossAndDrain :
    ∃ s, Machine.run step (initial 2) crossAndDrain = some s ∧
      s.history.map (fun x => queued x.effects) =
        [[], [.highWaterMark 2], [], [.writeComplete], [.writeComplete]] ∧
      (∀ x ∈ s.history, .writeComplete ∈ queued x.effects →
        x.after.conn.backlog = 0 ∧ x.after.conn.written = x.after.sent) ∧
      ∀ l x l', s.history = l ++ x :: l' → x.op.payload.getD [] ≠ [] →
        ∃ y ∈ x :: l', .writeComplete ∈ queued y.effects := by
  have hrun : (Machine.run step (initial 2) crossAndDrain).map (fun s =>
      (s.stream.conn.state, s.stream.conn.backlog, s.history.map (fun x => queued x.effects))) =
        some (.kConnected, 0,
          [[], [.highWaterMark 2], [], [.writeComplete], [.writeComplete]]) := by decide +kernel
  obtain ⟨s, hs, hview⟩ := Option.map_eq_some_iff.mp hrun
  simp only [Prod.mk.injEq] at hview
  obtain ⟨hstate, hbacklog, hqueued⟩ := hview
  have h := back_pressure_notices hs (by simp [hstate])
  exact ⟨s, hs, hqueued, fun x hx => (h.1 x hx).2.2, h.2.2.1 hbacklog⟩

end NotifiedStream
end ReMuduo
