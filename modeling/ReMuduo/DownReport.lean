import ReMuduo.TcpConnection

/-! # Reporting a connection down

The connection callback is called once when a connection is established, and the user
counts on a second call when it is down.  Two functions make that call: `handleClose`,
and `connectDestroyed` if it finds the connection in `kConnected`.  The runs are all
sequences of calls on the loop thread between `connectEstablished` and
`connectDestroyed`, with any answers of the kernel; a report is what `connected()`
answers during a call of the callback. -/
namespace ReMuduo

/-- The calls on the loop thread during the life of a connection. -/
inductive LoopCall
  | send (data : List UInt8) (w : WriteResult)
  /-- The functor of a `send` on another thread. -/
  | sendInLoop (data : List UInt8) (w : WriteResult)
  | shutdown
  | forceClose
  | handleRead (received : SysResult (List UInt8))
  | handleWrite (w : WriteResult)
  | handleClose

namespace TcpConnection

def call (c : TcpConnection) : LoopCall → TcpConnection × List Effect
  | .send data w => c.send data w
  | .sendInLoop data w => c.sendInLoop data w
  | .shutdown => c.shutdown
  | .forceClose => c.forceClose
  | .handleRead received => c.handleRead received
  | .handleWrite w => c.handleWrite w
  | .handleClose => c.handleClose

/-- What a call does to the state of a connection, and what it tells its user. -/
inductive Change (c : TcpConnection) (r : TcpConnection × List Effect) : Prop
  /-- The state stays, or `shutdown` has left `kConnected`. -/
  | goesOn (hstate : r.1.state = c.state ∨
        c.state = .kConnected ∧ r.1.state = .kDisconnecting)
      (hdown : c.state = .kDisconnected → r.1.channel = c.channel)
      (hcallback : .connectionCallback ∉ r.2) (hclose : .closeCallback ∉ r.2)
  /-- `handleClose` has run. -/
  | closes (hr : r = c.handleClose)

variable {c : TcpConnection} {data : List UInt8} {w : WriteResult}

/-- A call that does nothing. -/
theorem Change.refl (c : TcpConnection) : c.Change (c, []) :=
  .goesOn (.inl rfl) (fun _ => rfl) List.not_mem_nil List.not_mem_nil

theorem sendInLoop_change (c : TcpConnection) (data : List UInt8) (w : WriteResult) :
    c.Change (c.sendInLoop data w) := by
  refine .goesOn (.inl (state_sendInLoop c data w)) (fun hdown => ?_) (fun hmem => ?_)
    (fun hmem => ?_)
  · rw [sendInLoop, if_pos hdown]
  · obtain ⟨f, hf⟩ := sendInLoop_effects hmem
    cases hf
  · obtain ⟨f, hf⟩ := sendInLoop_effects hmem
    cases hf

theorem shutdownInLoop_effects {e : Effect} (h : e ∈ c.shutdownInLoop) : e = .shutdownWrite := by
  unfold shutdownInLoop at h
  split at h
  · cases h
  · exact List.mem_singleton.mp h

/-- `handleWrite` on a connection that is down does nothing, since its channel has no
interest in writability then. -/
theorem handleWrite_change (hdown : c.state = .kDisconnected → c.channel.isWriting = false)
    (w : WriteResult) : c.Change (c.handleWrite w) := by
  unfold handleWrite
  split
  · rename_i hwriting
    have hup : c.state ≠ .kDisconnected := fun h => by simp [hdown h] at hwriting
    split
    · dsimp only
      split
      · refine .goesOn (.inl rfl) (fun h => absurd h hup) (fun hmem => ?_) (fun hmem => ?_)
        all_goals
          rcases List.mem_append.mp hmem with hmem | hmem
          · split at hmem
            · cases List.mem_singleton.mp hmem
            · cases hmem
          · split at hmem
            · cases shutdownInLoop_effects hmem
            · cases hmem
      · exact .goesOn (.inl rfl) (fun h => absurd h hup) List.not_mem_nil List.not_mem_nil
    · split
      · exact .closes rfl
      · exact .refl c
  · exact .refl c

theorem shutdown_change (c : TcpConnection) : c.Change c.shutdown := by
  unfold shutdown
  split
  · rename_i hup
    refine .goesOn (.inr ⟨hup, rfl⟩) (fun h => ?_) (fun hmem => ?_) (fun hmem => ?_)
    · cases hup.symm.trans h
    · cases shutdownInLoop_effects hmem
    · cases shutdownInLoop_effects hmem
  · exact .refl c

/-- Every call on the loop thread closes the connection or goes on without a report. -/
theorem call_change (hdown : c.state = .kDisconnected → c.channel.isWriting = false)
    (op : LoopCall) : c.Change (c.call op) := by
  cases op with
  | send data w =>
    simp only [call, send]
    split
    · exact sendInLoop_change c data w
    · exact .refl c
  | sendInLoop data w => exact sendInLoop_change c data w
  | shutdown => exact shutdown_change c
  | forceClose =>
    simp only [call, forceClose_eq, forceCloseInLoop]
    split
    · exact .closes rfl
    · exact .refl c
  | handleRead received =>
    rcases received with e | (_ | ⟨byte, bytes⟩)
    · exact .refl c
    · exact .closes rfl
    · exact .goesOn (.inl rfl) (fun _ => rfl) (by simp [call, handleRead])
        (by simp [call, handleRead])
  | handleWrite w => exact handleWrite_change hdown w
  | handleClose => exact .closes rfl

end TcpConnection

/-! ## Lives -/

/-- A connection with what `connected()` answered during each call of its connection
callback, and the number of times `handleClose` has run. -/
structure ReportedConnection where
  conn : TcpConnection
  reports : List Bool
  closes : Nat

namespace ReportedConnection

/-- A call has run.  `handleClose` is where the close callback is called. -/
def after (s : ReportedConnection) (r : TcpConnection × List Effect) : ReportedConnection where
  conn := r.1
  reports := s.reports ++
    (r.2.filter (· = .connectionCallback)).map (fun _ => r.1.state == .kConnected)
  closes := s.closes + r.2.count .closeCallback

/-- A connection that has just been established. -/
def established (writeCompleteCallback highWaterMarkCallback : Bool) (highWaterMark : Nat) :
    ReportedConnection :=
  let c := TcpConnection.initial writeCompleteCallback highWaterMarkCallback highWaterMark
  after ⟨c, [], 0⟩ c.connectEstablished

def call (s : ReportedConnection) (op : LoopCall) : ReportedConnection := s.after (s.conn.call op)

/-- The connection after the calls `ops`. -/
def calls (s : ReportedConnection) (ops : List LoopCall) : ReportedConnection := ops.foldl call s

def connectDestroyed (s : ReportedConnection) : ReportedConnection :=
  s.after s.conn.connectDestroyed

/-- The reports that the connection is down. -/
def downs (s : ReportedConnection) : Nat := s.reports.count false

/-- The reports agree with the state: none while the connection is up or half closed, and
one for each `handleClose` afterwards. -/
def Valid (s : ReportedConnection) : Prop :=
  match s.conn.state with
  | .kConnecting => False
  | .kConnected | .kDisconnecting => s.downs = 0 ∧ s.closes = 0
  | .kDisconnected => s.downs = s.closes ∧ 0 < s.closes ∧ s.conn.channel.events = kNoneEvent

variable {s : ReportedConnection}

theorem established_valid (writeComplete highWater : Bool) (mark : Nat) :
    (established writeComplete highWater mark).Valid := ⟨rfl, rfl⟩

/-- A call without the two callbacks leaves the reports alone. -/
theorem after_silent {r : TcpConnection × List Effect} (hcallback : .connectionCallback ∉ r.2)
    (hclose : .closeCallback ∉ r.2) : s.after r = ⟨r.1, s.reports, s.closes⟩ := by
  have hnil : r.2.filter (· = .connectionCallback) = [] := by
    refine List.filter_eq_nil_iff.mpr fun e he heq => ?_
    exact hcallback (of_decide_eq_true heq ▸ he)
  simp [after, hnil, List.count_eq_zero.mpr hclose]

/-- `connected()` is false of a connection that is down. -/
@[simp] theorem disconnected_beq_connected : (StateE.kDisconnected == .kConnected) = false := rfl

theorem downs_handleClose (s : ReportedConnection) :
    (s.after s.conn.handleClose).downs = s.downs + 1 ∧
      (s.after s.conn.handleClose).closes = s.closes + 1 := by
  simp [after, downs, TcpConnection.handleClose]

theorem Valid.downs_eq_closes (hs : s.Valid) : s.downs = s.closes := by
  unfold Valid at hs
  split at hs
  · exact hs.elim
  · exact hs.1.trans hs.2.symm
  · exact hs.1.trans hs.2.symm
  · exact hs.1

theorem Valid.events_of_down (hs : s.Valid) (hstate : s.conn.state = .kDisconnected) :
    s.conn.channel.events = kNoneEvent := by
  rw [Valid, hstate] at hs
  exact hs.2.2

theorem call_valid (hs : s.Valid) (op : LoopCall) : (s.call op).Valid := by
  have hdown : s.conn.state = .kDisconnected → s.conn.channel.isWriting = false := by
    intro hstate
    rw [Channel.isWriting, hs.events_of_down hstate]
    rfl
  unfold call
  rcases TcpConnection.call_change hdown op with ⟨hstate, hchannel, hcallback, hclose⟩ | hr
  · rw [after_silent hcallback hclose]
    rcases hstate with hstate | ⟨hup, hstate⟩
    · unfold Valid at hs ⊢
      dsimp only
      rw [hstate]
      cases hc : s.conn.state with
      | kDisconnected =>
        rw [hc] at hs
        exact ⟨hs.1, hs.2.1, by rw [hchannel hc]; exact hs.2.2⟩
      | kConnecting | kConnected | kDisconnecting => rwa [hc] at hs
    · rw [Valid, hup] at hs
      rw [Valid, hstate]
      exact hs
  · rw [hr]
    obtain ⟨hdowns, hcloses⟩ := downs_handleClose s
    refine ⟨?_, ?_, ?_⟩
    · rw [hdowns, hcloses, hs.downs_eq_closes]
    · rw [hcloses]
      exact Nat.succ_pos _
    · exact Channel.events_updateChannel _

theorem calls_valid (hs : s.Valid) (ops : List LoopCall) : (s.calls ops).Valid := by
  induction ops generalizing s with
  | nil => exact hs
  | cons op ops ih => exact ih (call_valid hs op)

/-- What a connection owes its user when `connectDestroyed` returns. -/
def Down (s : ReportedConnection) : Prop :=
  s.conn.state = .kDisconnected ∧ s.conn.channel.isNoneEvent = true ∧ s.downs = 1

instance : DecidablePred Down := fun _ => inferInstanceAs (Decidable (_ ∧ _ ∧ _))

/-- `connectDestroyed` settles what is owed, unless it finds the connection half closed. -/
theorem connectDestroyed_down_iff (hs : s.Valid) (hcloses : s.closes ≤ 1) :
    s.connectDestroyed.Down ↔ s.conn.state ≠ .kDisconnecting := by
  unfold connectDestroyed TcpConnection.connectDestroyed
  unfold Valid at hs
  cases hstate : s.conn.state with
  | kConnecting =>
    rw [hstate] at hs
    exact hs.elim
  | kConnected =>
    rw [hstate] at hs
    have hdowns : s.reports.count false = 0 := hs.1
    refine iff_of_true ⟨rfl, ?_, ?_⟩ (by simp)
    · simp [after, Channel.isNoneEvent, Channel.disableAll]
    · simp [after, downs, hdowns]
  | kDisconnecting =>
    refine iff_of_false (fun h => ?_) (by simp)
    cases h.1.symm.trans hstate
  | kDisconnected =>
    rw [hstate] at hs
    obtain ⟨hdowns, hpos, hevents⟩ := hs
    rw [if_neg (by simp), after_silent (by simp) (by simp)]
    refine iff_of_true ⟨hstate, ?_, ?_⟩ (by simp)
    · simp [Channel.isNoneEvent, hevents]
    · show s.downs = 1
      omega

/-- **Reported down exactly once.**  A connection that has been established, and closed once
at most, is down without events of interest and has been reported down exactly once when
`connectDestroyed` returns, if and only if `connectDestroyed` did not find it half closed. -/
theorem reported_down_once_iff {writeComplete highWater : Bool} {mark : Nat} {ops : List LoopCall}
    (hcloses : ((established writeComplete highWater mark).calls ops).closes ≤ 1) :
    ((established writeComplete highWater mark).calls ops).connectDestroyed.Down ↔
      ((established writeComplete highWater mark).calls ops).conn.state ≠ .kDisconnecting :=
  connectDestroyed_down_iff (calls_valid (established_valid _ _ _) ops) hcloses

/-- A peer that closes after a message: the close callback leads to `connectDestroyed`. -/
theorem reported_down_once_peerCloses :
    (((established true true 64).calls [.handleRead (.ok [1]), .send [2] ⟨some 1, 0⟩,
      .handleRead (.ok [])]).connectDestroyed).Down :=
  (reported_down_once_iff (by decide +kernel)).mpr (by decide +kernel)

/-- The server is destroyed after `shutdown`: the connection stays in `kDisconnecting`, is
still interested in reading, and has not been reported down. -/
theorem half_closed_not_reported :
    ((established true true 64).calls [.shutdown]).closes = 0 ∧
      ¬ (((established true true 64).calls [.shutdown]).connectDestroyed).Down ∧
      (((established true true 64).calls [.shutdown]).connectDestroyed).conn.state =
        .kDisconnecting ∧
      (((established true true 64).calls [.shutdown]).connectDestroyed).conn.channel.events.read =
        true ∧
      (((established true true 64).calls [.shutdown]).connectDestroyed).reports = [true] := by
  decide +kernel

end ReportedConnection
end ReMuduo
