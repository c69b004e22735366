import ReMuduo.ServerLoop

/-! # The callback protocol of a connection

A user of a connection expects its callbacks in this order: up, any number of messages,
down, close.  `Follows` says which callbacks a connection has made in each of its states,
and `Valid` says it of all connections of a loop.  This file proves what the methods of
a connection do to it, if they are called in the states they are meant for. -/
namespace ReMuduo

/-- The connection is up, and `k` messages have come. -/
def established (k : Nat) : List Callback := .connection true :: List.replicate k .message

/-- A prefix of up, message*, down, close. -/
def Protocol (h : List Callback) : Prop :=
  ∃ k, h <+: established k ++ [.connection false, .close]

theorem established_append_message (k : Nat) :
    established k ++ [.message] = established (k + 1) := by
  simp [established, List.replicate_succ']

theorem Protocol.of_grows {h h' : List Callback} (hgrows : h <+: h') (hh : Protocol h') :
    Protocol h := by
  obtain ⟨k, hk⟩ := hh
  exact ⟨k, hgrows.trans hk⟩

/-- After down only close can come. -/
theorem Protocol.after_down {k : Nat} {cb : Callback} {rest : List Callback}
    (h : Protocol (established k ++ .connection false :: cb :: rest)) :
    cb = .close ∧ rest = [] := by
  obtain ⟨m, hm⟩ := h
  simp only [established, List.cons_append, List.prefix_cons_inj] at hm
  induction k generalizing m with
  | zero =>
    cases m with
    | zero => simpa [List.prefix_cons_iff] using hm
    | succ m => simp [List.replicate_succ] at hm
  | succ k ih =>
    cases m with
    | zero => simp [List.replicate_succ] at hm
    | succ m =>
      simp only [List.replicate_succ, List.cons_append, List.prefix_cons_inj] at hm
      exact ih m hm

/-! ## The invariant -/

/-- What a connection in a state has called back, how many closes of it are begun and not
finished, and how many entries it has in `connections_`. -/
inductive Follows : StateE → List Callback → Nat → Nat → Prop
  | fresh : Follows .kConnecting [] 0 0
  | up (state : StateE) (hstate : state = .kConnected ∨ state = .kDisconnecting) (k : Nat) :
      Follows state (established k) 0 1
  | down (k : Nat) : Follows .kDisconnected (established k ++ [.connection false]) 1 1
  | closed (k : Nat) : Follows .kDisconnected (established k ++ [.connection false, .close]) 0 0

section

variable {state : StateE} {h : List Callback} {closes entries : Nat}

theorem Follows.protocol (hf : Follows state h closes entries) : Protocol h := by
  cases hf with
  | fresh => exact ⟨0, List.nil_prefix⟩
  | up _ _ k => exact ⟨k, List.prefix_append _ _⟩
  | down k => exact ⟨k, by simp [List.prefix_append_right_inj]⟩
  | closed k => exact ⟨k, List.prefix_refl _⟩

/-- A connection that is up has made these callbacks. -/
theorem Follows.of_up (hf : Follows state h closes entries)
    (hup : state = .kConnected ∨ state = .kDisconnecting) :
    ∃ k, h = established k ∧ closes = 0 ∧ entries = 1 := by
  cases hf with
  | up _ _ k => exact ⟨k, rfl, rfl, rfl⟩
  | fresh | down | closed => simp at hup

theorem Follows.of_fresh (hf : Follows state h closes entries) (hfresh : state = .kConnecting) :
    h = [] ∧ closes = 0 ∧ entries = 0 := by
  subst hfresh
  cases hf with
  | fresh => exact ⟨rfl, rfl, rfl⟩
  | up _ hup => simp at hup

/-- A connection whose close is begun is down. -/
theorem Follows.of_closing (hf : Follows state h closes entries) (hclosing : 0 < closes) :
    ∃ k, h = established k ++ [.connection false] ∧ state = .kDisconnected ∧ closes = 1 ∧
      entries = 1 := by
  cases hf with
  | down k => exact ⟨k, rfl, rfl, rfl, rfl⟩
  | fresh | up | closed => simp at hclosing

/-- A closed connection has reported down, and perhaps close. -/
theorem Follows.of_disconnected (hf : Follows state h closes entries)
    (hdown : state = .kDisconnected) :
    ∃ k, h = established k ++ [.connection false] ∨
      h = established k ++ [.connection false, .close] := by
  subst hdown
  cases hf with
  | up _ hup => simp at hup
  | down k => exact ⟨k, .inl rfl⟩
  | closed k => exact ⟨k, .inr rfl⟩

theorem Follows.shutdown (hf : Follows .kConnected h closes entries) :
    Follows .kDisconnecting h closes entries := by
  cases hf with
  | up _ _ k => exact .up _ (.inr rfl) k

end

namespace ServerLoop

/-- The end of a `handleClose`, after the down callback. -/
abbrev closing (c : ConnId) : Task := .resume (c, [.closeCallback])

/-- An effect that is no callback. -/
def Quiet : Effect → Prop
  | .connectionCallback | .messageCallback | .closeCallback => False
  | _ => True

def FunctorOk (s : ServerLoop) : LoopFunctor → Prop
  | .connectDestroyed c => (s.conns c).state = .kDisconnected
  | _ => True

def TaskOk (s : ServerLoop) : Task → Prop
  | .resume (_, rest) => rest = [.closeCallback] ∨ ∀ e ∈ rest, Quiet e
  | .callback (.conn c) _ => (s.conns c).state ≠ .kConnecting
  | .handleEvent (.conn c) _ => (s.conns c).state ≠ .kConnecting
  | .functor f => s.FunctorOk f
  | _ => True

/-- A connection is in no epoll set before it is established, and waits for no write
once it is closed. -/
def ConnOk (conn : TcpConnection) : Prop :=
  (conn.state = .kConnecting → conn.channel.epoll = none) ∧
    (conn.state = .kDisconnected → conn.channel.isWriting = false)

def FollowsAt (s : ServerLoop) (c : ConnId) : Prop :=
  Follows (s.conns c).state (s.callbacks c) (s.agenda.count (closing c)) (s.connections.count c)

/-- What holds of the loop apart from the callbacks. -/
structure Consistent (s : ServerLoop) : Prop where
  conn : ∀ c, ConnOk (s.conns c)
  fresh : ∀ c, s.nextConnId ≤ c → (s.conns c).state = .kConnecting
  task : ∀ t ∈ s.agenda, s.TaskOk t
  functor : ∀ f ∈ s.pendingFunctors, s.FunctorOk f
  assert : s.assertFailed = false

/-- The invariant of the loop. -/
structure Valid (s : ServerLoop) : Prop extends Consistent s where
  follows : ∀ c, s.FollowsAt c

theorem initial_valid : Valid initial where
  follows := fun _ => .fresh
  conn := fun _ => ⟨fun _ => rfl, nofun⟩
  fresh := fun _ _ => rfl
  task := fun _ h => absurd h List.not_mem_nil
  functor := fun _ h => absurd h List.not_mem_nil
  assert := rfl

/-! ## Changes that are no callbacks -/

/-- States only go forward, as far as tasks and functors rely on them. -/
def Advances (a b : StateE) : Prop :=
  (a = .kDisconnected → b = .kDisconnected) ∧ (a ≠ .kConnecting → b ≠ .kConnecting)

theorem advances_setConn {s : ServerLoop} {c : ConnId} {conn : TcpConnection}
    (h : Advances (s.conns c).state conn.state) (d : ConnId) :
    Advances (s.conns d).state ((s.setConn c conn).conns d).state := by
  by_cases hd : d = c
  · subst hd
    simpa [setConn] using h
  · simp [setConn, hd, Advances]

theorem FunctorOk.mono {s s' : ServerLoop}
    (h : ∀ c, Advances (s.conns c).state (s'.conns c).state) {f : LoopFunctor}
    (hf : s.FunctorOk f) : s'.FunctorOk f := by
  cases f with
  | connectDestroyed c => exact (h c).1 hf
  | callback | user => trivial

theorem TaskOk.mono {s s' : ServerLoop}
    (h : ∀ c, Advances (s.conns c).state (s'.conns c).state) {t : Task}
    (ht : s.TaskOk t) : s'.TaskOk t := by
  cases t with
  | callback channel cb | handleEvent channel revents =>
    cases channel with
    | conn c => exact (h c).2 ht
    | _ => trivial
  | functor f => exact FunctorOk.mono h ht
  | _ => exact ht

/-- One connection changes, and its state goes forward. -/
theorem Consistent.setConn {s : ServerLoop} (hs : s.Consistent) {c : ConnId}
    {conn : TcpConnection} (hadvances : Advances (s.conns c).state conn.state)
    (hok : ConnOk conn) (hfresh : s.nextConnId ≤ c → conn.state = .kConnecting) :
    (s.setConn c conn).Consistent := by
  refine ⟨fun d => ?_, fun d hd => ?_, fun t ht => (hs.task t ht).mono (advances_setConn hadvances),
    fun f hf => (hs.functor f hf).mono (advances_setConn hadvances), hs.assert⟩
  · by_cases hdc : d = c
    · subst hdc
      simpa [ServerLoop.setConn] using hok
    · simpa [ServerLoop.setConn, hdc] using hs.conn d
  · by_cases hdc : d = c
    · subst hdc
      simpa [ServerLoop.setConn] using hfresh hd
    · simpa [ServerLoop.setConn, hdc] using hs.fresh d hd

theorem followsAt_setConn_of_ne {s : ServerLoop} {c d : ConnId} (conn : TcpConnection)
    (hd : d ≠ c) : (s.setConn c conn).FollowsAt d ↔ s.FollowsAt d := by
  simp [FollowsAt, setConn, hd]

/-- A connection may change without a callback, if its state stays or goes from connected
to disconnecting. -/
theorem Valid.setConn {s : ServerLoop} (hs : s.Valid) {c : ConnId} {conn : TcpConnection}
    (hstate : conn.state = (s.conns c).state ∨
      (s.conns c).state = .kConnected ∧ conn.state = .kDisconnecting)
    (hok : ConnOk conn) : (s.setConn c conn).Valid := by
  have hadvances : Advances (s.conns c).state conn.state := by
    rcases hstate with h | ⟨h, h'⟩ <;> simp_all [Advances]
  refine ⟨hs.toConsistent.setConn hadvances hok fun hc => ?_, fun d => ?_⟩
  · have hfresh := hs.fresh c hc
    rcases hstate with h | ⟨h, -⟩
    · rw [h, hfresh]
    · simp [hfresh] at h
  · by_cases hd : d = c
    · subst hd
      have hfollows := hs.follows d
      simp only [FollowsAt, ServerLoop.setConn, Function.update_self] at hfollows ⊢
      rcases hstate with h | ⟨h, h'⟩
      · rwa [h]
      · rw [h] at hfollows
        rw [h']
        exact hfollows.shutdown
    · exact (followsAt_setConn_of_ne conn hd).mpr (hs.follows d)

theorem Valid.addFunctor {s : ServerLoop} (hs : s.Valid) {f : LoopFunctor} (hf : s.FunctorOk f) :
    (s.addFunctor f).Valid := by
  refine { hs with functor := fun g hg => ?_ }
  rcases List.mem_append.mp hg with h | h
  · exact hs.functor g h
  · exact List.mem_singleton.mp h ▸ hf

/-- Tasks may come and go, except for the end of a close. -/
theorem Valid.setAgenda {s : ServerLoop} (hs : s.Valid) (channel : Option ActiveChannel)
    {agenda : List Task}
    (hcount : ∀ c, agenda.count (closing c) = s.agenda.count (closing c))
    (htask : ∀ t ∈ agenda, s.TaskOk t) :
    Valid { s with currentActiveChannel := channel, agenda := agenda } :=
  { hs with
    follows := fun c => by simpa only [FollowsAt, hcount] using hs.follows c
    task := htask }

theorem Valid.pop {s : ServerLoop} (hs : s.Valid) {t : Task} {rest : List Task}
    (hagenda : s.agenda = t :: rest) (ht : ∀ c, t ≠ closing c) :
    Valid { s with agenda := rest } := by
  refine hs.setAgenda s.currentActiveChannel (fun c => ?_) fun u hu => hs.task u ?_
  · rw [hagenda, List.count_cons_of_ne (ht c)]
  · exact hagenda ▸ List.mem_cons_of_mem _ hu

theorem Valid.push {s : ServerLoop} (hs : s.Valid) (channel : Option ActiveChannel)
    {tasks : List Task} (hclosing : ∀ c, closing c ∉ tasks) (htask : ∀ t ∈ tasks, s.TaskOk t) :
    Valid { s with currentActiveChannel := channel, agenda := tasks ++ s.agenda } := by
  refine hs.setAgenda channel (fun c => ?_) fun t ht => ?_
  · rw [List.count_append, List.count_eq_zero_of_not_mem (hclosing c), Nat.zero_add]
  · exact (List.mem_append.mp ht).elim (htask t) (hs.task t)

theorem Valid.removeChannel {s : ServerLoop} (hs : s.Valid) (c : ConnId) :
    (s.removeChannel c).Valid := by
  unfold ServerLoop.removeChannel
  split
  · exact hs
  · refine hs.setConn (.inl rfl) ⟨fun h => ?_, fun h => ?_⟩
    · exact Channel.epoll_removeChannel ((hs.conn c).1 h)
    · exact (Channel.isWriting_removeChannel _).trans ((hs.conn c).2 h)

theorem Valid.perform {s : ServerLoop} (hs : s.Valid) (c : ConnId) {es : List Effect}
    (hquiet : ∀ e ∈ es, Quiet e) : (s.perform c es).Valid := by
  induction es generalizing s with
  | nil => exact hs
  | cons e es ih =>
    obtain ⟨he, hrest⟩ := List.forall_mem_cons.mp hquiet
    cases e with
    | connectionCallback | messageCallback | closeCallback => exact he.elim
    | queueInLoop f => exact ih (hs.addFunctor trivial) hrest
    | removeChannel => exact ih (hs.removeChannel c) hrest
    | shutdownWrite | cancelTimers | resetIdleTimer => exact ih hs hrest

/-- A method that makes no callback. -/
theorem Valid.call {s : ServerLoop} (hs : s.Valid) {c : ConnId}
    {r : TcpConnection × List Effect}
    (hstate : r.1.state = (s.conns c).state ∨
      (s.conns c).state = .kConnected ∧ r.1.state = .kDisconnecting)
    (hok : ConnOk r.1) (hquiet : ∀ e ∈ r.2, Quiet e) : (s.call c r).Valid :=
  (hs.setConn hstate hok).perform c hquiet

/-! ## Callbacks -/

/-- A method that calls back into user code. -/
theorem Consistent.callUser {s : ServerLoop} (hs : s.Consistent) {c : ConnId}
    {conn : TcpConnection} {cb : Callback} {rest : List Effect}
    (hothers : ∀ d, d ≠ c → s.FollowsAt d) (hc : c < s.nextConnId)
    (hadvances : Advances (s.conns c).state conn.state) (hok : ConnOk conn)
    (hrest : s.TaskOk (.resume (c, rest)))
    (hfollows : Follows conn.state (s.callbacks c ++ [cb])
      ((.resume (c, rest) :: s.agenda).count (closing c)) (s.connections.count c)) :
    ((s.setConn c conn).callUser c cb rest).Valid := by
  have hconn := hs.setConn hadvances hok (fun h => absurd h (Nat.not_le.mpr hc))
  refine ⟨{ hconn with task := ?_ }, fun d => ?_⟩
  · exact List.forall_mem_cons.mpr ⟨trivial, List.forall_mem_cons.mpr ⟨hrest, hconn.task⟩⟩
  · by_cases hd : d = c
    · subst hd
      simpa [FollowsAt, ServerLoop.callUser, note, ServerLoop.setConn] using hfollows
    · have hne : (.resume (c, rest) : Task) ≠ closing d := by simp [Ne.symm hd]
      have hfollowsd := hothers d hd
      simpa [FollowsAt, ServerLoop.callUser, note, ServerLoop.setConn, hd,
        List.count_cons_of_ne hne] using hfollowsd

theorem connOk_of_up {conn : TcpConnection}
    (hup : conn.state = .kConnected ∨ conn.state = .kDisconnecting) : ConnOk conn := by
  rcases hup with h | h <;> simp [ConnOk, h]

theorem Valid.lt_nextConnId {s : ServerLoop} (hs : s.Valid) {c : ConnId}
    (hc : (s.conns c).state ≠ .kConnecting) : c < s.nextConnId :=
  Nat.lt_of_not_le fun h => hc (hs.fresh c h)

/-- `handleClose` reports down first, whatever the state was. -/
theorem call_handleClose (s : ServerLoop) (c : ConnId) (conn : TcpConnection) :
    s.call c conn.handleClose =
      (s.setConn c conn.handleClose.1).callUser c (.connection false) [.closeCallback] := by
  have hdown : ((s.setConn c conn.handleClose.1).conns c).state = .kDisconnected := by
    simp [setConn, TcpConnection.handleClose]
  change (s.setConn c conn.handleClose.1).callUser c
    (.connection (((s.setConn c conn.handleClose.1).conns c).state == .kConnected)) _ = _
  rw [hdown]
  rfl

theorem Valid.handleClose {s : ServerLoop} (hs : s.Valid) {c : ConnId}
    (hup : (s.conns c).state = .kConnected ∨ (s.conns c).state = .kDisconnecting) :
    (s.call c (s.conns c).handleClose).Valid := by
  obtain ⟨k, hhistory, hcloses, hentries⟩ := Follows.of_up (hs.follows c) hup
  rw [call_handleClose]
  refine hs.toConsistent.callUser (fun d _ => hs.follows d) (hs.lt_nextConnId ?_) ?_ ?_
    (.inl rfl) ?_
  · rcases hup with h | h <;> simp [h]
  · simp [Advances, TcpConnection.handleClose]
  · simp [ConnOk, TcpConnection.handleClose]
  · rw [hhistory, hentries, List.count_cons_self, hcloses]
    exact .down k

theorem Valid.handleMessage {s : ServerLoop} (hs : s.Valid) {c : ConnId}
    (hup : (s.conns c).state = .kConnected ∨ (s.conns c).state = .kDisconnecting)
    (byte : UInt8) (bytes : List UInt8) :
    (s.call c ((s.conns c).handleRead (.ok (byte :: bytes)))).Valid := by
  obtain ⟨k, hhistory, hcloses, hentries⟩ := Follows.of_up (hs.follows c) hup
  refine hs.toConsistent.callUser (fun d _ => hs.follows d) (hs.lt_nextConnId ?_) ?_
    (connOk_of_up hup) (.inr (by simp [Quiet])) ?_
  · rcases hup with h | h <;> simp [h]
  · exact ⟨id, id⟩
  · rw [hhistory, hentries, List.count_cons_of_ne (by simp), hcloses, established_append_message]
    exact .up _ hup (k + 1)

theorem Valid.newConnection {s : ServerLoop} (hs : s.Valid) (conn : TcpConnection) :
    (s.newConnection conn).Valid := by
  have hfresh := hs.fresh s.nextConnId (Nat.le_refl _)
  obtain ⟨hhistory, hcloses, hentries⟩ := Follows.of_fresh (hs.follows s.nextConnId) hfresh
  have hs' : Consistent { s with
      nextConnId := s.nextConnId + 1
      connections := s.connections ++ [s.nextConnId] } :=
    { hs with fresh := fun d hd => hs.fresh d (Nat.le_of_succ_le hd) }
  have hcall : s.newConnection conn =
      (ServerLoop.setConn { s with
        nextConnId := s.nextConnId + 1
        connections := s.connections ++ [s.nextConnId] }
        s.nextConnId conn.connectEstablished.1).callUser s.nextConnId (.connection true) [] := by
    simp [ServerLoop.newConnection, ServerLoop.call, TcpConnection.connectEstablished,
      ServerLoop.perform, ServerLoop.setConn]
  rw [hcall]
  refine hs'.callUser (fun d hd => ?_) (Nat.lt_succ_self _) ?_ (connOk_of_up (.inl rfl))
    (.inr nofun) ?_
  · have hne : s.nextConnId ≠ d := Ne.symm hd
    simpa [FollowsAt, hne] using hs.follows d
  · simp [Advances, hfresh, TcpConnection.connectEstablished]
  · have hresume : (.resume (s.nextConnId, []) : Task) ≠ closing s.nextConnId := by simp
    simp only [hhistory, List.count_append, hentries, List.count_singleton_self, hcloses,
      List.count_cons_of_ne hresume]
    exact .up .kConnected (.inl rfl) 0

/-- The end of a `handleClose` takes the connection out of the server. -/
theorem Valid.closeCallback {s : ServerLoop} (hs : s.Valid) {c : ConnId} {rest : List Task}
    (hagenda : s.agenda = closing c :: rest) :
    (ServerLoop.perform { s with agenda := rest } c [.closeCallback]).Valid := by
  obtain ⟨k, hhistory, hstate, hcloses, hentries⟩ :=
    Follows.of_closing (hs.follows c) (List.count_pos_iff.mpr (hagenda ▸ List.mem_cons_self))
  have hmem : c ∈ s.connections := List.count_pos_iff.mp (by omega)
  have hrest : rest.count (closing c) = 0 := by
    rw [hagenda, List.count_cons_self] at hcloses
    omega
  have hperform : ServerLoop.perform { s with agenda := rest } c [.closeCallback] =
      ServerLoop.addFunctor { s.note c .close with
        agenda := rest
        connections := s.connections.erase c } (.connectDestroyed c) := by
    simp [ServerLoop.perform, removeConnection, hmem, note]
  have hremoved : Valid { s.note c .close with
      agenda := rest
      connections := s.connections.erase c } := by
    refine ⟨{ hs with task := fun t ht => ?_ }, fun d => ?_⟩
    · exact hs.task t (hagenda ▸ List.mem_cons_of_mem _ ht)
    · by_cases hd : d = c
      · subst hd
        simpa [FollowsAt, note, hstate, hhistory, hrest, hentries] using Follows.closed k
      · have hne : closing c ≠ closing d := by simp [Ne.symm hd]
        have hfollows := hs.follows d
        rw [FollowsAt, hagenda, List.count_cons_of_ne hne] at hfollows
        simpa [FollowsAt, note, hd, List.count_erase_of_ne hd] using hfollows
  rw [hperform]
  exact hremoved.addFunctor hstate

/-! ## Methods that make no callback -/

theorem sendRemaining_spec (conn : TcpConnection) (remaining : List UInt8) :
    (conn.sendRemaining remaining).1.state = conn.state ∧
      ∀ e ∈ (conn.sendRemaining remaining).2, Quiet e := by
  unfold TcpConnection.sendRemaining
  split
  · refine ⟨rfl, ?_⟩
    dsimp only
    split <;> simp [Quiet]
  · simp

theorem sendInLoop_spec (conn : TcpConnection) (data : List UInt8) (w : WriteResult) :
    (conn.sendInLoop data w).1.state = conn.state ∧
      ∀ e ∈ (conn.sendInLoop data w).2, Quiet e := by
  unfold TcpConnection.sendInLoop
  split
  · simp
  · split
    · split
      case h_1 nwrote _ =>
        have hspec := sendRemaining_spec { conn with written := conn.written ++ data.take nwrote }
          (data.drop nwrote)
        refine ⟨hspec.1, fun e he => ?_⟩
        rcases List.mem_append.mp he with h | h
        · split at h
          · obtain rfl := List.mem_singleton.mp h
            trivial
          · simp at h
        · exact hspec.2 e h
      case h_2 =>
        split
        · simp
        · exact sendRemaining_spec conn data
    · exact sendRemaining_spec conn data

theorem shutdownInLoop_quiet (conn : TcpConnection) : ∀ e ∈ conn.shutdownInLoop, Quiet e := by
  unfold TcpConnection.shutdownInLoop
  split <;> simp [Quiet]

/-- `handleWrite` is `handleClose`, or it makes no callback. -/
theorem handleWrite_cases (conn : TcpConnection) (w : WriteResult) :
    conn.channel.isWriting = true ∧ conn.handleWrite w = conn.handleClose ∨
      conn.channel.isWriting = true ∧ (conn.handleWrite w).1.state = conn.state ∧
        (∀ e ∈ (conn.handleWrite w).2, Quiet e) ∨
      conn.handleWrite w = (conn, []) := by
  unfold TcpConnection.handleWrite
  split
  case isFalse => exact .inr (.inr rfl)
  case isTrue hwriting =>
    split
    case h_1 n _ =>
      refine .inr (.inl ⟨hwriting, ?_⟩)
      dsimp only
      split
      · refine ⟨rfl, fun e he => ?_⟩
        rcases List.mem_append.mp he with h | h
        · split at h
          · obtain rfl := List.mem_singleton.mp h
            trivial
          · simp at h
        · split at h
          · exact shutdownInLoop_quiet _ e h
          · simp at h
      · exact ⟨rfl, nofun⟩
    case h_2 =>
      split
      · exact .inl ⟨hwriting, rfl⟩
      · exact .inr (.inr rfl)

end ServerLoop
end ReMuduo
