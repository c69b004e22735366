import ReMuduo.CallbackProtocol

/-! # Runs that keep the callback protocol

`handleClose` does not test `state_`, and neither does `handleRead`, so the callback
protocol is kept only as long as no event is dispatched to a connection that has been
closed (`Safe`).  A connection can be closed while an event of it is still to be
dispatched: by user code that runs for an earlier channel of the same poll, or by the
first half of its own event (`EPOLLHUP` without `EPOLLIN` closes it, and `EPOLLPRI` makes
it read next).

`Valid` is kept by the steps that avoid this (`step_valid`), and the first step that does
not breaks the protocol of its connection for good (`not_protocol_of_not_safe`). -/
namespace ReMuduo
namespace ServerLoop

/-! ## What the steps keep -/

/-- The connection for which a step runs `handleClose` because of `EPOLLHUP`, or
`handleRead` with a read that succeeds. -/
def dispatched (s : ServerLoop) (i : LoopInput) : Option ConnId :=
  match s.agenda, i with
  | .callback (.conn c) .close :: _, .next => some c
  | .callback (.conn c) .read :: _, .read (.ok _) => some c
  | _, _ => none

/-- Such a step happens only to a connection that is not closed yet. -/
def Safe (s : ServerLoop) (i : LoopInput) : Prop :=
  ∀ c ∈ s.dispatched i, (s.conns c).state ≠ .kDisconnected

instance (s : ServerLoop) (i : LoopInput) : Decidable (s.Safe i) :=
  inferInstanceAs (Decidable (∀ c ∈ s.dispatched i, (s.conns c).state ≠ .kDisconnected))

theorem up_of_ne {state : StateE} (h : state ≠ .kConnecting) (h' : state ≠ .kDisconnected) :
    state = .kConnected ∨ state = .kDisconnecting := by
  cases state <;> simp_all

theorem Valid.poll {s : ServerLoop} (hs : s.Valid) {batch : List (ActiveChannel × Revents)}
    (hregistered : ∀ p ∈ batch, s.Registered p.1) :
    Valid { s with toLoopThread := s.toLoopThread.poll batch } := by
  refine hs.push s.currentActiveChannel (fun c => by simp) fun t ht => ?_
  · rcases List.mem_append.mp ht with h | h
    · obtain ⟨⟨channel, revents⟩, hmem, rfl⟩ := List.mem_map.mp h
      have hreg := hregistered _ hmem
      cases channel with
      | conn c =>
        -- a channel that is in the epoll set belongs to a connection that was established
        intro hstate
        simp [Registered, (hs.conn c).1 hstate] at hreg
      | timerfd | acceptor | wakeup => trivial
    · exact List.mem_singleton.mp h ▸ trivial

theorem Valid.handleWrite {s : ServerLoop} (hs : s.Valid) {c : ConnId}
    (hc : (s.conns c).state ≠ .kConnecting) (w : WriteResult) :
    (s.call c ((s.conns c).handleWrite w)).Valid := by
  -- a closed connection does not wait for writing
  have hup : (s.conns c).channel.isWriting = true →
      (s.conns c).state = .kConnected ∨ (s.conns c).state = .kDisconnecting := by
    intro hwriting
    refine up_of_ne hc fun h => ?_
    simp [(hs.conn c).2 h] at hwriting
  rcases handleWrite_cases (s.conns c) w with ⟨hw, h⟩ | ⟨hw, hstate, hquiet⟩ | h
  · rw [h]
    exact hs.handleClose (hup hw)
  · exact hs.call (.inl hstate) (connOk_of_up (hstate ▸ hup hw)) hquiet
  · rw [h]
    exact hs.call (.inl rfl) (hs.conn c) nofun

theorem Valid.handleRead {s : ServerLoop} (hs : s.Valid) {c : ConnId}
    (hc : (s.conns c).state ≠ .kConnecting) (received : SysResult (List UInt8))
    (hsafe : ∀ bytes, received = .ok bytes → (s.conns c).state ≠ .kDisconnected) :
    (s.call c ((s.conns c).handleRead received)).Valid := by
  match received with
  | .ok [] => exact hs.handleClose (up_of_ne hc (hsafe _ rfl))
  | .ok (byte :: bytes) => exact hs.handleMessage (up_of_ne hc (hsafe _ rfl)) byte bytes
  | .error _ => exact hs.call (.inl rfl) (hs.conn c) nofun

theorem Valid.send {s : ServerLoop} (hs : s.Valid) (c : ConnId) (data : List UInt8)
    (w : WriteResult) : (s.call c ((s.conns c).send data w)).Valid := by
  unfold TcpConnection.send
  split
  case isTrue hconnected =>
    obtain ⟨hstate, hquiet⟩ := sendInLoop_spec (s.conns c) data w
    exact hs.call (.inl hstate) (connOk_of_up (.inl (hstate.trans hconnected))) hquiet
  case isFalse => exact hs.call (.inl rfl) (hs.conn c) nofun

theorem Valid.shutdown {s : ServerLoop} (hs : s.Valid) (c : ConnId) :
    (s.call c (s.conns c).shutdown).Valid := by
  unfold TcpConnection.shutdown
  split
  case isTrue hconnected =>
    exact hs.call (.inr ⟨hconnected, rfl⟩) (connOk_of_up (.inr rfl)) (shutdownInLoop_quiet _)
  case isFalse => exact hs.call (.inl rfl) (hs.conn c) nofun

theorem Valid.forceClose {s : ServerLoop} (hs : s.Valid) (c : ConnId) :
    (s.call c (s.conns c).forceClose).Valid := by
  rw [TcpConnection.forceClose_eq, TcpConnection.forceCloseInLoop]
  split
  case isTrue hup => exact hs.handleClose hup
  case isFalse => exact hs.call (.inl rfl) (hs.conn c) nofun

theorem Valid.connectDestroyed {s : ServerLoop} (hs : s.Valid) {c : ConnId}
    (hstate : (s.conns c).state = .kDisconnected) :
    (s.call c (s.conns c).connectDestroyed).Valid := by
  have hdestroyed : (s.conns c).connectDestroyed = (s.conns c, [.removeChannel]) := by
    simp [TcpConnection.connectDestroyed, hstate]
  rw [hdestroyed]
  exact hs.call (.inl rfl) (hs.conn c) (by simp [Quiet])

theorem Valid.doPendingFunctors {s : ServerLoop} (hs : s.Valid) :
    Valid { s with toLoopThread := s.toLoopThread.doPendingFunctors } := by
  have hpushed : Valid { s with
      currentActiveChannel := none
      agenda := s.pendingFunctors.map .functor ++ s.agenda } :=
    hs.push none (by simp) (List.forall_mem_map.mpr hs.functor)
  exact { hpushed with functor := nofun }

theorem Valid.handleEvent {s : ServerLoop} (hs : s.Valid) {channel : ActiveChannel}
    {revents : Revents} (hchannel : s.TaskOk (.handleEvent channel revents)) :
    Valid { s with toLoopThread := s.toLoopThread.handleEvent channel revents } := by
  refine hs.push (some channel) (fun c hmem => ?_) fun t ht => ?_
  · obtain ⟨cb, hcb⟩ := LoopThread.mem_eventTasks hmem
    cases hcb
  · obtain ⟨cb, rfl⟩ := LoopThread.mem_eventTasks ht
    cases channel <;> exact hchannel

theorem Valid.pushUser {s : ServerLoop} (hs : s.Valid) :
    Valid { s with toLoopThread := s.toLoopThread.push [.user] } :=
  hs.push s.currentActiveChannel (by simp) fun _ ht => List.mem_singleton.mp ht ▸ trivial

theorem Valid.userCall {s s' : ServerLoop} (hs : s.Valid) {u : UserCall}
    (h : s.userCall u = some s') : s'.Valid := by
  cases u with
  | send c data w =>
    obtain ⟨-, ⟨⟩⟩ := Option.ite_none_right_eq_some.mp h
    exact hs.send c data w
  | shutdown c =>
    obtain ⟨-, ⟨⟩⟩ := Option.ite_none_right_eq_some.mp h
    exact hs.shutdown c
  | forceClose c =>
    obtain ⟨-, ⟨⟩⟩ := Option.ite_none_right_eq_some.mp h
    exact hs.forceClose c
  | queueInLoop => exact Option.some.inj h ▸ hs.addFunctor trivial

theorem Valid.runFunctor {s s' : ServerLoop} (hs : s.Valid) {f : LoopFunctor} (hf : s.FunctorOk f)
    {i : LoopInput} (h : s.runFunctor f i = some s') : s'.Valid := by
  unfold ServerLoop.runFunctor at h
  split at h
  case h_1 c => exact Option.some.inj h ▸ hs.connectDestroyed hf
  case h_2 | h_3 => exact Option.some.inj h ▸ hs.pushUser
  case h_4 => cases h

/-- **The step lemma.**  A step that dispatches nothing to a closed connection keeps the
invariant. -/
theorem step_valid {s s' : ServerLoop} {i : LoopInput} (hs : s.Valid) (hsafe : s.Safe i)
    (h : methods.Step s i s') : s'.Valid := by
  cases h with
  | poll batch hagenda hregistered => exact hs.poll fun p hp => of_decide_eq_true (hregistered p hp)
  | call u s' rest hagenda h => exact hs.userCall h
  | ret rest hagenda => exact hs.pop hagenda nofun
  | task task rest i s' hagenda huser hdoes =>
    have htask : s.TaskOk task := hs.task _ (hagenda ▸ List.mem_cons_self)
    cases hdoes with
    | resume k =>
      obtain ⟨c, es⟩ := k
      by_cases hes : es = [.closeCallback]
      · subst hes
        exact hs.closeCallback hagenda
      · exact (hs.pop hagenda (by simp [hes])).perform c (htask.resolve_left hes)
    | handleEvent channel revents => exact (hs.pop hagenda nofun).handleEvent htask
    | handleClose c =>
      have hopen := hsafe c (by simp [dispatched, show s.agenda = _ from hagenda])
      exact (hs.pop hagenda nofun).handleClose (up_of_ne htask hopen)
    | handleRead c received =>
      refine (hs.pop hagenda nofun).handleRead htask received fun bytes hbytes => ?_
      exact hsafe c (by simp [dispatched, show s.agenda = _ from hagenda, hbytes])
    | handleWrite c w => exact (hs.pop hagenda nofun).handleWrite htask w
    | timer => exact (hs.pop hagenda nofun).pushUser
    | accept new s' h => exact Option.some.inj h ▸ (hs.pop hagenda nofun).newConnection _
    | skip channel cb => exact hs.pop hagenda nofun
    | doPendingFunctors => exact (hs.pop hagenda nofun).doPendingFunctors
    | functor f i s' h => exact (hs.pop hagenda nofun).runFunctor htask h

/-! ## Callbacks are never taken back -/

theorem note_callbacks_grow (s : ServerLoop) (c d : ConnId) (cb : Callback) :
    s.callbacks d <+: (s.note c cb).callbacks d := by
  by_cases hd : d = c
  · subst hd
    simp [note]
  · simp [note, hd]

theorem perform_callbacks_grow (s : ServerLoop) (c d : ConnId) (es : List Effect) :
    s.callbacks d <+: (s.perform c es).callbacks d := by
  induction es generalizing s with
  | nil => exact List.prefix_refl _
  | cons e es ih =>
    cases e with
    | connectionCallback | messageCallback => exact note_callbacks_grow s c d _
    | closeCallback =>
      refine List.IsPrefix.trans ?_ (ih (s.removeConnection c))
      unfold removeConnection
      dsimp only
      split <;> exact note_callbacks_grow s c d .close
    | removeChannel =>
      refine List.IsPrefix.trans ?_ (ih (s.removeChannel c))
      unfold removeChannel
      split <;> exact List.prefix_refl _
    | queueInLoop f => exact ih (s.addFunctor (.callback c f))
    | shutdownWrite | cancelTimers | resetIdleTimer => exact ih s

theorem call_callbacks_grow {s t : ServerLoop} (ht : t.callbacks = s.callbacks) (c d : ConnId)
    (r : TcpConnection × List Effect) : s.callbacks d <+: (t.call c r).callbacks d :=
  ht ▸ perform_callbacks_grow (t.setConn c r.1) c d r.2

theorem userCall_callbacks_grow {s s' : ServerLoop} {u : UserCall} (h : s.userCall u = some s')
    (d : ConnId) : s.callbacks d <+: s'.callbacks d := by
  cases u with
  | send | shutdown | forceClose =>
    obtain ⟨-, ⟨⟩⟩ := Option.ite_none_right_eq_some.mp h
    exact call_callbacks_grow rfl _ d _
  | queueInLoop => exact Option.some.inj h ▸ List.prefix_refl _

theorem runFunctor_callbacks_grow {s s' : ServerLoop} {f : LoopFunctor} {i : LoopInput}
    (h : s.runFunctor f i = some s') (d : ConnId) : s.callbacks d <+: s'.callbacks d := by
  unfold runFunctor at h
  split at h
  case h_1 c => exact Option.some.inj h ▸ call_callbacks_grow rfl c d _
  case h_2 | h_3 => exact Option.some.inj h ▸ List.prefix_refl _
  case h_4 => cases h

theorem step_callbacks_grow {s s' : ServerLoop} {i : LoopInput} (h : methods.Step s i s')
    (d : ConnId) : s.callbacks d <+: s'.callbacks d := by
  cases h with
  | poll | ret => exact List.prefix_refl _
  | call u s' rest hagenda h => exact userCall_callbacks_grow h d
  | task task rest i s' hagenda huser hdoes =>
    cases hdoes with
    | resume k => exact perform_callbacks_grow { s with agenda := rest } k.1 d k.2
    | handleClose | handleRead | handleWrite => exact call_callbacks_grow (by rfl) _ d _
    | accept new s' h => exact Option.some.inj h ▸ call_callbacks_grow (by rfl) _ d _
    | functor f i s' h => exact runFunctor_callbacks_grow (s := { s with agenda := rest }) h d
    | handleEvent | timer | skip | doPendingFunctors => exact List.prefix_refl _

theorem run_callbacks_grow {s s' : ServerLoop} {is : List LoopInput}
    (hrun : Machine.run step s is = some s') (d : ConnId) :
    s.callbacks d <+: s'.callbacks d :=
  Machine.run_invariant (P := fun t => s.callbacks d <+: t.callbacks d)
    (fun _ _ _ ht h => ht.trans (step_callbacks_grow (step_cases h) d)) hrun (List.prefix_refl _)

theorem dispatched_eq_some {s : ServerLoop} {i : LoopInput} {c : ConnId}
    (h : s.dispatched i = some c) :
    ∃ rest, s.agenda = .callback (.conn c) .close :: rest ∧ i = .next ∨
      ∃ bytes, s.agenda = .callback (.conn c) .read :: rest ∧ i = .read (.ok bytes) := by
  unfold dispatched at h
  split at h
  case h_1 rest hagenda => exact ⟨rest, .inl ⟨Option.some.inj h ▸ hagenda, rfl⟩⟩
  case h_2 rest bytes hagenda => exact ⟨rest, .inr ⟨bytes, Option.some.inj h ▸ hagenda, rfl⟩⟩
  case h_3 => cases h

/-- The dispatch that `Safe` is about makes a callback at once. -/
theorem step_dispatched {s s' : ServerLoop} {i : LoopInput} {c : ConnId}
    (hdispatched : s.dispatched i = some c) (h : s.step i = some s') :
    ∃ cb, cb ≠ .close ∧ s'.callbacks c = s.callbacks c ++ [cb] := by
  have hclose : ∀ rest, (call { s with agenda := rest } c (s.conns c).handleClose).callbacks c =
      s.callbacks c ++ [.connection false] := by
    intro rest
    simp [call_handleClose, callUser, note, setConn]
  obtain ⟨-, h⟩ := Option.ite_none_left_eq_some.mp h
  obtain ⟨rest, ⟨hagenda, rfl⟩ | ⟨bytes, hagenda, rfl⟩⟩ := dispatched_eq_some hdispatched
  · simp only [LoopMethods.step, show (methods.thread s).agenda = _ from hagenda,
      LoopMethods.taskStep] at h
    exact ⟨.connection false, by simp, Option.some.inj h ▸ hclose rest⟩
  · simp only [LoopMethods.step, show (methods.thread s).agenda = _ from hagenda,
      LoopMethods.taskStep] at h
    cases bytes with
    | nil => exact ⟨.connection false, by simp, Option.some.inj h ▸ hclose rest⟩
    | cons byte bytes =>
      refine ⟨.message, by simp, Option.some.inj h ▸ ?_⟩
      simp [methods, call, TcpConnection.handleRead, perform, callUser, note, setConn]

/-- An event dispatched to a closed connection is one callback too many. -/
theorem not_protocol_of_not_safe {s s' : ServerLoop} {i : LoopInput} (hs : s.Valid)
    (hviolates : ¬ s.Safe i) (h : s.step i = some s') : ∃ c, ¬ Protocol (s'.callbacks c) := by
  simp only [Safe, not_forall, not_not] at hviolates
  obtain ⟨c, hdispatched, hdown⟩ := hviolates
  obtain ⟨cb, hcb, hcallbacks⟩ := step_dispatched hdispatched h
  refine ⟨c, fun hprotocol => ?_⟩
  rw [hcallbacks] at hprotocol
  obtain ⟨k, hk | hk⟩ := Follows.of_disconnected (hs.follows c) hdown
  · rw [hk, List.append_assoc] at hprotocol
    exact hcb hprotocol.after_down.1
  · rw [hk, List.append_assoc] at hprotocol
    exact absurd hprotocol.after_down.2 (by simp)

/-! ## The protocol -/

/-- **The callback protocol of a connection.**  Along a run every connection makes its
callbacks in the order up, message*, down, close, and the assertion of
`removeConnectionInLoop` holds, exactly if no step of the run dispatches `EPOLLHUP`
without `EPOLLIN`, or a read that succeeds, to a connection already closed. -/
theorem callback_protocol_iff {s : ServerLoop} {is : List LoopInput}
    (hrun : Machine.run step initial is = some s) :
    ((∀ c, Protocol (s.callbacks c)) ∧ s.assertFailed = false) ↔
      Machine.Along step Safe initial is := by
  have hvalid : ∀ {t js}, Machine.run step initial js = some t →
      Machine.Along step Safe initial js → t.Valid := fun hrun hsafe =>
    Machine.run_invariant_along (fun _ _ _ hs hsafe h => step_valid hs hsafe (step_cases h))
      hrun hsafe initial_valid
  constructor
  · rintro ⟨hprotocol, -⟩
    by_contra hviolates
    obtain ⟨before, i, after, t, u, -, hbefore, hsafe, hviolated, hstep, hafter⟩ :=
      Machine.exists_first_violation hrun hviolates
    obtain ⟨c, hc⟩ :=
      not_protocol_of_not_safe (hvalid hbefore hsafe) hviolated hstep
    exact hc ((hprotocol c).of_grows (run_callbacks_grow hafter c))
  · intro hsafe
    have hs := hvalid hrun hsafe
    exact ⟨fun c => (hs.follows c).protocol, hs.assert⟩

/-- Two connections are accepted and become readable in one poll.  The message callback of
the first closes the second. -/
def closedByOther : List LoopInput :=
  let readable : Revents := ⟨true, false, false, false, false, false⟩
  let accepting : List LoopInput :=
    [.poll [(.acceptor, readable)], .next, .accept ⟨false, false, 1024⟩, .ret, .next, .next]
  accepting ++ accepting ++
    [.poll [(.conn 1, readable), (.conn 2, readable)], .next, .read (.ok [7]),
      .call (.forceClose 2), .ret, .next, .ret, .next, .next]

/-- The read of the second connection fails. -/
theorem callback_protocol_iff_readFails :
    ∃ s, Machine.run step initial (closedByOther ++ [.read (.error EWOULDBLOCK)]) = some s ∧
      (∀ c, Protocol (s.callbacks c)) ∧ s.assertFailed = false := by
  have hrun : (Machine.run step initial
      (closedByOther ++ [.read (.error EWOULDBLOCK)])).isSome = true := by decide +kernel
  have hsafe : Machine.Along step Safe initial
      (closedByOther ++ [.read (.error EWOULDBLOCK)]) := by decide +kernel
  obtain ⟨s, hs⟩ := Option.isSome_iff_exists.mp hrun
  exact ⟨s, hs, (callback_protocol_iff hs).mpr hsafe⟩

/-- The read of the second connection finds the end of the stream: the connection reports
down and close a second time, and the assertion fails. -/
theorem closed_twice :
    ∃ s, Machine.run step initial (closedByOther ++ [.read (.ok []), .ret, .next]) = some s ∧
      s.callbacks 2 = [.connection true, .connection false, .close, .connection false, .close] ∧
      ¬ Protocol (s.callbacks 2) ∧ s.assertFailed = true := by
  have hrun : (Machine.run step initial (closedByOther ++ [.read (.ok []), .ret, .next])).map
      (fun s => (s.callbacks 2, s.assertFailed)) =
        some ([.connection true, .connection false, .close, .connection false, .close], true) := by
    decide +kernel
  obtain ⟨s, hs, hview⟩ := Option.map_eq_some_iff.mp hrun
  obtain ⟨hcallbacks, hassert⟩ := Prod.mk.inj hview
  refine ⟨s, hs, hcallbacks, fun hprotocol => ?_, hassert⟩
  rw [hcallbacks] at hprotocol
  exact absurd (Protocol.after_down (k := 0) hprotocol).2 (by simp)

end ServerLoop
end ReMuduo
