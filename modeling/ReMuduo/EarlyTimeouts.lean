import ReMuduo.TimedSteps

/-! # Timeouts of a connection that is not established yet

`TcpServer::newConnection` runs in the base loop.  When the connection belongs to another
loop, its calls of `setConnectionTimeout`, `setIdleTimeout` and `enableKeepAlive` post
functors there one after another, and `connectEstablished` is posted last.  The I/O loop
takes what has been posted whenever it comes to `doPendingFunctors`, so it may have armed
a timer, and even run it, before `connectEstablished` arrives.  `forceClose`, which the
timeouts call, does nothing while the state is `kConnecting`.

`AcceptedConnection` is the connection and its loop (`ReMuduo.ConnectionTimers`) together
with the rest of the `newConnection` that has made it.  Where `connectEstablished` stands
among the functors of the connection is counted, since the loop calls them in order. -/
namespace ReMuduo

namespace TimedConnection

variable {s s' : TimedConnection} {op : TimedOp}

/-! ## What leads to `kConnected` -/

theorem closing_not_connected {called : Bool} (h : Closing called s s')
    (hstate : s'.state = .kConnected) : called = false ∧ s.state = .kConnected := by
  obtain ⟨l, rfl, -⟩ := h
  cases called with
  | false => exact ⟨rfl, hstate⟩
  | true => cases hstate

theorem inner_state (h : Changes .inner s s') : s'.state = s.state := by
  obtain ⟨l, ids, b, rfl⟩ := h.frame id
  rfl

/-- A callback that closes the connection does not leave it connected. -/
theorem fire_connected (hs : s.Sound) {id : TimerId} (h : s.fire id = some s')
    (hstate : s'.state = .kConnected) :
    s.state = .kConnected ∧ ∀ f ∈ s.firing id, f.kind.closes = false := by
  obtain ⟨-, hclosing⟩ := fire_spec (S := ⟨fun _ => True, fun _ => True, True⟩) trivial hs h
  obtain ⟨hcalled, hup⟩ := closing_not_connected hclosing hstate
  refine ⟨hup, fun f hf => ?_⟩
  have hup' : s.state = .kConnected := hup
  have hopen : s.isOpen = true := by simp [isOpen, hup']
  unfold firing at hf
  split at hf
  · cases hf
  · rename_i kind hb
    obtain rfl := List.mem_singleton.mp hf
    simpa [closesOn, hb, hopen] using hcalled

theorem functor_connected {a : Addr} (hs : s.Sound) (h : s.step (.functor a) = some s')
    (hstate : s'.state = .kConnected) : s.state = .kConnected := by
  obtain ⟨n, f, rest, -, -, h⟩ := step_functor h
  have hs' : ({ s with phase := .functors n, functors := rest } : TimedConnection).Sound :=
    ⟨hs.reached, hs.known, hs.field⟩
  cases f with
  | setConnectionTimeoutInLoop d =>
    exact (inner_state (setConnectionTimeoutInLoop_changes hs' (fun _ => trivial) h)).symm.trans
      hstate
  | resetIdleTimerInLoop =>
    exact (inner_state (resetIdleTimerInLoop_changes hs' (fun _ => trivial) h)).symm.trans hstate
  | setupKeepAliveTimer =>
    exact (inner_state (setupKeepAliveTimer_changes (fun _ _ => trivial)
      (fun _ => Or.inl trivial) h)).symm.trans hstate
  | cancelInLoop id =>
    simp only [runFunctor] at h
    obtain ⟨l, -, rfl⟩ := Option.map_eq_some_iff.mp h
    exact hstate
  | forceCloseInLoop =>
    obtain ⟨-, hclosing⟩ := forceClose_spec (S := s.scope (.functor a)) trivial hs' h
    exact (closing_not_connected hclosing hstate).2

/-- **Only `connectEstablished` leads to `kConnected`**, and a step that calls
`onConnectionTimeout` or `onIdleTimeout` does not end there. -/
theorem connected_of_step (hs : s.Sound) (hop : op ≠ .connectEstablished)
    (h : s.step op = some s') (hstate : s'.state = .kConnected) :
    s.state = .kConnected ∧ ∀ f ∈ s.fires op, f.kind.closes = false := by
  have hsilent : s.fires op = [] → s.state = .kConnected →
      s.state = .kConnected ∧ ∀ f ∈ s.fires op, f.kind.closes = false :=
    fun hfires hup => ⟨hup, by simp [hfires]⟩
  cases op with
  | connectEstablished => exact absurd rfl hop
  | timer op =>
    cases op with
    | runNext =>
      obtain ⟨id, l, -, hnext, hl, h⟩ := timerStep_runNext h
      have hsmall : Small (s.scope (.timer .runNext)) s { s with loop := l } := .queue hl
      simp only [fires, hnext]
      exact fire_connected (hsmall.sound hs) h hstate
    | cancelInLoop id =>
      obtain ⟨-, h⟩ := Option.ite_none_right_eq_some.mp h
      obtain ⟨l, -, rfl⟩ := Option.map_eq_some_iff.mp h
      exact hsilent rfl hstate
    | handleRead =>
      obtain ⟨-, h⟩ := Option.ite_none_right_eq_some.mp h
      obtain ⟨l, -, rfl⟩ := Option.map_eq_some_iff.mp h
      exact hsilent rfl hstate
    | advance | newTimer | addTimerInLoop | throws | handleReadEnd =>
      obtain ⟨l, -, rfl⟩ := Option.map_eq_some_iff.mp h
      exact hsilent rfl hstate
  | functor a => exact hsilent rfl (functor_connected hs h hstate)
  | poll | dispatch | doPendingFunctors | message =>
    obtain ⟨-, ⟨⟩⟩ := Option.ite_none_right_eq_some.mp h
    exact hsilent rfl hstate
  | messageEnd a =>
    obtain ⟨-, h⟩ := Option.ite_none_right_eq_some.mp h
    split at h
    · have hs' : ({ s with reading := false } : TimedConnection).Sound :=
        ⟨hs.reached, hs.known, hs.field⟩
      exact hsilent rfl
        ((inner_state (resetIdleTimerInLoop_changes hs' (fun _ => trivial) h)).symm.trans hstate)
    · obtain rfl := Option.some.inj h
      exact hsilent rfl hstate
  | handleClose =>
    obtain ⟨-, h⟩ := Option.ite_none_right_eq_some.mp h
    obtain ⟨-, l, rfl, -⟩ := handleClose_spec (S := s.scope .handleClose) trivial hs h
    cases hstate
  | setConnectionTimeout d a =>
    obtain ⟨-, h⟩ := Option.ite_none_right_eq_some.mp h
    exact hsilent rfl
      ((inner_state (setConnectionTimeoutInLoop_changes hs (fun _ => trivial) h)).symm.trans hstate)
  | setIdleTimeout d a =>
    obtain ⟨-, h⟩ := Option.ite_none_right_eq_some.mp h
    have hs' : ({ s with idleTimeout := d } : TimedConnection).Sound :=
      ⟨hs.reached, hs.known, hs.field⟩
    simp only [setIdleTimeout] at h
    split at h
    · exact hsilent rfl
        ((inner_state (resetIdleTimerInLoop_changes hs' (fun _ => trivial) h)).symm.trans hstate)
    · exact hsilent rfl ((inner_state (cancelAndForget_changes _ hs' h)).symm.trans hstate)
  | enableKeepAlive enable d a =>
    obtain ⟨-, h⟩ := Option.ite_none_right_eq_some.mp h
    have hs' : ({ s with keepAliveEnabled := enable, keepAliveInterval := d } :
        TimedConnection).Sound := ⟨hs.reached, hs.known, hs.field⟩
    simp only [enableKeepAlive] at h
    split at h
    · exact hsilent rfl ((inner_state (setupKeepAliveTimer_changes (fun _ _ => trivial)
        (fun _ => Or.inl trivial) h)).symm.trans hstate)
    · exact hsilent rfl ((inner_state (cancelAndForget_changes _ hs' h)).symm.trans hstate)
  | forceClose =>
    obtain ⟨-, h⟩ := Option.ite_none_right_eq_some.mp h
    obtain ⟨-, hclosing⟩ := forceClose_spec (S := s.scope .forceClose) trivial hs h
    exact hsilent rfl (closing_not_connected hclosing hstate).2
  | shutdown | connectDestroyed =>
    obtain ⟨-, ⟨⟩⟩ := Option.ite_none_right_eq_some.mp h
    simp only [shutdown, connectDestroyed] at hstate
    split at hstate
    · cases hstate
    · exact hsilent rfl hstate
  | postShutdown =>
    obtain rfl := Option.some.inj h
    simp only [shutdown] at hstate
    split at hstate
    · cases hstate
    · exact hsilent rfl hstate
  | postForceClose =>
    obtain rfl := Option.some.inj h
    simp only [postForceClose] at hstate
    split at hstate
    · cases hstate
    · exact hsilent rfl hstate
  | postSetConnectionTimeout d =>
    obtain rfl := Option.some.inj h
    exact hsilent rfl hstate
  | postSetIdleTimeout d =>
    obtain rfl := Option.some.inj h
    simp only [postSetIdleTimeout] at hstate
    split at hstate
    · exact hsilent rfl hstate
    · obtain ⟨ids, heq⟩ := postCancelAndForget_eq { s with idleTimeout := d } .idle
      rw [heq] at hstate
      exact hsilent rfl hstate
  | postEnableKeepAlive enable d =>
    obtain rfl := Option.some.inj h
    simp only [postEnableKeepAlive] at hstate
    split at hstate
    · exact hsilent rfl hstate
    · obtain ⟨ids, heq⟩ := postCancelAndForget_eq
        { s with keepAliveEnabled := enable, keepAliveInterval := d } .keepAlive
      rw [heq] at hstate
      exact hsilent rfl hstate

end TimedConnection

/-! ## The machine -/

/-- The settings of the server that `newConnection` applies. -/
structure TimeoutSettings where
  connectionTimeout : Delay
  idleTimeout : Delay
  keepAliveEnabled : Bool
  keepAliveInterval : Delay

/-- The calls of `newConnection` on the connection, in order, before the last one. -/
def TimeoutSettings.calls (c : TimeoutSettings) : List TimedOp :=
  (if c.connectionTimeout.positive then [.postSetConnectionTimeout c.connectionTimeout] else []) ++
    (if c.idleTimeout.positive then [.postSetIdleTimeout c.idleTimeout] else []) ++
    if c.keepAliveEnabled then [.postEnableKeepAlive true c.keepAliveInterval] else []

/-- Where the functor `connectEstablished` is: not posted yet, posted or taken by
`doPendingFunctors` with this many functors of the connection before it, or called. -/
inductive Establishing
  | unposted
  | posted (ahead : Nat)
  | taken (ahead : Nat)
  | called
deriving DecidableEq

namespace Establishing

/-- A step of the loop moves the functor. -/
def after : Establishing → TimedOp → Establishing
  | posted n, .doPendingFunctors => taken n
  | posted (n + 1), .functor _ => posted n
  | taken (n + 1), .functor _ => taken n
  | e, _ => e

/-- The loop calls the functors it has taken in their order, and all of them. -/
def allows : Establishing → TimedOp → Bool
  | _, .connectEstablished => false
  | taken 0, .functor _ => false
  | taken _, .poll => false
  | _, _ => true

end Establishing

/-- A connection on another loop, and what the `newConnection` that has made it still has to
call. -/
structure AcceptedConnection where
  conn : TimedConnection
  calls : List TimedOp
  establishing : Establishing

/-- The steps: the base loop goes on in `newConnection`, the I/O loop calls
`connectEstablished`, or anything else happens to the connection. -/
inductive AcceptedOp
  | newConnection
  | connectEstablished
  | conn (op : TimedOp)

namespace AcceptedConnection

def initial (loop : TimerLoop) (c : TimeoutSettings) : AcceptedConnection :=
  ⟨TimedConnection.initial loop, c.calls, .unposted⟩

def step (s : AcceptedConnection) : AcceptedOp → Option AcceptedConnection
  | .newConnection =>
    match s.calls with
    | call :: calls => (s.conn.step call).map fun conn => { s with conn := conn, calls := calls }
    | [] =>
      if s.establishing = .unposted then
        some { s with establishing := .posted s.conn.functors.length }
      else none
  | .connectEstablished =>
    match s.establishing, s.conn.phase with
    | .taken 0, .functors _ => (s.conn.step .connectEstablished).map fun conn =>
        { s with conn := conn, establishing := .called }
    | _, _ => none
  | .conn op =>
    if s.establishing.allows op then
      (s.conn.step op).map fun conn =>
        { s with conn := conn, establishing := s.establishing.after op }
    else none

variable {s s' : AcceptedConnection}

/-- No call of `newConnection` on the connection is `connectEstablished` itself or a step of
the I/O loop. -/
def Calls (s : AcceptedConnection) : Prop := .connectEstablished ∉ s.calls ∧ .poll ∉ s.calls

theorem initial_calls (loop : TimerLoop) (c : TimeoutSettings) : (initial loop c).Calls := by
  simp only [Calls, initial, TimeoutSettings.calls, List.mem_append, not_or]
  refine ⟨⟨⟨?_, ?_⟩, ?_⟩, ⟨?_, ?_⟩, ?_⟩ <;> split <;> simp

/-- A step posts `connectEstablished`, calls it, or is another step of the connection. -/
theorem step_cases {op : AcceptedOp} (hs : s.Calls) (h : s.step op = some s') :
    (s'.conn = s.conn ∧ s'.calls = s.calls ∧ op ≠ .connectEstablished) ∨
      (op = .connectEstablished ∧ s.conn.step .connectEstablished = some s'.conn ∧
        s'.calls = s.calls) ∨
      ∃ o, o ≠ .connectEstablished ∧ s.conn.step o = some s'.conn ∧ s'.calls ⊆ s.calls ∧
        op ≠ .connectEstablished ∧ (o = .poll ↔ op = .conn .poll) := by
  cases op with
  | newConnection =>
    simp only [step] at h
    split at h
    · rename_i call calls hcalls
      obtain ⟨conn, hconn, rfl⟩ := Option.map_eq_some_iff.mp h
      have hmem : call ∈ s.calls := hcalls ▸ List.mem_cons_self
      refine .inr (.inr ⟨call, ?_, hconn, ?_, by simp, ?_⟩)
      · rintro rfl
        exact hs.1 hmem
      · rw [hcalls]
        exact List.subset_cons_self _ _
      · refine ⟨?_, nofun⟩
        rintro rfl
        exact absurd hmem hs.2
    · obtain ⟨-, ⟨⟩⟩ := Option.ite_none_right_eq_some.mp h
      exact .inl ⟨rfl, rfl, by simp⟩
  | connectEstablished =>
    simp only [step] at h
    split at h
    · obtain ⟨conn, hconn, rfl⟩ := Option.map_eq_some_iff.mp h
      exact .inr (.inl ⟨rfl, hconn, rfl⟩)
    · cases h
  | conn o =>
    obtain ⟨hallows, h⟩ := Option.ite_none_right_eq_some.mp h
    obtain ⟨conn, hconn, rfl⟩ := Option.map_eq_some_iff.mp h
    refine .inr (.inr ⟨o, ?_, hconn, List.Subset.refl _, by simp, by simp⟩)
    rintro rfl
    simp [Establishing.allows] at hallows

/-- What holds in every state. -/
structure Valid (s : AcceptedConnection) : Prop where
  sound : s.conn.Sound
  calls : s.Calls

theorem initial_valid {loop : TimerLoop} (hloop : loop.Reached) (c : TimeoutSettings) :
    (initial loop c).Valid :=
  ⟨TimedConnection.initial_sound hloop, initial_calls loop c⟩

theorem Valid.step {op : AcceptedOp} (hs : s.Valid) (h : s.step op = some s') : s'.Valid := by
  rcases step_cases hs.calls h with ⟨hconn, hcalls, -⟩ | ⟨-, hconn, hcalls⟩ |
    ⟨o, -, hconn, hcalls, -⟩
  · exact ⟨hconn ▸ hs.sound, by rw [Calls, hcalls]; exact hs.calls⟩
  · exact ⟨(TimedConnection.step_changes hs.sound hconn).sound hs.sound,
      by rw [Calls, hcalls]; exact hs.calls⟩
  · exact ⟨(TimedConnection.step_changes hs.sound hconn).sound hs.sound,
      fun hmem => hs.calls.1 (hcalls hmem), fun hmem => hs.calls.2 (hcalls hmem)⟩

theorem firings_step {op : AcceptedOp} (hs : s.Valid) (h : s.step op = some s') :
    s.conn.firings ⊆ s'.conn.firings := by
  rcases step_cases hs.calls h with ⟨hconn, -⟩ | ⟨-, hconn, -⟩ | ⟨o, -, hconn, -⟩
  · rw [hconn]
    exact List.Subset.refl _
  all_goals
    rw [(TimedConnection.step_frame hs.sound hconn).firings]
    exact List.subset_append_left _ _

/-- The loop stays in `doPendingFunctors` until it polls. -/
theorem functors_step {op : AcceptedOp} (hs : s.Valid) (h : s.step op = some s') {n : Nat}
    (hphase : s.conn.phase = .functors n) (hop : op ≠ .conn .poll) :
    ∃ m, s'.conn.phase = .functors m := by
  rcases step_cases hs.calls h with ⟨hconn, -⟩ | ⟨-, hconn, -⟩ |
    ⟨o, -, hconn, -, -, hpoll⟩
  · exact ⟨n, hconn ▸ hphase⟩
  · exact ⟨n, (TimedConnection.step_frame hs.sound hconn).phase.trans hphase⟩
  · have hafter := (TimedConnection.step_frame hs.sound hconn).phase
    cases o with
    | poll => exact absurd (hpoll.mp rfl) hop
    | dispatch =>
      obtain ⟨hpoll, -⟩ := Option.ite_none_right_eq_some.mp hconn
      cases hphase.symm.trans hpoll
    | doPendingFunctors => exact ⟨_, hafter⟩
    | functor a =>
      simp only [TimedConnection.phaseAfter, hphase] at hafter
      cases n with
      | zero => exact ⟨0, hafter⟩
      | succ n => exact ⟨n, hafter⟩
    | timer | connectEstablished | message | messageEnd | handleClose | setConnectionTimeout
    | setIdleTimeout | enableKeepAlive | forceClose | shutdown | connectDestroyed | postShutdown
    | postForceClose | postSetConnectionTimeout | postSetIdleTimeout | postEnableKeepAlive =>
      exact ⟨n, hafter.trans hphase⟩

/-! ## Timeouts that are lost -/

/-- Once `onConnectionTimeout` or `onIdleTimeout` has been executed, the connection is not in
state `kConnected`. -/
def TimeoutKept (s : AcceptedConnection) : Prop :=
  ∀ f ∈ s.conn.firings, f.kind.closes = true → s.conn.state ≠ .kConnected

/-- `connectEstablished` is called before any timeout. -/
def EstablishedFirst (s : AcceptedConnection) : AcceptedOp → Prop
  | .connectEstablished => ∀ f ∈ s.conn.firings, f.kind.closes = false
  | _ => True

instance (s : AcceptedConnection) : ∀ op, Decidable (s.EstablishedFirst op)
  | .connectEstablished => inferInstanceAs (Decidable (∀ f ∈ _, _ = _))
  | .newConnection | .conn _ => inferInstanceAs (Decidable True)

theorem TimeoutKept.step {op : AcceptedOp} (hkept : s.TimeoutKept) (hs : s.Valid)
    (hfirst : s.EstablishedFirst op) (h : s.step op = some s') : s'.TimeoutKept := by
  intro f hf hcloses hstate
  rcases step_cases hs.calls h with ⟨hconn, -⟩ | ⟨rfl, hconn, -⟩ | ⟨o, ho, hconn, -⟩
  · rw [hconn] at hf hstate
    exact hkept f hf hcloses hstate
  · have hframe := (TimedConnection.step_frame hs.sound hconn).firings
    rw [hframe] at hf
    have hold : f ∈ s.conn.firings := by simpa [TimedConnection.fires] using hf
    have hnot := hfirst f hold
    rw [hcloses] at hnot
    cases hnot
  · -- the connection was connected before, and is not if a timeout is called now
    obtain ⟨hup, hsilent⟩ := TimedConnection.connected_of_step hs.sound ho hconn hstate
    rw [(TimedConnection.step_frame hs.sound hconn).firings] at hf
    rcases List.mem_append.mp hf with hf | hf
    · exact hkept f hf hcloses hup
    · have hnot := hsilent f hf
      rw [hcloses] at hnot
      cases hnot

theorem TimeoutKept.first {op : AcceptedOp} (hs : s.Valid) (h : s.step op = some s')
    (hkept : s'.TimeoutKept) : s.EstablishedFirst op := by
  cases op with
  | connectEstablished =>
    rcases step_cases hs.calls h with ⟨-, -, hop⟩ | ⟨-, hconn, -⟩ | ⟨o, -, -, -, hop, -⟩
    · exact absurd rfl hop
    · intro f hf
      have hfirings := (TimedConnection.step_frame hs.sound hconn).firings
      have hstate : s'.conn.state = .kConnected := by
        obtain ⟨-, heq⟩ := Option.ite_none_right_eq_some.mp hconn
        rw [← Option.some.inj heq]
      by_contra hcloses
      refine hkept f ?_ (by simpa using hcloses) hstate
      rw [hfirings]
      exact List.mem_append_left _ hf
    · exact absurd rfl hop
  | newConnection | conn => trivial

/-- A timeout has been executed. -/
def TimedOut (s : AcceptedConnection) : Prop := ∃ f ∈ s.conn.firings, f.kind.closes = true

theorem timedOut_of_not_first {op : AcceptedOp} (h : ¬ s.EstablishedFirst op) :
    op = .connectEstablished ∧ s.TimedOut := by
  cases op with
  | connectEstablished =>
    simp only [EstablishedFirst, not_forall, Bool.not_eq_false] at h
    obtain ⟨f, hf, hcloses⟩ := h
    exact ⟨rfl, f, hf, hcloses⟩
  | newConnection | conn => exact absurd trivial h

/-- When the loop polls, a connection whose timeout has been executed is not in state
`kConnected`. -/
def KeptAtPoll (s : AcceptedConnection) : Prop := s.conn.phase = .poll → s.TimeoutKept

/-- The step does not begin the next iteration with a timeout that has been lost. -/
def PollsKept (s : AcceptedConnection) (op : AcceptedOp) : Prop :=
  op = .conn .poll → s.TimeoutKept

/-- If `connectEstablished` is called after a timeout has been executed, the connection leaves
`kConnected` before the loop polls again. -/
def LeftBeforePoll (s₀ : AcceptedConnection) (ops : List AcceptedOp) : Prop :=
  ∀ pre mid post t u, ops = pre ++ .connectEstablished :: (mid ++ .conn .poll :: post) →
    Machine.run step s₀ pre = some t → t.TimedOut →
    Machine.run step t (.connectEstablished :: mid) = some u → u.conn.state ≠ .kConnected

/-- The timeout is kept, unless the loop is in the call of `doPendingFunctors` that has called
`connectEstablished`. -/
theorem keptAtPoll_iff_pollsKept {ops : List AcceptedOp} (hs : s.Valid) (hkept : s.TimeoutKept)
    (hrun : Machine.run step s ops = some s') :
    Machine.Throughout step KeptAtPoll s ops ↔ Machine.Along step PollsKept s ops := by
  refine Machine.throughout_iff_along (I := Valid)
    (Q := fun s => s.TimeoutKept ∨ ∃ n, s.conn.phase = .functors n) ?_ ?_ ?_ ?_ hrun hs
    (.inl hkept)
  · exact fun op _ s s' hs h => hs.step h
  · rintro op - s s' hs hor hpoll h
    by_cases hop : op = .conn .poll
    · subst hop
      have hfirst : s.EstablishedFirst (.conn .poll) := trivial
      exact .inl ((hpoll rfl).step hs hfirst h)
    · rcases hor with hkept | ⟨n, hphase⟩
      · by_cases hfirst : s.EstablishedFirst op
        · exact .inl (hkept.step hs hfirst h)
        · obtain ⟨rfl, -⟩ := timedOut_of_not_first hfirst
          have hphase : ∃ n, s.conn.phase = .functors n := by
            simp only [step] at h
            split at h
            · rename_i n _ hphase
              exact ⟨_, hphase⟩
            · cases h
          obtain ⟨n, hphase⟩ := hphase
          exact .inr (functors_step hs h hphase nofun)
      · exact .inr (functors_step hs h hphase hop)
  · rintro op - s s' hs - h hkept rfl
    obtain ⟨-, h⟩ := Option.ite_none_right_eq_some.mp h
    obtain ⟨conn, hconn, rfl⟩ := Option.map_eq_some_iff.mp h
    obtain ⟨-, ⟨⟩⟩ := Option.ite_none_right_eq_some.mp hconn
    exact hkept rfl
  · rintro s (hkept | ⟨n, hphase⟩) hpoll
    · exact hkept
    · cases hphase.symm.trans hpoll

/-- A timeout is lost by a call of `connectEstablished`. -/
theorem pollsKept_iff_left {ops : List AcceptedOp} (hs : s.Valid) (hkept : s.TimeoutKept)
    (hrun : Machine.run step s ops = some s') :
    Machine.Along step PollsKept s ops ↔ LeftBeforePoll s ops := by
  have hvalid : ∀ {pre : List AcceptedOp} {t : AcceptedConnection},
      Machine.run step s pre = some t → t.Valid :=
    fun ht => Machine.run_invariant (fun _ _ _ hs h => hs.step h) ht hs
  constructor
  · rintro halong pre mid post t u rfl ht ⟨f, hf, hcloses⟩ hu
    have hpre : Machine.run step s (pre ++ .connectEstablished :: mid) = some u :=
      Machine.run_append_eq_some.mpr ⟨t, ht, hu⟩
    rw [← List.cons_append, ← List.append_assoc, Machine.along_append hpre] at halong
    have hmem : f ∈ u.conn.firings :=
      (Machine.run_invariant (P := fun s => s.Valid ∧ f ∈ s.conn.firings)
        (fun _ _ _ hs h => ⟨hs.1.step h, firings_step hs.1 h hs.2⟩) hu ⟨hvalid ht, hf⟩).2
    exact halong.2.1 rfl f hmem hcloses
  · intro hleft
    by_contra halong
    obtain ⟨pre, op, post, t, u, rfl, ht, -, hnot, -⟩ :=
      Machine.exists_first_violation hrun halong
    obtain ⟨rfl, hlost⟩ : op = .conn .poll ∧ ¬ t.TimeoutKept := Classical.not_imp.mp hnot
    -- the step by which the timeout was lost
    obtain ⟨pre', op, mid, v, w, rfl, hv, hkept, hw, hlost', hmid⟩ :=
      Machine.exists_gaining_step (P := fun s => ¬ s.TimeoutKept) ht (not_not.mpr hkept) hlost
    have hfirst : ¬ v.EstablishedFirst op :=
      fun hfirst => hlost' ((not_not.mp hkept).step (hvalid hv) hfirst hw)
    obtain ⟨rfl, hout⟩ := timedOut_of_not_first hfirst
    refine hlost fun f _ _ => ?_
    refine hleft pre' mid post v t ?_ hv hout (Machine.run_cons_eq_some.mpr ⟨w, hw, hmid⟩)
    rw [List.append_assoc, List.cons_append]

/-- **When no timeout is lost.**  Let the base loop and the I/O loop take their steps in any
order.  A connection one of whose timeouts has been executed is not in state `kConnected` when
the loop polls after it, exactly when every `connectEstablished` that is called after a timeout
has been executed is undone before the loop polls.  It is not in state `kConnected` at any
time after it, exactly when `connectEstablished` is not called after a timeout at all. -/
theorem timeout_kept_iff {loop : TimerLoop} (hloop : loop.Reached) (c : TimeoutSettings)
    {ops : List AcceptedOp} (hrun : Machine.run step (initial loop c) ops = some s) :
    (Machine.Throughout step KeptAtPoll (initial loop c) ops ↔
      LeftBeforePoll (initial loop c) ops) ∧
    (Machine.Throughout step TimeoutKept (initial loop c) ops ↔
      Machine.Along step EstablishedFirst (initial loop c) ops) := by
  have hkept : (initial loop c).TimeoutKept := by
    simp [initial, TimeoutKept, TimedConnection.initial]
  have hvalid := initial_valid hloop c
  refine ⟨(keptAtPoll_iff_pollsKept hvalid hkept hrun).trans
    (pollsKept_iff_left hvalid hkept hrun), ?_⟩
  refine Machine.throughout_iff_along (I := Valid) (Q := TimeoutKept) ?_ ?_ ?_ ?_ hrun hvalid hkept
  · exact fun op _ s s' hs h => hs.step h
  · exact fun op _ s s' hs hkept hfirst h => hkept.step hs hfirst h
  · exact fun op _ s s' hs _ h hkept => hkept.first hs h
  · exact fun s hkept => hkept

/-- A server with a connection timeout and heartbeats. -/
def timeoutAndHeartbeats : TimeoutSettings := ⟨.ofMicros 5, .zero, true, .ofMicros 30000000⟩

/-- The functors of `newConnection` run in one iteration, and the timeout later. -/
def establishedInTime : List AcceptedOp :=
  [.newConnection, .newConnection, .newConnection, .conn .doPendingFunctors, .conn (.functor 1),
    .conn (.functor 2), .connectEstablished, .conn .poll, .conn (.timer (.advance 6 6)),
    .conn .dispatch, .conn (.timer .handleRead), .conn (.timer .runNext),
    .conn (.timer .handleReadEnd), .conn .doPendingFunctors, .conn .poll]

theorem timeout_kept_establishedInTime :
    ∃ s, Machine.run step (initial (.initial ⟨10, 0⟩) timeoutAndHeartbeats) establishedInTime =
        some s ∧
      s.conn.firings = [⟨⟨1, 0⟩, .connectionTimeout, false⟩] ∧
      s.conn.state = .kDisconnected ∧
      Machine.Throughout step TimeoutKept (initial (.initial ⟨10, 0⟩) timeoutAndHeartbeats)
        establishedInTime := by
  obtain ⟨s, hs⟩ : ∃ s, Machine.run step (initial (.initial ⟨10, 0⟩) timeoutAndHeartbeats)
      establishedInTime = some s := ⟨_, rfl⟩
  have h := (timeout_kept_iff (TimerLoop.initial_reached _) timeoutAndHeartbeats hs).2.mpr
    (by decide +kernel)
  obtain rfl := Option.some.inj hs
  exact ⟨_, rfl, rfl, rfl, h⟩

/-- The I/O loop arms the connection timeout and executes it while the base loop is still in
`newConnection`.  `forceClose` does nothing; the connection is established afterwards, and
the next iteration finds it connected, with no connection timeout left. -/
theorem timeout_lost :
    ∃ s, Machine.run step (initial (.initial ⟨10, 0⟩) ⟨.ofMicros 5, .zero, false, .zero⟩)
        [.newConnection, .conn .doPendingFunctors, .conn (.functor 1), .conn .poll,
          .conn (.timer (.advance 6 6)), .conn .dispatch, .conn (.timer .handleRead),
          .conn (.timer .runNext), .conn (.timer .handleReadEnd), .newConnection,
          .conn .doPendingFunctors, .connectEstablished, .conn .poll] = some s ∧
      s.conn.phase = .poll ∧ s.conn.firings = [⟨⟨1, 0⟩, .connectionTimeout, false⟩] ∧
      s.conn.state = .kConnected ∧ s.conn.loop.queue.activeTimers.elems = [] :=
  ⟨_, rfl, rfl, rfl, rfl, rfl⟩

end AcceptedConnection
end ReMuduo
