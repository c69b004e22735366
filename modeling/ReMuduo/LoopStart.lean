import Mathlib.Logic.Function.Basic
import ReMuduo.BackPressure
import ReMuduo.EventLoop

/-! # Functors queued before the loop runs

User code on the loop thread may queue functors before `loop()` is entered and from
`loopStartedCallback_`, directly or by a `TcpConnection::send` whose data the kernel takes at
once.  `queueInLoop` wakes the loop only for another thread or while
`callingPendingFunctors_` is set, and neither is the case here: until `poll` returns for the
first time, the eventfd counts the wake-ups of the other threads and nothing else
(`first_poll_woken_iff`).

The loop is the machine of `EventLoop`, together with the connections that live on it. -/
namespace ReMuduo

/-- A functor of user code, or one that a connection queues. -/
inductive StartFunctor (κ φ : Type) where
  | user (f : φ)
  | connection (k : κ) (f : UserFunctor)
deriving DecidableEq

/-- An event loop and the connections that live on it. -/
structure LoopStart (τ κ φ : Type) where
  loop : EventLoop τ (StartFunctor κ φ)
  conns : κ → TcpConnection

/-- A step of the loop or of the threads around it, or a `send` on the loop thread, where a
direct `::write` answers with `w`. -/
inductive StartOp (τ κ φ : Type) where
  | loop (op : LoopOp τ (StartFunctor κ φ))
  | send (k : κ) (data : List UInt8) (w : WriteResult)

namespace EventLoop

variable {τ φ : Type} [DecidableEq τ] {s s' : EventLoop τ φ} {op : LoopOp τ φ}

/-- `poll` has not returned yet: no functor has been taken from the queue, and the loop thread
is not in `doPendingFunctors`. -/
structure Unpolled (s : EventLoop τ φ) : Prop where
  pc : s.pc = .outside ∨ s.pc = .starting ∨ s.pc = .testing ∨ s.pc = .polling
  calling : s.callingPendingFunctors = false
  queue : s.pendingFunctors = s.pushed

omit [DecidableEq τ] in
theorem initial_unpolled : (initial : EventLoop τ φ).Unpolled := ⟨.inl rfl, rfl, rfl⟩

omit [DecidableEq τ] in
theorem Unpolled.pushFunctor (hs : s.Unpolled) (f : φ) : (s.pushFunctor f).Unpolled :=
  ⟨hs.pc, hs.calling, congrArg (· ++ [f]) hs.queue⟩

/-- Until `poll` returns, a step wakes the loop only if it is the `wakeup` of another thread. -/
theorem step_unpolled (hs : s.Unpolled) (hop : op ≠ .pollReturns) (h : s.step op = some s') :
    s'.Unpolled ∧ (0 < s'.eventfd ↔ 0 < s.eventfd ∨ ∃ t, op = .wakeup t) := by
  have hpcs := hs.pc
  cases step_cases h with
  | loop | loopStarted | quits | polls =>
    exact ⟨⟨by simp, hs.calling, hs.queue⟩, by simp⟩
  | pollReturns => exact absurd rfl hop
  | handleRead hpc | doPendingFunctors hpc | swap hpc | startFunctor hpc | functorThrows hpc
  | functorsDone hpc => simp [hpc] at hpcs
  | queueInLoop =>
    rw [hs.calling]
    exact ⟨hs.pushFunctor _, by simp [EventLoop.pushFunctor]⟩
  | quitInLoop => exact ⟨⟨hs.pc, hs.calling, hs.queue⟩, by simp⟩
  | push =>
    have hpush := hs.pushFunctor
    exact ⟨⟨hs.pc, hs.calling, (hpush _).queue⟩, by simp [EventLoop.pushFunctor, setForeign]⟩
  | storeQuit => exact ⟨⟨hs.pc, hs.calling, hs.queue⟩, by simp [setForeign]⟩
  | wakeup =>
    exact ⟨⟨hs.pc, hs.calling, hs.queue⟩, by simp [EventLoop.wakeup, setForeign]⟩

end EventLoop

namespace LoopStart

variable {τ κ φ : Type} [DecidableEq τ] [DecidableEq κ] {s s' : LoopStart τ κ φ}
  {op : StartOp τ κ φ} {ops : List (StartOp τ κ φ)}

/-- A loop that has just been constructed. -/
def initial (conns : κ → TcpConnection) : LoopStart τ κ φ := ⟨EventLoop.initial, conns⟩

/-- The calls of `queueInLoop` that a `send` makes. -/
def queueInLoops (k : κ) (effects : List Effect) : List (LoopOp τ (StartFunctor κ φ)) :=
  (queued effects).map fun f => .queueInLoop (.connection k f)

def step (s : LoopStart τ κ φ) : StartOp τ κ φ → Option (LoopStart τ κ φ)
  | .loop op => (s.loop.step op).map fun loop => { s with loop := loop }
  | .send k data w =>
    if s.loop.pc.userCode then
      let r := (s.conns k).send data w
      (Machine.run EventLoop.step s.loop (queueInLoops k r.2)).map fun loop =>
        { loop := loop, conns := Function.update s.conns k r.1 }
    else none

omit [DecidableEq κ] in
/-- The functors of a `send` are queued without a wake-up. -/
theorem run_queueInLoops {loop loop' : EventLoop τ (StartFunctor κ φ)} {k : κ}
    {effects : List Effect} (hs : loop.Unpolled)
    (h : Machine.run EventLoop.step loop (queueInLoops k effects) = some loop') :
    loop'.Unpolled ∧ (0 < loop'.eventfd ↔ 0 < loop.eventfd) := by
  refine Machine.run_invariant_mem
    (P := fun l => l.Unpolled ∧ (0 < l.eventfd ↔ 0 < loop.eventfd)) ?_ h ⟨hs, Iff.rfl⟩
  rintro op hop l l' ⟨hl, hwoken⟩ hstep
  obtain ⟨f, -, rfl⟩ := List.mem_map.mp hop
  have hne : LoopOp.queueInLoop (.connection k f) ≠
      (.pollReturns : LoopOp τ (StartFunctor κ φ)) := by simp
  obtain ⟨hl', hwoken'⟩ := EventLoop.step_unpolled hl hne hstep
  refine ⟨hl', hwoken'.trans ?_⟩
  simpa using hwoken

theorem step_unpolled (hs : s.loop.Unpolled) (hop : op ≠ .loop .pollReturns)
    (h : s.step op = some s') :
    s'.loop.Unpolled ∧
      (0 < s'.loop.eventfd ↔ 0 < s.loop.eventfd ∨ ∃ t, op = .loop (.wakeup t)) := by
  cases op with
  | loop op =>
    obtain ⟨loop, hloop, rfl⟩ := Option.map_eq_some_iff.mp h
    have hop' : op ≠ .pollReturns := fun heq => hop (heq ▸ rfl)
    simpa using EventLoop.step_unpolled hs hop' hloop
  | send k data w =>
    obtain ⟨-, h⟩ := Option.ite_none_right_eq_some.mp h
    obtain ⟨loop, hloop, rfl⟩ := Option.map_eq_some_iff.mp h
    simpa using run_queueInLoops hs hloop

theorem run_unpolled (hs : s.loop.Unpolled) (hops : ∀ op ∈ ops, op ≠ .loop .pollReturns)
    (hrun : Machine.run step s ops = some s') :
    s'.loop.Unpolled ∧
      (0 < s'.loop.eventfd ↔ 0 < s.loop.eventfd ∨ ∃ t, .loop (.wakeup t) ∈ ops) := by
  induction ops generalizing s with
  | nil =>
    rw [← Option.some.inj hrun]
    exact ⟨hs, by simp⟩
  | cons op ops ih =>
    obtain ⟨t, ht, hrest⟩ := Machine.run_cons_eq_some.mp hrun
    obtain ⟨htunpolled, hwoken⟩ := step_unpolled hs (hops op List.mem_cons_self) ht
    obtain ⟨hs', hwoken'⟩ :=
      ih htunpolled (fun op hop => hops op (List.mem_cons_of_mem _ hop)) hrest
    refine ⟨hs', ?_⟩
    rw [hwoken', hwoken, or_assoc, ← exists_or]
    simp only [List.mem_cons, eq_comm]

/-- **What wakes the first `poll`.**  Until `poll` returns for the first time, and in
particular when the loop thread first blocks in it, a functor in the queue comes with a
readable eventfd exactly when there is none, or another thread has made a wake-up. -/
theorem first_poll_woken_iff {conns : κ → TcpConnection}
    (hrun : Machine.run step (initial conns : LoopStart τ κ φ) ops = some s)
    (hfirst : ∀ op ∈ ops, op ≠ .loop .pollReturns) :
    (s.loop.pendingFunctors ≠ [] → 0 < s.loop.eventfd) ↔
      s.loop.pushed = [] ∨ ∃ t, .loop (.wakeup t) ∈ ops := by
  obtain ⟨hs, hwoken⟩ := run_unpolled EventLoop.initial_unpolled hfirst hrun
  have hwoken : 0 < s.loop.eventfd ↔ ∃ t, .loop (.wakeup t) ∈ ops := by
    simpa [initial, EventLoop.initial] using hwoken
  rw [hs.queue, hwoken]
  exact imp_iff_not_or.trans (or_congr_left not_not)

/-- A connection that is established and has a write-complete callback. -/
def established : TcpConnection := (TcpConnection.initial true false 0).connectEstablished.1

/-- `loopStartedCallback_` sends a byte, and another thread queues a functor before `poll`. -/
def sendAndPush : List (StartOp Unit Unit Nat) :=
  [.loop .loop, .send () [1] ⟨some 1, 0⟩, .loop (.push () (.user 7)), .loop (.wakeup ()),
    .loop .loopStarted, .loop .testQuit]

theorem sendAndPush_woken :
    ∃ s, Machine.run step (initial fun _ => established) sendAndPush = some s ∧
      s.loop.pc = .polling ∧ (s.loop.pendingFunctors ≠ [] → 0 < s.loop.eventfd) := by
  have hrun : ∃ s, Machine.run step (initial fun _ => established) sendAndPush = some s ∧
      s.loop.pc = .polling := ⟨_, rfl, rfl⟩
  obtain ⟨s, hrun, hpc⟩ := hrun
  have hfirst : ∀ op ∈ sendAndPush, op ≠ .loop .pollReturns := by simp [sendAndPush]
  exact ⟨s, hrun, hpc, (first_poll_woken_iff hrun hfirst).mpr (.inr ⟨(), by simp [sendAndPush]⟩)⟩

/-- A functor that is queued before `loop()`, and the write-complete callback of a `send` from
`loopStartedCallback_`, are in the queue when the loop blocks in `poll`, and nothing wakes
it. -/
theorem queued_before_loop_not_woken :
    ∃ s, Machine.run step (initial fun _ => established : LoopStart Unit Unit Nat)
        [.loop (.queueInLoop (.user 7)), .loop .loop, .send () [1] ⟨some 1, 0⟩,
          .loop .loopStarted, .loop .testQuit] = some s ∧
      s.loop.pc = .polling ∧ s.loop.quit = false ∧ s.loop.eventfd = 0 ∧
      s.loop.pendingFunctors = [.user 7, .connection () .writeComplete] :=
  ⟨_, rfl, rfl, rfl, rfl, rfl⟩

end LoopStart
end ReMuduo
