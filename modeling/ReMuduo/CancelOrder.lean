import ReMuduo.TimerThreads

/-! # Cancellations that overtake additions

`cancelInLoop` drops an id it does not find.  So a cancellation is effective only if it is
executed after the `addTimerInLoop` of its timer.  What the other threads queue is executed
in the order in which it was queued, and an id is known only after its timer has been queued;
but the loop thread does not queue.  For the timer in question the runs are therefore taken in
which the loop thread does not cancel it while its `addTimerInLoop` is still queued, and no
other call of `addTimer` returns its id. -/
namespace ReMuduo

namespace TimerLoop

variable {s s' : TimerLoop} {op : TimerOp} {id : TimerId}

/-- If the timer has been cancelled, it is not waiting for its `addTimerInLoop`, and it was not
added after it had been cancelled. -/
structure Ordered (id : TimerId) (s : TimerLoop) : Prop where
  settled : .cancelled id ∈ s.history → s.Given id ∧ ¬ s.Unadded id
  order : ∀ when interval pre post, s.history = pre ++ .added id when interval :: post →
    .cancelled id ∉ pre

theorem initial_ordered (clock : Clock) (id : TimerId) : (initial clock).Ordered id :=
  ⟨by simp [initial], by simp [initial]⟩

/-- A step keeps the order, if it does not cancel the timer before it has been added. -/
theorem Ordered.step (hs : s.Valid) (ho : s.Ordered id) (h : s.step op = some s')
    (hcancel : op = .cancelInLoop id → s.Given id ∧ ¬ s.Unadded id) : s'.Ordered id := by
  have hkeep : s.Given id ∧ ¬ s.Unadded id → s'.Given id ∧ ¬ s'.Unadded id :=
    fun hid => ⟨hid.1.step hs h, fun hu => hid.2 (unadded_of_step hs hid.1 h hu)⟩
  have hsame : s'.history = s.history → s'.Ordered id := by
    intro hhist
    refine ⟨fun hid => hkeep (ho.settled (hhist ▸ hid)), ?_⟩
    rw [hhist]
    exact ho.order
  -- an event that is no addition of a cancelled timer, and no cancellation of a waiting one
  have hevent : ∀ e, s'.history = s.history ++ [e] →
      (e = .cancelled id → s.Given id ∧ ¬ s.Unadded id) →
      (∀ when interval, e = .added id when interval → s.Unadded id) → s'.Ordered id := by
    intro e hhist hcancelled hadded
    refine ⟨?_, ?_⟩
    · intro hid
      rw [hhist] at hid
      rcases List.mem_append.mp hid with hid | hid
      · exact hkeep (ho.settled hid)
      · exact hkeep (hcancelled (List.mem_singleton.mp hid).symm)
    · intro when interval pre post heq hmem
      rw [hhist] at heq
      rcases Machine.concat_eq_append_cons.mp heq with ⟨-, rfl, he⟩ | ⟨post', -, heq⟩
      · exact (ho.settled hmem).2 (hadded when interval he)
      · exact ho.order when interval pre post' heq hmem
  cases op with
  | advance wall mono =>
    obtain ⟨-, rfl⟩ := step_advance h
    exact hsame rfl
  | newTimer a when interval =>
    obtain ⟨-, -, -, rfl⟩ := step_newTimer h
    exact hsame rfl
  | addTimerInLoop a =>
    obtain ⟨ha, t, ht, rfl⟩ := step_addTimerInLoop h
    refine hevent _ rfl (by simp) fun when interval heq => ?_
    cases heq
    exact ⟨ha, t, ht, rfl⟩
  | cancelInLoop i =>
    obtain rfl := step_cancelInLoop h
    refine hevent _ rfl (fun heq => ?_) (by simp)
    cases heq
    exact hcancel rfl
  | handleRead =>
    obtain ⟨-, rfl⟩ := step_handleRead h
    exact hevent _ rfl (by simp) (by simp)
  | runNext =>
    obtain ⟨now, expired, it, todo, -, ⟨-, rfl⟩ | ⟨t, -, rfl⟩⟩ := step_runNext h
    · exact hsame rfl
    · exact hevent _ rfl (by simp) (by simp)
  | throws =>
    obtain rfl := step_throws h
    exact hsame rfl
  | handleReadEnd =>
    obtain ⟨now, expired, -, rfl⟩ := step_handleReadEnd h
    exact hevent _ rfl (by simp) (by simp)

/-- In such an order, a timer that has been added and cancelled is not executed by a
`handleRead` that begins later. -/
theorem Ordered.not_executed (hs : s.Reached) (ho : s.Ordered id) {pre post : List TimerEvent}
    {now : Int} (hhist : s.history = pre ++ .begun now :: post)
    (hadded : ∃ when interval, .added id when interval ∈ pre) (hcancelled : .cancelled id ∈ pre) :
    post.countP (·.executes id) = 0 := by
  obtain ⟨when, interval, hadded⟩ := hadded
  obtain ⟨p, q, rfl⟩ := List.append_of_mem hadded
  have hnot : .cancelled id ∉ p := by
    refine ho.order when interval p (q ++ .begun now :: post) ?_
    rw [hhist, List.append_assoc]
    rfl
  have hlater : .cancelled id ∈ q := by
    simpa [hnot] using hcancelled
  obtain ⟨mid, wait, rfl⟩ := List.append_of_mem hlater
  obtain ⟨l, hl, -⟩ := hs.life id
  rw [LifeIs, hhist] at hl
  have hacc : Machine.run (Life.step id) .fresh (p ++ .added id when interval ::
      (mid ++ .cancelled id :: (wait ++ .begun now :: post))) = some l := by
    simpa using hl
  exact Life.not_executed_after_cancel hacc

end TimerLoop

namespace TimerThreads

variable {s s' : TimerThreads} {id : TimerId}

/-- No other call returns the id, and the loop thread does not cancel the timer while its
`addTimerInLoop` is queued. -/
def KeepsOrder (id : TimerId) (s : TimerThreads) : ThreadOp → Prop
  | .readSequence call garbage => s.readId call garbage = id → call = id
  | .loop (.cancel i) =>
    i = id → (s.loop.queue.heap id.timer).map Timer.sequence = some id.sequence →
      .addTimerInLoop id.timer ∉ s.pendingFunctors
  | _ => True

instance (id : TimerId) (s : TimerThreads) : ∀ op, Decidable (s.KeepsOrder id op)
  | .readSequence .. => inferInstanceAs (Decidable (_ = _ → _ = _))
  | .loop (.cancel _) => inferInstanceAs (Decidable (_ → _ → ¬ _))
  | .loop (.advance ..) | .loop (.addTimer ..) | .loop .handleReadEnd | .loop .handleRead
  | .loop .runNext | .loop .throws | .newTimer .. | .queueTimer _ | .cancel _
  | .runFunctor => inferInstanceAs (Decidable True)

theorem KeepsOrder.returnsOwn {op : ThreadOp} (h : s.KeepsOrder id op) : s.ReturnsOwn id op := by
  cases op with
  | readSequence call garbage => exact h
  | newTimer | queueTimer | cancel | runFunctor | loop => trivial

/-- In the queue of the loop, no cancellation of the timer stands before its addition. -/
def InTurn (id : TimerId) (s : TimerThreads) : Prop :=
  ∀ f g, s.pendingFunctors = f ++ .cancelInLoop id :: g → s.loop.Unadded id →
    .addTimerInLoop id.timer ∉ g

/-- A timer whose id is known waits for its `addTimerInLoop` in the queue, if it waits. -/
theorem Returned.queued (hr : s.Returned id) (hs : s.Accounts) (hhas : s.Has id)
    (hu : s.loop.Unadded id) : .addTimerInLoop id.timer ∈ s.pendingFunctors := by
  obtain ⟨t, ht⟩ := hu.2
  have hnot := hr.not_mem_names hs.reached.valid ht hhas
  exact hs.queued_of_unadded (fun hmem => hnot (List.mem_append_left _ hmem)) hu

/-- If the turn of its cancellation has come, the timer has been added. -/
theorem InTurn.added (hturn : s.InTurn id) (hs : s.Accounts) (hr : s.Returned id)
    {functors : List TimerFunctor} (hf : s.pendingFunctors = .cancelInLoop id :: functors) :
    s.loop.Given id ∧ ¬ s.loop.Unadded id := by
  have hhas := hr.cancels (hf ▸ List.mem_cons_self)
  refine ⟨hr.given_of_has hhas, fun hu => hturn [] functors hf hu ?_⟩
  have hmem := hr.queued hs hhas hu
  rw [hf] at hmem
  simpa using hmem

/-- What the loop does keeps the queue in turn. -/
theorem InTurn.unadded (hturn : s.InTurn id) {loop : TimerLoop}
    (hloop : .cancelInLoop id ∈ s.pendingFunctors → loop.Unadded id → s.loop.Unadded id)
    {f g : List TimerFunctor} (hf : s.pendingFunctors = f ++ .cancelInLoop id :: g)
    (hu : loop.Unadded id) : .addTimerInLoop id.timer ∉ g := by
  refine hturn f g hf (hloop ?_ hu)
  rw [hf]
  exact List.mem_append_right _ List.mem_cons_self

theorem InTurn.step (hturn : s.InTurn id) (hs : s.Accounts) (hr : s.Returned id)
    {op : ThreadOp} (h : s.step op = some s') : s'.InTurn id := by
  have hv := hs.reached.valid
  have hgiven : .cancelInLoop id ∈ s.pendingFunctors → s.loop.Given id :=
    fun hid => hr.given_of_has (hr.cancels hid)
  have hone : ∀ {o : TimerOp} {loop : TimerLoop}, s.loop.step o = some loop →
      .cancelInLoop id ∈ s.pendingFunctors → loop.Unadded id → s.loop.Unadded id :=
    fun ho hid hu => TimerLoop.unadded_of_step hv (hgiven hid) ho hu
  cases op with
  | newTimer a when interval =>
    obtain ⟨loop, hloop, rfl⟩ := step_newTimer h
    exact fun f g hf hu => hturn.unadded (hone hloop) hf hu
  | queueTimer call =>
    obtain ⟨hcall, rfl⟩ := step_queueTimer h
    intro f g hf hu hmem
    rcases Machine.concat_eq_append_cons.mp hf with ⟨-, -, heq⟩ | ⟨g', rfl, hbefore⟩
    · cases heq
    · have hid : .cancelInLoop id ∈ s.pendingFunctors := by
        rw [hbefore]
        exact List.mem_append_right _ List.mem_cons_self
      rcases List.mem_append.mp hmem with hmem | hmem
      · exact hturn f g' hbefore hu hmem
      · -- a timer that is queued now has not been returned
        obtain ⟨t, ht⟩ := hu.2
        obtain ⟨u, hu'⟩ := hs.allocated call hcall
        have haddr : id.timer = call.timer := by simpa using hmem
        obtain rfl : u = t := Option.some.inj (hu'.1.symm.trans (haddr ▸ ht.1))
        obtain rfl : call = id := TimerId.ext haddr.symm (hu'.2.symm.trans ht.2)
        exact hr.not_mem_names hv ht (hr.cancels hid) (List.mem_append_left _ hcall)
  | readSequence call garbage =>
    obtain ⟨-, rfl⟩ := step_readSequence h
    exact hturn
  | cancel i =>
    obtain ⟨-, rfl⟩ := step_cancel h
    intro f g hf hu hmem
    rcases Machine.concat_eq_append_cons.mp hf with ⟨rfl, -, -⟩ | ⟨g', rfl, hbefore⟩
    · cases hmem
    · exact hturn f g' hbefore hu (by simpa using hmem)
  | runFunctor =>
    obtain ⟨fn, functors, loop, hfn, hloop, rfl⟩ := step_runFunctor h
    intro f g hf hu
    refine hturn.unadded (hone hloop) (f := fn :: f) ?_ hu
    rw [hfn]
    exact congrArg _ hf
  | loop op =>
    obtain ⟨-, loop, hloop, rfl⟩ := step_loop h
    rcases loop_steps hloop with ⟨a, when, interval, u, rfl, hnew, hadd⟩ | ⟨o, ho, -⟩
    · refine fun f g hf hu => hturn.unadded (fun hid hui => hone hnew hid ?_) hf hu
      exact TimerLoop.unadded_of_step (TimerLoop.step_valid hv hnew)
        ((hgiven hid).step hv hnew) hadd hui
    · exact fun f g hf hu => hturn.unadded (hone ho) hf hu

theorem step_ordered (ho : s.loop.Ordered id) (hs : s.Accounts) (hr : s.Returned id)
    (hturn : s.InTurn id) {op : ThreadOp} (hkeeps : s.KeepsOrder id op)
    (h : s.step op = some s') : s'.loop.Ordered id := by
  have hv := hs.reached.valid
  cases op with
  | newTimer a when interval =>
    obtain ⟨loop, hloop, rfl⟩ := step_newTimer h
    exact ho.step hv hloop (by simp)
  | queueTimer call =>
    obtain ⟨-, rfl⟩ := step_queueTimer h
    exact ho
  | readSequence call garbage =>
    obtain ⟨-, rfl⟩ := step_readSequence h
    exact ho
  | cancel i =>
    obtain ⟨-, rfl⟩ := step_cancel h
    exact ho
  | runFunctor =>
    obtain ⟨f, functors, loop, hf, hloop, rfl⟩ := step_runFunctor h
    refine ho.step hv hloop fun hid => ?_
    cases f with
    | addTimerInLoop a => cases hid
    | cancelInLoop i =>
      cases hid
      exact hturn.added hs hr hf
  | loop op =>
    obtain ⟨hcan, loop, hloop, rfl⟩ := step_loop h
    rcases loop_steps hloop with ⟨a, when, interval, u, rfl, hnew, hadd⟩ |
      ⟨o, ho', -, -, -, hcancel, -⟩
    · exact (ho.step hv hnew (by simp)).step (TimerLoop.step_valid hv hnew) hadd (by simp)
    · refine ho.step hv ho' fun hid => ?_
      obtain rfl := hcancel id hid
      refine ⟨hr.given_of_has hcan, fun hu => ?_⟩
      obtain ⟨t, ht, hseq⟩ := hu.2
      exact hkeeps rfl (by rw [ht, Option.map_some, hseq]) (hr.queued hs hcan hu)

/-- What holds of the timer and its calls, in the runs that keep the order. -/
structure InOrder (id : TimerId) (s : TimerThreads) : Prop where
  accounts : s.Accounts
  returned : s.Returned id
  turn : s.InTurn id
  ordered : s.loop.Ordered id

theorem InOrder.step {op : ThreadOp} (hs : s.InOrder id) (hkeeps : s.KeepsOrder id op)
    (h : s.step op = some s') : s'.InOrder id where
  accounts := step_accounts hs.accounts h
  returned := step_returned hs.returned hs.accounts hkeeps.returnsOwn h
  turn := hs.turn.step hs.accounts hs.returned h
  ordered := step_ordered hs.ordered hs.accounts hs.returned hs.turn hkeeps h

theorem initial_inOrder (clock : Clock) (id : TimerId) : (initial clock).InOrder id where
  accounts := initial_accounts clock
  returned := initial_returned clock id
  turn := by simp [initial, InTurn]
  ordered := TimerLoop.initial_ordered clock id

/-- **A cancellation is effective.**  Let the timers be added and cancelled on any threads,
every id being cancelled only after `addTimer` has returned it.  If no other call returns the
id of this timer, and the loop thread does not cancel the timer while its `addTimerInLoop` is
still queued, then once `addTimerInLoop` and `cancelInLoop` have both been executed for it, it
is not executed by any `handleRead` that begins later. -/
theorem cancel_effective {clock : Clock} {ops : List ThreadOp}
    (hrun : Machine.run step (initial clock) ops = some s) (id : TimerId)
    (hkeeps : Machine.Along step (KeepsOrder id) (initial clock) ops)
    (pre post : List TimerEvent) (now : Int) (hhist : s.loop.history = pre ++ .begun now :: post)
    (hadded : ∃ when interval, .added id when interval ∈ pre) (hcancelled : .cancelled id ∈ pre) :
    post.countP (·.executes id) = 0 := by
  have hinv : s.InOrder id :=
    Machine.run_invariant_along (fun _ _ _ hs hkeeps h => hs.step hkeeps h) hrun hkeeps
      (initial_inOrder clock id)
  exact hinv.ordered.not_executed hinv.accounts.reached hhist hadded hcancelled

/-- A periodic timer is added on another thread, fires, and is cancelled from there. -/
def cancelledFromOutside : List ThreadOp :=
  [.newTimer 1 5 (.ofMicros 3), .queueTimer ⟨1, 0⟩, .readSequence ⟨1, 0⟩ 0, .runFunctor,
    .loop .handleRead, .loop .runNext, .cancel ⟨1, 0⟩, .loop .handleReadEnd, .runFunctor,
    .loop (.advance 10 10), .loop .handleRead, .loop .handleReadEnd]

/-- What happens until the cancellation. -/
def untilCancelled : List TimerEvent :=
  [.added ⟨1, 0⟩ 5 (.ofMicros 3), .begun 10, .executed ⟨1, 0⟩ 10 5, .ended, .cancelled ⟨1, 0⟩]

theorem cancel_effective_cancelledFromOutside :
    ∃ s post, Machine.run step (initial ⟨10, 0⟩) cancelledFromOutside = some s ∧
      s.loop.history = untilCancelled ++ .begun 20 :: post ∧
      post.countP (·.executes ⟨1, 0⟩) = 0 := by
  obtain ⟨s, hs⟩ : ∃ s, Machine.run step (initial ⟨10, 0⟩) cancelledFromOutside = some s :=
    ⟨_, rfl⟩
  have hkeeps : Machine.Along step (KeepsOrder ⟨1, 0⟩) (initial ⟨10, 0⟩) cancelledFromOutside := by
    decide +kernel
  have h := cancel_effective hs ⟨1, 0⟩ hkeeps untilCancelled [.ended] 20
  obtain rfl := Option.some.inj hs
  exact ⟨_, _, hs, rfl, h rfl ⟨5, .ofMicros 3, List.mem_cons_self⟩ (by simp [untilCancelled])⟩

/-- A timer is added on another thread; the loop thread cancels it before it has called the
queued `addTimerInLoop`.  Then the timer is added all the same, and it fires. -/
theorem cancel_overtakes :
    ∃ s, Machine.run step (initial ⟨10, 0⟩)
        [.newTimer 1 5 .zero, .queueTimer ⟨1, 0⟩, .readSequence ⟨1, 0⟩ 0,
          .loop (.cancel ⟨1, 0⟩), .runFunctor, .loop .handleRead, .loop .runNext] = some s ∧
      s.loop.history = [.cancelled ⟨1, 0⟩, .added ⟨1, 0⟩ 5 .zero, .begun 10,
        .executed ⟨1, 0⟩ 10 5] := by
  exact ⟨_, rfl, rfl⟩

end TimerThreads
end ReMuduo
