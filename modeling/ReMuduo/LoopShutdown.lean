import ReMuduo.EventLoop

/-! # What is executed after `quit()`

`loop()` looks at `quit_` once in an iteration, before `poll` (`src/base/Eventloop.cpp`).  When
it finds the flag set it returns, and whatever is queued then stays in `pendingFunctors_`.  So
for the functors that are queued when `quit_` is stored, it matters where the loop thread is: if
the swap of `doPendingFunctors` is still to come in this iteration, they are all executed; if
not, the loop finishes the batch at hand and drops them (`pushed_executed_iff`). -/
namespace ReMuduo

/-- The queue will be taken once more before `quit_` is tested. -/
def LoopPc.beforeSwap {φ : Type} : LoopPc φ → Bool
  | .polling | .handling | .raised => true
  | .outside | .starting | .testing | .running _ => false

namespace EventLoop

variable {τ φ : Type} {s s' : EventLoop τ φ} {op : LoopOp τ φ} {ops : List (LoopOp τ φ)}

/-- What will have been executed when `loop()` returns, if `quit_` is set and nothing more is
queued. -/
def due (s : EventLoop τ φ) : List φ :=
  s.started ++ s.pc.rest ++ if s.pc.beforeSwap then s.pendingFunctors else []

theorem due_eq_pushed (hs : s.Fifo) (hpc : s.pc.beforeSwap = true) : s.due = s.pushed := by
  rw [hs, due, if_pos hpc, List.append_assoc]

variable [DecidableEq τ]

theorem step_quit (hquit : s.quit = true) (h : s.step op = some s') : s'.quit = true := by
  cases step_cases h with
  | queueInLoop => split <;> exact hquit
  | quitInLoop | storeQuit => rfl
  | loop | loopStarted | quits | polls | pollReturns | handleRead | doPendingFunctors | swap
  | startFunctor | functorThrows | functorsDone | push | wakeup => exact hquit

theorem step_pushed (h : s.step op = some s') : s.pushed <+: s'.pushed := by
  cases step_cases h with
  | queueInLoop =>
    split
    · exact List.prefix_append _ _
    · exact List.prefix_append _ _
  | push => exact List.prefix_append _ _
  | loop | loopStarted | quits | polls | pollReturns | handleRead | doPendingFunctors | swap
  | startFunctor | functorThrows | functorsDone | quitInLoop | storeQuit | wakeup =>
    exact List.prefix_refl _

/-- Once `quit_` is set, a step of `loop()` adds to what is due only what is queued before the
last swap. -/
theorem step_due (hquit : s.quit = true) (hop : op ≠ .loop) (h : s.step op = some s') :
    s.due <+: s'.due ∧
      (s.pc.beforeSwap = false → s'.pc.beforeSwap = false ∧ s'.due = s.due) := by
  -- a push changes what is due only if the queue will be taken once more
  have hpush : ∀ f, s.due <+: (s.pushFunctor f).due ∧ (s.pc.beforeSwap = false →
      s.pc.beforeSwap = false ∧ (s.pushFunctor f).due = s.due) := by
    intro f
    cases hpc : s.pc.beforeSwap with
    | true => simp [due, pushFunctor, hpc]
    | false => simp [due, pushFunctor, hpc]
  cases step_cases h with
  | loop => exact absurd rfl hop
  | polls hpc hpolls =>
    rw [hquit] at hpolls
    cases hpolls
  | queueInLoop =>
    split
    · exact hpush _
    · exact hpush _
  | push => exact hpush _
  | loopStarted hpc | quits hpc | functorsDone hpc | startFunctor hpc =>
    simp [due, hpc, LoopPc.beforeSwap, LoopPc.rest]
  | pollReturns hpc | doPendingFunctors hpc | swap hpc =>
    simp [due, hpc, LoopPc.beforeSwap, LoopPc.rest]
  | handleRead | functorThrows | quitInLoop | storeQuit | wakeup =>
    exact ⟨List.prefix_refl _, fun hpc => ⟨hpc, rfl⟩⟩

theorem run_due (hquit : s.quit = true) (hops : .loop ∉ ops)
    (hrun : Machine.run step s ops = some s') :
    s.due <+: s'.due ∧
      (s.pc.beforeSwap = false → s'.pc.beforeSwap = false ∧ s'.due = s.due) := by
  induction ops generalizing s with
  | nil =>
    rw [← Option.some.inj hrun]
    exact ⟨List.prefix_refl _, fun hpc => ⟨hpc, rfl⟩⟩
  | cons op ops ih =>
    obtain ⟨t, ht, hrest⟩ := Machine.run_cons_eq_some.mp hrun
    obtain ⟨hop, hops⟩ := not_or.mp (mt List.mem_cons.mpr hops)
    obtain ⟨hfirst, hfixed⟩ := step_due hquit (Ne.symm hop) ht
    obtain ⟨hlater, hfixed'⟩ := ih (step_quit hquit ht) hops hrest
    refine ⟨hfirst.trans hlater, fun hpc => ?_⟩
    obtain ⟨hpc, hdue⟩ := hfixed hpc
    obtain ⟨hpc, hdue'⟩ := hfixed' hpc
    exact ⟨hpc, hdue'.trans hdue⟩

/-- **What `loop()` executes after `quit()`.**  Take any moment of any run at which `quit_` is
set, and the next moment at which the loop thread is outside `loop()`.  All functors queued by
the first have been executed by the second exactly when the queue was empty, or the loop thread
was still to swap it in this iteration.  Otherwise just the batch at hand is finished, and what
was queued stays in `pendingFunctors_`, in front of what came later. -/
theorem pushed_executed_iff {before after : List (LoopOp τ φ)}
    (hrun : Machine.run step (initial : EventLoop τ φ) before = some s) (hquit : s.quit = true)
    (hafter : Machine.run step s after = some s') (hloop : .loop ∉ after)
    (hreturns : s'.pc = .outside) :
    (s.pushed <+: s'.started ↔ s.pc.beforeSwap = true ∨ s.pendingFunctors = []) ∧
      (s.pc.beforeSwap = false → s'.started = s.started ++ s.pc.rest ∧
        s.pendingFunctors <+: s'.pendingFunctors) := by
  have hs : s.Fifo := Machine.run_invariant (fun _ _ _ hs hstep => step_fifo hs hstep) hrun rfl
  have hs' : s'.Fifo := Machine.run_invariant (fun _ _ _ hs hstep => step_fifo hs hstep) hafter hs
  have hpushed : s.pushed <+: s'.pushed :=
    Machine.run_invariant (P := fun t => s.pushed <+: t.pushed)
      (fun _ _ _ hpre hstep => hpre.trans (step_pushed hstep)) hafter (List.prefix_refl _)
  obtain ⟨hdue, hfixed⟩ := run_due hquit hloop hafter
  have hstarted : s'.due = s'.started := by
    simp [due, hreturns, LoopPc.rest, LoopPc.beforeSwap]
  rw [hstarted] at hdue hfixed
  cases hpc : s.pc.beforeSwap with
  | true =>
    rw [due_eq_pushed hs hpc] at hdue
    exact ⟨iff_of_true hdue (.inl rfl), by simp⟩
  | false =>
    obtain ⟨-, hbatch⟩ := hfixed hpc
    rw [due, hpc, if_neg Bool.false_ne_true, List.append_nil] at hbatch
    unfold Fifo at hs hs'
    rw [← List.append_assoc, ← hbatch] at hs
    rw [hreturns] at hs'
    refine ⟨?_, fun _ => ⟨hbatch, ?_⟩⟩
    · rw [hs, ← List.append_nil s'.started, List.append_assoc, List.prefix_append_right_inj]
      simp
    · rw [hs, hs'] at hpushed
      exact (List.prefix_append_right_inj _).mp hpushed

/-- A thread queues a functor and then calls `quit()`, while the loop thread is past its swap:
the functor is dropped. -/
theorem dropped_after_swap :
    ∃ s s', Machine.run step (initial : EventLoop Nat Nat)
        [.push 1 10, .wakeup 1, .loop, .loopStarted, .testQuit, .pollReturns, .handleRead,
          .doPendingFunctors, .swap, .push 0 11, .wakeup 0, .storeQuit 0] = some s ∧
      Machine.run step s [.wakeup 0, .startFunctor, .functorsDone, .testQuit] = some s' ∧
      s.pushed = [10, 11] ∧ s'.started = [10] ∧ [11] <+: s'.pendingFunctors := by
  obtain ⟨s, hs⟩ : ∃ s, Machine.run step (initial : EventLoop Nat Nat)
        [.push 1 10, .wakeup 1, .loop, .loopStarted, .testQuit, .pollReturns, .handleRead,
          .doPendingFunctors, .swap, .push 0 11, .wakeup 0, .storeQuit 0] = some s := ⟨_, rfl⟩
  have hfate := fun (s' : EventLoop Nat Nat) hquit
      (h : Machine.run step s [.wakeup 0, .startFunctor, .functorsDone, .testQuit] = some s') =>
    pushed_executed_iff hs hquit h (by simp)
  obtain rfl := Option.some.inj hs
  have hfate := (hfate _ rfl rfl rfl).2 rfl
  exact ⟨_, _, rfl, rfl, rfl, hfate⟩

end EventLoop
end ReMuduo
