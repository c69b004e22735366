import ReMuduo.Machine

/-! # The event loop and its functor queue

`EventLoop` (`src/base/Eventloop.cpp`) as a machine in which the loop thread and any
number of other threads take turns.  A functor is queued by `queueInLoop` and executed
by `doPendingFunctors`, which swaps the queue out under the mutex and runs the batch;
the loop blocks in `poll` in between and is woken through an eventfd.

On another thread `queueInLoop` is two steps, the push under the mutex and the
`wakeup`, and so is `quit`, the store of `quit_` and the `wakeup`; everything may
happen in between.  On the loop thread they happen while the loop is not in `poll`, and
`queueInLoop` wakes the loop only if `callingPendingFunctors_` is set.

Two histories are kept with the loop: the functors in the order in which they were
pushed, and in the order in which they were started. -/
namespace ReMuduo

/-- Where the loop thread is. -/
inductive LoopPc (φ : Type)
  /-- Not in `loop()`. -/
  | outside
  /-- In `loopStartedCallback_`. -/
  | starting
  /-- About to test `quit_`. -/
  | testing
  /-- In `poller_->poll`. -/
  | polling
  /-- In the handlers of the active channels. -/
  | handling
  /-- In `doPendingFunctors`, with `callingPendingFunctors_` set, before the swap. -/
  | raised
  /-- In `doPendingFunctors`, with the part of the batch that has not been started. -/
  | running (rest : List φ)
deriving DecidableEq

/-- The functors of the batch that have not been started. -/
def LoopPc.rest {φ : Type} : LoopPc φ → List φ
  | .running rest => rest
  | _ => []

/-- The loop thread is inside an iteration, where handlers, timers and functors run. -/
def LoopPc.inIteration {φ : Type} : LoopPc φ → Bool
  | .handling => true
  | .running _ => true
  | _ => false

/-- User code may be running on the loop thread. -/
def LoopPc.userCode {φ : Type} : LoopPc φ → Bool
  | .outside => true
  | .starting => true
  | pc => pc.inIteration

/-- Where another thread is: outside the methods of the loop, or between its push or its
store of `quit_` and its `wakeup`. -/
inductive ForeignPc
  | idle
  | pushed
  | quitStored
deriving DecidableEq

/-- An event loop, with functors of type `φ` and other threads named by `τ`.  `eventfd` is
the counter behind `wakeupFd_`. -/
structure EventLoop (τ φ : Type) where
  quit : Bool
  callingPendingFunctors : Bool
  pendingFunctors : List φ
  eventfd : Nat
  pc : LoopPc φ
  foreign : τ → ForeignPc
  pushed : List φ
  started : List φ

/-- The steps of the loop thread, of user code on it, and of the other threads. -/
inductive LoopOp (τ φ : Type)
  /-- `loop()` is entered. -/
  | loop
  /-- `loopStartedCallback_` has returned. -/
  | loopStarted
  | testQuit
  /-- `poll` returns, for an event or at its timeout. -/
  | pollReturns
  /-- The handler of `wakeupChannel_`, among the others. -/
  | handleRead
  /-- The handlers are done, and `doPendingFunctors` raises its flag. -/
  | doPendingFunctors
  | swap
  | startFunctor
  /-- The functor in progress throws, and the exception is logged. -/
  | functorThrows
  | functorsDone
  | queueInLoop (f : φ)
  | quitInLoop
  | push (t : τ) (f : φ)
  | storeQuit (t : τ)
  | wakeup (t : τ)

namespace EventLoop

variable {τ φ : Type} [DecidableEq τ]

/-- The loop as its constructor leaves it. -/
def initial : EventLoop τ φ where
  quit := false
  callingPendingFunctors := false
  pendingFunctors := []
  eventfd := 0
  pc := .outside
  foreign := fun _ => .idle
  pushed := []
  started := []

/-- `pendingFunctors_.emplace_back(cb)`. -/
def pushFunctor (s : EventLoop τ φ) (f : φ) : EventLoop τ φ :=
  { s with pendingFunctors := s.pendingFunctors ++ [f], pushed := s.pushed ++ [f] }

def setForeign (s : EventLoop τ φ) (t : τ) (pc : ForeignPc) : EventLoop τ φ :=
  { s with foreign := fun u => if u = t then pc else s.foreign u }

/-- `wakeup()`: the kernel adds one to the counter. -/
def wakeup (s : EventLoop τ φ) : EventLoop τ φ := { s with eventfd := s.eventfd + 1 }

def step (s : EventLoop τ φ) : LoopOp τ φ → Option (EventLoop τ φ)
  | .loop =>
    match s.pc with
    | .outside => some { s with pc := .starting }
    | _ => none
  | .loopStarted =>
    match s.pc with
    | .starting => some { s with pc := .testing }
    | _ => none
  | .testQuit =>
    match s.pc with
    | .testing => some { s with pc := if s.quit then .outside else .polling }
    | _ => none
  | .pollReturns =>
    match s.pc with
    | .polling => some { s with pc := .handling }
    | _ => none
  | .handleRead =>
    match s.pc with
    | .handling => some { s with eventfd := 0 }
    | _ => none
  | .doPendingFunctors =>
    match s.pc with
    | .handling => some { s with pc := .raised, callingPendingFunctors := true }
    | _ => none
  | .swap =>
    match s.pc with
    | .raised => some { s with pc := .running s.pendingFunctors, pendingFunctors := [] }
    | _ => none
  | .startFunctor =>
    match s.pc with
    | .running (f :: rest) => some { s with pc := .running rest, started := s.started ++ [f] }
    | _ => none
  | .functorThrows =>
    match s.pc with
    | .running _ => some s
    | _ => none
  | .functorsDone =>
    match s.pc with
    | .running [] => some { s with pc := .testing, callingPendingFunctors := false }
    | _ => none
  | .queueInLoop f =>
    if s.pc.userCode then
      some (if s.callingPendingFunctors then (s.pushFunctor f).wakeup else s.pushFunctor f)
    else none
  | .quitInLoop => if s.pc.userCode then some { s with quit := true } else none
  | .push t f =>
    match s.foreign t with
    | .idle => some ((s.pushFunctor f).setForeign t .pushed)
    | _ => none
  | .storeQuit t =>
    match s.foreign t with
    | .idle => some (({ s with quit := true } : EventLoop τ φ).setForeign t .quitStored)
    | _ => none
  | .wakeup t =>
    match s.foreign t with
    | .idle => none
    | _ => some (s.wakeup.setForeign t .idle)

variable {s s' : EventLoop τ φ}

/-- What the steps do, one constructor for each kind. -/
inductive Step (s : EventLoop τ φ) : LoopOp τ φ → EventLoop τ φ → Prop
  | loop : s.pc = .outside → Step s .loop { s with pc := .starting }
  | loopStarted : s.pc = .starting → Step s .loopStarted { s with pc := .testing }
  | quits : s.pc = .testing → s.quit = true → Step s .testQuit { s with pc := .outside }
  | polls : s.pc = .testing → s.quit = false → Step s .testQuit { s with pc := .polling }
  | pollReturns : s.pc = .polling → Step s .pollReturns { s with pc := .handling }
  | handleRead : s.pc = .handling → Step s .handleRead { s with eventfd := 0 }
  | doPendingFunctors : s.pc = .handling →
      Step s .doPendingFunctors { s with pc := .raised, callingPendingFunctors := true }
  | swap : s.pc = .raised →
      Step s .swap { s with pc := .running s.pendingFunctors, pendingFunctors := [] }
  | startFunctor {f rest} : s.pc = .running (f :: rest) →
      Step s .startFunctor { s with pc := .running rest, started := s.started ++ [f] }
  | functorThrows {rest} : s.pc = .running rest → Step s .functorThrows s
  | functorsDone : s.pc = .running [] →
      Step s .functorsDone { s with pc := .testing, callingPendingFunctors := false }
  | queueInLoop {f} : s.pc.userCode = true →
      Step s (.queueInLoop f)
        (if s.callingPendingFunctors then (s.pushFunctor f).wakeup else s.pushFunctor f)
  | quitInLoop : s.pc.userCode = true → Step s .quitInLoop { s with quit := true }
  | push {t f} : s.foreign t = .idle → Step s (.push t f) ((s.pushFunctor f).setForeign t .pushed)
  | storeQuit {t} : s.foreign t = .idle →
      Step s (.storeQuit t) (({ s with quit := true } : EventLoop τ φ).setForeign t .quitStored)
  | wakeup {t} : s.foreign t ≠ .idle → Step s (.wakeup t) (s.wakeup.setForeign t .idle)

theorem step_cases {op : LoopOp τ φ} (h : s.step op = some s') : Step s op s' := by
  cases op with
  | testQuit =>
    simp only [step] at h
    split at h
    · rename_i hpc
      rw [← Option.some.inj h]
      split
      · rename_i hquit
        exact .quits hpc hquit
      · rename_i hquit
        exact .polls hpc (Bool.eq_false_iff.mpr hquit)
    · cases h
  | loop | loopStarted | pollReturns | handleRead | doPendingFunctors | swap | functorsDone =>
    simp only [step] at h
    split at h
    · rename_i hpc
      rw [← Option.some.inj h]
      constructor
      exact hpc
    · cases h
  | startFunctor =>
    simp only [step] at h
    split at h
    · rename_i f rest hpc
      exact Option.some.inj h ▸ .startFunctor hpc
    · cases h
  | functorThrows =>
    simp only [step] at h
    split at h
    · rename_i rest hpc
      exact Option.some.inj h ▸ .functorThrows hpc
    · cases h
  | queueInLoop f =>
    simp only [step] at h
    split at h
    · rename_i hpc
      exact Option.some.inj h ▸ .queueInLoop hpc
    · cases h
  | quitInLoop =>
    simp only [step] at h
    split at h
    · rename_i hpc
      exact Option.some.inj h ▸ .quitInLoop hpc
    · cases h
  | push t f =>
    simp only [step] at h
    split at h
    · rename_i hidle
      exact Option.some.inj h ▸ .push hidle
    · cases h
  | storeQuit t =>
    simp only [step] at h
    split at h
    · rename_i hidle
      exact Option.some.inj h ▸ .storeQuit hidle
    · cases h
  | wakeup t =>
    simp only [step] at h
    split at h
    · cases h
    · rename_i hbusy
      exact Option.some.inj h ▸ .wakeup hbusy

/-! ## The queue is first in, first out -/

/-- Every functor that was pushed has been started, is in the rest of the batch, or is
still queued, in this order. -/
def Fifo (s : EventLoop τ φ) : Prop := s.pushed = s.started ++ (s.pc.rest ++ s.pendingFunctors)

omit [DecidableEq τ] in
theorem Fifo.pushFunctor (hs : s.Fifo) (f : φ) : (s.pushFunctor f).Fifo := by
  unfold Fifo at hs
  simp [Fifo, EventLoop.pushFunctor, hs]

theorem step_fifo {op : LoopOp τ φ} (hs : s.Fifo) (h : s.step op = some s') : s'.Fifo := by
  cases step_cases h with
  | loop hpc | loopStarted hpc | quits hpc | polls hpc | pollReturns hpc | doPendingFunctors hpc
  | functorsDone hpc =>
    unfold Fifo at hs ⊢
    rw [hpc] at hs
    exact hs
  | swap hpc | startFunctor hpc =>
    unfold Fifo at hs ⊢
    rw [hpc] at hs
    simpa [LoopPc.rest] using hs
  | queueInLoop =>
    split <;> exact hs.pushFunctor _
  | push => exact hs.pushFunctor _
  | handleRead | functorThrows | quitInLoop | storeQuit | wakeup => exact hs

/-- **Functors are executed exactly once and in order.**  For every interleaving of pushes
by any threads with the iterations of the loop, with functors that throw and that queue
others: the functors started so far are the first ones of those pushed so far, none of
them twice, and the others are the rest of the batch followed by the queue. -/
theorem functors_fifo {ops : List (LoopOp τ φ)}
    (h : Machine.run step (initial : EventLoop τ φ) ops = some s) :
    s.started <+: s.pushed ∧ (s.pushed.Nodup → s.started.Nodup) ∧
      s.pushed = s.started ++ (s.pc.rest ++ s.pendingFunctors) := by
  have hs : s.Fifo := Machine.run_invariant (fun _ _ _ hs hstep => step_fifo hs hstep) h rfl
  have hstarted : s.started <+: s.pushed := by
    rw [hs]
    exact List.prefix_append _ _
  exact ⟨hstarted, fun hnodup => hnodup.sublist hstarted.sublist, hs⟩

/-- A functor queues another while a second thread pushes, and throws. -/
def nestedPush : List (LoopOp Nat Nat) :=
  [.push 0 10, .loop, .loopStarted, .testQuit, .wakeup 0, .pollReturns, .handleRead, .push 0 11,
    .doPendingFunctors, .swap, .startFunctor, .queueInLoop 12, .push 1 13, .functorThrows]

theorem functors_fifo_nestedPush :
    ∃ s, Machine.run step (initial : EventLoop Nat Nat) nestedPush = some s ∧
      s.started = [10] ∧ s.pushed = [10, 11, 12, 13] ∧
      s.pushed = s.started ++ (s.pc.rest ++ s.pendingFunctors) := by
  obtain ⟨s, hs⟩ : ∃ s, Machine.run step (initial : EventLoop Nat Nat) nestedPush = some s :=
    ⟨_, rfl⟩
  have h := functors_fifo hs
  obtain rfl := Option.some.inj hs
  exact ⟨_, rfl, rfl, rfl, h.2.2⟩

/-! ## No wake-up is lost -/

/-- The loop will not block: the eventfd is readable, or another thread is about to make
it so. -/
def Woken (s : EventLoop τ φ) : Prop := 0 < s.eventfd ∨ ∃ t, s.foreign t ≠ .idle

/-- What is to be done in the next iteration wakes the loop: a functor queued after the
swap, and a `quit_` stored after its test. -/
structure Wakeful (s : EventLoop τ φ) : Prop where
  calling : s.callingPendingFunctors = true ↔ s.pc = .raised ∨ ∃ rest, s.pc = .running rest
  pending : s.pc ≠ .outside → s.pc ≠ .handling → s.pc ≠ .raised → s.pendingFunctors ≠ [] → s.Woken
  quitting : s.pc = .polling → s.quit = true → s.Woken

/-- What is asked of the loop thread: `loop()` is entered with nothing queued, and
`queueInLoop` is called on the loop thread only inside an iteration. -/
def Disciplined (s : EventLoop τ φ) : LoopOp τ φ → Prop
  | .loop => s.pendingFunctors = []
  | .queueInLoop _ => s.pc.inIteration = true
  | _ => True

instance (s : EventLoop τ φ) [DecidableEq φ] : ∀ op, Decidable (s.Disciplined op)
  | .loop => inferInstanceAs (Decidable (s.pendingFunctors = []))
  | .queueInLoop _ => inferInstanceAs (Decidable (s.pc.inIteration = true))
  | .loopStarted | .testQuit | .pollReturns | .handleRead | .doPendingFunctors | .swap
  | .startFunctor | .functorThrows | .functorsDone | .quitInLoop | .push .. | .storeQuit _
  | .wakeup _ => isTrue trivial

theorem woken_setForeign (s : EventLoop τ φ) (t : τ) {pc : ForeignPc} (hpc : pc ≠ .idle) :
    (s.setForeign t pc).Woken :=
  Or.inr ⟨t, by simpa [setForeign] using hpc⟩

omit [DecidableEq τ] in
theorem initial_wakeful : (initial : EventLoop τ φ).Wakeful :=
  ⟨by simp [initial], by simp [initial], by simp [initial]⟩

theorem step_wakeful {op : LoopOp τ φ} (hs : s.Wakeful) (hop : s.Disciplined op)
    (h : s.step op = some s') : s'.Wakeful := by
  have hcalling := hs.calling
  have hpending := hs.pending
  cases step_cases h with
  | loop hpc =>
    refine ⟨?_, fun _ _ _ hne => absurd hop hne, nofun⟩
    simpa [hpc] using hcalling
  | loopStarted hpc =>
    refine ⟨by simpa [hpc] using hcalling, ?_, nofun⟩
    intro _ _ _ hne
    exact hpending (by simp [hpc]) (by simp [hpc]) (by simp [hpc]) hne
  | quits hpc hquit => exact ⟨by simpa [hpc] using hcalling, nofun, nofun⟩
  | polls hpc hquit =>
    refine ⟨by simpa [hpc] using hcalling, ?_, ?_⟩
    · intro _ _ _ hne
      exact hpending (by simp [hpc]) (by simp [hpc]) (by simp [hpc]) hne
    · intro _ hq
      cases hquit.symm.trans hq
  | pollReturns hpc => exact ⟨by simpa [hpc] using hcalling, nofun, nofun⟩
  | handleRead hpc =>
    refine ⟨hcalling, fun _ h2 => absurd hpc h2, ?_⟩
    intro h1
    cases hpc.symm.trans h1
  | doPendingFunctors hpc => exact ⟨by simp, nofun, nofun⟩
  | swap hpc => exact ⟨by simpa [hpc] using hcalling, fun _ _ _ hne => absurd rfl hne, nofun⟩
  | startFunctor hpc =>
    refine ⟨by simpa [hpc] using hcalling, ?_, nofun⟩
    intro _ _ _ hne
    exact hpending (by simp [hpc]) (by simp [hpc]) (by simp [hpc]) hne
  | functorThrows => exact hs
  | functorsDone hpc =>
    refine ⟨by simp, ?_, nofun⟩
    intro _ _ _ hne
    exact hpending (by simp [hpc]) (by simp [hpc]) (by simp [hpc]) hne
  | quitInLoop hpc =>
    refine ⟨hcalling, hpending, ?_⟩
    intro h1
    have h1 : s.pc = .polling := h1
    rw [h1] at hpc
    cases hpc
  | queueInLoop hpc =>
    have hin : s.pc.inIteration = true := hop
    split
    · rename_i hc
      exact ⟨hcalling, fun _ _ _ _ => Or.inl (Nat.succ_pos _), fun _ _ => Or.inl (Nat.succ_pos _)⟩
    · rename_i hc
      -- not in `doPendingFunctors`, so in a handler, and the queue is looked at before `poll`
      have hhandling : s.pc = .handling := by
        cases hpc' : s.pc with
        | handling => rfl
        | running rest => exact absurd (hcalling.mpr (Or.inr ⟨rest, hpc'⟩)) hc
        | _ => rw [hpc'] at hin; cases hin
      refine ⟨hcalling, fun _ h2 => absurd hhandling h2, ?_⟩
      intro h1
      cases hhandling.symm.trans h1
  | push =>
    exact ⟨hcalling, fun _ _ _ _ => woken_setForeign _ _ nofun,
      fun _ _ => woken_setForeign _ _ nofun⟩
  | storeQuit =>
    exact ⟨hcalling, fun _ _ _ _ => woken_setForeign _ _ nofun,
      fun _ _ => woken_setForeign _ _ nofun⟩
  | wakeup =>
    exact ⟨hcalling, fun _ _ _ _ => Or.inl (Nat.succ_pos _), fun _ _ => Or.inl (Nat.succ_pos _)⟩

/-- **No wake-up is lost.**  Whenever the loop thread is blocked in `poll` although a functor
is queued or `quit_` is set, the eventfd is readable, or another thread is between its
push, or its store of `quit_`, and its wake-up. -/
theorem no_lost_wakeup {ops : List (LoopOp τ φ)}
    (h : Machine.run step (initial : EventLoop τ φ) ops = some s)
    (hops : Machine.Along step Disciplined (initial : EventLoop τ φ) ops)
    (hpolling : s.pc = .polling) (hwork : s.pendingFunctors ≠ [] ∨ s.quit = true) :
    0 < s.eventfd ∨ ∃ t, s.foreign t = .pushed ∨ s.foreign t = .quitStored := by
  have hs : s.Wakeful := Machine.run_invariant_along
    (fun _ _ _ hs hop hstep => step_wakeful hs hop hstep) h hops initial_wakeful
  have hwoken : s.Woken := by
    rcases hwork with hne | hq
    · exact hs.pending (by simp [hpolling]) (by simp [hpolling]) (by simp [hpolling]) hne
    · exact hs.quitting hpolling hq
  refine hwoken.imp_right (Exists.imp fun t ht => ?_)
  cases hpc : s.foreign t with
  | idle => exact absurd hpc ht
  | pushed => exact Or.inl rfl
  | quitStored => exact Or.inr rfl

/-- A functor queues another one, which is still queued when the loop is back in `poll`. -/
def queuedInFunctor : List (LoopOp Nat Nat) :=
  [.loop, .loopStarted, .testQuit, .push 0 10, .wakeup 0, .pollReturns, .handleRead,
    .doPendingFunctors, .swap, .startFunctor, .queueInLoop 11, .functorsDone, .testQuit]

theorem no_lost_wakeup_queuedInFunctor :
    ∃ s, Machine.run step (initial : EventLoop Nat Nat) queuedInFunctor = some s ∧
      s.pc = .polling ∧ s.pendingFunctors = [11] ∧
      (0 < s.eventfd ∨ ∃ t, s.foreign t = .pushed ∨ s.foreign t = .quitStored) := by
  obtain ⟨s, hs⟩ : ∃ s, Machine.run step (initial : EventLoop Nat Nat) queuedInFunctor = some s :=
    ⟨_, rfl⟩
  have h := no_lost_wakeup hs (by decide)
  obtain rfl := Option.some.inj hs
  exact ⟨_, rfl, rfl, rfl, h rfl (Or.inl nofun)⟩

end EventLoop
end ReMuduo
