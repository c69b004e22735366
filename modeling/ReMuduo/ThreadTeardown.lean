import ReMuduo.EventLoopThread
import ReMuduo.LoopShutdown

/-! # Destroying an event loop thread

`~EventLoopThread` (`src/base/EventLoopThread.cpp`): with the mutex held it looks at `loop_` and
calls `quit()` on it, then it joins the thread.  The loop lives on the stack of `threadFunc`,
which clears `loop_` under the same mutex before it destroys the loop.

The destructor runs on the thread that owns the object, after `startLoop` has returned there or
if it was never called.  Other threads may use the loop as long as `threadFunc` has not left
it; what they do with a pointer after that is not the subject here. -/
namespace ReMuduo

/-- Where `~EventLoopThread` is. -/
inductive DtorPc where
  | notCalled
  /-- `exiting_` is set; about to take the mutex. -/
  | locking
  /-- About to test `loop_`, with the mutex. -/
  | testing
  /-- In `loop_->quit()`, between the store and the wake-up, with the mutex. -/
  | waking
  /-- In `thread.join()`. -/
  | joining
  | returned
deriving DecidableEq

def DtorPc.holdsMutex : DtorPc → Bool
  | .testing | .waking => true
  | _ => false

/-- The thread that calls a method of the loop from outside. -/
def LoopOp.caller {τ φ : Type} : LoopOp τ φ → Option τ
  | .push t _ | .storeQuit t | .wakeup t => some t
  | _ => none

/-- An `EventLoopThread` with its destructor.  `gone` says that `threadFunc` has returned, and
with it the loop is destroyed. -/
structure OwnedThread (τ φ : Type) where
  inner : EventLoopThread τ φ
  dtor : DtorPc
  gone : Bool

inductive TeardownOp (τ φ : Type) where
  | inner (op : StartLoopOp τ φ)
  /-- `~EventLoopThread` is called and sets `exiting_`. -/
  | destructor
  | lock
  /-- The test of `loop_`, with the store of `quit_` if it is set. -/
  | testLoop
  /-- The wake-up of `quit()`, and the release of the mutex. -/
  | wakeup
  | threadReturns
  | join

namespace OwnedThread

variable {τ φ : Type} [DecidableEq τ]

def initial : OwnedThread τ φ := ⟨EventLoopThread.initial, .notCalled, false⟩

variable (owner : τ)

/-- The owner is in one method at a time, the mutex is held by one thread at a time, and the
loop is used as long as `threadFunc` has not left it. -/
def allows (s : OwnedThread τ φ) : StartLoopOp τ φ → Bool
  | .start | .lock | .testLoop | .wake | .unlock | .returns => decide (s.dtor = .notCalled)
  | .storeLoop | .notify | .exit => !s.dtor.holdsMutex
  | .loop op =>
    decide (s.inner.thread ≠ .exited) &&
      (decide (s.dtor = .notCalled) || decide (op.caller ≠ some owner))
  | .construct _ | .initialised | .setLoopStartedCallback => true

def step (s : OwnedThread τ φ) : TeardownOp τ φ → Option (OwnedThread τ φ)
  | .inner op =>
    if s.allows owner op then (s.inner.step op).map fun inner => { s with inner := inner }
    else none
  | .destructor =>
    if s.dtor = .notCalled ∧ (s.inner.caller = .idle ∨ s.inner.caller.result ≠ none) ∧
        s.inner.loop.foreign owner = .idle then
      some { s with dtor := .locking }
    else none
  | .lock => if s.dtor = .locking then some { s with dtor := .testing } else none
  | .testLoop =>
    if s.dtor = .testing then
      match s.inner.loopPtr with
      | none => some { s with dtor := .joining }
      | some _ => (s.inner.loop.step (.storeQuit owner)).map fun loop =>
          { s with inner := { s.inner with loop := loop }, dtor := .waking }
    else none
  | .wakeup =>
    if s.dtor = .waking then
      (s.inner.loop.step (.wakeup owner)).map fun loop =>
        { s with inner := { s.inner with loop := loop }, dtor := .joining }
    else none
  | .threadReturns =>
    if s.inner.thread = .exited ∧ s.gone = false then some { s with gone := true } else none
  | .join =>
    if s.dtor = .joining ∧ (s.inner.thread = .notCreated ∨ s.gone = true) then
      some { s with dtor := .returned }
    else none

variable {owner} {s s' : OwnedThread τ φ} {op : TeardownOp τ φ} {ops : List (TeardownOp τ φ)}

/-- What the steps do, one constructor for each kind. -/
inductive Step (owner : τ) (s : OwnedThread τ φ) : TeardownOp τ φ → OwnedThread τ φ → Prop
  | inner {op inner} : s.allows owner op = true → s.inner.step op = some inner →
      Step owner s (.inner op) { s with inner := inner }
  | destructor : s.dtor = .notCalled → s.inner.caller = .idle ∨ s.inner.caller.result ≠ none →
      s.inner.loop.foreign owner = .idle → Step owner s .destructor { s with dtor := .locking }
  | lock : s.dtor = .locking → Step owner s .lock { s with dtor := .testing }
  | noLoop : s.dtor = .testing → s.inner.loopPtr = none →
      Step owner s .testLoop { s with dtor := .joining }
  | quits {ptr loop} : s.dtor = .testing → s.inner.loopPtr = some ptr →
      s.inner.loop.step (.storeQuit owner) = some loop →
      Step owner s .testLoop { s with inner := { s.inner with loop := loop }, dtor := .waking }
  | wakeup {loop} : s.dtor = .waking → s.inner.loop.step (.wakeup owner) = some loop →
      Step owner s .wakeup { s with inner := { s.inner with loop := loop }, dtor := .joining }
  | threadReturns : s.inner.thread = .exited → s.gone = false →
      Step owner s .threadReturns { s with gone := true }
  | join : s.dtor = .joining → s.inner.thread = .notCreated ∨ s.gone = true →
      Step owner s .join { s with dtor := .returned }

theorem step_cases (h : step owner s op = some s') : Step owner s op s' := by
  cases op with
  | inner op =>
    obtain ⟨hop, h⟩ := Option.ite_none_right_eq_some.mp h
    obtain ⟨inner, hinner, rfl⟩ := Option.map_eq_some_iff.mp h
    exact .inner hop hinner
  | destructor =>
    obtain ⟨⟨hdtor, hcaller, howner⟩, ⟨⟩⟩ := Option.ite_none_right_eq_some.mp h
    exact .destructor hdtor hcaller howner
  | lock =>
    obtain ⟨hdtor, ⟨⟩⟩ := Option.ite_none_right_eq_some.mp h
    exact .lock hdtor
  | testLoop =>
    obtain ⟨hdtor, h⟩ := Option.ite_none_right_eq_some.mp h
    cases hptr : s.inner.loopPtr with
    | none =>
      rw [hptr] at h
      exact Option.some.inj h ▸ .noLoop hdtor hptr
    | some ptr =>
      rw [hptr] at h
      obtain ⟨loop, hloop, rfl⟩ := Option.map_eq_some_iff.mp h
      exact .quits hdtor hptr hloop
  | wakeup =>
    obtain ⟨hdtor, h⟩ := Option.ite_none_right_eq_some.mp h
    obtain ⟨loop, hloop, rfl⟩ := Option.map_eq_some_iff.mp h
    exact .wakeup hdtor hloop
  | threadReturns =>
    obtain ⟨⟨hthread, hgone⟩, ⟨⟩⟩ := Option.ite_none_right_eq_some.mp h
    exact .threadReturns hthread hgone
  | join =>
    obtain ⟨⟨hdtor, hthread⟩, ⟨⟩⟩ := Option.ite_none_right_eq_some.mp h
    exact .join hdtor hthread

end OwnedThread

/-! ## Where the thread is -/

namespace EventLoopThread

variable {τ φ : Type} {s s' : EventLoopThread τ φ} {op : StartLoopOp τ φ}

/-- What goes with each point of `threadFunc`: who has a pointer to its loop, and where the loop
is. -/
def Phase (s : EventLoopThread τ φ) : Prop :=
  match s.thread with
  | .notCreated | .constructing =>
    s.address = none ∧ s.loopPtr = none ∧ s.caller.pointer = none ∧ s.loop.pc = .outside ∧
      s.started = false
  | .initCallback | .storing =>
    s.address ≠ none ∧ s.loopPtr = none ∧ s.caller.pointer = none ∧ s.loop.pc = .outside ∧
      s.started = false
  | .installing =>
    s.address ≠ none ∧ s.loopPtr = s.address ∧ s.loop.pc = .outside ∧ s.started = false
  | .running =>
    s.address ≠ none ∧ s.loopPtr = s.address ∧
      (s.started = false → s.loop.pc = .outside ∨ s.loop.pc = .starting)
  | .exited => s.loopPtr = none ∧ s.loop.pc = .outside ∧ s.started = true

/-- `startLoop` has not been called exactly as long as there is no thread. -/
def Created (s : EventLoopThread τ φ) : Prop := s.caller = .idle ↔ s.thread = .notCreated

theorem initial_phase : (initial : EventLoopThread τ φ).Phase :=
  ⟨rfl, rfl, rfl, rfl, rfl⟩

/-- Before the loop is stored nobody has a pointer to it. -/
theorem Phase.stored {ptr : Nat} (hs : s.Phase) (hptr : s.loopPtr = some ptr) :
    s.thread = .installing ∨ s.thread = .running := by
  unfold Phase at hs
  cases hthread : s.thread with
  | installing => exact .inl rfl
  | running => exact .inr rfl
  | notCreated | constructing | initCallback | storing =>
    rw [hthread, hptr] at hs
    cases hs.2.1
  | exited =>
    rw [hthread, hptr] at hs
    cases hs.1

theorem Phase.pointer {ptr : Nat} (hs : s.Phase) (hptr : s.caller.pointer = some ptr) :
    s.thread = .installing ∨ s.thread = .running ∨ s.thread = .exited := by
  unfold Phase at hs
  cases hthread : s.thread with
  | installing => exact .inl rfl
  | running => exact .inr (.inl rfl)
  | exited => exact .inr (.inr rfl)
  | notCreated | constructing | initCallback | storing =>
    rw [hthread, hptr] at hs
    cases hs.2.2.1

theorem Phase.outside (hs : s.Phase) (hthread : s.thread ≠ .running) : s.loop.pc = .outside := by
  unfold Phase at hs
  cases h : s.thread with
  | running => exact absurd h hthread
  | notCreated | constructing | initCallback | storing =>
    rw [h] at hs
    exact hs.2.2.2.1
  | installing =>
    rw [h] at hs
    exact hs.2.2.1
  | exited =>
    rw [h] at hs
    exact hs.2.1

/-- The caller goes on, and has a pointer only if it had one. -/
theorem Phase.callerMoves (hs : s.Phase) {caller : StartPc}
    (hpointer : s.caller.pointer = none → caller.pointer = none) :
    Phase { s with caller := caller } := by
  unfold Phase at hs ⊢
  cases hthread : s.thread with
  | notCreated | constructing | initCallback | storing =>
    rw [hthread] at hs
    exact ⟨hs.1, hs.2.1, hpointer hs.2.2.1, hs.2.2.2⟩
  | installing | running | exited =>
    rw [hthread] at hs
    exact hs

variable [DecidableEq τ]

/-- Only a call of `loop()` takes the loop thread out of where it is not looping, and only the
end of `loopStartedCallback_` takes it out of there. -/
theorem loop_step_pc {l l' : EventLoop τ φ} {o : LoopOp τ φ} (h : l.step o = some l') :
    (l.pc = .outside → l'.pc = .outside ∨ o = .loop ∧ l'.pc = .starting) ∧
      (l.pc = .starting → l'.pc = .starting ∨ o = .loopStarted) := by
  cases EventLoop.step_cases h with
  | loop hpc => simp [hpc]
  | loopStarted hpc => simp [hpc]
  | quits hpc | polls hpc | pollReturns hpc | doPendingFunctors hpc | swap hpc | startFunctor hpc
  | functorsDone hpc => simp [hpc]
  | queueInLoop => split <;> exact ⟨.inl, .inl⟩
  | handleRead | functorThrows | quitInLoop | push | storeQuit | wakeup => exact ⟨.inl, .inl⟩

theorem canStep_of_step {o : LoopOp τ φ} (h : s.step (.loop o) = some s') :
    s.canStep o = true :=
  (Option.ite_none_right_eq_some.mp h).1

theorem Phase.loopMoves (hs : s.Phase) {o : LoopOp τ φ} {l : EventLoop τ φ}
    (hcan : s.canStep o = true) (hl : s.loop.step o = some l) : Phase { s with loop := l } := by
  obtain ⟨houtside, hstarting⟩ := loop_step_pc hl
  -- `loop()` is called by a running thread only
  have hstays : s.thread ≠ .running → s.loop.pc = .outside → l.pc = .outside := by
    intro hthread hpc
    refine (houtside hpc).resolve_right ?_
    rintro ⟨rfl, -⟩
    simp [canStep, hthread] at hcan
  unfold Phase at hs ⊢
  cases hthread : s.thread with
  | notCreated | constructing | initCallback | storing =>
    rw [hthread] at hs
    exact ⟨hs.1, hs.2.1, hs.2.2.1, hstays (by simp [hthread]) hs.2.2.2.1, hs.2.2.2.2⟩
  | installing =>
    rw [hthread] at hs
    exact ⟨hs.1, hs.2.1, hstays (by simp [hthread]) hs.2.2.1, hs.2.2.2⟩
  | exited =>
    rw [hthread] at hs
    exact ⟨hs.1, hstays (by simp [hthread]) hs.2.1, hs.2.2⟩
  | running =>
    rw [hthread] at hs
    refine ⟨hs.1, hs.2.1, fun hstarted => ?_⟩
    rcases hs.2.2 hstarted with hpc | hpc
    · exact (houtside hpc).imp_right And.right
    · refine .inr ((hstarting hpc).resolve_right ?_)
      rintro rfl
      rw [canStep, hstarted] at hcan
      cases hcan

theorem step_phase (hs : s.Phase) (h : s.step op = some s') : s'.Phase := by
  cases step_cases h with
  | start hcaller hthread =>
    unfold Phase at hs
    rw [hthread] at hs
    exact ⟨hs.1, hs.2.1, rfl, hs.2.2.2⟩
  | lock | waits | wake => exact hs.callerMoves fun _ => rfl
  | finds hcaller hptr =>
    -- the caller may have a pointer from now on
    have hstored := hs.stored hptr
    unfold Phase at hs ⊢
    rcases hstored with hthread | hthread <;> rw [hthread] at hs <;> simpa [hthread] using hs
  | unlock hcaller | returns hcaller =>
    refine hs.callerMoves fun hnone => ?_
    rw [hcaller] at hnone
    cases hnone
  | construct hthread =>
    unfold Phase at hs
    rw [hthread] at hs
    exact ⟨by simp, hs.2⟩
  | initialised hthread =>
    unfold Phase at hs
    rw [hthread] at hs
    exact hs
  | storeLoop hthread =>
    unfold Phase at hs
    rw [hthread] at hs
    exact ⟨hs.1, rfl, hs.2.2.2⟩
  | setLoopStartedCallback hthread =>
    unfold Phase at hs
    rw [hthread] at hs
    exact ⟨hs.1, hs.2.1, fun _ => .inl hs.2.2.1⟩
  | notify hpc =>
    unfold Phase at hs ⊢
    cases hthread : s.thread with
    | running =>
      rw [hthread] at hs
      exact ⟨hs.1, hs.2.1, by simp⟩
    | _ => simp [hthread, hpc] at hs
  | loop hl => exact hs.loopMoves (canStep_of_step h) hl
  | exit hthread hlooping =>
    obtain ⟨⟨-, hstarted, -⟩, -⟩ := Option.ite_none_right_eq_some.mp h
    refine ⟨rfl, ?_, hstarted⟩
    cases hpc : s.loop.pc with
    | outside => rfl
    | _ =>
      rw [hpc] at hlooping
      cases hlooping

theorem step_created (hs : s.Created) (h : s.step op = some s') : s'.Created := by
  unfold Created at hs ⊢
  cases step_cases h with
  | start => simp
  | lock hcaller | waits hcaller | finds hcaller | wake hcaller | unlock hcaller
  | returns hcaller => simpa [hcaller] using hs
  | construct hthread | initialised hthread | storeLoop hthread | setLoopStartedCallback hthread
  | exit hthread => simpa [hthread] using hs
  | notify | loop => exact hs

end EventLoopThread

/-! ## What is left for the thread to do -/

/-- The steps that bring the loop thread on its way, other than the execution of a functor. -/
def LoopOp.advances {τ φ : Type} : LoopOp τ φ → Bool
  | .loop | .loopStarted | .testQuit | .pollReturns | .doPendingFunctors | .swap
  | .functorsDone => true
  | _ => false

/-- The loop thread returns from `poll`. -/
def LoopOp.polls {τ φ : Type} : LoopOp τ φ → Bool
  | .pollReturns => true
  | _ => false

/-- The loop thread takes the functors of a batch. -/
def LoopOp.swaps {τ φ : Type} : LoopOp τ φ → Bool
  | .swap => true
  | _ => false

def StartLoopOp.advances {τ φ : Type} : StartLoopOp τ φ → Bool
  | .construct _ | .initialised | .storeLoop | .setLoopStartedCallback | .notify | .exit => true
  | .loop op => op.advances
  | _ => false

/-- How often the loop thread can return from `poll`, if `quit_` is set. -/
def LoopPc.polls {φ : Type} : LoopPc φ → Nat
  | .polling => 1
  | _ => 0

/-- How many batches the loop thread can still take, if `quit_` is set. -/
def LoopPc.swaps {φ : Type} : LoopPc φ → Nat
  | .polling | .handling | .raised => 1
  | _ => 0

/-- The functors of the batch that are still to be executed. -/
def LoopPc.batch {φ : Type} : LoopPc φ → List φ
  | .running rest => rest
  | _ => []

theorem LoopPc.swaps_raised {φ : Type} : (.raised : LoopPc φ).swaps = 1 := rfl

theorem LoopPc.batch_raised {φ : Type} : (.raised : LoopPc φ).batch = [] := rfl

theorem LoopPc.swaps_le {φ : Type} (pc : LoopPc φ) : pc.swaps ≤ 1 := by
  cases pc <;> simp [LoopPc.swaps]

/-- Before a batch is taken there is none. -/
theorem LoopPc.batch_of_swaps {φ : Type} {pc : LoopPc φ} (h : 0 < pc.swaps) : pc.batch = [] := by
  cases pc with
  | running rest => simp [LoopPc.swaps] at h
  | _ => rfl

/-- How many such steps are left until `loop()` has returned, if `quit_` is set. -/
def LoopPc.stage {φ : Type} (started : Bool) : LoopPc φ → Nat
  | .outside => if started then 0 else 10
  | .starting => if started then 8 else 9
  | .testing => 1
  | .running _ => 2
  | .raised => 3
  | .handling => 4
  | .polling => 5

/-- Queueing on the loop thread leaves it where it is. -/
theorem EventLoop.queueInLoop_pc {τ φ : Type} (l : EventLoop τ φ) (f : φ) :
    (if l.callingPendingFunctors then (l.pushFunctor f).wakeup else l.pushFunctor f).pc = l.pc := by
  split <;> rfl

namespace EventLoopThread

variable {τ φ : Type} {s s' : EventLoopThread τ φ} {op : StartLoopOp τ φ}

/-- How many steps are left until `threadFunc` has returned, if `quit_` is set. -/
def stage (s : EventLoopThread τ φ) : Nat :=
  match s.thread with
  | .notCreated => 0
  | .constructing => 16
  | .initCallback => 15
  | .storing => 14
  | .installing => 13
  | .running => 2 + s.loop.pc.stage s.started
  | .exited => 1

variable [DecidableEq τ]

/-- With `quit_` set, every step that brings the loop thread on its way counts. -/
theorem loop_step_stage (started : Bool) {l l' : EventLoop τ φ} {o : LoopOp τ φ}
    (hquit : l.quit = true) (hphase : started = false → l.pc = .outside ∨ l.pc = .starting)
    (hcan : o = .loop → started = false) (h : l.step o = some l') :
    (if o.advances then 1 else 0) + l'.pc.stage started ≤ l.pc.stage started := by
  cases EventLoop.step_cases h with
  | loop hpc => simp [hpc, hcan rfl, LoopOp.advances, LoopPc.stage]
  | loopStarted hpc =>
    rw [hpc]
    cases started <;> simp [LoopOp.advances, LoopPc.stage]
  | quits hpc =>
    have hstarted : started = true := by
      cases started with
      | true => rfl
      | false => simp [hpc] at hphase
    simp [hpc, hstarted, LoopOp.advances, LoopPc.stage]
  | polls hpc hpolls =>
    rw [hquit] at hpolls
    cases hpolls
  | pollReturns hpc | doPendingFunctors hpc | swap hpc | functorsDone hpc =>
    simp [hpc, LoopOp.advances, LoopPc.stage]
  | startFunctor hpc => simp [hpc, LoopOp.advances, LoopPc.stage]
  | queueInLoop => rw [EventLoop.queueInLoop_pc]; simp [LoopOp.advances]
  | handleRead | functorThrows | quitInLoop | push | storeQuit | wakeup =>
    simp [LoopOp.advances, EventLoop.pushFunctor, EventLoop.wakeup, EventLoop.setForeign]

/-- Where it is not looping, only a call of `loop()` brings the loop thread on its way. -/
theorem loop_step_idle {l l' : EventLoop τ φ} {o : LoopOp τ φ} (hpc : l.pc = .outside)
    (ho : o ≠ .loop) (h : l.step o = some l') : o.advances = false := by
  cases EventLoop.step_cases h with
  | loop => exact absurd rfl ho
  | loopStarted hpc' | quits hpc' | polls hpc' | pollReturns hpc' | doPendingFunctors hpc'
  | swap hpc' | functorsDone hpc' => cases hpc.symm.trans hpc'
  | handleRead | startFunctor | functorThrows | queueInLoop | quitInLoop | push | storeQuit
  | wakeup => rfl

/-- The loop thread never goes back to `poll`. -/
theorem loop_step_polling {l l' : EventLoop τ φ} {o : LoopOp τ φ} (hquit : l.quit = true)
    (h : l.step o = some l') (hpc : l'.pc = .polling) :
    l.pc = .polling ∧ o ≠ .pollReturns ∧ l.eventfd ≤ l'.eventfd := by
  cases EventLoop.step_cases h with
  | polls _ hpolls =>
    rw [hquit] at hpolls
    cases hpolls
  | queueInLoop =>
    split at hpc
    · exact ⟨hpc, by simp, by split <;> simp [EventLoop.wakeup, EventLoop.pushFunctor]⟩
    · exact ⟨hpc, by simp, by split <;> simp [EventLoop.wakeup, EventLoop.pushFunctor]⟩
  | handleRead hhandling => cases hhandling.symm.trans hpc
  | functorThrows | quitInLoop | push | storeQuit =>
    exact ⟨hpc, by simp, Nat.le_refl _⟩
  | wakeup => exact ⟨hpc, by simp, Nat.le_succ _⟩
  | loop | loopStarted | quits | pollReturns | doPendingFunctors | swap | startFunctor
  | functorsDone => cases hpc

theorem loop_step_polls {l l' : EventLoop τ φ} {o : LoopOp τ φ} (hquit : l.quit = true)
    (h : l.step o = some l') : (if o.polls then 1 else 0) + l'.pc.polls ≤ l.pc.polls := by
  cases EventLoop.step_cases h with
  | polls _ hpolls =>
    rw [hquit] at hpolls
    cases hpolls
  | queueInLoop => rw [EventLoop.queueInLoop_pc]; simp [LoopOp.polls]
  | handleRead | functorThrows | quitInLoop | push | storeQuit | wakeup =>
    simp [LoopOp.polls, EventLoop.pushFunctor, EventLoop.wakeup, EventLoop.setForeign]
  | loop hpc | loopStarted hpc | quits hpc | pollReturns hpc | doPendingFunctors hpc | swap hpc
  | startFunctor hpc | functorsDone hpc => simp [hpc, LoopOp.polls, LoopPc.polls]

theorem loop_step_swaps {l l' : EventLoop τ φ} {o : LoopOp τ φ} (hquit : l.quit = true)
    (h : l.step o = some l') : (if o.swaps then 1 else 0) + l'.pc.swaps ≤ l.pc.swaps := by
  cases EventLoop.step_cases h with
  | polls _ hpolls =>
    rw [hquit] at hpolls
    cases hpolls
  | queueInLoop => rw [EventLoop.queueInLoop_pc]; simp [LoopOp.swaps]
  | handleRead | functorThrows | quitInLoop | push | storeQuit | wakeup =>
    simp [LoopOp.swaps, EventLoop.pushFunctor, EventLoop.wakeup, EventLoop.setForeign]
  | loop hpc | loopStarted hpc | quits hpc | pollReturns hpc | doPendingFunctors hpc | swap hpc
  | startFunctor hpc | functorsDone hpc => simp [hpc, LoopOp.swaps, LoopPc.swaps]

/-- A functor that is started comes from the batch; a batch is taken when there is none. -/
theorem loop_step_batch {l l' : EventLoop τ φ} {o : LoopOp τ φ}
    (h : l.step o = some l') :
    o.swaps = true ∧ l.pc = .raised ∧ l'.started = l.started ∨
      o.swaps = false ∧ l'.started ++ l'.pc.batch = l.started ++ l.pc.batch := by
  cases EventLoop.step_cases h with
  | swap hpc => exact .inl ⟨rfl, hpc, rfl⟩
  | startFunctor hpc => exact .inr ⟨rfl, by simp [hpc, LoopPc.batch]⟩
  | queueInLoop =>
    refine .inr ⟨rfl, ?_⟩
    rw [EventLoop.queueInLoop_pc]
    split <;> rfl
  | loop hpc | loopStarted hpc | quits hpc | polls hpc | pollReturns hpc | doPendingFunctors hpc
  | functorsDone hpc => exact .inr ⟨rfl, by simp [hpc, LoopPc.batch]⟩
  | handleRead | functorThrows | quitInLoop | push | storeQuit | wakeup => exact .inr ⟨rfl, rfl⟩

/-- With `quit_` set, every step that brings the thread on its way counts. -/
theorem step_stage (hs : s.Phase) (hquit : s.thread = .running → s.loop.quit = true)
    (hcaller : op ≠ .start) (h : s.step op = some s') :
    (if op.advances then 1 else 0) + s'.stage ≤ s.stage := by
  have hphase := hs
  unfold Phase at hs
  cases step_cases h with
  | start => exact absurd rfl hcaller
  | lock | waits | finds | wake | unlock | returns =>
    exact Nat.le_of_eq (Nat.zero_add _)
  | construct hthread | initialised hthread | storeLoop hthread =>
    simp [stage, hthread, StartLoopOp.advances]
  | setLoopStartedCallback hthread =>
    rw [hthread] at hs
    simp [stage, hthread, hs.2.2, LoopPc.stage, StartLoopOp.advances]
  | notify hpc =>
    obtain ⟨⟨hstarted, -⟩, -⟩ := Option.ite_none_right_eq_some.mp (by rwa [step, hpc] at h)
    cases hthread : s.thread with
    | running => simp [stage, hthread, hpc, hstarted, LoopPc.stage, StartLoopOp.advances]
    | _ => simp [hthread, hpc] at hs
  | loop hl =>
    rename_i o l
    have hcan := canStep_of_step h
    cases hthread : s.thread with
    | running =>
      rw [hthread] at hs
      have hstage := loop_step_stage s.started (hquit hthread) hs.2.2
        (by rintro rfl; simpa [canStep, hthread] using hcan) hl
      rw [stage, stage, hthread]
      show (if o.advances then 1 else 0) + (2 + l.pc.stage s.started) ≤
        2 + s.loop.pc.stage s.started
      omega
    | _ =>
      have hne : s.thread ≠ .running := by simp [hthread]
      have hidle := loop_step_idle (hphase.outside hne)
        (by rintro rfl; simp [canStep, hthread] at hcan) hl
      simp [stage, hthread, StartLoopOp.advances, hidle]
  | exit hthread hlooping =>
    obtain ⟨⟨-, hstarted, -⟩, -⟩ := Option.ite_none_right_eq_some.mp h
    simp [stage, hthread, StartLoopOp.advances]

end EventLoopThread

namespace OwnedThread

variable {τ φ : Type} [DecidableEq τ] {owner : τ} {s s' : OwnedThread τ φ} {op : TeardownOp τ φ}
  {ops ops' : List (TeardownOp τ φ)}

/-- The destructor has called `quit()`, or there was nothing to quit. -/
def Past (s : OwnedThread τ φ) : Prop := s.dtor = .joining ∨ s.dtor = .returned

/-- The invariant of the destructor. -/
structure Orderly (owner : τ) (s : OwnedThread τ φ) : Prop where
  phase : s.inner.Phase
  created : s.inner.Created
  called : s.dtor ≠ .notCalled → s.inner.caller = .idle ∨ s.inner.caller.result ≠ none
  idle : s.dtor = .locking ∨ s.dtor = .testing → s.inner.loop.foreign owner = .idle
  waking : s.dtor = .waking → s.inner.loopPtr ≠ none ∧ s.inner.loop.quit = true ∧
    s.inner.loop.foreign owner ≠ .idle
  quit : s.Past → s.inner.thread = .notCreated ∨ s.inner.thread = .exited ∨
    s.inner.loop.quit = true
  woken : s.Past → s.inner.loop.pc = .polling → 0 < s.inner.loop.eventfd
  gone : s.gone = true → s.inner.thread = .exited
  returned : s.dtor = .returned → s.inner.thread = .notCreated ∨ s.gone = true

omit [DecidableEq τ] in
theorem initial_orderly : (initial : OwnedThread τ φ).Orderly owner where
  phase := EventLoopThread.initial_phase
  created := by simp [initial, EventLoopThread.Created, EventLoopThread.initial]
  called := by simp [initial]
  idle := by simp [initial]
  waking := by simp [initial]
  quit := by simp [initial, Past]
  woken := by simp [initial, Past]
  gone := by simp [initial]
  returned := by simp [initial]

omit [DecidableEq τ] in
/-- Once the destructor is called, `startLoop` has stored the loop or was never called. -/
theorem Orderly.settled (hs : s.Orderly owner) (hdtor : s.dtor ≠ .notCalled) :
    s.inner.thread = .notCreated ∨ s.inner.thread = .exited ∨
      (s.inner.loopPtr ≠ none ∧ (s.inner.thread = .installing ∨ s.inner.thread = .running)) := by
  have hphase := hs.phase
  rcases hs.called hdtor with hidle | hresult
  · exact .inl (hs.created.mp hidle)
  · have hpointer : s.inner.caller.pointer ≠ none := by
      cases hcaller : s.inner.caller with
      | returned r => simp [StartPc.pointer]
      | _ =>
        rw [hcaller] at hresult
        exact absurd rfl hresult
    obtain ⟨ptr, hptr⟩ := Option.ne_none_iff_exists'.mp hpointer
    unfold EventLoopThread.Phase at hphase
    rcases hs.phase.pointer hptr with hthread | hthread | hthread
    · rw [hthread] at hphase
      exact .inr (.inr ⟨hphase.2.1 ▸ hphase.1, .inl hthread⟩)
    · rw [hthread] at hphase
      exact .inr (.inr ⟨hphase.2.1 ▸ hphase.1, .inr hthread⟩)
    · exact .inr (.inl hthread)

/-- What a step inside leaves alone: the thread of an object that is being destroyed neither
appears nor comes back, nobody but the owner acts for it, and `quit_` stays. -/
theorem inner_frame {inner : EventLoopThread τ φ} {op : StartLoopOp τ φ}
    (hop : s.allows owner op = true) (h : s.inner.step op = some inner)
    (hdtor : s.dtor ≠ .notCalled) :
    inner.caller = s.inner.caller ∧
      inner.loop.foreign owner = s.inner.loop.foreign owner ∧
      (s.inner.loop.quit = true → inner.loop.quit = true) ∧
      (s.inner.thread = .notCreated → inner.thread = .notCreated) ∧
      (s.inner.thread = .exited → inner.thread = .exited) ∧
      (s.dtor.holdsMutex = true → inner.loopPtr = s.inner.loopPtr) := by
  cases EventLoopThread.step_cases h with
  | start | lock | waits | finds | wake | unlock | returns =>
    simp [allows, hdtor] at hop
  | construct hthread | initialised hthread | setLoopStartedCallback hthread =>
    simp [hthread]
  | storeLoop hthread | exit hthread =>
    refine ⟨rfl, rfl, id, ?_, ?_, fun hmutex => ?_⟩
    · simp [hthread]
    · simp [hthread]
    · simp [allows, hmutex] at hop
  | notify => exact ⟨rfl, rfl, id, id, id, fun _ => rfl⟩
  | loop hl =>
    refine ⟨rfl, ?_, fun hquit => EventLoop.step_quit hquit hl, id, id, fun _ => rfl⟩
    simp only [allows, hdtor, decide_false, Bool.false_or, Bool.and_eq_true,
      decide_eq_true_eq] at hop
    have hother := hop.2
    cases EventLoop.step_cases hl with
    | push | storeQuit | wakeup =>
      simp only [LoopOp.caller, ne_eq, Option.some.injEq] at hother
      simp [EventLoop.setForeign, EventLoop.pushFunctor, EventLoop.wakeup, Ne.symm hother]
    | queueInLoop => split <;> rfl
    | loop | loopStarted | quits | polls | pollReturns | handleRead | doPendingFunctors | swap
    | startFunctor | functorThrows | functorsDone | quitInLoop => rfl

theorem Orderly.inner (hs : s.Orderly owner) {op : StartLoopOp τ φ} {inner : EventLoopThread τ φ}
    (hop : s.allows owner op = true) (h : s.inner.step op = some inner) :
    Orderly owner { s with inner := inner } := by
  have hphase := EventLoopThread.step_phase hs.phase h
  have hframe := inner_frame hop h
  have hpast : s.Past → s.dtor ≠ .notCalled := by
    rintro (hdtor | hdtor) <;> simp [hdtor]
  have hquit : s.Past → inner.thread = .notCreated ∨ inner.thread = .exited ∨
      inner.loop.quit = true := by
    intro hp
    obtain ⟨-, -, hquit, hnot, hexited, -⟩ := hframe (hpast hp)
    exact (hs.quit hp).imp hnot (Or.imp hexited hquit)
  refine ⟨hphase, EventLoopThread.step_created hs.created h, ?_, ?_, ?_, hquit, ?_, ?_, ?_⟩
  · intro hdtor
    rw [(hframe hdtor).1]
    exact hs.called hdtor
  · intro (hdtor : s.dtor = .locking ∨ s.dtor = .testing)
    rw [(hframe (by rcases hdtor with hdtor | hdtor <;> simp [hdtor])).2.1]
    exact hs.idle hdtor
  · intro (hdtor : s.dtor = .waking)
    obtain ⟨-, howner, hquit, -, -, hptr⟩ := hframe (by simp [hdtor])
    obtain ⟨hloop, hq, hbusy⟩ := hs.waking hdtor
    rw [howner, hptr (by rw [hdtor]; rfl)]
    exact ⟨hloop, hquit hq, hbusy⟩
  · intro hp hpolling
    -- a thread in `poll` is running, and has been told to quit
    have hrunning : inner.thread = .running := by
      by_contra hne
      cases (hphase.outside hne).symm.trans hpolling
    cases EventLoopThread.step_cases h with
    | loop hl =>
      have hq : s.inner.loop.quit = true := by
        rcases hs.quit hp with hthread | hthread | hq
        · cases hthread.symm.trans hrunning
        · cases hthread.symm.trans hrunning
        · exact hq
      obtain ⟨hbefore, -, hle⟩ := EventLoopThread.loop_step_polling hq hl hpolling
      exact Nat.lt_of_lt_of_le (hs.woken hp hbefore) hle
    | start | lock | waits | finds | wake | unlock | returns | construct | initialised
    | storeLoop | setLoopStartedCallback | notify | exit => exact hs.woken hp hpolling
  · intro hgone
    have hexited := hs.gone hgone
    cases EventLoopThread.step_cases h with
    | start _ hthread | construct hthread | initialised hthread | storeLoop hthread
    | setLoopStartedCallback hthread | exit hthread => cases hthread.symm.trans hexited
    | lock | waits | finds | wake | unlock | returns | notify | loop => exact hexited
  · intro (hdtor : s.dtor = .returned)
    exact (hs.returned hdtor).imp_left (hframe (by simp [hdtor])).2.2.2.1

theorem step_orderly (hs : s.Orderly owner) (h : step owner s op = some s') :
    s'.Orderly owner := by
  cases step_cases h with
  | inner hop hinner => exact hs.inner hop hinner
  | destructor _ hcaller howner =>
    exact ⟨hs.phase, hs.created, fun _ => hcaller, fun _ => howner, by simp, by simp [Past],
      by simp [Past], hs.gone, by simp⟩
  | lock hdtor =>
    exact ⟨hs.phase, hs.created, fun _ => hs.called (by simp [hdtor]),
      fun _ => hs.idle (.inl hdtor), by simp, by simp [Past], by simp [Past], hs.gone, by simp⟩
  | noLoop hdtor hptr =>
    have hcalled : s.dtor ≠ .notCalled := by simp [hdtor]
    have hover : s.inner.thread = .notCreated ∨ s.inner.thread = .exited := by
      rcases hs.settled hcalled with hthread | hthread | ⟨hloop, -⟩
      · exact .inl hthread
      · exact .inr hthread
      · exact absurd hptr hloop
    refine ⟨hs.phase, hs.created, fun _ => hs.called hcalled, by simp, by simp,
      fun _ => hover.imp_right Or.inl, fun _ hpolling => ?_, hs.gone, by simp⟩
    have hne : s.inner.thread ≠ .running := by
      rcases hover with hthread | hthread <;> simp [hthread]
    cases (hs.phase.outside hne).symm.trans hpolling
  | quits hdtor hptr hloop =>
    cases EventLoop.step_cases hloop with
    | storeQuit howner =>
      refine ⟨hs.phase, hs.created, fun _ => hs.called (by simp [hdtor]), by simp, fun _ => ?_,
        by simp [Past], by simp [Past], hs.gone, by simp⟩
      refine ⟨?_, rfl, ?_⟩
      · show s.inner.loopPtr ≠ none
        rw [hptr]
        simp
      · simp [EventLoop.setForeign]
  | wakeup hdtor hloop =>
    obtain ⟨-, hquit, -⟩ := hs.waking hdtor
    cases EventLoop.step_cases hloop with
    | wakeup =>
      exact ⟨hs.phase, hs.created, fun _ => hs.called (by simp [hdtor]), by simp, by simp,
        fun _ => .inr (.inr hquit), fun _ _ => Nat.succ_pos _, hs.gone, by simp⟩
  | threadReturns hthread =>
    exact ⟨hs.phase, hs.created, hs.called, hs.idle, hs.waking, hs.quit, hs.woken,
      fun _ => hthread, fun _ => .inr rfl⟩
  | join hdtor hthread =>
    exact ⟨hs.phase, hs.created, fun _ => hs.called (by simp [hdtor]), by simp, by simp,
      fun _ => hs.quit (.inl hdtor), fun _ => hs.woken (.inl hdtor), hs.gone, fun _ => hthread⟩

theorem run_orderly (hrun : Machine.run (step owner) initial ops = some s) : s.Orderly owner :=
  Machine.run_invariant (fun _ _ _ hs h => step_orderly hs h) hrun initial_orderly

/-- Without a thread, and after it has left the loop, nothing happens inside. -/
theorem Orderly.inner_stuck (hs : s.Orderly owner) (hcalled : s.dtor ≠ .notCalled)
    (hthread : s.inner.thread = .notCreated ∨ s.inner.thread = .exited) {op : StartLoopOp τ φ}
    {inner : EventLoopThread τ φ} (hop : s.allows owner op = true)
    (h : s.inner.step op = some inner) : False := by
  have hne : s.inner.thread ≠ .running := by
    rcases hthread with hthread | hthread <;> simp [hthread]
  cases EventLoopThread.step_cases h with
  | start | lock | waits | finds | wake | unlock | returns => simp [allows, hcalled] at hop
  | construct hat | initialised hat | storeLoop hat | setLoopStartedCallback hat =>
    rcases hthread with hthread | hthread <;> cases hthread.symm.trans hat
  | notify hpc => cases (hs.phase.outside hne).symm.trans hpc
  | exit hrunning => exact hne hrunning
  | loop hl =>
    rename_i o l
    have hcan := EventLoopThread.canStep_of_step h
    have hphase := hs.phase
    unfold EventLoopThread.Phase at hphase
    rcases hthread with hthread | hthread
    · -- there is no loop
      rw [hthread] at hphase
      cases o <;> simp [EventLoopThread.canStep, hthread, hphase.1, hphase.2.2.2.2] at hcan
    · simp [allows, hthread] at hop

/-- The destructor is using the loop behind `loop_`. -/
def UsesLoop (s : OwnedThread τ φ) : Prop :=
  s.dtor = .testing ∧ s.inner.loopPtr ≠ none ∨ s.dtor = .waking

/-- **The destructor is safe.**  For every interleaving of the owner, the thread and the users of
the loop: as long as the destructor uses the loop behind `loop_`, that is the loop of
`threadFunc` and `threadFunc` has not left it; and once the destructor has returned, no step is
possible any more, so that neither the thread nor anybody else touches what it destroys. -/
theorem destructor_safe (hrun : Machine.run (step owner) initial ops = some s) :
    (s.UsesLoop → s.inner.loopPtr = s.inner.address ∧ s.inner.address ≠ none ∧
      s.inner.thread ≠ .exited ∧ s.gone = false) ∧
      (s.dtor = .returned → ∀ op, step owner s op = none) := by
  have hs := run_orderly hrun
  refine ⟨fun huses => ?_, fun hdtor op => ?_⟩
  · obtain ⟨ptr, hptr⟩ : ∃ ptr, s.inner.loopPtr = some ptr := by
      rcases huses with ⟨-, hloop⟩ | hdtor
      · exact Option.ne_none_iff_exists'.mp hloop
      · exact Option.ne_none_iff_exists'.mp (hs.waking hdtor).1
    have hphase := hs.phase
    unfold EventLoopThread.Phase at hphase
    have hne : s.inner.thread ≠ .exited ∧ s.inner.loopPtr = s.inner.address ∧
        s.inner.address ≠ none := by
      rcases hs.phase.stored hptr with hthread | hthread
      · rw [hthread] at hphase ⊢
        exact ⟨by simp, hphase.2.1, hphase.1⟩
      · rw [hthread] at hphase ⊢
        exact ⟨by simp, hphase.2.1, hphase.1⟩
    refine ⟨hne.2.1, hne.2.2, hne.1, ?_⟩
    cases hgone : s.gone with
    | false => rfl
    | true => exact absurd (hs.gone hgone) hne.1
  · cases hstep : step owner s op with
    | none => rfl
    | some s' =>
      exfalso
      have hcalled : s.dtor ≠ .notCalled := by simp [hdtor]
      cases step_cases hstep with
      | destructor h | lock h | noLoop h | quits h | wakeup h | join h => cases hdtor.symm.trans h
      | threadReturns hthread hgone =>
        rcases hs.returned hdtor with hnot | hgone'
        · cases hnot.symm.trans hthread
        · cases hgone.symm.trans hgone'
      | inner hop hinner =>
        exact hs.inner_stuck hcalled ((hs.returned hdtor).imp_right hs.gone) hop hinner

/-- `startLoop` returns before the thread has entered `loop()`, and the object is destroyed at
once. -/
def earlyDestructor : List (TeardownOp Nat Nat) :=
  [.inner .start, .inner (.construct 7), .inner .initialised, .inner .storeLoop, .inner .lock,
    .inner .testLoop, .inner .unlock, .inner .returns, .destructor, .lock, .testLoop]

theorem destructor_safe_early :
    ∃ s, Machine.run (step 0) (initial : OwnedThread Nat Nat) earlyDestructor = some s ∧
      s.dtor = .waking ∧ s.inner.loopPtr = s.inner.address ∧ s.inner.address ≠ none ∧
      s.inner.thread ≠ .exited ∧ s.gone = false := by
  obtain ⟨s, hrun⟩ : ∃ s, Machine.run (step 0) (initial : OwnedThread Nat Nat)
      earlyDestructor = some s := ⟨_, rfl⟩
  have hsafe := (destructor_safe hrun).1
  obtain rfl := Option.some.inj hrun
  exact ⟨_, rfl, rfl, hsafe (.inr rfl)⟩

/-! ## The destructor returns -/

end OwnedThread

/-- The steps that bring the thread on its way, other than the execution of a functor. -/
def TeardownOp.advances {τ φ : Type} : TeardownOp τ φ → Bool
  | .inner op => op.advances
  | .threadReturns => true
  | _ => false

/-- The loop takes a step of the given kind. -/
def TeardownOp.ofLoop {τ φ : Type} (kind : LoopOp τ φ → Bool) : TeardownOp τ φ → Bool
  | .inner (.loop op) => kind op
  | _ => false

/-- The thread returns from `poll`. -/
def TeardownOp.polls {τ φ : Type} : TeardownOp τ φ → Bool :=
  TeardownOp.ofLoop LoopOp.polls

/-- The thread takes the functors of a batch. -/
def TeardownOp.swaps {τ φ : Type} : TeardownOp τ φ → Bool :=
  TeardownOp.ofLoop LoopOp.swaps

namespace OwnedThread

variable {τ φ : Type} [DecidableEq τ] {owner : τ} {s s' : OwnedThread τ φ} {op : TeardownOp τ φ}
  {ops ops' : List (TeardownOp τ φ)}

def stage (s : OwnedThread τ φ) : Nat := if s.gone then 0 else s.inner.stage

theorem step_past (hs : s.Past) (h : step owner s op = some s') : s'.Past := by
  cases step_cases h with
  | destructor hdtor | lock hdtor | noLoop hdtor | quits hdtor | wakeup hdtor =>
    rcases hs with hs | hs <;> cases hdtor.symm.trans hs
  | inner | threadReturns => exact hs
  | join => exact .inr rfl

theorem step_stage (hs : s.Orderly owner) (hpast : s.Past) (h : step owner s op = some s') :
    (if op.advances then 1 else 0) + s'.stage ≤ s.stage := by
  have hcalled : s.dtor ≠ .notCalled := by
    rcases hpast with hdtor | hdtor <;> simp [hdtor]
  cases step_cases h with
  | destructor hdtor | lock hdtor | noLoop hdtor | quits hdtor | wakeup hdtor =>
    rcases hpast with hs | hs <;> cases hdtor.symm.trans hs
  | threadReturns hthread hgone =>
    simp [stage, hgone, EventLoopThread.stage, hthread, TeardownOp.advances]
  | join => exact Nat.le_of_eq (Nat.zero_add _)
  | inner hop hinner =>
    cases hgone : s.gone with
    | true => exact absurd hinner fun hinner =>
        hs.inner_stuck hcalled (.inr (hs.gone hgone)) hop hinner
    | false =>
      have hquit : s.inner.thread = .running → s.inner.loop.quit = true := by
        intro hrunning
        rcases hs.quit hpast with hthread | hthread | hquit
        · cases hthread.symm.trans hrunning
        · cases hthread.symm.trans hrunning
        · exact hquit
      have hstart : ∀ op', s.allows owner op' = true → op' ≠ .start := by
        rintro _ hop' rfl
        simp [allows, hcalled] at hop'
      simp only [stage, hgone]
      exact EventLoopThread.step_stage hs.phase hquit (hstart _ hop) hinner

/-- Once the destructor waits, `quit_` is set when the loop takes a step, and no other step
touches the loop. -/
theorem step_loop (hs : s.Orderly owner) (hpast : s.Past) (h : step owner s op = some s') :
    (∃ o, op = .inner (.loop o) ∧ s.inner.loop.quit = true ∧
      s.inner.loop.step o = some s'.inner.loop) ∨
    (∀ o, op ≠ .inner (.loop o)) ∧ s'.inner.loop = s.inner.loop := by
  have hcalled : s.dtor ≠ .notCalled := by
    rcases hpast with hdtor | hdtor <;> simp [hdtor]
  cases step_cases h with
  | destructor hdtor | lock hdtor | noLoop hdtor | quits hdtor | wakeup hdtor =>
    rcases hpast with hs | hs <;> cases hdtor.symm.trans hs
  | threadReturns | join => exact .inr ⟨nofun, rfl⟩
  | inner hop hinner =>
    rcases hs.quit hpast with hthread | hthread | hquit
    · exact absurd hinner fun hinner => hs.inner_stuck hcalled (.inl hthread) hop hinner
    · exact absurd hinner fun hinner => hs.inner_stuck hcalled (.inr hthread) hop hinner
    · cases EventLoopThread.step_cases hinner with
      | loop hl => exact .inl ⟨_, rfl, hquit, hl⟩
      | start | lock | waits | finds | wake | unlock | returns | construct | initialised
      | storeLoop | setLoopStartedCallback | notify | exit => exact .inr ⟨nofun, rfl⟩

/-- What bounds the steps of a kind that the loop takes, bounds those of the thread. -/
theorem run_ofLoop_le {kind : LoopOp τ φ → Bool} (left : LoopPc φ → Nat)
    (hloop : ∀ {l l' : EventLoop τ φ} {o : LoopOp τ φ}, l.quit = true → l.step o = some l' →
      (if kind o then 1 else 0) + left l'.pc ≤ left l.pc)
    (hs : s.Orderly owner) (hpast : s.Past) (hrun : Machine.run (step owner) s ops = some s') :
    ops.countP (TeardownOp.ofLoop kind) + left s'.inner.loop.pc ≤ left s.inner.loop.pc := by
  refine Machine.run_countP_le (fun s => left s.inner.loop.pc)
    (P := fun s => s.Orderly owner ∧ s.Past) (fun s op s' hP h => ?_) hrun ⟨hs, hpast⟩
  refine ⟨⟨step_orderly hP.1 h, step_past hP.2 h⟩, ?_⟩
  rcases step_loop hP.1 hP.2 h with ⟨o, rfl, hquit, hl⟩ | ⟨hother, hsame⟩
  · exact hloop hquit hl
  · have hkind : op.ofLoop kind = false := by
      unfold TeardownOp.ofLoop
      split
      · exact absurd rfl (hother _)
      · rfl
    rw [hkind, hsame]
    exact Nat.le_of_eq (Nat.zero_add _)

theorem run_polls_le (hs : s.Orderly owner) (hpast : s.Past)
    (hrun : Machine.run (step owner) s ops = some s') :
    ops.countP TeardownOp.polls + s'.inner.loop.pc.polls ≤ s.inner.loop.pc.polls :=
  run_ofLoop_le LoopPc.polls EventLoopThread.loop_step_polls hs hpast hrun

theorem run_swaps_le (hs : s.Orderly owner) (hpast : s.Past)
    (hrun : Machine.run (step owner) s ops = some s') :
    ops.countP TeardownOp.swaps + s'.inner.loop.pc.swaps ≤ s.inner.loop.pc.swaps :=
  run_ofLoop_le LoopPc.swaps EventLoopThread.loop_step_swaps hs hpast hrun

/-- Without another batch, the functors that are executed are the first of the batch. -/
theorem run_batch (hs : s.Orderly owner) (hpast : s.Past)
    (hrun : Machine.run (step owner) s ops = some s') (hno : ops.countP TeardownOp.swaps = 0) :
    s'.inner.loop.started ++ s'.inner.loop.pc.batch =
      s.inner.loop.started ++ s.inner.loop.pc.batch := by
  have hnone : ∀ op ∈ ops, op.swaps = false := by simpa [List.countP_eq_zero] using hno
  refine (Machine.run_invariant_mem (P := fun t : OwnedThread τ φ => (t.Orderly owner ∧ t.Past) ∧
    t.inner.loop.started ++ t.inner.loop.pc.batch =
      s.inner.loop.started ++ s.inner.loop.pc.batch) ?_ hrun ⟨⟨hs, hpast⟩, rfl⟩).2
  rintro op hop t t' ⟨⟨ht, htpast⟩, hsame⟩ h
  refine ⟨⟨step_orderly ht h, step_past htpast h⟩, Eq.trans ?_ hsame⟩
  rcases step_loop ht htpast h with ⟨o, rfl, -, hl⟩ | ⟨-, hloop⟩
  · rcases EventLoopThread.loop_step_batch hl with ⟨hswap, -⟩ | ⟨-, heq⟩
    · have hfalse : o.swaps = false := hnone _ hop
      cases hswap.symm.trans hfalse
    · exact heq
  · rw [hloop]

/-- All functors that are executed are of one batch, of which there may be some left. -/
theorem run_one_batch (hs : s.Orderly owner) (hpast : s.Past)
    (hrun : Machine.run (step owner) s ops = some s') :
    ∃ pre post t, ops = pre ++ post ∧ Machine.run (step owner) s pre = some t ∧
      s'.inner.loop.started ++ s'.inner.loop.pc.batch =
        s.inner.loop.started ++ t.inner.loop.pc.batch := by
  by_cases hno : ops.countP TeardownOp.swaps = 0
  · exact ⟨[], ops, s, rfl, rfl, run_batch hs hpast hrun hno⟩
  · obtain ⟨op, hop, hswaps⟩ := List.countP_pos_iff.mp (Nat.pos_of_ne_zero hno)
    obtain ⟨pre, post, rfl⟩ := List.append_of_mem hop
    obtain ⟨t, u, hpre, hswap, hpost⟩ := Machine.run_split_eq_some.mp hrun
    have ht : t.Orderly owner ∧ t.Past :=
      Machine.run_invariant (P := fun t => t.Orderly owner ∧ t.Past)
        (fun _ _ _ hP h => ⟨step_orderly hP.1 h, step_past hP.2 h⟩) hpre ⟨hs, hpast⟩
    refine ⟨pre ++ [op], post, u, by simp, Machine.run_append_eq_some.mpr
      ⟨t, hpre, Machine.run_singleton_eq_some.mpr hswap⟩, ?_⟩
    have hu : u.Orderly owner ∧ u.Past := ⟨step_orderly ht.1 hswap, step_past ht.2 hswap⟩
    rcases step_loop ht.1 ht.2 hswap with ⟨o, rfl, hquit, hl⟩ | ⟨hother, -⟩
    · have ho : o.swaps = true := hswaps
      obtain ⟨hraised, hstarted⟩ : t.inner.loop.pc = .raised ∧
          u.inner.loop.started = t.inner.loop.started := by
        rcases EventLoopThread.loop_step_batch hl with ⟨-, hraised⟩ | ⟨hfalse, -⟩
        · exact hraised
        · cases ho.symm.trans hfalse
      -- the loop takes no batch before this one, and none after it
      have hbefore := run_swaps_le hs hpast hpre
      have hle := EventLoopThread.loop_step_swaps hquit hl
      have hafter := run_swaps_le hu.1 hu.2 hpost
      rw [hraised, LoopPc.swaps_raised] at hbefore hle
      rw [if_pos ho] at hle
      have hone := s.inner.loop.pc.swaps_le
      have hempty : s.inner.loop.pc.batch = [] := LoopPc.batch_of_swaps (by omega)
      have hsame := run_batch hs hpast hpre (by omega)
      rw [hempty, hraised, LoopPc.batch_raised, List.append_nil, List.append_nil] at hsame
      rw [run_batch hu.1 hu.2 hpost (by omega), hstarted, hsame]
    · obtain ⟨o, rfl⟩ : ∃ o, op = .inner (.loop o) := by
        unfold TeardownOp.swaps TeardownOp.ofLoop at hswaps
        split at hswaps
        · exact ⟨_, rfl⟩
        · cases hswaps
      exact absurd rfl (hother o)

/-- As long as `threadFunc` has not returned, the thread can go on. -/
theorem Orderly.can_advance (hs : s.Orderly owner) (hdtor : s.dtor = .joining)
    (hthread : s.inner.thread ≠ .notCreated) (hgone : s.gone = false) :
    ∃ op : TeardownOp τ φ, (op.advances = true ∨ op = .inner (.loop .startFunctor)) ∧
      (step owner s op).isSome = true := by
  have hcalled : s.dtor ≠ .notCalled := by simp [hdtor]
  have hmutex : s.dtor.holdsMutex = false := by rw [hdtor]; rfl
  have hcaller : s.inner.caller.holdsMutex = false := by
    rcases hs.called hcalled with hidle | hresult
    · rw [hidle]; rfl
    · cases h : s.inner.caller with
      | testing | leaving =>
        rw [h] at hresult
        exact absurd rfl hresult
      | _ => rfl
  rcases hs.settled hcalled with hnot | hexited | ⟨-, hinstalling | hrunning⟩
  · exact absurd hnot hthread
  · exact ⟨.threadReturns, .inl rfl, by simp [step, hexited, hgone]⟩
  · exact ⟨.inner .setLoopStartedCallback, .inl rfl,
      by simp [step, allows, EventLoopThread.step, hinstalling]⟩
  · have hphase := hs.phase
    unfold EventLoopThread.Phase at hphase
    rw [hrunning] at hphase
    obtain ⟨haddress, -, hearly⟩ := hphase
    have haddress : s.inner.address.isSome = true := Option.isSome_iff_ne_none.mpr haddress
    -- a step of the loop alone
    have hloop : ∀ o : LoopOp τ φ, o.caller = none → s.inner.canStep o = true →
        (s.inner.loop.step o).isSome = true →
        (step owner s (.inner (.loop o))).isSome = true := by
      intro o ho hcan hstep
      simp [step, allows, EventLoopThread.step, hrunning, hcan, ho, hstep]
    cases hpc : s.inner.loop.pc with
    | outside =>
      cases hstarted : s.inner.started with
      | true =>
        exact ⟨.inner .exit, .inl rfl, by
          simp [step, allows, EventLoopThread.step, hrunning, hstarted, hpc, hmutex, hcaller,
            LoopPc.looping]⟩
      | false =>
        exact ⟨.inner (.loop .loop), .inl rfl, hloop _ rfl
          (by simp [EventLoopThread.canStep, hrunning, hstarted]) (by simp [EventLoop.step, hpc])⟩
    | starting =>
      cases hstarted : s.inner.started with
      | true =>
        exact ⟨.inner (.loop .loopStarted), .inl rfl, hloop _ rfl hstarted
          (by simp [EventLoop.step, hpc])⟩
      | false =>
        exact ⟨.inner .notify, .inl rfl, by
          simp [step, allows, EventLoopThread.step, hstarted, hpc, hmutex, hcaller]⟩
    | testing =>
      exact ⟨.inner (.loop .testQuit), .inl rfl, hloop _ rfl haddress
        (by simp [EventLoop.step, hpc])⟩
    | polling =>
      exact ⟨.inner (.loop .pollReturns), .inl rfl, hloop _ rfl haddress
        (by simp [EventLoop.step, hpc])⟩
    | handling =>
      exact ⟨.inner (.loop .doPendingFunctors), .inl rfl, hloop _ rfl haddress
        (by simp [EventLoop.step, hpc])⟩
    | raised =>
      exact ⟨.inner (.loop .swap), .inl rfl, hloop _ rfl haddress (by simp [EventLoop.step, hpc])⟩
    | running rest =>
      cases rest with
      | nil =>
        exact ⟨.inner (.loop .functorsDone), .inl rfl, hloop _ rfl haddress
          (by simp [EventLoop.step, hpc])⟩
      | cons f rest =>
        exact ⟨.inner (.loop .startFunctor), .inr rfl, hloop _ rfl haddress
          (by simp [EventLoop.step, hpc])⟩

omit [DecidableEq τ] in
theorem Orderly.stage_le (hs : s.Orderly owner) (hpast : s.Past) : s.stage ≤ 13 := by
  have hcalled : s.dtor ≠ .notCalled := by
    rcases hpast with hdtor | hdtor <;> simp [hdtor]
  have hloop : s.inner.loop.pc.stage s.inner.started ≤ 10 := by
    unfold LoopPc.stage
    split <;> try omega
    all_goals split <;> omega
  unfold stage EventLoopThread.stage
  split
  · omega
  · rcases hs.settled hcalled with hthread | hthread | ⟨-, hthread | hthread⟩ <;> rw [hthread] <;>
      dsimp only <;> omega

/-- **The destructor returns.**  In every run, from the moment the destructor waits in `join()`
as long as it does: the thread takes at most 13 steps besides the execution of the functors of one
batch, the one it has taken or the only one it still takes; it returns from `poll` at most once
and is not left waiting there, since the eventfd is readable; and it can always go on, until
`join()` can return. -/
theorem destructor_returns (hrun : Machine.run (step owner) initial ops = some s)
    (hdtor : s.dtor = .joining) (hrest : Machine.run (step owner) s ops' = some s')
    (hdtor' : s'.dtor = .joining) :
    ops'.countP TeardownOp.advances ≤ 13 ∧ ops'.countP TeardownOp.polls ≤ 1 ∧
      ops'.countP TeardownOp.swaps ≤ 1 ∧
      (∃ pre post t, ops' = pre ++ post ∧ Machine.run (step owner) s pre = some t ∧
        s'.inner.loop.started ++ s'.inner.loop.pc.batch =
          s.inner.loop.started ++ t.inner.loop.pc.batch) ∧
      (s'.inner.loop.pc = .polling → 0 < s'.inner.loop.eventfd) ∧
      ((step owner s' .join).isSome = true ∨
        ∃ op : TeardownOp τ φ, (op.advances = true ∨ op = .inner (.loop .startFunctor)) ∧
          (step owner s' op).isSome = true) := by
  have hs := run_orderly hrun
  have hs' : s'.Orderly owner :=
    Machine.run_invariant (fun _ _ _ hs h => step_orderly hs h) hrest hs
  have hadvances : ops'.countP TeardownOp.advances + s'.stage ≤ s.stage :=
    Machine.run_countP_le stage (P := fun s => s.Orderly owner ∧ s.Past) (fun _ _ _ hP h =>
      ⟨⟨step_orderly hP.1 h, step_past hP.2 h⟩, step_stage hP.1 hP.2 h⟩) hrest ⟨hs, .inl hdtor⟩
  have hpolls := run_polls_le hs (.inl hdtor) hrest
  have hswaps := run_swaps_le hs (.inl hdtor) hrest
  have hstage := hs.stage_le (.inl hdtor)
  have hpoll : s.inner.loop.pc.polls ≤ 1 := by
    unfold LoopPc.polls
    split <;> omega
  have hswap := s.inner.loop.pc.swaps_le
  refine ⟨by omega, by omega, by omega, run_one_batch hs (.inl hdtor) hrest,
    hs'.woken (.inl hdtor'), ?_⟩
  by_cases hthread : s'.inner.thread = .notCreated
  · exact .inl (by simp [step, hdtor', hthread])
  · cases hgone : s'.gone with
    | true => exact .inl (by simp [step, hdtor', hgone])
    | false => exact .inr (hs'.can_advance hdtor' hthread hgone)

/-- The loop is told to quit before `loop()` is entered; it runs `loopStartedCallback_` and
returns. -/
theorem destructor_returns_early :
    ∃ s s', Machine.run (step 0) (initial : OwnedThread Nat Nat)
        (earlyDestructor ++ [.wakeup]) = some s ∧
      Machine.run (step 0) s
        [.inner .setLoopStartedCallback, .inner (.loop .loop), .inner .notify,
          .inner (.loop .loopStarted), .inner (.loop .testQuit), .inner .exit] = some s' ∧
      ((step 0 s' .join).isSome = true ∨
        ∃ op : TeardownOp Nat Nat, (op.advances = true ∨ op = .inner (.loop .startFunctor)) ∧
          (step 0 s' op).isSome = true) := by
  obtain ⟨s, hrun⟩ : ∃ s, Machine.run (step 0) (initial : OwnedThread Nat Nat)
      (earlyDestructor ++ [.wakeup]) = some s := ⟨_, rfl⟩
  obtain ⟨s', hrest⟩ : ∃ s', Machine.run (step 0) s
        [.inner .setLoopStartedCallback, .inner (.loop .loop), .inner .notify,
          .inner (.loop .loopStarted), .inner (.loop .testQuit), .inner .exit] = some s' := by
    obtain rfl := Option.some.inj hrun
    exact ⟨_, rfl⟩
  have hreturns := fun h h' => destructor_returns hrun h hrest h'
  refine ⟨s, s', hrun, hrest, ?_⟩
  obtain rfl := Option.some.inj hrun
  obtain rfl := Option.some.inj hrest
  exact (hreturns rfl rfl).2.2.2.2.2

end OwnedThread
end ReMuduo
