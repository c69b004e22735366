import ReMuduo.EventLoop

/-! # Starting an event loop in a thread of its own

`EventLoopThread` (`src/base/EventLoopThread.cpp`).  `startLoop` creates the thread and waits
on a condition variable until `loop_` is set.  The thread stores `loop_` before it enters
`loop()`, and notifies the caller from `loopStartedCallback_`, inside `loop()`.

The sections of the thread that hold `mutex_` are single steps, possible while the caller
does not hold it; what the thread does without the mutex may also happen while the caller
does.  The wait of the caller may end at any time, by the notification or for no reason.  The
loop is the machine of `EventLoop`.

Since the caller waits for `loop_` and not for the notification, `startLoop` may return before
the loop runs (`startLoop_running_iff`). -/
namespace ReMuduo

/-- `looping_`. -/
def LoopPc.looping {φ : Type} : LoopPc φ → Bool
  | .outside => false
  | _ => true

/-- What `startLoop` returns, and what the loop of the thread was doing at that moment:
`looping_`, and whether its `loopStartedCallback_` had run. -/
structure StartResult where
  ptr : Nat
  looping : Bool
  started : Bool
deriving DecidableEq

/-- Where the call of `startLoop` is. -/
inductive StartPc where
  | idle
  /-- About to take the mutex, at first or at the end of a wait. -/
  | locking
  /-- About to test `loop_`, with the mutex. -/
  | testing
  /-- In `cond_.wait`. -/
  | waiting
  /-- The pointer has been read, and the mutex is still held. -/
  | leaving (ptr : Nat)
  | unlocked (ptr : Nat)
  | returned (result : StartResult)
deriving DecidableEq

namespace StartPc

def holdsMutex : StartPc → Bool
  | .testing | .leaving _ => true
  | _ => false

/-- The pointer that the caller has read. -/
def pointer : StartPc → Option Nat
  | .leaving ptr | .unlocked ptr => some ptr
  | .returned result => some result.ptr
  | _ => none

def result : StartPc → Option StartResult
  | .returned result => some result
  | _ => none

end StartPc

/-- Where `threadFunc` is. -/
inductive ThreadFuncPc where
  | notCreated
  /-- About to construct the loop. -/
  | constructing
  /-- In `callback_(&loop)`. -/
  | initCallback
  /-- About to store `loop_`. -/
  | storing
  /-- About to call `setLoopStartedCallback`. -/
  | installing
  /-- About to call `loop.loop()`, or inside it. -/
  | running
  | exited
deriving DecidableEq

/-- `loopPtr` is `loop_`; `address` and `loop` are the loop of `threadFunc`, once there is one;
`started` says that its `loopStartedCallback_` has notified. -/
structure EventLoopThread (τ φ : Type) where
  loopPtr : Option Nat
  caller : StartPc
  thread : ThreadFuncPc
  address : Option Nat
  loop : EventLoop τ φ
  started : Bool

inductive StartLoopOp (τ φ : Type) where
  /-- `startLoop` calls `thread.start()`. -/
  | start
  | lock
  | testLoop
  /-- The wait of the caller ends. -/
  | wake
  | unlock
  | returns
  | construct (address : Nat)
  /-- `callback_` has returned. -/
  | initialised
  | storeLoop
  | setLoopStartedCallback
  /-- The body of `loopStartedCallback_`. -/
  | notify
  /-- A step of the loop or of its users. -/
  | loop (op : LoopOp τ φ)
  /-- The end of `threadFunc`, after `loop()` has returned. -/
  | exit

/-- A call of `quit()`. -/
def StartLoopOp.quits {τ φ : Type} : StartLoopOp τ φ → Bool
  | .loop .quitInLoop | .loop (.storeQuit _) => true
  | _ => false

namespace EventLoopThread

variable {τ φ : Type} [DecidableEq τ] {s s' : EventLoopThread τ φ} {op : StartLoopOp τ φ}
  {ops : List (StartLoopOp τ φ)}

def initial : EventLoopThread τ φ where
  loopPtr := none
  caller := .idle
  thread := .notCreated
  address := none
  loop := EventLoop.initial
  started := false

/-- `loop()` is called by `threadFunc`, and `loopStartedCallback_` returns after it has
notified; all else only needs a loop. -/
def canStep (s : EventLoopThread τ φ) : LoopOp τ φ → Bool
  | .loop => decide (s.thread = .running) && !s.started
  | .loopStarted => s.started
  | _ => s.address.isSome

def step (s : EventLoopThread τ φ) : StartLoopOp τ φ → Option (EventLoopThread τ φ)
  | .start =>
    if s.caller = .idle ∧ s.thread = .notCreated then
      some { s with caller := .locking, thread := .constructing }
    else none
  | .lock => if s.caller = .locking then some { s with caller := .testing } else none
  | .testLoop =>
    if s.caller = .testing then
      some { s with caller := match s.loopPtr with | none => .waiting | some ptr => .leaving ptr }
    else none
  | .wake => if s.caller = .waiting then some { s with caller := .locking } else none
  | .unlock =>
    match s.caller with
    | .leaving ptr => some { s with caller := .unlocked ptr }
    | _ => none
  | .returns =>
    match s.caller with
    | .unlocked ptr => some { s with caller := .returned ⟨ptr, s.loop.pc.looping, s.started⟩ }
    | _ => none
  | .construct address =>
    if s.thread = .constructing then
      some { s with thread := .initCallback, address := some address }
    else none
  | .initialised => if s.thread = .initCallback then some { s with thread := .storing } else none
  | .storeLoop =>
    if s.thread = .storing ∧ s.caller.holdsMutex = false then
      some { s with thread := .installing, loopPtr := s.address }
    else none
  | .setLoopStartedCallback =>
    if s.thread = .installing then some { s with thread := .running } else none
  | .notify =>
    match s.loop.pc with
    | .starting =>
      if s.started = false ∧ s.caller.holdsMutex = false then some { s with started := true }
      else none
    | _ => none
  | .loop op =>
    if s.canStep op then (s.loop.step op).map fun loop => { s with loop := loop } else none
  | .exit =>
    if s.thread = .running ∧ s.started = true ∧ s.loop.pc.looping = false ∧
        s.caller.holdsMutex = false then
      some { s with thread := .exited, loopPtr := none }
    else none

/-- What the steps do, one constructor for each kind. -/
inductive Step (s : EventLoopThread τ φ) : StartLoopOp τ φ → EventLoopThread τ φ → Prop
  | start : s.caller = .idle → s.thread = .notCreated →
      Step s .start { s with caller := .locking, thread := .constructing }
  | lock : s.caller = .locking → Step s .lock { s with caller := .testing }
  | waits : s.caller = .testing → s.loopPtr = none → Step s .testLoop { s with caller := .waiting }
  | finds {ptr} : s.caller = .testing → s.loopPtr = some ptr →
      Step s .testLoop { s with caller := .leaving ptr }
  | wake : s.caller = .waiting → Step s .wake { s with caller := .locking }
  | unlock {ptr} : s.caller = .leaving ptr → Step s .unlock { s with caller := .unlocked ptr }
  | returns {ptr} : s.caller = .unlocked ptr →
      Step s .returns { s with caller := .returned ⟨ptr, s.loop.pc.looping, s.started⟩ }
  | construct {address} : s.thread = .constructing →
      Step s (.construct address) { s with thread := .initCallback, address := some address }
  | initialised : s.thread = .initCallback → Step s .initialised { s with thread := .storing }
  | storeLoop : s.thread = .storing → s.caller.holdsMutex = false →
      Step s .storeLoop { s with thread := .installing, loopPtr := s.address }
  | setLoopStartedCallback : s.thread = .installing →
      Step s .setLoopStartedCallback { s with thread := .running }
  | notify : s.loop.pc = .starting → s.caller.holdsMutex = false →
      Step s .notify { s with started := true }
  | loop {op l} : s.loop.step op = some l → Step s (.loop op) { s with loop := l }
  | exit : s.thread = .running → s.loop.pc.looping = false → s.caller.holdsMutex = false →
      Step s .exit { s with thread := .exited, loopPtr := none }

theorem step_cases (h : s.step op = some s') : Step s op s' := by
  cases op with
  | start =>
    obtain ⟨⟨hcaller, hthread⟩, ⟨⟩⟩ := Option.ite_none_right_eq_some.mp h
    exact .start hcaller hthread
  | lock =>
    obtain ⟨hcaller, ⟨⟩⟩ := Option.ite_none_right_eq_some.mp h
    exact .lock hcaller
  | testLoop =>
    obtain ⟨hcaller, ⟨⟩⟩ := Option.ite_none_right_eq_some.mp h
    split
    next hptr => exact .waits hcaller hptr
    next ptr hptr => exact .finds hcaller hptr
  | wake =>
    obtain ⟨hcaller, ⟨⟩⟩ := Option.ite_none_right_eq_some.mp h
    exact .wake hcaller
  | unlock =>
    rw [step] at h
    split at h
    next ptr hcaller => exact Option.some.inj h ▸ .unlock hcaller
    next => cases h
  | returns =>
    rw [step] at h
    split at h
    next ptr hcaller => exact Option.some.inj h ▸ .returns hcaller
    next => cases h
  | construct address =>
    obtain ⟨hthread, ⟨⟩⟩ := Option.ite_none_right_eq_some.mp h
    exact .construct hthread
  | initialised =>
    obtain ⟨hthread, ⟨⟩⟩ := Option.ite_none_right_eq_some.mp h
    exact .initialised hthread
  | storeLoop =>
    obtain ⟨⟨hthread, hmutex⟩, ⟨⟩⟩ := Option.ite_none_right_eq_some.mp h
    exact .storeLoop hthread hmutex
  | setLoopStartedCallback =>
    obtain ⟨hthread, ⟨⟩⟩ := Option.ite_none_right_eq_some.mp h
    exact .setLoopStartedCallback hthread
  | notify =>
    rw [step] at h
    split at h
    next hpc =>
      obtain ⟨⟨-, hmutex⟩, ⟨⟩⟩ := Option.ite_none_right_eq_some.mp h
      exact .notify hpc hmutex
    next => cases h
  | loop op =>
    obtain ⟨-, h⟩ := Option.ite_none_right_eq_some.mp h
    obtain ⟨l, hl, rfl⟩ := Option.map_eq_some_iff.mp h
    exact .loop hl
  | exit =>
    obtain ⟨⟨hthread, -, hlooping, hmutex⟩, ⟨⟩⟩ := Option.ite_none_right_eq_some.mp h
    exact .exit hthread hlooping hmutex

/-! ## What the caller gets -/

/-- Nobody calls `quit()` before `startLoop` has returned. -/
def NoEarlyQuit (s : EventLoopThread τ φ) (op : StartLoopOp τ φ) : Prop :=
  op.quits = true → s.caller.result ≠ none

instance (s : EventLoopThread τ φ) (op : StartLoopOp τ φ) : Decidable (s.NoEarlyQuit op) :=
  inferInstanceAs (Decidable (op.quits = true → s.caller.result ≠ none))

/-- The pointers are those of the loop of the thread, and until `startLoop` returns a loop that
has notified keeps running. -/
structure Valid (s : EventLoopThread τ φ) : Prop where
  fresh : s.thread = .notCreated ∨ s.thread = .constructing → s.address = none
  ptr : ∀ p, s.loopPtr = some p → s.address = some p
  pointer : ∀ p, s.caller.pointer = some p → s.address = some p
  quit : s.caller.result = none → s.loop.quit = false
  looping : s.caller.result = none → s.started = true → s.loop.pc.looping = true
  result : ∀ r, s.caller.result = some r → r.started = true → r.looping = true

omit [DecidableEq τ] in
theorem initial_valid : (initial : EventLoopThread τ φ).Valid := by
  constructor <;> simp [initial, EventLoop.initial, StartPc.pointer, StartPc.result]

/-- A loop that has not been told to quit goes on. -/
theorem loop_step_looping {l l' : EventLoop τ φ} {o : LoopOp τ φ} (hquit : l.quit = false)
    (ho : o ≠ .quitInLoop) (ho' : ∀ t, o ≠ .storeQuit t) (h : l.step o = some l') :
    l'.quit = false ∧ (l.pc.looping = true → l'.pc.looping = true) := by
  cases EventLoop.step_cases h with
  | quits hpc hq =>
    rw [hquit] at hq
    cases hq
  | quitInLoop => exact absurd rfl ho
  | storeQuit => exact absurd rfl (ho' _)
  | queueInLoop => split <;> exact ⟨hquit, id⟩
  | handleRead | functorThrows | push | wakeup => exact ⟨hquit, id⟩
  | loop | loopStarted | polls | pollReturns | doPendingFunctors | swap | startFunctor
  | functorsDone => exact ⟨hquit, fun _ => rfl⟩

omit [DecidableEq τ] in
/-- The caller goes on, without returning and without a pointer of its own making. -/
theorem Valid.callerMoves (hs : s.Valid) {caller : StartPc} (hold : s.caller.result = none)
    (hnew : caller.result = none)
    (hpointer : ∀ p, caller.pointer = some p → s.address = some p) :
    { s with caller := caller }.Valid := by
  refine ⟨hs.fresh, hs.ptr, hpointer, fun _ => hs.quit hold, fun _ => hs.looping hold, ?_⟩
  intro r hr
  rw [hnew] at hr
  cases hr

theorem step_valid (hs : s.Valid) (hop : s.NoEarlyQuit op) (h : s.step op = some s') :
    s'.Valid := by
  have hpointer := hs.pointer
  cases step_cases h with
  | start hcaller hthread =>
    have hmoves : { s with caller := .locking }.Valid :=
      hs.callerMoves (by rw [hcaller]; rfl) rfl nofun
    exact { hmoves with fresh := fun _ => hs.fresh (.inl hthread) }
  | lock hcaller | waits hcaller | wake hcaller =>
    exact hs.callerMoves (by rw [hcaller]; rfl) rfl nofun
  | finds hcaller hptr =>
    exact hs.callerMoves (by rw [hcaller]; rfl) rfl fun p hp => hs.ptr p (hptr.trans hp)
  | unlock hcaller =>
    rw [hcaller] at hpointer
    exact hs.callerMoves (by rw [hcaller]; rfl) rfl hpointer
  | returns hcaller =>
    have hlooping := hs.looping
    rw [hcaller] at hpointer hlooping
    refine ⟨hs.fresh, hs.ptr, hpointer, nofun, nofun, fun r hr hstarted => ?_⟩
    rw [← Option.some.inj hr] at hstarted ⊢
    exact hlooping rfl hstarted
  | construct hthread =>
    have hnone := hs.fresh (.inr hthread)
    -- there was no loop before, and so nobody has a pointer to it
    refine ⟨nofun, fun p hp => ?_, fun p hp => ?_, hs.quit, hs.looping, hs.result⟩
    · have hsome := hs.ptr p hp
      rw [hnone] at hsome
      cases hsome
    · have hsome := hpointer p hp
      rw [hnone] at hsome
      cases hsome
  | initialised | setLoopStartedCallback =>
    exact ⟨nofun, hs.ptr, hpointer, hs.quit, hs.looping, hs.result⟩
  | storeLoop => exact ⟨nofun, fun p hp => hp, hpointer, hs.quit, hs.looping, hs.result⟩
  | notify hpc =>
    refine ⟨hs.fresh, hs.ptr, hpointer, hs.quit, fun _ _ => ?_, hs.result⟩
    rw [hpc]
    rfl
  | loop hl =>
    rename_i o l
    have hnext : s.caller.result = none → l.quit = false ∧
        (s.loop.pc.looping = true → l.pc.looping = true) := by
      intro hresult
      refine loop_step_looping (hs.quit hresult) ?_ ?_ hl
      · rintro rfl
        exact hop rfl hresult
      · rintro t rfl
        exact hop rfl hresult
    exact ⟨hs.fresh, hs.ptr, hpointer, fun hr => (hnext hr).1,
      fun hr hstarted => (hnext hr).2 (hs.looping hr hstarted), hs.result⟩
  | exit => exact ⟨nofun, nofun, hpointer, hs.quit, hs.looping, hs.result⟩

/-! ## Whether the loop runs -/

/-- `startLoop` returns after the notification. -/
def ReturnsStarted (s : EventLoopThread τ φ) : StartLoopOp τ φ → Prop
  | .returns => s.started = true
  | _ => True

/-- The caller tests `loop_` before it is stored, or after the notification. -/
def TestsStarted (s : EventLoopThread τ φ) : StartLoopOp τ φ → Prop
  | .testLoop => s.loopPtr = none ∨ s.started = true
  | _ => True

instance (s : EventLoopThread τ φ) : (op : StartLoopOp τ φ) → Decidable (s.TestsStarted op)
  | .testLoop => inferInstanceAs (Decidable (s.loopPtr = none ∨ s.started = true))
  | .start | .lock | .wake | .unlock | .returns | .construct _ | .initialised | .storeLoop
  | .setLoopStartedCallback | .notify | .loop _ | .exit => isTrue trivial

/-- A caller that has returned did so after the notification. -/
def ReturnedStarted (s : EventLoopThread τ φ) : Prop :=
  ∀ r, s.caller.result = some r → r.started = true

theorem step_returnedStarted (h : s.step op = some s') :
    s'.ReturnedStarted ↔ s.ReturnedStarted ∧ s.ReturnsStarted op := by
  cases step_cases h with
  | start hcaller | lock hcaller | waits hcaller | finds hcaller | wake hcaller | unlock hcaller
  | returns hcaller => simp [ReturnedStarted, ReturnsStarted, hcaller, StartPc.result]
  | construct | initialised | storeLoop | setLoopStartedCallback | notify | loop | exit =>
    exact (and_iff_left trivial).symm

/-- A caller that has read a pointer has done so after the notification. -/
def PointerStarted (s : EventLoopThread τ φ) : Prop :=
  s.caller.pointer ≠ none → s.started = true

theorem step_pointerStarted (hs : s.PointerStarted) (hop : s.TestsStarted op)
    (h : s.step op = some s') : s'.PointerStarted := by
  cases step_cases h with
  | start | lock | waits | wake => exact fun hnone => absurd rfl hnone
  | finds _ hptr =>
    intro _
    refine hop.resolve_left ?_
    rw [hptr]
    nofun
  | unlock hcaller | returns hcaller =>
    refine fun _ => hs ?_
    rw [hcaller]
    nofun
  | notify => exact fun _ => rfl
  | construct | initialised | storeLoop | setLoopStartedCallback | loop | exit => exact hs

theorem PointerStarted.returnsStarted (hs : s.PointerStarted) (h : s.step op = some s') :
    s.ReturnsStarted op := by
  cases step_cases h with
  | returns hcaller =>
    refine hs ?_
    rw [hcaller]
    nofun
  | _ => trivial

/-- The result is the loop of the thread, `looping_` is set in it and its
`loopStartedCallback_` has run. -/
def StartsRunning (s : EventLoopThread τ φ) (r : StartResult) : Prop :=
  s.address = some r.ptr ∧ r.looping = true ∧ r.started = true

/-- A caller that tests `loop_` after it is stored and before the notification may go straight
on, and returns a loop that does not run. -/
theorem returns_notStarted (hrun : Machine.run step initial ops = some s)
    (htests : ¬ Machine.Along step TestsStarted initial ops) :
    ∃ pre post t r, ops = pre ++ .testLoop :: post ∧
      Machine.run step initial (pre ++ [.testLoop, .unlock, .returns]) = some t ∧
      t.caller = .returned r ∧ ¬ t.StartsRunning r := by
  obtain ⟨pre, op, post, u, v, rfl, hu, -, hearly, hstep, -⟩ :=
    Machine.exists_first_violation hrun htests
  cases step_cases hstep with
  | waits _ hptr => exact absurd (.inl hptr) hearly
  | @finds ptr hcaller hptr =>
    have hnot : u.started = false := by
      cases hstarted : u.started with
      | false => rfl
      | true => exact absurd (.inr hstarted) hearly
    refine ⟨pre, post, { u with caller := .returned ⟨ptr, u.loop.pc.looping, u.started⟩ }, _, rfl,
      Machine.run_append_eq_some.mpr ⟨u, hu, ?_⟩, rfl, fun hruns => ?_⟩
    · rw [Machine.run, hstep]
      rfl
    · cases hnot.symm.trans hruns.2.2
  | _ => exact absurd trivial hearly

/-- **What `startLoop` returns.**  If nobody calls `quit()` before, `startLoop` returns the
loop of the thread.  That loop runs if the caller tests `loop_` only before it is stored or
after the notification.  After any other test the caller may return a loop that does not run;
it does so exactly when it returns before the notification. -/
theorem startLoop_running_iff {r : StartResult}
    (hrun : Machine.run step (initial : EventLoopThread τ φ) ops = some s)
    (hquit : Machine.Along step NoEarlyQuit (initial : EventLoopThread τ φ) ops)
    (hreturned : s.caller = .returned r) :
    s.address = some r.ptr ∧
    (Machine.Along step TestsStarted (initial : EventLoopThread τ φ) ops → s.StartsRunning r) ∧
    (¬ Machine.Along step TestsStarted (initial : EventLoopThread τ φ) ops →
      ∃ pre post t r', ops = pre ++ .testLoop :: post ∧
        Machine.run step initial (pre ++ [.testLoop, .unlock, .returns]) = some t ∧
        t.caller = .returned r' ∧ ¬ t.StartsRunning r') ∧
    (s.StartsRunning r ↔
      Machine.Along step ReturnsStarted (initial : EventLoopThread τ φ) ops) := by
  have hs : s.Valid := Machine.run_invariant_along
    (fun _ _ _ hs hop h => step_valid hs hop h) hrun hquit initial_valid
  have hresult : s.caller.result = some r := by
    rw [hreturned]
    rfl
  have haddress : s.address = some r.ptr := hs.pointer r.ptr (by rw [hreturned]; rfl)
  have hstart : s.StartsRunning r ↔ s.ReturnedStarted := by
    constructor
    · intro hr r' hr'
      rw [hresult] at hr'
      exact Option.some.inj hr' ▸ hr.2.2
    · intro hall
      exact ⟨haddress, hs.result r hresult (hall r hresult), hall r hresult⟩
  have hnone : (initial : EventLoopThread τ φ).ReturnedStarted := nofun
  refine ⟨haddress, fun htests => ?_, returns_notStarted hrun, ?_⟩
  · rw [hstart]
    refine (Machine.run_invariant_along (P := fun s => s.PointerStarted ∧ s.ReturnedStarted) ?_
      hrun htests ⟨fun hp => absurd rfl hp, hnone⟩).2
    rintro s op s' ⟨hpointer, hreturned⟩ hop h
    exact ⟨step_pointerStarted hpointer hop h,
      (step_returnedStarted h).mpr ⟨hreturned, hpointer.returnsStarted h⟩⟩
  · rw [hstart]
    exact Machine.run_iff_along (fun _ _ _ h => step_returnedStarted h) hrun hnone

/-- The caller waits before there is a loop, and is woken from inside `loop()`. -/
def wokenByLoop : List (StartLoopOp Unit Nat) :=
  [.start, .lock, .testLoop, .construct 5, .initialised, .storeLoop, .setLoopStartedCallback,
    .loop .loop, .notify, .wake, .lock, .testLoop, .unlock, .returns]

theorem wokenByLoop_running :
    ∃ s r, Machine.run step initial wokenByLoop = some s ∧ s.caller = .returned r ∧
      s.StartsRunning r := by
  have hrun : ∃ s r, Machine.run step initial wokenByLoop = some s ∧ s.caller = .returned r :=
    ⟨_, _, rfl, rfl⟩
  obtain ⟨s, r, hrun, hreturned⟩ := hrun
  have htests : Machine.Along step TestsStarted initial wokenByLoop := by decide
  exact ⟨s, r, hrun, hreturned,
    (startLoop_running_iff hrun (by decide) hreturned).2.1 htests⟩

/-- The caller takes the mutex after `loop_` is stored and before `loop()` is entered: it gets
a loop that is not running. -/
theorem startLoop_before_loop :
    ∃ s : EventLoopThread Unit Nat, Machine.run step initial
        [.start, .construct 5, .initialised, .storeLoop, .lock, .testLoop, .unlock, .returns] =
          some s ∧
      s.caller = .returned ⟨5, false, false⟩ ∧ s.loop.pc = .outside :=
  ⟨_, rfl, rfl, rfl⟩

end EventLoopThread
end ReMuduo
