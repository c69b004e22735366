import Mathlib.Order.Lattice
import ReMuduo.IterSet
import ReMuduo.Machine
import ReMuduo.Timer

/-! # The timer queue

`TimerQueue` (`src/base/TimerQueue.cpp`), function by function, and the machine of its
loop-thread operations.

The queue keeps every scheduled timer in two ordered sets: `timers_`, by expiration,
and `activeTimers_`, by address and sequence number.  The `Timer` objects live in a
heap, here a partial function on addresses; `new Timer` takes an address that is not
in use, so the address of a deleted timer may come back.  A place where the source
would read a deleted `Timer` or dereference the iterator of an erased element, an
assertion that would fail and every `LOG_ERROR` are recorded in `reports`: what the
source is meant never to do is a statement about that list.

The operations go through the iterators the source goes through, in the source's order,
and are the same for all sets with iterators.  Where nothing depends on the iterators the
sets are ordered sets, whose elements serve as iterators; this is the `TimerQueue` without
parameters.  `ReMuduo.TimerHandles` has the queue whose sets have nodes.

`handleRead` calls back into user code between `getExpired` and `reset`, and these
callbacks may add and cancel timers.  `TimerLoop` therefore runs it in several steps:
`handleRead` up to the first callback, one `runNext` for each callback, and
`handleReadEnd` for `reset`; whatever the callbacks do happens in the steps between. -/
namespace ReMuduo

/-- `Entry`, the pair of an expiration and a `Timer*` kept in `timers_`. -/
structure Entry where
  when : Int
  timer : Addr
deriving DecidableEq

/-- `operator<` of `std::pair`. -/
instance : LinearOrder Entry :=
  LinearOrder.lift' (fun e => (toLex (e.when, e.timer) : Int ×ₗ Addr)) (by
    rintro ⟨w, a⟩ ⟨w', a'⟩ h
    simpa using h)

theorem Entry.lt_iff {e f : Entry} :
    e < f ↔ e.when < f.when ∨ (e.when = f.when ∧ e.timer < f.timer) := Prod.Lex.lt_iff

theorem Entry.le_iff {e f : Entry} :
    e ≤ f ↔ e.when < f.when ∨ (e.when = f.when ∧ e.timer ≤ f.timer) := Prod.Lex.le_iff

theorem Entry.when_le {e f : Entry} (h : e ≤ f) : e.when ≤ f.when := by
  rcases Entry.le_iff.mp h with h | ⟨h, -⟩
  · exact le_of_lt h
  · exact le_of_eq h

/-- `ActiveTimer`, the pair of a `Timer*` and its sequence number kept in
`activeTimers_`, holds the same data as a `TimerId`; `operator<` of `std::pair`. -/
instance : LinearOrder TimerId :=
  LinearOrder.lift' (fun i => (toLex (i.timer, i.sequence) : Addr ×ₗ Nat)) (by
    rintro ⟨a, n⟩ ⟨a', n'⟩ h
    simpa using h)

/-- What the queue can report: the `LOG_ERROR` lines of the source, its assertions, a read
of a deleted `Timer`, and the use of the iterator of an erased element. -/
inductive Report
  /-- A `Timer` that has been deleted is read. -/
  | danglingTimer
  /-- An iterator is dereferenced after its element has been erased. -/
  | erasedIterator
  /-- `assert(timers_.size() == activeTimers_.size())` in `insert`. -/
  | assertSizes
  /-- `assert(end == timers_.end() || now < end->first)` in `getExpired`. -/
  | assertBoundary
  /-- `TimerQueue::insert() timer is nullptr` -/
  | insertNull
  /-- `TimerQueue::insert() failed to insert timer into timers_` -/
  | insertTimers
  /-- `TimerQueue::insert() failed to insert timer into activeTimers_` -/
  | insertActiveTimers
  /-- `TimerQueue::addTimerInLoop() timer is nullptr` -/
  | addNull
  /-- `TimerQueue::cancelInLoop() invalid timerId (timer_ is nullptr)` -/
  | cancelNull
  /-- `TimerQueue::cancelInLoop() failed to erase timer from timers_, n=%zu` -/
  | cancelErase (n : Nat)
  /-- `TimerQueue::getExpired() invalid timestamp` -/
  | getExpiredInvalid
  /-- `TimerQueue::getExpired() failed to erase timer from activeTimers_, n=%zu` -/
  | getExpiredErase (n : Nat)
  /-- `TimerQueue::handleRead() timer callback exception: %s` -/
  | callbackException
  /-- `TimerQueue::reset() invalid timestamp` -/
  | resetInvalid
  /-- `TimerQueue::reset() timer is nullptr` -/
  | resetNull
  /-- `TimerQueue::reset() failed to reinsert repeating timer` -/
  | reinsert
deriving DecidableEq

/-- Reports that no run should contain: the assertions, the reads of deleted timers, the
null pointers the queue hands to itself, and the insertions and erasures that fail.
The read of an erased element is not among them: every `cancelInLoop` that finds its
timer makes it. -/
def Report.failure : Report → Bool
  | .danglingTimer | .assertSizes | .assertBoundary | .insertNull | .insertTimers
  | .insertActiveTimers | .addNull | .cancelErase _ | .getExpiredErase _ | .resetNull => true
  | .erasedIterator | .cancelNull | .getExpiredInvalid | .callbackException | .resetInvalid
  | .reinsert => false

/-- The members of a `TimerQueue`, the heap its `Timer` objects live in,
`Timer::s_numCreated_`, the kernel timer behind `timerfd_`, the calls of
`timerfd_settime` so far with the time of each, and the reports so far. -/
structure TimerQueue (T : Type := OrderedSet Entry) (A : Type := OrderedSet TimerId) where
  heap : Addr → Option Timer
  numCreated : Nat
  timerfd : Timerfd
  settimes : List (Clock × Timespec)
  timers : T
  callingExpiredTimers : Bool
  activeTimers : A
  cancelingTimers : A
  reports : List Report

namespace TimerQueue

variable {T A : Type}

def report (q : TimerQueue T A) (r : Report) : TimerQueue T A :=
  { q with reports := q.reports ++ [r] }

/-- An assertion, or a test whose failure is logged: `r` is reported unless `c` holds. -/
def check (q : TimerQueue T A) (c : Bool) (r : Report) : TimerQueue T A :=
  if c then q else q.report r

@[simp] theorem check_true (q : TimerQueue T A) (r : Report) : q.check true r = q := rfl

@[simp] theorem timers_check (q : TimerQueue T A) (c : Bool) (r : Report) :
    (q.check c r).timers = q.timers := by
  cases c <;> rfl

@[simp] theorem activeTimers_check (q : TimerQueue T A) (c : Bool) (r : Report) :
    (q.check c r).activeTimers = q.activeTimers := by
  cases c <;> rfl

/-- Writes a `Timer` object (`some`) or frees it (`none`). -/
def setHeap (q : TimerQueue T A) (a : Addr) (t : Option Timer) : TimerQueue T A :=
  { q with heap := fun b => if b = a then t else q.heap b }

/-- `new Timer(cb, when, interval)` at a free address. -/
def newTimer (q : TimerQueue T A) (a : Addr) (when : Int) (interval : Seconds) :
    TimerQueue T A :=
  { q.setHeap a (some ⟨when, interval, q.numCreated⟩) with numCreated := q.numCreated + 1 }

/-- `resetTimerfd(timerfd_, expiration)`. -/
def resetTimerfd (q : TimerQueue T A) (clock : Clock) (expiration : Int) : TimerQueue T A :=
  { q with
    timerfd := q.timerfd.settime clock.mono (howMuchTimeFromNow clock.wall expiration)
    settimes := q.settimes ++ [(clock, howMuchTimeFromNow clock.wall expiration)] }

variable [IterSet T Entry] [IterSet A TimerId]

/-- The queue as its constructor leaves it. -/
def initial : TimerQueue T A where
  heap := fun _ => none
  numCreated := 0
  timerfd := .disarmed
  settimes := []
  timers := IterSet.empty
  callingExpiredTimers := false
  activeTimers := IterSet.empty
  cancelingTimers := IterSet.empty
  reports := []

/-- `it = timers_.begin()` and `it == timers_.end() || when < it->first`, in `insert`. -/
def earliestChanged (q : TimerQueue T A) (when : Int) : TimerQueue T A × Bool :=
  match IterSet.begin? q.timers with
  | none => (q, true)
  | some it =>
    match IterSet.deref q.timers it with
    | none => (q.report .erasedIterator, false)
    | some e => (q, decide (when < e.when))

/-- `insert(timer)`. -/
def insert (q : TimerQueue T A) (timer : Addr) : TimerQueue T A × Bool :=
  if timer = nullptr then (q.report .insertNull, false)
  else match q.heap timer with
  | none => (q.report .danglingTimer, false)
  | some t =>
    let r := (q.check (IterSet.size q.timers == IterSet.size q.activeTimers)
      .assertSizes).earliestChanged t.expiration
    let q := r.1
    let timers := IterSet.insert q.timers ⟨t.expiration, timer⟩
    if timers.2 = false then (q.report .insertTimers, false)
    else
      let activeTimers := IterSet.insert q.activeTimers ⟨timer, t.sequence⟩
      if activeTimers.2 = false then
        (({ q with timers := (IterSet.erase timers.1 ⟨t.expiration, timer⟩).1 } :
          TimerQueue T A).report .insertActiveTimers, false)
      else
        let q' : TimerQueue T A := { q with timers := timers.1, activeTimers := activeTimers.1 }
        (q'.check (IterSet.size q'.timers == IterSet.size q'.activeTimers) .assertSizes, r.2)

/-- `addTimerInLoop(timer)`. -/
def addTimerInLoop (q : TimerQueue T A) (clock : Clock) (timer : Addr) : TimerQueue T A :=
  if timer = nullptr then q.report .addNull
  else
    let r := q.insert timer
    if r.2 then
      match r.1.heap timer with
      | none => r.1.report .danglingTimer
      | some t => r.1.resetTimerfd clock t.expiration
    else r.1

/-- `cancelInLoop(timerId)`.  The second `it->first` comes after `activeTimers_.erase(it)`.
When the element is gone it is taken to read what the first one read. -/
def cancelInLoop (q : TimerQueue T A) (timerId : TimerId) : TimerQueue T A :=
  if timerId.timer = nullptr then q.report .cancelNull
  else match IterSet.find q.activeTimers timerId with
  | some it =>
    match IterSet.deref q.activeTimers it with
    | none => q.report .erasedIterator
    | some first =>
      match q.heap first.timer with
      | none => q.report .danglingTimer
      | some t =>
        let timers := IterSet.erase q.timers ⟨t.expiration, first.timer⟩
        let q := ({ q with timers := timers.1 } : TimerQueue T A).check (timers.2 == 1)
          (.cancelErase timers.2)
        let q : TimerQueue T A := { q with activeTimers := IterSet.eraseIter q.activeTimers it }
        match IterSet.deref q.activeTimers it with
        | some again => q.setHeap again.timer none
        | none => (q.report .erasedIterator).setHeap first.timer none
  | none =>
    if q.callingExpiredTimers then
      { q with cancelingTimers := (IterSet.insert q.cancelingTimers timerId).1 }
    else q

/-- The body of the loop of `getExpired`: the entry's timer leaves `activeTimers_`. -/
def eraseActive (q : TimerQueue T A) (it : Entry) : TimerQueue T A :=
  match q.heap it.timer with
  | none => q.report .danglingTimer
  | some t =>
    let activeTimers := IterSet.erase q.activeTimers ⟨it.timer, t.sequence⟩
    ({ q with activeTimers := activeTimers.1 } : TimerQueue T A).check (activeTimers.2 == 1)
      (.getExpiredErase activeTimers.2)

/-- `Entry sentry(now, UINTPTR_MAX)`. -/
def sentry (now : Int) : Entry := ⟨now, uintptrMax⟩

/-- `assert(end == timers_.end() || now < end->first)`. -/
def assertBoundary (q : TimerQueue T A) (last : Option (IterSet.Iter T)) (now : Int) :
    TimerQueue T A :=
  match last with
  | none => q
  | some it =>
    match IterSet.deref q.timers it with
    | none => q.report .erasedIterator
    | some e => q.check (decide (now < e.when)) .assertBoundary

/-- `getExpired(now)`. -/
def getExpired (q : TimerQueue T A) (now : Int) : TimerQueue T A × List Entry :=
  if Timestamp.valid now = false then (q.report .getExpiredInvalid, [])
  else
    let last := IterSet.lowerBound q.timers (sentry now)
    let q := q.assertBoundary last now
    -- `std::copy(timers_.begin(), end, std::back_inserter(expired))`
    let copied := (IterSet.rangeTo q.timers last).map (IterSet.deref q.timers)
    let q := q.check (copied.all Option.isSome) .erasedIterator
    let expired := copied.filterMap id
    (expired.foldl eraseActive { q with timers := IterSet.eraseRange q.timers last }, expired)

/-- The body of the loop of `reset`. -/
def resetOne (now : Int) (q : TimerQueue T A) (it : Entry) : TimerQueue T A :=
  if it.timer = nullptr then q.report .resetNull
  else match q.heap it.timer with
  | none => q.report .danglingTimer
  | some t =>
    if t.repeats = true ∧ (IterSet.find q.cancelingTimers ⟨it.timer, t.sequence⟩).isNone then
      let r := (q.setHeap it.timer (some (t.restart now))).insert it.timer
      r.1.check r.2 .reinsert
    else q.setHeap it.timer none

/-- `timers_.begin()->second->expiration()`, if `timers_` is not empty. -/
def nextExpire (q : TimerQueue T A) : TimerQueue T A × Int :=
  match IterSet.begin? q.timers with
  | none => (q, Timestamp.invalid)
  | some it =>
    match IterSet.deref q.timers it with
    | none => (q.report .erasedIterator, Timestamp.invalid)
    | some e =>
      match q.heap e.timer with
      | none => (q.report .danglingTimer, Timestamp.invalid)
      | some t => (q, t.expiration)

/-- `reset(expired, now)`. -/
def reset (q : TimerQueue T A) (clock : Clock) (expired : List Entry) (now : Int) :
    TimerQueue T A :=
  if Timestamp.valid now = false then q.report .resetInvalid
  else
    let r := (expired.foldl (resetOne now) q).nextExpire
    if Timestamp.valid r.2 then r.1.resetTimerfd clock r.2 else r.1

/-! ### What the iterators denote -/

/-- The first entry is later than `when`. -/
def isEarliest (timers : OrderedSet Entry) (when : Int) : Bool :=
  match timers.first? with
  | none => true
  | some e => decide (when < e.when)

/-- The first entry that stays is later than `now`. -/
def boundaryHolds (timers : OrderedSet Entry) (now : Int) : Bool :=
  match (timers.eraseBelow (sentry now)).first? with
  | none => true
  | some e => decide (now < e.when)

omit [IterSet A TimerId] in
/-- `insert` dereferences the first element while it is there. -/
theorem earliestChanged_eq (q : TimerQueue T A) (when : Int) :
    q.earliestChanged when = (q, isEarliest (IterSet.toSet q.timers) when) := by
  unfold earliestChanged isEarliest
  cases hbegin : IterSet.begin? q.timers with
  | none => rw [IterSet.begin?_eq_none.mp hbegin]
  | some it =>
    obtain ⟨e, hderef, hfirst⟩ := IterSet.deref_of_begin? hbegin
    simp only [hfirst, hderef]

omit [IterSet A TimerId] in
/-- The assertion of `getExpired` dereferences an element that is there. -/
theorem assertBoundary_eq (q : TimerQueue T A) (now : Int) :
    q.assertBoundary (IterSet.lowerBound q.timers (sentry now)) now =
      q.check (boundaryHolds (IterSet.toSet q.timers) now) .assertBoundary := by
  unfold assertBoundary boundaryHolds
  cases hlast : IterSet.lowerBound q.timers (sentry now) with
  | none =>
    rw [IterSet.lowerBound_eq_none.mp hlast]
    rfl
  | some it =>
    obtain ⟨e, hderef, hfirst⟩ := IterSet.deref_of_lowerBound hlast
    simp only [hfirst, hderef]

/-- `getExpired` copies the entries before the sentry, all of which are there. -/
theorem getExpired_of_valid (q : TimerQueue T A) {now : Int} (hnow : Timestamp.valid now = true) :
    q.getExpired now =
      (((IterSet.toSet q.timers).below (sentry now)).foldl eraseActive
        { q.check (boundaryHolds (IterSet.toSet q.timers) now) .assertBoundary with
          timers := IterSet.eraseRange q.timers (IterSet.lowerBound q.timers (sentry now)) },
        (IterSet.toSet q.timers).below (sentry now)) := by
  have hall : ∀ l : List Entry, (l.map some).all Option.isSome = true := by simp
  have hexpired : ∀ l : List Entry, (l.map some).filterMap id = l := by
    simp [List.filterMap_map]
  simp only [getExpired, hnow, Bool.true_eq_false, if_false, assertBoundary_eq, timers_check,
    IterSet.map_deref_rangeTo, hall, hexpired, check_true]

/-- `cancelInLoop` finds its timer: the second `it->first` reads an erased element, and
whatever else is dereferenced is there. -/
theorem cancelInLoop_of_mem (q : TimerQueue T A) {id : TimerId} (hnull : id.timer ≠ nullptr)
    (hid : id ∈ IterSet.toSet q.activeTimers) :
    ∃ it, IterSet.deref q.activeTimers it = some id ∧ q.cancelInLoop id =
      match q.heap id.timer with
      | none => q.report .danglingTimer
      | some t =>
        let timers := IterSet.erase q.timers ⟨t.expiration, id.timer⟩
        (({ ({ q with timers := timers.1 } : TimerQueue T A).check (timers.2 == 1)
            (.cancelErase timers.2) with
          activeTimers := IterSet.eraseIter q.activeTimers it } : TimerQueue T A).report
            .erasedIterator).setHeap id.timer none := by
  cases hfind : IterSet.find q.activeTimers id with
  | none => exact absurd hid (IterSet.find_eq_none.mp hfind)
  | some it =>
    have hderef := IterSet.deref_of_find hfind
    refine ⟨it, hderef, ?_⟩
    simp only [cancelInLoop, hnull, if_false, hfind, hderef, activeTimers_check,
      IterSet.deref_eraseIter]

theorem cancelInLoop_of_notMem (q : TimerQueue T A) {id : TimerId}
    (hid : id ∉ IterSet.toSet q.activeTimers) :
    q.cancelInLoop id =
      if id.timer = nullptr then q.report .cancelNull
      else if q.callingExpiredTimers then
        { q with cancelingTimers := (IterSet.insert q.cancelingTimers id).1 }
      else q := by
  simp only [cancelInLoop, IterSet.find_eq_none.mpr hid]

omit [IterSet A TimerId] in
/-- `reset` dereferences the first element while it is there. -/
theorem nextExpire_of_first (q : TimerQueue T A) :
    q.nextExpire =
      match (IterSet.toSet q.timers).first? with
      | none => (q, Timestamp.invalid)
      | some e =>
        match q.heap e.timer with
        | none => (q.report .danglingTimer, Timestamp.invalid)
        | some t => (q, t.expiration) := by
  unfold nextExpire
  cases hbegin : IterSet.begin? q.timers with
  | none => rw [IterSet.begin?_eq_none.mp hbegin]
  | some it =>
    obtain ⟨e, hderef, hfirst⟩ := IterSet.deref_of_begin? hbegin
    simp only [hfirst, hderef]

omit [IterSet T Entry] in
theorem isNone_find_canceling (q : TimerQueue T A) (id : TimerId) :
    (IterSet.find q.cancelingTimers id).isNone = true ↔ id ∉ IterSet.toSet q.cancelingTimers := by
  rw [Option.isNone_iff_eq_none, IterSet.find_eq_none]

end TimerQueue

/-! ## The loop-thread operations as a machine -/

/-- The local variables of `handleRead` while it calls back: the time it read, the
vector `expired`, and the part of it whose callbacks have not started. -/
structure Batch where
  now : Int
  expired : List Entry
  todo : List Entry

/-- What a run of the timer queue shows: a timer scheduled by `addTimerInLoop`, an
executed `cancelInLoop`, a `handleRead` that begins at `now`, a callback of a timer
executed by it, with the timer's expiration at that time, and the end of the
`handleRead`. -/
inductive TimerEvent
  | added (id : TimerId) (when : Int) (interval : Seconds)
  | cancelled (id : TimerId)
  | begun (now : Int)
  | executed (id : TimerId) (now expiration : Int)
  | ended

/-- A timer queue with its clocks, the timers whose `addTimerInLoop` has been posted but
has not run, and the `handleRead` in progress, if any. -/
structure TimerLoop (T : Type := OrderedSet Entry) (A : Type := OrderedSet TimerId) where
  clock : Clock
  queue : TimerQueue T A
  posted : List Addr
  batch : Option Batch
  history : List TimerEvent

/-- The steps of a run. -/
inductive TimerOp
  /-- Time passes: the wall clock moves by `wall`, the monotonic clock by `mono`. -/
  | advance (wall mono : Int)
  /-- `addTimer` allocates a timer at `a` and posts its `addTimerInLoop`. -/
  | newTimer (a : Addr) (when : Int) (interval : Seconds)
  | addTimerInLoop (a : Addr)
  | cancelInLoop (id : TimerId)
  /-- `handleRead` starts, up to its first callback. -/
  | handleRead
  /-- The next callback of the batch is called. -/
  | runNext
  /-- The callback in progress throws. -/
  | throws
  /-- The callbacks are over: `reset`. -/
  | handleReadEnd

namespace TimerLoop

def initial (clock : Clock) : TimerLoop := ⟨clock, TimerQueue.initial, [], none, []⟩

variable {T A : Type} [IterSet T Entry] [IterSet A TimerId]

def step (s : TimerLoop T A) : TimerOp → Option (TimerLoop T A)
  | .advance wall mono =>
    if 0 ≤ mono then
      let clock : Clock := ⟨s.clock.wall + wall, s.clock.mono + mono⟩
      some { s with
        clock := clock
        queue := { s.queue with timerfd := s.queue.timerfd.advance clock.mono } }
    else none
  | .newTimer a when interval =>
    if a ≠ nullptr ∧ a < uintptrMax ∧ (s.queue.heap a).isNone then
      some { s with queue := s.queue.newTimer a when interval, posted := s.posted ++ [a] }
    else none
  | .addTimerInLoop a =>
    if a ∈ s.posted then
      match s.queue.heap a with
      | none => none
      | some t =>
        some { s with
          queue := s.queue.addTimerInLoop s.clock a
          posted := s.posted.erase a
          history := s.history ++ [.added ⟨a, t.sequence⟩ t.expiration t.interval] }
    else none
  | .cancelInLoop id =>
    some { s with queue := s.queue.cancelInLoop id, history := s.history ++ [.cancelled id] }
  | .handleRead =>
    match s.batch with
    | some _ => none
    | none =>
      let now := s.clock.wall
      let r := ({ s.queue with timerfd := s.queue.timerfd.read } : TimerQueue T A).getExpired now
      some { s with
        queue := { r.1 with callingExpiredTimers := true, cancelingTimers := IterSet.empty }
        batch := some ⟨now, r.2, r.2⟩
        history := s.history ++ [.begun now] }
  | .runNext =>
    match s.batch with
    | some ⟨now, expired, it :: todo⟩ =>
      match s.queue.heap it.timer with
      | none => some { s with
          queue := s.queue.report .danglingTimer, batch := some ⟨now, expired, todo⟩ }
      | some t => some { s with
          batch := some ⟨now, expired, todo⟩
          history := s.history ++ [.executed ⟨it.timer, t.sequence⟩ now t.expiration] }
    | _ => none
  | .throws =>
    match s.batch with
    | none => none
    | some _ => some { s with queue := s.queue.report .callbackException }
  | .handleReadEnd =>
    match s.batch with
    | some ⟨now, expired, []⟩ => some { s with
        queue := ({ s.queue with callingExpiredTimers := false } : TimerQueue T A).reset s.clock
          expired now
        batch := none
        history := s.history ++ [.ended] }
    | _ => none

end TimerLoop
end ReMuduo
