import ReMuduo.NodeSet
import ReMuduo.TimerRuns

/-! # The timer queue with nodes

`cancelInLoop` uses the iterator of an element that it has just erased.  In the queues of
`HandleLoop` the sets have nodes, and an iterator is the handle of a node, so that what is
dereferenced after its element was erased cannot come to denote another one.

`abs` forgets the iterators.  The operations of the queue are the same for all sets with
iterators, and so are its steps (`step_abs`): all that is known about the runs of the queue
with plain sets holds here.  What is left to see is which step reports an erased iterator. -/
namespace ReMuduo

/-! ## Without the iterators -/

namespace TimerQueue

variable {T A : Type} [IterSet T Entry] [IterSet A TimerId]

/-- The queue without its iterators. -/
def abs (q : TimerQueue T A) : TimerQueue where
  heap := q.heap
  numCreated := q.numCreated
  timerfd := q.timerfd
  settimes := q.settimes
  timers := IterSet.toSet q.timers
  callingExpiredTimers := q.callingExpiredTimers
  activeTimers := IterSet.toSet q.activeTimers
  cancelingTimers := IterSet.toSet q.cancelingTimers
  reports := q.reports

@[simp] theorem abs_heap (q : TimerQueue T A) : q.abs.heap = q.heap := rfl

@[simp] theorem abs_callingExpiredTimers (q : TimerQueue T A) :
    q.abs.callingExpiredTimers = q.callingExpiredTimers := rfl

theorem toSet_abs_timers (q : TimerQueue T A) :
    IterSet.toSet q.abs.timers = IterSet.toSet q.timers := rfl

theorem toSet_abs_canceling (q : TimerQueue T A) :
    IterSet.toSet q.abs.cancelingTimers = IterSet.toSet q.cancelingTimers := rfl

theorem abs_initial : (initial : TimerQueue T A).abs = initial := by
  simp [abs, initial, IterSet.toSet_empty]

@[simp] theorem abs_report (q : TimerQueue T A) (r : Report) :
    (q.report r).abs = q.abs.report r := rfl

@[simp] theorem abs_check (q : TimerQueue T A) (c : Bool) (r : Report) :
    (q.check c r).abs = q.abs.check c r := by
  cases c <;> rfl

@[simp] theorem abs_setHeap (q : TimerQueue T A) (a : Addr) (t : Option Timer) :
    (q.setHeap a t).abs = q.abs.setHeap a t := rfl

theorem abs_setTimers (q : TimerQueue T A) (l : T) :
    ({ q with timers := l } : TimerQueue T A).abs = { q.abs with timers := IterSet.toSet l } := rfl

theorem abs_setActive (q : TimerQueue T A) (m : A) :
    ({ q with activeTimers := m } : TimerQueue T A).abs =
      { q.abs with activeTimers := IterSet.toSet m } := rfl

theorem abs_setCanceling (q : TimerQueue T A) (m : A) :
    ({ q with cancelingTimers := m } : TimerQueue T A).abs =
      { q.abs with cancelingTimers := IterSet.toSet m } := rfl

theorem abs_setSets (q : TimerQueue T A) (l : T) (m : A) :
    ({ q with timers := l, activeTimers := m } : TimerQueue T A).abs =
      { q.abs with timers := IterSet.toSet l, activeTimers := IterSet.toSet m } := rfl

theorem abs_insert (q : TimerQueue T A) (a : Addr) :
    (q.insert a).1.abs = (q.abs.insert a).1 ∧ (q.insert a).2 = (q.abs.insert a).2 := by
  simp only [insert, earliestChanged_eq, abs_heap]
  split
  · exact ⟨rfl, rfl⟩
  · cases ht : q.heap a with
    | none => exact ⟨rfl, rfl⟩
    | some t =>
      have hcheck := q.abs_check (IterSet.size q.timers == IterSet.size q.activeTimers) .assertSizes
      change _ = q.abs.check (IterSet.size q.abs.timers == IterSet.size q.abs.activeTimers)
        .assertSizes at hcheck
      dsimp only
      rw [← hcheck]
      generalize q.check _ _ = p
      obtain ⟨htimers, hadded⟩ := IterSet.toSet_insert p.timers ⟨t.expiration, a⟩
      obtain ⟨hactive, hadded'⟩ := IterSet.toSet_insert p.activeTimers ⟨a, t.sequence⟩
      have hadded : (IterSet.insert p.timers ⟨t.expiration, a⟩).2 =
          (IterSet.insert p.abs.timers ⟨t.expiration, a⟩).2 := hadded
      have hadded' : (IterSet.insert p.activeTimers ⟨a, t.sequence⟩).2 =
          (IterSet.insert p.abs.activeTimers ⟨a, t.sequence⟩).2 := hadded'
      rw [hadded, hadded']
      split
      · exact ⟨rfl, rfl⟩
      · split
        · obtain ⟨herase, -⟩ := IterSet.toSet_erase
            (IterSet.insert p.timers ⟨t.expiration, a⟩).1 ⟨t.expiration, a⟩
          rw [htimers] at herase
          refine ⟨?_, rfl⟩
          rw [abs_report, abs_setTimers, herase]
          rfl
        · refine ⟨?_, rfl⟩
          rw [abs_check, abs_setSets, IterSet.size, IterSet.size, htimers, hactive]
          rfl

theorem abs_addTimerInLoop (q : TimerQueue T A) (clock : Clock) (a : Addr) :
    (q.addTimerInLoop clock a).abs = q.abs.addTimerInLoop clock a := by
  obtain ⟨hinsert, hchanged⟩ := q.abs_insert a
  unfold addTimerInLoop
  split
  · rfl
  · dsimp only
    rw [← hinsert, ← hchanged]
    split
    · rw [abs_heap]
      cases (q.insert a).1.heap a <;> rfl
    · rfl

theorem abs_cancelInLoop (q : TimerQueue T A) (id : TimerId) :
    (q.cancelInLoop id).abs = q.abs.cancelInLoop id := by
  by_cases hnull : id.timer = nullptr
  · simp only [cancelInLoop, hnull, if_true, abs_report]
  by_cases hid : id ∈ IterSet.toSet q.activeTimers
  · obtain ⟨it, hit, heq⟩ := q.cancelInLoop_of_mem hnull hid
    obtain ⟨it', hit', heq'⟩ := q.abs.cancelInLoop_of_mem hnull hid
    rw [heq, heq', OrderedSet.iterSet_eraseIter hit', abs_heap]
    cases q.heap id.timer with
    | none => rfl
    | some t =>
      obtain ⟨htimers, hcount⟩ := IterSet.toSet_erase q.timers ⟨t.expiration, id.timer⟩
      dsimp only
      rw [abs_setHeap, abs_report, abs_setActive, abs_check, abs_setTimers, htimers, hcount,
        IterSet.toSet_eraseIter hit]
      rfl
  · rw [q.cancelInLoop_of_notMem hid, q.abs.cancelInLoop_of_notMem hid, if_neg hnull, if_neg hnull,
      abs_callingExpiredTimers]
    split
    · obtain ⟨hcanceling, -⟩ := IterSet.toSet_insert q.cancelingTimers id
      rw [abs_setCanceling, hcanceling]
      rfl
    · rfl

theorem abs_eraseActive (q : TimerQueue T A) (it : Entry) :
    (q.eraseActive it).abs = q.abs.eraseActive it := by
  rw [eraseActive, eraseActive, abs_heap]
  cases q.heap it.timer with
  | none => rfl
  | some t =>
    obtain ⟨hactive, hcount⟩ := IterSet.toSet_erase q.activeTimers ⟨it.timer, t.sequence⟩
    dsimp only
    rw [abs_check, abs_setActive, hactive, hcount]
    rfl

theorem abs_foldl {f : TimerQueue T A → Entry → TimerQueue T A}
    {g : TimerQueue → Entry → TimerQueue} (h : ∀ q it, (f q it).abs = g q.abs it)
    (l : List Entry) (q : TimerQueue T A) : (l.foldl f q).abs = l.foldl g q.abs := by
  induction l generalizing q with
  | nil => rfl
  | cons it l ih => rw [List.foldl_cons, List.foldl_cons, ih, h]

theorem abs_getExpired (q : TimerQueue T A) (now : Int) :
    (q.getExpired now).1.abs = (q.abs.getExpired now).1 ∧
      (q.getExpired now).2 = (q.abs.getExpired now).2 := by
  cases hnow : Timestamp.valid now with
  | false =>
    simp only [getExpired, hnow, if_true, abs_report]
    trivial
  | true =>
    rw [q.getExpired_of_valid hnow, q.abs.getExpired_of_valid hnow]
    refine ⟨?_, rfl⟩
    rw [abs_foldl abs_eraseActive, abs_setTimers, abs_check, IterSet.toSet_eraseRange,
      OrderedSet.iterSet_eraseRange]
    rfl

theorem abs_resetOne (now : Int) (q : TimerQueue T A) (it : Entry) :
    (resetOne now q it).abs = resetOne now q.abs it := by
  unfold resetOne
  split
  · rfl
  · rw [abs_heap]
    cases q.heap it.timer with
    | none => rfl
    | some t =>
      simp only [isNone_find_canceling, toSet_abs_canceling]
      split
      · obtain ⟨hinsert, hreturned⟩ :=
          (q.setHeap it.timer (some (t.restart now))).abs_insert it.timer
        rw [abs_check, hinsert, hreturned]
        rfl
      · rfl

theorem abs_nextExpire (q : TimerQueue T A) :
    q.abs.nextExpire = (q.nextExpire.1.abs, q.nextExpire.2) := by
  rw [q.nextExpire_of_first, q.abs.nextExpire_of_first, toSet_abs_timers]
  cases (IterSet.toSet q.timers).first? with
  | none => rfl
  | some e =>
    dsimp only
    rw [abs_heap]
    cases q.heap e.timer <;> rfl

theorem abs_reset (q : TimerQueue T A) (clock : Clock) (expired : List Entry) (now : Int) :
    (q.reset clock expired now).abs = q.abs.reset clock expired now := by
  unfold reset
  split
  · rfl
  · rw [← abs_foldl (abs_resetOne now)]
    dsimp only
    rw [abs_nextExpire]
    split <;> rfl

end TimerQueue

/-! ## Runs -/

namespace TimerLoop

variable {T A : Type} [IterSet T Entry] [IterSet A TimerId]

/-- The loop without the iterators of its sets. -/
def abs (s : TimerLoop T A) : TimerLoop := ⟨s.clock, s.queue.abs, s.posted, s.batch, s.history⟩

theorem abs_queue (s : TimerLoop T A) : s.abs.queue = s.queue.abs := rfl

theorem abs_batch (s : TimerLoop T A) : s.abs.batch = s.batch := rfl

/-- **Iterators change nothing about what the queue does.**  A step of the queue with
iterators is a step of the queue without. -/
theorem step_abs (s : TimerLoop T A) (op : TimerOp) : s.abs.step op = (s.step op).map abs := by
  cases op with
  | advance wall mono =>
    by_cases hmono : 0 ≤ mono
    · simp only [step, if_pos hmono]
      rfl
    · simp only [step, if_neg hmono]
      rfl
  | newTimer a when interval =>
    by_cases hfree : a ≠ nullptr ∧ a < uintptrMax ∧ (s.queue.heap a).isNone = true
    · simp only [step, if_pos hfree]
      exact if_pos hfree
    · simp only [step, if_neg hfree]
      exact if_neg hfree
  | addTimerInLoop a =>
    by_cases hposted : a ∈ s.posted
    · simp only [step, if_pos hposted]
      refine (if_pos hposted).trans ?_
      rw [abs_queue, TimerQueue.abs_heap]
      cases s.queue.heap a with
      | none => rfl
      | some t => simp only [Option.map_some, abs, TimerQueue.abs_addTimerInLoop]
    · simp only [step, if_neg hposted]
      exact if_neg hposted
  | cancelInLoop id => simp only [step, Option.map_some, abs, TimerQueue.abs_cancelInLoop]
  | handleRead =>
    simp only [step, abs_batch]
    cases s.batch with
    | some b => rfl
    | none =>
      obtain ⟨hqueue, hexpired⟩ := TimerQueue.abs_getExpired
        { s.queue with timerfd := s.queue.timerfd.read } s.clock.wall
      have hread : ({ s.abs.queue with timerfd := s.abs.queue.timerfd.read } : TimerQueue) =
          TimerQueue.abs { s.queue with timerfd := s.queue.timerfd.read } := rfl
      have hempty : IterSet.toSet (IterSet.empty : A) = IterSet.empty := IterSet.toSet_empty
      have hclock : s.abs.clock = s.clock := rfl
      simp only [hread, hclock, ← hqueue, ← hexpired, ← hempty]
      rfl
  | runNext =>
    simp only [step, abs_batch]
    rcases s.batch with _ | ⟨now, expired, _ | ⟨it, todo⟩⟩
    · rfl
    · rfl
    · dsimp only
      rw [abs_queue, TimerQueue.abs_heap]
      cases s.queue.heap it.timer <;> rfl
  | throws =>
    simp only [step, abs_batch]
    cases hb : s.batch with
    | none => rfl
    | some b =>
      simp only [Option.map_some, abs, hb]
      rfl
  | handleReadEnd =>
    simp only [step, abs_batch]
    rcases s.batch with _ | ⟨now, expired, _ | ⟨it, todo⟩⟩
    · rfl
    · have hreset := TimerQueue.abs_reset { s.queue with callingExpiredTimers := false } s.clock
        expired now
      simp only [Option.map_some, abs, hreset]
      rfl
    · rfl

theorem run_abs {s s' : TimerLoop T A} {ops : List TimerOp}
    (hrun : Machine.run step s ops = some s') : Machine.run step s.abs ops = some s'.abs := by
  induction ops generalizing s with
  | nil =>
    obtain rfl := Option.some.inj hrun
    rfl
  | cons op ops ih =>
    obtain ⟨t, ht, hrest⟩ := Machine.run_cons_eq_some.mp hrun
    refine Machine.run_cons_eq_some.mpr ⟨t.abs, ?_, ih hrest⟩
    rw [step_abs, ht, Option.map_some]

end TimerLoop

/-! ## Who dereferences an erased iterator -/

namespace TimerQueue

variable {q : TimerQueue}

theorem erased_report {r : Report} (hr : r ≠ .erasedIterator) :
    Report.erasedIterator ∈ (q.report r).reports ↔ Report.erasedIterator ∈ q.reports := by
  simp [report, hr.symm]

theorem erased_check (c : Bool) {r : Report} (hr : r ≠ .erasedIterator) :
    Report.erasedIterator ∈ (q.check c r).reports ↔ Report.erasedIterator ∈ q.reports := by
  cases c
  · exact erased_report hr
  · exact Iff.rfl

theorem erased_insert (q : TimerQueue) (a : Addr) :
    Report.erasedIterator ∈ (q.insert a).1.reports ↔ Report.erasedIterator ∈ q.reports := by
  simp only [insert, earliestChanged_eq]
  split
  · exact erased_report (by simp)
  · split
    · exact erased_report (by simp)
    · have hsizes := q.erased_check (IterSet.size q.timers == IterSet.size q.activeTimers)
        (r := .assertSizes) (by simp)
      split
      · exact (erased_report (by simp)).trans hsizes
      · split
        · exact (erased_report (by simp)).trans hsizes
        · exact (erased_check _ (by simp)).trans hsizes

theorem erased_resetOne (now : Int) (q : TimerQueue) (it : Entry) :
    Report.erasedIterator ∈ (resetOne now q it).reports ↔ Report.erasedIterator ∈ q.reports := by
  unfold resetOne
  split
  · exact erased_report (by simp)
  · split
    · exact erased_report (by simp)
    · split
      · exact (erased_check _ (by simp)).trans (erased_insert _ _)
      · exact Iff.rfl

theorem erased_nextExpire (q : TimerQueue) :
    Report.erasedIterator ∈ q.nextExpire.1.reports ↔ Report.erasedIterator ∈ q.reports := by
  rw [nextExpire_of_first]
  split
  · exact Iff.rfl
  · split
    · exact erased_report (by simp)
    · exact Iff.rfl

theorem erased_reset (q : TimerQueue) (clock : Clock) (expired : List Entry) (now : Int) :
    Report.erasedIterator ∈ (q.reset clock expired now).reports ↔
      Report.erasedIterator ∈ q.reports := by
  have hloop : Report.erasedIterator ∈ (expired.foldl (resetOne now) q).reports ↔
      Report.erasedIterator ∈ q.reports := by
    induction expired generalizing q with
    | nil => exact Iff.rfl
    | cons it expired ih => exact (ih _).trans (erased_resetOne now q it)
  have hnext := (erased_nextExpire (expired.foldl (resetOne now) q)).trans hloop
  unfold reset
  split
  · exact erased_report (by simp)
  · dsimp only
    split
    · exact hnext
    · exact hnext

theorem erased_addTimerInLoop (q : TimerQueue) (clock : Clock) (a : Addr) :
    Report.erasedIterator ∈ (q.addTimerInLoop clock a).reports ↔
      Report.erasedIterator ∈ q.reports := by
  unfold addTimerInLoop
  split
  · exact erased_report (by simp)
  · dsimp only
    split
    · split
      · exact (erased_report (by simp)).trans (erased_insert q a)
      · exact erased_insert q a
    · exact erased_insert q a

theorem erased_getExpired (hq : q.Valid) (now : Int) :
    Report.erasedIterator ∈ (q.getExpired now).1.reports ↔ Report.erasedIterator ∈ q.reports := by
  by_cases hnow : 0 < now
  · obtain ⟨A, heq, -, -⟩ := getExpired_eq hq hnow
    rw [heq]
  · rw [getExpired_invalid hnow]
    exact erased_report (by simp)

/-- `cancelInLoop` dereferences an erased iterator whenever it finds its timer. -/
theorem erased_cancelInLoop (hq : q.Valid) (id : TimerId) :
    Report.erasedIterator ∈ (q.cancelInLoop id).reports ↔
      Report.erasedIterator ∈ q.reports ∨ id ∈ q.activeTimers := by
  cases h : q.sched id with
  | some t =>
    rw [cancelInLoop_eq hq.toBijective (hq.ne_nullptr_of_sched h) h]
    refine iff_of_true ?_ (.inr (sched_eq_some.mp h).1)
    simp [unfile, setHeap, report]
  | none =>
    rw [or_iff_left (hq.sched_eq_none.mp h), cancelInLoop_eq_of_none hq h]
    split
    · exact erased_report (by simp)
    · split <;> exact Iff.rfl

end TimerQueue

namespace TimerLoop

theorem erased_step {s s' : TimerLoop} {op : TimerOp} (hs : s.Valid) (h : s.step op = some s') :
    Report.erasedIterator ∈ s'.queue.reports ↔ Report.erasedIterator ∈ s.queue.reports ∨
      ∃ id, op = .cancelInLoop id ∧ id ∈ s.queue.activeTimers := by
  cases op with
  | cancelInLoop id =>
    rw [step_cancelInLoop h]
    simpa using TimerQueue.erased_cancelInLoop hs.queue id
  | advance wall mono =>
    obtain ⟨-, rfl⟩ := step_advance h
    simp
  | newTimer a when interval =>
    obtain ⟨-, -, -, rfl⟩ := step_newTimer h
    simp [TimerQueue.newTimer, TimerQueue.setHeap]
  | addTimerInLoop a =>
    obtain ⟨-, t, -, rfl⟩ := step_addTimerInLoop h
    simpa using TimerQueue.erased_addTimerInLoop s.queue s.clock a
  | handleRead =>
    obtain ⟨-, rfl⟩ := step_handleRead h
    have hread := TimerQueue.erased_getExpired hs.readQueue s.clock.wall
    change Report.erasedIterator ∈ s.beginQueue.reports ↔ _ at hread
    simpa using hread
  | runNext =>
    obtain ⟨now, expired, it, todo, -, ⟨-, rfl⟩ | ⟨t, -, rfl⟩⟩ := step_runNext h
    · simpa using TimerQueue.erased_report (by simp)
    · simp
  | throws =>
    rw [step_throws h]
    simpa using TimerQueue.erased_report (by simp)
  | handleReadEnd =>
    obtain ⟨now, expired, -, rfl⟩ := step_handleReadEnd h
    simpa using TimerQueue.erased_reset { s.queue with callingExpiredTimers := false } s.clock
      expired now

end TimerLoop

/-- The timer queue whose sets have nodes. -/
abbrev HandleLoop := TimerLoop (NodeSet Entry) (NodeSet TimerId)

namespace HandleLoop
open TimerLoop (step step_abs run_abs)

variable {s s' : HandleLoop}

def initial (clock : Clock) : HandleLoop := ⟨clock, TimerQueue.initial, [], none, []⟩

/-- The step cancels no timer that is scheduled. -/
def CancelsUnscheduled (s : HandleLoop) : TimerOp → Prop
  | .cancelInLoop id => s.queue.activeTimers.find id = none
  | _ => True

instance (s : HandleLoop) (op : TimerOp) : Decidable (s.CancelsUnscheduled op) := by
  cases op <;> unfold CancelsUnscheduled <;> infer_instance

theorem cancelsUnscheduled_iff {op : TimerOp} : s.CancelsUnscheduled op ↔
    ¬ ∃ id, op = .cancelInLoop id ∧ id ∈ s.queue.activeTimers.toSet := by
  cases op <;> simp [CancelsUnscheduled, NodeSet.find_eq_none]

theorem erased_run {ops : List TimerOp} (hs : s.abs.Valid)
    (hrun : Machine.run step s ops = some s') :
    Report.erasedIterator ∉ s'.queue.reports ↔ Report.erasedIterator ∉ s.queue.reports ∧
      Machine.Along step CancelsUnscheduled s ops := by
  induction ops generalizing s with
  | nil =>
    obtain rfl := Option.some.inj hrun
    exact ⟨fun h => ⟨h, trivial⟩, fun h => h.1⟩
  | cons op ops ih =>
    obtain ⟨t, ht, hrest⟩ := Machine.run_cons_eq_some.mp hrun
    have hstep : s.abs.step op = some t.abs := by rw [step_abs s op, ht, Option.map_some]
    have herased : Report.erasedIterator ∈ t.queue.reports ↔
        Report.erasedIterator ∈ s.queue.reports ∨ ∃ id, op = .cancelInLoop id ∧
          id ∈ s.queue.activeTimers.toSet := TimerLoop.erased_step hs hstep
    rw [ih (TimerLoop.step_valid hs hstep) hrest, Machine.along_cons_of_some ht, herased,
      cancelsUnscheduled_iff, not_or, and_assoc]

theorem initial_abs_valid (clock : Clock) : (initial clock).abs.Valid := by
  rw [TimerLoop.abs, initial, TimerQueue.abs_initial]
  exact TimerLoop.initial_valid clock

/-- **No use of an erased set element.**  In every run, no iterator is dereferenced after its
element was erased and no `Timer` is read after it was deleted, if and only if no
`cancelInLoop` finds its timer in `activeTimers_`. -/
theorem iterators_valid_iff {clock : Clock} {ops : List TimerOp}
    (hrun : Machine.run step (initial clock) ops = some s) :
    (Report.erasedIterator ∉ s.queue.reports ∧ Report.danglingTimer ∉ s.queue.reports) ↔
      Machine.Along step CancelsUnscheduled (initial clock) ops := by
  have hvalid : s.abs.Valid := Machine.run_invariant (fun _ _ _ hs h => TimerLoop.step_valid hs h)
    (run_abs hrun) (initial_abs_valid clock)
  have hdangling : Report.danglingTimer ∉ s.queue.reports := by
    intro hmem
    cases hvalid.queue.clean _ hmem
  rw [and_iff_left hdangling, erased_run (initial_abs_valid clock) hrun]
  exact and_iff_right (by simp [initial, TimerQueue.initial])

/-- A periodic timer cancels itself in its callback, when it is in neither set. -/
def cancelsItself : List TimerOp :=
  [.newTimer 1 5 (.ofMicros 3), .addTimerInLoop 1, .handleRead, .runNext, .cancelInLoop ⟨1, 0⟩,
    .handleReadEnd]

theorem iterators_valid_cancelsItself :
    ∃ s, Machine.run step (initial ⟨10, 0⟩) cancelsItself = some s ∧
      Report.erasedIterator ∉ s.queue.reports ∧ Report.danglingTimer ∉ s.queue.reports := by
  obtain ⟨s, hs⟩ : ∃ s, Machine.run step (initial ⟨10, 0⟩) cancelsItself = some s := ⟨_, rfl⟩
  exact ⟨s, hs, (iterators_valid_iff hs).mpr (by decide +kernel)⟩

/-- The loop thread cancels a timer that is scheduled. -/
theorem erased_iterator_dereferenced :
    ∃ s, Machine.run step (initial ⟨10, 0⟩)
        [.newTimer 1 50 .zero, .addTimerInLoop 1, .cancelInLoop ⟨1, 0⟩] = some s ∧
      Report.erasedIterator ∈ s.queue.reports :=
  ⟨_, rfl, by decide⟩

end HandleLoop
end ReMuduo
