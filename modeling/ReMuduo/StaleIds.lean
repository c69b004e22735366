import ReMuduo.TimerFiring

/-! # Stale timer ids

A `TimerId` outlives its timer: connections cancel ids of timers that fired long ago, and
the address in the id may belong to another timer by then.  What protects that timer is
the sequence number, which is never handed out twice.  `Agrees` relates two queues that
differ only in what they say about one id in `cancelingTimers_`; every operation takes
them to queues that agree again, as long as no live timer bears the id, and so a stale
`cancelInLoop` changes nothing about the runs that follow. -/
namespace ReMuduo
namespace TimerQueue

variable {q q' : TimerQueue} {id : TimerId}

/-- No live timer bears the id. -/
def Unborne (q : TimerQueue) (id : TimerId) : Prop :=
  ∀ t, q.heap id.timer = some t → t.sequence ≠ id.sequence

/-- The queues differ in their reports and in whether they are cancelling `id`. -/
def Agrees (id : TimerId) (q q' : TimerQueue) : Prop :=
  ∃ canceling reports, (∀ i, i ≠ id → (i ∈ canceling ↔ i ∈ q.cancelingTimers)) ∧
    q' = { q with cancelingTimers := canceling, reports := reports }

namespace Agrees

theorem report (h : Agrees id q q') (r : Report) : Agrees id (q.report r) (q'.report r) := by
  obtain ⟨C, R, hC, rfl⟩ := h
  exact ⟨C, R ++ [r], hC, rfl⟩

theorem check (h : Agrees id q q') (c : Bool) (r : Report) :
    Agrees id (q.check c r) (q'.check c r) := by
  cases c
  · exact h.report r
  · exact h

theorem setHeap (h : Agrees id q q') (a : Addr) (t : Option Timer) :
    Agrees id (q.setHeap a t) (q'.setHeap a t) := by
  obtain ⟨C, R, hC, rfl⟩ := h
  exact ⟨C, R, hC, rfl⟩

theorem newTimer (h : Agrees id q q') (a : Addr) (when : Int) (interval : Seconds) :
    Agrees id (q.newTimer a when interval) (q'.newTimer a when interval) := by
  obtain ⟨C, R, hC, rfl⟩ := h
  exact ⟨C, R, hC, rfl⟩

theorem resetTimerfd (h : Agrees id q q') (clock : Clock) (expiration : Int) :
    Agrees id (q.resetTimerfd clock expiration) (q'.resetTimerfd clock expiration) := by
  obtain ⟨C, R, hC, rfl⟩ := h
  exact ⟨C, R, hC, rfl⟩

theorem setTimers (h : Agrees id q q') (l : OrderedSet Entry) :
    Agrees id { q with timers := l } { q' with timers := l } := by
  obtain ⟨C, R, hC, rfl⟩ := h
  exact ⟨C, R, hC, rfl⟩

theorem setActive (h : Agrees id q q') (m : OrderedSet TimerId) :
    Agrees id { q with activeTimers := m } { q' with activeTimers := m } := by
  obtain ⟨C, R, hC, rfl⟩ := h
  exact ⟨C, R, hC, rfl⟩

theorem sets_eq (h : Agrees id q q') :
    q'.timers = q.timers ∧ q'.activeTimers = q.activeTimers ∧ q'.heap = q.heap := by
  obtain ⟨C, R, -, rfl⟩ := h
  exact ⟨rfl, rfl, rfl⟩

theorem insert (h : Agrees id q q') (a : Addr) :
    Agrees id (q.insert a).1 (q'.insert a).1 ∧ (q'.insert a).2 = (q.insert a).2 := by
  have hsets := h.sets_eq
  simp only [TimerQueue.insert, earliestChanged_eq]
  split
  · exact ⟨h.report _, rfl⟩
  · rw [hsets.2.2]
    split
    · exact ⟨h.report _, rfl⟩
    · rw [hsets.1, hsets.2.1]
      have hp := h.check (IterSet.size q.timers == IterSet.size q.activeTimers) .assertSizes
      generalize q.check _ _ = p at hp ⊢
      generalize q'.check _ _ = p' at hp ⊢
      obtain ⟨C, R, hC, rfl⟩ := hp
      dsimp only
      split
      · exact ⟨⟨C, _, hC, rfl⟩, rfl⟩
      · split
        · exact ⟨⟨C, _, hC, rfl⟩, rfl⟩
        · refine ⟨check ?_ _ _, rfl⟩
          exact ⟨C, R, hC, rfl⟩

theorem addTimerInLoop (h : Agrees id q q') (clock : Clock) (a : Addr) :
    Agrees id (q.addTimerInLoop clock a) (q'.addTimerInLoop clock a) := by
  obtain ⟨hinsert, hchanged⟩ := h.insert a
  unfold TimerQueue.addTimerInLoop
  split
  · exact h.report _
  · dsimp only
    rw [hchanged, hinsert.sets_eq.2.2]
    split
    · split
      · exact hinsert.report _
      · exact hinsert.resetTimerfd clock _
    · exact hinsert

theorem cancelInLoop (h : Agrees id q q') (i : TimerId) :
    Agrees id (q.cancelInLoop i) (q'.cancelInLoop i) := by
  have hsets := h.sets_eq
  by_cases hmem : i ∈ q.activeTimers
  · by_cases hnull : i.timer = nullptr
    · simp only [TimerQueue.cancelInLoop, hnull, if_true]
      exact h.report _
    · obtain ⟨it, hit, heq⟩ := q.cancelInLoop_of_mem hnull hmem
      obtain ⟨it', hit', heq'⟩ := q'.cancelInLoop_of_mem hnull (hsets.2.1 ▸ hmem)
      rw [heq, heq', OrderedSet.iterSet_eraseIter hit, OrderedSet.iterSet_eraseIter hit', hsets.1,
        hsets.2.1, hsets.2.2]
      split
      · exact h.report _
      · rename_i t _
        have hp := (h.setTimers (q.timers.erase ⟨t.expiration, i.timer⟩).1).check
          ((q.timers.erase ⟨t.expiration, i.timer⟩).2 == 1)
          (.cancelErase (q.timers.erase ⟨t.expiration, i.timer⟩).2)
        rw [hsets.2.1, hsets.2.2] at hp
        exact ((hp.setActive _).report _).setHeap _ _
  · obtain ⟨C, R, hC, rfl⟩ := h
    have h : Agrees id q { q with cancelingTimers := C, reports := R } := ⟨C, R, hC, rfl⟩
    rw [q.cancelInLoop_of_notMem hmem, TimerQueue.cancelInLoop_of_notMem _ hmem]
    split
    · exact h.report _
    · split
      · refine ⟨(C.insert i).1, R, fun j hj => ?_, rfl⟩
        simp only [OrderedSet.iterSet_insert, OrderedSet.mem_insert, hC j hj]
      · exact h

theorem eraseActive (h : Agrees id q q') (it : Entry) :
    Agrees id (q.eraseActive it) (q'.eraseActive it) := by
  obtain ⟨C, R, hC, rfl⟩ := h
  unfold TimerQueue.eraseActive
  dsimp only
  split
  · exact ⟨C, _, hC, rfl⟩
  · exact (setActive ⟨C, R, hC, rfl⟩ _).check _ _

theorem foldl {f : TimerQueue → Entry → TimerQueue} {I : TimerQueue → Prop}
    (hI : ∀ q it, I q → I (f q it))
    (hf : ∀ q q' it, I q → Agrees id q q' → Agrees id (f q it) (f q' it)) (l : List Entry)
    (hq : I q) (h : Agrees id q q') : Agrees id (l.foldl f q) (l.foldl f q') := by
  induction l generalizing q q' with
  | nil => exact h
  | cons it l ih => exact ih (hI q it hq) (hf q q' it hq h)

theorem getExpired (h : Agrees id q q') (now : Int) :
    Agrees id (q.getExpired now).1 (q'.getExpired now).1 ∧
      (q'.getExpired now).2 = (q.getExpired now).2 := by
  cases hnow : Timestamp.valid now with
  | false =>
    simp only [TimerQueue.getExpired, hnow, if_true]
    exact ⟨h.report _, trivial⟩
  | true =>
    rw [q.getExpired_of_valid hnow, q'.getExpired_of_valid hnow, h.sets_eq.1]
    have hp := h.check (boundaryHolds (IterSet.toSet q.timers) now) .assertBoundary
    generalize q.check _ _ = p at hp ⊢
    generalize q'.check _ _ = p' at hp ⊢
    obtain ⟨C, R, hC, rfl⟩ := hp
    refine ⟨foldl (I := fun _ => True) (fun _ _ _ => trivial) ?_ _ trivial ⟨C, R, hC, rfl⟩, rfl⟩
    exact fun _ _ it _ h => h.eraseActive it

end Agrees

@[simp] theorem heap_insert (q : TimerQueue) (a : Addr) : (q.insert a).1.heap = q.heap := by
  simp only [insert, earliestChanged_eq]
  split
  · rfl
  · split
    · rfl
    · split
      · exact heap_check ..
      · split
        · exact heap_check ..
        · exact (heap_check ..).trans (heap_check ..)

@[simp] theorem heap_nextExpire (q : TimerQueue) : q.nextExpire.1.heap = q.heap := by
  rw [nextExpire_of_first]
  split
  · rfl
  · split <;> rfl

/-- `reset` frees the timer of an entry or restarts it, with its sequence number. -/
theorem resetOne_sequence {now : Int} {it : Entry} {a : Addr} {u : Timer}
    (h : (resetOne now q it).heap a = some u) :
    ∃ t, q.heap a = some t ∧ t.sequence = u.sequence := by
  unfold resetOne at h
  split at h
  · exact ⟨u, h, rfl⟩
  · split at h
    · exact ⟨u, h, rfl⟩
    · rename_i t ht
      by_cases ha : a = it.timer
      · subst ha
        refine ⟨t, ht, ?_⟩
        split at h
        · rw [heap_check, heap_insert, setHeap_self] at h
          rw [← Option.some.inj h, Timer.restart_sequence]
        · rw [setHeap_self] at h
          cases h
      · split at h
        · rw [heap_check, heap_insert, setHeap_other _ ha] at h
          exact ⟨u, h, rfl⟩
        · rw [setHeap_other _ ha] at h
          exact ⟨u, h, rfl⟩

theorem foldl_resetOne_sequence {now : Int} {a : Addr} {u : Timer} (l : List Entry)
    (h : (l.foldl (resetOne now) q).heap a = some u) :
    ∃ t, q.heap a = some t ∧ t.sequence = u.sequence := by
  induction l generalizing q with
  | nil => exact ⟨u, h, rfl⟩
  | cons it l ih =>
    obtain ⟨t, ht, hseq⟩ := ih h
    obtain ⟨v, hv, hseq'⟩ := resetOne_sequence ht
    exact ⟨v, hv, hseq'.trans hseq⟩

theorem reset_sequence {clock : Clock} {expired : List Entry} {now : Int} {a : Addr} {u : Timer}
    (h : (q.reset clock expired now).heap a = some u) :
    ∃ t, q.heap a = some t ∧ t.sequence = u.sequence := by
  unfold reset at h
  split at h
  · exact ⟨u, h, rfl⟩
  · have hloop : (expired.foldl (resetOne now) q).heap a = some u := by
      rw [← heap_nextExpire]
      dsimp only at h
      split at h
      · exact h
      · exact h
    exact foldl_resetOne_sequence expired hloop

theorem Unborne.resetOne (h : q.Unborne id) (now : Int) (it : Entry) :
    (resetOne now q it).Unborne id := by
  intro u hu
  obtain ⟨t, ht, hseq⟩ := resetOne_sequence hu
  exact hseq ▸ h t ht

namespace Agrees

/-- `reset` looks for live timers only in `cancelingTimers_`. -/
theorem resetOne (h : Agrees id q q') (hid : q.Unborne id) (now : Int) (it : Entry) :
    Agrees id (resetOne now q it) (resetOne now q' it) := by
  have hsets := h.sets_eq
  unfold TimerQueue.resetOne
  split
  · exact h.report _
  · rw [hsets.2.2]
    split
    · exact h.report _
    · rename_i t ht
      have hne : (⟨it.timer, t.sequence⟩ : TimerId) ≠ id := by
        rintro rfl
        exact hid t ht rfl
      have hcanceling : (⟨it.timer, t.sequence⟩ : TimerId) ∈ q'.cancelingTimers ↔
          (⟨it.timer, t.sequence⟩ : TimerId) ∈ q.cancelingTimers := by
        obtain ⟨C, R, hC, rfl⟩ := h
        exact hC _ hne
      simp only [isNone_find_canceling, OrderedSet.iterSet_toSet, hcanceling]
      split
      · obtain ⟨hinsert, hreturned⟩ := (h.setHeap it.timer (some (t.restart now))).insert it.timer
        rw [hreturned]
        exact hinsert.check _ _
      · exact h.setHeap _ _

theorem nextExpire (h : Agrees id q q') :
    Agrees id q.nextExpire.1 q'.nextExpire.1 ∧ q'.nextExpire.2 = q.nextExpire.2 := by
  have hsets := h.sets_eq
  rw [q.nextExpire_of_first, q'.nextExpire_of_first, hsets.1, hsets.2.2]
  split
  · exact ⟨h, rfl⟩
  · split
    · exact ⟨h.report _, rfl⟩
    · exact ⟨h, rfl⟩

theorem reset (h : Agrees id q q') (hid : q.Unborne id) (clock : Clock) (expired : List Entry)
    (now : Int) : Agrees id (q.reset clock expired now) (q'.reset clock expired now) := by
  unfold TimerQueue.reset
  split
  · exact h.report _
  · have hloop : Agrees id (expired.foldl (TimerQueue.resetOne now) q)
        (expired.foldl (TimerQueue.resetOne now) q') :=
      foldl (I := fun q => q.Unborne id) (fun _ it hid => hid.resetOne now it)
        (fun _ _ it hid h => h.resetOne hid now it) expired hid h
    obtain ⟨hqueue, hnext⟩ := hloop.nextExpire
    dsimp only
    rw [hnext]
    split
    · exact hqueue.resetTimerfd clock _
    · exact hqueue

end Agrees
end TimerQueue

namespace TimerLoop
open TimerQueue

variable {s s' : TimerLoop} {id : TimerId} {op : TimerOp} {base : List TimerEvent}

/-! ## A stale id stays stale -/

/-- A live timer was live before the step, or has been allocated by it and given the next
sequence number. -/
theorem live_of_step (hs : s.Valid) (h : s.step op = some s') {a : Addr} {u : Timer}
    (hu : s'.queue.heap a = some u) :
    (∃ t, s.queue.heap a = some t ∧ t.sequence = u.sequence) ∨
      u.sequence = s.queue.numCreated := by
  cases op with
  | advance wall mono =>
    obtain ⟨-, rfl⟩ := step_advance h
    exact .inl ⟨u, hu, rfl⟩
  | newTimer b when interval =>
    obtain ⟨-, -, -, rfl⟩ := step_newTimer h
    by_cases hab : a = b
    · subst hab
      rw [newTimer_heap_self] at hu
      exact .inr (Option.some.inj hu ▸ rfl)
    · rw [newTimer_heap_other when interval hab] at hu
      exact .inl ⟨u, hu, rfl⟩
  | addTimerInLoop b =>
    obtain ⟨hb, t, ht, rfl⟩ := step_addTimerInLoop h
    rw [(addTimerInLoop_frame hs.queue s.clock ht (hs.posted_inactive b hb)).1] at hu
    exact .inl ⟨u, hu, rfl⟩
  | cancelInLoop i =>
    rw [step_cancelInLoop h] at hu
    exact .inl ⟨u, cancelInLoop_heap hs.queue hu, rfl⟩
  | handleRead =>
    obtain ⟨-, rfl⟩ := step_handleRead h
    rw [hs.beginQueue_heap] at hu
    exact .inl ⟨u, hu, rfl⟩
  | runNext =>
    obtain ⟨now, expired, it, todo, -, ⟨-, rfl⟩ | ⟨t, -, rfl⟩⟩ := step_runNext h
    · exact .inl ⟨u, hu, rfl⟩
    · exact .inl ⟨u, hu, rfl⟩
  | throws =>
    rw [step_throws h] at hu
    exact .inl ⟨u, hu, rfl⟩
  | handleReadEnd =>
    obtain ⟨now, expired, -, rfl⟩ := step_handleReadEnd h
    obtain ⟨t, ht, hseq⟩ := reset_sequence hu
    exact .inl ⟨t, ht, hseq⟩

/-- The id belongs to no live timer, and to none in the future: its sequence number has been
handed out. -/
def Stale (s : TimerLoop) (id : TimerId) : Prop :=
  id.sequence < s.queue.numCreated ∧ s.queue.Unborne id

theorem Stale.step (hs : s.Valid) (hid : s.Stale id) (h : s.step op = some s') : s'.Stale id := by
  refine ⟨Nat.lt_of_lt_of_le hid.1 (numCreated_le_step hs h), fun u hu => ?_⟩
  rcases live_of_step hs h hu with ⟨t, ht, hseq⟩ | hseq
  · exact hseq ▸ hid.2 t ht
  · rw [hseq]
    exact (Nat.ne_of_lt hid.1).symm

/-- What is not allocated any more is stale. -/
theorem stale_of_deleted {ops : List TimerOp} {t : Timer} (hs : s.Valid) (hlive : s.Live id t)
    (hrun : Machine.run TimerLoop.step s ops = some s') (hdeleted : ∀ u, ¬ s'.Live id u) :
    s'.Stale id := by
  have hcreated : id.sequence < s.queue.numCreated := hlive.2 ▸ hs.queue.live_seq _ t hlive.1
  have hkept : s'.Valid ∧ id.sequence < s'.queue.numCreated := by
    refine Machine.run_invariant
      (P := fun s => s.Valid ∧ id.sequence < s.queue.numCreated) ?_ hrun ⟨hs, hcreated⟩
    intro s op s' hs h
    exact ⟨step_valid hs.1 h, Nat.lt_of_lt_of_le hs.2 (numCreated_le_step hs.1 h)⟩
  exact ⟨hkept.2, fun u hu hseq => hdeleted u ⟨hu, hseq⟩⟩

/-! ## A stale cancellation changes no run -/

/-- `s'` is `s` after one more cancellation of `id`, which has left no trace but in the
history, in the reports and in `cancelingTimers_`. -/
def Mirrors (id : TimerId) (base : List TimerEvent) (s s' : TimerLoop) : Prop :=
  ∃ queue history, Agrees id s.queue queue ∧ s.history = base ++ history ∧
    s' = { s with queue := queue, history := base ++ .cancelled id :: history }

theorem Mirrors.step (hid : s.Stale id) (h : Mirrors id base s s') (op : TimerOp) :
    Option.Rel (Mirrors id base) (s.step op) (s'.step op) := by
  obtain ⟨queue, history, hqueue, hhistory, rfl⟩ := h
  have happend : ∀ e, s.history ++ [e] = base ++ (history ++ [e]) ∧
      base ++ .cancelled id :: history ++ [e] = base ++ .cancelled id :: (history ++ [e]) :=
    fun e => ⟨by rw [hhistory, List.append_assoc], by simp⟩
  cases op with
  | advance wall mono =>
    obtain ⟨C, R, hC, rfl⟩ := hqueue
    simp only [TimerLoop.step]
    split
    · exact .some ⟨_, history, ⟨C, R, hC, rfl⟩, hhistory, rfl⟩
    · exact .none
  | newTimer a when interval =>
    simp only [TimerLoop.step, hqueue.sets_eq.2.2]
    split
    · exact .some ⟨_, history, hqueue.newTimer a when interval, hhistory, rfl⟩
    · exact .none
  | addTimerInLoop a =>
    simp only [TimerLoop.step, hqueue.sets_eq.2.2]
    split
    · split
      · exact .none
      · rw [(happend _).2]
        exact .some ⟨_, _, hqueue.addTimerInLoop s.clock a, (happend _).1, rfl⟩
    · exact .none
  | cancelInLoop i =>
    simp only [TimerLoop.step]
    rw [(happend _).2]
    exact .some ⟨_, _, hqueue.cancelInLoop i, (happend _).1, rfl⟩
  | handleRead =>
    obtain ⟨C, R, hC, rfl⟩ := hqueue
    simp only [TimerLoop.step]
    split
    · exact .none
    · have hread : Agrees id { s.queue with timerfd := s.queue.timerfd.read }
          { s.queue with timerfd := s.queue.timerfd.read, cancelingTimers := C, reports := R } :=
        ⟨C, R, hC, rfl⟩
      obtain ⟨hexpired, hbatch⟩ := hread.getExpired s.clock.wall
      rw [(happend _).2, hbatch]
      refine .some ⟨_, _, ?_, (happend _).1, rfl⟩
      obtain ⟨C', R', -, heq⟩ := hexpired
      rw [heq]
      exact ⟨_, R', fun _ _ => Iff.rfl, rfl⟩
  | runNext =>
    simp only [TimerLoop.step, hqueue.sets_eq.2.2]
    split
    · split
      · exact .some ⟨_, history, hqueue.report _, hhistory, rfl⟩
      · rw [(happend _).2]
        exact .some ⟨_, _, hqueue, (happend _).1, rfl⟩
    · exact .none
  | throws =>
    simp only [TimerLoop.step]
    split
    · exact .none
    · exact .some ⟨_, history, hqueue.report _, hhistory, rfl⟩
  | handleReadEnd =>
    obtain ⟨C, R, hC, rfl⟩ := hqueue
    simp only [TimerLoop.step]
    split
    · rename_i now expired hb
      have hdone : Agrees id { s.queue with callingExpiredTimers := false }
          { s.queue with
            callingExpiredTimers := false, cancelingTimers := C, reports := R } :=
        ⟨C, R, hC, rfl⟩
      rw [(happend _).2]
      exact .some ⟨_, _, hdone.reset hid.2 s.clock expired now, (happend _).1, rfl⟩
    · exact .none

theorem Mirrors.run (hs : s.Valid) (hid : s.Stale id) (h : Mirrors id base s s')
    (ops : List TimerOp) :
    Option.Rel (Mirrors id base) (Machine.run TimerLoop.step s ops)
      (Machine.run TimerLoop.step s' ops) := by
  refine Machine.run_rel (I := fun s => s.Valid ∧ s.Stale id) ?_ ?_ ⟨hs, hid⟩ h ops
  · exact fun s op s' hI h => ⟨step_valid hI.1 h, hI.2.step hI.1 h⟩
  · exact fun s s' op hI h => h.step hI.2 op

/-- `cancelInLoop` does not find a stale id. -/
theorem mirrors_stale_cancel (hs : s.Valid) (hid : s.Stale id)
    (h : s.step (.cancelInLoop id) = some s') : Mirrors id s.history s s' := by
  rw [step_cancelInLoop h]
  have hsched : s.queue.sched id = none := by
    refine hs.queue.sched_eq_none.mpr fun hact => ?_
    obtain ⟨t, ht, hseq⟩ := hs.queue.active_live id hact
    exact hid.2 t ht hseq
  refine ⟨_, [], ?_, (List.append_nil _).symm, rfl⟩
  rw [cancelInLoop_eq_of_none hs.queue hsched]
  split
  · exact ⟨_, _, fun _ _ => Iff.rfl, rfl⟩
  · split
    · refine ⟨_, _, fun i hi => ?_, rfl⟩
      rw [OrderedSet.mem_insert, or_iff_right hi]
    · exact ⟨_, _, fun _ _ => Iff.rfl, rfl⟩

/-- What a stale cancellation leaves alone: both sets, the timers and their batch, what is
posted, the timerfd with the times it has been set to, and the clock; and the history has one
event more.  Only `cancelingTimers_` and the reports may differ. -/
def SameTimers (id : TimerId) (base : List TimerEvent) (s s' : TimerLoop) : Prop :=
  ∃ canceling reports history, s.history = base ++ history ∧
    s' = { s with
      queue := { s.queue with cancelingTimers := canceling, reports := reports }
      history := base ++ .cancelled id :: history }

theorem Mirrors.sameTimers (h : Mirrors id base s s') : SameTimers id base s s' := by
  obtain ⟨queue, history, ⟨canceling, reports, -, rfl⟩, hhistory, rfl⟩ := h
  exact ⟨canceling, reports, history, hhistory, rfl⟩

/-- **A stale id never touches another timer.**  Let a timer have been allocated under `id`
in some state of a run and be deleted in a later one, whatever lives at its address by
then.  Executing `cancelInLoop` on `id` leaves the sets, all timers and the timerfd as they are,
inside and outside of a batch; and every run from there on can happen, and goes, timer for timer
and event for event, as it would have without the cancellation. -/
theorem stale_cancel_harmless {clock : Clock} {ops ops' : List TimerOp} {s₀ : TimerLoop}
    {t : Timer} (hrun : Machine.run step (initial clock) ops = some s₀) (hlive : s₀.Live id t)
    (hrun' : Machine.run step s₀ ops' = some s) (hdeleted : ∀ u, ¬ s.Live id u)
    (hcancel : s.step (.cancelInLoop id) = some s') :
    SameTimers id s.history s s' ∧
      ∀ later, Option.Rel (SameTimers id s.history) (Machine.run step s later)
        (Machine.run step s' later) := by
  have hs₀ := run_valid hrun
  have hs : s.Valid := Machine.run_invariant (fun _ _ _ hs h => step_valid hs h) hrun' hs₀
  have hstale := stale_of_deleted hs₀ hlive hrun' hdeleted
  have hmirrors := mirrors_stale_cancel hs hstale hcancel
  refine ⟨hmirrors.sameTimers, fun later => ?_⟩
  have hrel := hmirrors.run hs hstale later
  generalize Machine.run step s later = r at hrel ⊢
  generalize Machine.run step s' later = r' at hrel ⊢
  cases hrel with
  | none => exact .none
  | some h => exact .some h.sameTimers

/-- A one-shot timer fires and is deleted, and a periodic one takes its address and fires. -/
def reusedAddress : List TimerOp :=
  [.handleRead, .runNext, .handleReadEnd, .newTimer 1 7 (.ofMicros 3), .addTimerInLoop 1,
    .handleRead, .runNext]

/-- In the callback of the new timer the id of the old one is cancelled: the new timer is
armed again, with the cancellation and without. -/
theorem stale_cancel_harmless_reusedAddress :
    ∃ s₀ s s' u u', Machine.run step (initial ⟨10, 0⟩)
        [.newTimer 1 5 .zero, .addTimerInLoop 1] = some s₀ ∧
      Machine.run step s₀ reusedAddress = some s ∧
      s.step (.cancelInLoop ⟨1, 0⟩) = some s' ∧ s.queue.callingExpiredTimers = true ∧
      Machine.run step s [.handleReadEnd] = some u ∧
      Machine.run step s' [.handleReadEnd] = some u' ∧
      u.queue.timers.elems = [⟨13, 1⟩] ∧ SameTimers ⟨1, 0⟩ s.history u u' := by
  obtain ⟨s₀, hs₀⟩ : ∃ s, Machine.run step (initial ⟨10, 0⟩)
      [.newTimer 1 5 .zero, .addTimerInLoop 1] = some s := ⟨_, rfl⟩
  obtain ⟨s, hs⟩ : ∃ s, Machine.run step s₀ reusedAddress = some s := by
    obtain rfl := Option.some.inj hs₀
    exact ⟨_, rfl⟩
  have hlive : s₀.Live ⟨1, 0⟩ ⟨5, .zero, 0⟩ := by
    obtain rfl := Option.some.inj hs₀
    exact ⟨rfl, rfl⟩
  have hdeleted : ∀ u, ¬ s.Live ⟨1, 0⟩ u := by
    obtain rfl := Option.some.inj hs₀
    obtain rfl := Option.some.inj hs
    rintro u ⟨hu, hseq⟩
    cases hu
    cases hseq
  have h := (stale_cancel_harmless hs₀ hlive hs hdeleted rfl).2 [.handleReadEnd]
  obtain rfl := Option.some.inj hs₀
  obtain rfl := Option.some.inj hs
  refine ⟨_, _, _, _, _, hs₀, hs, rfl, rfl, rfl, rfl, rfl, ?_⟩
  cases h with
  | some h => exact h

end TimerLoop
end ReMuduo
