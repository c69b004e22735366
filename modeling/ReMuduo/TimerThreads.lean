import ReMuduo.StaleIds
import ReMuduo.TimerDeletes

/-! # Timers from other threads

`addTimer` and `cancel` may be called on any thread.  On a thread that is not the loop's,
`runInLoop` queues: `addTimer` allocates its timer, queues `addTimerInLoop` and reads the
sequence number of the timer for the id it returns, and `cancel` queues `cancelInLoop`.
On the loop thread both are executed at once.  `TimerThreads` takes these steps one by one,
any number of calls at a time and in any order between the threads.

Two things can go wrong.  The loop thread may be done with a one-shot timer before the call
that created it reads its sequence number.  And a `cancel` on the loop thread may overtake
the `addTimerInLoop` that is still queued. -/
namespace ReMuduo

open TimerQueue

namespace TimerLoop

variable {s s' : TimerLoop} {op : TimerOp} {id : TimerId}

/-! ## What a step does to one timer -/

/-- The timer is allocated, and its `addTimerInLoop` has not run. -/
def Unadded (s : TimerLoop) (id : TimerId) : Prop := id.timer ∈ s.posted ∧ ∃ t, s.Live id t

/-- The id is the one of `TimerId()`, or its sequence number has been handed out. -/
def Given (s : TimerLoop) (id : TimerId) : Prop :=
  id.timer = nullptr ∨ id.sequence < s.queue.numCreated

theorem Given.step (hs : s.Valid) (hid : s.Given id) (h : s.step op = some s') : s'.Given id :=
  hid.imp_right fun hlt => Nat.lt_of_lt_of_le hlt (numCreated_le_step hs h)

theorem Valid.ne_nullptr_of_live (hs : s.Valid) {t : Timer} (ht : s.Live id t) :
    id.timer ≠ nullptr :=
  (hs.queue.live_addr _ t ht.1).1

theorem Valid.notMem_pendingEntries (hs : s.Valid) {a : Addr} (ha : a ∈ s.posted) :
    a ∉ s.pendingEntries.map Entry.timer := by
  intro hmem
  obtain ⟨e, he, rfl⟩ := List.mem_map.mp hmem
  obtain ⟨b, hb, he⟩ := mem_pendingEntries.mp he
  exact hs.posted_batch b hb e he ha

theorem mem_posted_of_step (h : s.step op = some s') {a : Addr} (ha : a ∈ s'.posted) :
    a ∈ s.posted ∨ ∃ when interval, op = .newTimer a when interval := by
  cases op with
  | newTimer b when interval =>
    obtain ⟨-, -, -, rfl⟩ := step_newTimer h
    rcases List.mem_append.mp ha with ha | ha
    · exact .inl ha
    · exact .inr ⟨when, interval, by rw [List.mem_singleton.mp ha]⟩
  | addTimerInLoop b =>
    obtain ⟨-, t, -, rfl⟩ := step_addTimerInLoop h
    exact .inl (List.mem_of_mem_erase ha)
  | advance | cancelInLoop | handleRead | runNext | throws | handleReadEnd =>
    rw [posted_step h rfl (by simp)] at ha
    exact .inl ha

/-- A timer that waits for its `addTimerInLoop` has done so since it was allocated. -/
theorem unadded_of_step (hs : s.Valid) (hid : s.Given id) (h : s.step op = some s')
    (hu : s'.Unadded id) : s.Unadded id := by
  obtain ⟨hposted, u, hu⟩ := hu
  have hlt := hid.resolve_left ((step_valid hs h).ne_nullptr_of_live hu)
  rcases live_of_step hs h hu.1 with ⟨t, ht, hseq⟩ | hseq
  · refine ⟨(mem_posted_of_step h hposted).resolve_right ?_, t, ht, hseq.trans hu.2⟩
    rintro ⟨when, interval, rfl⟩
    obtain ⟨-, -, hfree, -⟩ := step_newTimer h
    rw [hfree] at ht
    cases ht
  · rw [← hu.2, hseq] at hlt
    exact absurd hlt (Nat.lt_irrefl _)

/-- `cancelInLoop` deletes the timer of its id only. -/
theorem eq_of_mem_cancelDeletes {q : TimerQueue} (hq : q.Valid) {i : TimerId}
    {pending : List Entry} {d : Delete} (hd : d ∈ q.cancelDeletes i pending) {t : Timer}
    (ht : q.heap d.timer = some t) : i = ⟨d.timer, t.sequence⟩ := by
  unfold cancelDeletes at hd
  split at hd
  · cases hd
  · split at hd
    · rename_i hact
      obtain ⟨u, hu, hseq⟩ := hq.active_live i hact
      rw [hu] at hd
      obtain rfl := List.mem_singleton.mp hd
      obtain rfl := Option.some.inj (hu.symm.trans ht)
      rw [hseq]
    · cases hd

/-- **A timer stays allocated** unless it is cancelled, or is left over in its batch. -/
theorem live_step (hs : s.Valid) (h : s.step op = some s') {t : Timer} (ht : s.Live id t)
    (hcancel : op ≠ .cancelInLoop id)
    (hend : op = .handleReadEnd → id.timer ∈ s.pendingEntries.map Entry.timer →
      t.repeats = true ∧ id ∉ s.queue.cancelingTimers) : ∃ u, s'.Live id u := by
  have hkept : s.creates op = [] → id.timer ∉ (s.deletes op).map Delete.timer →
      ∃ u, s'.Live id u := by
    intro hop hnot
    have hheap := (step_frees hs h hop).1.kept _ hnot
    rw [ht.1, Option.map_some, ht.2] at hheap
    exact Option.map_eq_some_iff.mp hheap
  cases op with
  | newTimer a when interval =>
    obtain ⟨-, -, hfree, rfl⟩ := step_newTimer h
    refine ⟨t, (newTimer_heap_other when interval fun heq => ?_).trans ht.1, ht.2⟩
    rw [← heq, ht.1] at hfree
    cases hfree
  | cancelInLoop i =>
    refine hkept rfl fun hmem => hcancel ?_
    obtain ⟨d, hd, heq⟩ := List.mem_map.mp hmem
    rw [eq_of_mem_cancelDeletes hs.queue hd (heq ▸ ht.1), ht.2, heq]
  | handleReadEnd =>
    obtain ⟨now, expired, hb, rfl⟩ := step_handleReadEnd h
    obtain ⟨hvalid, hsched, hheap, -⟩ := reset_spec hs.endQueue s.clock (hs.endBatch hb)
    by_cases hmem : id.timer ∈ expired.map Entry.timer
    · obtain ⟨hrepeats, hnot⟩ := hend rfl (by simpa [pendingEntries, hb] using hmem)
      have hback := hsched id hmem
      simp only [restarted, ht.1, ht.2, hrepeats, hnot, not_false_eq_true, and_self,
        if_true] at hback
      exact ⟨_, (sched_eq_some.mp hback).2, hvalid.sched_sequence hback⟩
    · exact ⟨t, (hheap _ hmem).trans ht.1, ht.2⟩
  | advance | addTimerInLoop | handleRead | runNext | throws =>
    exact hkept rfl List.not_mem_nil

/-- A timer that waits for its `addTimerInLoop` stays allocated, also if it is cancelled. -/
theorem live_of_unadded (hs : s.Valid) (h : s.step op = some s') (hu : s.Unadded id) :
    ∃ u, s'.Live id u := by
  obtain ⟨hposted, t, ht⟩ := hu
  by_cases hop : op = .cancelInLoop id
  · subst hop
    have hinactive : id ∉ s.queue.activeTimers := hs.posted_inactive _ hposted _
    have hnot : id.timer ∉ (s.deletes (.cancelInLoop id)).map Delete.timer := by
      rw [deletes, cancelDeletes, if_neg hinactive, ite_self]
      exact List.not_mem_nil
    have hheap := (step_frees hs h rfl).1.kept _ hnot
    rw [ht.1, Option.map_some, ht.2] at hheap
    exact Option.map_eq_some_iff.mp hheap
  · exact live_step hs h ht hop fun _ hmem => absurd hmem (hs.notMem_pendingEntries hposted)

/-- A timer that has survived its batch is periodic. -/
theorem repeats_of_live_end (hs : s.Valid) (h : s.step .handleReadEnd = some s') {t u : Timer}
    (ht : s.Live id t) (hmem : id.timer ∈ s.pendingEntries.map Entry.timer)
    (hu : s'.Live id u) : t.repeats = true := by
  obtain ⟨now, expired, hb, rfl⟩ := step_handleReadEnd h
  have hspec := reset_spec hs.endQueue s.clock (hs.endBatch hb)
  have hin : id.timer ∈ expired.map Entry.timer := by simpa [pendingEntries, hb] using hmem
  have hback := hspec.2.2.2.2.2.2 id.timer hin u hu.1
  rw [hu.2, hspec.2.1 id hin] at hback
  simp only [restarted, ht.1] at hback
  split at hback
  · rename_i hcond
    exact hcond.2.1
  · cases hback

theorem reset_canceling {q : TimerQueue} (hq : q.Valid) (clock : Clock) {expired : List Entry}
    {now : Int} (hb : BatchValid q expired now) :
    (q.reset clock expired now).cancelingTimers = q.cancelingTimers := by
  obtain ⟨hvalid, hoff, -⟩ := foldl_resetOne now expired q hq hb.detached
  simp only [reset, nextExpire_eq hvalid]
  split
  · rfl
  · split
    · exact hoff.canceling
    · exact hoff.canceling

theorem canceling_of_step (hs : s.Valid) (h : s.step op = some s')
    (hid : id ∈ s'.queue.cancelingTimers) :
    id ∈ s.queue.cancelingTimers ∨ op = .cancelInLoop id := by
  cases op with
  | advance wall mono =>
    obtain ⟨-, rfl⟩ := step_advance h
    exact .inl hid
  | newTimer a when interval =>
    obtain ⟨-, -, -, rfl⟩ := step_newTimer h
    exact .inl hid
  | addTimerInLoop a =>
    obtain ⟨ha, t, ht, rfl⟩ := step_addTimerInLoop h
    have hframe := addTimerInLoop_frame hs.queue s.clock ht (hs.posted_inactive a ha)
    exact .inl (hframe.2.2.1 ▸ hid)
  | cancelInLoop i =>
    rw [step_cancelInLoop h] at hid
    by_cases hi : id = i
    · exact .inr (by rw [hi])
    · exact .inl ((mem_canceling_cancelInLoop_other hs.queue hi).mp hid)
  | handleRead =>
    obtain ⟨-, rfl⟩ := step_handleRead h
    exact absurd hid (OrderedSet.notMem_empty id)
  | runNext =>
    obtain ⟨now, expired, it, todo, -, ⟨-, rfl⟩ | ⟨t, -, rfl⟩⟩ := step_runNext h
    · exact .inl hid
    · exact .inl hid
  | throws =>
    rw [step_throws h] at hid
    exact .inl hid
  | handleReadEnd =>
    obtain ⟨now, expired, hb, rfl⟩ := step_handleReadEnd h
    have hsame := reset_canceling hs.endQueue s.clock (hs.endBatch hb)
    exact .inl (hsame ▸ hid)

/-- The timer a step allocates is new. -/
theorem creates_spec (h : s.step op = some s') {c : TimerId} (hc : c ∈ s.creates op) :
    s.creates op = [c] ∧ c.sequence = s.queue.numCreated ∧
      c.sequence < s'.queue.numCreated ∧ ∃ t, s'.Live c t := by
  cases op with
  | newTimer a when interval =>
    obtain ⟨-, -, -, rfl⟩ := step_newTimer h
    obtain rfl := List.mem_singleton.mp hc
    exact ⟨rfl, rfl, Nat.lt_succ_self _, _, newTimer_heap_self .., rfl⟩
  | advance | addTimerInLoop | cancelInLoop | handleRead | runNext | throws | handleReadEnd =>
    cases hc

end TimerLoop

/-! ## The threads -/

/-- What the other threads queue. -/
inductive TimerFunctor
  | addTimerInLoop (timer : Addr)
  | cancelInLoop (id : TimerId)
deriving DecidableEq

namespace TimerFunctor

/-- The functor is called. -/
def op : TimerFunctor → TimerOp
  | addTimerInLoop timer => .addTimerInLoop timer
  | cancelInLoop id => .cancelInLoop id

/-- The timer an `addTimerInLoop` is for. -/
def timer? : TimerFunctor → Option Addr
  | addTimerInLoop timer => some timer
  | cancelInLoop _ => none

end TimerFunctor

/-- `timer->sequence()` at the end of `addTimer`: the timer the call has created, and what
is at its address. -/
structure SequenceRead where
  call : TimerId
  found : Option Timer

/-- The call reads its own timer. -/
def SequenceRead.Own (r : SequenceRead) : Prop :=
  r.found.map Timer.sequence = some r.call.sequence

/-- A timer queue with what the other threads have queued for its loop, oldest first; their
calls of `addTimer` that have allocated the timer, and those that have queued it too; the
ids that calls have returned; and the reads of sequence numbers so far. -/
structure TimerThreads where
  loop : TimerLoop
  pendingFunctors : List TimerFunctor
  allocated : List TimerId
  queued : List TimerId
  returned : List TimerId
  reads : List SequenceRead

/-- The steps of the threads. -/
inductive ThreadOp
  /-- `addTimer` on another thread: `new Timer`. -/
  | newTimer (a : Addr) (when : Int) (interval : Seconds)
  /-- The call goes on: `runInLoop(addTimerInLoop)`. -/
  | queueTimer (call : TimerId)
  /-- The call returns: `timer->sequence()`, with what is read if there is no timer. -/
  | readSequence (call : TimerId) (garbage : Nat)
  /-- `cancel` on another thread. -/
  | cancel (id : TimerId)
  /-- The loop thread calls the next functor, outside `handleRead`. -/
  | runFunctor
  | loop (op : LoopThreadOp)

namespace TimerThreads

def initial (clock : Clock) : TimerThreads := ⟨TimerLoop.initial clock, [], [], [], [], []⟩

/-- A thread can cancel an id that `addTimer` has returned, also for an empty callback. -/
def Has (s : TimerThreads) (id : TimerId) : Prop := id.timer = nullptr ∨ id ∈ s.returned

instance (s : TimerThreads) (id : TimerId) : Decidable (s.Has id) :=
  inferInstanceAs (Decidable (_ ∨ _))

/-- The loop thread, too, can cancel such ids only. -/
def Can (s : TimerThreads) : LoopThreadOp → Prop
  | .cancel id => s.Has id
  | _ => True

instance (s : TimerThreads) : ∀ op, Decidable (s.Can op)
  | .cancel id => inferInstanceAs (Decidable (s.Has id))
  | .advance .. | .addTimer .. | .handleRead | .runNext | .throws | .handleReadEnd =>
    inferInstanceAs (Decidable True)

/-- The id `addTimer` returns on the loop thread. -/
def returns (loop : TimerLoop) : LoopThreadOp → List TimerId
  | .addTimer a _ _ => ((loop.queue.heap a).map fun t => (⟨a, t.sequence⟩ : TimerId)).toList
  | _ => []

def step (s : TimerThreads) : ThreadOp → Option TimerThreads
  | .newTimer a when interval =>
    (s.loop.step (.newTimer a when interval)).map fun loop =>
      { s with loop := loop, allocated := s.allocated ++ [⟨a, s.loop.queue.numCreated⟩] }
  | .queueTimer call =>
    if call ∈ s.allocated then
      some { s with
        pendingFunctors := s.pendingFunctors ++ [.addTimerInLoop call.timer]
        allocated := s.allocated.erase call
        queued := s.queued ++ [call] }
    else none
  | .readSequence call garbage =>
    if call ∈ s.queued then
      let found := s.loop.queue.heap call.timer
      some { s with
        queued := s.queued.erase call
        returned := s.returned ++ [⟨call.timer, (found.map Timer.sequence).getD garbage⟩]
        reads := s.reads ++ [⟨call, found⟩] }
    else none
  | .cancel id =>
    if s.Has id then
      some { s with pendingFunctors := s.pendingFunctors ++ [.cancelInLoop id] }
    else none
  | .runFunctor =>
    match s.loop.batch, s.pendingFunctors with
    | none, f :: functors => (s.loop.step f.op).map fun loop =>
        { s with loop := loop, pendingFunctors := functors }
    | _, _ => none
  | .loop op =>
    if s.Can op then
      (Machine.run TimerLoop.step s.loop op.steps).map fun loop =>
        { s with loop := loop, returned := s.returned ++ returns loop op }
    else none

variable {s s' : TimerThreads}

/-! ## What each step does -/

theorem step_newTimer {a : Addr} {when : Int} {interval : Seconds}
    (h : s.step (.newTimer a when interval) = some s') :
    ∃ loop, s.loop.step (.newTimer a when interval) = some loop ∧ s' = { s with
      loop := loop, allocated := s.allocated ++ [⟨a, s.loop.queue.numCreated⟩] } := by
  obtain ⟨loop, hloop, rfl⟩ := Option.map_eq_some_iff.mp h
  exact ⟨loop, hloop, rfl⟩

theorem step_queueTimer {call : TimerId} (h : s.step (.queueTimer call) = some s') :
    call ∈ s.allocated ∧ s' = { s with
      pendingFunctors := s.pendingFunctors ++ [.addTimerInLoop call.timer]
      allocated := s.allocated.erase call
      queued := s.queued ++ [call] } := by
  simp only [step] at h
  split at h
  · rename_i hmem
    exact ⟨hmem, (Option.some.inj h).symm⟩
  · cases h

theorem step_readSequence {call : TimerId} {garbage : Nat}
    (h : s.step (.readSequence call garbage) = some s') :
    call ∈ s.queued ∧ s' = { s with
      queued := s.queued.erase call
      returned := s.returned ++
        [⟨call.timer, ((s.loop.queue.heap call.timer).map Timer.sequence).getD garbage⟩]
      reads := s.reads ++ [⟨call, s.loop.queue.heap call.timer⟩] } := by
  simp only [step] at h
  split at h
  · rename_i hmem
    exact ⟨hmem, (Option.some.inj h).symm⟩
  · cases h

theorem step_cancel {id : TimerId} (h : s.step (.cancel id) = some s') :
    s.Has id ∧ s' = { s with
      pendingFunctors := s.pendingFunctors ++ [.cancelInLoop id] } := by
  simp only [step] at h
  split at h
  · rename_i hhas
    exact ⟨hhas, (Option.some.inj h).symm⟩
  · cases h

theorem step_runFunctor (h : s.step .runFunctor = some s') :
    ∃ f functors loop, s.pendingFunctors = f :: functors ∧ s.loop.step f.op = some loop ∧
      s' = { s with loop := loop, pendingFunctors := functors } := by
  simp only [step] at h
  split at h
  · rename_i f functors hbatch hf
    obtain ⟨loop, hloop, rfl⟩ := Option.map_eq_some_iff.mp h
    exact ⟨f, functors, loop, hf, hloop, rfl⟩
  · cases h

theorem step_loop {op : LoopThreadOp} (h : s.step (.loop op) = some s') :
    s.Can op ∧ ∃ loop, Machine.run TimerLoop.step s.loop op.steps = some loop ∧
      s' = { s with loop := loop, returned := s.returned ++ returns loop op } := by
  simp only [step] at h
  split at h
  · rename_i hcan
    obtain ⟨loop, hloop, rfl⟩ := Option.map_eq_some_iff.mp h
    exact ⟨hcan, loop, hloop, rfl⟩
  · cases h

/-- On the loop thread a timer is added in two steps of the queue, and everything else is
one step. -/
theorem loop_steps {s s' : TimerLoop} {op : LoopThreadOp}
    (h : Machine.run TimerLoop.step s op.steps = some s') :
    (∃ a when interval u, op = .addTimer a when interval ∧
        s.step (.newTimer a when interval) = some u ∧ u.step (.addTimerInLoop a) = some s') ∨
      ∃ o, s.step o = some s' ∧ s.creates o = [] ∧ (∀ a, o ≠ .addTimerInLoop a) ∧
        returns s' op = [] ∧ (∀ id, o = .cancelInLoop id → op = .cancel id) ∧
        (o = .handleReadEnd → op = .handleReadEnd) := by
  rcases op.steps_cases with ⟨a, when, interval, rfl⟩ | ⟨o, heq, hnew, hadd, hrest⟩
  · obtain ⟨u, hu, hrest⟩ := Machine.run_cons_eq_some.mp h
    exact .inl ⟨a, when, interval, u, rfl, hu, Machine.run_singleton_eq_some.mp hrest⟩
  · have hreturns : returns s' op = [] := by
      cases op with
      | addTimer => cases heq
      | advance | cancel | handleRead | runNext | throws | handleReadEnd => rfl
    rw [heq, Machine.run_singleton_eq_some] at h
    exact .inr ⟨o, h, hnew s, hadd, hreturns, hrest⟩

/-! ## The accounts of the calls -/

/-- The timers of the calls in progress. -/
def names (s : TimerThreads) : List TimerId := s.allocated ++ s.queued

/-- What holds in every state: the calls in progress have created different timers, and
`addTimerInLoop` is to come for the timers of the calls that have not queued it and for those
it is queued for. -/
structure Accounts (s : TimerThreads) : Prop where
  reached : s.loop.Reached
  created : ∀ id ∈ s.names, id.sequence < s.loop.queue.numCreated
  nodup : s.names.Nodup
  posted : s.loop.posted.Perm
    (s.allocated.map TimerId.timer ++ s.pendingFunctors.filterMap TimerFunctor.timer?)
  allocated : ∀ c ∈ s.allocated, ∃ t, s.loop.Live c t

theorem initial_accounts (clock : Clock) : (initial clock).Accounts where
  reached := TimerLoop.initial_reached clock
  created := by simp [initial, names]
  nodup := List.nodup_nil
  posted := List.Perm.refl _
  allocated := by simp [initial]

/-- What goes from one list to the end of the next. -/
theorem perm_move {l m : List TimerId} {c : TimerId} (hc : c ∈ l) :
    (l.erase c ++ (m ++ [c])).Perm (l ++ m) := by
  rw [← List.append_assoc]
  refine List.perm_append_comm.trans ?_
  exact (List.perm_cons_erase hc).symm.append_right m

namespace Accounts

theorem nodup_of_subperm {l m : List TimerId} (h : l.Subperm m) (hm : m.Nodup) : l.Nodup := by
  obtain ⟨k, hperm, hsub⟩ := h
  exact hperm.nodup_iff.mp (hsub.nodup hm)

/-- A call that has not queued its timer keeps it waiting. -/
theorem unadded_of_allocated (hs : s.Accounts) {c : TimerId} (hc : c ∈ s.allocated) :
    s.loop.Unadded c :=
  ⟨hs.posted.mem_iff.mpr (List.mem_append_left _ (List.mem_map_of_mem hc)), hs.allocated c hc⟩

/-- A timer whose call has gone on waits for its `addTimerInLoop` in the queue. -/
theorem queued_of_unadded (hs : s.Accounts) {id : TimerId} (hid : id ∉ s.allocated)
    (hu : s.loop.Unadded id) : .addTimerInLoop id.timer ∈ s.pendingFunctors := by
  obtain ⟨hposted, t, ht⟩ := hu
  rcases List.mem_append.mp (hs.posted.mem_iff.mp hposted) with hmem | hmem
  · -- the timer at its address is not one of a call that has only allocated it
    obtain ⟨c, hc, heq⟩ := List.mem_map.mp hmem
    obtain ⟨u, hu⟩ := hs.allocated c hc
    obtain rfl : u = t := Option.some.inj (hu.1.symm.trans (heq ▸ ht.1))
    have hsame : c = id := TimerId.ext heq (hu.2.symm.trans ht.2)
    exact absurd (hsame ▸ hc) hid
  · obtain ⟨f, hf, heq⟩ := List.mem_filterMap.mp hmem
    cases f with
    | addTimerInLoop timer =>
      obtain rfl := Option.some.inj heq
      exact hf
    | cancelInLoop i => cases heq

/-- A step of a thread that leaves the loop alone. -/
theorem same (hs : s.Accounts) {t : TimerThreads} (hloop : t.loop = s.loop)
    (hnames : t.names.Subperm s.names)
    (hposted : s.loop.posted.Perm
      (t.allocated.map TimerId.timer ++ t.pendingFunctors.filterMap TimerFunctor.timer?))
    (hallocated : t.allocated ⊆ s.allocated) : t.Accounts where
  reached := hloop ▸ hs.reached
  created id hid := by
    rw [hloop]
    exact hs.created id (hnames.subset hid)
  nodup := nodup_of_subperm hnames hs.nodup
  posted := hloop ▸ hposted
  allocated c hc := by
    rw [hloop]
    exact hs.allocated c (hallocated hc)

/-- A step of the loop, whatever the calls do meanwhile. -/
theorem next (hs : s.Accounts) {t : TimerThreads} {op : TimerOp}
    (h : s.loop.step op = some t.loop)
    (hnames : t.names.Subperm (s.loop.creates op ++ s.names))
    (hposted : t.loop.posted.Perm
      (t.allocated.map TimerId.timer ++ t.pendingFunctors.filterMap TimerFunctor.timer?))
    (hallocated : ∀ c ∈ t.allocated, c ∈ s.allocated ∨ c ∈ s.loop.creates op) :
    t.Accounts where
  reached := hs.reached.step h
  created id hid := by
    rcases List.mem_append.mp (hnames.subset hid) with hid | hid
    · exact (TimerLoop.creates_spec h hid).2.2.1
    · exact Nat.lt_of_lt_of_le (hs.created id hid)
        (TimerLoop.numCreated_le_step hs.reached.valid h)
  nodup := by
    refine nodup_of_subperm hnames ?_
    rcases hnew : s.loop.creates op with _ | ⟨c, cs⟩
    · exact hs.nodup
    · have hc := TimerLoop.creates_spec h (hnew ▸ List.mem_cons_self)
      obtain ⟨-, rfl⟩ := List.cons_eq_cons.mp (hnew.symm.trans hc.1)
      refine List.nodup_cons.mpr ⟨fun hmem => ?_, hs.nodup⟩
      have hlt := hs.created c hmem
      rw [hc.2.1] at hlt
      exact Nat.lt_irrefl _ hlt
  posted := hposted
  allocated c hc := by
    rcases hallocated c hc with hc | hc
    · exact TimerLoop.live_of_unadded hs.reached.valid h (hs.unadded_of_allocated hc)
    · exact (TimerLoop.creates_spec h hc).2.2.2

/-- `addTimerInLoop` runs for a timer that was waiting for it. -/
theorem register (hs : s.Accounts) {t : TimerThreads} {a : Addr}
    (h : s.loop.step (.addTimerInLoop a) = some t.loop) (hnames : t.names.Subperm s.names)
    (hposted : s.loop.posted.Perm (a ::
      (t.allocated.map TimerId.timer ++ t.pendingFunctors.filterMap TimerFunctor.timer?)))
    (hallocated : t.allocated ⊆ s.allocated) : t.Accounts := by
  refine hs.next h hnames ?_ (fun c hc => .inl (hallocated hc))
  obtain ⟨ha, u, -, hloop⟩ := TimerLoop.step_addTimerInLoop h
  rw [hloop]
  exact ((List.perm_cons_erase ha).symm.trans hposted).cons_inv

theorem newTimer (hs : s.Accounts) {a : Addr} {when : Int} {interval : Seconds}
    {loop : TimerLoop} (h : s.loop.step (.newTimer a when interval) = some loop) :
    Accounts { s with
      loop := loop, allocated := s.allocated ++ [⟨a, s.loop.queue.numCreated⟩] } := by
  refine hs.next h ?_ ?_ (fun c hc => List.mem_append.mp hc)
  · simp only [names, List.append_assoc]
    exact (List.perm_append_comm_assoc _ _ _).subperm
  · obtain ⟨-, -, -, rfl⟩ := TimerLoop.step_newTimer h
    simp only [List.map_append, List.map_cons, List.map_nil, List.append_assoc]
    refine (hs.posted.append_right [a]).trans ?_
    rw [List.append_assoc]
    exact List.perm_append_comm.append_left _

/-- On the loop thread `addTimerInLoop` follows at once. -/
theorem addTimer (hs : s.Accounts) {a : Addr} {when : Int} {interval : Seconds}
    {u loop : TimerLoop} (h : s.loop.step (.newTimer a when interval) = some u)
    (h' : u.step (.addTimerInLoop a) = some loop) (returned : List TimerId) :
    Accounts { s with loop := loop, returned := returned } := by
  have hnew := hs.newTimer h
  refine ⟨hnew.reached.step h', fun id hid => ?_, hs.nodup, ?_, fun c hc => ?_⟩
  · exact Nat.lt_of_lt_of_le (Nat.lt_of_lt_of_le (hs.created id hid)
      (TimerLoop.numCreated_le_step hs.reached.valid h))
      (TimerLoop.numCreated_le_step hnew.reached.valid h')
  · obtain ⟨ha, t, -, rfl⟩ := TimerLoop.step_addTimerInLoop h'
    refine List.Perm.cons_inv (a := a) ((List.perm_cons_erase ha).symm.trans ?_)
    refine hnew.posted.trans ?_
    simp only [List.map_append, List.map_cons, List.map_nil, List.append_assoc]
    exact List.perm_append_comm_assoc _ _ _
  · exact TimerLoop.live_of_unadded hnew.reached.valid h'
      (hnew.unadded_of_allocated (List.mem_append_left _ hc))

end Accounts

theorem step_accounts (hs : s.Accounts) {op : ThreadOp} (h : s.step op = some s') :
    s'.Accounts := by
  cases op with
  | newTimer a when interval =>
    obtain ⟨loop, hloop, rfl⟩ := step_newTimer h
    exact hs.newTimer hloop
  | queueTimer call =>
    obtain ⟨hcall, rfl⟩ := step_queueTimer h
    refine hs.same rfl (perm_move hcall).subperm ?_ List.erase_subset
    rw [List.filterMap_append]
    refine hs.posted.trans ?_
    refine (List.Perm.append_right _ ((List.perm_cons_erase hcall).map _)).trans ?_
    rw [← List.append_assoc]
    exact (List.perm_append_singleton _ _).symm
  | readSequence call garbage =>
    obtain ⟨-, rfl⟩ := step_readSequence h
    exact hs.same rfl (List.erase_sublist.append_left _).subperm hs.posted (List.Subset.refl _)
  | cancel id =>
    obtain ⟨-, rfl⟩ := step_cancel h
    refine hs.same rfl (List.Subperm.refl _) ?_ (List.Subset.refl _)
    rw [List.filterMap_append]
    refine hs.posted.trans ?_
    rw [← List.append_assoc]
    exact List.Perm.of_eq (List.append_nil _).symm
  | runFunctor =>
    obtain ⟨f, functors, loop, hf, hloop, rfl⟩ := step_runFunctor h
    have hposted := hs.posted
    rw [hf] at hposted
    cases f with
    | addTimerInLoop a =>
      exact hs.register hloop (List.Subperm.refl _) (hposted.trans List.perm_middle)
        (List.Subset.refl _)
    | cancelInLoop id =>
      refine hs.next hloop (List.Subperm.refl _) ?_ (fun c hc => .inl hc)
      rw [TimerLoop.posted_step hloop rfl (by simp [TimerFunctor.op])]
      exact hposted
  | loop op =>
    obtain ⟨-, loop, hloop, rfl⟩ := step_loop h
    rcases loop_steps hloop with ⟨a, when, interval, u, rfl, hnew, hadd⟩ |
      ⟨o, ho, hnew, hadd, -⟩
    · exact hs.addTimer hnew hadd _
    · refine hs.next ho ?_ ?_ (fun c hc => .inl hc)
      · rw [hnew]
        exact List.Subperm.refl _
      · rw [TimerLoop.posted_step ho hnew hadd]
        exact hs.posted

/-! ## The ids that are returned -/

/-- What the call returns: the address of the timer it has created, with the number it finds
there. -/
def readId (s : TimerThreads) (call : TimerId) (garbage : Nat) : TimerId :=
  ⟨call.timer, ((s.loop.queue.heap call.timer).map Timer.sequence).getD garbage⟩

/-- The id has been returned by the call that has created its timer, and it is cancelled only
after that. -/
structure Returned (id : TimerId) (s : TimerThreads) : Prop where
  given : id ∈ s.returned → id.sequence < s.loop.queue.numCreated
  done : id ∈ s.returned → id ∉ s.names
  cancels : .cancelInLoop id ∈ s.pendingFunctors → s.Has id
  canceling : id ∈ s.loop.queue.cancelingTimers → s.Has id

theorem initial_returned (clock : Clock) (id : TimerId) : (initial clock).Returned id where
  given := by simp [initial]
  done := by simp [initial]
  cancels := by simp [initial]
  canceling := by simp [initial, TimerLoop.initial, TimerQueue.initial]

theorem Has.mono {t : TimerThreads} {id : TimerId} (h : s.Has id)
    (hsub : s.returned ⊆ t.returned) : t.Has id :=
  h.imp_right fun hid => hsub hid

/-- Only the call that has created the timer returns the id. -/
def ReturnsOwn (id : TimerId) (s : TimerThreads) : ThreadOp → Prop
  | .readSequence call garbage => s.readId call garbage = id → call = id
  | _ => True

namespace Returned

variable {id : TimerId}

theorem given_of_has (hr : s.Returned id) (hid : s.Has id) : s.loop.Given id :=
  hid.imp_right hr.given

/-- A timer whose id is known does not belong to a call in progress. -/
theorem not_mem_names (hr : s.Returned id) (hs : s.loop.Valid) {t : Timer}
    (ht : s.loop.Live id t) (hid : s.Has id) : id ∉ s.names :=
  hr.done (hid.resolve_left (hs.ne_nullptr_of_live ht))

/-- A step of the loop that returns nothing. -/
theorem next (hr : s.Returned id) (hs : s.Accounts) {t : TimerThreads} {op : TimerOp}
    (h : s.loop.step op = some t.loop) (hreturned : t.returned = s.returned)
    (hnames : t.names ⊆ s.loop.creates op ++ s.names)
    (hcancel : op = .cancelInLoop id → s.Has id)
    (hfunctors : t.pendingFunctors ⊆ s.pendingFunctors) : t.Returned id where
  given hid := Nat.lt_of_lt_of_le (hr.given (hreturned ▸ hid))
    (TimerLoop.numCreated_le_step hs.reached.valid h)
  done hid hmem := by
    rw [hreturned] at hid
    rcases List.mem_append.mp (hnames hmem) with hnew | hold
    · have hlt := hr.given hid
      rw [(TimerLoop.creates_spec h hnew).2.1] at hlt
      exact Nat.lt_irrefl _ hlt
    · exact hr.done hid hold
  cancels hid := (hr.cancels (hfunctors hid)).mono (hreturned ▸ List.Subset.refl _)
  canceling hid := by
    have hsub : s.returned ⊆ t.returned := hreturned ▸ List.Subset.refl _
    rcases TimerLoop.canceling_of_step hs.reached.valid h hid with hid | rfl
    · exact (hr.canceling hid).mono hsub
    · exact (hcancel rfl).mono hsub

/-- A call on the loop thread returns the id of a new timer. -/
theorem addTimer (hr : s.Returned id) (hs : s.Accounts) {a : Addr} {when : Int}
    {interval : Seconds} {u loop : TimerLoop}
    (h : s.loop.step (.newTimer a when interval) = some u)
    (h' : u.step (.addTimerInLoop a) = some loop) :
    Returned id { s with
      loop := loop
      returned := s.returned ++ returns loop (.addTimer a when interval) } := by
  have hnew := hs.newTimer h
  have hreturns : returns loop (.addTimer a when interval) = [⟨a, s.loop.queue.numCreated⟩] := by
    obtain ⟨ha, t, ht, rfl⟩ := TimerLoop.step_addTimerInLoop h'
    have hu := hnew.reached.valid
    have hsame := (addTimerInLoop_frame hu.queue u.clock ht (hu.posted_inactive a ha)).1
    obtain ⟨-, -, -, rfl⟩ := TimerLoop.step_newTimer h
    simp only [returns, hsame, newTimer_heap_self, Option.map_some, Option.toList_some]
  have hle : s.loop.queue.numCreated < loop.queue.numCreated := by
    refine Nat.lt_of_lt_of_le ?_ (TimerLoop.numCreated_le_step hnew.reached.valid h')
    obtain ⟨-, -, -, rfl⟩ := TimerLoop.step_newTimer h
    exact Nat.lt_succ_self _
  rw [hreturns]
  refine ⟨fun hid => ?_, fun hid hmem => ?_, fun hid => ?_, fun hid => ?_⟩
  · rcases List.mem_append.mp hid with hid | hid
    · exact Nat.lt_trans (hr.given hid) hle
    · rw [List.mem_singleton.mp hid]
      exact hle
  · rcases List.mem_append.mp hid with hid | hid
    · exact hr.done hid hmem
    · have hlt := hs.created id hmem
      rw [List.mem_singleton.mp hid] at hlt
      exact Nat.lt_irrefl _ hlt
  · exact (hr.cancels hid).mono (List.subset_append_left _ _)
  · rcases TimerLoop.canceling_of_step hnew.reached.valid h' hid with hid | heq
    · rcases TimerLoop.canceling_of_step hs.reached.valid h hid with hid | heq
      · exact (hr.canceling hid).mono (List.subset_append_left _ _)
      · cases heq
    · cases heq

end Returned

theorem step_returned {id : TimerId} (hr : s.Returned id) (hs : s.Accounts) {op : ThreadOp}
    (hown : s.ReturnsOwn id op) (h : s.step op = some s') : s'.Returned id := by
  cases op with
  | newTimer a when interval =>
    obtain ⟨loop, hloop, rfl⟩ := step_newTimer h
    refine hr.next hs hloop rfl ?_ (by simp) (List.Subset.refl _)
    simp only [names, List.append_assoc]
    exact (List.perm_append_comm_assoc _ _ _).subset
  | queueTimer call =>
    obtain ⟨hcall, rfl⟩ := step_queueTimer h
    refine ⟨hr.given, fun hid hmem => hr.done hid ((perm_move hcall).mem_iff.mp hmem),
      fun hid => hr.cancels ?_, hr.canceling⟩
    simpa using hid
  | readSequence call garbage =>
    obtain ⟨hcall, rfl⟩ := step_readSequence h
    have hsub : s.returned ⊆ s.returned ++ [s.readId call garbage] :=
      List.subset_append_left _ _
    have hnodup := List.nodup_append.mp hs.nodup
    refine ⟨fun hid => ?_, fun hid hmem => ?_, fun hid => (hr.cancels hid).mono hsub,
      fun hid => (hr.canceling hid).mono hsub⟩
    · rcases List.mem_append.mp hid with hid | hid
      · exact hr.given hid
      · obtain rfl := hown (List.mem_singleton.mp hid).symm
        exact hs.created call (List.mem_append_right _ hcall)
    · rcases List.mem_append.mp hid with hid | hid
      · exact hr.done hid ((List.erase_sublist.append_left _).subset hmem)
      · -- the call is not in progress any more
        obtain rfl := hown (List.mem_singleton.mp hid).symm
        rcases List.mem_append.mp hmem with hmem | hmem
        · exact hnodup.2.2 _ hmem _ hcall rfl
        · exact (hnodup.2.1.mem_erase_iff.mp hmem).1 rfl
  | cancel i =>
    obtain ⟨hhas, rfl⟩ := step_cancel h
    refine ⟨hr.given, hr.done, fun hid => ?_, hr.canceling⟩
    rcases List.mem_append.mp hid with hid | hid
    · exact hr.cancels hid
    · simp only [List.mem_singleton, TimerFunctor.cancelInLoop.injEq] at hid
      exact hid ▸ hhas
  | runFunctor =>
    obtain ⟨f, functors, loop, hf, hloop, rfl⟩ := step_runFunctor h
    refine hr.next hs hloop rfl (List.subset_append_right _ _) (fun hop => ?_)
      (hf ▸ List.subset_cons_self _ _)
    cases f with
    | addTimerInLoop a => cases hop
    | cancelInLoop i =>
      cases hop
      exact hr.cancels (hf ▸ List.mem_cons_self)
  | loop op =>
    obtain ⟨hcan, loop, hloop, rfl⟩ := step_loop h
    rcases loop_steps hloop with ⟨a, when, interval, u, rfl, hnew, hadd⟩ |
      ⟨o, ho, hnew, hadd, hreturns, hcancel, -⟩
    · exact hr.addTimer hs hnew hadd
    · rw [hreturns, List.append_nil]
      refine hr.next hs ho rfl (List.subset_append_right _ _) (fun hop => ?_)
        (List.Subset.refl _)
      obtain rfl := hcancel id hop
      exact hcan

/-- The call reads the sequence number of its own timer. -/
def ReadsOwn (s : TimerThreads) : ThreadOp → Prop
  | .readSequence call _ =>
    (s.loop.queue.heap call.timer).map Timer.sequence = some call.sequence
  | _ => True

theorem ReadsOwn.returnsOwn {op : ThreadOp} (h : s.ReadsOwn op) (id : TimerId) :
    s.ReturnsOwn id op := by
  cases op with
  | readSequence call garbage =>
    rintro rfl
    refine TimerId.ext rfl ?_
    rw [readId, h, Option.getD_some]
  | newTimer | queueTimer | cancel | runFunctor | loop => trivial

/-- What holds in every state, as long as every call reads its own timer. -/
structure Sound (s : TimerThreads) : Prop extends s.Accounts where
  returned : ∀ id, s.Returned id

theorem initial_sound (clock : Clock) : (initial clock).Sound :=
  ⟨initial_accounts clock, initial_returned clock⟩

theorem step_sound (hs : s.Sound) {op : ThreadOp} (hown : s.ReadsOwn op)
    (h : s.step op = some s') : s'.Sound :=
  ⟨step_accounts hs.toAccounts h,
    fun id => step_returned (hs.returned id) hs.toAccounts (hown.returnsOwn id) h⟩

/-! ## The timer of a call in progress -/

/-- The timers of the calls in progress are allocated: whenever one of the calls reads the
sequence number, it is the number of its own timer. -/
def CallsAlive (s : TimerThreads) : Prop :=
  ∀ c ∈ s.allocated ++ s.queued, ∃ t, s.loop.Live c t

/-- At the end of a `handleRead`, the timers of its batch that were created by calls still
in progress are periodic. -/
def SparesCalls (s : TimerThreads) : ThreadOp → Prop
  | .loop .handleReadEnd => ∀ c ∈ s.allocated ++ s.queued,
      c.timer ∈ s.loop.pendingEntries.map Entry.timer →
        (s.loop.queue.heap c.timer).any Timer.repeats = true
  | _ => True

instance (s : TimerThreads) : ∀ op, Decidable (s.SparesCalls op)
  | .loop .handleReadEnd => inferInstanceAs (Decidable (∀ c ∈ _, _ → _))
  | .loop (.advance ..) | .loop (.addTimer ..) | .loop (.cancel _) | .loop .handleRead
  | .loop .runNext | .loop .throws | .newTimer .. | .queueTimer _ | .readSequence .. | .cancel _
  | .runFunctor => inferInstanceAs (Decidable True)

/-- One step of the loop, none of whose deletions is that of the call's timer. -/
theorem Sound.live_step (hs : s.Sound) {op : TimerOp} {loop : TimerLoop}
    (h : s.loop.step op = some loop) (hcancel : ∀ id, op = .cancelInLoop id → s.Has id)
    (hend : op = .handleReadEnd → s.SparesCalls (.loop .handleReadEnd)) {c : TimerId}
    (hc : c ∈ s.allocated ++ s.queued) (halive : ∃ t, s.loop.Live c t) :
    ∃ t, loop.Live c t := by
  obtain ⟨t, ht⟩ := halive
  refine TimerLoop.live_step hs.reached.valid h ht ?_ fun hop hmem => ⟨?_, fun hcanceling => ?_⟩
  · rintro rfl
    exact (hs.returned c).not_mem_names hs.reached.valid ht (hcancel c rfl) hc
  · have hrepeats := hend hop c hc hmem
    rwa [ht.1] at hrepeats
  · exact (hs.returned c).not_mem_names hs.reached.valid ht
      ((hs.returned c).canceling hcanceling) hc

theorem CallsAlive.readsOwn (hs : s.CallsAlive) {op : ThreadOp} (h : s.step op = some s') :
    s.ReadsOwn op := by
  cases op with
  | readSequence call garbage =>
    obtain ⟨hcall, -⟩ := step_readSequence h
    obtain ⟨t, ht, hseq⟩ := hs call (List.mem_append_right _ hcall)
    simp [ReadsOwn, ht, hseq]
  | newTimer | queueTimer | cancel | runFunctor | loop => trivial

theorem CallsAlive.step (halive : s.CallsAlive) (hs : s.Sound) {op : ThreadOp}
    (hspares : s.SparesCalls op) (h : s.step op = some s') : s'.CallsAlive := by
  cases op with
  | newTimer a when interval =>
    obtain ⟨loop, hloop, rfl⟩ := step_newTimer h
    intro c hc
    rw [List.append_assoc, (List.perm_append_comm_assoc _ _ _).mem_iff] at hc
    rcases List.mem_append.mp hc with hc | hc
    · exact (TimerLoop.creates_spec hloop hc).2.2.2
    · exact hs.live_step hloop (by simp) (by simp) hc (halive c hc)
  | queueTimer call =>
    obtain ⟨hcall, rfl⟩ := step_queueTimer h
    exact fun c hc => halive c ((perm_move hcall).mem_iff.mp hc)
  | readSequence call garbage =>
    obtain ⟨-, rfl⟩ := step_readSequence h
    refine fun c hc => halive c ?_
    exact (List.erase_sublist.append_left _).subset hc
  | cancel id =>
    obtain ⟨-, rfl⟩ := step_cancel h
    exact halive
  | runFunctor =>
    obtain ⟨f, functors, loop, hf, hloop, rfl⟩ := step_runFunctor h
    refine fun c hc => hs.live_step hloop (fun id hid => ?_) (fun hend => ?_) hc (halive c hc)
    · cases f with
      | addTimerInLoop a => cases hid
      | cancelInLoop i =>
        cases hid
        exact (hs.returned id).cancels (hf ▸ List.mem_cons_self)
    · cases f <;> cases hend
  | loop op =>
    obtain ⟨hcan, loop, hloop, rfl⟩ := step_loop h
    rcases loop_steps hloop with ⟨a, when, interval, u, rfl, hnew, hadd⟩ |
      ⟨o, ho, -, -, -, hcancel, hend⟩
    · intro c hc
      have hmid := hs.live_step hnew (by simp) (by simp) hc (halive c hc)
      have hown : s.ReadsOwn (.newTimer a when interval) := trivial
      have hsound := step_sound hs hown (by rw [step, hnew, Option.map_some])
      refine hsound.live_step hadd (by simp) (by simp) ?_ hmid
      rw [List.append_assoc, (List.perm_append_comm_assoc _ _ _).mem_iff]
      exact List.mem_append_right _ hc
    · refine fun c hc => hs.live_step ho (fun id hid => ?_) (fun heq => ?_) hc (halive c hc)
      · obtain rfl := hcancel id hid
        exact hcan
      · obtain rfl := hend heq
        exact hspares

theorem reached_step (hs : s.loop.Reached) {op : ThreadOp} (h : s.step op = some s') :
    s'.loop.Reached := by
  cases op with
  | newTimer a when interval =>
    obtain ⟨loop, hloop, rfl⟩ := step_newTimer h
    exact hs.step hloop
  | queueTimer call =>
    obtain ⟨-, rfl⟩ := step_queueTimer h
    exact hs
  | readSequence call garbage =>
    obtain ⟨-, rfl⟩ := step_readSequence h
    exact hs
  | cancel id =>
    obtain ⟨-, rfl⟩ := step_cancel h
    exact hs
  | runFunctor =>
    obtain ⟨f, functors, loop, -, hloop, rfl⟩ := step_runFunctor h
    exact hs.step hloop
  | loop op =>
    obtain ⟨-, loop, hloop, rfl⟩ := step_loop h
    exact Machine.run_invariant (fun _ _ _ hs h => hs.step h) hloop hs

/-- A step after which the timers of all calls are alive has spared them. -/
theorem CallsAlive.spares (hs : s.loop.Reached) (halive : s.CallsAlive) {op : ThreadOp}
    (h : s.step op = some s') (halive' : s'.CallsAlive) : s.SparesCalls op := by
  cases op with
  | loop op =>
    obtain ⟨-, loop, hloop, rfl⟩ := step_loop h
    cases op with
    | handleReadEnd =>
      have hend := Machine.run_singleton_eq_some.mp hloop
      intro c hc hmem
      obtain ⟨t, ht⟩ := halive c hc
      obtain ⟨t', ht'⟩ := halive' c hc
      rw [ht.1]
      exact TimerLoop.repeats_of_live_end hs.valid hend ht hmem ht'
    | advance | addTimer | cancel | handleRead | runNext | throws => trivial
  | newTimer | queueTimer | readSequence | cancel | runFunctor => trivial

/-- The reads of a run whose calls read their own timers. -/
theorem step_reads {op : ThreadOp} (hs : ∀ r ∈ s.reads, r.Own) (hown : s.ReadsOwn op)
    (h : s.step op = some s') : ∀ r ∈ s'.reads, r.Own := by
  cases op with
  | newTimer a when interval =>
    obtain ⟨loop, -, rfl⟩ := step_newTimer h
    exact hs
  | queueTimer call =>
    obtain ⟨-, rfl⟩ := step_queueTimer h
    exact hs
  | readSequence call garbage =>
    obtain ⟨-, rfl⟩ := step_readSequence h
    intro r hr
    rcases List.mem_append.mp hr with hr | hr
    · exact hs r hr
    · obtain rfl := List.mem_singleton.mp hr
      exact hown
  | cancel id =>
    obtain ⟨-, rfl⟩ := step_cancel h
    exact hs
  | runFunctor =>
    obtain ⟨f, functors, loop, -, -, rfl⟩ := step_runFunctor h
    exact hs
  | loop op =>
    obtain ⟨-, loop, -, rfl⟩ := step_loop h
    exact hs

/-- **The sequence number of the returned id.**  In a run of the threads the timers of the
calls in progress are alive throughout exactly when no `handleRead` ends with a one-shot
timer in its batch whose call has not returned.  In such a run every call has read the
sequence number of the timer it created. -/
theorem sequence_read_own_iff {clock : Clock} {ops : List ThreadOp}
    (hrun : Machine.run step (initial clock) ops = some s) :
    (Machine.Throughout step CallsAlive (initial clock) ops ↔
        Machine.Along step SparesCalls (initial clock) ops) ∧
      (Machine.Along step SparesCalls (initial clock) ops → ∀ r ∈ s.reads, r.Own) := by
  have halive : (initial clock).CallsAlive := by simp [initial, CallsAlive]
  have hkeep : ∀ (s : TimerThreads) op s', (s.Sound ∧ s.CallsAlive ∧ ∀ r ∈ s.reads, r.Own) →
      s.SparesCalls op → s.step op = some s' →
      s'.Sound ∧ s'.CallsAlive ∧ ∀ r ∈ s'.reads, r.Own := by
    rintro s op s' ⟨hs, halive, hreads⟩ hspares h
    have hown := halive.readsOwn h
    exact ⟨step_sound hs hown h, halive.step hs hspares h, step_reads hreads hown h⟩
  have hinitial : (initial clock).Sound ∧ (initial clock).CallsAlive ∧
      ∀ r ∈ (initial clock).reads, r.Own := ⟨initial_sound clock, halive, by simp [initial]⟩
  refine ⟨?_, fun hspares => (Machine.run_invariant_along hkeep hrun hspares hinitial).2.2⟩
  refine Machine.throughout_iff_along (I := fun s => s.loop.Reached)
    (Q := fun s => s.Sound ∧ s.CallsAlive ∧ ∀ r ∈ s.reads, r.Own) ?_ ?_ ?_ ?_ hrun
    (TimerLoop.initial_reached clock) hinitial
  · exact fun op _ s s' hs h => reached_step hs h
  · exact fun op _ s s' _ hs hspares h => hkeep s op s' hs hspares h
  · exact fun op _ s s' hs hsound h halive => hsound.2.1.spares hs h halive
  · exact fun s hs => hs.2.1

/-- The call returns while its timer, which has expired, is in the batch. -/
def returnsInTime : List ThreadOp :=
  [.newTimer 1 5 .zero, .queueTimer ⟨1, 0⟩, .runFunctor, .loop .handleRead, .loop .runNext,
    .readSequence ⟨1, 0⟩ 0, .loop .handleReadEnd]

theorem sequence_read_own_returnsInTime :
    ∃ s, Machine.run step (initial ⟨10, 0⟩) returnsInTime = some s ∧
      s.returned = [⟨1, 0⟩] ∧ s.reads.length = 1 ∧
      Machine.Throughout step CallsAlive (initial ⟨10, 0⟩) returnsInTime ∧
      ∀ r ∈ s.reads, r.Own := by
  obtain ⟨s, hs⟩ : ∃ s, Machine.run step (initial ⟨10, 0⟩) returnsInTime = some s := ⟨_, rfl⟩
  have hspares : Machine.Along step SparesCalls (initial ⟨10, 0⟩) returnsInTime := by
    decide +kernel
  obtain ⟨hiff, hown⟩ := sequence_read_own_iff hs
  refine ⟨s, hs, ?_, ?_, hiff.mpr hspares, hown hspares⟩
  · obtain rfl := Option.some.inj hs
    rfl
  · obtain rfl := Option.some.inj hs
    rfl

/-- The loop thread executes and deletes an expired timer before the call reads its sequence
number: there is no timer to read it from, and the id that is returned names none. -/
theorem sequence_read_deleted :
    ∃ s, Machine.run step (initial ⟨10, 0⟩)
        [.newTimer 1 5 .zero, .queueTimer ⟨1, 0⟩, .runFunctor, .loop .handleRead, .loop .runNext,
          .loop .handleReadEnd, .readSequence ⟨1, 0⟩ 7] = some s ∧
      s.reads = [⟨⟨1, 0⟩, none⟩] ∧ s.returned = [⟨1, 7⟩] := by
  refine ⟨_, rfl, rfl, rfl⟩

end TimerThreads
end ReMuduo
