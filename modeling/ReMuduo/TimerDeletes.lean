import ReMuduo.TimerPending

/-! # Who deletes a timer

A `Timer` is allocated by `addTimer` and deleted in one of three places: in `cancelInLoop`
if it is found there, in `reset` if it is not filed again, and in the destructor of the
queue.  Here every `delete` is logged with the object it finds at its address, and with
what still points to that object: the two sets at that moment, and the timers of the
running batch that are still to be executed or reset.

The runs are those of the loop thread, where `addTimer` runs `addTimerInLoop` at once.
`cancelInLoop` reads the pointer it deletes from an element it has just erased; it is
taken to read the value that was there. -/
namespace ReMuduo

/-- A `delete`: the pointer, the object found there, the sets at that moment, and the
entries of the batch that are still to be executed or reset. -/
structure Delete where
  timer : Addr
  object : Option Timer
  timers : OrderedSet Entry
  activeTimers : OrderedSet TimerId
  pending : List Entry

namespace Delete

/-- The timer that is deleted, if there is one. -/
def id (d : Delete) : Option TimerId := d.object.map fun t => ⟨d.timer, t.sequence⟩

/-- Nothing points to the object any more. -/
structure Apart (d : Delete) : Prop where
  timers : ∀ when, (⟨when, d.timer⟩ : Entry) ∉ d.timers
  active : ∀ n, (⟨d.timer, n⟩ : TimerId) ∉ d.activeTimers
  pending : d.timer ∉ d.pending.map Entry.timer

/-- An entry of `timers_` still points to the object. -/
def Filed (d : Delete) : Prop := ∃ when, (⟨when, d.timer⟩ : Entry) ∈ d.timers

end Delete

namespace TimerQueue

/-- The `delete` of `cancelInLoop(timerId)`, if the timer is found. -/
def cancelDeletes (q : TimerQueue) (timerId : TimerId) (pending : List Entry) : List Delete :=
  if timerId.timer = nullptr then []
  else if timerId ∈ q.activeTimers then
    match q.heap timerId.timer with
    | none => []
    | some t => [⟨timerId.timer, some t, (q.timers.erase ⟨t.expiration, timerId.timer⟩).1,
        (q.activeTimers.erase timerId).1, pending⟩]
  else []

/-- The `delete` in the body of the loop of `reset`, if the timer is not filed again. -/
def resetOneDeletes (q : TimerQueue) (it : Entry) (pending : List Entry) : List Delete :=
  if it.timer = nullptr then []
  else match q.heap it.timer with
  | none => []
  | some t =>
    if t.repeats = true ∧ (⟨it.timer, t.sequence⟩ : TimerId) ∉ q.cancelingTimers then []
    else [⟨it.timer, some t, q.timers, q.activeTimers, pending⟩]

/-- The `delete`s of the loop of `reset`. -/
def resetLoopDeletes (now : Int) : List Entry → TimerQueue → List Delete
  | [], _ => []
  | it :: rest, q => q.resetOneDeletes it rest ++ resetLoopDeletes now rest (resetOne now q it)

/-- The `delete`s of `reset(expired, now)`. -/
def resetDeletes (q : TimerQueue) (expired : List Entry) (now : Int) : List Delete :=
  if Timestamp.valid now = false then [] else resetLoopDeletes now expired q

/-- The loop of the destructor over the entries of `timers_`. -/
def destroyLoop : List Entry → TimerQueue → TimerQueue × List Delete
  | [], q => (q, [])
  | it :: rest, q =>
    let r := destroyLoop rest (q.setHeap it.timer none)
    (r.1, ⟨it.timer, q.heap it.timer, q.timers, q.activeTimers, []⟩ :: r.2)

/-- The destructor. -/
def destroy (q : TimerQueue) : TimerQueue × List Delete := destroyLoop q.timers.elems q

/-! ## What is deleted is what leaves the heap -/

/-- The `delete`s `ds` lead from `q` to `q'`: each finds its object, they are all different,
and the other objects stay, with their sequence numbers. -/
structure Frees (q q' : TimerQueue) (ds : List Delete) : Prop where
  object : ∀ d ∈ ds, ∃ t, d.object = some t ∧
    (q.heap d.timer).map Timer.sequence = some t.sequence
  nodup : (ds.map Delete.timer).Nodup
  freed : ∀ d ∈ ds, q'.heap d.timer = none
  kept : ∀ a, a ∉ ds.map Delete.timer →
    (q'.heap a).map Timer.sequence = (q.heap a).map Timer.sequence

variable {q q' q'' : TimerQueue} {ds ds' : List Delete}

/-- Nothing is deleted. -/
theorem Frees.none (h : q'.heap = q.heap) : Frees q q' [] :=
  ⟨by simp, List.nodup_nil, by simp, fun a _ => by rw [h]⟩

/-- The object at `a` is deleted. -/
theorem Frees.single {d : Delete} {t : Timer} (ht : q.heap d.timer = some t)
    (hobject : d.object = some t) (h : q'.heap = (q.setHeap d.timer Option.none).heap) :
    Frees q q' [d] where
  object := by simp [hobject, ht]
  nodup := List.nodup_singleton _
  freed := by simp [h]
  kept := by
    intro a ha
    rw [h, setHeap_other]
    simpa using ha

theorem Frees.trans (h : Frees q q' ds) (h' : Frees q' q'' ds') : Frees q q'' (ds ++ ds') := by
  -- what has been deleted is gone, so it is not deleted again
  have hdisjoint : ∀ d ∈ ds', d.timer ∉ ds.map Delete.timer := by
    intro d hd hmem
    obtain ⟨e, he, heq⟩ := List.mem_map.mp hmem
    obtain ⟨t, -, ht⟩ := h'.object d hd
    rw [← heq, h.freed e he] at ht
    cases ht
  refine ⟨?_, ?_, ?_, ?_⟩
  · intro d hd
    rcases List.mem_append.mp hd with hd | hd
    · exact h.object d hd
    · obtain ⟨t, hobject, ht⟩ := h'.object d hd
      exact ⟨t, hobject, (h.kept _ (hdisjoint d hd)).symm.trans ht⟩
  · rw [List.map_append]
    refine List.nodup_append.mpr ⟨h.nodup, h'.nodup, fun a ha b hb hab => ?_⟩
    obtain ⟨d, hd, rfl⟩ := List.mem_map.mp hb
    exact hdisjoint d hd (hab ▸ ha)
  · intro d hd
    rcases List.mem_append.mp hd with hd | hd
    · by_cases hmem : d.timer ∈ ds'.map Delete.timer
      · obtain ⟨e, he, heq⟩ := List.mem_map.mp hmem
        rw [← heq]
        exact h'.freed e he
      · have := h'.kept _ hmem
        rw [h.freed d hd] at this
        simpa using this
    · exact h'.freed d hd
  · intro a ha
    rw [List.map_append, List.mem_append, not_or] at ha
    exact (h'.kept a ha.2).trans (h.kept a ha.1)

/-- What is in the heap afterwards was there before. -/
theorem Frees.heap_of_heap (h : Frees q q' ds) {a : Addr} {u : Timer} (hu : q'.heap a = some u) :
    ∃ t, q.heap a = some t ∧ t.sequence = u.sequence := by
  have hnot : a ∉ ds.map Delete.timer := by
    intro hmem
    obtain ⟨d, hd, rfl⟩ := List.mem_map.mp hmem
    rw [h.freed d hd] at hu
    cases hu
  have hkept := h.kept a hnot
  rw [hu, Option.map_some] at hkept
  exact Option.map_eq_some_iff.mp hkept.symm

/-- A timer that is deleted was in the heap, and is not there afterwards. -/
theorem Frees.of_mem_ids (h : Frees q q' ds) {id : TimerId} (hid : id ∈ ds.filterMap Delete.id) :
    (∃ t, q.heap id.timer = some t ∧ t.sequence = id.sequence) ∧
      q'.heap id.timer = Option.none := by
  obtain ⟨d, hd, hsome⟩ := List.mem_filterMap.mp hid
  obtain ⟨t, hobject, hseq⟩ := h.object d hd
  simp only [Delete.id, hobject, Option.map_some, Option.some.injEq] at hsome
  subst hsome
  exact ⟨Option.map_eq_some_iff.mp hseq, h.freed d hd⟩

/-- A timer in the heap is deleted, or stays there. -/
theorem Frees.mem_ids_or_heap (h : Frees q q' ds) {id : TimerId} {t : Timer}
    (ht : q.heap id.timer = some t) (hseq : t.sequence = id.sequence) :
    id ∈ ds.filterMap Delete.id ∨ ∃ u, q'.heap id.timer = some u ∧ u.sequence = id.sequence := by
  by_cases hmem : id.timer ∈ ds.map Delete.timer
  · obtain ⟨d, hd, heq⟩ := List.mem_map.mp hmem
    obtain ⟨u, hobject, hu⟩ := h.object d hd
    rw [heq, ht, Option.map_some, hseq] at hu
    refine .inl (List.mem_filterMap.mpr ⟨d, hd, ?_⟩)
    simp [Delete.id, hobject, heq, ← Option.some.inj hu]
  · have hkept := h.kept _ hmem
    rw [ht, Option.map_some, hseq] at hkept
    exact .inr (Option.map_eq_some_iff.mp hkept)

theorem cancelInLoop_frees (hq : q.Valid) (id : TimerId) (pending : List Entry) :
    Frees q (q.cancelInLoop id) (q.cancelDeletes id pending) := by
  unfold cancelDeletes
  cases h : q.sched id with
  | none =>
    have hid := hq.sched_eq_none.mp h
    have hheap : (q.cancelInLoop id).heap = q.heap := by
      rw [cancelInLoop_eq_of_none hq h]
      split
      · rfl
      · split <;> rfl
    rw [if_neg hid, ite_self]
    exact .none hheap
  | some t =>
    obtain ⟨hid, ht⟩ := sched_eq_some.mp h
    rw [if_neg (hq.ne_nullptr_of_sched h), if_pos hid, ht]
    refine .single ht rfl ?_
    rw [cancelInLoop_eq hq.toBijective (hq.ne_nullptr_of_sched h) h]
    rfl

/-- The timer `cancelInLoop` deletes has left both sets, and was not in the batch. -/
theorem cancelDeletes_apart (hq : q.Valid) {id : TimerId} {pending : List Entry}
    (hpending : ∀ e ∈ pending, q.Inactive e.timer) :
    ∀ d ∈ q.cancelDeletes id pending, d.Apart := by
  intro d hd
  unfold cancelDeletes at hd
  split at hd
  · cases hd
  · split at hd
    · rename_i hid
      obtain ⟨t, ht, hseq⟩ := hq.active_live id hid
      rw [ht] at hd
      rw [List.mem_singleton.mp hd]
      have hout := hq.toBijective.unfile (sched_eq_some.mpr ⟨hid, ht⟩)
      have hinactive : (q.unfile id t).Inactive id.timer :=
        hout.inactive_of_free (setHeap_self _ _)
      refine ⟨hinactive.notMem_timers hout, hinactive, fun hmem => ?_⟩
      obtain ⟨e, he, heq⟩ := List.mem_map.mp hmem
      exact hpending e he id.sequence (heq ▸ hid)
    · cases hd

theorem resetOne_frees (hq : q.Valid) {it : Entry} {t : Timer} (ht : q.heap it.timer = some t)
    (ha : q.Inactive it.timer) (now : Int) (pending : List Entry) :
    Frees q (resetOne now q it) (q.resetOneDeletes it pending) := by
  unfold resetOneDeletes
  rw [if_neg (hq.live_addr _ t ht).1, ht, resetOne_eq hq ht ha]
  dsimp only
  split
  · refine ⟨by simp, List.nodup_nil, by simp, fun a _ => ?_⟩
    rw [heap_check]
    by_cases hb : a = it.timer
    · subst hb
      show ((q.setHeap it.timer (some (t.restart now))).heap it.timer).map _ = _
      rw [setHeap_self, ht]
      exact congrArg some (t.restart_sequence now)
    · show ((q.setHeap it.timer (some (t.restart now))).heap a).map _ = _
      rw [setHeap_other _ hb]
  · exact .single ht rfl rfl

theorem resetOneDeletes_apart (hq : q.Valid) {it : Entry} {pending : List Entry}
    (ha : q.Inactive it.timer) (hnot : it.timer ∉ pending.map Entry.timer) :
    ∀ d ∈ q.resetOneDeletes it pending, d.Apart := by
  intro d hd
  unfold resetOneDeletes at hd
  split at hd
  · cases hd
  · split at hd
    · cases hd
    · split at hd
      · cases hd
      · rw [List.mem_singleton.mp hd]
        exact ⟨ha.notMem_timers hq.toBijective, ha, hnot⟩

/-- The loop of `reset`. -/
theorem resetLoop_frees (now : Int) (l : List Entry) (q : TimerQueue) (hq : q.Valid)
    (hl : q.Detached l) :
    Frees q (l.foldl (resetOne now) q) (resetLoopDeletes now l q) ∧
      ∀ d ∈ resetLoopDeletes now l q, d.Apart := by
  induction l generalizing q with
  | nil => exact ⟨.none rfl, by simp [resetLoopDeletes]⟩
  | cons e l ih =>
    obtain ⟨t, ht⟩ := hl.live e List.mem_cons_self
    have ha := hl.inactive e List.mem_cons_self
    have hnot : e.timer ∉ l.map Entry.timer := (List.nodup_cons.mp hl.nodup).1
    obtain ⟨hfrees, hapart⟩ :=
      ih (resetOne now q e) (resetOne_valid hq ht ha now) (hl.tail hq now)
    refine ⟨(resetOne_frees hq ht ha now l).trans hfrees, fun d hd => ?_⟩
    rcases List.mem_append.mp hd with hd | hd
    · exact resetOneDeletes_apart hq ha hnot d hd
    · exact hapart d hd

theorem reset_frees (hq : q.Valid) (clock : Clock) {expired : List Entry} {now : Int}
    (hb : BatchValid q expired now) :
    Frees q (q.reset clock expired now) (q.resetDeletes expired now) ∧
      ∀ d ∈ q.resetDeletes expired now, d.Apart := by
  have hvalid := (foldl_resetOne now expired q hq hb.detached).1
  simp only [reset, nextExpire_eq hvalid, resetDeletes]
  split
  · exact ⟨.none rfl, by simp⟩
  · have hloop := resetLoop_frees now expired q hq hb.detached
    refine ⟨?_, hloop.2⟩
    split
    · exact ⟨hloop.1.object, hloop.1.nodup, hloop.1.freed, hloop.1.kept⟩
    · exact hloop.1

/-- The destructor deletes the timers of the entries it goes through. -/
theorem destroyLoop_timer (l : List Entry) (q : TimerQueue) :
    (destroyLoop l q).2.map Delete.timer = l.map Entry.timer := by
  induction l generalizing q with
  | nil => rfl
  | cons e l ih => simp only [destroyLoop, List.map_cons, ih]

/-- It erases none of them. -/
theorem destroyLoop_timers (l : List Entry) (q : TimerQueue) :
    ∀ d ∈ (destroyLoop l q).2, d.timers = q.timers := by
  induction l generalizing q with
  | nil => simp [destroyLoop]
  | cons e l ih =>
    intro d hd
    rcases List.mem_cons.mp hd with rfl | hd
    · rfl
    · exact ih (q.setHeap e.timer none) d hd

theorem destroyLoop_frees (l : List Entry) (q : TimerQueue)
    (hlive : ∀ e ∈ l, ∃ t, q.heap e.timer = some t) (hnodup : (l.map Entry.timer).Nodup) :
    Frees q (destroyLoop l q).1 (destroyLoop l q).2 := by
  induction l generalizing q with
  | nil => exact .none rfl
  | cons e l ih =>
    obtain ⟨t, ht⟩ := hlive e List.mem_cons_self
    obtain ⟨hnot, hnodup⟩ := List.nodup_cons.mp hnodup
    have hfirst : Frees q (q.setHeap e.timer none)
        [⟨e.timer, q.heap e.timer, q.timers, q.activeTimers, []⟩] := .single ht ht rfl
    refine hfirst.trans (ih (q.setHeap e.timer none) (fun f hf => ?_) hnodup)
    rw [setHeap_other none fun heq => hnot (List.mem_map.mpr ⟨f, hf, heq⟩)]
    exact hlive f (List.mem_cons_of_mem _ hf)

theorem destroyLoop_numCreated (l : List Entry) (q : TimerQueue) :
    (destroyLoop l q).1.numCreated = q.numCreated := by
  induction l generalizing q with
  | nil => rfl
  | cons e l ih => exact ih (q.setHeap e.timer none)

end TimerQueue

/-! ## Runs -/

open TimerQueue

namespace TimerLoop

/-- The timers of the running batch, all of which `reset` still has to see. -/
def pendingEntries (s : TimerLoop) : List Entry := (s.batch.map Batch.expired).getD []

/-- The `delete`s of a step. -/
def deletes (s : TimerLoop) : TimerOp → List Delete
  | .cancelInLoop id => s.queue.cancelDeletes id s.pendingEntries
  | .handleReadEnd =>
    match s.batch with
    | none => []
    | some b => ({ s.queue with callingExpiredTimers := false } : TimerQueue).resetDeletes
        b.expired b.now
  | _ => []

/-- The timers allocated by a step. -/
def creates (s : TimerLoop) : TimerOp → List TimerId
  | .newTimer a _ _ => [⟨a, s.queue.numCreated⟩]
  | _ => []

variable {s s' : TimerLoop} {op : TimerOp}

theorem mem_pendingEntries {e : Entry} :
    e ∈ s.pendingEntries ↔ ∃ b, s.batch = some b ∧ e ∈ b.expired := by
  unfold pendingEntries
  cases s.batch <;> simp

theorem pendingEntries_inactive (hs : s.Valid) :
    ∀ e ∈ s.pendingEntries, s.queue.Inactive e.timer := by
  intro e he
  obtain ⟨b, hb, he⟩ := mem_pendingEntries.mp he
  exact (hs.batch b hb).inactive e he

/-- A step that allocates nothing frees what it deletes, and nothing points to that. -/
theorem step_frees (hs : s.Valid) (h : s.step op = some s') (hop : s.creates op = []) :
    Frees s.queue s'.queue (s.deletes op) ∧ ∀ d ∈ s.deletes op, d.Apart := by
  have hnothing : ∀ {q' : TimerQueue}, q'.heap = s.queue.heap →
      Frees s.queue q' [] ∧ ∀ d ∈ ([] : List Delete), d.Apart :=
    fun hheap => ⟨.none hheap, fun _ hd => absurd hd List.not_mem_nil⟩
  cases op with
  | advance wall mono =>
    obtain ⟨-, rfl⟩ := step_advance h
    exact hnothing rfl
  | newTimer a when interval => cases hop
  | addTimerInLoop a =>
    obtain ⟨ha, t, ht, rfl⟩ := step_addTimerInLoop h
    exact hnothing (addTimerInLoop_frame hs.queue s.clock ht (hs.posted_inactive a ha)).1
  | cancelInLoop id =>
    rw [step_cancelInLoop h]
    exact ⟨cancelInLoop_frees hs.queue id _,
      cancelDeletes_apart hs.queue (pendingEntries_inactive hs)⟩
  | handleRead =>
    obtain ⟨-, rfl⟩ := step_handleRead h
    exact hnothing hs.beginQueue_heap
  | runNext =>
    obtain ⟨now, expired, it, todo, -, ⟨-, rfl⟩ | ⟨t, -, rfl⟩⟩ := step_runNext h
    · exact hnothing rfl
    · exact hnothing rfl
  | throws =>
    rw [step_throws h]
    exact hnothing rfl
  | handleReadEnd =>
    obtain ⟨now, expired, hb, rfl⟩ := step_handleReadEnd h
    obtain ⟨hfrees, hapart⟩ := reset_frees hs.endQueue s.clock (hs.endBatch hb)
    simp only [deletes, hb]
    exact ⟨⟨hfrees.object, hfrees.nodup, hfrees.freed, hfrees.kept⟩, hapart⟩

/-- Only `new Timer` and `addTimerInLoop` change what waits for its `addTimerInLoop`. -/
theorem posted_step (h : s.step op = some s') (hnew : s.creates op = [])
    (hadd : ∀ a, op ≠ .addTimerInLoop a) : s'.posted = s.posted := by
  cases op with
  | advance wall mono =>
    obtain ⟨-, rfl⟩ := step_advance h
    rfl
  | newTimer a when interval => cases hnew
  | addTimerInLoop a => exact absurd rfl (hadd a)
  | cancelInLoop i => rw [step_cancelInLoop h]
  | handleRead =>
    obtain ⟨-, rfl⟩ := step_handleRead h
    rfl
  | runNext =>
    obtain ⟨now, expired, it, todo, -, ⟨-, rfl⟩ | ⟨t, -, rfl⟩⟩ := step_runNext h
    · rfl
    · rfl
  | throws => rw [step_throws h]
  | handleReadEnd =>
    obtain ⟨now, expired, -, rfl⟩ := step_handleReadEnd h
    rfl

/-- Where an allocated timer can be. -/
theorem Reached.allocated_iff (hs : s.Reached) (a : Addr) :
    (∃ t, s.queue.heap a = some t) ↔ a ∈ s.posted ∨ (∃ when, (⟨when, a⟩ : Entry) ∈ s.queue.timers) ∨
      a ∈ s.pendingEntries.map Entry.timer := by
  have hv := hs.valid
  constructor
  · rintro ⟨t, ht⟩
    obtain ⟨l, -, hl⟩ := hs.life ⟨a, t.sequence⟩
    have hbatch : ∀ {now p}, s.InBatch a now p → a ∈ s.pendingEntries.map Entry.timer := by
      rintro now p ⟨b, hb, -, hmem, -⟩
      simpa [pendingEntries, hb] using hmem
    cases l with
    | fresh => exact .inl (hl.2 t ⟨ht, rfl⟩)
    | scheduled u =>
      exact .inr (.inl ⟨u.expiration, hv.queue.mem_timers.mpr ⟨t.sequence, u, hl, rfl⟩⟩)
    | due u now c => exact .inr (.inr (hbatch hl.1))
    | ran u now c => exact .inr (.inr (hbatch hl.1))
    | gone => exact absurd ⟨ht, rfl⟩ (hl.2 t)
  · rintro (hposted | ⟨when, hentry⟩ | hpending)
    · exact hv.posted_live a hposted
    · obtain ⟨t, ht, -⟩ := (hv.queue.entry_iff when a).mp hentry
      exact ⟨t, ht⟩
    · obtain ⟨e, he, rfl⟩ := List.mem_map.mp hpending
      obtain ⟨b, hb, he⟩ := mem_pendingEntries.mp he
      exact ((hv.batch b hb).live e he).imp fun _ h => h.1

end TimerLoop

/-- A timer queue with the timers created and the `delete`s so far. -/
structure TimerOwner where
  loop : TimerLoop
  created : List TimerId
  deletes : List Delete

namespace TimerOwner

def initial (clock : Clock) : TimerOwner := ⟨TimerLoop.initial clock, [], []⟩

def step (s : TimerOwner) (op : TimerOp) : Option TimerOwner :=
  (s.loop.step op).map fun loop =>
    { loop := loop
      created := s.created ++ s.loop.creates op
      deletes := s.deletes ++ s.loop.deletes op }

/-- The timers deleted so far. -/
def deleted (s : TimerOwner) : List TimerId := s.deletes.filterMap Delete.id

/-- The destructor of the queue. -/
def destroy (s : TimerOwner) : TimerOwner :=
  { s with
    loop := { s.loop with queue := s.loop.queue.destroy.1 }
    deletes := s.deletes ++ s.loop.queue.destroy.2 }

/-- The accounts: every timer created is alive, or has been deleted once. -/
structure Balanced (s : TimerOwner) : Prop where
  fresh : ∀ id ∈ s.created, id.sequence < s.loop.queue.numCreated
  nodup : s.created.Nodup
  live : ∀ a t, s.loop.queue.heap a = some t → (⟨a, t.sequence⟩ : TimerId) ∈ s.created
  object : ∀ d ∈ s.deletes, d.object ≠ none
  once : s.deleted.Nodup
  created : ∀ id ∈ s.deleted, id ∈ s.created
  gone : ∀ id ∈ s.deleted, ∀ t, ¬ s.loop.Live id t
  accounted : ∀ id ∈ s.created, id ∈ s.deleted ∨ ∃ t, s.loop.Live id t

variable {s s' : TimerOwner} {op : TimerOp}

theorem initial_balanced (clock : Clock) : (initial clock).Balanced where
  fresh := by simp [initial]
  nodup := List.nodup_nil
  live := by simp [initial, TimerLoop.initial, TimerQueue.initial]
  object := by simp [initial]
  once := List.nodup_nil
  created := by simp [initial, deleted]
  gone := by simp [initial, deleted]
  accounted := by simp [initial]

/-- The ids of logged objects are at the addresses of the log. -/
theorem ids_sublist (ds : List Delete) :
    ((ds.filterMap Delete.id).map TimerId.timer).Sublist (ds.map Delete.timer) := by
  induction ds with
  | nil => exact List.Sublist.refl _
  | cons d ds ih =>
    cases hobject : d.object with
    | none =>
      have hid : d.id = none := by simp [Delete.id, hobject]
      rw [List.filterMap_cons_none hid]
      exact ih.cons _
    | some t =>
      have hid : d.id = some ⟨d.timer, t.sequence⟩ := by simp [Delete.id, hobject]
      rw [List.filterMap_cons_some hid]
      exact ih.cons_cons _

/-- A step that frees what it deletes keeps the accounts balanced. -/
theorem Balanced.frees (hs : s.Balanced) {loop : TimerLoop} {ds : List Delete}
    (h : Frees s.loop.queue loop.queue ds)
    (hnum : s.loop.queue.numCreated ≤ loop.queue.numCreated) :
    Balanced ⟨loop, s.created, s.deletes ++ ds⟩ := by
  have hmem : ∀ id, id ∈ (⟨loop, s.created, s.deletes ++ ds⟩ : TimerOwner).deleted ↔
      id ∈ s.deleted ∨ id ∈ ds.filterMap Delete.id := by
    intro id
    rw [deleted, List.filterMap_append, List.mem_append]
    exact Iff.rfl
  refine ⟨fun id hid => Nat.lt_of_lt_of_le (hs.fresh id hid) hnum, hs.nodup, ?_, ?_, ?_, ?_, ?_, ?_⟩
  · intro a u hu
    obtain ⟨t, ht, hseq⟩ := h.heap_of_heap hu
    exact hseq ▸ hs.live a t ht
  · intro d hd
    rcases List.mem_append.mp hd with hd | hd
    · exact hs.object d hd
    · obtain ⟨t, hobject, -⟩ := h.object d hd
      simp [hobject]
  · rw [deleted, List.filterMap_append]
    refine List.nodup_append.mpr ⟨hs.once, ((ids_sublist ds).nodup h.nodup).of_map _, ?_⟩
    rintro id hid _ hid' rfl
    obtain ⟨⟨t, ht⟩, -⟩ := h.of_mem_ids hid'
    exact hs.gone id hid t ht
  · intro id hid
    rcases (hmem id).mp hid with hid | hid
    · exact hs.created id hid
    · obtain ⟨⟨t, ht, hseq⟩, -⟩ := h.of_mem_ids hid
      have := hs.live id.timer t ht
      rwa [hseq] at this
  · rintro id hid u ⟨hu, hseq⟩
    rcases (hmem id).mp hid with hid | hid
    · obtain ⟨t, ht, hsame⟩ := h.heap_of_heap hu
      exact hs.gone id hid t ⟨ht, hsame.trans hseq⟩
    · rw [(h.of_mem_ids hid).2] at hu
      cases hu
  · intro id hid
    rcases hs.accounted id hid with hgone | ⟨t, ht, hseq⟩
    · exact .inl ((hmem id).mpr (.inl hgone))
    · rcases h.mem_ids_or_heap ht hseq with hid | hlive
      · exact .inl ((hmem id).mpr (.inr hid))
      · exact .inr hlive

theorem Balanced.newTimer (hs : s.Balanced) {loop : TimerLoop} {a : Addr} {when : Int}
    {interval : Seconds} (hfree : s.loop.queue.heap a = none)
    (hqueue : loop.queue = s.loop.queue.newTimer a when interval) :
    Balanced ⟨loop, s.created ++ [⟨a, s.loop.queue.numCreated⟩], s.deletes⟩ := by
  have hself : loop.queue.heap a = some ⟨when, interval, s.loop.queue.numCreated⟩ := by
    rw [hqueue]
    exact newTimer_heap_self ..
  have hother : ∀ b, b ≠ a → loop.queue.heap b = s.loop.queue.heap b := by
    intro b hb
    rw [hqueue]
    exact newTimer_heap_other when interval hb
  have hnum : loop.queue.numCreated = s.loop.queue.numCreated + 1 := by
    rw [hqueue]
    rfl
  refine ⟨?_, ?_, ?_, hs.object, hs.once, fun id hid => List.mem_append_left _ (hs.created id hid),
    ?_, ?_⟩
  · intro id hid
    show id.sequence < loop.queue.numCreated
    rw [hnum]
    rcases List.mem_append.mp hid with hid | hid
    · exact Nat.lt_succ_of_lt (hs.fresh id hid)
    · rw [List.mem_singleton.mp hid]
      exact Nat.lt_succ_self _
  · refine List.nodup_append.mpr ⟨hs.nodup, List.nodup_singleton _, ?_⟩
    rintro id hid _ hid' rfl
    have hlt := hs.fresh id hid
    rw [List.mem_singleton.mp hid'] at hlt
    exact Nat.lt_irrefl _ hlt
  · intro b t ht
    by_cases hb : b = a
    · subst hb
      rw [hself] at ht
      exact List.mem_append_right _ (by simp [← Option.some.inj ht])
    · rw [hother b hb] at ht
      exact List.mem_append_left _ (hs.live b t ht)
  · rintro id hid t ⟨ht, hseq⟩
    by_cases hb : id.timer = a
    · rw [hb, hself] at ht
      have hlt := hs.fresh id (hs.created id hid)
      rw [← hseq, ← Option.some.inj ht] at hlt
      exact Nat.lt_irrefl _ hlt
    · rw [hother _ hb] at ht
      exact hs.gone id hid t ⟨ht, hseq⟩
  · intro id hid
    rcases List.mem_append.mp hid with hid | hid
    · rcases hs.accounted id hid with hgone | ⟨t, ht, hseq⟩
      · exact .inl hgone
      · refine .inr ⟨t, ?_, hseq⟩
        rw [hother, ht]
        rintro rfl
        rw [hfree] at ht
        cases ht
    · rw [List.mem_singleton.mp hid]
      exact .inr ⟨_, hself, rfl⟩

theorem step_balanced (hs : s.Balanced) (hv : s.loop.Valid) (h : s.step op = some s') :
    s'.Balanced := by
  obtain ⟨loop, hstep, rfl⟩ := Option.map_eq_some_iff.mp h
  by_cases hop : s.loop.creates op = []
  · rw [hop, List.append_nil]
    exact hs.frees (TimerLoop.step_frees hv hstep hop).1 (TimerLoop.numCreated_le_step hv hstep)
  · cases op with
    | newTimer a when interval =>
      obtain ⟨-, -, hfree, rfl⟩ := TimerLoop.step_newTimer hstep
      simp only [TimerLoop.creates, TimerLoop.deletes, List.append_nil]
      exact hs.newTimer hfree rfl
    | advance | addTimerInLoop | cancelInLoop | handleRead | runNext | throws | handleReadEnd =>
      exact absurd rfl hop

theorem step_apart (hs : ∀ d ∈ s.deletes, d.Apart) (hv : s.loop.Valid) (h : s.step op = some s') :
    ∀ d ∈ s'.deletes, d.Apart := by
  obtain ⟨loop, hstep, rfl⟩ := Option.map_eq_some_iff.mp h
  intro d hd
  rcases List.mem_append.mp hd with hd | hd
  · exact hs d hd
  · by_cases hop : s.loop.creates op = []
    · exact (TimerLoop.step_frees hv hstep hop).2 d hd
    · cases op with
      | newTimer a when interval => exact absurd hd List.not_mem_nil
      | advance | addTimerInLoop | cancelInLoop | handleRead | runNext | throws | handleReadEnd =>
        exact absurd rfl hop

/-- What holds in every state of every run. -/
structure Sound (s : TimerOwner) : Prop where
  reached : s.loop.Reached
  balanced : s.Balanced
  apart : ∀ d ∈ s.deletes, d.Apart

theorem run_sound {clock : Clock} {ops : List TimerOp}
    (hrun : Machine.run step (initial clock) ops = some s) : s.Sound := by
  refine Machine.run_invariant (P := Sound) ?_ hrun
    ⟨TimerLoop.initial_reached clock, initial_balanced clock, by simp [initial]⟩
  intro s op s' hs h
  obtain ⟨loop, hstep, -⟩ := Option.map_eq_some_iff.mp h
  refine ⟨?_, step_balanced hs.balanced hs.reached.valid h, step_apart hs.apart hs.reached.valid h⟩
  obtain ⟨loop, hstep, rfl⟩ := Option.map_eq_some_iff.mp h
  exact hs.reached.step hstep

/-- With no batch running and nothing posted, the destructor deletes what is left. -/
theorem Sound.destroy (hs : s.Sound) (hposted : s.loop.posted = []) (hbatch : s.loop.batch = none) :
    s.destroy.Balanced ∧ ∀ a, s.destroy.loop.queue.heap a = none := by
  have hv := hs.reached.valid.queue
  have hlive : ∀ e ∈ s.loop.queue.timers.elems, ∃ t, s.loop.queue.heap e.timer = some t := by
    intro e he
    obtain ⟨t, ht, -⟩ := (hv.entry_iff e.when e.timer).mp he
    exact ⟨t, ht⟩
  have hfrees := destroyLoop_frees _ s.loop.queue hlive
    (hv.timer_nodup s.loop.queue.timers.sorted fun _ he => he)
  have hnum : s.loop.queue.destroy.1.numCreated = s.loop.queue.numCreated :=
    destroyLoop_numCreated _ _
  have hbalanced : s.destroy.Balanced := hs.balanced.frees hfrees (Nat.le_of_eq hnum.symm)
  refine ⟨hbalanced, fun a => ?_⟩
  by_cases hmem : a ∈ (destroyLoop s.loop.queue.timers.elems s.loop.queue).2.map Delete.timer
  · obtain ⟨d, hd, rfl⟩ := List.mem_map.mp hmem
    exact hfrees.freed d hd
  · -- an address without an entry holds no timer
    have hfree : s.loop.queue.heap a = none := by
      rw [Option.eq_none_iff_forall_ne_some]
      intro t ht
      have hwhere := (hs.reached.allocated_iff a).mp ⟨t, ht⟩
      rw [hposted, TimerLoop.pendingEntries, hbatch] at hwhere
      simp only [List.not_mem_nil, Option.map_none, Option.getD_none, List.map_nil, or_false,
        false_or] at hwhere
      obtain ⟨when, hentry⟩ := hwhere
      rw [destroyLoop_timer] at hmem
      exact hmem (List.mem_map.mpr ⟨_, hentry, rfl⟩)
    have hkept := hfrees.kept a hmem
    rw [hfree, Option.map_none] at hkept
    exact Option.map_eq_none_iff.mp hkept

/-- The destructor deletes exactly the timers in `timers_`, each while it is filed there. -/
theorem destroy_deletes (s : TimerOwner) :
    ∃ ds, s.destroy.deletes = s.deletes ++ ds ∧
      ds.map Delete.timer = s.loop.queue.timers.elems.map Entry.timer ∧ ∀ d ∈ ds, d.Filed := by
  refine ⟨_, rfl, destroyLoop_timer _ _, fun d hd => ?_⟩
  have hmem : d.timer ∈ s.loop.queue.timers.elems.map Entry.timer := by
    rw [← destroyLoop_timer _ s.loop.queue]
    exact List.mem_map_of_mem hd
  obtain ⟨e, he, heq⟩ := List.mem_map.mp hmem
  refine ⟨e.when, ?_⟩
  rw [destroyLoop_timers _ _ d hd, ← heq]
  exact he

end TimerOwner

/-! ## On the loop thread -/

/-- The operations of the loop thread, a `handleRead` again in pieces. -/
inductive LoopThreadOp
  | advance (wall mono : Int)
  | addTimer (a : Addr) (when : Int) (interval : Seconds)
  | cancel (id : TimerId)
  | handleRead
  | runNext
  | throws
  | handleReadEnd

/-- On the loop thread `addTimer` runs `addTimerInLoop` and `cancel` runs `cancelInLoop` at
once. -/
def LoopThreadOp.steps : LoopThreadOp → List TimerOp
  | .advance wall mono => [.advance wall mono]
  | .addTimer a when interval => [.newTimer a when interval, .addTimerInLoop a]
  | .cancel id => [.cancelInLoop id]
  | .handleRead => [.handleRead]
  | .runNext => [.runNext]
  | .throws => [.throws]
  | .handleReadEnd => [.handleReadEnd]

/-- Everything but `addTimer` is one step, which neither allocates nor adds a timer. -/
theorem LoopThreadOp.steps_cases (op : LoopThreadOp) :
    (∃ a when interval, op = .addTimer a when interval) ∨
      ∃ o, op.steps = [o] ∧ (∀ s : TimerLoop, s.creates o = []) ∧
        (∀ a, o ≠ .addTimerInLoop a) ∧ (∀ id, o = .cancelInLoop id → op = .cancel id) ∧
        (o = .handleReadEnd → op = .handleReadEnd) := by
  cases op with
  | addTimer a when interval => exact .inl ⟨a, when, interval, rfl⟩
  | cancel id =>
    refine .inr ⟨_, rfl, fun _ => rfl, by simp, fun i hi => ?_, by simp⟩
    cases hi
    rfl
  | advance | handleRead | runNext | throws | handleReadEnd =>
    exact .inr ⟨_, rfl, fun _ => rfl, by simp, by simp, by simp⟩

namespace TimerOwner

variable {s s' : TimerOwner}

/-- Between the operations of the loop thread nothing is posted. -/
theorem posted_of_op {op : LoopThreadOp} (hs : s.loop.posted = [])
    (hrun : Machine.run step s op.steps = some s') : s'.loop.posted = [] := by
  rcases op.steps_cases with ⟨a, when, interval, rfl⟩ | ⟨o, heq, hnew, hadd, -⟩
  · obtain ⟨u, hu, hrest⟩ := Machine.run_cons_eq_some.mp hrun
    obtain ⟨loop, hstep, rfl⟩ := Option.map_eq_some_iff.mp hu
    obtain ⟨loop', hstep', rfl⟩ :=
      Option.map_eq_some_iff.mp (Machine.run_singleton_eq_some.mp hrest)
    obtain ⟨-, -, -, rfl⟩ := TimerLoop.step_newTimer hstep
    obtain ⟨-, t, -, rfl⟩ := TimerLoop.step_addTimerInLoop hstep'
    simp [hs]
  · rw [heq, Machine.run_singleton_eq_some] at hrun
    obtain ⟨loop, hstep, rfl⟩ := Option.map_eq_some_iff.mp hrun
    exact (TimerLoop.posted_step hstep (hnew _) hadd).trans hs

theorem posted_of_ops {ops : List LoopThreadOp} (hs : s.loop.posted = [])
    (hrun : Machine.run step s (ops.flatMap LoopThreadOp.steps) = some s') :
    s'.loop.posted = [] := by
  induction ops generalizing s with
  | nil => exact Option.some.inj hrun ▸ hs
  | cons op ops ih =>
    rw [List.flatMap_cons] at hrun
    obtain ⟨u, hop, hrest⟩ := Machine.run_append_eq_some.mp hrun
    exact ih (posted_of_op hs hop) hrest

/-- **Timer ownership.**  In every run of the loop thread, every `delete` of `cancelInLoop`
and `reset` finds an object that is in neither set and not to be executed or reset any
more.  The allocated timers are those in `timers_`, and in a `handleRead` those of its batch.
When no `handleRead` is running the destructor deletes exactly the timers in `timers_`, while
they are filed there, and leaves no timer behind; and the timers deleted up to then are the
timers created, each of them once. -/
theorem timers_owned {clock : Clock} {ops : List LoopThreadOp}
    (hrun : Machine.run step (initial clock) (ops.flatMap LoopThreadOp.steps) = some s) :
    (∀ d ∈ s.deletes, d.object ≠ none ∧ d.Apart) ∧
      (∀ a, (∃ t, s.loop.queue.heap a = some t) ↔
        (∃ when, (⟨when, a⟩ : Entry) ∈ s.loop.queue.timers) ∨
          a ∈ s.loop.pendingEntries.map Entry.timer) ∧
      (s.loop.batch = none →
        (∀ a, (∃ t, s.loop.queue.heap a = some t) ↔
          ∃ when, (⟨when, a⟩ : Entry) ∈ s.loop.queue.timers) ∧
        (∃ ds, s.destroy.deletes = s.deletes ++ ds ∧
          ds.map Delete.timer = s.loop.queue.timers.elems.map Entry.timer ∧ ∀ d ∈ ds, d.Filed) ∧
        (∀ d ∈ s.destroy.deletes, d.object ≠ none) ∧ s.destroy.deleted.Perm s.created ∧
        ∀ a, s.destroy.loop.queue.heap a = none) := by
  have hs := run_sound hrun
  have hposted : s.loop.posted = [] := posted_of_ops rfl hrun
  have hwhere : ∀ a, (∃ t, s.loop.queue.heap a = some t) ↔
      (∃ when, (⟨when, a⟩ : Entry) ∈ s.loop.queue.timers) ∨
        a ∈ s.loop.pendingEntries.map Entry.timer := by
    intro a
    rw [hs.reached.allocated_iff, hposted]
    simp
  refine ⟨fun d hd => ⟨hs.balanced.object d hd, hs.apart d hd⟩, hwhere, fun hbatch => ?_⟩
  obtain ⟨hdestroyed, hempty⟩ := hs.destroy hposted hbatch
  refine ⟨fun a => ?_, s.destroy_deletes, hdestroyed.object, ?_, hempty⟩
  · rw [hwhere, TimerLoop.pendingEntries, hbatch]
    simp
  · refine (List.perm_ext_iff_of_nodup hdestroyed.once hdestroyed.nodup).mpr fun id => ?_
    refine ⟨hdestroyed.created id, fun hid => (hdestroyed.accounted id hid).resolve_right ?_⟩
    rintro ⟨t, ht, -⟩
    rw [hempty] at ht
    cases ht

/-- A periodic timer cancels itself in its callback and cancels a later one; a third is
left for the destructor. -/
def threeEnds : List LoopThreadOp :=
  [.addTimer 1 5 (.ofMicros 3), .addTimer 2 20 .zero, .addTimer 3 30 .zero, .handleRead, .runNext,
    .cancel ⟨1, 0⟩, .cancel ⟨2, 1⟩, .throws, .handleReadEnd]

theorem timers_owned_threeEnds :
    ∃ s, Machine.run step (initial ⟨10, 0⟩) (threeEnds.flatMap LoopThreadOp.steps) = some s ∧
      s.deleted = [⟨2, 1⟩, ⟨1, 0⟩] ∧ s.destroy.deleted.Perm [⟨1, 0⟩, ⟨2, 1⟩, ⟨3, 2⟩] := by
  obtain ⟨s, hs⟩ : ∃ s, Machine.run step (initial ⟨10, 0⟩)
      (threeEnds.flatMap LoopThreadOp.steps) = some s := ⟨_, rfl⟩
  have h := (timers_owned hs).2.2
  obtain rfl := Option.some.inj hs
  exact ⟨_, rfl, rfl, (h rfl).2.2.2.1⟩

/-- The destructor deletes timers that are in both sets. -/
theorem destroyed_while_filed :
    ∃ s, Machine.run step (initial ⟨10, 0⟩)
        ([LoopThreadOp.addTimer 1 50 .zero].flatMap LoopThreadOp.steps) = some s ∧
      s.loop.batch = none ∧ ∃ d ∈ s.destroy.deletes, d.id = some ⟨1, 0⟩ ∧
        (⟨50, d.timer⟩ : Entry) ∈ d.timers ∧ (⟨d.timer, 0⟩ : TimerId) ∈ d.activeTimers ∧
        ¬ d.Apart := by
  obtain ⟨s, hs⟩ : ∃ s, Machine.run step (initial ⟨10, 0⟩)
      ([LoopThreadOp.addTimer 1 50 .zero].flatMap LoopThreadOp.steps) = some s := ⟨_, rfl⟩
  obtain rfl := Option.some.inj hs
  refine ⟨_, rfl, rfl, _, List.mem_cons_self, rfl, by decide, by decide, fun h => ?_⟩
  exact h.timers 50 (by decide)

end TimerOwner
end ReMuduo
