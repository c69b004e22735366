import ReMuduo.TimerSets

/-! # Runs of the timer queue

`TimerLoop.Valid` is what holds in every state of every run: between the operations
and, inside `handleRead`, at every callback.  Besides the validity of the queue it says
where a live timer can be: scheduled, in the running batch, or allocated with its
`addTimerInLoop` still posted, and in one of these places only. -/
namespace ReMuduo
namespace TimerLoop
open TimerQueue

/-- The invariant of the runs. -/
structure Valid (s : TimerLoop) : Prop where
  queue : s.queue.Valid
  calling : s.queue.callingExpiredTimers = s.batch.isSome
  batch : ∀ b, s.batch = some b → BatchValid s.queue b.expired b.now
  todo : ∀ b, s.batch = some b → b.todo <:+ b.expired
  posted_live : ∀ a ∈ s.posted, ∃ t, s.queue.heap a = some t
  posted_inactive : ∀ a ∈ s.posted, s.queue.Inactive a
  posted_batch : ∀ b, s.batch = some b → ∀ e ∈ b.expired, e.timer ∉ s.posted
  posted_nodup : s.posted.Nodup

theorem initial_valid (clock : Clock) : (initial clock).Valid where
  queue := TimerQueue.initial_valid
  calling := rfl
  batch := by simp [initial]
  todo := by simp [initial]
  posted_live := by simp [initial]
  posted_inactive := by simp [initial]
  posted_batch := by simp [initial]
  posted_nodup := List.nodup_nil

/-- A batch stays valid as long as its timers are neither freed, changed nor scheduled. -/
theorem batchValid_of_frame {q q' : TimerQueue} {expired : List Entry} {now : Int}
    (h : BatchValid q expired now)
    (hheap : ∀ e ∈ expired, q'.heap e.timer = q.heap e.timer)
    (hin : ∀ e ∈ expired, q'.Inactive e.timer) : BatchValid q' expired now where
  due := h.due
  live e he := by rw [hheap e he]; exact h.live e he
  inactive := hin
  nodup := h.nodup
  sorted := h.sorted
  now_pos := h.now_pos

/-! ## What each step does -/

variable {s s' : TimerLoop}

theorem step_advance {wall mono : Int} (h : s.step (.advance wall mono) = some s') :
    0 ≤ mono ∧ s' = { s with
      clock := ⟨s.clock.wall + wall, s.clock.mono + mono⟩
      queue := { s.queue with timerfd := s.queue.timerfd.advance (s.clock.mono + mono) } } := by
  simp only [step] at h
  split at h
  · rename_i hm
    exact ⟨hm, (Option.some.inj h).symm⟩
  · cases h

theorem step_newTimer {a : Addr} {when : Int} {interval : Seconds}
    (h : s.step (.newTimer a when interval) = some s') :
    a ≠ nullptr ∧ a < uintptrMax ∧ s.queue.heap a = none ∧
      s' = { s with queue := s.queue.newTimer a when interval, posted := s.posted ++ [a] } := by
  simp only [step] at h
  split at h
  · rename_i hc
    exact ⟨hc.1, hc.2.1, Option.isNone_iff_eq_none.mp hc.2.2, (Option.some.inj h).symm⟩
  · cases h

theorem step_addTimerInLoop {a : Addr} (h : s.step (.addTimerInLoop a) = some s') :
    a ∈ s.posted ∧ ∃ t, s.queue.heap a = some t ∧ s' = { s with
      queue := s.queue.addTimerInLoop s.clock a
      posted := s.posted.erase a
      history := s.history ++ [.added ⟨a, t.sequence⟩ t.expiration t.interval] } := by
  simp only [step] at h
  split at h
  · rename_i ha
    split at h
    · cases h
    · rename_i t ht
      exact ⟨ha, t, ht, (Option.some.inj h).symm⟩
  · cases h

theorem step_cancelInLoop {id : TimerId} (h : s.step (.cancelInLoop id) = some s') :
    s' = { s with
      queue := s.queue.cancelInLoop id, history := s.history ++ [.cancelled id] } :=
  (Option.some.inj h).symm

/-- The queue as `handleRead` leaves it for the callbacks. -/
def beginQueue (s : TimerLoop) : TimerQueue :=
  { (({ s.queue with timerfd := s.queue.timerfd.read } : TimerQueue).getExpired s.clock.wall).1 with
    callingExpiredTimers := true
    cancelingTimers := OrderedSet.empty }

/-- The batch `handleRead` is about to execute. -/
def beginExpired (s : TimerLoop) : List Entry :=
  (({ s.queue with timerfd := s.queue.timerfd.read } : TimerQueue).getExpired s.clock.wall).2

theorem step_handleRead (h : s.step .handleRead = some s') :
    s.batch = none ∧ s' = { s with
      queue := s.beginQueue
      batch := some ⟨s.clock.wall, s.beginExpired, s.beginExpired⟩
      history := s.history ++ [.begun s.clock.wall] } := by
  simp only [step] at h
  split at h
  · cases h
  · rename_i hb
    exact ⟨hb, (Option.some.inj h).symm⟩

theorem step_runNext (h : s.step .runNext = some s') :
    ∃ now expired it todo, s.batch = some ⟨now, expired, it :: todo⟩ ∧
      ((s.queue.heap it.timer = none ∧ s' = { s with
          queue := s.queue.report .danglingTimer, batch := some ⟨now, expired, todo⟩ }) ∨
        ∃ t, s.queue.heap it.timer = some t ∧ s' = { s with
          batch := some ⟨now, expired, todo⟩
          history := s.history ++ [.executed ⟨it.timer, t.sequence⟩ now t.expiration] }) := by
  simp only [step] at h
  split at h
  · rename_i now expired it todo hb
    refine ⟨now, expired, it, todo, hb, ?_⟩
    split at h
    · rename_i ht
      exact Or.inl ⟨ht, (Option.some.inj h).symm⟩
    · rename_i t ht
      exact Or.inr ⟨t, ht, (Option.some.inj h).symm⟩
  · cases h

theorem step_throws (h : s.step .throws = some s') :
    s' = { s with queue := s.queue.report .callbackException } := by
  simp only [step] at h
  split at h
  · cases h
  · exact (Option.some.inj h).symm

theorem step_handleReadEnd (h : s.step .handleReadEnd = some s') :
    ∃ now expired, s.batch = some ⟨now, expired, []⟩ ∧ s' = { s with
      queue := ({ s.queue with callingExpiredTimers := false } : TimerQueue).reset s.clock
        expired now
      batch := none
      history := s.history ++ [.ended] } := by
  simp only [step] at h
  split at h
  · rename_i now expired hb
    exact ⟨now, expired, hb, (Option.some.inj h).symm⟩
  · cases h

/-! ## The invariant is preserved -/

theorem validQueue_of_sets {q : TimerQueue} (hq : q.Valid) (fd : Timerfd) (c : Bool)
    (canceling : OrderedSet TimerId) :
    ({ q with timerfd := fd, callingExpiredTimers := c, cancelingTimers := canceling } :
      TimerQueue).Valid :=
  ⟨⟨hq.entry_iff, hq.active_live, hq.size_eq⟩, hq.live_addr, hq.live_seq, hq.clean⟩

/-- The queue `handleRead` takes its batch from. -/
theorem Valid.readQueue (hs : s.Valid) :
    ({ s.queue with timerfd := s.queue.timerfd.read } : TimerQueue).Valid :=
  validQueue_of_sets hs.queue _ _ _

theorem Valid.beginQueue_heap (hs : s.Valid) : s.beginQueue.heap = s.queue.heap :=
  getExpired_heap _ hs.readQueue s.clock.wall

theorem Valid.beginQueue_numCreated (hs : s.Valid) :
    s.beginQueue.numCreated = s.queue.numCreated :=
  getExpired_numCreated hs.readQueue s.clock.wall

/-- The queue `handleRead` resets at its end. -/
theorem Valid.endQueue (hs : s.Valid) :
    ({ s.queue with callingExpiredTimers := false } : TimerQueue).Valid :=
  validQueue_of_sets hs.queue _ _ _

theorem Valid.endBatch (hs : s.Valid) {b : Batch} (hb : s.batch = some b) :
    BatchValid { s.queue with callingExpiredTimers := false } b.expired b.now :=
  batchValid_of_frame (hs.batch b hb) (fun _ _ => rfl) (hs.batch b hb).inactive

theorem Valid.advance (hs : s.Valid) (clock : Clock) (fd : Timerfd) :
    ({ s with clock := clock, queue := { s.queue with timerfd := fd } } : TimerLoop).Valid where
  queue := validQueue_of_sets hs.queue _ _ _
  calling := hs.calling
  batch b hb := batchValid_of_frame (hs.batch b hb) (fun _ _ => rfl) (hs.batch b hb).inactive
  todo := hs.todo
  posted_live := hs.posted_live
  posted_inactive := hs.posted_inactive
  posted_batch := hs.posted_batch
  posted_nodup := hs.posted_nodup

theorem Valid.newTimer (hs : s.Valid) {a : Addr} (hnull : a ≠ nullptr) (hmax : a < uintptrMax)
    (hfree : s.queue.heap a = none) (when : Int) (interval : Seconds) :
    ({ s with queue := s.queue.newTimer a when interval, posted := s.posted ++ [a] } :
      TimerLoop).Valid where
  queue := hs.queue.newTimer hfree hnull hmax when interval
  calling := hs.calling
  batch b hb := by
    refine batchValid_of_frame (hs.batch b hb) (fun e he => ?_) (hs.batch b hb).inactive
    obtain ⟨t, ht, -⟩ := (hs.batch b hb).live e he
    refine newTimer_heap_other when interval (fun hsame => ?_)
    rw [hsame, hfree] at ht
    cases ht
  todo := hs.todo
  posted_live := by
    intro b hb
    by_cases hba : b = a
    · subst hba
      exact ⟨_, newTimer_heap_self s.queue b when interval⟩
    · obtain ⟨t, ht⟩ := hs.posted_live b
        ((List.mem_append.mp hb).resolve_right (by simpa using hba))
      exact ⟨t, (newTimer_heap_other when interval hba).trans ht⟩
  posted_inactive := by
    intro b hb
    rcases List.mem_append.mp hb with hb | hb
    · exact hs.posted_inactive b hb
    · rw [List.mem_singleton.mp hb]
      exact hs.queue.inactive_of_free hfree
  posted_batch := by
    intro b hb e he hmem
    rcases List.mem_append.mp hmem with hmem | hmem
    · exact hs.posted_batch b hb e he hmem
    · obtain ⟨t, ht, -⟩ := (hs.batch b hb).live e he
      rw [List.mem_singleton.mp hmem, hfree] at ht
      cases ht
  posted_nodup := by
    refine List.nodup_append.mpr ⟨hs.posted_nodup, List.nodup_singleton a, ?_⟩
    intro b hb c hc hbc
    obtain ⟨t, ht⟩ := hs.posted_live b hb
    rw [hbc, List.mem_singleton.mp hc, hfree] at ht
    cases ht

theorem Valid.addTimerInLoop (hs : s.Valid) {a : Addr} (ha : a ∈ s.posted) {t : Timer}
    (ht : s.queue.heap a = some t) (h : List TimerEvent) :
    ({ s with
      queue := s.queue.addTimerInLoop s.clock a
      posted := s.posted.erase a
      history := h } : TimerLoop).Valid := by
  have hin := hs.posted_inactive a ha
  obtain ⟨hheap, hcalling, -, -, hact⟩ := addTimerInLoop_frame hs.queue s.clock ht hin
  have hother : ∀ b, b ≠ a → s.queue.Inactive b →
      (s.queue.addTimerInLoop s.clock a).Inactive b :=
    fun b hb hbin n hn => hbin n ((hact ⟨b, n⟩ hb).mp hn)
  refine ⟨addTimerInLoop_valid hs.queue s.clock ht hin, hcalling.trans hs.calling, ?_, hs.todo,
    ?_, ?_, ?_, hs.posted_nodup.erase a⟩
  · intro b hb
    refine batchValid_of_frame (hs.batch b hb) (fun e _ => by rw [hheap]) (fun e he => ?_)
    exact hother _ (fun hsame => hs.posted_batch b hb e he (hsame ▸ ha))
      ((hs.batch b hb).inactive e he)
  · intro b hb
    show ∃ t, (s.queue.addTimerInLoop s.clock a).heap b = some t
    rw [hheap]
    exact hs.posted_live b (List.mem_of_mem_erase hb)
  · intro b hb
    obtain ⟨hne, hb⟩ := hs.posted_nodup.mem_erase_iff.mp hb
    exact hother b hne (hs.posted_inactive b hb)
  · intro b hb e he hmem
    exact hs.posted_batch b hb e he (List.mem_of_mem_erase hmem)

theorem Valid.cancelInLoop (hs : s.Valid) (id : TimerId) (h : List TimerEvent) :
    ({ s with queue := s.queue.cancelInLoop id, history := h } : TimerLoop).Valid := by
  obtain ⟨hheap, hin, hcalling, -⟩ := cancelInLoop_frame hs.queue id
  refine ⟨cancelInLoop_valid hs.queue id, hcalling.trans hs.calling, ?_, hs.todo, ?_, ?_,
    hs.posted_batch, hs.posted_nodup⟩
  · intro b hb
    exact batchValid_of_frame (hs.batch b hb)
      (fun e he => hheap _ ((hs.batch b hb).inactive e he))
      (fun e he => hin _ ((hs.batch b hb).inactive e he))
  · intro a ha
    show ∃ t, (s.queue.cancelInLoop id).heap a = some t
    rw [hheap a (hs.posted_inactive a ha)]
    exact hs.posted_live a ha
  · intro a ha
    exact hin a (hs.posted_inactive a ha)

theorem beginQueue_inactive (hs : s.Valid) {a : Addr} (ha : s.queue.Inactive a) :
    s.beginQueue.Inactive a := by
  intro n hn
  have hsub := TimerQueue.Valid.getExpired hs.readQueue s.clock.wall
  obtain ⟨t, ht, hseq⟩ := hsub.active_live _ hn
  have hsched := sched_eq_some.mpr ⟨hn, ht⟩
  by_cases hnow : 0 < s.clock.wall
  · change (TimerQueue.getExpired _ s.clock.wall).1.sched ⟨a, n⟩ = some t at hsched
    rw [sched_getExpired hs.readQueue hnow, Option.filter_eq_some_iff] at hsched
    exact ha n (sched_eq_some.mp hsched.1).1
  · have : (⟨a, n⟩ : TimerId) ∈ (TimerQueue.getExpired { s.queue with
        timerfd := s.queue.timerfd.read } s.clock.wall).1.activeTimers := hn
    rw [getExpired_invalid hnow] at this
    exact ha n this

theorem Valid.handleRead (hs : s.Valid) (h : List TimerEvent) :
    ({ s with
      queue := s.beginQueue
      batch := some ⟨s.clock.wall, s.beginExpired, s.beginExpired⟩
      history := h } : TimerLoop).Valid := by
  have hq := hs.readQueue
  have hbatch := getExpired_batchValid hq s.clock.wall
  refine ⟨validQueue_of_sets (hq.getExpired s.clock.wall) _ _ _, rfl, ?_, ?_, ?_, ?_, ?_,
    hs.posted_nodup⟩
  · intro b he
    cases he
    exact ⟨hbatch.due, hbatch.live, hbatch.inactive, hbatch.nodup, hbatch.sorted, hbatch.now_pos⟩
  · intro b he
    cases he
    exact List.suffix_refl _
  · intro a ha
    show ∃ t, s.beginQueue.heap a = some t
    rw [hs.beginQueue_heap]
    exact hs.posted_live a ha
  · intro a ha
    exact beginQueue_inactive hs (hs.posted_inactive a ha)
  · intro b he e hmem ha
    cases he
    -- a timer of the batch was scheduled, a posted one was not
    obtain ⟨t, ht, -⟩ := sched_of_mem_getExpired hq hmem
    exact hs.posted_inactive _ ha _ (sched_eq_some.mp ht).1

/-- The next timer of the batch is alive. -/
theorem Valid.todo_live (hs : s.Valid) {now : Int} {expired todo : List Entry} {it : Entry}
    (hb : s.batch = some ⟨now, expired, it :: todo⟩) :
    ∃ t, s.queue.heap it.timer = some t ∧ t.expiration = it.when :=
  (hs.batch _ hb).live it ((hs.todo _ hb).subset List.mem_cons_self)

theorem Valid.runNext_live (hs : s.Valid) (h : s.step .runNext = some s') :
    ∃ now expired it todo t, s.batch = some ⟨now, expired, it :: todo⟩ ∧
      s.queue.heap it.timer = some t ∧ s' = { s with
        batch := some ⟨now, expired, todo⟩
        history := s.history ++ [.executed ⟨it.timer, t.sequence⟩ now t.expiration] } := by
  obtain ⟨now, expired, it, todo, hb, ⟨hnone, -⟩ | ⟨t, ht, heq⟩⟩ := step_runNext h
  · obtain ⟨t, ht, -⟩ := hs.todo_live hb
    cases hnone.symm.trans ht
  · exact ⟨now, expired, it, todo, t, hb, ht, heq⟩

theorem Valid.todo_tail (hs : s.Valid) {now : Int} {expired todo : List Entry} {it : Entry}
    (hb : s.batch = some ⟨now, expired, it :: todo⟩) (h : List TimerEvent) :
    ({ s with batch := some ⟨now, expired, todo⟩, history := h } : TimerLoop).Valid where
  queue := hs.queue
  calling := by rw [hs.calling, hb]; rfl
  batch b he := by cases he; exact hs.batch ⟨now, expired, it :: todo⟩ hb
  todo b he := by cases he; exact (List.suffix_cons it todo).trans (hs.todo _ hb)
  posted_live := hs.posted_live
  posted_inactive := hs.posted_inactive
  posted_batch b he := by cases he; exact hs.posted_batch ⟨now, expired, it :: todo⟩ hb
  posted_nodup := hs.posted_nodup

theorem Valid.handleReadEnd (hs : s.Valid) {now : Int} {expired todo : List Entry}
    (hb : s.batch = some ⟨now, expired, todo⟩) (h : List TimerEvent) :
    ({ s with
      queue := ({ s.queue with callingExpiredTimers := false } : TimerQueue).reset s.clock
        expired now
      batch := none
      history := h } : TimerLoop).Valid := by
  obtain ⟨hvalid, -, hheap, hact, -, hcalling, -⟩ :=
    reset_spec hs.endQueue s.clock (hs.endBatch hb)
  have hout : ∀ a ∈ s.posted, a ∉ expired.map Entry.timer := by
    intro a ha hmem
    obtain ⟨e, he, rfl⟩ := List.mem_map.mp hmem
    exact hs.posted_batch _ hb e he ha
  refine ⟨hvalid, hcalling, by simp, by simp, ?_, ?_, by simp, hs.posted_nodup⟩
  · intro a ha
    obtain ⟨t, ht⟩ := hs.posted_live a ha
    exact ⟨t, (hheap a (hout a ha)).trans ht⟩
  · intro a ha n hn
    exact hs.posted_inactive a ha n ((hact ⟨a, n⟩ (hout a ha)).mp hn)

/-- **Every step keeps the invariant.** -/
theorem step_valid {op : TimerOp} (hs : s.Valid) (h : s.step op = some s') : s'.Valid := by
  cases op with
  | advance wall mono =>
    obtain ⟨-, rfl⟩ := step_advance h
    exact hs.advance _ _
  | newTimer a when interval =>
    obtain ⟨hnull, hmax, hfree, rfl⟩ := step_newTimer h
    exact hs.newTimer hnull hmax hfree when interval
  | addTimerInLoop a =>
    obtain ⟨ha, t, ht, rfl⟩ := step_addTimerInLoop h
    exact hs.addTimerInLoop ha ht _
  | cancelInLoop id =>
    rw [step_cancelInLoop h]
    exact hs.cancelInLoop id _
  | handleRead =>
    obtain ⟨-, rfl⟩ := step_handleRead h
    exact hs.handleRead _
  | runNext =>
    obtain ⟨now, expired, it, todo, t, hb, -, rfl⟩ := hs.runNext_live h
    exact hs.todo_tail hb _
  | throws =>
    rw [step_throws h]
    exact ⟨hs.queue.report rfl, hs.calling,
      fun b hb => batchValid_of_frame (hs.batch b hb) (fun _ _ => rfl) (hs.batch b hb).inactive,
      hs.todo, hs.posted_live, hs.posted_inactive, hs.posted_batch, hs.posted_nodup⟩
  | handleReadEnd =>
    obtain ⟨now, expired, hb, rfl⟩ := step_handleReadEnd h
    exact hs.handleReadEnd hb _

/-- Sequence numbers are only ever handed out. -/
theorem numCreated_le_step {op : TimerOp} (hs : s.Valid) (h : s.step op = some s') :
    s.queue.numCreated ≤ s'.queue.numCreated := by
  cases op with
  | advance wall mono =>
    obtain ⟨-, rfl⟩ := step_advance h
    exact Nat.le_refl _
  | newTimer a when interval =>
    obtain ⟨-, -, -, rfl⟩ := step_newTimer h
    exact Nat.le_succ _
  | addTimerInLoop a =>
    obtain ⟨ha, t, ht, rfl⟩ := step_addTimerInLoop h
    have hframe := addTimerInLoop_frame hs.queue s.clock ht (hs.posted_inactive a ha)
    exact Nat.le_of_eq hframe.2.2.2.1.symm
  | cancelInLoop i =>
    rw [step_cancelInLoop h]
    exact Nat.le_of_eq (cancelInLoop_frame hs.queue i).2.2.2.symm
  | handleRead =>
    obtain ⟨-, rfl⟩ := step_handleRead h
    exact Nat.le_of_eq hs.beginQueue_numCreated.symm
  | runNext =>
    obtain ⟨now, expired, it, todo, -, ⟨-, rfl⟩ | ⟨t, -, rfl⟩⟩ := step_runNext h
    · exact Nat.le_refl _
    · exact Nat.le_refl _
  | throws =>
    rw [step_throws h]
    exact Nat.le_refl _
  | handleReadEnd =>
    obtain ⟨now, expired, hb, rfl⟩ := step_handleReadEnd h
    have hspec := reset_spec hs.endQueue s.clock (hs.endBatch hb)
    exact Nat.le_of_eq hspec.2.2.2.2.1.symm

theorem run_valid {clock : Clock} {ops : List TimerOp}
    (h : Machine.run step (initial clock) ops = some s) : s.Valid :=
  Machine.run_invariant (fun _ _ _ hs hstep => step_valid hs hstep) h (initial_valid clock)

/-- **The two sets of the timer queue stay in bijection**, between the operations and at
every callback: an entry is filed iff its timer is active and holds the entry's time as
its expiration, no timer of the running batch is in either set, and no assertion,
insertion or erasure of `insert`, `cancelInLoop` and `getExpired` has failed. -/
theorem timers_bijective_activeTimers {clock : Clock} {ops : List TimerOp}
    (h : Machine.run step (initial clock) ops = some s) :
    (∀ when a, (⟨when, a⟩ : Entry) ∈ s.queue.timers ↔ ∃ t, s.queue.heap a = some t ∧
        (⟨a, t.sequence⟩ : TimerId) ∈ s.queue.activeTimers ∧ when = t.expiration) ∧
      (∀ id ∈ s.queue.activeTimers, ∃ t, s.queue.heap id.timer = some t ∧
        t.sequence = id.sequence) ∧
      (∀ b, s.batch = some b → ∀ e ∈ b.expired,
        (∀ when, (⟨when, e.timer⟩ : Entry) ∉ s.queue.timers) ∧
        ∀ n, (⟨e.timer, n⟩ : TimerId) ∉ s.queue.activeTimers) ∧
      Report.assertSizes ∉ s.queue.reports ∧ Report.insertTimers ∉ s.queue.reports ∧
      Report.insertActiveTimers ∉ s.queue.reports ∧
      (∀ n, Report.cancelErase n ∉ s.queue.reports) ∧
      ∀ n, Report.getExpiredErase n ∉ s.queue.reports := by
  have hs := run_valid h
  have hclean : ∀ r, r.failure = true → r ∉ s.queue.reports := by
    intro r hr hmem
    rw [hs.queue.clean r hmem] at hr
    cases hr
  refine ⟨hs.queue.entry_iff, hs.queue.active_live, ?_, hclean _ rfl, hclean _ rfl, hclean _ rfl,
    fun n => hclean _ rfl, fun n => hclean _ rfl⟩
  intro b hb e he
  have hin := (hs.batch b hb).inactive e he
  exact ⟨fun when => hin.notMem_timers hs.queue.toBijective when, hin⟩

/-- A run that stops in the callback of a periodic timer which has cancelled itself,
with a second timer scheduled. -/
def cancelDuringCallback : List TimerOp :=
  [.newTimer 1 5 (.ofMicros 3), .addTimerInLoop 1, .newTimer 2 20 .zero,
    .addTimerInLoop 2, .handleRead, .runNext, .cancelInLoop ⟨1, 0⟩]

theorem timers_bijective_activeTimers_cancelDuringCallback :
    ∃ s, Machine.run step (initial ⟨10, 0⟩) cancelDuringCallback = some s ∧
      s.batch.isSome = true ∧ (⟨20, 2⟩ : Entry) ∈ s.queue.timers ∧
      ∀ n, Report.cancelErase n ∉ s.queue.reports := by
  obtain ⟨s, hs⟩ : ∃ s, Machine.run step (initial ⟨10, 0⟩) cancelDuringCallback = some s :=
    ⟨_, rfl⟩
  have h := timers_bijective_activeTimers hs
  obtain rfl := Option.some.inj hs
  exact ⟨_, rfl, rfl, by decide, h.2.2.2.2.2.2.1⟩

end TimerLoop
end ReMuduo
