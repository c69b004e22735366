import ReMuduo.TimerLife
import ReMuduo.TimerRuns

/-! # The timer queue fires every timer exactly when it should

`Tracks id s l` says that the queue treats the timer `id` as its life `l` prescribes:
a scheduled timer is filed, a due one is still to be called in the running batch, one
that has run waits for `reset`, and a deleted one has left the heap.  Every step of the
queue follows the life of every timer (`tracks_step`), so the event list of a run is
accepted by each of them (`run_life`), and what `ReMuduo.TimerLife` says about such
lists holds of the queue. -/
namespace ReMuduo
namespace TimerLoop
open TimerQueue

variable {s s' : TimerLoop} {id : TimerId} {l : Life}

/-- The object at the address of `id` is the timer `id` itself, and not a later one. -/
def Live (s : TimerLoop) (id : TimerId) (t : Timer) : Prop :=
  s.queue.heap id.timer = some t ∧ t.sequence = id.sequence

/-- The timer is in the running batch, which began at `now`; `todo` says whether it is
still to be executed. -/
def InBatch (s : TimerLoop) (a : Addr) (now : Int) (todo : Prop) : Prop :=
  ∃ b, s.batch = some b ∧ b.now = now ∧ a ∈ b.expired.map Entry.timer ∧
    (a ∈ b.todo.map Entry.timer ↔ todo)

/-- The state of the queue agrees with the life of the timer `id`. -/
def Tracks (id : TimerId) (s : TimerLoop) : Life → Prop
  | .fresh => id ∉ s.queue.activeTimers ∧ ∀ t, s.Live id t → id.timer ∈ s.posted
  | .scheduled t => s.queue.sched id = some t
  | .due t now c => s.InBatch id.timer now True ∧ s.Live id t ∧
      (id ∈ s.queue.cancelingTimers ↔ c = true)
  | .ran t now c => s.InBatch id.timer now False ∧ s.Live id t ∧
      (id ∈ s.queue.cancelingTimers ↔ c = true)
  | .gone => id.sequence < s.queue.numCreated ∧ ∀ t, ¬ s.Live id t

theorem initial_tracks (clock : Clock) (id : TimerId) : Tracks id (initial clock) .fresh :=
  ⟨by simp [initial, TimerQueue.initial], fun t ht => by cases ht.1⟩

/-! ## Where a timer can be -/

theorem InBatch.notMem_posted (hs : s.Valid) {a : Addr} {now : Int} {p : Prop}
    (h : s.InBatch a now p) : a ∉ s.posted := by
  obtain ⟨b, hb, -, ha, -⟩ := h
  obtain ⟨e, he, rfl⟩ := List.mem_map.mp ha
  exact hs.posted_batch b hb e he

theorem InBatch.inactive (hs : s.Valid) {a : Addr} {now : Int} {p : Prop}
    (h : s.InBatch a now p) : s.queue.Inactive a := by
  obtain ⟨b, hb, -, ha, -⟩ := h
  obtain ⟨e, he, rfl⟩ := List.mem_map.mp ha
  exact (hs.batch b hb).inactive e he

theorem Valid.live_of_sched (hs : s.Valid) {t : Timer} (h : s.queue.sched id = some t) :
    s.Live id t :=
  ⟨(sched_eq_some.mp h).2, hs.queue.sched_sequence h⟩

/-- A live timer whose `addTimerInLoop` is still posted has not begun its life. -/
theorem Tracks.eq_fresh_of_posted (hs : s.Valid) (h : Tracks id s l) {t : Timer}
    (hlive : s.Live id t) (hposted : id.timer ∈ s.posted) : l = .fresh := by
  cases l with
  | fresh => rfl
  | scheduled u =>
    exact absurd (sched_eq_some.mp h).1 (hs.posted_inactive _ hposted id.sequence)
  | due u now c => exact absurd hposted (h.1.notMem_posted hs)
  | ran u now c => exact absurd hposted (h.1.notMem_posted hs)
  | gone => exact absurd hlive (h.2 t)

/-- A live timer that is next in the running batch is due. -/
theorem Tracks.eq_due_of_todo (hs : s.Valid) (h : Tracks id s l) {t : Timer}
    (hlive : s.Live id t) {now : Int} (hbatch : s.InBatch id.timer now True) :
    ∃ c, l = .due t now c := by
  cases l with
  | fresh => exact absurd (h.2 t hlive) (hbatch.notMem_posted hs)
  | scheduled u => exact absurd (sched_eq_some.mp h).1 (hbatch.inactive hs id.sequence)
  | due u n c =>
    obtain ⟨⟨b, hb, rfl, -, -⟩, ⟨hu, -⟩, -⟩ := h
    obtain ⟨b', hb', rfl, -, -⟩ := hbatch
    rw [hb] at hb'
    rw [hlive.1] at hu
    rw [Option.some.inj hb', Option.some.inj hu]
    exact ⟨c, rfl⟩
  | ran u n c =>
    obtain ⟨⟨b, hb, -, -, htodo⟩, -, -⟩ := h
    obtain ⟨b', hb', -, -, htodo'⟩ := hbatch
    rw [hb] at hb'
    obtain rfl := Option.some.inj hb'
    exact (htodo.mp (htodo'.mpr trivial)).elim
  | gone => exact absurd hlive (h.2 t)

/-! ## The steps follow the lives -/

theorem Tracks.newTimer (hs : s.Valid) (h : Tracks id s l) {a : Addr}
    (hfree : s.queue.heap a = none) (when : Int) (interval : Seconds) :
    Tracks id { s with
      queue := s.queue.newTimer a when interval, posted := s.posted ++ [a] } l := by
  have hlive : ∀ {t}, s.Live id t → (s.queue.newTimer a when interval).heap id.timer = some t := by
    intro t ht
    refine (newTimer_heap_other when interval (fun hsame => ?_)).trans ht.1
    rw [← hsame] at hfree
    cases hfree.symm.trans ht.1
  cases l with
  | fresh =>
    refine ⟨h.1, fun t ht => ?_⟩
    by_cases ha : id.timer = a
    · exact List.mem_append_right _ (List.mem_singleton.mpr ha)
    · refine List.mem_append_left _ (h.2 t ⟨?_, ht.2⟩)
      exact (newTimer_heap_other when interval ha).symm.trans ht.1
  | scheduled t => exact (sched_newTimer (hs.queue.inactive_of_free hfree) when interval id).trans h
  | due t now c => exact ⟨h.1, ⟨hlive h.2.1, h.2.1.2⟩, h.2.2⟩
  | ran t now c => exact ⟨h.1, ⟨hlive h.2.1, h.2.1.2⟩, h.2.2⟩
  | gone =>
    refine ⟨Nat.lt_succ_of_lt h.1, ?_⟩
    rintro t ⟨ht, hseq⟩
    by_cases ha : id.timer = a
    · -- the address may be the same, the sequence number is a new one
      have hnew : t = ⟨when, interval, s.queue.numCreated⟩ := by
        rw [ha] at ht
        exact (Option.some.inj ((newTimer_heap_self s.queue a when interval).symm.trans ht)).symm
      rw [hnew] at hseq
      exact absurd h.1 (Nat.not_lt.mpr (le_of_eq hseq))
    · exact h.2 t ⟨(newTimer_heap_other when interval ha).symm.trans ht, hseq⟩

theorem Tracks.addTimerInLoop (hs : s.Valid) (h : Tracks id s l) {a : Addr} (ha : a ∈ s.posted)
    {t : Timer} (ht : s.queue.heap a = some t) (hist : List TimerEvent) :
    ∃ l', Life.step id l (.added ⟨a, t.sequence⟩ t.expiration t.interval) = some l' ∧
      Tracks id { s with
        queue := s.queue.addTimerInLoop s.clock a
        posted := s.posted.erase a
        history := hist } l' := by
  have hin := hs.posted_inactive a ha
  have hsched := sched_addTimerInLoop hs.queue s.clock ht hin id
  obtain ⟨hheap, -, hcanceling, hnum, -⟩ := addTimerInLoop_frame hs.queue s.clock ht hin
  have hvalid := addTimerInLoop_valid hs.queue s.clock ht hin
  by_cases hid : (⟨a, t.sequence⟩ : TimerId) = id
  · subst hid
    obtain rfl := h.eq_fresh_of_posted hs ⟨ht, rfl⟩ ha
    refine ⟨.scheduled t, by simp [Life.step, Life.add], ?_⟩
    exact hsched.trans (if_pos rfl)
  · refine ⟨l, by simp [Life.step, hid], ?_⟩
    rw [if_neg (Ne.symm hid)] at hsched
    cases l with
    | fresh =>
      refine ⟨?_, ?_⟩
      · exact hvalid.sched_eq_none.mp (hsched.trans (hs.queue.sched_eq_none.mpr h.1))
      · rintro u ⟨hu, hseq⟩
        have hu' : s.queue.heap id.timer = some u := by rw [← hheap]; exact hu
        refine (hs.posted_nodup.mem_erase_iff).mpr ⟨?_, h.2 u ⟨hu', hseq⟩⟩
        intro hsame
        rw [hsame, ht] at hu'
        apply hid
        rw [Option.some.inj hu', hseq, ← hsame]
    | scheduled u => exact hsched.trans h
    | due u now c => exact ⟨h.1, by rw [Live, hheap]; exact h.2.1, by rw [hcanceling]; exact h.2.2⟩
    | ran u now c => exact ⟨h.1, by rw [Live, hheap]; exact h.2.1, by rw [hcanceling]; exact h.2.2⟩
    | gone =>
      refine ⟨by rw [hnum]; exact h.1, fun u hu => h.2 u ?_⟩
      rw [Live, hheap] at hu
      exact hu

theorem Tracks.cancelInLoop (hs : s.Valid) (h : Tracks id s l) (i : TimerId)
    (hist : List TimerEvent) :
    ∃ l', Life.step id l (.cancelled i) = some l' ∧
      Tracks id { s with queue := s.queue.cancelInLoop i, history := hist } l' := by
  obtain ⟨hheap, -, -, hnum⟩ := cancelInLoop_frame hs.queue i
  have hsched := sched_cancelInLoop hs.queue i id
  have hvalid := cancelInLoop_valid hs.queue i
  -- in a batch the timer is in neither set, and `cancelInLoop` leaves it alone
  have hbatch : ∀ {t now p}, s.InBatch id.timer now p → s.Live id t →
      (s.queue.cancelInLoop i).heap id.timer = some t :=
    fun hb hlive => (hheap _ (hb.inactive hs)).trans hlive.1
  have hfresh : id ∉ s.queue.activeTimers → id ∉ (s.queue.cancelInLoop i).activeTimers := by
    intro hout
    apply hvalid.sched_eq_none.mp
    rw [hsched, hs.queue.sched_eq_none.mpr hout, ite_self]
  refine ⟨_, rfl, ?_⟩
  by_cases hid : i = id
  · subst hid
    rw [if_pos rfl]
    rw [if_pos rfl] at hsched
    have hnoted : ∀ {t now p}, s.InBatch i.timer now p → s.Live i t →
        i ∈ (s.queue.cancelInLoop i).cancelingTimers := by
      intro t now p hb hlive
      refine mem_canceling_cancelInLoop hs.queue (hs.queue.live_addr _ _ hlive.1).1 ?_ ?_
      · exact hs.queue.sched_eq_none.mpr (hb.inactive hs i.sequence)
      · obtain ⟨b, hb, -⟩ := hb
        rw [hs.calling, hb]
        rfl
    cases l with
    | fresh => exact ⟨hfresh h.1, fun t ht => h.2 t ⟨cancelInLoop_heap hs.queue ht.1, ht.2⟩⟩
    | scheduled t =>
      refine ⟨?_, ?_⟩
      · rw [hnum, ← hs.queue.sched_sequence h]
        exact hs.queue.live_seq _ t (sched_eq_some.mp h).2
      · rintro u ⟨hu, -⟩
        rw [cancelInLoop_eq hs.queue.toBijective (hs.queue.ne_nullptr_of_sched h) h, unfile,
          setHeap_self] at hu
        cases hu
    | due t now c => exact ⟨h.1, ⟨hbatch h.1 h.2.1, h.2.1.2⟩, iff_of_true (hnoted h.1 h.2.1) rfl⟩
    | ran t now c => exact ⟨h.1, ⟨hbatch h.1 h.2.1, h.2.1.2⟩, iff_of_true (hnoted h.1 h.2.1) rfl⟩
    | gone =>
      exact ⟨by rw [hnum]; exact h.1, fun t ht => h.2 t ⟨cancelInLoop_heap hs.queue ht.1, ht.2⟩⟩
  · rw [if_neg hid]
    rw [if_neg (Ne.symm hid)] at hsched
    have hcanceling := mem_canceling_cancelInLoop_other hs.queue (Ne.symm hid)
    cases l with
    | fresh => exact ⟨hfresh h.1, fun t ht => h.2 t ⟨cancelInLoop_heap hs.queue ht.1, ht.2⟩⟩
    | scheduled t => exact hsched.trans h
    | due t now c => exact ⟨h.1, ⟨hbatch h.1 h.2.1, h.2.1.2⟩, hcanceling.trans h.2.2⟩
    | ran t now c => exact ⟨h.1, ⟨hbatch h.1 h.2.1, h.2.1.2⟩, hcanceling.trans h.2.2⟩
    | gone =>
      exact ⟨by rw [hnum]; exact h.1, fun t ht => h.2 t ⟨cancelInLoop_heap hs.queue ht.1, ht.2⟩⟩

/-- What `handleRead` does to the schedule before it calls back. -/
theorem sched_beginQueue (hs : s.Valid) (id : TimerId) :
    s.beginQueue.sched id =
      if 0 < s.clock.wall then
        (s.queue.sched id).filter (fun t => decide (s.clock.wall < t.expiration))
      else s.queue.sched id := by
  show (TimerQueue.getExpired _ s.clock.wall).1.sched id = _
  split
  · rename_i hnow
    exact sched_getExpired hs.readQueue hnow id
  · rename_i hnow
    rw [getExpired_invalid hnow]
    rfl

theorem Tracks.handleRead (hs : s.Valid) (h : Tracks id s l) (hnone : s.batch = none)
    (hist : List TimerEvent) :
    ∃ l', Life.step id l (.begun s.clock.wall) = some l' ∧
      Tracks id { s with
        queue := s.beginQueue
        batch := some ⟨s.clock.wall, s.beginExpired, s.beginExpired⟩
        history := hist } l' := by
  have hq := hs.readQueue
  have hheap := hs.beginQueue_heap
  have hnum := hs.beginQueue_numCreated
  have hsched := sched_beginQueue hs id
  have hvalid := (hs.handleRead hist).queue
  cases l with
  | fresh =>
    refine ⟨.fresh, rfl, ?_, fun t ht => h.2 t (by rw [Live, hheap] at ht; exact ht)⟩
    apply hvalid.sched_eq_none.mp
    rw [hsched, hs.queue.sched_eq_none.mpr h.1]
    split <;> rfl
  | scheduled t =>
    have h' : s.queue.sched id = some t := h
    refine ⟨_, rfl, ?_⟩
    by_cases hdue : 0 < s.clock.wall ∧ t.expiration ≤ s.clock.wall
    · rw [if_pos hdue]
      have hmem := List.mem_map_of_mem (f := Entry.timer) (mem_getExpired hq hdue.1 h' hdue.2)
      refine ⟨⟨_, rfl, rfl, hmem, iff_of_true hmem trivial⟩, ?_, ?_⟩
      · rw [Live, hheap]
        exact hs.live_of_sched h'
      · exact iff_of_false (by simp [beginQueue]) (by simp)
    · rw [if_neg hdue]
      show s.beginQueue.sched id = some t
      rw [hsched, h']
      split
      · rename_i hnow
        have hlate : s.clock.wall < t.expiration := not_le.mp (fun hle => hdue ⟨hnow, hle⟩)
        simp only [Option.filter_some, hlate, decide_true, if_true]
      · rfl
  | due t now c =>
    obtain ⟨⟨b, hb, -⟩, -⟩ := h
    cases hnone.symm.trans hb
  | ran t now c =>
    obtain ⟨⟨b, hb, -⟩, -⟩ := h
    cases hnone.symm.trans hb
  | gone =>
    refine ⟨.gone, rfl, by rw [hnum]; exact h.1, fun t ht => h.2 t ?_⟩
    rw [Live, hheap] at ht
    exact ht

theorem Tracks.runNext (hs : s.Valid) (h : Tracks id s l) {now : Int} {expired todo : List Entry}
    {it : Entry} (hb : s.batch = some ⟨now, expired, it :: todo⟩) {t : Timer}
    (ht : s.queue.heap it.timer = some t) (hist : List TimerEvent) :
    ∃ l', Life.step id l (.executed ⟨it.timer, t.sequence⟩ now t.expiration) = some l' ∧
      Tracks id { s with batch := some ⟨now, expired, todo⟩, history := hist } l' := by
  have hit : it ∈ expired := (hs.todo _ hb).subset List.mem_cons_self
  have hnodup : ((it :: todo).map Entry.timer).Nodup :=
    (hs.batch _ hb).nodup.sublist ((hs.todo _ hb).sublist.map _)
  by_cases hid : (⟨it.timer, t.sequence⟩ : TimerId) = id
  · subst hid
    have hin : s.InBatch it.timer now True :=
      ⟨_, hb, rfl, List.mem_map_of_mem hit, iff_of_true List.mem_cons_self trivial⟩
    obtain ⟨c, rfl⟩ := h.eq_due_of_todo hs ⟨ht, rfl⟩ hin
    refine ⟨.ran t now c, by simp [Life.step, Life.execute], ?_, h.2.1, h.2.2⟩
    exact ⟨_, rfl, rfl, List.mem_map_of_mem hit, iff_of_false (List.nodup_cons.mp hnodup).1 id⟩
  · refine ⟨l, by simp [Life.step, hid], ?_⟩
    -- another timer at this address would be the same one
    have hother : ∀ {u}, s.Live id u → id.timer ≠ it.timer := by
      rintro u ⟨hu, hseq⟩ hsame
      rw [hsame, ht] at hu
      apply hid
      rw [← hsame, Option.some.inj hu, hseq]
    have hbatch : ∀ {u n p}, s.InBatch id.timer n p → s.Live id u →
        TimerLoop.InBatch { s with batch := some ⟨now, expired, todo⟩, history := hist }
          id.timer n p := by
      rintro u n p ⟨b, hb', rfl, hexp, htodo⟩ hlive
      obtain rfl := Option.some.inj (hb.symm.trans hb')
      refine ⟨_, rfl, rfl, hexp, Iff.trans ?_ htodo⟩
      rw [List.map_cons, List.mem_cons]
      exact ⟨Or.inr, fun h => h.resolve_left (hother hlive)⟩
    cases l with
    | fresh => exact h
    | scheduled u => exact h
    | due u n c => exact ⟨hbatch h.1 h.2.1, h.2⟩
    | ran u n c => exact ⟨hbatch h.1 h.2.1, h.2⟩
    | gone => exact h

theorem Tracks.handleReadEnd (hs : s.Valid) (h : Tracks id s l) {now : Int}
    {expired : List Entry} (hb : s.batch = some ⟨now, expired, []⟩) (hist : List TimerEvent) :
    ∃ l', Life.step id l .ended = some l' ∧
      Tracks id { s with
        queue := ({ s.queue with callingExpiredTimers := false } : TimerQueue).reset s.clock
          expired now
        batch := none
        history := hist } l' := by
  obtain ⟨-, hsched, hheap, hact, hnum, -, hleft⟩ :=
    reset_spec hs.endQueue s.clock (hs.endBatch hb)
  -- a timer outside the batch is left alone by `reset`
  have hout : ∀ {n}, n ∈ s.queue.activeTimers → n.timer ∉ expired.map Entry.timer := by
    intro n hn hmem
    obtain ⟨e, he, hsame⟩ := List.mem_map.mp hmem
    exact (hs.batch _ hb).inactive e he n.sequence (hsame ▸ hn)
  -- a live timer of the batch that is not scheduled afterwards would be left over
  have hrestarted : ∀ {t}, id.timer ∈ expired.map Entry.timer →
      (TimerQueue.reset { s.queue with callingExpiredTimers := false } s.clock expired now).heap
        id.timer = some t → t.sequence = id.sequence →
      ∃ u, s.Live id u ∧ u.repeats = true ∧ id ∉ s.queue.cancelingTimers := by
    intro t hmem ht hseq
    have hput := hleft id.timer hmem t ht
    rw [hseq] at hput
    have hput := (hsched id hmem).symm.trans hput
    rw [restarted] at hput
    split at hput
    · cases hput
    · rename_i u hu
      split at hput
      · rename_i hc
        exact ⟨u, ⟨hu, hc.1⟩, hc.2⟩
      · cases hput
  -- so a timer that is alive afterwards was alive before
  have hbefore : ∀ {t},
      (TimerQueue.reset { s.queue with callingExpiredTimers := false } s.clock expired now).heap
        id.timer = some t → t.sequence = id.sequence → ∃ u, s.Live id u := by
    intro t ht hseq
    by_cases hin : id.timer ∈ expired.map Entry.timer
    · obtain ⟨u, hu, -, -⟩ := hrestarted hin ht hseq
      exact ⟨u, hu⟩
    · exact ⟨t, (hheap _ hin).symm.trans ht, hseq⟩
  cases l with
  | fresh =>
    refine ⟨.fresh, rfl, ?_, ?_⟩
    · intro hmem
      by_cases hin : id.timer ∈ expired.map Entry.timer
      · obtain ⟨t, ht, hseq⟩ := (hs.handleReadEnd hb hist).queue.active_live id hmem
        obtain ⟨u, hu, -, -⟩ := hrestarted hin ht hseq
        obtain ⟨e, he, hsame⟩ := List.mem_map.mp hin
        exact hs.posted_batch _ hb e he (hsame ▸ h.2 u hu)
      · exact h.1 ((hact id hin).mp hmem)
    · rintro t ⟨ht, hseq⟩
      obtain ⟨u, hu⟩ := hbefore ht hseq
      exact h.2 u hu
  | scheduled t =>
    obtain ⟨hid, ht⟩ := sched_eq_some.mp h
    exact ⟨.scheduled t, rfl,
      sched_eq_some.mpr ⟨(hact id (hout hid)).mpr hid, (hheap _ (hout hid)).trans ht⟩⟩
  | due t n c =>
    obtain ⟨⟨b, hb', -, -, htodo⟩, -⟩ := h
    obtain rfl := Option.some.inj (hb.symm.trans hb')
    exact absurd (htodo.mpr trivial) (by simp)
  | ran t n c =>
    obtain ⟨⟨b, hb', rfl, hin, -⟩, hlive, hcan⟩ := h
    obtain rfl := Option.some.inj (hb.symm.trans hb')
    refine ⟨_, rfl, ?_⟩
    by_cases hkeep : t.repeats = true ∧ c = false
    · rw [if_pos hkeep]
      refine (hsched id hin).trans ?_
      have hnot : id ∉ s.queue.cancelingTimers := by
        rw [hcan, hkeep.2]
        exact Bool.false_ne_true
      simp [restarted, hlive.1, hlive.2, hkeep.1, hnot]
    · rw [if_neg hkeep]
      refine ⟨?_, ?_⟩
      · rw [hnum, ← hlive.2]
        exact hs.queue.live_seq _ t hlive.1
      · rintro v ⟨hv, hseq⟩
        obtain ⟨u, hu, hrep, hnot⟩ := hrestarted hin hv hseq
        rw [Option.some.inj (hu.1.symm.trans hlive.1)] at hrep
        rw [hcan] at hnot
        exact hkeep ⟨hrep, by simpa using hnot⟩
  | gone =>
    refine ⟨.gone, rfl, by rw [hnum]; exact h.1, ?_⟩
    rintro t ⟨ht, hseq⟩
    obtain ⟨u, hu⟩ := hbefore ht hseq
    exact h.2 u hu

/-- **Every step of the queue is a step in the life of every timer.** -/
theorem tracks_step {op : TimerOp} (hs : s.Valid) (h : Tracks id s l)
    (hstep : s.step op = some s') :
    (s'.history = s.history ∧ Tracks id s' l) ∨
      ∃ e l', s'.history = s.history ++ [e] ∧ Life.step id l e = some l' ∧ Tracks id s' l' := by
  cases op with
  | advance wall mono =>
    obtain ⟨-, rfl⟩ := step_advance hstep
    exact Or.inl ⟨rfl, by cases l <;> exact h⟩
  | newTimer a when interval =>
    obtain ⟨-, -, hfree, rfl⟩ := step_newTimer hstep
    exact Or.inl ⟨rfl, h.newTimer hs hfree when interval⟩
  | addTimerInLoop a =>
    obtain ⟨ha, t, ht, rfl⟩ := step_addTimerInLoop hstep
    obtain ⟨l', hl', h'⟩ := h.addTimerInLoop hs ha ht _
    exact Or.inr ⟨_, l', rfl, hl', h'⟩
  | cancelInLoop i =>
    obtain rfl := step_cancelInLoop hstep
    obtain ⟨l', hl', h'⟩ := h.cancelInLoop hs i _
    exact Or.inr ⟨_, l', rfl, hl', h'⟩
  | handleRead =>
    obtain ⟨hnone, rfl⟩ := step_handleRead hstep
    obtain ⟨l', hl', h'⟩ := h.handleRead hs hnone _
    exact Or.inr ⟨_, l', rfl, hl', h'⟩
  | runNext =>
    obtain ⟨now, expired, it, todo, t, hb, ht, rfl⟩ := hs.runNext_live hstep
    obtain ⟨l', hl', h'⟩ := h.runNext hs hb ht _
    exact Or.inr ⟨_, l', rfl, hl', h'⟩
  | throws =>
    obtain rfl := step_throws hstep
    exact Or.inl ⟨rfl, by cases l <;> exact h⟩
  | handleReadEnd =>
    obtain ⟨now, expired, hb, rfl⟩ := step_handleReadEnd hstep
    obtain ⟨l', hl', h'⟩ := h.handleReadEnd hs hb _
    exact Or.inr ⟨_, l', rfl, hl', h'⟩

/-- **The life of every timer accepts the events of every run**, and agrees with the
state the run ends in. -/
theorem run_life {clock : Clock} {ops : List TimerOp}
    (h : Machine.run step (initial clock) ops = some s) (id : TimerId) :
    ∃ l, Machine.run (Life.step id) .fresh s.history = some l ∧ Tracks id s l := by
  obtain ⟨l, hl, -, hR⟩ := Machine.run_monitor (R := fun s l => s.Valid ∧ Tracks id s l)
    (fun s op s' l hl hstep => by
      have hs' := step_valid hl.1 hstep
      rcases tracks_step hl.1 hl.2 hstep with ⟨hlog, h'⟩ | ⟨e, l', hlog, he, h'⟩
      · exact Or.inl ⟨hlog, hs', h'⟩
      · exact Or.inr ⟨e, l', hlog, he, hs', h'⟩)
    h ⟨.fresh, rfl, initial_valid clock, initial_tracks clock id⟩
  exact ⟨l, hl, hR⟩

/-! ## The order inside a batch -/

/-- The state of the queue agrees with the reader of its executions. -/
def Reads (s : TimerLoop) : Reading → Prop
  | .outside => s.batch = none
  | .inside now last => ∃ b, s.batch = some b ∧ b.now = now ∧
      ∀ x ∈ last, ∀ e ∈ b.todo, x ≤ e.when

theorem Reads.runNext (hs : s.Valid) {r : Reading} (h : s.Reads r) {now : Int}
    {expired todo : List Entry} {it : Entry} (hb : s.batch = some ⟨now, expired, it :: todo⟩)
    {t : Timer} (ht : s.queue.heap it.timer = some t) (hist : List TimerEvent) :
    ∃ r', r.step (.executed ⟨it.timer, t.sequence⟩ now t.expiration) = some r' ∧
      Reads { s with batch := some ⟨now, expired, todo⟩, history := hist } r' := by
  obtain ⟨u, hu, hwhen⟩ := hs.todo_live hb
  obtain rfl := Option.some.inj (ht.symm.trans hu)
  have hsorted : (it :: todo).Pairwise (fun e f => e.when ≤ f.when) :=
    (hs.batch _ hb).sorted.sublist (hs.todo _ hb).sublist
  cases r with
  | outside => cases hb.symm.trans h
  | inside n last =>
    obtain ⟨b, hb', rfl, hlast⟩ := h
    obtain rfl := Option.some.inj (hb.symm.trans hb')
    have hle : ∀ x ∈ last, x ≤ t.expiration := by
      intro x hx
      rw [hwhen]
      exact hlast x hx it List.mem_cons_self
    refine ⟨.inside now (some t.expiration), if_pos ⟨rfl, hle⟩, _, rfl, rfl, ?_⟩
    rintro x hx e he
    obtain rfl := Option.mem_some_iff.mp hx
    rw [hwhen]
    exact (List.pairwise_cons.mp hsorted).1 e he

theorem reads_step {op : TimerOp} {r : Reading} (hs : s.Valid) (h : s.Reads r)
    (hstep : s.step op = some s') :
    (s'.history = s.history ∧ s'.Reads r) ∨
      ∃ e r', s'.history = s.history ++ [e] ∧ r.step e = some r' ∧ s'.Reads r' := by
  cases op with
  | advance wall mono =>
    obtain ⟨-, rfl⟩ := step_advance hstep
    exact Or.inl ⟨rfl, by cases r <;> exact h⟩
  | newTimer a when interval =>
    obtain ⟨-, -, -, rfl⟩ := step_newTimer hstep
    exact Or.inl ⟨rfl, by cases r <;> exact h⟩
  | addTimerInLoop a =>
    obtain ⟨-, t, -, rfl⟩ := step_addTimerInLoop hstep
    exact Or.inr ⟨_, r, rfl, by cases r <;> rfl, by cases r <;> exact h⟩
  | cancelInLoop i =>
    obtain rfl := step_cancelInLoop hstep
    exact Or.inr ⟨_, r, rfl, by cases r <;> rfl, by cases r <;> exact h⟩
  | handleRead =>
    obtain ⟨hnone, rfl⟩ := step_handleRead hstep
    cases r with
    | outside => exact Or.inr ⟨_, _, rfl, rfl, _, rfl, rfl, nofun⟩
    | inside now last =>
      obtain ⟨b, hb, -⟩ := h
      cases hnone.symm.trans hb
  | runNext =>
    obtain ⟨now, expired, it, todo, t, hb, ht, rfl⟩ := hs.runNext_live hstep
    obtain ⟨r', hr', h'⟩ := h.runNext hs hb ht _
    exact Or.inr ⟨_, r', rfl, hr', h'⟩
  | throws =>
    obtain rfl := step_throws hstep
    exact Or.inl ⟨rfl, by cases r <;> exact h⟩
  | handleReadEnd =>
    obtain ⟨now, expired, hb, rfl⟩ := step_handleReadEnd hstep
    cases r with
    | outside => cases hb.symm.trans h
    | inside n last => exact Or.inr ⟨_, .outside, rfl, rfl, rfl⟩

theorem run_reading {clock : Clock} {ops : List TimerOp}
    (h : Machine.run step (initial clock) ops = some s) :
    ∃ r, Machine.run Reading.step .outside s.history = some r := by
  obtain ⟨r, hr, -⟩ := Machine.run_monitor (R := fun s r => s.Valid ∧ s.Reads r)
    (fun s op s' r hr hstep => by
      have hs' := step_valid hr.1 hstep
      rcases reads_step hr.1 hr.2 hstep with ⟨hlog, h'⟩ | ⟨e, r', hlog, he, h'⟩
      · exact Or.inl ⟨hlog, hs', h'⟩
      · exact Or.inr ⟨e, r', hlog, he, hs', h'⟩)
    h ⟨.outside, rfl, initial_valid clock, rfl⟩
  exact ⟨r, hr⟩

/-- A timer whose life is periodic is scheduled, or in the running batch and due to be
put back by `reset`. -/
theorem Tracks.periodic (h : Tracks id s l) (hl : l.Periodic) :
    (∃ t, s.queue.sched id = some t) ∨
      ∃ b t, s.batch = some b ∧ id.timer ∈ b.expired.map Entry.timer ∧ s.Live id t ∧
        t.repeats = true ∧ id ∉ s.queue.cancelingTimers := by
  have hbatch : ∀ {t now p c}, s.InBatch id.timer now p → s.Live id t →
      (id ∈ s.queue.cancelingTimers ↔ c = true) → t.repeats = true ∧ c = false →
      ∃ b t, s.batch = some b ∧ id.timer ∈ b.expired.map Entry.timer ∧ s.Live id t ∧
        t.repeats = true ∧ id ∉ s.queue.cancelingTimers := by
    rintro t now p c ⟨b, hb, -, hin, -⟩ hlive hcan ⟨hrep, rfl⟩
    exact ⟨b, t, hb, hin, hlive, hrep, fun hmem => Bool.false_ne_true (hcan.mp hmem)⟩
  cases l with
  | scheduled t => exact Or.inl ⟨t, h⟩
  | due t now c => exact Or.inr (hbatch h.1 h.2.1 h.2.2 hl)
  | ran t now c => exact Or.inr (hbatch h.1 h.2.1 h.2.2 hl)
  | fresh => exact hl.elim
  | gone => exact hl.elim

/-- **Every timer fires exactly when it should**, over whole runs with callbacks that add
and cancel timers and throw.  The five parts are about the events of the run:

* a callback is executed inside a `handleRead` whose time has reached the timer's
  expiration;
* a one-shot timer is executed once at most, and by the first `handleRead` that begins at
  or after its expiration, unless it was cancelled before;
* two successive executions of a periodic timer are at least its interval apart, and it
  stays scheduled (or in the running batch, to be put back) until it is cancelled;
* a timer that has been added and then cancelled is not executed by a `handleRead` that
  begins later;
* inside one `handleRead` timers are executed in order of expiration. -/
theorem timer_firing_exact {clock : Clock} {ops : List TimerOp}
    (h : Machine.run step (initial clock) ops = some s) (id : TimerId) :
    (∀ pre post now expiration, s.history = pre ++ .executed id now expiration :: post →
      expiration ≤ now ∧ ∃ before since, pre = before ++ .begun now :: since ∧
        TimerEvent.ended ∉ since ∧ ∀ n, TimerEvent.begun n ∉ since) ∧
    (∀ pre post when interval, s.history = pre ++ .added id when interval :: post →
      interval.positive = false →
      s.history.countP (·.executes id) ≤ 1 ∧
      ∀ wait now batch rest, post = wait ++ .begun now :: (batch ++ .ended :: rest) →
        TimerEvent.ended ∉ batch → 0 < now → when ≤ now →
        (∀ n, TimerEvent.begun n ∈ wait → n < when) → TimerEvent.cancelled id ∉ wait →
        TimerEvent.executed id now when ∈ batch) ∧
    (∀ pre post when interval, s.history = pre ++ .added id when interval :: post →
      interval.positive = true →
      (∀ mid now₁ e₁ between now₂ e₂ rest,
        post = mid ++ .executed id now₁ e₁ :: (between ++ .executed id now₂ e₂ :: rest) →
        (∀ e ∈ between, e.executes id = false) → now₁ + interval.micros ≤ now₂) ∧
      (TimerEvent.cancelled id ∉ post → (∃ t, s.queue.sched id = some t) ∨
        ∃ b t, s.batch = some b ∧ id.timer ∈ b.expired.map Entry.timer ∧ s.Live id t ∧
          t.repeats = true ∧ id ∉ s.queue.cancelingTimers)) ∧
    (∀ pre when interval mid wait now post,
      s.history = pre ++ .added id when interval ::
        (mid ++ .cancelled id :: (wait ++ .begun now :: post)) →
      post.countP (·.executes id) = 0) ∧
    ∀ pre now batch post, s.history = pre ++ .begun now :: (batch ++ post) →
      TimerEvent.ended ∉ batch →
      (batch.filterMap TimerEvent.expiration?).Pairwise (· ≤ ·) := by
  obtain ⟨l, hlife, htracks⟩ := run_life h id
  obtain ⟨r, hread⟩ := run_reading h
  refine ⟨?_, ?_, ?_, ?_, ?_⟩
  · intro pre post now expiration hist
    rw [hist] at hlife hread
    obtain ⟨r₁, r₂, hpre, hexec, -⟩ := Machine.run_split_eq_some.mp hread
    obtain ⟨last, rfl, -, -⟩ := Reading.step_executed hexec
    exact ⟨Life.executed_due hlife, Reading.exists_begun hpre⟩
  · intro pre post when interval hist hone
    rw [hist] at hlife ⊢
    refine ⟨Life.oneShot_executed_once hone hlife, ?_⟩
    rintro wait now batch rest rfl hended hpos hdue hearly hcancel
    exact Life.executed_first hcancel hearly hpos hdue hended hlife
  · intro pre post when interval hist hrep
    rw [hist] at hlife
    refine ⟨?_, fun hcancel => htracks.periodic (Life.run_periodic hrep hcancel hlife)⟩
    rintro mid now₁ e₁ between now₂ e₂ rest rfl hnone
    exact Life.executed_apart hnone hlife
  · intro pre when interval mid wait now post hist
    rw [hist] at hlife
    exact Life.not_executed_after_cancel hlife
  · intro pre now batch post hist hended
    rw [hist] at hread
    obtain ⟨r₁, r₂, -, hbegin, hrest⟩ := Machine.run_split_eq_some.mp hread
    obtain ⟨r₃, hbatch, -⟩ := Machine.run_append_eq_some.mp hrest
    cases r₁ with
    | outside => cases hbegin; exact (Reading.executed_sorted hended hbatch).1
    | inside => cases hbegin

/-- A periodic timer that is executed in two successive batches. -/
def periodicTwice : List TimerOp :=
  [.newTimer 1 5 (.ofMicros 3), .addTimerInLoop 1, .handleRead, .runNext, .handleReadEnd,
    .advance 4 4, .handleRead, .runNext, .throws, .handleReadEnd]

theorem timer_firing_exact_periodicTwice :
    ∃ s, Machine.run step (initial ⟨10, 0⟩) periodicTwice = some s ∧
      s.history = [.added ⟨1, 0⟩ 5 (.ofMicros 3), .begun 10, .executed ⟨1, 0⟩ 10 5, .ended,
        .begun 14, .executed ⟨1, 0⟩ 14 13, .ended] ∧
      (10 : Int) + 3 ≤ 14 ∧ (13 : Int) ≤ 14 := by
  obtain ⟨s, hs⟩ : ∃ s, Machine.run step (initial ⟨10, 0⟩) periodicTwice = some s := ⟨_, rfl⟩
  have h := timer_firing_exact hs ⟨1, 0⟩
  obtain rfl := Option.some.inj hs
  refine ⟨_, rfl, rfl, ?_, ?_⟩
  · exact (h.2.2.1 [] _ 5 (.ofMicros 3) rfl rfl).1 [.begun 10] 10 5 [.ended, .begun 14] 14 13
      [.ended] rfl (by decide)
  · exact (h.1 [.added ⟨1, 0⟩ 5 (.ofMicros 3), .begun 10, .executed ⟨1, 0⟩ 10 5, .ended,
      .begun 14] [.ended] 14 13 rfl).1

/-! ## Cancelling inside a batch -/

/-- The timer `id` is in the batch that `handleRead` is working on, and its callback has not
started. -/
def AwaitsCallback (s : TimerLoop) (id : TimerId) : Prop :=
  ∃ b t, s.batch = some b ∧ id.timer ∈ b.todo.map Entry.timer ∧ s.Live id t

/-- **A cancel inside a batch takes effect at the end of the batch.**  When the callback of
one timer (or whoever runs inside the batch) cancels a timer of the same batch whose
callback has not started, `cancelInLoop` notes it in `cancelingTimers_`, which only
`reset` reads: the timer is executed once more, in this very batch, and by no
`handleRead` after it. -/
theorem cancelled_in_batch_executed_once {clock : Clock} {ops ops' : List TimerOp}
    {id : TimerId} {rest post : List TimerEvent} {u : TimerLoop}
    (hrun : Machine.run step (initial clock) ops = some s) (hawaits : s.AwaitsCallback id)
    (hlater : Machine.run step s (.cancelInLoop id :: ops') = some u)
    (hist : u.history = s.history ++ .cancelled id :: (rest ++ .ended :: post))
    (hended : TimerEvent.ended ∉ rest) :
    rest.countP (·.executes id) = 1 ∧ post.countP (·.executes id) = 0 := by
  obtain ⟨l, hl, htracks⟩ := run_life hrun id
  obtain ⟨m, hm, -⟩ := run_life (Machine.run_append_eq_some.mpr ⟨s, hrun, hlater⟩) id
  rw [hist, Machine.run_append_eq_some] at hm
  obtain ⟨l', hl', hrest⟩ := hm
  obtain rfl := Option.some.inj (hl.symm.trans hl')
  have hs := run_valid hrun
  obtain ⟨b, t, hb, htodo, hlive⟩ := hawaits
  have hin : s.InBatch id.timer b.now True :=
    ⟨b, hb, rfl, (hs.todo b hb).sublist.map _ |>.subset htodo, iff_of_true htodo trivial⟩
  obtain ⟨c, rfl⟩ := htracks.eq_due_of_todo hs hlive hin
  exact Life.executed_once_after_cancel hended hrest

/-- Two timers that expire together, the first one's callback in progress. -/
def firstOfTwo : List TimerOp :=
  [.newTimer 1 5 .zero, .addTimerInLoop 1, .newTimer 2 6 (.ofMicros 3), .addTimerInLoop 2,
    .handleRead, .runNext]

/-- The callback of the first timer cancels the second, and the second is executed in the
same batch. -/
theorem cancelled_then_executed :
    ∃ s, Machine.run step (initial ⟨10, 0⟩) (firstOfTwo ++ [.cancelInLoop ⟨2, 1⟩, .runNext]) =
        some s ∧
      s.history = [.added ⟨1, 0⟩ 5 .zero, .added ⟨2, 1⟩ 6 (.ofMicros 3), .begun 10,
        .executed ⟨1, 0⟩ 10 5, .cancelled ⟨2, 1⟩, .executed ⟨2, 1⟩ 10 6] :=
  ⟨_, rfl, rfl⟩

/-- The batch goes on, and is followed by another. -/
def restOfTwo : List TimerOp :=
  [.runNext, .handleReadEnd, .advance 10 10, .handleRead, .handleReadEnd]

theorem cancelled_in_batch_executed_once_firstOfTwo :
    ∃ s u, Machine.run step (initial ⟨10, 0⟩) firstOfTwo = some s ∧ s.AwaitsCallback ⟨2, 1⟩ ∧
      Machine.run step s (.cancelInLoop ⟨2, 1⟩ :: restOfTwo) = some u ∧
      u.history = s.history ++ .cancelled ⟨2, 1⟩ ::
        ([.executed ⟨2, 1⟩ 10 6] ++ .ended :: [.begun 20, .ended]) ∧
      ([.executed ⟨2, 1⟩ 10 6] : List TimerEvent).countP (·.executes ⟨2, 1⟩) = 1 ∧
      ([.begun 20, .ended] : List TimerEvent).countP (·.executes ⟨2, 1⟩) = 0 := by
  obtain ⟨s, hs⟩ : ∃ s, Machine.run step (initial ⟨10, 0⟩) firstOfTwo = some s := ⟨_, rfl⟩
  have hawaits : s.AwaitsCallback ⟨2, 1⟩ := by
    obtain rfl := Option.some.inj hs
    exact ⟨_, _, rfl, List.mem_cons_self, rfl, rfl⟩
  obtain ⟨u, hu, hist⟩ : ∃ u, Machine.run step s (.cancelInLoop ⟨2, 1⟩ :: restOfTwo) = some u ∧
      u.history = s.history ++ .cancelled ⟨2, 1⟩ ::
        ([.executed ⟨2, 1⟩ 10 6] ++ .ended :: [.begun 20, .ended]) := by
    obtain rfl := Option.some.inj hs
    exact ⟨_, rfl, rfl⟩
  exact ⟨s, u, hs, hawaits, hu, hist,
    cancelled_in_batch_executed_once hs hawaits hu hist (by simp)⟩

end TimerLoop
end ReMuduo
