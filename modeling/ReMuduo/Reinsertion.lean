import ReMuduo.TimerRuns

/-! # What `reset` reports of the timers it puts back

`TimerQueue::insert` (`src/base/TimerQueue.cpp`) returns whether the timer is now the earliest
one; `addTimerInLoop` arms the timerfd if it is.  `reset` reads the same result as success: for
`false` it reports `failed to reinsert repeating timer`.

In every run, the timer is in `timers_` after the call.  So the report says what the run did
exactly where it is not made: where the new expiration is earlier than all others. -/
namespace ReMuduo
namespace TimerQueue

variable {q : TimerQueue} {it : Entry} {t : Timer} {now : Int} {r : TimerQueue × Bool}

/-- The call of `insert` that the loop of `reset` makes for an entry, with its result: for a
periodic timer that has not been cancelled. -/
def reinsertion (q : TimerQueue) (now : Int) (it : Entry) : Option (TimerQueue × Bool) :=
  if it.timer = nullptr then none
  else match q.heap it.timer with
  | none => none
  | some t =>
    if t.repeats = true ∧ (⟨it.timer, t.sequence⟩ : TimerId) ∉ q.cancelingTimers then
      some ((q.setHeap it.timer (some (t.restart now))).insert it.timer)
    else none

/-- The timer at an address is in `timers_`. -/
def Filed (q : TimerQueue) (a : Addr) : Prop := ∃ when, (⟨when, a⟩ : Entry) ∈ q.timers

/-- After the call of `insert`, the loop of `reset` reports that it failed. -/
def ReportsFailure (q : TimerQueue) (now : Int) (it : Entry) (r : TimerQueue × Bool) : Prop :=
  (resetOne now q it).reports = r.1.reports ++ [.reinsert]

theorem resetOne_of_reinsertion (h : q.reinsertion now it = some r) :
    resetOne now q it = r.1.check r.2 .reinsert := by
  by_cases hnull : it.timer = nullptr
  · rw [reinsertion, if_pos hnull] at h
    cases h
  · rw [reinsertion, if_neg hnull] at h
    rw [resetOne, if_neg hnull]
    cases ht : q.heap it.timer with
    | none =>
      rw [ht] at h
      cases h
    | some t =>
      rw [ht] at h
      simp only [isNone_find_canceling, OrderedSet.iterSet_toSet] at h ⊢
      by_cases hkeep : t.repeats = true ∧ (⟨it.timer, t.sequence⟩ : TimerId) ∉ q.cancelingTimers
      · rw [if_pos hkeep] at h ⊢
        rw [Option.some.inj h]
      · rw [if_neg hkeep] at h
        cases h

theorem reportsFailure_iff (h : q.reinsertion now it = some r) :
    q.ReportsFailure now it r ↔ r.2 = false := by
  rw [ReportsFailure, resetOne_of_reinsertion h]
  cases r.2 with
  | false => exact iff_of_true rfl rfl
  | true =>
    refine iff_of_false ?_ (by decide)
    intro hreports
    have hlength := congrArg List.length hreports
    rw [check_true, List.length_append, List.length_singleton] at hlength
    omega

/-- The timer is put back, and is the earliest if the result says so. -/
theorem reinsertion_spec (hq : q.Valid) (ht : q.heap it.timer = some t)
    (ha : q.Inactive it.timer) (h : q.reinsertion now it = some r) :
    t.repeats = true ∧ r.1.Filed it.timer ∧
      (r.2 = true ↔ ∀ e ∈ q.timers, (t.restart now).expiration < e.when) := by
  have hnull := (hq.live_addr _ t ht).1
  have hinsert := insert_eq (hq.toBijective.setHeap ha (some (t.restart now))) hnull
    (setHeap_self it.timer (some (t.restart now))) ha
  rw [reinsertion, if_neg hnull, ht] at h
  dsimp only at h
  split at h
  next hkeep =>
    rw [hinsert] at h
    obtain rfl := Option.some.inj h
    refine ⟨hkeep.1, ⟨(t.restart now).expiration, ?_⟩, isEarliest_iff⟩
    exact OrderedSet.mem_insert.mpr (.inl rfl)
  next => cases h

end TimerQueue

namespace TimerLoop
open TimerQueue

variable {s : TimerLoop} {now : Int} {it : Entry}

/-- The queue when the loop of `reset` has handled the entries `done` of the batch. -/
def resetting (s : TimerLoop) (now : Int) (done : List Entry) : TimerQueue :=
  done.foldl (resetOne now) { s.queue with callingExpiredTimers := false }

/-- The loop of `reset` finds the next timer of the batch alive and in neither set. -/
theorem Valid.resetting (hs : s.Valid) {done rest : List Entry}
    (hb : s.batch = some ⟨now, done ++ it :: rest, []⟩) :
    (s.resetting now done).Valid ∧ (s.resetting now done).Inactive it.timer ∧ 0 < now := by
  have hbatch := hs.endBatch hb
  have hit : it ∈ done ++ it :: rest := List.mem_append_right _ List.mem_cons_self
  have hnot : it.timer ∉ done.map Entry.timer := by
    have hnodup : ((done ++ it :: rest).map Entry.timer).Nodup := hbatch.nodup
    rw [List.map_append, List.map_cons] at hnodup
    intro h
    exact (List.nodup_append.mp hnodup).2.2 _ h _ List.mem_cons_self rfl
  obtain ⟨hvalid, hoff, -, -⟩ :=
    foldl_resetOne now done _ hs.endQueue hbatch.detached.append_left
  exact ⟨hvalid, hoff.inactive hnot (hbatch.inactive it hit),
    hbatch.now_pos (List.ne_nil_of_mem hit)⟩

/-- **When the report of `reset` is true.**  In every run, a timer of the batch that the loop
of `reset` puts back is in `timers_` after the call of `insert`.  That a failure is reported if
and only if the timer is not there is therefore true just for the timers that no failure is
reported of: those whose new expiration is earlier than all in `timers_`. -/
theorem reinsert_report_truthful_iff {clock : Clock} {ops : List TimerOp} {s : TimerLoop}
    (hrun : Machine.run step (initial clock) ops = some s) {now : Int} {done rest : List Entry}
    {it : Entry} (hb : s.batch = some ⟨now, done ++ it :: rest, []⟩) {t : Timer}
    (ht : (s.resetting now done).heap it.timer = some t) {r : TimerQueue × Bool}
    (hr : (s.resetting now done).reinsertion now it = some r) :
    r.1.Filed it.timer ∧
      (((s.resetting now done).ReportsFailure now it r ↔ ¬ r.1.Filed it.timer) ↔
        ∀ e ∈ (s.resetting now done).timers, now + t.interval.micros < e.when) := by
  obtain ⟨hvalid, hinactive, hnow⟩ := (run_valid hrun).resetting hb
  obtain ⟨hrepeats, hfiled, hearliest⟩ := reinsertion_spec hvalid ht hinactive hr
  rw [Timer.restart_expiration hrepeats hnow] at hearliest
  refine ⟨hfiled, ?_⟩
  rw [reportsFailure_iff hr, ← hearliest]
  constructor
  · intro htruth
    cases hresult : r.2 with
    | true => rfl
    | false => exact absurd hfiled (htruth.mp hresult)
  · intro hresult
    rw [hresult]
    exact iff_of_false (by decide) (not_not_intro hfiled)

/-- A periodic timer expires, with no other timer in the queue. -/
def aloneExpires : List TimerOp :=
  [.newTimer 1 5 (.ofMicros 3), .addTimerInLoop 1, .handleRead, .runNext]

theorem aloneExpires_truthful :
    ∃ s r, Machine.run step (initial ⟨10, 0⟩) aloneExpires = some s ∧
      (s.resetting 10 []).reinsertion 10 ⟨5, 1⟩ = some r ∧
      ((s.resetting 10 []).ReportsFailure 10 ⟨5, 1⟩ r ↔ ¬ r.1.Filed 1) := by
  obtain ⟨s, r, hrun, hb, ht, hr, htimers⟩ : ∃ s r,
      Machine.run step (initial ⟨10, 0⟩) aloneExpires = some s ∧
      s.batch = some ⟨10, [] ++ ⟨5, 1⟩ :: [], []⟩ ∧
      (s.resetting 10 []).heap 1 = some ⟨5, .ofMicros 3, 0⟩ ∧
      (s.resetting 10 []).reinsertion 10 ⟨5, 1⟩ = some r ∧
      (s.resetting 10 []).timers.elems = [] := ⟨_, _, rfl, rfl, rfl, rfl, rfl⟩
  refine ⟨s, r, hrun, hr, (reinsert_report_truthful_iff hrun hb ht hr).2.mpr ?_⟩
  intro e he
  rw [OrderedSet.mem_def, htimers] at he
  cases he

/-- A second timer is due before the periodic one is again: that one is put back in `timers_`,
and the failure is reported. -/
theorem reinsert_reported_though_filed :
    ∃ s r, Machine.run step (initial ⟨10, 0⟩) [.newTimer 1 5 (.ofMicros 3), .addTimerInLoop 1,
        .newTimer 2 12 .zero, .addTimerInLoop 2, .handleRead, .runNext] = some s ∧
      s.batch = some ⟨10, [⟨5, 1⟩], []⟩ ∧
      (s.resetting 10 []).reinsertion 10 ⟨5, 1⟩ = some r ∧
      (s.resetting 10 []).ReportsFailure 10 ⟨5, 1⟩ r ∧ r.1.Filed 1 :=
  ⟨_, _, rfl, rfl, rfl, rfl, 13, by decide⟩

end TimerLoop
end ReMuduo
