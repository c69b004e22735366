import ReMuduo.TimerRuns

/-! # The timerfd is armed whenever a timer is pending

The queue arms its timerfd in two places only: `addTimerInLoop`, when the new timer is
earlier than all others, and `reset`, for the first timer that is left.  Cancelling the
first timer leaves an early deadline behind, and inside `handleRead` nothing is armed
for the timers that stay.  `Armed` is the invariant that survives all this: outside
`handleRead` the timerfd is due at the first expiration, or 100 microseconds after the
last `timerfd_settime`, and no later.

Deadlines are on the monotonic clock and expirations on the wall clock; as long as both
advance equally their difference is a constant of the run.  An operation of the queue
happens at one instant: no time passes between the reading of the clock in
`howMuchTimeFromNow` and the `timerfd_settime` it is for. -/
namespace ReMuduo

namespace TimerQueue

variable {q q' : TimerQueue}

/-- The timerfd is armed or has an unread expiration, and its deadline, `offset` later
on the wall clock, is at most `when` or 100 microseconds after the last
`timerfd_settime`. -/
def ArmedFor (q : TimerQueue) (offset when : Int) : Prop :=
  ∃ deadline last, q.timerfd.Pending deadline ∧ q.settimes.getLast? = some last ∧
    deadline + offset ≤ max when (last.1.wall + 100)

theorem ArmedFor.mono {offset when when' : Int} (h : q.ArmedFor offset when)
    (hle : when ≤ when') : q.ArmedFor offset when' := by
  obtain ⟨d, last, hd, hlast, hbound⟩ := h
  exact ⟨d, last, hd, hlast, by omega⟩

theorem resetTimerfd_armedFor (q : TimerQueue) (clock : Clock) (when : Int) :
    (q.resetTimerfd clock when).ArmedFor (clock.wall - clock.mono) when := by
  refine ⟨clock.mono + max (when - clock.wall) 100, _,
    Or.inl (Timerfd.settime_howMuchTimeFromNow q.timerfd clock when), List.getLast?_concat, ?_⟩
  show clock.mono + max (when - clock.wall) 100 + (clock.wall - clock.mono) ≤
    max when (clock.wall + 100)
  omega

/-- The first entry can only move back in time when entries leave `timers_`. -/
theorem ArmedFor.of_subset {offset : Int}
    (h : ∀ e, q.timers.first? = some e → q.ArmedFor offset e.when)
    (hsub : ∀ e ∈ q'.timers, e ∈ q.timers) (hfd : q'.timerfd = q.timerfd)
    (hset : q'.settimes = q.settimes) {e : Entry} (he : q'.timers.first? = some e) :
    q'.ArmedFor offset e.when := by
  have hmem := hsub e (OrderedSet.first?_mem he)
  cases hfirst : q.timers.first? with
  | none => exact absurd hmem (OrderedSet.first?_eq_none.mp hfirst e)
  | some f =>
    have hle := Entry.when_le (OrderedSet.first?_le hfirst hmem)
    obtain ⟨d, last, hd, hlast, hbound⟩ := (h f hfirst).mono hle
    exact ⟨d, last, hfd ▸ hd, hset ▸ hlast, hbound⟩

/-! ## `addTimerInLoop` and `cancelInLoop` -/

theorem addTimerInLoop_armedFor (hq : q.Valid) (clock : Clock) {a : Addr} {t : Timer}
    (ht : q.heap a = some t) (ha : q.Inactive a)
    (h : ∀ e, q.timers.first? = some e → q.ArmedFor (clock.wall - clock.mono) e.when)
    {e : Entry} (he : (q.addTimerInLoop clock a).timers.first? = some e) :
    (q.addTimerInLoop clock a).ArmedFor (clock.wall - clock.mono) e.when := by
  have htimers : (q.addTimerInLoop clock a).timers = (q.file a t).timers := by
    rw [addTimerInLoop_eq hq clock ht ha]
    split <;> rfl
  have hmem : e = ⟨t.expiration, a⟩ ∨ e ∈ q.timers := by
    have := OrderedSet.first?_mem he
    rw [htimers] at this
    exact OrderedSet.mem_insert.mp this
  rw [addTimerInLoop_eq hq clock ht ha]
  split
  · -- the new timer is earlier than all others
    rename_i hearliest
    refine (resetTimerfd_armedFor _ clock t.expiration).mono ?_
    rcases hmem with rfl | hold
    · exact le_rfl
    · exact le_of_lt (isEarliest_iff.mp hearliest e hold)
  · rename_i hearliest
    unfold isEarliest at hearliest
    split at hearliest
    · exact absurd rfl hearliest
    · rename_i f hfirst
      have hle : f.when ≤ e.when := by
        rcases hmem with rfl | hold
        · exact not_lt.mp (fun hlt => hearliest (decide_eq_true hlt))
        · exact Entry.when_le (OrderedSet.first?_le hfirst hold)
      exact (h f hfirst).mono hle

theorem cancelInLoop_timers (hq : q.Valid) (id : TimerId) :
    (∀ e ∈ (q.cancelInLoop id).timers, e ∈ q.timers) ∧
      (q.cancelInLoop id).timerfd = q.timerfd ∧ (q.cancelInLoop id).settimes = q.settimes := by
  cases h : q.sched id with
  | some t =>
    rw [cancelInLoop_eq hq.toBijective (hq.ne_nullptr_of_sched h) h]
    exact ⟨fun e he => (OrderedSet.mem_erase.mp he).2, rfl, rfl⟩
  | none =>
    rw [cancelInLoop_eq_of_none hq h]
    split
    · exact ⟨fun _ he => he, rfl, rfl⟩
    · split <;> exact ⟨fun _ he => he, rfl, rfl⟩

/-! ## `reset` -/

/-- No live timer expires before the epoch. -/
def ExpirationsPositive (q : TimerQueue) : Prop := ∀ a t, q.heap a = some t → 0 < t.expiration

theorem foldl_resetOne_positive (hq : q.Valid) {expired : List Entry} {now : Int}
    (hb : BatchValid q expired now) (hpos : q.ExpirationsPositive) :
    (expired.foldl (resetOne now) q).ExpirationsPositive := by
  obtain ⟨-, hoff, hsched, hlive⟩ := foldl_resetOne now expired q hq hb.detached
  intro a u hu
  by_cases ha : a ∈ expired.map Entry.timer
  · have hnow : 0 < now := hb.now_pos (by rintro rfl; simp at ha)
    have hput := hlive a ha u hu
    rw [hsched ⟨a, u.sequence⟩ ha, restarted] at hput
    split at hput
    · cases hput
    · rename_i t ht
      split at hput
      · rename_i hc
        rw [← Option.some.inj hput, Timer.restart_expiration hc.2.1 hnow]
        have := t.interval.micros_nonneg hc.2.1
        omega
      · cases hput
  · rw [hoff.heap a ha] at hu
    exact hpos a u hu

theorem firstExpiration_eq {timers : OrderedSet Entry} {e : Entry}
    (he : timers.first? = some e) : firstExpiration timers = e.when := by
  simp [firstExpiration, he]

theorem reset_armedFor (hq : q.Valid) (clock : Clock) {expired : List Entry} {now : Int}
    (hb : BatchValid q expired now) (hpos : q.ExpirationsPositive) (hnow : 0 < now) :
    (q.reset clock expired now).ExpirationsPositive ∧
      ∀ e, (q.reset clock expired now).timers.first? = some e →
        (q.reset clock expired now).ArmedFor (clock.wall - clock.mono) e.when := by
  have hpos' := foldl_resetOne_positive hq hb hpos
  have hvalid := (foldl_resetOne now expired q hq hb.detached).1
  rw [reset_eq clock hnow hvalid]
  split
  · refine ⟨hpos', fun e he => ?_⟩
    have hfirst : firstExpiration (expired.foldl (resetOne now) q).timers = e.when :=
      firstExpiration_eq he
    rw [hfirst]
    exact resetTimerfd_armedFor _ clock e.when
  · rename_i hinvalid
    refine ⟨hpos', fun e he => ?_⟩
    -- the first timer has a positive expiration, so the test cannot have failed
    obtain ⟨t, ht, -, hw⟩ := (hvalid.entry_iff e.when e.timer).mp (OrderedSet.first?_mem he)
    rw [firstExpiration_eq he, hw] at hinvalid
    exact absurd (decide_eq_true (hpos' _ t ht)) hinvalid

/-- Every `timerfd_settime` so far got a normalised value that is not zero. -/
def SettimesNormalised (q : TimerQueue) : Prop :=
  ∀ x ∈ q.settimes, x.2.Normalised ∧ x.2 ≠ ⟨0, 0⟩

theorem SettimesNormalised.resetTimerfd (h : q.SettimesNormalised) (clock : Clock) (when : Int) :
    (q.resetTimerfd clock when).SettimesNormalised := by
  intro x hx
  rcases List.mem_append.mp hx with hx | hx
  · exact h x hx
  · rw [List.mem_singleton.mp hx]
    exact (howMuchTimeFromNow_spec clock.wall when).2

theorem getExpired_settimes (hq : q.Valid) (now : Int) :
    (q.getExpired now).1.settimes = q.settimes := by
  by_cases hnow : 0 < now
  · obtain ⟨A, heq, -, -⟩ := getExpired_eq hq hnow
    rw [heq]
  · rw [getExpired_invalid hnow]
    rfl

theorem SettimesNormalised.reset (hq : q.Valid) (h : q.SettimesNormalised) (clock : Clock)
    {expired : List Entry} {now : Int} (hb : BatchValid q expired now) :
    (q.reset clock expired now).SettimesNormalised := by
  obtain ⟨hvalid, hoff, -⟩ := foldl_resetOne now expired q hq hb.detached
  have h' : (expired.foldl (resetOne now) q).SettimesNormalised := by
    rw [SettimesNormalised, hoff.settimes]
    exact h
  simp only [TimerQueue.reset, nextExpire_eq hvalid]
  split
  · exact h
  · split
    · exact h'.resetTimerfd _ _
    · exact h'

end TimerQueue

/-- What is asked of the steps: both clocks advance by the same amount, and timers are
created with a positive expiration, as `EventLoop::runAt` checks. -/
def TimerOp.Admissible : TimerOp → Prop
  | .advance wall mono => wall = mono
  | .newTimer _ when _ => 0 < when
  | _ => True

namespace TimerLoop
open TimerQueue

variable {s s' : TimerLoop}

/-- The invariant of the runs with positive expirations in which the two clocks advance
equally. -/
structure Armed (s : TimerLoop) : Prop where
  wall_pos : 0 < s.clock.wall
  now_pos : ∀ b, s.batch = some b → 0 < b.now
  expirations : s.queue.ExpirationsPositive
  normalised : s.queue.SettimesNormalised
  deadline : s.batch = none → ∀ e, s.queue.timers.first? = some e →
    s.queue.ArmedFor (s.clock.wall - s.clock.mono) e.when

theorem initial_armed {clock : Clock} (h : 0 < clock.wall) : (initial clock).Armed where
  wall_pos := h
  now_pos := by simp [initial]
  expirations := by intro a t ht; cases ht
  normalised := by intro x hx; cases hx
  deadline := by intro _ e he; cases he

theorem step_armed {op : TimerOp} (hs : s.Valid) (h : s.Armed) (hop : op.Admissible)
    (hstep : s.step op = some s') : s'.Armed := by
  cases op with
  | advance wall mono =>
    obtain ⟨hmono, rfl⟩ := step_advance hstep
    obtain rfl : wall = mono := hop
    have hwall := h.wall_pos
    refine ⟨?_, h.now_pos, h.expirations, h.normalised, fun hb e he => ?_⟩
    · show 0 < s.clock.wall + wall
      omega
    · obtain ⟨d, last, hd, hlast, hbound⟩ := h.deadline hb e he
      refine ⟨d, last, hd.advance _, hlast, ?_⟩
      show d + (s.clock.wall + wall - (s.clock.mono + wall)) ≤ _
      omega
  | newTimer a when interval =>
    obtain ⟨-, -, -, rfl⟩ := step_newTimer hstep
    refine ⟨h.wall_pos, h.now_pos, ?_, h.normalised, h.deadline⟩
    intro b t ht
    by_cases hb : b = a
    · rw [hb] at ht
      rw [← Option.some.inj ((newTimer_heap_self s.queue a when interval).symm.trans ht)]
      exact hop
    · exact h.expirations b t ((newTimer_heap_other when interval hb).symm.trans ht)
  | addTimerInLoop a =>
    obtain ⟨ha, t, ht, rfl⟩ := step_addTimerInLoop hstep
    have hin := hs.posted_inactive a ha
    obtain ⟨hheap, -⟩ := addTimerInLoop_frame hs.queue s.clock ht hin
    refine ⟨h.wall_pos, h.now_pos, ?_, ?_, fun hb e he =>
      addTimerInLoop_armedFor hs.queue s.clock ht hin (h.deadline hb) he⟩
    · rw [ExpirationsPositive, hheap]
      exact h.expirations
    · show (s.queue.addTimerInLoop s.clock a).SettimesNormalised
      rw [addTimerInLoop_eq hs.queue s.clock ht hin]
      split
      · exact SettimesNormalised.resetTimerfd h.normalised _ _
      · exact h.normalised
  | cancelInLoop id =>
    obtain rfl := step_cancelInLoop hstep
    obtain ⟨hsub, hfd, hset⟩ := cancelInLoop_timers hs.queue id
    refine ⟨h.wall_pos, h.now_pos, ?_, ?_, fun hb e he =>
      ArmedFor.of_subset (h.deadline hb) hsub hfd hset he⟩
    · intro a t ht
      exact h.expirations a t (cancelInLoop_heap hs.queue ht)
    · rw [SettimesNormalised, hset]
      exact h.normalised
  | handleRead =>
    obtain ⟨-, rfl⟩ := step_handleRead hstep
    refine ⟨h.wall_pos, ?_, ?_, ?_, nofun⟩
    · rintro b ⟨⟩
      exact h.wall_pos
    · show ∀ a t, s.beginQueue.heap a = some t → _
      rw [hs.beginQueue_heap]
      exact h.expirations
    · show ∀ x ∈ s.beginQueue.settimes, _
      rw [show s.beginQueue.settimes = s.queue.settimes from
        getExpired_settimes hs.readQueue s.clock.wall]
      exact h.normalised
  | runNext =>
    obtain ⟨now, expired, it, todo, hb, ⟨-, rfl⟩ | ⟨t, -, rfl⟩⟩ := step_runNext hstep
    · exact ⟨h.wall_pos, by rintro b ⟨⟩; exact h.now_pos ⟨now, expired, it :: todo⟩ hb,
        h.expirations, h.normalised, nofun⟩
    · exact ⟨h.wall_pos, by rintro b ⟨⟩; exact h.now_pos ⟨now, expired, it :: todo⟩ hb,
        h.expirations, h.normalised, nofun⟩
  | throws =>
    obtain rfl := step_throws hstep
    exact ⟨h.wall_pos, h.now_pos, h.expirations, h.normalised, h.deadline⟩
  | handleReadEnd =>
    obtain ⟨now, expired, hb, rfl⟩ := step_handleReadEnd hstep
    have hq := hs.endQueue
    have hbatch := hs.endBatch hb
    obtain ⟨hpos, harmed⟩ := reset_armedFor hq s.clock hbatch h.expirations (h.now_pos _ hb)
    exact ⟨h.wall_pos, nofun, hpos, SettimesNormalised.reset hq h.normalised s.clock hbatch,
      fun _ => harmed⟩

theorem run_armed {clock : Clock} {ops : List TimerOp} (hclock : 0 < clock.wall)
    (h : Machine.run step (initial clock) ops = some s)
    (hops : ∀ op ∈ ops, op.Admissible) : s.Armed :=
  (Machine.run_invariant_mem (P := fun s => s.Valid ∧ s.Armed)
    (fun op hop _ _ hs hstep => ⟨step_valid hs.1 hstep, step_armed hs.1 hs.2 (hops op hop) hstep⟩)
    h ⟨initial_valid clock, initial_armed hclock⟩).2

/-- **The timerfd is never left un-armed for a pending timer.**  With positive expirations
and clocks that advance equally, in every state outside `handleRead` with a timer
pending the timerfd is armed or has an unread expiration; its deadline is at most the
first expiration, or 100 microseconds after the last `timerfd_settime`; and every
timespec it was ever given is normalised and not zero. -/
theorem timerfd_armed {clock : Clock} {ops : List TimerOp} (hclock : 0 < clock.wall)
    (h : Machine.run step (initial clock) ops = some s)
    (hops : ∀ op ∈ ops, op.Admissible) :
    (s.batch = none → ∀ e, s.queue.timers.first? = some e →
      ∃ deadline last, s.queue.timerfd.Pending deadline ∧ s.queue.settimes.getLast? = some last ∧
        deadline + (s.clock.wall - s.clock.mono) ≤ max e.when (last.1.wall + 100)) ∧
      ∀ x ∈ s.queue.settimes, x.2.Normalised ∧ x.2 ≠ ⟨0, 0⟩ :=
  have hs := run_armed hclock h hops
  ⟨hs.deadline, hs.normalised⟩

/-- The first timer is cancelled and leaves its deadline behind. -/
def staleDeadline : List TimerOp :=
  [.newTimer 1 1000 .zero, .addTimerInLoop 1,
    .newTimer 2 2000 .zero, .addTimerInLoop 2, .cancelInLoop ⟨1, 0⟩,
    .advance 500 500]

theorem timerfd_armed_staleDeadline :
    ∃ s, Machine.run step (initial ⟨10, 0⟩) staleDeadline = some s ∧
      s.queue.timers.first? = some ⟨2000, 2⟩ ∧
      ∃ deadline last, s.queue.timerfd.Pending deadline ∧ s.queue.settimes.getLast? = some last ∧
        deadline + 10 ≤ max 2000 (last.1.wall + 100) := by
  obtain ⟨s, hs⟩ : ∃ s, Machine.run step (initial ⟨10, 0⟩) staleDeadline = some s := ⟨_, rfl⟩
  have h := timerfd_armed (by decide) hs (by simp [staleDeadline, TimerOp.Admissible])
  obtain rfl := Option.some.inj hs
  exact ⟨_, rfl, rfl, h.1 rfl ⟨2000, 2⟩ rfl⟩

end TimerLoop
end ReMuduo
