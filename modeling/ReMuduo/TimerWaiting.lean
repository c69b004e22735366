import ReMuduo.TimerPending

/-! # Until when a timer waits

A timer is executed by the first `handleRead` that begins at its expiration or later, and
not before.  For those who own a timer this has two sides.  A timer may be known not to be
executed before some time (`Late`), which no operation of the queue changes.  Or it may be
known to be waiting for its callback (`Waiting`), which ends when it is cancelled or
executed and in no other way.  A timer with an interval waits again after that
(`Periodic`), until it is cancelled. -/
namespace ReMuduo

/-! ## In the life of a timer -/

namespace Life

variable {id : TimerId} {l l' : Life} {b e : Int}

/-- The timer has been added, is not executed again before `b`, and does not repeat. -/
def Late (b : Int) : Life → Prop
  | fresh => False
  | scheduled t => b ≤ t.expiration ∧ t.repeats = false
  | due t now _ => b ≤ now ∧ t.repeats = false
  | ran t _ c => t.repeats = false ∨ c = true
  | gone => True

theorem step_late {ev : TimerEvent} (hl : l.Late b) (hs : step id l ev = some l') :
    l'.Late b := by
  cases step_cases hs with
  | cancelled =>
    cases l with
    | fresh => exact hl
    | scheduled t => trivial
    | due t now c => exact hl
    | ran t now c => exact Or.inr rfl
    | gone => trivial
  | reached _ hdue => exact ⟨hl.1.trans hdue, hl.2⟩
  | executed => exact Or.inl hl.2
  | repeated hrep => simp [Late, hrep] at hl
  | deleted => trivial
  | added => exact hl.elim
  | other | early | idleBegun | idleEnded | scheduledEnded => exact hl

/-- What is neither pending nor due is never executed again. -/
theorem late_of_not_pending (hne : l ≠ fresh) (hp : ¬ l.Pending) (hd : ¬ l.Due) : l.Late b := by
  cases l with
  | fresh => exact absurd rfl hne
  | scheduled t => exact absurd trivial hp
  | due t now c => exact absurd trivial hd
  | ran t now c =>
    by_cases hrep : t.repeats = true
    · refine Or.inr (Bool.eq_true_of_not_eq_false fun hc => hp ⟨hrep, hc⟩)
    · exact Or.inl (Bool.eq_false_iff.mpr hrep)
  | gone => trivial

/-- The timer expires at `e`, or is about to be executed. -/
def Waiting (e : Int) : Life → Prop
  | scheduled t => t.expiration = e
  | due .. => True
  | _ => False

/-- It waits until it is cancelled or executed. -/
theorem step_waiting {ev : TimerEvent} (hl : l.Waiting e) (hcancel : ev ≠ .cancelled id)
    (hexec : ev.executes id = false) (hs : step id l ev = some l') : l'.Waiting e := by
  cases step_cases hs with
  | cancelled => exact absurd rfl hcancel
  | executed => simp [TimerEvent.executes] at hexec
  | reached => trivial
  | added | repeated | deleted => exact hl.elim
  | other | early | idleBegun | idleEnded | scheduledEnded => exact hl

/-- A timer in a batch stays there until it is executed, cancelled or not. -/
theorem step_stays_due {ev : TimerEvent} (hl : l.Due) (hexec : ev.executes id = false)
    (hs : step id l ev = some l') : l'.Due := by
  cases step_cases hs with
  | cancelled => exact (cancel_due_iff l).mpr hl
  | executed => simp [TimerEvent.executes] at hexec
  | added | early | reached | repeated | deleted | scheduledEnded => exact hl.elim
  | other | idleBegun | idleEnded => exact hl

/-- Only a cancelling ends a periodic timer. -/
theorem step_periodic {ev : TimerEvent} (hl : l.Periodic) (hcancel : ev ≠ .cancelled id)
    (hs : step id l ev = some l') : l'.Periodic := by
  cases step_cases hs with
  | cancelled => exact absurd rfl hcancel
  | reached => exact ⟨hl, rfl⟩
  | repeated h => exact (congrArg Seconds.positive (Timer.restart_interval _ _)).trans h
  | deleted h =>
    obtain ⟨hrep, rfl⟩ := hl
    cases h hrep
  | added => exact hl.elim
  | other | early | executed | idleBegun | idleEnded | scheduledEnded => exact hl

/-- A timer with a positive interval that is pending has not been cancelled. -/
theorem periodic_of_pending {interval : Seconds} (hl : l.HasInterval interval)
    (hpos : interval.positive = true) (hp : l.Pending) : l.Periodic := by
  cases l with
  | scheduled t =>
    obtain rfl : t.interval = interval := hl
    exact hpos
  | due t now c => exact hp
  | ran t now c => exact hp
  | fresh | gone => exact hp.elim

theorem Periodic.pending (hl : l.Periodic) : l.Pending := by
  cases l with
  | scheduled t => trivial
  | due t now c => exact hl
  | ran t now c => exact hl
  | fresh | gone => exact hl.elim

end Life

/-! ## In the queue -/

namespace TimerLoop

variable {s s' : TimerLoop} {id : TimerId} {op : TimerOp} {b e : Int}

/-- The only step that cancels a timer. -/
theorem cancelled_of_step (h : s.step op = some s')
    (hist : s'.history = s.history ++ [.cancelled id]) : op = .cancelInLoop id := by
  cases op with
  | advance wall mono =>
    obtain ⟨-, rfl⟩ := step_advance h
    simp at hist
  | newTimer a when interval =>
    obtain ⟨-, -, -, rfl⟩ := step_newTimer h
    simp at hist
  | addTimerInLoop a =>
    obtain ⟨-, t, -, rfl⟩ := step_addTimerInLoop h
    simp at hist
  | cancelInLoop i =>
    obtain rfl := step_cancelInLoop h
    simpa using hist
  | handleRead =>
    obtain ⟨-, rfl⟩ := step_handleRead h
    simp at hist
  | runNext =>
    obtain ⟨now, expired, it, todo, -, ⟨-, rfl⟩ | ⟨t, -, rfl⟩⟩ := step_runNext h
    · simp at hist
    · simp at hist
  | throws =>
    obtain rfl := step_throws h
    simp at hist
  | handleReadEnd =>
    obtain ⟨now, expired, -, rfl⟩ := step_handleReadEnd h
    simp at hist

/-- The only step that executes a timer. -/
theorem executed_of_step {ev : TimerEvent} (h : s.step op = some s')
    (hist : s'.history = s.history ++ [ev]) (hexec : ev.executes id = true) :
    op = .runNext ∧ s.next = some id := by
  cases op with
  | advance wall mono =>
    obtain ⟨-, rfl⟩ := step_advance h
    simp at hist
  | newTimer a when interval =>
    obtain ⟨-, -, -, rfl⟩ := step_newTimer h
    simp at hist
  | addTimerInLoop a =>
    obtain ⟨-, t, -, rfl⟩ := step_addTimerInLoop h
    obtain rfl : _ = ev := by simpa using hist
    cases hexec
  | cancelInLoop i =>
    obtain rfl := step_cancelInLoop h
    obtain rfl : _ = ev := by simpa using hist
    cases hexec
  | handleRead =>
    obtain ⟨-, rfl⟩ := step_handleRead h
    obtain rfl : _ = ev := by simpa using hist
    cases hexec
  | runNext =>
    obtain ⟨now, expired, it, todo, hb, ⟨-, rfl⟩ | ⟨t, ht, rfl⟩⟩ := step_runNext h
    · simp at hist
    · obtain rfl : _ = ev := by simpa using hist
      refine ⟨rfl, ?_⟩
      simp only [next, hb, ht, Option.map_some]
      exact congrArg some (of_decide_eq_true hexec)
  | throws =>
    obtain rfl := step_throws h
    simp at hist
  | handleReadEnd =>
    obtain ⟨now, expired, -, rfl⟩ := step_handleReadEnd h
    obtain rfl : _ = ev := by simpa using hist
    cases hexec

/-- The life of a new timer begins with what it was made with. -/
theorem addTimer_life (hs : s.Reached) {a : Addr} {when : Int} {interval : Seconds}
    {u : TimerLoop} (hnew : s.step (.newTimer a when interval) = some u)
    (hadd : u.step (.addTimerInLoop a) = some s') :
    s'.LifeIs ⟨a, s.queue.numCreated⟩ (.scheduled ⟨when, interval, s.queue.numCreated⟩) := by
  obtain ⟨-, -, -, hu⟩ := step_newTimer hnew
  obtain ⟨-, t, ht, hs'⟩ := step_addTimerInLoop hadd
  have htimer : t = ⟨when, interval, s.queue.numCreated⟩ := by
    rw [hu] at ht
    exact (Option.some.inj ((TimerQueue.newTimer_heap_self s.queue a when interval).symm.trans
      ht)).symm
  have hist : s'.history = s.history ++ [.added ⟨a, s.queue.numCreated⟩ when interval] := by
    rw [hs', hu, htimer]
  obtain ⟨l', hl', -⟩ := ((hs.step hnew).step hadd).life ⟨a, s.queue.numCreated⟩
  have hrun := hl'
  rw [LifeIs, hist] at hrun
  obtain ⟨l, m, -, hstep, hend⟩ := Machine.run_split_eq_some.mp hrun
  obtain rfl := Option.some.inj hend
  obtain ⟨-, rfl⟩ := Life.step_added_self hstep
  exact hl'

/-- `Life.Late`, of a timer of the queue. -/
def Late (s : TimerLoop) (id : TimerId) (b : Int) : Prop := ∃ l, s.LifeIs id l ∧ l.Late b

theorem late_of_step (hs : s.Reached) (h : s.step op = some s') (hl : s.Late id b) :
    s'.Late id b := by
  obtain ⟨l₀, hl₀, hlate⟩ := hl
  obtain ⟨l, l', hl, -, hl', -, hstep⟩ := step_life hs h id
  obtain rfl := Option.some.inj (hl.symm.trans hl₀)
  obtain ⟨-, rfl⟩ | ⟨ev, -, hev⟩ := hstep
  · exact ⟨_, hl', hlate⟩
  · exact ⟨_, hl', Life.step_late hlate hev⟩

theorem late_of_run {ops : List TimerOp} (hs : s.Reached) (h : Machine.run step s ops = some s')
    (hl : s.Late id b) : s'.Late id b :=
  (Machine.run_invariant (P := fun s => s.Reached ∧ s.Late id b)
    (fun _ _ _ hP h => ⟨hP.1.step h, late_of_step hP.1 h hP.2⟩) h ⟨hs, hl⟩).2

theorem late_of_spent (hs : s.Reached) (hk : s.Known id) (hp : s.pending id = false)
    (hd : ¬ s.AwaitsCallback id) : s.Late id b := by
  obtain ⟨l, hl, ht⟩ := hs.life id
  refine ⟨l, hl, Life.late_of_not_pending (hk.ne_fresh hl) ?_ ?_⟩
  · rw [← ht.pending_iff hs.valid, hp]
    exact Bool.false_ne_true
  · rwa [← ht.awaitsCallback_iff hs.valid]

/-- A timer of the kind is executed by a batch that began at `b` or later. -/
theorem Late.batch (hs : s.Reached) (hl : s.Late id b) (hd : s.AwaitsCallback id) :
    ∃ batch, s.batch = some batch ∧ b ≤ batch.now := by
  obtain ⟨l₀, hl₀, hlate⟩ := hl
  obtain ⟨l, hl, ht⟩ := hs.life id
  obtain rfl := Option.some.inj (hl.symm.trans hl₀)
  have hdue := (ht.awaitsCallback_iff hs.valid).mp hd
  cases l with
  | due t now c =>
    obtain ⟨⟨batch, hb, rfl, -⟩, -⟩ := ht
    exact ⟨batch, hb, hlate.1⟩
  | fresh | scheduled | ran | gone => exact hdue.elim

/-- `Life.Waiting`, of a timer of the queue. -/
def Waiting (s : TimerLoop) (id : TimerId) (e : Int) : Prop := ∃ l, s.LifeIs id l ∧ l.Waiting e

theorem waiting_of_step (hs : s.Reached) (h : s.step op = some s')
    (hcancel : op ≠ .cancelInLoop id) (hnext : op = .runNext → s.next ≠ some id)
    (hw : s.Waiting id e) : s'.Waiting id e := by
  obtain ⟨l₀, hl₀, hwait⟩ := hw
  obtain ⟨l, l', hl, -, hl', -, hstep⟩ := step_life hs h id
  obtain rfl := Option.some.inj (hl.symm.trans hl₀)
  obtain ⟨-, rfl⟩ | ⟨ev, hist, hev⟩ := hstep
  · exact ⟨_, hl', hwait⟩
  · refine ⟨_, hl', Life.step_waiting hwait ?_ ?_ hev⟩
    · rintro rfl
      exact hcancel (cancelled_of_step h hist)
    · refine Bool.eq_false_iff.mpr fun hexec => ?_
      obtain ⟨hop, hid⟩ := executed_of_step h hist hexec
      exact hnext hop hid

theorem awaitsCallback_stays (hs : s.Reached) (h : s.step op = some s')
    (hnext : op = .runNext → s.next ≠ some id) (hd : s.AwaitsCallback id) :
    s'.AwaitsCallback id := by
  obtain ⟨l, l', hl, ht, -, ht', hstep⟩ := step_life hs h id
  rw [ht'.awaitsCallback_iff (hs.step h).valid]
  have hdue := (ht.awaitsCallback_iff hs.valid).mp hd
  obtain ⟨-, rfl⟩ | ⟨ev, hist, hev⟩ := hstep
  · exact hdue
  · refine Life.step_stays_due hdue (Bool.eq_false_iff.mpr fun hexec => ?_) hev
    obtain ⟨hop, hid⟩ := executed_of_step h hist hexec
    exact hnext hop hid

/-- A `handleRead` that comes late enough takes the timer into its batch. -/
theorem awaitsCallback_handleRead (hs : s.Reached) (h : s.step .handleRead = some s')
    (hw : s.Waiting id e) (hpos : 0 < e) (he : e ≤ s.clock.wall) : s'.AwaitsCallback id := by
  obtain ⟨l₀, hl₀, hwait⟩ := hw
  obtain ⟨l, l', hl, ht, -, ht', hstep⟩ := step_life hs h id
  obtain rfl := Option.some.inj (hl.symm.trans hl₀)
  obtain ⟨hnone, heq⟩ := step_handleRead h
  have hist : s'.history = s.history ++ [.begun s.clock.wall] := by rw [heq]
  rw [ht'.awaitsCallback_iff (hs.step h).valid]
  obtain ⟨hsame, -⟩ | ⟨ev, hist', hev⟩ := hstep
  · simp [hist] at hsame
  · obtain rfl : ev = .begun s.clock.wall := by
      rw [hist] at hist'
      simpa using hist'.symm
    cases l with
    | scheduled t =>
      obtain rfl : t.expiration = e := hwait
      have hdue : 0 < s.clock.wall ∧ t.expiration ≤ s.clock.wall := ⟨hpos.trans_le he, he⟩
      simp only [Life.step, Life.begin, if_pos hdue] at hev
      obtain rfl := Option.some.inj hev
      trivial
    | due t now c => cases hev
    | fresh | ran | gone => exact hwait.elim

/-- `Life.Periodic`, of a timer of the queue. -/
def Periodic (s : TimerLoop) (id : TimerId) : Prop := ∃ l, s.LifeIs id l ∧ l.Periodic

theorem Periodic.pending (hs : s.Reached) (hl : s.Periodic id) : s.pending id = true := by
  obtain ⟨l₀, hl₀, hper⟩ := hl
  obtain ⟨l, hl, ht⟩ := hs.life id
  obtain rfl := Option.some.inj (hl.symm.trans hl₀)
  exact (ht.pending_iff hs.valid).mpr hper.pending

theorem periodic_of_step (hs : s.Reached) (h : s.step op = some s')
    (hcancel : op ≠ .cancelInLoop id) (hl : s.Periodic id) : s'.Periodic id := by
  obtain ⟨l₀, hl₀, hper⟩ := hl
  obtain ⟨l, l', hl, -, hl', -, hstep⟩ := step_life hs h id
  obtain rfl := Option.some.inj (hl.symm.trans hl₀)
  obtain ⟨-, rfl⟩ | ⟨ev, hist, hev⟩ := hstep
  · exact ⟨_, hl', hper⟩
  · refine ⟨_, hl', Life.step_periodic hper ?_ hev⟩
    rintro rfl
    exact hcancel (cancelled_of_step h hist)

/-- The timer has been added with a positive interval. -/
def Repeats (s : TimerLoop) (id : TimerId) : Prop :=
  ∃ l interval, s.LifeIs id l ∧ l.HasInterval interval ∧ interval.positive = true

theorem repeats_of_run {ops : List TimerOp} (hs : s.Reached)
    (h : Machine.run step s ops = some s') (hl : s.Repeats id) : s'.Repeats id := by
  refine (Machine.run_invariant (P := fun s => s.Reached ∧ s.Repeats id) ?_ h ⟨hs, hl⟩).2
  rintro s op s' ⟨hs, l₀, interval, hl₀, hint, hpos⟩ h
  refine ⟨hs.step h, ?_⟩
  obtain ⟨l, l', hl, -, hl', -, hstep⟩ := step_life hs h id
  obtain rfl := Option.some.inj (hl.symm.trans hl₀)
  obtain ⟨-, rfl⟩ | ⟨ev, -, hev⟩ := hstep
  · exact ⟨_, interval, hl', hint, hpos⟩
  · exact ⟨_, interval, hl', Life.step_hasInterval hint hev, hpos⟩

theorem Repeats.periodic (hs : s.Reached) (hl : s.Repeats id) (hp : s.pending id = true) :
    s.Periodic id := by
  obtain ⟨l₀, interval, hl₀, hint, hpos⟩ := hl
  obtain ⟨l, hl, ht⟩ := hs.life id
  obtain rfl := Option.some.inj (hl.symm.trans hl₀)
  exact ⟨_, hl, Life.periodic_of_pending hint hpos ((ht.pending_iff hs.valid).mp hp)⟩

theorem batch_none_of_step (h : s.step op = some s') (hop : op ≠ .handleRead)
    (hb : s.batch = none) : s'.batch = none := by
  cases op with
  | advance wall mono =>
    obtain ⟨-, rfl⟩ := step_advance h
    exact hb
  | newTimer a when interval =>
    obtain ⟨-, -, -, rfl⟩ := step_newTimer h
    exact hb
  | addTimerInLoop a =>
    obtain ⟨-, t, -, rfl⟩ := step_addTimerInLoop h
    exact hb
  | cancelInLoop i =>
    obtain rfl := step_cancelInLoop h
    exact hb
  | handleRead => exact absurd rfl hop
  | runNext =>
    obtain ⟨now, expired, it, todo, hsome, -⟩ := step_runNext h
    rw [hb] at hsome
    cases hsome
  | throws =>
    obtain rfl := step_throws h
    exact hb
  | handleReadEnd =>
    obtain ⟨now, expired, -, rfl⟩ := step_handleReadEnd h
    rfl

/-- The clock moves by `advance` only. -/
theorem clock_of_step (h : s.step op = some s') (hop : ∀ wall mono, op ≠ .advance wall mono) :
    s'.clock = s.clock := by
  cases op with
  | advance wall mono => exact absurd rfl (hop wall mono)
  | newTimer a when interval =>
    obtain ⟨-, -, -, rfl⟩ := step_newTimer h
    rfl
  | addTimerInLoop a =>
    obtain ⟨-, t, -, rfl⟩ := step_addTimerInLoop h
    rfl
  | cancelInLoop i =>
    obtain rfl := step_cancelInLoop h
    rfl
  | handleRead =>
    obtain ⟨-, rfl⟩ := step_handleRead h
    rfl
  | runNext =>
    obtain ⟨now, expired, it, todo, -, ⟨-, rfl⟩ | ⟨t, -, rfl⟩⟩ := step_runNext h
    · rfl
    · rfl
  | throws =>
    obtain rfl := step_throws h
    rfl
  | handleReadEnd =>
    obtain ⟨now, expired, -, rfl⟩ := step_handleReadEnd h
    rfl

end TimerLoop

end ReMuduo
