import ReMuduo.TimerFiring

/-! # Which timers the queue still has plans for

For the owner of a timer two things about it matter: whether it is pending, that is filed
in the queue or due to be put back by `reset`, and whether its callback is still to be
called in the running batch.  This module says how the operations of the queue change
the two, for a timer that has been added: nothing but `addTimerInLoop` makes a timer
pending, `cancelInLoop` ends it, and a callback is called only if the timer was due.
Those who own timers need not look further into the queue. -/
namespace ReMuduo
namespace TimerLoop
open TimerQueue

variable {s s' : TimerLoop} {id : TimerId} {l : Life} {op : TimerOp}

/-- The timer is in `activeTimers_`, or in the running batch and `reset` will put it
back. -/
def pending (s : TimerLoop) (id : TimerId) : Bool :=
  decide (id ∈ s.queue.activeTimers) ||
    match s.batch, s.queue.heap id.timer with
    | some b, some t => decide (t.sequence = id.sequence) && t.repeats &&
        decide (id.timer ∈ b.expired.map Entry.timer) && decide (id ∉ s.queue.cancelingTimers)
    | _, _ => false

theorem pending_iff : s.pending id = true ↔ id ∈ s.queue.activeTimers ∨
    ∃ b t, s.batch = some b ∧ s.Live id t ∧ t.repeats = true ∧
      id.timer ∈ b.expired.map Entry.timer ∧ id ∉ s.queue.cancelingTimers := by
  unfold pending Live
  split
  · rename_i b t hb ht
    simp [hb, ht, and_assoc]
  · rename_i hno
    simp only [Bool.or_false, decide_eq_true_eq]
    refine ⟨Or.inl, fun h => h.resolve_right ?_⟩
    rintro ⟨b, t, hb, ⟨ht, -⟩, -⟩
    exact hno b t hb ht

theorem Tracks.pending_iff (hs : s.Valid) (h : Tracks id s l) :
    s.pending id = true ↔ l.Pending := by
  rw [TimerLoop.pending_iff]
  have hbatch : ∀ {t now p c}, s.InBatch id.timer now p → s.Live id t →
      (id ∈ s.queue.cancelingTimers ↔ c = true) →
      ((id ∈ s.queue.activeTimers ∨ ∃ b t, s.batch = some b ∧ s.Live id t ∧ t.repeats = true ∧
        id.timer ∈ b.expired.map Entry.timer ∧ id ∉ s.queue.cancelingTimers) ↔
        t.repeats = true ∧ c = false) := by
    intro t now p c hin hlive hcan
    have hout := hin.inactive hs id.sequence
    obtain ⟨b, hb, -, hmem, -⟩ := hin
    constructor
    · rintro (hact | ⟨b', u, -, hu, hrep, -, hnot⟩)
      · exact absurd hact hout
      · obtain rfl := Option.some.inj (hu.1.symm.trans hlive.1)
        exact ⟨hrep, by simpa [hcan] using hnot⟩
    · rintro ⟨hrep, rfl⟩
      exact Or.inr ⟨b, t, hb, hlive, hrep, hmem, by simpa using hcan⟩
  cases l with
  | fresh =>
    refine iff_of_false ?_ (fun h => h)
    rintro (hact | ⟨b, t, hb, hlive, -, hmem, -⟩)
    · exact h.1 hact
    · obtain ⟨e, he, hsame⟩ := List.mem_map.mp hmem
      exact hs.posted_batch b hb e he (hsame ▸ h.2 t hlive)
  | scheduled t => exact iff_of_true (Or.inl (sched_eq_some.mp h).1) trivial
  | due t now c => exact hbatch h.1 h.2.1 h.2.2
  | ran t now c => exact hbatch h.1 h.2.1 h.2.2
  | gone =>
    refine iff_of_false ?_ (fun h => h)
    rintro (hact | ⟨b, t, -, hlive, -⟩)
    · obtain ⟨t, ht⟩ := hs.queue.active_live id hact
      exact h.2 t ht
    · exact h.2 t hlive

theorem Tracks.awaitsCallback_iff (hs : s.Valid) (h : Tracks id s l) :
    s.AwaitsCallback id ↔ l.Due := by
  constructor
  · rintro ⟨b, t, hb, htodo, hlive⟩
    have hin : s.InBatch id.timer b.now True :=
      ⟨b, hb, rfl, ((hs.todo b hb).sublist.map _).subset htodo, iff_of_true htodo trivial⟩
    obtain ⟨c, rfl⟩ := h.eq_due_of_todo hs hlive hin
    trivial
  · intro hdue
    cases l with
    | due t now c =>
      obtain ⟨⟨b, hb, -, -, htodo⟩, hlive, -⟩ := h
      exact ⟨b, t, hb, htodo.mpr trivial, hlive⟩
    | fresh | scheduled | ran | gone => exact hdue.elim

/-! ## Along the steps of the queue -/

/-- The queue has been used by its operations only. -/
def Reached (s : TimerLoop) : Prop :=
  ∃ clock ops, Machine.run step (initial clock) ops = some s

theorem initial_reached (clock : Clock) : (initial clock).Reached := ⟨clock, [], rfl⟩

theorem Reached.step (hs : s.Reached) (h : s.step op = some s') : s'.Reached := by
  obtain ⟨clock, ops, hrun⟩ := hs
  exact ⟨clock, ops ++ [op], Machine.run_split_eq_some.mpr ⟨s, s', hrun, h, rfl⟩⟩

theorem Reached.valid (hs : s.Reached) : s.Valid := by
  obtain ⟨clock, ops, hrun⟩ := hs
  exact run_valid hrun

theorem Reached.ne_nullptr (hs : s.Reached) (hp : s.pending id = true) : id.timer ≠ nullptr := by
  obtain hact | ⟨b, t, -, hlive, -⟩ := pending_iff.mp hp
  · obtain ⟨t, ht⟩ := hs.valid.queue.active_live id hact
    exact (hs.valid.queue.live_addr _ t ht.1).1
  · exact (hs.valid.queue.live_addr _ t hlive.1).1

/-- The life of a timer, as the history of the queue tells it. -/
def LifeIs (s : TimerLoop) (id : TimerId) (l : Life) : Prop :=
  Machine.run (Life.step id) .fresh s.history = some l

theorem Reached.life (hs : s.Reached) (id : TimerId) : ∃ l, s.LifeIs id l ∧ Tracks id s l := by
  obtain ⟨clock, ops, hrun⟩ := hs
  exact run_life hrun id

/-- The timer has been added at some time. -/
def Known (s : TimerLoop) (id : TimerId) : Prop := ∃ l, s.LifeIs id l ∧ l ≠ .fresh

/-- **One step of the queue is at most one step in the life of a timer.** -/
theorem step_life (hs : s.Reached) (h : s.step op = some s') (id : TimerId) :
    ∃ l l', s.LifeIs id l ∧ Tracks id s l ∧ s'.LifeIs id l' ∧ Tracks id s' l' ∧
      ((s'.history = s.history ∧ l' = l) ∨
        ∃ e, s'.history = s.history ++ [e] ∧ Life.step id l e = some l') := by
  obtain ⟨l, hl, htracks⟩ := hs.life id
  rcases tracks_step hs.valid htracks h with ⟨hist, h'⟩ | ⟨e, l', hist, he, h'⟩
  · exact ⟨l, l, hl, htracks, by rw [LifeIs, hist]; exact hl, h', Or.inl ⟨hist, rfl⟩⟩
  · refine ⟨l, l', hl, htracks, ?_, h', Or.inr ⟨e, hist, he⟩⟩
    rw [LifeIs, hist]
    exact Machine.run_split_eq_some.mpr ⟨l, l', hl, he, rfl⟩

theorem Known.ne_fresh (h : s.Known id) (hl : s.LifeIs id l) : l ≠ .fresh := by
  obtain ⟨l₀, hl₀, hne⟩ := h
  obtain rfl := Option.some.inj (hl.symm.trans hl₀)
  exact hne

theorem Known.step (hs : s.Reached) (hk : s.Known id) (h : s.step op = some s') :
    s'.Known id := by
  obtain ⟨l, l', hl, -, hl', -, ⟨-, rfl⟩ | ⟨e, -, he⟩⟩ := step_life hs h id
  · exact ⟨_, hl', hk.ne_fresh hl⟩
  · exact ⟨_, hl', Life.step_ne_fresh (hk.ne_fresh hl) he⟩

/-- Only what is pending stays pending. -/
theorem pending_of_step (hs : s.Reached) (hk : s.Known id) (h : s.step op = some s')
    (hp : s'.pending id = true) : s.pending id = true := by
  have hs' := hs.step h
  obtain ⟨l, l', hl, ht, -, ht', ⟨-, rfl⟩ | ⟨e, -, he⟩⟩ := step_life hs h id
  · exact (ht.pending_iff hs.valid).mpr ((ht'.pending_iff hs'.valid).mp hp)
  · rw [ht.pending_iff hs.valid]
    exact Life.step_pending (hk.ne_fresh hl) he ((ht'.pending_iff hs'.valid).mp hp)

theorem awaitsCallback_of_step (hs : s.Reached) (h : s.step op = some s')
    (hd : s'.AwaitsCallback id) : s.AwaitsCallback id ∨ s.pending id = true := by
  have hs' := hs.step h
  obtain ⟨l, l', hl, ht, -, ht', ⟨-, rfl⟩ | ⟨e, -, he⟩⟩ := step_life hs h id
  · exact Or.inl ((ht.awaitsCallback_iff hs.valid).mpr ((ht'.awaitsCallback_iff hs'.valid).mp hd))
  · rw [ht.awaitsCallback_iff hs.valid, ht.pending_iff hs.valid]
    exact Life.step_due he ((ht'.awaitsCallback_iff hs'.valid).mp hd)

/-- Two states in which the timer is at the same point of its life. -/
structure SameFor (id : TimerId) (s s' : TimerLoop) : Prop where
  known : s'.Known id ↔ s.Known id
  pending : s'.pending id = s.pending id
  awaits : s'.AwaitsCallback id ↔ s.AwaitsCallback id

theorem SameFor.trans {s'' : TimerLoop} (h : SameFor id s s') (h' : SameFor id s' s'') :
    SameFor id s s'' :=
  ⟨h'.known.trans h.known, h'.pending.trans h.pending, h'.awaits.trans h.awaits⟩

/-- An event that is not about the timer leaves it as it is. -/
theorem sameFor_of_other (hs : s.Reached) (h : s.step op = some s')
    (hother : ∀ e, s'.history = s.history ++ [e] → e.concerns id = false) : SameFor id s s' := by
  have hs' := hs.step h
  obtain ⟨l, l', hl, ht, hl', ht', hstep⟩ := step_life hs h id
  have hsame : l' = l := by
    rcases hstep with ⟨-, hsame⟩ | ⟨e, hist, he⟩
    · exact hsame
    · rw [Life.step_of_concerns (hother e hist)] at he
      exact (Option.some.inj he).symm
  subst hsame
  refine ⟨⟨fun hk => ⟨_, hl, hk.ne_fresh hl'⟩, fun hk => ⟨_, hl', hk.ne_fresh hl⟩⟩, ?_, ?_⟩
  · exact Bool.eq_iff_iff.mpr ((ht'.pending_iff hs'.valid).trans (ht.pending_iff hs.valid).symm)
  · exact (ht'.awaitsCallback_iff hs'.valid).trans (ht.awaitsCallback_iff hs.valid).symm

/-- After `cancelInLoop` a timer is not pending. -/
theorem pending_cancelInLoop (hs : s.Reached) (h : s.step (.cancelInLoop id) = some s') :
    s'.pending id = false := by
  have hs' := hs.step h
  have hist : s'.history = s.history ++ [.cancelled id] := by
    obtain rfl := step_cancelInLoop h
    rfl
  obtain ⟨l, l', hl, ht, -, ht', ⟨hsame, -⟩ | ⟨e, hist', he⟩⟩ := step_life hs h id
  · rw [hist] at hsame
    simp at hsame
  · obtain rfl : e = .cancelled id := by
      rw [hist] at hist'
      simpa using hist'.symm
    have hl' : l' = l.cancel := by simpa [Life.step] using he.symm
    rw [← Bool.not_eq_true, ht'.pending_iff hs'.valid, hl']
    exact Life.cancel_not_pending l

theorem awaitsCallback_cancelInLoop (hs : s.Reached) {i : TimerId}
    (h : s.step (.cancelInLoop i) = some s') : s'.AwaitsCallback id ↔ s.AwaitsCallback id := by
  have hs' := hs.step h
  obtain ⟨l, l', hl, ht, -, ht', ⟨-, rfl⟩ | ⟨e, hist, he⟩⟩ := step_life hs h id
  · exact (ht'.awaitsCallback_iff hs'.valid).trans (ht.awaitsCallback_iff hs.valid).symm
  · obtain rfl := step_cancelInLoop h
    obtain rfl : e = .cancelled i := by simpa using hist.symm
    rw [ht'.awaitsCallback_iff hs'.valid, ht.awaitsCallback_iff hs.valid]
    obtain rfl := Option.some.inj he
    split
    · exact Life.cancel_due_iff l
    · rfl

/-- **`addTimer` on the loop thread**: the timer it returns is a new one and is pending, and
no other timer is affected. -/
theorem addTimer_spec (hs : s.Reached) {a : Addr} {when : Int} {interval : Seconds}
    {u : TimerLoop} (hnew : s.step (.newTimer a when interval) = some u)
    (hadd : u.step (.addTimerInLoop a) = some s') :
    s'.Reached ∧ a ≠ nullptr ∧ ¬ s.Known ⟨a, s.queue.numCreated⟩ ∧
      s'.Known ⟨a, s.queue.numCreated⟩ ∧ s'.pending ⟨a, s.queue.numCreated⟩ = true ∧
      ∀ i, i ≠ ⟨a, s.queue.numCreated⟩ → SameFor i s s' := by
  have hu := hs.step hnew
  have hs' := hu.step hadd
  obtain ⟨hnull, -, -, hu_eq⟩ := step_newTimer hnew
  have hquiet : u.history = s.history := by rw [hu_eq]
  obtain ⟨-, t, ht, hs'_eq⟩ := step_addTimerInLoop hadd
  have htimer : t = ⟨when, interval, s.queue.numCreated⟩ := by
    rw [hu_eq] at ht
    exact (Option.some.inj ((newTimer_heap_self s.queue a when interval).symm.trans ht)).symm
  have hist : s'.history = u.history ++ [.added ⟨a, s.queue.numCreated⟩ when interval] := by
    rw [hs'_eq, htimer]
  have hevent : ∀ e, s'.history = u.history ++ [e] →
      e = .added ⟨a, s.queue.numCreated⟩ when interval := by
    intro e he
    rw [hist] at he
    simpa using he.symm
  -- the step that adds the timer begins its life
  obtain ⟨l, l', hl, -, hl', ht', ⟨hsame, -⟩ | ⟨e, he, hstep⟩⟩ :=
    step_life hu hadd ⟨a, s.queue.numCreated⟩
  · rw [hist] at hsame
    simp at hsame
  · obtain rfl := hevent e he
    obtain ⟨rfl, rfl⟩ := Life.step_added_self hstep
    refine ⟨hs', hnull, ?_, ⟨_, hl', nofun⟩, (ht'.pending_iff hs'.valid).mpr trivial, ?_⟩
    · rintro ⟨l₀, hl₀, hne⟩
      rw [LifeIs, hquiet] at hl
      exact hne (Option.some.inj (hl₀.symm.trans hl))
    · intro i hi
      refine (sameFor_of_other hs hnew (fun e he => ?_)).trans
        (sameFor_of_other hu hadd (fun e he => ?_))
      · rw [hquiet] at he
        simp at he
      · obtain rfl := hevent e he
        exact decide_eq_false (Ne.symm hi)

/-! ## The next callback -/

/-- The timer whose callback the running batch calls next. -/
def next (s : TimerLoop) : Option TimerId :=
  match s.batch with
  | some ⟨_, _, it :: _⟩ => (s.queue.heap it.timer).map (fun t => ⟨it.timer, t.sequence⟩)
  | _ => none

/-- `runNext` calls the callback of `next`: that timer was due, is not any more, and no
other timer is affected. -/
theorem runNext_spec (hs : s.Reached) (h : s.step .runNext = some s') :
    ∃ id, s.next = some id ∧ s.AwaitsCallback id ∧ ¬ s'.AwaitsCallback id ∧
      s'.pending id = s.pending id ∧ s'.Known id ∧ ∀ i, i ≠ id → SameFor i s s' := by
  have hs' := hs.step h
  obtain ⟨now, expired, it, todo, t, hb, ht, heq⟩ := hs.valid.runNext_live h
  have hist : s'.history = s.history ++ [.executed ⟨it.timer, t.sequence⟩ now t.expiration] := by
    rw [heq]
  have hevent : ∀ e, s'.history = s.history ++ [e] →
      e = .executed ⟨it.timer, t.sequence⟩ now t.expiration := by
    intro e he
    rw [hist] at he
    simpa using he.symm
  refine ⟨⟨it.timer, t.sequence⟩, by simp [next, hb, ht], ?_⟩
  obtain ⟨l, l', -, htr, hl', htr', ⟨hsame, -⟩ | ⟨e, he, hstep⟩⟩ :=
    step_life hs h ⟨it.timer, t.sequence⟩
  · rw [hist] at hsame
    simp at hsame
  · obtain rfl := hevent e he
    obtain ⟨u, c, rfl, -, rfl⟩ := Life.step_executed_self hstep
    refine ⟨(htr.awaitsCallback_iff hs.valid).mpr trivial, ?_, ?_, ⟨_, hl', nofun⟩, ?_⟩
    · rw [htr'.awaitsCallback_iff hs'.valid]
      exact fun h => h
    · exact Bool.eq_iff_iff.mpr
        ((htr'.pending_iff hs'.valid).trans (htr.pending_iff hs.valid).symm)
    · intro i hi
      refine sameFor_of_other hs h (fun e he => ?_)
      obtain rfl := hevent e he
      exact decide_eq_false (Ne.symm hi)

/-- A timer that is neither pending nor due is left alone by the queue for good. -/
theorem spent_of_step (hs : s.Reached) (hk : s.Known id) (h : s.step op = some s')
    (hp : s.pending id = false) (hd : ¬ s.AwaitsCallback id) :
    s'.pending id = false ∧ ¬ s'.AwaitsCallback id := by
  have hno : ¬ s.pending id = true := by simp [hp]
  refine ⟨?_, fun hd' => ?_⟩
  · exact Bool.eq_false_iff.mpr fun hp' => hno (pending_of_step hs hk h hp')
  · exact (awaitsCallback_of_step hs h hd').elim hd hno

end TimerLoop
end ReMuduo
