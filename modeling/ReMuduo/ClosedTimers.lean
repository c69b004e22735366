import ReMuduo.TimedSteps

/-! # The timers of a closed connection

`handleClose` cancels the timers that the members name, and nothing of the connection
should remain in the queue when the loop polls again.  Three things can go wrong.  A timer
may be made after `handleClose`: `handleRead` re-arms the idle timer when the message
callback has closed the connection, and the setters do not look at `state_`.  A keep-alive
timer may have been lost before (`ReMuduo.KeepAlive`).  And if `handleClose` runs in
`doPendingFunctors`, a timer that another thread has cancelled just before is cancelled
only in the next round. -/
namespace ReMuduo

/-- A functor that cancels a timer. -/
def TimedFunctor.isCancel : TimedFunctor → Bool
  | .cancelInLoop _ => true
  | _ => false

namespace TimedConnection

variable {s s' : TimedConnection} {op : TimedOp}

/-- At the start of an iteration a closed connection has no timer in the queue. -/
def NoTimersIfClosed (s : TimedConnection) : Prop :=
  s.phase = .poll → s.closed = true →
    ∀ id kind, s.bound id = some kind → id ∉ s.loop.queue.activeTimers

/-- The functors that run before the loop polls again. -/
def taken (s : TimedConnection) : List TimedFunctor :=
  match s.phase with
  | .poll => []
  | .events => s.functors
  | .functors n => s.functors.take n

/-- The functors that were posted since `doPendingFunctors` took the others. -/
def postponed (s : TimedConnection) : List TimedFunctor :=
  match s.phase with
  | .functors n => s.functors.drop n
  | _ => []

/-- The step loses no keep-alive timer before `handleClose` has run, makes no timer after that,
and does not run `handleClose` while the cancelling of a timer is postponed to the next
iteration. -/
structure EndsTimers (s : TimedConnection) (op : TimedOp) : Prop where
  free : s.closed = false → s.KeepAliveFree op
  arms : s.closed = true → s.arms op = none
  closes : s.closes op = true → ∀ f ∈ s.postponed, f.isCancel = false

instance (s : TimedConnection) (op : TimedOp) : Decidable (s.EndsTimers op) :=
  decidable_of_iff ((s.closed = false → s.KeepAliveFree op) ∧ (s.closed = true → s.arms op = none) ∧
    (s.closes op = true → ∀ f ∈ s.postponed, f.isCancel = false))
    ⟨fun ⟨h₁, h₂, h₃⟩ => ⟨h₁, h₂, h₃⟩, fun ⟨h₁, h₂, h₃⟩ => ⟨h₁, h₂, h₃⟩⟩

/-- A step that runs `handleClose` makes no timer. -/
theorem arms_of_closes (h : s.closes op = true) : s.arms op = none := by
  cases op with
  | functor a =>
    simp only [closes] at h
    split at h
    · rename_i hf
      simp only [TimedConnection.arms, hf]
    · cases h
  | handleClose | forceClose | timer => rfl
  | _ => cases h

theorem taken_mono {gs : List TimedFunctor} (hphase : s'.phase = s.phase)
    (hf : s'.functors = s.functors ++ gs) : s.taken ⊆ s'.taken := by
  unfold taken
  rw [hphase, hf]
  split
  · exact List.nil_subset _
  · exact List.subset_append_left _ _
  · rw [List.take_append]
    exact List.subset_append_left _ _

/-- A functor that the loop has taken stays so until it runs. -/
theorem taken_step (hs : s.Sound) (h : s.step op = some s') {f : TimedFunctor}
    (hf : f ∈ s.taken) :
    f ∈ s'.taken ∨ ∃ a rest, op = .functor a ∧ s.functors = f :: rest := by
  have hframe := step_frame hs h
  cases op with
  | poll =>
    obtain ⟨⟨hphase, -⟩, -⟩ := Option.ite_none_right_eq_some.mp h
    simp [taken, hphase] at hf
  | dispatch =>
    obtain ⟨hphase, -⟩ := Option.ite_none_right_eq_some.mp h
    simp [taken, hphase] at hf
  | doPendingFunctors =>
    obtain ⟨hat, ⟨⟩⟩ := Option.ite_none_right_eq_some.mp h
    have hphase : s.phase = .events := of_decide_eq_true (Bool.and_eq_true_iff.mp hat).1
    simp only [taken, hphase] at hf
    simp only [taken, List.take_length]
    exact Or.inl hf
  | functor a =>
    obtain ⟨n, g, rest, hphase, hcons, -⟩ := step_functor h
    have hphase' : s'.phase = .functors n := by simp [hframe.phase, phaseAfter, hphase]
    have hrest : s'.functors = rest := by simp [hframe.functors, remaining, posts, hcons]
    simp only [taken, hphase, hcons, List.take_succ_cons] at hf
    rcases List.mem_cons.mp hf with rfl | hf
    · exact Or.inr ⟨a, rest, rfl, hcons⟩
    · refine Or.inl ?_
      simp only [taken, hphase', hrest]
      exact hf
  | _ => exact Or.inl (taken_mono hframe.phase hframe.functors hf)

/-- What carries the proof: every pending timer of a connection is named as long as it is not
closed, and every one of a closed connection will be cancelled by a functor before the loop
polls again. -/
structure TimersEnd (s : TimedConnection) : Prop where
  sound : s.Sound
  named : s.closed = false → ∀ kind, s.NamedFor kind
  ends : s.closed = true → ∀ id kind, s.bound id = some kind → s.loop.pending id = true →
    .cancelInLoop id ∈ s.taken

theorem initial_timersEnd {loop : TimerLoop} (h : loop.Reached) : (initial loop).TimersEnd :=
  ⟨initial_sound h, fun _ => initial_namedFor loop, nofun⟩

/-- The loop is not in `poll` when `handleClose` runs. -/
theorem taken_append_postponed (h : s.step op = some s') (hcloses : s.closes op = true) :
    s.taken ++ s.postponed = s.functors := by
  have hphase : s.phase ≠ .poll := by
    cases op with
    | handleClose =>
      obtain ⟨⟨hat, -⟩, -⟩ := Option.ite_none_right_eq_some.mp h
      simp [of_decide_eq_true (Bool.and_eq_true_iff.mp hat).1]
    | forceClose =>
      obtain ⟨hawake, -⟩ := Option.ite_none_right_eq_some.mp h
      exact of_decide_eq_true hawake
    | functor a =>
      obtain ⟨n, f, rest, hphase, -⟩ := step_functor h
      simp [hphase]
    | timer op =>
      cases op with
      | runNext =>
        obtain ⟨id, l, hphase, -⟩ := timerStep_runNext h
        simp [hphase]
      | _ => cases hcloses
    | _ => cases hcloses
  unfold taken postponed
  cases hp : s.phase with
  | poll => exact absurd hp hphase
  | events => exact List.append_nil _
  | functors n => exact List.take_append_drop _ _

/-- When `handleClose` runs, the timers that no member names are about to be cancelled. -/
theorem TimersEnd.closing (hs : s.TimersEnd) (hG : s.EndsTimers op) (h : s.step op = some s')
    (hopen : s.closed = false) (hcloses : s.closes op = true) {id : TimerId} {kind : TimerKind}
    (hk : s.bound id = some kind) (hp : s.loop.pending id = true)
    (hp' : s'.loop.pending id = true) : .cancelInLoop id ∈ s.taken := by
  rcases hs.named hopen kind id hk hp with rfl | hq
  · have hvalid : (s.timerId kind).isValid = true :=
      decide_eq_true (hs.sound.known _ kind hk).2
    rw [(step_frame hs.sound h).cancels hcloses kind hvalid] at hp'
    cases hp'
  · rw [← taken_append_postponed h hcloses] at hq
    rcases List.mem_append.mp hq with hq | hq
    · exact hq
    · cases hG.closes hcloses _ hq

theorem TimersEnd.step (hs : s.TimersEnd) (hG : s.EndsTimers op) (h : s.step op = some s') :
    s'.TimersEnd := by
  have hchanges := step_changes hs.sound h
  have hclosed := (step_frame hs.sound h).closed
  refine ⟨hchanges.sound hs.sound, fun hopen kind => ?_, fun hc id kind hk' hp' => ?_⟩
  · rw [hclosed, Bool.or_eq_false_iff] at hopen
    exact hchanges.namedFor (fun hno => hno.2 (hG.free hopen.1)) hs.sound (hs.named hopen.1 kind)
  · have harms : s.arms op = none := by
      rw [hclosed, Bool.or_eq_true] at hc
      exact hc.elim hG.arms arms_of_closes
    have hk : s.bound id = some kind := by
      refine (hchanges.bound_new hs.sound hk').resolve_right fun hnew => ?_
      cases harms.symm.trans hnew
    have hp := hchanges.pending hs.sound (hs.sound.known id kind hk).1 hp'
    have hq : .cancelInLoop id ∈ s.taken := by
      cases hopen : s.closed with
      | true => exact hs.ends hopen id kind hk hp
      | false =>
        rw [hclosed, hopen, Bool.false_or] at hc
        exact hs.closing hG h hopen hc hk hp hp'
    rcases taken_step hs.sound h hq with htaken | ⟨a, rest, rfl, hf⟩
    · exact htaken
    · rw [functor_cancels hs.sound hf h] at hp'
      cases hp'

theorem TimersEnd.noTimersIfClosed (hs : s.TimersEnd) : s.NoTimersIfClosed := by
  intro hphase hclosed id kind hk hact
  have hq := hs.ends hclosed id kind hk (TimerLoop.pending_iff.mpr (Or.inl hact))
  simp [taken, hphase] at hq

/-- A connection is not opened again. -/
theorem closed_of_run (hs : s.Sound) (hclosed : s.closed = true) {ops : List TimedOp}
    (hrun : Machine.run step s ops = some s') : s'.closed = true := by
  refine (Machine.run_invariant (P := fun s => s.Sound ∧ s.closed = true) ?_ hrun
    ⟨hs, hclosed⟩).2
  rintro s op s' ⟨hs, hclosed⟩ h
  exact ⟨(step_changes hs h).sound hs, by rw [(step_frame hs h).closed, hclosed, Bool.true_or]⟩

/-- There is nothing to show before `handleClose` has run. -/
theorem noTimersIfClosed_of_open (hs : s.Sound) {ops : List TimedOp}
    (hrun : Machine.run step s ops = some s') (hopen : s'.closed = false) :
    Machine.Throughout step NoTimersIfClosed s ops := by
  have hfirst : s.NoTimersIfClosed := fun _ hclosed => by
    cases (closed_of_run hs hclosed hrun).symm.trans hopen
  induction ops generalizing s with
  | nil => exact hfirst
  | cons op ops ih =>
    obtain ⟨t, ht, hrest⟩ := Machine.run_cons_eq_some.mp hrun
    have hsound := (step_changes hs ht).sound hs
    refine (Machine.throughout_cons_of_some ht).mpr ⟨hfirst, ih hsound hrest fun _ hclosed => ?_⟩
    cases (closed_of_run hsound hclosed hrest).symm.trans hopen

/-- **When a closed connection has no timers.**  Whenever the loop polls and `handleClose`
has run, the queue holds no timer of the connection, in every run that, if `handleClose` runs
in it, loses no keep-alive timer before that, makes no timer after it, and does not run
`handleClose` in `doPendingFunctors` while the cancelling of a timer has been posted for the
next iteration. -/
theorem noTimersIfClosed_of_endsTimers {loop : TimerLoop} (hloop : loop.Reached)
    {ops : List TimedOp} (hrun : Machine.run step (initial loop) ops = some s)
    (hG : s.closed = true → Machine.Along step EndsTimers (initial loop) ops) :
    Machine.Throughout step NoTimersIfClosed (initial loop) ops := by
  cases hclosed : s.closed with
  | true =>
    exact Machine.throughout_of_along (fun _ _ _ _ hs hG h => hs.step hG h)
      (fun _ hs => hs.noTimersIfClosed) hrun (initial_timersEnd hloop) (hG hclosed)
  | false => exact noTimersIfClosed_of_open (initial_sound hloop) hrun hclosed

/-- The message callback closes a connection that has an idle timeout. -/
def closedByMessage : List TimedOp :=
  [.connectEstablished, .setIdleTimeout (.ofMicros 5) 1, .message, .forceClose, .messageEnd 2,
    .doPendingFunctors, .poll]

/-- `handleRead` has made a new idle timer for the closed connection. -/
theorem closed_with_idle_timer :
    ∃ s, Machine.run step (initial (.initial ⟨10, 0⟩)) closedByMessage = some s ∧
      s.phase = .poll ∧ s.closed = true ∧ s.state = .kDisconnected ∧
      s.loop.queue.activeTimers.elems = [⟨2, 1⟩] ∧ s.bound ⟨2, 1⟩ = some .idle :=
  ⟨_, rfl, rfl, rfl, rfl, rfl, rfl⟩

/-- All three timers are set, another thread switches off keep-alive, and the connection is
closed by the idle timer. -/
theorem noTimersIfClosed_of_endsTimers_idle :
    Machine.Throughout step NoTimersIfClosed (initial (.initial ⟨10, 0⟩))
      [.connectEstablished, .setIdleTimeout (.ofMicros 5) 1,
        .setConnectionTimeout (.ofMicros 9) 2, .enableKeepAlive true (.ofMicros 7000000) 3,
        .timer (.advance 6 6), .timer .handleRead, .postEnableKeepAlive false (.ofMicros 7000000),
        .timer .runNext, .timer .handleReadEnd, .doPendingFunctors, .functor 4, .poll] := by
  obtain ⟨s, hs⟩ : ∃ s, Machine.run step (initial (.initial ⟨10, 0⟩))
      [.connectEstablished, .setIdleTimeout (.ofMicros 5) 1,
        .setConnectionTimeout (.ofMicros 9) 2, .enableKeepAlive true (.ofMicros 7000000) 3,
        .timer (.advance 6 6), .timer .handleRead, .postEnableKeepAlive false (.ofMicros 7000000),
        .timer .runNext, .timer .handleReadEnd, .doPendingFunctors, .functor 4, .poll] =
      some s := ⟨_, rfl⟩
  exact noTimersIfClosed_of_endsTimers (TimerLoop.initial_reached _) hs
    fun _ => by decide +kernel

end TimedConnection
end ReMuduo
