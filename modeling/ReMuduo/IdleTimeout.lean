import ReMuduo.TimedSteps

/-! # Switching the idle timeout off

`setIdleTimeout(seconds)` with `seconds <= 0` cancels the timer that `idleTimerId_` names, if
there is one.  On another thread than that of the loop an earlier call may have left a
`resetIdleTimerInLoop` in the queue of functors, and that functor does not ask again
whether the timeout is still on: it makes a timer with the delay that `idleTimeout_` has
by then.  A negative delay is refused by `runAfter`, but a delay of zero gives a timer that
closes the connection at once.  This module shows that this is all that can go wrong. -/
namespace ReMuduo

/-- The argument of `setIdleTimeout`, if the step is a call of it. -/
def TimedOp.setsIdleTimeout : TimedOp → Option Delay
  | .setIdleTimeout d _ => some d
  | .postSetIdleTimeout d => some d
  | _ => none

def TimedOp.isFunctor : TimedOp → Bool
  | .functor _ => true
  | _ => false

def TimedFunctor.isResetIdle : TimedFunctor → Bool
  | .resetIdleTimerInLoop => true
  | _ => false

namespace TimedConnection

variable {s s' : TimedConnection} {op : TimedOp} {d : Delay} {id : TimerId}

/-- Every step keeps track of the idle timers, since `resetIdleTimerInLoop` cancels the old
timer before it makes a new one. -/
theorem step_idle_named (hs : s.Sound) (hn : s.NamedFor .idle) (h : s.step op = some s') :
    s'.NamedFor .idle :=
  Changes.namedFor (step_changes hs h) (fun hno => nomatch hno.1) hs hn

theorem run_idle_named {loop : TimerLoop} (hloop : loop.Reached) {ops : List TimedOp}
    (hrun : Machine.run step (initial loop) ops = some s) : s.Sound ∧ s.NamedFor .idle := by
  refine Machine.run_invariant (P := fun s => s.Sound ∧ s.NamedFor .idle) ?_ hrun
    ⟨initial_sound hloop, initial_namedFor loop .idle⟩
  rintro s op s' ⟨hs, hn⟩ h
  exact ⟨(step_changes hs h).sound hs, step_idle_named hs hn h⟩

/-- The idle timeout is off, and was switched off when the functors in `queued` were still to
run.  Pending idle timers are cancelled by functors among them. -/
structure IdleOff (d : Delay) (queued : List TimedFunctor) (s : TimedConnection) : Prop where
  sound : s.Sound
  timeout : s.idleTimeout = d
  queue : queued <+: s.functors
  harmless : d.negative = true ∨ ∀ f ∈ s.functors, f.isResetIdle = false
  cancelled : ∀ id, s.bound id = some .idle → s.loop.pending id = true →
    .cancelInLoop id ∈ queued

/-- No step but `setIdleTimeout` makes an idle timer while the timeout is off. -/
theorem IdleOff.arms_ne {queued : List TimedFunctor} (hs : s.IdleOff d queued)
    (hd : d.positive = false) (hop : op.setsIdleTimeout = none) : s.arms op ≠ some .idle := by
  cases op with
  | setIdleTimeout => cases hop
  | messageEnd a => simp [arms, hs.timeout, hd]
  | setConnectionTimeout => simp [arms]
  | enableKeepAlive => simp [arms]
  | functor a =>
    cases hf : s.functors with
    | nil => simp [arms, hf]
    | cons f rest =>
      cases f with
      | resetIdleTimerInLoop =>
        rcases hs.harmless with hneg | hno
        · simp [arms, hf, hs.timeout, hneg]
        · cases hno .resetIdleTimerInLoop (hf ▸ List.mem_cons_self)
      | _ => simp [arms, hf]
  | _ => simp [arms]

/-- Without further calls of `setIdleTimeout`, no functor resets the idle timer that did not
before. -/
theorem posts_isResetIdle {f : TimedFunctor} (hf : f ∈ s.posts op)
    (hop : ∀ d, op.setsIdleTimeout = some d → d.positive = false) : f.isResetIdle = false := by
  cases op with
  | postSetConnectionTimeout d =>
    obtain rfl := List.mem_singleton.mp hf
    rfl
  | postSetIdleTimeout d =>
    simp only [posts, hop d rfl] at hf
    obtain ⟨-, rfl⟩ := mem_postsCancel hf
    rfl
  | postEnableKeepAlive enable d =>
    simp only [posts] at hf
    split at hf
    · obtain rfl := List.mem_singleton.mp hf
      rfl
    · obtain ⟨-, rfl⟩ := mem_postsCancel hf
      rfl
  | postForceClose =>
    simp only [posts] at hf
    split at hf
    · obtain rfl := List.mem_singleton.mp hf
      rfl
    · cases hf
  | _ => cases hf

/-- What is left of the queued functors after a step. -/
def leftOf (op : TimedOp) (queued : List TimedFunctor) : List TimedFunctor :=
  if op.isFunctor then queued.tail else queued

theorem leftOf_prefix_functors {queued : List TimedFunctor} (hs : s.Sound)
    (h : s.step op = some s') (hq : queued <+: s.functors) :
    leftOf op queued <+: s'.functors := by
  rw [(step_frame hs h).functors]
  refine List.IsPrefix.trans ?_ (List.prefix_append _ _)
  cases op with
  | functor a =>
    obtain ⟨posted, hposted⟩ := hq
    cases queued with
    | nil => exact List.nil_prefix
    | cons f rest => exact ⟨posted, by simp [leftOf, TimedOp.isFunctor, remaining, ← hposted]⟩
  | _ => exact hq

theorem IdleOff.step {queued : List TimedFunctor} (hs : s.IdleOff d queued)
    (hd : d.positive = false) (hop : op.setsIdleTimeout = none) (h : s.step op = some s') :
    s'.IdleOff d (leftOf op queued) ∧ ∀ id, s'.bound id = some .idle → s.bound id = some .idle := by
  have hchanges := step_changes hs.sound h
  have hframe := step_frame hs.sound h
  have hold : ∀ id, s'.bound id = some .idle → s.bound id = some .idle := fun id hk =>
    (hchanges.bound_new hs.sound hk).resolve_right (hs.arms_ne hd hop)
  refine ⟨⟨hchanges.sound hs.sound, ?_, leftOf_prefix_functors hs.sound h hs.queue, ?_, ?_⟩, hold⟩
  · rw [hframe.idleTimeout, ← hs.timeout]
    cases op with
    | setIdleTimeout | postSetIdleTimeout => cases hop
    | _ => rfl
  · refine hs.harmless.imp_right fun hno f hf => ?_
    rw [hframe.functors] at hf
    rcases List.mem_append.mp hf with hf | hf
    · exact hno f (remaining_subset s op hf)
    · exact posts_isResetIdle hf (by simp [hop])
  · intro id hk' hp'
    have hk := hold id hk'
    have hq := hs.cancelled id hk (hchanges.pending hs.sound (hs.sound.known id _ hk).1 hp')
    unfold leftOf
    split
    · cases op with
      | functor a =>
        -- the functor that runs is the first of those queued
        obtain ⟨posted, hposted⟩ := hs.queue
        cases queued with
        | nil => cases hq
        | cons f rest =>
          rcases List.mem_cons.mp hq with rfl | hq
          · rw [functor_cancels hs.sound hposted.symm h] at hp'
            cases hp'
          · exact hq
      | _ => rename_i hno; cases hno
    · exact hq

theorem IdleOff.run {queued : List TimedFunctor} {ops : List TimedOp} (hs : s.IdleOff d queued)
    (hd : d.positive = false) (hops : ∀ op ∈ ops, op.setsIdleTimeout = none)
    (hrun : Machine.run TimedConnection.step s ops = some s') :
    s'.IdleOff d (queued.drop (ops.countP TimedOp.isFunctor)) ∧
      ∀ id, s'.bound id = some .idle → s.bound id = some .idle := by
  induction ops generalizing s queued with
  | nil =>
    obtain rfl := Option.some.inj hrun
    exact ⟨hs, fun _ h => h⟩
  | cons op ops ih =>
    obtain ⟨t, ht, hrest⟩ := Machine.run_cons_eq_some.mp hrun
    obtain ⟨hoff, hold⟩ := hs.step hd (hops op List.mem_cons_self) ht
    obtain ⟨hoff', hold'⟩ := ih hoff (fun o ho => hops o (List.mem_cons_of_mem _ ho)) hrest
    refine ⟨?_, fun id hk => hold id (hold' id hk)⟩
    convert hoff' using 1
    unfold leftOf
    cases hop : op.isFunctor with
    | false => simp [hop]
    | true => simp [hop]

theorem setTimerId_null_invalid (s : TimedConnection) (kind : TimerKind) :
    ((s.setTimerId kind .null).timerId kind).isValid = false := by
  simp only [setTimerId, Function.update_self]
  rfl

/-- The call that switches the timeout off leaves no timer in `idleTimerId_`. -/
theorem idle_forgotten (hd : d.positive = false) (hop : op.setsIdleTimeout = some d)
    (h : s.step op = some s') : (s'.timerId .idle).isValid = false := by
  cases op with
  | setIdleTimeout d' a =>
    obtain rfl := Option.some.inj hop
    obtain ⟨-, h⟩ := Option.ite_none_right_eq_some.mp h
    simp only [setIdleTimeout, hd, Bool.false_eq_true, if_false, cancelAndForget] at h
    split at h
    · obtain ⟨t, -, rfl⟩ := Option.map_eq_some_iff.mp h
      exact setTimerId_null_invalid t .idle
    · rename_i hno
      obtain rfl := Option.some.inj h
      exact Bool.eq_false_iff.mpr hno
  | postSetIdleTimeout d' =>
    obtain rfl := Option.some.inj hop
    obtain rfl := Option.some.inj h
    simp only [postSetIdleTimeout, hd, Bool.false_eq_true, if_false, postCancelAndForget]
    split
    · exact setTimerId_null_invalid _ .idle
    · rename_i hno
      exact Bool.eq_false_iff.mpr hno
  | _ => cases hop

/-- After that call every pending idle timer is about to be cancelled by a functor. -/
theorem idleOff_of_call (hs : s.Sound) (hn : s.NamedFor .idle) (hd : d.positive = false)
    (hop : op.setsIdleTimeout = some d)
    (hreset : d.negative = true ∨ ∀ f ∈ s.functors, f.isResetIdle = false)
    (h : s.step op = some s') : s'.IdleOff d s'.functors := by
  have hchanges := step_changes hs h
  have hframe := step_frame hs h
  refine ⟨hchanges.sound hs, ?_, List.prefix_rfl, ?_, fun id hk hp => ?_⟩
  · rw [hframe.idleTimeout]
    cases op with
    | setIdleTimeout | postSetIdleTimeout => exact Option.some.inj hop
    | _ => cases hop
  · refine hreset.imp_right fun hno f hf => ?_
    rw [hframe.functors] at hf
    rcases List.mem_append.mp hf with hf | hf
    · exact hno f (remaining_subset s op hf)
    · exact posts_isResetIdle hf (fun d' hd' => Option.some.inj (hop.symm.trans hd') ▸ hd)
  · refine (step_idle_named hs hn h id hk hp).resolve_left ?_
    rintro rfl
    have hvalid : (s'.timerId .idle).isValid = true :=
      decide_eq_true ((hchanges.sound hs).known _ _ hk).2
    rw [idle_forgotten hd hop h] at hvalid
    cases hvalid

/-- **When switching the idle timeout off is effective.**  Let `setIdleTimeout(d)` be called
with `d <= 0`, on the loop thread or on another, and not be called again.  If `d` is
negative, or if no `resetIdleTimerInLoop` of an earlier call is still to run, then no step
after the call makes an idle timer, and once the functors have run that were posted up to
the call, no idle timer is pending.  A call on another thread is one step here, and so is the end
of `handleRead`: it is not covered that the other thread calls between the test of
`idleTimeout_` in `handleRead` and the `runAfter` that follows it. -/
theorem idle_timeout_disabled {loop : TimerLoop} (hloop : loop.Reached)
    {before after : List TimedOp} {t u : TimedConnection}
    (hbefore : Machine.run step (initial loop) before = some s)
    (hop : op.setsIdleTimeout = some d) (hd : d.positive = false) (hcall : s.step op = some t)
    (hlast : ∀ o ∈ after, o.setsIdleTimeout = none) (hafter : Machine.run step t after = some u)
    (hreset : d.negative = true ∨ ∀ f ∈ s.functors, f.isResetIdle = false) :
    (∀ id, u.bound id = some .idle → t.bound id = some .idle) ∧
      (t.functors.length ≤ after.countP TimedOp.isFunctor →
        ∀ id, u.bound id = some .idle → u.loop.pending id = false) := by
  obtain ⟨hs, hn⟩ := run_idle_named hloop hbefore
  obtain ⟨hoff, hold⟩ := (idleOff_of_call hs hn hd hop hreset hcall).run hd hlast hafter
  refine ⟨hold, fun hran id hk => Bool.eq_false_iff.mpr fun hp => ?_⟩
  have hq := hoff.cancelled id hk hp
  rw [List.drop_eq_nil_of_le hran] at hq
  cases hq

/-- Another thread switches the timeout on and off again, before the loop runs the functor
of the first call. -/
def onAndOff : List TimedOp :=
  [.connectEstablished, .postSetIdleTimeout (.ofMicros 5), .postSetIdleTimeout .zero]

/-- The functor makes a timer that expires at once, and the timer closes the connection. -/
theorem closed_by_disabled_idle_timer :
    (∃ s, Machine.run step (initial (.initial ⟨10, 0⟩))
        (onAndOff ++ [.doPendingFunctors, .functor 1]) = some s ∧
      s.functors.isEmpty ∧ s.idleTimeout.positive = false ∧
      s.loop.queue.activeTimers.elems = [⟨1, 0⟩] ∧ s.bound ⟨1, 0⟩ = some .idle) ∧
    ∃ s, Machine.run step (initial (.initial ⟨10, 0⟩))
        (onAndOff ++ [.doPendingFunctors, .functor 1, .poll, .timer (.advance 1 1), .dispatch,
          .timer .handleRead, .timer .runNext]) = some s ∧
      s.firings = [⟨⟨1, 0⟩, .idle, false⟩] ∧ s.closed = true :=
  ⟨⟨_, rfl, rfl, rfl, rfl, rfl⟩, _, rfl, rfl, rfl⟩

/-- The same with the functor of the first call run in between: the timer is cancelled. -/
theorem idle_timeout_disabled_later :
    ∃ u, Machine.run step (initial (.initial ⟨10, 0⟩))
        [.connectEstablished, .postSetIdleTimeout (.ofMicros 5), .doPendingFunctors, .functor 1,
          .postSetIdleTimeout .zero, .poll, .dispatch, .doPendingFunctors, .functor 2] = some u ∧
      u.bound ⟨1, 0⟩ = some .idle ∧ u.loop.pending ⟨1, 0⟩ = false := by
  obtain ⟨s, hs⟩ : ∃ s, Machine.run step (initial (.initial ⟨10, 0⟩))
      [.connectEstablished, .postSetIdleTimeout (.ofMicros 5), .doPendingFunctors, .functor 1] =
      some s := ⟨_, rfl⟩
  obtain ⟨t, ht⟩ : ∃ t, s.step (.postSetIdleTimeout .zero) = some t := ⟨_, rfl⟩
  have h := fun u => @idle_timeout_disabled s (.postSetIdleTimeout .zero) .zero _
    (TimerLoop.initial_reached _) _ [.poll, .dispatch, .doPendingFunctors, .functor 2] t u hs rfl
    rfl ht (by decide)
  obtain rfl := Option.some.inj hs
  obtain rfl := Option.some.inj ht
  exact ⟨_, rfl, rfl, (h _ rfl (Or.inr (by decide))).2 (by decide) ⟨1, 0⟩ rfl⟩

end TimedConnection
end ReMuduo
