import ReMuduo.KeepAlive
import ReMuduo.TimedQueue
import ReMuduo.TimerWaiting

/-! # Keep-alive timers that nobody can cancel

`setupKeepAliveTimer` overwrites `keepAliveTimerId_` without a look at the timer that it
names (`ReMuduo.KeepAlive`).  If that timer is pending, this is for ever: the connection
cancels timers through its members only, `onKeepAliveTimeout` included, and the callback of
the timer holds a `shared_ptr` to the connection.  So no later call, not `enableKeepAlive`,
`forceClose` or `connectDestroyed`, and no thread ever stops the timer, and the connection
is never deleted. -/
namespace ReMuduo
namespace TimedConnection

variable {s s' t : TimedConnection} {op : TimedOp} {id : TimerId} {a : Addr} {d : Delay}

/-! ## Keep-alive timers repeat -/

/-- The keep-alive timers have a positive interval. -/
def KeepAlivesRepeat (s : TimedConnection) : Prop :=
  ∀ id, s.bound id = some .keepAlive → s.loop.Repeats id

theorem setupKeepAliveTimer_bound (hs : s.Sound) (h : s.setupKeepAliveTimer a = some s')
    (hid : s'.bound id = some .keepAlive) :
    s.bound id = some .keepAlive ∨ s'.loop.Repeats id := by
  unfold setupKeepAliveTimer runEvery at h
  split at h
  · split at h
    · rename_i hpos
      obtain ⟨l, hl, rfl⟩ := Option.map_eq_some_iff.mp h
      obtain ⟨u, hnew, hadd⟩ := Option.bind_eq_some_iff.mp hl
      by_cases hsame : id = ⟨a, s.loop.queue.numCreated⟩
      · subst hsame
        exact Or.inr ⟨_, _, TimerLoop.addTimer_life hs.reached hnew hadd, rfl, hpos⟩
      · refine Or.inl ?_
        simpa [setTimerId, Function.update_of_ne hsame] using hid
    · obtain rfl := Option.some.inj h
      exact Or.inl hid
  · obtain rfl := Option.some.inj h
    exact Or.inl hid

theorem step_keepAlive_new (hs : s.Sound) (h : s.step op = some s')
    (hid : s'.bound id = some .keepAlive) :
    s.bound id = some .keepAlive ∨ s'.loop.Repeats id := by
  rcases (step_changes hs h).bound_new hs hid with hold | harms
  · exact Or.inl hold
  · cases op with
    | enableKeepAlive enable d a =>
      obtain ⟨-, h⟩ := Option.ite_none_right_eq_some.mp h
      cases enable with
      | false => simp [scope, arms] at harms
      | true =>
        exact setupKeepAliveTimer_bound
          (s := { s with keepAliveEnabled := true, keepAliveInterval := d })
          ⟨hs.reached, hs.known, hs.field⟩ h hid
    | functor a =>
      obtain ⟨n, f, rest, -, hf, hrun⟩ := step_functor h
      cases f with
      | setupKeepAliveTimer =>
        exact setupKeepAliveTimer_bound (s := { s with phase := .functors n, functors := rest })
          ⟨hs.reached, hs.known, hs.field⟩ hrun hid
      | _ => simp [scope, arms, hf] at harms
    | messageEnd => simp [scope, arms] at harms
    | setConnectionTimeout => simp [scope, arms] at harms
    | setIdleTimeout => simp [scope, arms] at harms
    | _ => cases harms

theorem run_keepAlivesRepeat {loop : TimerLoop} (hloop : loop.Reached) {ops : List TimedOp}
    (hrun : Machine.run step (initial loop) ops = some s) : s.Sound ∧ s.KeepAlivesRepeat := by
  refine Machine.run_invariant (P := fun s => s.Sound ∧ s.KeepAlivesRepeat) ?_ hrun
    ⟨initial_sound hloop, by simp [KeepAlivesRepeat, initial]⟩
  rintro s op s' ⟨hs, hrep⟩ h
  refine ⟨(step_changes hs h).sound hs, fun id hid => ?_⟩
  rcases step_keepAlive_new hs h hid with hold | hnew
  · exact TimerLoop.repeats_of_run hs.reached (step_performs h).queue (hrep id hold)
  · exact hnew

/-! ## Forgotten timers -/

/-- A keep-alive timer that repeats, and that neither the member nor a functor names. -/
structure Forgotten (id : TimerId) (s : TimedConnection) : Prop where
  sound : s.Sound
  bound : s.bound id = some .keepAlive
  unnamed : s.timerId .keepAlive ≠ id
  unposted : .cancelInLoop id ∉ s.functors
  periodic : s.loop.Periodic id

/-- A member is overwritten by a new timer or by none, never by a timer that it named
before. -/
theorem Changes.timerId_ne {S : Scope} {kind : TimerKind} (h : Changes S s s') (hs : s.Sound)
    (hk : s.loop.Known id) (hnull : id.timer ≠ nullptr) (hne : s.timerId kind ≠ id) :
    s'.timerId kind ≠ id := by
  refine (h.keep (P := fun t => t.loop.Known id ∧ t.timerId kind ≠ id) ?_ hs ⟨hk, hne⟩).2.2
  rintro t u hsmall ht ⟨hk, hne⟩
  refine ⟨hsmall.known ht hk, ?_⟩
  cases hsmall with
  | @arm a _ _ _ l k _ _ hnew hadd =>
    rw [withTimer_timerId]
    by_cases hkind : kind = k
    · subst hkind
      rw [Function.update_self]
      rintro rfl
      exact (TimerLoop.addTimer_spec ht.reached hnew hadd).2.2.1 hk
    · rw [Function.update_of_ne hkind]
      exact hne
  | @clear k _ =>
    simp only [setTimerId]
    by_cases hkind : kind = k
    · subst hkind
      rw [Function.update_self]
      rintro rfl
      exact hnull rfl
    · rw [Function.update_of_ne hkind]
      exact hne
  | queue | post | take | fields => exact hne

/-- Whoever cancels a timer of the connection has found it in a member. -/
theorem Forgotten.timerId_ne (hs : s.Forgotten id) {k : TimerKind}
    (hvalid : (s.timerId k).isValid = true) : s.timerId k ≠ id := by
  rintro rfl
  have hk : k = .keepAlive := Option.some.inj ((hs.sound.field k hvalid).symm.trans hs.bound)
  subst hk
  exact hs.unnamed rfl

theorem Forgotten.not_cancelled (hs : s.Forgotten id) (h : s.step op = some s') :
    .cancelInLoop id ∉ s.queueOps op := by
  intro hmem
  rcases asked_of_mem hmem with rfl | hasked
  · -- nobody else cancels the timers of the connection
    obtain ⟨hnone, -⟩ := Option.ite_none_right_eq_some.mp h
    rw [hs.bound] at hnone
    cases hnone
  · cases hasked with
    | posted hf => exact hs.unposted hf
    | named hvalid => exact hs.timerId_ne hvalid rfl

/-- **A forgotten timer stays forgotten**, whatever the step. -/
theorem Forgotten.step (hs : s.Forgotten id) (h : s.step op = some s') : s'.Forgotten id := by
  have hchanges := step_changes hs.sound h
  obtain ⟨hknown, hnull⟩ := hs.sound.known id _ hs.bound
  refine ⟨hchanges.sound hs.sound, hchanges.bound hs.sound hs.bound,
    hchanges.timerId_ne hs.sound hknown hnull hs.unnamed, fun hf => ?_, ?_⟩
  · rw [(step_frame hs.sound h).functors] at hf
    rcases List.mem_append.mp hf with hf | hf
    · exact hs.unposted (remaining_subset s op hf)
    · obtain ⟨k, hvalid, hid, -⟩ := posts_cancel hf
      exact hs.timerId_ne hvalid hid.symm
  · refine (Machine.run_invariant_mem (P := fun l => l.Reached ∧ l.Periodic id) ?_
      (step_performs h).queue ⟨hs.sound.reached, hs.periodic⟩).2
    rintro o ho l l' ⟨hl, hper⟩ hstep
    refine ⟨hl.step hstep, TimerLoop.periodic_of_step hl hstep ?_ hper⟩
    rintro rfl
    exact hs.not_cancelled h ho

/-- Setting up a keep-alive timer, directly or by a functor, forgets the pending one. -/
theorem setsUp_forgets (hs : s.Sound) (hset : s.setsUpKeepAlive op = true)
    (hp : s.loop.pending (s.timerId .keepAlive) = true) (h : s.step op = some s') :
    s'.loop.pending (s.timerId .keepAlive) = true ∧
      s'.timerId .keepAlive ≠ s.timerId .keepAlive := by
  cases op with
  | enableKeepAlive enable d a =>
    obtain rfl : enable = true := hset
    obtain ⟨-, hcall⟩ := Option.ite_none_right_eq_some.mp h
    exact enableKeepAlive_forgets hs hp hcall
  | functor a =>
    obtain ⟨n, f, rest, -, hf, hrun⟩ := step_functor h
    cases f with
    | setupKeepAliveTimer =>
      have hen : s.keepAliveEnabled = true := by simpa [setsUpKeepAlive, hf] using hset
      refine enableKeepAlive_forgets (s := { s with phase := .functors n, functors := rest })
        (a := a) (d := s.keepAliveInterval) ⟨hs.reached, hs.known, hs.field⟩ hp ?_
      simp only [enableKeepAlive, if_true]
      rw [← hen]
      exact hrun
    | _ => simp [setsUpKeepAlive, hf] at hset
  | _ => cases hset

/-- **An overwritten keep-alive timer runs for ever.**  Let a keep-alive timer be set up, by
`enableKeepAlive(true)` on the loop thread or by the functor of another thread, while the
timer that `keepAliveTimerId_` names is pending and no functor is going to cancel it.
Then the old timer is pending in every state that follows, whatever is called on
whichever thread, each call of another thread being one step: with keep-alive switched off, the
connection closed and destroyed. -/
theorem forgotten_keepAlive_forever {loop : TimerLoop} (hloop : loop.Reached)
    {before after : List TimedOp} {u : TimedConnection}
    (hbefore : Machine.run step (initial loop) before = some s)
    (hset : s.setsUpKeepAlive op = true)
    (hp : s.loop.pending (s.timerId .keepAlive) = true)
    (hq : .cancelInLoop (s.timerId .keepAlive) ∉ s.functors) (h : s.step op = some t)
    (hafter : Machine.run step t after = some u) :
    u.bound (s.timerId .keepAlive) = some .keepAlive ∧
      u.loop.pending (s.timerId .keepAlive) = true := by
  obtain ⟨hs, hrep⟩ := run_keepAlivesRepeat hloop hbefore
  have hvalid : (s.timerId .keepAlive).isValid = true :=
    decide_eq_true (hs.reached.ne_nullptr hp)
  have hbound := hs.field _ hvalid
  have hchanges := step_changes hs h
  have ht := hchanges.sound hs
  obtain ⟨hp', hne⟩ := setsUp_forgets hs hset hp h
  have hrep' := TimerLoop.repeats_of_run hs.reached (step_performs h).queue (hrep _ hbound)
  have hforgotten : t.Forgotten (s.timerId .keepAlive) := by
    refine ⟨ht, hchanges.bound hs hbound, hne, fun hf => ?_, hrep'.periodic ht.reached hp'⟩
    rw [(step_frame hs h).functors] at hf
    rcases List.mem_append.mp hf with hf | hf
    · exact hq (remaining_subset s op hf)
    · -- the steps that set up a timer post nothing
      cases op with
      | enableKeepAlive | functor => cases hf
      | _ => cases hset
  have hu : u.Forgotten (s.timerId .keepAlive) :=
    Machine.run_invariant (fun _ _ _ hs h => hs.step h) hafter hforgotten
  exact ⟨hu.bound, hu.periodic.pending hu.sound.reached⟩

/-- Keep-alive is disabled, the connection is closed and destroyed, and the timerfd expires. -/
def destroyedAndExpired : List TimedOp :=
  [.enableKeepAlive false .zero 3, .handleClose, .connectDestroyed,
    .timer (.advance 5000000 5000000), .timer .handleRead, .timer .runNext, .timer .handleReadEnd]

/-- Keep-alive is enabled twice, and what follows does not end the first timer: it fires, and
is pending again. -/
theorem forgotten_keepAlive_forever_destroyed :
    ∃ u, Machine.run step (initial (.initial ⟨10, 0⟩))
        (.connectEstablished :: .enableKeepAlive true (.ofMicros 5000000) 1 ::
          .enableKeepAlive true (.ofMicros 5000000) 2 :: destroyedAndExpired) = some u ∧
      u.firings = [⟨⟨1, 0⟩, .keepAlive, true⟩] ∧ u.bound ⟨1, 0⟩ = some .keepAlive ∧
      u.loop.pending ⟨1, 0⟩ = true := by
  obtain ⟨s, hs⟩ : ∃ s, Machine.run step (initial (.initial ⟨10, 0⟩))
      [.connectEstablished, .enableKeepAlive true (.ofMicros 5000000) 1] = some s := ⟨_, rfl⟩
  obtain ⟨t, ht⟩ : ∃ t, s.step (.enableKeepAlive true (.ofMicros 5000000) 2) = some t := by
    obtain rfl := Option.some.inj hs
    exact ⟨_, rfl⟩
  have hnone : s.functors = [] := by
    obtain rfl := Option.some.inj hs
    rfl
  have h := fun hp u => @forgotten_keepAlive_forever s t
    (.enableKeepAlive true (.ofMicros 5000000) 2) _ (TimerLoop.initial_reached _) _
    destroyedAndExpired u hs rfl hp (by simp [hnone]) ht
  obtain rfl := Option.some.inj hs
  obtain rfl := Option.some.inj ht
  exact ⟨_, rfl, rfl, h rfl _ rfl⟩

end TimedConnection
end ReMuduo
