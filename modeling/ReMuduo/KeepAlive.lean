import ReMuduo.TimedSteps

/-! # The keep-alive timer

`setupKeepAliveTimer` assigns the new timer to `keepAliveTimerId_` and does not look at the
timer that was there, while `setConnectionTimeoutInLoop` and `resetIdleTimerInLoop` cancel
it first.  A keep-alive timer that is overwritten while it is pending cannot be cancelled
any more: it fires for ever, and the connection it holds is never destroyed.  This module
shows that nothing else goes wrong with the keep-alive timers, as long as
`enableKeepAlive` is called on the loop thread. -/
namespace ReMuduo

/-- `enableKeepAlive` is not called on another thread. -/
def TimedOp.keepsAliveInLoop : TimedOp → Bool
  | .postEnableKeepAlive _ _ => false
  | _ => true

namespace TimedConnection

variable {s s' : TimedConnection} {op : TimedOp} {id : TimerId}

/-- The keep-alive timers among the callbacks that were called after `handleClose` had
run. -/
def lateKeepAlives (firings : List Firing) : List TimerId :=
  (firings.filter (fun f => f.closed && decide (f.kind = .keepAlive))).map Firing.id

/-- The queue holds at most one keep-alive timer, and it is the one that
`keepAliveTimerId_` names; none has fired twice after `handleClose` had run. -/
structure OneKeepAlive (s : TimedConnection) : Prop where
  named : ∀ id, s.bound id = some .keepAlive → s.loop.pending id = true →
    id = s.timerId .keepAlive
  late : (lateKeepAlives s.firings).Nodup

/-! ## Calls on the loop thread -/

/-- What holds as long as `enableKeepAlive` is called on the loop thread: no functor sets up
or cancels a keep-alive timer. -/
structure KeptInLoop (s : TimedConnection) : Prop where
  sound : s.Sound
  down : s.closed = true → s.state = .kDisconnected
  setsUp : .setupKeepAliveTimer ∉ s.functors
  cancels : ∀ id, .cancelInLoop id ∈ s.functors → ∃ k, k ≠ .keepAlive ∧ s.bound id = some k

theorem initial_keptInLoop {loop : TimerLoop} (h : loop.Reached) : (initial loop).KeptInLoop :=
  ⟨initial_sound h, nofun, nofun, nofun⟩

/-- Only `enableKeepAlive` posts functors that concern the keep-alive timers. -/
theorem KeptInLoop.posts (hs : s.KeptInLoop) (hop : op.keepsAliveInLoop = true) {f : TimedFunctor}
    (hf : f ∈ s.posts op) : f ≠ .setupKeepAliveTimer ∧
      ∀ id, f = .cancelInLoop id → ∃ k, k ≠ .keepAlive ∧ s.bound id = some k := by
  cases op with
  | postSetConnectionTimeout d =>
    obtain rfl := List.mem_singleton.mp hf
    simp
  | postSetIdleTimeout d =>
    simp only [TimedConnection.posts] at hf
    split at hf
    · obtain rfl := List.mem_singleton.mp hf
      simp
    · obtain ⟨hvalid, rfl⟩ := mem_postsCancel hf
      refine ⟨by simp, ?_⟩
      rintro id ⟨⟩
      exact ⟨.idle, by simp, hs.sound.field .idle hvalid⟩
  | postForceClose =>
    simp only [TimedConnection.posts] at hf
    split at hf
    · obtain rfl := List.mem_singleton.mp hf
      simp
    · cases hf
  | postEnableKeepAlive => cases hop
  | _ => cases hf

theorem KeptInLoop.step (hs : s.KeptInLoop) (hop : op.keepsAliveInLoop = true)
    (h : s.step op = some s') : s'.KeptInLoop := by
  have hchanges := step_changes hs.sound h
  have hframe := step_frame hs.sound h
  have hmem : ∀ {f}, f ∈ s'.functors → f ∈ s.functors ∨ f ∈ s.posts op := by
    intro f hf
    rw [hframe.functors] at hf
    exact (List.mem_append.mp hf).imp_left (fun h => remaining_subset s op h)
  refine ⟨hchanges.sound hs.sound, hframe.down hs.down, fun hf => ?_, fun id hf => ?_⟩
  · rcases hmem hf with hold | hnew
    · exact hs.setsUp hold
    · exact (hs.posts hop hnew).1 rfl
  · obtain ⟨k, hne, hk⟩ : ∃ k, k ≠ .keepAlive ∧ s.bound id = some k := by
      rcases hmem hf with hold | hnew
      · exact hs.cancels id hold
      · exact (hs.posts hop hnew).2 id rfl
    exact ⟨k, hne, hchanges.bound hs.sound hk⟩

/-! ## A keep-alive timer that fires late -/

theorem cancel_awaits {kind : TimerKind} (hs : s.Sound) (h : s.cancel kind = some s') :
    s'.loop.AwaitsCallback id ↔ s.loop.AwaitsCallback id := by
  unfold cancel at h
  split at h
  · obtain ⟨l, hl, rfl⟩ := Option.map_eq_some_iff.mp h
    exact TimerLoop.awaitsCallback_cancelInLoop hs.reached hl
  · obtain rfl := Option.some.inj h
    rfl

/-- The invariant that carries the second half of `OneKeepAlive`: a keep-alive timer that
has fired after `handleClose` is cancelled for good. -/
structure KeepAlives (s : TimedConnection) : Prop extends OneKeepAlive s where
  spent : ∀ id ∈ lateKeepAlives s.firings, s.loop.Known id ∧ s.loop.pending id = false ∧
    ¬ s.loop.AwaitsCallback id

theorem initial_keepAlives (loop : TimerLoop) : (initial loop).KeepAlives :=
  ⟨⟨nofun, List.nodup_nil⟩, nofun⟩

/-- If the connection is closed, the callback of a keep-alive timer cancels the timer: it is
the one that the member names. -/
theorem late_spent (hs : s.KeptInLoop) (hkeep : s.OneKeepAlive) {l : TimerLoop}
    (hl : s.loop.step .runNext = some l) (hnext : s.loop.next = some id)
    (hb : s.bound id = some .keepAlive) (hclosed : s.closed = true)
    (h : fire { s with loop := l } id = some s') :
    s'.loop.Known id ∧ s'.loop.pending id = false ∧ ¬ s'.loop.AwaitsCallback id := by
  obtain ⟨i, hi, -, hdone, hsame, hknown, -⟩ := TimerLoop.runNext_spec hs.sound.reached hl
  obtain rfl := Option.some.inj (hnext.symm.trans hi)
  have hsl : ({ s with loop := l } : TimedConnection).Sound :=
    Small.sound (S := .inner) (.queue hl) hs.sound
  have hst : ({ s with loop := l, firings := s.firings ++ [⟨id, .keepAlive, s.closed⟩] } :
      TimedConnection).Sound := ⟨hsl.reached, hsl.known, hsl.field⟩
  have hstate : s.state ≠ .kConnected := by simp [hs.down hclosed]
  simp only [fire, hb, onTimeout, if_pos hstate] at h
  obtain ⟨l', heq, hchanges, hno⟩ := cancel_spec .inner hst h
  cases hp : s.loop.pending id with
  | false => exact hchanges.spent hst hknown (hsame.trans hp) hdone
  | true =>
    have hvalid : (s.timerId .keepAlive).isValid = true := by
      rw [← hkeep.named id hb hp]
      exact decide_eq_true (hs.sound.reached.ne_nullptr hp)
    refine ⟨hchanges.known hst hknown, ?_, fun hd => hdone ((cancel_awaits hst h).mp hd)⟩
    rw [heq, hkeep.named id hb hp]
    exact hno hvalid

theorem lateKeepAlives_append (fs gs : List Firing) :
    lateKeepAlives (fs ++ gs) = lateKeepAlives fs ++ lateKeepAlives gs := by
  simp [lateKeepAlives]

/-- At most one late keep-alive timer fires in a step; it was due before and is cancelled
after it. -/
theorem late_fires (hs : s.KeptInLoop) (hkeep : s.OneKeepAlive) (h : s.step op = some s') :
    (lateKeepAlives (s.fires op)).Nodup ∧ ∀ id ∈ lateKeepAlives (s.fires op),
      s.loop.AwaitsCallback id ∧
        s'.loop.Known id ∧ s'.loop.pending id = false ∧ ¬ s'.loop.AwaitsCallback id := by
  have hnone : s.fires op = [] → (lateKeepAlives (s.fires op)).Nodup ∧
      ∀ id ∈ lateKeepAlives (s.fires op), s.loop.AwaitsCallback id ∧
        s'.loop.Known id ∧ s'.loop.pending id = false ∧ ¬ s'.loop.AwaitsCallback id := by
    intro hfires
    rw [hfires]
    simp [lateKeepAlives]
  cases op with
  | timer op =>
    cases op with
    | runNext =>
      obtain ⟨i, l, -, hnext, hl, h⟩ := timerStep_runNext h
      obtain ⟨j, hj, hdue, -⟩ := TimerLoop.runNext_spec hs.sound.reached hl
      obtain rfl := Option.some.inj (hnext.symm.trans hj)
      have hfires : s.fires (.timer .runNext) = s.firing i := by simp [fires, hnext]
      cases hb : s.bound i with
      | none => exact hnone (by simp [hfires, firing, hb])
      | some k =>
        have hlate : lateKeepAlives (s.fires (.timer .runNext)) =
            if s.closed = true ∧ k = .keepAlive then [i] else [] := by
          rw [hfires]
          simp only [firing, hb, lateKeepAlives, List.filter_cons, List.filter_nil]
          split_ifs with h₁ h₂ h₂ <;> simp_all
        rw [hlate]
        split
        · rename_i hcond
          obtain ⟨hclosed, rfl⟩ := hcond
          refine ⟨List.nodup_singleton i, fun id hid => ?_⟩
          obtain rfl := List.mem_singleton.mp hid
          exact ⟨hdue, late_spent hs hkeep hl hnext hb hclosed h⟩
        · simp
    | _ => exact hnone rfl
  | _ => exact hnone rfl

/-! ## The condition -/

theorem KeepAlives.step (hs : s.KeptInLoop) (hop : op.keepsAliveInLoop = true)
    (hkeep : s.KeepAlives) (hG : s.KeepAliveFree op) (h : s.step op = some s') :
    s'.KeepAlives := by
  have hchanges := step_changes hs.sound h
  have hfirings : lateKeepAlives s'.firings =
      lateKeepAlives s.firings ++ lateKeepAlives (s.fires op) := by
    rw [(step_frame hs.sound h).firings, lateKeepAlives_append]
  obtain ⟨hnodup, hfires⟩ := late_fires hs hkeep.toOneKeepAlive h
  refine ⟨⟨fun id hk hp => ?_, ?_⟩, fun id hid => ?_⟩
  · have hnamed : s.NamedFor .keepAlive := fun id hk hp => Or.inl (hkeep.named id hk hp)
    have hforgets : ¬ (s.scope op).forgets .keepAlive := fun hno => hno.2 hG
    rcases hchanges.namedFor hforgets hs.sound hnamed id hk hp with hid | hq
    · exact hid
    · obtain ⟨k, hne, hk'⟩ := (hs.step hop h).cancels id hq
      exact absurd (Option.some.inj (hk'.symm.trans hk)) hne
  · rw [hfirings]
    refine hkeep.late.append hnodup fun id hold hnew => ?_
    exact (hkeep.spent id hold).2.2 (hfires id hnew).1
  · rw [hfirings] at hid
    rcases List.mem_append.mp hid with hold | hnew
    · obtain ⟨hk, hp, hd⟩ := hkeep.spent id hold
      exact hchanges.spent hs.sound hk hp hd
    · exact (hfires id hnew).2

/-- `enableKeepAlive(true)` leaves the old timer pending, and the member names another. -/
theorem enableKeepAlive_forgets {a : Addr} {d : Delay} (hs : s.Sound)
    (hp : s.loop.pending (s.timerId .keepAlive) = true)
    (h : s.enableKeepAlive a true d = some s') :
    s'.loop.pending (s.timerId .keepAlive) = true ∧
      s'.timerId .keepAlive ≠ s.timerId .keepAlive := by
  have hnull := hs.reached.ne_nullptr hp
  have hvalid : (s.timerId .keepAlive).isValid = true := decide_eq_true hnull
  have hknown := (hs.known _ _ (hs.field _ hvalid)).1
  simp only [enableKeepAlive, setupKeepAliveTimer, runEvery, if_true] at h
  split at h
  · obtain ⟨l, hl, rfl⟩ := Option.map_eq_some_iff.mp h
    obtain ⟨u, hnew, hadd⟩ := Option.bind_eq_some_iff.mp hl
    obtain ⟨-, -, hfresh, -, -, hother⟩ := TimerLoop.addTimer_spec hs.reached hnew hadd
    have hne : s.timerId .keepAlive ≠ ⟨a, s.loop.queue.numCreated⟩ := by
      intro hsame
      rw [hsame] at hknown
      exact hfresh hknown
    refine ⟨(hother _ hne).pending.trans hp, ?_⟩
    simpa [setTimerId] using hne.symm
  · obtain rfl := Option.some.inj h
    refine ⟨hp, ?_⟩
    simp only [setTimerId, Function.update_self]
    intro hsame
    rw [← hsame] at hnull
    exact hnull rfl

theorem OneKeepAlive.keepAliveFree (hs : s.KeptInLoop) (h : s.step op = some s')
    (hkeep : s'.OneKeepAlive) : s.KeepAliveFree op := by
  intro hset
  by_contra hp
  rw [Bool.not_eq_false] at hp
  cases op with
  | enableKeepAlive enable d a =>
    obtain rfl : enable = true := hset
    obtain ⟨-, hcall⟩ := Option.ite_none_right_eq_some.mp h
    obtain ⟨hp', hne⟩ := enableKeepAlive_forgets hs.sound hp hcall
    have hvalid : (s.timerId .keepAlive).isValid = true :=
      decide_eq_true (hs.sound.reached.ne_nullptr hp)
    have hb := (step_changes hs.sound h).bound hs.sound (hs.sound.field _ hvalid)
    exact hne (hkeep.named _ hb hp').symm
  | functor a =>
    simp only [setsUpKeepAlive] at hset
    split at hset
    · rename_i rest hf
      exact hs.setsUp (hf ▸ List.mem_cons_self)
    · cases hset
  | _ => cases hset

/-- **When there is one keep-alive timer.**  With `enableKeepAlive` called on the loop thread:
in all states of a run the queue holds no keep-alive timer but the one that
`keepAliveTimerId_` names, and none has fired twice after `handleClose`, exactly if
`enableKeepAlive(true)` is never called while the timer named by `keepAliveTimerId_` is
pending. -/
theorem oneKeepAlive_iff_keepAliveFree {loop : TimerLoop} (hloop : loop.Reached)
    {ops : List TimedOp} (hops : ∀ op ∈ ops, op.keepsAliveInLoop = true)
    (hrun : Machine.run step (initial loop) ops = some s) :
    Machine.Throughout step OneKeepAlive (initial loop) ops ↔
      Machine.Along step KeepAliveFree (initial loop) ops :=
  Machine.throughout_iff_along (I := KeptInLoop) (Q := KeepAlives)
    (fun op hop _ _ hs h => hs.step (hops op hop) h)
    (fun op hop _ _ hs hkeep hG h => hkeep.step hs (hops op hop) hG h)
    (fun _ _ _ _ hs _ h hkeep => hkeep.keepAliveFree hs h)
    (fun _ h => h.toOneKeepAlive) hrun (initial_keptInLoop hloop) (initial_keepAlives loop)

/-- A connection on a fresh loop on which keep-alive is enabled twice. -/
def enabledTwice : List TimedOp :=
  [.connectEstablished, .enableKeepAlive true (.ofMicros 5000000) 1,
    .enableKeepAlive true (.ofMicros 5000000) 2]

/-- The connection is closed, and the timerfd expires two times. -/
def closedAndExpired : List TimedOp :=
  [.handleClose, .timer (.advance 5000000 5000000), .timer .handleRead, .timer .runNext,
    .timer .handleReadEnd, .timer (.advance 5000000 5000000), .timer .handleRead, .timer .runNext]

/-- There are two keep-alive timers then; `handleClose` cancels the second, and the first
goes on firing. -/
theorem keepAlive_lost :
    (∃ s, Machine.run step (initial (.initial ⟨10, 0⟩)) enabledTwice = some s ∧
      s.loop.queue.activeTimers.elems = [⟨1, 0⟩, ⟨2, 1⟩] ∧
      s.bound ⟨1, 0⟩ = some .keepAlive ∧ s.bound ⟨2, 1⟩ = some .keepAlive ∧
      s.timerId .keepAlive = ⟨2, 1⟩ ∧ ¬ s.OneKeepAlive) ∧
    ∃ s, Machine.run step (initial (.initial ⟨10, 0⟩)) (enabledTwice ++ closedAndExpired) =
        some s ∧
      s.firings = [⟨⟨1, 0⟩, .keepAlive, true⟩, ⟨⟨1, 0⟩, .keepAlive, true⟩] := by
  refine ⟨⟨_, rfl, rfl, rfl, rfl, rfl, fun h => ?_⟩, _, rfl, rfl⟩
  cases h.named ⟨1, 0⟩ rfl rfl

/-- Keep-alive is enabled, disabled and enabled again, and the connection is closed while the
timerfd expires. -/
def switchedAndClosed : List TimedOp :=
  [.connectEstablished, .enableKeepAlive true (.ofMicros 5000000) 1,
    .enableKeepAlive false (.ofMicros 5000000) 2, .enableKeepAlive true (.ofMicros 7000000) 2,
    .timer (.advance 7000000 7000000), .timer .handleRead, .forceClose, .timer .runNext]

theorem oneKeepAlive_iff_keepAliveFree_switched :
    Machine.Throughout step OneKeepAlive (initial (.initial ⟨10, 0⟩)) switchedAndClosed := by
  obtain ⟨s, hs⟩ : ∃ s, Machine.run step (initial (.initial ⟨10, 0⟩)) switchedAndClosed =
    some s := ⟨_, rfl⟩
  exact (oneKeepAlive_iff_keepAliveFree (TimerLoop.initial_reached _) (by decide) hs).mpr
    (by decide +kernel)

end TimedConnection
end ReMuduo
