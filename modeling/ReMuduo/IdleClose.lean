import ReMuduo.TimedQueue
import ReMuduo.TimerWaiting

/-! # When an idle connection is closed

`setIdleTimeout(seconds)` promises that a connection is closed once nothing has been read
from it for that long.  `handleRead` keeps the promise with `resetIdleTimerInLoop`: after the
message callback it cancels the timer that `idleTimerId_` names and makes a new one.

The promise has two halves.  No idle timer may fire too early, whichever timer it is: one that
was made before the last message, or one that the last message made (`idle_close_not_early`).
And the timer of the last message must fire, unless the connection is down already
(`silent_connection_closed`).  Each half rests on a property of single timers
(`ReMuduo.TimerWaiting`) that the operations of the queue keep, up to those which the code
does not ask for (`ReMuduo.TimedQueue`). -/
namespace ReMuduo

/-- The wall clock is not set back by the step. -/
def TimedOp.forward : TimedOp → Bool
  | .timer (.advance wall _) => decide (0 ≤ wall)
  | _ => true

def TimedOp.isMessageEnd : TimedOp → Bool
  | .messageEnd _ => true
  | _ => false

namespace TimedConnection

variable {s s' t : TimedConnection} {op : TimedOp} {id : TimerId} {a : Addr} {b e : Int}

theorem wall_le_of_step (hop : op.forward = true) (h : s.step op = some s') :
    s.loop.clock.wall ≤ s'.loop.clock.wall := by
  refine Machine.run_invariant_mem (P := fun l => s.loop.clock.wall ≤ l.clock.wall) ?_
    (step_performs h).queue (le_refl _)
  intro o ho l l' hle hstep
  by_cases hadv : ∃ wall mono, o = .advance wall mono
  · obtain ⟨wall, mono, rfl⟩ := hadv
    rcases asked_of_mem ho with rfl | hasked
    · obtain ⟨-, rfl⟩ := TimerLoop.step_advance hstep
      have hwall : 0 ≤ wall := of_decide_eq_true hop
      exact hle.trans (Int.le_add_of_nonneg_right hwall)
    · cases hasked
  · push Not at hadv
    rw [TimerLoop.clock_of_step hstep hadv]
    exact hle

/-- In the message callback no batch of timers is being handled, and the connection is
established or was. -/
def Resting (s : TimedConnection) : Prop :=
  s.reading = true → s.loop.batch = none ∧ s.state ≠ .kConnecting

theorem batch_none_of_step (hop : op ≠ .timer .handleRead) (h : s.step op = some s')
    (hb : s.loop.batch = none) : s'.loop.batch = none := by
  refine Machine.run_invariant_mem (P := fun l => l.batch = none) ?_ (step_performs h).queue hb
  intro o ho l l' hl hstep
  refine TimerLoop.batch_none_of_step hstep ?_ hl
  rintro rfl
  rcases asked_of_mem ho with hop' | hasked
  · exact hop hop'
  · cases hasked

theorem not_connecting_of_step (h : s.step op = some s') (hs : s.state ≠ .kConnecting) :
    s'.state ≠ .kConnecting := by
  rw [(step_performs h).state, stateAfter]
  split
  · simp
  · cases op with
    | shutdown | postShutdown | connectDestroyed | postForceClose =>
      simp only [openStateAfter]
      split
      · simp
      · exact hs
    | connectEstablished => simp [openStateAfter]
    | _ => exact hs

theorem step_resting (hs : s.Resting) (h : s.step op = some s') : s'.Resting := by
  intro hreading
  rw [(step_performs h).reading] at hreading
  by_cases hmsg : op = .message
  · subst hmsg
    obtain ⟨⟨hev, hstate⟩, ⟨⟩⟩ := Option.ite_none_right_eq_some.mp h
    refine ⟨?_, hstate⟩
    simp only [atEvents, atRest, Bool.and_eq_true, Option.isNone_iff_eq_none] at hev
    exact hev.2.1
  · have hread : s.reading = true := by
      cases op with
      | message => exact absurd rfl hmsg
      | messageEnd a => cases hreading
      | _ => exact hreading
    obtain ⟨hb, hstate⟩ := hs hread
    refine ⟨batch_none_of_step ?_ h hb, not_connecting_of_step h hstate⟩
    rintro rfl
    obtain ⟨hev, -⟩ := Option.ite_none_right_eq_some.mp h
    simp [atEvents, atRest, hread] at hev

/-- The functors cancel timers that have been added. -/
def CancelsKnown (s : TimedConnection) : Prop :=
  ∀ id, .cancelInLoop id ∈ s.functors → s.loop.Known id

theorem step_cancelsKnown (hs : s.Sound) (hc : s.CancelsKnown) (h : s.step op = some s') :
    s'.CancelsKnown := by
  intro id hid
  refine Changes.known (step_changes hs h) hs ?_
  rw [(step_frame hs h).functors] at hid
  rcases List.mem_append.mp hid with hid | hid
  · exact hc id (remaining_subset s op hid)
  · obtain ⟨k, hvalid, rfl, -⟩ := posts_cancel hid
    exact (hs.known _ k (hs.field k hvalid)).1

/-- What every run keeps. -/
structure Orderly (s : TimedConnection) : Prop where
  sound : s.Sound
  named : s.NamedFor .idle
  resting : s.Resting
  known : s.CancelsKnown

theorem initial_orderly {loop : TimerLoop} (hloop : loop.Reached) : (initial loop).Orderly where
  sound := initial_sound hloop
  named := initial_namedFor loop .idle
  resting := by simp [Resting, initial]
  known := by simp [CancelsKnown, initial]

theorem step_orderly (hs : s.Orderly) (h : s.step op = some s') : s'.Orderly where
  sound := (step_changes hs.sound h).sound hs.sound
  named := step_idle_named hs.sound hs.named h
  resting := step_resting hs.resting h
  known := step_cancelsKnown hs.sound hs.known h

theorem run_orderly {ops : List TimedOp} (hs : s.Orderly)
    (hrun : Machine.run step s ops = some s') : s'.Orderly :=
  Machine.run_invariant (fun _ _ _ hs h => step_orderly hs h) hrun hs

/-! ## The timer that `resetIdleTimerInLoop` makes -/

/-- The expiration of an idle timer made now. -/
def idleExpiration (s : TimedConnection) : Int :=
  addTime s.loop.clock.wall s.idleTimeout.seconds

/-- `resetIdleTimerInLoop` makes a timer that expires after the idle timeout, or none. -/
theorem resetIdleTimerInLoop_bound (hs : s.Sound) (h : s.resetIdleTimerInLoop a = some s')
    (hid : s'.bound id = some .idle) : s.bound id = some .idle ∨
      s'.loop.LifeIs id (.scheduled ⟨s.idleExpiration, .zero, id.sequence⟩) := by
  obtain ⟨t, hcancel, h⟩ := Option.bind_eq_some_iff.mp h
  obtain ⟨l, rfl, hclock, -⟩ := cancel_eq hcancel
  obtain ⟨-, -, hchanges, -⟩ := cancel_spec Scope.inner hs hcancel
  have hreached := (hchanges.sound hs).reached
  simp only [runAfter] at h
  split at h
  · obtain rfl := Option.some.inj h
    exact Or.inl hid
  · split at h
    · obtain ⟨l', hl', rfl⟩ := Option.map_eq_some_iff.mp h
      obtain ⟨u, hnew, hadd⟩ := Option.bind_eq_some_iff.mp hl'
      by_cases hsame : id = ⟨a, l.queue.numCreated⟩
      · subst hsame
        refine Or.inr ?_
        have hlife := TimerLoop.addTimer_life hreached hnew hadd
        simp only [hclock] at hlife
        exact hlife
      · refine Or.inl ?_
        simpa [setTimerId, Function.update_of_ne hsame] using hid
    · obtain rfl := Option.some.inj h
      exact Or.inl hid

/-- It does make one if the timeout is positive and the clock shows a time after the epoch. -/
theorem resetIdleTimerInLoop_makes (hs : s.Sound) (hpos : s.idleTimeout.positive = true)
    (hclock : 0 < s.loop.clock.wall) (h : s.resetIdleTimerInLoop a = some s') :
    ∃ id, s'.bound id = some .idle ∧
      s'.loop.LifeIs id (.scheduled ⟨s.idleExpiration, .zero, id.sequence⟩) ∧
        ¬ s.loop.Known id := by
  obtain ⟨t, hcancel, h⟩ := Option.bind_eq_some_iff.mp h
  obtain ⟨l, rfl, hclockl, -⟩ := cancel_eq hcancel
  obtain ⟨-, -, hchanges, -⟩ := cancel_spec Scope.inner hs hcancel
  have hreached := (hchanges.sound hs).reached
  have hneg : s.idleTimeout.negative = false := s.idleTimeout.sign hpos
  have hvalid : Timestamp.valid (addTime l.clock.wall s.idleTimeout.seconds) = true := by
    rw [hclockl]
    exact decide_eq_true
      (Int.add_pos_of_pos_of_nonneg hclock (s.idleTimeout.seconds.micros_nonneg hpos))
  simp only [runAfter, hneg, hvalid, Bool.false_eq_true, if_false, if_true] at h
  obtain ⟨l', hl', rfl⟩ := Option.map_eq_some_iff.mp h
  obtain ⟨u, hnew, hadd⟩ := Option.bind_eq_some_iff.mp hl'
  obtain ⟨-, -, hfresh, -⟩ := TimerLoop.addTimer_spec hreached hnew hadd
  refine ⟨⟨a, l.queue.numCreated⟩, Function.update_self _ _ _, ?_, fun hk => hfresh ?_⟩
  · have hlife := TimerLoop.addTimer_life hreached hnew hadd
    simp only [hclockl] at hlife
    exact hlife
  · exact hchanges.known hs hk

/-- The timer that the member named is not pending any more. -/
theorem resetIdleTimerInLoop_cancels (hs : s.Sound) (h : s.resetIdleTimerInLoop a = some s')
    (hvalid : (s.timerId .idle).isValid = true) : s'.loop.pending (s.timerId .idle) = false := by
  obtain ⟨t, hcancel, h⟩ := Option.bind_eq_some_iff.mp h
  obtain ⟨l, rfl, hchanges, hno⟩ := cancel_spec Scope.inner hs hcancel
  have hsound := hchanges.sound hs
  have hafter := runAfter_changes (S := Scope.inner) (fun _ => trivial) (Or.inl trivial) h
  exact hafter.not_pending hsound (hsound.known _ .idle (hs.field _ hvalid)).1 (hno hvalid)

theorem step_messageEnd (hpos : s.idleTimeout.positive = true)
    (h : s.step (.messageEnd a) = some s') :
    s.reading = true ∧ resetIdleTimerInLoop { s with reading := false } a = some s' := by
  obtain ⟨hreading, h⟩ := Option.ite_none_right_eq_some.mp h
  rw [if_pos hpos] at h
  exact ⟨hreading, h⟩

/-- **Every new idle timer expires after the idle timeout**, counted from the step that makes
it. -/
theorem step_idle_new (hs : s.Sound) (hop : op.setsIdleTimeout = none) (h : s.step op = some s')
    (hid : s'.bound id = some .idle) : s.bound id = some .idle ∨
      s'.loop.LifeIs id (.scheduled ⟨s.idleExpiration, .zero, id.sequence⟩) := by
  rcases (step_changes hs h).bound_new hs hid with hold | harms
  · exact Or.inl hold
  · cases op with
    | messageEnd a =>
      have hpos : s.idleTimeout.positive = true := by
        by_contra hno
        simp [scope, arms, hno] at harms
      obtain ⟨-, hreset⟩ := step_messageEnd hpos h
      exact resetIdleTimerInLoop_bound (s := { s with reading := false })
        ⟨hs.reached, hs.known, hs.field⟩ hreset hid
    | functor a =>
      obtain ⟨n, f, rest, -, hf, hrun⟩ := step_functor h
      cases f with
      | resetIdleTimerInLoop =>
        exact resetIdleTimerInLoop_bound (s := { s with phase := .functors n, functors := rest })
          ⟨hs.reached, hs.known, hs.field⟩ hrun hid
      | _ => simp [scope, arms, hf] at harms
    | setIdleTimeout => cases hop
    | setConnectionTimeout => simp [scope, arms] at harms
    | enableKeepAlive => simp [scope, arms] at harms
    | _ => cases harms

/-! ## Never too early -/

/-- Every idle timer fires at `b` or later, and so will every new one. -/
structure NotBefore (d : Delay) (b : Int) (s : TimedConnection) : Prop where
  sound : s.Sound
  timeout : s.idleTimeout = d
  expiration : b ≤ s.idleExpiration
  late : ∀ id, s.bound id = some .idle → s.loop.Late id b

theorem late_of_new (hb : b ≤ e)
    (hl : s.loop.LifeIs id (.scheduled ⟨e, .zero, id.sequence⟩)) : s.loop.Late id b :=
  ⟨_, hl, hb, rfl⟩

theorem NotBefore.step {d : Delay} (hs : s.NotBefore d b) (hop : op.setsIdleTimeout = none)
    (hclock : op.forward = true) (h : s.step op = some s') : s'.NotBefore d b := by
  have htimeout : s'.idleTimeout = s.idleTimeout := by
    rw [(step_frame hs.sound h).idleTimeout]
    cases op with
    | setIdleTimeout | postSetIdleTimeout => cases hop
    | _ => rfl
  refine ⟨(step_changes hs.sound h).sound hs.sound, htimeout.trans hs.timeout, ?_, fun id hid => ?_⟩
  · refine hs.expiration.trans ?_
    rw [idleExpiration, idleExpiration, htimeout]
    exact Int.add_le_add_right (wall_le_of_step hclock h) _
  · rcases step_idle_new hs.sound hop h hid with hold | hnew
    · exact TimerLoop.late_of_run hs.sound.reached (step_performs h).queue (hs.late id hold)
    · exact late_of_new hs.expiration hnew

theorem NotBefore.run {d : Delay} {ops : List TimedOp} (hs : s.NotBefore d b)
    (hops : ∀ o ∈ ops, o.setsIdleTimeout = none ∧ o.forward = true)
    (hrun : Machine.run TimedConnection.step s ops = some s') : s'.NotBefore d b :=
  Machine.run_invariant_mem (P := NotBefore d b)
    (fun o ho _ _ hs h => hs.step (hops o ho).1 (hops o ho).2 h) hrun hs

theorem not_awaitsCallback (hb : s.loop.batch = none) : ¬ s.loop.AwaitsCallback id := by
  rintro ⟨batch, t, hsome, -⟩
  rw [hb] at hsome
  cases hsome

/-- The end of a message leaves no idle timer that would fire early. -/
theorem notBefore_of_messageEnd (hs : s.Orderly) (hpos : s.idleTimeout.positive = true)
    (hcancel : ∀ id, .cancelInLoop id ∈ s.functors → s.bound id ≠ some .idle)
    (h : s.step (.messageEnd a) = some s') : s'.NotBefore s.idleTimeout s.idleExpiration := by
  obtain ⟨hreading, hreset⟩ := step_messageEnd hpos h
  have hchanges := step_changes hs.sound h
  have hsound := hchanges.sound hs.sound
  refine ⟨hsound, (step_frame hs.sound h).idleTimeout, ?_, fun id hid => ?_⟩
  · rw [idleExpiration, idleExpiration, (step_frame hs.sound h).idleTimeout]
    exact Int.add_le_add_right (wall_le_of_step rfl h) _
  · rcases step_idle_new hs.sound rfl h hid with hold | hnew
    · -- an older timer: it was pending only if the member named it, and is cancelled then
      refine TimerLoop.late_of_spent hsound.reached (hsound.known id _ hid).1 ?_ ?_
      · refine Bool.eq_false_iff.mpr fun hp' => ?_
        have hp := hchanges.pending hs.sound (hs.sound.known id _ hold).1 hp'
        obtain rfl | hq := hs.named id hold hp
        · rw [resetIdleTimerInLoop_cancels (s := { s with reading := false })
            ⟨hs.sound.reached, hs.sound.known, hs.sound.field⟩ hreset
            (decide_eq_true (hs.sound.known _ _ hold).2)] at hp'
          cases hp'
        · exact hcancel id hq hold
      · refine not_awaitsCallback (batch_none_of_step ?_ h (hs.resting hreading).1)
        simp
    · exact late_of_new (le_refl _) hnew

/-- **A connection is not closed as idle before it has been idle long enough.**  Let the message
callback return at some time with a positive idle timeout, let the timeout not be changed
from then on and the wall clock not be set back.  Then a batch in which an idle timer of the
connection fires has begun at that time plus the timeout, or later: whichever timer it is.
This needs that no functor of another thread's `setIdleTimeout(0)` is still to cancel an idle
timer: such a timer is no longer named by `idleTimerId_`, and `resetIdleTimerInLoop` misses
it.  For the same reason it matters that the calls of other threads are single steps. -/
theorem idle_close_not_early {loop : TimerLoop} (hloop : loop.Reached)
    {before after : List TimedOp} {u u' : TimedConnection} {f : Firing}
    (hbefore : Machine.run step (initial loop) before = some s)
    (hcancel : ∀ id, .cancelInLoop id ∈ s.functors → s.bound id ≠ some .idle)
    (hpos : s.idleTimeout.positive = true) (hmsg : s.step (.messageEnd a) = some t)
    (hkeep : ∀ o ∈ after, o.setsIdleTimeout = none ∧ o.forward = true)
    (hafter : Machine.run step t after = some u) (hstep : u.step op = some u')
    (hf : f ∈ u.fires op) (hidle : f.kind = .idle) :
    ∃ batch, u.loop.batch = some batch ∧
      addTime s.loop.clock.wall s.idleTimeout.seconds ≤ batch.now := by
  have hs := run_orderly (initial_orderly hloop) hbefore
  have hu := (notBefore_of_messageEnd hs hpos hcancel hmsg).run hkeep hafter
  cases op with
  | timer op' =>
    cases op' with
    | runNext =>
      obtain ⟨id, l, -, hnext, hl, -⟩ := timerStep_runNext hstep
      obtain ⟨id', hnext', hawaits, -⟩ := TimerLoop.runNext_spec hu.sound.reached hl
      obtain rfl := Option.some.inj (hnext.symm.trans hnext')
      have hbound : u.bound id = some .idle := by
        simp only [fires, hnext, Option.elim, firing] at hf
        split at hf
        · cases hf
        · rename_i k hk
          obtain rfl := List.mem_singleton.mp hf
          rw [hk, show k = .idle from hidle]
      exact (hu.late id hbound).batch hu.sound.reached hawaits
    | _ => cases hf
  | _ => cases hf

/-- A message is being read on a connection with an idle timeout of five microseconds. -/
def readingWithTimeout : List TimedOp :=
  [.connectEstablished, .setIdleTimeout (.ofMicros 5) 1, .message]

theorem idle_close_not_early_silent :
    ∃ u, Machine.run step (initial (.initial ⟨10, 0⟩))
        (readingWithTimeout ++ [.messageEnd 2, .doPendingFunctors, .poll, .timer (.advance 6 6),
          .dispatch, .timer .handleRead]) = some u ∧
      u.fires (.timer .runNext) = [⟨⟨2, 1⟩, .idle, false⟩] ∧
      ∃ batch, u.loop.batch = some batch ∧ 15 ≤ batch.now := by
  obtain ⟨s, hs⟩ : ∃ s, Machine.run step (initial (.initial ⟨10, 0⟩)) readingWithTimeout = some s :=
    ⟨_, rfl⟩
  obtain ⟨t, ht⟩ : ∃ t, s.step (.messageEnd 2) = some t := by
    obtain rfl := Option.some.inj hs
    exact ⟨_, rfl⟩
  have hnone : s.functors = [] := by
    obtain rfl := Option.some.inj hs
    rfl
  have h := fun u u' => @idle_close_not_early s t (.timer .runNext) 2 _
    (TimerLoop.initial_reached _) readingWithTimeout
    [.doPendingFunctors, .poll, .timer (.advance 6 6), .dispatch, .timer .handleRead] u u'
    ⟨⟨2, 1⟩, .idle, false⟩ hs (by simp [hnone])
  obtain rfl := Option.some.inj hs
  obtain rfl := Option.some.inj ht
  exact ⟨_, rfl, rfl, h _ _ rfl rfl
    (by simp [TimedOp.setsIdleTimeout, TimedOp.forward]) rfl rfl List.mem_cons_self rfl⟩

/-- Why the functors matter: another thread switches the timeout off and on again while the
loop sleeps, and a message comes before the functors run.  The old timer is not cancelled
when the message resets the idle timer, and closes the connection at the time of the
message. -/
theorem closed_early_by_forgotten_timer :
    ∃ s, Machine.run step (initial (.initial ⟨10, 0⟩))
        [.connectEstablished, .setIdleTimeout (.ofMicros 5) 1, .doPendingFunctors, .poll,
          .postSetIdleTimeout .zero, .postSetIdleTimeout (.ofMicros 100),
          .timer (.advance 6 6), .dispatch, .message, .messageEnd 2, .timer .handleRead,
          .timer .runNext] = some s ∧
      s.firings = [⟨⟨1, 0⟩, .idle, false⟩] ∧ s.closed = true ∧ s.loop.clock.wall = 16 :=
  ⟨_, rfl, rfl, rfl, rfl⟩

/-! ## In time -/

/-- The idle timer `id` waits for its expiration or its callback, unless the connection is down,
and no functor will cancel it. -/
structure Timed (id : TimerId) (e : Int) (s : TimedConnection) : Prop where
  sound : s.Sound
  bound : s.bound id = some .idle
  up : s.state ≠ .kConnecting
  functors : ∀ f ∈ s.functors, f ≠ .cancelInLoop id ∧ f.isResetIdle = false
  waiting : s.state ≠ .kDisconnected → s.loop.Waiting id e

/-- The callback of an idle timer leaves the connection down. -/
theorem down_of_next (hb : s.bound id = some .idle) (hup : s.state ≠ .kConnecting)
    (hnext : s.loop.next = some id) (h : s.step (.timer .runNext) = some s') :
    s'.state = .kDisconnected := by
  have hcloses : s.closes (.timer .runNext) = s.isOpen := by
    simp [closes, hnext, closesOn, hb, TimerKind.closes]
  rw [(step_performs h).state, stateAfter, hcloses]
  cases hstate : s.state with
  | kDisconnected => simp [isOpen, hstate, openStateAfter]
  | kConnecting => exact absurd hstate hup
  | kConnected | kDisconnecting => simp [isOpen, hstate]

/-- A connection that is down stays down. -/
theorem down_of_step (h : s.step op = some s') (hdown : s.state = .kDisconnected) :
    s'.state = .kDisconnected := by
  rw [(step_performs h).state, stateAfter]
  split
  · rfl
  · cases op with
    | connectEstablished =>
      obtain ⟨⟨-, hstate⟩, -⟩ := Option.ite_none_right_eq_some.mp h
      rw [hdown] at hstate
      cases hstate
    | _ => simp [openStateAfter, isOpen, hdown]

/-- The step asks the queue to call the callback of `id`. -/
theorem next_ne_of_up (h : s.step op = some s') (hup : s'.state ≠ .kDisconnected)
    (hb : s.bound id = some .idle) (hstate : s.state ≠ .kConnecting) (hop : op = .timer .runNext) :
    s.loop.next ≠ some id := by
  rintro hnext
  subst hop
  exact hup (down_of_next hb hstate hnext h)

/-- The operations of a step do not execute a timer of the connection that is not next. -/
theorem run_queueOps_keeps {P : TimerLoop → Prop} (hs : s.Sound)
    (h : s.step op = some s') (hnext : op = .timer .runNext → s.loop.next ≠ some id)
    (hP : ∀ l o l', o ∈ s.queueOps op → l.Reached → P l → (o = .runNext → l.next ≠ some id) →
      l.step o = some l' → P l') (hl : P s.loop) : P s'.loop := by
  have hrest : ∀ ops l l', (∀ o ∈ ops, o ∈ s.queueOps op ∧ o ≠ .runNext) → l.Reached → P l →
      Machine.run TimerLoop.step l ops = some l' → P l' := by
    intro ops l l' hops hreached hl hrun
    refine (Machine.run_invariant_mem (P := fun l => l.Reached ∧ P l) ?_ hrun
      ⟨hreached, hl⟩).2
    rintro o ho l l' ⟨hreached, hl⟩ hstep
    exact ⟨hreached.step hstep, hP l o l' (hops o ho).1 hreached hl
      (fun hrun => absurd hrun (hops o ho).2) hstep⟩
  have hqueue := (step_performs h).queue
  by_cases hop : op = .timer .runNext
  · -- the callbacks come after the only `runNext`
    subst hop
    obtain ⟨l, hrun, hcallback⟩ := Machine.run_cons_eq_some.mp hqueue
    refine hrest _ l _ (fun o ho => ⟨List.mem_cons_of_mem _ ho, ?_⟩) (hs.reached.step hrun) ?_
      hcallback
    · rintro rfl
      cases hid : s.loop.next with
      | none =>
        rw [hid] at ho
        cases ho
      | some i =>
        rw [hid] at ho
        cases asked_fireOps hid ho
    · exact hP _ _ _ List.mem_cons_self hs.reached hl (fun _ => hnext rfl) hrun
  · refine hrest _ _ _ (fun o ho => ⟨ho, ?_⟩) hs.reached hl hqueue
    rintro rfl
    rcases asked_of_mem ho with hop' | hasked
    · exact hop hop'
    · cases hasked

theorem resetsIdle_eq_false (hf : ∀ f ∈ s.functors, f.isResetIdle = false)
    (hop : op.setsIdleTimeout = none) (hmsg : op.isMessageEnd = false) :
    s.resetsIdle op = false := by
  cases op with
  | messageEnd => cases hmsg
  | setIdleTimeout => cases hop
  | functor a =>
    cases hq : s.functors with
    | nil => simp [resetsIdle, hq]
    | cons f rest => simpa [resetsIdle, hq] using hf f (hq ▸ List.mem_cons_self)
  | _ => rfl

/-- Without a message and without a call of `setIdleTimeout`, only the end of the connection
cancels the timer. -/
theorem Timed.not_cancelled (hs : s.Timed id e) (hop : op.setsIdleTimeout = none)
    (hmsg : op.isMessageEnd = false) (h : s.step op = some s') (hup : s'.state ≠ .kDisconnected) :
    .cancelInLoop id ∉ s.queueOps op := by
  intro hmem
  rcases asked_of_mem hmem with rfl | hasked
  · -- nobody else cancels the timers of the connection
    obtain ⟨hnone, -⟩ := Option.ite_none_right_eq_some.mp h
    rw [hs.bound] at hnone
    cases hnone
  · cases hasked with
    | posted hf => exact (hs.functors _ hf).1 rfl
    | @named k hvalid hidle =>
      have hk : k = .idle := Option.some.inj ((hs.sound.field k hvalid).symm.trans hs.bound)
      rcases hidle hk with hcloses | hreset
      · refine hup ?_
        rw [(step_performs h).state, stateAfter, if_pos hcloses]
      · rw [resetsIdle_eq_false (fun f hf => (hs.functors f hf).2) hop hmsg] at hreset
        cases hreset

theorem Timed.step (hs : s.Timed id e) (hop : op.setsIdleTimeout = none)
    (hmsg : op.isMessageEnd = false) (h : s.step op = some s') : s'.Timed id e := by
  have hchanges := step_changes hs.sound h
  refine ⟨hchanges.sound hs.sound, hchanges.bound hs.sound hs.bound, not_connecting_of_step h hs.up,
    fun f hf => ?_, fun hup => ?_⟩
  · rw [(step_frame hs.sound h).functors] at hf
    rcases List.mem_append.mp hf with hf | hf
    · exact hs.functors f (remaining_subset s op hf)
    · refine ⟨?_, posts_isResetIdle hf (by simp [hop])⟩
      rintro rfl
      obtain ⟨k, hvalid, rfl, hsets⟩ := posts_cancel hf
      have hsome := hsets (Option.some.inj ((hs.sound.field k hvalid).symm.trans hs.bound))
      simp [hop] at hsome
  · have hnext : op = .timer .runNext → s.loop.next ≠ some id :=
      next_ne_of_up h hup hs.bound hs.up
    refine run_queueOps_keeps (P := fun l => l.Waiting id e) hs.sound h hnext ?_
      (hs.waiting fun hdown => hup (down_of_step h hdown))
    intro l o l' ho hl hwait hne hstep
    refine TimerLoop.waiting_of_step hl hstep ?_ hne hwait
    rintro rfl
    exact hs.not_cancelled hop hmsg h hup ho

theorem Timed.run {ops : List TimedOp} (hs : s.Timed id e)
    (hops : ∀ o ∈ ops, o.setsIdleTimeout = none ∧ o.isMessageEnd = false)
    (hrun : Machine.run TimedConnection.step s ops = some s') : s'.Timed id e :=
  Machine.run_invariant_mem (P := Timed id e)
    (fun o ho _ _ hs h => hs.step (hops o ho).1 (hops o ho).2 h) hrun hs

/-- The idle timer `id` is in the running batch, unless the connection is down. -/
structure Doomed (id : TimerId) (s : TimedConnection) : Prop where
  sound : s.Sound
  bound : s.bound id = some .idle
  up : s.state ≠ .kConnecting
  awaits : s.state ≠ .kDisconnected → s.loop.AwaitsCallback id

/-- Nothing saves the connection then: not even a message, since a timer of a batch is executed
although it has been cancelled. -/
theorem Doomed.step (hs : s.Doomed id) (h : s.step op = some s') : s'.Doomed id := by
  have hchanges := step_changes hs.sound h
  refine ⟨hchanges.sound hs.sound, hchanges.bound hs.sound hs.bound, not_connecting_of_step h hs.up,
    fun hup => ?_⟩
  refine run_queueOps_keeps (P := fun l => l.AwaitsCallback id) hs.sound h
    (next_ne_of_up h hup hs.bound hs.up) ?_ (hs.awaits fun hdown => hup (down_of_step h hdown))
  intro l o l' _ hl hawaits hne hstep
  exact TimerLoop.awaitsCallback_stays hl hstep hne hawaits

theorem Timed.handleRead (hs : s.Timed id e) (hpos : 0 < e) (he : e ≤ s.loop.clock.wall)
    (h : s.step (.timer .handleRead) = some s') : s'.Doomed id := by
  have hchanges := step_changes hs.sound h
  refine ⟨hchanges.sound hs.sound, hchanges.bound hs.sound hs.bound, not_connecting_of_step h hs.up,
    fun hup => ?_⟩
  have hread := Machine.run_singleton_eq_some.mp (step_performs h).queue
  exact TimerLoop.awaitsCallback_handleRead hs.sound.reached hread
    (hs.waiting fun hdown => hup (down_of_step h hdown)) hpos he

/-- The end of a message starts the time of a new idle timer. -/
theorem timed_of_messageEnd (hs : s.Orderly) (hpos : s.idleTimeout.positive = true)
    (hclock : 0 < s.loop.clock.wall) (hreset : ∀ f ∈ s.functors, f.isResetIdle = false)
    (h : s.step (.messageEnd a) = some s') : ∃ id, s'.Timed id s.idleExpiration := by
  obtain ⟨hreading, hrun⟩ := step_messageEnd hpos h
  have hchanges := step_changes hs.sound h
  have hsound := hchanges.sound hs.sound
  have hfunctors : s'.functors = s.functors := by
    rw [(step_frame hs.sound h).functors]
    exact List.append_nil _
  obtain ⟨id, hid, hlife, hfresh⟩ : ∃ id, s'.bound id = some .idle ∧
      s'.loop.LifeIs id (.scheduled ⟨s.idleExpiration, .zero, id.sequence⟩) ∧
        ¬ s.loop.Known id :=
    resetIdleTimerInLoop_makes (s := { s with reading := false })
      ⟨hs.sound.reached, hs.sound.known, hs.sound.field⟩ hpos hclock hrun
  refine ⟨id, hsound, hid, not_connecting_of_step h (hs.resting hreading).2, fun f hf => ?_,
    fun _ => ⟨_, hlife, rfl⟩⟩
  rw [hfunctors] at hf
  refine ⟨?_, hreset f hf⟩
  rintro rfl
  exact hfresh (hs.known id hf)

/-- **A silent connection is closed in time.**  Let the message callback return with a positive
idle timeout, and let no message come and nobody call `setIdleTimeout` from then on, nor have
left a functor that resets the timer.  Then the first `handleRead` of the timer queue at that
time plus the timeout, or later, finds the timer, or the connection is down already; and when
its batch is over, the connection is down.  After the beginning of that batch nothing prevents
it any more, a message included.  (A `shutdown` of another thread is one step: its store of
`kDisconnecting` does not come after the close.) -/
theorem silent_connection_closed {loop : TimerLoop} (hloop : loop.Reached)
    {before silent rest : List TimedOp} {u u' v : TimedConnection}
    (hbefore : Machine.run step (initial loop) before = some s)
    (hpos : s.idleTimeout.positive = true) (hclock : 0 < s.loop.clock.wall)
    (hreset : ∀ f ∈ s.functors, f.isResetIdle = false) (hmsg : s.step (.messageEnd a) = some t)
    (hsilent : ∀ o ∈ silent, o.setsIdleTimeout = none ∧ o.isMessageEnd = false)
    (hrun : Machine.run step t silent = some u)
    (hlate : addTime s.loop.clock.wall s.idleTimeout.seconds ≤ u.loop.clock.wall)
    (hread : u.step (.timer .handleRead) = some u') (hrest : Machine.run step u' rest = some v)
    (hend : v.loop.batch = none) : v.state = .kDisconnected := by
  have hs := run_orderly (initial_orderly hloop) hbefore
  obtain ⟨id, htimed⟩ := timed_of_messageEnd hs hpos hclock hreset hmsg
  have hexp : 0 < s.idleExpiration :=
    Int.add_pos_of_pos_of_nonneg hclock (s.idleTimeout.seconds.micros_nonneg hpos)
  have hdoomed := (htimed.run hsilent hrun).handleRead hexp hlate hread
  have hv : v.Doomed id :=
    Machine.run_invariant (fun _ _ _ hs h => hs.step h) hrest hdoomed
  by_contra hup
  exact not_awaitsCallback hend (hv.awaits hup)

theorem silent_connection_closed_once :
    ∃ v, Machine.run step (initial (.initial ⟨10, 0⟩))
        (readingWithTimeout ++ [.messageEnd 2, .doPendingFunctors, .poll, .timer (.advance 6 6),
          .dispatch, .timer .handleRead, .timer .runNext, .timer .handleReadEnd]) = some v ∧
      v.firings = [⟨⟨2, 1⟩, .idle, false⟩] ∧ v.state = .kDisconnected := by
  obtain ⟨s, hs⟩ : ∃ s, Machine.run step (initial (.initial ⟨10, 0⟩)) readingWithTimeout = some s :=
    ⟨_, rfl⟩
  obtain ⟨t, ht⟩ : ∃ t, s.step (.messageEnd 2) = some t := by
    obtain rfl := Option.some.inj hs
    exact ⟨_, rfl⟩
  have hnone : s.functors = [] := by
    obtain rfl := Option.some.inj hs
    rfl
  have h := fun hpos hclock u u' v => @silent_connection_closed s t 2 _
    (TimerLoop.initial_reached _) readingWithTimeout
    [.doPendingFunctors, .poll, .timer (.advance 6 6), .dispatch]
    [.timer .runNext, .timer .handleReadEnd] u u' v hs hpos hclock (by simp [hnone])
  obtain rfl := Option.some.inj hs
  obtain rfl := Option.some.inj ht
  exact ⟨_, rfl, rfl, h rfl (by decide) _ _ _ rfl
    (by simp [TimedOp.setsIdleTimeout, TimedOp.isMessageEnd]) rfl (by decide) rfl rfl rfl⟩

end TimedConnection
end ReMuduo
