import ReMuduo.TimerQueue

/-! # What a timer is for: the life of one timer

This module says, without the queue, what may happen to one timer: it is scheduled
once, becomes due in the first `handleRead` that begins at or after its expiration, is
executed by it, and is then scheduled again, later by its interval, or gone.  `Life`
is the state of a timer in this sense, and `Life.step id` reads the events of a run for
the timer `id` and refuses those that may not happen.

A second reader, `Reading`, looks at the executions of all timers inside one
`handleRead`.

The rest of the module is about the event lists these two accept; that the timer queue
produces no others is shown in `ReMuduo.TimerFiring`. -/
namespace ReMuduo

/-- The event is the execution of a callback of the timer `id`. -/
def TimerEvent.executes (id : TimerId) : TimerEvent → Bool
  | .executed i _ _ => decide (i = id)
  | _ => false

/-- The event may matter to the timer `id`: it names `id` or no timer at all. -/
def TimerEvent.concerns (id : TimerId) : TimerEvent → Bool
  | .added i _ _ => decide (i = id)
  | .cancelled i => decide (i = id)
  | .executed i _ _ => decide (i = id)
  | _ => true

theorem TimerEvent.executes_of_concerns {id : TimerId} {e : TimerEvent}
    (h : e.concerns id = false) : e.executes id = false := by
  cases e with
  | executed i now expiration => exact h
  | _ => rfl

/-- Where a timer stands: not added yet, scheduled, in the batch of a `handleRead` that
began at `now` and not executed yet, executed in that batch, or deleted.  Inside a
batch it may have been cancelled already. -/
inductive Life
  | fresh
  | scheduled (t : Timer)
  | due (t : Timer) (now : Int) (cancelled : Bool)
  | ran (t : Timer) (now : Int) (cancelled : Bool)
  | gone

namespace Life

/-- A timer is added once. -/
def add (t : Timer) : Life → Option Life
  | fresh => some (scheduled t)
  | _ => none

/-- A scheduled timer is deleted at once, one that is being handled after the batch. -/
def cancel : Life → Life
  | scheduled _ => gone
  | due t now _ => due t now true
  | ran t now _ => ran t now true
  | l => l

/-- A `handleRead` begins, outside any other. -/
def begin (now : Int) : Life → Option Life
  | scheduled t => some (if 0 < now ∧ t.expiration ≤ now then due t now false else scheduled t)
  | due .. => none
  | ran .. => none
  | l => some l

/-- Only a timer that is due is executed, once a batch, with the time of the batch. -/
def execute (now expiration : Int) : Life → Option Life
  | due t n c => if n = now ∧ t.expiration = expiration then some (ran t n c) else none
  | _ => none

/-- A `handleRead` ends: all timers of its batch have been executed. -/
def finish : Life → Option Life
  | due .. => none
  | ran t now c => some (if t.repeats ∧ c = false then scheduled (t.restart now) else gone)
  | l => some l

/-- No `handleRead` has anything to do with the timer. -/
def idle : Life → Bool
  | fresh => true
  | gone => true
  | _ => false

/-- The life of the timer `id`, event by event. -/
def step (id : TimerId) (l : Life) : TimerEvent → Option Life
  | .added i when interval => if i = id then l.add ⟨when, interval, id.sequence⟩ else some l
  | .cancelled i => some (if i = id then l.cancel else l)
  | .begun now => l.begin now
  | .executed i now expiration => if i = id then l.execute now expiration else some l
  | .ended => l.finish

theorem step_of_concerns {id : TimerId} {e : TimerEvent} (h : e.concerns id = false) (l : Life) :
    step id l e = some l := by
  cases e with
  | added i when interval => exact if_neg (of_decide_eq_false h)
  | cancelled i => exact congrArg some (if_neg (of_decide_eq_false h))
  | executed i now expiration => exact if_neg (of_decide_eq_false h)
  | begun now => cases h
  | ended => cases h

/-- The transitions of `step`, one constructor for each. -/
inductive Step (id : TimerId) : Life → TimerEvent → Life → Prop
  /-- An event of another timer. -/
  | other {l e} : e.concerns id = false → Step id l e l
  | added {when interval} :
      Step id fresh (.added id when interval) (scheduled ⟨when, interval, id.sequence⟩)
  | cancelled {l} : Step id l (.cancelled id) l.cancel
  /-- A `handleRead` that does not reach the timer. -/
  | early {t now} : ¬ (0 < now ∧ t.expiration ≤ now) →
      Step id (scheduled t) (.begun now) (scheduled t)
  | reached {t now} : 0 < now → t.expiration ≤ now →
      Step id (scheduled t) (.begun now) (due t now false)
  | executed {t now c} : Step id (due t now c) (.executed id now t.expiration) (ran t now c)
  | repeated {t now} : t.repeats = true →
      Step id (ran t now false) .ended (scheduled (t.restart now))
  | deleted {t now c} : (t.repeats = true → c = true) → Step id (ran t now c) .ended gone
  /-- A `handleRead` begins or ends without the timer. -/
  | idleBegun {l : Life} {now} : l.idle = true → Step id l (.begun now) l
  | idleEnded {l : Life} : l.idle = true → Step id l .ended l
  | scheduledEnded {t} : Step id (scheduled t) .ended (scheduled t)

variable {id : TimerId} {l l' : Life}

theorem step_cases {e : TimerEvent} (hs : step id l e = some l') : Step id l e l' := by
  cases e with
  | added i when interval =>
    simp only [step] at hs
    split at hs
    · rename_i hi
      subst hi
      cases l <;> cases hs
      exact .added
    · rename_i hi
      exact Option.some.inj hs ▸ .other (decide_eq_false hi)
  | cancelled i =>
    obtain rfl := Option.some.inj hs
    split
    · rename_i hi
      subst hi
      exact .cancelled
    · rename_i hi
      exact .other (decide_eq_false hi)
  | begun now =>
    cases l with
    | scheduled t =>
      obtain rfl := Option.some.inj hs
      split
      · rename_i hc
        exact .reached hc.1 hc.2
      · rename_i hc
        exact .early hc
    | fresh => cases hs; exact .idleBegun rfl
    | gone => cases hs; exact .idleBegun rfl
    | _ => cases hs
  | executed i now expiration =>
    simp only [step] at hs
    split at hs
    · rename_i hi
      subst hi
      cases l with
      | due t n c =>
        simp only [execute] at hs
        split at hs
        · rename_i hc
          obtain ⟨rfl, rfl⟩ := hc
          exact Option.some.inj hs ▸ .executed
        · cases hs
      | _ => cases hs
    · rename_i hi
      exact Option.some.inj hs ▸ .other (decide_eq_false hi)
  | ended =>
    cases l with
    | ran t now c =>
      obtain rfl := Option.some.inj hs
      split
      · rename_i hc
        obtain ⟨hrep, rfl⟩ := hc
        exact .repeated hrep
      · rename_i hc
        refine .deleted (fun hrep => ?_)
        simpa [hrep] using hc
    | fresh => cases hs; exact .idleEnded rfl
    | scheduled t => cases hs; exact .scheduledEnded
    | gone => cases hs; exact .idleEnded rfl
    | _ => cases hs

/-! ## A timer is executed when it is due -/

/-- A timer of a batch is due at its time. -/
def Timely : Life → Prop
  | due t now _ => 0 < now ∧ t.expiration ≤ now
  | ran _ now _ => 0 < now
  | _ => True

theorem step_timely {e : TimerEvent} (hl : l.Timely) (hs : step id l e = some l') :
    l'.Timely := by
  cases step_cases hs with
  | cancelled => cases l <;> exact hl
  | reached hnow hdue => exact ⟨hnow, hdue⟩
  | executed => exact hl.1
  | added | repeated | deleted => trivial
  | _ => exact hl

theorem run_timely {h : List TimerEvent} (hacc : Machine.run (step id) fresh h = some l) :
    l.Timely :=
  Machine.run_invariant (fun _ _ _ hl hs => step_timely hl hs) hacc trivial

theorem step_executed_self {now expiration : Int}
    (hs : step id l (.executed id now expiration) = some l') :
    ∃ t c, l = due t now c ∧ expiration = t.expiration ∧ l' = ran t now c := by
  cases step_cases hs with
  | other hother => simp [TimerEvent.concerns] at hother
  | executed => exact ⟨_, _, rfl, rfl, rfl⟩

theorem step_added_self {when : Int} {interval : Seconds}
    (hs : step id l (.added id when interval) = some l') :
    l = fresh ∧ l' = scheduled ⟨when, interval, id.sequence⟩ := by
  cases step_cases hs with
  | other hother => simp [TimerEvent.concerns] at hother
  | added => exact ⟨rfl, rfl⟩

theorem executed_due {pre post : List TimerEvent} {now expiration : Int}
    (hacc : Machine.run (step id) fresh (pre ++ .executed id now expiration :: post) = some l) :
    expiration ≤ now := by
  obtain ⟨m, m', hpre, hexec, -⟩ := Machine.run_split_eq_some.mp hacc
  obtain ⟨t, c, rfl, rfl, -⟩ := step_executed_self hexec
  exact (run_timely hpre).2

/-! ## One-shot timers -/

/-- The timer will not be executed again: it is deleted, or about to be. -/
def Spent : Life → Prop
  | ran t _ _ => t.repeats = false
  | gone => True
  | _ => False

theorem step_spent {e : TimerEvent} (hl : l.Spent) (hs : step id l e = some l') :
    l'.Spent ∧ e.executes id = false := by
  cases step_cases hs with
  | other hother => exact ⟨hl, TimerEvent.executes_of_concerns hother⟩
  | cancelled => exact ⟨by cases l <;> first | exact hl | exact hl.elim, rfl⟩
  | repeated hrep => rw [Spent, hrep] at hl; cases hl
  | deleted => exact ⟨trivial, rfl⟩
  | idleBegun | idleEnded => exact ⟨hl, rfl⟩
  | added | early | reached | executed | scheduledEnded => exact hl.elim

theorem countP_executes_spent {h : List TimerEvent} (hl : l.Spent)
    (hacc : Machine.run (step id) l h = some l') : h.countP (·.executes id) = 0 := by
  induction h generalizing l with
  | nil => rfl
  | cons e h ih =>
    obtain ⟨m, hm, hrest⟩ := Machine.run_cons_eq_some.mp hacc
    obtain ⟨hspent, hno⟩ := step_spent hl hm
    rw [List.countP_cons_of_neg (by simp [hno]), ih hspent hrest]

/-- The timer has been added and does not repeat. -/
def OneShot : Life → Prop
  | fresh => False
  | scheduled t => t.repeats = false
  | due t _ _ => t.repeats = false
  | ran t _ _ => t.repeats = false
  | gone => True

theorem step_oneShot {e : TimerEvent} (hl : l.OneShot) (hs : step id l e = some l') :
    l'.OneShot ∧ (e.executes id = true → l'.Spent) := by
  cases step_cases hs with
  | other hother =>
    refine ⟨hl, fun hexec => ?_⟩
    rw [TimerEvent.executes_of_concerns hother] at hexec
    cases hexec
  | cancelled => exact ⟨by cases l <;> first | exact hl | trivial, nofun⟩
  | executed => exact ⟨hl, fun _ => hl⟩
  | repeated hrep => rw [OneShot, hrep] at hl; cases hl
  | deleted => exact ⟨trivial, nofun⟩
  | added => exact hl.elim
  | early | reached | idleBegun | idleEnded | scheduledEnded => exact ⟨hl, nofun⟩

theorem countP_executes_oneShot {h : List TimerEvent} (hl : l.OneShot)
    (hacc : Machine.run (step id) l h = some l') : h.countP (·.executes id) ≤ 1 := by
  induction h generalizing l with
  | nil => exact Nat.zero_le _
  | cons e h ih =>
    obtain ⟨m, hm, hrest⟩ := Machine.run_cons_eq_some.mp hacc
    obtain ⟨hone, hexec⟩ := step_oneShot hl hm
    by_cases he : e.executes id = true
    · rw [List.countP_cons_of_pos he, countP_executes_spent (hexec he) hrest]
    · rw [List.countP_cons_of_neg he]
      exact ih hone hrest

/-- A life begins once. -/
theorem step_ne_fresh {e : TimerEvent} (hl : l ≠ fresh) (hs : step id l e = some l') :
    l' ≠ fresh := by
  cases step_cases hs with
  | other | idleBegun | idleEnded => exact hl
  | cancelled => cases l <;> first | exact hl | nofun
  | _ => nofun

/-- Nothing happens to a timer before it is added. -/
theorem countP_executes_fresh {h : List TimerEvent}
    (hacc : Machine.run (step id) fresh h = some fresh) : h.countP (·.executes id) = 0 := by
  induction h with
  | nil => rfl
  | cons e h ih =>
    obtain ⟨m, hm, hrest⟩ := Machine.run_cons_eq_some.mp hacc
    by_cases hfresh : m = fresh
    · subst hfresh
      have hno : e.executes id = false := by
        cases step_cases hm with
        | other hother => exact TimerEvent.executes_of_concerns hother
        | cancelled | idleBegun | idleEnded => rfl
      rw [List.countP_cons_of_neg (by simp [hno]), ih hrest]
    · have hne : fresh ≠ fresh :=
        Machine.run_invariant (P := fun m => m ≠ fresh) (fun _ _ _ => step_ne_fresh) hrest hfresh
      exact absurd rfl hne

theorem oneShot_executed_once {pre post : List TimerEvent} {when : Int} {interval : Seconds}
    (hone : interval.positive = false)
    (hacc : Machine.run (step id) fresh (pre ++ .added id when interval :: post) = some l) :
    (pre ++ .added id when interval :: post).countP (·.executes id) ≤ 1 := by
  obtain ⟨m, m', hpre, hadd, hpost⟩ := Machine.run_split_eq_some.mp hacc
  obtain ⟨rfl, rfl⟩ := step_added_self hadd
  rw [List.countP_append, countP_executes_fresh hpre, Nat.zero_add,
    List.countP_cons_of_neg (by simp [TimerEvent.executes])]
  exact countP_executes_oneShot (l := scheduled ⟨when, interval, id.sequence⟩) hone hpost

/-- A scheduled timer stays as it is until it is cancelled or reached. -/
theorem run_scheduled {t : Timer} {h : List TimerEvent}
    (hcancel : TimerEvent.cancelled id ∉ h)
    (hearly : ∀ n, TimerEvent.begun n ∈ h → n < t.expiration)
    (hacc : Machine.run (step id) (scheduled t) h = some l) : l = scheduled t := by
  refine Machine.run_invariant_mem (P := fun m => m = scheduled t) ?_ hacc rfl
  rintro e he m m' rfl hs
  cases step_cases hs with
  | cancelled => exact absurd he hcancel
  | reached _ hdue => exact absurd hdue (not_le.mpr (hearly _ he))
  | other | early | scheduledEnded => rfl
  | idleBegun h | idleEnded h => cases h

/-- Until the `handleRead` ends, a timer that it has executed is not executed again. -/
theorem run_ran {t : Timer} {now : Int} {c : Bool} {h : List TimerEvent}
    (hended : TimerEvent.ended ∉ h) (hacc : Machine.run (step id) (ran t now c) h = some l) :
    (∃ c', l = ran t now c') ∧ h.countP (·.executes id) = 0 := by
  induction h generalizing c with
  | nil => exact ⟨⟨c, (Option.some.inj hacc).symm⟩, rfl⟩
  | cons e h ih =>
    have htail : TimerEvent.ended ∉ h := fun hmem => hended (List.mem_cons_of_mem e hmem)
    obtain ⟨m, hm, hrest⟩ := Machine.run_cons_eq_some.mp hacc
    cases step_cases hm with
    | other hother =>
      rw [List.countP_cons_of_neg (by simp [TimerEvent.executes_of_concerns hother])]
      exact ih htail hrest
    | cancelled =>
      rw [List.countP_cons_of_neg (by simp [TimerEvent.executes])]
      exact ih htail hrest
    | repeated | deleted => exact absurd List.mem_cons_self hended
    | idleBegun h | idleEnded h => cases h

/-- As long as the `handleRead` has not ended, a timer of its batch is still to be
executed or has been, once. -/
theorem run_due {t : Timer} {now : Int} {c : Bool} {h : List TimerEvent}
    (hended : TimerEvent.ended ∉ h)
    (hacc : Machine.run (step id) (due t now c) h = some l) :
    (∃ c', l = due t now c') ∨
      (∃ c', l = ran t now c') ∧ TimerEvent.executed id now t.expiration ∈ h ∧
        h.countP (·.executes id) = 1 := by
  induction h generalizing c with
  | nil => exact Or.inl ⟨c, (Option.some.inj hacc).symm⟩
  | cons e h ih =>
    have htail : TimerEvent.ended ∉ h := fun hmem => hended (List.mem_cons_of_mem e hmem)
    obtain ⟨m, hm, hrest⟩ := Machine.run_cons_eq_some.mp hacc
    -- an event that leaves the timer due executes nothing
    have hlater : e.executes id = false → ∀ {c'}, m = due t now c' →
        (∃ c', l = due t now c') ∨
          (∃ c', l = ran t now c') ∧ TimerEvent.executed id now t.expiration ∈ e :: h ∧
            (e :: h).countP (·.executes id) = 1 := by
      rintro hno c' rfl
      rw [List.countP_cons_of_neg (by simp [hno])]
      exact (ih htail hrest).imp_right
        (And.imp_right (And.imp_left (List.mem_cons_of_mem _)))
    cases step_cases hm with
    | other hother => exact hlater (TimerEvent.executes_of_concerns hother) rfl
    | cancelled => exact hlater rfl rfl
    | executed =>
      obtain ⟨hran, hnone⟩ := run_ran htail hrest
      refine Or.inr ⟨hran, List.mem_cons_self, ?_⟩
      rw [List.countP_cons_of_pos (by simp [TimerEvent.executes]), hnone]
    | idleBegun h | idleEnded h => cases h

/-- A timer that is not cancelled is executed by the first `handleRead` that begins at or
after its expiration. -/
theorem executed_first {pre wait batch post : List TimerEvent} {when now : Int}
    {interval : Seconds} (hcancel : TimerEvent.cancelled id ∉ wait)
    (hearly : ∀ n, TimerEvent.begun n ∈ wait → n < when) (hpos : 0 < now) (hdue : when ≤ now)
    (hended : TimerEvent.ended ∉ batch)
    (hacc : Machine.run (step id) fresh (pre ++ .added id when interval ::
      (wait ++ .begun now :: (batch ++ .ended :: post))) = some l) :
    TimerEvent.executed id now when ∈ batch := by
  obtain ⟨m₁, m₂, -, hadd, hacc⟩ := Machine.run_split_eq_some.mp hacc
  obtain ⟨m₃, m₄, hwait, hbegin, hacc⟩ := Machine.run_split_eq_some.mp hacc
  obtain ⟨m₅, m₆, hbatch, hend, -⟩ := Machine.run_split_eq_some.mp hacc
  obtain ⟨-, rfl⟩ := step_added_self hadd
  obtain rfl := run_scheduled hcancel hearly hwait
  have hm₄ : m₄ = due ⟨when, interval, id.sequence⟩ now false := by
    cases step_cases hbegin with
    | other h | idleBegun h => cases h
    | early h => exact absurd ⟨hpos, hdue⟩ h
    | reached => rfl
  subst hm₄
  rcases run_due hended hbatch with ⟨c, rfl⟩ | ⟨-, hexec, -⟩
  · cases hend
  · exact hexec

/-! ## Periodic timers -/

/-- Until its next execution, a timer executed at `now` has not been restarted yet, or is
due `t.interval` after `now`. -/
def Restarted (t : Timer) (now : Int) : Life → Prop
  | fresh => False
  | scheduled t' => t'.expiration = now + t.interval.micros
  | due t' _ _ => t'.expiration = now + t.interval.micros
  | ran t' now' _ => t' = t ∧ now' = now
  | gone => True

theorem run_restarted {t : Timer} {now : Int} (hnow : 0 < now) {c : Bool} {h : List TimerEvent}
    (hnone : ∀ e ∈ h, e.executes id = false)
    (hacc : Machine.run (step id) (ran t now c) h = some l) : l.Restarted t now := by
  refine Machine.run_invariant_mem (P := Restarted t now) ?_ hacc ⟨rfl, rfl⟩
  intro e he m m' hm hs
  cases step_cases hs with
  | cancelled => cases m <;> first | exact hm | trivial
  | executed => have := hnone _ he; simp [TimerEvent.executes] at this
  | repeated hrep =>
    obtain ⟨rfl, rfl⟩ := hm
    exact Timer.restart_expiration hrep hnow
  | added => exact hm.elim
  | deleted => trivial
  | other | early | reached | idleBegun | idleEnded | scheduledEnded => exact hm

/-- The interval of a timer never changes. -/
def HasInterval (interval : Seconds) : Life → Prop
  | fresh => False
  | scheduled t => t.interval = interval
  | due t _ _ => t.interval = interval
  | ran t _ _ => t.interval = interval
  | gone => True

theorem step_hasInterval {interval : Seconds} {e : TimerEvent} (hl : l.HasInterval interval)
    (hs : step id l e = some l') : l'.HasInterval interval := by
  cases step_cases hs with
  | cancelled => cases l <;> first | exact hl | trivial
  | repeated => exact (Timer.restart_interval _ _).trans hl
  | added => exact hl.elim
  | deleted => trivial
  | other | early | reached | executed | idleBegun | idleEnded | scheduledEnded => exact hl

/-- Two successive executions of a timer are at least its interval apart. -/
theorem executed_apart {pre mid between post : List TimerEvent} {when now₁ now₂ e₁ e₂ : Int}
    {interval : Seconds} (hnone : ∀ e ∈ between, e.executes id = false)
    (hacc : Machine.run (step id) fresh (pre ++ .added id when interval ::
      (mid ++ .executed id now₁ e₁ :: (between ++ .executed id now₂ e₂ :: post))) = some l) :
    now₁ + interval.micros ≤ now₂ := by
  obtain ⟨m₁, m₂, hpre, hadd, hacc₂⟩ := Machine.run_split_eq_some.mp hacc
  obtain ⟨m₃, m₄, hmid, hexec₁, hacc₄⟩ := Machine.run_split_eq_some.mp hacc₂
  obtain ⟨m₅, m₆, hbetween, hexec₂, -⟩ := Machine.run_split_eq_some.mp hacc₄
  obtain ⟨-, rfl⟩ := step_added_self hadd
  obtain ⟨t, c, rfl, rfl, rfl⟩ := step_executed_self hexec₁
  obtain ⟨t', c', rfl, rfl, rfl⟩ := step_executed_self hexec₂
  have hint : (due t now₁ c).HasInterval interval :=
    Machine.run_invariant (fun _ _ _ hl hs => step_hasInterval hl hs) hmid rfl
  have htime₃ : (due t now₁ c).Timely :=
    Machine.run_invariant (fun _ _ _ hl hs => step_timely hl hs) hmid trivial
  have htime₅ : (due t' now₂ c').Timely :=
    Machine.run_invariant (fun _ _ _ hl hs => step_timely hl hs) hbetween htime₃.1
  have hrestarted : (due t' now₂ c').Restarted t now₁ := run_restarted htime₃.1 hnone hbetween
  rw [← show t.interval = interval from hint, ← show t'.expiration = _ from hrestarted]
  exact htime₅.2

/-- The timer repeats and nobody has cancelled it. -/
def Periodic : Life → Prop
  | scheduled t => t.repeats = true
  | due t _ c => t.repeats = true ∧ c = false
  | ran t _ c => t.repeats = true ∧ c = false
  | _ => False

/-- A periodic timer stays scheduled until it is cancelled. -/
theorem run_periodic {pre post : List TimerEvent} {when : Int} {interval : Seconds}
    (hrep : interval.positive = true) (hcancel : TimerEvent.cancelled id ∉ post)
    (hacc : Machine.run (step id) fresh (pre ++ .added id when interval :: post) = some l) :
    l.Periodic := by
  obtain ⟨m, m', -, hadd, hpost⟩ := Machine.run_split_eq_some.mp hacc
  obtain ⟨-, rfl⟩ := step_added_self hadd
  refine Machine.run_invariant_mem (P := Periodic) ?_ hpost hrep
  intro e he m m' hm hs
  cases step_cases hs with
  | cancelled => exact absurd he hcancel
  | reached => exact ⟨hm, rfl⟩
  | repeated h => exact (congrArg Seconds.positive (Timer.restart_interval _ _)).trans h
  | deleted h =>
    obtain ⟨hrep, rfl⟩ := hm
    cases h hrep
  | added => exact hm.elim
  | other | early | executed | idleBegun | idleEnded | scheduledEnded => exact hm

/-! ## Cancelled timers -/

/-- The timer has been cancelled: it is deleted, or will be at the end of the batch. -/
def Stopped : Life → Prop
  | due _ _ c => c = true
  | ran _ _ c => c = true
  | gone => True
  | _ => False

theorem step_stopped {e : TimerEvent} (hl : l.Stopped) (hs : step id l e = some l') :
    l'.Stopped := by
  cases step_cases hs with
  | cancelled => cases l <;> first | exact hl.elim | rfl | trivial
  | repeated => cases hl
  | deleted => trivial
  | added | early | reached | scheduledEnded => exact hl.elim
  | other | executed | idleBegun | idleEnded => exact hl

/-- A timer that has been added and then cancelled is not executed by a `handleRead` that
begins later. -/
theorem not_executed_after_cancel {pre mid wait post : List TimerEvent} {when now : Int}
    {interval : Seconds}
    (hacc : Machine.run (step id) fresh (pre ++ .added id when interval ::
      (mid ++ .cancelled id :: (wait ++ .begun now :: post))) = some l) :
    post.countP (·.executes id) = 0 := by
  obtain ⟨m₁, m₂, -, hadd, hacc⟩ := Machine.run_split_eq_some.mp hacc
  obtain ⟨m₃, m₄, hmid, hcancel, hacc⟩ := Machine.run_split_eq_some.mp hacc
  obtain ⟨m₅, m₆, hwait, hbegin, hpost⟩ := Machine.run_split_eq_some.mp hacc
  obtain ⟨-, rfl⟩ := step_added_self hadd
  have hint : m₃.HasInterval interval :=
    Machine.run_invariant (fun _ _ _ hl hs => step_hasInterval hl hs) hmid rfl
  have hstop : m₄.Stopped := by
    cases step_cases hcancel with
    | other h => simp [TimerEvent.concerns] at h
    | cancelled => cases m₃ <;> first | exact hint.elim | rfl | trivial
  have hstop₅ : m₅.Stopped :=
    Machine.run_invariant (fun _ _ _ hl hs => step_stopped hl hs) hwait hstop
  -- a `handleRead` begins only when no batch is running
  have hgone : m₆ = gone := by
    cases step_cases hbegin with
    | other h => cases h
    | early | reached => exact hstop₅.elim
    | idleBegun h => cases m₅ <;> first | exact hstop₅.elim | rfl | cases h
  exact countP_executes_spent (hgone ▸ trivial) hpost

/-- A timer that is cancelled while it is due is executed all the same, once, before the
`handleRead` ends, and never again. -/
theorem executed_once_after_cancel {t : Timer} {now : Int} {c : Bool}
    {rest post : List TimerEvent} (hended : TimerEvent.ended ∉ rest)
    (hacc : Machine.run (step id) (due t now c) (.cancelled id :: (rest ++ .ended :: post)) =
      some l) :
    rest.countP (·.executes id) = 1 ∧ post.countP (·.executes id) = 0 := by
  obtain ⟨m, hcancel, hacc⟩ := Machine.run_cons_eq_some.mp hacc
  obtain ⟨m₁, m₂, hrest, hend, hpost⟩ := Machine.run_split_eq_some.mp hacc
  have hm : m = due t now true := by
    simp only [step, if_true] at hcancel
    exact (Option.some.inj hcancel).symm
  subst hm
  have hstop : m₁.Stopped := Machine.run_invariant (fun _ _ _ hl hs => step_stopped hl hs) hrest rfl
  rcases run_due hended hrest with ⟨c', rfl⟩ | ⟨⟨c', rfl⟩, -, honce⟩
  · cases hend
  · have hgone : m₂.Spent := by
      cases step_cases hend with
      | other h | idleEnded h => cases h
      | repeated => cases hstop
      | deleted => trivial
    exact ⟨honce, countP_executes_spent hgone hpost⟩

/-! ## What is still to come -/

/-- The timer is scheduled, or will be again after the batch. -/
def Pending : Life → Prop
  | fresh => False
  | scheduled _ => True
  | due t _ c => t.repeats = true ∧ c = false
  | ran t _ c => t.repeats = true ∧ c = false
  | gone => False

/-- The timer is in a batch and has not been executed in it. -/
def Due : Life → Prop
  | due .. => True
  | _ => False

theorem cancel_not_pending (l : Life) : ¬ l.cancel.Pending := by
  cases l <;> simp [cancel, Pending]

theorem cancel_due_iff (l : Life) : l.cancel.Due ↔ l.Due := by
  cases l <;> simp [cancel, Due]

/-- Only what is pending stays so. -/
theorem step_pending {e : TimerEvent} (hl : l ≠ fresh) (hs : step id l e = some l')
    (hp : l'.Pending) : l.Pending := by
  cases step_cases hs with
  | cancelled => exact absurd hp (cancel_not_pending l)
  | repeated hrep => exact ⟨hrep, rfl⟩
  | added => exact absurd rfl hl
  | deleted => exact hp.elim
  | early | reached => trivial
  | other | executed | idleBegun | idleEnded | scheduledEnded => exact hp

/-- What becomes due was pending, and what is due stays so until it is executed. -/
theorem step_due {e : TimerEvent} (hs : step id l e = some l') (hd : l'.Due) :
    l.Due ∨ l.Pending := by
  cases step_cases hs with
  | cancelled => exact Or.inl ((cancel_due_iff l).mp hd)
  | reached => exact Or.inr trivial
  | added | early | executed | repeated | deleted | scheduledEnded => exact hd.elim
  | other | idleBegun | idleEnded => exact Or.inl hd

end Life

/-! ## The executions inside one `handleRead` -/

/-- The expiration shown by an execution. -/
def TimerEvent.expiration? : TimerEvent → Option Int
  | .executed _ _ expiration => some expiration
  | _ => none

/-- Whether a `handleRead` is in progress, with its time and the expiration of the timer
it executed last. -/
inductive Reading
  | outside
  | inside (now : Int) (last : Option Int)

namespace Reading

/-- Executions happen inside a `handleRead`, at its time, and in order of expiration. -/
def step : Reading → TimerEvent → Option Reading
  | outside, .begun now => some (inside now none)
  | inside now last, .executed _ n expiration =>
    if n = now ∧ (∀ x ∈ last, x ≤ expiration) then some (inside now (some expiration)) else none
  | inside _ _, .ended => some outside
  | r, .added .. => some r
  | r, .cancelled _ => some r
  | _, _ => none

variable {r r' : Reading}

theorem step_executed {id : TimerId} {n expiration : Int}
    (hs : r.step (.executed id n expiration) = some r') :
    ∃ last, r = inside n last ∧ (∀ x ∈ last, x ≤ expiration) ∧
      r' = inside n (some expiration) := by
  cases r with
  | outside => cases hs
  | inside now last =>
    simp only [step] at hs
    split at hs
    · rename_i hc
      obtain ⟨rfl, hle⟩ := hc
      exact ⟨last, rfl, hle, (Option.some.inj hs).symm⟩
    · cases hs

/-- The executions of one `handleRead` are in order of expiration. -/
theorem executed_sorted {now : Int} {last : Option Int} {h : List TimerEvent}
    (hended : TimerEvent.ended ∉ h) (hacc : Machine.run step (inside now last) h = some r) :
    (h.filterMap TimerEvent.expiration?).Pairwise (· ≤ ·) ∧
      ∀ x ∈ last, ∀ y ∈ h.filterMap TimerEvent.expiration?, x ≤ y := by
  induction h generalizing last with
  | nil => simp
  | cons e h ih =>
    have htail : TimerEvent.ended ∉ h := fun hmem => hended (List.mem_cons_of_mem e hmem)
    obtain ⟨m, hm, hrest⟩ := Machine.run_cons_eq_some.mp hacc
    cases e with
    | added => cases hm; exact ih htail hrest
    | cancelled => cases hm; exact ih htail hrest
    | begun => cases hm
    | ended => exact absurd List.mem_cons_self hended
    | executed id n expiration =>
      obtain ⟨last', heq, hle, rfl⟩ := step_executed hm
      cases heq
      obtain ⟨hsorted, hfirst⟩ := ih htail hrest
      change (expiration :: h.filterMap TimerEvent.expiration?).Pairwise (· ≤ ·) ∧
        ∀ x ∈ last, ∀ y ∈ expiration :: h.filterMap TimerEvent.expiration?, x ≤ y
      refine ⟨List.pairwise_cons.mpr ⟨hfirst expiration rfl, hsorted⟩, ?_⟩
      intro x hx y hy
      rcases List.mem_cons.mp hy with rfl | hy
      · exact hle x hx
      · exact (hle x hx).trans (hfirst expiration rfl y hy)

/-- Inside a `handleRead`, the last event of its kind is its own beginning. -/
theorem exists_begun {pre : List TimerEvent} {now : Int} {last : Option Int}
    (hacc : Machine.run step outside pre = some (inside now last)) :
    ∃ before since, pre = before ++ .begun now :: since ∧ TimerEvent.ended ∉ since ∧
      ∀ n, TimerEvent.begun n ∉ since := by
  have hcause := Machine.exists_last_cause (P := fun r => ∃ last, r = inside now last)
    (C := (· = .begun now)) (N := fun e => e ≠ .ended ∧ ∀ n, e ≠ .begun n)
    (fun r e r' h hr' => ?_) hacc ⟨last, rfl⟩
  · obtain ⟨before, e, since, rfl, rfl, hsince⟩ := hcause.resolve_right fun hstart => by
      obtain ⟨last', hinside⟩ := hstart.2
      cases hinside
    exact ⟨before, since, rfl, fun hmem => (hsince _ hmem).1 rfl,
      fun n hmem => (hsince _ hmem).2 n rfl⟩
  · obtain ⟨last', rfl⟩ := hr'
    cases e with
    | begun n =>
      cases r with
      | outside =>
        cases h
        exact .inl rfl
      | inside => cases h
    | ended => cases r <;> cases h
    | added | cancelled =>
      cases r with
      | outside => cases h
      | inside =>
        cases h
        exact .inr ⟨⟨by simp, by simp⟩, last', rfl⟩
    | executed id n expiration =>
      obtain ⟨before, rfl, -, heq⟩ := step_executed h
      cases heq
      exact .inr ⟨⟨by simp, by simp⟩, before, rfl⟩

end Reading
end ReMuduo
