import Mathlib.Data.Fintype.Basic
import ReMuduo.Logger
import ReMuduo.Machine

/-! # The level of a line

A `LOG_*` macro (`include/Logger.h`) makes two calls of the one `Logger` of the process:
`setLogLevel` stores a level in `LogLevel_`, and `log` reads it back for its line.  Threads
may be anywhere between the two.  `LOG_FATAL` exits after its line; what the other threads
still do until the process is gone is a run like any other.

The line that is emitted has the level of the last `setLogLevel` of all threads
(`lines_carry_level_iff`). -/
namespace ReMuduo

/-- Where a thread is in a macro. -/
inductive MacroPc where
  | idle
  | levelSet (level : LogLevel) (msg : List UInt8)
  | exited
deriving DecidableEq

/-- A line that `log` emitted: the level and the message of its macro, the time, and what was
stored of the line. -/
structure LogLine where
  level : LogLevel
  msg : List UInt8
  now : Int
  text : List UInt8
deriving DecidableEq

/-- The line says the level of the macro that it is from. -/
def LogLine.Carries (localtime : Int → Tm) (l : LogLine) : Prop :=
  Logger.header localtime l.level.toInt l.now <+: l.text

instance (localtime : Int → Tm) (l : LogLine) : Decidable (l.Carries localtime) :=
  inferInstanceAs (Decidable (_ <+: _))

structure LogThreads (τ : Type) where
  logLevel : Int
  pc : τ → MacroPc
  lines : List LogLine

/-- The two calls of a macro, by the thread `t`. -/
inductive LogCall (τ : Type) where
  | setLogLevel (t : τ) (level : LogLevel) (text : List UInt8)
  | log (t : τ) (now : Int)

/-- The call stores a level. -/
def LogCall.sets {τ : Type} : LogCall τ → Bool
  | .setLogLevel .. => true
  | .log .. => false

/-- The call is the second one of a macro of `t`. -/
def LogCall.logs {τ : Type} [DecidableEq τ] (t : τ) : LogCall τ → Bool
  | .setLogLevel .. => false
  | .log u _ => decide (u = t)

namespace LogThreads

variable {τ : Type} [DecidableEq τ] {localtime : Int → Tm} {s s' : LogThreads τ}
  {i : LogCall τ} {calls : List (LogCall τ)}

/-- No thread has logged yet. -/
def initial : LogThreads τ where
  logLevel := 0
  pc _ := .idle
  lines := []

/-- `setLogLevel(level)` by a thread whose macro formats `text`. -/
def setLogLevel (s : LogThreads τ) (t : τ) (level : LogLevel) (text : List UInt8) :
    LogThreads τ :=
  { s with
    logLevel := level.toInt
    pc := Function.update s.pc t (.levelSet level (Logger.macroMessage text)) }

/-- `log(msg)`, the second call of a macro of level `level`. -/
def log (localtime : Int → Tm) (s : LogThreads τ) (t : τ) (level : LogLevel) (msg : List UInt8)
    (now : Int) : LogThreads τ :=
  { s with
    pc := Function.update s.pc t (if level = .FATAL then .exited else .idle)
    lines := s.lines ++
      [⟨level, msg, now, Printf.stored 1024 (Logger.line localtime s.logLevel now msg)⟩] }

def step (localtime : Int → Tm) (s : LogThreads τ) : LogCall τ → Option (LogThreads τ)
  | .setLogLevel t level text =>
    match s.pc t with
    | .idle => some (s.setLogLevel t level text)
    | _ => none
  | .log t now =>
    match s.pc t with
    | .levelSet level msg => some (s.log localtime t level msg now)
    | _ => none

theorem step_cases (h : step localtime s i = some s') :
    (∃ t level text, i = .setLogLevel t level text ∧ s' = s.setLogLevel t level text) ∨
    (∃ t now level msg, i = .log t now ∧ s.pc t = .levelSet level msg ∧
      s' = s.log localtime t level msg now) := by
  cases i with
  | setLogLevel t level text =>
    rw [step] at h
    split at h
    · exact .inl ⟨t, level, text, rfl, (Option.some.inj h).symm⟩
    · cases h
  | log t now =>
    rw [step] at h
    split at h
    next level msg hpc => exact .inr ⟨t, now, level, msg, rfl, hpc, (Option.some.inj h).symm⟩
    next => cases h

/-! ## Which lines have their own level -/

/-- A thread between the two calls of a macro has `value` as its level. -/
def FindsLevel (value : Int) : MacroPc → Prop
  | .levelSet level _ => value = level.toInt
  | _ => True

instance (value : Int) : (pc : MacroPc) → Decidable (FindsLevel value pc)
  | .idle => isTrue trivial
  | .levelSet level _ => inferInstanceAs (Decidable (value = level.toInt))
  | .exited => isTrue trivial

/-- A thread that logs finds the level of its macro in `LogLevel_`. -/
def OwnLevel (s : LogThreads τ) : LogCall τ → Prop
  | .setLogLevel _ _ _ => True
  | .log t _ => FindsLevel s.logLevel (s.pc t)

/-- A level is set only while all other threads between their two calls have the same one. -/
def Undisturbed (s : LogThreads τ) : LogCall τ → Prop
  | .setLogLevel t level _ => ∀ u, u ≠ t → FindsLevel level.toInt (s.pc u)
  | .log _ _ => True

instance [Fintype τ] (s : LogThreads τ) : (i : LogCall τ) → Decidable (s.Undisturbed i)
  | .setLogLevel t level _ =>
    inferInstanceAs (Decidable (∀ u, u ≠ t → FindsLevel level.toInt (s.pc u)))
  | .log _ _ => isTrue trivial

/-- All lines have the levels of their macros. -/
def AllCarry (localtime : Int → Tm) (s : LogThreads τ) : Prop :=
  ∀ l ∈ s.lines, l.Carries localtime

theorem step_allCarry (h : step localtime s i = some s') :
    s'.AllCarry localtime ↔ s.AllCarry localtime ∧ s.OwnLevel i := by
  obtain ⟨t, level, text, rfl, rfl⟩ | ⟨t, now, level, msg, rfl, hpc, rfl⟩ := step_cases h
  · exact ⟨fun hs => ⟨hs, trivial⟩, And.left⟩
  · rw [OwnLevel, hpc, FindsLevel, ← Logger.header_prefix_iff localtime s.logLevel now msg level]
    rw [AllCarry, log, List.forall_mem_append, List.forall_mem_singleton]
    exact Iff.rfl

/-- Every thread between its two calls would find the level of its macro. -/
def Ready (s : LogThreads τ) : Prop := ∀ t, FindsLevel s.logLevel (s.pc t)

theorem step_ready (hs : s.Ready) (hi : s.Undisturbed i) (h : step localtime s i = some s') :
    s'.Ready := by
  intro u
  obtain ⟨t, level, text, rfl, rfl⟩ | ⟨t, now, level, msg, rfl, hpc, rfl⟩ := step_cases h
  · by_cases hu : u = t
    · have hset : (s.setLogLevel t level text).pc u =
          .levelSet level (Logger.macroMessage text) := by
        rw [hu]
        exact Function.update_self ..
      rw [hset]
      exact rfl
    · have hkeep : (s.setLogLevel t level text).pc u = s.pc u := Function.update_of_ne hu ..
      rw [hkeep]
      exact hi u hu
  · by_cases hu : u = t
    · have hdone : (s.log localtime t level msg now).pc u =
          if level = .FATAL then .exited else .idle := by
        rw [hu]
        exact Function.update_self ..
      rw [hdone]
      split <;> trivial
    · have hkeep : (s.log localtime t level msg now).pc u = s.pc u := Function.update_of_ne hu ..
      rw [hkeep]
      exact hs u

omit [DecidableEq τ] in
theorem Ready.ownLevel (hs : s.Ready) : s.OwnLevel i := by
  cases i with
  | setLogLevel t level text => trivial
  | log t now => exact hs t

/-! ## The level that was set last -/

/-- If other threads set levels between the two calls of a macro, the last level they set is
the one of the macro. -/
def LastLevelOwn (calls : List (LogCall τ)) : Prop :=
  ∀ pre mid late post t u level level' text text' now,
    calls = pre ++ .setLogLevel t level text ::
      (mid ++ .setLogLevel u level' text' :: (late ++ .log t now :: post)) →
    (∀ c ∈ mid ++ late, c.logs t = false) → (∀ c ∈ late, c.sets = false) → level' = level

/-- A thread inside a macro stays there until it logs. -/
theorem step_inside {t : τ} {level : LogLevel} {msg : List UInt8}
    (hpc : s.pc t = .levelSet level msg) (hi : i.logs t = false)
    (h : step localtime s i = some s') : s'.pc t = .levelSet level msg := by
  cases i with
  | setLogLevel u level' text =>
    simp only [step] at h
    split at h
    · rename_i hidle
      have hne : t ≠ u := by
        rintro rfl
        cases hpc.symm.trans hidle
      rw [← Option.some.inj h]
      exact (Function.update_of_ne hne ..).trans hpc
    · cases h
  | log u now =>
    have hne : t ≠ u := fun heq => of_decide_eq_false hi heq.symm
    simp only [step] at h
    split at h
    · rw [← Option.some.inj h]
      exact (Function.update_of_ne hne ..).trans hpc
    · cases h

theorem step_logLevel (hi : i.sets = false) (h : step localtime s i = some s') :
    s'.logLevel = s.logLevel := by
  obtain ⟨t, level, text, rfl, rfl⟩ | ⟨t, now, level, msg, rfl, hpc, rfl⟩ := step_cases h
  · cases hi
  · rfl

theorem run_inside {t : τ} {level : LogLevel} {msg : List UInt8}
    (hpc : s.pc t = .levelSet level msg) (hcalls : ∀ c ∈ calls, c.logs t = false)
    (hrun : Machine.run (step localtime) s calls = some s') : s'.pc t = .levelSet level msg :=
  Machine.run_invariant_mem (P := fun s => s.pc t = .levelSet level msg)
    (fun c hc _ _ hpc h => step_inside hpc (hcalls c hc) h) hrun hpc

theorem run_logLevel (hcalls : ∀ c ∈ calls, c.sets = false)
    (hrun : Machine.run (step localtime) s calls = some s') : s'.logLevel = s.logLevel :=
  Machine.run_invariant_mem (P := fun u => u.logLevel = s.logLevel)
    (fun c hc _ _ hs h => (step_logLevel (hcalls c hc) h).trans hs) hrun rfl

/-- The call by which a thread came into the macro it is in. -/
theorem exists_set {t : τ} {level : LogLevel} {msg : List UInt8}
    (hrun : Machine.run (step localtime) initial calls = some s)
    (hpc : s.pc t = .levelSet level msg) :
    ∃ pre text mid, calls = pre ++ .setLogLevel t level text :: mid ∧
      ∀ c ∈ mid, c.logs t = false := by
  have hcause := Machine.exists_last_cause (P := fun s => s.pc t = .levelSet level msg)
    (C := fun i => ∃ text, i = .setLogLevel t level text) (N := fun i => i.logs t = false)
    (fun u i v h hv => ?_) hrun hpc
  · obtain ⟨pre, i, mid, rfl, ⟨text, rfl⟩, hmid⟩ := hcause.resolve_right fun hstart => by
      cases hstart.2
    exact ⟨pre, text, mid, rfl, hmid⟩
  · obtain ⟨w, level', text, rfl, rfl⟩ | ⟨w, now, level', msg', rfl, -, rfl⟩ := step_cases h
    · by_cases hw : t = w
      · subst hw
        have hset : MacroPc.levelSet level' (Logger.macroMessage text) = .levelSet level msg :=
          (Function.update_self ..).symm.trans hv
        cases hset
        exact .inl ⟨text, rfl⟩
      · exact .inr ⟨rfl, (Function.update_of_ne hw ..).symm.trans hv⟩
    · by_cases hw : t = w
      · subst hw
        have hdone : (if level' = .FATAL then MacroPc.exited else .idle) = .levelSet level msg :=
          (Function.update_self ..).symm.trans hv
        split at hdone <;> cases hdone
      · exact .inr ⟨decide_eq_false fun heq => hw heq.symm,
          (Function.update_of_ne hw ..).symm.trans hv⟩

/-- The call that has set the level, if the level has changed. -/
theorem exists_last_level (hrun : Machine.run (step localtime) s calls = some s')
    (hne : s'.logLevel ≠ s.logLevel) :
    ∃ mid u level text late, calls = mid ++ .setLogLevel u level text :: late ∧
      (∀ c ∈ late, c.sets = false) ∧ s'.logLevel = level.toInt := by
  have hcause := Machine.exists_last_cause (P := fun v => v.logLevel = s'.logLevel)
    (C := fun i => ∃ u level text, i = .setLogLevel u level text ∧ s'.logLevel = level.toInt)
    (N := fun i => i.sets = false) (fun u i v h hv => ?_) hrun rfl
  · obtain ⟨mid, i, late, rfl, ⟨u, level, text, rfl, hlevel⟩, hlate⟩ :=
      hcause.resolve_right fun hstart => hne hstart.2.symm
    exact ⟨mid, u, level, text, late, rfl, hlate, hlevel⟩
  · obtain ⟨w, level, text, rfl, rfl⟩ | ⟨w, now, level, msg, rfl, -, rfl⟩ := step_cases h
    · exact .inl ⟨w, level, text, rfl, hv.symm⟩
    · exact .inr ⟨rfl, hv⟩

theorem toInt_injective : Function.Injective LogLevel.toInt := by
  intro a b h
  cases a <;> cases b <;> first | rfl | cases h

theorem step_setLogLevel {t : τ} {level : LogLevel} {text : List UInt8}
    (h : step localtime s (.setLogLevel t level text) = some s') :
    s' = s.setLogLevel t level text := by
  obtain ⟨_, _, _, heq, rfl⟩ | ⟨_, _, _, _, heq, -⟩ := step_cases h
  · cases heq
    rfl
  · cases heq

/-- A `log` that finds the level of its macro finds the one that was set last. -/
theorem lastLevelOwn_of_ownLevel
    (hrun : Machine.run (step localtime) (initial : LogThreads τ) calls = some s)
    (halong : Machine.Along (step localtime) OwnLevel (initial : LogThreads τ) calls) :
    LastLevelOwn calls := by
  rintro pre mid late post t u level level' text text' now heq hlogs hsets
  have hcalls : calls = (pre ++ .setLogLevel t level text ::
      (mid ++ .setLogLevel u level' text' :: late)) ++ .log t now :: post := by simp [heq]
  subst hcalls
  obtain ⟨e, f, he, -⟩ := Machine.run_split_eq_some.mp hrun
  have hown := ((Machine.along_append he).mp halong).2.1
  obtain ⟨a, b, -, hset, hb⟩ := Machine.run_split_eq_some.mp he
  obtain rfl := step_setLogLevel hset
  have hinside : e.pc t = .levelSet level (Logger.macroMessage text) := by
    refine run_inside (Function.update_self ..) (fun i hi => ?_) hb
    rcases List.mem_append.mp hi with hi | hi
    · exact hlogs i (List.mem_append_left _ hi)
    · rcases List.mem_cons.mp hi with rfl | hi
      · rfl
      · exact hlogs i (List.mem_append_right _ hi)
  obtain ⟨c, d, -, hset', hd⟩ := Machine.run_split_eq_some.mp hb
  have hlevel : e.logLevel = level'.toInt := by
    rw [run_logLevel hsets hd, step_setLogLevel hset']
    rfl
  rw [OwnLevel, hinside, FindsLevel, hlevel] at hown
  exact toInt_injective hown

theorem ownLevel_of_lastLevelOwn
    (hrun : Machine.run (step localtime) (initial : LogThreads τ) calls = some s)
    (hlast : LastLevelOwn calls) :
    Machine.Along (step localtime) OwnLevel (initial : LogThreads τ) calls := by
  by_contra halong
  obtain ⟨calls', i, post, x, y, rfl, hx, -, hnot, hstep, -⟩ :=
    Machine.exists_first_violation hrun halong
  obtain ⟨t, level, text, rfl, -⟩ | ⟨t, now, level, msg, rfl, hpc, -⟩ := step_cases hstep
  · exact hnot trivial
  · -- the thread has come into its macro, and then somebody has set another level
    obtain ⟨pre, text, mid, rfl, hmid⟩ := exists_set hx hpc
    obtain ⟨a, b, -, hset, hb⟩ := Machine.run_split_eq_some.mp hx
    obtain rfl := step_setLogLevel hset
    rw [OwnLevel, hpc, FindsLevel] at hnot
    obtain ⟨mid, u, level', text', late, rfl, hlate, hnow⟩ := exists_last_level hb hnot
    have hown : level' = level := by
      refine hlast pre mid late post t u level level' text text' now (by simp) ?_ hlate
      intro c hc
      refine hmid c ?_
      rcases List.mem_append.mp hc with hc | hc
      · exact List.mem_append_left _ hc
      · exact List.mem_append_right _ (List.mem_cons_of_mem _ hc)
    exact hnot (hown ▸ hnow)

/-- **Whose level a line says.**  All lines say the level of their own macro if levels are set
only while all other threads inside a macro have the same one.  They do so exactly when the
last level that is set between the two calls of a macro, if any is, is the level of that
macro, and this is to say that every `log` finds the level of its macro in `LogLevel_`. -/
theorem lines_carry_level_iff
    (hrun : Machine.run (step localtime) (initial : LogThreads τ) calls = some s) :
    (Machine.Along (step localtime) Undisturbed (initial : LogThreads τ) calls →
      ∀ l ∈ s.lines, l.Carries localtime) ∧
    ((∀ l ∈ s.lines, l.Carries localtime) ↔ LastLevelOwn calls) ∧
    ((∀ l ∈ s.lines, l.Carries localtime) ↔
      Machine.Along (step localtime) OwnLevel (initial : LogThreads τ) calls) := by
  have hnone : (initial : LogThreads τ).AllCarry localtime := by
    intro l hl
    cases hl
  have hown : (∀ l ∈ s.lines, l.Carries localtime) ↔
      Machine.Along (step localtime) OwnLevel (initial : LogThreads τ) calls :=
    Machine.run_iff_along (fun s i s' h => step_allCarry h) hrun hnone
  have hlast : Machine.Along (step localtime) OwnLevel (initial : LogThreads τ) calls ↔
      LastLevelOwn calls := ⟨lastLevelOwn_of_ownLevel hrun, ownLevel_of_lastLevelOwn hrun⟩
  refine ⟨fun halong => ?_, hown.trans hlast, hown⟩
  refine (Machine.run_invariant_along (P := fun s => s.Ready ∧ s.AllCarry localtime) ?_ hrun halong
    ⟨fun t => trivial, hnone⟩).2
  rintro s i s' ⟨hready, hcarry⟩ hi h
  exact ⟨step_ready hready hi h, (step_allCarry h).mpr ⟨hcarry, hready.ownLevel⟩⟩

/-- Two threads log at the same level, the one inside the macro of the other. -/
def sameLevel : List (LogCall Bool) :=
  [.setLogLevel false .INFO [97], .setLogLevel true .INFO [98], .log false 0, .log true 0]

theorem sameLevel_lines_carry :
    ∃ s, Machine.run (step Logger.epoch) initial sameLevel = some s ∧
      ∀ l ∈ s.lines, l.Carries Logger.epoch := by
  have hundisturbed : Machine.Along (step Logger.epoch) Undisturbed initial sameLevel := by decide
  refine ⟨_, rfl, (lines_carry_level_iff rfl).1 hundisturbed⟩

/-- `LOG_INFO("a")` with the `setLogLevel` of a `LOG_ERROR` between its two calls: its line
says `ERROR`. -/
theorem other_level_line :
    ∃ s, Machine.run (step Logger.epoch) (initial : LogThreads Bool)
        [.setLogLevel false .INFO [97], .setLogLevel true .ERROR [98], .log false 0] = some s ∧
      ∃ l ∈ s.lines, l.level = .INFO ∧ ¬ l.Carries Logger.epoch ∧
        Logger.header Logger.epoch LogLevel.ERROR.toInt 0 <+: l.text := by
  refine ⟨_, rfl, _, List.mem_singleton.mpr rfl, rfl, ?_⟩
  decide +kernel

end LogThreads
end ReMuduo
