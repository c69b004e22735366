import Mathlib.Tactic.Common

/-! # Machines driven by inputs

A system is a partial step function `step : σ → ι → Option σ`: from state `s` the
input `i` leads to `step s i`, and `none` says that `i` cannot happen in `s`.
Everything the environment chooses — which thread moves, what the kernel answers,
what a user callback does next — is part of the input, so a run is a list of
inputs, and a statement about every run is a statement about every list.

These rules carry the proofs about whole runs:

* `run_invariant`: what one step preserves, a run preserves;
* `exists_gaining_step`: what a run has gained, it has gained at one of its steps;
* `exists_last_cause`: what a run ends in goes back to the last input that can be its cause;
* `run_countP_le`: a potential bounds the number of the steps that lower it;
* `run_invariant_along`: the same for the runs whose steps all satisfy a guard;
* `run_iff_along`: a run ends in a property that every step keeps exactly when it satisfies a
  guard, exactly when its steps all satisfy the guard;
* `run_invariant_throughout`: the same for the runs whose states all have a property;
* `throughout_iff_along`: a run has a property in all its states exactly when its steps all
  satisfy a guard;
* `run_refines_along`: a run whose steps all satisfy a guard can be taken, and is a run
  of a simpler machine;
* `run_rel`: two machines that take the same inputs to related states do so for a run;
* `run_iff_accepts`: a run ends in a property exactly when a smaller machine, that refuses the
  inputs that destroy it, accepts the inputs of the run;
* `run_monitor`: a second machine that reads the log the first one keeps accepts it,
  if it can follow every step.  What a log may contain is then a statement about the
  monitor alone.
-/
namespace ReMuduo
namespace Machine

variable {σ ι ε : Type} (step : σ → ι → Option σ)

/-- The state after the inputs `is`, if they can all happen in turn. -/
def run : σ → List ι → Option σ
  | s, [] => some s
  | s, i :: is => (step s i).bind (fun t => run t is)

@[simp] theorem run_nil (s : σ) : run step s [] = some s := rfl

variable {step}

theorem run_cons_eq_some {s s' : σ} {i : ι} {is : List ι} :
    run step s (i :: is) = some s' ↔ ∃ t, step s i = some t ∧ run step t is = some s' := by
  rw [run, Option.bind_eq_some_iff]

theorem run_singleton_eq_some {s s' : σ} {i : ι} :
    run step s [i] = some s' ↔ step s i = some s' := by
  simp [run]

theorem run_append_eq_some {s s' : σ} {is js : List ι} :
    run step s (is ++ js) = some s' ↔ ∃ t, run step s is = some t ∧ run step t js = some s' := by
  induction is generalizing s with
  | nil => simp
  | cons i is ih =>
    rw [List.cons_append, run_cons_eq_some]
    constructor
    · rintro ⟨t, ht, hrest⟩
      obtain ⟨u, hu, hjs⟩ := ih.mp hrest
      exact ⟨u, run_cons_eq_some.mpr ⟨t, ht, hu⟩, hjs⟩
    · rintro ⟨u, hu, hjs⟩
      obtain ⟨t, ht, hrest⟩ := run_cons_eq_some.mp hu
      exact ⟨t, ht, ih.mpr ⟨u, hrest, hjs⟩⟩

theorem run_split_eq_some {s s' : σ} {is js : List ι} {i : ι} :
    run step s (is ++ i :: js) = some s' ↔
      ∃ t u, run step s is = some t ∧ step t i = some u ∧ run step u js = some s' := by
  rw [run_append_eq_some]
  simp only [run_cons_eq_some, exists_and_left]

/-- What the inputs of the list preserve, the run of the list preserves. -/
theorem run_invariant_mem {P : σ → Prop} {s s' : σ} {is : List ι}
    (hstep : ∀ i ∈ is, ∀ s s', P s → step s i = some s' → P s')
    (hrun : run step s is = some s') (hs : P s) : P s' := by
  induction is generalizing s with
  | nil => exact Option.some.inj hrun ▸ hs
  | cons i is ih =>
    obtain ⟨t, ht, hrest⟩ := run_cons_eq_some.mp hrun
    exact ih (fun j hj => hstep j (List.mem_cons_of_mem _ hj)) hrest
      (hstep i List.mem_cons_self s t hs ht)

/-- **The invariant rule**: what every step preserves, every run preserves. -/
theorem run_invariant {P : σ → Prop} (hstep : ∀ s i s', P s → step s i = some s' → P s')
    {s s' : σ} {is : List ι} (hrun : run step s is = some s') (hs : P s) : P s' :=
  run_invariant_mem (fun i _ s s' => hstep s i s') hrun hs

/-- **The cut rule.**  A property that holds after a run and did not hold before it has been
gained by a step, the run cut there. -/
theorem exists_gaining_step {P : σ → Prop} {s s' : σ} {is : List ι}
    (hrun : run step s is = some s') (hs : ¬ P s) (hs' : P s') :
    ∃ pre i post t u, is = pre ++ i :: post ∧ run step s pre = some t ∧ ¬ P t ∧
      step t i = some u ∧ P u ∧ run step u post = some s' := by
  induction is generalizing s with
  | nil =>
    obtain rfl := Option.some.inj hrun
    exact absurd hs' hs
  | cons i is ih =>
    obtain ⟨u, hu, hrest⟩ := run_cons_eq_some.mp hrun
    by_cases hPu : P u
    · exact ⟨[], i, is, s, u, rfl, rfl, hs, hu, hPu, hrest⟩
    · obtain ⟨pre, j, post, t, v, rfl, hpre, hPt, hstep, hPv, hpost⟩ := ih hrest hPu
      exact ⟨i :: pre, j, post, t, v, rfl, run_cons_eq_some.mpr ⟨u, hu, hpre⟩, hPt, hstep, hPv,
        hpost⟩

/-- **The provenance rule.**  Let a property hold after a step only if the input is a cause of it,
or if it held before and the input is neutral.  Then a run that ends in it has a last cause, with
neutral inputs after it; or all its inputs are neutral, and the property held from the start. -/
theorem exists_last_cause {P : σ → Prop} {C N : ι → Prop}
    (hstep : ∀ s i s', step s i = some s' → P s' → C i ∨ N i ∧ P s)
    {s s' : σ} {is : List ι} (hrun : run step s is = some s') (hs' : P s') :
    (∃ pre i post, is = pre ++ i :: post ∧ C i ∧ ∀ j ∈ post, N j) ∨
      (∀ j ∈ is, N j) ∧ P s := by
  induction is generalizing s with
  | nil =>
    obtain rfl := Option.some.inj hrun
    exact .inr ⟨fun j hj => absurd hj List.not_mem_nil, hs'⟩
  | cons i is ih =>
    obtain ⟨t, ht, hrest⟩ := run_cons_eq_some.mp hrun
    rcases ih hrest with ⟨pre, j, post, rfl, hcause, hpost⟩ | ⟨hneutral, hPt⟩
    · exact .inl ⟨i :: pre, j, post, rfl, hcause, hpost⟩
    · rcases hstep s i t ht hPt with hcause | ⟨hi, hPs⟩
      · exact .inl ⟨[], i, is, rfl, hcause, hneutral⟩
      · exact .inr ⟨List.forall_mem_cons.mpr ⟨hi, hneutral⟩, hPs⟩

/-- **The potential rule.**  If every input of a kind lowers a potential and no other input
raises it, a run has no more inputs of that kind than the potential falls by. -/
theorem run_countP_le {P : σ → Prop} {kind : ι → Bool} (potential : σ → Nat)
    (hstep : ∀ s i s', P s → step s i = some s' →
      P s' ∧ (if kind i then 1 else 0) + potential s' ≤ potential s)
    {s s' : σ} {is : List ι} (hrun : run step s is = some s') (hs : P s) :
    is.countP kind + potential s' ≤ potential s := by
  induction is generalizing s with
  | nil =>
    obtain rfl := Option.some.inj hrun
    exact Nat.le_of_eq (Nat.zero_add _)
  | cons i is ih =>
    obtain ⟨t, ht, hrest⟩ := run_cons_eq_some.mp hrun
    obtain ⟨hP, hle⟩ := hstep s i t hs ht
    have hlater := ih hrest hP
    rw [List.countP_cons]
    omega

/-! ## Runs whose steps all satisfy a guard -/

variable (step) in
/-- Every step of the run of `is` from `s` satisfies the guard `G`, which may look
at the state before the step and at its input. -/
def Along (G : σ → ι → Prop) : σ → List ι → Prop
  | _, [] => True
  | s, i :: is => G s i ∧ ∀ t, step s i = some t → Along G t is

theorem along_cons_of_some {G : σ → ι → Prop} {s t : σ} {i : ι} {is : List ι}
    (ht : step s i = some t) : Along step G s (i :: is) ↔ G s i ∧ Along step G t is := by
  simp only [Along, ht, Option.some.injEq, forall_eq']

theorem along_cons_of_none {G : σ → ι → Prop} {s : σ} {i : ι} {is : List ι}
    (hs : step s i = none) : Along step G s (i :: is) ↔ G s i := by
  simp [Along, hs]

theorem along_append {G : σ → ι → Prop} {s t : σ} {is js : List ι} (ht : run step s is = some t) :
    Along step G s (is ++ js) ↔ Along step G s is ∧ Along step G t js := by
  induction is generalizing s with
  | nil =>
    obtain rfl := Option.some.inj ht
    exact (and_iff_right trivial).symm
  | cons i is ih =>
    obtain ⟨u, hu, hrest⟩ := run_cons_eq_some.mp ht
    rw [List.cons_append, along_cons_of_some hu, along_cons_of_some hu, ih hrest, and_assoc]

/-- A guard that looks at the inputs only. -/
theorem along_of_forall_mem {P : ι → Prop} {s : σ} {is : List ι} (h : ∀ i ∈ is, P i) :
    Along step (fun _ i => P i) s is := by
  induction is generalizing s with
  | nil => trivial
  | cons i is ih =>
    exact ⟨h i List.mem_cons_self, fun _ _ => ih fun j hj => h j (List.mem_cons_of_mem _ hj)⟩

instance decidableAlong {G : σ → ι → Prop} [∀ s i, Decidable (G s i)] :
    ∀ (s : σ) (is : List ι), Decidable (Along step G s is)
  | _, [] => isTrue trivial
  | s, i :: is =>
    match h : step s i with
    | none => decidable_of_iff _ (along_cons_of_none h).symm
    | some t =>
      have : Decidable (Along step G t is) := decidableAlong t is
      decidable_of_iff _ (along_cons_of_some h).symm

theorem run_invariant_along {P : σ → Prop} {G : σ → ι → Prop}
    (hstep : ∀ s i s', P s → G s i → step s i = some s' → P s')
    {s s' : σ} {is : List ι} (hrun : run step s is = some s') (hG : Along step G s is)
    (hs : P s) : P s' := by
  induction is generalizing s with
  | nil => exact Option.some.inj hrun ▸ hs
  | cons i is ih =>
    obtain ⟨t, ht, hrest⟩ := run_cons_eq_some.mp hrun
    exact ih hrest (hG.2 t ht) (hstep s i t hs hG.1 ht)

/-- **The exact record rule.**  If every step keeps `P` exactly when it satisfies the guard, and
no step restores it, then a run from a state with `P` ends in one exactly when all its steps
satisfy the guard. -/
theorem run_iff_along {P : σ → Prop} {G : σ → ι → Prop}
    (hstep : ∀ s i s', step s i = some s' → (P s' ↔ P s ∧ G s i))
    {s s' : σ} {is : List ι} (hrun : run step s is = some s') (hs : P s) :
    P s' ↔ Along step G s is := by
  suffices hall : P s' ↔ P s ∧ Along step G s is by rw [hall, and_iff_right hs]
  clear hs
  induction is generalizing s with
  | nil => exact Option.some.inj hrun ▸ (and_iff_left trivial).symm
  | cons i is ih =>
    obtain ⟨t, ht, hrest⟩ := run_cons_eq_some.mp hrun
    rw [ih hrest, hstep s i t ht, along_cons_of_some ht, and_assoc]

/-- **The refinement rule.**  If every step that satisfies the guard can be taken, keeps
the invariant and is a step of a total machine on what `abs` shows, then a run whose
steps all satisfy the guard can be taken as a whole and is a run of that machine. -/
theorem run_refines_along {β : Type} {P : σ → Prop} {G : σ → ι → Prop} {abs : σ → β}
    {astep : β → ι → β}
    (hstep : ∀ s i, P s → G s i → ∃ s', step s i = some s' ∧ P s' ∧ abs s' = astep (abs s) i)
    {s : σ} {is : List ι} (hG : Along step G s is) (hs : P s) :
    ∃ s', run step s is = some s' ∧ P s' ∧ abs s' = is.foldl astep (abs s) := by
  induction is generalizing s with
  | nil => exact ⟨s, rfl, hs, rfl⟩
  | cons i is ih =>
    obtain ⟨t, ht, hPt, habs⟩ := hstep s i hs hG.1
    obtain ⟨s', hrun, hPs', habs'⟩ := ih (hG.2 t ht) hPt
    refine ⟨s', run_cons_eq_some.mpr ⟨t, ht, hrun⟩, hPs', ?_⟩
    rw [habs', habs, List.foldl_cons]

/-- A run that leaves the guard does so at a first step: before it every step
satisfies the guard. -/
theorem exists_first_violation {G : σ → ι → Prop} {s s' : σ} {is : List ι}
    (hrun : run step s is = some s') (hG : ¬ Along step G s is) :
    ∃ pre i post t u, is = pre ++ i :: post ∧ run step s pre = some t ∧ Along step G s pre ∧
      ¬ G t i ∧ step t i = some u ∧ run step u post = some s' := by
  induction is generalizing s with
  | nil => exact absurd trivial hG
  | cons i is ih =>
    obtain ⟨u, hu, hrest⟩ := run_cons_eq_some.mp hrun
    by_cases hi : G s i
    · have htail : ¬ Along step G u is := by
        intro h
        refine hG ⟨hi, fun v hv => ?_⟩
        rw [hu] at hv
        exact Option.some.inj hv ▸ h
      obtain ⟨pre, j, post, t, v, rfl, hpre, halong, hj, hstep, hpost⟩ := ih hrest htail
      refine ⟨i :: pre, j, post, t, v, rfl, run_cons_eq_some.mpr ⟨u, hu, hpre⟩, ⟨hi, ?_⟩,
        hj, hstep, hpost⟩
      intro w hw
      rw [hu] at hw
      exact Option.some.inj hw ▸ halong
    · exact ⟨[], i, is, s, u, rfl, rfl, trivial, hi, hu, hrest⟩

variable (step) in
/-- `P` holds in every state that the run of `is` from `s` goes through. -/
def Throughout (P : σ → Prop) : σ → List ι → Prop
  | s, [] => P s
  | s, i :: is => P s ∧ ∀ t, step s i = some t → Throughout P t is

theorem throughout_cons_of_some {P : σ → Prop} {s t : σ} {i : ι} {is : List ι}
    (ht : step s i = some t) :
    Throughout step P s (i :: is) ↔ P s ∧ Throughout step P t is := by
  simp only [Throughout, ht, Option.some.injEq, forall_eq']

theorem throughout_cons_of_none {P : σ → Prop} {s : σ} {i : ι} {is : List ι}
    (hs : step s i = none) : Throughout step P s (i :: is) ↔ P s := by
  simp [Throughout, hs]

instance decidableThroughout {P : σ → Prop} [∀ s, Decidable (P s)] :
    ∀ (s : σ) (is : List ι), Decidable (Throughout step P s is)
  | s, [] => inferInstanceAs (Decidable (P s))
  | s, i :: is =>
    match h : step s i with
    | none => decidable_of_iff _ (throughout_cons_of_none h).symm
    | some t =>
      have : Decidable (Throughout step P t is) := decidableThroughout t is
      decidable_of_iff _ (throughout_cons_of_some h).symm

theorem Throughout.first {P : σ → Prop} {s : σ} {is : List ι} (h : Throughout step P s is) :
    P s := by
  cases is with
  | nil => exact h
  | cons i is => exact h.1

/-- The invariant rule for the states that a run goes through. -/
theorem throughout_of_along {P Q : σ → Prop} {G : σ → ι → Prop} {s s' : σ} {is : List ι}
    (hkeep : ∀ i ∈ is, ∀ s s', Q s → G s i → step s i = some s' → Q s')
    (hQP : ∀ s, Q s → P s) (hrun : run step s is = some s') (hQ : Q s)
    (hG : Along step G s is) : Throughout step P s is := by
  induction is generalizing s with
  | nil => exact hQP s hQ
  | cons i is ih =>
    obtain ⟨t, ht, hrest⟩ := run_cons_eq_some.mp hrun
    obtain ⟨hi, hG⟩ := (along_cons_of_some ht).mp hG
    refine (throughout_cons_of_some ht).mpr ⟨hQP s hQ, ?_⟩
    exact ih (fun j hj => hkeep j (List.mem_cons_of_mem _ hj)) hrest
      (hkeep i List.mem_cons_self s t hQ hi ht) hG

/-- The invariant rule for a run all of whose states have a property. -/
theorem run_invariant_throughout {P Q : σ → Prop} {s s' : σ} {is : List ι}
    (hstep : ∀ i ∈ is, ∀ s s', Q s → P s' → step s i = some s' → Q s')
    (hrun : run step s is = some s') (hP : Throughout step P s is) (hs : Q s) : Q s' := by
  induction is generalizing s with
  | nil => exact Option.some.inj hrun ▸ hs
  | cons i is ih =>
    obtain ⟨t, ht, hrest⟩ := run_cons_eq_some.mp hrun
    obtain ⟨-, hP⟩ := (throughout_cons_of_some ht).mp hP
    exact ih (fun j hj => hstep j (List.mem_cons_of_mem _ hj)) hrest hP
      (hstep i List.mem_cons_self s t hs hP.first ht)

/-- **The exact guard rule.**  `Q` is an invariant of the steps that meet the guard, and
implies `P`; a step that leads from a state with `Q` to a state that satisfies `P` meets the
guard.  Then a run satisfies `P` throughout exactly when all its steps meet the guard. -/
theorem throughout_iff_along {I P Q : σ → Prop} {G : σ → ι → Prop} {s s' : σ} {is : List ι}
    (hinv : ∀ i ∈ is, ∀ s s', I s → step s i = some s' → I s')
    (hkeep : ∀ i ∈ is, ∀ s s', I s → Q s → G s i → step s i = some s' → Q s')
    (hmeets : ∀ i ∈ is, ∀ s s', I s → Q s → step s i = some s' → P s' → G s i)
    (hQP : ∀ s, Q s → P s) (hrun : run step s is = some s') (hI : I s) (hQ : Q s) :
    Throughout step P s is ↔ Along step G s is := by
  constructor
  · intro hall
    induction is generalizing s with
    | nil => trivial
    | cons i is ih =>
      obtain ⟨t, ht, hrest⟩ := run_cons_eq_some.mp hrun
      obtain ⟨-, hall⟩ := (throughout_cons_of_some ht).mp hall
      have hG : G s i := hmeets i List.mem_cons_self s t hI hQ ht hall.first
      refine (along_cons_of_some ht).mpr ⟨hG, ?_⟩
      exact ih (fun j hj => hinv j (List.mem_cons_of_mem _ hj))
        (fun j hj => hkeep j (List.mem_cons_of_mem _ hj))
        (fun j hj => hmeets j (List.mem_cons_of_mem _ hj)) hrest
        (hinv i List.mem_cons_self s t hI ht) (hkeep i List.mem_cons_self s t hI hQ hG ht) hall
  · refine throughout_of_along (Q := fun s => I s ∧ Q s) ?_ (fun s h => hQP s h.2) hrun ⟨hI, hQ⟩
    rintro i hi s s' ⟨hI, hQ⟩ hG h
    exact ⟨hinv i hi s s' hI h, hkeep i hi s s' hI hQ hG h⟩

/-! ## Two machines in lockstep -/

/-- **The lockstep rule.**  If from related states each input can happen in both machines
or in neither, and leads to related states, the same holds for every run.  An invariant
of the first machine may be assumed. -/
theorem run_rel {τ : Type} {step' : τ → ι → Option τ} {I : σ → Prop} {R : σ → τ → Prop}
    (hinv : ∀ s i s', I s → step s i = some s' → I s')
    (hstep : ∀ s t i, I s → R s t → Option.Rel R (step s i) (step' t i)) {s : σ} {t : τ}
    (hI : I s) (h : R s t) (is : List ι) : Option.Rel R (run step s is) (run step' t is) := by
  induction is generalizing s t with
  | nil => exact .some h
  | cons i is ih =>
    have hrel := hstep s t i hI h
    unfold run
    cases hs : step s i with
    | none =>
      rw [hs] at hrel
      cases ht : step' t i with
      | none => exact .none
      | some t' => rw [ht] at hrel; cases hrel
    | some s' =>
      rw [hs] at hrel
      cases ht : step' t i with
      | none => rw [ht] at hrel; cases hrel
      | some t' =>
        rw [ht] at hrel
        cases hrel with
        | some h' => exact ih (hinv s i s' hI hs) h'

/-- **The acceptor rule.**  The acceptor sees of a state what `abs` shows.  If every step keeps
`P` exactly when the acceptor takes the input too, and both then agree on what is seen, a run
from a state with `P` ends in one exactly when the acceptor takes all of its inputs.  An
invariant of the machine may be assumed. -/
theorem run_iff_accepts {β : Type} {I P : σ → Prop} (abs : σ → β) {astep : β → ι → Option β}
    (hinv : ∀ s i s', I s → step s i = some s' → I s')
    (hstep : ∀ s i s', I s → step s i = some s' →
      (P s' ↔ P s ∧ (astep (abs s) i).isSome) ∧ ∀ b, astep (abs s) i = some b → abs s' = b)
    {s s' : σ} {is : List ι} (hrun : run step s is = some s') (hI : I s) (hs : P s) :
    P s' ↔ (run astep (abs s) is).isSome := by
  suffices hall : P s' ↔ P s ∧ (run astep (abs s) is).isSome by rw [hall, and_iff_right hs]
  clear hs
  induction is generalizing s with
  | nil => exact Option.some.inj hrun ▸ (and_iff_left rfl).symm
  | cons i is ih =>
    obtain ⟨t, ht, hrest⟩ := run_cons_eq_some.mp hrun
    obtain ⟨hP, habs⟩ := hstep s i t hI ht
    rw [ih hrest (hinv s i t hI ht), hP, and_assoc, run]
    cases hb : astep (abs s) i with
    | none => simp
    | some b => simp [habs b hb]

/-! ## Machines that keep a log -/

/-- Where an event `x` of a log stands that has just grown by `e`. -/
theorem concat_eq_append_cons {log pre post : List ε} {e x : ε} :
    log ++ [e] = pre ++ x :: post ↔
      (post = [] ∧ log = pre ∧ e = x) ∨ ∃ post', post = post' ++ [e] ∧ log = pre ++ x :: post' := by
  rcases List.eq_nil_or_concat post with rfl | ⟨post', last, rfl⟩
  · simp
  · rw [List.concat_eq_append, ← List.cons_append, ← List.append_assoc]
    constructor
    · intro h
      obtain ⟨hlog, hlast⟩ := List.append_inj' h rfl
      exact .inr ⟨post', by rw [hlast], hlog⟩
    · rintro (⟨hnil, -⟩ | ⟨post'', hpost, hlog⟩)
      · simp at hnil
      · obtain ⟨rfl, hlast⟩ := List.append_inj' hpost rfl
        rw [hlog, hlast]

/-- **The monitor rule.**  A monitor reads the log of a machine event by event and
accepts it as long as it can step.  If every step of the machine either leaves the log
alone or appends an event the monitor accepts, both times keeping the relation between
the two states, then the monitor accepts the log of every run. -/
theorem run_monitor {μ : Type} {log : σ → List ε} {monitor : μ → ε → Option μ} {m₀ : μ}
    {R : σ → μ → Prop}
    (hstep : ∀ s i s' m, R s m → step s i = some s' →
      (log s' = log s ∧ R s' m) ∨ ∃ e m', log s' = log s ++ [e] ∧ monitor m e = some m' ∧ R s' m')
    {s s' : σ} {is : List ι} (hrun : run step s is = some s')
    (hs : ∃ m, run monitor m₀ (log s) = some m ∧ R s m) :
    ∃ m, run monitor m₀ (log s') = some m ∧ R s' m := by
  refine run_invariant (P := fun s => ∃ m, run monitor m₀ (log s) = some m ∧ R s m) ?_ hrun hs
  rintro s i s' ⟨m, hm, hR⟩ hi
  rcases hstep s i s' m hR hi with ⟨hlog, hR'⟩ | ⟨e, m', hlog, he, hR'⟩
  · exact ⟨m, by rw [hlog, hm], hR'⟩
  · refine ⟨m', ?_, hR'⟩
    rw [hlog, run_split_eq_some]
    exact ⟨m, m', hm, he, rfl⟩

end Machine
end ReMuduo
