import ReMuduo.LogConservation

/-! # Log lines at shutdown

`stop()` clears `running_`, wakes the back end and joins it.  The back end looks at
`running_` only at the top of its loop, and after the loop it flushes the file without
collecting what the front end still holds.  So whether a line that was appended before
`stop()` reaches the file depends on where the back end is when the flag is cleared: a
swap that is still to come takes the line along (`run_delivered`), and without one the
bytes that have left the front end are all that is ever written (`run_committed`).

The new thread asserts `running_` when it enters `threadFunc`, and it may do so only after
`stop()` has cleared the flag (`assertion_holds_iff`). -/
namespace ReMuduo
namespace AsyncLogging

/-- The lines that are to reach the file: those that fit into a buffer and have a byte. -/
def kept (s : AsyncLogging) : List (List UInt8) := s.short.filter (· ≠ [])

/-- What has left the front end: what is written, and what is about to be. -/
def committed (s : AsyncLogging) : List (List UInt8) :=
  s.output ++ s.unwritten.map BufferPtr.bytes

/-- The back end has found `running_` set and has not swapped yet. -/
def BeforeSwap (s : AsyncLogging) : Prop := s.pc = .locking ∨ s.pc = .waiting

/-- The lines `append` had taken in `before` have each been passed to `LogFile::append`
once, in order and whole, and so has nothing but lines given to `append`. -/
def Delivered (before s : AsyncLogging) : Prop :=
  ∃ written, Chunked written s.output ∧ before.kept <+: written ∧ written <+: s.kept

/-- The states after `stop()` has cleared `running_`. -/
structure Stopped (s : AsyncLogging) : Prop where
  valid : s.Valid
  stop : s.stopPc ≠ .notCalled
  running : s.running = false

theorem chunked_kept {s : AsyncLogging} (hs : s.Valid) :
    Chunked s.kept (s.committed ++ s.pending.map BufferPtr.bytes) := by
  rw [committed, List.append_assoc, ← List.map_append]
  exact hs.chunked.filter_ne_nil

theorem nil_notMem_kept (s : AsyncLogging) : [] ∉ s.kept := by simp [kept]

/-! ## What a step does after `running_` is cleared -/

/-- `append` takes the line and touches nothing of the back end or of `stop()`. -/
theorem append_frame (s : AsyncLogging) (line : List UInt8) :
    (s.append line).lines = s.lines ++ [line] ∧ (s.append line).output = s.output ∧
      (s.append line).pc = s.pc ∧ (s.append line).stopPc = s.stopPc ∧
      (s.append line).running = s.running := by
  dsimp only [append]
  split
  · exact ⟨rfl, rfl, rfl, rfl, rfl⟩
  · split <;> exact ⟨rfl, rfl, rfl, rfl, rfl⟩

theorem step_stopped {s s' : AsyncLogging} (hs : s.Stopped) (h : Step s s') : s'.Stopped := by
  have hkeeps : s'.stopPc ≠ .notCalled ∧ s'.running = false := by
    cases h with
    | append line =>
      obtain ⟨-, -, -, hstopPc, hrunning⟩ := append_frame s line
      rw [hstopPc, hrunning]
      exact ⟨hs.stop, hs.running⟩
    | start _ hnot | stop hnot => exact absurd hnot hs.stop
    | join => exact ⟨by simp, hs.running⟩
    | _ => exact ⟨hs.stop, hs.running⟩
  exact ⟨step_valid hs.valid h, hkeeps.1, hkeeps.2⟩

theorem step_kept {s s' : AsyncLogging} (h : Step s s') : s.kept <+: s'.kept := by
  cases h with
  | append line =>
    rw [kept, kept, short, short, (append_frame s line).1, List.filter_append, List.filter_append]
    exact List.prefix_append _ _
  | _ => exact List.prefix_refl _

/-- Once the back end is past its last swap, nothing more leaves the front end. -/
theorem step_committed {s s' : AsyncLogging} (hs : s.Stopped) (hpc : ¬ s.BeforeSwap)
    (h : Step s s') : ¬ s'.BeforeSwap ∧ s'.committed = s.committed := by
  cases h with
  | append line =>
    obtain ⟨-, houtput, hpc', -, -⟩ := append_frame s line
    simpa [BeforeSwap, committed, unwritten, hpc', houtput] using hpc
  | start _ hnot | stop hnot => exact absurd hnot hs.stop
  | join => exact ⟨hpc, rfl⟩
  | enter _ hrunning | again _ hrunning => simp [hs.running] at hrunning
  | abort hat | exit hat => simp [BeforeSwap, committed, unwritten, hat, fault]
  | wait hat => exact absurd (.inl hat) hpc
  | swap hat => exact absurd hat hpc
  | write b todo hat => simp [BeforeSwap, committed, unwritten, hat, BufferPtr.bytes]
  | writeNull todo hat => exact absurd hat (hs.valid.no_null_written todo)
  | recycle hat => simp [BeforeSwap, committed, unwritten, recycle, hat]

/-- A swap after `running_` is cleared takes all lines along. -/
theorem step_beforeSwap {s s' : AsyncLogging} (hs : s.Stopped) (hpc : s.BeforeSwap)
    (h : Step s s') : s'.BeforeSwap ∨ ¬ s'.BeforeSwap ∧ Chunked s'.kept s'.committed := by
  cases h with
  | append line =>
    left
    simpa [BeforeSwap, (append_frame s line).2.2.1] using hpc
  | join => exact .inl hpc
  | wait => exact .inl (.inr rfl)
  | swap =>
    have hcommitted : s.swap.committed = s.committed ++ s.pending.map BufferPtr.bytes := by
      rw [committed, committed, (hs.valid.before_swap hpc).2, List.map_nil, List.append_nil]
      rfl
    refine .inr ⟨by simp [BeforeSwap, swap], ?_⟩
    rw [hcommitted]
    exact chunked_kept hs.valid
  | start _ hnot | stop hnot => exact absurd hnot hs.stop
  | enter hat | abort hat | again hat | exit hat | write _ _ hat | writeNull _ hat
  | recycle hat => simp [BeforeSwap, hat] at hpc

/-! ## Runs -/

theorem run_stopped {s s' : AsyncLogging} {ops : List LogOp} (hs : s.Stopped)
    (hrun : Machine.run step s ops = some s') : s'.Stopped ∧ s.kept <+: s'.kept := by
  refine Machine.run_invariant (P := fun t => t.Stopped ∧ s.kept <+: t.kept) ?_ hrun
    ⟨hs, List.prefix_refl _⟩
  rintro t op t' ⟨ht, hkept⟩ h
  exact ⟨step_stopped ht (step_cases h), hkept.trans (step_kept (step_cases h))⟩

/-- Without a swap to come, what has left the front end is all that will. -/
theorem run_committed {s s' : AsyncLogging} {ops : List LogOp} (hs : s.Stopped)
    (hpc : ¬ s.BeforeSwap) (hrun : Machine.run step s ops = some s') :
    s'.committed = s.committed := by
  refine (Machine.run_invariant
    (P := fun t => t.Stopped ∧ ¬ t.BeforeSwap ∧ t.committed = s.committed) ?_ hrun
    ⟨hs, hpc, rfl⟩).2.2
  rintro t op t' ⟨ht, htpc, hcommitted⟩ h
  obtain ⟨htpc', hcommitted'⟩ := step_committed ht htpc (step_cases h)
  exact ⟨step_stopped ht (step_cases h), htpc', hcommitted'.trans hcommitted⟩

/-- With a swap to come, that swap takes along the lines appended before it. -/
theorem run_delivered {s s' : AsyncLogging} {ops : List LogOp} (hs : s.Stopped)
    (hpc : s.BeforeSwap) (hrun : Machine.run step s ops = some s') :
    s'.BeforeSwap ∨
      ∃ written, Chunked written s'.committed ∧ s.kept <+: written ∧ written <+: s'.kept := by
  refine (Machine.run_invariant (P := fun t => t.Stopped ∧ s.kept <+: t.kept ∧
    (t.BeforeSwap ∨ ¬ t.BeforeSwap ∧
      ∃ written, Chunked written t.committed ∧ s.kept <+: written ∧ written <+: t.kept)) ?_ hrun
    ⟨hs, List.prefix_refl _, .inl hpc⟩).2.2.imp_right And.right
  rintro t op t' ⟨ht, hkept, hphase⟩ h
  have hstep := step_cases h
  have hkept' := step_kept hstep
  refine ⟨step_stopped ht hstep, hkept.trans hkept', ?_⟩
  rcases hphase with htpc | ⟨htpc, written, hchunked, hbefore, hafter⟩
  · exact (step_beforeSwap ht htpc hstep).imp_right fun ⟨htpc', hchunked⟩ =>
      ⟨htpc', t'.kept, hchunked, hkept.trans hkept', List.prefix_refl _⟩
  · obtain ⟨htpc', hcommitted⟩ := step_committed ht htpc hstep
    exact .inr ⟨htpc', written, hcommitted ▸ hchunked, hbefore, hafter.trans hkept'⟩

/-! ## The lines appended before `stop()` -/

/-- `stop()` may clear `running_` here: the back end is between its test of `running_` and
its swap, or the front end holds no bytes. -/
def CanStop (s : AsyncLogging) : Prop := s.BeforeSwap ∨ ∀ p ∈ s.pending, p.bytes = []

/-- After `stop()` has returned, nothing is left in the middle of being written. -/
theorem Valid.joined_spec {s : AsyncLogging} (hs : s.Valid) (hjoined : s.stopPc = .joined) :
    ¬ s.BeforeSwap ∧ s.committed = s.output := by
  rcases hs.joined hjoined with hpc | hpc <;> simp [BeforeSwap, committed, unwritten, hpc]

theorem Delivered.length_le {before s : AsyncLogging} (h : Delivered before s) :
    before.kept.flatten.length ≤ s.output.flatten.length := by
  obtain ⟨written, hchunked, ⟨rest, rfl⟩, -⟩ := h
  rw [hchunked.flatten_eq, List.flatten_append, List.length_append]
  exact Nat.le_add_right _ _

/-- **Shutdown.**  After `stop()` has returned, the lines appended before it cleared
`running_` have all been passed to `LogFile::append`, each once, exactly if the back end
was then about to swap, or the front end held no bytes. -/
theorem delivered_iff_canStop {before after : List LogOp} {s₀ s : AsyncLogging}
    (hbefore : Machine.run step initial before = some s₀)
    (hafter : Machine.run step s₀ (.stop :: after) = some s) (hjoined : s.stopPc = .joined) :
    Delivered s₀ s ↔ s₀.CanStop := by
  obtain ⟨s₁, hstop, hrun⟩ := Machine.run_cons_eq_some.mp hafter
  obtain ⟨-, ⟨⟩⟩ := Option.ite_none_right_eq_some.mp hstop
  have hs₀ := run_valid hbefore
  have hs₁ : Stopped { s₀ with running := false, stopPc := .cleared } :=
    ⟨{ hs₀ with live := nofun, joined := nofun }, nofun, rfl⟩
  obtain ⟨hs, hkept⟩ := run_stopped hs₁ hrun
  obtain ⟨hpc, houtput⟩ := hs.valid.joined_spec hjoined
  constructor
  · intro hdelivered
    by_contra hcannot
    simp only [CanStop, not_or] at hcannot
    -- the pending bytes were counted among the lines and are never written
    have hlength := hdelivered.length_le
    rw [← houtput, run_committed hs₁ hcannot.1 hrun, ← (chunked_kept hs₀).flatten_eq,
      List.flatten_append, List.length_append] at hlength
    have hcommitted : committed { s₀ with running := false, stopPc := .cleared } =
        s₀.committed := rfl
    rw [hcommitted] at hlength
    have hnil : (s₀.pending.map BufferPtr.bytes).flatten = [] :=
      List.length_eq_zero_iff.mp (by omega)
    exact hcannot.2 (by simpa using hnil)
  · intro hcan
    by_cases hswap : s₀.BeforeSwap
    · obtain ⟨written, hchunked, hwritten⟩ := (run_delivered hs₁ hswap hrun).resolve_left hpc
      exact ⟨written, houtput ▸ hchunked, hwritten⟩
    · have hnil : (s₀.pending.map BufferPtr.bytes).flatten = [] := by
        simpa using hcan.resolve_left hswap
      have hchunked : Chunked s₀.kept s₀.committed :=
        (chunked_kept hs₀).of_append_nil s₀.nil_notMem_kept hnil
      refine ⟨s₀.kept, ?_, List.prefix_refl _, hkept⟩
      rw [← houtput, run_committed hs₁ hswap hrun]
      exact hchunked

/-- The back end waits for a full buffer when `stop()` is called, and writes the line. -/
theorem delivered_iff_canStop_waiting :
    ∃ s₀ s, Machine.run step initial [.start, .enter, .test, .lock, .append [1]] = some s₀ ∧
      Machine.run step s₀ [.stop, .wake, .write, .recycle, .test, .join] = some s ∧
      s.stopPc = .joined ∧ Delivered s₀ s := by
  have hbefore : ∃ s₀, Machine.run step initial [.start, .enter, .test, .lock, .append [1]] =
      some s₀ ∧ s₀.CanStop ∧ ∃ s, Machine.run step s₀
        [.stop, .wake, .write, .recycle, .test, .join] = some s ∧ s.stopPc = .joined :=
    ⟨_, rfl, .inl (.inr rfl), _, rfl, rfl⟩
  obtain ⟨s₀, hbefore, hcan, s, hafter, hjoined⟩ := hbefore
  exact ⟨s₀, s, hbefore, hafter, hjoined,
    (delivered_iff_canStop hbefore hafter hjoined).mpr hcan⟩

/-- A line appended while the back end writes is lost, if `stop()` is called before the
back end tests `running_` again. -/
theorem line_lost_at_stop :
    ∃ s₀ s, Machine.run step initial [.start, .enter, .test, .lock, .wake, .append [1]] =
        some s₀ ∧
      Machine.run step s₀ [.stop, .write, .recycle, .test, .join] = some s ∧
      s.stopPc = .joined ∧ s₀.lines = [[1]] ∧ s.output.flatten = [] ∧ ¬ Delivered s₀ s := by
  refine ⟨_, _, rfl, rfl, rfl, rfl, rfl, fun hdelivered => ?_⟩
  exact absurd hdelivered.length_le (by decide)

/-! ## The assertion at the entry of `threadFunc` -/

/-- The assertion has not failed, and would not fail now. -/
def EntersRunning (s : AsyncLogging) : Prop :=
  LogFault.assertRunning ∉ s.faults ∧ (s.pc = .starting → s.running = true)

/-- `stop()` does not come between the creation of the back end and its entry into
`threadFunc`. -/
def StopsAfterEntry (s : AsyncLogging) : LogOp → Prop
  | .stop => s.pc ≠ .starting
  | _ => True

instance (s : AsyncLogging) : (op : LogOp) → Decidable (s.StopsAfterEntry op)
  | .stop => inferInstanceAs (Decidable (s.pc ≠ .starting))
  | .append _ | .start | .join | .enter | .test | .lock | .wake | .write | .recycle =>
    isTrue trivial

theorem append_assertRunning (s : AsyncLogging) (line : List UInt8) :
    LogFault.assertRunning ∈ (s.append line).faults ↔ LogFault.assertRunning ∈ s.faults := by
  dsimp only [append]
  split
  · simp [fault]
  · split <;> rfl

theorem refill_assertRunning (newBuffer : BufferPtr) (buffersToWrite : List BufferPtr) :
    LogFault.assertRunning ∉ (refill newBuffer buffersToWrite).2.2 := by
  unfold refill
  split
  · simp
  · split <;> simp

theorem step_entersRunning {s s' : AsyncLogging} {op : LogOp} (h : s.step op = some s') :
    s'.EntersRunning ↔ s.EntersRunning ∧ s.StopsAfterEntry op := by
  cases op with
  | append line =>
    obtain ⟨-, -, hpc, -, hrunning⟩ := append_frame s line
    rw [← Option.some.inj h]
    simp only [EntersRunning, StopsAfterEntry, append_assertRunning, hpc, hrunning, and_true]
  | start =>
    obtain ⟨⟨hpc, -⟩, ⟨⟩⟩ := Option.ite_none_right_eq_some.mp h
    simp [EntersRunning, StopsAfterEntry, hpc]
  | stop =>
    obtain ⟨-, ⟨⟩⟩ := Option.ite_none_right_eq_some.mp h
    simp only [EntersRunning, StopsAfterEntry, Bool.false_eq_true, imp_false, ne_eq, and_assoc]
    exact and_congr_right fun _ => ⟨fun hpc => ⟨fun hat => absurd hat hpc, hpc⟩, And.right⟩
  | join =>
    obtain ⟨-, ⟨⟩⟩ := Option.ite_none_right_eq_some.mp h
    simp [EntersRunning, StopsAfterEntry]
  | enter =>
    obtain ⟨hpc, h⟩ := Option.ite_none_right_eq_some.mp h
    split at h
    case isTrue hrunning =>
      rw [← Option.some.inj h]
      simp [EntersRunning, StopsAfterEntry, hrunning]
    case isFalse hrunning =>
      rw [← Option.some.inj h]
      simp [EntersRunning, StopsAfterEntry, fault, hpc, hrunning]
  | test =>
    obtain ⟨hpc, ⟨⟩⟩ := Option.ite_none_right_eq_some.mp h
    cases hrunning : s.running <;> simp [EntersRunning, StopsAfterEntry, hpc]
  | lock =>
    obtain ⟨hpc, ⟨⟩⟩ := Option.ite_none_right_eq_some.mp h
    split <;> simp [EntersRunning, StopsAfterEntry, swap, hpc]
  | wake =>
    obtain ⟨hpc, ⟨⟩⟩ := Option.ite_none_right_eq_some.mp h
    simp [EntersRunning, StopsAfterEntry, swap, hpc]
  | write =>
    simp only [step] at h
    split at h
    case h_1 b todo hpc =>
      rw [← Option.some.inj h]
      simp [EntersRunning, StopsAfterEntry, hpc]
    case h_2 todo hpc =>
      rw [← Option.some.inj h]
      simp [EntersRunning, StopsAfterEntry, fault, hpc]
    case h_3 => cases h
  | recycle =>
    obtain ⟨hpc, ⟨⟩⟩ := Option.ite_none_right_eq_some.mp h
    simp [EntersRunning, StopsAfterEntry, recycle, hpc, refill_assertRunning]

/-- **The assertion on `running_`.**  Once the back end has entered `threadFunc`, the assertion
has held exactly when `stop()` did not come between the creation of the thread and its entry.
Without such a `stop()` it never fails. -/
theorem assertion_holds_iff {ops : List LogOp} {s : AsyncLogging}
    (hrun : Machine.run step initial ops = some s) :
    (s.pc ≠ .starting →
      (LogFault.assertRunning ∉ s.faults ↔ Machine.Along step StopsAfterEntry initial ops)) ∧
    (Machine.Along step StopsAfterEntry initial ops → LogFault.assertRunning ∉ s.faults) := by
  have hinitial : initial.EntersRunning := ⟨List.not_mem_nil, nofun⟩
  have hiff := Machine.run_iff_along (fun _ _ _ h => step_entersRunning h) hrun hinitial
  refine ⟨fun hpc => ?_, fun halong => (hiff.mpr halong).1⟩
  rw [← hiff]
  exact ⟨fun hnot => ⟨hnot, fun hat => absurd hat hpc⟩, And.left⟩

theorem assertion_holds_after_entry :
    ∃ s, Machine.run step initial [.start, .enter, .stop, .test, .join] = some s ∧
      LogFault.assertRunning ∉ s.faults := by
  have hentry : Machine.Along step StopsAfterEntry initial
      [.start, .enter, .stop, .test, .join] := by decide
  exact ⟨_, rfl, (assertion_holds_iff rfl).2 hentry⟩

/-- `stop()` clears the flag before the new thread has entered `threadFunc`. -/
theorem assertion_fails_at_stop :
    ∃ s, Machine.run step initial [.start, .stop, .enter] = some s ∧
      LogFault.assertRunning ∈ s.faults ∧ s.pc = .aborted :=
  ⟨_, rfl, List.mem_cons_self, rfl⟩

end AsyncLogging
end ReMuduo
