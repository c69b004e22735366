import ReMuduo.LogConservation

/-! # The buffer pool of the logger

The back end gives its two spare buffers to the front end when it swaps, and takes two
of the written buffers back.  `Valid` says that this always works out; here it is
turned into what the threads may rely on, also after `stop()`: the only assertion that
can ever fail is the one on `running_`, when `stop()` comes before the back end has
entered its loop. -/
namespace ReMuduo
namespace AsyncLogging

variable {s s' : AsyncLogging} {ops : List LogOp}

theorem append_faults (hs : s.Valid) (line : List UInt8) :
    (s.append line).faults = s.faults := by
  obtain ⟨b, hb⟩ := Option.ne_none_iff_exists'.mp hs.current
  by_cases hlt : line.length < b.avail
  · rw [append_of_lt hb hlt]
  · rw [append_of_ge hb (Nat.not_lt.mp hlt)]

/-- No step uses a null buffer or fails an assertion on `buffersToWrite`. -/
theorem step_faults (hs : s.Valid) (h : Step s s') :
    s'.faults = s.faults ∨ s'.faults = s.faults ++ [.assertRunning] := by
  cases h with
  | append line => exact .inl (append_faults hs line)
  | abort hpc hrunning => exact .inr rfl
  | writeNull todo hpc => exact absurd hpc (hs.no_null_written todo)
  | recycle hpc =>
    rw [recycle_eq hs hpc]
    exact .inl rfl
  | start | stop | join | enter | again | exit | wait | swap | write => exact .inl rfl

theorem run_faults (hrun : Machine.run step initial ops = some s) :
    ∀ f ∈ s.faults, f = .assertRunning := by
  have hinv : s.Valid ∧ ∀ f ∈ s.faults, f = .assertRunning := by
    refine Machine.run_invariant (P := fun s => s.Valid ∧ ∀ f ∈ s.faults, f = .assertRunning)
      ?_ hrun ⟨initial_valid, fun _ hf => absurd hf List.not_mem_nil⟩
    intro s op s' hs h
    refine ⟨step_valid hs.1 (step_cases h), fun f hf => ?_⟩
    rcases step_faults hs.1 (step_cases h) with heq | heq
    · exact hs.2 f (heq ▸ hf)
    · rw [heq, List.mem_append, List.mem_singleton] at hf
      exact hf.elim (hs.2 f) id
  exact hinv.2

/-- The spare buffers at the top of an iteration, on both sides of the test of
`running_`. -/
theorem Valid.spare_buffers (hs : s.Valid) (hpc : s.pc = .top ∨ s.pc = .locking) :
    s.newBuffer1 = some .empty ∧ s.newBuffer2 = some .empty := by
  have hbackEnd := hs.backEnd
  rcases hpc with hpc | hpc <;> simp only [BackEnd, hpc] at hbackEnd <;>
    exact ⟨hbackEnd.1, hbackEnd.2.1⟩

theorem Valid.toWrite_ne_nil (hs : s.Valid) {todo : List BufferPtr} (hpc : s.pc = .writing todo) :
    s.buffersToWrite ≠ [] := by
  have hbackEnd := hs.backEnd
  simp only [BackEnd, hpc] at hbackEnd
  exact hbackEnd.2.2.2.1

/-- **The buffer pool never runs dry.**  Whenever the mutex is free there is a current
buffer, and a next one unless a full one is waiting; an iteration of the back end begins
with two empty spare buffers; it never swaps nothing in; and no buffer that has been moved
away is used, nor does a recycling assertion fail. -/
theorem buffer_pool_never_dry (hrun : Machine.run step initial ops = some s) :
    s.currentBuffer ≠ none ∧
      (s.pc = .top ∨ s.pc = .locking →
        s.newBuffer1 = some .empty ∧ s.newBuffer2 = some .empty) ∧
      (s.nextBuffer = none → s.buffers ≠ []) ∧
      (∀ todo, s.pc = .writing todo → s.buffersToWrite ≠ []) ∧
      LogFault.assertBuffersToWrite ∉ s.faults ∧ LogFault.nullBuffer ∉ s.faults := by
  have hs := run_valid hrun
  have hfaults := run_faults hrun
  refine ⟨hs.current, hs.spare_buffers, fun hnext => ?_, fun _ => hs.toWrite_ne_nil,
    fun hmem => ?_, fun hmem => ?_⟩
  · rcases hs.next with h | ⟨-, hne⟩
    · rw [hnext] at h
      cases h
    · exact hne
  · cases hfaults _ hmem
  · cases hfaults _ hmem

/-- Three lines, each too long for the buffer of the one before, fill three buffers while the
back end waits: it swaps both of its spare buffers in and gets them back. -/
def spilledLines : List LogOp :=
  [.start, .enter, .test, .lock, .append (List.replicate 3999 7), .append (List.replicate 3999 8),
    .append [1, 2], .wake, .write, .write, .write, .recycle]

theorem buffer_pool_never_dry_spilledLines :
    ∃ s, Machine.run step initial spilledLines = some s ∧ s.pc = .top ∧
      s.newBuffer1 = some .empty ∧ s.newBuffer2 = some .empty ∧ s.output.length = 3 := by
  have hrun : (Machine.run step initial spilledLines).map (fun s => (s.pc, s.output.length)) =
      some (.top, 3) := by decide +kernel
  obtain ⟨s, hs, hview⟩ := Option.map_eq_some_iff.mp hrun
  simp only [Prod.mk.injEq] at hview
  obtain ⟨hpc, hlength⟩ := hview
  have hspare := (buffer_pool_never_dry hs).2.1 (.inl hpc)
  exact ⟨s, hs, hpc, hspare.1, hspare.2, hlength⟩

end AsyncLogging
end ReMuduo
