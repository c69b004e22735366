import ReMuduo.AsyncLogging
import ReMuduo.Chunking
import Mathlib.Data.List.Infix

/-! # Log conservation

The four buffers of the logger rotate between the threads by moves.  `Valid` says where
each of them is at every point of the back end's loop, and that what has been written,
what is about to be written and what is still collected are together the lines given to
`append`, batched in order and never cut (`Chunked`). -/
namespace ReMuduo

namespace FixedBuffer

@[simp] theorem empty_data : empty.data = [] := rfl

theorem append_data_of_lt {b : FixedBuffer} {buf : List UInt8} (h : buf.length < b.avail) :
    (b.append buf).data = b.data ++ buf := by
  rw [append, dif_pos h]

theorem append_of_le {b : FixedBuffer} {buf : List UInt8} (h : b.avail ≤ buf.length) :
    b.append buf = b :=
  dif_neg (Nat.not_lt.mpr h)

theorem avail_le (b : FixedBuffer) : b.avail ≤ kSize := Nat.sub_le ..

end FixedBuffer

namespace AsyncLogging

open FixedBuffer (kSize)

/-- The buffers of `buffersToWrite` that have not been written. -/
def unwritten (s : AsyncLogging) : List BufferPtr :=
  match s.pc with
  | .writing todo => todo
  | _ => []

/-- The buffers the front end has filled, and the one it is filling. -/
def pending (s : AsyncLogging) : List BufferPtr := s.buffers ++ [s.currentBuffer]

/-- The contents of the buffers that hold lines, the written ones first. -/
def chunks (s : AsyncLogging) : List (List UInt8) :=
  s.output ++ (s.unwritten ++ s.pending).map BufferPtr.bytes

/-- The lines that fit into a buffer. -/
def short (s : AsyncLogging) : List (List UInt8) := s.lines.filter (·.length < kSize)

/-- Where the back end's buffers are. -/
def BackEnd (s : AsyncLogging) : Prop :=
  match s.pc with
  | .notStarted | .starting | .aborted => s.buffersToWrite = []
  | .top | .locking | .waiting | .exited =>
    s.newBuffer1 = some .empty ∧ s.newBuffer2 = some .empty ∧ s.buffersToWrite = []
  | .writing todo =>
    s.newBuffer1 = none ∧ todo <:+ s.buffersToWrite ∧ none ∉ s.buffersToWrite ∧
      s.buffersToWrite ≠ [] ∧
      (s.newBuffer2 = some .empty ∨ s.newBuffer2 = none ∧ 2 ≤ s.buffersToWrite.length)

/-- The invariant of the logger. -/
structure Valid (s : AsyncLogging) : Prop where
  current : s.currentBuffer ≠ none
  buffers : none ∉ s.buffers
  next : s.nextBuffer = some .empty ∨ s.nextBuffer = none ∧ s.buffers ≠ []
  backEnd : s.BackEnd
  chunked : Chunked s.short s.chunks
  live : s.stopPc = .notCalled → s.faults = [] ∧ (s.pc = .notStarted ∨ s.running = true)
  joined : s.stopPc = .joined → s.pc = .exited ∨ s.pc = .notStarted

theorem initial_valid : Valid initial where
  current := nofun
  buffers := nofun
  next := .inl rfl
  backEnd := rfl
  chunked := .nil_chunk
  live := fun _ => ⟨rfl, .inl rfl⟩
  joined := nofun

/-! ## The front end -/

theorem append_of_lt {s : AsyncLogging} {b : FixedBuffer} {line : List UInt8}
    (hb : s.currentBuffer = some b) (hlt : line.length < b.avail) :
    s.append line =
      { s with lines := s.lines ++ [line], currentBuffer := some (b.append line) } := by
  simp only [append, hb, if_pos hlt]

theorem append_of_ge {s : AsyncLogging} {b : FixedBuffer} {line : List UInt8}
    (hb : s.currentBuffer = some b) (hge : b.avail ≤ line.length) :
    s.append line =
      { s with
        lines := s.lines ++ [line]
        buffers := s.buffers ++ [some b]
        currentBuffer := some ((s.nextBuffer.getD .empty).append line)
        nextBuffer := none } := by
  simp only [append, hb, if_neg (Nat.not_lt.mpr hge)]

/-- A new buffer takes a line as its only one, or drops it. -/
theorem chunked_empty_append (line : List UInt8) :
    Chunked ([line].filter (·.length < kSize)) [(FixedBuffer.empty.append line).data] := by
  by_cases hlt : line.length < kSize
  · have havail : line.length < FixedBuffer.empty.avail := hlt
    simpa [hlt, FixedBuffer.append_data_of_lt havail] using Chunked.singleton
  · have havail : FixedBuffer.empty.avail ≤ line.length := Nat.not_lt.mp hlt
    simpa [hlt, FixedBuffer.append_of_le havail] using Chunked.nil_chunk

theorem append_valid {s : AsyncLogging} (hs : s.Valid) (line : List UInt8) :
    (s.append line).Valid := by
  obtain ⟨b, hb⟩ := Option.ne_none_iff_exists'.mp hs.current
  have hshort : (s.lines ++ [line]).filter (·.length < kSize) =
      s.short ++ [line].filter (·.length < kSize) := List.filter_append ..
  have hchunks : s.chunks = s.output ++ (s.unwritten ++ s.buffers).map BufferPtr.bytes ++
      [b.data] := by
    simp [chunks, pending, hb, BufferPtr.bytes]
  have hchunked := hs.chunked
  rw [hchunks] at hchunked
  by_cases hlt : line.length < b.avail
  · rw [append_of_lt hb hlt]
    refine ⟨nofun, hs.buffers, hs.next, hs.backEnd, ?_, hs.live, hs.joined⟩
    have hfits : [line].filter (·.length < kSize) = [line] := by
      simpa using Nat.lt_of_lt_of_le hlt b.avail_le
    have hlast := hchunked.extend_last (r := line)
    rw [← FixedBuffer.append_data_of_lt hlt] at hlast
    simpa [short, hshort, hfits, chunks, pending, BufferPtr.bytes, unwritten] using hlast
  · have hnext : s.nextBuffer.getD .empty = .empty := by
      rcases hs.next with h | ⟨h, -⟩ <;> rw [h] <;> rfl
    rw [append_of_ge hb (Nat.not_lt.mp hlt), hnext]
    refine ⟨nofun, ?_, .inr ⟨rfl, by simp⟩, hs.backEnd, ?_, hs.live, hs.joined⟩
    · simpa using hs.buffers
    · have hnew := hchunked.append (chunked_empty_append line)
      simpa [short, hshort, chunks, pending, BufferPtr.bytes, unwritten] using hnew

/-! ## The back end -/

/-- The two ways to the swap find the spare buffers empty and nothing to write. -/
theorem Valid.before_swap {s : AsyncLogging} (hs : s.Valid)
    (hpc : s.pc = .locking ∨ s.pc = .waiting) :
    (s.newBuffer1 = some .empty ∧ s.newBuffer2 = some .empty ∧ s.buffersToWrite = []) ∧
      s.unwritten = [] := by
  have hbackEnd := hs.backEnd
  rcases hpc with hpc | hpc <;> simpa [BackEnd, unwritten, hpc] using hbackEnd

theorem swap_valid {s : AsyncLogging} (hs : s.Valid) (hpc : s.pc = .locking ∨ s.pc = .waiting) :
    s.swap.Valid := by
  obtain ⟨⟨hnew1, hnew2, htoWrite⟩, hunwritten⟩ := hs.before_swap hpc
  have hnone : none ∉ s.buffers ++ [s.currentBuffer] := by
    simpa using ⟨hs.buffers, hs.current.symm⟩
  refine ⟨?_, ?_, ?_, ⟨rfl, List.suffix_refl _, hnone, by simp [swap], ?_⟩, ?_, ?_, ?_⟩
  · simp [swap, hnew1]
  · simp [swap, htoWrite]
  · rcases hs.next with h | ⟨h, -⟩ <;> simp [swap, h, hnew2]
  · -- the second spare buffer is gone only if the front end has filled a buffer
    rcases hs.next with h | ⟨h, hne⟩
    · exact .inl (by simp [swap, h, hnew2])
    · have hlength := List.length_pos_iff.mpr hne
      exact .inr ⟨by simp [swap, h], Nat.succ_le_of_lt (by simpa [swap] using hlength)⟩
  · have hpending : s.swap.pending = [some .empty] := by simp [pending, swap, hnew1, htoWrite]
    have hchunks : s.swap.chunks = s.chunks ++ [[]] := by
      change s.output ++ (s.pending ++ s.swap.pending).map BufferPtr.bytes = _
      simp [chunks, hunwritten, hpending, BufferPtr.bytes]
    have hnil := hs.chunked.append Chunked.nil_chunk
    rw [List.append_nil] at hnil
    rwa [hchunks]
  · intro hstop
    obtain ⟨hfaults, h⟩ := hs.live hstop
    refine ⟨hfaults, .inr (h.resolve_left ?_)⟩
    rcases hpc with hpc | hpc <;> simp [hpc]
  · intro hstop
    rcases hpc with hpc | hpc <;> simpa [hpc] using hs.joined hstop

/-- Taking the last buffer back empties it. -/
theorem refill_none {toWrite : List BufferPtr} (hnone : none ∉ toWrite) (hne : toWrite ≠ []) :
    refill none toWrite = (some .empty, toWrite.dropLast, []) := by
  obtain ⟨front, last, rfl⟩ := List.eq_nil_or_concat' toWrite |>.resolve_left hne
  cases last with
  | none => simp at hnone
  | some b => simp [refill]

/-- Recycling finds the buffers it needs. -/
theorem recycle_eq {s : AsyncLogging} (hs : s.Valid) (hpc : s.pc = .writing []) :
    s.recycle =
      { s with
        newBuffer1 := some .empty
        newBuffer2 := some .empty
        buffersToWrite := []
        pc := .top } := by
  have hbackEnd := hs.backEnd
  simp only [BackEnd, hpc] at hbackEnd
  obtain ⟨hnew1, -, hnone, hne, hnew2⟩ := hbackEnd
  have hkept : ∃ kept, (if 2 < s.buffersToWrite.length then s.buffersToWrite.take 2
      else s.buffersToWrite) = kept ∧ none ∉ kept ∧ kept ≠ [] ∧
      (2 ≤ s.buffersToWrite.length → 2 ≤ kept.length) := by
    refine ⟨_, rfl, ?_⟩
    split
    · refine ⟨fun h => hnone (List.mem_of_mem_take h), by simpa using hne, fun _ => ?_⟩
      rw [List.length_take]
      omega
    · exact ⟨hnone, hne, id⟩
  obtain ⟨kept, hkept, hnone, hne, hlength⟩ := hkept
  simp only [recycle, hkept, hnew1, refill_none hnone hne]
  rcases hnew2 with hnew2 | ⟨hnew2, htwo⟩
  · simp [hnew2, refill]
  · have hrest : kept.dropLast ≠ [] := by
      refine List.length_pos_iff.mp ?_
      have := hlength htwo
      rw [List.length_dropLast]
      omega
    have hrestNone : none ∉ kept.dropLast := fun h => hnone (List.mem_of_mem_dropLast h)
    simp [hnew2, refill_none hrestNone hrest]

/-- A step that moves no line keeps the invariant, if it keeps what is said about the
back end and about `stop()`. -/
theorem Valid.of_same_lines {s s' : AsyncLogging} (hs : s.Valid)
    (hcurrent : s'.currentBuffer = s.currentBuffer) (hnext : s'.nextBuffer = s.nextBuffer)
    (hbuffers : s'.buffers = s.buffers) (hlines : s'.lines = s.lines)
    (houtput : s'.output = s.output) (hunwritten : s'.unwritten = s.unwritten)
    (hbackEnd : s'.BackEnd)
    (hlive : s'.stopPc = .notCalled → s'.faults = [] ∧ (s'.pc = .notStarted ∨ s'.running = true))
    (hjoined : s'.stopPc = .joined → s'.pc = .exited ∨ s'.pc = .notStarted) : s'.Valid where
  current := hcurrent ▸ hs.current
  buffers := hbuffers ▸ hs.buffers
  next := by rw [hnext, hbuffers]; exact hs.next
  backEnd := hbackEnd
  chunked := by
    have hchunks : s'.chunks = s.chunks := by
      rw [chunks, chunks, pending, pending, houtput, hunwritten, hbuffers, hcurrent]
    rw [hchunks, short, hlines]
    exact hs.chunked
  live := hlive
  joined := hjoined

theorem Valid.no_null_written {s : AsyncLogging} (hs : s.Valid) (todo : List BufferPtr) :
    s.pc ≠ .writing (none :: todo) := by
  intro hpc
  have hbackEnd := hs.backEnd
  simp only [BackEnd, hpc] at hbackEnd
  obtain ⟨-, hsuffix, hnone, -⟩ := hbackEnd
  exact hnone (hsuffix.subset List.mem_cons_self)

theorem step_valid {s s' : AsyncLogging} (hs : s.Valid) (h : Step s s') : s'.Valid := by
  have hbackEnd := hs.backEnd
  have hlive := hs.live
  have hjoined := hs.joined
  cases h with
  | append line => exact append_valid hs line
  | start hpc hstop =>
    simp only [BackEnd, hpc] at hbackEnd
    refine hs.of_same_lines rfl rfl rfl rfl rfl (by simp [unwritten, hpc]) hbackEnd ?_ ?_
    · exact fun _ => ⟨(hlive hstop).1, .inr rfl⟩
    · simp [hstop]
  | stop hstop => exact { hs with live := nofun, joined := nofun }
  | join hstop hpc => exact { hs with live := nofun, joined := fun _ => hpc }
  | enter hpc hrunning =>
    simp only [BackEnd, hpc] at hbackEnd
    refine hs.of_same_lines rfl rfl rfl rfl rfl (by simp [unwritten, hpc])
      ⟨rfl, rfl, hbackEnd⟩ ?_ ?_
    · exact fun hstop => ⟨(hlive hstop).1, .inr hrunning⟩
    · simpa [hpc] using hjoined
  | abort hpc hrunning =>
    simp only [BackEnd, hpc] at hbackEnd
    refine hs.of_same_lines rfl rfl rfl rfl rfl (by simp [unwritten, hpc]) hbackEnd ?_ ?_
    · intro hstop
      simpa [hpc, hrunning] using hlive hstop
    · simpa [hpc, fault] using hjoined
  | again hpc hrunning =>
    simp only [BackEnd, hpc] at hbackEnd
    refine hs.of_same_lines rfl rfl rfl rfl rfl (by simp [unwritten, hpc]) hbackEnd ?_ ?_
    · exact fun hstop => ⟨(hlive hstop).1, .inr hrunning⟩
    · simpa [hpc] using hjoined
  | exit hpc hrunning =>
    simp only [BackEnd, hpc] at hbackEnd
    refine hs.of_same_lines rfl rfl rfl rfl rfl (by simp [unwritten, hpc]) hbackEnd ?_ ?_
    · intro hstop
      simpa [hpc, hrunning] using hlive hstop
    · exact fun _ => .inl rfl
  | wait hpc hbuffers =>
    simp only [BackEnd, hpc] at hbackEnd
    refine hs.of_same_lines rfl rfl rfl rfl rfl (by simp [unwritten, hpc]) hbackEnd ?_ ?_
    · simpa [hpc] using hlive
    · simpa [hpc] using hjoined
  | swap hpc => exact swap_valid hs hpc
  | write b todo hpc =>
    simp only [BackEnd, hpc] at hbackEnd
    obtain ⟨hnew1, hsuffix, hrest⟩ := hbackEnd
    refine ⟨hs.current, hs.buffers, hs.next, ?_, ?_, ?_, ?_⟩
    · exact ⟨hnew1, (List.suffix_cons _ _).trans hsuffix, hrest⟩
    · simpa [short, chunks, pending, unwritten, hpc, BufferPtr.bytes] using hs.chunked
    · simpa [hpc] using hlive
    · simpa [hpc] using hjoined
  | writeNull todo hpc => exact absurd hpc (hs.no_null_written todo)
  | recycle hpc =>
    rw [recycle_eq hs hpc]
    refine hs.of_same_lines rfl rfl rfl rfl rfl (by simp [unwritten, hpc])
      ⟨rfl, rfl, rfl⟩ ?_ ?_
    · simpa [hpc] using hlive
    · simpa [hpc] using hjoined

theorem run_valid {s : AsyncLogging} {ops : List LogOp}
    (hrun : Machine.run step initial ops = some s) : s.Valid :=
  Machine.run_invariant (fun _ _ _ hs h => step_valid hs (step_cases h)) hrun initial_valid

/-- **Log conservation.**  In every reachable state what has been passed to `output.append`,
the buffers of `buffersToWrite` not yet written, `buffers_` and `currentBuffer_` are
together the lines appended so far, in lock order; each of these buffers holds whole
lines; and before `stop()` no null buffer is used and no assertion fails. -/
theorem log_conserved {s : AsyncLogging} {ops : List LogOp}
    (hrun : Machine.run step initial ops = some s)
    (hlines : ∀ line ∈ s.lines, line.length < 4000) :
    s.output.flatten ++ (s.unwritten.map BufferPtr.bytes).flatten ++
        (s.buffers.map BufferPtr.bytes).flatten ++ s.currentBuffer.bytes = s.lines.flatten ∧
      Chunked s.lines (s.output ++ s.unwritten.map BufferPtr.bytes ++
        s.buffers.map BufferPtr.bytes ++ [s.currentBuffer.bytes]) ∧
      s.unwritten <:+ s.buffersToWrite ∧ (s.stopPc = .notCalled → s.faults = []) := by
  have hs := run_valid hrun
  have hshort : s.short = s.lines :=
    List.filter_eq_self.mpr fun line hline => decide_eq_true (hlines line hline)
  have hchunked : Chunked s.lines (s.output ++ s.unwritten.map BufferPtr.bytes ++
      s.buffers.map BufferPtr.bytes ++ [s.currentBuffer.bytes]) := by
    simpa [hshort, chunks, pending] using hs.chunked
  refine ⟨?_, hchunked, ?_, fun hstop => (hs.live hstop).1⟩
  · rw [← hchunked.flatten_eq]
    simp
  · have hbackEnd := hs.backEnd
    unfold unwritten
    split
    case h_1 todo hpc =>
      simp only [BackEnd, hpc] at hbackEnd
      exact hbackEnd.2.1
    case h_2 => exact List.nil_suffix

/-- The second line does not fit behind the first.  The back end is woken, has written the
first buffer and not the second when the third line comes. -/
theorem log_conserved_spilledLine :
    ∃ s, Machine.run step initial
        [.start, .enter, .test, .lock, .append (List.replicate 3999 7), .append [1, 2], .wake,
          .write, .append [3]] = some s ∧
      s.output.flatten ++ [1, 2] ++ [] ++ [3] = s.lines.flatten := by
  have hrun : (Machine.run step initial
      [.start, .enter, .test, .lock, .append (List.replicate 3999 7), .append [1, 2], .wake,
        .write, .append [3]]).map (fun s => (s.unwritten.map BufferPtr.bytes,
          s.buffers.map BufferPtr.bytes, s.currentBuffer.bytes,
          decide (∀ line ∈ s.lines, line.length < 4000))) = some ([[1, 2]], [], [3], true) := by
    decide +kernel
  obtain ⟨s, hs, hview⟩ := Option.map_eq_some_iff.mp hrun
  simp only [Prod.mk.injEq, decide_eq_true_eq] at hview
  obtain ⟨hunwritten, hbuffers, hcurrent, hlines⟩ := hview
  refine ⟨s, hs, ?_⟩
  have hbytes := (log_conserved hs hlines).1
  rw [hunwritten, hbuffers, hcurrent] at hbytes
  exact hbytes

end AsyncLogging
end ReMuduo
