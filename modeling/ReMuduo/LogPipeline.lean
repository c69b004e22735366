import ReMuduo.LogFile
import ReMuduo.LogShutdown

/-! # From `append` to the files

The back end of `AsyncLogging` (`src/base/AsyncLogging.cpp`) owns a `LogFile`: `threadFunc`
creates it, hands it the contents of one buffer after the other, flushes it at the end of each
round and once more when it returns.  Here the two machines run together, so that a line can be
followed from the thread that logs it to the file it ends up in.

A file is written through stdio.  `fwrite` may keep its bytes in the buffer of the stream; what
is sure to be with the kernel is what a `fflush` has handed over, and all of a file that has
been closed.  This is `durable`: it survives the process. -/
namespace ReMuduo

/-- The call of `file_->flush()` in `append_unlocked`, if no new file is begun. -/
def LogFile.flushes (s : LogFile) (a : LogFileAppend) : Bool :=
  decide (s.config.checkEveryN ≤ s.count + 1 ∧ s.config.flushInterval < a.now - s.lastRoll)

/-- A `LogFile`, and how many bytes of its current file have been flushed. -/
structure StdioLogFile where
  log : LogFile
  flushed : Nat
deriving DecidableEq

namespace StdioLogFile

variable (strftime : Int → List Char)

def create (config : LogFileConfig) (r : RollFile) : StdioLogFile :=
  ⟨LogFile.create strftime config r, 0⟩

/-- `append(logline, len)`.  A file that is left is closed. -/
def append (s : StdioLogFile) (a : LogFileAppend) : Option StdioLogFile :=
  (LogFile.append strftime s.log a).map fun log =>
    { log := log
      flushed :=
        if s.log.rolled.length < log.rolled.length then 0
        else if s.log.flushes a then log.file.contents.length
        else s.flushed }

/-- `flush()`. -/
def flush (s : StdioLogFile) : StdioLogFile := { s with flushed := s.log.file.contents.length }

/-- What is sure to have reached the kernel, file by file. -/
def durable (s : StdioLogFile) : List (List UInt8) :=
  s.log.rolled.map (·.file.contents) ++ [s.log.file.contents.take s.flushed]

/-- All that was written is durable. -/
def Flushed (s : StdioLogFile) : Prop := s.flushed = s.log.file.contents.length

variable {strftime} {s s' : StdioLogFile} {a : LogFileAppend} {r : RollFile}

theorem Flushed.durable_eq (h : s.Flushed) : s.durable = s.log.files.map AppendFile.contents := by
  rw [durable, show s.flushed = _ from h, List.take_length, LogFile.files, List.map_append,
    List.map_map]
  rfl

/-- The log is in order, and what is durable are the first ones of the appended pieces, each of
them whole. -/
structure Safe (s : StdioLogFile) : Prop where
  ready : s.log.Ready
  flushed_le : s.flushed ≤ s.log.file.contents.length
  durable : ∃ k ≤ s.log.appended.length, Chunked (s.log.appended.take k) s.durable

theorem Safe.of_flushed (hready : s.log.Ready) (hflushed : s.Flushed) : s.Safe where
  ready := hready
  flushed_le := Nat.le_of_eq hflushed
  durable := by
    refine ⟨_, Nat.le_refl _, ?_⟩
    rw [List.take_length, hflushed.durable_eq]
    exact hready.1.chunked

theorem Safe.flush (h : s.Safe) : s.flush.Safe := .of_flushed h.ready rfl

theorem create_safe (config : LogFileConfig) (hopens : r.fopen.opens = true) :
    (create strftime config r).Safe :=
  .of_flushed (LogFile.ready_create config hopens) rfl

theorem flushed_rollFile {log : LogFile} {n : Nat}
    (hnodup : (log.rollFile strftime r).names.Nodup) :
    Flushed ⟨log.rollFile strftime r,
      if log.rolled.length < (log.rollFile strftime r).rolled.length then 0 else n⟩ := by
  have hlonger : log.rolled.length < (log.rollFile strftime r).rolled.length := by
    simp [LogFile.rollFile]
  rw [Flushed, if_pos hlonger, LogFile.contents_rollFile hnodup, List.length_nil]

/-- An `append` keeps what is durable, or makes all that was appended durable. -/
theorem append_safe (hs : s.Safe) (ha : LogFile.Works a) (h : append strftime s a = some s')
    (hnodup : s'.log.names.Nodup) : s'.Safe := by
  obtain ⟨log, hlog, rfl⟩ := Option.map_eq_some_iff.mp h
  have hready : log.Ready := LogFile.append_ready ha hlog hnodup hs.ready
  obtain ⟨file, hfile, ⟨-, rfl⟩ | ⟨-, -, rfl⟩ | ⟨-, count, lastRoll, rfl⟩⟩ :=
    LogFile.append_cases hlog
  · exact .of_flushed hready (flushed_rollFile hnodup)
  · exact .of_flushed hready (flushed_rollFile hnodup)
  · have hrolled : ¬ s.log.rolled.length < (s.log.wrote a.logline file).rolled.length :=
      Nat.lt_irrefl _
    cases hflush : s.log.flushes a with
    | true =>
      refine .of_flushed hready ?_
      simp only [Flushed, if_neg hrolled, if_true]
    | false =>
      -- the current file grows behind what has been flushed of it
      have hgrows := AppendFile.append_completes ha.1 hs.ready.1.opened hfile
      have hcontents : file.contents = s.log.file.contents ++ a.logline := by rw [hgrows]
      obtain ⟨k, hk, hchunked⟩ := hs.durable
      simp only [if_neg hrolled, Bool.false_eq_true, if_false]
      refine ⟨hready, ?_, k, ?_, ?_⟩
      · show s.flushed ≤ file.contents.length
        rw [hcontents, List.length_append]
        exact Nat.le_add_right_of_le hs.flushed_le
      · show k ≤ (s.log.appended ++ [a.logline]).length
        rw [List.length_append]
        exact Nat.le_add_right_of_le hk
      · show Chunked ((s.log.appended ++ [a.logline]).take k)
          (s.log.rolled.map (·.file.contents) ++ [file.contents.take s.flushed])
        rw [hcontents, List.take_append_of_le_length hk,
          List.take_append_of_le_length hs.flushed_le]
        exact hchunked

theorem append_appended (h : append strftime s a = some s') :
    s'.log.appended = s.log.appended ++ [a.logline] := by
  obtain ⟨log, hlog, rfl⟩ := Option.map_eq_some_iff.mp h
  obtain ⟨log', hlog', -, happended⟩ := LogFile.append_returns strftime s.log a
  rw [hlog] at hlog'
  rw [Option.some.inj hlog']
  exact happended

theorem append_nodup (h : append strftime s a = some s') (hnodup : s'.log.names.Nodup) :
    s.log.names.Nodup := by
  obtain ⟨log, hlog, rfl⟩ := Option.map_eq_some_iff.mp h
  exact LogFile.append_nodup hlog hnodup

end StdioLogFile

/-! ## The two machines together -/

/-- The back end neither writes nor has anything left to write. -/
def AsyncLogging.AtRest (s : AsyncLogging) : Prop := ∀ todo, s.pc ≠ .writing todo

/-- `threadFunc` has not been entered. -/
def AsyncLogging.NotEntered (s : AsyncLogging) : Prop := s.pc = .notStarted ∨ s.pc = .starting

/-- The steps of the logger that do not touch the `LogFile`. -/
def LogOp.offFile : LogOp → Bool
  | .append _ | .start | .stop | .join | .lock | .wake => true
  | .enter | .test | .write | .recycle => false

/-- The logger and the `LogFile output` of its `threadFunc`, once there is one. -/
structure LogPipeline where
  logging : AsyncLogging
  output : Option StdioLogFile

inductive PipelineOp
  | logging (op : LogOp)
  /-- The back end enters `threadFunc` and creates the `LogFile`. -/
  | enter (r : RollFile)
  /-- The back end tests `running_`; before it returns it flushes. -/
  | test
  /-- The back end hands the next buffer to `output.append`. -/
  | write (a : LogFileAppend)
  /-- The end of a round, with `output.flush()`. -/
  | recycle

/-- Files open and writes complete. -/
def PipelineOp.Works : PipelineOp → Prop
  | .enter r => r.fopen.opens = true
  | .write a => LogFile.Works a
  | _ => True

namespace LogPipeline

variable (strftime : Int → List Char) (basename : List Char) (rollSize : Nat)

def initial : LogPipeline := ⟨AsyncLogging.initial, none⟩

/-- `LogFile output(basename_, rollSize_, false)`, with the defaults of the constructor. -/
def outputConfig : LogFileConfig := ⟨basename, rollSize, 3, 1024⟩

def step (s : LogPipeline) : PipelineOp → Option LogPipeline
  | .logging op =>
    if op.offFile then (s.logging.step op).map fun logging => { s with logging := logging }
    else none
  | .enter r =>
    (s.logging.step .enter).map fun logging =>
      { logging := logging
        output :=
          if s.logging.running then some (.create strftime (outputConfig basename rollSize) r)
          else s.output }
  | .test =>
    (s.logging.step .test).map fun logging =>
      { logging := logging
        output := if s.logging.running then s.output else s.output.map .flush }
  | .write a =>
    match s.logging.pc, s.output with
    | .writing (some b :: _), some output =>
      if a.logline = b.data then
        (s.logging.step .write).bind fun logging =>
          (output.append strftime a).map fun output => ⟨logging, some output⟩
      else none
    | _, _ => none
  | .recycle =>
    (s.logging.step .recycle).map fun logging => ⟨logging, s.output.map .flush⟩

variable {strftime basename rollSize} {s s' : LogPipeline} {op : PipelineOp}

/-- What the steps do, one constructor for each kind. -/
inductive Step (strftime : Int → List Char) (basename : List Char) (rollSize : Nat)
    (s : LogPipeline) : PipelineOp → LogPipeline → Prop
  | logging {op logging} : op.offFile = true → s.logging.step op = some logging →
      Step strftime basename rollSize s (.logging op) { s with logging := logging }
  | created {r logging} : s.logging.step .enter = some logging → s.logging.running = true →
      Step strftime basename rollSize s (.enter r)
        ⟨logging, some (.create strftime (outputConfig basename rollSize) r)⟩
  | aborted {r logging} : s.logging.step .enter = some logging → s.logging.running = false →
      Step strftime basename rollSize s (.enter r) { s with logging := logging }
  | again {logging} : s.logging.step .test = some logging → s.logging.running = true →
      Step strftime basename rollSize s .test { s with logging := logging }
  | exits {logging} : s.logging.step .test = some logging → s.logging.running = false →
      Step strftime basename rollSize s .test ⟨logging, s.output.map .flush⟩
  | write {a b todo output output'} : s.logging.pc = .writing (some b :: todo) →
      s.output = some output → a.logline = b.data → output.append strftime a = some output' →
      Step strftime basename rollSize s (.write a)
        ⟨{ s.logging with output := s.logging.output ++ [b.data], pc := .writing todo },
          some output'⟩
  | recycle {logging} : s.logging.step .recycle = some logging →
      Step strftime basename rollSize s .recycle ⟨logging, s.output.map .flush⟩

theorem step_cases (h : step strftime basename rollSize s op = some s') :
    Step strftime basename rollSize s op s' := by
  cases op with
  | logging op =>
    obtain ⟨hop, h⟩ := Option.ite_none_right_eq_some.mp h
    obtain ⟨logging, hlogging, rfl⟩ := Option.map_eq_some_iff.mp h
    exact .logging hop hlogging
  | enter r =>
    obtain ⟨logging, hlogging, rfl⟩ := Option.map_eq_some_iff.mp h
    cases hrunning : s.logging.running with
    | true => exact .created hlogging hrunning
    | false => exact .aborted hlogging hrunning
  | test =>
    obtain ⟨logging, hlogging, rfl⟩ := Option.map_eq_some_iff.mp h
    cases hrunning : s.logging.running with
    | true => exact .again hlogging hrunning
    | false => exact .exits hlogging hrunning
  | write a =>
    simp only [step] at h
    split at h
    · rename_i b todo output hpc houtput
      obtain ⟨hline, h⟩ := Option.ite_none_right_eq_some.mp h
      obtain ⟨logging, hlogging, h⟩ := Option.bind_eq_some_iff.mp h
      obtain ⟨output', houtput', rfl⟩ := Option.map_eq_some_iff.mp h
      simp only [AsyncLogging.step, hpc] at hlogging
      rw [← Option.some.inj hlogging]
      exact .write hpc houtput hline houtput'
    · cases h
  | recycle =>
    obtain ⟨logging, hlogging, rfl⟩ := Option.map_eq_some_iff.mp h
    exact .recycle hlogging

/-! ## What holds in every run -/

/-- The steps off the file write nothing; they neither end a round nor go back before
`threadFunc`. -/
theorem offFile_frame {l l' : AsyncLogging} {op : LogOp} (hop : op.offFile = true)
    (h : l.step op = some l') :
    l'.output = l.output ∧ (l'.AtRest → l.AtRest) ∧ (l'.NotEntered → l.NotEntered) := by
  cases op with
  | append line =>
    obtain ⟨-, houtput, hpc, -⟩ := AsyncLogging.append_frame l line
    rw [← Option.some.inj h]
    refine ⟨houtput, fun hrest todo => hpc ▸ hrest todo, fun hnot => ?_⟩
    rwa [AsyncLogging.NotEntered, hpc] at hnot
  | start =>
    obtain ⟨⟨hpc, -⟩, ⟨⟩⟩ := Option.ite_none_right_eq_some.mp h
    exact ⟨rfl, fun _ todo => by simp [hpc], fun _ => .inl hpc⟩
  | stop =>
    obtain ⟨-, ⟨⟩⟩ := Option.ite_none_right_eq_some.mp h
    exact ⟨rfl, id, id⟩
  | join =>
    obtain ⟨-, ⟨⟩⟩ := Option.ite_none_right_eq_some.mp h
    exact ⟨rfl, id, id⟩
  | lock =>
    obtain ⟨hpc, ⟨⟩⟩ := Option.ite_none_right_eq_some.mp h
    have hrest : l.AtRest := fun todo => by simp [hpc]
    split
    · exact ⟨rfl, fun _ => hrest, (by rintro (hnot | hnot) <;> cases hnot)⟩
    · exact ⟨rfl, fun _ => hrest, (by rintro (hnot | hnot) <;> cases hnot)⟩
  | wake =>
    obtain ⟨hpc, ⟨⟩⟩ := Option.ite_none_right_eq_some.mp h
    exact ⟨rfl, fun _ todo => by simp [hpc],
      (by rintro (hnot | hnot) <;> cases hnot)⟩
  | enter | test | write | recycle => cases hop

/-- The `LogFile` has got what the logger has written; if its names are distinct, it is safe,
and flushed between two rounds. -/
def Stored (l : AsyncLogging) : Option StdioLogFile → Prop
  | none => l.output = []
  | some out => out.log.appended = l.output ∧
      (out.log.names.Nodup → out.Safe ∧ (l.AtRest → out.Flushed))

structure Valid (s : LogPipeline) : Prop where
  logging : s.logging.Valid
  fresh : s.logging.NotEntered → s.logging.output = []
  stored : Stored s.logging s.output

theorem initial_valid : Valid initial := ⟨AsyncLogging.initial_valid, fun _ => rfl, rfl⟩

theorem Stored.frame {l l' : AsyncLogging} {output : Option StdioLogFile} (h : Stored l output)
    (houtput : l'.output = l.output) (hrest : l'.AtRest → l.AtRest) : Stored l' output := by
  cases output with
  | none => exact houtput.trans h
  | some out =>
    refine ⟨h.1.trans houtput.symm, fun hnodup => ?_⟩
    obtain ⟨hsafe, hflushed⟩ := h.2 hnodup
    exact ⟨hsafe, fun hl => hflushed (hrest hl)⟩

theorem Stored.flush {l l' : AsyncLogging} {output : Option StdioLogFile} (h : Stored l output)
    (houtput : l'.output = l.output) : Stored l' (output.map .flush) := by
  cases output with
  | none => exact houtput.trans h
  | some out => exact ⟨h.1.trans houtput.symm, fun hnodup => ⟨(h.2 hnodup).1.flush, fun _ => rfl⟩⟩

theorem step_valid (hs : s.Valid) (hop : op.Works)
    (h : step strftime basename rollSize s op = some s') : s'.Valid := by
  cases step_cases h with
  | logging hoff hstep =>
    have hvalid := AsyncLogging.step_valid hs.logging (AsyncLogging.step_cases hstep)
    obtain ⟨houtput, hrest, hnot⟩ := offFile_frame hoff hstep
    exact ⟨hvalid, fun h => houtput.trans (hs.fresh (hnot h)), hs.stored.frame houtput hrest⟩
  | created hstep hrunning =>
    have hvalid := AsyncLogging.step_valid hs.logging (AsyncLogging.step_cases hstep)
    obtain ⟨hpc, hstep⟩ := Option.ite_none_right_eq_some.mp hstep
    rw [if_pos hrunning] at hstep
    have hnil : s.logging.output = [] := hs.fresh (.inr hpc)
    rw [← Option.some.inj hstep] at hvalid ⊢
    refine ⟨hvalid, fun _ => hnil, hnil.symm, fun _ => ⟨?_, fun _ => rfl⟩⟩
    exact StdioLogFile.create_safe _ hop
  | aborted hstep hrunning =>
    have hvalid := AsyncLogging.step_valid hs.logging (AsyncLogging.step_cases hstep)
    obtain ⟨hpc, hstep⟩ := Option.ite_none_right_eq_some.mp hstep
    rw [hrunning] at hstep
    have hnil : s.logging.output = [] := hs.fresh (.inr hpc)
    rw [← Option.some.inj hstep] at hvalid ⊢
    refine ⟨hvalid, fun _ => hnil, hs.stored.frame rfl fun _ todo => ?_⟩
    rw [hpc]
    simp
  | again hstep hrunning =>
    have hvalid := AsyncLogging.step_valid hs.logging (AsyncLogging.step_cases hstep)
    obtain ⟨hpc, hstep⟩ := Option.ite_none_right_eq_some.mp hstep
    rw [← Option.some.inj hstep] at hvalid ⊢
    rw [if_pos hrunning] at hvalid ⊢
    refine ⟨hvalid, (by rintro (hnot | hnot) <;> cases hnot),
      hs.stored.frame rfl fun _ todo => ?_⟩
    rw [hpc]
    simp
  | exits hstep hrunning =>
    have hvalid := AsyncLogging.step_valid hs.logging (AsyncLogging.step_cases hstep)
    obtain ⟨hpc, hstep⟩ := Option.ite_none_right_eq_some.mp hstep
    rw [hrunning] at hstep
    rw [← Option.some.inj hstep] at hvalid ⊢
    exact ⟨hvalid, (by rintro (hnot | hnot) <;> cases hnot),
      hs.stored.flush rfl⟩
  | write hpc houtput hline happend =>
    have hvalid := AsyncLogging.step_valid hs.logging (.write _ _ hpc)
    have hstored := hs.stored
    rw [houtput] at hstored
    refine ⟨hvalid, (by rintro (hnot | hnot) <;> cases hnot), ?_, ?_⟩
    · rw [StdioLogFile.append_appended happend, hstored.1, hline]
    · intro hnodup
      have hsafe := (hstored.2 (StdioLogFile.append_nodup happend hnodup)).1
      exact ⟨StdioLogFile.append_safe hsafe hop happend hnodup, fun hrest => absurd rfl (hrest _)⟩
  | recycle hstep =>
    have hvalid := AsyncLogging.step_valid hs.logging (AsyncLogging.step_cases hstep)
    obtain ⟨hpc, hstep⟩ := Option.ite_none_right_eq_some.mp hstep
    rw [← Option.some.inj hstep] at hvalid ⊢
    exact ⟨hvalid, (by rintro (hnot | hnot) <;> cases hnot),
      hs.stored.flush rfl⟩

theorem run_valid {ops : List PipelineOp}
    (hrun : Machine.run (step strftime basename rollSize) initial ops = some s)
    (hops : ∀ op ∈ ops, op.Works) : s.Valid :=
  Machine.run_invariant_mem (fun op hop _ _ hs h => step_valid hs (hops op hop) h) hrun
    initial_valid

/-- What the front end holds, and what the back end has taken and not yet written. -/
def inMemory (l : AsyncLogging) : List (List UInt8) :=
  (l.unwritten ++ l.pending).map BufferPtr.bytes

variable {out : StdioLogFile} {ops : List PipelineOp}

/-- The files batch the buffers, which batch the lines. -/
theorem Valid.chunked_files (hs : s.Valid) (hout : s.output = some out)
    (hnodup : out.log.names.Nodup) :
    Chunked s.logging.short
      (out.log.files.map AppendFile.contents ++ inMemory s.logging) := by
  have hstored := hs.stored
  rw [hout] at hstored
  have hfiles := (hstored.2 hnodup).1.ready.1.chunked
  rw [hstored.1] at hfiles
  exact hs.logging.chunked.trans (hfiles.append (.refl _))

/-- **Every line is whole in one file.**  For every interleaving of threads that log with the
back end, if files open, writes complete and the names of the files are distinct: the files, in
the order of their creation, followed by the buffers that have not been written, hold the lines
that fit into a buffer, in the order of `append`, and no line is cut, neither between two
buffers nor between two files. -/
theorem lines_whole_in_files
    (hrun : Machine.run (step strftime basename rollSize) initial ops = some s)
    (hops : ∀ op ∈ ops, op.Works) (hout : s.output = some out) (hnodup : out.log.names.Nodup) :
    Chunked s.logging.short
      (out.log.files.map AppendFile.contents ++ inMemory s.logging) :=
  (run_valid hrun hops).chunked_files hout hnodup

/-- Two rounds of the back end; the second one makes the file larger than three bytes, and a
new file is begun.  A third line is still in memory. -/
def twoRounds : List PipelineOp :=
  [.logging .start, .enter (LogFile.rollAt 0 0), .test, .logging .lock,
    .logging (.append [10, 11]), .logging .wake, .write (LogFile.lineAt 0 1 [10, 11]), .recycle,
    .logging (.append [20, 21]), .test, .logging .lock, .logging .wake,
    .write (LogFile.lineAt 0 2 [20, 21]), .logging (.append [30, 31])]

theorem works_twoRounds : ∀ op ∈ twoRounds, op.Works := by
  simp [twoRounds, PipelineOp.Works, LogFile.works_lineAt]
  rfl

theorem lines_whole_in_files_twoRounds :
    ∃ s out, Machine.run (step (fun _ => []) [] 3) initial twoRounds = some s ∧
      s.output = some out ∧ out.log.files.map AppendFile.contents = [[10, 11, 20, 21], []] ∧
      Chunked [[10, 11], [20, 21], [30, 31]]
        (out.log.files.map AppendFile.contents ++ inMemory s.logging) := by
  obtain ⟨s, hrun⟩ : ∃ s, Machine.run (step (fun _ => []) [] 3) initial twoRounds = some s :=
    ⟨_, rfl⟩
  have hlines := fun (out : StdioLogFile) (hout : s.output = some out) =>
    lines_whole_in_files hrun works_twoRounds hout
  obtain rfl := Option.some.inj hrun
  exact ⟨_, _, rfl, rfl, rfl, hlines _ rfl (by decide)⟩

/-- **What survives the process.**  If files open, writes complete and the names of the files are
distinct, what is durable are the first ones of the pieces that were handed to `LogFile::append`,
each of them whole; and whenever the back end is not writing, all of them are durable, so that the
lines that would be lost are those in `buffers_` and `currentBuffer_`. -/
theorem durable_between_rounds
    (hrun : Machine.run (step strftime basename rollSize) initial ops = some s)
    (hops : ∀ op ∈ ops, op.Works) (hout : s.output = some out) (hnodup : out.log.names.Nodup) :
    (∃ k ≤ s.logging.output.length, Chunked (s.logging.output.take k) out.durable) ∧
      (s.logging.AtRest → out.durable = out.log.files.map AppendFile.contents ∧
        Chunked s.logging.short (out.durable ++ s.logging.pending.map BufferPtr.bytes)) := by
  have hs := run_valid hrun hops
  have hstored := hs.stored
  rw [hout] at hstored
  obtain ⟨happended, hsafe⟩ := hstored
  obtain ⟨hsafe, hflushed⟩ := hsafe hnodup
  refine ⟨happended ▸ hsafe.durable, fun hrest => ?_⟩
  have hdurable := (hflushed hrest).durable_eq
  have hlines := hs.chunked_files hout hnodup
  have hunwritten : s.logging.unwritten = [] := by
    unfold AsyncLogging.unwritten
    split
    · rename_i todo hpc
      exact absurd hpc (hrest todo)
    · rfl
  rw [← hdurable, inMemory, hunwritten, List.nil_append] at hlines
  exact ⟨hdurable, hlines⟩

theorem durable_between_rounds_twoRounds :
    ∃ s out, Machine.run (step (fun _ => []) [] 3) initial (twoRounds ++ [.recycle]) = some s ∧
      s.output = some out ∧
      Chunked [[10, 11], [20, 21], [30, 31]]
        (out.durable ++ s.logging.pending.map BufferPtr.bytes) := by
  obtain ⟨s, hrun⟩ : ∃ s, Machine.run (step (fun _ => []) [] 3) initial
      (twoRounds ++ [.recycle]) = some s := ⟨_, rfl⟩
  have hworks : ∀ op ∈ twoRounds ++ [.recycle], op.Works := by
    intro op hop
    rcases List.mem_append.mp hop with hop | hop
    · exact works_twoRounds op hop
    · rw [List.mem_singleton.mp hop]
      trivial
  have hdurable := fun (out : StdioLogFile) (hout : s.output = some out) =>
    durable_between_rounds hrun hworks hout
  obtain rfl := Option.some.inj hrun
  exact ⟨_, _, rfl, rfl, ((hdurable _ rfl (by decide)).2 fun _ => nofun).2⟩

end LogPipeline
end ReMuduo
