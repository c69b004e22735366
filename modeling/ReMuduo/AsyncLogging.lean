import ReMuduo.Machine

/-! # The asynchronous logger

`AsyncLogging` (`src/base/AsyncLogging.cpp`) with its `FixedBuffer`s
(`include/LogStream.h`).  Any thread appends lines to the current buffer under the
mutex; the back-end thread swaps the filled buffers out under the same mutex, writes
them without it, and recycles two of them.  A `unique_ptr` that has been moved from is
`none`; a place where the source would dereference one, and an assertion that would
fail, is recorded in `faults`.

The back end tests `running_`, takes the mutex, possibly waits, and swaps: these are
separate steps, and other threads may run between them.  While it waits the mutex is
free, and the wait may end at any time, by a notification, at its timeout or for no
reason. -/
namespace ReMuduo

/-- A `FixedBuffer`: the bytes before its cursor, which never passes the end. -/
structure FixedBuffer where
  data : List UInt8
  fits : data.length ≤ 4000
deriving DecidableEq

namespace FixedBuffer

/-- `kSize`. -/
def kSize : Nat := 4000

/-- A new buffer, or one that has been `reset()`. -/
def empty : FixedBuffer := ⟨[], Nat.zero_le _⟩

def avail (b : FixedBuffer) : Nat := kSize - b.data.length

/-- `append(buf, len)`: what does not fit is dropped. -/
def append (b : FixedBuffer) (buf : List UInt8) : FixedBuffer :=
  if h : buf.length < b.avail then
    ⟨b.data ++ buf, by
      have hfits := b.fits
      unfold avail kSize at h
      rw [List.length_append]
      omega⟩
  else b

end FixedBuffer

/-- `BufferPtr`. -/
abbrev BufferPtr := Option FixedBuffer

/-- The bytes of the buffer a pointer owns. -/
def BufferPtr.bytes : BufferPtr → List UInt8
  | some b => b.data
  | none => []

/-- What the logger is meant never to do. -/
inductive LogFault
  /-- A pointer that owns no buffer is dereferenced. -/
  | nullBuffer
  /-- `assert(running_ == true)` at the entry of `threadFunc`. -/
  | assertRunning
  /-- One of the three `assert(!buffersToWrite.empty())`. -/
  | assertBuffersToWrite
deriving DecidableEq

/-- Where the back-end thread is. -/
inductive BackEndPc
  | notStarted
  /-- Created, and about to enter `threadFunc`. -/
  | starting
  /-- Stopped by the assertion at the entry of `threadFunc`. -/
  | aborted
  /-- About to test `running_`. -/
  | top
  /-- About to take the mutex. -/
  | locking
  /-- In `cond_.waitForSeconds`. -/
  | waiting
  /-- In the loop over `buffersToWrite`, with the part of it that has not been written. -/
  | writing (todo : List BufferPtr)
  /-- `threadFunc` has returned. -/
  | exited
deriving DecidableEq

/-- Where the call of `stop()` is. -/
inductive StopPc
  | notCalled
  /-- `running_` has been cleared. -/
  | cleared
  /-- `thread_.join()` has returned. -/
  | joined
deriving DecidableEq

/-- The members of the logger and the local variables of its back end.  `lines` are the
lines given to `append` so far, in lock order, and `output` the calls of
`LogFile::append`. -/
structure AsyncLogging where
  running : Bool
  currentBuffer : BufferPtr
  nextBuffer : BufferPtr
  buffers : List BufferPtr
  newBuffer1 : BufferPtr
  newBuffer2 : BufferPtr
  buffersToWrite : List BufferPtr
  pc : BackEndPc
  stopPc : StopPc
  lines : List (List UInt8)
  output : List (List UInt8)
  faults : List LogFault

/-- The steps of a run. -/
inductive LogOp
  | append (line : List UInt8)
  | start
  /-- `stop()` is called and clears `running_`. -/
  | stop
  /-- `stop()` returns. -/
  | join
  /-- The back end enters `threadFunc`. -/
  | enter
  /-- The back end tests `running_`. -/
  | test
  /-- The back end takes the mutex, and waits if no buffer is full. -/
  | lock
  /-- The wait of the back end ends. -/
  | wake
  /-- The back end writes the next buffer. -/
  | write
  /-- The back end has written all buffers and recycles them. -/
  | recycle

namespace AsyncLogging

/-- The logger as its constructor leaves it. -/
def initial : AsyncLogging where
  running := false
  currentBuffer := some .empty
  nextBuffer := some .empty
  buffers := []
  newBuffer1 := none
  newBuffer2 := none
  buffersToWrite := []
  pc := .notStarted
  stopPc := .notCalled
  lines := []
  output := []
  faults := []

def fault (s : AsyncLogging) (f : LogFault) : AsyncLogging := { s with faults := s.faults ++ [f] }

/-- `append(logline, len)`. -/
def append (s : AsyncLogging) (line : List UInt8) : AsyncLogging :=
  let s := { s with lines := s.lines ++ [line] }
  match s.currentBuffer with
  | none => s.fault .nullBuffer
  | some b =>
    if line.length < b.avail then { s with currentBuffer := some (b.append line) }
    else
      { s with
        buffers := s.buffers ++ [some b]
        currentBuffer := some ((s.nextBuffer.getD .empty).append line)
        nextBuffer := none }

/-- The rest of the locked section of `threadFunc`, once there is no more waiting. -/
def swap (s : AsyncLogging) : AsyncLogging :=
  let buffersToWrite := s.buffers ++ [s.currentBuffer]
  { s with
    currentBuffer := s.newBuffer1
    newBuffer1 := none
    buffersToWrite := buffersToWrite
    buffers := s.buffersToWrite
    nextBuffer := if s.nextBuffer.isNone then s.newBuffer2 else s.nextBuffer
    newBuffer2 := if s.nextBuffer.isNone then none else s.newBuffer2
    pc := .writing buffersToWrite }

/-- `newBuffer = std::move(buffersToWrite.back())` and `reset()`, unless `newBuffer` owns a
buffer. -/
def refill (newBuffer : BufferPtr) (buffersToWrite : List BufferPtr) :
    BufferPtr × List BufferPtr × List LogFault :=
  match newBuffer with
  | some b => (some b, buffersToWrite, [])
  | none =>
    match buffersToWrite.getLast? with
    | none => (none, [], [.assertBuffersToWrite])
    | some none => (none, buffersToWrite.dropLast, [.nullBuffer])
    | some (some _) => (some .empty, buffersToWrite.dropLast, [])

/-- The end of the body of the loop of `threadFunc`. -/
def recycle (s : AsyncLogging) : AsyncLogging :=
  let kept := if 2 < s.buffersToWrite.length then s.buffersToWrite.take 2 else s.buffersToWrite
  let r1 := refill s.newBuffer1 kept
  let r2 := refill s.newBuffer2 r1.2.1
  { s with
    newBuffer1 := r1.1
    newBuffer2 := r2.1
    buffersToWrite := []
    pc := .top
    faults := s.faults ++ r1.2.2 ++ r2.2.2 }

def step (s : AsyncLogging) : LogOp → Option AsyncLogging
  | .append line => some (s.append line)
  | .start =>
    if s.pc = .notStarted ∧ s.stopPc = .notCalled then
      some { s with running := true, pc := .starting }
    else none
  | .stop =>
    if s.stopPc = .notCalled then some { s with running := false, stopPc := .cleared } else none
  | .join =>
    if s.stopPc = .cleared ∧ (s.pc = .exited ∨ s.pc = .notStarted) then
      some { s with stopPc := .joined }
    else none
  | .enter =>
    if s.pc = .starting then
      if s.running then
        some { s with newBuffer1 := some .empty, newBuffer2 := some .empty, pc := .top }
      else some { s.fault .assertRunning with pc := .aborted }
    else none
  | .test =>
    if s.pc = .top then some { s with pc := if s.running then .locking else .exited } else none
  | .lock =>
    if s.pc = .locking then some (if s.buffers = [] then { s with pc := .waiting } else s.swap)
    else none
  | .wake => if s.pc = .waiting then some s.swap else none
  | .write =>
    match s.pc with
    | .writing (some b :: todo) =>
      some { s with output := s.output ++ [b.data], pc := .writing todo }
    | .writing (none :: todo) => some { s.fault .nullBuffer with pc := .writing todo }
    | _ => none
  | .recycle => if s.pc = .writing [] then some s.recycle else none

/-! ## What a step can do -/

inductive Step (s : AsyncLogging) : AsyncLogging → Prop
  | append (line : List UInt8) : Step s (s.append line)
  | start (hpc : s.pc = .notStarted) (hstop : s.stopPc = .notCalled) :
      Step s { s with running := true, pc := .starting }
  | stop (hstop : s.stopPc = .notCalled) :
      Step s { s with running := false, stopPc := .cleared }
  | join (hstop : s.stopPc = .cleared) (hpc : s.pc = .exited ∨ s.pc = .notStarted) :
      Step s { s with stopPc := .joined }
  | enter (hpc : s.pc = .starting) (hrunning : s.running = true) :
      Step s { s with newBuffer1 := some .empty, newBuffer2 := some .empty, pc := .top }
  | abort (hpc : s.pc = .starting) (hrunning : s.running = false) :
      Step s { s.fault .assertRunning with pc := .aborted }
  | again (hpc : s.pc = .top) (hrunning : s.running = true) : Step s { s with pc := .locking }
  | exit (hpc : s.pc = .top) (hrunning : s.running = false) : Step s { s with pc := .exited }
  | wait (hpc : s.pc = .locking) (hbuffers : s.buffers = []) : Step s { s with pc := .waiting }
  | swap (hpc : s.pc = .locking ∨ s.pc = .waiting) : Step s s.swap
  | write (b : FixedBuffer) (todo : List BufferPtr) (hpc : s.pc = .writing (some b :: todo)) :
      Step s { s with output := s.output ++ [b.data], pc := .writing todo }
  | writeNull (todo : List BufferPtr) (hpc : s.pc = .writing (none :: todo)) :
      Step s { s.fault .nullBuffer with pc := .writing todo }
  | recycle (hpc : s.pc = .writing []) : Step s s.recycle

theorem step_cases {s s' : AsyncLogging} {op : LogOp} (h : s.step op = some s') : Step s s' := by
  cases op with
  | append line => exact Option.some.inj h ▸ .append line
  | start =>
    obtain ⟨⟨hpc, hstop⟩, ⟨⟩⟩ := Option.ite_none_right_eq_some.mp h
    exact .start hpc hstop
  | stop =>
    obtain ⟨hstop, ⟨⟩⟩ := Option.ite_none_right_eq_some.mp h
    exact .stop hstop
  | join =>
    obtain ⟨⟨hstop, hpc⟩, ⟨⟩⟩ := Option.ite_none_right_eq_some.mp h
    exact .join hstop hpc
  | enter =>
    obtain ⟨hpc, h⟩ := Option.ite_none_right_eq_some.mp h
    split at h
    case isTrue hrunning => exact Option.some.inj h ▸ .enter hpc hrunning
    case isFalse hrunning => exact Option.some.inj h ▸ .abort hpc (by simpa using hrunning)
  | test =>
    obtain ⟨hpc, ⟨⟩⟩ := Option.ite_none_right_eq_some.mp h
    split
    case isTrue hrunning => exact .again hpc hrunning
    case isFalse hrunning => exact .exit hpc (by simpa using hrunning)
  | lock =>
    obtain ⟨hpc, ⟨⟩⟩ := Option.ite_none_right_eq_some.mp h
    split
    case isTrue hbuffers => exact .wait hpc hbuffers
    case isFalse hbuffers => exact .swap (.inl hpc)
  | wake =>
    obtain ⟨hpc, ⟨⟩⟩ := Option.ite_none_right_eq_some.mp h
    exact .swap (.inr hpc)
  | write =>
    simp only [step] at h
    split at h
    case h_1 b todo hpc => exact Option.some.inj h ▸ .write b todo hpc
    case h_2 todo hpc => exact Option.some.inj h ▸ .writeNull todo hpc
    case h_3 => cases h
  | recycle =>
    obtain ⟨hpc, ⟨⟩⟩ := Option.ite_none_right_eq_some.mp h
    exact .recycle hpc

end AsyncLogging
end ReMuduo
