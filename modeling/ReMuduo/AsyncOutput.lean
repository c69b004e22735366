import ReMuduo.LogShutdown
import ReMuduo.Logger

/-! # The output function of the logger

`src/base/AsyncLoggingInit.cpp` owns the one `AsyncLogging` of the process, `g_asyncLog`, and
can install an output function that sends all lines there.  The function refers to
`g_asyncLog` when it is called, not when it is installed.

The calls are all made by one thread; the steps of the back end of `g_asyncLog` come anywhere
between them.  `resetAsyncLogging` waits for the back end, and meanwhile the calling thread
makes no other call.  Where each line goes is kept, for the statements.

* `lines_reach_iff`: which orders of calls are safe is decided by an automaton with two bits;
* `hasErrorLog_iff`: the test that is to recognise lines of level `ERROR` never does. -/
namespace ReMuduo

/-- `Logger::output_`: the function it starts with, and the one of `setAsyncOutput`. -/
inductive OutputFunction where
  | stdout
  | asyncLog
deriving DecidableEq

/-- Where a line goes. -/
inductive Destination where
  | stdout
  /-- The logger of `g_asyncLog`, with its `running_`. -/
  | asyncLog (running : Bool)
  /-- A null `g_asyncLog` is dereferenced. -/
  | null
deriving DecidableEq

/-- The line reaches the standard output or a running `AsyncLogging`. -/
def Destination.Reaches : Destination → Prop
  | .stdout => True
  | .asyncLog running => running = true
  | .null => False

structure LoggedLine where
  line : List UInt8
  destination : Destination
deriving DecidableEq

/-- The globals, and where the calling thread is: inside `resetAsyncLogging`, or gone with the
process. -/
structure LogProcess where
  asyncLog : Option AsyncLogging
  testMode : Bool
  hasErrorLog : Bool
  logLevel : Int
  output : OutputFunction
  resetting : Bool
  ended : Bool
  logged : List LoggedLine

/-- The calls of the thread that logs.  `garbage` is what memory holds where nothing was
stored. -/
inductive ProcessCall where
  | initAsyncLogging
  | resetAsyncLogging
  | setAsyncOutput
  | enableTestMode
  | log (msg : List UInt8) (now : Int) (garbage : Nat → UInt8)
  /-- `LOG_INFO`, `LOG_ERROR` and so on. -/
  | logMacro (level : LogLevel) (text : List UInt8) (now : Int) (garbage : Nat → UInt8)

inductive ProcessOp where
  | call (c : ProcessCall)
  /-- `resetAsyncLogging` returns. -/
  | resetReturns
  /-- A step of the back end of `g_asyncLog`. -/
  | backEnd (op : LogOp)

/-- The steps that the back end takes. -/
def LogOp.isBackEnd : LogOp → Bool
  | .enter | .test | .lock | .wake | .write | .recycle => true
  | .append _ | .start | .stop | .join => false

/-- What the order of the calls decides: whether there is a `g_asyncLog`, and whether its
output function is installed. -/
structure LogOrder where
  initialised : Bool
  redirected : Bool
deriving DecidableEq

/-- A line is refused if the output function is installed and there is no `g_asyncLog`. -/
def LogOrder.log (o : LogOrder) : Option LogOrder :=
  if o.redirected = true ∧ o.initialised = false then none else some o

def LogOrder.step (o : LogOrder) : ProcessOp → Option LogOrder
  | .call .initAsyncLogging => some { o with initialised := true }
  | .call .resetAsyncLogging => some { o with initialised := false }
  | .call .setAsyncOutput => some { o with redirected := o.redirected || o.initialised }
  | .call (.log _ _ _) | .call (.logMacro _ _ _ _) => o.log
  | .call .enableTestMode | .resetReturns | .backEnd _ => some o

namespace LogProcess

variable {localtime : Int → Tm} {s s' : LogProcess} {op : ProcessOp} {ops : List ProcessOp}

def initial : LogProcess where
  asyncLog := none
  testMode := false
  hasErrorLog := false
  logLevel := 0
  output := .stdout
  resetting := false
  ended := false
  logged := []

/-- The bytes that an output function reads of what `log` hands it. -/
def readPassed (passed : List (Option UInt8) × Int) (garbage : Nat → UInt8) : List UInt8 :=
  (List.range passed.2.toNat).map fun k => (passed.1[k]?.join).getD (garbage k)

/-- Where the installed output function sends a line. -/
def destination (s : LogProcess) : Destination :=
  match s.output with
  | .stdout => .stdout
  | .asyncLog =>
    match s.asyncLog with
    | some a => .asyncLog a.running
    | none => .null

/-- `Logger::log(msg)` and the output function that it calls. -/
def log (localtime : Int → Tm) (s : LogProcess) (msg : List UInt8) (now : Int)
    (garbage : Nat → UInt8) : LogProcess :=
  let passed := Logger.log localtime s.logLevel now msg
  let line := readPassed passed garbage
  { s with
    logged := s.logged ++ [⟨line, s.destination⟩]
    hasErrorLog :=
      match s.output with
      | .stdout => s.hasErrorLog
      | .asyncLog =>
        s.hasErrorLog || decide (0 < passed.2 ∧ passed.1[0]? = some (some 'E'.toUInt8))
    asyncLog :=
      match s.output with
      | .stdout => s.asyncLog
      | .asyncLog => s.asyncLog.map (·.append line)
    ended := s.ended || decide (s.destination = .null) }

/-- A `LOG_*` macro; `LOG_FATAL` exits. -/
def logMacro (localtime : Int → Tm) (s : LogProcess) (level : LogLevel) (text : List UInt8)
    (now : Int) (garbage : Nat → UInt8) : LogProcess :=
  let t := { s with logLevel := level.toInt }.log localtime (Logger.macroMessage text) now garbage
  { t with ended := t.ended || decide (level = .FATAL) }

def call (localtime : Int → Tm) (s : LogProcess) : ProcessCall → LogProcess
  | .initAsyncLogging =>
    match s.asyncLog with
    | some _ => s
    | none => { s with asyncLog := AsyncLogging.initial.step .start }
  | .resetAsyncLogging =>
    match s.asyncLog with
    | some a => { s with asyncLog := a.step .stop, resetting := true }
    | none => s
  | .setAsyncOutput =>
    match s.asyncLog with
    | some _ => { s with output := .asyncLog }
    | none => s
  | .enableTestMode => { s with testMode := true, hasErrorLog := false }
  | .log msg now garbage => s.log localtime msg now garbage
  | .logMacro level text now garbage => s.logMacro localtime level text now garbage

def step (localtime : Int → Tm) (s : LogProcess) : ProcessOp → Option LogProcess
  | .call c =>
    if s.ended = false ∧ s.resetting = false then some (s.call localtime c) else none
  | .resetReturns =>
    if s.ended = false ∧ s.resetting = true then
      (s.asyncLog.bind (·.step .join)).map fun _ =>
        { s with asyncLog := none, resetting := false }
    else none
  | .backEnd op =>
    if s.ended = false ∧ op.isBackEnd = true then
      (s.asyncLog.bind (·.step op)).map fun a => { s with asyncLog := some a }
    else none

theorem step_cases (h : step localtime s op = some s') :
    (∃ c, op = .call c ∧ s.resetting = false ∧ s' = s.call localtime c) ∨
    (op = .resetReturns ∧ s.resetting = true ∧
      s' = { s with asyncLog := none, resetting := false }) ∨
    (∃ o a a', op = .backEnd o ∧ o.isBackEnd = true ∧ s.asyncLog = some a ∧
      a.step o = some a' ∧ s' = { s with asyncLog := some a' }) := by
  cases op with
  | call c =>
    obtain ⟨⟨-, hresetting⟩, ⟨⟩⟩ := Option.ite_none_right_eq_some.mp h
    exact .inl ⟨c, rfl, hresetting, rfl⟩
  | resetReturns =>
    obtain ⟨⟨-, hresetting⟩, h⟩ := Option.ite_none_right_eq_some.mp h
    obtain ⟨a, -, rfl⟩ := Option.map_eq_some_iff.mp h
    exact .inr (.inl ⟨rfl, hresetting, rfl⟩)
  | backEnd o =>
    obtain ⟨⟨-, hbackEnd⟩, h⟩ := Option.ite_none_right_eq_some.mp h
    obtain ⟨a', ha', rfl⟩ := Option.map_eq_some_iff.mp h
    obtain ⟨a, ha, hstep⟩ := Option.bind_eq_some_iff.mp ha'
    exact .inr (.inr ⟨o, a, a', rfl, hbackEnd, ha, hstep, rfl⟩)

/-! ## Orders of calls -/

def order (s : LogProcess) : LogOrder where
  initialised := s.asyncLog.isSome && !s.resetting
  redirected := decide (s.output = .asyncLog)

/-- Outside `resetAsyncLogging`, the logger that there is runs. -/
def Running (s : LogProcess) : Prop :=
  s.resetting = false → ∀ a, s.asyncLog = some a → a.running = true

/-- All lines reached an output. -/
def AllReach (s : LogProcess) : Prop := ∀ l ∈ s.logged, l.destination.Reaches

theorem backEnd_running {a a' : AsyncLogging} {o : LogOp} (ho : o.isBackEnd = true)
    (h : a.step o = some a') : a'.running = a.running := by
  cases o with
  | append | start | stop | join => cases ho
  | enter =>
    obtain ⟨-, h⟩ := Option.ite_none_right_eq_some.mp h
    split at h
    · rw [← Option.some.inj h]
    · rw [← Option.some.inj h]
      rfl
  | test | wake | recycle =>
    obtain ⟨-, ⟨⟩⟩ := Option.ite_none_right_eq_some.mp h
    rfl
  | lock =>
    obtain ⟨-, ⟨⟩⟩ := Option.ite_none_right_eq_some.mp h
    split <;> rfl
  | write =>
    rw [AsyncLogging.step] at h
    split at h
    · rw [← Option.some.inj h]
    · rw [← Option.some.inj h]
      rfl
    · cases h

theorem log_running {msg : List UInt8} {now : Int} {garbage : Nat → UInt8} (hs : s.Running) :
    (s.log localtime msg now garbage).Running := by
  intro hresetting a ha
  dsimp only [log] at ha
  split at ha
  · exact hs hresetting a ha
  · obtain ⟨b, hb, rfl⟩ := Option.map_eq_some_iff.mp ha
    rw [(AsyncLogging.append_frame b _).2.2.2.2]
    exact hs hresetting b hb

theorem call_running {c : ProcessCall} (hs : s.Running) : (s.call localtime c).Running := by
  cases c with
  | initAsyncLogging =>
    rw [call]
    split
    · exact hs
    · intro _ a ha
      rw [← Option.some.inj ha]
  | resetAsyncLogging =>
    rw [call]
    split
    · intro hresetting
      cases hresetting
    · exact hs
  | setAsyncOutput =>
    rw [call]
    split
    · exact hs
    · exact hs
  | enableTestMode => exact hs
  | log msg now garbage => exact log_running hs
  | logMacro level text now garbage =>
    have hset : { s with logLevel := level.toInt : LogProcess }.Running := hs
    have hlog : ({ s with logLevel := level.toInt : LogProcess }.log localtime
        (Logger.macroMessage text) now garbage).Running := log_running hset
    exact hlog

theorem step_running (hs : s.Running) (h : step localtime s op = some s') : s'.Running := by
  obtain ⟨c, -, -, rfl⟩ | ⟨-, -, rfl⟩ | ⟨o, a, a', -, ho, ha, hstep, rfl⟩ := step_cases h
  · exact call_running hs
  · intro _ a ha
    cases ha
  · intro hresetting b hb
    rw [← Option.some.inj hb, backEnd_running ho hstep]
    exact hs hresetting a ha

/-- A line reaches an output unless it is sent to a `g_asyncLog` that is not there. -/
theorem destination_reaches (hs : s.Running) (hresetting : s.resetting = false) :
    s.destination.Reaches ↔ ¬ (s.order.redirected = true ∧ s.order.initialised = false) := by
  unfold destination
  cases houtput : s.output with
  | stdout => simp [Destination.Reaches, order, houtput]
  | asyncLog =>
    cases hlog : s.asyncLog with
    | none => simp [Destination.Reaches, order, houtput, hlog]
    | some a => simp [Destination.Reaches, order, hresetting, hlog, hs hresetting a hlog]

theorem log_order (msg : List UInt8) (now : Int) (garbage : Nat → UInt8) :
    (s.log localtime msg now garbage).order = s.order := by
  cases houtput : s.output <;> simp [order, log, houtput]

/-- What both kinds of log calls do to the order and to the lines. -/
theorem log_allReach (hs : s.Running) (hresetting : s.resetting = false)
    (hlogged : ∃ line, s'.logged = s.logged ++ [⟨line, s.destination⟩])
    (horder : s'.order = s.order) :
    (s'.AllReach ↔ s.AllReach ∧ s.order.log.isSome) ∧
      ∀ o, s.order.log = some o → s'.order = o := by
  obtain ⟨line, hlogged⟩ := hlogged
  rw [AllReach, hlogged, List.forall_mem_append, List.forall_mem_singleton,
    destination_reaches hs hresetting, horder]
  by_cases hrefused : s.order.redirected = true ∧ s.order.initialised = false
  · rw [LogOrder.log, if_pos hrefused]
    simp [hrefused]
  · rw [LogOrder.log, if_neg hrefused]
    simp [hrefused, AllReach]

theorem call_allReach {c : ProcessCall} (hs : s.Running) (hresetting : s.resetting = false) :
    ((s.call localtime c).AllReach ↔
      s.AllReach ∧ (LogOrder.step s.order (.call c)).isSome) ∧
    ∀ o, LogOrder.step s.order (.call c) = some o → (s.call localtime c).order = o := by
  cases c with
  | initAsyncLogging =>
    cases hlog : s.asyncLog <;>
      simp [call, LogOrder.step, AllReach, order, hlog, hresetting, AsyncLogging.step,
        AsyncLogging.initial]
  | resetAsyncLogging =>
    cases hlog : s.asyncLog <;> simp [call, LogOrder.step, AllReach, order, hlog]
  | setAsyncOutput =>
    cases hlog : s.asyncLog <;> simp [call, LogOrder.step, AllReach, order, hlog, hresetting]
  | enableTestMode => exact ⟨(and_iff_left rfl).symm, fun o ho => Option.some.inj ho⟩
  | log msg now garbage =>
    exact log_allReach hs hresetting ⟨_, rfl⟩ (log_order msg now garbage)
  | logMacro level text now garbage =>
    exact log_allReach hs hresetting ⟨_, rfl⟩
      (log_order (s := { s with logLevel := level.toInt }) (Logger.macroMessage text) now garbage)

theorem step_allReach (hs : s.Running) (h : step localtime s op = some s') :
    (s'.AllReach ↔ s.AllReach ∧ (LogOrder.step s.order op).isSome) ∧
      ∀ o, LogOrder.step s.order op = some o → s'.order = o := by
  obtain ⟨c, rfl, hresetting, rfl⟩ | ⟨rfl, hresetting, rfl⟩ | ⟨o, a, a', rfl, -, ha, -, rfl⟩ :=
    step_cases h
  · exact call_allReach hs hresetting
  · simp [LogOrder.step, AllReach, order, hresetting]
  · simp [LogOrder.step, AllReach, order, ha]

/-- **Which orders are safe.**  Every line reaches the standard output or a running
`AsyncLogging`, and no null `g_asyncLog` is dereferenced, exactly when the automaton accepts
the calls: once `setAsyncOutput` has found a `g_asyncLog`, nothing is logged between a
`resetAsyncLogging` and the next `initAsyncLogging`. -/
theorem lines_reach_iff (hrun : Machine.run (step localtime) initial ops = some s) :
    (∀ l ∈ s.logged, l.destination.Reaches) ↔
      (Machine.run LogOrder.step ⟨false, false⟩ ops).isSome := by
  have hrunning : initial.Running := by
    intro _ a ha
    cases ha
  have hnone : initial.AllReach := by
    intro l hl
    cases hl
  exact Machine.run_iff_accepts order (fun _ _ _ hs h => step_running hs h)
    (fun _ _ _ hs h => step_allReach hs h) hrun hrunning hnone

/-- `LOG_INFO("a")` after the logger has been reset and created again. -/
def logAfterInit : List ProcessOp :=
  [.call .initAsyncLogging, .call .setAsyncOutput, .backEnd .enter, .call .resetAsyncLogging,
    .backEnd .test, .resetReturns, .call .initAsyncLogging,
    .call (.logMacro .INFO [97] 0 fun _ => 0)]

theorem logAfterInit_reaches :
    ∃ s, Machine.run (step Logger.epoch) initial logAfterInit = some s ∧
      ∀ l ∈ s.logged, l.destination.Reaches := by
  have hrun : ∃ s, Machine.run (step Logger.epoch) initial logAfterInit = some s := ⟨_, rfl⟩
  obtain ⟨s, hrun⟩ := hrun
  exact ⟨s, hrun, (lines_reach_iff hrun).mpr (by decide)⟩

/-- `LOG_INFO("a")` after a reset: the output function that was installed before dereferences
the null `g_asyncLog`. -/
theorem log_after_reset_null :
    ∃ s, Machine.run (step Logger.epoch) initial
        [.call .initAsyncLogging, .call .setAsyncOutput, .backEnd .enter, .call .resetAsyncLogging,
          .backEnd .test, .resetReturns, .call (.logMacro .INFO [97] 0 fun _ => 0)] = some s ∧
      s.logged.map LoggedLine.destination = [.null] :=
  ⟨_, rfl, rfl⟩

/-! ## The test for lines of level `ERROR` -/

/-- Whether a `LOG_ERROR` has been called since the last `enableTestMode`, after one more
step. -/
def errorLogged (since : Bool) : ProcessOp → Bool
  | .call .enableTestMode => false
  | .call (.logMacro .ERROR _ _ _) => true
  | _ => since

/-- A line starts with a bracket, and the test looks for an `E`. -/
theorem log_hasErrorLog (msg : List UInt8) (now : Int) (garbage : Nat → UInt8) :
    (s.log localtime msg now garbage).hasErrorLog = s.hasErrorLog := by
  have hbracket : ¬ (0 < (Logger.log localtime s.logLevel now msg).2 ∧
      (Logger.log localtime s.logLevel now msg).1[0]? = some (some 'E'.toUInt8)) := by
    rintro ⟨-, hhead⟩
    rw [Logger.log_head] at hhead
    exact absurd hhead (by decide)
  dsimp only [log]
  split
  · rfl
  · rw [decide_eq_false hbracket, Bool.or_false]

theorem step_hasErrorLog (hs : s.hasErrorLog = false) (h : step localtime s op = some s') :
    s'.hasErrorLog = false := by
  obtain ⟨c, -, -, rfl⟩ | ⟨-, -, rfl⟩ | ⟨o, a, a', -, -, -, -, rfl⟩ := step_cases h
  · cases c with
    | initAsyncLogging | resetAsyncLogging | setAsyncOutput =>
      rw [call]
      split <;> exact hs
    | enableTestMode => rfl
    | log msg now garbage => exact (log_hasErrorLog msg now garbage).trans hs
    | logMacro level text now garbage =>
      have hset : { s with logLevel := level.toInt : LogProcess }.hasErrorLog = false := hs
      exact (log_hasErrorLog (Logger.macroMessage text) now garbage).trans hset
  · exact hs
  · exact hs

theorem run_hasErrorLog (hs : s.hasErrorLog = false)
    (hrun : Machine.run (step localtime) s ops = some s') : s'.hasErrorLog = false :=
  Machine.run_invariant (P := fun s => s.hasErrorLog = false)
    (fun _ _ _ hs h => step_hasErrorLog hs h) hrun hs

/-- **When `hasErrorLog` is right.**  Whatever calls were made before, `hasErrorLog()` tells
whether there was a `LOG_ERROR` since the last `enableTestMode` exactly when there was none. -/
theorem hasErrorLog_iff {before calls : List ProcessOp} {s₀ : LogProcess}
    (hbefore : Machine.run (step localtime) initial before = some s₀)
    (hrun : Machine.run (step localtime) s₀ calls = some s) :
    (s.hasErrorLog = true ↔ calls.foldl errorLogged false = true) ↔
      calls.foldl errorLogged false = false := by
  rw [run_hasErrorLog (run_hasErrorLog rfl hbefore) hrun]
  simp

/-- The calls that install the output function. -/
def installOutput : List ProcessOp := [.call .initAsyncLogging, .call .setAsyncOutput]

/-- `LOG_INFO("a")` in test mode, and `hasErrorLog()` is rightly false. -/
theorem hasErrorLog_info :
    ∃ s₀ s, Machine.run (step Logger.epoch) initial installOutput = some s₀ ∧
      Machine.run (step Logger.epoch) s₀
        [.call .enableTestMode, .call (.logMacro .INFO [97] 0 fun _ => 0)] = some s ∧
      ¬ s.hasErrorLog = true := by
  have hruns : ∃ s₀, Machine.run (step Logger.epoch) initial installOutput = some s₀ ∧
      ∃ s, Machine.run (step Logger.epoch) s₀
        [.call .enableTestMode, .call (.logMacro .INFO [97] 0 fun _ => 0)] = some s :=
    ⟨_, rfl, _, rfl⟩
  obtain ⟨s₀, hbefore, s, hrun⟩ := hruns
  refine ⟨s₀, s, hbefore, hrun, fun herror => ?_⟩
  have hlogged := ((hasErrorLog_iff hbefore hrun).mpr rfl).mp herror
  cases hlogged

/-- `LOG_ERROR("a")` in test mode reaches the logger, and `hasErrorLog()` stays false. -/
theorem error_line_not_seen :
    ∃ s₀ s, Machine.run (step Logger.epoch) initial installOutput = some s₀ ∧
      Machine.run (step Logger.epoch) s₀
        [.call .enableTestMode, .call (.logMacro .ERROR [97] 0 fun _ => 0)] = some s ∧
      s.logged.map LoggedLine.destination = [.asyncLog true] ∧ s.hasErrorLog = false := by
  have hruns : ∃ s₀, Machine.run (step Logger.epoch) initial installOutput = some s₀ ∧
      ∃ s, Machine.run (step Logger.epoch) s₀
        [.call .enableTestMode, .call (.logMacro .ERROR [97] 0 fun _ => 0)] = some s ∧
        s.logged.map LoggedLine.destination = [.asyncLog true] :=
    ⟨_, rfl, _, rfl, rfl⟩
  obtain ⟨s₀, hbefore, s, hrun, hlogged⟩ := hruns
  exact ⟨s₀, s, hbefore, hrun, hlogged, run_hasErrorLog (run_hasErrorLog rfl hbefore) hrun⟩

end LogProcess
end ReMuduo
