import ReMuduo.IdleTimeout

/-! # What a connection asks of the timer queue

`ReMuduo.TimedSteps` bounds what a step may do to the timers: which kinds it may make, and
that it forgets none.  That is enough to show that timers are not lost.  When a timer fires is
another matter: a timer that nobody cancels is executed in time, so one has to know what the
code does *not* ask of the queue.

`queueOps` lists the operations of the queue that a step performs, in their order, and
`step_performs` says that the list is exact.  What a connection does to a single timer is then
a question about the members of that list, and `asked_of_mem` says why they are there. -/
namespace ReMuduo
namespace TimedConnection

variable {s s' t : TimedConnection} {op : TimedOp} {kind : TimerKind} {a : Addr} {d : Delay}
  {ops ops' : List TimerOp}

/-! ## The operations -/

/-- `if (id.isValid()) loop_->cancel(id)`. -/
def cancelOps (s : TimedConnection) (kind : TimerKind) : List TimerOp :=
  if (s.timerId kind).isValid then [.cancelInLoop (s.timerId kind)] else []

/-- `TimerQueue::addTimer`. -/
def addOps (a : Addr) (when : Int) (interval : Seconds) : List TimerOp :=
  [.newTimer a when interval, .addTimerInLoop a]

/-- `runAfter`. -/
def afterOps (s : TimedConnection) (a : Addr) (delay : Delay) : List TimerOp :=
  if delay.negative then []
  else if Timestamp.valid (addTime s.loop.clock.wall delay.seconds) then
    addOps a (addTime s.loop.clock.wall delay.seconds) .zero
  else []

/-- `runEvery`. -/
def everyOps (s : TimedConnection) (a : Addr) (interval : Delay) : List TimerOp :=
  if interval.positive then
    addOps a (addTime s.loop.clock.wall interval.seconds) interval.seconds
  else []

/-- `handleClose`. -/
def closeOps (s : TimedConnection) : List TimerOp :=
  s.cancelOps .connectionTimeout ++ s.cancelOps .idle ++ s.cancelOps .keepAlive

def forceCloseOps (s : TimedConnection) : List TimerOp := if s.isOpen then s.closeOps else []

/-- `onConnectionTimeout`, `onIdleTimeout` and `onKeepAliveTimeout`. -/
def timeoutOps (s : TimedConnection) : TimerKind → List TimerOp
  | .connectionTimeout => s.forceCloseOps
  | .idle => s.forceCloseOps
  | .keepAlive => if s.state ≠ .kConnected then s.cancelOps .keepAlive else []

/-- The callback of a timer. -/
def fireOps (s : TimedConnection) (id : TimerId) : List TimerOp :=
  (s.bound id).elim [] s.timeoutOps

def functorOps (s : TimedConnection) (a : Addr) : TimedFunctor → List TimerOp
  | .setConnectionTimeoutInLoop d =>
    s.cancelOps .connectionTimeout ++ if d.positive then s.afterOps a d else []
  | .resetIdleTimerInLoop => s.cancelOps .idle ++ s.afterOps a s.idleTimeout
  | .setupKeepAliveTimer => if s.keepAliveEnabled then s.everyOps a s.keepAliveInterval else []
  | .cancelInLoop id => [.cancelInLoop id]
  | .forceCloseInLoop => s.forceCloseOps

/-- The operations of the queue that a step performs. -/
def queueOps (s : TimedConnection) : TimedOp → List TimerOp
  | .timer op =>
    match op with
    | .runNext => .runNext :: s.loop.next.elim [] s.fireOps
    | op => [op]
  | .messageEnd a => if s.idleTimeout.positive then s.functorOps a .resetIdleTimerInLoop else []
  | .handleClose => s.closeOps
  | .functor a => s.functors.head?.elim [] (s.functorOps a)
  | .setConnectionTimeout d a => s.functorOps a (.setConnectionTimeoutInLoop d)
  | .setIdleTimeout d a => s.cancelOps .idle ++ if d.positive then s.afterOps a d else []
  | .enableKeepAlive enable d a => if enable then s.everyOps a d else s.cancelOps .keepAlive
  | .forceClose => s.forceCloseOps
  | _ => []

/-- The state of the connection after a step that does not run `handleClose`. -/
def openStateAfter (s : TimedConnection) : TimedOp → StateE
  | .connectEstablished => .kConnected
  | .shutdown => if s.state = .kConnected then .kDisconnecting else s.state
  | .postShutdown => if s.state = .kConnected then .kDisconnecting else s.state
  | .connectDestroyed => if s.state = .kConnected then .kDisconnected else s.state
  | .postForceClose => if s.isOpen then .kDisconnecting else s.state
  | _ => s.state

/-- The state of the connection after a step. -/
def stateAfter (s : TimedConnection) (op : TimedOp) : StateE :=
  if s.closes op then .kDisconnected else s.openStateAfter op

/-- `handleRead` is in the message callback after a step. -/
def readingAfter (s : TimedConnection) : TimedOp → Bool
  | .message => true
  | .messageEnd _ => false
  | _ => s.reading

/-! ## The methods -/

/-- The queue has performed the operations, and the connection is in the same state. -/
structure Asks (ops : List TimerOp) (s s' : TimedConnection) : Prop where
  queue : Machine.run TimerLoop.step s.loop ops = some s'.loop
  state : s'.state = s.state
  reading : s'.reading = s.reading

theorem Asks.nil (hl : s'.loop = s.loop) (hstate : s'.state = s.state)
    (hreading : s'.reading = s.reading) : Asks [] s s' :=
  ⟨congrArg some hl.symm, hstate, hreading⟩

theorem Asks.append (h : Asks ops s t) (h' : Asks ops' t s') : Asks (ops ++ ops') s s' where
  queue := Machine.run_append_eq_some.mpr ⟨t.loop, h.queue, h'.queue⟩
  state := h'.state.trans h.state
  reading := h'.reading.trans h.reading

theorem cancel_eq (h : s.cancel kind = some s') :
    ∃ l, s' = { s with loop := l } ∧ l.clock = s.loop.clock ∧ Asks (s.cancelOps kind) s s' := by
  unfold cancel at h
  unfold cancelOps
  split at h
  · rename_i hvalid
    obtain ⟨l, hl, rfl⟩ := Option.map_eq_some_iff.mp h
    refine ⟨l, rfl, ?_, ?_⟩
    · rw [TimerLoop.step_cancelInLoop hl]
    · rw [if_pos hvalid]
      exact ⟨Machine.run_singleton_eq_some.mpr hl, rfl, rfl⟩
  · rename_i hno
    obtain rfl := Option.some.inj h
    rw [if_neg hno]
    exact ⟨s.loop, rfl, rfl, .nil rfl rfl rfl⟩

theorem addTimer_asks {when : Int} {interval : Seconds}
    (h : s.addTimer kind a when interval = some s') : Asks (addOps a when interval) s s' := by
  obtain ⟨l, hl, rfl⟩ := Option.map_eq_some_iff.mp h
  obtain ⟨u, hnew, hadd⟩ := Option.bind_eq_some_iff.mp hl
  exact ⟨Machine.run_cons_eq_some.mpr ⟨u, hnew, Machine.run_singleton_eq_some.mpr hadd⟩, rfl, rfl⟩

theorem runAfter_asks (h : s.runAfter kind a d = some s') : Asks (s.afterOps a d) s s' := by
  unfold runAfter at h
  unfold afterOps
  split at h
  · rename_i hneg
    obtain rfl := Option.some.inj h
    rw [if_pos hneg]
    exact .nil rfl rfl rfl
  · rename_i hneg
    rw [if_neg hneg]
    split at h
    · rename_i hvalid
      rw [if_pos hvalid]
      exact addTimer_asks h
    · rename_i hinvalid
      obtain rfl := Option.some.inj h
      rw [if_neg hinvalid]
      exact .nil rfl rfl rfl

theorem runEvery_asks (h : s.runEvery kind a d = some s') : Asks (s.everyOps a d) s s' := by
  unfold runEvery at h
  unfold everyOps
  split at h
  · rename_i hpos
    rw [if_pos hpos]
    exact addTimer_asks h
  · rename_i hpos
    obtain rfl := Option.some.inj h
    rw [if_neg hpos]
    exact .nil rfl rfl rfl

/-- A cancelling before `runAfter` does not change the time that `runAfter` reads. -/
theorem afterOps_loop {l : TimerLoop} (hclock : l.clock = s.loop.clock) :
    ({ s with loop := l } : TimedConnection).afterOps a d = s.afterOps a d := by
  simp only [afterOps, hclock]

theorem setConnectionTimeoutInLoop_asks (h : s.setConnectionTimeoutInLoop a d = some s') :
    Asks (s.functorOps a (.setConnectionTimeoutInLoop d)) s s' := by
  obtain ⟨t, hcancel, h⟩ := Option.bind_eq_some_iff.mp h
  obtain ⟨l, rfl, hclock, hasks⟩ := cancel_eq hcancel
  refine hasks.append ?_
  split at h
  · rename_i hpos
    rw [if_pos hpos, ← afterOps_loop hclock]
    exact runAfter_asks h
  · rename_i hpos
    obtain rfl := Option.some.inj h
    rw [if_neg hpos]
    exact .nil rfl rfl rfl

theorem resetIdleTimerInLoop_asks (h : s.resetIdleTimerInLoop a = some s') :
    Asks (s.functorOps a .resetIdleTimerInLoop) s s' := by
  obtain ⟨t, hcancel, h⟩ := Option.bind_eq_some_iff.mp h
  obtain ⟨l, rfl, hclock, hasks⟩ := cancel_eq hcancel
  refine hasks.append ?_
  rw [← afterOps_loop hclock]
  exact runAfter_asks h

theorem setupKeepAliveTimer_asks (h : s.setupKeepAliveTimer a = some s') :
    Asks (s.functorOps a .setupKeepAliveTimer) s s' := by
  unfold setupKeepAliveTimer at h
  simp only [functorOps]
  split at h
  · rename_i hen
    rw [if_pos hen]
    exact runEvery_asks h
  · rename_i hen
    obtain rfl := Option.some.inj h
    rw [if_neg hen]
    exact .nil rfl rfl rfl

theorem cancelAndForget_asks (h : s.cancelAndForget kind = some s') :
    Asks (s.cancelOps kind) s s' := by
  unfold cancelAndForget at h
  split at h
  · obtain ⟨t, hcancel, rfl⟩ := Option.map_eq_some_iff.mp h
    obtain ⟨l, -, -, hasks⟩ := cancel_eq hcancel
    exact ⟨hasks.queue, hasks.state, hasks.reading⟩
  · rename_i hno
    obtain rfl := Option.some.inj h
    rw [cancelOps, if_neg hno]
    exact .nil rfl rfl rfl

theorem handleClose_asks (h : s.handleClose = some s') :
    Asks s.closeOps (s.closedIf true) s' := by
  obtain ⟨t₂, h, hkeep⟩ := Option.bind_eq_some_iff.mp h
  obtain ⟨t₁, hconn, hidle⟩ := Option.bind_eq_some_iff.mp h
  obtain ⟨l₁, rfl, -, h₁⟩ := cancel_eq hconn
  obtain ⟨l₂, rfl, -, h₂⟩ := cancel_eq hidle
  obtain ⟨l₃, rfl, -, h₃⟩ := cancel_eq hkeep
  exact (h₁.append h₂).append h₃

theorem closedIf_loop (s : TimedConnection) (called : Bool) :
    (s.closedIf called).loop = s.loop := by
  cases called <;> rfl

theorem closedIf_reading (s : TimedConnection) (called : Bool) :
    (s.closedIf called).reading = s.reading := by
  cases called <;> rfl

theorem closedIf_state (s : TimedConnection) (called : Bool) :
    (s.closedIf called).state = if called then .kDisconnected else s.state := by
  cases called <;> rfl

theorem forceClose_asks (h : s.forceClose = some s') :
    Asks s.forceCloseOps (s.closedIf s.isOpen) s' := by
  unfold forceClose at h
  split at h
  · rename_i hopen
    have hopen : s.isOpen = true := decide_eq_true hopen
    rw [forceCloseOps, if_pos hopen, hopen]
    exact handleClose_asks h
  · rename_i hclosed
    have hclosed : s.isOpen = false := decide_eq_false hclosed
    obtain rfl := Option.some.inj h
    rw [forceCloseOps, hclosed]
    exact .nil rfl rfl rfl

theorem onTimeout_asks (h : s.onTimeout kind = some s') :
    Asks (s.timeoutOps kind) (s.closedIf (kind.closes && s.isOpen)) s' := by
  cases kind with
  | connectionTimeout | idle => exact forceClose_asks h
  | keepAlive =>
    simp only [onTimeout] at h
    simp only [timeoutOps]
    split at h
    · rename_i hdown
      obtain ⟨l, rfl, -, hasks⟩ := cancel_eq h
      rw [if_pos hdown]
      exact hasks
    · rename_i hup
      obtain rfl := Option.some.inj h
      rw [if_neg hup]
      exact .nil rfl rfl rfl

theorem fire_asks {id : TimerId} (h : s.fire id = some s') :
    Asks (s.fireOps id) (s.closedIf (s.closesOn id)) s' := by
  unfold fire at h
  unfold fireOps closesOn
  split at h
  · rename_i hb
    obtain rfl := Option.some.inj h
    simp only [hb]
    exact .nil rfl rfl rfl
  · rename_i k hb
    simp only [hb]
    have hasks := onTimeout_asks h
    refine ⟨?_, ?_, ?_⟩
    · rw [closedIf_loop]
      have hqueue := hasks.queue
      rw [closedIf_loop] at hqueue
      exact hqueue
    · rw [hasks.state, closedIf_state, closedIf_state]
      rfl
    · rw [hasks.reading, closedIf_reading, closedIf_reading]

/-! ## The steps -/

/-- What the queue does in a step, and the connection after it. -/
structure Performs (s : TimedConnection) (op : TimedOp) (s' : TimedConnection) : Prop where
  queue : Machine.run TimerLoop.step s.loop (s.queueOps op) = some s'.loop
  state : s'.state = s.stateAfter op
  reading : s'.reading = s.readingAfter op

/-- A step that does not close the connection and is no call that changes the state. -/
theorem Performs.of_asks (h : Asks (s.queueOps op) t s') (hl : t.loop = s.loop)
    (hstate : t.state = s.stateAfter op) (hreading : t.reading = s.readingAfter op) :
    Performs s op s' :=
  ⟨hl ▸ h.queue, h.state.trans hstate, h.reading.trans hreading⟩

/-- A step that calls `handleClose` or not. -/
theorem Performs.of_closing {called : Bool} (h : Asks (s.queueOps op) (t.closedIf called) s')
    (hcloses : s.closes op = called) (hl : t.loop = s.loop)
    (hstate : called = false → t.state = s.stateAfter op)
    (hreading : t.reading = s.readingAfter op) : Performs s op s' := by
  refine .of_asks h ((closedIf_loop t called).trans hl) ?_
    ((closedIf_reading t called).trans hreading)
  rw [closedIf_state]
  cases called with
  | false => exact hstate rfl
  | true =>
    rw [stateAfter, if_pos hcloses]
    rfl

theorem timerStep_performs {op : TimerOp} (h : s.timerStep op = some s') :
    Performs s (.timer op) s' := by
  have hqueue : ∀ {o : TimerOp}, s.closes (.timer op) = false → s.queueOps (.timer op) = [o] →
      (s.loop.step o).map (fun l => { s with loop := l }) = some s' →
        Performs s (.timer op) s' := by
    intro o hcloses hops h
    obtain ⟨l, hl, rfl⟩ := Option.map_eq_some_iff.mp h
    refine ⟨?_, ?_, rfl⟩
    · rw [hops]
      exact Machine.run_singleton_eq_some.mpr hl
    · rw [stateAfter, hcloses]
      rfl
  cases op with
  | cancelInLoop id =>
    obtain ⟨-, h⟩ := Option.ite_none_right_eq_some.mp h
    exact hqueue rfl rfl h
  | handleRead =>
    obtain ⟨-, h⟩ := Option.ite_none_right_eq_some.mp h
    exact hqueue rfl rfl h
  | runNext =>
    obtain ⟨id, l, -, hnext, hl, h⟩ := timerStep_runNext h
    have hasks := fire_asks h
    have hcloses : s.closes (.timer .runNext) = s.closesOn id := by simp [closes, hnext]
    refine ⟨?_, ?_, ?_⟩
    · simp only [queueOps, hnext]
      refine Machine.run_cons_eq_some.mpr ⟨l, hl, ?_⟩
      have hqueue := hasks.queue
      rw [closedIf_loop] at hqueue
      exact hqueue
    · rw [hasks.state, closedIf_state, stateAfter, hcloses]
      rfl
    · rw [hasks.reading, closedIf_reading]
      rfl
  | advance | newTimer | addTimerInLoop | throws | handleReadEnd => exact hqueue rfl rfl h

theorem functor_performs (h : s.step (.functor a) = some s') : Performs s (.functor a) s' := by
  obtain ⟨n, f, rest, -, hf, h⟩ := step_functor h
  have hops : s.queueOps (.functor a) = s.functorOps a f := by simp [queueOps, hf]
  have hcloses : ∀ called, s.closes (.functor a) = called → s.stateAfter (.functor a) =
      if called then .kDisconnected else s.state := by
    rintro called rfl
    rfl
  cases f with
  | setConnectionTimeoutInLoop d =>
    refine .of_asks (t := { s with phase := .functors n, functors := rest }) ?_ rfl
      (hcloses false (by simp [closes, hf])).symm rfl
    rw [hops]
    exact setConnectionTimeoutInLoop_asks h
  | resetIdleTimerInLoop =>
    refine .of_asks (t := { s with phase := .functors n, functors := rest }) ?_ rfl
      (hcloses false (by simp [closes, hf])).symm rfl
    rw [hops]
    exact resetIdleTimerInLoop_asks h
  | setupKeepAliveTimer =>
    refine .of_asks (t := { s with phase := .functors n, functors := rest }) ?_ rfl
      (hcloses false (by simp [closes, hf])).symm rfl
    rw [hops]
    exact setupKeepAliveTimer_asks h
  | cancelInLoop id =>
    simp only [runFunctor] at h
    obtain ⟨l, hl, rfl⟩ := Option.map_eq_some_iff.mp h
    refine ⟨?_, (hcloses false (by simp [closes, hf])).symm, rfl⟩
    rw [hops]
    exact Machine.run_singleton_eq_some.mpr hl
  | forceCloseInLoop =>
    have hclosing : s.closes (.functor a) = s.isOpen := by simp [closes, hf]
    refine .of_closing (t := { s with phase := .functors n, functors := rest }) ?_ hclosing rfl
      (fun hopen => ?_) rfl
    · rw [hops]
      exact forceClose_asks h
    · rw [hcloses _ hclosing]
      simp only [show s.isOpen = false from hopen]
      rfl

/-- **The operations of the queue in every step are `queueOps`**, and the state after it is
`stateAfter`. -/
theorem step_performs (h : s.step op = some s') : Performs s op s' := by
  cases op with
  | timer op => exact timerStep_performs h
  | functor a => exact functor_performs h
  | poll | dispatch | doPendingFunctors | connectEstablished | message =>
    obtain ⟨-, ⟨⟩⟩ := Option.ite_none_right_eq_some.mp h
    exact ⟨rfl, rfl, rfl⟩
  | messageEnd a =>
    obtain ⟨-, h⟩ := Option.ite_none_right_eq_some.mp h
    split at h
    · rename_i hpos
      refine .of_asks (t := { s with reading := false }) ?_ rfl rfl rfl
      rw [queueOps, if_pos hpos]
      exact resetIdleTimerInLoop_asks h
    · rename_i hpos
      obtain rfl := Option.some.inj h
      refine ⟨?_, rfl, rfl⟩
      rw [queueOps, if_neg hpos]
      rfl
  | handleClose =>
    obtain ⟨-, h⟩ := Option.ite_none_right_eq_some.mp h
    exact .of_closing (handleClose_asks h) rfl rfl (by simp) rfl
  | setConnectionTimeout d a =>
    obtain ⟨-, h⟩ := Option.ite_none_right_eq_some.mp h
    exact .of_asks (setConnectionTimeoutInLoop_asks h) rfl rfl rfl
  | setIdleTimeout d a =>
    obtain ⟨-, h⟩ := Option.ite_none_right_eq_some.mp h
    refine .of_asks (t := { s with idleTimeout := d }) ?_ rfl rfl rfl
    simp only [setIdleTimeout] at h
    simp only [queueOps]
    split at h
    · rename_i hpos
      rw [if_pos hpos]
      exact resetIdleTimerInLoop_asks h
    · rename_i hpos
      rw [if_neg hpos, List.append_nil]
      exact cancelAndForget_asks h
  | enableKeepAlive enable d a =>
    obtain ⟨-, h⟩ := Option.ite_none_right_eq_some.mp h
    refine .of_asks (t := { s with keepAliveEnabled := enable, keepAliveInterval := d }) ?_ rfl rfl
      rfl
    simp only [enableKeepAlive] at h
    simp only [queueOps]
    split at h
    · rename_i hen
      have hasks := setupKeepAliveTimer_asks h
      rw [functorOps, if_pos hen] at hasks
      rw [if_pos hen]
      exact hasks
    · rename_i hen
      rw [if_neg hen]
      exact cancelAndForget_asks h
  | forceClose =>
    obtain ⟨-, h⟩ := Option.ite_none_right_eq_some.mp h
    refine .of_closing (forceClose_asks h) rfl rfl (fun hopen => ?_) rfl
    simp [stateAfter, closes, openStateAfter, hopen]
  | shutdown | connectDestroyed =>
    obtain ⟨-, ⟨⟩⟩ := Option.ite_none_right_eq_some.mp h
    simp only [shutdown, connectDestroyed]
    refine ⟨?_, ?_, ?_⟩
    · split <;> rfl
    · simp only [stateAfter, closes, openStateAfter]
      split <;> simp_all
    · split <;> rfl
  | postShutdown =>
    obtain rfl := Option.some.inj h
    simp only [shutdown]
    refine ⟨?_, ?_, ?_⟩
    · split <;> rfl
    · simp only [stateAfter, closes, openStateAfter]
      split <;> simp_all
    · split <;> rfl
  | postSetConnectionTimeout d =>
    obtain rfl := Option.some.inj h
    exact ⟨rfl, rfl, rfl⟩
  | postSetIdleTimeout d =>
    obtain rfl := Option.some.inj h
    simp only [postSetIdleTimeout]
    split
    · exact ⟨rfl, rfl, rfl⟩
    · obtain ⟨ids, heq⟩ := postCancelAndForget_eq { s with idleTimeout := d } .idle
      rw [heq]
      exact ⟨rfl, rfl, rfl⟩
  | postEnableKeepAlive enable d =>
    obtain rfl := Option.some.inj h
    simp only [postEnableKeepAlive]
    split
    · exact ⟨rfl, rfl, rfl⟩
    · obtain ⟨ids, heq⟩ := postCancelAndForget_eq
        { s with keepAliveEnabled := enable, keepAliveInterval := d } .keepAlive
      rw [heq]
      exact ⟨rfl, rfl, rfl⟩
  | postForceClose =>
    obtain rfl := Option.some.inj h
    simp only [postForceClose]
    split
    · rename_i hopen
      refine ⟨rfl, ?_, rfl⟩
      simp [stateAfter, closes, openStateAfter, isOpen, hopen, post]
    · rename_i hopen
      refine ⟨rfl, ?_, rfl⟩
      simp [stateAfter, closes, openStateAfter, isOpen, hopen]

/-! ## The members of the list -/

theorem mem_cancelOps {o : TimerOp} (h : o ∈ s.cancelOps kind) :
    (s.timerId kind).isValid = true ∧ o = .cancelInLoop (s.timerId kind) := by
  unfold cancelOps at h
  split at h
  · rename_i hvalid
    exact ⟨hvalid, List.mem_singleton.mp h⟩
  · cases h

/-- The operations are a part of `addTimer`, or there are none. -/
def Adds (ops : List TimerOp) : Prop :=
  ∀ o ∈ ops, (∃ a when interval, o = .newTimer a when interval) ∨ ∃ a, o = .addTimerInLoop a

theorem addOps_adds (a : Addr) (when : Int) (interval : Seconds) :
    Adds (addOps a when interval) := by
  intro o ho
  rcases List.mem_cons.mp ho with rfl | ho
  · exact Or.inl ⟨a, when, interval, rfl⟩
  · exact Or.inr ⟨a, List.mem_singleton.mp ho⟩

theorem nil_adds : Adds [] := fun _ ho => absurd ho List.not_mem_nil

theorem afterOps_adds (s : TimedConnection) (a : Addr) (d : Delay) : Adds (s.afterOps a d) := by
  unfold afterOps
  split
  · exact nil_adds
  · split
    · exact addOps_adds _ _ _
    · exact nil_adds

theorem everyOps_adds (s : TimedConnection) (a : Addr) (d : Delay) : Adds (s.everyOps a d) := by
  unfold everyOps
  split
  · exact addOps_adds _ _ _
  · exact nil_adds

/-- The step calls `resetIdleTimerInLoop`, or switches the idle timeout off. -/
def resetsIdle (s : TimedConnection) : TimedOp → Bool
  | .messageEnd _ => s.idleTimeout.positive
  | .setIdleTimeout _ _ => true
  | .functor _ => s.functors.head?.elim false TimedFunctor.isResetIdle
  | _ => false

/-- What the code of the connection asks of the queue in a step, with the reasons to cancel a
timer. -/
inductive Asked (s : TimedConnection) (op : TimedOp) : TimerOp → Prop
  /-- A functor that another thread has posted. -/
  | posted {id : TimerId} : .cancelInLoop id ∈ s.functors → Asked s op (.cancelInLoop id)
  /-- The timer that a member names. -/
  | named {k : TimerKind} : (s.timerId k).isValid = true →
      (k = .idle → s.closes op = true ∨ s.resetsIdle op = true) →
      Asked s op (.cancelInLoop (s.timerId k))
  | makes {a : Addr} {when : Int} {interval : Seconds} : Asked s op (.newTimer a when interval)
  | adds {a : Addr} : Asked s op (.addTimerInLoop a)

theorem Adds.asked {o : TimerOp} (h : Adds ops) (ho : o ∈ ops) : Asked s op o := by
  obtain ⟨a, when, interval, rfl⟩ | ⟨a, rfl⟩ := h o ho
  · exact .makes
  · exact .adds

theorem asked_cancelOps {o : TimerOp} (ho : o ∈ s.cancelOps kind)
    (hidle : kind = .idle → s.closes op = true ∨ s.resetsIdle op = true) : Asked s op o := by
  obtain ⟨hvalid, rfl⟩ := mem_cancelOps ho
  exact .named hvalid hidle

theorem asked_closeOps {o : TimerOp} (ho : o ∈ s.closeOps) (hclose : s.closes op = true) :
    Asked s op o := by
  rw [closeOps, List.mem_append, List.mem_append] at ho
  obtain (ho | ho) | ho := ho <;> exact asked_cancelOps ho fun _ => Or.inl hclose

theorem asked_forceCloseOps {o : TimerOp} (ho : o ∈ s.forceCloseOps)
    (hclose : s.isOpen = true → s.closes op = true) : Asked s op o := by
  unfold forceCloseOps at ho
  split at ho
  · rename_i hopen
    exact asked_closeOps ho (hclose hopen)
  · cases ho

theorem asked_functorOps {o : TimerOp} {f : TimedFunctor} (ho : o ∈ s.functorOps a f)
    (hreset : f.isResetIdle = true → s.resetsIdle op = true)
    (hposted : ∀ id, f = .cancelInLoop id → f ∈ s.functors)
    (hclose : f = .forceCloseInLoop → s.isOpen = true → s.closes op = true) : Asked s op o := by
  cases f with
  | setConnectionTimeoutInLoop d =>
    rcases List.mem_append.mp ho with ho | ho
    · exact asked_cancelOps ho (by simp)
    · split at ho
      · exact (afterOps_adds s a d).asked ho
      · cases ho
  | resetIdleTimerInLoop =>
    rcases List.mem_append.mp ho with ho | ho
    · exact asked_cancelOps ho fun _ => Or.inr (hreset rfl)
    · exact (afterOps_adds s a _).asked ho
  | setupKeepAliveTimer =>
    simp only [functorOps] at ho
    split at ho
    · exact (everyOps_adds s a _).asked ho
    · cases ho
  | cancelInLoop id =>
    obtain rfl := List.mem_singleton.mp ho
    exact .posted (hposted id rfl)
  | forceCloseInLoop => exact asked_forceCloseOps ho (hclose rfl)

theorem asked_fireOps {o : TimerOp} {id : TimerId} (hnext : s.loop.next = some id)
    (ho : o ∈ s.fireOps id) : Asked s (.timer .runNext) o := by
  have hcloses : s.closes (.timer .runNext) = s.closesOn id := by simp [closes, hnext]
  unfold fireOps at ho
  cases hb : s.bound id with
  | none =>
    rw [hb] at ho
    cases ho
  | some k =>
    rw [hb] at ho
    have hforce : k.closes = true → s.isOpen = true → s.closes (.timer .runNext) = true := by
      intro hk hopen
      simp [hcloses, closesOn, hb, hk, hopen]
    cases k with
    | connectionTimeout | idle => exact asked_forceCloseOps ho (hforce rfl)
    | keepAlive =>
      simp only [Option.elim, timeoutOps] at ho
      split at ho
      · exact asked_cancelOps ho (by simp)
      · cases ho

/-- **A step is itself an operation of the queue, or the connection asks for it.** -/
theorem asked_of_mem {o : TimerOp} (ho : o ∈ s.queueOps op) : op = .timer o ∨ Asked s op o := by
  cases op with
  | timer op' =>
    cases op' with
    | runNext =>
      rcases List.mem_cons.mp ho with rfl | ho
      · exact Or.inl rfl
      · cases hnext : s.loop.next with
        | none =>
          rw [hnext] at ho
          cases ho
        | some id =>
          rw [hnext] at ho
          exact Or.inr (asked_fireOps hnext ho)
    | _ =>
      obtain rfl := List.mem_singleton.mp ho
      exact Or.inl rfl
  | messageEnd a =>
    simp only [queueOps] at ho
    split at ho
    · rename_i hpos
      exact Or.inr (asked_functorOps ho (fun _ => hpos) (by simp) (by simp))
    · cases ho
  | handleClose => exact Or.inr (asked_closeOps ho rfl)
  | functor a =>
    simp only [queueOps] at ho
    cases hf : s.functors with
    | nil =>
      rw [hf] at ho
      cases ho
    | cons f rest =>
      rw [hf] at ho
      refine Or.inr (asked_functorOps ho (fun hreset => ?_) (fun id _ => ?_) ?_)
      · simpa [resetsIdle, hf] using hreset
      · exact hf ▸ List.mem_cons_self
      · rintro rfl hopen
        simpa [closes, hf] using hopen
  | setConnectionTimeout d a =>
    refine Or.inr (asked_functorOps (f := .setConnectionTimeoutInLoop d) ho ?_ (by simp) (by simp))
    simp [TimedFunctor.isResetIdle]
  | setIdleTimeout d a =>
    refine Or.inr ?_
    rcases List.mem_append.mp ho with ho | ho
    · exact asked_cancelOps ho fun _ => Or.inr rfl
    · split at ho
      · exact (afterOps_adds s a d).asked ho
      · cases ho
  | enableKeepAlive enable d a =>
    refine Or.inr ?_
    simp only [queueOps] at ho
    split at ho
    · exact (everyOps_adds s a d).asked ho
    · exact asked_cancelOps ho (by simp)
  | forceClose => exact Or.inr (asked_forceCloseOps ho id)
  | _ => cases ho

/-- Another thread cancels a timer that a member names, and an idle timer only when it
switches the idle timeout off. -/
theorem posts_cancel {id : TimerId} (h : .cancelInLoop id ∈ s.posts op) :
    ∃ k, (s.timerId k).isValid = true ∧ id = s.timerId k ∧
      (k = .idle → op.setsIdleTimeout.isSome = true) := by
  have hmem : ∀ {kind}, TimedFunctor.cancelInLoop id ∈ s.postsCancel kind →
      (s.timerId kind).isValid = true ∧ id = s.timerId kind := by
    intro kind hf
    obtain ⟨hvalid, heq⟩ := mem_postsCancel hf
    exact ⟨hvalid, by simpa using heq⟩
  cases op with
  | postSetIdleTimeout d =>
    simp only [posts] at h
    split at h
    · simp at h
    · exact ⟨.idle, (hmem h).1, (hmem h).2, fun _ => rfl⟩
  | postEnableKeepAlive enable d =>
    simp only [posts] at h
    split at h
    · simp at h
    · exact ⟨.keepAlive, (hmem h).1, (hmem h).2, by simp⟩
  | postForceClose =>
    simp only [posts] at h
    split at h
    · simp at h
    · cases h
  | postSetConnectionTimeout d => simp [posts] at h
  | _ => cases h

end TimedConnection
end ReMuduo
