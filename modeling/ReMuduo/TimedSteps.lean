import ReMuduo.TimerOwnership

/-! # The steps of a connection and its timers

What each step does, in two ways.  `step_changes` says that it is a sequence of small
changes, which make timers only of the kind that `arms` names; with `Changes.keep` this
gives every property of single timers that the small changes keep.  `step_frame` says what
happens to the rest of the connection: to its functors, to the settings, and whether
`handleClose` has run. -/
namespace ReMuduo
namespace TimedConnection

variable {s s' : TimedConnection} {op : TimedOp}

/-- The kind of timer that a step makes, if it makes one. -/
def arms (s : TimedConnection) : TimedOp → Option TimerKind
  | .messageEnd _ => if s.idleTimeout.positive then some .idle else none
  | .setConnectionTimeout d _ => if d.positive then some .connectionTimeout else none
  | .setIdleTimeout d _ => if d.positive then some .idle else none
  | .enableKeepAlive enable d _ => if enable && d.positive then some .keepAlive else none
  | .functor _ =>
    match s.functors with
    | .setConnectionTimeoutInLoop d :: _ => if d.positive then some .connectionTimeout else none
    | .resetIdleTimerInLoop :: _ => if s.idleTimeout.negative then none else some .idle
    | .setupKeepAliveTimer :: _ =>
      if s.keepAliveEnabled && s.keepAliveInterval.positive then some .keepAlive else none
    | _ => none
  | _ => none

/-- The step overwrites `keepAliveTimerId_` without cancelling first. -/
def setsUpKeepAlive (s : TimedConnection) : TimedOp → Bool
  | .enableKeepAlive enable _ _ => enable
  | .functor _ =>
    match s.functors with
    | .setupKeepAliveTimer :: _ => s.keepAliveEnabled
    | _ => false
  | _ => false

/-- `setupKeepAliveTimer` finds no keep-alive timer pending that it would lose. -/
def KeepAliveFree (s : TimedConnection) (op : TimedOp) : Prop :=
  s.setsUpKeepAlive op = true → s.loop.pending (s.timerId .keepAlive) = false

instance (s : TimedConnection) (op : TimedOp) : Decidable (s.KeepAliveFree op) :=
  inferInstanceAs (Decidable (_ → _))

/-- The scope of a step. -/
def scope (s : TimedConnection) (op : TimedOp) : Scope where
  arms kind := s.arms op = some kind
  forgets kind := kind = .keepAlive ∧ ¬ s.KeepAliveFree op
  outer := True

theorem forgets_or_released (h : s.setsUpKeepAlive op = true) (hid : s'.timerId = s.timerId)
    (hl : s'.loop = s.loop) : (s.scope op).forgets .keepAlive ∨ s'.Released .keepAlive := by
  by_cases hfree : s.KeepAliveFree op
  · refine Or.inr (released_of_not_pending fun _ => ?_)
    rw [hid, hl]
    exact hfree h
  · exact Or.inl ⟨rfl, hfree⟩

theorem timerStep_runNext (h : s.timerStep .runNext = some s') :
    ∃ id l, s.phase = .events ∧ s.loop.next = some id ∧ s.loop.step .runNext = some l ∧
      fire { s with loop := l } id = some s' := by
  simp only [timerStep] at h
  split at h
  · rename_i id hphase hnext
    obtain ⟨l, hl, h⟩ := Option.bind_eq_some_iff.mp h
    exact ⟨id, l, hphase, hnext, hl, h⟩
  · cases h

theorem timerStep_changes {op : TimerOp} (hs : s.Sound) (h : s.timerStep op = some s') :
    Changes (s.scope (.timer op)) s s' := by
  have hqueue : ∀ {op' : TimerOp},
      (s.loop.step op').map (fun l => { s with loop := l }) = some s' →
        Changes (s.scope (.timer op)) s s' := by
    intro op' h
    obtain ⟨l, hl, rfl⟩ := Option.map_eq_some_iff.mp h
    exact .single (.queue hl)
  cases op with
  | cancelInLoop id =>
    obtain ⟨-, h⟩ := Option.ite_none_right_eq_some.mp h
    exact hqueue h
  | handleRead =>
    obtain ⟨-, h⟩ := Option.ite_none_right_eq_some.mp h
    exact hqueue h
  | runNext =>
    obtain ⟨id, l, -, -, hl, h⟩ := timerStep_runNext h
    have hrun : Changes (s.scope (.timer .runNext)) s { s with loop := l } := .single (.queue hl)
    exact hrun.trans (fire_spec trivial (hrun.sound hs) h).1
  | advance | newTimer | addTimerInLoop | throws | handleReadEnd => exact hqueue h

theorem runFunctor_changes {a : Addr} {n : Nat} {f : TimedFunctor} {rest : List TimedFunctor}
    (hs : s.Sound) (hf : s.functors = f :: rest)
    (h : runFunctor { s with phase := .functors n, functors := rest } a f = some s') :
    Changes (s.scope (.functor a)) s s' := by
  have htake : (∀ id, f ≠ .cancelInLoop id) →
      Changes (s.scope (.functor a)) s { s with phase := .functors n, functors := rest } :=
    fun hne => .single (.take n trivial hf fun id hid => absurd hid (hne id))
  cases f with
  | setConnectionTimeoutInLoop d =>
    have ht := htake nofun
    refine ht.trans (setConnectionTimeoutInLoop_changes (ht.sound hs) (fun hpos => ?_) h)
    simp [scope, arms, hf, hpos]
  | resetIdleTimerInLoop =>
    have ht := htake nofun
    refine ht.trans (resetIdleTimerInLoop_changes (ht.sound hs) (fun hneg => ?_) h)
    simp [scope, arms, hf, show s.idleTimeout.negative = false from hneg]
  | setupKeepAliveTimer =>
    have ht := htake nofun
    refine ht.trans (setupKeepAliveTimer_changes (fun hen hpos => ?_) (fun hen => ?_) h)
    · simp [scope, arms, hf, show s.keepAliveEnabled = true from hen,
        show s.keepAliveInterval.positive = true from hpos]
    · refine forgets_or_released ?_ rfl rfl
      simp [setsUpKeepAlive, hf, show s.keepAliveEnabled = true from hen]
  | cancelInLoop id =>
    -- the queue is asked first, so that the functor is taken when the timer is cancelled
    simp only [runFunctor] at h
    obtain ⟨l, hl, rfl⟩ := Option.map_eq_some_iff.mp h
    refine .tail (.single (.queue hl)) (.take n trivial hf ?_)
    rintro i ⟨⟩
    exact TimerLoop.pending_cancelInLoop hs.reached hl
  | forceCloseInLoop =>
    have ht := htake nofun
    exact ht.trans (forceClose_spec trivial (ht.sound hs) h).1

theorem step_functor {a : Addr} (h : s.step (.functor a) = some s') :
    ∃ n f rest, s.phase = .functors (n + 1) ∧ s.functors = f :: rest ∧
      runFunctor { s with phase := .functors n, functors := rest } a f = some s' := by
  simp only [step] at h
  split at h
  · rename_i n f rest hphase hf
    exact ⟨n, f, rest, hphase, hf, h⟩
  · cases h

/-- A functor that cancels a timer does so. -/
theorem functor_cancels {a : Addr} {id : TimerId} {rest : List TimedFunctor} (hs : s.Sound)
    (hf : s.functors = .cancelInLoop id :: rest) (h : s.step (.functor a) = some s') :
    s'.loop.pending id = false := by
  obtain ⟨n, f, rest', -, hf', h⟩ := step_functor h
  obtain ⟨rfl, rfl⟩ := List.cons.inj (hf.symm.trans hf')
  simp only [runFunctor] at h
  obtain ⟨l, hl, rfl⟩ := Option.map_eq_some_iff.mp h
  exact TimerLoop.pending_cancelInLoop hs.reached hl

/-- **Every step is a sequence of small changes**, which make timers only of the kind that
`arms` tells and lose at most a keep-alive timer. -/
theorem step_changes (hs : s.Sound) (h : s.step op = some s') :
    Changes (s.scope op) s s' := by
  have hfields : ∀ {s' : TimedConnection}, Small (s.scope op) s s' → Changes (s.scope op) s s' :=
    fun h => .single h
  cases op with
  | timer op => exact timerStep_changes hs h
  | poll | dispatch | doPendingFunctors | connectEstablished | message =>
    obtain ⟨-, ⟨⟩⟩ := Option.ite_none_right_eq_some.mp h
    exact hfields (.fields _ _ _ _ _ _ _ _ trivial)
  | messageEnd a =>
    obtain ⟨-, h⟩ := Option.ite_none_right_eq_some.mp h
    have hend : Changes (s.scope (.messageEnd a)) s { s with reading := false } :=
      hfields (.fields _ _ _ _ _ _ _ _ trivial)
    split at h
    · rename_i hpos
      refine hend.trans (resetIdleTimerInLoop_changes (hend.sound hs) (fun _ => ?_) h)
      exact if_pos hpos
    · obtain rfl := Option.some.inj h
      exact hend
  | handleClose =>
    obtain ⟨-, h⟩ := Option.ite_none_right_eq_some.mp h
    exact (handleClose_spec trivial hs h).1
  | functor a =>
    obtain ⟨n, f, rest, -, hf, h⟩ := step_functor h
    exact runFunctor_changes hs hf h
  | setConnectionTimeout d a =>
    obtain ⟨-, h⟩ := Option.ite_none_right_eq_some.mp h
    exact setConnectionTimeoutInLoop_changes hs (fun hpos => if_pos hpos) h
  | setIdleTimeout d a =>
    obtain ⟨-, h⟩ := Option.ite_none_right_eq_some.mp h
    have hset : Changes (s.scope (.setIdleTimeout d a)) s { s with idleTimeout := d } :=
      hfields (.fields _ _ _ _ _ _ _ _ trivial)
    simp only [setIdleTimeout] at h
    split at h
    · rename_i hpos
      exact hset.trans (resetIdleTimerInLoop_changes (hset.sound hs) (fun _ => if_pos hpos) h)
    · exact hset.trans (cancelAndForget_changes _ (hset.sound hs) h)
  | enableKeepAlive enable d a =>
    obtain ⟨-, h⟩ := Option.ite_none_right_eq_some.mp h
    have hset : Changes (s.scope (.enableKeepAlive enable d a)) s
        { s with keepAliveEnabled := enable, keepAliveInterval := d } :=
      hfields (.fields _ _ _ _ _ _ _ _ trivial)
    simp only [enableKeepAlive] at h
    split at h
    · rename_i hen
      refine hset.trans (setupKeepAliveTimer_changes (fun _ hpos => ?_) (fun _ => ?_) h)
      · simp [scope, arms, hen, show d.positive = true from hpos]
      · exact forgets_or_released hen rfl rfl
    · exact hset.trans (cancelAndForget_changes _ (hset.sound hs) h)
  | forceClose =>
    obtain ⟨-, h⟩ := Option.ite_none_right_eq_some.mp h
    exact (forceClose_spec trivial hs h).1
  | shutdown | connectDestroyed =>
    obtain ⟨-, ⟨⟩⟩ := Option.ite_none_right_eq_some.mp h
    simp only [shutdown, connectDestroyed]
    split
    · exact hfields (.fields _ _ _ _ _ _ _ _ trivial)
    · exact .refl
  | postShutdown =>
    obtain rfl := Option.some.inj h
    simp only [shutdown]
    split
    · exact hfields (.fields _ _ _ _ _ _ _ _ trivial)
    · exact .refl
  | postSetConnectionTimeout d =>
    obtain rfl := Option.some.inj h
    exact hfields (.post _ trivial)
  | postSetIdleTimeout d =>
    obtain rfl := Option.some.inj h
    have hset : Changes (s.scope (.postSetIdleTimeout d)) s { s with idleTimeout := d } :=
      hfields (.fields _ _ _ _ _ _ _ _ trivial)
    simp only [postSetIdleTimeout]
    split
    · exact hset.tail (.post _ trivial)
    · exact hset.trans (postCancelAndForget_changes trivial _ _)
  | postEnableKeepAlive enable d =>
    obtain rfl := Option.some.inj h
    have hset : Changes (s.scope (.postEnableKeepAlive enable d)) s
        { s with keepAliveEnabled := enable, keepAliveInterval := d } :=
      hfields (.fields _ _ _ _ _ _ _ _ trivial)
    simp only [postEnableKeepAlive]
    split
    · exact hset.tail (.post _ trivial)
    · exact hset.trans (postCancelAndForget_changes trivial _ _)
  | postForceClose =>
    obtain rfl := Option.some.inj h
    simp only [postForceClose]
    split
    · exact (hfields (.fields _ .kDisconnecting _ _ _ _ _ _ trivial)).tail (.post _ trivial)
    · exact .refl

/-! ## The rest of the connection -/

/-- The functors that a step leaves. -/
def remaining (s : TimedConnection) : TimedOp → List TimedFunctor
  | .functor _ => s.functors.tail
  | _ => s.functors

/-- What `postCancelAndForget` posts. -/
def postsCancel (s : TimedConnection) (kind : TimerKind) : List TimedFunctor :=
  if (s.timerId kind).isValid then [.cancelInLoop (s.timerId kind)] else []

/-- The functors that a step posts. -/
def posts (s : TimedConnection) : TimedOp → List TimedFunctor
  | .postSetConnectionTimeout d => [.setConnectionTimeoutInLoop d]
  | .postSetIdleTimeout d => if d.positive then [.resetIdleTimerInLoop] else s.postsCancel .idle
  | .postEnableKeepAlive enable _ =>
    if enable then [.setupKeepAliveTimer] else s.postsCancel .keepAlive
  | .postForceClose => if s.isOpen then [.forceCloseInLoop] else []
  | _ => []

/-- The value of `idleTimeout_` after a step. -/
def idleTimeoutAfter (s : TimedConnection) : TimedOp → Delay
  | .setIdleTimeout d _ => d
  | .postSetIdleTimeout d => d
  | _ => s.idleTimeout

def phaseAfter (s : TimedConnection) : TimedOp → LoopPhase
  | .poll => .poll
  | .dispatch => .events
  | .doPendingFunctors => .functors s.functors.length
  | .functor _ =>
    match s.phase with
    | .functors (n + 1) => .functors n
    | phase => phase
  | _ => s.phase

/-- The step runs `handleClose`. -/
def closes (s : TimedConnection) : TimedOp → Bool
  | .handleClose => true
  | .forceClose => s.isOpen
  | .functor _ =>
    match s.functors with
    | .forceCloseInLoop :: _ => s.isOpen
    | _ => false
  | .timer .runNext => s.loop.next.elim false s.closesOn
  | _ => false

/-- The callbacks of the connection that the step calls. -/
def fires (s : TimedConnection) : TimedOp → List Firing
  | .timer .runNext => s.loop.next.elim [] s.firing
  | _ => []

/-- What a step does to everything but the timers, and what `handleClose` does to them. -/
structure Frame (s : TimedConnection) (op : TimedOp) (s' : TimedConnection) : Prop where
  functors : s'.functors = s.remaining op ++ s.posts op
  idleTimeout : s'.idleTimeout = s.idleTimeoutAfter op
  phase : s'.phase = s.phaseAfter op
  closed : s'.closed = (s.closed || s.closes op)
  firings : s'.firings = s.firings ++ s.fires op
  down : (s.closed = true → s.state = .kDisconnected) → s'.closed = true →
    s'.state = .kDisconnected
  cancels : s.closes op = true → ∀ k, (s.timerId k).isValid = true →
    s'.loop.pending (s.timerId k) = false

/-- The steps that do not run `handleClose` and call no callback. -/
theorem Frame.of_eq (hcloses : s.closes op = false) (hfires : s.fires op = [])
    (hf : s'.functors = s.remaining op ++ s.posts op)
    (hidle : s'.idleTimeout = s.idleTimeoutAfter op) (hphase : s'.phase = s.phaseAfter op)
    (hfirings : s'.firings = s.firings) (hclosed : s'.closed = s.closed)
    (hstate : s.state = .kDisconnected → s'.state = .kDisconnected) : Frame s op s' := by
  refine ⟨hf, hidle, hphase, by rw [hclosed, hcloses, Bool.or_false], ?_, fun hdown hcl => ?_,
    by simp [hcloses]⟩
  · rw [hfirings, hfires, List.append_nil]
  · exact hstate (hdown (hclosed.symm.trans hcl))

/-- The scope of what only concerns the timers. -/
def Scope.inner : Scope := ⟨fun _ => True, fun _ => True, False⟩

theorem Frame.of_inner {t : TimedConnection} (h : Frame s op t) (hcloses : s.closes op = false)
    (ht : Changes .inner t s') : Frame s op s' := by
  obtain ⟨l, ids, b, rfl⟩ := ht.frame id
  exact ⟨h.functors, h.idleTimeout, h.phase, h.closed, h.firings, h.down, by simp [hcloses]⟩

/-- The steps that may run `handleClose`: what they do before it leaves the members
alone. -/
theorem Frame.of_closing {t : TimedConnection} {called : Bool} (h : Closing called t s')
    (hcloses : s.closes op = called) (hf : t.functors = s.remaining op ++ s.posts op)
    (hphase : t.phase = s.phaseAfter op) (hfirings : t.firings = s.firings ++ s.fires op)
    (hidle : t.idleTimeout = s.idleTimeoutAfter op) (hsame : t.closed = s.closed)
    (hstate : t.state = s.state) (hids : t.timerId = s.timerId) : Frame s op s' := by
  obtain ⟨l, rfl, hcancel⟩ := h
  subst hcloses
  rw [hids] at hcancel
  cases hc : s.closes op with
  | false =>
    refine ⟨hf, hidle, hphase, by simp [closedIf, hsame, hc], hfirings, fun hdown hcl => ?_,
      by simp [hc]⟩
    exact hstate.trans (hdown (hsame.symm.trans hcl))
  | true =>
    exact ⟨hf, hidle, hphase, by simp [closedIf, hc], hfirings, fun _ _ => rfl, hcancel⟩

theorem mem_postsCancel {kind : TimerKind} {f : TimedFunctor} (hf : f ∈ s.postsCancel kind) :
    (s.timerId kind).isValid = true ∧ f = .cancelInLoop (s.timerId kind) := by
  unfold postsCancel at hf
  split at hf
  · rename_i hvalid
    exact ⟨hvalid, List.mem_singleton.mp hf⟩
  · cases hf

theorem remaining_subset (s : TimedConnection) (op : TimedOp) : s.remaining op ⊆ s.functors := by
  cases op with
  | functor a => exact (List.tail_sublist _).subset
  | _ => exact List.Subset.refl _

theorem postCancelAndForget_eq (s : TimedConnection) (kind : TimerKind) :
    ∃ ids, s.postCancelAndForget kind =
      { s with functors := s.functors ++ s.postsCancel kind, timerId := ids } := by
  unfold postCancelAndForget postsCancel
  split
  · exact ⟨_, rfl⟩
  · exact ⟨s.timerId, by rw [List.append_nil]⟩

theorem timerStep_frame {op : TimerOp} (hs : s.Sound) (h : s.timerStep op = some s') :
    Frame s (.timer op) s' := by
  have hqueue : ∀ {op' : TimerOp}, s.closes (.timer op) = false → s.fires (.timer op) = [] →
      (s.loop.step op').map (fun l => { s with loop := l }) = some s' →
        Frame s (.timer op) s' := by
    intro op' hcloses hfires h
    obtain ⟨l, -, rfl⟩ := Option.map_eq_some_iff.mp h
    exact .of_eq hcloses hfires (List.append_nil _).symm rfl rfl rfl rfl (fun h => h)
  cases op with
  | cancelInLoop id =>
    obtain ⟨-, h⟩ := Option.ite_none_right_eq_some.mp h
    exact hqueue rfl rfl h
  | handleRead =>
    obtain ⟨-, h⟩ := Option.ite_none_right_eq_some.mp h
    exact hqueue rfl rfl h
  | runNext =>
    obtain ⟨id, l, -, hnext, hl, h⟩ := timerStep_runNext h
    have hsmall : Small (s.scope (.timer .runNext)) s { s with loop := l } := .queue hl
    obtain ⟨-, hclosing⟩ := fire_spec (S := s.scope (.timer .runNext)) trivial
      (hsmall.sound hs) h
    refine .of_closing hclosing ?_ (List.append_nil _).symm rfl ?_ rfl rfl rfl rfl
    · simp only [closes, hnext]
      rfl
    · simp only [fires, hnext]
      rfl
  | advance | newTimer | addTimerInLoop | throws | handleReadEnd => exact hqueue rfl rfl h

theorem functor_frame {a : Addr} (hs : s.Sound) (h : s.step (.functor a) = some s') :
    Frame s (.functor a) s' := by
  obtain ⟨n, f, rest, hphase, hf, h⟩ := step_functor h
  have hs' : ({ s with phase := .functors n, functors := rest } : TimedConnection).Sound :=
    ⟨hs.reached, hs.known, hs.field⟩
  have hrem : rest = s.remaining (.functor a) ++ s.posts (.functor a) := by
    simp [remaining, posts, hf]
  have hafter : .functors n = s.phaseAfter (.functor a) := by simp [phaseAfter, hphase]
  have htake : s.closes (.functor a) = false →
      Frame s (.functor a) { s with phase := .functors n, functors := rest } :=
    fun hcloses => .of_eq hcloses rfl hrem rfl hafter rfl rfl (fun h => h)
  cases f with
  | setConnectionTimeoutInLoop d =>
    have hcloses : s.closes (.functor a) = false := by simp [closes, hf]
    exact (htake hcloses).of_inner hcloses
      (setConnectionTimeoutInLoop_changes hs' (fun _ => trivial) h)
  | resetIdleTimerInLoop =>
    have hcloses : s.closes (.functor a) = false := by simp [closes, hf]
    exact (htake hcloses).of_inner hcloses
      (resetIdleTimerInLoop_changes hs' (fun _ => trivial) h)
  | setupKeepAliveTimer =>
    have hcloses : s.closes (.functor a) = false := by simp [closes, hf]
    exact (htake hcloses).of_inner hcloses
      (setupKeepAliveTimer_changes (fun _ _ => trivial) (fun _ => Or.inl trivial) h)
  | cancelInLoop id =>
    have hcloses : s.closes (.functor a) = false := by simp [closes, hf]
    simp only [runFunctor] at h
    obtain ⟨l, hl, rfl⟩ := Option.map_eq_some_iff.mp h
    exact (htake hcloses).of_inner hcloses (.single (.queue hl))
  | forceCloseInLoop =>
    obtain ⟨-, hclosing⟩ := forceClose_spec (S := s.scope (.functor a)) trivial hs' h
    refine .of_closing hclosing ?_ hrem hafter (List.append_nil _).symm rfl rfl rfl rfl
    simp only [closes, hf]
    rfl

/-- **What a step does to everything but the timers.** -/
theorem step_frame (hs : s.Sound) (h : s.step op = some s') : Frame s op s' := by
  cases op with
  | timer op => exact timerStep_frame hs h
  | functor a => exact functor_frame hs h
  | poll | dispatch | doPendingFunctors | message =>
    obtain ⟨-, ⟨⟩⟩ := Option.ite_none_right_eq_some.mp h
    exact .of_eq rfl rfl (List.append_nil _).symm rfl rfl rfl rfl (fun h => h)
  | connectEstablished =>
    obtain ⟨⟨-, hstate⟩, ⟨⟩⟩ := Option.ite_none_right_eq_some.mp h
    exact .of_eq rfl rfl (List.append_nil _).symm rfl rfl rfl rfl (by simp [hstate])
  | messageEnd a =>
    obtain ⟨-, h⟩ := Option.ite_none_right_eq_some.mp h
    have hend : Frame s (.messageEnd a) { s with reading := false } :=
      .of_eq rfl rfl (List.append_nil _).symm rfl rfl rfl rfl (fun h => h)
    split at h
    · exact hend.of_inner rfl
        (resetIdleTimerInLoop_changes ⟨hs.reached, hs.known, hs.field⟩ (fun _ => trivial) h)
    · obtain rfl := Option.some.inj h
      exact hend
  | handleClose =>
    obtain ⟨-, h⟩ := Option.ite_none_right_eq_some.mp h
    obtain ⟨-, l, heq, hno⟩ := handleClose_spec (S := s.scope .handleClose) trivial hs h
    exact .of_closing ⟨l, heq, fun _ => hno⟩ rfl (List.append_nil _).symm rfl
      (List.append_nil _).symm rfl rfl rfl rfl
  | setConnectionTimeout d a =>
    obtain ⟨-, h⟩ := Option.ite_none_right_eq_some.mp h
    have hsame : Frame s (.setConnectionTimeout d a) s :=
      .of_eq rfl rfl (List.append_nil _).symm rfl rfl rfl rfl (fun h => h)
    exact hsame.of_inner rfl (setConnectionTimeoutInLoop_changes hs (fun _ => trivial) h)
  | setIdleTimeout d a =>
    obtain ⟨-, h⟩ := Option.ite_none_right_eq_some.mp h
    have hset : Frame s (.setIdleTimeout d a) { s with idleTimeout := d } :=
      .of_eq rfl rfl (List.append_nil _).symm rfl rfl rfl rfl (fun h => h)
    have hs' : ({ s with idleTimeout := d } : TimedConnection).Sound :=
      ⟨hs.reached, hs.known, hs.field⟩
    simp only [setIdleTimeout] at h
    split at h
    · exact hset.of_inner rfl (resetIdleTimerInLoop_changes hs' (fun _ => trivial) h)
    · exact hset.of_inner rfl (cancelAndForget_changes _ hs' h)
  | enableKeepAlive enable d a =>
    obtain ⟨-, h⟩ := Option.ite_none_right_eq_some.mp h
    have hset : Frame s (.enableKeepAlive enable d a)
        { s with keepAliveEnabled := enable, keepAliveInterval := d } :=
      .of_eq rfl rfl (List.append_nil _).symm rfl rfl rfl rfl (fun h => h)
    have hs' : ({ s with keepAliveEnabled := enable, keepAliveInterval := d } :
        TimedConnection).Sound := ⟨hs.reached, hs.known, hs.field⟩
    simp only [enableKeepAlive] at h
    split at h
    · exact hset.of_inner rfl
        (setupKeepAliveTimer_changes (fun _ _ => trivial) (fun _ => Or.inl trivial) h)
    · exact hset.of_inner rfl (cancelAndForget_changes _ hs' h)
  | forceClose =>
    obtain ⟨-, h⟩ := Option.ite_none_right_eq_some.mp h
    obtain ⟨-, hclosing⟩ := forceClose_spec (S := s.scope .forceClose) trivial hs h
    exact .of_closing hclosing rfl (List.append_nil _).symm rfl (List.append_nil _).symm rfl rfl
      rfl rfl
  | shutdown | connectDestroyed =>
    obtain ⟨-, ⟨⟩⟩ := Option.ite_none_right_eq_some.mp h
    simp only [shutdown, connectDestroyed]
    split
    · exact .of_eq rfl rfl (List.append_nil _).symm rfl rfl rfl rfl (by simp_all)
    · exact .of_eq rfl rfl (List.append_nil _).symm rfl rfl rfl rfl (fun h => h)
  | postShutdown =>
    obtain rfl := Option.some.inj h
    simp only [shutdown]
    split
    · exact .of_eq rfl rfl (List.append_nil _).symm rfl rfl rfl rfl (by simp_all)
    · exact .of_eq rfl rfl (List.append_nil _).symm rfl rfl rfl rfl (fun h => h)
  | postSetConnectionTimeout d =>
    obtain rfl := Option.some.inj h
    exact .of_eq rfl rfl rfl rfl rfl rfl rfl (fun h => h)
  | postSetIdleTimeout d =>
    obtain rfl := Option.some.inj h
    simp only [postSetIdleTimeout]
    split
    · rename_i hpos
      exact .of_eq rfl rfl (by simp [remaining, posts, post, hpos]) rfl rfl rfl rfl (fun h => h)
    · rename_i hpos
      obtain ⟨ids, heq⟩ := postCancelAndForget_eq { s with idleTimeout := d } .idle
      rw [heq]
      refine .of_eq rfl rfl ?_ rfl rfl rfl rfl (fun h => h)
      simp only [remaining, posts, if_neg hpos]
      rfl
  | postEnableKeepAlive enable d =>
    obtain rfl := Option.some.inj h
    simp only [postEnableKeepAlive]
    split
    · rename_i hen
      exact .of_eq rfl rfl (by simp [remaining, posts, post, hen]) rfl rfl rfl rfl (fun h => h)
    · rename_i hen
      obtain ⟨ids, heq⟩ := postCancelAndForget_eq
        { s with keepAliveEnabled := enable, keepAliveInterval := d } .keepAlive
      rw [heq]
      refine .of_eq rfl rfl ?_ rfl rfl rfl rfl (fun h => h)
      simp only [remaining, posts, if_neg hen]
      rfl
  | postForceClose =>
    obtain rfl := Option.some.inj h
    simp only [postForceClose]
    split
    · rename_i hopen
      refine .of_eq rfl rfl (by simp [remaining, posts, post, isOpen, hopen]) rfl rfl rfl rfl ?_
      intro hdown
      simp [hdown] at hopen
    · rename_i hopen
      exact .of_eq rfl rfl (by simp [remaining, posts, isOpen, hopen]) rfl rfl rfl rfl
        (fun h => h)

end TimedConnection
end ReMuduo
