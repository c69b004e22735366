import Mathlib.Logic.Relation
import ReMuduo.ConnectionTimers

/-! # What a connection knows of its timers

A timer of a connection that is pending should be named by a member of the connection, or
else nobody can cancel it.  `NamedFor kind` says this of one kind of timers; a timer that
another thread has cancelled is named by the functor that thread has posted.

Every step of the connection is a sequence of small changes (`Small`): the queue moves, a
member gets a new timer or is cleared, a functor is posted or taken.  Each of them keeps
`NamedFor`, provided a member is overwritten only when the timer it names is not pending
any more.  The setters of the connection timeout and of the idle timer cancel first, so
they need no condition; `setupKeepAliveTimer` does not, and the condition for it is
`KeepAliveFree`. -/
namespace ReMuduo

/-- The timers whose callback closes the connection. -/
def TimerKind.closes : TimerKind → Bool
  | .connectionTimeout => true
  | .idle => true
  | .keepAlive => false

namespace TimedConnection

/-- What a sequence of changes may do: for which kinds it may make a timer, for which kinds
it may overwrite the member while its timer is pending, and whether it may change anything
else than the timers and what names them. -/
structure Scope where
  arms : TimerKind → Prop
  forgets : TimerKind → Prop
  outer : Prop

variable {s s' : TimedConnection} {kind : TimerKind} {S : Scope}

/-- The members and `bound` agree with the queue. -/
structure Sound (s : TimedConnection) : Prop where
  reached : s.loop.Reached
  known : ∀ id k, s.bound id = some k → s.loop.Known id ∧ id.timer ≠ nullptr
  field : ∀ k, (s.timerId k).isValid = true → s.bound (s.timerId k) = some k

/-- Every pending timer of the kind is named by the member, or by a functor that will
cancel it. -/
def NamedFor (kind : TimerKind) (s : TimedConnection) : Prop :=
  ∀ id, s.bound id = some kind → s.loop.pending id = true →
    id = s.timerId kind ∨ .cancelInLoop id ∈ s.functors

/-- The member may be overwritten: it names no timer that would be forgotten. -/
def Released (s : TimedConnection) (kind : TimerKind) : Prop :=
  (s.timerId kind).isValid = true → s.loop.pending (s.timerId kind) = true →
    .cancelInLoop (s.timerId kind) ∈ s.functors

theorem initial_sound {loop : TimerLoop} (h : loop.Reached) : (initial loop).Sound :=
  ⟨h, nofun, nofun⟩

theorem initial_namedFor (loop : TimerLoop) (kind : TimerKind) : (initial loop).NamedFor kind :=
  nofun

/-! ## Small changes -/

/-- A member gets the new timer `id`. -/
def withTimer (s : TimedConnection) (loop : TimerLoop) (kind : TimerKind) (id : TimerId) :
    TimedConnection :=
  ({ s with loop := loop, bound := Function.update s.bound id (some kind) } :
    TimedConnection).setTimerId kind id

/-- The small changes that the steps consist of. -/
inductive Small (S : Scope) : TimedConnection → TimedConnection → Prop
  | queue {s : TimedConnection} {op : TimerOp} {l : TimerLoop} :
      s.loop.step op = some l → Small S s { s with loop := l }
  | arm {s : TimedConnection} {a : Addr} {when : Int} {interval : Seconds} {u l : TimerLoop}
      {kind : TimerKind} : S.arms kind → S.forgets kind ∨ s.Released kind →
      s.loop.step (.newTimer a when interval) = some u → u.step (.addTimerInLoop a) = some l →
      Small S s (s.withTimer l kind ⟨a, s.loop.queue.numCreated⟩)
  | clear {s : TimedConnection} {kind : TimerKind} :
      S.forgets kind ∨ s.Released kind → Small S s (s.setTimerId kind .null)
  | post {s : TimedConnection} (f : TimedFunctor) : S.outer → Small S s (s.post f)
  | take {s : TimedConnection} {f : TimedFunctor} {rest : List TimedFunctor} (n : Nat) :
      S.outer → s.functors = f :: rest →
      (∀ id, f = .cancelInLoop id → s.loop.pending id = false) →
      Small S s { s with phase := .functors n, functors := rest }
  | fields {s : TimedConnection} (phase : LoopPhase) (state : StateE) (idleTimeout : Delay)
      (enabled : Bool) (interval : Delay) (reading closed : Bool) (firings : List Firing) :
      S.outer → Small S s { s with
        phase := phase, state := state, idleTimeout := idleTimeout, keepAliveEnabled := enabled
        keepAliveInterval := interval, reading := reading, closed := closed
        firings := firings }

/-- What a new timer does to the members and to `bound`. -/
theorem withTimer_timerId (loop : TimerLoop) (kind : TimerKind) (id : TimerId) :
    (s.withTimer loop kind id).timerId = Function.update s.timerId kind id := rfl

theorem withTimer_bound (loop : TimerLoop) (kind : TimerKind) (id : TimerId) :
    (s.withTimer loop kind id).bound = Function.update s.bound id (some kind) := rfl

theorem Small.sound (h : Small S s s') (hs : s.Sound) : s'.Sound := by
  cases h with
  | queue hstep =>
    refine ⟨hs.reached.step hstep, fun id k hk => ?_, hs.field⟩
    exact ⟨(hs.known id k hk).1.step hs.reached hstep, (hs.known id k hk).2⟩
  | @arm a _ _ _ l kind _ _ hnew hadd =>
    obtain ⟨hreached, hnull, hfresh, hknown, -, hother⟩ :=
      TimerLoop.addTimer_spec hs.reached hnew hadd
    refine ⟨hreached, fun id k hk => ?_, fun k hk => ?_⟩
    · rw [withTimer_bound] at hk
      by_cases hid : id = ⟨a, s.loop.queue.numCreated⟩
      · subst hid
        exact ⟨hknown, hnull⟩
      · rw [Function.update_of_ne hid] at hk
        exact ⟨(hother id hid).known.mpr (hs.known id k hk).1, (hs.known id k hk).2⟩
    · rw [withTimer_timerId] at hk ⊢
      rw [withTimer_bound]
      by_cases hkind : k = kind
      · subst hkind
        simp only [Function.update_self]
      · rw [Function.update_of_ne hkind] at hk ⊢
        have hbound := hs.field k hk
        -- the new timer is not one that a member names already
        rw [Function.update_of_ne, hbound]
        intro hsame
        rw [hsame] at hbound
        exact hfresh (hs.known _ k hbound).1
  | @clear kind _ =>
    refine ⟨hs.reached, hs.known, fun k hk => ?_⟩
    simp only [setTimerId] at hk ⊢
    by_cases hkind : k = kind
    · subst hkind
      rw [Function.update_self] at hk
      cases hk
    · rw [Function.update_of_ne hkind] at hk ⊢
      exact hs.field k hk
  | post => exact ⟨hs.reached, hs.known, hs.field⟩
  | take => exact ⟨hs.reached, hs.known, hs.field⟩
  | fields => exact ⟨hs.reached, hs.known, hs.field⟩

/-- The timers that a connection has had stay bound to it. -/
theorem Small.bound (h : Small S s s') (hs : s.Sound) {id : TimerId}
    (hk : s.bound id = some kind) : s'.bound id = some kind := by
  cases h with
  | @arm a _ _ _ l _ _ _ hnew hadd =>
    obtain ⟨-, -, hfresh, -⟩ := TimerLoop.addTimer_spec hs.reached hnew hadd
    rw [withTimer_bound, Function.update_of_ne, hk]
    rintro rfl
    exact hfresh (hs.known _ kind hk).1
  | queue | clear | post | take | fields => exact hk

/-- Small changes do not make a known timer pending. -/
theorem Small.pending (h : Small S s s') (hs : s.Sound) {id : TimerId} (hk : s.loop.Known id)
    (hp : s'.loop.pending id = true) : s.loop.pending id = true := by
  cases h with
  | queue hstep => exact TimerLoop.pending_of_step hs.reached hk hstep hp
  | arm _ _ hnew hadd =>
    have hu := TimerLoop.pending_of_step (hs.reached.step hnew) (hk.step hs.reached hnew) hadd hp
    exact TimerLoop.pending_of_step hs.reached hk hnew hu
  | clear | post | take | fields => exact hp

/-- Nor do they revive a timer that is neither pending nor due. -/
theorem Small.spent (h : Small S s s') (hs : s.Sound) {id : TimerId} (hk : s.loop.Known id)
    (hp : s.loop.pending id = false) (hd : ¬ s.loop.AwaitsCallback id) :
    s'.loop.pending id = false ∧ ¬ s'.loop.AwaitsCallback id := by
  cases h with
  | queue hstep => exact TimerLoop.spent_of_step hs.reached hk hstep hp hd
  | arm _ _ hnew hadd =>
    obtain ⟨hp', hd'⟩ := TimerLoop.spent_of_step hs.reached hk hnew hp hd
    exact TimerLoop.spent_of_step (hs.reached.step hnew) (hk.step hs.reached hnew) hadd hp' hd'
  | clear | post | take | fields => exact ⟨hp, hd⟩

/-- A timer that is bound after a small change and was not before is new, and named by the
member of its kind. -/
theorem Small.bound_new (h : Small S s s') {id : TimerId} (hk : s'.bound id = some kind) :
    s.bound id = some kind ∨ (S.arms kind ∧ id = s'.timerId kind) := by
  cases h with
  | @arm a _ _ _ l k hA _ _ _ =>
    rw [withTimer_bound] at hk
    by_cases hid : id = ⟨a, s.loop.queue.numCreated⟩
    · subst hid
      rw [Function.update_self] at hk
      obtain rfl := Option.some.inj hk
      exact Or.inr ⟨hA, by rw [withTimer_timerId, Function.update_self]⟩
    · rw [Function.update_of_ne hid] at hk
      exact Or.inl hk
  | queue | clear | post | take | fields => exact Or.inl hk

/-- If a member is overwritten, the timer it named is released. -/
theorem Small.timerId_or (h : Small S s s') (hF : ¬ S.forgets kind) :
    s'.timerId kind = s.timerId kind ∨ (s.Released kind ∧ s'.functors = s.functors) := by
  cases h with
  | @arm _ _ _ _ _ k _ hrel _ _ =>
    by_cases hkind : kind = k
    · subst hkind
      exact Or.inr ⟨hrel.resolve_left hF, rfl⟩
    · exact Or.inl (Function.update_of_ne hkind _ _)
  | @clear k hrel =>
    by_cases hkind : kind = k
    · subst hkind
      exact Or.inr ⟨hrel.resolve_left hF, rfl⟩
    · exact Or.inl (Function.update_of_ne hkind _ _)
  | queue | post | take | fields => exact Or.inl rfl

/-- A functor that would cancel a pending timer stays in the queue. -/
theorem Small.queued (h : Small S s s') {id : TimerId} (hp : s'.loop.pending id = true)
    (hq : .cancelInLoop id ∈ s.functors) : .cancelInLoop id ∈ s'.functors := by
  cases h with
  | take _ _ hf hcancel =>
    rw [hf] at hq
    rcases List.mem_cons.mp hq with hq | hq
    · have hno := hcancel id hq.symm
      rw [show s.loop.pending id = true from hp] at hno
      cases hno
    · exact hq
  | post f => exact List.mem_append_left _ hq
  | queue | arm | clear | fields => exact hq

/-- **Small changes keep the pending timers named.** -/
theorem Small.namedFor (h : Small S s s') (hF : ¬ S.forgets kind) (hs : s.Sound)
    (hn : s.NamedFor kind) : s'.NamedFor kind := by
  intro id hk hp
  rcases h.bound_new hk with hold | ⟨-, hnew⟩
  · have hp₀ := h.pending hs (hs.known id kind hold).1 hp
    rcases hn id hold hp₀ with hid | hq
    · rcases h.timerId_or hF with hsame | ⟨hrel, hf⟩
      · exact Or.inl (hid.trans hsame.symm)
      · subst hid
        have hvalid : (s.timerId kind).isValid = true := decide_eq_true (hs.known _ kind hold).2
        exact Or.inr (hf ▸ hrel hvalid hp₀)
    · exact Or.inr (h.queued hp hq)
  · exact Or.inl hnew

/-! ## The steps are made of small changes -/

/-- A sequence of small changes. -/
def Changes (S : Scope) : TimedConnection → TimedConnection → Prop :=
  Relation.ReflTransGen (Small S)

/-- What small changes preserve, given the soundness of the state, sequences of them
preserve. -/
theorem Changes.keep {P : TimedConnection → Prop} (h : Changes S s s')
    (hP : ∀ {t u}, Small S t u → t.Sound → P t → P u) (hs : s.Sound) (hp : P s) :
    s'.Sound ∧ P s' := by
  induction h with
  | refl => exact ⟨hs, hp⟩
  | tail _ hsmall ih => exact ⟨hsmall.sound ih.1, hP hsmall ih.1 ih.2⟩

theorem Changes.sound (h : Changes S s s') (hs : s.Sound) : s'.Sound :=
  (h.keep (P := fun _ => True) (fun _ _ _ => trivial) hs trivial).1

theorem Small.known (h : Small S s s') (hs : s.Sound) {id : TimerId} (hk : s.loop.Known id) :
    s'.loop.Known id := by
  cases h with
  | queue hstep => exact hk.step hs.reached hstep
  | arm _ _ hnew hadd => exact (hk.step hs.reached hnew).step (hs.reached.step hnew) hadd
  | clear | post | take | fields => exact hk

theorem Changes.known (h : Changes S s s') (hs : s.Sound) {id : TimerId}
    (hk : s.loop.Known id) : s'.loop.Known id :=
  (h.keep (P := fun t => t.loop.Known id) (fun hsmall ht hk => hsmall.known ht hk) hs hk).2

/-- Changes in a narrow scope leave everything but the timers as it is. -/
theorem Changes.frame (h : Changes S s s') (hS : ¬ S.outer) :
    ∃ l ids b, s' = { s with loop := l, timerId := ids, bound := b } := by
  induction h with
  | refl => exact ⟨_, _, _, rfl⟩
  | tail _ hsmall ih =>
    obtain ⟨l, ids, b, rfl⟩ := ih
    cases hsmall with
    | queue | arm | clear => exact ⟨_, _, _, rfl⟩
    | post _ ho | take _ ho | fields _ _ _ _ _ _ _ _ ho => exact absurd ho hS

/-- No sequence of changes makes a known timer pending. -/
theorem Changes.pending (h : Changes S s s') (hs : s.Sound) {id : TimerId}
    (hk : s.loop.Known id) (hp : s'.loop.pending id = true) : s.loop.pending id = true := by
  refine (h.keep (P := fun t => t.loop.Known id ∧
    (t.loop.pending id = true → s.loop.pending id = true)) ?_ hs ⟨hk, fun h => h⟩).2.2 hp
  rintro t u hsmall ht ⟨hk, ih⟩
  exact ⟨hsmall.known ht hk, fun hp => ih (hsmall.pending ht hk hp)⟩

theorem Changes.not_pending (h : Changes S s s') (hs : s.Sound) {id : TimerId}
    (hk : s.loop.Known id) (hp : s.loop.pending id = false) : s'.loop.pending id = false := by
  by_contra hno
  rw [Bool.not_eq_false] at hno
  cases (h.pending hs hk hno).symm.trans hp

theorem Changes.bound (h : Changes S s s') (hs : s.Sound) {id : TimerId}
    (hk : s.bound id = some kind) : s'.bound id = some kind :=
  (h.keep (P := fun t => t.bound id = some kind) (fun hsmall ht hk => hsmall.bound ht hk) hs hk).2

theorem Changes.bound_new (h : Changes S s s') (hs : s.Sound) {id : TimerId}
    (hk : s'.bound id = some kind) : s.bound id = some kind ∨ S.arms kind := by
  refine (h.keep (P := fun t => ∀ id, t.bound id = some kind → s.bound id = some kind ∨ S.arms kind)
    (fun hsmall _ ih id hk => ?_) hs (fun _ => Or.inl)).2 id hk
  rcases hsmall.bound_new hk with hold | ⟨hA, -⟩
  · exact ih id hold
  · exact Or.inr hA

theorem Changes.spent (h : Changes S s s') (hs : s.Sound) {id : TimerId}
    (hk : s.loop.Known id) (hp : s.loop.pending id = false) (hd : ¬ s.loop.AwaitsCallback id) :
    s'.loop.Known id ∧ s'.loop.pending id = false ∧ ¬ s'.loop.AwaitsCallback id := by
  refine (h.keep (P := fun t =>
    t.loop.Known id ∧ t.loop.pending id = false ∧ ¬ t.loop.AwaitsCallback id) ?_ hs
      ⟨hk, hp, hd⟩).2
  rintro t u hsmall ht ⟨hk, hp, hd⟩
  exact ⟨hsmall.known ht hk, hsmall.spent ht hk hp hd⟩

theorem Changes.namedFor (h : Changes S s s') (hF : ¬ S.forgets kind) (hs : s.Sound)
    (hn : s.NamedFor kind) : s'.NamedFor kind :=
  (h.keep (P := NamedFor kind) (fun hsmall ht => hsmall.namedFor hF ht) hs hn).2

theorem cancel_spec (S : Scope) (hs : s.Sound) (h : s.cancel kind = some s') :
    ∃ l, s' = { s with loop := l } ∧ Changes S s s' ∧
      ((s.timerId kind).isValid = true → l.pending (s.timerId kind) = false) := by
  unfold cancel at h
  split at h
  · obtain ⟨l, hl, rfl⟩ := Option.map_eq_some_iff.mp h
    exact ⟨l, rfl, .single (.queue hl), fun _ => TimerLoop.pending_cancelInLoop hs.reached hl⟩
  · rename_i hno
    obtain rfl := Option.some.inj h
    exact ⟨s.loop, rfl, .refl, fun hvalid => absurd hvalid hno⟩

theorem released_of_not_pending
    (h : (s.timerId kind).isValid = true → s.loop.pending (s.timerId kind) = false) :
    s.Released kind := by
  intro hvalid hp
  rw [h hvalid] at hp
  cases hp

theorem addTimer_changes {a : Addr} {when : Int} {interval : Seconds} (hA : S.arms kind)
    (hrel : S.forgets kind ∨ s.Released kind) (h : s.addTimer kind a when interval = some s') :
    Changes S s s' := by
  obtain ⟨l, hl, rfl⟩ := Option.map_eq_some_iff.mp h
  obtain ⟨u, hnew, hadd⟩ := Option.bind_eq_some_iff.mp hl
  exact .single (.arm hA hrel hnew hadd)

theorem runAfter_changes {a : Addr} {d : Delay} (hA : d.negative = false → S.arms kind)
    (hrel : S.forgets kind ∨ s.Released kind) (h : s.runAfter kind a d = some s') :
    Changes S s s' := by
  unfold runAfter at h
  split at h
  · obtain rfl := Option.some.inj h
    exact .single (.clear hrel)
  · rename_i hneg
    split at h
    · exact addTimer_changes (hA (Bool.eq_false_iff.mpr hneg)) hrel h
    · obtain rfl := Option.some.inj h
      exact .single (.clear hrel)

theorem runEvery_changes {a : Addr} {d : Delay} (hA : d.positive = true → S.arms kind)
    (hrel : S.forgets kind ∨ s.Released kind) (h : s.runEvery kind a d = some s') :
    Changes S s s' := by
  unfold runEvery at h
  split at h
  · rename_i hpos
    exact addTimer_changes (hA hpos) hrel h
  · obtain rfl := Option.some.inj h
    exact .single (.clear hrel)

theorem setConnectionTimeoutInLoop_changes {a : Addr} {d : Delay} (hs : s.Sound)
    (hA : d.positive = true → S.arms .connectionTimeout)
    (h : s.setConnectionTimeoutInLoop a d = some s') : Changes S s s' := by
  obtain ⟨t, hcancel, h⟩ := Option.bind_eq_some_iff.mp h
  obtain ⟨l, rfl, hchanges, hno⟩ := cancel_spec S hs hcancel
  split at h
  · rename_i hpos
    refine hchanges.trans (runAfter_changes (fun _ => hA hpos) (Or.inr ?_) h)
    exact released_of_not_pending hno
  · obtain rfl := Option.some.inj h
    exact hchanges

theorem resetIdleTimerInLoop_changes {a : Addr} (hs : s.Sound)
    (hA : s.idleTimeout.negative = false → S.arms .idle) (h : s.resetIdleTimerInLoop a = some s') :
    Changes S s s' := by
  obtain ⟨t, hcancel, h⟩ := Option.bind_eq_some_iff.mp h
  obtain ⟨l, rfl, hchanges, hno⟩ := cancel_spec S hs hcancel
  exact hchanges.trans (runAfter_changes hA (Or.inr (released_of_not_pending hno)) h)

theorem setupKeepAliveTimer_changes {a : Addr}
    (hA : s.keepAliveEnabled = true → s.keepAliveInterval.positive = true → S.arms .keepAlive)
    (hfree : s.keepAliveEnabled = true → S.forgets .keepAlive ∨ s.Released .keepAlive)
    (h : s.setupKeepAliveTimer a = some s') : Changes S s s' := by
  unfold setupKeepAliveTimer at h
  split at h
  · rename_i henabled
    exact runEvery_changes (hA henabled) (hfree henabled) h
  · obtain rfl := Option.some.inj h
    exact .refl

theorem cancelAndForget_changes (S : Scope) (hs : s.Sound)
    (h : s.cancelAndForget kind = some s') : Changes S s s' := by
  unfold cancelAndForget at h
  split at h
  · obtain ⟨t, hcancel, rfl⟩ := Option.map_eq_some_iff.mp h
    obtain ⟨l, rfl, hchanges, hno⟩ := cancel_spec S hs hcancel
    exact hchanges.tail (.clear (Or.inr (released_of_not_pending hno)))
  · obtain rfl := Option.some.inj h
    exact .refl

/-- The state in which `handleClose` begins, if it is called. -/
def closedIf (s : TimedConnection) (called : Bool) : TimedConnection :=
  if called then { s with state := .kDisconnected, closed := true } else s

theorem closedIf_changes (hS : S.outer) (s : TimedConnection) (called : Bool) :
    Changes S s (s.closedIf called) := by
  cases called with
  | false => exact .refl
  | true => exact .single (.fields _ .kDisconnected _ _ _ _ true _ hS)

/-- `handleClose` cancels the timers that the members name, and overwrites none. -/
theorem handleClose_spec (hS : S.outer) (hs : s.Sound) (h : s.handleClose = some s') :
    Changes S s s' ∧ ∃ l, s' = { s.closedIf true with loop := l } ∧
      ∀ k, (s.timerId k).isValid = true → l.pending (s.timerId k) = false := by
  have hclose : Changes S s (s.closedIf true) := closedIf_changes hS s true
  obtain ⟨t₂, h, hkeep⟩ := Option.bind_eq_some_iff.mp h
  obtain ⟨t₁, hconn, hidle⟩ := Option.bind_eq_some_iff.mp h
  obtain ⟨l₁, rfl, hc₁, hp₁⟩ := cancel_spec S (hclose.sound hs) hconn
  have hs₁ := hc₁.sound (hclose.sound hs)
  obtain ⟨l₂, rfl, hc₂, hp₂⟩ := cancel_spec S hs₁ hidle
  have hs₂ := hc₂.sound hs₁
  obtain ⟨l₃, rfl, hc₃, hp₃⟩ := cancel_spec S hs₂ hkeep
  refine ⟨((hclose.trans hc₁).trans hc₂).trans hc₃, l₃, rfl, fun k hvalid => ?_⟩
  cases k with
  | connectionTimeout =>
    exact Changes.not_pending (hc₂.trans hc₃) hs₁ (hs₁.known _ _ (hs.field _ hvalid)).1
      (hp₁ hvalid)
  | idle => exact hc₃.not_pending hs₂ (hs₂.known _ _ (hs.field _ hvalid)).1 (hp₂ hvalid)
  | keepAlive => exact hp₃ hvalid

/-- `forceClose` has something to close. -/
def isOpen (s : TimedConnection) : Bool :=
  decide (s.state = .kConnected ∨ s.state = .kDisconnecting)

/-- What `handleClose` does if it is called, as seen from outside: the queue changes, and
if it is called, the timers that the members name are not pending after it. -/
def Closing (called : Bool) (s s' : TimedConnection) : Prop :=
  ∃ l, s' = { s.closedIf called with loop := l } ∧
    (called = true → ∀ k, (s.timerId k).isValid = true → l.pending (s.timerId k) = false)

theorem forceClose_spec (hS : S.outer) (hs : s.Sound) (h : s.forceClose = some s') :
    Changes S s s' ∧ Closing s.isOpen s s' := by
  unfold forceClose at h
  split at h
  · rename_i hopen
    obtain ⟨hchanges, l, rfl, hno⟩ := handleClose_spec hS hs h
    exact ⟨hchanges, l, by rw [isOpen, decide_eq_true hopen], fun _ => hno⟩
  · rename_i hopen
    obtain rfl := Option.some.inj h
    exact ⟨.refl, s.loop, by simp [closedIf, isOpen, hopen], fun h => by simp_all [isOpen]⟩

theorem onTimeout_spec (hS : S.outer) (hs : s.Sound) (h : s.onTimeout kind = some s') :
    Changes S s s' ∧ Closing (kind.closes && s.isOpen) s s' := by
  cases kind with
  | connectionTimeout => exact forceClose_spec hS hs h
  | idle => exact forceClose_spec hS hs h
  | keepAlive =>
    simp only [onTimeout] at h
    split at h
    · obtain ⟨l, rfl, hchanges, -⟩ := cancel_spec S hs h
      exact ⟨hchanges, l, rfl, nofun⟩
    · obtain rfl := Option.some.inj h
      exact ⟨.refl, s.loop, rfl, nofun⟩

/-- What `fire` adds to the record. -/
def firing (s : TimedConnection) (id : TimerId) : List Firing :=
  match s.bound id with
  | none => []
  | some kind => [⟨id, kind, s.closed⟩]

/-- The callback of `id` closes the connection. -/
def closesOn (s : TimedConnection) (id : TimerId) : Bool :=
  match s.bound id with
  | none => false
  | some kind => kind.closes && s.isOpen

theorem fire_spec (hS : S.outer) (hs : s.Sound) {id : TimerId} (h : s.fire id = some s') :
    Changes S s s' ∧
      Closing (s.closesOn id) { s with firings := s.firings ++ s.firing id } s' := by
  unfold fire at h
  split at h
  · rename_i hb
    obtain rfl := Option.some.inj h
    exact ⟨.refl, s.loop, by simp [closedIf, closesOn, firing, hb], by simp [closesOn, hb]⟩
  · rename_i k hb
    have hfields : Changes S s { s with firings := s.firings ++ [⟨id, k, s.closed⟩] } :=
      .single (.fields _ _ _ _ _ _ _ _ hS)
    obtain ⟨hchanges, hclosing⟩ := onTimeout_spec hS (hfields.sound hs) h
    refine ⟨hfields.trans hchanges, ?_⟩
    simp only [closesOn, firing, hb]
    exact hclosing

/-- Another thread cancels a timer: the functor names it from then on. -/
theorem postCancelAndForget_changes (hS : S.outer) (s : TimedConnection) (kind : TimerKind) :
    Changes S s (s.postCancelAndForget kind) := by
  unfold postCancelAndForget
  split
  · refine .tail (.single (.post (.cancelInLoop (s.timerId kind)) hS)) (.clear ?_)
    exact Or.inr fun _ _ => List.mem_append_right _ (List.mem_singleton.mpr rfl)
  · exact .refl

end TimedConnection
end ReMuduo
