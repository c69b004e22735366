import ReMuduo.ServerLedger

/-! # Destroying a server

`~TcpServer` (`src/base/TcpServer.cpp`) goes through `connections_` and has every connection
destroyed on its own loop: at once if that is the base loop, through `runInLoop` otherwise.  It
runs on the thread of the base loop, outside `loop()`, as in the programs under `tests/` and
`benchmark/`, which destroy the server when `loop()` has returned and do not call it again.  The
I/O loops go on meanwhile: they are joined only when the members of the server are destroyed.
So a connection may be closed by its peer while the destructor is under way, and a
`removeConnectionInLoop` may be left in the queue of the base loop for good.

A connection of an I/O loop is nevertheless destroyed once, whichever of the two asks for it
(`connections_destroyed_once`).  What this needs is that its loop still comes to the functor,
of which `ReMuduo.LoopShutdown` says when it does. -/
namespace ReMuduo

/-! ## Who removes connections -/

def LoopTask.functor? : LoopTask AfterCallback ServerFunctor → Option ServerFunctor
  | .functor f => some f
  | _ => none

/-- The functors that a loop has, taken or not. -/
def LoopThread.functors (t : LoopThread AfterCallback ServerFunctor) : List ServerFunctor :=
  t.agenda.filterMap LoopTask.functor? ++ t.pendingFunctors

namespace ServerLoops

variable {ℓ : Type} [DecidableEq ℓ] {cfg : ServerConfig ℓ} {s s' : ServerLoops ℓ} {l : ℓ}
  {c : ConnId} {task : ServerTask} {rest : List ServerTask}

/-- Only the base loop is asked to remove connections. -/
def Asks (cfg : ServerConfig ℓ) (s s' : ServerLoops ℓ) : Prop :=
  ∀ l f, f ∈ (s'.loops l).functors → f ∈ (s.loops l).functors ∨
    ∀ c, f = .removeConnectionInLoop c → l = cfg.base

omit [DecidableEq ℓ] in
theorem Asks.trans {t s' : ServerLoops ℓ} (h : Asks cfg s t) (h' : Asks cfg t s') :
    Asks cfg s s' :=
  fun l f hf => (h' l f hf).elim (h l f) Or.inr

/-- Functors that a loop has had before. -/
theorem onLoop_asks {g : ServerThread → ServerThread}
    (h : ∀ f ∈ (g (s.loops l)).functors, f ∈ (s.loops l).functors) :
    Asks cfg s (s.onLoop l g) := by
  intro l' f hf
  by_cases hl : l' = l
  · subst hl
    simp only [onLoop, Function.update_self] at hf
    exact Or.inl (h f hf)
  · simp only [onLoop, Function.update_of_ne hl] at hf
    exact Or.inl hf

/-- New tasks that are no functors. -/
theorem push_asks {g : ServerThread → ServerThread} (tasks : List ServerTask)
    (h : ∀ x ∈ tasks, x.functor? = none) (hagenda : ∀ t, (g t).agenda = tasks ++ t.agenda)
    (hpending : ∀ t, (g t).pendingFunctors = t.pendingFunctors) : Asks cfg s (s.onLoop l g) := by
  have hnone : tasks.filterMap LoopTask.functor? = [] := List.filterMap_eq_nil_iff.mpr h
  refine onLoop_asks fun f hf => ?_
  simpa [LoopThread.functors, hagenda, hpending, hnone] using hf

theorem take_asks (hagenda : (s.loops l).agenda = task :: rest) :
    Asks cfg s (s.take l rest) := by
  refine onLoop_asks fun f hf => ?_
  rcases List.mem_append.mp hf with hf | hf
  · refine List.mem_append_left _ ?_
    rw [hagenda]
    obtain ⟨x, hx, hfx⟩ := List.mem_filterMap.mp hf
    exact List.mem_filterMap.mpr ⟨x, List.mem_cons_of_mem _ hx, hfx⟩
  · exact List.mem_append_right _ hf

omit [DecidableEq ℓ] in
theorem Fits.asks {w : Deed ℓ} (hw : Fits cfg s l c task w) : Asks cfg s (s.perform c w) := by
  intro l' f hf
  have htasks : (w.tasks l').filterMap LoopTask.functor? = [] := by
    refine List.filterMap_eq_nil_iff.mpr fun x hx => ?_
    cases hw.tasks l' x hx <;> rfl
  simp only [LoopThread.functors, perform, List.filterMap_append, htasks, List.nil_append,
    ← List.append_assoc] at hf
  rcases List.mem_append.mp hf with hf | hf
  · exact Or.inl hf
  · refine Or.inr fun d hd => ?_
    subst hd
    cases hw.functors l' _ hf
    rfl

theorem Change.asks (h : Change cfg s l task s') : Asks cfg s s' := by
  cases h with
  | perform c w htask hw => exact hw.asks
  | accept io w htask hw => exact hw.asks
  | remove c w htask hw => exact hw.asks
  | refuse => exact fun _ _ hf => Or.inl hf
  | handleEvent channel revents =>
    refine push_asks (LoopThread.eventTasks channel revents) (fun x hx => ?_) (fun _ => rfl)
      fun _ => rfl
    obtain ⟨cb, rfl⟩ := LoopThread.mem_eventTasks hx
    rfl
  | doPendingFunctors =>
    refine onLoop_asks fun f hf => ?_
    have hmap : ∀ fs : List ServerFunctor,
        (fs.map LoopTask.functor).filterMap LoopTask.functor? = fs := by
      intro fs
      rw [List.filterMap_map]
      exact List.filterMap_some
    simp only [LoopThread.functors, LoopThread.doPendingFunctors, List.filterMap_append, hmap,
      List.append_nil] at hf
    exact List.mem_append.mpr (List.mem_append.mp hf).symm

theorem Turn.asks {op : ServerOp ℓ} (h : Turn cfg s op s') : Asks cfg s s' := by
  cases h with
  | poll l batch hagenda hregistered =>
    refine push_asks (batch.map (fun p => .handleEvent p.1 p.2) ++ [.doPendingFunctors])
      (fun x hx => ?_) (fun _ => rfl) fun _ => rfl
    rcases List.mem_append.mp hx with hx | hx
    · obtain ⟨p, -, rfl⟩ := List.mem_map.mp hx
      rfl
    · rw [List.mem_singleton.mp hx]
      rfl
  | call op hop l s' h => exact h.asks
  | ret l rest hagenda => exact take_asks hagenda
  | task l task rest e s' hagenda hdone h => exact (take_asks hagenda).trans h.asks

/-! ## The base loop while the server is destroyed -/

/-- What the base loop may still be doing: the callbacks that `connectDestroyed` makes, and the
closing of its own connections from there. -/
def Leftover (cfg : ServerConfig ℓ) (s : ServerLoops ℓ) (x : ServerTask) : Prop :=
  x = .user ∨
    ∃ c, (x = .resume (.closing c) ∨ x = .resume (.destroying c)) ∧ s.loopOf c = cfg.base ∧
      c < s.nextConnId

def Resting (cfg : ServerConfig ℓ) (s : ServerLoops ℓ) : Prop :=
  ∀ x ∈ (s.loops cfg.base).agenda, s.Leftover cfg x

/-- The base loop has no tasks but those it had, and user code. -/
def Idles (cfg : ServerConfig ℓ) (s s' : ServerLoops ℓ) : Prop :=
  ∀ x ∈ (s'.loops cfg.base).agenda, x ∈ (s.loops cfg.base).agenda ∨ x = .user

omit [DecidableEq ℓ] in
theorem Idles.trans {t s' : ServerLoops ℓ} (h : Idles cfg s t) (h' : Idles cfg t s') :
    Idles cfg s s' :=
  fun x hx => (h' x hx).elim (h x) Or.inr

/-- Another loop than the base loop works on its own agenda. -/
theorem off_base_idles (hl : l ≠ cfg.base) (g : ServerThread → ServerThread) :
    Idles cfg s (s.onLoop l g) := by
  intro x hx
  simp only [onLoop, Function.update_of_ne hl.symm] at hx
  exact Or.inl hx

theorem take_idles (hagenda : (s.loops l).agenda = task :: rest) :
    Idles cfg s (s.take l rest) := by
  by_cases hl : l = cfg.base
  · subst hl
    intro x hx
    simp only [take, onLoop, Function.update_self, LoopThread.take] at hx
    exact Or.inl (hagenda ▸ List.mem_cons_of_mem _ hx)
  · exact off_base_idles hl _

omit [DecidableEq ℓ] in
/-- A deed that gives the base loop no task. -/
theorem perform_idles {w : Deed ℓ} (h : w.tasks cfg.base = []) (c : ConnId) :
    Idles cfg s (s.perform c w) := by
  intro x hx
  simp only [perform, h, List.nil_append] at hx
  exact Or.inl hx

omit [DecidableEq ℓ] in
theorem Fits.idles {w : Deed ℓ} (hw : Fits cfg s l c task w) (hl : l ≠ cfg.base) :
    Idles cfg s (s.perform c w) := by
  intro x hx
  rcases List.mem_append.mp hx with hx | hx
  · cases hw.tasks cfg.base x hx with
    | user => exact Or.inr rfl
    | closing | destroying => exact absurd rfl hl
  · exact Or.inl hx

/-- What an I/O loop does. -/
theorem Change.idles (h : Change cfg s l task s') (hl : l ≠ cfg.base) : Idles cfg s s' := by
  cases h with
  | perform c w htask hw => exact hw.idles hl
  | accept io w htask hw => exact hw.idles hl
  | remove c w htask hw => exact hw.idles hl
  | handleEvent | doPendingFunctors => exact off_base_idles hl _
  | refuse => exact fun _ hx => Or.inl hx

theorem removeConnectionInLoop_idles (c : ConnId) :
    Idles cfg s (s.removeConnectionInLoop cfg c) := by
  by_cases hentry : (s.connections (cfg.connName c)).isSome = true
  · rw [removeConnectionInLoop_perform hentry]
    exact perform_idles (s := s.erase cfg c) rfl c
  · rw [removeConnectionInLoop, if_neg hentry]
    exact fun _ hx => Or.inl hx

omit [DecidableEq ℓ] in
theorem removeChannel_idles (l : ℓ) (c : ConnId) : Idles cfg s (s.removeChannel l c) := by
  rw [removeChannel_perform]
  refine perform_idles ?_ c
  unfold removeChannelDeed
  split_ifs <;> rfl

omit [DecidableEq ℓ] in
theorem Resting.of_mem (hs : s.Resting cfg) (hkept : s.Keeps s')
    (hmem : ∀ x ∈ (s'.loops cfg.base).agenda,
      x ∈ (s.loops cfg.base).agenda ∨ s.Leftover cfg x) : s'.Resting cfg := by
  intro x hx
  have hold : s.Leftover cfg x := (hmem x hx).elim (hs x) id
  rcases hold with huser | ⟨c, hc, hloop, hlt⟩
  · exact Or.inl huser
  · exact Or.inr ⟨c, hc, (hkept c hlt).1.trans hloop, (hkept c hlt).2⟩

omit [DecidableEq ℓ] in
theorem Resting.of_idles (hs : s.Resting cfg) (hkept : s.Keeps s') (h : Idles cfg s s') :
    s'.Resting cfg :=
  hs.of_mem hkept fun x hx => (h x hx).imp_right Or.inl

end ServerLoops

/-- `loop()` of the base loop polls. -/
def ServerOp.pollsBase {ℓ : Type} [DecidableEq ℓ] (cfg : ServerConfig ℓ) : ServerOp ℓ → Bool
  | .loop l (.poll _) => l = cfg.base
  | _ => false

namespace ServerLoops

variable {ℓ : Type} [DecidableEq ℓ] {cfg : ServerConfig ℓ} {s s' : ServerLoops ℓ} {l : ℓ}
  {c : ConnId} {task : ServerTask} {rest : List ServerTask}

/-- The base loop does not begin another iteration by itself. -/
theorem Step.resting {op : ServerOp ℓ} (hs : s.Resting cfg) (h : Step cfg s op s')
    (hpoll : op.pollsBase cfg = false) (hkept : s.Keeps s') : s'.Resting cfg := by
  cases h with
  | poll l batch hagenda hregistered =>
    exact hs.of_idles hkept (off_base_idles (of_decide_eq_false hpoll) _)
  | call l u c r hc hl hagenda hr =>
    rw [after_perform] at hkept ⊢
    have hw : Fits cfg s l c .user (afterDeed l c r) := afterDeed_fits l (.called r hr)
    refine hs.of_mem hkept fun x hx => ?_
    rcases List.mem_append.mp hx with hx | hx
    · -- a method that runs on the base loop may close its connection
      cases hw.tasks cfg.base x hx with
      | user => exact Or.inr (Or.inl rfl)
      | closing => exact Or.inr (Or.inr ⟨c, Or.inl rfl, hl, hc⟩)
      | destroying htask => cases htask
    · exact Or.inl hx
  | foreign op hop m c hc =>
    obtain ⟨w, hperform, -, htasks⟩ := callForeign_perform cfg s cfg.base c m
    rw [hperform] at hkept ⊢
    exact hs.of_idles hkept (perform_idles (by rw [htasks]) c)
  | queueInLoop l l' =>
    rw [post_perform 0] at hkept ⊢
    exact hs.of_idles hkept (perform_idles rfl 0)
  | ret l rest hagenda => exact hs.of_idles hkept (take_idles hagenda)
  | task l task rest e s' hagenda huser hdone =>
    refine hs.of_idles hkept (.trans (take_idles hagenda) ?_)
    by_cases hl : l = cfg.base
    · subst hl
      rcases hs task (hagenda ▸ List.mem_cons_self) with rfl | ⟨c, rfl | rfl, -, -⟩
      · exact absurd rfl huser
      · cases hdone
        rw [removeConnection, if_pos rfl]
        exact removeConnectionInLoop_idles c
      · cases hdone
        exact removeChannel_idles _ c
    · exact hdone.change.idles hl

end ServerLoops

/-! ## The destructor -/

/-- A server that may be destroyed.  `visited` are the connections that the loop of
`~TcpServer` has come to, if it has been called. -/
structure DyingServer (ℓ : Type) where
  server : ServerLoops ℓ
  visited : Option (List ConnId)

inductive DyingOp (ℓ : Type)
  | server (op : ServerOp ℓ)
  /-- `~TcpServer` is called, outside `loop()` of the base loop. -/
  | destroy
  /-- An iteration of its loop over `connections_`. -/
  | visit (c : ConnId)

namespace DyingServer

variable {ℓ : Type} [DecidableEq ℓ] (cfg : ServerConfig ℓ)

def initial : DyingServer ℓ := ⟨.initial cfg, none⟩

/-- `conn->getLoop()->runInLoop(bind(&TcpConnection::connectDestroyed, conn))`, on the thread of
the base loop. -/
def runConnectDestroyed (s : ServerLoops ℓ) (c : ConnId) : ServerLoops ℓ :=
  if s.loopOf c = cfg.base then s.connectDestroyed cfg.base c
  else s.post (s.loopOf c) (.connectDestroyed c)

/-- A step.  The map has no order that one could rely on, and while `connectDestroyed` is making
its callback the destructor waits for it. -/
def step (s : DyingServer ℓ) : DyingOp ℓ → Option (DyingServer ℓ)
  | .server op =>
    if s.visited.isSome && op.pollsBase cfg then none
    else (s.server.step cfg op).map fun server => { s with server := server }
  | .destroy =>
    if s.visited.isNone && (s.server.loops cfg.base).agenda.isEmpty then
      some { s with visited := some [] }
    else none
  | .visit c =>
    match s.visited with
    | none => none
    | some visited =>
      if !s.server.assertFailed && (s.server.loops cfg.base).agenda.isEmpty &&
          s.server.connections (cfg.connName c) == some c && !visited.contains c then
        some ⟨runConnectDestroyed cfg s.server c, some (c :: visited)⟩
      else none

/-- The loop over `connections_` has come to an end. -/
def Finished (s : DyingServer ℓ) : Prop :=
  ∃ visited, s.visited = some visited ∧
    ∀ c, s.server.connections (cfg.connName c) = some c → c ∈ visited

variable {cfg} {s s' : DyingServer ℓ} {op : DyingOp ℓ}

inductive Step (cfg : ServerConfig ℓ) (s : DyingServer ℓ) : DyingServer ℓ → Prop
  | server (op : ServerOp ℓ) (server : ServerLoops ℓ)
      (hpoll : s.visited.isSome = true → op.pollsBase cfg = false)
      (hstep : s.server.step cfg op = some server) : Step cfg s { s with server := server }
  | destroy (hnone : s.visited = none) (hagenda : (s.server.loops cfg.base).agenda = []) :
      Step cfg s { s with visited := some [] }
  | visit (c : ConnId) (visited : List ConnId) (hvisited : s.visited = some visited)
      (hassert : s.server.assertFailed = false)
      (hagenda : (s.server.loops cfg.base).agenda = [])
      (hentry : s.server.connections (cfg.connName c) = some c) (hnew : c ∉ visited) :
      Step cfg s ⟨runConnectDestroyed cfg s.server c, some (c :: visited)⟩

theorem step_cases (h : s.step cfg op = some s') : Step cfg s s' := by
  cases op with
  | server op =>
    obtain ⟨hpoll, h⟩ := Option.ite_none_left_eq_some.mp h
    obtain ⟨server, hstep, rfl⟩ := Option.map_eq_some_iff.mp h
    refine .server op server (fun hsome => ?_) hstep
    simpa [hsome] using hpoll
  | destroy =>
    obtain ⟨hcond, ⟨⟩⟩ := Option.ite_none_right_eq_some.mp h
    simp only [Bool.and_eq_true, Option.isNone_iff_eq_none, List.isEmpty_iff] at hcond
    exact .destroy hcond.1 hcond.2
  | visit c =>
    simp only [step] at h
    cases hvisited : s.visited with
    | none =>
      rw [hvisited] at h
      cases h
    | some visited =>
      rw [hvisited] at h
      obtain ⟨hcond, ⟨⟩⟩ := Option.ite_none_right_eq_some.mp h
      simp only [Bool.and_eq_true, Bool.not_eq_true', List.isEmpty_iff, beq_iff_eq,
        List.contains_eq_mem, decide_eq_false_iff_not] at hcond
      obtain ⟨⟨⟨hassert, hagenda⟩, hentry⟩, hnew⟩ := hcond
      exact .visit c visited hvisited hassert hagenda hentry hnew

/-- What holds in every state. -/
structure Tracked (cfg : ServerConfig ℓ) (s : DyingServer ℓ) : Prop
    extends ServerLoops.Known cfg s.server where
  seen : ∀ c ∈ s.visited.getD [], c < s.server.nextConnId
  placed : ∀ c, (s.server.ledger cfg c).Placed
  asked : ∀ l c, .removeConnectionInLoop c ∈ (s.server.loops l).functors → l = cfg.base
  resting : s.visited.isSome = true → s.server.Resting cfg
  counted : s.server.Counted cfg (s.visited.getD [])

omit [DecidableEq ℓ] in
theorem initial_tracked (cfg : ServerConfig ℓ) : (initial cfg).Tracked cfg where
  named := (ServerLoops.initial_sound cfg).named
  bound := (ServerLoops.initial_sound cfg).bound
  unborn _ _ := rfl
  seen _ hc := absurd hc List.not_mem_nil
  placed _ := ⟨fun _ _ hmem => absurd hmem List.not_mem_nil, fun _ h => absurd h (Nat.lt_irrefl 0)⟩
  asked _ _ hmem := absurd hmem List.not_mem_nil
  resting hsome := absurd hsome Bool.false_ne_true
  counted _ hpos hlt _ := absurd hpos (Nat.not_lt.mpr (Nat.le_of_lt_succ hlt))

omit [DecidableEq ℓ] in
/-- Once the destructor has been called, no connection of an I/O loop is removed. -/
theorem Tracked.not_seen (hs : s.Tracked cfg) {c : ConnId} {l : ℓ} {task : ServerTask}
    {rest : List ServerTask} (hagenda : (s.server.loops l).agenda = task :: rest)
    (htask : ServerLoops.Removes cfg l c task)
    (hio : s.server.loopOf c ≠ cfg.base) : c ∉ s.visited.getD [] := by
  cases hvisited : s.visited with
  | none => exact List.not_mem_nil
  | some visited =>
    have hresting := hs.resting (by rw [hvisited]; rfl)
    have hbase : l = cfg.base := by
      rcases htask with ⟨-, hl⟩ | rfl
      · exact hl
      · refine hs.asked l c (List.mem_append_left _ ?_)
        rw [hagenda]
        exact List.mem_filterMap.mpr ⟨_, List.mem_cons_self, rfl⟩
    subst hbase
    have hleft := hresting task (hagenda ▸ List.mem_cons_self)
    rcases htask with ⟨rfl, -⟩ | rfl
    · rcases hleft with huser | ⟨d, hd | hd, hloop, -⟩
      · cases huser
      · cases hd
        exact absurd hloop hio
      · cases hd
    · rcases hleft with huser | ⟨d, hd | hd, -, -⟩
      · cases huser
      · cases hd
      · cases hd

theorem Tracked.server (hs : s.Tracked cfg) {op : ServerOp ℓ} {server : ServerLoops ℓ}
    (hpoll : s.visited.isSome = true → op.pollsBase cfg = false)
    (hstep : s.server.step cfg op = some server) (hassert : server.assertFailed = false) :
    Tracked cfg { s with server := server } := by
  have hcases := (ServerLoops.step_cases hstep).2
  have hsettles := hcases.settles hs.toKnown
  have hkeeps := hsettles.keeps hassert
  refine ⟨hsettles.known hs.toKnown hassert, fun c hc => (hkeeps c (hs.seen c hc)).2,
    hsettles.placed hs.toKnown hs.placed hassert, fun l c hmem => ?_, fun hsome => ?_, ?_⟩
  · rcases hcases.turn.asks l _ hmem with hmem | hbase
    · exact hs.asked l c hmem
    · exact hbase c rfl
  · exact hcases.resting (hs.resting hsome) (hpoll hsome) hkeeps
  · exact hsettles.counted hs.toKnown hs.placed hs.counted hs.seen
      (fun c l task rest hagenda htask hio => hs.not_seen hagenda htask hio) hassert

section Visit

variable {t : ServerLoops ℓ} {c : ConnId}

variable (cfg) in
/-- An I/O loop is asked for the call; the base loop makes it at once. -/
theorem runConnectDestroyed_cases (t : ServerLoops ℓ) (c : ConnId) :
    t.loopOf c = cfg.base ∧
        runConnectDestroyed cfg t c = t.perform c (t.connectDestroyedDeed cfg.base c) ∨
      t.loopOf c ≠ cfg.base ∧
        runConnectDestroyed cfg t c = t.post (t.loopOf c) (.connectDestroyed c) := by
  unfold runConnectDestroyed
  split_ifs with hbase
  · exact Or.inl ⟨hbase, ServerLoops.connectDestroyed_perform _ _⟩
  · exact Or.inr ⟨hbase, rfl⟩

variable (cfg) in
theorem members_runConnectDestroyed (t : ServerLoops ℓ) (c : ConnId) :
    (runConnectDestroyed cfg t c).members = t.members ∧
      (runConnectDestroyed cfg t c).loopOf = t.loopOf := by
  rcases runConnectDestroyed_cases cfg t c with ⟨-, h⟩ | ⟨-, h⟩ <;> rw [h] <;> exact ⟨rfl, rfl⟩

theorem view_runConnectDestroyed_ne {d : ConnId} (h : d ≠ c) :
    (runConnectDestroyed cfg t c).view cfg d = t.view cfg d := by
  rcases runConnectDestroyed_cases cfg t c with ⟨-, hrun⟩ | ⟨-, hrun⟩
  · rw [hrun]
    exact (ServerLoops.connectDestroyedDeed_fits t cfg.base c).view_ne h
  · rw [hrun]
    exact ServerLoops.view_post_ne _ _ (Item.of_ne h.symm _)

variable (cfg) in
theorem ledger_runConnectDestroyed (t : ServerLoops ℓ) (c : ConnId) :
    (runConnectDestroyed cfg t c).ledger cfg c =
      if t.loopOf c = cfg.base then
        (t.ledger cfg c).make cfg.base (t.loops cfg.base).currentActiveChannel
      else (t.ledger cfg c).order := by
  unfold runConnectDestroyed
  split_ifs
  · exact ServerLoops.ledger_connectDestroyed _ c
  · exact ServerLoops.ledger_post_connectDestroyed c

theorem asks_runConnectDestroyed (t : ServerLoops ℓ) (c : ConnId) :
    ServerLoops.Asks cfg t (runConnectDestroyed cfg t c) := by
  rcases runConnectDestroyed_cases cfg t c with ⟨-, hrun⟩ | ⟨-, hrun⟩
  · rw [hrun]
    exact (ServerLoops.connectDestroyedDeed_fits t cfg.base c).asks
  · rw [hrun, ServerLoops.post_perform c]
    refine (ServerLoops.Fits.asks (l := cfg.base)
      { ServerLoops.idle_fits cfg t _ c (.functor (.removeConnectionInLoop c)) with
        functors := fun l f hf => ?_ })
    rw [List.mem_singleton.mp (mem_onlyOn.mp hf).2]
    exact .connectDestroyed (.inr rfl) l

theorem resting_runConnectDestroyed (hagenda : (t.loops cfg.base).agenda = [])
    (hc : c < t.nextConnId) : (runConnectDestroyed cfg t c).Resting cfg := by
  have hmembers := members_runConnectDestroyed cfg t c
  have hnext : (runConnectDestroyed cfg t c).nextConnId = t.nextConnId :=
    congrArg (fun m => m.2.1) hmembers.1
  intro x hx
  rcases runConnectDestroyed_cases cfg t c with ⟨hbase, hrun⟩ | ⟨hbase, hrun⟩
  · have hstarts : ServerLoops.Starts cfg.base c (.functor (.connectDestroyed c)) cfg.base x := by
      have hfits : ServerLoops.Fits cfg t cfg.base c _ (t.connectDestroyedDeed cfg.base c) :=
        ServerLoops.connectDestroyedDeed_fits t cfg.base c
      refine hfits.tasks _ x ?_
      rw [hrun] at hx
      simpa [ServerLoops.perform, hagenda] using hx
    have hloop : (runConnectDestroyed cfg t c).loopOf c = cfg.base :=
      (congrFun hmembers.2 c).trans hbase
    cases hstarts with
    | user => exact Or.inl rfl
    | closing => exact Or.inr ⟨c, Or.inl rfl, hloop, hnext ▸ hc⟩
    | destroying => exact Or.inr ⟨c, Or.inr rfl, hloop, hnext ▸ hc⟩
  · rw [hrun] at hx
    simp [ServerLoops.post, ServerLoops.onLoop, Ne.symm hbase, hagenda] at hx

end Visit

theorem Tracked.visit (hs : s.Tracked cfg) {c : ConnId} {visited : List ConnId}
    (hvisited : s.visited = some visited)
    (hagenda : (s.server.loops cfg.base).agenda = [])
    (hentry : s.server.connections (cfg.connName c) = some c) (hnew : c ∉ visited) :
    Tracked cfg ⟨runConnectDestroyed cfg s.server c, some (c :: visited)⟩ := by
  have hc : c < s.server.nextConnId := (hs.named _ _ hentry).2
  have hmembers := (members_runConnectDestroyed cfg s.server c).1
  have hnext : (runConnectDestroyed cfg s.server c).nextConnId = s.server.nextConnId :=
    congrArg (fun m => m.2.1) hmembers
  have hseen : s.visited.getD [] = visited := by rw [hvisited]; rfl
  have hother : ∀ d, d ≠ c → (runConnectDestroyed cfg s.server c).ledger cfg d =
      s.server.ledger cfg d := fun d hd =>
    ServerLoops.ledger_of_view (view_runConnectDestroyed_ne hd)
  have hself := ledger_runConnectDestroyed cfg s.server c
  refine ⟨⟨(ServerLoops.Kept.of_members hmembers).named hs.toNamed, fun d hd => ?_⟩,
    fun d hd => ?_, fun d => ?_, fun l d hmem => ?_,
    fun _ => resting_runConnectDestroyed hagenda hc, fun d hpos hlt hloop => ?_⟩
  · rw [hnext] at hd
    exact (view_runConnectDestroyed_ne (Nat.ne_of_gt (Nat.lt_of_lt_of_le hc hd))).trans
      (hs.unborn d hd)
  · rw [hnext]
    rcases List.mem_cons.mp hd with rfl | hd
    · exact hc
    · exact hs.seen d (hseen ▸ hd)
  · by_cases hd : d = c
    · subst hd
      rw [hself]
      split_ifs with hbase
      · exact (hs.placed d).make hbase.symm _
      · exact (hs.placed d).order
    · exact hother d hd ▸ hs.placed d
  · rcases asks_runConnectDestroyed s.server c l _ hmem with hmem | hbase
    · exact hs.asked l d hmem
    · exact hbase d rfl
  · rw [hnext] at hlt
    by_cases hd : d = c
    · subst hd
      -- nobody has asked before, and the destructor comes here once
      have hio : s.server.loopOf d ≠ cfg.base := by
        intro hbase
        rw [if_pos hbase] at hself
        exact hloop ((congrArg Ledger.loop hself).trans hbase)
      have hold := hs.counted d hpos hlt hio
      rw [hseen, if_pos ⟨beq_iff_eq.mpr hentry, hnew⟩] at hold
      rw [hself, if_neg hio, Ledger.total_order, hold, if_neg]
      simp
    · have hcount := hs.counted.same (hother d hd) hpos hlt hloop
      rw [hseen] at hcount
      rw [hcount]
      simp [hd]

theorem step_tracked (hs : s.server.assertFailed = false → s.Tracked cfg)
    (h : s.step cfg op = some s') (hassert : s'.server.assertFailed = false) :
    s'.Tracked cfg := by
  cases step_cases h with
  | server op server hpoll hstep =>
    exact (hs (ServerLoops.step_cases hstep).1).server hpoll hstep hassert
  | destroy hnone hagenda =>
    have hs := hs hassert
    have hseen : s.visited.getD [] = [] := by rw [hnone]; rfl
    refine ⟨hs.toKnown, fun c hc => absurd hc List.not_mem_nil, hs.placed, hs.asked,
      fun _ x hx => ?_, ?_⟩
    · rw [hagenda] at hx
      cases hx
    · have hcounted := hs.counted
      rw [hseen] at hcounted
      exact hcounted
  | visit c visited hvisited hassert' hagenda hentry hnew =>
    exact (hs hassert').visit hvisited hagenda hentry hnew

theorem run_tracked {ops : List (DyingOp ℓ)}
    (hrun : Machine.run (step cfg) (initial cfg) ops = some s)
    (hassert : s.server.assertFailed = false) : s.Tracked cfg :=
  Machine.run_invariant
    (P := fun t : DyingServer ℓ => t.server.assertFailed = false → t.Tracked cfg)
    (fun _ _ _ hs h => step_tracked hs h) hrun (fun _ => initial_tracked cfg) hassert

/-- **Every connection of an I/O loop is destroyed once.**  In every run, with the destructor of
the server at any time and the I/O loops going on, `connectDestroyed` is called at most once
for such a connection, and on its own loop.  When the destructor has gone through `connections_`
and the loop has nothing left to do, it has been called, whether the connection had been closed
before, was closed meanwhile, or was still open. -/
theorem connections_destroyed_once {ops : List (DyingOp ℓ)}
    (hrun : Machine.run (step cfg) (initial cfg) ops = some s)
    (hassert : s.server.assertFailed = false) {c : ConnId} (hpos : 0 < c)
    (hlt : c < s.server.nextConnId) (hio : s.server.loopOf c ≠ cfg.base) :
    ((s.server.life c).countP LifeEvent.isDestroyed ≤ 1 ∧
      ∀ l active, .connectDestroyed l active ∈ s.server.life c → l = s.server.loopOf c) ∧
    (s.Finished cfg → (s.server.loops (s.server.loopOf c)).agenda = [] →
      (s.server.loops (s.server.loopOf c)).pendingFunctors = [] →
      (s.server.life c).countP LifeEvent.isDestroyed = 1) := by
  have hs := run_tracked hrun hassert
  have htotal := hs.counted c hpos hlt hio
  have hmade : (s.server.ledger cfg c).total = (s.server.life c).countP LifeEvent.isDestroyed +
      ((s.server.loops (s.server.loopOf c)).items c).count .destroy := by
    rw [List.countP_eq_length_filter]
    rfl
  refine ⟨⟨?_, fun l active hmem => ?_⟩, ?_⟩
  · rw [hmade] at htotal
    split_ifs at htotal <;> omega
  · exact (hs.placed c).made l active (List.mem_filter.mpr ⟨hmem, rfl⟩)
  · rintro ⟨visited, hvisited, hall⟩ hagenda hpending
    have hidle : ((s.server.loops (s.server.loopOf c)).items c).count .destroy = 0 := by
      rw [LoopThread.items, hagenda, hpending]
      rfl
    rw [hmade, hidle, Nat.add_zero, if_neg] at htotal
    · exact htotal
    · rintro ⟨hentry, hnew⟩
      refine hnew ?_
      rw [hvisited]
      exact hall c (beq_iff_eq.mp hentry)

/-- A connection is accepted, and its peer hangs up.  While its loop makes the connection callback,
the server is destroyed: `removeConnectionInLoop` is left in the queue of the base loop. -/
def closedMeanwhile : List (DyingOp Bool) :=
  let readable : Revents := ⟨true, false, false, false, false, false⟩
  let hungUp : Revents := ⟨false, false, false, false, true, false⟩
  [.server (.loop false (.poll [(.acceptor, readable)])), .server (.loop false .next),
    .server (.loop false (.accept (true, ⟨false, false, 1024⟩))), .server (.loop false .next),
    .server (.loop true (.poll [])), .server (.loop true .next), .server (.loop true .next),
    .server (.loop true .ret), .server (.loop true (.poll [(.conn 1, hungUp)])),
    .server (.loop true .next), .server (.loop true .next), .destroy, .visit 1,
    .server (.loop true .ret), .server (.loop true .next), .server (.loop true .next),
    .server (.loop true .next)]

open ServerLoops (twoLoops) in
theorem connections_destroyed_once_meanwhile :
    ∃ s, Machine.run (step twoLoops) (initial twoLoops) closedMeanwhile = some s ∧
      (s.server.loops false).pendingFunctors.length = 1 ∧
      (s.server.life 1).countP LifeEvent.isDestroyed = 1 := by
  have hrun : (Machine.run (step twoLoops) (initial twoLoops) closedMeanwhile).map
      (fun s => (s.server.assertFailed, s.server.nextConnId, s.server.loopOf 1, s.visited)) =
      some (false, 2, true, some [1]) := by
    decide +kernel
  have hqueues : (Machine.run (step twoLoops) (initial twoLoops) closedMeanwhile).map
      (fun s => ((s.server.loops true).agenda.length, (s.server.loops true).pendingFunctors.length,
        (s.server.loops false).pendingFunctors.length,
        s.server.connections (twoLoops.connName 0))) = some (0, 0, 1, none) := by
    decide +kernel
  obtain ⟨s, hs, hview⟩ := Option.map_eq_some_iff.mp hrun
  rw [hs, Option.map_some] at hqueues
  have hqueues := Option.some.inj hqueues
  simp only [Prod.mk.injEq] at hview
  simp only [Prod.mk.injEq, List.length_eq_zero_iff] at hqueues
  obtain ⟨hassert, hnext, hloop, hvisited⟩ := hview
  obtain ⟨hagenda, hpending, hbase, hzero⟩ := hqueues
  have hfinished : s.Finished twoLoops := by
    refine ⟨[1], hvisited, fun c hc => ?_⟩
    have hlt := ((run_tracked hs hassert).named _ _ hc).2
    rw [hnext] at hlt
    obtain rfl | rfl := Nat.le_one_iff_eq_zero_or_eq_one.mp (Nat.le_of_lt_succ hlt)
    · cases hzero.symm.trans hc
    · exact List.mem_singleton.mpr rfl
  refine ⟨s, hs, hbase, (connections_destroyed_once hs hassert (c := 1) (by decide) ?_ ?_).2
    hfinished ?_ ?_⟩
  · rw [hnext]
    decide
  · rw [hloop]
    decide
  · rw [hloop]
    exact hagenda
  · rw [hloop]
    exact hpending

end DyingServer
end ReMuduo
