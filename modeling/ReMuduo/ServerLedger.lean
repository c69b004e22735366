import ReMuduo.LifeCycle

/-! # Who asks for `connectDestroyed`

The `Ledger` of a connection is what is on record about its destruction: the calls of
`connectDestroyed` that were made, and the functors on each loop that will make one.  A step of
the server changes the ledgers in three ways only (`Settles`): a functor makes its call,
`removeConnectionInLoop` queues one, and a new connection begins with none.

Unlike what `ReMuduo.ServerSteps` says of the views, this does not rest on the order in which a
connection is closed and destroyed, so that it also holds while a server is being destroyed. -/
namespace ReMuduo

def LifeEvent.isDestroyed {ℓ : Type} : LifeEvent ℓ → Bool
  | .connectDestroyed _ _ => true
  | _ => false

/-- What is on record about the destruction of a connection: the calls that were made, and on
each loop the functors that will make one. -/
@[ext] structure Ledger (ℓ : Type) where
  loop : ℓ
  entry : Bool
  made : List (LifeEvent ℓ)
  pending : ℓ → Nat

namespace Ledger

variable {ℓ : Type} [DecidableEq ℓ]

/-- A functor is queued on the connection's loop. -/
def order (g : Ledger ℓ) : Ledger ℓ :=
  { g with pending := Function.update g.pending g.loop (g.pending g.loop + 1) }

/-- Loop `l` calls `connectDestroyed`. -/
def make (g : Ledger ℓ) (l : ℓ) (active : Option ActiveChannel) : Ledger ℓ :=
  { g with made := g.made ++ [.connectDestroyed l active] }

/-- The calls made and to be made, on the connection's loop. -/
def total (g : Ledger ℓ) : Nat := g.made.length + g.pending g.loop

/-- All of them are on the connection's loop. -/
structure Placed (g : Ledger ℓ) : Prop where
  made : ∀ l active, .connectDestroyed l active ∈ g.made → l = g.loop
  pending : ∀ l, 0 < g.pending l → l = g.loop

theorem total_order (g : Ledger ℓ) : g.order.total = g.total + 1 := by
  simp [total, order, Nat.add_assoc]

theorem Placed.order {g : Ledger ℓ} (h : g.Placed) : g.order.Placed := by
  refine ⟨h.made, fun l hl => ?_⟩
  by_cases hloop : l = g.loop
  · exact hloop
  · simp only [Ledger.order, Function.update_of_ne hloop] at hl
    exact h.pending l hl

omit [DecidableEq ℓ] in
theorem Placed.make {g : Ledger ℓ} (h : g.Placed) {l : ℓ} (hl : l = g.loop)
    (active : Option ActiveChannel) : (g.make l active).Placed := by
  refine ⟨fun l' active' hmem => ?_, h.pending⟩
  rcases List.mem_append.mp hmem with hmem | hmem
  · exact h.made l' active' hmem
  · cases List.mem_singleton.mp hmem
    exact hl

/-- A functor that was pending on the connection's loop makes the call. -/
theorem total_run (g : Ledger ℓ) (active : Option ActiveChannel) {n : Nat}
    (hpending : g.pending g.loop = n + 1) :
    Ledger.total { g.make g.loop active with
      pending := Function.update g.pending g.loop n } = g.total := by
  simp only [total, make, Function.update_self, List.length_append, List.length_singleton, hpending]
  omega

theorem Placed.run {g : Ledger ℓ} (h : g.Placed) {l : ℓ} (hl : l = g.loop)
    (active : Option ActiveChannel) (n : Nat) :
    Ledger.Placed { g.make l active with pending := Function.update g.pending l n } := by
  refine ⟨(h.make hl active).made, fun l' hl' => ?_⟩
  by_cases hsame : l' = l
  · exact hsame.trans hl
  · simp only [Function.update_of_ne hsame] at hl'
    exact h.pending l' hl'

end Ledger

/-- The item of a task is the destruction of `c`. -/
def LoopTask.Destroys (c : ConnId) (x : LoopTask AfterCallback ServerFunctor) : Prop :=
  x.about = some (c, .destroy)

theorem Item.count_of {c : ConnId} {o : Option (ConnId × Item)} (h : o ≠ some (c, .destroy)) :
    (Item.of c o).count .destroy = 0 :=
  List.count_eq_zero.mpr fun hmem => h (Item.mem_of hmem)

def ConnView.ledger {ℓ : Type} (v : ConnView ℓ) : Ledger ℓ where
  loop := v.loop
  entry := v.entry
  made := v.life.filter LifeEvent.isDestroyed
  pending := fun l => (v.items l).count .destroy

/-- `removeConnectionInLoop` orders a call. -/
theorem ConnView.ledger_removed {ℓ : Type} [DecidableEq ℓ] (v : ConnView ℓ) (n : Nat) :
    (ConnView.add { v with entry := false, life := v.life ++ [.removeConnectionInLoop n] }
      v.loop .destroy).ledger = { v.ledger.order with entry := false } := by
  refine Ledger.ext rfl rfl ?_ (funext fun l => ?_)
  · simp [ConnView.ledger, ConnView.add, ConnView.set, Ledger.order, LifeEvent.isDestroyed]
  · by_cases hl : l = v.loop
    · subst hl
      simp [ConnView.ledger, ConnView.add, ConnView.set, Ledger.order]
    · simp [ConnView.ledger, ConnView.add, ConnView.set, Ledger.order, hl]

namespace ServerLoops

variable {ℓ : Type} [DecidableEq ℓ] (cfg : ServerConfig ℓ)

def ledger (s : ServerLoops ℓ) (c : ConnId) : Ledger ℓ := (s.view cfg c).ledger

variable {cfg} {s s' : ServerLoops ℓ} {l : ℓ} {c d : ConnId} {task : ServerTask}
  {rest : List ServerTask}

/-! ## The ledgers after the parts of a step -/

omit [DecidableEq ℓ] in
theorem ledger_of_view (h : s'.view cfg c = s.view cfg c) : s'.ledger cfg c = s.ledger cfg c :=
  congrArg ConnView.ledger h

theorem ledger_onLoop {f : ServerThread → ServerThread} (c : ConnId)
    (h : ((f (s.loops l)).items c).count .destroy = ((s.loops l).items c).count .destroy) :
    (s.onLoop l f).ledger cfg c = s.ledger cfg c := by
  refine Ledger.ext rfl rfl rfl (funext fun l' => ?_)
  by_cases hl : l' = l
  · subst hl
    simpa [ledger, ConnView.ledger, view, onLoop] using h
  · simp [ledger, ConnView.ledger, view, onLoop, hl]

theorem ledger_post_connectDestroyed (c : ConnId) :
    (s.post (s.loopOf c) (.connectDestroyed c)).ledger cfg c = (s.ledger cfg c).order := by
  refine Ledger.ext rfl rfl rfl (funext fun l => ?_)
  by_cases hl : l = s.loopOf c
  · subst hl
    simp [ledger, ConnView.ledger, view, post, onLoop, Ledger.order, LoopThread.items_post,
      ServerFunctor.about]
  · simp [ledger, ConnView.ledger, view, post, onLoop, Ledger.order, hl]

theorem ledger_take (hagenda : (s.loops l).agenda = task :: rest) (h : ¬task.Destroys c) :
    (s.take l rest).ledger cfg c = s.ledger cfg c := by
  refine ledger_onLoop c ?_
  rw [LoopThread.items_take hagenda c, List.count_append, Item.count_of h, Nat.zero_add]

omit [DecidableEq ℓ] in
/-- **What a deed does to the ledger of its connection**: it may make calls, and orders none unless
it removes the connection. -/
theorem Fits.ledger_self {t : ServerLoops ℓ} {w : Deed ℓ} (hw : Fits cfg t l c task w)
    (hremoves : ¬Removes cfg l c task) :
    (s.perform c w).ledger cfg c =
      { s.ledger cfg c with
        made := (s.ledger cfg c).made ++ w.notes.filter LifeEvent.isDestroyed } := by
  have htasks : ∀ l', ((w.tasks l').flatMap fun x => Item.of c x.about).count .destroy = 0 := by
    intro l'
    refine List.count_eq_zero.mpr fun hmem => ?_
    obtain ⟨x, hx, hmem⟩ := List.mem_flatMap.mp hmem
    cases hw.tasks l' x hx <;> cases Item.mem_of hmem
  have hfunctors : ∀ l',
      ((w.functors l').flatMap fun f => Item.of c f.about).count .destroy = 0 := by
    intro l'
    refine List.count_eq_zero.mpr fun hmem => ?_
    obtain ⟨f, hf, hmem⟩ := List.mem_flatMap.mp hmem
    cases hw.functors l' f hf with
    | connectDestroyed htask => exact hremoves htask
    | user | raw | connectEstablished | removeConnectionInLoop => cases Item.mem_of hmem
  simp [ledger, ConnView.ledger, view, perform, LoopThread.items, htasks, hfunctors]

omit [DecidableEq ℓ] in
theorem Fits.ledger {t : ServerLoops ℓ} {w : Deed ℓ} (hw : Fits cfg t l c task w)
    (hremoves : ¬Removes cfg l c task) (htask : task ≠ .functor (.connectDestroyed c)) :
    (s.perform c w).ledger cfg c = s.ledger cfg c := by
  have hnotes : w.notes.filter LifeEvent.isDestroyed = [] := by
    refine List.filter_eq_nil_iff.mpr fun e he hdestroyed => ?_
    cases hw.notes e he with
    | connectDestroyed h => exact htask h
    | newConnection | connectEstablished | handleClose | removeConnectionInLoop | removeChannel =>
      cases hdestroyed
  rw [hw.ledger_self hremoves, hnotes, List.append_nil]

/-- `connectDestroyed` is one call, and orders nothing. -/
theorem ledger_connectDestroyed (l : ℓ) (c : ConnId) :
    (s.connectDestroyed l c).ledger cfg c =
      (s.ledger cfg c).make l (s.loops l).currentActiveChannel := by
  have hnotes : (s.connectDestroyedDeed l c).notes.filter LifeEvent.isDestroyed =
      [.connectDestroyed l (s.loops l).currentActiveChannel] := by
    unfold connectDestroyedDeed removeChannelDeed
    split_ifs <;> rfl
  rw [connectDestroyed_perform, (connectDestroyedDeed_fits s l c).ledger_self, hnotes]
  · rfl
  · rintro (⟨h, -⟩ | h) <;> cases h

/-! ## Connections that are still to come -/

/-- Nothing is known of a connection that has not been accepted. -/
structure Known (cfg : ServerConfig ℓ) (s : ServerLoops ℓ) : Prop extends Named cfg s where
  unborn : ∀ c, s.nextConnId ≤ c → s.view cfg c = (initial cfg).view cfg c

omit [DecidableEq ℓ] in
theorem Known.lt_of_item (hs : s.Known cfg) {i : Item} (hi : i ∈ (s.view cfg c).items l) :
    c < s.nextConnId := by
  by_contra hc
  rw [hs.unborn c (Nat.le_of_not_lt hc)] at hi
  cases hi

theorem Known.lt_of_task (hs : s.Known cfg) (hagenda : (s.loops l).agenda = task :: rest)
    {i : Item} (habout : task.about = some (c, i)) : c < s.nextConnId :=
  hs.lt_of_item (mem_items_of_agenda cfg hagenda habout)

/-- `removeConnectionInLoop` of a connection that was accepted. -/
theorem removeConnectionInLoop_cases (hs : s.Named cfg) (hc : c < s.nextConnId) :
    s.connections (cfg.connName c) = some c ∨
      s.removeConnectionInLoop cfg c =
        { s.note c (.removeConnectionInLoop 0) with assertFailed := true } := by
  cases hsome : (s.connections (cfg.connName c)).isSome with
  | true => exact Or.inl (hs.entry_of_isSome hc hsome)
  | false => exact Or.inr (if_neg (by simp [hsome]))

/-! ## What a step does to the ledgers -/

/-- The ledgers stay as they are. -/
structure Still (cfg : ServerConfig ℓ) (s s' : ServerLoops ℓ) : Prop where
  ledger : ∀ d, s'.ledger cfg d = s.ledger cfg d
  view : ∀ d, s.nextConnId ≤ d → s'.view cfg d = s.view cfg d
  members : s'.members = s.members

/-- What a step does: it calls `connectDestroyed`, or removes a connection, or accepts one, or
leaves the ledgers as they are.  When the assertion of `removeConnectionInLoop` fails, nothing
matters any more. -/
inductive Settles (cfg : ServerConfig ℓ) (s s' : ServerLoops ℓ) : Prop
  | still (h : Still cfg s s')
  | makes (c : ConnId) (l : ℓ) (active : Option ActiveChannel) (n : Nat) (hc : c < s.nextConnId)
      (hpending : (s.ledger cfg c).pending l = n + 1)
      (hself : s'.ledger cfg c = { (s.ledger cfg c).make l active with
        pending := Function.update (s.ledger cfg c).pending l n })
      (hother : ∀ d, d ≠ c → s'.view cfg d = s.view cfg d)
      (hmembers : s'.members = s.members)
  | removes (c : ConnId) (l : ℓ) (task : ServerTask) (rest : List ServerTask)
      (hc : c < s.nextConnId) (hagenda : (s.loops l).agenda = task :: rest)
      (htask : Removes cfg l c task)
      (hentry : (s.ledger cfg c).entry = true)
      (hself : s'.ledger cfg c = { (s.ledger cfg c).order with entry := false })
      (hother : ∀ d, d ≠ c → s'.view cfg d = s.view cfg d)
      (hkept : Kept cfg s s') (hnext : s'.nextConnId = s.nextConnId)
  | refused (hfailed : s'.assertFailed = true)
  | accepts (io : ℓ)
      (hself : s'.ledger cfg s.nextConnId = { s.ledger cfg s.nextConnId with
        loop := io, entry := true })
      (hother : ∀ d, d ≠ s.nextConnId → s'.view cfg d = s.view cfg d)
      (hkept : Kept cfg s s') (hnext : s'.nextConnId = s.nextConnId + 1)

omit [DecidableEq ℓ] in
/-- A step that is about one connection, and leaves its ledger as it is. -/
theorem Still.one (hc : c < s.nextConnId) (hself : s'.ledger cfg c = s.ledger cfg c)
    (hother : ∀ d, d ≠ c → s'.view cfg d = s.view cfg d) (hmembers : s'.members = s.members) :
    Still cfg s s' := by
  refine ⟨fun d => ?_, fun d hd => ?_, hmembers⟩
  · by_cases hd : d = c
    · exact hd ▸ hself
    · exact ledger_of_view (hother d hd)
  · exact hother d (Nat.ne_of_gt (Nat.lt_of_lt_of_le hc hd))

omit [DecidableEq ℓ] in
/-- A step that changes no view. -/
theorem Still.idle (hview : ∀ d, s'.view cfg d = s.view cfg d)
    (hmembers : s'.members = s.members) : Still cfg s s' :=
  ⟨fun d => ledger_of_view (hview d), fun d _ => hview d, hmembers⟩

omit [DecidableEq ℓ] in
theorem Still.trans {s'' : ServerLoops ℓ} (h : Still cfg s s') (h' : Still cfg s' s'') :
    Still cfg s s'' := by
  have hnext : s'.nextConnId = s.nextConnId := congrArg (fun m => m.2.1) h.members
  refine ⟨fun d => (h'.ledger d).trans (h.ledger d), fun d hd => ?_, h'.members.trans h.members⟩
  exact (h'.view d (hnext ▸ hd)).trans (h.view d hd)

theorem remove_settles (hs : s.Known cfg) (hagenda : (s.loops l).agenda = task :: rest)
    (htask : Removes cfg l c task) :
    Settles cfg s ((s.take l rest).removeConnectionInLoop cfg c) := by
  obtain ⟨i, habout, hi⟩ : ∃ i, task.about = some (c, i) ∧ i ≠ .destroy := by
    rcases htask with ⟨rfl, -⟩ | rfl
    · exact ⟨.close, rfl, by decide⟩
    · exact ⟨.remove, rfl, by decide⟩
  have hno : ¬task.Destroys c := by
    intro hd
    cases habout.symm.trans hd
    exact hi rfl
  have hc := hs.lt_of_task hagenda habout
  have htake : Kept cfg s (s.take l rest) := .of_members rfl
  rcases removeConnectionInLoop_cases (htake.named hs.toNamed) hc with hentry | hfails
  · have hsome : ((s.take l rest).connections (cfg.connName c)).isSome = true := by simp [hentry]
    have hperform := removeConnectionInLoop_perform hsome
    have hfits : Fits cfg (s.take l rest) l c task _ := removeDeed_fits _ htask
    refine .removes c l task rest hc hagenda htask (beq_iff_eq.mpr hentry) ?_ (fun d hd => ?_)
      (hperform ▸ (htake.trans (erase_kept c)).trans (.of_members rfl)) (hperform ▸ rfl)
    · rw [← ledger_take hagenda hno, ledger, view_remove hentry]
      exact ((s.take l rest).view cfg c).ledger_removed 1
    · rw [hperform, hfits.view_ne hd, view_erase_ne hentry hd, view_take_other hagenda habout hd]
  · exact .refused (by rw [hfails])

theorem destroyed_settles (hs : s.Known cfg)
    (hagenda : (s.loops l).agenda = .functor (.connectDestroyed c) :: rest) :
    Settles cfg s ((s.take l rest).connectDestroyed l c) := by
  have habout : (.functor (.connectDestroyed c) : ServerTask).about = some (c, .destroy) := rfl
  have hpending : (s.ledger cfg c).pending l =
      ((s.take l rest).ledger cfg c).pending l + 1 := by
    simp only [ledger, ConnView.ledger, view, take, onLoop, Function.update_self]
    rw [LoopThread.items_take hagenda c, habout, Item.of_self, List.count_append,
      List.count_singleton_self, Nat.add_comm]
  have hpop : (s.take l rest).ledger cfg c = { s.ledger cfg c with
      pending := Function.update (s.ledger cfg c).pending l
        (((s.take l rest).ledger cfg c).pending l) } := by
    refine Ledger.ext rfl rfl rfl (funext fun l' => ?_)
    by_cases hl : l' = l
    · subst hl
      dsimp only
      rw [Function.update_self]
    · dsimp only
      rw [Function.update_of_ne hl]
      simp [ledger, ConnView.ledger, view, take, onLoop, hl]
  refine .makes c l ((s.take l rest).loops l).currentActiveChannel _
    (hs.lt_of_task hagenda habout) hpending ?_ (fun d hd => ?_) ?_
  · rw [ledger_connectDestroyed]
    exact congrArg (fun g => g.make l ((s.take l rest).loops l).currentActiveChannel) hpop
  · rw [connectDestroyed_perform, (connectDestroyedDeed_fits _ l c).view_ne hd,
      view_take_other hagenda habout hd]
  · rw [connectDestroyed_perform]
    rfl

/-- A deed for the connection that the task is about, which neither removes nor destroys it. -/
theorem Fits.still (hs : s.Known cfg) (hagenda : (s.loops l).agenda = task :: rest) {i : Item}
    (habout : task.about = some (c, i)) (hi : i ≠ .destroy) (hremoves : ¬Removes cfg l c task)
    {w : Deed ℓ} (hw : Fits cfg (s.take l rest) l c task w) :
    Still cfg s ((s.take l rest).perform c w) := by
  have hno : ¬task.Destroys c := by
    intro hd
    cases habout.symm.trans hd
    exact hi rfl
  refine .one (hs.lt_of_task hagenda habout) ?_ (fun d hd => ?_) rfl
  · rw [hw.ledger hremoves (fun h => hno (h ▸ rfl)), ledger_take hagenda hno]
  · exact (hw.view_ne hd).trans (view_take_other hagenda habout hd)

theorem accept_settles (hs : s.Known cfg) (hagenda : (s.loops l).agenda = task :: rest)
    (htask : task = .callback .acceptor .read) (hlimit : s.nextConnId < intLimit) (io : ℓ)
    (o : ConnOptions) : Settles cfg s ((s.take l rest).newConnection cfg io o.connection) := by
  have htake : Kept cfg s (s.take l rest) := .of_members rfl
  have hkept : Kept cfg s ((s.take l rest).enlist cfg io) :=
    htake.trans (enlist_kept (s := s.take l rest) hlimit io)
  have hfits : Fits cfg (s.take l rest) l s.nextConnId task _ :=
    newDeed_fits (s.take l rest) l io o task
  have hnone : Item.of s.nextConnId task.about = [] := htask ▸ rfl
  rw [newConnection_perform]
  refine .accepts io ?_ (fun d hd => ?_) (hkept.trans (.of_members rfl)) rfl
  · refine (hfits.ledger ?_ ?_).trans ?_
    · rw [htask]
      rintro (⟨h, -⟩ | h) <;> cases h
    · rw [htask]
      nofun
    · rw [← ledger_take hagenda fun h => by cases htask ▸ h]
      simp [ledger, ConnView.ledger, view, enlist, take, onLoop]
  · refine (hfits.view_ne hd).trans ?_
    rw [view_enlist_ne (htake.named hs.toNamed) hlimit io hd]
    exact view_take_ne hagenda (htask ▸ rfl)

/-- Events of channels are about connections that have been accepted. -/
theorem events_still {f : ServerThread → ServerThread} (tasks : List ServerTask)
    (hf : ∀ c, (f (s.loops l)).items c =
      tasks.flatMap (fun x => Item.of c x.about) ++ (s.loops l).items c)
    (htasks : ∀ x ∈ tasks, ∀ c i, x.about = some (c, i) → i = .event ∧ c < s.nextConnId) :
    Still cfg s (s.onLoop l f) := by
  refine ⟨fun d => ledger_onLoop d ?_, fun d hd => view_onLoop_of_items ?_, rfl⟩
  · rw [hf, List.count_append]
    have hnone : (tasks.flatMap fun x => Item.of d x.about).count .destroy = 0 := by
      refine List.count_eq_zero.mpr fun hmem => ?_
      obtain ⟨x, hx, hmem⟩ := List.mem_flatMap.mp hmem
      cases (htasks x hx d _ (Item.mem_of hmem)).1
    rw [hnone, Nat.zero_add]
  · have hnone : (tasks.flatMap fun x => Item.of d x.about) = [] := by
      refine List.flatMap_eq_nil_iff.mpr fun x hx => ?_
      refine List.eq_nil_iff_forall_not_mem.mpr fun i hi => ?_
      exact absurd (htasks x hx d i (Item.mem_of hi)).2 (Nat.not_lt.mpr hd)
    rw [hf, hnone, List.nil_append]

/-- Taking a task that is about no connection. -/
theorem take_idle_still (hagenda : (s.loops l).agenda = task :: rest)
    (habout : task.about = none) : Still cfg s (s.take l rest) :=
  .idle (fun d => view_take_ne hagenda (by rw [habout, Item.of_none])) rfl

/-- Taking a task that only hands something to the connection. -/
theorem take_still (hs : s.Known cfg) (hagenda : (s.loops l).agenda = task :: rest)
    (htask : ∀ c i, task.about = some (c, i) → i = .event) : Still cfg s (s.take l rest) := by
  cases habout : task.about with
  | none => exact take_idle_still hagenda habout
  | some p =>
    obtain ⟨c, i⟩ := p
    refine .one (hs.lt_of_task hagenda habout) (ledger_take hagenda fun h => ?_)
      (fun d hd => view_take_other hagenda habout hd) rfl
    cases htask c _ h

/-- The functors keep their number when they are taken. -/
theorem doPendingFunctors_still (hs : s.Known cfg)
    (hagenda : (s.loops l).agenda = .doPendingFunctors :: rest) :
    Still cfg s ((s.take l rest).onLoop l (·.doPendingFunctors)) := by
  have hitems : ∀ d, ((s.take l rest).loops l).doPendingFunctors.items d =
      (s.loops l).pendingFunctors.flatMap (fun f => Item.of d f.about) ++
        rest.flatMap (fun x => Item.of d x.about) := by
    intro d
    simp [LoopThread.items, LoopThread.doPendingFunctors, take, LoopThread.take, onLoop,
      List.flatMap_map, LoopTask.about]
  have hold : ∀ d, ((s.take l rest).loops l).items d =
      rest.flatMap (fun x => Item.of d x.about) ++
        (s.loops l).pendingFunctors.flatMap (fun f => Item.of d f.about) := by
    intro d
    simp [LoopThread.items, take, LoopThread.take, onLoop]
  refine .trans (take_idle_still hagenda rfl) ⟨fun d => ?_, fun d hd => ?_, rfl⟩
  · refine ledger_onLoop d ?_
    rw [hitems, hold, List.count_append, List.count_append, Nat.add_comm]
  · have hview : (s.take l rest).view cfg d = (initial cfg).view cfg d :=
      (view_take_ne hagenda rfl).trans (hs.unborn d hd)
    have hnone : ((s.take l rest).loops l).items d = [] :=
      congrArg (fun v : ConnView ℓ => v.items l) hview
    obtain ⟨hrest, hfunctors⟩ := List.append_eq_nil_iff.mp ((hold d).symm.trans hnone)
    refine view_onLoop_of_items ?_
    rw [hitems, hold, hrest, hfunctors]

/-- **What a task does to the ledgers.** -/
theorem Done.settles {e : ServerEvent ℓ} (hs : s.Known cfg)
    (hagenda : (s.loops l).agenda = task :: rest) (h : Done cfg (s.take l rest) l task e s') :
    Settles cfg s s' := by
  -- only `removeConnectionInLoop`, and `closeCallback_` on the base loop, remove connections
  have hremoves : ∀ c, (∀ d, task ≠ .functor (.removeConnectionInLoop d)) →
      (∀ d, task = .resume (.closing d) → l ≠ cfg.base) → ¬Removes cfg l c task := by
    rintro c hfunctor hclosing (⟨htask, hl⟩ | htask)
    · exact hclosing c htask hl
    · exact hfunctor c htask
  cases h with
  | closing c =>
    unfold removeConnection
    split_ifs with hl
    · exact remove_settles hs hagenda (.inl ⟨rfl, hl⟩)
    · rw [post_perform c]
      refine .still (Fits.still hs hagenda rfl (by decide) (hremoves c (by simp) fun _ _ => hl)
        { idle_fits cfg _ l c _ with functors := fun l' f hf => ?_ })
      obtain ⟨rfl, hmem⟩ := mem_onlyOn.mp hf
      rw [List.mem_singleton.mp hmem]
      exact .removeConnectionInLoop
  | destroying c =>
    rw [removeChannel_perform]
    exact .still (Fits.still hs hagenda rfl (by decide) (hremoves c (by simp) (by simp))
      (removeChannelDeed_fits _ l c (.inr rfl)))
  | handleEvent channel revents =>
    have hevent : ∀ c i, (.handleEvent channel revents : ServerTask).about = some (c, i) →
        channel = .conn c ∧ i = .event := by
      intro c i h
      cases channel <;> cases h
      exact ⟨rfl, rfl⟩
    refine .still (.trans (take_still hs hagenda fun c i h => (hevent c i h).2)
      (events_still (LoopThread.eventTasks channel revents)
        (fun c => by simp [LoopThread.items, LoopThread.handleEvent]) ?_))
    intro x hx c i hi
    obtain ⟨cb, rfl⟩ := LoopThread.mem_eventTasks hx
    cases channel <;> cases hi
    exact ⟨rfl, hs.lt_of_task hagenda (c := c) rfl⟩
  | event c cb e he r hr =>
    rw [after_perform]
    exact .still (Fits.still hs hagenda rfl (by decide) (hremoves c (by simp) (by simp))
      (afterDeed_fits l (.served cb rfl r hr)))
  | accept io o hlimit => exact accept_settles hs hagenda rfl hlimit io o
  | skip channel cb e he =>
    refine .still (take_still hs hagenda fun c i h => ?_)
    cases channel <;> cases h
    rfl
  | timer => exact .still (.trans (take_idle_still hagenda rfl) (.idle (view_push_user l) rfl))
  | doPendingFunctors => exact .still (doPendingFunctors_still hs hagenda)
  | established c =>
    rw [connectEstablished_perform]
    exact .still (Fits.still hs hagenda rfl (by decide) (hremoves c (by simp) (by simp))
      (connectEstablished_fits _ l c))
  | remove c => exact remove_settles hs hagenda (.inr rfl)
  | destroyed c => exact destroyed_settles hs hagenda
  | raw c f e he r hr =>
    rw [after_perform]
    exact .still (Fits.still hs hagenda rfl (by decide) (hremoves c (by simp) (by simp))
      (afterDeed_fits l (.called r hr)))
  | user => exact .still (.trans (take_idle_still hagenda rfl) (.idle (view_push_user l) rfl))

/-- **What a step does to the ledgers.** -/
theorem Step.settles {op : ServerOp ℓ} (hs : s.Known cfg) (h : Step cfg s op s') :
    Settles cfg s s' := by
  -- a call does its work for one connection that has been accepted
  have hcall : ∀ {l c w}, c < s.nextConnId → Fits cfg s l c .user w →
      Settles cfg s (s.perform c w) := fun {l c w} hc hw =>
    .still (.one hc (hw.ledger (by rintro (⟨h, -⟩ | h) <;> cases h) nofun)
      (fun d hd => hw.view_ne hd) rfl)
  cases h with
  | poll l batch hagenda hregistered =>
    refine .still (events_still _ (fun c => LoopThread.items_push ..) fun x hx c i hi => ?_)
    rcases List.mem_append.mp hx with hx | hx
    · obtain ⟨⟨channel, revents⟩, hp, rfl⟩ := List.mem_map.mp hx
      cases channel <;> cases hi
      obtain ⟨-, hepoll⟩ := hregistered _ hp
      refine ⟨rfl, ?_⟩
      by_contra hc
      -- the channel of a connection that is still to come is not in the epoll set
      have hnone : (s.view cfg c).epoll = false :=
        congrArg ConnView.epoll (hs.unborn c (Nat.le_of_not_lt hc))
      exact Bool.false_ne_true (hnone.symm.trans hepoll)
    · obtain rfl := List.mem_singleton.mp hx
      cases hi
  | call l u c r hc hl hagenda hr hearly =>
    rw [after_perform]
    exact hcall hc (afterDeed_fits l (.called r hr))
  | foreign op hop m c hc =>
    obtain ⟨w, hperform, hw, -⟩ := callForeign_perform cfg s (s.loopOf c) c m
    rw [hperform]
    exact hcall hc hw
  | queueInLoop l l' => exact .still (.idle (fun d => view_post_ne l' .user rfl) rfl)
  | ret l rest hagenda => exact .still (take_idle_still hagenda rfl)
  | task l task rest e s' hagenda huser hdone => exact hdone.settles hs hagenda

/-! ## What a step keeps -/

/-- Connections keep their loops. -/
def Keeps (s s' : ServerLoops ℓ) : Prop :=
  ∀ c, c < s.nextConnId → s'.loopOf c = s.loopOf c ∧ c < s'.nextConnId

/-- A step leaves the loops of connections alone, unless the assertion fails. -/
theorem Settles.keeps (h : Settles cfg s s') (hassert : s'.assertFailed = false) :
    s.Keeps s' := by
  have hview : ∀ c, s'.view cfg c = s.view cfg c → s'.loopOf c = s.loopOf c :=
    fun c hc => congrArg ConnView.loop hc
  intro c hc
  cases h with
  | still h =>
    have hnext : s'.nextConnId = s.nextConnId := congrArg (fun m => m.2.1) h.members
    exact ⟨congrArg Ledger.loop (h.ledger c), hnext ▸ hc⟩
  | makes d l active n hd hpending hself hother hmembers =>
    have hnext : s'.nextConnId = s.nextConnId := congrArg (fun m => m.2.1) hmembers
    refine ⟨?_, hnext ▸ hc⟩
    by_cases hcd : c = d
    · subst hcd
      exact congrArg Ledger.loop hself
    · exact hview c (hother c hcd)
  | removes d l task rest hd hagenda htask hentry hself hother hkept hnext =>
    refine ⟨?_, hnext ▸ hc⟩
    by_cases hcd : c = d
    · subst hcd
      exact congrArg Ledger.loop hself
    · exact hview c (hother c hcd)
  | refused hfailed => cases hassert.symm.trans hfailed
  | accepts io hself hother hkept hnext =>
    exact ⟨hview c (hother c (Nat.ne_of_lt hc)), hnext ▸ Nat.lt_succ_of_lt hc⟩

theorem Settles.known (h : Settles cfg s s') (hs : s.Known cfg)
    (hassert : s'.assertFailed = false) : s'.Known cfg := by
  cases h with
  | still h =>
    have hnext : s'.nextConnId = s.nextConnId := congrArg (fun m => m.2.1) h.members
    refine ⟨(Kept.of_members h.members).named hs.toNamed, fun c hc => ?_⟩
    rw [hnext] at hc
    exact (h.view c hc).trans (hs.unborn c hc)
  | makes d l active n hd hpending hself hother hmembers =>
    have hnext : s'.nextConnId = s.nextConnId := congrArg (fun m => m.2.1) hmembers
    refine ⟨(Kept.of_members hmembers).named hs.toNamed, fun c hc => ?_⟩
    rw [hnext] at hc
    exact (hother c (Nat.ne_of_gt (Nat.lt_of_lt_of_le hd hc))).trans (hs.unborn c hc)
  | removes d l task rest hd hagenda htask hentry hself hother hkept hnext =>
    refine ⟨hkept.named hs.toNamed, fun c hc => ?_⟩
    rw [hnext] at hc
    exact (hother c (Nat.ne_of_gt (Nat.lt_of_lt_of_le hd hc))).trans (hs.unborn c hc)
  | refused hfailed => cases hassert.symm.trans hfailed
  | accepts io hself hother hkept hnext =>
    refine ⟨hkept.named hs.toNamed, fun c hc => ?_⟩
    rw [hnext] at hc
    exact (hother c (Nat.ne_of_gt hc)).trans (hs.unborn c (Nat.le_of_succ_le hc))

omit [DecidableEq ℓ] in
/-- The ledger of a connection that is still to come is empty. -/
theorem Known.ledger_unborn (hs : s.Known cfg) (hc : s.nextConnId ≤ c) :
    s.ledger cfg c = (initial cfg).ledger cfg c :=
  ledger_of_view (hs.unborn c hc)

theorem Settles.placed (h : Settles cfg s s') (hs : s.Known cfg)
    (hplaced : ∀ c, (s.ledger cfg c).Placed) (hassert : s'.assertFailed = false) (c : ConnId) :
    (s'.ledger cfg c).Placed := by
  cases h with
  | still h => exact h.ledger c ▸ hplaced c
  | makes d l active n hd hpending hself hother hmembers =>
    by_cases hcd : c = d
    · subst hcd
      rw [hself]
      exact (hplaced c).run ((hplaced c).pending l (by omega)) active n
    · exact ledger_of_view (hother c hcd) ▸ hplaced c
  | removes d l task rest hd hagenda htask hentry hself hother hkept hnext =>
    by_cases hcd : c = d
    · subst hcd
      rw [hself]
      exact ⟨(hplaced c).order.made, (hplaced c).order.pending⟩
    · exact ledger_of_view (hother c hcd) ▸ hplaced c
  | refused hfailed => cases hassert.symm.trans hfailed
  | accepts io hself hother hkept hnext =>
    by_cases hcd : c = s.nextConnId
    · subst hcd
      rw [hself, hs.ledger_unborn (Nat.le_refl _)]
      refine ⟨fun l active hmem => ?_, fun l hl => ?_⟩
      · cases hmem
      · cases hl
    · exact ledger_of_view (hother c hcd) ▸ hplaced c

/-- Connections of I/O loops, of which `seen` have been visited by the destructor: until then, and
while the connection is in `connections_`, nobody has asked for `connectDestroyed`, and once has
been afterwards. -/
def Counted (cfg : ServerConfig ℓ) (s : ServerLoops ℓ) (seen : List ConnId) : Prop :=
  ∀ c, 0 < c → c < s.nextConnId → s.loopOf c ≠ cfg.base →
    (s.ledger cfg c).total = if (s.ledger cfg c).entry = true ∧ c ∉ seen then 0 else 1

omit [DecidableEq ℓ] in
/-- A connection whose ledger stays as it is. -/
theorem Counted.same {seen : List ConnId} (hs : s.Counted cfg seen)
    (hledger : s'.ledger cfg c = s.ledger cfg c) (hpos : 0 < c) (hlt : c < s.nextConnId)
    (hloop : s'.loopOf c ≠ cfg.base) :
    (s'.ledger cfg c).total = if (s'.ledger cfg c).entry = true ∧ c ∉ seen then 0 else 1 := by
  have hsame : s'.loopOf c = s.loopOf c := congrArg Ledger.loop hledger
  rw [hledger]
  exact hs c hpos hlt (hsame ▸ hloop)

theorem Settles.counted {seen : List ConnId} (h : Settles cfg s s') (hs : s.Known cfg)
    (hplaced : ∀ c, (s.ledger cfg c).Placed) (hcounted : s.Counted cfg seen)
    (hseen : ∀ c ∈ seen, c < s.nextConnId)
    (hfirst : ∀ c l task rest, (s.loops l).agenda = task :: rest →
      Removes cfg l c task →
      s.loopOf c ≠ cfg.base → c ∉ seen)
    (hassert : s'.assertFailed = false) : s'.Counted cfg seen := by
  intro c hpos hlt hloop
  cases h with
  | still h =>
    have hnext : s'.nextConnId = s.nextConnId := congrArg (fun m => m.2.1) h.members
    exact hcounted.same (h.ledger c) hpos (hnext ▸ hlt) hloop
  | makes d l active n hd hpending hself hother hmembers =>
    have hnext : s'.nextConnId = s.nextConnId := congrArg (fun m => m.2.1) hmembers
    rw [hnext] at hlt
    by_cases hcd : c = d
    · subst hcd
      obtain rfl := (hplaced c).pending l (by omega)
      have hsame : s'.loopOf c = s.loopOf c := congrArg Ledger.loop hself
      rw [hself, Ledger.total_run _ active hpending]
      exact hcounted c hpos hlt (hsame ▸ hloop)
    · exact hcounted.same (ledger_of_view (hother c hcd)) hpos hlt hloop
  | removes d l task rest hd hagenda htask hentry hself hother hkept hnext =>
    rw [hnext] at hlt
    by_cases hcd : c = d
    · subst hcd
      have hsame : s'.loopOf c = s.loopOf c := congrArg Ledger.loop hself
      have hold := hcounted c hpos hlt (hsame ▸ hloop)
      rw [if_pos ⟨hentry, hfirst c l task rest hagenda htask (hsame ▸ hloop)⟩] at hold
      have htotal : (s'.ledger cfg c).total = (s.ledger cfg c).order.total := by
        rw [hself]
        rfl
      rw [htotal, Ledger.total_order, hold, hself, if_neg (by simp)]
    · exact hcounted.same (ledger_of_view (hother c hcd)) hpos hlt hloop
  | refused hfailed => cases hassert.symm.trans hfailed
  | accepts io hself hother hkept hnext =>
    by_cases hcd : c = s.nextConnId
    · subst hcd
      have hnew : s.nextConnId ∉ seen := fun hmem => Nat.lt_irrefl _ (hseen _ hmem)
      rw [hself, hs.ledger_unborn (Nat.le_refl _), if_pos ⟨rfl, hnew⟩]
      rfl
    · have hlt' : c < s.nextConnId := by omega
      exact hcounted.same (ledger_of_view (hother c hcd)) hpos hlt' hloop

end ServerLoops
end ReMuduo
