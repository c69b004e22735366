import ReMuduo.ServerViews

/-! # What a step of the server is for each of its connections

Every step is, for each connection, a sequence of the small changes of
`ReMuduo.ConnectionViews` (`Step.moves`); the exception is a `removeConnectionInLoop` that
does not find the connection, on which the assertion fails.  What this needs of the state
(`Sound`) is kept by every step: what holds of the views, that names lead to their own
connections, and that loops are in one of two phases. -/
namespace ReMuduo
namespace ServerLoops

variable {ℓ : Type} [DecidableEq ℓ] {cfg : ServerConfig ℓ} {s s' s'' : ServerLoops ℓ} {l : ℓ}
  {c d : ConnId} {task : ServerTask} {rest : List ServerTask} {r : TcpConnection × List Effect}

/-! ## What a step may do -/

/-- A name leads to its own connection, and `nextConnId_` does not overflow. -/
structure Named (cfg : ServerConfig ℓ) (s : ServerLoops ℓ) : Prop where
  named : ∀ n c, s.connections n = some c → n = cfg.connName c ∧ c < s.nextConnId
  bound : s.nextConnId ≤ intLimit

/-- What a step keeps of the server's own members. -/
structure Kept (cfg : ServerConfig ℓ) (s s' : ServerLoops ℓ) : Prop where
  named : s.Named cfg → s'.Named cfg
  grows : s.nextConnId ≤ s'.nextConnId
  assert : s'.assertFailed = s.assertFailed

/-- What a step, or a part of it, does: small changes of connections that have been accepted. -/
structure Moves (cfg : ServerConfig ℓ) (s s' : ServerLoops ℓ) : Prop extends Kept cfg s s' where
  views : ∀ c, s'.view cfg c = s.view cfg c ∨
    c < s'.nextConnId ∧ ConnView.Changes cfg.base (s.view cfg c) (s'.view cfg c)

/-- `removeConnectionInLoop` does not find the connection. -/
structure Refused (cfg : ServerConfig ℓ) (s s' : ServerLoops ℓ) (c : ConnId) : Prop where
  item : ∃ l i, i ∈ (s.view cfg c).items l ∧ (i = .close ∨ i = .remove)
  entry : (s.view cfg c).entry = false
  life : s'.life = (s.note c (.removeConnectionInLoop 0)).life
  failed : s'.assertFailed = true

/-- What holds in every state that is reached. -/
structure Sound (cfg : ServerConfig ℓ) (s : ServerLoops ℓ) : Prop extends Named cfg s where
  sane : ∀ c, (s.view cfg c).Sane cfg.base
  unborn : ∀ c, s.nextConnId ≤ c → s.view cfg c = (initial cfg).view cfg c
  shaped : ∀ l, (s.loops l).Shaped

/-- The members that only `newConnection` and `removeConnectionInLoop` touch. -/
def members (s : ServerLoops ℓ) : (List Char → Option ConnId) × Nat × Bool :=
  (s.connections, s.nextConnId, s.assertFailed)

omit [DecidableEq ℓ] in
theorem Kept.of_members (h : s'.members = s.members) : Kept cfg s s' := by
  simp only [members, Prod.mk.injEq] at h
  obtain ⟨hconnections, hnext, hassert⟩ := h
  refine ⟨fun hs => ⟨?_, ?_⟩, Nat.le_of_eq hnext.symm, hassert⟩
  · rw [hconnections, hnext]
    exact hs.named
  · rw [hnext]
    exact hs.bound

omit [DecidableEq ℓ] in
theorem Kept.trans (h : Kept cfg s s') (h' : Kept cfg s' s'') : Kept cfg s s'' :=
  ⟨fun hs => h'.named (h.named hs), Nat.le_trans h.grows h'.grows, h'.assert.trans h.assert⟩

omit [DecidableEq ℓ] in
theorem Named.entry_of_isSome (h : s.Named cfg) (hc : c < s.nextConnId)
    (hsome : (s.connections (cfg.connName c)).isSome) :
    s.connections (cfg.connName c) = some c := by
  obtain ⟨d, hd⟩ := Option.isSome_iff_exists.mp hsome
  obtain ⟨hname, hlt⟩ := h.named _ _ hd
  have hcd : c = d := cfg.connName_injective (Nat.lt_of_lt_of_le hc h.bound)
    (Nat.lt_of_lt_of_le hlt h.bound) hname
  rw [hd, hcd]

theorem Moves.same (hviews : ∀ c, s'.view cfg c = s.view cfg c)
    (hmembers : s'.members = s.members) : Moves cfg s s' :=
  ⟨.of_members hmembers, fun c => Or.inl (hviews c)⟩

/-- A step that is about one connection. -/
theorem Moves.one (c : ConnId) (hother : ∀ d, d ≠ c → s'.view cfg d = s.view cfg d)
    (hc : c < s'.nextConnId) (h : ConnView.Changes cfg.base (s.view cfg c) (s'.view cfg c))
    (hkept : Kept cfg s s') : Moves cfg s s' := by
  refine ⟨hkept, fun d => ?_⟩
  by_cases hd : d = c
  · subst hd
    exact Or.inr ⟨hc, h⟩
  · exact Or.inl (hother d hd)

/-- A deed for a connection that has been accepted. -/
theorem Fits.moves {w : Deed ℓ} (hw : Fits cfg s l c task w) (hc : c < s.nextConnId)
    (h : ConnView.Changes cfg.base (s.view cfg c) ((s.perform c w).view cfg c)) :
    Moves cfg s (s.perform c w) :=
  .one c (fun _ hd => hw.view_ne hd) hc h (.of_members rfl)

theorem Moves.trans (h : Moves cfg s s') (h' : Moves cfg s' s'') : Moves cfg s s'' := by
  refine ⟨h.toKept.trans h'.toKept, fun c => ?_⟩
  rcases h.views c with heq | ⟨hc, hchanges⟩
  · exact heq ▸ h'.views c
  · refine Or.inr ⟨Nat.lt_of_lt_of_le hc h'.grows, ?_⟩
    rcases h'.views c with heq' | ⟨-, hchanges'⟩
    · exact heq' ▸ hchanges
    · exact hchanges.trans hchanges'

/-! ## The parts of a step -/

omit [DecidableEq ℓ] in
theorem Sound.lt_of_item (hs : s.Sound cfg) {i : Item} (hi : i ∈ (s.view cfg c).items l) :
    c < s.nextConnId := by
  by_contra hc
  rw [hs.unborn c (Nat.le_of_not_lt hc)] at hi
  cases hi

variable (cfg) in
theorem mem_items_of_agenda {i : Item} (hagenda : (s.loops l).agenda = task :: rest)
    (habout : task.about = some (c, i)) : i ∈ (s.view cfg c).items l := by
  obtain ⟨is, hitems, -⟩ := view_take cfg hagenda habout
  exact hitems ▸ List.mem_cons_self

/-- Taking a task that is about no connection. -/
theorem take_idle_moves (hagenda : (s.loops l).agenda = task :: rest)
    (habout : task.about = none) : Moves cfg s (s.take l rest) :=
  .same (fun c => view_take_ne hagenda (by rw [habout, Item.of_none])) rfl

/-- Taking a task that only hands something to the connection. -/
theorem Sound.take_moves (hs : s.Sound cfg) (hagenda : (s.loops l).agenda = task :: rest)
    (htask : ∀ c i, task.about = some (c, i) → i = .event ∨ i = .raw) :
    Moves cfg s (s.take l rest) := by
  cases habout : task.about with
  | none => exact take_idle_moves hagenda habout
  | some p =>
    obtain ⟨c, i⟩ := p
    have hi := htask c i habout
    have hmem := mem_items_of_agenda cfg hagenda habout
    have hplace : l = s.loopOf c := by
      have hplace := (hs.sane c).place l i hmem
      rw [if_neg (by rcases hi with rfl | rfl <;> nofun)] at hplace
      exact hplace
    refine .one c (fun d hd => view_take_ne hagenda ?_) (hs.lt_of_item hmem) ?_ (.of_members rfl)
    · rw [habout, Item.of_ne hd.symm]
    · obtain ⟨is, hitems, hview⟩ := view_take cfg hagenda habout
      subst hplace
      rw [hview]
      exact .single (.pop hitems hi)

/-- New events of channels. -/
theorem events_moves {f : ServerThread → ServerThread} (tasks : List ServerTask)
    (hf : ∀ c, (f (s.loops l)).items c =
      tasks.flatMap (fun x => Item.of c x.about) ++ (s.loops l).items c)
    (htasks : ∀ x ∈ tasks, ∀ c i, x.about = some (c, i) →
      i = .event ∧ s.loopOf c = l ∧ (s.conns c).state ≠ .kConnecting ∧ c < s.nextConnId) :
    Moves cfg s (s.onLoop l f) := by
  refine ⟨.of_members rfl, fun c => ?_⟩
  have hevents : ∀ i ∈ tasks.flatMap (fun x => Item.of c x.about),
      i = .event ∧ s.loopOf c = l ∧ (s.conns c).state ≠ .kConnecting ∧ c < s.nextConnId := by
    intro i hi
    obtain ⟨x, hx, hi⟩ := List.mem_flatMap.mp hi
    exact htasks x hx c i (Item.mem_of hi)
  rcases hnew : tasks.flatMap (fun x => Item.of c x.about) with - | ⟨i, is⟩
  · exact Or.inl (view_onLoop_of_items (by rw [hf, hnew, List.nil_append]))
  · obtain ⟨-, rfl, hstate, hc⟩ := hevents i (hnew ▸ List.mem_cons_self)
    refine Or.inr ⟨hc, ?_⟩
    rw [view_onLoop, hf, List.eq_replicate_of_mem fun i hi => (hevents i hi).1]
    exact .single (.events _ hstate)

/-- A method of an established connection. -/
theorem after_moves (hr : (s.conns c).Handler r)
    (hbecomes : Becomes (s.conns c) c s.nextConnId task r.1) (hl : s.loopOf c = l)
    (hc : c < s.nextConnId) (hstate : (s.conns c).state ≠ .kConnecting) :
    Moves cfg s (s.after l c r) := by
  rw [after_perform]
  refine (afterDeed_fits l hbecomes).moves hc ?_
  rw [← after_perform]
  by_cases hclose : .closeCallback ∈ r.2
  · rw [view_after_close l hclose, (hr.closes hclose).2, ← hl]
    exact .single (.close _ hstate)
  · rw [view_after_quiet l hclose]
    exact .single (.method _ _ hstate (hr.quiet hclose))

theorem post_raw_moves (f : ConnectionFunctor) (hc : c < s.nextConnId)
    (hstate : (s.conns c).state = .kConnected ∨ (s.conns c).state = .kDisconnecting) :
    Moves cfg s (s.post (s.loopOf c) (.raw c f)) := by
  refine .one c (fun d hd => view_post_ne _ _ (Item.of_ne hd.symm _)) hc ?_ (.of_members rfl)
  rw [view_post _ _ rfl]
  exact .single (.post hstate)

/-- `setState(kDisconnecting)` and the functor that goes with it. -/
theorem setState_post_moves (f : ConnectionFunctor) (hc : c < s.nextConnId)
    (hstate : (s.conns c).state = .kConnected ∨ (s.conns c).state = .kDisconnecting) :
    Moves cfg s ((s.setConn c { s.conns c with state := .kDisconnecting }).post (s.loopOf c)
      (.raw c f)) := by
  have hset : Moves cfg s (s.setConn c { s.conns c with state := .kDisconnecting }) := by
    refine .one c (fun d hd => view_setConn_ne hd _) hc ?_ (.of_members rfl)
    rw [view_setConn]
    refine .single (.method _ _ (fun hstate' => ?_) (hstate.symm.imp Eq.symm fun h => ⟨h, rfl⟩))
    rcases hstate with h | h <;> cases h.symm.trans hstate'
  exact hset.trans (post_raw_moves f hc (Or.inr (by simp [setConn])))

/-- A call on another thread. -/
theorem callForeign_moves (m : ConnectionCall) (hc : c < s.nextConnId) :
    Moves cfg s (s.callForeign c m) := by
  cases m with
  | send data =>
    simp only [callForeign]
    split_ifs with hstate
    · exact post_raw_moves _ hc (Or.inl hstate)
    · exact .same (fun _ => rfl) rfl
  | shutdown =>
    simp only [callForeign]
    split_ifs with hstate
    · exact setState_post_moves _ hc (Or.inl hstate)
    · exact .same (fun _ => rfl) rfl
  | forceClose =>
    simp only [callForeign]
    split_ifs with hstate
    · exact setState_post_moves _ hc hstate
    · exact .same (fun _ => rfl) rfl

/-! ## Accepting and removing -/

theorem view_remove (hentry : s.connections (cfg.connName c) = some c) :
    (s.removeConnectionInLoop cfg c).view cfg c =
      ConnView.add { s.view cfg c with
        entry := false
        life := s.life c ++ [.removeConnectionInLoop 1] } (s.loopOf c) .destroy := by
  rw [removeConnectionInLoop, if_pos (by simp [hentry]), view_post _ _ rfl, view_note]
  simp [view]

omit [DecidableEq ℓ] in
theorem view_erase_ne (hentry : s.connections (cfg.connName c) = some c) (h : d ≠ c) :
    (s.erase cfg c).view cfg d = s.view cfg d := by
  -- were the names the same, the entry would have been that of `c`
  have hsame : (Function.update s.connections (cfg.connName c) none (cfg.connName d) == some d) =
      (s.connections (cfg.connName d) == some d) := by
    by_cases hname : cfg.connName d = cfg.connName c
    · simp [hname, hentry, h.symm]
    · simp [hname]
  simp [view, erase, hsame]

omit [DecidableEq ℓ] in
theorem erase_kept (c : ConnId) : Kept cfg s (s.erase cfg c) := by
  refine ⟨fun hs => ⟨fun n d hd => hs.named n d ?_, hs.bound⟩, Nat.le_refl _, rfl⟩
  change Function.update s.connections (cfg.connName c) none n = some d at hd
  by_cases hn : n = cfg.connName c
  · simp [hn] at hd
  · rwa [Function.update_of_ne hn] at hd

omit [DecidableEq ℓ] in
theorem enlist_kept (hlimit : s.nextConnId < intLimit) (io : ℓ) :
    Kept cfg s (s.enlist cfg io) := by
  refine ⟨fun hs => ⟨fun n d hd => ?_, hlimit⟩, Nat.le_succ _, rfl⟩
  change Function.update s.connections (cfg.connName s.nextConnId) (some s.nextConnId) n =
    some d at hd
  by_cases hn : n = cfg.connName s.nextConnId
  · simp only [hn, Function.update_self, Option.some.injEq] at hd
    exact ⟨hd ▸ hn, hd ▸ Nat.lt_succ_self _⟩
  · rw [Function.update_of_ne hn] at hd
    exact ⟨(hs.named n d hd).1, Nat.lt_succ_of_lt (hs.named n d hd).2⟩

omit [DecidableEq ℓ] in
theorem view_enlist_ne (hs : s.Named cfg) (hlimit : s.nextConnId < intLimit) (io : ℓ)
    (h : d ≠ s.nextConnId) : (s.enlist cfg io).view cfg d = s.view cfg d := by
  -- were the names the same, the entry would not have been that of `d`
  have hsame : (Function.update s.connections (cfg.connName s.nextConnId) (some s.nextConnId)
      (cfg.connName d) == some d) = (s.connections (cfg.connName d) == some d) := by
    by_cases hname : cfg.connName d = cfg.connName s.nextConnId
    · have hno : s.connections (cfg.connName d) ≠ some d := by
        intro hd
        have hlt := (hs.named _ _ hd).2
        exact h (cfg.connName_injective (Nat.lt_trans hlt hlimit) hlimit hname)
      rw [hname] at hno ⊢
      simp [hno, h.symm]
    · simp [hname]
  simp [view, enlist, hsame, h]

/-- A connection that is accepted, with `connectEstablished` still before it. -/
theorem enter_small (hnew : s.view cfg s.nextConnId = (initial cfg).view cfg s.nextConnId) (io : ℓ)
    (o : ConnOptions) :
    ConnView.Small cfg.base (s.view cfg s.nextConnId)
      (((s.enter cfg io o.connection).view cfg s.nextConnId).set io [.establish]) := by
  have hlife : (s.view cfg s.nextConnId).life = [] := hnew ▸ rfl
  have hitems : ∀ l, (s.view cfg s.nextConnId).items l = [] := fun l => hnew ▸ rfl
  refine (congrArg (ConnView.Small cfg.base _) ?_).mp (.accept io hlife hitems)
  rw [enter, view_note]
  simp [view, ConnView.set, ConnOptions.connection, TcpConnection.initial, Channel.initial,
    show s.life _ = [] from hlife]

theorem newConnection_moves (hs : s.Named cfg)
    (hnew : s.view cfg s.nextConnId = (initial cfg).view cfg s.nextConnId)
    (hlimit : s.nextConnId < intLimit) (io : ℓ) (o : ConnOptions) :
    Moves cfg s (s.newConnection cfg io o.connection) := by
  have hchanges : ConnView.Changes cfg.base (s.view cfg s.nextConnId)
      ((s.newConnection cfg io o.connection).view cfg s.nextConnId) := by
    let t := s.enter cfg io o.connection
    have henter : ConnView.Small cfg.base (s.view cfg s.nextConnId)
        ((t.view cfg s.nextConnId).set io [.establish]) := enter_small hnew io o
    have hnone : ∀ l, (t.view cfg s.nextConnId).items l = [] :=
      fun l => congrArg (fun v => v.items l) hnew
    unfold newConnection
    split_ifs
    · refine .tail (.single henter) ?_
      have hloop : (t.view cfg s.nextConnId).loop = io := Function.update_self ..
      rw [view_connectEstablished]
      exact .establish_now hloop (hnone io) _
    · rw [view_post _ _ rfl, ConnView.add, hnone, List.nil_append]
      exact .single henter
  rw [newConnection_perform] at hchanges ⊢
  have hkept : Kept cfg s (s.enlist cfg io) := enlist_kept hlimit io
  refine .one s.nextConnId (fun d hd => ?_) (Nat.lt_succ_self _) hchanges
    (hkept.trans (.of_members rfl))
  exact ((newDeed_fits s io io o .user).view_ne hd).trans (view_enlist_ne hs hlimit io hd)

/-! ## Every step -/

variable (hs : s.Sound cfg) (hagenda : (s.loops l).agenda = task :: rest)
include hs hagenda

theorem Sound.place {i : Item} (habout : task.about = some (c, i)) :
    l = if i = .remove then cfg.base else s.loopOf c :=
  (hs.sane c).place l i (mem_items_of_agenda cfg hagenda habout)

theorem Sound.lt_of_task {i : Item} (habout : task.about = some (c, i)) : c < s.nextConnId :=
  hs.lt_of_item (mem_items_of_agenda cfg hagenda habout)

/-- A task that is about the connection is not there before `connectEstablished`. -/
theorem Sound.ne_kConnecting {i : Item} (habout : task.about = some (c, i))
    (hi : i ≠ .establish) : (s.conns c).state ≠ .kConnecting :=
  (hs.sane c).ne_kConnecting (mem_items_of_agenda cfg hagenda habout) hi

/-- `removeConnectionInLoop` finds the connection, or the assertion fails. -/
theorem Sound.remove_moves {i : Item} (habout : task.about = some (c, i))
    (hi : i = .close ∨ i = .remove)
    (hchanges : ∀ is, (s.view cfg c).items l = i :: is → (s.view cfg c).entry = true →
      ConnView.Changes cfg.base (s.view cfg c) (ConnView.add { (s.view cfg c).set l is with
        entry := false, life := s.life c ++ [.removeConnectionInLoop 1] } (s.loopOf c) .destroy)) :
    Moves cfg s ((s.take l rest).removeConnectionInLoop cfg c) ∨
      ∃ d, Refused cfg s ((s.take l rest).removeConnectionInLoop cfg c) d := by
  have hc := hs.lt_of_task hagenda habout
  cases hsome : (s.connections (cfg.connName c)).isSome with
  | true =>
    have hentry : (s.take l rest).connections (cfg.connName c) = some c :=
      hs.entry_of_isSome hc hsome
    have htake : Kept cfg s (s.take l rest) := .of_members rfl
    have hperform := removeConnectionInLoop_perform (s := s.take l rest) hsome
    have hkept : Kept cfg s ((s.take l rest).removeConnectionInLoop cfg c) :=
      hperform ▸ (htake.trans (erase_kept c)).trans (.of_members rfl)
    obtain ⟨is, hitems, hview⟩ := view_take cfg hagenda habout
    refine Or.inl (.one c (fun d hd => ?_) (Nat.lt_of_lt_of_le hc hkept.grows) ?_ hkept)
    · have hfits : Fits cfg (s.take l rest) l c _ _ := removeDeed_fits _ (.inr rfl)
      rw [hperform, hfits.view_ne hd, view_erase_ne hentry hd, view_take_other hagenda habout hd]
    · rw [view_remove hentry, hview]
      exact hchanges is hitems (beq_iff_eq.mpr hentry)
  | false =>
    have hnone : s.connections (cfg.connName c) = none := by simpa using hsome
    have hremove : (s.take l rest).removeConnectionInLoop cfg c =
        { (s.take l rest).note c (.removeConnectionInLoop 0) with assertFailed := true } :=
      if_neg (by rw [Bool.not_eq_true]; exact hsome)
    rw [hremove]
    refine Or.inr ⟨c, ⟨l, i, mem_items_of_agenda cfg hagenda habout, hi⟩, ?_, rfl, rfl⟩
    simp [view, hnone]

theorem Sound.closing_moves (htask : task = .resume (.closing c)) :
    Moves cfg s ((s.take l rest).removeConnection cfg l c) ∨
      ∃ d, Refused cfg s ((s.take l rest).removeConnection cfg l c) d := by
  have habout : task.about = some (c, .close) := htask ▸ rfl
  have hplace : l = s.loopOf c := hs.place hagenda habout
  unfold removeConnection
  split_ifs with hl
  · refine hs.remove_moves hagenda habout (Or.inl rfl) fun is hitems hentry => ?_
    subst hl
    exact .remove_now hplace.symm hitems hentry
  · refine Or.inl (.one c (fun d hd => ?_) (hs.lt_of_task hagenda habout) ?_ (.of_members rfl))
    · exact (view_post_ne _ _ (Item.of_ne hd.symm _)).trans (view_take_other hagenda habout hd)
    · obtain ⟨is, hitems, hview⟩ := view_take cfg hagenda habout
      rw [view_post _ _ rfl, hview]
      subst hplace
      exact .single (.closed hitems)

theorem Sound.remove_functor_moves (htask : task = .functor (.removeConnectionInLoop c)) :
    Moves cfg s ((s.take l rest).removeConnectionInLoop cfg c) ∨
      ∃ d, Refused cfg s ((s.take l rest).removeConnectionInLoop cfg c) d := by
  have habout : task.about = some (c, .remove) := htask ▸ rfl
  obtain rfl : l = cfg.base := hs.place hagenda habout
  refine hs.remove_moves hagenda habout (Or.inr rfl) fun is hitems hentry => ?_
  have hitems' : (s.view cfg c).items cfg.base = [] ++ .remove :: is := hitems
  exact .single (.remove hitems' hentry)

theorem Sound.established_moves (htask : task = .functor (.connectEstablished c)) :
    Moves cfg s ((s.take l rest).connectEstablished l c) := by
  have habout : task.about = some (c, .establish) := htask ▸ rfl
  obtain rfl : l = s.loopOf c := hs.place hagenda habout
  refine .one c (fun d hd => ?_) (hs.lt_of_task hagenda habout) ?_ (.of_members rfl)
  · rw [connectEstablished_perform, (connectEstablished_fits _ _ c).view_ne hd,
      view_take_other hagenda habout hd]
  · obtain ⟨is, hitems, hview⟩ := view_take cfg hagenda habout
    rw [view_connectEstablished, hview]
    exact .single (.establish _ hitems)

/-- Functors run outside the handling of channels. -/
theorem Sound.inactive (hin : task.inFunctors = true) (hout : task.inDispatch = false) :
    ((s.take l rest).loops l).currentActiveChannel = none := by
  simp only [take, onLoop, Function.update_self]
  exact (hs.shaped l).of_functors hagenda hin hout

theorem Sound.destroying_moves (htask : task = .resume (.destroying c)) :
    Moves cfg s ((s.take l rest).removeChannel l c) := by
  have habout : task.about = some (c, .unregister) := htask ▸ rfl
  obtain rfl : l = s.loopOf c := hs.place hagenda habout
  rw [removeChannel_eq _ _ (hs.inactive hagenda (htask ▸ rfl) (htask ▸ rfl))]
  refine .one c (fun d hd => ?_) (hs.lt_of_task hagenda habout) ?_ (.of_members rfl)
  · rw [view_note_ne hd, view_setConn_ne hd, view_take_other hagenda habout hd]
  · obtain ⟨is, hitems, hview⟩ := view_take cfg hagenda habout
    rw [view_note, view_setConn, hview]
    exact .single (.unregister _ hitems)

theorem Sound.destroyed_moves (htask : task = .functor (.connectDestroyed c)) :
    Moves cfg s ((s.take l rest).connectDestroyed l c) := by
  have habout : task.about = some (c, .destroy) := htask ▸ rfl
  obtain rfl : l = s.loopOf c := hs.place hagenda habout
  -- `handleClose` has run before, so the branch for `kConnected` is not taken
  have hdown : ((s.take (s.loopOf c) rest).conns c).state = .kDisconnected :=
    (hs.sane c).down _ _ (mem_items_of_agenda cfg hagenda habout) rfl
  have hinactive := hs.inactive hagenda (htask ▸ rfl) (htask ▸ rfl)
  rw [connectDestroyed_eq _ _ (by rw [hdown]; nofun) hinactive]
  refine .one c (fun d hd => ?_) (hs.lt_of_task hagenda habout) ?_ (.of_members rfl)
  · rw [view_note_ne hd, view_setConn_ne hd, view_note_ne hd, view_take_other hagenda habout hd]
  · obtain ⟨is, hitems, hview⟩ := view_take cfg hagenda habout
    rw [view_note, view_setConn, view_note, hview]
    exact .destroy_now _ hitems

omit hs in
theorem view_doPendingFunctors (hrest : rest = []) (htask : task = .doPendingFunctors)
    (c : ConnId) :
    ((s.take l rest).onLoop l (·.doPendingFunctors)).view cfg c = s.view cfg c := by
  subst hrest htask
  -- nothing follows on the agenda, so the functors keep their place in the order
  rw [view_onLoop, view_take_ne hagenda rfl]
  refine ConnView.set_eq_self ?_
  simp [view, LoopThread.items, LoopThread.doPendingFunctors, take, LoopThread.take, onLoop,
    hagenda, LoopTask.about, List.flatMap_map]

/-- **A task is a sequence of small changes** for every connection. -/
theorem Done.moves {e : ServerEvent ℓ} (h : Done cfg (s.take l rest) l task e s') :
    Moves cfg s s' ∨ ∃ c, Refused cfg s s' c := by
  cases h with
  | closing c => exact hs.closing_moves hagenda rfl
  | destroying c => exact Or.inl (hs.destroying_moves hagenda rfl)
  | handleEvent channel revents =>
    have hevent : ∀ c i, (.handleEvent channel revents : ServerTask).about = some (c, i) →
        channel = .conn c ∧ i = .event := by
      intro c i h
      cases channel <;> cases h
      exact ⟨rfl, rfl⟩
    refine Or.inl (.trans (hs.take_moves hagenda fun c i h => Or.inl (hevent c i h).2)
      (events_moves (LoopThread.eventTasks channel revents)
        (fun c => by simp [LoopThread.items, LoopThread.handleEvent]) ?_))
    intro x hx c i hi
    obtain ⟨cb, rfl⟩ := LoopThread.mem_eventTasks hx
    cases channel <;> cases hi
    exact ⟨rfl, (hs.place hagenda rfl).symm, hs.ne_kConnecting hagenda rfl (by decide),
      hs.lt_of_task hagenda rfl⟩
  | event c cb e he r hr =>
    have htake := hs.take_moves hagenda fun d i h => by cases h; exact Or.inl rfl
    exact Or.inl (htake.trans (after_moves hr.handler (.served cb rfl r hr)
      (hs.place hagenda rfl).symm
      (hs.lt_of_task hagenda rfl) (hs.ne_kConnecting hagenda rfl (by decide))))
  | accept io o hlimit =>
    have htake : Moves cfg s (s.take l rest) := take_idle_moves hagenda rfl
    refine Or.inl (htake.trans (newConnection_moves (htake.named hs.toNamed) ?_ hlimit io o))
    exact (view_take_ne hagenda rfl).trans (hs.unborn _ (Nat.le_refl _))
  | skip channel cb e he =>
    refine Or.inl (hs.take_moves hagenda fun c i h => Or.inl ?_)
    cases channel <;> cases h
    rfl
  | timer =>
    exact Or.inl ((take_idle_moves hagenda rfl).trans (.same (view_push_user l) rfl))
  | doPendingFunctors =>
    have hrest : rest = [] := (hs.shaped l).of_doPendingFunctors hagenda
    exact Or.inl (.same (view_doPendingFunctors hagenda hrest rfl) rfl)
  | established c => exact Or.inl (hs.established_moves hagenda rfl)
  | remove c => exact hs.remove_functor_moves hagenda rfl
  | destroyed c => exact Or.inl (hs.destroyed_moves hagenda rfl)
  | raw c f e he r hr =>
    have htake := hs.take_moves hagenda fun d i h => by cases h; exact Or.inr rfl
    have hbecomes : Becomes ((s.take l rest).conns c) c s.nextConnId .user r.1 := .called r hr
    exact Or.inl (htake.trans (after_moves hr.handler hbecomes (hs.place hagenda rfl).symm
      (hs.lt_of_task hagenda rfl) (hs.ne_kConnecting hagenda rfl (by decide))))
  | user =>
    exact Or.inl ((take_idle_moves hagenda rfl).trans (.same (view_push_user l) rfl))

omit hs hagenda

/-- **A step of the server is a sequence of small changes for every connection**, unless an
assertion fails. -/
theorem Step.moves {op : ServerOp ℓ} (hs : s.Sound cfg) (h : Step cfg s op s') :
    Moves cfg s s' ∨ ∃ c, Refused cfg s s' c := by
  cases h with
  | poll l batch hagenda hregistered =>
    refine Or.inl (events_moves _ (fun c => LoopThread.items_push ..) fun x hx c i hi => ?_)
    rcases List.mem_append.mp hx with hx | hx
    · obtain ⟨⟨channel, revents⟩, hp, rfl⟩ := List.mem_map.mp hx
      cases channel <;> cases hi
      obtain ⟨hl, hepoll⟩ := hregistered _ hp
      -- the channel is enabled for the first time by `connectEstablished`
      have hstate : (s.conns c).state ≠ .kConnecting := fun hstate =>
        Bool.false_ne_true (((hs.sane c).fresh hstate).1.symm.trans hepoll)
      refine ⟨rfl, hl, hstate, ?_⟩
      by_contra hc
      exact hstate (congrArg ConnView.state (hs.unborn c (Nat.le_of_not_lt hc)))
    · obtain rfl := List.mem_singleton.mp hx
      cases hi
  | call l u c r hc hl hagenda hr hearly =>
    have hfits : Fits cfg s l c .user (afterDeed l c r) := afterDeed_fits l (.called r hr)
    by_cases hstate : (s.conns c).state = .kConnecting
    · have hviews : ∀ d, (s.after l c r).view cfg d = s.view cfg d := by
        intro d
        by_cases hd : d = c
        · subst hd
          rw [hearly hstate, view_after_quiet l (by simp)]
          rfl
        · rw [after_perform]
          exact hfits.view_ne hd
      exact Or.inl (.same hviews (by rw [after_perform]; rfl))
    · exact Or.inl (after_moves hr.handler hfits.conn hl hc hstate)
  | foreign op hop m c hc => exact Or.inl (callForeign_moves m hc)
  | queueInLoop l l' => exact Or.inl (.same (fun c => view_post_ne l' .user rfl) rfl)
  | ret l rest hagenda => exact Or.inl (take_idle_moves hagenda rfl)
  | task l task rest e s' hagenda huser hdone => exact hdone.moves hs hagenda

/-! ## The phases of the loops -/

theorem shaped_onLoop (hs : ∀ l, (s.loops l).Shaped) {f : ServerThread → ServerThread}
    (hf : (f (s.loops l)).Shaped) (l' : ℓ) : ((s.onLoop l f).loops l').Shaped := by
  by_cases hl : l' = l
  · subst hl
    simpa [onLoop] using hf
  · simpa [onLoop, hl] using hs l'

omit [DecidableEq ℓ] in
/-- `connectDestroyed`, and it alone, leaves its rest on the agenda of a loop that runs
functors. -/
theorem Fits.shaped {w : Deed ℓ} (hw : Fits cfg s l c task w) (hs : ∀ l, (s.loops l).Shaped)
    (hphase : task.inDispatch = false → .doPendingFunctors ∉ (s.loops l).agenda) (l' : ℓ) :
    ((s.perform c w).loops l').Shaped := by
  refine (hs l').push (w.tasks l') (fun x hx => ?_) rfl rfl
  cases hw.tasks l' x hx with
  | user => exact ⟨rfl, .inl rfl⟩
  | closing => exact ⟨rfl, .inl rfl⟩
  | destroying htask => exact ⟨rfl, .inr (hphase (htask ▸ rfl))⟩

/-- The tasks of the first phase keep a loop in it, those of the second in the second. -/
theorem Change.shaped (hs : ∀ l, (s.loops l).Shaped) (hagenda : (s.loops l).agenda = task :: rest)
    (h : Change cfg (s.take l rest) l task s') (l' : ℓ) : (s'.loops l').Shaped := by
  have htake : task ≠ .doPendingFunctors → ∀ l', ((s.take l rest).loops l').Shaped :=
    fun htask => shaped_onLoop hs ((hs l).take hagenda htask)
  have hphase : task.inDispatch = false →
      .doPendingFunctors ∉ ((s.take l rest).loops l).agenda := fun hout => by
    simpa [take, onLoop, LoopThread.take] using (hs l).not_mem_of_functors hagenda hout
  have hremoves : ∀ c, Removes cfg l c task → task ≠ .doPendingFunctors := by
    rintro c (⟨rfl, -⟩ | rfl) <;> simp
  cases h with
  | perform c w htask hw => exact hw.shaped (htake htask) hphase l'
  | handleEvent channel revents htask =>
    subst htask
    refine shaped_onLoop (htake (by simp)) ?_ l'
    simpa [take, onLoop] using (hs l).handleEvent hagenda
  | doPendingFunctors htask =>
    subst htask
    by_cases hl : l' = l
    · subst hl
      simpa [take, onLoop] using (hs l').doPendingFunctors hagenda
    · simpa [take, onLoop, hl] using hs l'
  | accept io w htask hw =>
    subst htask
    exact hw.shaped (htake (by simp)) hphase l'
  | remove c w htask hw => exact hw.shaped (htake (hremoves c htask)) hphase l'
  | refuse c htask => exact htake (hremoves c htask) l'

theorem Change.shaped_call (hs : ∀ l, (s.loops l).Shaped) (h : Change cfg s l .user s') (l' : ℓ) :
    (s'.loops l').Shaped := by
  cases h with
  | perform c w htask hw => exact hw.shaped hs nofun l'
  | handleEvent _ _ htask | doPendingFunctors htask | accept _ _ htask => cases htask
  | remove c w htask | refuse c htask => rcases htask with ⟨htask, -⟩ | htask <;> cases htask

theorem Turn.shaped {op : ServerOp ℓ} (hs : ∀ l, (s.loops l).Shaped) (h : Turn cfg s op s')
    (l' : ℓ) : (s'.loops l').Shaped := by
  cases h with
  | poll l batch hagenda => exact shaped_onLoop hs (LoopThread.shaped_poll batch hagenda) l'
  | call op hop l s' h => exact h.shaped_call hs l'
  | ret l rest hagenda => exact shaped_onLoop hs ((hs l).take hagenda nofun) l'
  | task l task rest e s' hagenda hdone h => exact h.shaped hs hagenda l'

/-! ## Reachable states -/

omit [DecidableEq ℓ] in
theorem initial_sound (cfg : ServerConfig ℓ) : (initial cfg).Sound cfg where
  named := nofun
  bound := by simp [initial, intLimit]
  sane c :=
    { place := fun _ _ hi => absurd hi List.not_mem_nil
      fresh := fun _ => ⟨rfl, fun _ _ hi => absurd hi List.not_mem_nil⟩
      establish := fun _ hi => absurd hi List.not_mem_nil
      once := Nat.zero_le 1
      down := fun _ _ hi => absurd hi List.not_mem_nil
      up := nofun
      raws := Or.inr trivial }
  unborn _ _ := rfl
  shaped _ := .functors rfl fun _ hx => absurd hx List.not_mem_nil

theorem Step.sound {op : ServerOp ℓ} (hs : s.Sound cfg) (h : Step cfg s op s')
    (hmoves : Moves cfg s s') : s'.Sound cfg := by
  refine ⟨hmoves.named hs.toNamed, fun c => ?_, fun c hc => ?_, h.turn.shaped hs.shaped⟩
  · rcases hmoves.views c with heq | ⟨-, hchanges⟩
    · exact heq ▸ hs.sane c
    · exact hchanges.sane (hs.sane c)
  · rcases hmoves.views c with heq | ⟨hlt, -⟩
    · exact heq.trans (hs.unborn c (Nat.le_trans hmoves.grows hc))
    · exact absurd hlt (Nat.not_lt.mpr hc)

theorem sound_of_step {op : ServerOp ℓ} (hs : s.assertFailed = false → s.Sound cfg)
    (h : s.step cfg op = some s') (hassert' : s'.assertFailed = false) : s'.Sound cfg := by
  obtain ⟨hassert, hstep⟩ := step_cases h
  rcases hstep.moves (hs hassert) with hmoves | ⟨c, hrefused⟩
  · exact hstep.sound (hs hassert) hmoves
  · cases hassert'.symm.trans hrefused.failed

/-- Every state that is reached without a failed assertion is sound. -/
theorem sound_of_run {ops : List (ServerOp ℓ)}
    (hrun : Machine.run (step cfg) (initial cfg) ops = some s) (hassert : s.assertFailed = false) :
    s.Sound cfg :=
  Machine.run_invariant (P := fun t : ServerLoops ℓ => t.assertFailed = false → t.Sound cfg)
    (fun _ _ _ hs h => sound_of_step hs h) hrun (fun _ => initial_sound cfg) hassert

end ServerLoops
end ReMuduo
