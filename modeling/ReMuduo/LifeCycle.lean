import Mathlib.Data.List.Count
import ReMuduo.ServerSteps

/-! # The life of a connection across loops

If `handleClose` runs at most once for each connection, every connection goes through the
same stages: it is accepted, established on its I/O loop, closed there, removed from
`connections_` by the base loop, and destroyed on its I/O loop, outside the handling of
channels.  Between two stages it is in the hands of exactly one task or functor. -/
namespace ReMuduo

/-! ## The life of a connection that is closed once -/

/-- The stages of that life.  Between two of them the connection is in the hands of one task
or functor, the token of the stage. -/
inductive Stage
  | absent
  | accepted
  | up
  | closing
  | removing
  | removed
  | destroying
  | destroyed
deriving DecidableEq

namespace Stage

/-- What has happened so far, on which loop. -/
def life {ℓ : Type} (l : ℓ) : Stage → List (LifeEvent ℓ)
  | .absent => []
  | .accepted => [.newConnection]
  | .up => [.newConnection, .connectEstablished l]
  | .closing => [.newConnection, .connectEstablished l, .handleClose l]
  | .removing => [.newConnection, .connectEstablished l, .handleClose l]
  | .removed =>
    [.newConnection, .connectEstablished l, .handleClose l, .removeConnectionInLoop 1]
  | .destroying =>
    [.newConnection, .connectEstablished l, .handleClose l, .removeConnectionInLoop 1,
      .connectDestroyed l none]
  | .destroyed =>
    [.newConnection, .connectEstablished l, .handleClose l, .removeConnectionInLoop 1,
      .connectDestroyed l none, .removeChannel false]

/-- The connection is in `connections_`. -/
def entry : Stage → Bool
  | .accepted => true
  | .up => true
  | .closing => true
  | .removing => true
  | _ => false

def token : Stage → Option Item
  | .accepted => some .establish
  | .closing => some .close
  | .removing => some .remove
  | .removed => some .destroy
  | .destroying => some .unregister
  | _ => none

/-- `connectEstablished` has not run. -/
def early : Stage → Bool
  | .absent => true
  | .accepted => true
  | _ => false

theorem entry_of_token (st : Stage) {i : Item} (h : st.token = some i)
    (hi : i = .close ∨ i = .remove) : st.entry = true := by
  rcases hi with rfl | rfl <;> cases st <;> simp_all [token, entry]

/-- A token is in the hands of one stage only. -/
theorem eq_of_token {st st' : Stage} {i : Item} (h : st.token = some i)
    (h' : st'.token = some i) : st = st' := by
  cases st <;> cases h <;> cases st' <;> first | rfl | cases h'

theorem life_le {ℓ : Type} (l : ℓ) (st : Stage) : st.life l <+: Stage.life l .destroyed := by
  cases st <;> exact ⟨_, rfl⟩

/-- A connection is in `connections_` from `newConnection` to `removeConnectionInLoop`. -/
theorem entry_iff {ℓ : Type} (l : ℓ) (st : Stage) :
    st.entry = true ↔
      .newConnection ∈ st.life l ∧ ∀ n, .removeConnectionInLoop n ∉ st.life l := by
  cases st <;> simp [entry, life]

end Stage

/-- The items that move a connection on in its life. -/
def Item.isToken : Item → Bool
  | .event => false
  | .raw => false
  | _ => true

/-- `handleClose` has run. -/
def LifeEvent.isClose {ℓ : Type} : LifeEvent ℓ → Bool
  | .handleClose _ => true
  | _ => false

/-- A connection that has been established and not been closed. -/
theorem Stage.eq_up {ℓ : Type} {l : ℓ} {st : Stage} (hearly : st.early = false)
    (hlife : (st.life l).countP LifeEvent.isClose = 0) : st = .up := by
  cases st with
  | absent | accepted => cases hearly
  | up => rfl
  | closing | removing | removed | destroying | destroyed =>
    simp [Stage.life, LifeEvent.isClose] at hlife

namespace ConnView

variable {ℓ : Type} [DecidableEq ℓ] {base : ℓ} {v v' : ConnView ℓ}

/-- How often an item is on the loop where it belongs. -/
def count (base : ℓ) (v : ConnView ℓ) (i : Item) : Nat :=
  (v.items (if i = .remove then base else v.loop)).count i

/-- The connection is in this stage. -/
structure AtStage (base : ℓ) (v : ConnView ℓ) (st : Stage) : Prop where
  life : v.life = st.life v.loop
  entry : v.entry = st.entry
  token : ∀ i, i.isToken = true → v.count base i = if st.token = some i then 1 else 0
  early : v.state = .kConnecting ↔ st.early = true

/-- A new first item. -/
theorem count_cons {i j : Item} (hj : j ≠ .remove) :
    (v.set v.loop (j :: v.items v.loop)).count base i =
      v.count base i + if j = i then 1 else 0 := by
  simp only [count, set]
  by_cases hl : (if i = .remove then base else v.loop) = v.loop
  · rw [hl, Function.update_self, List.count_cons]
    simp
  · rw [Function.update_of_ne hl]
    split_ifs at hl with hi
    · simp [hi, hj]
    · exact absurd rfl hl

/-- An item is taken from the loop where it belongs. -/
theorem count_take {i j : Item} {l : ℓ} {pre rest : List Item} (hs : v.Sane base)
    (hitems : v.items l = pre ++ j :: rest) :
    v.count base i = (v.set l (pre ++ rest)).count base i + if j = i then 1 else 0 := by
  simp only [count, set]
  by_cases hl : (if i = .remove then base else v.loop) = l
  · rw [hl, Function.update_self, hitems, List.count_append, List.count_append, List.count_cons]
    simp only [beq_iff_eq]
    omega
  · have hne : j ≠ i := by
      rintro rfl
      exact hl (hs.place l j (hitems ▸ by simp)).symm
    rw [Function.update_of_ne hl, if_neg hne, Nat.add_zero]

theorem count_pop {i j : Item} {rest : List Item} (hs : v.Sane base)
    (hitems : v.items v.loop = j :: rest) :
    v.count base i = (v.set v.loop rest).count base i + if j = i then 1 else 0 := by
  have hitems' : v.items v.loop = [] ++ j :: rest := hitems
  rw [count_take hs hitems', List.nil_append]

/-- A new last item, on the loop where it belongs. -/
theorem count_add {i j : Item} {l : ℓ} (hl : l = if j = .remove then base else v.loop) :
    (v.add l j).count base i = v.count base i + if j = i then 1 else 0 := by
  simp only [count, add, set]
  by_cases hi : (if i = .remove then base else v.loop) = l
  · rw [hi, Function.update_self, List.count_append, List.count_singleton]
    simp
  · have hne : j ≠ i := by
      rintro rfl
      exact hi hl.symm
    rw [Function.update_of_ne hi, if_neg hne, Nat.add_zero]

omit [DecidableEq ℓ] in
theorem AtStage.token_of_mem {st : Stage} {i : Item} {l : ℓ} (hat : v.AtStage base st)
    (hs : v.Sane base) (hmem : i ∈ v.items l) (hi : i.isToken = true) : st.token = some i := by
  by_contra hno
  have hcount := hat.token i hi
  rw [if_neg hno, count, ← hs.place l i hmem] at hcount
  exact List.count_eq_zero.mp hcount hmem

omit [DecidableEq ℓ] in
theorem AtStage.not_early {st : Stage} (hat : v.AtStage base st) (h : v.state ≠ .kConnecting) :
    st.early = false := by
  by_contra hearly
  exact h (hat.early.mpr (Bool.not_eq_false _ ▸ hearly))

omit [DecidableEq ℓ] in
/-- A change that leaves the tokens alone. -/
theorem AtStage.same {st : Stage} (hat : v.AtStage base st) (hlife : v'.life = v.life)
    (hloop : v'.loop = v.loop) (hentry : v'.entry = v.entry)
    (hstate : v'.state = .kConnecting ↔ v.state = .kConnecting)
    (hcount : ∀ i, i.isToken = true → v'.count base i = v.count base i) : v'.AtStage base st :=
  ⟨by rw [hlife, hloop, hat.life], hentry.trans hat.entry,
    fun i hi => (hcount i hi).trans (hat.token i hi), hstate.trans hat.early⟩

/-- **A small change moves a connection on to its next stage**, or leaves it where it is. -/
theorem Small.atStage (h : Small base v v') (hs : v.Sane base) {st : Stage}
    (hat : v.AtStage base st) (hclose : v'.life.countP LifeEvent.isClose ≤ 1) :
    ∃ st', v'.AtStage base st' := by
  cases h with
  | accept io hlife hitems =>
    have hst : st = .absent := by
      have := hat.life
      rw [hlife] at this
      cases st <;> first | rfl | cases this
    subst hst
    refine ⟨.accepted, rfl, rfl, fun i hi => ?_, iff_of_true rfl rfl⟩
    have hcount : ∀ l, (Function.update v.items io [.establish] l).count i =
        if l = io then [Item.establish].count i else 0 := by
      intro l
      split
      · rename_i hl
        rw [hl, Function.update_self]
      · rename_i hl
        rw [Function.update_of_ne hl, hitems, List.count_nil]
    simp only [count, hcount]
    cases i <;> simp_all [Stage.token]
  | @establish rest epoll hitems =>
    have hst : st.token = some .establish :=
      hat.token_of_mem hs (hitems ▸ List.mem_cons_self) rfl
    obtain rfl : st = .accepted := Stage.eq_of_token hst rfl
    refine ⟨.up, by simp [hat.life, Stage.life, set], hat.entry, fun i hi => ?_,
      iff_of_false (by simp) (by decide)⟩
    have hcount := hat.token i hi
    rw [count_pop hs hitems] at hcount
    change (v.set v.loop rest).count base i = _
    cases i <;> simp_all [Stage.token]
  | method state epoll hne hstate =>
    refine ⟨st, hat.same rfl rfl rfl (iff_of_false ?_ hne) fun _ _ => rfl⟩
    rcases hstate with h | ⟨-, h⟩
    · exact h ▸ hne
    · simp [h]
  | post hstate =>
    refine ⟨st, hat.same rfl rfl rfl Iff.rfl fun i hi => ?_⟩
    rw [count_add (l := v.loop) (j := .raw) rfl]
    cases i <;> simp_all [Item.isToken]
  | @pop j rest hitems hj =>
    refine ⟨st, hat.same rfl rfl rfl Iff.rfl fun i hi => ?_⟩
    rw [count_pop hs hitems]
    rcases hj with rfl | rfl <;> cases i <;> simp_all [Item.isToken]
  | events n hne =>
    refine ⟨st, hat.same rfl rfl rfl Iff.rfl fun i hi => ?_⟩
    have hi : i ≠ .event := by
      rintro rfl
      cases hi
    simp only [count, set]
    by_cases hl : (if i = .remove then base else v.loop) = v.loop
    · rw [hl, Function.update_self, List.count_append, List.count_replicate,
        if_neg (by simp [hi.symm]), Nat.zero_add]
    · rw [Function.update_of_ne hl]
  | close epoll hne =>
    have hlife : (st.life v.loop).countP LifeEvent.isClose = 0 := by
      rw [List.countP_append, hat.life] at hclose
      simpa [LifeEvent.isClose] using hclose
    obtain rfl := Stage.eq_up (hat.not_early hne) hlife
    refine ⟨.closing, by simp [hat.life, Stage.life, set], hat.entry, fun i hi => ?_,
      iff_of_false (by simp) (by decide)⟩
    change (v.set v.loop (.close :: v.items v.loop)).count base i = _
    rw [count_cons (j := .close) (by decide), hat.token i hi]
    cases i <;> simp [Stage.token]
  | @closed rest hitems =>
    have htoken := hat.token_of_mem hs (hitems ▸ List.mem_cons_self) rfl
    obtain rfl : st = .closing := Stage.eq_of_token htoken rfl
    refine ⟨.removing, hat.life, hat.entry, fun i hi => ?_, hat.early⟩
    have hcount := hat.token i hi
    rw [count_pop hs hitems] at hcount
    rw [count_add (l := base) (j := .remove) rfl]
    cases i <;> simp_all [Stage.token]
  | @remove pre rest hitems hentry =>
    have htoken := hat.token_of_mem hs (l := base) (i := .remove) (hitems ▸ by simp) rfl
    obtain rfl : st = .removing := Stage.eq_of_token htoken rfl
    refine ⟨.removed, by simp [hat.life, Stage.life, set, add], rfl, fun i hi => ?_, hat.early⟩
    have hcount := hat.token i hi
    rw [count_take hs hitems] at hcount
    refine (count_add (j := .destroy) rfl).trans ?_
    change (v.set base (pre ++ rest)).count base i + _ = _
    cases i <;> simp_all [Stage.token]
  | @destroy rest state epoll hitems hstate =>
    have htoken := hat.token_of_mem hs (hitems ▸ List.mem_cons_self) rfl
    obtain rfl : st = .removed := Stage.eq_of_token htoken rfl
    refine ⟨.destroying, by simp [hat.life, Stage.life, set], hat.entry, fun i hi => ?_,
      iff_of_false ?_ (by decide)⟩
    · have hcount := hat.token i hi
      rw [count_pop hs hitems] at hcount
      have hset : v.set v.loop (.unregister :: rest) = (v.set v.loop rest).set v.loop
          (.unregister :: (v.set v.loop rest).items v.loop) := by simp [set]
      change (v.set v.loop (.unregister :: rest)).count base i = _
      rw [hset]
      refine (count_cons (v := v.set v.loop rest) (j := .unregister) (by decide)).trans ?_
      cases i <;> simp_all [Stage.token]
    · have hdown := hs.down v.loop .destroy (hitems ▸ List.mem_cons_self) rfl
      rcases hstate with h | h <;> simp [h, hdown]
  | @unregister rest epoll hitems =>
    have htoken := hat.token_of_mem hs (hitems ▸ List.mem_cons_self) rfl
    obtain rfl : st = .destroying := Stage.eq_of_token htoken rfl
    refine ⟨.destroyed, by simp [hat.life, Stage.life, set], hat.entry, fun i hi => ?_, hat.early⟩
    have hcount := hat.token i hi
    rw [count_pop hs hitems] at hcount
    change (v.set v.loop rest).count base i = _
    cases i <;> simp_all [Stage.token]

/-- What has happened is never forgotten. -/
theorem Small.life_grows (h : Small base v v') : v.life <+: v'.life := by
  cases h with
  | accept io hlife hitems =>
    rw [hlife]
    exact List.nil_prefix
  | establish | close | remove | destroy | unregister => exact List.prefix_append ..
  | method | post | pop | events | closed => exact List.prefix_rfl

omit [DecidableEq ℓ] in
theorem closes_le (h : v.life <+: v'.life) :
    v.life.countP LifeEvent.isClose ≤ v'.life.countP LifeEvent.isClose :=
  h.sublist.countP_le

theorem Changes.life_grows (h : Changes base v v') : v.life <+: v'.life := by
  induction h with
  | refl => exact List.prefix_rfl
  | tail _ hsmall ih => exact ih.trans hsmall.life_grows

/-- **The stages of a connection that is closed at most once.** -/
theorem Changes.atStage (h : Changes base v v') (hs : v.Sane base)
    (hat : ∃ st, v.AtStage base st) (hclose : v'.life.countP LifeEvent.isClose ≤ 1) :
    ∃ st, v'.AtStage base st := by
  induction h with
  | refl => exact hat
  | tail hchanges hsmall ih =>
    obtain ⟨st, hat⟩ := ih (Nat.le_trans (closes_le hsmall.life_grows) hclose)
    exact hsmall.atStage (Changes.sane hchanges hs) hat hclose

end ConnView

namespace ServerLoops

variable {ℓ : Type} [DecidableEq ℓ] {cfg : ServerConfig ℓ} {s s' : ServerLoops ℓ}

/-- `handleClose` has run at most once for each connection. -/
def ClosesOnce (s : ServerLoops ℓ) : Prop :=
  ∀ c, (s.life c).countP LifeEvent.isClose ≤ 1

/-- Every connection is in a stage of its life. -/
def Staged (cfg : ServerConfig ℓ) (s : ServerLoops ℓ) : Prop :=
  ∀ c, ∃ st, (s.view cfg c).AtStage cfg.base st

omit [DecidableEq ℓ] in
theorem initial_staged : (initial cfg).Staged cfg := by
  refine fun c => ⟨.absent, rfl, rfl, fun i _ => ?_, iff_of_true rfl rfl⟩
  rfl

theorem Moves.closesOnce (h : Moves cfg s s') (hclose : s'.ClosesOnce) : s.ClosesOnce := by
  intro c
  have hlife : (s.view cfg c).life <+: (s'.view cfg c).life := by
    rcases h.views c with heq | ⟨-, hchanges⟩
    · exact heq ▸ List.prefix_rfl
    · exact hchanges.life_grows
  exact Nat.le_trans (ConnView.closes_le hlife) (hclose c)

omit [DecidableEq ℓ] in
theorem Refused.closesOnce {c : ConnId} (h : Refused cfg s s' c) (hclose : s'.ClosesOnce) :
    s.ClosesOnce := by
  intro d
  refine Nat.le_trans (List.Sublist.countP_le ?_) (hclose d)
  rw [h.life]
  by_cases hd : d = c
  · subst hd
    simp [note]
  · simp [note, hd]

omit [DecidableEq ℓ] in
/-- A connection that is about to be removed is in `connections_`. -/
theorem Staged.not_refused (hstaged : s.Staged cfg) (hs : s.Sound cfg) {c : ConnId}
    (h : Refused cfg s s' c) : False := by
  obtain ⟨st, hat⟩ := hstaged c
  obtain ⟨l, i, hmem, hi⟩ := h.item
  have htoken := hat.token_of_mem (hs.sane c) hmem (by rcases hi with rfl | rfl <;> rfl)
  have hentry := hat.entry.symm.trans h.entry
  rw [st.entry_of_token htoken hi] at hentry
  cases hentry

theorem Staged.moves (hstaged : s.Staged cfg) (hs : s.Sound cfg) (h : Moves cfg s s')
    (hclose : s'.ClosesOnce) : s'.Staged cfg := by
  intro c
  rcases h.views c with heq | ⟨-, hchanges⟩
  · exact heq ▸ hstaged c
  · exact hchanges.atStage (hs.sane c) (hstaged c) (hclose c)

/-- In a run that closes every connection at most once, no assertion fails. -/
theorem staged_of_run {ops : List (ServerOp ℓ)}
    (hrun : Machine.run (step cfg) (initial cfg) ops = some s) (hclose : s.ClosesOnce) :
    s.assertFailed = false ∧ s.Staged cfg := by
  refine (Machine.run_invariant
    (P := fun t : ServerLoops ℓ => (t.assertFailed = false → t.Sound cfg) ∧
      (t.ClosesOnce → t.assertFailed = false ∧ t.Staged cfg)) (fun s op s' hs h => ?_) hrun
    ⟨fun _ => initial_sound cfg, fun _ => ⟨rfl, initial_staged⟩⟩).2 hclose
  refine ⟨sound_of_step hs.1 h, fun hclose' => ?_⟩
  obtain ⟨hassert, hstep⟩ := step_cases h
  have hsound := hs.1 hassert
  rcases hstep.moves hsound with hmoves | ⟨c, hrefused⟩
  · have hstaged := (hs.2 (hmoves.closesOnce hclose')).2
    exact ⟨hmoves.assert.trans hassert, hstaged.moves hsound hmoves hclose'⟩
  · have hstaged := (hs.2 (hrefused.closesOnce hclose')).2
    exact (hstaged.not_refused hsound hrefused).elim

/-- What the life of the connections of a server is like. -/
structure LifeCycle (cfg : ServerConfig ℓ) (s : ServerLoops ℓ) : Prop where
  /-- Things happen in this order, each at most once; `connectEstablished`, `handleClose` and
  `connectDestroyed` on the I/O loop, the last one while the loop handles no channel, and
  `channel_->remove()` is not refused. -/
  order : ∀ c, s.life c <+:
    [.newConnection, .connectEstablished (s.loopOf c), .handleClose (s.loopOf c),
      .removeConnectionInLoop 1, .connectDestroyed (s.loopOf c) none, .removeChannel false]
  /-- `connections_` has exactly the connections that are between `newConnection` and
  `removeConnectionInLoop`, under their own names. -/
  entries : ∀ n c, s.connections n = some c ↔
    n = cfg.connName c ∧ LifeEvent.newConnection ∈ s.life c ∧
      ∀ k, LifeEvent.removeConnectionInLoop k ∉ s.life c
  names : ∀ c d, LifeEvent.newConnection ∈ s.life c → LifeEvent.newConnection ∈ s.life d →
    cfg.connName c = cfg.connName d → c = d
  /-- `assert(n == 1)` has held every time. -/
  assert : s.assertFailed = false

/-- **The life cycle of connections across loops.**  For any number of loops and every
interleaving of their steps, as long as `handleClose` has run at most once for each
connection. -/
theorem lifeCycle_of_closesOnce (cfg : ServerConfig ℓ) (ops : List (ServerOp ℓ))
    (hrun : Machine.run (step cfg) (initial cfg) ops = some s) (hclose : s.ClosesOnce) :
    s.LifeCycle cfg := by
  obtain ⟨hassert, hstaged⟩ := staged_of_run hrun hclose
  have hs := sound_of_run hrun hassert
  have hlt : ∀ c, .newConnection ∈ s.life c → c < intLimit := by
    intro c hnew
    refine Nat.lt_of_lt_of_le ?_ hs.bound
    by_contra hc
    have hlife : s.life c = [] := congrArg ConnView.life (hs.unborn c (Nat.le_of_not_lt hc))
    rw [hlife] at hnew
    cases hnew
  refine ⟨fun c => ?_, fun n c => ?_, fun c d hc hd => cfg.connName_injective (hlt c hc) (hlt d hd),
    hassert⟩
  · obtain ⟨st, hat⟩ := hstaged c
    have hlife : s.life c = st.life (s.loopOf c) := hat.life
    rw [hlife]
    exact st.life_le (s.loopOf c)
  · obtain ⟨st, hat⟩ := hstaged c
    have hlife : s.life c = st.life (s.loopOf c) := hat.life
    have hentry : s.connections (cfg.connName c) = some c ↔ st.entry = true :=
      hat.entry ▸ beq_iff_eq.symm
    rw [hlife, ← st.entry_iff, ← hentry]
    constructor
    · intro hn
      obtain ⟨rfl, -⟩ := hs.named n c hn
      exact ⟨rfl, hn⟩
    · rintro ⟨rfl, hc⟩
      exact hc

/-- A server with a base loop, `false`, and one I/O loop, `true`. -/
def twoLoops : ServerConfig Bool where
  base := false
  ipPort := ['0', '.', '0', '.', '0', '.', '0', ':', '9']
  short := Nat.le_add_right 9 12

/-- A connection is accepted and established, and its peer hangs up. -/
def acceptAndClose : List (ServerOp Bool) :=
  let readable : Revents := ⟨true, false, false, false, false, false⟩
  let hungUp : Revents := ⟨false, false, false, false, true, false⟩
  [.loop false (.poll [(.acceptor, readable)]), .loop false .next,
    .loop false (.accept (true, ⟨false, false, 1024⟩)),
    .loop true (.poll []), .loop true .next, .loop true .next, .loop true .ret,
    .loop true (.poll [(.conn 1, hungUp)]), .loop true .next, .loop true .next, .loop true .ret,
    .loop true .next, .loop false .next, .loop false .next, .loop true .next, .loop true .next]

theorem lifeCycle_of_closesOnce_twoLoops :
    ∃ s, Machine.run (step twoLoops) (initial twoLoops) acceptAndClose = some s ∧
      s.life 1 = Stage.life true .destroyed ∧ s.ClosesOnce ∧ s.LifeCycle twoLoops := by
  have hrun : (Machine.run (step twoLoops) (initial twoLoops) acceptAndClose).map
      (fun s => (s.life 0, s.life 1, s.nextConnId, s.assertFailed)) =
        some ([], Stage.life true .destroyed, 2, false) := by
    decide +kernel
  obtain ⟨s, hs, hview⟩ := Option.map_eq_some_iff.mp hrun
  simp only [Prod.mk.injEq] at hview
  obtain ⟨hlife₀, hlife₁, hnext, hassert⟩ := hview
  have hclose : s.ClosesOnce := by
    intro c
    by_cases hc : s.nextConnId ≤ c
    · have hlife : s.life c = [] :=
        congrArg ConnView.life ((sound_of_run hs hassert).unborn c hc)
      simp [hlife]
    · rw [hnext, Nat.not_le, Nat.lt_succ_iff] at hc
      obtain rfl | rfl := Nat.le_one_iff_eq_zero_or_eq_one.mp hc
      · simp [hlife₀]
      · rw [hlife₁]
        decide
  exact ⟨s, hs, hlife₁, hclose, lifeCycle_of_closesOnce twoLoops acceptAndClose hs hclose⟩

end ServerLoops
end ReMuduo
