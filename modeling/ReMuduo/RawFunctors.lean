import ReMuduo.LifeCycle

/-! # Functors that hold a raw pointer

`send`, `shutdown` and `forceClose` bind a raw `this` when they are called from another
thread than that of the connection's loop.  Nothing in the functor keeps the connection
alive.  It is safe because of the order of the queue: `state_` lets such a functor be posted
only while `connections_` has the connection, and what drops the last owner,
`connectDestroyed`, is queued on the same loop after the connection has been removed. -/
namespace ReMuduo
namespace ServerLoops

variable {ℓ : Type} [DecidableEq ℓ] {cfg : ServerConfig ℓ} {s s' : ServerLoops ℓ}

/-- A functor waits on a loop, in `pendingFunctors_` or in the list that
`doPendingFunctors` is working on. -/
def Queued (s : ServerLoops ℓ) (l : ℓ) (f : ServerFunctor) : Prop :=
  f ∈ (s.loops l).pendingFunctors ∨ .functor f ∈ (s.loops l).agenda

/-- Somebody owns the connection: `connections_`, a functor that waits, or a
`connectDestroyed` that is running. -/
inductive Owned (cfg : ServerConfig ℓ) (s : ServerLoops ℓ) (c : ConnId) : Prop
  | entry (h : s.connections (cfg.connName c) = some c)
  | removeConnectionInLoop (l : ℓ) (h : s.Queued l (.removeConnectionInLoop c))
  | connectDestroyed (l : ℓ) (h : s.Queued l (.connectDestroyed c))
  | destroying (l : ℓ) (h : .resume (.destroying c) ∈ (s.loops l).agenda)

omit [DecidableEq ℓ] in
theorem queued_of_destroy {l : ℓ} {c : ConnId} (h : .destroy ∈ (s.loops l).items c) :
    s.Queued l (.connectDestroyed c) := by
  have hfunctor : ∀ f : ServerFunctor, f.about = some (c, .destroy) → f = .connectDestroyed c := by
    intro f hf
    cases f <;> cases hf
    rfl
  rcases List.mem_append.mp h with h | h
  · obtain ⟨x, hx, hi⟩ := List.mem_flatMap.mp h
    have habout := Item.mem_of hi
    cases x with
    | functor f => exact Or.inr (hfunctor f habout ▸ hx)
    | user | doPendingFunctors => cases habout
    | resume rest => cases rest <;> cases habout
    | callback channel | handleEvent channel => cases channel <;> cases habout
  · obtain ⟨f, hf, hi⟩ := List.mem_flatMap.mp h
    exact Or.inl (hfunctor f (Item.mem_of hi) ▸ hf)

/-- **Functors with a raw pointer run only while the connection is owned.**  For any number of
loops and every interleaving of their steps with calls from other threads. -/
theorem raw_functor_owned (cfg : ServerConfig ℓ) (ops : List (ServerOp ℓ))
    (hrun : Machine.run (step cfg) (initial cfg) ops = some s) {l : ℓ} {c : ConnId}
    {f : ConnectionFunctor} {rest : List ServerTask}
    (hagenda : (s.loops l).agenda = .functor (.raw c f) :: rest) {e : ServerEvent ℓ}
    (hstep : s.step cfg (.loop l e) = some s') : s.Owned cfg c := by
  have hs := sound_of_run hrun (step_cases hstep).1
  obtain rfl : l = s.loopOf c := hs.place hagenda rfl
  -- either the connection has not been removed, or `connectDestroyed` is behind the functor
  rcases (hs.sane c).raws with hentry | hraws
  · exact .entry (beq_iff_eq.mp hentry)
  · obtain ⟨is, hitems, -⟩ := view_take cfg hagenda rfl
    have hdestroy : .destroy ∈ (s.view cfg c).items (s.loopOf c) := by
      rw [hitems]
      rw [show (s.view cfg c).loop = s.loopOf c from rfl, hitems] at hraws
      exact List.mem_cons_of_mem _ (hraws.1 rfl)
    exact .connectDestroyed (s.loopOf c) (queued_of_destroy hdestroy)

/-- A foreign `shutdown` posts its functor, the peer hangs up, and the connection is removed
before the functor runs. -/
def shutdownAndClose : List (ServerOp Bool) :=
  let readable : Revents := ⟨true, false, false, false, false, false⟩
  let hungUp : Revents := ⟨false, false, false, false, true, false⟩
  [.loop false (.poll [(.acceptor, readable)]), .loop false .next,
    .loop false (.accept (true, ⟨false, false, 1024⟩)),
    .loop true (.poll []), .loop true .next, .loop true .next, .loop true .ret,
    .foreign .shutdown 1,
    .loop true (.poll [(.conn 1, hungUp)]), .loop true .next, .loop true .next, .loop true .ret,
    .loop true .next, .loop false .next, .loop false .next, .loop true .next]

/-- The owner that is left waits behind the functor. -/
theorem raw_functor_owned_removed :
    ∃ s s' : ServerLoops Bool,
      Machine.run (step twoLoops) (initial twoLoops) shutdownAndClose = some s ∧
      (s.loops true).agenda =
        [.functor (.raw 1 .shutdownInLoop), .functor (.connectDestroyed 1)] ∧
      s.connections (twoLoops.connName 1) = none ∧
      s.step twoLoops (.loop true .next) = some s' ∧ s.Owned twoLoops 1 := by
  have hrun : (Machine.run (step twoLoops) (initial twoLoops) shutdownAndClose).map
      (fun s => ((s.loops true).agenda, s.connections (twoLoops.connName 1),
        (s.step twoLoops (.loop true .next)).isSome)) =
      some ([.functor (.raw 1 .shutdownInLoop), .functor (.connectDestroyed 1)], none, true) := by
    rfl
  obtain ⟨s, hs, hview⟩ := Option.map_eq_some_iff.mp hrun
  simp only [Prod.mk.injEq] at hview
  obtain ⟨hagenda, hnone, hsome⟩ := hview
  obtain ⟨s', hstep⟩ := Option.isSome_iff_exists.mp hsome
  exact ⟨s, s', hs, hagenda, hnone, hstep,
    raw_functor_owned twoLoops shutdownAndClose hs hagenda hstep⟩

end ServerLoops
end ReMuduo
