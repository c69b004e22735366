import Mathlib.Data.List.Count
import Mathlib.Logic.Relation
import ReMuduo.ServerLoops

/-! # A server as one of its connections sees it

What happens to a connection does not depend on the other connections.  A `ConnView` is the
part of the server that concerns one connection: its state, whether it is in
`connections_`, and what the loops still have to do for it, in order.  Every step of the
server is, for each connection, a sequence of small changes of its view (`Small`), and what
is proved about the small changes holds for every interleaving of the loops. -/
namespace ReMuduo

/-- What a task or a functor does for a connection. -/
inductive Item
  | establish
  /-- An event of its channel. -/
  | event
  /-- A functor that holds a raw pointer. -/
  | raw
  /-- `closeCallback_` is to be called. -/
  | close
  | remove
  | destroy
  /-- `channel_->remove()` is to be called. -/
  | unregister
deriving DecidableEq

namespace Item

/-- What is left to do for a connection that has been closed. -/
def afterClose : Item → Bool
  | .close => true
  | .remove => true
  | .destroy => true
  | .unregister => true
  | _ => false

/-- The items of one connection. -/
def of (c : ConnId) : Option (ConnId × Item) → List Item
  | some (d, i) => if d = c then [i] else []
  | none => []

@[simp] theorem of_none (c : ConnId) : of c none = [] := rfl

@[simp] theorem of_self (c : ConnId) (i : Item) : of c (some (c, i)) = [i] := if_pos rfl

theorem of_ne {c d : ConnId} (h : d ≠ c) (i : Item) : of c (some (d, i)) = [] := if_neg h

theorem mem_of {c : ConnId} {i : Item} {o : Option (ConnId × Item)} (h : i ∈ of c o) :
    o = some (c, i) := by
  cases o with
  | none => cases h
  | some p =>
    obtain ⟨d, j⟩ := p
    by_cases hd : d = c
    · subst hd
      rw [of_self] at h
      rw [List.mem_singleton.mp h]
    · rw [of_ne hd] at h
      cases h

end Item

/-- The connection that a functor is about. -/
def ServerFunctor.about : ServerFunctor → Option (ConnId × Item)
  | .connectEstablished c => some (c, .establish)
  | .removeConnectionInLoop c => some (c, .remove)
  | .connectDestroyed c => some (c, .destroy)
  | .raw c _ => some (c, .raw)
  | .user => none

def LoopTask.about : LoopTask AfterCallback ServerFunctor → Option (ConnId × Item)
  | .resume (.closing c) => some (c, .close)
  | .resume (.destroying c) => some (c, .unregister)
  | .callback (.conn c) _ => some (c, .event)
  | .handleEvent (.conn c) _ => some (c, .event)
  | .functor f => f.about
  | _ => none

/-- What a loop still has to do for a connection, in the order in which it will. -/
def LoopThread.items (t : LoopThread AfterCallback ServerFunctor) (c : ConnId) : List Item :=
  t.agenda.flatMap (fun x => Item.of c x.about) ++
    t.pendingFunctors.flatMap (fun f => Item.of c f.about)

/-- The part of the server that concerns one connection. -/
structure ConnView (ℓ : Type) where
  loop : ℓ
  state : StateE
  /-- The channel is in the epoll set. -/
  epoll : Bool
  /-- `connections_` has the connection under its name. -/
  entry : Bool
  life : List (LifeEvent ℓ)
  items : ℓ → List Item

namespace ConnView

variable {ℓ : Type} [DecidableEq ℓ] {base : ℓ} {v v' : ConnView ℓ} {i : Item} {l l' : ℓ}

/-- Replaces the items of one loop. -/
def set (v : ConnView ℓ) (l : ℓ) (is : List Item) : ConnView ℓ :=
  { v with items := Function.update v.items l is }

/-- Adds an item behind those of one loop. -/
def add (v : ConnView ℓ) (l : ℓ) (i : Item) : ConnView ℓ := v.set l (v.items l ++ [i])

/-- The small changes. -/
inductive Small (base : ℓ) : ConnView ℓ → ConnView ℓ → Prop
  | accept {v : ConnView ℓ} (io : ℓ) : v.life = [] → (∀ l, v.items l = []) →
      Small base v
        { loop := io, state := .kConnecting, epoll := false, entry := true
          life := [.newConnection], items := Function.update v.items io [.establish] }
  | establish {v : ConnView ℓ} {rest : List Item} (epoll : Bool) :
      v.items v.loop = .establish :: rest →
      Small base v { v.set v.loop rest with
        state := .kConnected, epoll := epoll, life := v.life ++ [.connectEstablished v.loop] }
  /-- A method that does not close. -/
  | method {v : ConnView ℓ} (state : StateE) (epoll : Bool) : v.state ≠ .kConnecting →
      (state = v.state ∨ v.state = .kConnected ∧ state = .kDisconnecting) →
      Small base v { v with state := state, epoll := epoll }
  | post {v : ConnView ℓ} : v.state = .kConnected ∨ v.state = .kDisconnecting →
      Small base v (v.add v.loop .raw)
  | pop {v : ConnView ℓ} {i : Item} {rest : List Item} : v.items v.loop = i :: rest →
      i = .event ∨ i = .raw → Small base v (v.set v.loop rest)
  | events {v : ConnView ℓ} (n : Nat) : v.state ≠ .kConnecting →
      Small base v (v.set v.loop (List.replicate n .event ++ v.items v.loop))
  /-- `handleClose`, up to the connection callback. -/
  | close {v : ConnView ℓ} (epoll : Bool) : v.state ≠ .kConnecting →
      Small base v { v.set v.loop (.close :: v.items v.loop) with
        state := .kDisconnected, epoll := epoll, life := v.life ++ [.handleClose v.loop] }
  /-- The rest of `handleClose`. -/
  | closed {v : ConnView ℓ} {rest : List Item} : v.items v.loop = .close :: rest →
      Small base v ((v.set v.loop rest).add base .remove)
  | remove {v : ConnView ℓ} {pre rest : List Item} : v.items base = pre ++ .remove :: rest →
      v.entry = true →
      Small base v (add { v.set base (pre ++ rest) with
        entry := false, life := v.life ++ [.removeConnectionInLoop 1] } v.loop .destroy)
  | destroy {v : ConnView ℓ} {rest : List Item} (state : StateE) (epoll : Bool) :
      v.items v.loop = .destroy :: rest → state = v.state ∨ state = .kDisconnected →
      Small base v { v.set v.loop (.unregister :: rest) with
        state := state, epoll := epoll, life := v.life ++ [.connectDestroyed v.loop none] }
  | unregister {v : ConnView ℓ} {rest : List Item} (epoll : Bool) :
      v.items v.loop = .unregister :: rest →
      Small base v { v.set v.loop rest with
        epoll := epoll, life := v.life ++ [.removeChannel false] }

/-- A sequence of small changes. -/
def Changes (base : ℓ) : ConnView ℓ → ConnView ℓ → Prop := Relation.ReflTransGen (Small base)

/-! ## Where things are, and in what order -/

/-- Every functor with a raw pointer has a `connectDestroyed` behind it. -/
def RawsFirst : List Item → Prop
  | [] => True
  | i :: is => (i = .raw → .destroy ∈ is) ∧ RawsFirst is

theorem RawsFirst.append {is js : List Item} (h : RawsFirst is) (hjs : RawsFirst js) :
    RawsFirst (is ++ js) := by
  induction is with
  | nil => exact hjs
  | cons i is ih => exact ⟨fun hi => List.mem_append_left _ (h.1 hi), ih h.2⟩

theorem rawsFirst_append_destroy (is : List Item) : RawsFirst (is ++ [.destroy]) := by
  induction is with
  | nil => exact ⟨nofun, trivial⟩
  | cons i is ih => exact ⟨fun _ => List.mem_append_right _ List.mem_cons_self, ih⟩

theorem rawsFirst_replicate (n : Nat) : RawsFirst (List.replicate n .event) := by
  induction n with
  | zero => trivial
  | succ n ih => exact ⟨nofun, ih⟩

/-- What holds of every connection, however often it is closed. -/
structure Sane (base : ℓ) (v : ConnView ℓ) : Prop where
  /-- The base loop removes connections, everything else is done on the I/O loop. -/
  place : ∀ l i, i ∈ v.items l → l = if i = .remove then base else v.loop
  fresh : v.state = .kConnecting → v.epoll = false ∧ ∀ l i, i ∈ v.items l → i = .establish
  establish : ∀ l, .establish ∈ v.items l → v.state = .kConnecting ∧ v.entry = true
  once : (v.items v.loop).count .establish ≤ 1
  down : ∀ l i, i ∈ v.items l → i.afterClose = true → v.state = .kDisconnected
  up : v.state = .kConnected ∨ v.state = .kDisconnecting → v.entry = true
  /-- A functor with a raw pointer runs before the one that drops the last owner. -/
  raws : v.entry = true ∨ RawsFirst (v.items v.loop)

theorem mem_set {is : List Item} (h : i ∈ (v.set l is).items l') :
    (l' = l ∧ i ∈ is) ∨ i ∈ v.items l' := by
  by_cases hl : l' = l
  · subst hl
    simp only [set, Function.update_self] at h
    exact Or.inl ⟨rfl, h⟩
  · simp only [set, Function.update_of_ne hl] at h
    exact Or.inr h

theorem mem_add {j : Item} (h : i ∈ (v.add l j).items l') : (l' = l ∧ i = j) ∨ i ∈ v.items l' := by
  rcases mem_set h with ⟨hl, h⟩ | h
  · subst hl
    rcases List.mem_append.mp h with h | h
    · exact Or.inr h
    · exact Or.inl ⟨rfl, List.mem_singleton.mp h⟩
  · exact Or.inr h

@[simp] theorem set_items_self (is : List Item) : (v.set l is).items l = is :=
  Function.update_self ..

@[simp] theorem set_set (is js : List Item) : (v.set l is).set l js = v.set l js := by
  simp [set]

theorem set_eq_self {is : List Item} (h : v.items l = is) : v.set l is = v := by
  subst h
  simp [set]

@[simp] theorem add_items_self : (v.add l i).items l = v.items l ++ [i] :=
  Function.update_self ..

/-! ## Hops that are made at once

Where `runInLoop` finds itself on the right thread it does not queue.  For the connection
this is the same as queueing and running at once. -/

theorem Small.establish_now (hloop : v.loop = l) (hnone : v.items l = []) (epoll : Bool) :
    Small base (v.set l [.establish])
      { v with
        state := .kConnected, epoll := epoll, life := v.life ++ [.connectEstablished l] } := by
  subst hloop
  refine (congrArg (Small base _) ?_).mp (Small.establish epoll (set_items_self [.establish]))
  have hset : (v.set v.loop [.establish]).set v.loop [] = v := by
    rw [set_set, set_eq_self hnone]
  exact congrArg (fun w : ConnView ℓ => { w with
    state := .kConnected, epoll := epoll
    life := v.life ++ [LifeEvent.connectEstablished v.loop] }) hset

theorem Changes.remove_now {rest : List Item} (hloop : v.loop = base)
    (hitems : v.items base = .close :: rest) (hentry : v.entry = true) :
    Changes base v (add { v.set base rest with
      entry := false, life := v.life ++ [.removeConnectionInLoop 1] } v.loop .destroy) := by
  subst hloop
  refine .tail (.single (.closed hitems)) ?_
  have hclosed : ((v.set v.loop rest).add v.loop .remove).items v.loop = rest ++ .remove :: [] := by
    rw [add_items_self, set_items_self]
  refine (congrArg (Small v.loop _) ?_).mp (Small.remove hclosed hentry)
  have hset : ((v.set v.loop rest).add v.loop .remove).set v.loop (rest ++ []) =
      v.set v.loop rest := by
    rw [add, set_set, set_set, List.append_nil]
  exact congrArg (fun w : ConnView ℓ => add { w with
    entry := false, life := v.life ++ [.removeConnectionInLoop 1] } v.loop .destroy) hset

theorem Changes.destroy_now {rest : List Item} (epoll : Bool)
    (hitems : v.items v.loop = .destroy :: rest) :
    Changes base v { v.set v.loop rest with
      epoll := epoll
      life := v.life ++ [.connectDestroyed v.loop none] ++ [.removeChannel false] } := by
  refine .tail (.single (.destroy v.state v.epoll hitems (Or.inl rfl))) ?_
  refine (congrArg (Small base _) ?_).mp (Small.unregister epoll (set_items_self _))
  have hset : (v.set v.loop (.unregister :: rest)).set v.loop rest = v.set v.loop rest :=
    set_set ..
  exact congrArg (fun w : ConnView ℓ => { w with
    epoll := epoll
    life := v.life ++ [LifeEvent.connectDestroyed v.loop none] ++ [LifeEvent.removeChannel false] })
    hset

theorem rawsFirst_add (hi : i ≠ .raw) (h : RawsFirst (v.items l')) :
    RawsFirst ((v.add l i).items l') := by
  by_cases hl : l' = l
  · subst hl
    rw [add_items_self]
    exact h.append ⟨fun h => absurd h hi, trivial⟩
  · simp only [add, set, Function.update_of_ne hl]
    exact h

/-- Taking the first item of a loop adds none. -/
theorem mem_of_pop {j : Item} {rest : List Item} (hitems : v.items l = j :: rest)
    (h : i ∈ (v.set l rest).items l') : i ∈ v.items l' := by
  rcases mem_set h with ⟨hl, h⟩ | h
  · rw [hl, hitems]
    exact List.mem_cons_of_mem _ h
  · exact h

omit [DecidableEq ℓ] in
/-- The changes of a connection that has been established. -/
theorem Sane.extend (hs : v.Sane base) (hest : v.state ≠ .kConnecting) (hloop : v'.loop = v.loop)
    (hstate : v'.state ≠ .kConnecting)
    (hdown : v.state = .kDisconnected → v'.state = .kDisconnected)
    (hmem : ∀ l i, i ∈ v'.items l → i ∈ v.items l ∨
      (l = (if i = .remove then base else v.loop) ∧ i ≠ .establish ∧
        (i.afterClose = true → v'.state = .kDisconnected)))
    (hup : v'.state = .kConnected ∨ v'.state = .kDisconnecting → v'.entry = true)
    (hraws : v'.entry = true ∨ RawsFirst (v'.items v.loop)) : v'.Sane base := by
  have hno : ∀ l, .establish ∉ v'.items l := by
    intro l hi
    rcases hmem l .establish hi with hi | ⟨-, hne, -⟩
    · exact hest (hs.establish l hi).1
    · exact hne rfl
  refine ⟨fun l i hi => ?_, fun h => absurd h hstate, fun l hi => absurd hi (hno l), ?_,
    fun l i hi hafter => ?_, hup, hloop ▸ hraws⟩
  · rw [hloop]
    exact (hmem l i hi).elim (hs.place l i) And.left
  · rw [List.count_eq_zero_of_not_mem (hno _)]
    exact Nat.zero_le 1
  · exact (hmem l i hi).elim (fun hi => hdown (hs.down l i hi hafter)) (fun h => h.2.2 hafter)

omit [DecidableEq ℓ] in
theorem Sane.ne_kConnecting (hs : v.Sane base) (hi : i ∈ v.items l) (hne : i ≠ .establish) :
    v.state ≠ .kConnecting :=
  fun h => hne ((hs.fresh h).2 l i hi)

/-- **What every small change keeps.** -/
theorem Small.sane (h : Small base v v') (hs : v.Sane base) : v'.Sane base := by
  cases h with
  | accept io hlife hitems =>
    have hmem : ∀ l i, i ∈ Function.update v.items io [.establish] l → l = io ∧ i = .establish := by
      intro l i hi
      by_cases hl : l = io
      · subst hl
        rw [Function.update_self] at hi
        exact ⟨rfl, List.mem_singleton.mp hi⟩
      · rw [Function.update_of_ne hl, hitems] at hi
        cases hi
    refine ⟨fun l i hi => ?_, fun _ => ⟨rfl, fun l i hi => (hmem l i hi).2⟩,
      fun _ _ => ⟨rfl, rfl⟩, ?_, fun l i hi hafter => ?_, fun _ => rfl, Or.inl rfl⟩
    · obtain ⟨rfl, rfl⟩ := hmem l i hi
      rfl
    · simp only [Function.update_self]
      decide
    · obtain ⟨-, rfl⟩ := hmem l i hi
      cases hafter
  | @establish rest epoll hitems =>
    obtain ⟨hstate, hentry⟩ := hs.establish v.loop (hitems ▸ List.mem_cons_self)
    have hnone : ∀ l i, i ∉ (v.set v.loop rest).items l := by
      intro l i hi
      have hold := mem_of_pop hitems hi
      obtain rfl := (hs.fresh hstate).2 l i hold
      have hl : l = v.loop := hs.place l _ hold
      -- it would be there twice
      rw [hl, set_items_self] at hi
      have hcount := hs.once
      rw [hitems, List.count_cons_self] at hcount
      have hpos := List.count_pos_iff.mpr hi
      omega
    refine ⟨fun l i hi => absurd hi (hnone l i), nofun, fun l hi => absurd hi (hnone l _), ?_,
      fun l i hi => absurd hi (hnone l i), fun _ => hentry, Or.inl hentry⟩
    rw [List.count_eq_zero_of_not_mem (hnone _ _)]
    exact Nat.zero_le 1
  | method state epoll hne hstate =>
    refine hs.extend hne rfl ?_ ?_ (fun l i hi => Or.inl hi) (fun h => hs.up ?_) hs.raws
    · rcases hstate with h | ⟨-, h⟩
      · exact h ▸ hne
      · simp [h]
    · intro hdown
      rcases hstate with h | ⟨h, -⟩
      · exact h.trans hdown
      · cases hdown.symm.trans h
    · rcases hstate with h' | ⟨h', -⟩
      · exact h' ▸ h
      · exact Or.inl h'
  | post hstate =>
    have hne : v.state ≠ .kConnecting := by rcases hstate with h | h <;> simp [h]
    refine hs.extend hne rfl hne (fun h => h) (fun l i hi => ?_) hs.up (Or.inl (hs.up hstate))
    rcases mem_add hi with ⟨rfl, rfl⟩ | hi
    · exact Or.inr ⟨rfl, nofun, nofun⟩
    · exact Or.inl hi
  | pop hitems hi =>
    have hmem := hitems ▸ (List.mem_cons_self : _ ∈ _ :: _)
    have hne := hs.ne_kConnecting hmem (by rcases hi with rfl | rfl <;> nofun)
    refine hs.extend hne rfl hne (fun h => h) (fun l i hi => Or.inl (mem_of_pop hitems hi)) hs.up ?_
    refine hs.raws.imp_right fun hraws => ?_
    rw [hitems] at hraws
    rw [set_items_self]
    exact hraws.2
  | events n hne =>
    refine hs.extend hne rfl hne (fun h => h) (fun l i hi => ?_) hs.up ?_
    · rcases mem_set hi with ⟨rfl, hnew⟩ | hold
      · rcases List.mem_append.mp hnew with hnew | hold
        · obtain rfl := List.eq_of_mem_replicate hnew
          exact Or.inr ⟨rfl, nofun, nofun⟩
        · exact Or.inl hold
      · exact Or.inl hold
    · refine hs.raws.imp_right fun hraws => ?_
      rw [set_items_self]
      exact (rawsFirst_replicate n).append hraws
  | close epoll hne =>
    refine hs.extend hne rfl nofun (fun _ => rfl) (fun l i hi => ?_) (by simp) ?_
    · rcases mem_set hi with ⟨rfl, hnew⟩ | hold
      · rcases List.mem_cons.mp hnew with rfl | hold
        · exact Or.inr ⟨rfl, nofun, fun _ => rfl⟩
        · exact Or.inl hold
      · exact Or.inl hold
    · refine hs.raws.imp_right fun hraws => ?_
      rw [set_items_self]
      exact ⟨nofun, hraws⟩
  | @closed rest hitems =>
    have hdown := hs.down v.loop .close (hitems ▸ List.mem_cons_self) rfl
    have hne : v.state ≠ .kConnecting := by simp [hdown]
    refine hs.extend hne rfl hne (fun h => h) (fun l i hi => ?_) hs.up ?_
    · rcases mem_add hi with ⟨rfl, rfl⟩ | hold
      · exact Or.inr ⟨rfl, nofun, fun _ => hdown⟩
      · exact Or.inl (mem_of_pop hitems hold)
    · refine hs.raws.imp_right fun hraws => ?_
      rw [hitems] at hraws
      refine rawsFirst_add (by simp) ?_
      rw [set_items_self]
      exact hraws.2
  | @remove pre rest hitems hentry =>
    have hdown := hs.down base .remove (hitems ▸ by simp) rfl
    have hne : v.state ≠ .kConnecting := by simp [hdown]
    refine hs.extend hne rfl hne (fun h => h) (fun l i hi => ?_) (fun h => ?_) (Or.inr ?_)
    · rcases mem_add hi with ⟨rfl, rfl⟩ | hold
      · exact Or.inr ⟨rfl, nofun, fun _ => hdown⟩
      · refine Or.inl ?_
        rcases mem_set hold with ⟨rfl, hin⟩ | hin
        · rw [hitems]
          rcases List.mem_append.mp hin with hin | hin
          · exact List.mem_append_left _ hin
          · exact List.mem_append_right _ (List.mem_cons_of_mem _ hin)
        · exact hin
    · rcases h with h | h <;> cases hdown.symm.trans h
    · rw [add_items_self]
      exact rawsFirst_append_destroy _
  | @destroy rest state epoll hitems hstate =>
    have hdown := hs.down v.loop .destroy (hitems ▸ List.mem_cons_self) rfl
    have hne : v.state ≠ .kConnecting := by simp [hdown]
    have hdown' : state = .kDisconnected := hstate.elim (fun h => h.trans hdown) (fun h => h)
    refine hs.extend hne rfl (by simp [hdown']) (fun _ => hdown') (fun l i hi => ?_)
      (by simp [hdown']) ?_
    · rcases mem_set hi with ⟨rfl, hnew⟩ | hold
      · rcases List.mem_cons.mp hnew with rfl | hold
        · exact Or.inr ⟨rfl, nofun, fun _ => hdown'⟩
        · exact Or.inl (hitems ▸ List.mem_cons_of_mem _ hold)
      · exact Or.inl hold
    · refine hs.raws.imp_right fun hraws => ?_
      rw [hitems] at hraws
      rw [set_items_self]
      exact ⟨nofun, hraws.2⟩
  | @unregister rest epoll hitems =>
    have hdown := hs.down v.loop .unregister (hitems ▸ List.mem_cons_self) rfl
    have hne : v.state ≠ .kConnecting := by simp [hdown]
    refine hs.extend hne rfl hne (fun h => h) (fun l i hi => Or.inl (mem_of_pop hitems hi)) hs.up ?_
    refine hs.raws.imp_right fun hraws => ?_
    rw [hitems] at hraws
    rw [set_items_self]
    exact hraws.2

theorem Changes.sane (h : Changes base v v') (hs : v.Sane base) : v'.Sane base := by
  induction h with
  | refl => exact hs
  | tail _ hsmall ih => exact hsmall.sane ih

end ConnView

end ReMuduo
