import ReMuduo.IterSet

/-! # Ordered sets with nodes

The `std::set` once more, with its nodes: an element lives in a node, an iterator is the
handle of a node or the end of the set, and a node that has been erased can be
dereferenced no more.  Handles are not used twice, so that a handle to an erased node
never comes to denote another element.  `toSet` forgets the nodes; every operation is
the one of the ordered set without them, so this is an `IterSet`. -/
namespace ReMuduo

/-- A finite set of a linear order: its nodes in the order of their elements, each with its
handle, and the handle of the next node. -/
structure NodeSet (α : Type) [LinearOrder α] where
  nodes : List (Nat × α)
  next : Nat
  sorted : (nodes.map Prod.snd).Pairwise (· < ·)
  handles : (nodes.map Prod.fst).Nodup
  fresh : ∀ x ∈ nodes, x.1 < next

namespace NodeSet
variable {α : Type} [LinearOrder α]

/-- The elements. -/
def toSet (s : NodeSet α) : OrderedSet α := ⟨s.nodes.map Prod.snd, s.sorted⟩

theorem mem_toSet {s : NodeSet α} {a : α} : a ∈ s.toSet ↔ ∃ h, (h, a) ∈ s.nodes := by
  rw [OrderedSet.mem_def]
  simp [toSet]

/-- The empty set. -/
def empty : NodeSet α where
  nodes := []
  next := 0
  sorted := (OrderedSet.empty : OrderedSet α).sorted
  handles := List.nodup_nil
  fresh := fun _ hx => absurd hx List.not_mem_nil

/-- A set with some of the nodes of another one. -/
def restrict (s : NodeSet α) (nodes : List (Nat × α)) (h : nodes.Sublist s.nodes) : NodeSet α where
  nodes := nodes
  next := s.next
  sorted := s.sorted.sublist (h.map _)
  handles := s.handles.sublist (h.map _)
  fresh := fun x hx => s.fresh x (h.subset hx)

/-! ## Iterators -/

/-- `*it`, which an erased node does not have. -/
def deref (s : NodeSet α) (it : Nat) : Option α := (s.nodes.find? (·.1 == it)).map Prod.snd

theorem deref_eq_some {s : NodeSet α} {it : Nat} {a : α} :
    s.deref it = some a ↔ (it, a) ∈ s.nodes := by
  unfold deref
  constructor
  · intro h
    obtain ⟨x, hx, rfl⟩ := Option.map_eq_some_iff.mp h
    have hit : x.1 = it := by simpa using List.find?_some hx
    exact hit ▸ List.mem_of_find?_eq_some hx
  · intro h
    obtain ⟨x, hx⟩ : ∃ x, s.nodes.find? (·.1 == it) = some x :=
      Option.isSome_iff_exists.mp (List.find?_isSome.mpr ⟨_, h, by simp⟩)
    have hit : x.1 = it := by simpa using List.find?_some hx
    have hx' : x = (it, a) :=
      List.inj_on_of_nodup_map s.handles (List.mem_of_find?_eq_some hx) h hit
    rw [hx, hx']
    rfl

/-- `find(a)`, or the end of the set. -/
def find (s : NodeSet α) (a : α) : Option Nat := (s.nodes.find? (·.2 == a)).map Prod.fst

theorem deref_of_find {s : NodeSet α} {a : α} {it : Nat} (h : s.find a = some it) :
    s.deref it = some a := by
  obtain ⟨x, hx, rfl⟩ := Option.map_eq_some_iff.mp h
  have ha : x.2 = a := by simpa using List.find?_some hx
  exact deref_eq_some.mpr (ha ▸ List.mem_of_find?_eq_some hx)

theorem find_eq_none {s : NodeSet α} {a : α} : s.find a = none ↔ a ∉ s.toSet := by
  rw [find, Option.map_eq_none_iff, List.find?_eq_none, mem_toSet]
  constructor
  · rintro h ⟨it, hit⟩
    exact h _ hit (by simp)
  · intro h x hx hxa
    exact h ⟨x.1, beq_iff_eq.mp hxa ▸ hx⟩

/-- `begin()`, or the end of an empty set. -/
def begin? (s : NodeSet α) : Option Nat := s.nodes.head?.map Prod.fst

theorem begin?_eq_none {s : NodeSet α} : s.begin? = none ↔ s.toSet.first? = none := by
  simp [begin?, toSet, OrderedSet.first?]

theorem deref_of_begin? {s : NodeSet α} {it : Nat} (h : s.begin? = some it) :
    ∃ a, s.deref it = some a ∧ s.toSet.first? = some a := by
  obtain ⟨x, hx, rfl⟩ := Option.map_eq_some_iff.mp h
  refine ⟨x.2, deref_eq_some.mpr (List.mem_of_head? hx), ?_⟩
  simp [toSet, OrderedSet.first?, hx]

/-- `lower_bound(b)`, or the end of the set. -/
def lowerBound (s : NodeSet α) (b : α) : Option Nat :=
  (s.nodes.dropWhile (·.2 < b)).head?.map Prod.fst

theorem map_snd_dropWhile (s : NodeSet α) (b : α) :
    (s.nodes.dropWhile (·.2 < b)).map Prod.snd = (s.toSet.eraseBelow b).elems := by
  show _ = (s.nodes.map Prod.snd).dropWhile _
  rw [List.dropWhile_map]
  rfl

theorem map_snd_takeWhile (s : NodeSet α) (b : α) :
    (s.nodes.takeWhile (·.2 < b)).map Prod.snd = s.toSet.below b := by
  show _ = (s.nodes.map Prod.snd).takeWhile _
  rw [List.takeWhile_map]
  rfl

theorem lowerBound_eq_none {s : NodeSet α} {b : α} :
    s.lowerBound b = none ↔ (s.toSet.eraseBelow b).first? = none := by
  simp [lowerBound, OrderedSet.first?, ← map_snd_dropWhile]

theorem deref_of_lowerBound {s : NodeSet α} {b : α} {it : Nat} (h : s.lowerBound b = some it) :
    ∃ a, s.deref it = some a ∧ (s.toSet.eraseBelow b).first? = some a := by
  obtain ⟨x, hx, rfl⟩ := Option.map_eq_some_iff.mp h
  refine ⟨x.2, deref_eq_some.mpr ?_, ?_⟩
  · exact (List.dropWhile_sublist _).subset (List.mem_of_head? hx)
  · simp [OrderedSet.first?, ← map_snd_dropWhile, hx]

/-- The iterators of `[begin(), last)`. -/
def rangeTo (s : NodeSet α) (last : Option Nat) : List Nat :=
  (s.nodes.takeWhile (fun x => some x.1 != last)).map Prod.fst

/-- The nodes before a lower bound are those of the elements below it. -/
theorem span_lowerBound (s : NodeSet α) (b : α) :
    s.nodes.takeWhile (fun x => some x.1 != s.lowerBound b) = s.nodes.takeWhile (·.2 < b) ∧
      s.nodes.dropWhile (fun x => some x.1 != s.lowerBound b) = s.nodes.dropWhile (·.2 < b) :=
  span_key Prod.fst (fun x => decide (x.2 < b)) s.handles

/-- Every iterator of a range can be dereferenced. -/
theorem map_deref_rangeTo (s : NodeSet α) (b : α) :
    (s.rangeTo (s.lowerBound b)).map s.deref = (s.toSet.below b).map some := by
  rw [rangeTo, (span_lowerBound s b).1, ← map_snd_takeWhile, List.map_map, List.map_map]
  refine List.map_congr_left fun x hx => ?_
  exact deref_eq_some.mpr ((List.takeWhile_sublist _).subset hx)

/-! ## Insertion and erasure -/

/-- The nodes with a new one for `a` in its place. -/
def place (nodes : List (Nat × α)) (it : Nat) (a : α) : List (Nat × α) :=
  nodes.takeWhile (·.2 < a) ++ (it, a) :: nodes.dropWhile (·.2 < a)

theorem place_perm (nodes : List (Nat × α)) (it : Nat) (a : α) :
    (place nodes it a).Perm ((it, a) :: nodes) := by
  have h : (nodes.takeWhile (·.2 < a) ++ nodes.dropWhile (·.2 < a)) = nodes :=
    List.takeWhile_append_dropWhile
  exact List.perm_middle.trans (by rw [h])

theorem map_snd_place (nodes : List (Nat × α)) (it : Nat) (a : α) :
    (place nodes it a).map Prod.snd = (nodes.map Prod.snd).orderedInsert (· ≤ ·) a := by
  have hlt : (fun b : α => decide ¬ a ≤ b) = fun b => decide (b < a) := by
    funext b
    simp
  rw [List.orderedInsert_eq_take_drop, hlt, List.takeWhile_map, List.dropWhile_map]
  simp [place, Function.comp_def]

/-- `insert(a)`: the set with `a` in it, and whether `a` was added. -/
def insert (s : NodeSet α) (a : α) : NodeSet α × Bool :=
  if ha : a ∈ s.toSet then (s, false)
  else
    ({ nodes := place s.nodes s.next a
       next := s.next + 1
       sorted := by
         rw [map_snd_place]
         exact OrderedSet.sorted_orderedInsert s.sorted ha
       handles := by
         rw [((place_perm s.nodes s.next a).map Prod.fst).nodup_iff, List.map_cons,
           List.nodup_cons]
         refine ⟨fun h => ?_, s.handles⟩
         obtain ⟨x, hx, heq⟩ := List.mem_map.mp h
         exact Nat.ne_of_lt (s.fresh x hx) heq
       fresh := by
         intro x hx
         rcases List.mem_cons.mp ((place_perm s.nodes s.next a).mem_iff.mp hx) with rfl | hx
         · exact Nat.lt_succ_self _
         · exact Nat.lt_succ_of_lt (s.fresh x hx) }, true)

theorem toSet_insert (s : NodeSet α) (a : α) :
    (s.insert a).1.toSet = (s.toSet.insert a).1 ∧ (s.insert a).2 = (s.toSet.insert a).2 := by
  unfold insert OrderedSet.insert
  split
  · exact ⟨rfl, rfl⟩
  · simp [toSet, map_snd_place]

/-- `erase(a)`: the set without `a`, and the number of elements erased. -/
def erase (s : NodeSet α) (a : α) : NodeSet α × Nat :=
  if a ∈ s.toSet then (s.restrict (s.nodes.filter (·.2 ≠ a)) List.filter_sublist, 1) else (s, 0)

theorem mem_toSet_restrict {s : NodeSet α} {nodes : List (Nat × α)} {h : nodes.Sublist s.nodes}
    {a : α} : a ∈ (s.restrict nodes h).toSet ↔ ∃ it, (it, a) ∈ nodes := mem_toSet

theorem toSet_erase (s : NodeSet α) (a : α) :
    (s.erase a).1.toSet = (s.toSet.erase a).1 ∧ (s.erase a).2 = (s.toSet.erase a).2 := by
  refine ⟨OrderedSet.ext_mem fun b => ?_, ?_⟩
  · rw [OrderedSet.mem_erase]
    unfold erase
    split
    · rw [mem_toSet_restrict, mem_toSet]
      simp [and_comm]
    · rename_i ha
      exact ⟨fun hb => ⟨fun hba => ha (hba ▸ hb), hb⟩, fun hb => hb.2⟩
  · rw [OrderedSet.erase_snd]
    unfold erase
    split <;> rfl

/-- `erase(it)`. -/
def eraseNode (s : NodeSet α) (it : Nat) : NodeSet α :=
  s.restrict (s.nodes.filter (·.1 ≠ it)) List.filter_sublist

/-- An iterator to an erased element is invalid. -/
theorem deref_eraseNode (s : NodeSet α) (it : Nat) : (s.eraseNode it).deref it = none := by
  rw [Option.eq_none_iff_forall_ne_some]
  intro a ha
  have hmem : (it, a) ∈ s.nodes.filter (·.1 ≠ it) := deref_eq_some.mp ha
  simp at hmem

theorem toSet_eraseNode {s : NodeSet α} {it : Nat} {a : α} (h : s.deref it = some a) :
    (s.eraseNode it).toSet = (s.toSet.erase a).1 := by
  have hit := deref_eq_some.mp h
  refine OrderedSet.ext_mem fun b => ?_
  rw [OrderedSet.mem_erase, eraseNode, mem_toSet_restrict, mem_toSet]
  constructor
  · rintro ⟨j, hj⟩
    obtain ⟨hj, hne⟩ := List.mem_filter.mp hj
    refine ⟨?_, j, hj⟩
    rintro rfl
    -- one element has one node
    have hsame := List.inj_on_of_nodup_map (s.sorted.imp fun h => ne_of_lt h) hj hit rfl
    exact of_decide_eq_true hne (congrArg Prod.fst hsame)
  · rintro ⟨hne, j, hj⟩
    refine ⟨j, List.mem_filter.mpr ⟨hj, decide_eq_true ?_⟩⟩
    rintro rfl
    exact hne (Option.some.inj ((deref_eq_some.mpr hj).symm.trans h))

/-- `erase(begin(), last)`. -/
def eraseRange (s : NodeSet α) (last : Option Nat) : NodeSet α :=
  s.restrict (s.nodes.dropWhile (fun x => some x.1 != last)) (List.dropWhile_sublist _)

theorem toSet_eraseRange (s : NodeSet α) (b : α) :
    (s.eraseRange (s.lowerBound b)).toSet = s.toSet.eraseBelow b := by
  have helems : (s.nodes.dropWhile fun x => some x.1 != s.lowerBound b).map Prod.snd =
      (s.toSet.eraseBelow b).elems := by
    rw [(span_lowerBound s b).2, map_snd_dropWhile]
  exact OrderedSet.ext_mem fun a => by
    rw [OrderedSet.mem_def, OrderedSet.mem_def, ← helems]
    rfl

instance : IterSet (NodeSet α) α where
  Iter := Nat
  toSet := toSet
  empty := empty
  find := find
  deref := deref
  begin? := begin?
  lowerBound := lowerBound
  rangeTo := rangeTo
  insert := insert
  erase := erase
  eraseIter := eraseNode
  eraseRange := eraseRange
  toSet_empty := rfl
  find_eq_none := find_eq_none
  deref_of_find := deref_of_find
  begin?_eq_none := begin?_eq_none
  deref_of_begin? := deref_of_begin?
  lowerBound_eq_none := lowerBound_eq_none
  deref_of_lowerBound := deref_of_lowerBound
  map_deref_rangeTo := map_deref_rangeTo
  toSet_insert := toSet_insert
  toSet_erase := toSet_erase
  deref_eraseIter := deref_eraseNode
  toSet_eraseIter := toSet_eraseNode
  toSet_eraseRange := toSet_eraseRange

end NodeSet
end ReMuduo
