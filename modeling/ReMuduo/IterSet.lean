import ReMuduo.OrderedSet

/-! # Ordered sets with iterators

What a program that keeps iterators into a `std::set` asks of it.  An iterator is got from
`find`, `begin` or `lower_bound`, and denotes an element as long as that element is in the
set; `end()` is `none`.  `toSet` forgets the iterators: the laws say that every operation is
the one of the ordered set of the elements.

An `OrderedSet` is such a set itself, with its elements as iterators.  Sets whose iterators
tell one insertion of an element from the next are in `ReMuduo.NodeSet`. -/
namespace ReMuduo

/-- Where the elements that satisfy `p` end in front, if that place is known by its key. -/
theorem span_key {β κ : Type} [DecidableEq κ] (key : β → κ) (p : β → Bool) {l : List β}
    (hkeys : (l.map key).Nodup) :
    l.takeWhile (fun x => some (key x) != (l.dropWhile p).head?.map key) = l.takeWhile p ∧
      l.dropWhile (fun x => some (key x) != (l.dropWhile p).head?.map key) = l.dropWhile p := by
  have hsplit : l.takeWhile p ++ l.dropWhile p = l := List.takeWhile_append_dropWhile
  generalize l.takeWhile p = front at hsplit ⊢
  generalize l.dropWhile p = back at hsplit ⊢
  rw [← hsplit, List.map_append] at hkeys
  rw [← hsplit]
  have hfront : ∀ x ∈ front, (some (key x) != back.head?.map key) = true := by
    intro x hx
    rw [bne_iff_ne]
    intro heq
    obtain ⟨y, hy, hxy⟩ := Option.map_eq_some_iff.mp heq.symm
    exact (List.nodup_append.mp hkeys).2.2 _ (List.mem_map_of_mem hx) _
      (List.mem_map_of_mem (List.mem_of_head? hy)) hxy.symm
  rw [List.takeWhile_append_of_pos hfront, List.dropWhile_append_of_pos hfront]
  cases back with
  | nil => simp
  | cons y back => simp

/-- A finite set of a linear order, with iterators. -/
class IterSet (σ : Type) (α : outParam Type) [LinearOrder α] where
  /-- The iterators other than `end()`. -/
  Iter : Type
  /-- The elements. -/
  toSet : σ → OrderedSet α
  empty : σ
  find : σ → α → Option Iter
  /-- `*it`, which the iterator of an erased element does not have. -/
  deref : σ → Iter → Option α
  begin? : σ → Option Iter
  lowerBound : σ → α → Option Iter
  /-- The iterators of `[begin(), last)`. -/
  rangeTo : σ → Option Iter → List Iter
  insert : σ → α → σ × Bool
  erase : σ → α → σ × Nat
  /-- `erase(it)`. -/
  eraseIter : σ → Iter → σ
  /-- `erase(begin(), last)`. -/
  eraseRange : σ → Option Iter → σ
  toSet_empty : toSet empty = OrderedSet.empty
  find_eq_none : ∀ {s a}, find s a = none ↔ a ∉ toSet s
  deref_of_find : ∀ {s a it}, find s a = some it → deref s it = some a
  begin?_eq_none : ∀ {s}, begin? s = none ↔ (toSet s).first? = none
  deref_of_begin? : ∀ {s it}, begin? s = some it →
    ∃ a, deref s it = some a ∧ (toSet s).first? = some a
  lowerBound_eq_none : ∀ {s b}, lowerBound s b = none ↔ ((toSet s).eraseBelow b).first? = none
  deref_of_lowerBound : ∀ {s b it}, lowerBound s b = some it →
    ∃ a, deref s it = some a ∧ ((toSet s).eraseBelow b).first? = some a
  map_deref_rangeTo : ∀ s b,
    (rangeTo s (lowerBound s b)).map (deref s) = ((toSet s).below b).map some
  toSet_insert : ∀ s a,
    toSet (insert s a).1 = ((toSet s).insert a).1 ∧ (insert s a).2 = ((toSet s).insert a).2
  toSet_erase : ∀ s a,
    toSet (erase s a).1 = ((toSet s).erase a).1 ∧ (erase s a).2 = ((toSet s).erase a).2
  deref_eraseIter : ∀ s it, deref (eraseIter s it) it = none
  toSet_eraseIter : ∀ {s it a}, deref s it = some a →
    toSet (eraseIter s it) = ((toSet s).erase a).1
  toSet_eraseRange : ∀ s b, toSet (eraseRange s (lowerBound s b)) = (toSet s).eraseBelow b

namespace IterSet
variable {σ α : Type} [LinearOrder α] [IterSet σ α]

/-- `size()`. -/
def size (s : σ) : Nat := (toSet s).size

end IterSet

namespace OrderedSet
variable {α : Type} [LinearOrder α]

/-- The iterator to an element, if it is in the set. -/
def iterTo (s : OrderedSet α) (a : α) : Option α := if a ∈ s then some a else none

theorem iterTo_of_mem {s : OrderedSet α} {a : α} (h : a ∈ s) : s.iterTo a = some a := if_pos h

theorem iterTo_eq_none {s : OrderedSet α} {a : α} : s.iterTo a = none ↔ a ∉ s := by
  simp [iterTo]

/-- The elements before the one that an iterator denotes. -/
theorem span_first (s : OrderedSet α) (b : α) :
    s.elems.takeWhile (fun a => some a != (s.eraseBelow b).first?) = s.below b ∧
      s.elems.dropWhile (fun a => some a != (s.eraseBelow b).first?) =
        (s.eraseBelow b).elems := by
  have hnodup : (s.elems.map id).Nodup := by
    rw [List.map_id]
    exact s.sorted.imp fun h => ne_of_lt h
  have hspan := span_key id (fun a => decide (a < b)) hnodup
  simp only [id_eq, Option.map_id] at hspan
  exact hspan

/-- A set without iterators of its own: its elements serve. -/
instance : IterSet (OrderedSet α) α where
  Iter := α
  toSet s := s
  empty := OrderedSet.empty
  find := iterTo
  deref := iterTo
  begin? := first?
  lowerBound s b := (s.eraseBelow b).first?
  rangeTo s last := s.elems.takeWhile (fun a => some a != last)
  insert := OrderedSet.insert
  erase := OrderedSet.erase
  eraseIter s a := (s.erase a).1
  eraseRange s last := ⟨s.elems.dropWhile (fun a => some a != last),
    s.sorted.sublist (List.dropWhile_sublist _)⟩
  toSet_empty := rfl
  find_eq_none := iterTo_eq_none
  deref_of_find := by
    intro s a it h
    obtain ⟨ha, ⟨⟩⟩ := Option.ite_none_right_eq_some.mp h
    exact iterTo_of_mem ha
  begin?_eq_none := Iff.rfl
  deref_of_begin? h := ⟨_, iterTo_of_mem (first?_mem h), h⟩
  lowerBound_eq_none := Iff.rfl
  deref_of_lowerBound h := ⟨_, iterTo_of_mem (mem_eraseBelow.mp (first?_mem h)).1, h⟩
  map_deref_rangeTo s b := by
    rw [(span_first s b).1]
    exact List.map_congr_left fun a ha => iterTo_of_mem (mem_below.mp ha).1
  toSet_insert _ _ := ⟨rfl, rfl⟩
  toSet_erase _ _ := ⟨rfl, rfl⟩
  deref_eraseIter s a := iterTo_eq_none.mpr fun h => (mem_erase.mp h).1 rfl
  toSet_eraseIter := by
    intro s it a h
    obtain ⟨-, ⟨⟩⟩ := Option.ite_none_right_eq_some.mp h
    rfl
  toSet_eraseRange s b := by
    refine ext_mem fun a => ?_
    rw [mem_def, mem_def, ← (span_first s b).2]

@[simp] theorem iterSet_toSet (s : OrderedSet α) : IterSet.toSet s = s := rfl

@[simp] theorem iterSet_empty : (IterSet.empty : OrderedSet α) = OrderedSet.empty := rfl

@[simp] theorem iterSet_size (s : OrderedSet α) : IterSet.size s = s.size := rfl

@[simp] theorem iterSet_insert (s : OrderedSet α) (a : α) : IterSet.insert s a = s.insert a := rfl

@[simp] theorem iterSet_erase (s : OrderedSet α) (a : α) : IterSet.erase s a = s.erase a := rfl

theorem iterSet_eraseIter {s : OrderedSet α} {it : IterSet.Iter (OrderedSet α)} {a : α}
    (h : IterSet.deref s it = some a) : IterSet.eraseIter s it = (s.erase a).1 :=
  IterSet.toSet_eraseIter h

theorem iterSet_eraseRange (s : OrderedSet α) (b : α) :
    IterSet.eraseRange s (IterSet.lowerBound s b) = s.eraseBelow b :=
  IterSet.toSet_eraseRange s b

end OrderedSet
end ReMuduo
