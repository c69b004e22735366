import Mathlib.Data.List.Sort

/-! # Ordered sets

The `std::set` of a linear order, as far as a program that keeps one can tell: the
elements in strictly increasing order, an insertion that reports whether it took
place, an erasure that reports how many elements went, and the range before a
lower bound.  Strict sortedness is a field, so a set with a repeated or misplaced
element cannot be built. -/
namespace ReMuduo

/-- A finite set of a linear order, as the list of its elements in increasing order. -/
structure OrderedSet (α : Type) [LinearOrder α] where
  elems : List α
  sorted : elems.Pairwise (· < ·)

namespace OrderedSet
variable {α : Type} [LinearOrder α]

instance : Membership α (OrderedSet α) := ⟨fun s a => a ∈ s.elems⟩

instance (a : α) (s : OrderedSet α) : Decidable (a ∈ s) :=
  inferInstanceAs (Decidable (a ∈ s.elems))

theorem mem_def {a : α} {s : OrderedSet α} : a ∈ s ↔ a ∈ s.elems := Iff.rfl

/-- A set is its elements. -/
theorem ext_mem {s t : OrderedSet α} (h : ∀ a, a ∈ s ↔ a ∈ t) : s = t := by
  have hnodup : ∀ u : OrderedSet α, u.elems.Nodup := fun u => u.sorted.imp fun h => ne_of_lt h
  have hperm : s.elems.Perm t.elems :=
    (List.perm_ext_iff_of_nodup (hnodup s) (hnodup t)).mpr h
  have helems : s.elems = t.elems :=
    hperm.eq_of_pairwise (fun _ _ _ _ hlt hgt => absurd hgt (lt_asymm hlt)) s.sorted t.sorted
  cases s
  cases t
  cases helems
  rfl

/-- The empty set. -/
def empty : OrderedSet α := ⟨[], List.Pairwise.nil⟩

@[simp] theorem notMem_empty (a : α) : a ∉ (empty : OrderedSet α) := List.not_mem_nil

/-- `size()`. -/
def size (s : OrderedSet α) : Nat := s.elems.length

/-- `*begin()`, if the set is not empty. -/
def first? (s : OrderedSet α) : Option α := s.elems.head?

theorem first?_mem {s : OrderedSet α} {a : α} (h : s.first? = some a) : a ∈ s :=
  List.mem_of_head? h

theorem first?_le {s : OrderedSet α} {a b : α} (h : s.first? = some a) (hb : b ∈ s) : a ≤ b := by
  obtain ⟨l, hl⟩ : ∃ l, s.elems = a :: l := by
    cases he : s.elems with
    | nil => rw [first?, he] at h; cases h
    | cons x l => rw [first?, he] at h; cases h; exact ⟨l, rfl⟩
  have hs := s.sorted
  rw [hl] at hs
  rw [mem_def, hl] at hb
  rcases List.mem_cons.mp hb with rfl | hb
  · exact le_refl _
  · exact le_of_lt ((List.pairwise_cons.mp hs).1 b hb)

theorem first?_eq_none {s : OrderedSet α} : s.first? = none ↔ ∀ a, a ∉ s := by
  rw [first?, List.head?_eq_none_iff, List.eq_nil_iff_forall_not_mem]
  exact Iff.rfl

/-! ## Insertion and erasure -/

theorem sorted_orderedInsert {l : List α} (hl : l.Pairwise (· < ·)) {a : α} (ha : a ∉ l) :
    (l.orderedInsert (· ≤ ·) a).Pairwise (· < ·) := by
  have hle : (l.orderedInsert (· ≤ ·) a).Pairwise (· ≤ ·) :=
    (hl.imp (fun h => le_of_lt h)).orderedInsert a l
  have hnodup : (l.orderedInsert (· ≤ ·) a).Nodup :=
    (List.perm_orderedInsert (· ≤ ·) a l).nodup_iff.mpr
      (List.nodup_cons.mpr ⟨ha, hl.imp (fun h => ne_of_lt h)⟩)
  exact hle.imp₂ (fun _ _ h hne => lt_of_le_of_ne h hne) hnodup

/-- `insert(a)`: the set with `a` in it, and whether `a` was added. -/
def insert (s : OrderedSet α) (a : α) : OrderedSet α × Bool :=
  if h : a ∈ s then (s, false)
  else (⟨s.elems.orderedInsert (· ≤ ·) a, sorted_orderedInsert s.sorted h⟩, true)

theorem insert_snd (s : OrderedSet α) (a : α) : (s.insert a).2 = decide (a ∉ s) := by
  unfold insert
  split <;> simp_all

@[simp] theorem mem_insert {s : OrderedSet α} {a b : α} :
    b ∈ (s.insert a).1 ↔ b = a ∨ b ∈ s := by
  unfold insert
  split
  · rename_i h
    exact ⟨Or.inr, fun hb => hb.elim (fun he => he ▸ h) id⟩
  · exact List.mem_orderedInsert (· ≤ ·)

theorem size_insert {s : OrderedSet α} {a : α} (h : a ∉ s) :
    (s.insert a).1.size = s.size + 1 := by
  rw [insert, dif_neg h, size, List.orderedInsert_length, size]

/-- `erase(a)`: the set without `a`, and the number of elements erased. -/
def erase (s : OrderedSet α) (a : α) : OrderedSet α × Nat :=
  if a ∈ s then (⟨s.elems.erase a, s.sorted.sublist List.erase_sublist⟩, 1) else (s, 0)

theorem erase_snd (s : OrderedSet α) (a : α) : (s.erase a).2 = if a ∈ s then 1 else 0 := by
  unfold erase
  split <;> rfl

@[simp] theorem mem_erase {s : OrderedSet α} {a b : α} :
    b ∈ (s.erase a).1 ↔ b ≠ a ∧ b ∈ s := by
  have hnodup : s.elems.Nodup := s.sorted.imp (fun h => ne_of_lt h)
  unfold erase
  split
  · exact hnodup.mem_erase_iff
  · rename_i h
    exact ⟨fun hb => ⟨fun he => h (he ▸ hb), hb⟩, fun hb => hb.2⟩

theorem size_erase {s : OrderedSet α} {a : α} (h : a ∈ s) :
    (s.erase a).1.size + 1 = s.size := by
  rw [erase, if_pos h, size, List.length_erase_of_mem h, size]
  have : 0 < s.elems.length := List.length_pos_of_mem h
  omega

/-! ## The range before a lower bound -/

/-- The elements of `[begin(), lower_bound(b))`, in order. -/
def below (s : OrderedSet α) (b : α) : List α := s.elems.takeWhile (· < b)

/-- `erase(begin(), lower_bound(b))`. -/
def eraseBelow (s : OrderedSet α) (b : α) : OrderedSet α :=
  ⟨s.elems.dropWhile (· < b), s.sorted.sublist (List.dropWhile_sublist _)⟩

theorem below_append_eraseBelow (s : OrderedSet α) (b : α) :
    s.below b ++ (s.eraseBelow b).elems = s.elems :=
  List.takeWhile_append_dropWhile

theorem below_sorted (s : OrderedSet α) (b : α) : (s.below b).Pairwise (· < ·) :=
  s.sorted.sublist (List.takeWhile_sublist _)

theorem le_of_mem_eraseBelow {s : OrderedSet α} {a b : α} (h : a ∈ s.eraseBelow b) : b ≤ a := by
  have hs := (s.eraseBelow b).sorted
  rw [mem_def] at h
  cases hd : (s.eraseBelow b).elems with
  | nil => rw [hd] at h; cases h
  | cons x l =>
    -- the first element kept is the one the scan stopped at
    have hx : b ≤ x := by
      have hhead := List.head?_dropWhile_not (fun y => decide (y < b)) s.elems
      rw [show s.elems.dropWhile (fun y => decide (y < b)) = x :: l from hd] at hhead
      simpa using hhead
    rw [hd] at h hs
    rcases List.mem_cons.mp h with rfl | h
    · exact hx
    · exact le_of_lt (lt_of_le_of_lt hx ((List.pairwise_cons.mp hs).1 a h))

theorem mem_below {s : OrderedSet α} {a b : α} : a ∈ s.below b ↔ a ∈ s ∧ a < b := by
  constructor
  · intro h
    refine ⟨(List.takeWhile_sublist _).subset h, ?_⟩
    simpa using List.all_eq_true.mp List.all_takeWhile a h
  · rintro ⟨h, hlt⟩
    rw [mem_def, ← s.below_append_eraseBelow b] at h
    rcases List.mem_append.mp h with h | h
    · exact h
    · exact absurd hlt (not_lt.mpr (le_of_mem_eraseBelow h))

@[simp] theorem mem_eraseBelow {s : OrderedSet α} {a b : α} :
    a ∈ s.eraseBelow b ↔ a ∈ s ∧ b ≤ a := by
  constructor
  · intro h
    exact ⟨(List.dropWhile_sublist _).subset h, le_of_mem_eraseBelow h⟩
  · rintro ⟨h, hle⟩
    rw [mem_def, ← s.below_append_eraseBelow b] at h
    rcases List.mem_append.mp h with h | h
    · exact absurd hle (not_le.mpr (mem_below.mp h).2)
    · exact h

theorem size_eraseBelow (s : OrderedSet α) (b : α) :
    (s.eraseBelow b).size + (s.below b).length = s.size := by
  rw [size, size, ← s.below_append_eraseBelow b, List.length_append]
  omega

end OrderedSet
end ReMuduo
