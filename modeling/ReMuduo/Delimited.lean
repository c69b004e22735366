import Mathlib.Tactic.Common

/-! # Streams of delimited records

Records in a stream are separated by a delimiter of any length.  `Split sep l records tail`
says that `l` is cut at successive leftmost occurrences of `sep`: `records` is what stands
between them and `tail` what is left behind the last one.

A stream may arrive in pieces, with a piece ending inside a delimiter.  `Split.append` says
that it makes no difference where the pieces end: what was left of the first piece is cut
together with the next one.  The occurrences to cut at are found by `search`. -/
namespace ReMuduo
namespace Delimited

variable {α : Type} {sep l m : List α} {i j : Nat}

/-- An occurrence of the delimiter begins at position `j` of the list. -/
def Occurs (sep l : List α) (j : Nat) : Prop := sep <+: l.drop j

instance [DecidableEq α] (sep l : List α) (j : Nat) : Decidable (Occurs sep l j) :=
  inferInstanceAs (Decidable (sep <+: l.drop j))

theorem Occurs.add_length_le (hsep : sep ≠ []) (h : Occurs sep l j) :
    j + sep.length ≤ l.length := by
  have hlen := List.IsPrefix.length_le h
  have hpos := List.length_pos_iff.mpr hsep
  rw [List.length_drop] at hlen
  omega

theorem occurs_length_append (pre sep post : List α) :
    Occurs sep (pre ++ sep ++ post) pre.length := by
  rw [Occurs, List.append_assoc, List.drop_left]
  exact List.prefix_append sep post

/-- More data behind an occurrence changes nothing. -/
theorem occurs_append (h : j + sep.length ≤ l.length) :
    Occurs sep (l ++ m) j ↔ Occurs sep l j := by
  rw [Occurs, Occurs, List.drop_append_of_le_length (by omega)]
  constructor
  · intro hlong
    refine List.prefix_of_prefix_length_le hlong (List.prefix_append _ _) ?_
    rw [List.length_drop]
    omega
  · intro hshort
    exact hshort.trans (List.prefix_append _ _)

/-! ## Searching -/

section Search
variable [DecidableEq α]

/-- `std::search`: the position of the first occurrence of `sep`, or the end of the list. -/
def search (sep : List α) : List α → Nat
  | [] => 0
  | x :: l => if sep <+: x :: l then 0 else search sep l + 1

theorem search_le (sep l : List α) : search sep l ≤ l.length := by
  induction l with
  | nil => exact Nat.le_refl _
  | cons x l ih =>
    rw [search, List.length_cons]
    split <;> omega

theorem not_occurs_of_lt_search (h : j < search sep l) : ¬ Occurs sep l j := by
  induction l generalizing j with
  | nil => exact absurd h (Nat.not_lt_zero j)
  | cons x l ih =>
    rw [search] at h
    split at h
    next => exact absurd h (Nat.not_lt_zero j)
    next hnone =>
      cases j with
      | zero => exact hnone
      | succ j => exact ih (Nat.lt_of_succ_lt_succ h)

theorem occurs_search (h : search sep l < l.length) : Occurs sep l (search sep l) := by
  induction l with
  | nil => exact absurd h (Nat.not_lt_zero _)
  | cons x l ih =>
    rw [search] at h ⊢
    split
    next hfirst => exact hfirst
    next hnone =>
      rw [if_neg hnone, List.length_cons] at h
      exact ih (by omega)

/-- A search from a position that no occurrence begins before finds the same place. -/
theorem search_drop (hi : i ≤ l.length) (hnone : ∀ j < i, ¬ Occurs sep l j) :
    i + search sep (l.drop i) = search sep l := by
  induction i generalizing l with
  | zero => rw [List.drop_zero, Nat.zero_add]
  | succ i ih =>
    cases l with
    | nil => exact absurd hi (Nat.not_succ_le_zero i)
    | cons x l =>
      have hfirst : ¬ sep <+: x :: l := hnone 0 (Nat.succ_pos i)
      have hrest : ∀ j < i, ¬ Occurs sep l j := fun j hj => hnone (j + 1) (Nat.succ_lt_succ hj)
      rw [search, if_neg hfirst, List.drop_succ_cons, ← ih (Nat.le_of_succ_le_succ hi) hrest]
      omega

end Search

/-! ## Splitting -/

/-- The list is cut at successive leftmost occurrences of the delimiter. -/
inductive Split (sep : List α) : List α → List (List α) → List α → Prop
  | tail {l : List α} (hnone : ∀ j, ¬ Occurs sep l j) : Split sep l [] l
  | cut {rest tail : List α} {records : List (List α)} (record : List α)
      (hleftmost : ∀ j < record.length, ¬ Occurs sep (record ++ sep ++ rest) j)
      (hrest : Split sep rest records tail) :
      Split sep (record ++ sep ++ rest) (record :: records) tail

/-- There is one way to cut a list. -/
theorem Split.unique {records records' : List (List α)} {tail tail' : List α}
    (h : Split sep l records tail) (h' : Split sep l records' tail') :
    records = records' ∧ tail = tail' := by
  induction h generalizing records' with
  | tail hnone =>
    cases h' with
    | tail => exact ⟨rfl, rfl⟩
    | cut record => exact absurd (occurs_length_append record sep _) (hnone _)
  | @cut rest tail records record hleftmost _ ih =>
    generalize hl : record ++ sep ++ rest = l at h'
    cases h' with
    | tail hnone => exact absurd (hl ▸ occurs_length_append record sep rest) (hnone _)
    | @cut rest' _ _ record' hleftmost' hrest' =>
      -- neither of the two occurrences begins before the other
      have hlength : record.length = record'.length := by
        rcases Nat.lt_trichotomy record.length record'.length with hlt | heq | hgt
        · exact absurd (hl ▸ occurs_length_append record sep rest) (hleftmost' _ hlt)
        · exact heq
        · exact absurd (hl.symm ▸ occurs_length_append record' sep rest') (hleftmost _ hgt)
      rw [List.append_assoc, List.append_assoc] at hl
      obtain ⟨rfl, htail⟩ := List.append_inj hl hlength
      obtain rfl := List.append_cancel_left htail
      obtain ⟨rfl, rfl⟩ := ih hrest'
      exact ⟨rfl, rfl⟩

/-- **It makes no difference where a piece of the stream ends.** -/
theorem Split.append {records records' : List (List α)} {tail tail' : List α}
    (h : Split sep l records tail) (h' : Split sep (tail ++ m) records' tail') :
    Split sep (l ++ m) (records ++ records') tail' := by
  induction h with
  | tail => exact h'
  | @cut rest tail records record hleftmost _ ih =>
    have hcut : record ++ sep ++ rest ++ m = record ++ sep ++ (rest ++ m) :=
      List.append_assoc _ _ _
    rw [hcut, List.cons_append]
    refine Split.cut record ?_ (ih h')
    intro j hj
    rw [← hcut, occurs_append (by simp only [List.length_append]; omega)]
    exact hleftmost j hj

/-- The first record ends at the position that a search finds. -/
theorem Split.of_search [DecidableEq α] {records : List (List α)} {tail : List α}
    (hfound : search sep l < l.length)
    (hrest : Split sep (l.drop (search sep l + sep.length)) records tail) :
    Split sep l (l.take (search sep l) :: records) tail := by
  obtain ⟨rest, hrest'⟩ := occurs_search hfound
  have hl : l = l.take (search sep l) ++ sep ++ rest := by
    rw [List.append_assoc, hrest', List.take_append_drop]
  have hlength : (l.take (search sep l)).length = search sep l :=
    List.length_take_of_le (Nat.le_of_lt hfound)
  rw [← List.drop_drop, ← hrest', List.drop_left] at hrest
  have hcut := Split.cut (l.take (search sep l)) (fun j hj => by
    rw [← hl]
    exact not_occurs_of_lt_search (hlength ▸ hj)) hrest
  rwa [← hl] at hcut

/-- A list in which a search finds nothing is not cut. -/
theorem Split.of_search_eq [DecidableEq α] (hsep : sep ≠ [])
    (hnone : search sep l = l.length) : Split sep l [] l := by
  refine Split.tail fun j hj => ?_
  have hle := hj.add_length_le hsep
  have hpos := List.length_pos_iff.mpr hsep
  exact not_occurs_of_lt_search (by omega) hj

end Delimited
end ReMuduo
