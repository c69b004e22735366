import Mathlib.Tactic.Common

/-! # Storage accessed by index

A vector is the list of its cells.  Reads and writes of a range of cells are checked:
they answer `none` when an index of the range is outside the vector, so a computation
that answers `some` has touched nothing else.  `move?` is `memmove`: the source range is
read as a whole before the destination is written, so that the two may overlap.  `copy?`
copies cell by cell; it does the same if the destination does not begin inside the source.

`slice m i j` is the contents of the cells from `i` up to `j`.  The lemmas say what a
write, a move and a resize do to the slices of the vector. -/
namespace ReMuduo
namespace Memory

variable {α : Type} {m m' xs : List α} {i j k n : Nat}

/-- The cells from `i` up to `j`. -/
def slice (m : List α) (i j : Nat) : List α := (m.take j).drop i

/-- Reads `n` cells from `i` on. -/
def read? (m : List α) (i n : Nat) : Option (List α) :=
  if i + n ≤ m.length then some (slice m i (i + n)) else none

/-- Writes `xs` into the cells from `i` on. -/
def write? (m : List α) (i : Nat) (xs : List α) : Option (List α) :=
  if i + xs.length ≤ m.length then some (m.take i ++ xs ++ m.drop (i + xs.length)) else none

/-- Copies the cells from `first` up to `last` to the cells from `dest` on. -/
def move? (m : List α) (first last dest : Nat) : Option (List α) :=
  (read? m first (last - first)).bind (write? m dest)

/-- `vector::resize(n)`, where new cells are `fill`. -/
def resize (fill : α) (m : List α) (n : Nat) : List α :=
  m.take n ++ List.replicate (n - m.length) fill

theorem length_slice (h : j ≤ m.length) : (slice m i j).length = j - i := by
  simp only [slice, List.length_drop, List.length_take]
  omega

theorem getElem?_slice : (slice m i j)[k]? = if i + k < j then m[i + k]? else none := by
  rw [slice, List.getElem?_drop, List.getElem?_take]

theorem slice_self (m : List α) (i : Nat) : slice m i i = [] := by
  refine List.drop_eq_nil_of_le ?_
  rw [List.length_take]
  omega

theorem slice_append_slice (hij : i ≤ j) (hjk : j ≤ k) (hk : k ≤ m.length) :
    slice m i j ++ slice m j k = slice m i k := by
  have hlen : (slice m i j).length = j - i := length_slice (Nat.le_trans hjk hk)
  refine List.ext_getElem? (fun n => ?_)
  rw [List.getElem?_append, hlen]
  simp only [getElem?_slice]
  by_cases hn : n < j - i
  · rw [if_pos hn, if_pos (by omega), if_pos (by omega)]
  · rw [if_neg hn, show j + (n - (j - i)) = i + n by omega]

theorem slice_drop (m : List α) (i j n : Nat) : (slice m i j).drop n = slice m (i + n) j := by
  rw [slice, slice, List.drop_drop]

theorem slice_take (m : List α) (h : i + n ≤ j) : (slice m i j).take n = slice m i (i + n) := by
  rw [slice, slice, List.take_drop, List.take_take, Nat.min_eq_left h]

/-! ## Writes -/

theorem exists_write (h : i + xs.length ≤ m.length) : ∃ m', write? m i xs = some m' :=
  ⟨_, if_pos h⟩

/-- A write that succeeds is inside the vector. -/
theorem fits_of_write (h : write? m i xs = some m') : i + xs.length ≤ m.length := by
  by_contra hnot
  rw [write?, if_neg hnot] at h
  cases h

theorem write?_nil (h : i ≤ m.length) : write? m i [] = some m := by
  rw [write?, List.length_nil, Nat.add_zero, if_pos h, List.append_nil, List.take_append_drop]

theorem length_write (h : write? m i xs = some m') : m'.length = m.length := by
  unfold write? at h
  split at h
  · rw [← Option.some.inj h]
    simp only [List.length_append, List.length_take, List.length_drop]
    omega
  · cases h

theorem getElem?_write (h : write? m i xs = some m') :
    m'[n]? = if i ≤ n ∧ n < i + xs.length then xs[n - i]? else m[n]? := by
  unfold write? at h
  split at h
  · rename_i hb
    rw [← Option.some.inj h, List.append_assoc, List.getElem?_append, List.getElem?_append,
      List.length_take, Nat.min_eq_left (by omega), List.getElem?_take, List.getElem?_drop]
    by_cases h1 : n < i
    · rw [if_pos h1, if_pos h1, if_neg (by omega)]
    · rw [if_neg h1]
      by_cases h2 : n - i < xs.length
      · rw [if_pos h2, if_pos (by omega)]
      · rw [if_neg h2, if_neg (by omega), show i + xs.length + (n - i - xs.length) = n by omega]
  · cases h

theorem slice_write_self (h : write? m i xs = some m') : slice m' i (i + xs.length) = xs := by
  refine List.ext_getElem? (fun n => ?_)
  rw [getElem?_slice, getElem?_write h]
  by_cases hn : n < xs.length
  · rw [if_pos (by omega), if_pos (by omega), Nat.add_sub_cancel_left]
  · rw [if_neg (by omega), List.getElem?_eq_none (by omega)]

/-- The first part of what has been written. -/
theorem slice_write_left {ys : List α} (h : write? m i (xs ++ ys) = some m') :
    slice m' i (i + xs.length) = xs := by
  have hself := congrArg (List.take xs.length) (slice_write_self h)
  rwa [slice_take _ (by rw [List.length_append]; omega), List.take_left] at hself

/-- A write leaves the cells before it alone. -/
theorem slice_write_before (h : write? m i xs = some m') (hj : j ≤ i) :
    slice m' k j = slice m k j := by
  refine List.ext_getElem? (fun n => ?_)
  rw [getElem?_slice, getElem?_slice, getElem?_write h]
  by_cases hn : k + n < j
  · rw [if_pos hn, if_pos hn, if_neg (by omega)]
  · rw [if_neg hn, if_neg hn]

/-- A write leaves the cells after it alone. -/
theorem slice_write_after (h : write? m i xs = some m') (hk : i + xs.length ≤ k) :
    slice m' k j = slice m k j := by
  refine List.ext_getElem? (fun n => ?_)
  rw [getElem?_slice, getElem?_slice, getElem?_write h]
  congr 1
  exact if_neg (by omega)

/-- A write in two parts. -/
theorem write?_append (m : List α) (i : Nat) (xs ys : List α) :
    write? m i (xs ++ ys) = (write? m i xs).bind fun m' => write? m' (i + xs.length) ys := by
  by_cases hfit : i + (xs ++ ys).length ≤ m.length
  · obtain ⟨m₀, hall⟩ := exists_write hfit
    rw [List.length_append] at hfit
    obtain ⟨m₁, hfirst⟩ := exists_write (show i + xs.length ≤ m.length by omega)
    obtain ⟨m₂, hsecond⟩ := exists_write
      (show i + xs.length + ys.length ≤ m₁.length by rw [length_write hfirst]; omega)
    rw [hall, hfirst, Option.bind_some, hsecond]
    refine congrArg some (List.ext_getElem? fun n => ?_)
    rw [getElem?_write hall, getElem?_write hsecond, getElem?_write hfirst, List.length_append,
      List.getElem?_append]
    by_cases hys : i + xs.length ≤ n ∧ n < i + xs.length + ys.length
    · rw [if_pos (by omega), if_neg (by omega), if_pos hys, Nat.sub_sub]
    · rw [if_neg hys]
      by_cases hxs : i ≤ n ∧ n < i + xs.length
      · rw [if_pos (by omega), if_pos (by omega), if_pos hxs]
      · rw [if_neg (by omega), if_neg hxs]
  · rw [write?, if_neg hfit]
    rw [List.length_append] at hfit
    cases hfirst : write? m i xs with
    | none => rfl
    | some m₁ =>
      have hlength := length_write hfirst
      rw [Option.bind_some, write?, if_neg (by omega)]

/-! ## Moves and resizes -/

/-- `memmove` within the vector succeeds and puts the source slice at its destination. -/
theorem move?_spec (hij : i ≤ j) (hj : j ≤ m.length) (hk : k + (j - i) ≤ m.length) :
    ∃ m', move? m i j k = some m' ∧ m'.length = m.length ∧
      slice m' k (k + (j - i)) = slice m i j := by
  have hlen : (slice m i j).length = j - i := length_slice hj
  have hread : read? m i (j - i) = some (slice m i j) := by
    rw [read?, if_pos (by omega), Nat.add_sub_cancel' hij]
  have hfit : k + (slice m i j).length ≤ m.length := by rw [hlen]; exact hk
  obtain ⟨m', hwrite⟩ := exists_write hfit
  refine ⟨m', by rw [move?, hread]; exact hwrite, length_write hwrite, ?_⟩
  rw [← hlen]
  exact slice_write_self hwrite

/-- `std::reverse(first, last)`. -/
def reverse? (m : List α) (first last : Nat) : Option (List α) :=
  (read? m first (last - first)).bind fun xs => write? m first xs.reverse

/-- Reversing the first part of what has been written. -/
theorem reverse?_write {ys : List α} (h : write? m i (xs ++ ys) = some m') :
    reverse? m' i (i + xs.length) = write? m i (xs.reverse ++ ys) := by
  have hfit := fits_of_write h
  have hlength := length_write h
  rw [List.length_append] at hfit
  have hread : read? m' i (i + xs.length - i) = some xs := by
    rw [Nat.add_sub_cancel_left, read?, if_pos (by omega), slice_write_left h]
  obtain ⟨m₁, hwrite⟩ := exists_write
    (show i + xs.reverse.length ≤ m'.length by rw [List.length_reverse]; omega)
  obtain ⟨m₂, hboth⟩ := exists_write
    (show i + (xs.reverse ++ ys).length ≤ m.length by
      rw [List.length_append, List.length_reverse]; omega)
  rw [reverse?, hread, Option.bind_some, hwrite, hboth]
  refine congrArg some (List.ext_getElem? fun n => ?_)
  rw [getElem?_write hwrite, getElem?_write h, getElem?_write hboth, List.length_append,
    List.length_append, List.length_reverse, List.getElem?_append, List.getElem?_append,
    List.length_reverse]
  by_cases hxs : i ≤ n ∧ n < i + xs.length
  · rw [if_pos hxs, if_pos (by omega), if_pos (by omega)]
  · rw [if_neg hxs]
    by_cases hys : i ≤ n ∧ n < i + (xs.length + ys.length)
    · rw [if_pos hys, if_pos hys, if_neg (by omega), if_neg (by omega)]
    · rw [if_neg hys, if_neg hys]

theorem length_move (h : move? m i j k = some m') : m'.length = m.length := by
  obtain ⟨xs, -, hwrite⟩ := Option.bind_eq_some_iff.mp h
  exact length_write hwrite

/-- A move, cell by cell. -/
theorem getElem?_move (hij : i ≤ j) (hj : j ≤ m.length) (h : move? m i j k = some m') :
    m'[n]? = if k ≤ n ∧ n < k + (j - i) then m[i + (n - k)]? else m[n]? := by
  obtain ⟨xs, hread, hwrite⟩ := Option.bind_eq_some_iff.mp h
  rw [read?, if_pos (by omega), Nat.add_sub_cancel' hij] at hread
  obtain rfl := Option.some.inj hread
  rw [getElem?_write hwrite, length_slice hj]
  by_cases hn : k ≤ n ∧ n < k + (j - i)
  · rw [if_pos hn, if_pos hn, getElem?_slice, if_pos (by omega)]
  · rw [if_neg hn, if_neg hn]

theorem length_resize (fill : α) (m : List α) (n : Nat) : (resize fill m n).length = n := by
  simp only [resize, List.length_append, List.length_take, List.length_replicate]
  omega

theorem slice_resize (fill : α) (hj : j ≤ m.length) (hn : j ≤ n) :
    slice (resize fill m n) i j = slice m i j := by
  refine List.ext_getElem? (fun p => ?_)
  rw [getElem?_slice, getElem?_slice]
  by_cases hp : i + p < j
  · rw [if_pos hp, if_pos hp, resize, List.getElem?_append_left, List.getElem?_take, if_pos]
    · omega
    · rw [List.length_take]; omega
  · rw [if_neg hp, if_neg hp]

/-! ## Copying in order -/

/-- Copies `n` cells from `first` on to the cells from `dest` on, one after the other: a cell
is read after those before it have been written. -/
def copy? : List α → Nat → Nat → Nat → Option (List α)
  | m, _, _, 0 => some m
  | m, first, dest, n + 1 => do
    let x ← read? m first 1
    let m' ← write? m dest x
    copy? m' (first + 1) (dest + 1) n

/-- If the destination does not begin inside the source range, no cell is overwritten before
it has been read. -/
theorem copy?_spec (hi : i + n ≤ m.length) (hk : k + n ≤ m.length) (hapart : k ≤ i ∨ i + n ≤ k) :
    ∃ m', copy? m i k n = some m' ∧
      ∀ p : Nat, m'[p]? = if k ≤ p ∧ p < k + n then m[i + (p - k)]? else m[p]? := by
  induction n generalizing m i k with
  | zero =>
    refine ⟨m, rfl, fun p => ?_⟩
    rw [if_neg (by omega)]
  | succ n ih =>
    have hread : read? m i 1 = some (slice m i (i + 1)) := if_pos (by omega)
    have hone : (slice m i (i + 1)).length = 1 := by
      rw [length_slice (by omega)]
      omega
    obtain ⟨m₁, hwrite⟩ := exists_write
      (show k + (slice m i (i + 1)).length ≤ m.length by omega)
    have hsize := length_write hwrite
    have hcell : ∀ p : Nat, m₁[p]? = if p = k then m[i]? else m[p]? := by
      intro p
      rw [getElem?_write hwrite, hone]
      by_cases hp : p = k
      · rw [if_pos (by omega), if_pos hp, getElem?_slice, if_pos (by omega), hp, Nat.sub_self,
          Nat.add_zero]
      · rw [if_neg (by omega), if_neg hp]
    obtain ⟨m', hcopy, hcells⟩ := ih (m := m₁) (i := i + 1) (k := k + 1)
      (by omega) (by omega) (by omega)
    refine ⟨m', ?_, fun p => ?_⟩
    · simp only [copy?, hread, hwrite, Option.bind_eq_bind, Option.bind_some]
      exact hcopy
    · rw [hcells, hcell, hcell]
      by_cases hp : p = k
      · rw [if_neg (by omega), if_pos hp, if_pos (by omega), hp, Nat.sub_self, Nat.add_zero]
      · by_cases hin : k ≤ p ∧ p < k + (n + 1)
        · rw [if_pos (by omega), if_pos hin, if_neg (by omega)]
          congr 1
          omega
        · rw [if_neg (by omega), if_neg hin, if_neg hp]

/-- Copying in order does what a move does, if the destination does not begin inside the
source range. -/
theorem copy?_eq_move? (hij : i ≤ j) (hj : j ≤ m.length) (hk : k + (j - i) ≤ m.length)
    (hapart : k ≤ i ∨ j ≤ k) : copy? m i k (j - i) = move? m i j k := by
  obtain ⟨m₁, hcopy, hcells⟩ := copy?_spec (m := m) (i := i) (k := k) (n := j - i)
    (by omega) hk (by omega)
  obtain ⟨m₂, hmove, -⟩ := move?_spec hij hj hk
  rw [hcopy, hmove]
  refine congrArg some (List.ext_getElem? fun n => ?_)
  rw [hcells, getElem?_move hij hj hmove]

end Memory
end ReMuduo
