import Mathlib.Tactic.Common

/-! # Integer types of C

A value of an integer type is an integer in the range of the type.  The operators `/` and `%`
round towards zero.  They are checked: the result is `none` where C leaves it undefined, that
is for a divisor of zero and for a quotient that the type cannot hold.  The named types are
those of a 64-bit system. -/
namespace ReMuduo

/-- An integer type: whether it is signed, and how many values it has. -/
structure IntType where
  signed : Bool
  size : Nat
deriving DecidableEq

namespace IntType

def int : IntType := ⟨true, 4294967296⟩
def unsignedInt : IntType := ⟨false, 4294967296⟩
def long : IntType := ⟨true, 18446744073709551616⟩
def unsignedLong : IntType := ⟨false, 18446744073709551616⟩
def longLong : IntType := ⟨true, 18446744073709551616⟩
def unsignedLongLong : IntType := ⟨false, 18446744073709551616⟩

variable {T : IntType} {v : Int}

/-- The type holds the value. -/
def Holds (T : IntType) (v : Int) : Prop :=
  if T.signed then -(T.size / 2 : Nat) ≤ v ∧ v < (T.size / 2 : Nat) else 0 ≤ v ∧ v < T.size

instance (T : IntType) (v : Int) : Decidable (T.Holds v) :=
  inferInstanceAs (Decidable (if T.signed then -(T.size / 2 : Nat) ≤ v ∧ v < (T.size / 2 : Nat)
    else 0 ≤ v ∧ v < T.size))

/-- A value, if the type holds it. -/
def checked (T : IntType) (v : Int) : Option Int := if T.Holds v then some v else none

/-- `a / b`. -/
def div? (T : IntType) (a b : Int) : Option Int := if b = 0 then none else T.checked (a.tdiv b)

/-- `a % b`, which is defined where `a / b` is. -/
def mod? (T : IntType) (a b : Int) : Option Int := (T.div? a b).map fun _ => a.tmod b

theorem holds_signed (h : T.signed = true) :
    T.Holds v ↔ -(T.size / 2 : Nat) ≤ v ∧ v < (T.size / 2 : Nat) := by
  rw [Holds, if_pos h]

theorem holds_unsigned (h : T.signed = false) : T.Holds v ↔ 0 ≤ v ∧ v < T.size := by
  rw [Holds, h]
  exact Iff.rfl

theorem holds_int (v : Int32) : int.Holds v.toInt :=
  (holds_signed rfl).mpr ⟨v.le_toInt, v.toInt_lt⟩

theorem holds_unsignedInt (v : UInt32) : unsignedInt.Holds v.toNat :=
  (holds_unsigned rfl).mpr ⟨Int.natCast_nonneg _, Int.ofNat_lt.mpr v.toNat_lt⟩

theorem holds_long (v : Int64) : long.Holds v.toInt :=
  (holds_signed rfl).mpr ⟨v.le_toInt, v.toInt_lt⟩

theorem holds_unsignedLong (v : UInt64) : unsignedLong.Holds v.toNat :=
  (holds_unsigned rfl).mpr ⟨Int.natCast_nonneg _, Int.ofNat_lt.mpr v.toNat_lt⟩

/-- A value closer to zero is held too. -/
theorem Holds.of_between {w : Int} (h : T.Holds v) (hpos : 0 ≤ v → 0 ≤ w ∧ w ≤ v)
    (hneg : v < 0 → v ≤ w ∧ w ≤ 0) : T.Holds w := by
  cases hsigned : T.signed with
  | true =>
    rw [holds_signed hsigned] at h ⊢
    rcases Int.lt_or_le v 0 with hv | hv
    · have hw := hneg hv
      omega
    · have hw := hpos hv
      omega
  | false =>
    rw [holds_unsigned hsigned] at h ⊢
    have hw := hpos h.1
    omega

/-- Dividing by a positive number does not leave the type. -/
theorem holds_div (h : T.Holds v) {b : Int} (hb : 0 < b) : T.Holds (v.tdiv b) := by
  refine h.of_between ?_ ?_
  · intro hv
    exact ⟨Int.tdiv_nonneg hv (Int.le_of_lt hb), Int.tdiv_le_self b hv⟩
  · intro hv
    have hle := Int.tdiv_le_self b (show 0 ≤ -v by omega)
    have hnonneg := Int.tdiv_nonneg (show 0 ≤ -v by omega) (Int.le_of_lt hb)
    rw [Int.neg_tdiv] at hle hnonneg
    omega

theorem div?_eq (h : T.Holds v) {b : Int} (hb : 0 < b) : T.div? v b = some (v.tdiv b) := by
  rw [div?, if_neg (by omega), checked, if_pos (holds_div h hb)]

theorem mod?_eq (h : T.Holds v) {b : Int} (hb : 0 < b) : T.mod? v b = some (v.tmod b) := by
  rw [mod?, div?_eq h hb, Option.map_some]

end IntType
end ReMuduo
