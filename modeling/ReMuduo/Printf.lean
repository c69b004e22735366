import ReMuduo.Memory

/-! # Formatted output

The conversions of `printf` for integers, and `snprintf` into an array of characters.

A character array is a list of cells, `none` where nothing has been stored yet.  `snprintf`
stores what fits, with a terminator behind it, and returns the length of the whole text:
the length that was stored only if all of it fits. -/
namespace ReMuduo
namespace Printf

/-! ## Integers -/

/-- The sign of a converted integer. -/
def sign (v : Int) : List Char := if v < 0 then ['-'] else []

/-- `%d`. -/
def decimal (v : Int) : List Char := sign v ++ Nat.toDigits 10 v.natAbs

/-- `%wd`: blanks on the left, up to the width `w`. -/
def blankPadded (w : Nat) (v : Int) : List Char := (decimal v).leftpad w ' '

/-- `%0wd`: zeros between the sign and the digits, up to the width `w`. -/
def zeroPadded (w : Nat) (v : Int) : List Char :=
  sign v ++ (Nat.toDigits 10 v.natAbs).leftpad (w - (sign v).length) '0'

variable {w : Nat}

theorem zeroPadded_natCast (w n : Nat) :
    zeroPadded w n = (Nat.toDigits 10 n).leftpad w '0' := by
  have hsign : sign (n : Int) = [] := if_neg (Int.not_lt.mpr (Int.natCast_nonneg n))
  rw [zeroPadded, hsign]
  rfl

theorem blankPadded_natCast (w n : Nat) :
    blankPadded w n = (Nat.toDigits 10 n).leftpad w ' ' := by
  have hsign : sign (n : Int) = [] := if_neg (Int.not_lt.mpr (Int.natCast_nonneg n))
  rw [blankPadded, decimal, hsign]
  rfl

/-- The digits can be read back. -/
theorem zeroPadded_natCast_inj {n m : Nat} (h : zeroPadded w n = zeroPadded w m) : n = m := by
  have hread : ∀ k : Nat, Nat.ofDigitChars 10 (zeroPadded w k) 0 = k := by
    intro k
    rw [zeroPadded_natCast, List.leftpad, Nat.ofDigitChars_append, Nat.ofDigitChars_replicate_zero,
      Nat.mul_zero, Nat.ofDigitChars_ten_toDigits]
  rw [← hread n, h, hread m]

/-- A number whose digits fit takes up its width. -/
theorem length_zeroPadded_natCast {n : Nat} (h : (Nat.toDigits 10 n).length ≤ w) :
    (zeroPadded w n).length = w := by
  rw [zeroPadded_natCast, List.length_leftpad, Nat.max_eq_left h]

theorem length_zeroPadded {v : Int} (hv : 0 ≤ v) (h : (Nat.toDigits 10 v.toNat).length ≤ w) :
    (zeroPadded w v).length = w := by
  rw [← Int.toNat_of_nonneg hv]
  exact length_zeroPadded_natCast h

theorem length_blankPadded {v : Int} (hv : 0 ≤ v) (h : (Nat.toDigits 10 v.toNat).length ≤ w) :
    (blankPadded w v).length = w := by
  rw [← Int.toNat_of_nonneg hv, blankPadded_natCast, List.length_leftpad, Nat.max_eq_left h]

/-! ## Canonical decimals -/

/-- What stands behind the sign of a text. -/
def digitsOf (text : List Char) : List Char :=
  if text.head? = some '-' then text.tail else text

/-- The integer that a text denotes. -/
def readDecimal (text : List Char) : Int :=
  if text.head? = some '-' then -(Nat.ofDigitChars 10 (digitsOf text) 0 : Nat)
  else (Nat.ofDigitChars 10 (digitsOf text) 0 : Nat)

/-- The canonical decimal representation of an integer: digits whose value it is, without
leading zeros, behind a minus sign if it is negative. -/
structure IsDecimal (v : Int) (text : List Char) : Prop where
  value : readDecimal text = v
  minus_iff : text.head? = some '-' ↔ v < 0
  digits : ∀ c ∈ digitsOf text, c.isDigit = true
  nonempty : digitsOf text ≠ []
  no_leading_zero : (digitsOf text).head? = some '0' → digitsOf text = ['0']

theorem toDigits_leading_zero {n : Nat} (h : (Nat.toDigits 10 n).head? = some '0') :
    Nat.toDigits 10 n = ['0'] := by
  induction n using Nat.strongRecOn with
  | ind n ih =>
    by_cases hn : n < 10
    · rw [Nat.toDigits_of_lt_base hn] at h ⊢
      rw [Option.some.inj h]
    · rw [Nat.toDigits_of_base_le (by decide) (Nat.le_of_not_lt hn)] at h
      have hhead : (Nat.toDigits 10 (n / 10)).head? = some '0' := by
        obtain ⟨c, cs, hcons⟩ := List.exists_cons_of_ne_nil (Nat.toDigits_ne_nil (n := n / 10))
        rw [hcons] at h ⊢
        exact h
      -- the quotient would be zero
      have hquotient : n / 10 = 0 := by
        rw [← Nat.ofDigitChars_ten_toDigits (n := n / 10), ih (n / 10) (by omega) hhead]
        rfl
      omega

theorem head?_decimal (v : Int) : (decimal v).head? = some '-' ↔ v < 0 := by
  by_cases hv : v < 0
  · rw [decimal, sign, if_pos hv]
    exact iff_of_true rfl hv
  · rw [decimal, sign, if_neg hv, List.nil_append]
    refine iff_of_false ?_ hv
    intro hminus
    have hdigit := Nat.isDigit_of_mem_toDigits (by decide) (by decide)
      (List.mem_of_mem_head? hminus)
    exact absurd hdigit (by decide)

theorem digitsOf_decimal (v : Int) : digitsOf (decimal v) = Nat.toDigits 10 v.natAbs := by
  rw [digitsOf]
  by_cases hv : v < 0
  · rw [if_pos ((head?_decimal v).mpr hv), decimal, sign, if_pos hv]
    rfl
  · rw [if_neg (mt (head?_decimal v).mp hv), decimal, sign, if_neg hv]
    rfl

/-- `%d` is canonical. -/
theorem isDecimal_decimal (v : Int) : IsDecimal v (decimal v) where
  value := by
    rw [readDecimal, digitsOf_decimal, Nat.ofDigitChars_ten_toDigits]
    by_cases hv : v < 0
    · rw [if_pos ((head?_decimal v).mpr hv)]
      omega
    · rw [if_neg (mt (head?_decimal v).mp hv)]
      omega
  minus_iff := head?_decimal v
  digits := by
    rw [digitsOf_decimal]
    intro c hc
    exact Nat.isDigit_of_mem_toDigits (by decide) (by decide) hc
  nonempty := by
    rw [digitsOf_decimal]
    exact Nat.toDigits_ne_nil
  no_leading_zero := by
    rw [digitsOf_decimal]
    exact toDigits_leading_zero

theorem length_decimal (v : Int) :
    (decimal v).length = (if v < 0 then 1 else 0) + (Nat.toDigits 10 v.natAbs).length := by
  rw [decimal, List.length_append, sign]
  split
  · rfl
  · rfl

/-! ## Hexadecimal digits -/

/-- The last `w` hexadecimal digits of a number. -/
def hexPadded : Nat → Nat → List Char
  | 0, _ => []
  | w + 1, n => Nat.digitChar ((n >>> (4 * w)) % 16) :: hexPadded w n

/-- The value of a hexadecimal digit. -/
def hexDigit (c : Char) : Nat := if c.isDigit then c.toNat - '0'.toNat else c.toNat - 'a'.toNat + 10

/-- The number that hexadecimal digits denote. -/
def readHex (text : List Char) : Nat := text.foldl (fun n c => 16 * n + hexDigit c) 0

/-- `w` hexadecimal digits whose value is `n`. -/
structure IsHex (w n : Nat) (text : List Char) : Prop where
  length : text.length = w
  digits : ∀ c ∈ text, c ∈ "0123456789abcdef".toList
  value : readHex text = n

theorem length_hexPadded (w n : Nat) : (hexPadded w n).length = w := by
  induction w with
  | zero => rfl
  | succ w ih => rw [hexPadded, List.length_cons, ih]

theorem hexDigit_digitChar {d : Nat} (hd : d < 16) : hexDigit (Nat.digitChar d) = d := by
  have hall : ∀ d < 16, hexDigit (Nat.digitChar d) = d := by decide
  exact hall d hd

theorem foldl_hexPadded (w n : Nat) :
    (hexPadded w n).foldl (fun n c => 16 * n + hexDigit c) (n >>> (4 * w)) = n := by
  induction w with
  | zero => rfl
  | succ w ih =>
    have hnext : n >>> (4 * (w + 1)) = n >>> (4 * w) / 16 := by
      rw [Nat.mul_add, Nat.shiftRight_add, Nat.shiftRight_eq_div_pow (n >>> (4 * w))]
    rw [hexPadded, List.foldl_cons, hexDigit_digitChar (Nat.mod_lt _ (by decide)), hnext,
      Nat.div_add_mod]
    exact ih

theorem mem_hexPadded {w n : Nat} {c : Char} (h : c ∈ hexPadded w n) :
    c ∈ "0123456789abcdef".toList := by
  have hall : ∀ d < 16, Nat.digitChar d ∈ "0123456789abcdef".toList := by decide
  induction w with
  | zero => cases h
  | succ w ih =>
    rcases List.mem_cons.mp h with rfl | h
    · exact hall _ (Nat.mod_lt _ (by decide))
    · exact ih h

theorem isHex_hexPadded {w n : Nat} (h : n >>> (4 * w) = 0) : IsHex w n (hexPadded w n) where
  length := length_hexPadded w n
  digits := fun _ hc => mem_hexPadded hc
  value := by
    have hfold := foldl_hexPadded w n
    rwa [h] at hfold

/-! ## Character arrays -/

/-- The bytes of a text. -/
def bytes (text : List Char) : List UInt8 := text.map Char.toUInt8

/-- The C string that an array starts with. -/
def cString (s : List UInt8) : List UInt8 := s.takeWhile (· ≠ 0)

/-- The part of a text that an array of `size` characters can hold with a terminator. -/
def stored (size : Nat) (text : List UInt8) : List UInt8 := text.take (size - 1)

/-- `INT_MAX`. -/
def intMax : Nat := 2147483647

/-- `snprintf(buf, sizeof(buf), ...)`, where `text` is the whole formatted text: the array, and
the value that is returned. -/
def snprintf (buf : List (Option UInt8)) (text : List UInt8) : List (Option UInt8) × Int :=
  ((Memory.write? buf 0 ((stored buf.length text ++ [0]).map some)).getD buf,
    if text.length ≤ intMax then text.length else -1)

variable {buf : List (Option UInt8)} {text : List UInt8}

theorem length_stored (size : Nat) (text : List UInt8) :
    (stored size text).length = min (size - 1) text.length := List.length_take

theorem snprintf_snd (h : text.length ≤ intMax) : (snprintf buf text).2 = text.length := if_pos h

/-- Reading no more than what was stored finds the text. -/
theorem read_snprintf (hbuf : buf ≠ []) {n : Nat} (hn : n ≤ (stored buf.length text).length) :
    Memory.read? (snprintf buf text).1 0 n = some ((text.take n).map some) := by
  have hsize : 0 < buf.length := List.length_pos_iff.mpr hbuf
  have hstored := length_stored buf.length text
  have hfit : 0 + ((stored buf.length text ++ [0]).map some).length ≤ buf.length := by
    simp only [List.length_map, List.length_append, List.length_singleton]
    omega
  obtain ⟨m, hm⟩ := Memory.exists_write hfit
  have hlength := Memory.length_write hm
  have hslice := Memory.slice_write_self hm
  rw [snprintf, hm, Option.getD_some]
  dsimp only
  rw [Memory.read?, if_pos (by omega)]
  refine congrArg some ?_
  -- the first `n` cells are among those that were written
  have htake : Memory.slice m 0 (0 + n) = (Memory.slice m 0
      (0 + ((stored buf.length text ++ [0]).map some).length)).take n := by
    simp only [Memory.slice, List.drop_zero, List.take_take, List.length_map, List.length_append]
    congr 1
    omega
  rw [htake, hslice, ← List.map_take, List.take_append_of_le_length hn, stored, List.take_take,
    Nat.min_eq_left (by omega)]

/-- A text that fits is what is read of the length returned. -/
theorem read_snprintf_all (hbuf : buf ≠ []) (hsize : buf.length ≤ intMax)
    (hfits : text.length ≤ buf.length - 1) :
    Memory.read? (snprintf buf text).1 0 (snprintf buf text).2.toNat = some (text.map some) := by
  have hall : text.length ≤ (stored buf.length text).length := by
    rw [length_stored]
    omega
  have hread := read_snprintf hbuf hall
  rw [List.take_length] at hread
  rw [snprintf_snd (by omega), Int.toNat_natCast]
  exact hread

/-- The first character is stored in any array that has room for it. -/
theorem snprintf_head (buf : List (Option UInt8)) (c : UInt8) (text : List UInt8)
    (hbuf : 1 < buf.length) : (snprintf buf (c :: text)).1[0]? = some (some c) := by
  have hne : buf ≠ [] := List.ne_nil_of_length_pos (by omega)
  have hone : 1 ≤ (stored buf.length (c :: text)).length := by
    rw [length_stored, List.length_cons]
    omega
  have hread := read_snprintf hne hone
  rw [Memory.read?] at hread
  split at hread
  · have hslice := congrArg (·[0]?) (Option.some.inj hread)
    rwa [Memory.getElem?_slice, if_pos (by decide)] at hslice
  · cases hread

/-- The value returned is a number of characters that were stored exactly when the whole text
fits. -/
theorem snprintf_le_stored_iff (text : List UInt8) (hsize : buf.length ≤ intMax) :
    0 ≤ (snprintf buf text).2 ∧ (snprintf buf text).2 ≤ (stored buf.length text).length ↔
      text.length ≤ buf.length - 1 := by
  rw [snprintf, length_stored]
  dsimp only
  split <;> omega

end Printf
end ReMuduo
