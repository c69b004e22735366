import ReMuduo.Printf

/-! # C strings

A C string is what stands in an array of characters before the first terminator.  `sprintf`
writes one, and does not know the size of the array: writing past its end is `none` here.

`strtoul(s, &end, 0)` reads a number in the notation of C: hexadecimal behind `0x`, octal behind
`0`, decimal otherwise, up to the first character that is no digit.  The values here are
not bounded; `strtoul` itself answers `ULONG_MAX` for a value that does not fit.

`strtoul_toDigits` says that a number written by `%u` is read back, whatever follows it. -/
namespace ReMuduo
namespace CStrings

/-! ## Character arrays -/

/-- The terminator. -/
def nul : Char := Char.ofNat 0

/-- The C string that an array holds. -/
def textOf (buf : List Char) : List Char := buf.takeWhile (· ≠ nul)

/-- `sprintf(buf + i, ...)`, where `text` is the formatted text. -/
def sprintf (buf : List Char) (i : Nat) (text : List Char) : Option (List Char) :=
  Memory.write? buf i (text ++ [nul])

theorem textOf_append {text : List Char} (h : nul ∉ text) (rest : List Char) :
    textOf (text ++ rest) = text ++ textOf rest := by
  have hall : ∀ c ∈ text, decide (c ≠ nul) = true :=
    fun c hc => decide_eq_true fun heq => h (heq ▸ hc)
  exact List.takeWhile_append_of_pos hall

theorem textOf_eq_self {text : List Char} (h : nul ∉ text) : textOf text = text := by
  have happ := textOf_append h []
  rw [List.append_nil] at happ
  exact happ.trans (List.append_nil text)

theorem textOf_append_nul {text : List Char} (h : nul ∉ text) (rest : List Char) :
    textOf (text ++ nul :: rest) = text := by
  rw [textOf_append h, textOf, List.takeWhile_cons_of_neg (by simp), List.append_nil]

theorem nul_notMem_textOf (buf : List Char) : nul ∉ textOf buf := by
  intro h
  have hne := List.all_eq_true.mp (List.all_takeWhile (l := buf)) nul h
  exact of_decide_eq_true hne rfl

/-- Printing to the end of the string that is there appends to it. -/
theorem sprintf_textOf (buf : List Char) {text : List Char} (htext : nul ∉ text)
    (hfits : (textOf buf).length + text.length < buf.length) :
    ∃ buf', sprintf buf (textOf buf).length text = some buf' ∧ buf'.length = buf.length ∧
      textOf buf' = textOf buf ++ text := by
  have hroom : (textOf buf).length + (text ++ [nul]).length ≤ buf.length := by
    rw [List.length_append, List.length_singleton]
    omega
  obtain ⟨buf', hbuf'⟩ := Memory.exists_write hroom
  refine ⟨buf', hbuf', Memory.length_write hbuf', ?_⟩
  rw [Memory.write?, if_pos hroom] at hbuf'
  have htake : buf.take (textOf buf).length = textOf buf :=
    (List.prefix_iff_eq_take.mp (List.takeWhile_prefix _)).symm
  rw [← Option.some.inj hbuf', htake, ← List.append_assoc, List.append_assoc _ [nul]]
  refine textOf_append_nul (fun h => ?_) _
  rcases List.mem_append.mp h with h | h
  · exact nul_notMem_textOf buf h
  · exact htext h

/-! ## Numbers -/

/-- The value of a character as a digit, at least 36 if it is none. -/
def digitValue (c : Char) : Nat :=
  if c.isDigit then c.toNat - '0'.toNat
  else if c.isLower then c.toNat - 'a'.toNat + 10
  else if c.isUpper then c.toNat - 'A'.toNat + 10
  else 36

/-- The number that digits denote. -/
def value (base : Nat) (digits : List Char) : Nat :=
  digits.foldl (fun n c => base * n + digitValue c) 0

/-- Reads the digits that a text starts with: the number, and what follows. -/
def readIn (base : Nat) (text : List Char) : Nat × List Char :=
  (value base (text.takeWhile (fun c => decide (digitValue c < base))),
    text.dropWhile (fun c => decide (digitValue c < base)))

/-- `strtoul(text, &end, 0)`, of a text that starts with a digit. -/
def strtoul (text : List Char) : Nat × List Char :=
  match text with
  | '0' :: x :: d :: rest =>
    if (x = 'x' ∨ x = 'X') ∧ digitValue d < 16 then readIn 16 (d :: rest) else readIn 8 text
  | '0' :: _ => readIn 8 text
  | _ => readIn 10 text

/-- A character that ends a number of any base. -/
def Ends (rest : List Char) : Prop := ∀ c, rest.head? = some c → 36 ≤ digitValue c

theorem ends_nil : Ends [] := by simp [Ends]

theorem ends_cons {c : Char} (h : 36 ≤ digitValue c) (rest : List Char) : Ends (c :: rest) := by
  intro d hd
  obtain rfl := Option.some.inj hd
  exact h

theorem digitValue_of_isDigit {c : Char} (h : c.isDigit = true) :
    digitValue c = c.toNat - '0'.toNat := if_pos h

theorem digitValue_lt_ten {c : Char} (h : c.isDigit = true) : digitValue c < 10 := by
  rw [digitValue_of_isDigit h]
  simp only [Char.isDigit, Bool.and_eq_true, decide_eq_true_eq, ge_iff_le] at h
  have hhigh : c.toNat ≤ 57 := h.2
  have hzero : '0'.toNat = 48 := rfl
  omega

theorem value_toDigits (n : Nat) : value 10 (Nat.toDigits 10 n) = n := by
  have hfold : ∀ (digits : List Char) (m : Nat), (∀ c ∈ digits, c.isDigit = true) →
      digits.foldl (fun n c => 10 * n + digitValue c) m = Nat.ofDigitChars 10 digits m := by
    intro digits
    induction digits with
    | nil =>
      intro m _
      rfl
    | cons c cs ih =>
      intro m hdigits
      rw [List.foldl_cons, digitValue_of_isDigit (hdigits c List.mem_cons_self),
        ih _ fun d hd => hdigits d (List.mem_cons_of_mem c hd)]
      rfl
  rw [value, hfold _ 0 fun c hc => Nat.isDigit_of_mem_toDigits (by decide) (by decide) hc]
  exact Nat.ofDigitChars_ten_toDigits

/-- Digits are read up to the character that ends the number. -/
theorem readIn_append (base : Nat) (hbase : base ≤ 36) (digits : List Char)
    {rest : List Char} (hdigits : ∀ c ∈ digits, digitValue c < base) (hrest : Ends rest) :
    readIn base (digits ++ rest) = (value base digits, rest) := by
  have hstop : rest.takeWhile (fun c => decide (digitValue c < base)) = [] ∧
      rest.dropWhile (fun c => decide (digitValue c < base)) = rest := by
    cases rest with
    | nil => exact ⟨rfl, rfl⟩
    | cons c cs =>
      have hno : ¬ digitValue c < base := by
        have := hrest c rfl
        omega
      simp [hno]
  have hall : ∀ c ∈ digits, decide (digitValue c < base) = true :=
    fun c hc => decide_eq_true (hdigits c hc)
  rw [readIn, List.takeWhile_append_of_pos hall, List.dropWhile_append_of_pos hall, hstop.1,
    hstop.2, List.append_nil]

/-- A single zero is read in octal. -/
theorem strtoul_zero {rest : List Char} (hrest : Ends rest) :
    strtoul ('0' :: rest) = (0, rest) := by
  have hdigit : ∀ c ∈ ['0'], digitValue c < 8 := by
    intro c hc
    rw [List.mem_singleton.mp hc]
    decide
  have hread : readIn 8 ('0' :: rest) = (0, rest) :=
    readIn_append 8 (by decide) ['0'] hdigit hrest
  unfold strtoul
  split
  · rename_i x d rest' heq
    obtain ⟨-, rfl⟩ := List.cons.inj heq
    have hx := hrest x rfl
    rw [if_neg, hread]
    rintro ⟨rfl | rfl, -⟩
    · exact absurd hx (by decide)
    · exact absurd hx (by decide)
  · exact hread
  · rename_i hno
    exact absurd rfl (hno rest)

/-- **What `%u` has written is read back.** -/
theorem strtoul_toDigits (n : Nat) {rest : List Char} (hrest : Ends rest) :
    strtoul (Nat.toDigits 10 n ++ rest) = (n, rest) := by
  by_cases hzero : (Nat.toDigits 10 n).head? = some '0'
  · have hone := Printf.toDigits_leading_zero hzero
    have hn : 0 = n := (congrArg (value 10) hone).symm.trans (value_toDigits n)
    calc
      strtoul (Nat.toDigits 10 n ++ rest) = strtoul ('0' :: rest) :=
        congrArg (fun digits => strtoul (digits ++ rest)) hone
      _ = (0, rest) := strtoul_zero hrest
      _ = (n, rest) := congrArg (fun m => (m, rest)) hn
  · have hread := readIn_append 10 (by decide) (Nat.toDigits 10 n)
      (fun c hc => digitValue_lt_ten (Nat.isDigit_of_mem_toDigits (b := 10) (n := n) (by decide)
        (by decide) hc)) hrest
    rw [value_toDigits] at hread
    obtain ⟨c, cs, hcons⟩ := List.exists_cons_of_ne_nil (Nat.toDigits_ne_nil (b := 10) (n := n))
    rw [hcons] at hzero hread ⊢
    unfold strtoul
    split
    · rename_i heq
      exact absurd (congrArg some (List.cons.inj heq).1) hzero
    · rename_i heq
      exact absurd (congrArg some (List.cons.inj heq).1) hzero
    · exact hread

end CStrings
end ReMuduo
