import ReMuduo.CInteger
import ReMuduo.Machine
import ReMuduo.Printf

/-! # The log stream

`LogStream` (`include/LogStream.h`, `src/base/LogStream.cpp`) collects the text of a message in
an array of 4000 characters.  `operator<<` appends one value; a value that there is no room for
is left out.  Numbers are formatted in place, behind what is in the array already, and only if
48 characters are free: the digits are written from the last one on and reversed at the end.
Negative numbers are not negated, which would overflow for the least one: their remainders are
negative, and select a digit from a table that goes both ways.

Every access to the array and to the table is checked, and so is every operation on a number.
The characters that `%.12g` makes of a floating-point number are part of the argument. -/
namespace ReMuduo
open Memory

/-! ## The arguments and their texts -/

/-- An argument of `operator<<`.  A pointer is its address, a C string the characters from
where it points to on, and a floating-point number its text in the format `%.12g`. -/
inductive LogArg
  | bool (v : Bool)
  | short (v : Int16)
  | unsignedShort (v : UInt16)
  | int (v : Int32)
  | unsignedInt (v : UInt32)
  | long (v : Int64)
  | unsignedLong (v : UInt64)
  | longLong (v : Int64)
  | unsignedLongLong (v : UInt64)
  | pointer (p : UInt64)
  | double (text : List UInt8)
  | char (v : UInt8)
  | cstr (str : Option (List UInt8))
  | string (v : List UInt8)

namespace LogArg

/-- The value of an integer. -/
def value? : LogArg → Option Int
  | .short v => some v.toInt
  | .unsignedShort v => some v.toNat
  | .int v => some v.toInt
  | .unsignedInt v => some v.toNat
  | .long v => some v.toInt
  | .unsignedLong v => some v.toNat
  | .longLong v => some v.toInt
  | .unsignedLongLong v => some v.toNat
  | _ => none

/-- `0x` and the digits of the address. -/
def pointerText (p : UInt64) : List Char := '0' :: 'x' :: Printf.hexPadded 16 p.toNat

theorem length_pointerText (p : UInt64) : (pointerText p).length = 18 := by
  rw [pointerText, List.length_cons, List.length_cons, Printf.length_hexPadded]

/-- The text of an argument. -/
def text : LogArg → List UInt8
  | .bool v => Printf.bytes [if v then '1' else '0']
  | .pointer p => Printf.bytes (pointerText p)
  | .double text => text
  | .char v => [v]
  | .cstr none => Printf.bytes "(null)".toList
  | .cstr (some str) => Printf.cString str
  | .string v => v
  | a => Printf.bytes (Printf.decimal (a.value?.getD 0))

/-- Numbers and pointers are formatted in place. -/
def isNumber : LogArg → Bool
  | .bool _ => false
  | .char _ => false
  | .cstr _ => false
  | .string _ => false
  | _ => true

/-- `%.12g` makes less than 48 characters. -/
def Printable : LogArg → Prop
  | .double text => text.length < 48
  | _ => True

end LogArg

/-! ## The stream -/

/-- `data_`, and the index of the character that `cur_` points to. -/
structure LogStream where
  data : List UInt8
  cur : Nat

namespace LogStream

/-- `kMaxNumericSize`. -/
def kMaxNumericSize : Nat := 48

/-- `sizeof(data_)`. -/
def dataSize : Nat := 4000

def avail (s : LogStream) : Nat := dataSize - s.cur

/-- `digits`. -/
def digits : List UInt8 := Printf.bytes "9876543210123456789".toList

/-- `zero[lsd]`, where `zero` points to the `0` in the middle of `digits`. -/
def zeroAt (lsd : Int) : Option UInt8 := if 0 ≤ 9 + lsd then digits[(9 + lsd).toNat]? else none

/-- The loop of `convert`, with `i` left to be converted and `p` the index to write to. -/
def convertLoop (T : IntType) : Nat → List UInt8 → Nat → Int → Option (List UInt8 × Nat)
  | 0, _, _, _ => none
  | fuel + 1, m, p, i => do
    let lsd ← (T.mod? i 10).bind IntType.int.checked
    let i' ← T.div? i 10
    let c ← zeroAt lsd
    let m' ← write? m p [c]
    if i' ≠ 0 then convertLoop T fuel m' (p + 1) i' else return (m', p + 1)

/-- `if (value < 0) *p++ = '-'` in `convert`. -/
def writeSign (value : Int) (r : List UInt8 × Nat) : Option (List UInt8 × Nat) :=
  if value < 0 then (write? r.1 r.2 ['-'.toUInt8]).map (·, r.2 + 1) else some r

/-- `convert(buf, value)`, with the number of characters it returns. -/
def convert (T : IntType) (m : List UInt8) (buf : Nat) (value : Int) :
    Option (List UInt8 × Nat) := do
  let r ← convertLoop T (value.natAbs + 1) m buf value
  let r' ← writeSign value r
  let m' ← write? r'.1 r'.2 [0]
  let m'' ← reverse? m' buf r'.2
  return (m'', r'.2 - buf)

def formatInteger (s : LogStream) (T : IntType) (v : Int) : Option LogStream :=
  if kMaxNumericSize ≤ s.avail then
    (convert T s.data s.cur v).map fun r => ⟨r.1, s.cur + r.2⟩
  else some s

/-- The loop of `operator<<(const void*)`, which has written all but the last `n` digits. -/
def pointerLoop (v : UInt64) : Nat → List UInt8 → Nat → Option (List UInt8 × Nat)
  | 0, m, buf => some (m, buf)
  | n + 1, m, buf => do
    let nibble := ((v >>> UInt64.ofNat (n * 4)) &&& 0xf).toNat
    let m' ← write? m buf
      [UInt8.ofNat (if nibble < 10 then '0'.toNat + nibble else 'a'.toNat + nibble - 10)]
    pointerLoop v n m' (buf + 1)

def putPointer (s : LogStream) (v : UInt64) : Option LogStream :=
  if kMaxNumericSize ≤ s.avail then do
    let m ← write? s.data s.cur ['0'.toUInt8]
    let m' ← write? m (s.cur + 1) ['x'.toUInt8]
    let r ← pointerLoop v 16 m' (s.cur + 2)
    return ⟨r.1, r.2⟩
  else some s

/-- `snprintf(cur_, kMaxNumericSize, "%.12g", v)` stores what fits and returns the length of
the whole text. -/
def putDouble (s : LogStream) (text : List UInt8) : Option LogStream :=
  if kMaxNumericSize ≤ s.avail then
    (write? s.data s.cur (Printf.stored kMaxNumericSize text ++ [0])).map fun m =>
      ⟨m, s.cur + text.length⟩
  else some s

def append (s : LogStream) (data : List UInt8) : Option LogStream :=
  if data.length < s.avail then
    (write? s.data s.cur data).map fun m => ⟨m, s.cur + data.length⟩
  else some s

/-- `operator<<`. -/
def put (s : LogStream) : LogArg → Option LogStream
  | .bool v => s.append (Printf.bytes [if v then '1' else '0'])
  | .short v => s.formatInteger .int v.toInt32.toInt
  | .unsignedShort v => s.formatInteger .unsignedInt v.toUInt32.toNat
  | .int v => s.formatInteger .int v.toInt
  | .unsignedInt v => s.formatInteger .unsignedInt v.toNat
  | .long v => s.formatInteger .long v.toInt
  | .unsignedLong v => s.formatInteger .unsignedLong v.toNat
  | .longLong v => s.formatInteger .longLong v.toInt
  | .unsignedLongLong v => s.formatInteger .unsignedLongLong v.toNat
  | .pointer p => s.putPointer p
  | .double text => s.putDouble text
  | .char v => s.append [v]
  | .cstr none => s.append (Printf.bytes "(null)".toList)
  | .cstr (some str) => s.append (Printf.cString str)
  | .string v => s.append v

/-! ## Converting an integer -/

variable {T : IntType} {m : List UInt8} {v : Int}

/-- The table has the digit of every remainder, of either sign. -/
theorem zeroAt_spec {lsd : Int} (h : -10 < lsd ∧ lsd < 10) :
    zeroAt lsd = some (Nat.digitChar lsd.natAbs).toUInt8 := by
  have htable : ∀ k : Nat, k < 19 →
      digits[k]? = some (Nat.digitChar ((k : Int) - 9).natAbs).toUInt8 := by decide
  have hcell := htable (9 + lsd).toNat (by omega)
  rw [zeroAt, if_pos (by omega), hcell, show ((9 + lsd).toNat : Int) - 9 = lsd by omega]

/-- A number of more than one digit, from its last digit on. -/
theorem bytes_toDigits_reverse {n : Nat} (h : 10 ≤ n) :
    Printf.bytes (Nat.toDigits 10 n).reverse = [(Nat.digitChar (n % 10)).toUInt8] ++
      Printf.bytes (Nat.toDigits 10 (n / 10)).reverse := by
  rw [Nat.toDigits_of_base_le (by decide) h, List.reverse_append]
  rfl

theorem length_toDigits {n : Nat} (h : 10 ≤ n) :
    (Nat.toDigits 10 n).length = 1 + (Nat.toDigits 10 (n / 10)).length := by
  rw [Nat.toDigits_of_base_le (by decide) h, List.length_append, List.length_singleton,
    Nat.add_comm]

/-- The loop writes the digits of the number, the last one first. -/
theorem convertLoop_eq {fuel : Nat} {p : Nat} {i : Int} (hi : T.Holds i)
    (hfuel : i.natAbs < fuel) :
    convertLoop T fuel m p i =
      (write? m p (Printf.bytes (Nat.toDigits 10 i.natAbs).reverse)).map fun m' =>
        (m', p + (Nat.toDigits 10 i.natAbs).length) := by
  induction fuel generalizing m p i with
  | zero => exact absurd hfuel (Nat.not_lt_zero _)
  | succ fuel ih =>
    have hrem : (i.tmod 10).natAbs = i.natAbs % 10 := Int.natAbs_tmod i 10
    have hquot : (i.tdiv 10).natAbs = i.natAbs / 10 := Int.natAbs_tdiv i 10
    have hlsd : -10 < i.tmod 10 ∧ i.tmod 10 < 10 := by omega
    have hint : IntType.int.checked (i.tmod 10) = some (i.tmod 10) := by
      refine if_pos ((IntType.holds_signed rfl).mpr ?_)
      show -((4294967296 / 2 : Nat) : Int) ≤ _ ∧ _ < ((4294967296 / 2 : Nat) : Int)
      omega
    have hdiv := IntType.div?_eq hi (show (0 : Int) < 10 by decide)
    simp only [convertLoop, IntType.mod?_eq hi (show (0 : Int) < 10 by decide), hdiv, hint,
      zeroAt_spec hlsd, hrem, Option.bind_eq_bind, Option.bind_some]
    by_cases hlast : i.natAbs < 10
    · have hzero : ¬ i.tdiv 10 ≠ 0 := by omega
      rw [Nat.toDigits_of_lt_base hlast, Nat.mod_eq_of_lt hlast]
      simp only [if_neg hzero]
      show _ = Option.map _ (write? m p [(Nat.digitChar i.natAbs).toUInt8])
      cases write? m p [(Nat.digitChar i.natAbs).toUInt8] with
      | none => rfl
      | some m' => rfl
    · have hmore : i.tdiv 10 ≠ 0 := by omega
      have hquotient : T.Holds (i.tdiv 10) := IntType.holds_div hi (by decide)
      have hten : 10 ≤ i.natAbs := Nat.le_of_not_lt hlast
      rw [bytes_toDigits_reverse hten, length_toDigits hten, write?_append]
      simp only [if_pos hmore, ih hquotient (show (i.tdiv 10).natAbs < fuel by omega), hquot]
      cases write? m p [(Nat.digitChar (i.natAbs % 10)).toUInt8] with
      | none => rfl
      | some m' => simp only [Option.bind_some, List.length_singleton, Nat.add_assoc]

/-- With the sign, the characters of the number stand in the array in reverse. -/
theorem convertSign_eq {p : Nat} (hv : T.Holds v) :
    (convertLoop T (v.natAbs + 1) m p v).bind (writeSign v) =
      (write? m p (Printf.bytes (Printf.decimal v)).reverse).map fun m' =>
        (m', p + (Printf.decimal v).length) := by
  rw [convertLoop_eq hv (Nat.lt_succ_self _)]
  by_cases hneg : v < 0
  · have htext : Printf.decimal v = '-' :: Nat.toDigits 10 v.natAbs := by
      rw [Printf.decimal, Printf.sign, if_pos hneg]
      rfl
    have hbytes : (Printf.bytes ('-' :: Nat.toDigits 10 v.natAbs)).reverse =
        Printf.bytes (Nat.toDigits 10 v.natAbs).reverse ++ ['-'.toUInt8] := by
      rw [Printf.bytes, Printf.bytes, List.map_cons, List.reverse_cons, List.map_reverse]
    rw [htext, hbytes, write?_append, List.length_cons]
    simp only [Printf.bytes, List.length_map, List.length_reverse]
    cases write? m p ((Nat.toDigits 10 v.natAbs).reverse.map Char.toUInt8) with
    | none => rfl
    | some m' =>
      rw [Option.map_some, Option.bind_some, writeSign, if_pos hneg]
      rfl
  · have htext : Printf.decimal v = Nat.toDigits 10 v.natAbs := by
      rw [Printf.decimal, Printf.sign, if_neg hneg]
      rfl
    have hbytes : (Printf.bytes (Nat.toDigits 10 v.natAbs)).reverse =
        Printf.bytes (Nat.toDigits 10 v.natAbs).reverse := by
      rw [Printf.bytes, Printf.bytes, List.map_reverse]
    rw [htext, hbytes]
    cases write? m p (Printf.bytes (Nat.toDigits 10 v.natAbs).reverse) with
    | none => rfl
    | some m' =>
      rw [Option.map_some, Option.bind_some, writeSign, if_neg hneg]

/-- `convert` writes the decimal representation of the number and a terminator. -/
theorem convert_eq {buf : Nat} (hv : T.Holds v) :
    convert T m buf v =
      (write? m buf (Printf.bytes (Printf.decimal v) ++ [0])).map fun m' =>
        (m', (Printf.decimal v).length) := by
  have hlength : (Printf.bytes (Printf.decimal v)).reverse.length = (Printf.decimal v).length := by
    rw [List.length_reverse, Printf.bytes, List.length_map]
  -- the terminator is written before the characters are put in order
  have hconvert : convert T m buf v =
      (write? m buf ((Printf.bytes (Printf.decimal v)).reverse ++ [0])).bind fun m' =>
        (reverse? m' buf (buf + (Printf.bytes (Printf.decimal v)).reverse.length)).map fun m'' =>
          (m'', (Printf.decimal v).length) := by
    rw [convert, write?_append, hlength]
    simp only [Option.bind_eq_bind]
    rw [← Option.bind_assoc, convertSign_eq hv]
    cases write? m buf (Printf.bytes (Printf.decimal v)).reverse with
    | none => rfl
    | some m' =>
      simp only [Option.bind_some, Nat.add_sub_cancel_left, Option.map_eq_bind,
        Function.comp_def, Option.pure_def]
  rw [hconvert]
  cases hwrite : write? m buf ((Printf.bytes (Printf.decimal v)).reverse ++ [0]) with
  | some m' =>
    rw [Option.bind_some, reverse?_write hwrite, List.reverse_reverse]
  | none =>
    have hnone : write? m buf (Printf.bytes (Printf.decimal v) ++ [0]) = none := by
      rw [write?] at hwrite ⊢
      split at hwrite
      next => cases hwrite
      next hfit =>
        rw [if_neg]
        rwa [List.length_append, List.length_reverse, ← List.length_append] at hfit
    rw [hnone]
    rfl

example : convert .int [9, 9, 9, 9, 9, 9] 1 (-42) = some ([9, 45, 52, 50, 0, 9], 3) := by decide

/-! ## Formatting a pointer -/

theorem nibble_eq {n : Nat} (p : UInt64) (hn : n < 16) :
    ((p >>> UInt64.ofNat (n * 4)) &&& 0xf).toNat = (p.toNat >>> (4 * n)) % 16 := by
  have hshift : (UInt64.ofNat (n * 4)).toNat % 64 = 4 * n := by
    rw [UInt64.toNat_ofNat']
    omega
  rw [UInt64.toNat_and, UInt64.toNat_shiftRight, hshift]
  exact Nat.and_two_pow_sub_one_eq_mod _ 4

theorem nibbleChar_eq {d : Nat} (hd : d < 16) :
    UInt8.ofNat (if d < 10 then '0'.toNat + d else 'a'.toNat + d - 10) =
      (Nat.digitChar d).toUInt8 := by
  have hall : ∀ d < 16, UInt8.ofNat (if d < 10 then '0'.toNat + d else 'a'.toNat + d - 10) =
      (Nat.digitChar d).toUInt8 := by decide
  exact hall d hd

/-- The loop writes the hexadecimal digits of the address, the first one first. -/
theorem pointerLoop_eq {n buf : Nat} (p : UInt64) (hn : n ≤ 16) (hbuf : buf ≤ m.length) :
    pointerLoop p n m buf =
      (write? m buf (Printf.bytes (Printf.hexPadded n p.toNat))).map (·, buf + n) := by
  induction n generalizing m buf with
  | zero =>
    show _ = Option.map _ (write? m buf [])
    rw [write?_nil hbuf]
    rfl
  | succ n ih =>
    have hdigits : Printf.bytes (Printf.hexPadded (n + 1) p.toNat) =
        [(Nat.digitChar ((p.toNat >>> (4 * n)) % 16)).toUInt8] ++
          Printf.bytes (Printf.hexPadded n p.toNat) := rfl
    simp only [pointerLoop, nibble_eq p hn, nibbleChar_eq (Nat.mod_lt _ (show 0 < 16 by decide)),
      Option.bind_eq_bind]
    rw [hdigits, write?_append]
    cases hwrite : write? m buf [(Nat.digitChar ((p.toNat >>> (4 * n)) % 16)).toUInt8] with
    | none => rfl
    | some m' =>
      have hfits := fits_of_write hwrite
      rw [← length_write hwrite, List.length_singleton] at hfits
      simp only [Option.bind_some, List.length_singleton]
      rw [ih (Nat.le_of_succ_le hn) hfits, Nat.add_assoc, Nat.add_comm 1 n]

/-! ## What the stream holds -/

/-- `cur_` points into `data_`, or to its end. -/
structure Valid (s : LogStream) : Prop where
  size : s.data.length = dataSize
  cur_le : s.cur ≤ dataSize

/-- The text of the message so far. -/
def contents (s : LogStream) : List UInt8 := slice s.data 0 s.cur

/-- `s'` is `s` with `text` behind its message.  No other character of the array has changed,
except for the one behind the text, which may be a terminator. -/
structure Appended (s s' : LogStream) (text : List UInt8) : Prop where
  valid : s'.Valid
  contents_eq : s'.contents = s.contents ++ text
  frame : ∀ k, k < s.cur ∨ s.cur + text.length < k → s'.data[k]? = s.data[k]?

variable {s : LogStream} {text : List UInt8}

theorem length_contents (hs : s.Valid) : s.contents.length = s.cur := by
  rw [contents, length_slice (by rw [hs.size]; exact hs.cur_le), Nat.sub_zero]

/-- Every operation of the stream is one write at `cur_`. -/
theorem exists_appended (hs : s.Valid) (extra : List UInt8) (hextra : extra.length ≤ 1)
    (hfit : s.cur + (text.length + extra.length) ≤ dataSize) :
    ∃ m', write? s.data s.cur (text ++ extra) = some m' ∧
      s.Appended ⟨m', s.cur + text.length⟩ text := by
  have hinside : s.cur + (text ++ extra).length ≤ s.data.length := by
    rw [hs.size, List.length_append]
    exact hfit
  obtain ⟨m', hwrite⟩ := exists_write hinside
  have hsize : m'.length = dataSize := (length_write hwrite).trans hs.size
  refine ⟨m', hwrite, ⟨⟨hsize, ?_⟩, ?_, ?_⟩⟩
  · show s.cur + text.length ≤ dataSize
    omega
  · show slice m' 0 (s.cur + text.length) = slice s.data 0 s.cur ++ text
    rw [← slice_append_slice (Nat.zero_le _) (Nat.le_add_right _ text.length) (by omega),
      slice_write_left hwrite, slice_write_before hwrite (Nat.le_refl _)]
  · intro k hk
    show m'[k]? = s.data[k]?
    rw [getElem?_write hwrite, List.length_append, if_neg (by omega)]

/-- There are 48 characters for a number: at most 47 of its text, and a terminator. -/
theorem exists_appended_number (hs : s.Valid) (hroom : kMaxNumericSize ≤ s.avail)
    (extra : List UInt8) (hextra : extra.length ≤ 1) (htext : text.length < kMaxNumericSize) :
    ∃ m', write? s.data s.cur (text ++ extra) = some m' ∧
      s.Appended ⟨m', s.cur + text.length⟩ text := by
  refine exists_appended hs extra hextra ?_
  rw [avail] at hroom
  omega

theorem length_bytes (cs : List Char) : (Printf.bytes cs).length = cs.length := List.length_map _

/-! ## The operators -/

/-- A 64-bit integer has at most 20 characters. -/
theorem length_decimal_le (hsize : T.size ≤ 18446744073709551616) (hv : T.Holds v) :
    (Printf.decimal v).length ≤ 20 := by
  have hbounds : -9223372036854775808 ≤ v ∧ v < 18446744073709551616 := by
    cases hsigned : T.signed with
    | true =>
      rw [IntType.holds_signed hsigned] at hv
      omega
    | false =>
      rw [IntType.holds_unsigned hsigned] at hv
      omega
  rw [Printf.length_decimal]
  by_cases hneg : v < 0
  · have hdigits : (Nat.toDigits 10 v.natAbs).length ≤ 19 :=
      (Nat.length_toDigits_le_iff (by decide) (by decide)).mpr
        (show v.natAbs < 10000000000000000000 by omega)
    rw [if_pos hneg]
    omega
  · have hdigits : (Nat.toDigits 10 v.natAbs).length ≤ 20 :=
      (Nat.length_toDigits_le_iff (by decide) (by decide)).mpr
        (show v.natAbs < 100000000000000000000 by omega)
    rw [if_neg hneg]
    omega

theorem formatInteger_spec (hs : s.Valid) (hroom : kMaxNumericSize ≤ s.avail)
    (hsize : T.size ≤ 18446744073709551616) (hv : T.Holds v) :
    ∃ s', s.formatInteger T v = some s' ∧
      s.Appended s' (Printf.bytes (Printf.decimal v)) := by
  have hlength := length_decimal_le hsize hv
  obtain ⟨m', hwrite, happended⟩ := exists_appended_number hs hroom [0] (Nat.le_refl _)
    (show (Printf.bytes (Printf.decimal v)).length < 48 by rw [length_bytes]; omega)
  refine ⟨_, ?_, happended⟩
  rw [formatInteger, if_pos hroom, convert_eq hv, hwrite, length_bytes]
  rfl

theorem putPointer_spec (hs : s.Valid) (hroom : kMaxNumericSize ≤ s.avail) (p : UInt64) :
    ∃ s', s.putPointer p = some s' ∧ s.Appended s' (Printf.bytes (LogArg.pointerText p)) := by
  obtain ⟨m', hwrite, happended⟩ := exists_appended_number hs hroom [] (Nat.zero_le _)
    (show (Printf.bytes (LogArg.pointerText p)).length < 48 by
      rw [length_bytes, LogArg.length_pointerText]; decide)
  refine ⟨_, ?_, happended⟩
  have htext : Printf.bytes (LogArg.pointerText p) =
      ['0'.toUInt8] ++ (['x'.toUInt8] ++ Printf.bytes (Printf.hexPadded 16 p.toNat)) := rfl
  rw [List.append_nil, htext, write?_append] at hwrite
  obtain ⟨m₁, hzero, hwrite⟩ := Option.bind_eq_some_iff.mp hwrite
  rw [write?_append, List.length_singleton] at hwrite
  obtain ⟨m₂, hx, hdigits⟩ := Option.bind_eq_some_iff.mp hwrite
  rw [List.length_singleton, Nat.add_assoc] at hdigits
  have hfits := fits_of_write hx
  rw [← length_write hx, List.length_singleton, Nat.add_assoc] at hfits
  rw [putPointer, if_pos hroom, length_bytes, LogArg.length_pointerText]
  simp only [hzero, hx, pointerLoop_eq p (Nat.le_refl 16) hfits, hdigits, Option.bind_eq_bind,
    Option.bind_some, Option.map_some]
  rfl

theorem putDouble_spec (hs : s.Valid) (hroom : kMaxNumericSize ≤ s.avail)
    (htext : text.length < kMaxNumericSize) :
    ∃ s', s.putDouble text = some s' ∧ s.Appended s' text := by
  obtain ⟨m', hwrite, happended⟩ := exists_appended_number hs hroom [0] (Nat.le_refl _) htext
  refine ⟨_, ?_, happended⟩
  have hstored : Printf.stored kMaxNumericSize text = text :=
    List.take_of_length_le (Nat.le_sub_one_of_lt htext)
  rw [putDouble, if_pos hroom, hstored, hwrite]
  rfl

theorem append_spec (hs : s.Valid) (hroom : text.length < s.avail) :
    ∃ s', s.append text = some s' ∧ s.Appended s' text := by
  have hfit : s.cur + (text.length + 0) ≤ dataSize := by
    rw [avail] at hroom
    omega
  obtain ⟨m', hwrite, happended⟩ := exists_appended hs [] (Nat.zero_le _) hfit
  rw [List.append_nil] at hwrite
  refine ⟨_, ?_, happended⟩
  rw [append, if_pos hroom, hwrite]
  rfl

/-- The ways in which the operators write: every argument is handled by one of the functions
above. -/
inductive PutAs (a : LogArg) : Prop
  | integer {T : IntType} {v : Int} (size_le : T.size ≤ 18446744073709551616) (holds : T.Holds v)
      (value : a.value? = some v) (text : a.text = Printf.bytes (Printf.decimal v))
      (number : a.isNumber = true) (put : ∀ s, put s a = s.formatInteger T v)
  | pointer {p : UInt64} (arg : a = .pointer p)
  | double {text : List UInt8} (arg : a = .double text)
  | characters (value : a.value? = none) (number : a.isNumber = false)
      (put : ∀ s, put s a = s.append a.text)

theorem put_as (a : LogArg) : PutAs a := by
  cases a with
  | bool v => exact .characters rfl rfl fun _ => rfl
  | short v =>
    have hv := Int16.toInt_toInt32 v
    refine .integer (T := .int) (by decide) (hv ▸ IntType.holds_int _) rfl rfl rfl fun s => ?_
    rw [put, hv]
  | unsignedShort v =>
    have hv := UInt16.toNat_toUInt32 v
    refine .integer (T := .unsignedInt) (by decide) (hv ▸ IntType.holds_unsignedInt _) rfl rfl rfl
      fun s => ?_
    rw [put, hv]
  | int v =>
    exact .integer (T := .int) (by decide) (IntType.holds_int v) rfl rfl rfl fun _ => rfl
  | unsignedInt v =>
    exact .integer (T := .unsignedInt) (by decide) (IntType.holds_unsignedInt v) rfl rfl rfl
      fun _ => rfl
  | long v =>
    exact .integer (T := .long) (by decide) (IntType.holds_long v) rfl rfl rfl fun _ => rfl
  | unsignedLong v =>
    exact .integer (T := .unsignedLong) (by decide) (IntType.holds_unsignedLong v) rfl rfl rfl
      fun _ => rfl
  | longLong v =>
    exact .integer (T := .longLong) (by decide) (IntType.holds_long v) rfl rfl rfl fun _ => rfl
  | unsignedLongLong v =>
    exact .integer (T := .unsignedLongLong) (by decide) (IntType.holds_unsignedLong v) rfl rfl rfl
      fun _ => rfl
  | pointer p => exact .pointer rfl
  | double text => exact .double rfl
  | char v => exact .characters rfl rfl fun _ => rfl
  | cstr str =>
    cases str with
    | none => exact .characters rfl rfl fun _ => rfl
    | some str => exact .characters rfl rfl fun _ => rfl
  | string v => exact .characters rfl rfl fun _ => rfl

/-! ## Integers and pointers -/

/-- **Integers are formatted exactly.**  With 48 characters free, an integer of any type is
appended as its canonical decimal representation, of at most 20 characters, and nothing behind
it is written but a terminator; a pointer is appended as `0x` and the 16 hexadecimal digits of
its address.  No operation overflows, and no access is outside the array or the table. -/
theorem integer_formatting (hs : s.Valid) (hroom : kMaxNumericSize ≤ s.avail) :
    (∀ a v, LogArg.value? a = some v → ∃ s' text, s.put a = some s' ∧
      Printf.IsDecimal v text ∧ text.length ≤ 20 ∧
      s'.contents = s.contents ++ Printf.bytes text ∧
      ∀ k, k < s.cur ∨ s.cur + (text.length + 1) ≤ k → s'.data[k]? = s.data[k]?) ∧
    ∀ p, ∃ s' digits, s.put (.pointer p) = some s' ∧ Printf.IsHex 16 p.toNat digits ∧
      s'.contents = s.contents ++ Printf.bytes ('0' :: 'x' :: digits) := by
  constructor
  · intro a v hvalue
    cases put_as a with
    | @integer T w hsize hw hvalue' _ _ hput =>
      obtain rfl := Option.some.inj (hvalue.symm.trans hvalue')
      obtain ⟨s', hformat, happended⟩ := formatInteger_spec hs hroom hsize hw
      refine ⟨s', Printf.decimal v, (hput s).trans hformat, Printf.isDecimal_decimal v,
        length_decimal_le hsize hw, happended.contents_eq, fun k hk => happended.frame k ?_⟩
      rwa [length_bytes]
    | pointer harg => exact absurd (harg ▸ hvalue) (by simp [LogArg.value?])
    | double harg => exact absurd (harg ▸ hvalue) (by simp [LogArg.value?])
    | characters hnone => exact absurd (hnone.symm.trans hvalue) (by simp)
  · intro p
    obtain ⟨s', hput, happended⟩ := putPointer_spec hs hroom p
    have haddress : p.toNat >>> (4 * 16) = 0 :=
      Nat.shiftRight_eq_zero _ _ p.toNat_lt
    exact ⟨s', _, hput, Printf.isHex_hexPadded haddress, happended.contents_eq⟩

/-- The least `long`, which has no negative, on an empty stream. -/
theorem leastLong_formatted : ∃ s' text,
    (⟨List.replicate dataSize 0, 0⟩ : LogStream).put (.long (-9223372036854775808)) = some s' ∧
    Printf.IsDecimal (-9223372036854775808) text ∧ s'.contents = Printf.bytes text := by
  obtain ⟨s', text, hput, htext, -, hcontents, -⟩ :=
    (integer_formatting (s := ⟨List.replicate dataSize 0, 0⟩)
      ⟨List.length_replicate, Nat.zero_le _⟩ (by decide)).1
      (.long (-9223372036854775808)) (-9223372036854775808) rfl
  exact ⟨s', text, hput, htext, hcontents⟩

/-! ## Whole messages

What the stream is for, in terms of the texts of the arguments alone. -/

/-- The room that an argument has to find: for its text with a terminator, and for a number
always 48 characters. -/
def roomFor (a : LogArg) : Nat := if a.isNumber then kMaxNumericSize else a.text.length + 1

/-- An argument is added to a message as a whole, or left out. -/
def addTo (message : List UInt8) (a : LogArg) : List UInt8 :=
  if message.length + roomFor a ≤ dataSize then message ++ a.text else message

variable {a : LogArg}

theorem room_of_number (h : a.isNumber = true) :
    s.cur + roomFor a ≤ dataSize ↔ kMaxNumericSize ≤ s.avail := by
  rw [roomFor, if_pos h, avail, kMaxNumericSize, dataSize]
  omega

theorem room_of_characters (h : a.isNumber = false) :
    s.cur + roomFor a ≤ dataSize ↔ a.text.length < s.avail := by
  rw [roomFor, h, avail, dataSize]
  show s.cur + (a.text.length + 1) ≤ 4000 ↔ _
  omega

theorem put_of_room (hs : s.Valid) (ha : a.Printable) (hroom : s.cur + roomFor a ≤ dataSize) :
    ∃ s', s.put a = some s' ∧ s.Appended s' a.text := by
  cases put_as a with
  | integer hsize hv _ htext hnumber hput =>
    rw [hput s, htext]
    exact formatInteger_spec hs ((room_of_number hnumber).mp hroom) hsize hv
  | @pointer p harg =>
    subst harg
    exact putPointer_spec hs ((room_of_number rfl).mp hroom) p
  | double harg =>
    subst harg
    exact putDouble_spec hs ((room_of_number rfl).mp hroom) ha
  | characters _ hnumber hput =>
    rw [hput s]
    exact append_spec hs ((room_of_characters hnumber).mp hroom)

theorem put_of_no_room (hroom : ¬ s.cur + roomFor a ≤ dataSize) : s.put a = some s := by
  cases put_as a with
  | integer _ _ _ _ hnumber hput =>
    rw [hput s, formatInteger, if_neg (mt (room_of_number hnumber).mpr hroom)]
  | pointer harg =>
    subst harg
    exact if_neg (mt (room_of_number rfl).mpr hroom)
  | double harg =>
    subst harg
    exact if_neg (mt (room_of_number rfl).mpr hroom)
  | characters _ hnumber hput =>
    rw [hput s, append, if_neg (mt (room_of_characters hnumber).mpr hroom)]

/-- One `<<` adds its argument to the message. -/
theorem put_spec (hs : s.Valid) (ha : a.Printable) :
    ∃ s', s.put a = some s' ∧ s'.Valid ∧ s'.contents = addTo s.contents a := by
  by_cases hroom : s.cur + roomFor a ≤ dataSize
  · obtain ⟨s', hput, happended⟩ := put_of_room hs ha hroom
    refine ⟨s', hput, happended.valid, ?_⟩
    rw [addTo, length_contents hs, if_pos hroom, happended.contents_eq]
  · refine ⟨s, put_of_no_room hroom, hs, ?_⟩
    rw [addTo, length_contents hs, if_neg hroom]

/-- **Any chain of `<<`** stays inside the array, and leaves there the texts of the arguments in
order, without those that there was no room for. -/
theorem run_put {args : List LogArg} (hs : s.Valid) (hargs : ∀ a ∈ args, a.Printable) :
    ∃ s', Machine.run put s args = some s' ∧ s'.Valid ∧
      s'.contents = args.foldl addTo s.contents :=
  Machine.run_refines_along (fun _ _ hs ha => put_spec hs ha)
    (Machine.along_of_forall_mem hargs) hs

end LogStream
end ReMuduo
