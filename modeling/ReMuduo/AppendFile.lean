import Mathlib.Tactic.Common

/-! # Append-only files

`AppendFile` (`src/base/FileUtil.cpp`).  `append` hands its data to `fwrite_unlocked`,
which may accept fewer bytes than it is given; what is left is handed over again, until
nothing is left or nothing is accepted.  How the C library answers is an `Fwrite`.

The retry loop has fuel.  A round that does not end it accepts a byte, so that one round
more than there are bytes is enough, and `append` never runs out (`append_spec`). -/
namespace ReMuduo

/-- How `fwrite_unlocked` answers within one `append`: the number of the call and the length
it is asked for give the number of bytes it accepts. -/
structure Fwrite where
  accepts : Nat → Nat → Nat
  accepts_le : ∀ call len, accepts call len ≤ len

namespace Fwrite

variable (w : Fwrite)

/-- How many of `len` bytes are left when the calls before `call` have been answered. -/
def left (len : Nat) : Nat → Nat
  | 0 => len
  | call + 1 => left len call - w.accepts call (left len call)

/-- From `call` on, a call that is asked for something accepts a byte at least. -/
def AcceptsFrom (len call : Nat) : Prop :=
  ∀ c, call ≤ c → 0 < w.left len c → 0 < w.accepts c (w.left len c)

/-- Every retry is answered with a byte at least, until nothing is left.  The first call may
accept nothing: it is repeated all the same. -/
def KeepsAccepting (len : Nat) : Prop := w.AcceptsFrom len 1

variable {w} {len call : Nat}

theorem left_eq_zero (h : w.left len call = 0) {c : Nat} (hc : call ≤ c) : w.left len c = 0 := by
  induction hc with
  | refl => exact h
  | step _ ih => rw [left, ih, Nat.zero_sub]

theorem acceptsFrom_of_left_eq_zero (h : w.left len call = 0) : w.AcceptsFrom len call := by
  intro c hc hpos
  rw [left_eq_zero h hc] at hpos
  cases hpos

theorem acceptsFrom_succ (h : 0 < w.accepts call (w.left len call)) :
    w.AcceptsFrom len call ↔ w.AcceptsFrom len (call + 1) := by
  constructor
  · intro hall c hc
    exact hall c (Nat.le_of_succ_le hc)
  · intro hall c hc hpos
    rcases Nat.eq_or_lt_of_le hc with rfl | hlt
    · exact h
    · exact hall c hlt hpos

end Fwrite

/-- How opening a file goes: whether the first `fopen` succeeds, whether the directory is there
after `mkdir`, and whether the second `fopen` succeeds. -/
structure Fopen where
  first : Bool
  mkdir : Bool
  second : Bool
deriving DecidableEq

/-- The file is open in the end. -/
def Fopen.opens (o : Fopen) : Bool := o.first || o.mkdir && o.second

/-- An `AppendFile`: whether `fp_` is open, what is in the file, and `writtenBytes_`. -/
structure AppendFile where
  filename : List Char
  fp : Bool
  contents : List UInt8
  writtenBytes : Nat
deriving DecidableEq

namespace AppendFile

variable {data : List UInt8} {fuel n : Nat}

/-- The constructor, for a file that holds `contents` already: it is opened for appending. -/
def create (o : Fopen) (filename : List Char) (contents : List UInt8) : AppendFile :=
  ⟨filename, o.opens, contents, 0⟩

/-- `write(logline, len)`, and how many bytes it accepts. -/
def write (w : Fwrite) (call : Nat) (f : AppendFile) (logline : List UInt8) : AppendFile × Nat :=
  let x := w.accepts call logline.length
  ({ f with contents := f.contents ++ logline.take x }, x)

/-- The loop of `append` with `n` bytes accepted so far, and the number of bytes accepted when
it ends. -/
def retry (w : Fwrite) (logline : List UInt8) :
    Nat → Nat → AppendFile → Nat → Option (AppendFile × Nat)
  | 0, _, _, _ => none
  | fuel + 1, call, f, n =>
    let remain := logline.length - n
    if 0 < remain then
      let r := f.write w call (logline.drop n)
      if r.2 = 0 then some (r.1, n) else retry w logline fuel (call + 1) r.1 (n + r.2)
    else some (f, n)

/-- `append(logline, len)`. -/
def append (w : Fwrite) (f : AppendFile) (logline : List UInt8) : Option AppendFile :=
  if f.fp then
    let r := f.write w 0 logline
    (retry w logline (logline.length + 1) 1 r.1 r.2).map fun r =>
      { r.1 with writtenBytes := r.1.writtenBytes + logline.length }
  else some f

/-- The loop ends, and what it has accepted is what follows the first `n` bytes, up to some
point: up to the end, if and only if every call that it makes accepts something. -/
theorem retry_spec (w : Fwrite) (call : Nat) (f : AppendFile)
    (hn : n + w.left data.length call = data.length) (hfuel : w.left data.length call < fuel) :
    ∃ m, n ≤ m ∧ m ≤ data.length ∧ retry w data fuel call f n =
        some ({ f with contents := f.contents ++ (data.drop n).take (m - n) }, m) ∧
      (m = data.length ↔ w.AcceptsFrom data.length call) := by
  induction fuel generalizing call f n with
  | zero => omega
  | succ fuel ih =>
    have hlen : (data.drop n).length = w.left data.length call := by
      rw [List.length_drop]
      omega
    rw [retry]
    dsimp only
    by_cases hremain : 0 < data.length - n
    · rw [if_pos hremain]
      have hx : (f.write w call (data.drop n)).2 = w.accepts call (w.left data.length call) := by
        rw [write, hlen]
      have hwrite : (f.write w call (data.drop n)).1 = { f with
          contents := f.contents ++ (data.drop n).take (f.write w call (data.drop n)).2 } := rfl
      rw [hwrite, hx]
      by_cases hzero : w.accepts call (w.left data.length call) = 0
      · -- nothing accepted: the error is logged and the loop left
        rw [if_pos hzero, hzero]
        refine ⟨n, Nat.le_refl n, by omega, by rw [Nat.sub_self], fun hall => by omega, ?_⟩
        intro hall
        have hpos := hall call (Nat.le_refl call) (by omega)
        omega
      · rw [if_neg hzero]
        have hle := w.accepts_le call (w.left data.length call)
        have hleft : w.left data.length (call + 1) =
          w.left data.length call - w.accepts call (w.left data.length call) := rfl
        have hpos := Nat.pos_of_ne_zero hzero
        obtain ⟨m, hnm, hm, hrun, hall⟩ := ih (n := n + w.accepts call (w.left data.length call))
          (call + 1) { f with contents := f.contents ++
            (data.drop n).take (w.accepts call (w.left data.length call)) } (by omega) (by omega)
        refine ⟨m, by omega, hm, ?_, hall.trans (Fwrite.acceptsFrom_succ hpos).symm⟩
        rw [hrun]
        generalize w.accepts call (w.left data.length call) = x at *
        rw [List.append_assoc, ← List.drop_drop, ← List.take_add,
          show x + (m - (n + x)) = m - n by omega]
    · rw [if_neg hremain]
      refine ⟨n, Nat.le_refl n, by omega, by simp, fun _ => ?_, fun _ => by omega⟩
      exact Fwrite.acceptsFrom_of_left_eq_zero (by omega)

/-- What `append` does to an open file: a first part of the data gets into the file, and all
of it is counted. -/
theorem append_spec (w : Fwrite) {f : AppendFile} (hfp : f.fp = true) (data : List UInt8) :
    ∃ n ≤ data.length, f.append w data = some { f with
        contents := f.contents ++ data.take n, writtenBytes := f.writtenBytes + data.length } ∧
      (n = data.length ↔ w.KeepsAccepting data.length) := by
  have hle := w.accepts_le 0 data.length
  have hleft : w.left data.length 1 = data.length - w.accepts 0 data.length := rfl
  obtain ⟨m, hnm, hm, hrun, hall⟩ := retry_spec (n := w.accepts 0 data.length) w 1
    (f.write w 0 data).1 (by omega) (show w.left data.length 1 < data.length + 1 by omega)
  refine ⟨m, hm, ?_, hall⟩
  have hwrite : f.write w 0 data = ({ f with
      contents := f.contents ++ data.take (w.accepts 0 data.length) },
      w.accepts 0 data.length) := rfl
  rw [append, if_pos hfp]
  dsimp only
  rw [hwrite] at hrun ⊢
  rw [hrun]
  generalize w.accepts 0 data.length = x at *
  simp only [Option.map_some, List.append_assoc, ← List.take_add, Nat.add_sub_cancel' hnm]

theorem append_closed (w : Fwrite) {f : AppendFile} (hfp : f.fp = false) (data : List UInt8) :
    f.append w data = some f := by
  rw [append, hfp]
  rfl

/-- `append` returns, and changes nothing but the contents and the count. -/
theorem append_keeps (w : Fwrite) (f : AppendFile) (data : List UInt8) :
    ∃ contents writtenBytes, f.append w data =
      some { f with contents := contents, writtenBytes := writtenBytes } := by
  cases hfp : f.fp with
  | true =>
    obtain ⟨n, -, hrun, -⟩ := append_spec w hfp data
    exact ⟨_, _, by rw [hrun, hfp]⟩
  | false => exact ⟨f.contents, f.writtenBytes, by rw [append_closed w hfp, ← hfp]⟩

/-- All of the data gets into the file if the C library keeps accepting it. -/
theorem append_completes {w : Fwrite} (hw : w.KeepsAccepting data.length) {f f' : AppendFile}
    (hfp : f.fp = true) (h : f.append w data = some f') :
    f' = { f with
      contents := f.contents ++ data, writtenBytes := f.writtenBytes + data.length } := by
  obtain ⟨n, -, hrun, hall⟩ := append_spec w hfp data
  rw [hrun, hall.mpr hw, List.take_length] at h
  exact (Option.some.inj h).symm

/-- **What `append` accounts for.**  It returns, the bytes it gets into the file are a first
part of the data, and `writtenBytes()` grows by their number exactly when the file is not
open or no retry is refused while something is left to write. -/
theorem append_accounts_iff (w : Fwrite) (f : AppendFile) (data : List UInt8) :
    ∃ f' n, f.append w data = some f' ∧ n ≤ data.length ∧
      f'.contents = f.contents ++ data.take n ∧
      (f'.writtenBytes = f.writtenBytes + n ↔ f.fp = false ∨ w.KeepsAccepting data.length) := by
  by_cases hfp : f.fp = true
  · obtain ⟨n, hn, hrun, hall⟩ := append_spec w hfp data
    refine ⟨_, n, hrun, hn, rfl, ?_⟩
    show f.writtenBytes + data.length = f.writtenBytes + n ↔ _
    rw [hfp, ← hall]
    constructor
    · intro hcount
      exact .inr (by omega)
    · rintro (hclosed | hall)
      · cases hclosed
      · rw [hall]
  · rw [Bool.not_eq_true] at hfp
    exact ⟨f, 0, append_closed w hfp data, Nat.zero_le _, by simp, by simp [hfp]⟩

/-- Every call accepts all it is given. -/
def acceptsAll : Fwrite where
  accepts _ len := len
  accepts_le _ len := Nat.le_refl len

theorem keepsAccepting_acceptsAll (len : Nat) : acceptsAll.KeepsAccepting len :=
  fun _ _ hpos => hpos

/-- The first call accepts two bytes at most, and the others none. -/
def twoThenNone : Fwrite where
  accepts call len := if call = 0 then min 2 len else 0
  accepts_le call len := by
    split
    · exact Nat.min_le_right 2 len
    · exact Nat.zero_le len

/-- The write fails after two bytes of three: two are in the file, and three are counted. -/
theorem short_write_counted :
    (⟨[], true, [], 0⟩ : AppendFile).append twoThenNone [1, 2, 3] =
      some ⟨[], true, [1, 2], 3⟩ := by decide

end AppendFile
end ReMuduo
