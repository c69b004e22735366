import ReMuduo.Buffer

/-! # Strings taken from a buffer

`retrieveAsString(len)` (`include/Buffer.h`) builds its result from the `len` bytes behind
`peek()` and then calls `retrieve(len)`.  The two treat `len` differently: `retrieve` drops the
readable bytes at most, but the string takes `len` bytes in any case.  With a longer `len` it
goes on with whatever stands behind `writerIndex_`: bytes of earlier data, or none of the
vector at all.

This module has the calls of a buffer with `retrieveAsString` among them, the states that they
reach, and what the strings are that a reader gets. -/
namespace ReMuduo
open Memory

/-- The calls of a buffer: the operations, and `retrieveAsString(len)`. -/
inductive BufferCall
  | op (op : BufferOp)
  | retrieveAsString (len : Nat)

namespace Buffer

variable {b b' : Buffer}

/-- `retrieveAsString(len)`, with the string it returns. -/
def retrieveAsString (b : Buffer) (len : Nat) : Option (Buffer × List UInt8) := do
  let result ← read? b.buffer b.readerIndex len
  return (b.retrieve len, result)

def call (b : Buffer) : BufferCall → Option Buffer
  | .op op => b.step op
  | .retrieveAsString len => (b.retrieveAsString len).map Prod.fst

/-- The states of a buffer that calls lead to. -/
def Reachable (b : Buffer) : Prop :=
  ∃ initialSize calls, Machine.run call (ofSize initialSize) calls = some b

/-! ## The states that are reached -/

theorem writeFd_too_many (hb : b.Valid) {n : Nat} (hn : b.readableBytes < n) :
    b.writeFd (.ok n) = some (b, .ok n) := by
  have hmore : ¬ n ≤ b.readableBytes := Nat.not_le_of_lt hn
  simp only [writeFd, read_contents hb, Option.bind_eq_bind, Option.bind_some, if_neg hmore]
  rfl

/-- The indices stay in order whatever is called and whatever the kernel answers. -/
theorem step_valid {op : BufferOp} (hb : b.Valid) (h : b.step op = some b') : b'.Valid := by
  by_cases hop : b.Allowed op
  · obtain ⟨b₁, h₁, hvalid, -⟩ := step_refines op hb hop
    rw [h] at h₁
    rwa [Option.some.inj h₁]
  · cases op with
    | retrieveUntil n =>
      rw [← Option.some.inj h]
      exact (retrieveUntil_spec hb n).1
    | readFd received =>
      obtain ⟨b₁, h₁, hvalid, -⟩ := readFd_spec hb received
      rw [step, h₁] at h
      rwa [← Option.some.inj h]
    | writeFd accepted =>
      cases accepted with
      | error e => exact absurd trivial hop
      | ok n =>
        rw [step, writeFd_too_many hb (Nat.lt_of_not_le hop)] at h
        rwa [← Option.some.inj h]
    | _ => exact absurd trivial hop

theorem retrieveAsString_eq_some {len : Nat} {s : List UInt8}
    (h : b.retrieveAsString len = some (b', s)) :
    read? b.buffer b.readerIndex len = some s ∧ b' = b.retrieve len := by
  obtain ⟨result, hread, hresult⟩ := Option.bind_eq_some_iff.mp h
  obtain ⟨rfl, rfl⟩ := Prod.mk.inj (Option.some.inj hresult)
  exact ⟨hread, rfl⟩

theorem call_valid {c : BufferCall} (hb : b.Valid) (h : b.call c = some b') : b'.Valid := by
  cases c with
  | op op => exact step_valid hb h
  | retrieveAsString len =>
    obtain ⟨⟨b₁, s⟩, hstring, rfl⟩ := Option.map_eq_some_iff.mp h
    obtain ⟨-, rfl⟩ := retrieveAsString_eq_some hstring
    exact (retrieve_spec hb len).1

theorem run_valid {initialSize : Nat} {calls : List BufferCall}
    (hrun : Machine.run call (ofSize initialSize) calls = some b) : b.Valid :=
  Machine.run_invariant (fun _ _ _ hb h => call_valid hb h) hrun (ofSize_valid initialSize)

theorem Reachable.valid (hb : b.Reachable) : b.Valid := by
  obtain ⟨initialSize, calls, hrun⟩ := hb
  exact run_valid hrun

/-! ## One call of `retrieveAsString` -/

/-- Within the readable bytes, the string is what is removed. -/
theorem retrieveAsString_spec (hb : b.Valid) {len : Nat} (hlen : len ≤ b.readableBytes) :
    b.retrieveAsString len = some (b.retrieve len, b.contents.take len) := by
  rw [retrieveAsString, read_take hb hlen]
  rfl

theorem length_retrieveAsString (hb : b.Valid) {len : Nat} {s : List UInt8}
    (h : b.retrieveAsString len = some (b', s)) :
    s.length = len ∧ b'.contents.length = b.contents.length - len := by
  obtain ⟨hread, rfl⟩ := retrieveAsString_eq_some h
  refine ⟨?_, by rw [(retrieve_spec hb len).2, List.length_drop]⟩
  unfold read? at hread
  split at hread
  next hfit =>
    rw [← Option.some.inj hread, length_slice hfit]
    omega
  next => cases hread

theorem retrieveAsString_agrees (hb : b.Valid) (len : Nat) :
    (∃ b' s, b.retrieveAsString len = some (b', s) ∧ s ++ b'.contents = b.contents) ↔
      len ≤ b.readableBytes := by
  constructor
  · rintro ⟨b', s, h, hagree⟩
    have hlengths := length_retrieveAsString hb h
    have htotal := congrArg List.length hagree
    rw [List.length_append, hlengths.1] at htotal
    rw [← length_contents hb]
    omega
  · intro hlen
    refine ⟨_, _, retrieveAsString_spec hb hlen, ?_⟩
    rw [(retrieve_spec hb len).2, List.take_append_drop]

end Buffer

/-! ## A stream of strings -/

/-- A writer appends, a reader takes strings. -/
inductive StringOp
  | append (data : List UInt8)
  | retrieveAsString (len : Nat)

/-- A buffer between a writer and a reader, with all bytes that were appended and all bytes
that were returned. -/
structure StringStream where
  buffer : Buffer
  appended : List UInt8
  returned : List UInt8

namespace StringStream

variable {r r' : StringStream} {op : StringOp}

def initial (initialSize : Nat) : StringStream := ⟨Buffer.ofSize initialSize, [], []⟩

def step (r : StringStream) : StringOp → Option StringStream
  | .append data => (r.buffer.append data).map fun b => ⟨b, r.appended ++ data, r.returned⟩
  | .retrieveAsString len => (r.buffer.retrieveAsString len).map fun result =>
      ⟨result.1, r.appended, r.returned ++ result.2⟩

/-- A string is asked for that is no longer than the readable bytes. -/
def Within (r : StringStream) : StringOp → Prop
  | .append _ => True
  | .retrieveAsString len => len ≤ r.buffer.readableBytes

instance (r : StringStream) : ∀ op, Decidable (r.Within op)
  | .append _ => isTrue trivial
  | .retrieveAsString len => inferInstanceAs (Decidable (len ≤ r.buffer.readableBytes))

/-- What is returned is the beginning of what was appended. -/
def InOrder (r : StringStream) : Prop := r.returned <+: r.appended

/-- What has been appended has been returned or can still be read. -/
structure Inv (r : StringStream) : Prop where
  valid : r.buffer.Valid
  total : r.appended.length ≤ r.returned.length + r.buffer.contents.length

/-- The same, byte for byte. -/
def Exact (r : StringStream) : Prop := r.returned ++ r.buffer.contents = r.appended

theorem step_cases (hr : r.buffer.Valid) (h : r.step op = some r') :
    (∃ data b, op = .append data ∧ b.Valid ∧ b.contents = r.buffer.contents ++ data ∧
      r' = ⟨b, r.appended ++ data, r.returned⟩) ∨
    (∃ len b s, op = .retrieveAsString len ∧ r.buffer.retrieveAsString len = some (b, s) ∧
      b.Valid ∧ r' = ⟨b, r.appended, r.returned ++ s⟩) := by
  cases op with
  | append data =>
    obtain ⟨b, happend, hb, hcontents⟩ := Buffer.append_spec hr data
    rw [step, happend] at h
    exact .inl ⟨data, b, rfl, hb, hcontents, (Option.some.inj h).symm⟩
  | retrieveAsString len =>
    obtain ⟨⟨b, s⟩, hstring, rfl⟩ := Option.map_eq_some_iff.mp h
    obtain ⟨-, rfl⟩ := Buffer.retrieveAsString_eq_some hstring
    exact .inr ⟨len, _, s, rfl, hstring, (Buffer.retrieve_spec hr len).1, rfl⟩

theorem step_inv (hr : r.Inv) (h : r.step op = some r') : r'.Inv := by
  have htotal := hr.total
  rcases step_cases hr.valid h with ⟨data, b, -, hb, hcontents, rfl⟩ |
    ⟨len, b, s, -, hstring, hb, rfl⟩
  · refine ⟨hb, ?_⟩
    simp only [hcontents, List.length_append]
    omega
  · have hlengths := Buffer.length_retrieveAsString hr.valid hstring
    refine ⟨hb, ?_⟩
    simp only [List.length_append]
    omega

theorem step_exact (hr : r.Inv) (hexact : r.Exact) (hop : r.Within op)
    (h : r.step op = some r') : r'.Exact := by
  rw [Exact] at hexact
  rcases step_cases hr.valid h with ⟨data, b, rfl, -, hcontents, rfl⟩ |
    ⟨len, b, s, rfl, hstring, -, rfl⟩
  · rw [Exact, hcontents, ← List.append_assoc, hexact]
  · rw [Buffer.retrieveAsString_spec hr.valid hop] at hstring
    obtain ⟨rfl, rfl⟩ := Prod.mk.inj (Option.some.inj hstring)
    rw [Exact, (Buffer.retrieve_spec hr.valid len).2, List.append_assoc, List.take_append_drop,
      hexact]

/-- A longer string makes more bytes than were appended. -/
theorem step_within (hr : r.Inv) (h : r.step op = some r') (horder : r'.InOrder) :
    r.Within op := by
  have htotal := hr.total
  have hcontents := Buffer.length_contents hr.valid
  rcases step_cases hr.valid h with ⟨data, b, rfl, -, -, -⟩ | ⟨len, b, s, rfl, hstring, -, rfl⟩
  · trivial
  · have hlengths := Buffer.length_retrieveAsString hr.valid hstring
    have hle : (r.returned ++ s).length ≤ r.appended.length := List.IsPrefix.length_le horder
    rw [List.length_append] at hle
    show len ≤ r.buffer.readableBytes
    omega

/-- What is returned stays in order exactly as long as no string is longer than the readable
bytes. -/
theorem inOrder_iff_within {initialSize : Nat} {ops : List StringOp}
    (hrun : Machine.run step (initial initialSize) ops = some r) :
    Machine.Throughout step InOrder (initial initialSize) ops ↔
      Machine.Along step Within (initial initialSize) ops := by
  refine Machine.throughout_iff_along (I := Inv) (Q := Exact) ?_ ?_ ?_ ?_ hrun ?_ ?_
  · intro op _ r r' hr h
    exact step_inv hr h
  · intro op _ r r' hr hexact hop h
    exact step_exact hr hexact hop h
  · intro op _ r r' hr _ h horder
    exact step_within hr h horder
  · intro r hexact
    exact ⟨_, hexact⟩
  · exact ⟨Buffer.ofSize_valid initialSize, Nat.zero_le _⟩
  · exact Buffer.contents_ofSize initialSize

/-- **When `retrieveAsString` returns what it removes.**  In every state that calls lead to,
the string and the bytes left are the bytes before exactly if `len` is at most
`readableBytes()`.  In every run of a writer and a reader, what is returned is all the time the
beginning of what was appended exactly if no string is asked for beyond the readable bytes. -/
theorem retrieveAsString_agrees_iff {b : Buffer} (hb : b.Reachable) (len : Nat)
    {initialSize : Nat} {ops : List StringOp} {r : StringStream}
    (hrun : Machine.run step (initial initialSize) ops = some r) :
    ((∃ b' s, b.retrieveAsString len = some (b', s) ∧ s ++ b'.contents = b.contents) ↔
      len ≤ b.readableBytes) ∧
    (Machine.Throughout step InOrder (initial initialSize) ops ↔
      Machine.Along step Within (initial initialSize) ops) :=
  ⟨Buffer.retrieveAsString_agrees hb.valid len, inOrder_iff_within hrun⟩

/-- Five bytes pass through the buffer, then two arrive. -/
def fiveThenTwo : List StringOp :=
  [.append [1, 2, 3, 4, 5], .retrieveAsString 5, .append [6, 7]]

theorem fiveThenTwo_inOrder :
    (∃ b b' s, Machine.run Buffer.call (Buffer.ofSize 8) [.op (.append [6, 7])] = some b ∧
      b.retrieveAsString 2 = some (b', s) ∧ s ++ b'.contents = b.contents) ∧
    Machine.Throughout step InOrder (initial 8) (fiveThenTwo ++ [.retrieveAsString 2]) := by
  obtain ⟨b, hb, hreadable⟩ : ∃ b, Machine.run Buffer.call (Buffer.ofSize 8)
      [.op (.append [6, 7])] = some b ∧ 2 ≤ b.readableBytes := ⟨_, rfl, by decide⟩
  obtain ⟨r, hrun⟩ : ∃ r, Machine.run step (initial 8) (fiveThenTwo ++ [.retrieveAsString 2]) =
      some r := ⟨_, rfl⟩
  have hagrees := retrieveAsString_agrees_iff ⟨8, _, hb⟩ 2 hrun
  obtain ⟨b', s, hstring, hagree⟩ := hagrees.1.mpr hreadable
  exact ⟨⟨b, b', s, hb, hstring, hagree⟩, hagrees.2.mpr (by decide)⟩

/-- Five bytes are asked for when two are readable: the string ends with bytes that were
returned before, and what is returned is not in order any more. -/
theorem stale_bytes_returned :
    (∃ b b' s, Machine.run Buffer.call (Buffer.ofSize 8) [.op (.append [1, 2, 3, 4, 5]),
        .retrieveAsString 5, .op (.append [6, 7])] = some b ∧
      b.retrieveAsString 5 = some (b', s) ∧ b.contents = [6, 7] ∧ s = [6, 7, 3, 4, 5] ∧
      s ++ b'.contents ≠ b.contents) ∧
    ∃ r, Machine.run step (initial 8) (fiveThenTwo ++ [.retrieveAsString 5]) = some r ∧
      r.appended = [1, 2, 3, 4, 5, 6, 7] ∧
      r.returned = [1, 2, 3, 4, 5, 6, 7, 3, 4, 5] ∧ ¬ r.InOrder := by
  refine ⟨⟨_, _, _, rfl, rfl, rfl, rfl, by decide⟩, _, rfl, rfl, rfl, ?_⟩
  intro h
  exact absurd (List.IsPrefix.length_le h) (by decide)

end StringStream
end ReMuduo
