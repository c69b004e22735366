import ReMuduo.BufferCalls

/-! # The copies that a buffer makes

`std::copy(first, last, dest)` requires that `dest` is not in `[first, last)`: it may copy cell
by cell from `first` on, and would then overwrite cells that it has yet to read.  A `Buffer`
(`include/Buffer.h`) uses it to bring data in, to move the readable bytes to the front
(`makeSpace`), to make room in front of them (`prepend`) and to move them to a new vector
(`shrink`).

This module lists the copies of every call and says which of them meet the requirement.  Where
they do, copying in order does what `Memory.move?` does, which is what the functions of
`Buffer` are modelled with. -/
namespace ReMuduo
open Memory

/-- A `std::copy`: inside the vector, with the cells of the vector at that time, or of `data`
from one storage to another. -/
inductive Copy
  | within (cells : List UInt8) (first last dest : Nat)
  | between (data : List UInt8)

namespace Copy

/-- The requirement of `std::copy`. -/
def Legal : Copy → Prop
  | .within _ first last dest => ¬ (first ≤ dest ∧ dest < last)
  | .between _ => True

/-- In copying from `first` on, the `j`-th cell written is one that is only read as the `k`-th,
after that. -/
def Clobbers : Copy → Prop
  | .within _ first last dest => ∃ j k, j < k ∧ first + k < last ∧ dest + j = first + k
  | .between _ => False

/-- Copying in order does what a move does. -/
def InOrder : Copy → Prop
  | .within cells first last dest =>
    copy? cells first dest (last - first) = move? cells first last dest
  | .between _ => True

variable {m : List UInt8} {i j k : Nat}

theorem clobbers_within_iff : (Copy.within m i j k).Clobbers ↔ i < k ∧ k < j := by
  constructor
  · rintro ⟨p, q, hpq, hq, heq⟩
    omega
  · rintro ⟨hik, hkj⟩
    exact ⟨0, k - i, by omega, by omega, by omega⟩

/-- A copy to the left is safe. -/
theorem safe_of_lt (h : k < i) :
    (Copy.within m i j k).Legal ∧ ¬ (Copy.within m i j k).Clobbers := by
  rw [clobbers_within_iff, Legal]
  omega

theorem inOrder_of_legal (hij : i ≤ j) (hj : j ≤ m.length) (hk : k + (j - i) ≤ m.length)
    (h : (Copy.within m i j k).Legal) : (Copy.within m i j k).InOrder := by
  rw [Legal] at h
  exact copy?_eq_move? hij hj hk (by omega)

end Copy

namespace Buffer

variable {b b' : Buffer} {c : BufferCall} {x : Copy}

def makeSpaceCopies (b : Buffer) (len : Nat) : List Copy :=
  if b.writableBytes + b.prependableBytes < len + kCheapPrepend then []
  else [.within b.buffer b.readerIndex b.writerIndex kCheapPrepend]

def ensureWritableBytesCopies (b : Buffer) (len : Nat) : List Copy :=
  if b.writableBytes < len then b.makeSpaceCopies len else []

def appendCopies (b : Buffer) (data : List UInt8) : List Copy :=
  b.ensureWritableBytesCopies data.length ++ [.between data]

/-- The vector that `prepend` moves the readable bytes in. -/
def prependStorage (b : Buffer) (len : Nat) : List UInt8 :=
  let needed := kCheapPrepend + len + b.readableBytes
  if b.buffer.length < needed then resize 0 b.buffer needed else b.buffer

def prependCopies (b : Buffer) (data : List UInt8) : List Copy :=
  if data.length < b.prependableBytes then [.between data]
  else
    [.within (b.prependStorage data.length) b.readerIndex b.writerIndex
      (kCheapPrepend + data.length), .between data]

/-- `readFd` appends what `readv` put into `extrabuf`, to a full vector. -/
def readFdCopies (b : Buffer) : SysResult (List UInt8) → List Copy
  | .error _ => []
  | .ok bytes =>
    if bytes.length ≤ b.writableBytes then []
    else match write? b.buffer b.writerIndex (bytes.take b.writableBytes) with
      | none => []
      | some buffer =>
        appendCopies ⟨buffer, b.readerIndex, buffer.length⟩ (bytes.drop b.writableBytes)

/-- The copies that a call makes, in order. -/
def copies (b : Buffer) : BufferCall → List Copy
  | .op (.append data) => b.appendCopies data
  | .op (.prepend data) => b.prependCopies data
  | .op (.shrink _) => [.between b.contents]
  | .op (.readFd received) => b.readFdCopies received
  | _ => []

/-- A `prepend` finds room in front of the readable bytes, or moves them behind all of them. -/
def Apart (b : Buffer) : BufferCall → Prop
  | .op (.prepend data) =>
    data.length < b.prependableBytes ∨ b.writerIndex ≤ kCheapPrepend + data.length
  | _ => True

instance (b : Buffer) : ∀ c, Decidable (b.Apart c)
  | .op (.prepend data) => inferInstanceAs (Decidable
      (data.length < b.prependableBytes ∨ b.writerIndex ≤ kCheapPrepend + data.length))
  | .op (.append _) | .op (.retrieve _) | .op (.retrieveUntil _) | .op .retrieveAll
  | .op .retrieveAllAsString | .op (.shrink _) | .op (.readFd _) | .op (.writeFd _)
  | .retrieveAsString _ => isTrue trivial

/-! ## Which copies are safe -/

/-- `makeSpace` moves the readable bytes only if there is more room in front of them than
`kCheapPrepend`. -/
theorem mem_appendCopies {data : List UInt8} (h : x ∈ b.appendCopies data) :
    x = .between data ∨
      kCheapPrepend < b.readerIndex ∧
        x = .within b.buffer b.readerIndex b.writerIndex kCheapPrepend := by
  rcases List.mem_append.mp h with h | h
  · right
    unfold ensureWritableBytesCopies at h
    split at h
    next hlen =>
      unfold makeSpaceCopies at h
      split at h
      next => cases h
      next hroom =>
        rw [prependableBytes] at hroom
        exact ⟨by omega, List.mem_singleton.mp h⟩
    next => cases h
  · left
    exact List.mem_singleton.mp h

theorem mem_readFdCopies {received : SysResult (List UInt8)} (h : x ∈ b.readFdCopies received) :
    ∃ buffer data, buffer.length = b.buffer.length ∧
      x ∈ appendCopies ⟨buffer, b.readerIndex, buffer.length⟩ data := by
  cases received with
  | error e => cases h
  | ok bytes =>
    unfold readFdCopies at h
    dsimp only at h
    split at h
    next => cases h
    next =>
      split at h
      next => cases h
      next buffer hwrite => exact ⟨buffer, _, length_write hwrite, h⟩

/-- The copies of a call: data that comes from outside or goes to a new vector, the readable
bytes of a vector that has been filled or not, to the front, and those that a `prepend` moves
to the right. -/
theorem mem_copies (h : x ∈ b.copies c) :
    (∃ data, x = .between data) ∨
    (∃ m last, m.length = b.buffer.length ∧ (last = b.writerIndex ∨ last = m.length) ∧
      kCheapPrepend < b.readerIndex ∧ x = .within m b.readerIndex last kCheapPrepend) ∨
    (∃ data, c = .op (.prepend data) ∧ ¬ data.length < b.prependableBytes ∧
      x = .within (b.prependStorage data.length) b.readerIndex b.writerIndex
        (kCheapPrepend + data.length)) := by
  unfold copies at h
  split at h
  next data =>
    rcases mem_appendCopies h with hbetween | ⟨hleft, hwithin⟩
    · exact .inl ⟨data, hbetween⟩
    · exact .inr (.inl ⟨b.buffer, b.writerIndex, rfl, .inl rfl, hleft, hwithin⟩)
  next data =>
    unfold prependCopies at h
    split at h
    next => exact .inl ⟨data, List.mem_singleton.mp h⟩
    next hfull =>
      rcases List.mem_cons.mp h with hwithin | h
      · exact .inr (.inr ⟨data, rfl, hfull, hwithin⟩)
      · exact .inl ⟨data, List.mem_singleton.mp h⟩
  next => exact .inl ⟨b.contents, List.mem_singleton.mp h⟩
  next received =>
    obtain ⟨m, data, hsize, hmem⟩ := mem_readFdCopies h
    rcases mem_appendCopies hmem with hbetween | ⟨hleft, hwithin⟩
    · exact .inl ⟨data, hbetween⟩
    · exact .inr (.inl ⟨m, m.length, hsize, .inr rfl, hleft, hwithin⟩)
  next => cases h

theorem copies_safe (hc : b.Apart c) (h : x ∈ b.copies c) : x.Legal ∧ ¬ x.Clobbers := by
  rcases mem_copies h with ⟨data, rfl⟩ | ⟨m, last, -, -, hleft, rfl⟩ | ⟨data, rfl, hfull, rfl⟩
  · exact ⟨trivial, id⟩
  · exact Copy.safe_of_lt hleft
  · have hdest : b.writerIndex ≤ kCheapPrepend + data.length := Or.resolve_left hc hfull
    rw [Copy.clobbers_within_iff, Copy.Legal]
    omega

/-- A `prepend` without room in front copies to the right: onto bytes it has yet to read, if
they reach that far. -/
theorem copies_clash (hc : ¬ b.Apart c) : ∃ x ∈ b.copies c, ¬ x.Legal ∧ x.Clobbers := by
  unfold Apart at hc
  split at hc
  next data =>
    rw [not_or] at hc
    obtain ⟨hfull, hreach⟩ := hc
    refine ⟨_, by rw [copies, prependCopies, if_neg hfull]; exact List.mem_cons_self, ?_⟩
    have hroom : 0 < kCheapPrepend := by decide
    rw [prependableBytes] at hfull
    rw [Copy.clobbers_within_iff, Copy.Legal]
    omega
  next => exact absurd trivial hc

/-- The copies of a call all have a property that tells safe copies from unsafe ones exactly if
the call is `Apart`. -/
theorem copies_forall_iff {P : Copy → Prop} (hlegal : ∀ x, x.Legal ∧ ¬ x.Clobbers → P x)
    (hclash : ∀ x, ¬ x.Legal ∧ x.Clobbers → ¬ P x) : (∀ x ∈ b.copies c, P x) ↔ b.Apart c := by
  constructor
  · intro hall
    by_contra hc
    obtain ⟨x, hx, hbad⟩ := copies_clash hc
    exact hclash x hbad (hall x hx)
  · intro hc x hx
    exact hlegal x (copies_safe hc hx)

/-! ## What the safe copies do -/

theorem prependStorage_length (b : Buffer) (len : Nat) :
    b.buffer.length ≤ (b.prependStorage len).length ∧
      kCheapPrepend + len + b.readableBytes ≤ (b.prependStorage len).length := by
  unfold prependStorage
  dsimp only
  split
  next hgrow =>
    rw [length_resize]
    omega
  next => omega

theorem copies_inOrder (hb : b.Valid) (h : x ∈ b.copies c) (hx : x.Legal) : x.InOrder := by
  have hr := hb.reader_le
  have hw := hb.writer_le
  rcases mem_copies h with ⟨data, rfl⟩ | ⟨m, last, hsize, hlast, hleft, rfl⟩ |
    ⟨data, rfl, -, rfl⟩
  · trivial
  · exact Copy.inOrder_of_legal (by omega) (by omega) (by omega) hx
  · have hlength := prependStorage_length b data.length
    rw [readableBytes] at hlength
    exact Copy.inOrder_of_legal hr (by omega) (by omega) hx

end Buffer

/-! ## Runs -/

/-- A buffer with the copies it has made. -/
structure CopyLog where
  buffer : Buffer
  copies : List Copy

namespace CopyLog

variable {s s' : CopyLog} {c : BufferCall}

def initial (initialSize : Nat) : CopyLog := ⟨Buffer.ofSize initialSize, []⟩

def step (s : CopyLog) (c : BufferCall) : Option CopyLog :=
  (s.buffer.call c).map fun b => ⟨b, s.copies ++ s.buffer.copies c⟩

def Apart (s : CopyLog) (c : BufferCall) : Prop := s.buffer.Apart c

instance (s : CopyLog) (c : BufferCall) : Decidable (s.Apart c) :=
  inferInstanceAs (Decidable (s.buffer.Apart c))

theorem step_eq_some (h : s.step c = some s') :
    s.buffer.call c = some s'.buffer ∧ s'.copies = s.copies ++ s.buffer.copies c := by
  obtain ⟨b, hcall, rfl⟩ := Option.map_eq_some_iff.mp h
  exact ⟨hcall, rfl⟩

theorem run_forall_iff {P : Copy → Prop} (hlegal : ∀ x : Copy, x.Legal ∧ ¬ x.Clobbers → P x)
    (hclash : ∀ x : Copy, ¬ x.Legal ∧ x.Clobbers → ¬ P x) {initialSize : Nat}
    {calls : List BufferCall} (hrun : Machine.run step (initial initialSize) calls = some s) :
    (∀ x ∈ s.copies, P x) ↔ Machine.Along step Apart (initial initialSize) calls := by
  refine Machine.run_iff_along (P := fun s => ∀ x ∈ s.copies, P x) ?_ hrun ?_
  · intro s c s' h
    obtain ⟨-, hcopies⟩ := step_eq_some h
    rw [hcopies, List.forall_mem_append, Buffer.copies_forall_iff hlegal hclash]
    rfl
  · intro x hx
    cases hx

theorem run_inOrder {initialSize : Nat} {calls : List BufferCall}
    (hrun : Machine.run step (initial initialSize) calls = some s) :
    ∀ x ∈ s.copies, x.Legal → x.InOrder := by
  refine (Machine.run_invariant
    (P := fun s => s.buffer.Valid ∧ ∀ x ∈ s.copies, x.Legal → x.InOrder) ?_ hrun
    ⟨Buffer.ofSize_valid initialSize, ?_⟩).2
  · rintro s c s' ⟨hb, hall⟩ h
    obtain ⟨hcall, hcopies⟩ := step_eq_some h
    refine ⟨Buffer.call_valid hb hcall, ?_⟩
    rw [hcopies, List.forall_mem_append]
    exact ⟨hall, fun x hx => Buffer.copies_inOrder hb hx⟩
  · intro x hx
    cases hx

/-- **When the copies of a buffer meet the requirement of `std::copy`.**  In every run, all of
them do, and none overwrites a byte that it has yet to read, exactly if every `prepend` finds
room in front of the readable bytes or moves them behind all of them.  A copy that meets the
requirement does, in order, what a move does. -/
theorem copies_legal_iff {initialSize : Nat} {calls : List BufferCall} {s : CopyLog}
    (hrun : Machine.run step (initial initialSize) calls = some s) :
    ((∀ x ∈ s.copies, x.Legal) ↔ Machine.Along step Apart (initial initialSize) calls) ∧
    ((∀ x ∈ s.copies, ¬ x.Clobbers) ↔ Machine.Along step Apart (initial initialSize) calls) ∧
    ∀ x ∈ s.copies, x.Legal → x.InOrder := by
  refine ⟨run_forall_iff ?_ ?_ hrun, run_forall_iff ?_ ?_ hrun, run_inOrder hrun⟩
  · intro x hx
    exact hx.1
  · intro x hx
    exact hx.1
  · intro x hx
    exact hx.2
  · intro x hx hnot
    exact hnot hx.2

/-- Both kinds of `prepend`, and a `makeSpace` that moves the readable bytes to the front. -/
def twoPrepends : List BufferCall :=
  [.op (.append [1, 2, 3]), .op (.prepend [4]), .op (.prepend [5, 6, 7, 8, 9, 10, 11, 12]),
    .op (.retrieve 11), .op (.append [13, 14, 15, 16, 17, 18, 19, 20, 21])]

theorem twoPrepends_legal :
    ∃ s, Machine.run step (initial 16) twoPrepends = some s ∧ s.copies.length = 6 ∧
      ∀ x ∈ s.copies, x.Legal := by
  obtain ⟨s, hrun, hlength⟩ : ∃ s, Machine.run step (initial 16) twoPrepends = some s ∧
      s.copies.length = 6 := ⟨_, rfl, rfl⟩
  exact ⟨s, hrun, hlength, (copies_legal_iff hrun).1.mpr (by decide)⟩

/-- Eight bytes are put in front of nine that begin at `kCheapPrepend`: these are copied by eight
cells, the first of them onto the last.  Copied in order, the last of them is lost. -/
theorem prepend_overwrites_source :
    ∃ s m, Machine.run step (initial 24) [.op (.append [1, 2, 3, 4, 5, 6, 7, 8, 9]),
        .op (.prepend [11, 12, 13, 14, 15, 16, 17, 18])] = some s ∧
      s.copies[1]? = some (.within m 8 17 16) ∧
      ¬ (Copy.within m 8 17 16).Legal ∧ (Copy.within m 8 17 16).Clobbers ∧
      (move? m 8 17 16).map (slice · 16 25) = some [1, 2, 3, 4, 5, 6, 7, 8, 9] ∧
      (copy? m 8 16 9).map (slice · 16 25) = some [1, 2, 3, 4, 5, 6, 7, 8, 1] := by
  refine ⟨_, _, rfl, rfl, ?_, ?_, rfl, rfl⟩
  · rw [Copy.Legal]
    decide
  · rw [Copy.clobbers_within_iff]
    decide

end CopyLog
end ReMuduo
