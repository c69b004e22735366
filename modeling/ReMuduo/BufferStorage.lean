import ReMuduo.BufferCalls

/-! # The storage of a buffer

The vector of a `Buffer` (`include/Buffer.h`) never becomes shorter except by `shrink`.  It
grows in three places: `makeSpace` extends it from `writerIndex_` on without moving the
readable bytes to the front, `prepend` makes it as long as it needs, and `shrink` chooses a new
one.

The bytes in front of `readerIndex_` are lost to a growth by `makeSpace`, but there are few of
them: with more it would have moved the readable bytes instead.  So a call leaves a vector that
is no longer than before, or than what twice the bytes that are readable then take up. -/
namespace ReMuduo
open Memory

/-- What a call asks to be kept free behind the readable bytes: the argument of `shrink`. -/
def BufferCall.reserve : BufferCall → Nat
  | .op (.shrink reserve) => reserve
  | _ => 0

namespace Buffer

variable {b b' : Buffer}

/-! ## The size after one call -/

/-- `makeSpace` grows only if fewer than `len + kCheapPrepend` bytes stand in front of the
readable ones. -/
theorem makeSpace_size {len : Nat} (hb : b.Valid) (h : b.makeSpace len = some b') :
    b'.buffer.length ≤
      max b.buffer.length (kCheapPrepend + 2 * (b.readableBytes + len)) := by
  have hr := hb.reader_le
  unfold makeSpace at h
  split at h
  next hgrow =>
    rw [← Option.some.inj h]
    rw [writableBytes, prependableBytes] at hgrow
    rw [length_resize, readableBytes]
    omega
  next =>
    obtain ⟨m, hmove, hm⟩ := Option.bind_eq_some_iff.mp h
    rw [← Option.some.inj hm]
    show m.length ≤ _
    rw [length_move hmove]
    exact Nat.le_max_left _ _

theorem append_size {data : List UInt8} (hb : b.Valid) (h : b.append data = some b') :
    b'.buffer.length ≤
      max b.buffer.length (kCheapPrepend + 2 * (b.readableBytes + data.length)) := by
  obtain ⟨b₁, hensure, hrest⟩ := Option.bind_eq_some_iff.mp h
  obtain ⟨m, hwrite, hm⟩ := Option.bind_eq_some_iff.mp hrest
  have hsize : b'.buffer.length = b₁.buffer.length := by
    rw [← Option.some.inj hm]
    exact length_write hwrite
  rw [hsize]
  unfold ensureWritableBytes at hensure
  split at hensure
  next => exact makeSpace_size hb hensure
  next =>
    rw [← Option.some.inj hensure]
    exact Nat.le_max_left _ _

theorem prepend_size {data : List UInt8} (h : b.prepend data = some b') :
    b'.buffer.length ≤
      max b.buffer.length (kCheapPrepend + (b.readableBytes + data.length)) := by
  unfold prepend at h
  split at h
  next =>
    obtain ⟨m, hwrite, hm⟩ := Option.bind_eq_some_iff.mp h
    rw [← Option.some.inj hm]
    show m.length ≤ _
    rw [length_write hwrite]
    exact Nat.le_max_left _ _
  next =>
    obtain ⟨m₁, hmove, hrest⟩ := Option.bind_eq_some_iff.mp h
    obtain ⟨m, hwrite, hm⟩ := Option.bind_eq_some_iff.mp hrest
    rw [← Option.some.inj hm]
    show m.length ≤ _
    rw [length_write hwrite, length_move hmove]
    split
    next =>
      rw [length_resize]
      omega
    next => exact Nat.le_max_left _ _

theorem shrink_size {reserve : Nat} (h : b.shrink reserve = some b') :
    b'.buffer.length = kCheapPrepend + b.readableBytes + reserve := by
  obtain ⟨data, -, hrest⟩ := Option.bind_eq_some_iff.mp h
  obtain ⟨m, hwrite, hm⟩ := Option.bind_eq_some_iff.mp hrest
  rw [← Option.some.inj hm]
  show m.length = _
  rw [length_write hwrite, List.length_replicate]

/-- `readFd` fills the vector before it appends the rest. -/
theorem readFd_size {bytes : List UInt8} {result : SysResult Nat} (hb : b.Valid)
    (h : b.readFd (.ok bytes) = some (b', result)) :
    b'.buffer.length ≤
      max b.buffer.length (kCheapPrepend + 2 * (b.readableBytes + bytes.length)) := by
  have hr := hb.reader_le
  have hw := hb.writer_le
  obtain ⟨m, hwrite, hrest⟩ := Option.bind_eq_some_iff.mp h
  have hm := length_write hwrite
  split at hrest
  next =>
    obtain ⟨rfl, -⟩ := Prod.mk.inj (Option.some.inj hrest)
    show m.length ≤ _
    rw [hm]
    exact Nat.le_max_left _ _
  next hmore =>
    obtain ⟨b₁, happend, hresult⟩ := Option.bind_eq_some_iff.mp hrest
    obtain ⟨rfl, -⟩ := Prod.mk.inj (Option.some.inj hresult)
    have hsize := append_size (hb.filled hm) happend
    rw [List.length_drop] at hsize
    rw [writableBytes] at hsize hmore
    simp only [readableBytes, hm] at hsize ⊢
    omega

/-- Retrieving and writing move the indices only. -/
theorem buffer_retrieve (b : Buffer) (len : Nat) : (b.retrieve len).buffer = b.buffer := by
  unfold retrieve
  split
  · rfl
  · rfl

theorem buffer_writeFd {accepted result : SysResult Nat}
    (h : b.writeFd accepted = some (b', result)) : b'.buffer = b.buffer := by
  obtain ⟨-, -, hrest⟩ := Option.bind_eq_some_iff.mp h
  cases accepted with
  | error e =>
    obtain ⟨rfl, -⟩ := Prod.mk.inj (Option.some.inj hrest)
    rfl
  | ok n =>
    dsimp only at hrest
    split at hrest
    · obtain ⟨rfl, -⟩ := Prod.mk.inj (Option.some.inj hrest)
      rfl
    · obtain ⟨rfl, -⟩ := Prod.mk.inj (Option.some.inj hrest)
      rfl

/-- The number of readable bytes after an operation whose effect on them is known. -/
theorem readableBytes_of_spec {o : Option Buffer} {l : List UInt8}
    (hspec : ∃ b', o = some b' ∧ b'.Valid ∧ b'.contents = l) (h : o = some b') :
    b'.readableBytes = l.length := by
  obtain ⟨b₁, h₁, hb₁, hcontents⟩ := hspec
  rw [h] at h₁
  obtain rfl := Option.some.inj h₁
  rw [← length_contents hb₁, hcontents]

/-- A call leaves a vector that is no longer than before, or than what twice the bytes that are
readable then take up, or than `shrink` was asked for. -/
theorem call_size {c : BufferCall} (hb : b.Valid) (h : b.call c = some b') :
    b'.buffer.length ≤ max b.buffer.length (max (kCheapPrepend + 2 * b'.readableBytes)
      (kCheapPrepend + b'.readableBytes + c.reserve)) := by
  have hkeeps : b'.buffer = b.buffer → b'.buffer.length ≤ max b.buffer.length
      (max (kCheapPrepend + 2 * b'.readableBytes)
        (kCheapPrepend + b'.readableBytes + c.reserve)) := by
    intro heq
    rw [heq]
    exact Nat.le_max_left _ _
  have hlength := length_contents hb
  cases c with
  | retrieveAsString len =>
    obtain ⟨⟨b₁, s⟩, hstring, rfl⟩ := Option.map_eq_some_iff.mp h
    obtain ⟨-, rfl⟩ := retrieveAsString_eq_some hstring
    exact hkeeps (buffer_retrieve b len)
  | op op =>
    cases op with
    | append data =>
      have hsize := append_size hb h
      have hreadable := readableBytes_of_spec (append_spec hb data) h
      rw [List.length_append] at hreadable
      omega
    | prepend data =>
      have hsize := prepend_size h
      have hreadable := readableBytes_of_spec (prepend_spec hb data) h
      rw [List.length_append] at hreadable
      omega
    | retrieve len =>
      obtain rfl := Option.some.inj h
      exact hkeeps (buffer_retrieve b len)
    | retrieveUntil n =>
      obtain rfl := Option.some.inj h
      exact hkeeps (buffer_retrieve b _)
    | retrieveAll =>
      obtain rfl := Option.some.inj h
      exact hkeeps rfl
    | retrieveAllAsString =>
      rw [call, step, retrieveAllAsString_spec hb] at h
      obtain rfl := Option.some.inj h
      exact hkeeps rfl
    | shrink reserve =>
      have hsize := shrink_size h
      have hreadable := readableBytes_of_spec (shrink_spec hb reserve) h
      show _ ≤ max _ (max _ (kCheapPrepend + b'.readableBytes + reserve))
      omega
    | readFd received =>
      obtain ⟨⟨b₁, result⟩, hread, rfl⟩ := Option.map_eq_some_iff.mp h
      obtain ⟨b₂, hspec, hb₂, hcontents⟩ := readFd_spec hb received
      rw [hread] at hspec
      obtain ⟨rfl, rfl⟩ := Prod.mk.inj (Option.some.inj hspec)
      cases received with
      | error e =>
        obtain ⟨rfl, -⟩ := Prod.mk.inj (Option.some.inj hread)
        exact hkeeps rfl
      | ok bytes =>
        have hsize := readFd_size hb hread
        have hreadable := congrArg List.length hcontents
        rw [length_contents hb₂, List.length_append] at hreadable
        dsimp only at hreadable ⊢
        omega
    | writeFd accepted =>
      obtain ⟨⟨b₁, result⟩, hwrite, rfl⟩ := Option.map_eq_some_iff.mp h
      exact hkeeps (buffer_writeFd hwrite)

/-! ## The size along a run -/

/-- **Storage stays proportional to the backlog.**  If there are never more than `M` readable
bytes, and no `shrink` asks for more than `R`, the vector is never longer than it was made, or
than `2 * M` or `M + R` bytes behind the room kept for `prepend`, however many bytes pass
through. -/
theorem storage_proportional {s M R : Nat} {calls : List BufferCall} {b : Buffer}
    (hrun : Machine.run call (ofSize s) calls = some b)
    (hM : Machine.Throughout call (fun b => b.readableBytes ≤ M) (ofSize s) calls)
    (hR : ∀ r, BufferCall.op (.shrink r) ∈ calls → r ≤ R) :
    b.buffer.length ≤
      max (kCheapPrepend + s) (max (kCheapPrepend + 2 * M) (kCheapPrepend + M + R)) := by
  have hreserve : ∀ c ∈ calls, c.reserve ≤ R := by
    intro c hc
    unfold BufferCall.reserve
    split
    next r => exact hR r hc
    next => exact Nat.zero_le R
  -- the indices are in order and the vector is within the bound
  refine (Machine.run_invariant_throughout (Q := fun b => b.Valid ∧ b.buffer.length ≤
    max (kCheapPrepend + s) (max (kCheapPrepend + 2 * M) (kCheapPrepend + M + R)))
    ?_ hrun hM ⟨ofSize_valid s, ?_⟩).2
  · rintro c hc b b' ⟨hb, hsize⟩ hreadable h
    have hcall := call_size hb h
    have hc := hreserve c hc
    exact ⟨call_valid hb h, by omega⟩
  · rw [ofSize, List.length_replicate]
    exact Nat.le_max_left _ _

/-- Three bytes are appended and dropped, again and again. -/
def threeThrough : List BufferCall :=
  [.op (.append [1, 2, 3]), .op (.retrieve 2), .op (.append [4, 5]), .op (.writeFd (.ok 2)),
    .op (.prepend [6]), .retrieveAsString 1, .op (.readFd (.ok [7, 8])), .op (.shrink 1)]

theorem threeThrough_bounded :
    ∃ b, Machine.run call (ofSize 1) threeThrough = some b ∧ b.buffer.length ≤ 14 := by
  obtain ⟨b, hrun⟩ : ∃ b, Machine.run call (ofSize 1) threeThrough = some b := ⟨_, rfl⟩
  exact ⟨b, hrun, storage_proportional (M := 3) (R := 1) hrun (by decide)
    (by simp [threeThrough])⟩

end Buffer
end ReMuduo
