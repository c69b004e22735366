import ReMuduo.Machine
import ReMuduo.Memory

/-! # The buffer

`Buffer` (`include/Buffer.h`, `src/base/Buffer.cpp`): a vector of bytes with the
readable bytes between two indices.

```
+-------------------+------------------+------------------+
| prependable bytes |  readable bytes  |  writable bytes  |
+-------------------+------------------+------------------+
0      <=      readerIndex   <=   writerIndex    <=     size
```

Every access to the vector goes through `ReMuduo.Memory` and is checked, so an
operation answers `none` exactly where the source would touch a byte outside
`buffer_`.  `std::copy` between overlapping ranges is `memmove`.  Sizes are natural
numbers: the sums of the source are taken not to overflow `size_t`.

The purpose of the class is a plain byte sequence, `ByteSeq`: the second half of the
module shows that every run of operations on a buffer is a run of the corresponding
operations on the sequence of its readable bytes, and that no access of it is outside
the vector. -/
namespace ReMuduo
open Memory

/-- The value of `errno` after a failed system call. -/
abbrev Errno := Nat

/-- What a system call answers: its result, or -1 with the `errno` it set. -/
abbrev SysResult (α : Type) := Except Errno α

/-- The members of a `Buffer`. -/
structure Buffer where
  buffer : List UInt8
  readerIndex : Nat
  writerIndex : Nat
deriving DecidableEq

namespace Buffer

/-- `kCheapPrepend`. -/
def kCheapPrepend : Nat := 8

/-- `kInitialSize`. -/
def kInitialSize : Nat := 1024

/-- `Buffer(initialSize)`. -/
def ofSize (initialSize : Nat) : Buffer where
  buffer := List.replicate (kCheapPrepend + initialSize) 0
  readerIndex := kCheapPrepend
  writerIndex := kCheapPrepend

def readableBytes (b : Buffer) : Nat := b.writerIndex - b.readerIndex

def writableBytes (b : Buffer) : Nat := b.buffer.length - b.writerIndex

def prependableBytes (b : Buffer) : Nat := b.readerIndex

def retrieveAll (b : Buffer) : Buffer :=
  { b with readerIndex := kCheapPrepend, writerIndex := kCheapPrepend }

def retrieve (b : Buffer) (len : Nat) : Buffer :=
  if len < b.readableBytes then { b with readerIndex := b.readerIndex + len }
  else b.retrieveAll

/-- `retrieveUntil(end)`, where `stop` is the index of the byte `end` points to. -/
def retrieveUntil (b : Buffer) (stop : Nat) : Buffer := b.retrieve (stop - b.readerIndex)

/-- `retrieveAllAsString()`, with the string it returns. -/
def retrieveAllAsString (b : Buffer) : Option (Buffer × List UInt8) := do
  let result ← read? b.buffer b.readerIndex b.readableBytes
  return (b.retrieveAll, result)

def makeSpace (b : Buffer) (len : Nat) : Option Buffer :=
  if b.writableBytes + b.prependableBytes < len + kCheapPrepend then
    some { b with buffer := resize 0 b.buffer (b.writerIndex + len) }
  else do
    let buffer ← move? b.buffer b.readerIndex b.writerIndex kCheapPrepend
    return ⟨buffer, kCheapPrepend, kCheapPrepend + b.readableBytes⟩

def ensureWritableBytes (b : Buffer) (len : Nat) : Option Buffer :=
  if b.writableBytes < len then b.makeSpace len else some b

def append (b : Buffer) (data : List UInt8) : Option Buffer := do
  let b ← b.ensureWritableBytes data.length
  let buffer ← write? b.buffer b.writerIndex data
  return { b with buffer := buffer, writerIndex := b.writerIndex + data.length }

def prepend (b : Buffer) (data : List UInt8) : Option Buffer :=
  if data.length < b.prependableBytes then do
    let readerIndex := b.readerIndex - data.length
    let buffer ← write? b.buffer readerIndex data
    return { b with buffer := buffer, readerIndex := readerIndex }
  else do
    let readable := b.readableBytes
    let needed := kCheapPrepend + data.length + readable
    let buffer := if b.buffer.length < needed then resize 0 b.buffer needed else b.buffer
    let buffer ← move? buffer b.readerIndex b.writerIndex (kCheapPrepend + data.length)
    let buffer ← write? buffer kCheapPrepend data
    return ⟨buffer, kCheapPrepend, kCheapPrepend + data.length + readable⟩

def shrink (b : Buffer) (reserve : Nat) : Option Buffer := do
  let readable := b.readableBytes
  let buf := List.replicate (kCheapPrepend + readable + reserve) 0
  let data ← read? b.buffer b.readerIndex (b.writerIndex - b.readerIndex)
  let buf ← write? buf kCheapPrepend data
  return ⟨buf, kCheapPrepend, kCheapPrepend + readable⟩

/-- `sizeof extrabuf` in `readFd`. -/
def extrabufSize : Nat := 65536

/-- `readFd(fd, savedErrno)`, where `readv` answers with `received`: the bytes it delivered,
first into the writable part of the buffer and then into `extrabuf`. -/
def readFd (b : Buffer) (received : SysResult (List UInt8)) : Option (Buffer × SysResult Nat) :=
  let writable := b.writableBytes
  match received with
  | .error savedErrno => some (b, .error savedErrno)
  | .ok bytes => do
    let buffer ← write? b.buffer b.writerIndex (bytes.take writable)
    let b := { b with buffer := buffer }
    if bytes.length ≤ writable then
      return ({ b with writerIndex := b.writerIndex + bytes.length }, .ok bytes.length)
    else
      let b ← append { b with writerIndex := b.buffer.length } (bytes.drop writable)
      return (b, .ok bytes.length)

/-- `writeFd(fd, savedErrno)`, where `write` answers with `accepted`. -/
def writeFd (b : Buffer) (accepted : SysResult Nat) : Option (Buffer × SysResult Nat) := do
  let _ ← read? b.buffer b.readerIndex b.readableBytes
  match accepted with
  | .error savedErrno => return (b, .error savedErrno)
  | .ok n =>
    if n ≤ b.readableBytes then return ({ b with readerIndex := b.readerIndex + n }, .ok n)
    else return (b, .ok n)

/-! ## The readable bytes -/

/-- The readable bytes. -/
def contents (b : Buffer) : List UInt8 := slice b.buffer b.readerIndex b.writerIndex

/-- The invariant of the indices.  The vector never becomes smaller than the room kept
for `prepend`, which is where the indices go when the buffer is emptied. -/
structure Valid (b : Buffer) : Prop where
  reader_le : b.readerIndex ≤ b.writerIndex
  writer_le : b.writerIndex ≤ b.buffer.length
  cheap_le : kCheapPrepend ≤ b.buffer.length

variable {b b' : Buffer}

theorem length_contents (hb : b.Valid) : b.contents.length = b.readableBytes :=
  length_slice hb.writer_le

theorem ofSize_valid (n : Nat) : (ofSize n).Valid :=
  ⟨Nat.le_refl _, by simp [ofSize], by simp [ofSize]⟩

@[simp] theorem contents_ofSize (n : Nat) : (ofSize n).contents = [] := slice_self _ _

theorem retrieveAll_spec (hb : b.Valid) : b.retrieveAll.Valid ∧ b.retrieveAll.contents = [] :=
  ⟨⟨Nat.le_refl _, hb.cheap_le, hb.cheap_le⟩, slice_self _ _⟩

theorem retrieve_spec (hb : b.Valid) (len : Nat) :
    (b.retrieve len).Valid ∧ (b.retrieve len).contents = b.contents.drop len := by
  have hlen := length_contents hb
  have hr := hb.reader_le
  unfold retrieve
  split
  · rename_i hlt
    refine ⟨⟨?_, hb.writer_le, hb.cheap_le⟩, (slice_drop _ _ _ _).symm⟩
    rw [readableBytes] at hlt
    show b.readerIndex + len ≤ b.writerIndex
    omega
  · rw [List.drop_eq_nil_of_le (by omega)]
    exact retrieveAll_spec hb

theorem retrieveUntil_spec (hb : b.Valid) (n : Nat) :
    (b.retrieveUntil (b.readerIndex + n)).Valid ∧
      (b.retrieveUntil (b.readerIndex + n)).contents = b.contents.drop n := by
  rw [retrieveUntil, Nat.add_sub_cancel_left]
  exact retrieve_spec hb n

theorem read_contents (hb : b.Valid) :
    read? b.buffer b.readerIndex b.readableBytes = some b.contents := by
  have h1 := hb.reader_le
  have h2 := hb.writer_le
  rw [readableBytes, read?, Nat.add_sub_cancel' h1, if_pos h2, contents]

theorem read_take (hb : b.Valid) {n : Nat} (hn : n ≤ b.readableBytes) :
    read? b.buffer b.readerIndex n = some (b.contents.take n) := by
  have hr := hb.reader_le
  have hw := hb.writer_le
  rw [readableBytes] at hn
  rw [read?, if_pos (by omega), contents, slice_take _ (by omega)]

theorem retrieveAllAsString_spec (hb : b.Valid) :
    b.retrieveAllAsString = some (b.retrieveAll, b.contents) := by
  rw [retrieveAllAsString, read_contents hb]
  rfl

/-! ## Making room -/

/-- `makeSpace` grows the vector or moves the readable bytes to the front; both leave
them as they are, with enough room behind. -/
theorem makeSpace_spec (hb : b.Valid) {len : Nat} (hlen : b.writableBytes < len) :
    ∃ b', b.makeSpace len = some b' ∧ b'.Valid ∧ b'.contents = b.contents ∧
      len ≤ b'.writableBytes := by
  have hr := hb.reader_le
  have hw := hb.writer_le
  have hc := hb.cheap_le
  rw [writableBytes] at hlen
  unfold makeSpace
  split
  · have hsize := length_resize (0 : UInt8) b.buffer (b.writerIndex + len)
    refine ⟨_, rfl, ⟨hr, ?_, ?_⟩, slice_resize _ hw (Nat.le_add_right _ _), ?_⟩
    · show b.writerIndex ≤ (resize 0 b.buffer (b.writerIndex + len)).length
      omega
    · show kCheapPrepend ≤ (resize 0 b.buffer (b.writerIndex + len)).length
      omega
    · show len ≤ (resize 0 b.buffer (b.writerIndex + len)).length - b.writerIndex
      omega
  · rename_i hroom
    rw [writableBytes, prependableBytes] at hroom
    obtain ⟨m, hm, hsize, hslice⟩ := move?_spec hr hw
      (show kCheapPrepend + (b.writerIndex - b.readerIndex) ≤ b.buffer.length by omega)
    rw [hm]
    refine ⟨_, rfl, ⟨Nat.le_add_right _ _, ?_, hsize ▸ hc⟩, hslice, ?_⟩
    · show kCheapPrepend + (b.writerIndex - b.readerIndex) ≤ m.length
      omega
    · show len ≤ m.length - (kCheapPrepend + (b.writerIndex - b.readerIndex))
      omega

theorem ensureWritableBytes_spec (hb : b.Valid) (len : Nat) :
    ∃ b', b.ensureWritableBytes len = some b' ∧ b'.Valid ∧ b'.contents = b.contents ∧
      len ≤ b'.writableBytes := by
  unfold ensureWritableBytes
  split
  · rename_i hlt
    exact makeSpace_spec hb hlt
  · rename_i hge
    exact ⟨b, rfl, hb, rfl, Nat.le_of_not_lt hge⟩

/-- A write into the writable bytes extends the readable ones. -/
theorem write_writable (hb : b.Valid) {data : List UInt8} (hfit : data.length ≤ b.writableBytes) :
    ∃ m, write? b.buffer b.writerIndex data = some m ∧ m.length = b.buffer.length ∧
      slice m b.readerIndex (b.writerIndex + data.length) = b.contents ++ data := by
  have hr := hb.reader_le
  have hw := hb.writer_le
  rw [writableBytes] at hfit
  obtain ⟨m, hwrite⟩ := exists_write
    (show b.writerIndex + data.length ≤ b.buffer.length by omega)
  have hsize := length_write hwrite
  refine ⟨m, hwrite, hsize, ?_⟩
  rw [← slice_append_slice hr (Nat.le_add_right _ _) (by rw [hsize]; omega),
    slice_write_before hwrite (Nat.le_refl _), slice_write_self hwrite, contents]

theorem append_spec (hb : b.Valid) (data : List UInt8) :
    ∃ b', b.append data = some b' ∧ b'.Valid ∧ b'.contents = b.contents ++ data := by
  obtain ⟨b₁, hens, hb₁, hcontents, hroom⟩ := ensureWritableBytes_spec hb data.length
  obtain ⟨m, hwrite, hsize, hslice⟩ := write_writable hb₁ hroom
  refine ⟨_, by rw [append, hens]; simp only [Option.bind_eq_bind, Option.bind_some, hwrite]; rfl,
    ⟨?_, ?_, ?_⟩, by rw [← hcontents]; exact hslice⟩
  · exact Nat.le_trans hb₁.reader_le (Nat.le_add_right _ _)
  · show b₁.writerIndex + data.length ≤ m.length
    have := hb₁.writer_le
    rw [writableBytes] at hroom
    omega
  · exact hsize ▸ hb₁.cheap_le

/-- `prepend` uses the prependable bytes, or rebuilds the buffer with the new bytes in
front of the readable ones. -/
theorem prepend_spec (hb : b.Valid) (data : List UInt8) :
    ∃ b', b.prepend data = some b' ∧ b'.Valid ∧ b'.contents = data ++ b.contents := by
  have hr := hb.reader_le
  have hw := hb.writer_le
  unfold prepend
  split
  · rename_i hlt
    rw [prependableBytes] at hlt
    have hstop : b.readerIndex - data.length + data.length = b.readerIndex := by omega
    obtain ⟨m, hwrite⟩ := exists_write
      (show b.readerIndex - data.length + data.length ≤ b.buffer.length by omega)
    have hsize := length_write hwrite
    have hself := slice_write_self hwrite
    rw [hstop] at hself
    refine ⟨⟨m, b.readerIndex - data.length, b.writerIndex⟩, by simp only [hwrite]; rfl,
      ⟨Nat.le_trans (Nat.sub_le _ _) hr, hsize ▸ hw, hsize ▸ hb.cheap_le⟩, ?_⟩
    show slice m (b.readerIndex - data.length) b.writerIndex = _
    rw [← slice_append_slice (Nat.sub_le _ data.length) hr (hsize ▸ hw), hself,
      slice_write_after hwrite (Nat.le_of_eq hstop), contents]
  · -- the readable bytes leave room for `data` before it is written
    obtain ⟨m₁, hm₁, hw₁, hneeded, hslice₁⟩ : ∃ m₁,
        m₁ = (if b.buffer.length < kCheapPrepend + data.length + b.readableBytes then
          resize 0 b.buffer (kCheapPrepend + data.length + b.readableBytes) else b.buffer) ∧
        b.writerIndex ≤ m₁.length ∧ kCheapPrepend + data.length + b.readableBytes ≤ m₁.length ∧
        slice m₁ b.readerIndex b.writerIndex = b.contents := by
      refine ⟨_, rfl, ?_⟩
      split
      · rename_i hgrow
        rw [length_resize]
        exact ⟨by omega, Nat.le_refl _, slice_resize _ hw (by omega)⟩
      · rename_i hgrow
        exact ⟨hw, Nat.le_of_not_lt hgrow, rfl⟩
    rw [readableBytes] at hneeded
    obtain ⟨m₂, hm₂, hsize₂, hslice₂⟩ := move?_spec hr hw₁
      (show kCheapPrepend + data.length + (b.writerIndex - b.readerIndex) ≤ m₁.length by omega)
    obtain ⟨m₃, hm₃⟩ := exists_write
      (show kCheapPrepend + data.length ≤ m₂.length by omega)
    have hsize₃ := length_write hm₃
    refine ⟨⟨m₃, kCheapPrepend, kCheapPrepend + data.length + b.readableBytes⟩, ?_,
      ⟨?_, ?_, ?_⟩, ?_⟩
    · simp only [← hm₁, hm₂, hm₃, Option.bind_eq_bind, Option.bind_some]
      rfl
    · show kCheapPrepend ≤ kCheapPrepend + data.length + b.readableBytes
      omega
    · show kCheapPrepend + data.length + (b.writerIndex - b.readerIndex) ≤ m₃.length
      omega
    · show kCheapPrepend ≤ m₃.length
      omega
    · show slice m₃ kCheapPrepend
        (kCheapPrepend + data.length + (b.writerIndex - b.readerIndex)) = _
      rw [← slice_append_slice (Nat.le_add_right _ data.length) (Nat.le_add_right _ _)
          (by omega), slice_write_self hm₃, slice_write_after hm₃ (Nat.le_refl _), hslice₂,
        hslice₁]

theorem shrink_spec (hb : b.Valid) (reserve : Nat) :
    ∃ b', b.shrink reserve = some b' ∧ b'.Valid ∧ b'.contents = b.contents := by
  have hlen := length_contents hb
  have hread : read? b.buffer b.readerIndex (b.writerIndex - b.readerIndex) = some b.contents :=
    read_contents hb
  have hfit : kCheapPrepend + b.contents.length ≤
      (List.replicate (kCheapPrepend + b.readableBytes + reserve) (0 : UInt8)).length := by
    rw [List.length_replicate]
    omega
  obtain ⟨m, hwrite⟩ := exists_write hfit
  have hsize : m.length = kCheapPrepend + b.readableBytes + reserve := by
    rw [length_write hwrite, List.length_replicate]
  refine ⟨⟨m, kCheapPrepend, kCheapPrepend + b.readableBytes⟩, ?_, ⟨?_, ?_, ?_⟩, ?_⟩
  · simp only [shrink, hread, hwrite, Option.bind_eq_bind, Option.bind_some]
    rfl
  · exact Nat.le_add_right _ _
  · show kCheapPrepend + b.readableBytes ≤ m.length
    omega
  · show kCheapPrepend ≤ m.length
    omega
  · show slice m kCheapPrepend (kCheapPrepend + b.readableBytes) = _
    rw [← hlen]
    exact slice_write_self hwrite

/-! ## The system calls -/

/-- The buffer when `readFd` has filled the vector. -/
theorem Valid.filled {m : List UInt8} (hb : b.Valid) (hsize : m.length = b.buffer.length) :
    Valid ⟨m, b.readerIndex, m.length⟩ := by
  have hr := hb.reader_le
  have hw := hb.writer_le
  refine ⟨?_, Nat.le_refl _, hsize ▸ hb.cheap_le⟩
  show b.readerIndex ≤ m.length
  omega

/-- `readFd` appends what `readv` delivered, through `extrabuf` if it does not fit; a
failed call changes nothing. -/
theorem readFd_spec (hb : b.Valid) (received : SysResult (List UInt8)) :
    ∃ b', b.readFd received = some (b', received.map List.length) ∧ b'.Valid ∧
      b'.contents = b.contents ++ (match received with | .ok bytes => bytes | .error _ => []) := by
  cases received with
  | error e => exact ⟨b, rfl, hb, (List.append_nil _).symm⟩
  | ok bytes =>
    have hr := hb.reader_le
    have hw := hb.writer_le
    have hwritable : b.writableBytes = b.buffer.length - b.writerIndex := rfl
    have htake : (bytes.take b.writableBytes).length ≤ b.writableBytes := by
      rw [List.length_take]
      omega
    obtain ⟨m, hwrite, hsize, hslice⟩ := write_writable hb htake
    by_cases hle : bytes.length ≤ b.writableBytes
    · rw [List.take_of_length_le hle] at hwrite hslice
      refine ⟨⟨m, b.readerIndex, b.writerIndex + bytes.length⟩, ?_, ⟨?_, ?_, ?_⟩, hslice⟩
      · simp only [readFd, List.take_of_length_le hle, hwrite, Option.bind_eq_bind,
          Option.bind_some, hle, if_true]
        rfl
      · exact Nat.le_trans hr (Nat.le_add_right _ _)
      · show b.writerIndex + bytes.length ≤ m.length
        omega
      · exact hsize ▸ hb.cheap_le
    · have hfull : b.writerIndex + (bytes.take b.writableBytes).length = m.length := by
        rw [List.length_take]
        omega
      obtain ⟨b', happend, hb', hcontents⟩ :=
        append_spec (hb.filled hsize) (bytes.drop b.writableBytes)
      refine ⟨b', ?_, hb', ?_⟩
      · simp only [readFd, hwrite, Option.bind_eq_bind, Option.bind_some, hle, if_false, happend]
        rfl
      · rw [hcontents]
        show slice m b.readerIndex m.length ++ _ = _
        rw [← hfull, hslice, List.append_assoc, List.take_append_drop]

/-- `writeFd` drops what `write` accepted; a failed call changes nothing. -/
theorem writeFd_spec (hb : b.Valid) {accepted : SysResult Nat}
    (hle : ∀ n, accepted = .ok n → n ≤ b.readableBytes) :
    ∃ b', b.writeFd accepted = some (b', accepted) ∧ b'.Valid ∧
      b'.contents = b.contents.drop (match accepted with | .ok n => n | .error _ => 0) := by
  cases accepted with
  | error e =>
    refine ⟨b, ?_, hb, rfl⟩
    simp only [writeFd, read_contents hb]
    rfl
  | ok n =>
    have hn := hle n rfl
    refine ⟨{ b with readerIndex := b.readerIndex + n }, ?_, ⟨?_, hb.writer_le, hb.cheap_le⟩,
      (slice_drop _ _ _ _).symm⟩
    · simp only [writeFd, read_contents hb, Option.bind_eq_bind, Option.bind_some, hn, if_true]
      rfl
    · have hr := hb.reader_le
      rw [readableBytes] at hn
      show b.readerIndex + n ≤ b.writerIndex
      omega

end Buffer

/-! ## Buffers that carry their invariant -/

/-- A buffer whose indices are in order.  The operations on it cannot fail. -/
structure ByteBuffer where
  toBuffer : Buffer
  valid : toBuffer.Valid

namespace ByteBuffer

/-- The readable bytes. -/
def contents (b : ByteBuffer) : List UInt8 := b.toBuffer.contents

def readableBytes (b : ByteBuffer) : Nat := b.toBuffer.readableBytes

theorem length_contents (b : ByteBuffer) : b.contents.length = b.readableBytes :=
  Buffer.length_contents b.valid

/-- The result of an operation that is known to succeed. -/
def ofSpec (o : Option Buffer) {l : List UInt8}
    (h : ∃ b', o = some b' ∧ b'.Valid ∧ b'.contents = l) : ByteBuffer where
  toBuffer := o.get (Option.isSome_iff_exists.mpr (h.imp (fun _ hb => hb.1)))
  valid := by
    obtain ⟨b', rfl, hb', -⟩ := h
    exact hb'

theorem contents_ofSpec {o : Option Buffer} {l : List UInt8}
    (h : ∃ b', o = some b' ∧ b'.Valid ∧ b'.contents = l) : (ofSpec o h).contents = l := by
  obtain ⟨b', rfl, -, hl⟩ := h
  exact hl

def ofSize (initialSize : Nat) : ByteBuffer :=
  ⟨Buffer.ofSize initialSize, Buffer.ofSize_valid initialSize⟩

@[simp] theorem contents_ofSize (n : Nat) : (ofSize n).contents = [] := Buffer.contents_ofSize n

def append (b : ByteBuffer) (data : List UInt8) : ByteBuffer :=
  ofSpec (b.toBuffer.append data) (Buffer.append_spec b.valid data)

@[simp] theorem contents_append (b : ByteBuffer) (data : List UInt8) :
    (b.append data).contents = b.contents ++ data := contents_ofSpec _

def retrieve (b : ByteBuffer) (len : Nat) : ByteBuffer :=
  ⟨b.toBuffer.retrieve len, (Buffer.retrieve_spec b.valid len).1⟩

@[simp] theorem contents_retrieve (b : ByteBuffer) (len : Nat) :
    (b.retrieve len).contents = b.contents.drop len := (Buffer.retrieve_spec b.valid len).2

/-- `readFd` with the bytes `readv` delivered; a failed call leaves the buffer alone. -/
def readFd (b : ByteBuffer) (bytes : List UInt8) : ByteBuffer :=
  ofSpec ((b.toBuffer.readFd (.ok bytes)).map Prod.fst) (by
    obtain ⟨b', hread, hb', hcontents⟩ := Buffer.readFd_spec b.valid (.ok bytes)
    exact ⟨b', by rw [hread]; rfl, hb', hcontents⟩)

end ByteBuffer

/-! ## Runs of operations -/

/-- The operations on a buffer.  `retrieveUntil n` is called with `peek() + n`; the system
calls come with what the kernel answers. -/
inductive BufferOp
  | append (data : List UInt8)
  | prepend (data : List UInt8)
  | retrieve (len : Nat)
  | retrieveUntil (n : Nat)
  | retrieveAll
  | retrieveAllAsString
  | shrink (reserve : Nat)
  | readFd (received : SysResult (List UInt8))
  | writeFd (accepted : SysResult Nat)

/-- What a buffer is for: a sequence of bytes, filled at the end and read at the front. -/
def ByteSeq.apply (l : List UInt8) : BufferOp → List UInt8
  | .append data => l ++ data
  | .prepend data => data ++ l
  | .retrieve len => l.drop (min len l.length)
  | .retrieveUntil n => l.drop n
  | .retrieveAll => []
  | .retrieveAllAsString => []
  | .shrink _ => l
  | .readFd (.ok bytes) => l ++ bytes
  | .readFd (.error _) => l
  | .writeFd (.ok n) => l.drop n
  | .writeFd (.error _) => l

namespace Buffer

variable {b : Buffer}

def step (b : Buffer) : BufferOp → Option Buffer
  | .append data => b.append data
  | .prepend data => b.prepend data
  | .retrieve len => some (b.retrieve len)
  | .retrieveUntil n => some (b.retrieveUntil (b.readerIndex + n))
  | .retrieveAll => some b.retrieveAll
  | .retrieveAllAsString => b.retrieveAllAsString.map Prod.fst
  | .shrink reserve => b.shrink reserve
  | .readFd received => (b.readFd received).map Prod.fst
  | .writeFd accepted => (b.writeFd accepted).map Prod.fst

/-- What the callers and the kernel promise: `retrieveUntil` gets a pointer into the
readable bytes, and a system call transfers no more bytes than it was given room for. -/
def Allowed (b : Buffer) : BufferOp → Prop
  | .retrieveUntil n => n ≤ b.readableBytes
  | .readFd (.ok bytes) => bytes.length ≤ b.writableBytes + extrabufSize
  | .writeFd (.ok n) => n ≤ b.readableBytes
  | _ => True

instance (b : Buffer) : ∀ op, Decidable (b.Allowed op)
  | .retrieveUntil n => inferInstanceAs (Decidable (n ≤ b.readableBytes))
  | .readFd (.ok bytes) =>
    inferInstanceAs (Decidable (bytes.length ≤ b.writableBytes + extrabufSize))
  | .writeFd (.ok n) => inferInstanceAs (Decidable (n ≤ b.readableBytes))
  | .append _ | .prepend _ | .retrieve _ | .retrieveAll | .retrieveAllAsString | .shrink _
  | .readFd (.error _) | .writeFd (.error _) => isTrue trivial

/-- Every operation can be carried out within the vector and does to the readable bytes
what it is for. -/
theorem step_refines (op : BufferOp) (hb : b.Valid) (hop : b.Allowed op) :
    ∃ b', b.step op = some b' ∧ b'.Valid ∧ b'.contents = ByteSeq.apply b.contents op := by
  cases op with
  | append data => exact append_spec hb data
  | prepend data => exact prepend_spec hb data
  | retrieve len =>
    refine ⟨_, rfl, (retrieve_spec hb len).1, (retrieve_spec hb len).2.trans ?_⟩
    show b.contents.drop len = b.contents.drop (min len b.contents.length)
    rcases Nat.le_total len b.contents.length with h | h
    · rw [Nat.min_eq_left h]
    · rw [Nat.min_eq_right h, List.drop_length, List.drop_eq_nil_of_le h]
  | retrieveUntil n => exact ⟨_, rfl, retrieveUntil_spec hb n⟩
  | retrieveAll => exact ⟨_, rfl, retrieveAll_spec hb⟩
  | retrieveAllAsString =>
    exact ⟨_, by rw [step, retrieveAllAsString_spec hb]; rfl, retrieveAll_spec hb⟩
  | shrink reserve => exact shrink_spec hb reserve
  | readFd received =>
    obtain ⟨b', hread, hb', hcontents⟩ := readFd_spec hb received
    refine ⟨b', by rw [step, hread]; rfl, hb', hcontents.trans ?_⟩
    cases received with
    | error e => exact List.append_nil _
    | ok bytes => rfl
  | writeFd accepted =>
    have hle : ∀ n, accepted = .ok n → n ≤ b.readableBytes := by
      rintro n rfl
      exact hop
    obtain ⟨b', hwrite, hb', hcontents⟩ := writeFd_spec hb hle
    refine ⟨b', by rw [step, hwrite]; rfl, hb', hcontents.trans ?_⟩
    cases accepted with
    | error e => rfl
    | ok n => rfl

/-- **A buffer is a sequence of bytes.**  For every initial size, every sequence of
operations that keeps to what the callers and the kernel promise can be carried out
without touching a byte outside the vector; the indices stay in order, and the readable
bytes are what the operations make of the empty sequence.  They are also what
`retrieveAllAsString` returns. -/
theorem buffer_refines_byteSeq (initialSize : Nat) (ops : List BufferOp)
    (hops : Machine.Along step Allowed (ofSize initialSize) ops) :
    ∃ b, Machine.run step (ofSize initialSize) ops = some b ∧
      b.readerIndex ≤ b.writerIndex ∧ b.writerIndex ≤ b.buffer.length ∧
      b.contents = ops.foldl ByteSeq.apply [] ∧
      b.retrieveAllAsString = some (b.retrieveAll, b.contents) := by
  obtain ⟨b, hrun, hb, hcontents⟩ := Machine.run_refines_along
    (fun b op hb hop => step_refines op hb hop) hops (ofSize_valid initialSize)
  rw [contents_ofSize] at hcontents
  exact ⟨b, hrun, hb.reader_le, hb.writer_le, hcontents, retrieveAllAsString_spec hb⟩

/-- Both paths of `prepend`, a read that spills into `extrabuf` and a partial write. -/
def spillAndPrepend : List BufferOp :=
  [.append [1, 2], .prepend [0], .readFd (.ok [3, 4, 5]), .writeFd (.ok 2),
    .prepend [9, 9, 9, 9, 9, 9, 9, 9, 9, 9], .retrieve 9, .shrink 1]

theorem buffer_refines_byteSeq_spillAndPrepend :
    Machine.Along step Allowed (ofSize 3) spillAndPrepend ∧
      ∃ b, Machine.run step (ofSize 3) spillAndPrepend = some b ∧
        b.contents = [9, 2, 3, 4, 5] := by
  have hops : Machine.Along step Allowed (ofSize 3) spillAndPrepend := by decide
  obtain ⟨b, hrun, -, -, hcontents, -⟩ := buffer_refines_byteSeq 3 spillAndPrepend hops
  exact ⟨hops, b, hrun, hcontents⟩

end Buffer
end ReMuduo
