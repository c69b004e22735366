import ReMuduo.BufferCalls
import ReMuduo.Delimited

/-! # Lines taken from a buffer

A reader of lines appends each chunk of a stream to a `Buffer` as it arrives and then takes
complete lines: `findCRLF()` gives the end of the next one, and `retrieveUntil(crlf + 2)` drops
it with its `\r\n`, until `findCRLF()` gives `nullptr` (`include/Buffer.h`).

The chunks end anywhere, also between a `\r` and its `\n`.  The lines are compared with
`Delimited.Split` of the whole stream, which knows nothing of chunks. -/
namespace ReMuduo
open Memory Delimited

namespace Buffer

variable {b b' : Buffer}

/-- `kCRLF`. -/
def kCRLF : List UInt8 := [13, 10]

/-- `findCRLF(start)`, where `start` is the index of the byte the argument points to: the index
of the byte that the result points to, or `none` for `nullptr`. -/
def findCRLFFrom (b : Buffer) (start : Nat) : Option (Option Nat) := do
  let range ← read? b.buffer start (b.writerIndex - start)
  let crlf := start + search kCRLF range
  return if crlf = b.writerIndex then none else some crlf

/-- `findCRLF()`. -/
def findCRLF (b : Buffer) : Option (Option Nat) := b.findCRLFFrom b.readerIndex

/-- The loop of a reader: the lines it takes, with what it leaves in the buffer. -/
def takeLines : Nat → Buffer → Option (Buffer × List (List UInt8))
  | 0, _ => none
  | fuel + 1, b => do
    match ← b.findCRLF with
    | none => return (b, [])
    | some crlf =>
      let line ← read? b.buffer b.readerIndex (crlf - b.readerIndex)
      let rest ← takeLines fuel (b.retrieveUntil (crlf + 2))
      return (rest.1, line :: rest.2)

/-! ## Finding the end of a line -/

theorem kCRLF_ne_nil : kCRLF ≠ [] := List.cons_ne_nil _ _

theorem read_drop (hb : b.Valid) {n : Nat} (hn : n ≤ b.readableBytes) :
    read? b.buffer (b.readerIndex + n) (b.writerIndex - (b.readerIndex + n)) =
      some (b.contents.drop n) := by
  have hr := hb.reader_le
  have hw := hb.writer_le
  rw [readableBytes] at hn
  rw [read?, if_pos (by omega), contents, slice_drop, Nat.add_sub_cancel' (by omega)]

/-- `findCRLF(peek() + n)` searches the readable bytes from `n` on. -/
theorem findCRLFFrom_spec (hb : b.Valid) {n : Nat} (hn : n ≤ b.readableBytes) :
    b.findCRLFFrom (b.readerIndex + n) =
      some (if n + search kCRLF (b.contents.drop n) = b.contents.length then none
        else some (b.readerIndex + (n + search kCRLF (b.contents.drop n)))) := by
  have hr := hb.reader_le
  have hlength : b.contents.length = b.writerIndex - b.readerIndex := length_contents hb
  simp only [findCRLFFrom, read_drop hb hn, Option.bind_eq_bind, Option.bind_some, Nat.add_assoc]
  refine congrArg some (if_congr ?_ rfl rfl)
  omega

theorem findCRLF_spec (hb : b.Valid) :
    b.findCRLF = some (if search kCRLF b.contents = b.contents.length then none
      else some (b.readerIndex + search kCRLF b.contents)) := by
  have h := findCRLFFrom_spec hb (Nat.zero_le b.readableBytes)
  rwa [List.drop_zero, Nat.zero_add] at h

/-- A search that starts later, but not behind the beginning of a `\r\n`, finds the same. -/
theorem findCRLFFrom_eq (hb : b.Valid) {n : Nat} (hn : n ≤ b.readableBytes)
    (hnone : ∀ j < n, ¬ Occurs kCRLF b.contents j) :
    b.findCRLFFrom (b.readerIndex + n) = b.findCRLF := by
  have hsearch : n + search kCRLF (b.contents.drop n) = search kCRLF b.contents :=
    search_drop (by rwa [length_contents hb]) hnone
  rw [findCRLFFrom_spec hb hn, findCRLF_spec hb, hsearch]

/-! ## Taking lines -/

theorem takeLines_of_none {fuel : Nat} (h : b.findCRLF = some none) :
    takeLines (fuel + 1) b = some (b, []) := by
  simp only [takeLines, h, Option.bind_eq_bind, Option.bind_some]
  rfl

theorem takeLines_of_some {fuel crlf : Nat} {line : List UInt8} {lines : List (List UInt8)}
    (h : b.findCRLF = some (some crlf))
    (hline : read? b.buffer b.readerIndex (crlf - b.readerIndex) = some line)
    (hrest : takeLines fuel (b.retrieveUntil (crlf + 2)) = some (b', lines)) :
    takeLines (fuel + 1) b = some (b', line :: lines) := by
  simp only [takeLines, h, hline, hrest, Option.bind_eq_bind, Option.bind_some]
  rfl

/-- The loop ends, and what it takes and leaves are the readable bytes, cut at each `\r\n`. -/
theorem takeLines_spec {fuel : Nat} (hb : b.Valid) (hfuel : b.contents.length < fuel) :
    ∃ b' lines, takeLines fuel b = some (b', lines) ∧ b'.Valid ∧
      Split kCRLF b.contents lines b'.contents := by
  -- every round but the last removes a `\r\n`
  induction fuel generalizing b with
  | zero => exact absurd hfuel (Nat.not_lt_zero _)
  | succ fuel ih =>
    have hfind := findCRLF_spec hb
    by_cases hnone : search kCRLF b.contents = b.contents.length
    · rw [if_pos hnone] at hfind
      exact ⟨b, [], takeLines_of_none hfind, hb, Split.of_search_eq kCRLF_ne_nil hnone⟩
    · rw [if_neg hnone] at hfind
      have hle := search_le kCRLF b.contents
      have hfound : search kCRLF b.contents < b.contents.length := by omega
      have hend := (occurs_search hfound).add_length_le kCRLF_ne_nil
      have hline : read? b.buffer b.readerIndex
          (b.readerIndex + search kCRLF b.contents - b.readerIndex) =
          some (b.contents.take (search kCRLF b.contents)) := by
        rw [Nat.add_sub_cancel_left, read_take hb (by rwa [← length_contents hb])]
      obtain ⟨hb₁, hcontents⟩ := retrieveUntil_spec hb (search kCRLF b.contents + 2)
      rw [← Nat.add_assoc] at hb₁ hcontents
      obtain ⟨b', lines, hrest, hb', hsplit⟩ := ih hb₁ (by
        rw [hcontents, List.length_drop]
        omega)
      rw [hcontents] at hsplit
      exact ⟨b', _, takeLines_of_some hfind hline hrest, hb', Split.of_search hfound hsplit⟩

end Buffer

/-! ## A stream that arrives in chunks -/

/-- How a chunk gets into the buffer: by `append`, or by a `readFd` to which `readv` answers
with `received`. -/
inductive Delivery
  | append (data : List UInt8)
  | readFd (received : SysResult (List UInt8))

/-- The bytes of the chunk. -/
def Delivery.bytes : Delivery → List UInt8
  | .append data => data
  | .readFd (.ok bytes) => bytes
  | .readFd (.error _) => []

/-- A buffer with the lines that have been taken from it. -/
structure LineReader where
  buffer : Buffer
  lines : List (List UInt8)

namespace LineReader

variable {r r' : LineReader}

def initial (initialSize : Nat) : LineReader := ⟨Buffer.ofSize initialSize, []⟩

def deliver (b : Buffer) : Delivery → Option Buffer
  | .append data => b.append data
  | .readFd received => (b.readFd received).map Prod.fst

/-- A chunk arrives, and complete lines are taken. -/
def receive (r : LineReader) (chunk : Delivery) : Option LineReader := do
  let b ← deliver r.buffer chunk
  let taken ← Buffer.takeLines (b.readableBytes + 1) b
  return ⟨taken.1, r.lines ++ taken.2⟩

theorem deliver_spec {b : Buffer} (hb : b.Valid) (chunk : Delivery) :
    ∃ b', deliver b chunk = some b' ∧ b'.Valid ∧ b'.contents = b.contents ++ chunk.bytes := by
  cases chunk with
  | append data => exact Buffer.append_spec hb data
  | readFd received =>
    obtain ⟨b', hread, hb', hcontents⟩ := Buffer.readFd_spec hb received
    refine ⟨b', by rw [deliver, hread]; rfl, hb', ?_⟩
    cases received with
    | error e => exact hcontents
    | ok bytes => exact hcontents

/-- The lines so far, and the bytes in the buffer, are the stream so far cut at each `\r\n`. -/
structure Framed (r : LineReader) (stream : List UInt8) : Prop where
  valid : r.buffer.Valid
  split : Split Buffer.kCRLF stream r.lines r.buffer.contents

theorem framed_initial (initialSize : Nat) : (initial initialSize).Framed [] := by
  refine ⟨Buffer.ofSize_valid initialSize, ?_⟩
  rw [initial, Buffer.contents_ofSize]
  exact Split.of_search_eq Buffer.kCRLF_ne_nil rfl

theorem Framed.receive {stream : List UInt8} (hr : r.Framed stream) (chunk : Delivery) :
    ∃ r', r.receive chunk = some r' ∧ r'.Framed (stream ++ chunk.bytes) := by
  obtain ⟨b, hdeliver, hb, hcontents⟩ := deliver_spec hr.valid chunk
  have hfuel : b.contents.length < b.readableBytes + 1 := by
    rw [Buffer.length_contents hb]
    omega
  obtain ⟨b', lines, htake, hb', hsplit⟩ := Buffer.takeLines_spec hb hfuel
  refine ⟨⟨b', r.lines ++ lines⟩, ?_, hb', ?_⟩
  · simp only [LineReader.receive, hdeliver, htake, Option.bind_eq_bind, Option.bind_some]
    rfl
  · rw [hcontents] at hsplit
    exact hr.split.append hsplit

theorem Framed.run {stream : List UInt8} (hr : r.Framed stream) (chunks : List Delivery) :
    ∃ r', Machine.run LineReader.receive r chunks = some r' ∧
      r'.Framed (stream ++ chunks.flatMap Delivery.bytes) := by
  induction chunks generalizing r stream with
  | nil => exact ⟨r, rfl, by rwa [List.flatMap_nil, List.append_nil]⟩
  | cons chunk chunks ih =>
    obtain ⟨r₁, hreceive, hr₁⟩ := hr.receive chunk
    obtain ⟨r', hrun, hr'⟩ := ih hr₁
    refine ⟨r', Machine.run_cons_eq_some.mpr ⟨r₁, hreceive, hrun⟩, ?_⟩
    rwa [List.flatMap_cons, ← List.append_assoc]

/-- **Lines do not depend on chunks.**  Whatever the chunks and however they are delivered, the
lines taken and the bytes left are those of the whole stream, cut at successive leftmost
`\r\n`.  In every state of a buffer, a search that starts behind `peek()` finds the same as one
that starts there, unless a `\r\n` begins before it. -/
theorem line_framing :
    (∀ initialSize chunks, ∃ r,
      Machine.run receive (initial initialSize) chunks = some r ∧
      ∀ lines tail, Split Buffer.kCRLF (chunks.flatMap Delivery.bytes) lines tail ↔
        lines = r.lines ∧ tail = r.buffer.contents) ∧
    (∀ b : Buffer, b.Reachable → ∀ n ≤ b.readableBytes,
      (∀ j < n, ¬ Occurs Buffer.kCRLF b.contents j) →
        b.findCRLFFrom (b.readerIndex + n) = b.findCRLF) := by
  refine ⟨?_, ?_⟩
  · intro initialSize chunks
    obtain ⟨r, hrun, hr⟩ := (framed_initial initialSize).run chunks
    refine ⟨r, hrun, ?_⟩
    intro lines tail
    constructor
    · intro hsplit
      exact hsplit.unique hr.split
    · rintro ⟨rfl, rfl⟩
      exact hr.split
  · intro b hb n hn hnone
    exact Buffer.findCRLFFrom_eq hb.valid hn hnone

/-- A stream with lone `\r` and `\n`, cut between a `\r` and its `\n`. -/
def cutInsideCRLF : List Delivery :=
  [.append [97, 10, 98, 13], .readFd (.error 11), .readFd (.ok [10, 13, 13]), .append [10, 99]]

theorem cutInsideCRLF_lines :
    (∃ r, Machine.run receive (initial 2) cutInsideCRLF = some r ∧
      r.lines = [[97, 10, 98], [13]] ∧ r.buffer.contents = [99]) ∧
    ∃ b : Buffer, b.Reachable ∧ b.contents = [97, 13, 10] ∧
      b.findCRLFFrom (b.readerIndex + 1) = b.findCRLF := by
  have hb : ∃ b, Machine.run Buffer.call (Buffer.ofSize 3) [.op (.append [97, 13, 10])] = some b ∧
      b.contents = [97, 13, 10] := ⟨_, rfl, rfl⟩
  obtain ⟨b, hrun, hcontents⟩ := hb
  have hreachable : b.Reachable := ⟨3, _, hrun⟩
  have hreadable : 1 ≤ b.readableBytes := by
    rw [← Buffer.length_contents hreachable.valid, hcontents]
    decide
  exact ⟨⟨_, rfl, rfl, rfl⟩, b, hreachable, hcontents,
    line_framing.2 b hreachable 1 hreadable (by rw [hcontents]; decide)⟩

end LineReader
end ReMuduo
