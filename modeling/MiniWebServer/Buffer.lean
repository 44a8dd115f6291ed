import MiniWebServer.Library.Delimited

/-!
# The byte buffer between a connection and its socket

`Buffer` keeps a byte vector with a read and a write cursor. The two cursor
bounds are fields, so every operation below proves that it keeps them. The
guards `errif(count > readable())` of the source are arguments: a call that
could leave the process through one of them cannot be written.

The second half gives the abstract view used by the rest of the development:
the readable bytes form a queue.
-/

namespace MiniWebServer

/-- The initial capacity (`BUFFER_SIZE`). -/
def bufferSize : ℕ := 1024

/-- Carriage return. -/
def cr : UInt8 := 13

/-- Line feed. -/
def lf : UInt8 := 10

/-- Overwrite the bytes of `target` from `position` on by those of `source`. -/
def memcpy (target : List UInt8) (position : ℕ) (source : List UInt8) : List UInt8 :=
  target.take position ++ source ++ target.drop (position + source.length)

theorem length_memcpy {target source : List UInt8} {position : ℕ}
    (room : position + source.length ≤ target.length) :
    (memcpy target position source).length = target.length := by
  simp [memcpy]
  omega

theorem take_memcpy {target source : List UInt8} {position : ℕ}
    (room : position + source.length ≤ target.length) :
    (memcpy target position source).take (position + source.length) =
      target.take position ++ source := by
  have front : (target.take position ++ source).length = position + source.length := by
    simp
    omega
  rw [memcpy, List.take_append_of_le_length (by omega), List.take_of_length_le (by omega)]

structure Buffer where
  buf : List UInt8
  readIdx : ℕ
  writeIdx : ℕ
  readIdx_le_writeIdx : readIdx ≤ writeIdx
  writeIdx_le_size : writeIdx ≤ buf.length
deriving DecidableEq

namespace Buffer

/-- The constructor `Buffer::Buffer`. -/
def init : Buffer where
  buf := List.replicate bufferSize 0
  readIdx := 0
  writeIdx := 0
  readIdx_le_writeIdx := le_rfl
  writeIdx_le_size := Nat.zero_le _

def readable (buffer : Buffer) : ℕ :=
  buffer.writeIdx - buffer.readIdx

def writable (buffer : Buffer) : ℕ :=
  buffer.buf.length - buffer.writeIdx

/-- The readable bytes, as `peek` shows them. -/
def peek (buffer : Buffer) : List UInt8 :=
  (buffer.buf.take buffer.writeIdx).drop buffer.readIdx

theorem length_peek (buffer : Buffer) : buffer.peek.length = buffer.readable := by
  have := buffer.writeIdx_le_size
  simp [peek, readable]
  omega

/-- Move the readable bytes to the front, over the bytes already read. -/
def compact (buffer : Buffer) : Buffer where
  buf := memcpy buffer.buf 0 buffer.peek
  readIdx := 0
  writeIdx := buffer.readable
  readIdx_le_writeIdx := Nat.zero_le _
  writeIdx_le_size := by
    have := buffer.length_peek
    have := buffer.writeIdx_le_size
    rw [length_memcpy] <;> simp only [readable] at * <;> omega

/-- `buf.resize(size)` for a size that keeps every written byte. -/
def resize (buffer : Buffer) (size : ℕ) (keeps : buffer.writeIdx ≤ size) : Buffer where
  buf := buffer.buf.take size ++ List.replicate (size - buffer.buf.length) 0
  readIdx := buffer.readIdx
  writeIdx := buffer.writeIdx
  readIdx_le_writeIdx := buffer.readIdx_le_writeIdx
  writeIdx_le_size := by
    have := buffer.writeIdx_le_size
    simp
    omega

theorem writable_compact (buffer : Buffer) :
    buffer.compact.writable = buffer.writable + buffer.readIdx := by
  have := buffer.readIdx_le_writeIdx
  have := buffer.writeIdx_le_size
  have lengthEq : buffer.compact.buf.length = buffer.buf.length := by
    apply length_memcpy
    have := buffer.length_peek
    simp only [readable] at this
    omega
  simp only [writable, lengthEq]
  simp only [compact, readable]
  omega

theorem le_writable_resize (buffer : Buffer) (count : ℕ)
    (keeps : buffer.writeIdx ≤ buffer.writeIdx + count) :
    count ≤ (buffer.resize (buffer.writeIdx + count) keeps).writable := by
  simp [writable, resize]
  omega

/-- `Buffer::dataIn`. -/
def dataIn (buffer : Buffer) (s : List UInt8) : Buffer :=
  if fits : s.length ≤ buffer.writable then
    { buf := memcpy buffer.buf buffer.writeIdx s
      readIdx := buffer.readIdx
      writeIdx := buffer.writeIdx + s.length
      readIdx_le_writeIdx := Nat.le_add_right_of_le buffer.readIdx_le_writeIdx
      writeIdx_le_size := by
        have := buffer.writeIdx_le_size
        rw [length_memcpy] <;> simp only [writable] at fits <;> omega }
  else if reuse : s.length ≤ buffer.writable + buffer.readIdx then
    buffer.compact.dataIn s
  else
    (buffer.resize (buffer.writeIdx + s.length) (Nat.le_add_right _ _)).dataIn s
termination_by s.length - buffer.writable
decreasing_by
  · rw [writable_compact]
    omega
  · have := buffer.le_writable_resize s.length (Nat.le_add_right _ _)
    omega

/-- `Buffer::sckToBuffer` for a `readv` that delivered `bytes`: first into the
free space, the overflow through the stack area. -/
def sckToBuffer (buffer : Buffer) (bytes : List UInt8) : Buffer :=
  if fits : bytes.length ≤ buffer.writable then
    { buf := memcpy buffer.buf buffer.writeIdx bytes
      readIdx := buffer.readIdx
      writeIdx := buffer.writeIdx + bytes.length
      readIdx_le_writeIdx := Nat.le_add_right_of_le buffer.readIdx_le_writeIdx
      writeIdx_le_size := by
        have := buffer.writeIdx_le_size
        rw [length_memcpy] <;> simp only [writable] at fits <;> omega }
  else
    dataIn
      { buf := memcpy buffer.buf buffer.writeIdx (bytes.take buffer.writable)
        readIdx := buffer.readIdx
        writeIdx := buffer.buf.length
        readIdx_le_writeIdx := buffer.readIdx_le_writeIdx.trans buffer.writeIdx_le_size
        writeIdx_le_size := by
          have := buffer.writeIdx_le_size
          rw [length_memcpy]
          simp [writable]
          omega }
      (bytes.drop buffer.writable)

/-- Move the read cursor over `n` readable bytes; an empty buffer starts over. -/
def advance (buffer : Buffer) (n : ℕ) (enough : n ≤ buffer.readable) : Buffer :=
  if buffer.readIdx + n = buffer.writeIdx then
    { buf := buffer.buf
      readIdx := 0
      writeIdx := 0
      readIdx_le_writeIdx := le_rfl
      writeIdx_le_size := Nat.zero_le _ }
  else
    { buf := buffer.buf
      readIdx := buffer.readIdx + n
      writeIdx := buffer.writeIdx
      readIdx_le_writeIdx := by
        have := buffer.readIdx_le_writeIdx
        simp only [readable] at enough
        omega
      writeIdx_le_size := buffer.writeIdx_le_size }

/-- `Buffer::bufferToSck` for a `write` of `count` bytes that returned `res`. -/
def bufferToSck (buffer : Buffer) (count : ℕ) (enough : count ≤ buffer.readable) (res : ℤ) :
    Buffer :=
  buffer.advance (min res.toNat count) ((min_le_right _ _).trans enough)

/-- The `count` bytes at `&buf[readIdx]`. -/
def front (buffer : Buffer) (count : ℕ) : List UInt8 :=
  (buffer.buf.drop buffer.readIdx).take count

/-- `Buffer::dataOut`: the bytes that it copies out, and the buffer without them. -/
def dataOut (buffer : Buffer) (count : ℕ) (enough : count ≤ buffer.readable) :
    List UInt8 × Buffer :=
  (buffer.front count, buffer.advance count enough)

/-- `Buffer::bufToBuf` between two distinct buffers: what becomes of both. -/
def bufToBuf (buffer peer : Buffer) (count : ℕ) (enough : count ≤ buffer.readable) :
    Buffer × Buffer :=
  if fits : count ≤ peer.writable then
    (buffer.advance count enough,
      { buf := memcpy peer.buf peer.writeIdx (buffer.front count)
        readIdx := peer.readIdx
        writeIdx := peer.writeIdx + count
        readIdx_le_writeIdx := Nat.le_add_right_of_le peer.readIdx_le_writeIdx
        writeIdx_le_size := by
          have := peer.writeIdx_le_size
          have shorter : (buffer.front count).length ≤ count := by simp [front]
          rw [length_memcpy] <;> simp only [writable] at fits <;> omega })
  else if reuse : count ≤ peer.writable + peer.readIdx then
    buffer.bufToBuf peer.compact count enough
  else
    buffer.bufToBuf (peer.resize (peer.writeIdx + count) (Nat.le_add_right _ _)) count enough
termination_by count - peer.writable
decreasing_by
  · rw [writable_compact]
    omega
  · have := peer.le_writable_resize count (Nat.le_add_right _ _)
    omega

/-- `Buffer::findCRLF`, `none` for `npos`. -/
def findCRLF (buffer : Buffer) : Option ℕ :=
  let n := buffer.readable
  if n < 2 then none
  else
    (List.range (n - 1)).find? fun i =>
      buffer.buf[buffer.readIdx + i]? = some cr ∧ buffer.buf[buffer.readIdx + i + 1]? = some lf

/-- `Buffer::retrieve`. -/
def retrieve (buffer : Buffer) (n : ℕ) (enough : n ≤ buffer.readable) : Buffer :=
  buffer.advance n enough

@[simp]
theorem peek_init : init.peek = [] := by
  simp [peek, init]

theorem peek_eq_nil_iff (buffer : Buffer) : buffer.peek = [] ↔ buffer.readable = 0 := by
  rw [← length_peek, List.length_eq_zero_iff]

@[simp]
theorem peek_compact (buffer : Buffer) : buffer.compact.peek = buffer.peek := by
  have room : 0 + buffer.peek.length ≤ buffer.buf.length := by
    have := buffer.length_peek
    have := buffer.writeIdx_le_size
    simp only [readable] at *
    omega
  have taken := take_memcpy room
  rw [List.take_zero, List.nil_append, Nat.zero_add, length_peek] at taken
  exact taken

@[simp]
theorem peek_resize (buffer : Buffer) (size : ℕ) (keeps : buffer.writeIdx ≤ size) :
    (buffer.resize size keeps).peek = buffer.peek := by
  have := buffer.writeIdx_le_size
  simp only [peek, resize]
  rw [List.take_append_of_le_length (by simp; omega), List.take_take, Nat.min_eq_left keeps]

/-- Bytes stored after the written ones come last in the queue. -/
theorem drop_take_memcpy (buffer : Buffer) {source : List UInt8}
    (fits : source.length ≤ buffer.writable) :
    ((memcpy buffer.buf buffer.writeIdx source).take
        (buffer.writeIdx + source.length)).drop buffer.readIdx =
      buffer.peek ++ source := by
  have := buffer.readIdx_le_writeIdx
  have := buffer.writeIdx_le_size
  rw [take_memcpy (by simp only [writable] at fits; omega)]
  rw [List.drop_append_of_le_length (by simp; omega), peek]

@[simp]
theorem peek_dataIn (buffer : Buffer) (s : List UInt8) :
    (buffer.dataIn s).peek = buffer.peek ++ s := by
  fun_induction dataIn buffer s with
  | case1 buffer fits => exact drop_take_memcpy _ fits
  | case2 buffer _ _ ih => rw [ih, peek_compact]
  | case3 buffer _ _ ih => rw [ih, peek_resize]

@[simp]
theorem peek_sckToBuffer (buffer : Buffer) (bytes : List UInt8) :
    (buffer.sckToBuffer bytes).peek = buffer.peek ++ bytes := by
  unfold sckToBuffer
  split
  · next fits => exact drop_take_memcpy _ fits
  · next spills =>
    have direct : (bytes.take buffer.writable).length = buffer.writable := by
      simp
      omega
    have filled : buffer.writeIdx + (bytes.take buffer.writable).length = buffer.buf.length := by
      have := buffer.writeIdx_le_size
      rw [direct, writable]
      omega
    have stored := drop_take_memcpy buffer direct.le
    rw [filled] at stored
    rw [peek_dataIn]
    simp only [peek] at stored ⊢
    rw [stored, List.append_assoc, List.take_append_drop]

@[simp]
theorem peek_advance (buffer : Buffer) (n : ℕ) (enough : n ≤ buffer.readable) :
    (buffer.advance n enough).peek = buffer.peek.drop n := by
  unfold advance
  split
  · next emptied =>
    have short : buffer.peek.length ≤ n := by
      rw [length_peek, readable]
      omega
    simp [peek] at short ⊢
    omega
  · simp [peek, List.drop_drop]

@[simp]
theorem peek_bufferToSck (buffer : Buffer) (count : ℕ) (enough : count ≤ buffer.readable)
    (res : ℤ) :
    (buffer.bufferToSck count enough res).peek = buffer.peek.drop (min res.toNat count) :=
  peek_advance _ _ _

@[simp]
theorem peek_retrieve (buffer : Buffer) (n : ℕ) (enough : n ≤ buffer.readable) :
    (buffer.retrieve n enough).peek = buffer.peek.drop n :=
  peek_advance _ _ _

theorem front_eq_take_peek {buffer : Buffer} {count : ℕ} (enough : count ≤ buffer.readable) :
    buffer.front count = buffer.peek.take count := by
  have within : min count (buffer.writeIdx - buffer.readIdx) = count := Nat.min_eq_left enough
  rw [front, peek, List.drop_take, List.take_take, within]

@[simp]
theorem peek_dataOut (buffer : Buffer) (count : ℕ) (enough : count ≤ buffer.readable) :
    (buffer.dataOut count enough).2.peek = buffer.peek.drop count :=
  peek_advance buffer count enough

/-- `bufToBuf` moves the first bytes of one queue to the end of the other. -/
theorem peek_bufToBuf (buffer peer : Buffer) (count : ℕ) (enough : count ≤ buffer.readable) :
    (buffer.bufToBuf peer count enough).1.peek = buffer.peek.drop count ∧
      (buffer.bufToBuf peer count enough).2.peek = peer.peek ++ buffer.peek.take count := by
  fun_induction bufToBuf buffer peer count enough with
  | case1 peer fits =>
      have moved := front_eq_take_peek enough
      have size : (buffer.front count).length = count := by
        rw [moved, List.length_take, length_peek, Nat.min_eq_left enough]
      have stored := drop_take_memcpy peer (size.le.trans fits)
      rw [size] at stored
      rw [← moved]
      exact ⟨peek_advance buffer count enough, stored⟩
  | case2 peer _ _ ih => rwa [peek_compact] at ih
  | case3 peer _ _ ih => rwa [peek_resize] at ih

theorem getElem?_peek {buffer : Buffer} {i : ℕ} (inside : i < buffer.readable) :
    buffer.peek[i]? = buffer.buf[buffer.readIdx + i]? := by
  rw [peek, List.getElem?_drop, List.getElem?_take_of_lt]
  simp only [readable] at inside
  omega

/-- `findCRLF` returns the length of the line that the first CRLF ends. -/
theorem findCRLF_eq_map_cut (buffer : Buffer) :
    buffer.findCRLF = (Delimited.cut cr lf buffer.peek).map fun pair => pair.1.length := by
  rw [← Delimited.find?_range_eq_map_cut, length_peek]
  unfold findCRLF
  simp only
  split
  · next short =>
    have : buffer.readable - 1 = 0 := by omega
    simp [this]
  · apply List.find?_congr
    intro i member
    rw [List.mem_range] at member
    rw [getElem?_peek (by omega), getElem?_peek (by omega), Nat.add_assoc]

theorem add_two_le_readable_of_findCRLF {buffer : Buffer} {crlf : ℕ}
    (found : buffer.findCRLF = some crlf) : crlf + 2 ≤ buffer.readable := by
  rw [findCRLF_eq_map_cut, Option.map_eq_some_iff] at found
  rcases found with ⟨⟨line, rest⟩, cutEq, rfl⟩
  have lengthEq := Delimited.length_of_cut_eq_some cutEq
  rw [length_peek] at lengthEq
  simp only
  omega

end Buffer

end MiniWebServer
