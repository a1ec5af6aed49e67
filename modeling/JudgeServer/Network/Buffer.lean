import JudgeServer.Common.SubmissionTypes

/-!
# The input buffer

`network/Buffer.h`: a vector with a reader and a writer index. The order of the indices
is a field, so a buffer that breaks it cannot be built. `readable` is the view in which
every operation is a queue operation.
-/

namespace JudgeServer.Network

def kCheapPrepend : Nat := 8
def kInitialSize : Nat := 1024

structure Buffer where
  buffer : Bytes
  readerIndex : Nat
  writerIndex : Nat
  prepend_le : kCheapPrepend ≤ readerIndex
  reader_le : readerIndex ≤ writerIndex
  writer_le : writerIndex ≤ buffer.length

namespace Buffer

/-- `std::copy` of `chunk` to position `start` of a vector. -/
def copyTo (buffer : Bytes) (start : Nat) (chunk : Bytes) : Bytes :=
  buffer.take start ++ chunk ++ buffer.drop (start + chunk.length)

/-- `std::vector::resize`. -/
def resize (buffer : Bytes) (size : Nat) : Bytes :=
  buffer.take size ++ List.replicate (size - buffer.length) 0

theorem copyTo_length {buffer chunk : Bytes} {start : Nat}
    (h : start + chunk.length ≤ buffer.length) :
    (copyTo buffer start chunk).length = buffer.length := by
  simp only [copyTo, List.length_append, List.length_take, List.length_drop]
  omega

theorem resize_length (buffer : Bytes) (size : Nat) : (resize buffer size).length = size := by
  simp only [resize, List.length_append, List.length_take, List.length_replicate]
  omega

/-- What lies before the copied range stays, and the range holds the chunk. -/
theorem copyTo_take {buffer : Bytes} {start : Nat} (chunk : Bytes) (h : start ≤ buffer.length) :
    (copyTo buffer start chunk).take (start + chunk.length) = buffer.take start ++ chunk := by
  unfold copyTo
  have hlen : (buffer.take start ++ chunk).length = start + chunk.length := by
    simp only [List.length_append, List.length_take]
    omega
  rw [← hlen, List.take_left]

theorem resize_take {buffer : Bytes} {size k : Nat} (hk : k ≤ size) (hb : k ≤ buffer.length) :
    (resize buffer size).take k = buffer.take k := by
  unfold resize
  rw [List.take_append_of_le_length (by rw [List.length_take]; omega), List.take_take,
    Nat.min_eq_left hk]

def ofSize (initialSize : Nat) : Buffer where
  buffer := List.replicate (kCheapPrepend + initialSize) 0
  readerIndex := kCheapPrepend
  writerIndex := kCheapPrepend
  prepend_le := Nat.le_refl _
  reader_le := Nat.le_refl _
  writer_le := by rw [List.length_replicate]; exact Nat.le_add_right _ _

instance : Inhabited Buffer := ⟨ofSize kInitialSize⟩

def readableBytes (b : Buffer) : Nat := b.writerIndex - b.readerIndex
def writableBytes (b : Buffer) : Nat := b.buffer.length - b.writerIndex
def prependableBytes (b : Buffer) : Nat := b.readerIndex

/-- The bytes from `peek()` to the writer index. -/
def readable (b : Buffer) : Bytes := (b.buffer.take b.writerIndex).drop b.readerIndex

def retrieveAll (b : Buffer) : Buffer where
  buffer := b.buffer
  readerIndex := kCheapPrepend
  writerIndex := kCheapPrepend
  prepend_le := Nat.le_refl _
  reader_le := Nat.le_refl _
  writer_le := Nat.le_trans b.prepend_le (Nat.le_trans b.reader_le b.writer_le)

def retrieve (b : Buffer) (len : Nat) : Buffer :=
  if h : len < b.readableBytes then
    { b with
      readerIndex := b.readerIndex + len
      prepend_le := Nat.le_trans b.prepend_le (Nat.le_add_right _ _)
      reader_le := by unfold readableBytes at h; omega }
  else b.retrieveAll

def retrieveAsString (b : Buffer) (len : Nat) : Bytes × Buffer :=
  (b.readable.take len, b.retrieve len)

theorem readable_length (b : Buffer) : b.readable.length = b.readableBytes := by
  have h := b.writer_le
  simp only [readable, readableBytes, List.length_drop, List.length_take]
  omega

def makeSpace (b : Buffer) (len : Nat) : Buffer :=
  if b.writableBytes + b.prependableBytes < len + kCheapPrepend then
    { b with
      buffer := resize b.buffer (b.writerIndex + len)
      writer_le := by rw [resize_length]; exact Nat.le_add_right _ _ }
  else
    { buffer := copyTo b.buffer kCheapPrepend b.readable
      readerIndex := kCheapPrepend
      writerIndex := kCheapPrepend + b.readableBytes
      prepend_le := Nat.le_refl _
      reader_le := Nat.le_add_right _ _
      writer_le := by
        have h1 := b.prepend_le
        have h2 := b.reader_le
        have h3 := b.writer_le
        have h4 := b.readable_length
        have h5 : b.readableBytes = b.writerIndex - b.readerIndex := rfl
        rw [copyTo_length] <;> omega }

def ensureWritableBytes (b : Buffer) (len : Nat) : Buffer :=
  if b.writableBytes < len then b.makeSpace len else b

theorem writableBytes_makeSpace (b : Buffer) (len : Nat) :
    len ≤ (b.makeSpace len).writableBytes := by
  have h1 := b.prepend_le
  have h2 := b.reader_le
  have h3 := b.writer_le
  have h4 := b.readable_length
  have h5 : b.readableBytes = b.writerIndex - b.readerIndex := rfl
  unfold makeSpace
  split
  · simp only [writableBytes, resize_length]
    omega
  · next h =>
    simp only [writableBytes, prependableBytes] at h ⊢
    rw [copyTo_length] <;> omega

theorem writableBytes_ensure (b : Buffer) (len : Nat) :
    len ≤ (b.ensureWritableBytes len).writableBytes := by
  unfold ensureWritableBytes
  split
  · exact writableBytes_makeSpace b len
  · next h => exact Nat.le_of_not_lt h

/-- `std::copy` to `beginWrite()` followed by the move of the writer index. -/
def write (b : Buffer) (chunk : Bytes) (h : chunk.length ≤ b.writableBytes) : Buffer where
  buffer := copyTo b.buffer b.writerIndex chunk
  readerIndex := b.readerIndex
  writerIndex := b.writerIndex + chunk.length
  prepend_le := b.prepend_le
  reader_le := Nat.le_trans b.reader_le (Nat.le_add_right _ _)
  writer_le := by
    have hw := b.writer_le
    unfold writableBytes at h
    rw [copyTo_length] <;> omega

def append (b : Buffer) (chunk : Bytes) : Buffer :=
  (b.ensureWritableBytes chunk.length).write chunk (writableBytes_ensure b chunk.length)

/-- `readFd` when `readv` has delivered `chunk`: what fits goes into the writable tail,
the rest through the stack buffer. -/
def readFd (b : Buffer) (chunk : Bytes) : Buffer :=
  (b.write (chunk.take b.writableBytes) (List.length_take_le _ _)).append
    (chunk.drop b.writableBytes)

theorem readable_retrieveAll (b : Buffer) : b.retrieveAll.readable = [] := by
  rw [← List.length_eq_zero_iff, readable_length]
  exact Nat.sub_self _

theorem readable_retrieve (b : Buffer) (len : Nat) :
    (b.retrieve len).readable = b.readable.drop len := by
  unfold retrieve
  split
  · show (b.buffer.take b.writerIndex).drop (b.readerIndex + len) = _
    rw [readable, List.drop_drop]
  · next h =>
    rw [readable_retrieveAll, List.drop_of_length_le]
    rw [readable_length]
    exact Nat.le_of_not_lt h

theorem readable_makeSpace (b : Buffer) (len : Nat) : (b.makeSpace len).readable = b.readable := by
  have h1 := b.prepend_le
  have h2 := b.reader_le
  have h3 := b.writer_le
  unfold makeSpace
  split
  · show ((resize b.buffer (b.writerIndex + len)).take b.writerIndex).drop b.readerIndex = _
    rw [resize_take (Nat.le_add_right _ _) h3, readable]
  · show ((copyTo b.buffer kCheapPrepend b.readable).take
      (kCheapPrepend + b.readableBytes)).drop kCheapPrepend = _
    have hlen : (b.buffer.take kCheapPrepend).length = kCheapPrepend := by
      rw [List.length_take]
      omega
    rw [← readable_length, copyTo_take _ (by omega), List.drop_append_of_le_length (by omega),
      List.drop_of_length_le (by omega), List.nil_append]

theorem readable_ensure (b : Buffer) (len : Nat) :
    (b.ensureWritableBytes len).readable = b.readable := by
  unfold ensureWritableBytes
  split
  · exact readable_makeSpace b len
  · rfl

theorem readable_write (b : Buffer) (chunk : Bytes) (h : chunk.length ≤ b.writableBytes) :
    (b.write chunk h).readable = b.readable ++ chunk := by
  have h2 := b.reader_le
  have h3 := b.writer_le
  show ((copyTo b.buffer b.writerIndex chunk).take (b.writerIndex + chunk.length)).drop
    b.readerIndex = _
  rw [copyTo_take chunk h3, List.drop_append_of_le_length (by rw [List.length_take]; omega),
    readable]

theorem readable_append (b : Buffer) (chunk : Bytes) :
    (b.append chunk).readable = b.readable ++ chunk := by
  unfold append
  rw [readable_write, readable_ensure]

/-- Reading appends exactly what was received. -/
theorem readable_readFd (b : Buffer) (chunk : Bytes) :
    (b.readFd chunk).readable = b.readable ++ chunk := by
  unfold readFd
  rw [readable_append, readable_write, List.append_assoc, List.take_append_drop]

end Buffer
end JudgeServer.Network
