import JudgeServer.Network.ConnectionSlot

/-!
# The two entries of `readFd`

`Buffer::readFd` with its `iovec` array, one assignment after the other. The last of the
assignments is made to `vec[2]`, one past the end, and the length of `vec[1]` stays what the
stack happened to hold. `Buffer.readFd` is what is left when that length does no harm.
-/

namespace JudgeServer.Network

def extrabufSize : Nat := 65536

inductive IovecBase where
  | writableTail | extrabuf
  deriving DecidableEq, Repr

/-- A field that has not been assigned is `none`. -/
structure Iovec where
  base : Option IovecBase := none
  len : Option Nat := none
  deriving DecidableEq, Repr

/-- `struct iovec vec[2]`, and the indices assigned to past its end. -/
structure IovecArray where
  entry : Fin 2 → Iovec := fun _ => {}
  pastEnd : List Nat := []

namespace IovecArray

def assign (vec : IovecArray) (i : Nat) (change : Iovec → Iovec) : IovecArray :=
  if h : i < 2 then
    { vec with entry := Function.update vec.entry ⟨i, h⟩ (change (vec.entry ⟨i, h⟩)) }
  else { vec with pastEnd := vec.pastEnd ++ [i] }

def setBase (vec : IovecArray) (i : Nat) (base : IovecBase) : IovecArray :=
  vec.assign i fun e => { e with base := some base }

def setLen (vec : IovecArray) (i : Nat) (len : Nat) : IovecArray :=
  vec.assign i fun e => { e with len := some len }

end IovecArray

/-- `readv` fills the entries in order, each up to its length. -/
def readv : List Nat → Bytes → List Bytes
  | [], _ => []
  | len :: lens, stream => stream.take len :: readv lens (stream.drop len)

structure ReadFdResult where
  n : Int
  buffer : Buffer
  saveErrno : Option Errno := none

namespace Buffer

/-- The array as `readFd` leaves it to `readv`. -/
def iovecs (b : Buffer) : IovecArray :=
  ({} : IovecArray)
    |>.setBase 0 .writableTail
    |>.setLen 0 b.writableBytes
    |>.setBase 1 .extrabuf
    |>.setLen 2 extrabufSize

def iovcnt (b : Buffer) : Nat := if b.writableBytes < extrabufSize then 2 else 1

/-- The lengths `readv` finds, where `stale` is what the stack holds in a field that has not
been assigned. -/
def iovLens (b : Buffer) (stale : Nat) : List Nat :=
  ((List.finRange 2).take b.iovcnt).map fun i => (b.iovecs.entry i).len.getD stale

theorem take_writable_le (b : Buffer) (piece : Bytes) :
    (piece.take b.writableBytes).length ≤ b.writableBytes := List.length_take_le _ _

/-- The writer index moves over a piece that `readv` has put into the writable tail. -/
def overTail (b : Buffer) (piece : Bytes) : Buffer :=
  b.write (piece.take b.writableBytes) (take_writable_le b piece)

/-- `readFd` on a socket that holds `stream`, or fails. There is no result if `readv` writes
past the end of `extrabuf`. -/
def readFdVec (b : Buffer) (stale : Nat) : ReadOutcome → Option ReadFdResult
  | .failed errno => some { n := -1, buffer := b, saveErrno := some errno }
  | .bytes stream =>
      let pieces := readv (b.iovLens stale) stream
      let n := pieces.flatten.length
      let tail := pieces.headD []
      let extrabuf := pieces.tail.flatten
      if extrabufSize < extrabuf.length then none
      else if n ≤ b.writableBytes then
        some { n := n, buffer := b.overTail tail }
      else
        some { n := n, buffer := (b.overTail tail).append (extrabuf.take (n - b.writableBytes)) }

/-- What a call is to do with the data waiting in the socket. -/
structure ReadsStream (b : Buffer) (stream : Bytes) (r : ReadFdResult) : Prop where
  count : r.n = min stream.length
    (if b.iovcnt = 2 then b.writableBytes + extrabufSize else b.writableBytes)
  appended : r.buffer.readable = b.readable ++ stream.take r.n.toNat
  copied : r.n - b.writableBytes ≤ extrabufSize
  endOfStream : r.n = 0 → stream = []

/-- The whole of it: two entries with a base and a length each, and no other. -/
structure ReadsFaithfully (b : Buffer) (stale : Nat) (stream : Bytes) : Prop where
  inArray : b.iovecs.pastEnd = []
  first : b.iovecs.entry 0 = ⟨some .writableTail, some b.writableBytes⟩
  second : b.iovecs.entry 1 = ⟨some .extrabuf, some extrabufSize⟩
  reads : ∃ r, b.readFdVec stale (.bytes stream) = some r ∧ ReadsStream b stream r

theorem iovecs_pastEnd (b : Buffer) : b.iovecs.pastEnd = [2] := rfl

/-- The length of the second entry, if it is used. -/
def extraLen (b : Buffer) (stale : Nat) : Nat := if b.writableBytes < extrabufSize then stale else 0

theorem iovcnt_eq_two {b : Buffer} : b.iovcnt = 2 ↔ b.writableBytes < extrabufSize := by
  unfold iovcnt
  split <;> simp [*]

theorem readv_iovLens (b : Buffer) (stale : Nat) (stream : Bytes) :
    (readv (b.iovLens stale) stream).headD [] = stream.take b.writableBytes ∧
    (readv (b.iovLens stale) stream).tail.flatten =
      (stream.drop b.writableBytes).take (b.extraLen stale) := by
  unfold iovLens iovcnt extraLen
  split
  · show stream.take b.writableBytes = _ ∧
      (stream.drop b.writableBytes).take stale ++ [] = _
    exact ⟨rfl, List.append_nil _⟩
  · exact ⟨rfl, rfl⟩

theorem readv_flatten (b : Buffer) (stale : Nat) (stream : Bytes) :
    (readv (b.iovLens stale) stream).flatten =
      stream.take (b.writableBytes + b.extraLen stale) := by
  obtain ⟨hhead, htail⟩ := readv_iovLens b stale stream
  rw [List.take_add, ← hhead, ← htail]
  cases readv (b.iovLens stale) stream <;> rfl

theorem append_nil (b : Buffer) : b.append [] = b := by
  have hcopy : copyTo b.buffer b.writerIndex [] = b.buffer := by
    unfold copyTo
    rw [List.append_nil]
    exact List.take_append_drop _ _
  have hensure : b.ensureWritableBytes ([] : Bytes).length = b := if_neg (Nat.not_lt_zero _)
  unfold append write
  simp only [hensure, hcopy]
  rfl

theorem readFd_of_fits (b : Buffer) {chunk : Bytes} (h : chunk.length ≤ b.writableBytes) :
    b.readFd chunk = b.overTail chunk := by
  unfold readFd
  rw [List.drop_of_length_le h, append_nil]
  rfl

/-- A call without an overrun appends what `readv` has delivered. -/
theorem readFdVec_bytes (b : Buffer) (stale : Nat) (stream : Bytes) :
    b.readFdVec stale (.bytes stream) =
      if extrabufSize < min (b.extraLen stale) (stream.length - b.writableBytes) then none
      else some {
        n := (stream.take (b.writableBytes + b.extraLen stale)).length
        buffer := b.readFd (stream.take (b.writableBytes + b.extraLen stale)) } := by
  obtain ⟨hhead, htail⟩ := readv_iovLens b stale stream
  have htake : (stream.take (b.writableBytes + b.extraLen stale)).take b.writableBytes =
      stream.take b.writableBytes := by
    rw [List.take_take, Nat.min_eq_left (Nat.le_add_right _ _)]
  have hdrop : (stream.take (b.writableBytes + b.extraLen stale)).drop b.writableBytes =
      (stream.drop b.writableBytes).take (b.extraLen stale) := by
    rw [List.drop_take, Nat.add_sub_cancel_left]
  have hover : b.overTail (stream.take b.writableBytes) =
      b.overTail (stream.take (b.writableBytes + b.extraLen stale)) := by
    unfold overTail
    simp only [htake, List.take_take, Nat.min_self]
  unfold readFdVec
  dsimp only
  rw [hhead, htail, readv_flatten, hover, ← hdrop, List.length_drop]
  have hlen : (stream.take (b.writableBytes + b.extraLen stale)).length - b.writableBytes =
      min (b.extraLen stale) (stream.length - b.writableBytes) := by
    rw [List.length_take]
    omega
  rw [hlen]
  split
  · rfl
  · rw [← hlen]
    generalize stream.take (b.writableBytes + b.extraLen stale) = chunk
    split
    · next hfits => rw [readFd_of_fits b hfits]
    · rw [← List.length_drop, List.take_length]
      rfl

/-- Whether the second length does harm: it is right, or not looked at, or long enough for
what is waiting. -/
def StaleHarmless (b : Buffer) (stale : Nat) (stream : Bytes) : Prop :=
  extrabufSize ≤ b.writableBytes ∨ stale = extrabufSize ∨
    stream.length ≤ b.writableBytes + min stale extrabufSize

/-- The count decides: the bytes and the end of the stream follow from it. -/
theorem readsStream_of_count (b : Buffer) (stream : Bytes) {k : Nat}
    (hcount : (stream.take k).length = min stream.length
      (if b.iovcnt = 2 then b.writableBytes + extrabufSize else b.writableBytes)) :
    ReadsStream b stream { n := (stream.take k).length, buffer := b.readFd (stream.take k) } := by
  have hused : b.iovcnt = 2 ↔ b.writableBytes < extrabufSize := iovcnt_eq_two
  have hpos : 0 < extrabufSize := by decide
  constructor
  · show ((stream.take k).length : Int) = _
    rw [hcount]
  · show (b.readFd (stream.take k)).readable = b.readable ++ stream.take (stream.take k).length
    rw [readable_readFd, List.length_take, List.append_cancel_left_eq, List.take_eq_take_iff]
    omega
  · show ((stream.take k).length : Int) - b.writableBytes ≤ extrabufSize
    split at hcount <;> omega
  · intro hzero
    rw [← List.length_eq_zero_iff]
    change ((stream.take k).length : Int) = 0 at hzero
    split at hcount <;> omega

theorem readsStream_iff (b : Buffer) (stale : Nat) (stream : Bytes) :
    (∃ r, b.readFdVec stale (.bytes stream) = some r ∧ ReadsStream b stream r) ↔
      StaleHarmless b stale stream := by
  rw [readFdVec_bytes]
  unfold StaleHarmless
  constructor
  · rintro ⟨r, hr, hreads⟩
    by_cases hover : extrabufSize < min (b.extraLen stale) (stream.length - b.writableBytes)
    · rw [if_pos hover] at hr
      cases hr
    · rw [if_neg hover, Option.some.injEq] at hr
      have hcount := hreads.count
      rw [← hr] at hcount
      simp only [List.length_take] at hcount
      by_cases hw : b.writableBytes < extrabufSize
      · have hextra : b.extraLen stale = stale := if_pos hw
        rw [if_pos (iovcnt_eq_two.mpr hw), hextra] at hcount
        rw [hextra] at hover
        omega
      · exact .inl (Nat.le_of_not_lt hw)
  · intro hharm
    -- no overrun, and then the count is the one asked for
    have hfits : ¬ extrabufSize < min (b.extraLen stale) (stream.length - b.writableBytes) := by
      unfold extraLen
      split <;> omega
    refine ⟨_, if_neg hfits, readsStream_of_count b stream ?_⟩
    rw [List.length_take]
    by_cases hw : b.writableBytes < extrabufSize
    · have hextra : b.extraLen stale = stale := if_pos hw
      rw [if_pos (iovcnt_eq_two.mpr hw), hextra]
      omega
    · have hextra : b.extraLen stale = 0 := if_neg hw
      rw [if_neg (mt iovcnt_eq_two.mp hw), hextra]
      omega

end Buffer

/-- On no buffer, with no value on the stack and with no data waiting does `readFd` keep to its
two entries. What it does with the data is right exactly when the length that was never
assigned does no harm. -/
theorem readFd_never_faithful (b : Buffer) (stale : Nat) (stream : Bytes) :
    ¬ b.ReadsFaithfully stale stream ∧
      ((∃ r, b.readFdVec stale (.bytes stream) = some r ∧ b.ReadsStream stream r) ↔
        b.StaleHarmless stale stream) := by
  refine ⟨?_, b.readsStream_iff stale stream⟩
  intro h
  have hpast := h.inArray
  rw [Buffer.iovecs_pastEnd] at hpast
  cases hpast

/-- A full buffer and a zero on the stack: `readv` gets no room, and its 0 reads as the end of
the stream while a byte is waiting. -/
theorem readFd_takes_byte_for_end :
    ¬ (Buffer.ofSize 0).ReadsFaithfully 0 [1] ∧
    (Buffer.ofSize 0).iovecs.pastEnd = [2] ∧ ((Buffer.ofSize 0).iovecs.entry 1).len = none ∧
    ((Buffer.ofSize 0).readFdVec 0 (.bytes [1])).map ReadFdResult.n = some 0 := by
  refine ⟨?_, rfl, rfl, rfl⟩
  intro h
  cases h.inArray

end JudgeServer.Network
