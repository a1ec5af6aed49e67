import JudgeServer.Network.Buffer
import Mathlib.Tactic.ByContra
import Mathlib.Tactic.SplitIfs

/-!
# The buffer with machine indices

`network/Buffer.h` once more, with its indices of type `size_t`: every sum and difference
is taken modulo `2 ^ 64`. `Buffer` is the same class on natural numbers. The two agree as
long as no sum wraps; then every call does on the readable bytes what it would do on a
queue. A length so large that the sum with the writer index wraps is not noticed, and
leaves a buffer that is too small or whose writer index lies behind its end.
-/

namespace JudgeServer.Network

/-- `std::vector<char>::max_size()`, also the size of the largest object. -/
def maxSize : Nat := 2 ^ 63 - 1

/-- `std::length_error`. -/
inductive LengthError where
  | lengthError
  deriving DecidableEq, Repr

structure RawBuffer where
  buffer : Bytes
  readerIndex : UInt64
  writerIndex : UInt64
  deriving DecidableEq, Repr

inductive BufferCall where
  /-- The data is an object in memory. -/
  | append (data : Bytes) (object : data.length ≤ maxSize)
  | retrieve (len : UInt64)
  | retrieveAll
  | retrieveAsString (len : UInt64)
  | ensureWritableBytes (len : UInt64)

namespace RawBuffer

def cheapPrepend : UInt64 := UInt64.ofNat kCheapPrepend

def ofSize (initialSize : UInt64) : Except LengthError RawBuffer :=
  let size := cheapPrepend + initialSize
  if maxSize < size.toNat then .error .lengthError
  else .ok ⟨List.replicate size.toNat 0, cheapPrepend, cheapPrepend⟩

def size (b : RawBuffer) : UInt64 := UInt64.ofNat b.buffer.length

def readableBytes (b : RawBuffer) : UInt64 := b.writerIndex - b.readerIndex
def writableBytes (b : RawBuffer) : UInt64 := b.size - b.writerIndex
def prependableBytes (b : RawBuffer) : UInt64 := b.readerIndex

/-- The bytes from `peek()` to the writer index. -/
def readable (b : RawBuffer) : Bytes := (b.buffer.take b.writerIndex.toNat).drop b.readerIndex.toNat

def retrieveAll (b : RawBuffer) : RawBuffer :=
  { b with readerIndex := cheapPrepend, writerIndex := cheapPrepend }

def retrieve (b : RawBuffer) (len : UInt64) : RawBuffer :=
  if len < b.readableBytes then { b with readerIndex := b.readerIndex + len } else b.retrieveAll

/-- The string is made of the bytes at `peek()`, whatever they are. -/
def retrieveAsString (b : RawBuffer) (len : UInt64) : Bytes × RawBuffer :=
  ((b.buffer.drop b.readerIndex.toNat).take len.toNat, b.retrieve len)

def resize (b : RawBuffer) (size : UInt64) : Except LengthError RawBuffer :=
  if maxSize < size.toNat then .error .lengthError
  else .ok { b with buffer := Buffer.resize b.buffer size.toNat }

def makeSpace (b : RawBuffer) (len : UInt64) : Except LengthError RawBuffer :=
  if b.writableBytes + b.prependableBytes < len + cheapPrepend then b.resize (b.writerIndex + len)
  else
    .ok { buffer := Buffer.copyTo b.buffer kCheapPrepend b.readable
          readerIndex := cheapPrepend
          writerIndex := cheapPrepend + b.readableBytes }

def ensureWritableBytes (b : RawBuffer) (len : UInt64) : Except LengthError RawBuffer :=
  if b.writableBytes < len then b.makeSpace len else .ok b

def append (b : RawBuffer) (data : Bytes) : Except LengthError RawBuffer := do
  let b ← b.ensureWritableBytes (UInt64.ofNat data.length)
  .ok { b with
    buffer := Buffer.copyTo b.buffer b.writerIndex.toNat data
    writerIndex := b.writerIndex + UInt64.ofNat data.length }

/-- A call with the string it returns. -/
def perform (b : RawBuffer) : BufferCall → Except LengthError (Bytes × RawBuffer)
  | .append data _ => (b.append data).map fun b => ([], b)
  | .retrieve len => .ok ([], b.retrieve len)
  | .retrieveAll => .ok ([], b.retrieveAll)
  | .retrieveAsString len => .ok (b.retrieveAsString len)
  | .ensureWritableBytes len => (b.ensureWritableBytes len).map fun b => ([], b)

/-- A call that throws leaves the buffer as it was. -/
def step (b : RawBuffer) (call : BufferCall) : RawBuffer :=
  match b.perform call with
  | .ok (_, b) => b
  | .error _ => b

structure Ordered (b : RawBuffer) : Prop where
  prepend_le : kCheapPrepend ≤ b.readerIndex.toNat
  reader_le : b.readerIndex.toNat ≤ b.writerIndex.toNat
  writer_le : b.writerIndex.toNat ≤ b.buffer.length

/-- What a call that returns has to do. -/
def CallSpec (b : RawBuffer) (returned : Bytes) (b' : RawBuffer) : BufferCall → Prop
  | .append data _ => b'.readable = b.readable ++ data
  | .retrieve len => b'.readable = b.readable.drop (min len.toNat b.readable.length)
  | .retrieveAll => b'.readable = []
  | .retrieveAsString len => len.toNat ≤ b.readableBytes.toNat →
      returned.length = len.toNat ∧ returned = b.readable.take len.toNat ∧
        b'.readable = b.readable.drop len.toNat
  | .ensureWritableBytes len => len.toNat ≤ b'.writableBytes.toNat ∧ b'.readable = b.readable

/-- The room a call asks for. -/
def wanted : BufferCall → Nat
  | .append data _ => data.length
  | .ensureWritableBytes len => len.toNat
  | _ => 0

/-- A call does what it has to do and keeps the order of the indices, or throws because
the vector cannot become that large. -/
def Behaves (b : RawBuffer) (call : BufferCall) : Prop :=
  match b.perform call with
  | .ok (returned, b') => b.CallSpec returned b' call ∧ b'.Ordered
  | .error _ => maxSize < b.writerIndex.toNat + wanted call

/-- The indices are in order in every state of a run, and every call behaves. -/
def Fifo : RawBuffer → List BufferCall → Prop
  | b, [] => b.Ordered
  | b, call :: calls => b.Ordered ∧ b.Behaves call ∧ Fifo (b.step call) calls

/-- The length asked for does not wrap past the writer index. -/
def Sized (b : RawBuffer) : BufferCall → Prop
  | .ensureWritableBytes len => len.toNat + b.writerIndex.toNat < 2 ^ 64
  | _ => True

/-- Every call of a run is sized in the state it is made in. -/
def SizedRun : RawBuffer → List BufferCall → Prop
  | _, [] => True
  | b, call :: calls => b.Sized call ∧ SizedRun (b.step call) calls

end RawBuffer

namespace Buffer

open RawBuffer (cheapPrepend)

def raw (b : Buffer) : RawBuffer :=
  ⟨b.buffer, UInt64.ofNat b.readerIndex, UInt64.ofNat b.writerIndex⟩

theorem toNat_ofNat {n : Nat} (h : n < 2 ^ 64) : (UInt64.ofNat n).toNat = n :=
  UInt64.toNat_ofNat_of_lt' h

theorem toNat_cheapPrepend : cheapPrepend.toNat = 8 := rfl

section Raw

variable {b : Buffer} (h : b.buffer.length ≤ maxSize)

include h

theorem bounds : 8 ≤ b.readerIndex ∧ b.readerIndex ≤ b.writerIndex ∧
    b.writerIndex ≤ b.buffer.length ∧ b.buffer.length < 2 ^ 63 := by
  have hmax : maxSize < 2 ^ 63 := by decide
  exact ⟨b.prepend_le, b.reader_le, b.writer_le, by omega⟩

theorem raw_readerIndex : b.raw.readerIndex.toNat = b.readerIndex := by
  have hb := bounds h
  exact toNat_ofNat (by omega)

theorem raw_writerIndex : b.raw.writerIndex.toNat = b.writerIndex := by
  have hb := bounds h
  exact toNat_ofNat (by omega)

theorem raw_ordered : b.raw.Ordered where
  prepend_le := by rw [raw_readerIndex h]; exact b.prepend_le
  reader_le := by rw [raw_readerIndex h, raw_writerIndex h]; exact b.reader_le
  writer_le := by rw [raw_writerIndex h]; exact b.writer_le

theorem raw_readable : b.raw.readable = b.readable := by
  unfold RawBuffer.readable readable
  rw [raw_readerIndex h, raw_writerIndex h]
  rfl

theorem raw_readableBytes : b.raw.readableBytes.toNat = b.readableBytes := by
  have hb := bounds h
  unfold RawBuffer.readableBytes readableBytes
  rw [UInt64.toNat_sub, raw_readerIndex h, raw_writerIndex h]
  omega

theorem raw_size : b.raw.size.toNat = b.buffer.length := by
  have hb := bounds h
  show (UInt64.ofNat b.buffer.length).toNat = _
  exact toNat_ofNat (by omega)

theorem raw_writableBytes : b.raw.writableBytes.toNat = b.writableBytes := by
  have hb := bounds h
  unfold RawBuffer.writableBytes writableBytes
  rw [UInt64.toNat_sub, raw_size h, raw_writerIndex h]
  omega

theorem raw_retrieve (len : UInt64) : b.raw.retrieve len = (b.retrieve len.toNat).raw := by
  have hb := bounds h
  unfold RawBuffer.retrieve retrieve
  by_cases hlen : len.toNat < b.readableBytes
  · have hraw : len < b.raw.readableBytes := by
      rw [UInt64.lt_iff_toNat_lt, raw_readableBytes h]
      exact hlen
    rw [if_pos hraw, dif_pos hlen]
    simp [raw, UInt64.ofNat_add]
  · have hraw : ¬ len < b.raw.readableBytes := by
      rw [UInt64.lt_iff_toNat_lt, raw_readableBytes h]
      exact hlen
    rw [if_neg hraw, dif_neg hlen]
    rfl

theorem raw_string {len : UInt64} (hlen : len.toNat ≤ b.readableBytes) :
    (b.raw.retrieveAsString len).1 = b.readable.take len.toNat := by
  have hb := bounds h
  unfold RawBuffer.retrieveAsString readable
  unfold readableBytes at hlen
  rw [raw_readerIndex h, List.drop_take, List.take_take, Nat.min_eq_left (by omega)]
  rfl

/-- Either branch of `makeSpace`, as long as the length does not wrap. -/
theorem raw_makeSpace {len : UInt64} (hlen : len.toNat + b.writerIndex < 2 ^ 64) :
    b.raw.makeSpace len =
      if maxSize < (b.makeSpace len.toNat).buffer.length then .error .lengthError
      else .ok (b.makeSpace len.toNat).raw := by
  have hb := bounds h
  have hspace : (b.raw.writableBytes + b.raw.prependableBytes < len + cheapPrepend) ↔
      b.writableBytes + b.prependableBytes < len.toNat + kCheapPrepend := by
    have h1 := raw_writableBytes h
    have h2 : b.raw.prependableBytes.toNat = b.prependableBytes := raw_readerIndex h
    have h3 : b.writableBytes = b.buffer.length - b.writerIndex := rfl
    have h4 : b.prependableBytes = b.readerIndex := rfl
    have h5 : kCheapPrepend = 8 := rfl
    rw [UInt64.lt_iff_toNat_lt, UInt64.toNat_add, UInt64.toNat_add, h1, h2, toNat_cheapPrepend]
    omega
  unfold RawBuffer.makeSpace makeSpace
  by_cases hgrow : b.writableBytes + b.prependableBytes < len.toNat + kCheapPrepend
  · have hsum : (b.raw.writerIndex + len).toNat = b.writerIndex + len.toNat := by
      rw [UInt64.toNat_add, raw_writerIndex h]
      omega
    rw [if_pos (hspace.mpr hgrow), if_pos hgrow]
    unfold RawBuffer.resize
    rw [hsum, resize_length]
    rfl
  · have hcopy : ¬ maxSize < (copyTo b.buffer kCheapPrepend b.readable).length := by
      rw [copyTo_length]
      · omega
      · have h5 : kCheapPrepend = 8 := rfl
        rw [readable_length, readableBytes]
        omega
    rw [if_neg fun hr => hgrow (hspace.mp hr), if_neg hgrow, if_neg hcopy, raw_readable h]
    simp [raw, cheapPrepend, UInt64.ofNat_add, RawBuffer.readableBytes, readableBytes,
      UInt64.ofNat_sub hb.2.1]

theorem raw_ensure (len : UInt64) (hlen : len.toNat + b.writerIndex < 2 ^ 64) :
    b.raw.ensureWritableBytes len =
      if maxSize < (b.ensureWritableBytes len.toNat).buffer.length then .error .lengthError
      else .ok (b.ensureWritableBytes len.toNat).raw := by
  have hroom : (b.raw.writableBytes < len) ↔ b.writableBytes < len.toNat := by
    rw [UInt64.lt_iff_toNat_lt, raw_writableBytes h]
  unfold RawBuffer.ensureWritableBytes ensureWritableBytes
  by_cases hw : b.writableBytes < len.toNat
  · rw [if_pos (hroom.mpr hw), if_pos hw]
    exact raw_makeSpace h hlen
  · rw [if_neg fun hr => hw (hroom.mp hr), if_neg hw, if_neg (Nat.not_lt.mpr h)]

/-- The vector only grows to make room for what is wanted. -/
theorem length_ensure (len : Nat) (hlarge : maxSize < (b.ensureWritableBytes len).buffer.length) :
    maxSize < b.writerIndex + len := by
  have hb := bounds h
  unfold ensureWritableBytes at hlarge
  split at hlarge
  · unfold makeSpace at hlarge
    split at hlarge
    · rwa [resize_length] at hlarge
    · rw [copyTo_length] at hlarge
      · omega
      · have h5 : kCheapPrepend = 8 := rfl
        rw [readable_length, readableBytes]
        omega
  · omega

theorem raw_append {data : Bytes} (hdata : data.length ≤ maxSize) :
    b.raw.append data =
      if maxSize < (b.ensureWritableBytes data.length).buffer.length then .error .lengthError
      else .ok (b.append data).raw := by
  have hb := bounds h
  have hmax : maxSize < 2 ^ 63 := by decide
  have hnat : (UInt64.ofNat data.length).toNat = data.length := toNat_ofNat (by omega)
  have hensure := raw_ensure h (UInt64.ofNat data.length) (by rw [hnat]; omega)
  rw [hnat] at hensure
  unfold RawBuffer.append
  rw [hensure]
  by_cases hlarge : maxSize < (b.ensureWritableBytes data.length).buffer.length
  · rw [if_pos hlarge, if_pos hlarge]
    rfl
  · rw [if_neg hlarge, if_neg hlarge]
    have hw := raw_writerIndex (Nat.not_lt.mp hlarge)
    simp only [bind, Except.bind, hw]
    simp [append, write, raw, UInt64.ofNat_add]

/-- A sized call behaves, and leaves a buffer of the same kind. -/
theorem behaves_of_sized {call : BufferCall} (hs : b.raw.Sized call) :
    b.raw.Behaves call ∧
      ∃ b' : Buffer, b'.buffer.length ≤ maxSize ∧ b.raw.step call = b'.raw := by
  unfold RawBuffer.Behaves RawBuffer.step
  cases call with
  | append data hdata =>
    simp only [RawBuffer.perform, raw_append h hdata]
    split_ifs with hlarge
    · refine ⟨?_, b, h, rfl⟩
      rw [raw_writerIndex h]
      exact length_ensure h _ hlarge
    · have hfits : (b.append data).buffer.length ≤ maxSize := by
        unfold append write
        rw [copyTo_length]
        · exact Nat.not_lt.mp hlarge
        · have hroom := writableBytes_ensure b data.length
          have hw := (b.ensureWritableBytes data.length).writer_le
          unfold writableBytes at hroom
          omega
      refine ⟨⟨?_, raw_ordered hfits⟩, _, hfits, rfl⟩
      simp only [RawBuffer.CallSpec, raw_readable hfits, raw_readable h, readable_append]
  | retrieve len =>
    have hfits : (b.retrieve len.toNat).buffer.length ≤ maxSize := by
      unfold retrieve
      split <;> exact h
    simp only [RawBuffer.perform, raw_retrieve h]
    refine ⟨⟨?_, raw_ordered hfits⟩, _, hfits, rfl⟩
    simp only [RawBuffer.CallSpec, raw_readable hfits, raw_readable h, readable_retrieve]
    by_cases hlen : len.toNat ≤ b.readable.length
    · rw [Nat.min_eq_left hlen]
    · rw [Nat.min_eq_right (by omega), List.drop_length, List.drop_of_length_le (by omega)]
  | retrieveAll =>
    refine ⟨⟨?_, raw_ordered (b := b.retrieveAll) h⟩, b.retrieveAll, h, rfl⟩
    exact (raw_readable (b := b.retrieveAll) h).trans (readable_retrieveAll b)
  | retrieveAsString len =>
    have hfits : (b.retrieve len.toNat).buffer.length ≤ maxSize := by
      unfold retrieve
      split <;> exact h
    have hnext : (b.raw.retrieveAsString len).2 = (b.retrieve len.toNat).raw := raw_retrieve h len
    simp only [RawBuffer.perform, hnext]
    refine ⟨⟨?_, raw_ordered hfits⟩, _, hfits, rfl⟩
    intro hlen
    rw [raw_readableBytes h] at hlen
    rw [raw_string h hlen, raw_readable h, raw_readable hfits, readable_retrieve]
    refine ⟨?_, rfl, rfl⟩
    rw [List.length_take, readable_length]
    omega
  | ensureWritableBytes len =>
    have hlen : len.toNat + b.writerIndex < 2 ^ 64 := by
      rw [← raw_writerIndex h]
      exact hs
    simp only [RawBuffer.perform, raw_ensure h len hlen]
    split_ifs with hlarge
    · refine ⟨?_, b, h, rfl⟩
      rw [raw_writerIndex h]
      exact length_ensure h _ hlarge
    · have hfits := Nat.not_lt.mp hlarge
      refine ⟨⟨?_, raw_ordered hfits⟩, _, hfits, rfl⟩
      simp only [RawBuffer.CallSpec, raw_writableBytes hfits, raw_readable hfits, raw_readable h,
        readable_ensure, and_true]
      exact writableBytes_ensure b len.toNat

/-- A length that wraps is answered with a smaller vector or with no new room at all. -/
theorem sized_of_behaves {call : BufferCall} (hb : b.raw.Behaves call) : b.raw.Sized call := by
  cases call with
  | append data hdata => trivial
  | retrieve len => trivial
  | retrieveAll => trivial
  | retrieveAsString len => trivial
  | ensureWritableBytes len =>
    by_contra hwraps
    have hbounds := bounds h
    have hlen := len.toNat_lt
    have hmax : maxSize = 2 ^ 63 - 1 := rfl
    have hwriter := raw_writerIndex h
    have hreader := raw_readerIndex h
    have hreadable := raw_readableBytes h
    have hrdef : b.readableBytes = b.writerIndex - b.readerIndex := rfl
    have hwritable := raw_writableBytes h
    have hwdef : b.writableBytes = b.buffer.length - b.writerIndex := rfl
    simp only [RawBuffer.Sized, hwriter] at hwraps
    have hfull : b.raw.writableBytes < len := by
      rw [UInt64.lt_iff_toNat_lt, hwritable]
      omega
    have hspace : (b.raw.writableBytes + b.raw.prependableBytes).toNat =
        b.writableBytes + b.readerIndex := by
      rw [UInt64.toNat_add, hwritable, RawBuffer.prependableBytes, hreader]
      omega
    simp only [RawBuffer.Behaves, RawBuffer.perform, RawBuffer.ensureWritableBytes, if_pos hfull,
      RawBuffer.makeSpace] at hb
    by_cases hsum : len.toNat + 8 < 2 ^ 64
    · -- The vector is resized to less than the writer index.
      have hgrow : b.raw.writableBytes + b.raw.prependableBytes < len + cheapPrepend := by
        rw [UInt64.lt_iff_toNat_lt, hspace, UInt64.toNat_add, toNat_cheapPrepend]
        omega
      have hsize : (b.raw.writerIndex + len).toNat = b.writerIndex + len.toNat - 2 ^ 64 := by
        rw [UInt64.toNat_add, hwriter]
        omega
      rw [if_pos hgrow, RawBuffer.resize, hsize, if_neg (by omega)] at hb
      have hlast := hb.2.writer_le
      simp only [resize_length, hwriter] at hlast
      omega
    · -- The wrapped sum looks small, so the data is moved and nothing is gained.
      have hcompact : ¬ b.raw.writableBytes + b.raw.prependableBytes < len + cheapPrepend := by
        rw [UInt64.lt_iff_toNat_lt, hspace, UInt64.toNat_add, toNat_cheapPrepend]
        omega
      rw [if_neg hcompact, raw_readable h] at hb
      have hroom : len.toNat ≤ _ := hb.1.1
      have hcopied : (copyTo b.buffer kCheapPrepend b.readable).length = b.buffer.length := by
        have h5 : kCheapPrepend = 8 := rfl
        apply copyTo_length
        rw [readable_length]
        omega
      simp only [RawBuffer.writableBytes, RawBuffer.size, raw, hcopied, UInt64.toNat_sub,
        UInt64.toNat_add, toNat_cheapPrepend] at hroom
      change len.toNat ≤ (2 ^ 64 - (8 + b.raw.readableBytes.toNat) % 2 ^ 64 +
        b.raw.size.toNat) % 2 ^ 64 at hroom
      rw [hreadable, raw_size h] at hroom
      omega

end Raw

/-- From a buffer of natural numbers on, a run is that of a queue exactly when it is sized. -/
theorem fifo_iff {b : Buffer} (h : b.buffer.length ≤ maxSize) (calls : List BufferCall) :
    b.raw.Fifo calls ↔ b.raw.SizedRun calls := by
  induction calls generalizing b with
  | nil => exact iff_of_true (raw_ordered h) trivial
  | cons call calls ih =>
    constructor
    · rintro ⟨-, hbehaves, hrest⟩
      have hsized := sized_of_behaves h hbehaves
      obtain ⟨-, b', hfits, hstep⟩ := behaves_of_sized h hsized
      rw [hstep] at hrest
      refine ⟨hsized, ?_⟩
      rw [hstep]
      exact (ih hfits).mp hrest
    · rintro ⟨hsized, hrest⟩
      obtain ⟨hbehaves, b', hfits, hstep⟩ := behaves_of_sized h hsized
      rw [hstep] at hrest
      refine ⟨raw_ordered h, hbehaves, ?_⟩
      rw [hstep]
      exact (ih hfits).mpr hrest

theorem raw_ofSize {initialSize : UInt64} (h : initialSize.toNat + kCheapPrepend < 2 ^ 64) :
    RawBuffer.ofSize initialSize =
      if maxSize < (Buffer.ofSize initialSize.toNat).buffer.length then .error .lengthError
      else .ok (Buffer.ofSize initialSize.toNat).raw := by
  have hsize : (cheapPrepend + initialSize).toNat = kCheapPrepend + initialSize.toNat := by
    have h8 : kCheapPrepend = 8 := rfl
    rw [UInt64.toNat_add, toNat_cheapPrepend]
    omega
  unfold RawBuffer.ofSize Buffer.ofSize
  simp only [hsize, List.length_replicate]
  rfl

end Buffer

open RawBuffer in
/-- A buffer that was constructed is a queue of bytes through a run of calls exactly when
neither the initial size nor a length asked for wraps a sum of indices. -/
theorem buffer_is_fifo_iff (initialSize : UInt64) (b : RawBuffer)
    (h : RawBuffer.ofSize initialSize = .ok b) (calls : List BufferCall) :
    b.Fifo calls ↔ initialSize.toNat + kCheapPrepend < 2 ^ 64 ∧ b.SizedRun calls := by
  by_cases hfits : initialSize.toNat + kCheapPrepend < 2 ^ 64
  · rw [Buffer.raw_ofSize hfits] at h
    split_ifs at h with hlarge
    obtain rfl := Except.ok.inj h
    rw [Buffer.fifo_iff (Nat.not_lt.mp hlarge) calls]
    exact (and_iff_right hfits).symm
  · refine iff_of_false ?_ fun hr => hfits hr.1
    -- The vector has fewer bytes than the indices start at.
    have hordered : b.Fifo calls → b.Ordered := by
      cases calls with
      | nil => exact id
      | cons call calls => exact And.left
    intro hfifo
    have hlast := (hordered hfifo).writer_le
    have h8 : kCheapPrepend = 8 := rfl
    have hlt := initialSize.toNat_lt
    have hsize : (cheapPrepend + initialSize).toNat = initialSize.toNat + 8 - 2 ^ 64 := by
      rw [UInt64.toNat_add, Buffer.toNat_cheapPrepend]
      omega
    unfold RawBuffer.ofSize at h
    dsimp only at h
    split_ifs at h
    obtain rfl := Except.ok.inj h
    rw [List.length_replicate, hsize, Buffer.toNat_cheapPrepend] at hlast
    omega

/-- Five bytes in, three out, and room for two thousand more. -/
theorem buffer_is_fifo_small : ∃ b, RawBuffer.ofSize 4 = .ok b ∧
    b.Fifo [.append [1, 2, 3, 4, 5] (by decide), .retrieveAsString 3, .ensureWritableBytes 2000] := by
  refine ⟨_, rfl, (buffer_is_fifo_iff 4 _ rfl _).mpr ⟨by decide, trivial, trivial, ?_, trivial⟩⟩
  show (2000 : UInt64).toNat + _ < 2 ^ 64
  decide +kernel

/-- Room for `2 ^ 64 - 8` bytes is promised and not made. -/
theorem room_is_not_made : ∃ b b', RawBuffer.ofSize 16 = .ok b ∧
    b.ensureWritableBytes 18446744073709551608 = .ok b' ∧ b'.writableBytes = 16 ∧
    ¬ b.Fifo [.ensureWritableBytes 18446744073709551608] := by
  refine ⟨_, _, rfl, rfl, by decide +kernel, ?_⟩
  rintro ⟨-, ⟨⟨hroom, -⟩, -⟩, -⟩
  revert hroom
  decide +kernel

end JudgeServer.Network
