import JudgeServer.Network.Buffer
import JudgeServer.Lib.Framing

/-!
# One client connection

`network/ConnectionSlot.cpp`. The functions here are the locked sections and the system
calls of the class; `readMessage` is everything up to its final `set_idle`, which takes
the lock for itself. Byte counts are narrowed to `int` where the source does so.
-/

namespace JudgeServer.Network

open JudgeServer.Lib.Framing

inductive ConnectionSlotStatus where
  | readable | writable | idle
  deriving DecidableEq, Repr

/-- `EAGAIN` and `EWOULDBLOCK` are one number on Linux. -/
inductive Errno where
  | again | interrupted | other (code : Nat)
  deriving DecidableEq, Repr

/-- What `readv` does: no bytes means the end of the stream. -/
inductive ReadOutcome where
  | bytes (chunk : Bytes)
  | failed (errno : Errno)

/-- What `::send` does with the bytes it is offered. -/
inductive SendOutcome where
  | accepted (count : Nat)
  | failed (errno : Errno)

structure ConnectionSlot where
  fd : Int := 0
  sessionId : Nat := 0
  inputBuffer : Buffer := default
  status : ConnectionSlotStatus := .readable
  pendingResponse : Bytes := []
  pendingWriteOffset : Nat := 0

namespace ConnectionSlot

def init (slot : ConnectionSlot) (fd : Int) (sessionId : Nat) : ConnectionSlot where
  fd := fd
  sessionId := sessionId
  inputBuffer := slot.inputBuffer.retrieveAll
  status := .readable
  pendingResponse := []
  pendingWriteOffset := 0

def clear (slot : ConnectionSlot) : ConnectionSlot where
  fd := 0
  sessionId := 0
  inputBuffer := slot.inputBuffer.retrieveAll
  status := .readable
  pendingResponse := []
  pendingWriteOffset := 0

def setStatus (slot : ConnectionSlot) (status : ConnectionSlotStatus) : ConnectionSlot :=
  { slot with status }

/-- The extraction of at most one frame from the input buffer. -/
def takeMessage (slot : ConnectionSlot) : Option Bytes × ConnectionSlot :=
  if slot.inputBuffer.readableBytes < 4 then (none, slot)
  else
    let msgLenHost := headerValue slot.inputBuffer.readable
    if slot.inputBuffer.readableBytes < 4 + msgLenHost then (none, slot)
    else
      let r := (slot.inputBuffer.retrieve 4).retrieveAsString msgLenHost
      (some r.1, { slot with inputBuffer := r.2 })

/-- `tot_read` and, if a frame is complete, its body. -/
def readMessage (slot : ConnectionSlot) : ReadOutcome → (Int × Option Bytes) × ConnectionSlot
  | .failed _ => ((-1, none), slot)
  | .bytes chunk =>
      let slot := { slot with inputBuffer := slot.inputBuffer.readFd chunk }
      if chunk = [] then ((0, none), slot)
      else
        let r := slot.takeMessage
        ((toInt32 chunk.length, r.1), r.2)

/-- The result of `send`, the bytes the socket took, and the error it left in `errno`. -/
def send (resultData : Bytes) (outcome : SendOutcome) : Int × Bytes × Option Errno :=
  if toInt32 resultData.length ≤ 0 then (0, [], none)
  else
    match outcome with
    | .failed errno => (-1, [], some errno)
    | .accepted count => (toInt32 count, resultData.take count, none)

def queueResponseLocked (slot : ConnectionSlot) (response : Bytes) : ConnectionSlot :=
  { slot with pendingResponse := slot.pendingResponse ++ frame response }

def setPendingResponse (slot : ConnectionSlot) (response : Bytes) : ConnectionSlot :=
  slot.queueResponseLocked response

def setPendingResponseIfSession (slot : ConnectionSlot) (expectedSessionId : Nat)
    (response : Bytes) : Bool × ConnectionSlot :=
  if slot.sessionId ≠ expectedSessionId ∨ slot.fd = 0 then (false, slot)
  else (true, (slot.queueResponseLocked response).setStatus .writable)

def hasPendingResponse (slot : ConnectionSlot) : Bool := slot.pendingResponse ≠ []

/-- `substr` throws when the offset lies behind the end. -/
def copyPendingResponse (slot : ConnectionSlot) : Option Bytes :=
  if slot.pendingWriteOffset ≤ slot.pendingResponse.length then
    some (slot.pendingResponse.drop slot.pendingWriteOffset)
  else none

def consumePendingResponse (slot : ConnectionSlot) (bytes : Nat) : Bool × ConnectionSlot :=
  if slot.pendingResponse.length ≤ slot.pendingWriteOffset + bytes then
    (true, { slot with pendingResponse := [], pendingWriteOffset := 0 })
  else (false, { slot with pendingWriteOffset := slot.pendingWriteOffset + bytes })

/-- The unread input. -/
def unread (slot : ConnectionSlot) : Bytes := slot.inputBuffer.readable

/-- The output not yet consumed. -/
def unsent (slot : ConnectionSlot) : Bytes := slot.pendingResponse.drop slot.pendingWriteOffset

theorem takeMessage_eq (slot : ConnectionSlot) :
    (slot.takeMessage.1 = (splitFrame slot.unread).map Prod.fst) ∧
    (slot.takeMessage.2.unread = ((splitFrame slot.unread).map Prod.snd).getD slot.unread) := by
  unfold takeMessage
  have hlen := slot.inputBuffer.readable_length
  split
  · next h =>
    rw [splitFrame_eq_none.mpr (by unfold HasFrame unread; omega)]
    exact ⟨rfl, rfl⟩
  · next h4 =>
    dsimp only
    split
    · next h =>
      rw [splitFrame_eq_none.mpr (by unfold HasFrame unread; omega)]
      exact ⟨rfl, rfl⟩
    · next h =>
      have hf : HasFrame slot.unread := by
        unfold HasFrame unread
        omega
      unfold splitFrame
      rw [if_pos hf]
      constructor
      · show some (((slot.inputBuffer.retrieve 4).readable).take _) = _
        rw [Buffer.readable_retrieve]
        rfl
      · show ((slot.inputBuffer.retrieve 4).retrieve _).readable = _
        rw [Buffer.readable_retrieve, Buffer.readable_retrieve, List.drop_drop]
        rfl

theorem takeMessage_rest (slot : ConnectionSlot) :
    ∃ b, slot.takeMessage.2 = { slot with inputBuffer := b } := by
  unfold takeMessage
  split
  · exact ⟨slot.inputBuffer, rfl⟩
  · dsimp only
    split
    · exact ⟨slot.inputBuffer, rfl⟩
    · exact ⟨_, rfl⟩

/-- Reading touches the input buffer only. -/
theorem readMessage_rest (slot : ConnectionSlot) (outcome : ReadOutcome) :
    ∃ b, (slot.readMessage outcome).2 = { slot with inputBuffer := b } := by
  cases outcome with
  | failed errno => exact ⟨slot.inputBuffer, rfl⟩
  | bytes chunk =>
    unfold readMessage
    dsimp only
    split
    · exact ⟨_, rfl⟩
    · obtain ⟨b, hb⟩ := takeMessage_rest { slot with inputBuffer := slot.inputBuffer.readFd chunk }
      exact ⟨b, hb⟩

/-- One read of a non-empty piece takes the first frame off the unread bytes, if there
is a complete one. -/
theorem readMessage_bytes (slot : ConnectionSlot) {chunk : Bytes} (hc : chunk ≠ []) :
    (slot.readMessage (.bytes chunk)).1 =
      (toInt32 chunk.length, (splitFrame (slot.unread ++ chunk)).map Prod.fst) ∧
    (slot.readMessage (.bytes chunk)).2.unread =
      ((splitFrame (slot.unread ++ chunk)).map Prod.snd).getD (slot.unread ++ chunk) := by
  have hr : ({ slot with inputBuffer := slot.inputBuffer.readFd chunk } : ConnectionSlot).unread =
      slot.unread ++ chunk := Buffer.readable_readFd _ _
  obtain ⟨h1, h2⟩ := takeMessage_eq { slot with inputBuffer := slot.inputBuffer.readFd chunk }
  rw [hr] at h1 h2
  unfold readMessage
  dsimp only
  rw [if_neg hc]
  exact ⟨by rw [h1], h2⟩

theorem readMessage_end (slot : ConnectionSlot) :
    (slot.readMessage (.bytes [])).1 = (0, none) ∧
      (slot.readMessage (.bytes [])).2.unread = slot.unread := by
  constructor
  · rfl
  · show (slot.inputBuffer.readFd []).readable = _
    rw [Buffer.readable_readFd, List.append_nil]
    rfl

end ConnectionSlot
end JudgeServer.Network
