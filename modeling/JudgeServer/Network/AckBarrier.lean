import JudgeServer.Common.SubmissionTypes
import JudgeServer.Lib.KeyedMap
import Mathlib.Data.Finset.Insert
import Mathlib.Data.Finset.Erase

/-!
# The ack barrier

`network/AckBarrier.cpp`: while a channel is awaiting its ack, messages for it are put
aside. The messages are of any type here.
-/

namespace JudgeServer.Network

open JudgeServer.Lib.KeyedMap

structure AckBarrier (α : Type) where
  awaiting : Finset Bytes := ∅
  deferred : Table Bytes (List α) := ∅

namespace AckBarrier

variable {α : Type}

def markWaiting (b : AckBarrier α) (replyChannelId : Bytes) : AckBarrier α :=
  { b with awaiting := insert replyChannelId b.awaiting }

/-- The messages put aside for a channel. -/
def deferredFor (b : AckBarrier α) (replyChannelId : Bytes) : List α :=
  (b.deferred.lookup replyChannelId).getD []

def release (b : AckBarrier α) (replyChannelId : Bytes) : List α × AckBarrier α :=
  (b.deferredFor replyChannelId,
    { awaiting := b.awaiting.erase replyChannelId
      deferred := b.deferred.erase replyChannelId })

def tryDefer (b : AckBarrier α) (replyChannelId : Bytes) (response : α) : Bool × AckBarrier α :=
  if replyChannelId ∈ b.awaiting then
    (true, { b with
      deferred := b.deferred.insert replyChannelId (b.deferredFor replyChannelId ++ [response]) })
  else (false, b)

theorem deferredFor_release (b : AckBarrier α) (channel other : Bytes) :
    (b.release channel).2.deferredFor other = if other = channel then [] else b.deferredFor other := by
  show ((b.deferred.erase channel).lookup other).getD [] = _
  rw [lookup_erase_eq]
  split
  · rfl
  · rfl

theorem deferredFor_tryDefer {b : AckBarrier α} {channel : Bytes} (h : channel ∈ b.awaiting)
    (response : α) (other : Bytes) :
    (b.tryDefer channel response).2.deferredFor other =
      if other = channel then b.deferredFor channel ++ [response] else b.deferredFor other := by
  unfold tryDefer
  rw [if_pos h]
  show ((b.deferred.insert channel _).lookup other).getD [] = _
  rw [lookup_insert_eq]
  split
  · rfl
  · rfl

theorem tryDefer_refused {b : AckBarrier α} {channel : Bytes} {response : α}
    (h : (b.tryDefer channel response).1 = false) :
    channel ∉ b.awaiting ∧ (b.tryDefer channel response).2 = b := by
  unfold tryDefer at h ⊢
  split at h
  · cases h
  · next hn => exact ⟨hn, by rw [if_neg hn]⟩

theorem awaiting_tryDefer (b : AckBarrier α) (channel : Bytes) (response : α) :
    (b.tryDefer channel response).2.awaiting = b.awaiting := by
  unfold tryDefer
  split
  · rfl
  · rfl

end AckBarrier
end JudgeServer.Network
