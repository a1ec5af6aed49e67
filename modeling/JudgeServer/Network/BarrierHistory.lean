import JudgeServer.Network.AckBarrier

/-!
# What becomes of a deferred message

Every sequence of calls of the barrier, with what each call returned. For each channel the
messages the barrier has taken are, in order, those it has handed out and those it still
holds; it holds some only while the channel is awaiting its ack, and it takes one only
then. Whether a channel is awaiting is decided by its own calls alone.
-/

namespace JudgeServer.Network

open JudgeServer.Lib.KeyedMap

variable {α : Type}

inductive BarrierCall (α : Type) where
  | markWaiting (replyChannelId : Bytes)
  | tryDefer (replyChannelId : Bytes) (response : α)
  | release (replyChannelId : Bytes)

/-- A call with what it returned. -/
inductive BarrierEvent (α : Type) where
  | marked (replyChannelId : Bytes)
  | tried (replyChannelId : Bytes) (response : α) (deferred : Bool)
  | released (replyChannelId : Bytes) (deferredMessages : List α)

def BarrierCall.channel : BarrierCall α → Bytes
  | .markWaiting replyChannelId => replyChannelId
  | .tryDefer replyChannelId _ => replyChannelId
  | .release replyChannelId => replyChannelId

namespace AckBarrier

def perform (b : AckBarrier α) : BarrierCall α → BarrierEvent α × AckBarrier α
  | .markWaiting replyChannelId => (.marked replyChannelId, b.markWaiting replyChannelId)
  | .tryDefer replyChannelId response =>
      (.tried replyChannelId response (b.tryDefer replyChannelId response).1,
        (b.tryDefer replyChannelId response).2)
  | .release replyChannelId =>
      (.released replyChannelId (b.release replyChannelId).1, (b.release replyChannelId).2)

/-- The history of a sequence of calls and the barrier after it. -/
def history (calls : List (BarrierCall α)) : List (BarrierEvent α) × AckBarrier α :=
  calls.foldl (fun x call => (x.1 ++ [(x.2.perform call).1], (x.2.perform call).2)) ([], {})

end AckBarrier

section Channel

variable (channel : Bytes)

/-- The messages of the channel for which `try_defer` returned true. -/
def takenIn : BarrierEvent α → List α
  | .tried c response true => if c = channel then [response] else []
  | _ => []

/-- The messages of the channel that a `release` returned. -/
def handedOutIn : BarrierEvent α → List α
  | .released c deferredMessages => if c = channel then deferredMessages else []
  | _ => []

def taken (events : List (BarrierEvent α)) : List α := events.flatMap (takenIn channel)

def handedOut (events : List (BarrierEvent α)) : List α := events.flatMap (handedOutIn channel)

/-- Marked, and not released since. -/
def waitsAfter (waits : Bool) : BarrierEvent α → Bool
  | .marked c => if c = channel then true else waits
  | .released c _ => if c = channel then false else waits
  | .tried _ _ _ => waits

def waiting (events : List (BarrierEvent α)) : Bool := events.foldl (waitsAfter channel) false

theorem taken_concat (events : List (BarrierEvent α)) (e : BarrierEvent α) :
    taken channel (events ++ [e]) = taken channel events ++ takenIn channel e := by
  simp [taken]

theorem handedOut_concat (events : List (BarrierEvent α)) (e : BarrierEvent α) :
    handedOut channel (events ++ [e]) = handedOut channel events ++ handedOutIn channel e := by
  simp [handedOut]

theorem waiting_concat (events : List (BarrierEvent α)) (e : BarrierEvent α) :
    waiting channel (events ++ [e]) = waitsAfter channel (waiting channel events) e := by
  simp [waiting]

end Channel

section Step

variable {channel : Bytes} {b : AckBarrier α} {call : BarrierCall α}

theorem tryDefer_fst (b : AckBarrier α) (channel : Bytes) (response : α) :
    (b.tryDefer channel response).1 = decide (channel ∈ b.awaiting) := by
  unfold AckBarrier.tryDefer
  split
  · next h => simp [h]
  · next h => simp [h]

theorem deferredFor_tryDefer_other (b : AckBarrier α) {c channel : Bytes} (response : α)
    (h : channel ≠ c) : (b.tryDefer c response).2.deferredFor channel = b.deferredFor channel := by
  by_cases hc : c ∈ b.awaiting
  · rw [AckBarrier.deferredFor_tryDefer hc, if_neg h]
  · unfold AckBarrier.tryDefer
    rw [if_neg hc]

/-- A call of one channel is not noticed on another. -/
theorem perform_other (h : call.channel ≠ channel) :
    (b.perform call).2.deferredFor channel = b.deferredFor channel ∧
      (channel ∈ (b.perform call).2.awaiting ↔ channel ∈ b.awaiting) ∧
      takenIn channel (b.perform call).1 = [] ∧ handedOutIn channel (b.perform call).1 = [] ∧
      ∀ waits, waitsAfter channel waits (b.perform call).1 = waits := by
  cases call with
  | markWaiting c =>
    change c ≠ channel at h
    refine ⟨rfl, ?_, rfl, rfl, fun waits => if_neg h⟩
    show channel ∈ insert c b.awaiting ↔ _
    simp [h.symm]
  | tryDefer c response =>
    change c ≠ channel at h
    refine ⟨deferredFor_tryDefer_other b response h.symm, ?_, ?_, rfl, fun waits => rfl⟩
    · show channel ∈ (b.tryDefer c response).2.awaiting ↔ _
      rw [AckBarrier.awaiting_tryDefer]
    · show takenIn channel (.tried c response (b.tryDefer c response).1) = []
      cases (b.tryDefer c response).1 with
      | true => exact if_neg h
      | false => rfl
  | release c =>
    change c ≠ channel at h
    refine ⟨?_, ?_, rfl, if_neg h, fun waits => if_neg h⟩
    · show (b.release c).2.deferredFor channel = _
      rw [AckBarrier.deferredFor_release, if_neg h.symm]
    · show channel ∈ b.awaiting.erase c ↔ _
      simp [h.symm]

end Step

/-- What is true of one channel after a history. -/
structure Accounted (channel : Bytes) (events : List (BarrierEvent α)) (b : AckBarrier α) : Prop where
  messages : taken channel events = handedOut channel events ++ b.deferredFor channel
  held : b.deferredFor channel ≠ [] → channel ∈ b.awaiting
  awaiting : channel ∈ b.awaiting ↔ waiting channel events = true

theorem accounted_start (channel : Bytes) : Accounted channel [] ({} : AckBarrier α) where
  messages := rfl
  held := fun h => absurd rfl h
  awaiting := by simp [waiting]

theorem Accounted.perform {channel : Bytes} {events : List (BarrierEvent α)} {b : AckBarrier α}
    (h : Accounted channel events b) (call : BarrierCall α) :
    Accounted channel (events ++ [(b.perform call).1]) (b.perform call).2 := by
  by_cases hc : call.channel = channel
  · cases call with
    | markWaiting c =>
      obtain rfl : c = channel := hc
      refine ⟨?_, ?_, ?_⟩
      · rw [taken_concat, handedOut_concat]
        have hsame : (b.perform (.markWaiting c)).2.deferredFor c = b.deferredFor c := rfl
        rw [hsame]
        simpa [AckBarrier.perform, takenIn, handedOutIn] using h.messages
      · intro _
        exact Finset.mem_insert_self _ _
      · rw [waiting_concat]
        simp [AckBarrier.perform, AckBarrier.markWaiting, waitsAfter]
    | tryDefer c response =>
      obtain rfl : c = channel := hc
      by_cases hw : c ∈ b.awaiting
      · have hevent : (b.perform (.tryDefer c response)).1 = .tried c response true := by
          simp [AckBarrier.perform, tryDefer_fst, hw]
        have hbarrier : (b.perform (.tryDefer c response)).2 = (b.tryDefer c response).2 := rfl
        rw [hevent, hbarrier]
        refine ⟨?_, ?_, ?_⟩
        · rw [taken_concat, handedOut_concat, AckBarrier.deferredFor_tryDefer hw, if_pos rfl,
            h.messages]
          simp [takenIn, handedOutIn]
        · intro _
          rwa [AckBarrier.awaiting_tryDefer]
        · rw [AckBarrier.awaiting_tryDefer, waiting_concat]
          exact h.awaiting
      · -- A refused message changes nothing.
        have hperform : b.perform (.tryDefer c response) = (.tried c response false, b) := by
          simp [AckBarrier.perform, AckBarrier.tryDefer, hw]
        rw [hperform]
        refine ⟨?_, h.held, ?_⟩
        · rw [taken_concat, handedOut_concat]
          simpa [takenIn, handedOutIn] using h.messages
        · rw [waiting_concat]
          exact h.awaiting
    | release c =>
      obtain rfl : c = channel := hc
      have hperform : b.perform (.release c) = (.released c (b.deferredFor c), (b.release c).2) := rfl
      rw [hperform]
      have hempty : (b.release c).2.deferredFor c = [] := by
        rw [AckBarrier.deferredFor_release, if_pos rfl]
      refine ⟨?_, ?_, ?_⟩
      · rw [taken_concat, handedOut_concat, hempty, h.messages]
        simp [takenIn, handedOutIn]
      · intro hne
        exact absurd hempty hne
      · rw [waiting_concat]
        simp [AckBarrier.release, waitsAfter]
  · obtain ⟨hdeferred, hawaiting, htaken, hhanded, hwaits⟩ := perform_other (b := b) hc
    refine ⟨?_, ?_, ?_⟩
    · rw [taken_concat, handedOut_concat, htaken, hhanded, hdeferred, List.append_nil,
        List.append_nil]
      exact h.messages
    · rw [hdeferred, hawaiting]
      exact h.held
    · rw [hawaiting, waiting_concat, hwaits]
      exact h.awaiting

theorem history_accounted (calls : List (BarrierCall α)) (channel : Bytes) :
    Accounted channel (AckBarrier.history calls).1 (AckBarrier.history calls).2 := by
  induction calls using List.reverseRecOn with
  | nil => exact accounted_start channel
  | append_singleton calls call ih =>
    have hstep : AckBarrier.history (calls ++ [call]) =
        ((AckBarrier.history calls).1 ++ [((AckBarrier.history calls).2.perform call).1],
          ((AckBarrier.history calls).2.perform call).2) := by
      simp [AckBarrier.history]
    rw [hstep]
    exact ih.perform call

/-- For every sequence of calls and every channel: the messages taken are those handed out
followed by those still deferred; there are deferred messages only while the channel is
awaiting, which it is from a `mark_waiting` to the next `release`; the next `try_defer`
is refused exactly when it is not awaiting; and the next call of another channel changes
neither its messages nor whether it is awaiting. -/
theorem barrier_keeps_messages (calls : List (BarrierCall α)) (channel : Bytes) :
    (taken channel (AckBarrier.history calls).1 =
      handedOut channel (AckBarrier.history calls).1 ++
        (AckBarrier.history calls).2.deferredFor channel) ∧
    ((AckBarrier.history calls).2.deferredFor channel ≠ [] →
      channel ∈ (AckBarrier.history calls).2.awaiting) ∧
    (channel ∈ (AckBarrier.history calls).2.awaiting ↔
      waiting channel (AckBarrier.history calls).1 = true) ∧
    (∀ response, ((AckBarrier.history calls).2.tryDefer channel response).1 = false ↔
      channel ∉ (AckBarrier.history calls).2.awaiting) ∧
    ∀ call, call.channel ≠ channel →
      ((AckBarrier.history calls).2.perform call).2.deferredFor channel =
        (AckBarrier.history calls).2.deferredFor channel ∧
      (channel ∈ ((AckBarrier.history calls).2.perform call).2.awaiting ↔
        channel ∈ (AckBarrier.history calls).2.awaiting) := by
  have h := history_accounted calls channel
  refine ⟨h.messages, h.held, h.awaiting, ?_, ?_⟩
  · intro response
    rw [tryDefer_fst, decide_eq_false_iff_not]
  · intro call hcall
    obtain ⟨hdeferred, hawaiting, -⟩ :=
      perform_other (b := (AckBarrier.history calls).2) hcall
    exact ⟨hdeferred, hawaiting⟩

end JudgeServer.Network
