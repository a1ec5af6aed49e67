import JudgeServer.Pipeline.Eviction
import JudgeServer.Lib.Interleave

/-!
# Runs of the result store

The three public operations as atomic calls, with a history of what they answered.
`Effect` says once what a call can do to the records and what it writes into the history,
and `perform_effect` that every call does one of these.
-/

namespace JudgeServer.Pipeline

open JudgeServer.Common
open JudgeServer.Lib.KeyedMap
open JudgeServer.Lib.Interleave (Machine)

/-- One answered call. -/
inductive Entry where
  | created (id : Int)
  | updated (id : Int) (result : SubmissionResult) (accepted : Bool)
  | got (id : Int) (answer : Option SubmissionResult)
  deriving DecidableEq

/-- The snapshot an entry stores for `id`, as the store keeps it. -/
def Entry.stored (id : Int) : Entry → Option SubmissionResult
  | .created i => if i = id then some { submissionId := id, status := .queued } else none
  | .updated i r accepted =>
      if i = id ∧ accepted = true then some { r with submissionId := id } else none
  | .got _ _ => none

/-- The snapshots successively stored for `id`. -/
def snapshots (id : Int) (h : List Entry) : List SubmissionResult := h.filterMap (Entry.stored id)

theorem snapshots_snoc (id : Int) (h : List Entry) (e : Entry) :
    snapshots id (h ++ [e]) = snapshots id h ++ (e.stored id).toList := by
  simp [snapshots, List.filterMap_append, List.filterMap_cons]
  cases e.stored id <;> rfl

theorem snapshots_append (id : Int) (h k : List Entry) :
    snapshots id (h ++ k) = snapshots id h ++ snapshots id k := List.filterMap_append

/-- The ids a history has handed out, in order. -/
def handedOut (h : List Entry) : List Int :=
  h.filterMap fun e => match e with
    | .created id => some id
    | _ => none

theorem handedOut_snoc_created (h : List Entry) (id : Int) :
    handedOut (h ++ [.created id]) = handedOut h ++ [id] := by simp [handedOut]

theorem handedOut_snoc_other (h : List Entry) {e : Entry} (he : ∀ id, e ≠ .created id) :
    handedOut (h ++ [e]) = handedOut h := by
  cases e with
  | created id => exact absurd rfl (he id)
  | _ => simp [handedOut]

structure TracedStore where
  store : ResultStore := {}
  history : List Entry := []

inductive StoreCall where
  | createSubmission (request : SubmissionRequest)
  | updateResult (id : Int) (result : SubmissionResult)
  | getResult (id : Int)

def StoreCall.Reply : StoreCall → Type
  | .createSubmission _ => Int
  | .updateResult _ _ => Bool
  | .getResult _ => Option SubmissionResult

/-- What the environment decides inside a call: the clock (read a second time by
`createSubmission`) and the order of equal keys in `std::sort`. -/
structure StoreInput where
  now : TimePoint
  later : TimePoint
  sort : EntrySort

def perform (cfg : CleanupConfig) : (c : StoreCall) → StoreInput → TracedStore →
    c.Reply × TracedStore
  | .createSubmission request, i, t =>
      let r := t.store.createSubmission cfg i.sort i.now i.later request
      (r.1, ⟨r.2, t.history ++ [.created r.1]⟩)
  | .updateResult id result, i, t =>
      let r := t.store.updateResult cfg i.sort i.now id result
      (r.1, ⟨r.2, t.history ++ [.updated id result r.1]⟩)
  | .getResult id, i, t =>
      let r := t.store.getResult cfg i.sort i.now id
      (r.1, ⟨r.2, t.history ++ [.got id r.1]⟩)

/-- The store as a machine of atomic calls: each operation holds the lock throughout. -/
def storeMachine (cfg : CleanupConfig) : Machine TracedStore StoreInput where
  Op := StoreCall
  Res := StoreCall.Reply
  exec c i t := some (perform cfg c i t)

def runCalls (cfg : CleanupConfig) (t : TracedStore) (calls : List (StoreCall × StoreInput)) :
    TracedStore := calls.foldl (fun t c => (perform cfg c.1 c.2 t).2) t

theorem runCalls_snoc (cfg : CleanupConfig) (t : TracedStore)
    (calls : List (StoreCall × StoreInput)) (c : StoreCall × StoreInput) :
    runCalls cfg t (calls ++ [c]) = (perform cfg c.1 c.2 (runCalls cfg t calls)).2 := by
  simp [runCalls]

/-- The part of a record that no read touches. -/
def ResultStore.peek (st : ResultStore) (id : Int) : Option (SubmissionResult × Option TimePoint) :=
  (st.results.lookup id).map fun stored => (stored.result, stored.finishedAt)

/-- The record of `id` is as before, or was finished and has been evicted. -/
def Kept (old new : ResultStore) (id : Int) : Prop :=
  new.peek id = old.peek id ∨ (new.peek id = none ∧ ∃ r t, old.peek id = some (r, some t))

theorem Kept.trans {a b c : ResultStore} {id : Int} (h : Kept a b id) (h' : Kept b c id) :
    Kept a c id := by
  rcases h' with he | ⟨hn, r, t, hb⟩
  · unfold Kept at h ⊢
    rw [he]
    exact h
  · rcases h with he | ⟨hn', _⟩
    · exact .inr ⟨hn, r, t, he ▸ hb⟩
    · rw [hn'] at hb
      cases hb

theorem Evicts.kept {old new : ResultStore} (h : Evicts old new) (id : Int) : Kept old new id := by
  unfold Kept ResultStore.peek
  rcases h.table id with he | ⟨hn, stored, hs, hf⟩
  · left; rw [he]
  · obtain ⟨t, ht⟩ := Option.isSome_iff_exists.mp hf
    exact .inr ⟨by rw [hn]; rfl, stored.result, t, by rw [hs, ← ht]; rfl⟩

theorem peek_insert (st : ResultStore) (a id : Int) (stored : StoredSubmission) :
    ResultStore.peek { st with results := st.results.insert a stored } id =
      if id = a then some (stored.result, stored.finishedAt) else st.peek id := by
  unfold ResultStore.peek
  rw [lookup_insert_eq]
  split <;> rfl

/-- Everything one call can do to the records, with the entry it leaves behind. -/
inductive Effect : ResultStore → Entry → ResultStore → Prop where
  | created {st st' : ResultStore} (next : st'.nextSubmissionId = toInt32 (st.nextSubmissionId + 1))
      (new : st'.peek st.nextSubmissionId =
        some ({ submissionId := st.nextSubmissionId, status := .queued }, none))
      (others : ∀ id, id ≠ st.nextSubmissionId → Kept st st' id) :
      Effect st (.created st.nextSubmissionId) st'
  | refused {st st' : ResultStore} (id : Int) (r : SubmissionResult)
      (next : st'.nextSubmissionId = st.nextSubmissionId) (all : ∀ id, Kept st st' id) :
      Effect st (.updated id r false) st'
  | stored {st st' : ResultStore} (id : Int) (r : SubmissionResult) (now : TimePoint)
      (old : SubmissionResult) (finishedAt : Option TimePoint)
      (next : st'.nextSubmissionId = st.nextSubmissionId)
      (found : st.peek id = some (old, finishedAt))
      (valid : isValidTransition old.status r.status = true)
      (new : st'.peek id = some ({ r with submissionId := id },
          if isTerminalStatus r.status then some now else finishedAt) ∨
        (st'.peek id = none ∧ (if isTerminalStatus r.status then some now else finishedAt).isSome))
      (others : ∀ i, i ≠ id → Kept st st' i) :
      Effect st (.updated id r true) st'
  | got {st st' : ResultStore} (id : Int) (next : st'.nextSubmissionId = st.nextSubmissionId)
      (all : ∀ id, Kept st st' id) :
      Effect st (.got id ((st'.peek id).map Prod.fst)) st'

theorem createSubmission_effect (cfg : CleanupConfig) (i : StoreInput) (request : SubmissionRequest)
    (st : ResultStore) :
    Effect st (.created (st.createSubmission cfg i.sort i.now i.later request).1)
      (st.createSubmission cfg i.sort i.now i.later request).2 := by
  have hc := ResultStore.cleanup_evicts cfg i.sort i.now st
  have hid : (st.createSubmission cfg i.sort i.now i.later request).1 = st.nextSubmissionId := hc.next
  rw [hid]
  unfold ResultStore.createSubmission
  dsimp only
  rw [hc.next]
  refine .created rfl ?_ ?_
  · simp [ResultStore.peek]
  · intro id hne
    refine (hc.kept id).trans (.inl ?_)
    unfold ResultStore.peek
    rw [lookup_insert_eq, if_neg hne]

theorem updateResult_effect (cfg : CleanupConfig) (i : StoreInput) (id : Int)
    (r : SubmissionResult) (st : ResultStore) :
    Effect st (.updated id r (st.updateResult cfg i.sort i.now id r).1)
      (st.updateResult cfg i.sort i.now id r).2 := by
  have hc := ResultStore.cleanup_evicts cfg i.sort i.now st
  unfold ResultStore.updateResult
  dsimp only
  generalize st.cleanupExpiredResultsLocked cfg i.sort i.now = st₁ at hc ⊢
  cases hs : st₁.results.lookup id with
  | none => exact .refused id r hc.next hc.kept
  | some stored =>
      dsimp only
      split
      · next hv =>
        have hc₂ := ResultStore.cleanup_evicts cfg i.sort i.now
          { st₁ with results := st₁.results.insert id (ResultStore.overwrite id r i.now stored) }
        refine .stored id r i.now stored.result stored.finishedAt (hc₂.next.trans hc.next) ?_ hv ?_ ?_
        · have hp : st₁.peek id = some (stored.result, stored.finishedAt) := by
            unfold ResultStore.peek
            rw [hs]
            rfl
          rcases hc.kept id with he | ⟨hn, _⟩
          · exact he ▸ hp
          · rw [hn] at hp
            cases hp
        · rcases hc₂.kept id with he | ⟨hn, r', t, hw⟩
          · left
            rw [he, peek_insert, if_pos rfl]
            rfl
          · right
            rw [peek_insert, if_pos rfl] at hw
            refine ⟨hn, ?_⟩
            have hf := congrArg Prod.snd (Option.some.inj hw)
            exact Option.isSome_iff_exists.mpr ⟨t, hf⟩
        · intro j hj
          refine (hc.kept j).trans (Kept.trans (.inl ?_) (hc₂.kept j))
          rw [peek_insert, if_neg hj]
      · exact .refused id r hc.next hc.kept

theorem getResult_effect (cfg : CleanupConfig) (i : StoreInput) (id : Int) (st : ResultStore) :
    Effect st (.got id (st.getResult cfg i.sort i.now id).1)
      (st.getResult cfg i.sort i.now id).2 := by
  have hc := ResultStore.cleanup_evicts cfg i.sort i.now st
  unfold ResultStore.getResult
  dsimp only
  generalize st.cleanupExpiredResultsLocked cfg i.sort i.now = st₁ at hc ⊢
  cases hs : st₁.results.lookup id with
  | none =>
      have hp : (st₁.peek id).map Prod.fst = none := by unfold ResultStore.peek; rw [hs]; rfl
      have he := Effect.got id hc.next hc.kept
      rwa [hp] at he
  | some stored =>
      dsimp only
      have hsame : ∀ j, ResultStore.peek { st₁ with
          results := st₁.results.insert id { stored with lastAccessAt := i.now } } j = st₁.peek j := by
        intro j
        rw [peek_insert]
        split
        · next hj => subst hj; unfold ResultStore.peek; rw [hs]; rfl
        · rfl
      have hnext : ResultStore.nextSubmissionId { st₁ with
          results := st₁.results.insert id { stored with lastAccessAt := i.now } } =
          st.nextSubmissionId := hc.next
      generalize ({ st₁ with
        results := st₁.results.insert id { stored with lastAccessAt := i.now } } : ResultStore) = st₂
        at hnext hsame ⊢
      have he := Effect.got id hnext fun j => (hc.kept j).trans (.inl (hsame j))
      rw [hsame id] at he
      have hp : (st₁.peek id).map Prod.fst = some stored.result := by
        unfold ResultStore.peek; rw [hs]; rfl
      rwa [hp] at he

/-- Every call leaves exactly one entry, and its effect is the one the entry names. -/
theorem perform_effect (cfg : CleanupConfig) (c : StoreCall) (i : StoreInput) (t : TracedStore) :
    ∃ e, (perform cfg c i t).2.history = t.history ++ [e] ∧
      Effect t.store e (perform cfg c i t).2.store := by
  cases c with
  | createSubmission request => exact ⟨_, rfl, createSubmission_effect cfg i request t.store⟩
  | updateResult id r => exact ⟨_, rfl, updateResult_effect cfg i id r t.store⟩
  | getResult id => exact ⟨_, rfl, getResult_effect cfg i id t.store⟩

end JudgeServer.Pipeline
