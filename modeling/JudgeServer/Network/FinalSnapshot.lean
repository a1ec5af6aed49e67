import JudgeServer.Network.Responders

/-!
# Reading back a final result

`updateResult` runs the eviction pass a second time after it has stored a terminal
snapshot. The pass counts unfinished records but can only remove finished ones, so the
new snapshot survives it exactly when the unfinished records alone, the one just
finished included, fit into the configured capacity.
-/

namespace JudgeServer.Network

open JudgeServer.Common
open JudgeServer.Dispatch
open JudgeServer.Lib.KeyedMap
open JudgeServer.Pipeline
open JudgeServer.Pipeline.ResultStore
open JudgeServer.Protocol

/-- What an accepted terminal update has found and done. -/
theorem updateResult_terminal {cfg : CleanupConfig} {srt : EntrySort} {now : TimePoint} {id : Int}
    {r : SubmissionResult} {st : ResultStore}
    (hacc : (st.updateResult cfg srt now id r).1 = true) :
    ∃ stored, (st.cleanupExpiredResultsLocked cfg srt now).results.lookup id = some stored ∧
      isTerminalStatus stored.result.status = false ∧
      (st.updateResult cfg srt now id r).2 =
        ResultStore.cleanupExpiredResultsLocked cfg srt now
          { st.cleanupExpiredResultsLocked cfg srt now with
            results := (st.cleanupExpiredResultsLocked cfg srt now).results.insert id
              (overwrite id r now stored) } := by
  unfold ResultStore.updateResult at hacc ⊢
  dsimp only at hacc ⊢
  generalize st.cleanupExpiredResultsLocked cfg srt now = st₁ at hacc ⊢
  cases hs : st₁.results.lookup id with
  | none =>
    rw [hs] at hacc
    cases hacc
  | some stored =>
    rw [hs] at hacc
    dsimp only at hacc ⊢
    by_cases hv : isValidTransition stored.result.status r.status = true
    · rw [if_pos hv]
      exact ⟨stored, rfl, ((isValidTransition_iff _ _).mp hv).unfinished, rfl⟩
    · rw [if_neg hv] at hacc
      cases hacc

section Capacity

variable {cfg : CleanupConfig} {now : TimePoint} {id : Int} {r : SubmissionResult}
  {st : ResultStore} {stored : StoredSubmission}

/-- A store after its pass, with `id` overwritten by a terminal snapshot. -/
def finishedStore (st : ResultStore) (id : Int) (r : SubmissionResult) (now : TimePoint)
    (stored : StoredSubmission) : ResultStore :=
  { st with results := st.results.insert id (overwrite id r now stored) }

theorem finishedStore_lookup :
    (finishedStore st id r now stored).results.lookup id = some (overwrite id r now stored) := by
  unfold finishedStore
  rw [lookup_insert_eq, if_pos rfl]

/-- Nothing in it has expired, if nothing had before. -/
theorem finishedStore_unexpired (hret : 0 < st.resultRetentionSecondsLocked cfg)
    (hall : ∀ i s, st.results.lookup i = some s →
      unexpired (seconds (st.resultRetentionSecondsLocked cfg)) now s = true)
    (ht : isTerminalStatus r.status = true) (i : Int) (s : StoredSubmission)
    (hs : (finishedStore st id r now stored).results.lookup i = some s) :
    unexpired (seconds (st.resultRetentionSecondsLocked cfg)) now s = true := by
  unfold finishedStore at hs
  rw [lookup_insert_eq] at hs
  by_cases hi : i = id
  · rw [if_pos hi] at hs
    obtain rfl := Option.some.inj hs
    have hpos : 0 < seconds (st.resultRetentionSecondsLocked cfg) := by
      unfold seconds
      exact Int.mul_pos hret (by decide)
    simp [unexpired, overwrite, ht, hpos]
  · rw [if_neg hi] at hs
    exact hall i s hs

/-- With room for the unfinished records the pass keeps the new snapshot. -/
theorem finishedStore_kept (srt : EntrySort) (hret : 0 < st.resultRetentionSecondsLocked cfg)
    (hall : ∀ i s, st.results.lookup i = some s →
      unexpired (seconds (st.resultRetentionSecondsLocked cfg)) now s = true)
    (ht : isTerminalStatus r.status = true) (hl : st.results.lookup id = some stored)
    (hsize : size st.results < 2 ^ 31)
    (hfit : (size st.results : Int) ≤ st.maxStoredResultsLocked cfg) :
    (finishedStore st id r now stored).cleanupExpiredResultsLocked cfg srt now =
      finishedStore st id r now stored := by
  have hsame : size (finishedStore st id r now stored).results = size st.results :=
    size_insert_of_lookup _ hl
  apply cleanup_eq_self
  · exact Int.le_of_lt hret
  · rw [hsame]
    exact hsize
  · rw [hsame]
    exact hfit
  · exact finishedStore_unexpired hret hall ht

/-- Without it the new snapshot is the one candidate, and it goes. -/
theorem finishedStore_evicted (srt : EntrySort)
    (hmax : 0 < st.maxStoredResultsLocked cfg)
    (hnone : ∀ i s, st.results.lookup i = some s → s.finishedAt = none)
    (ht : isTerminalStatus r.status = true) (hl : st.results.lookup id = some stored)
    (hsize : size st.results < 2 ^ 31)
    (hfull : st.maxStoredResultsLocked cfg < size st.results) :
    ((finishedStore st id r now stored).cleanupExpiredResultsLocked cfg srt now).results.lookup id =
      none := by
  have hsame : size (finishedStore st id r now stored).results = size st.results :=
    size_insert_of_lookup _ hl
  cases hlook : ((finishedStore st id r now stored).cleanupExpiredResultsLocked cfg srt
      now).results.lookup id with
  | none => rfl
  | some s =>
    exfalso
    have hs := (cleanup_evicts cfg srt now (finishedStore st id r now stored)).table.survivor hlook
    rw [finishedStore_lookup] at hs
    obtain rfl := Option.some.inj hs
    have hdone : (overwrite id r now stored).finishedAt = some now := by
      unfold overwrite
      rw [if_pos ht]
    rcases cleanup_fits cfg srt now (finishedStore st id r now stored) hmax
      (by rw [hsame]; exact hsize) with hfit | hgone
    · have hcap : (finishedStore st id r now stored).maxStoredResultsLocked cfg =
          st.maxStoredResultsLocked cfg := rfl
      have hlive := live_cleanup cfg srt now (finishedStore st id r now stored)
      have hcount := count_insert (p := fun s => s.finishedAt.isNone) (overwrite id r now stored) hl
      have hbefore := live_eq_size hnone
      have hlt := count_lt_size (p := fun s => s.finishedAt.isNone) hlook (by rw [hdone]; rfl)
      simp only [hdone, hnone id stored hl, Option.isNone_some, Option.isNone_none] at hcount
      simp only [ResultStore.live, finishedStore] at hlive hbefore hlt hfit hcap
      simp only [if_true, if_false, Bool.false_eq_true] at hcount
      omega
    · have hf := hgone id _ hlook
      rw [hdone] at hf
      cases hf

end Capacity

/-- What holds right after a pass, for a store of less than `2 ^ 31` records. -/
structure Settled (cfg : CleanupConfig) (now : TimePoint) (st st₁ : ResultStore) : Prop where
  retention : st₁.resultRetentionSecondsLocked cfg = st.resultRetentionSecondsLocked cfg
  capacity : st₁.maxStoredResultsLocked cfg = st.maxStoredResultsLocked cfg
  small : size st₁.results < 2 ^ 31
  sameLive : live st₁.results = live st.results
  fits : (size st₁.results : Int) ≤ st.maxStoredResultsLocked cfg ∨
    ∀ i s, st₁.results.lookup i = some s → s.finishedAt = none
  unexpired : ∀ i s, st₁.results.lookup i = some s →
    unexpired (seconds (st.resultRetentionSecondsLocked cfg)) now s = true

theorem cleanup_settled (cfg : CleanupConfig) (srt : EntrySort) (now : TimePoint)
    (st : ResultStore) (hret : 0 < st.resultRetentionSecondsLocked cfg)
    (hmax : 0 < st.maxStoredResultsLocked cfg) (hsize : size st.results < 2 ^ 31) :
    Settled cfg now st (st.cleanupExpiredResultsLocked cfg srt now) := by
  have hev := cleanup_evicts cfg srt now st
  constructor
  · unfold resultRetentionSecondsLocked
    rw [hev.retention]
  · unfold maxStoredResultsLocked
    rw [hev.capacity]
  · have hle := size_cleanup_le cfg srt now st
    omega
  · exact live_cleanup cfg srt now st
  · exact cleanup_fits cfg srt now st hmax hsize
  · intro i s hs
    exact cleanup_unexpired cfg srt now st (Int.le_of_lt hret) hs

theorem getResult_found {cfg : CleanupConfig} {srt : EntrySort} {now : TimePoint} {id : Int}
    {st : ResultStore} {s : StoredSubmission}
    (h : (st.cleanupExpiredResultsLocked cfg srt now).results.lookup id = some s) :
    (st.getResult cfg srt now id).1 = some s.result := by
  unfold ResultStore.getResult
  dsimp only
  rw [h]

theorem getResult_missing {cfg : CleanupConfig} {srt : EntrySort} {now : TimePoint} {id : Int}
    {st : ResultStore} (h : st.results.lookup id = none) :
    (st.getResult cfg srt now id).1 = none := by
  unfold ResultStore.getResult
  dsimp only
  rw [(cleanup_evicts cfg srt now st).table.missing h]

/-- The read after an accepted terminal update, exactly. -/
theorem final_answer {cfg : CleanupConfig} {srt : EntrySort} (srt' : EntrySort) {now : TimePoint}
    {id : Int} {r : SubmissionResult} {st : ResultStore}
    (hret : 0 < st.resultRetentionSecondsLocked cfg)
    (hmax : 0 < st.maxStoredResultsLocked cfg) (hsize : size st.results < 2 ^ 31)
    (ht : isTerminalStatus r.status = true)
    (hacc : (st.updateResult cfg srt now id r).1 = true) :
    ((st.updateResult cfg srt now id r).2.getResult cfg srt' now id).1 =
      if (live st.results : Int) ≤ st.maxStoredResultsLocked cfg
      then some { r with submissionId := id } else none := by
  obtain ⟨stored, hl, _, hst⟩ := updateResult_terminal hacc
  have hset := cleanup_settled cfg srt now st hret hmax hsize
  rw [hst]
  generalize st.cleanupExpiredResultsLocked cfg srt now = st₁ at hl hset
  change ((cleanupExpiredResultsLocked cfg srt now (finishedStore st₁ id r now stored)).getResult
    cfg srt' now id).1 = _
  have hret₁ : 0 < st₁.resultRetentionSecondsLocked cfg := by rw [hset.retention]; exact hret
  have hmax₁ : 0 < st₁.maxStoredResultsLocked cfg := by rw [hset.capacity]; exact hmax
  have hunexp : ∀ i s, st₁.results.lookup i = some s →
      unexpired (seconds (st₁.resultRetentionSecondsLocked cfg)) now s = true := by
    rw [hset.retention]
    exact hset.unexpired
  by_cases hfit : (live st.results : Int) ≤ st.maxStoredResultsLocked cfg
  · rw [if_pos hfit]
    have hfit₁ : (size st₁.results : Int) ≤ st₁.maxStoredResultsLocked cfg := by
      rw [hset.capacity]
      rcases hset.fits with h | h
      · exact h
      · rw [← live_eq_size h, hset.sameLive]
        exact hfit
    have hkept := fun srt => finishedStore_kept srt hret₁ hunexp ht hl hset.small hfit₁
    rw [hkept]
    have hlook : ((finishedStore st₁ id r now stored).cleanupExpiredResultsLocked cfg srt'
        now).results.lookup id = some (overwrite id r now stored) := by
      rw [hkept]
      exact finishedStore_lookup
    exact getResult_found hlook
  · rw [if_neg hfit]
    have hlive := live_le_size st₁.results
    have hsame := hset.sameLive
    have hfull : st₁.maxStoredResultsLocked cfg < size st₁.results := by
      rw [hset.capacity]
      omega
    have hnone : ∀ i s, st₁.results.lookup i = some s → s.finishedAt = none := by
      rcases hset.fits with h | h
      · rw [← hset.capacity] at h
        omega
      · exact h
    exact getResult_missing (finishedStore_evicted srt hmax₁ hnone ht hl hset.small hfull)

/-- The final result is readable, at the instant it is stored, exactly when the
unfinished records counted before the update fit into the capacity; the finished event
then has its message, and otherwise has none. -/
theorem final_result_readable_iff (cfg : CleanupConfig) (retention capacity : Option Int)
    (calls : List (StoreCall × StoreInput)) (t : TracedStore)
    (ht : t = runCalls cfg (.start retention capacity) calls)
    (hn : creations t.history < 2 ^ 31 - 1)
    (hret : 0 < t.store.resultRetentionSecondsLocked cfg)
    (hmax : 0 < t.store.maxStoredResultsLocked cfg)
    (id : Int) (r : SubmissionResult) (hr : isTerminalStatus r.status = true)
    (srt srt' : EntrySort) (now : TimePoint) (request : SubmissionRequest) (channel : Bytes)
    (hacc : (t.store.updateResult cfg srt now id r).1 = true) :
    (((t.store.updateResult cfg srt now id r).2.getResult cfg srt' now id).1 = some r ↔
      (live t.store.results : Int) ≤ t.store.maxStoredResultsLocked cfg ∧ r.submissionId = id) ∧
    (((t.store.updateResult cfg srt now id r).2.getResult cfg srt' now id).1 =
        some { r with submissionId := id } ↔
      (live t.store.results : Int) ≤ t.store.maxStoredResultsLocked cfg) ∧
    ((onSubmissionFinished (queryAt cfg srt' now) ⟨id, request, channel⟩).run
        (t.store.updateResult cfg srt now id r).2).1 =
      if (live t.store.results : Int) ≤ t.store.maxStoredResultsLocked cfg
      then (encodeSubmissionFinished { r with submissionId := id }).map some else .ok none := by
  have hc : Counted t := by
    subst ht
    exact runCalls_counted cfg retention capacity calls hn
  have hsize : size t.store.results < 2 ^ 31 := by
    have hle := hc.size_le
    omega
  have hans := final_answer srt' hret hmax hsize hr hacc
  refine ⟨?_, ?_, ?_⟩
  · rw [hans]
    by_cases hfit : (live t.store.results : Int) ≤ t.store.maxStoredResultsLocked cfg
    · rw [if_pos hfit]
      constructor
      · intro h
        refine ⟨hfit, ?_⟩
        rw [← Option.some.inj h]
      · intro h
        rw [← h.2]
    · rw [if_neg hfit]
      constructor
      · intro h
        cases h
      · intro h
        exact absurd h.1 hfit
  · rw [hans]
    by_cases hfit : (live t.store.results : Int) ≤ t.store.maxStoredResultsLocked cfg
    · rw [if_pos hfit]
      exact ⟨fun _ => hfit, fun _ => rfl⟩
    · rw [if_neg hfit]
      constructor
      · intro h
        cases h
      · intro h
        exact absurd h hfit
  · rw [onSubmissionFinished_at]
    change finishedMessage ((t.store.updateResult cfg srt now id r).2.getResult cfg srt' now id).1 = _
    rw [hans]
    by_cases hfit : (live t.store.results : Int) ≤ t.store.maxStoredResultsLocked cfg
    · rw [if_pos hfit, if_pos hfit]
      have hstatus : r.status = .finished ∨ r.status = .failed := by
        simpa [isTerminalStatus] using hr
      change (encodeResult { r with submissionId := id }).map some = _
      unfold encodeResult
      rw [if_pos hstatus]
    · rw [if_neg hfit, if_neg hfit]
      rfl

/-- Two submissions in a store for one result: the first is finished. -/
def crowdedCalls (count : Nat) : List (StoreCall × StoreInput) :=
  List.replicate count (.createSubmission sampleRequest, ⟨0, 0, .stable⟩) ++
    [(.updateResult 1 { status := .preparing }, ⟨0, 0, .stable⟩)]

def crowdedStore (count : Nat) : TracedStore :=
  runCalls {} (.start (some 10) (some 1)) (crowdedCalls count)

def failedResult : SubmissionResult := makeResult 1 .failed .systemError

theorem final_result_readable_alone :
    ((crowdedStore 1).store.updateResult {} .stable 0 1 failedResult).1 = true ∧
    (((crowdedStore 1).store.updateResult {} .stable 0 1 failedResult).2.getResult {} .stable 0 1).1 =
      some failedResult := by
  have hacc : ((crowdedStore 1).store.updateResult {} .stable 0 1 failedResult).1 = true := by decide
  refine ⟨hacc, ?_⟩
  have h := final_result_readable_iff {} (some 10) (some 1) (crowdedCalls 1) (crowdedStore 1) rfl
    (by decide) (by decide) (by decide) 1 failedResult rfl .stable .stable 0 sampleRequest [] hacc
  exact h.1.mpr ⟨by decide, rfl⟩

/-- With another submission still waiting, the final result is gone at once and the
finished event has nothing to send. -/
theorem final_result_evicted :
    ((crowdedStore 2).store.updateResult {} .stable 0 1 failedResult).1 = true ∧
    (((crowdedStore 2).store.updateResult {} .stable 0 1 failedResult).2.getResult {} .stable 0 1).1 =
      none ∧
    ((onSubmissionFinished (queryAt {} .stable 0) ⟨1, sampleRequest, []⟩).run
      ((crowdedStore 2).store.updateResult {} .stable 0 1 failedResult).2).1 = .ok none := by
  have hnone : (((crowdedStore 2).store.updateResult {} .stable 0 1 failedResult).2.getResult {}
      .stable 0 1).1 = none := by decide
  refine ⟨by decide, hnone, ?_⟩
  rw [onSubmissionFinished_at]
  change finishedMessage (((crowdedStore 2).store.updateResult {} .stable 0 1
    failedResult).2.getResult {} .stable 0 1).1 = _
  rw [hnone]
  rfl

end JudgeServer.Network
