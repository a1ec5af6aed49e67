import JudgeServer.Pipeline.Eviction
import Mathlib.Data.Int.Interval

/-!
# The eviction policy

What `cleanupExpiredResultsLocked` is for, said without its two loops: records past their
retention go, then the oldest finished ones until the table fits, and a second call at the
same instant finds nothing to do. The code compares `static_cast<int>(results_.size())`
with the capacity, so it follows the policy as long as the cast keeps the size.
-/

namespace JudgeServer.Pipeline

open JudgeServer.Common
open JudgeServer.Lib.KeyedMap

/-- A store as its types and its operations leave it. -/
structure StoreContent (cfg : CleanupConfig) (st : ResultStore) : Prop where
  finished : ∀ id stored, st.results.lookup id = some stored →
    (stored.finishedAt.isSome ↔ isTerminalStatus stored.result.status = true)
  ids : ∀ id stored, st.results.lookup id = some stored → -2 ^ 31 ≤ id ∧ id < 2 ^ 31
  capacity : st.maxStoredResultsLocked cfg < 2 ^ 31

/-- Finished, and for at least the retention. A negative retention keeps everything. -/
def aged (retention : Int) (now : TimePoint) (stored : StoredSubmission) : Bool :=
  0 ≤ retention && match stored.finishedAt with
    | none => false
    | some t => seconds retention ≤ now - t

namespace ResultStore

section Policy

variable (cfg : CleanupConfig) (srt : EntrySort) (now : TimePoint) (st : ResultStore)

/-- The number of records that are not removed by their age. -/
def remaining : Nat :=
  count (fun s => !aged (st.resultRetentionSecondsLocked cfg) now s) st.results

def remainingFinished : Nat :=
  count (fun s => isTerminalStatus s.result.status &&
    !aged (st.resultRetentionSecondsLocked cfg) now s) st.results

/-- The entries that are gone for another reason than their age. -/
def furtherRemoved : List (Sigma fun _ : Int => StoredSubmission) :=
  st.results.entries.filter fun e =>
    !aged (st.resultRetentionSecondsLocked cfg) now e.2 &&
      ((st.cleanupExpiredResultsLocked cfg srt now).results.lookup e.1).isNone

end Policy

structure FollowsPolicy (cfg : CleanupConfig) (srt : EntrySort) (now : TimePoint)
    (st : ResultStore) : Prop where
  unfinished : ∀ id stored, st.results.lookup id = some stored →
    isTerminalStatus stored.result.status = false →
    (st.cleanupExpiredResultsLocked cfg srt now).results.lookup id = some stored
  expired : ∀ id stored, st.results.lookup id = some stored →
    aged (st.resultRetentionSecondsLocked cfg) now stored = true →
    (st.cleanupExpiredResultsLocked cfg srt now).results.lookup id = none
  removed : (furtherRemoved cfg srt now st).length =
    if 0 < st.maxStoredResultsLocked cfg then
      min (remainingFinished cfg now st)
        (remaining cfg now st - st.maxStoredResultsLocked cfg).toNat
    else 0
  oldest : ∀ e ∈ furtherRemoved cfg srt now st, ∀ id stored t',
    (st.cleanupExpiredResultsLocked cfg srt now).results.lookup id = some stored →
    stored.finishedAt = some t' → ∃ t, e.2.finishedAt = some t ∧ t ≤ t'
  survivors : ∀ id stored,
    (st.cleanupExpiredResultsLocked cfg srt now).results.lookup id = some stored →
    st.results.lookup id = some stored
  again : ∀ srt' : EntrySort,
    (st.cleanupExpiredResultsLocked cfg srt now).cleanupExpiredResultsLocked cfg srt' now =
      st.cleanupExpiredResultsLocked cfg srt now

section Passes

variable {cfg : CleanupConfig} {srt : EntrySort} {now : TimePoint} {st : ResultStore}

theorem expire_eq_keep (cfg : CleanupConfig) (now : TimePoint) (st : ResultStore) :
    st.expire cfg now =
      keep (fun s => !aged (st.resultRetentionSecondsLocked cfg) now s) st.results := by
  unfold expire
  split
  · next hret =>
    apply congrArg (keep · st.results)
    funext stored
    unfold unexpired aged
    cases stored.finishedAt <;> simp [hret]
  · next hret =>
    symm
    apply keep_eq_self
    intro e _
    simp [aged, hret]

theorem lookup_expire {id : Int} {stored : StoredSubmission} :
    (st.expire cfg now).lookup id = some stored ↔ st.results.lookup id = some stored ∧
      aged (st.resultRetentionSecondsLocked cfg) now stored = false := by
  rw [expire_eq_keep, lookup_keep, Option.filter_eq_some_iff, Bool.not_eq_true']

theorem size_expire : size (st.expire cfg now) = remaining cfg now st := by
  rw [expire_eq_keep]
  exact List.countP_eq_length_filter.symm

theorem length_finishedEntries (m : Table Int StoredSubmission) :
    (finishedEntries m).length = count (fun s => s.finishedAt.isSome) m := by
  unfold finishedEntries count
  rw [List.length_filterMap_eq_countP]
  simp only [Option.isSome_map]

theorem length_finishedEntries_expire (h : StoreContent cfg st) :
    (finishedEntries (st.expire cfg now)).length = remainingFinished cfg now st := by
  rw [length_finishedEntries, expire_eq_keep]
  unfold remainingFinished count keep
  rw [List.countP_filter]
  apply List.countP_congr
  intro e he
  have hiff := h.finished e.1 e.2 (lookup_iff.mpr he)
  simp only [Bool.and_eq_true, hiff]

theorem finishedEntries_keys (m : Table Int StoredSubmission) :
    ((finishedEntries m).map Prod.fst).Nodup := by
  have hsub : ∀ l : List (Sigma fun _ : Int => StoredSubmission),
      ((l.filterMap fun e => e.2.finishedAt.map fun t => (e.1, t)).map Prod.fst).Sublist
        l.keys := by
    intro l
    induction l with
    | nil => exact List.Sublist.slnil
    | cons e l ih =>
      rw [List.filterMap_cons, List.keys_cons]
      cases e.2.finishedAt with
      | none => exact ih.cons _
      | some t => exact ih.cons_cons _
  exact (hsub m.entries).nodup m.nodupKeys

/-- As long as the cast keeps the size, the pass erases as many as there are too many. -/
theorem evictOldest_eq_eraseAll (maxStored : Int) (es : List (Int × TimePoint)) :
    ∀ m : Table Int StoredSubmission, size m < 2 ^ 31 → (es.map Prod.fst).Nodup →
      (∀ k ∈ es.map Prod.fst, ∃ v, m.lookup k = some v) →
      evictOldest maxStored es m =
        eraseAll ((es.map Prod.fst).take (size m - maxStored).toNat) m := by
  induction es with
  | nil => intro m _ _ _; rw [List.map_nil, List.take_nil]; rfl
  | cons e es ih =>
    intro m hsize hnodup hin
    rw [List.map_cons, List.nodup_cons] at hnodup
    rw [evictOldest, toInt32_of_lt hsize]
    split
    · next hfits =>
      have hzero : (size m - maxStored).toNat = 0 := by omega
      rw [hzero]
      rfl
    · next hmore =>
      obtain ⟨v, hv⟩ := hin e.1 List.mem_cons_self
      have herase := size_erase hv
      have hcount : (size m - maxStored).toNat = (size (m.erase e.1) - maxStored).toNat + 1 := by
        omega
      have hrest : ∀ k ∈ es.map Prod.fst, ∃ w, (m.erase e.1).lookup k = some w := by
        intro k hk
        rw [lookup_erase_eq, if_neg (ne_of_mem_of_not_mem hk hnodup.1)]
        exact hin k (List.mem_cons_of_mem _ hk)
      rw [ih (m.erase e.1) (by omega) hnodup.2 hrest, hcount, List.map_cons, List.take_succ_cons]
      rfl

/-- The candidates of the second pass, oldest first. -/
def candidates (cfg : CleanupConfig) (srt : EntrySort) (now : TimePoint) (st : ResultStore) :
    List (Int × TimePoint) :=
  srt.sort (finishedEntries (st.expire cfg now))

/-- How many of them the policy takes. -/
def surplus (cfg : CleanupConfig) (now : TimePoint) (st : ResultStore) : Nat :=
  if 0 < st.maxStoredResultsLocked cfg then
    (remaining cfg now st - st.maxStoredResultsLocked cfg).toNat
  else 0

/-- The cast keeps the size, or nothing depends on it. -/
def CastHarmless (cfg : CleanupConfig) (now : TimePoint) (st : ResultStore) : Prop :=
  st.maxStoredResultsLocked cfg ≤ 0 ∨ remaining cfg now st < 2 ^ 31 ∨
    remainingFinished cfg now st = 0

theorem mem_candidates {e : Int × TimePoint} : e ∈ candidates cfg srt now st ↔
    ∃ stored, (st.expire cfg now).lookup e.1 = some stored ∧ stored.finishedAt = some e.2 := by
  unfold candidates
  rw [(srt.perm _).mem_iff]
  constructor
  · exact finishedEntries_mem
  · rintro ⟨stored, hs, hf⟩
    exact mem_finishedEntries hs hf

theorem candidates_nodup (cfg : CleanupConfig) (srt : EntrySort) (now : TimePoint)
    (st : ResultStore) : ((candidates cfg srt now st).map Prod.fst).Nodup :=
  ((srt.perm _).map Prod.fst).nodup_iff.mpr (finishedEntries_keys _)

theorem candidates_found {k : Int} (h : k ∈ (candidates cfg srt now st).map Prod.fst) :
    ∃ v, (st.expire cfg now).lookup k = some v := by
  obtain ⟨e, he, rfl⟩ := List.mem_map.mp h
  obtain ⟨stored, hs, -⟩ := mem_candidates.mp he
  exact ⟨stored, hs⟩

theorem length_candidates (h : StoreContent cfg st) :
    (candidates cfg srt now st).length = remainingFinished cfg now st :=
  (srt.perm _).length_eq.trans (length_finishedEntries_expire h)

/-- Both passes in one: the surplus is erased from the front of the candidates. -/
theorem cleanup_results (srt : EntrySort) (h : StoreContent cfg st)
    (hcast : CastHarmless cfg now st) :
    (st.cleanupExpiredResultsLocked cfg srt now).results =
      eraseAll (((candidates cfg srt now st).map Prod.fst).take (surplus cfg now st))
        (st.expire cfg now) := by
  unfold cleanupExpiredResultsLocked
  dsimp only
  rw [size_expire]
  by_cases hmax : 0 < st.maxStoredResultsLocked cfg
  · have hsurplus : surplus cfg now st =
        (remaining cfg now st - st.maxStoredResultsLocked cfg).toNat := if_pos hmax
    rcases hcast with hneg | hsmall | hnone
    · omega
    · rw [toInt32_of_lt hsmall]
      split
      · next hstop =>
        have hzero : surplus cfg now st = 0 := by omega
        rw [hzero]
        rfl
      · rw [hsurplus, ← size_expire]
        apply evictOldest_eq_eraseAll
        · rwa [size_expire]
        · exact candidates_nodup cfg srt now st
        · intro k hk
          exact candidates_found hk
    · have hempty : candidates cfg srt now st = [] := by
        rw [← List.length_eq_zero_iff, length_candidates h, hnone]
      rw [hempty, List.map_nil, List.take_nil]
      split
      · rfl
      · show evictOldest _ (candidates cfg srt now st) _ = _
        rw [hempty]
        rfl
  · have hsurplus : surplus cfg now st = 0 := if_neg hmax
    rw [if_pos (.inl (Int.not_lt.mp hmax)), hsurplus]
    rfl

/-- A call touches the table only. -/
theorem cleanup_eq_results (cfg : CleanupConfig) (srt : EntrySort) (now : TimePoint)
    (st : ResultStore) : st.cleanupExpiredResultsLocked cfg srt now =
      { st with results := (st.cleanupExpiredResultsLocked cfg srt now).results } := by
  unfold cleanupExpiredResultsLocked
  dsimp only
  split <;> rfl

theorem maxStoredResultsLocked_cleanup :
    (st.cleanupExpiredResultsLocked cfg srt now).maxStoredResultsLocked cfg =
      st.maxStoredResultsLocked cfg := by
  rw [cleanup_eq_results]
  rfl

theorem resultRetentionSecondsLocked_cleanup :
    (st.cleanupExpiredResultsLocked cfg srt now).resultRetentionSecondsLocked cfg =
      st.resultRetentionSecondsLocked cfg := by
  rw [cleanup_eq_results]
  rfl

theorem furtherRemoved_eq : furtherRemoved cfg srt now st =
    (st.expire cfg now).entries.filter fun e =>
      ((st.cleanupExpiredResultsLocked cfg srt now).results.lookup e.1).isNone := by
  rw [expire_eq_keep]
  unfold furtherRemoved keep
  rw [List.filter_filter]
  apply List.filter_congr
  intro e _
  exact Bool.and_comm _ _

theorem mem_furtherRemoved {e : Sigma fun _ : Int => StoredSubmission} :
    e ∈ furtherRemoved cfg srt now st ↔ (st.expire cfg now).lookup e.1 = some e.2 ∧
      (st.cleanupExpiredResultsLocked cfg srt now).results.lookup e.1 = none := by
  rw [furtherRemoved_eq, List.mem_filter, lookup_iff, Option.isNone_iff_eq_none]

theorem size_cleanup_add (cfg : CleanupConfig) (srt : EntrySort) (now : TimePoint)
    (st : ResultStore) : size (st.cleanupExpiredResultsLocked cfg srt now).results +
    (furtherRemoved cfg srt now st).length = remaining cfg now st := by
  rw [furtherRemoved_eq, ← size_expire]
  apply size_add_lost
  intro id stored
  exact cleanup_from_expire

/-- Finished and unfinished records together are the table. -/
theorem remainingFinished_add_live (now : TimePoint) (h : StoreContent cfg st) :
    remainingFinished cfg now st + live st.results = remaining cfg now st := by
  rw [← length_finishedEntries_expire h, length_finishedEntries, ← live_expire cfg now,
    ← size_expire]
  have hsplit := List.length_eq_countP_add_countP (l := (st.expire cfg now).entries)
    fun e => e.2.finishedAt.isSome
  rw [show size (st.expire cfg now) = (st.expire cfg now).entries.length from rfl, hsplit]
  apply congrArg (count (fun s => s.finishedAt.isSome) (st.expire cfg now) + ·)
  apply List.countP_congr
  intro e _
  simp

section Harmless

variable (h : StoreContent cfg st) (hcast : CastHarmless cfg now st)

include h hcast

theorem lookup_cleanup (id : Int) :
    (st.cleanupExpiredResultsLocked cfg srt now).results.lookup id =
      if id ∈ ((candidates cfg srt now st).map Prod.fst).take (surplus cfg now st) then none
      else (st.expire cfg now).lookup id := by
  rw [cleanup_results srt h hcast, lookup_eraseAll]

theorem length_furtherRemoved : (furtherRemoved cfg srt now st).length =
    min (remainingFinished cfg now st) (surplus cfg now st) := by
  have hadd := size_cleanup_add cfg srt now st
  have hnodup := (candidates_nodup cfg srt now st).sublist (List.take_sublist (surplus cfg now st) _)
  have herase := size_eraseAll hnodup (st.expire cfg now)
    fun k hk => candidates_found (List.mem_of_mem_take hk)
  rw [← cleanup_results srt h hcast, List.length_take, List.length_map, length_candidates h,
    size_expire] at herase
  omega

/-- What went for the capacity stands before what stayed in the order of `std::sort`. -/
theorem furtherRemoved_oldest {e : Sigma fun _ : Int => StoredSubmission}
    (he : e ∈ furtherRemoved cfg srt now st) {id : Int} {stored : StoredSubmission} {t' : TimePoint}
    (hs : (st.cleanupExpiredResultsLocked cfg srt now).results.lookup id = some stored)
    (ht : stored.finishedAt = some t') : ∃ t, e.2.finishedAt = some t ∧ t ≤ t' := by
  obtain ⟨hold, hgone⟩ := mem_furtherRemoved.mp he
  rw [lookup_cleanup h hcast, hold] at hgone
  have hkept := hs
  rw [lookup_cleanup h hcast] at hkept
  split at hgone
  · next hfront =>
    split at hkept
    · cases hkept
    · next hback =>
      rw [← List.map_take] at hfront hback
      obtain ⟨c, hc, hce⟩ := List.mem_map.mp hfront
      obtain ⟨other, hother, hfin⟩ := mem_candidates.mp (List.mem_of_mem_take hc)
      rw [hce, hold] at hother
      obtain rfl := Option.some.inj hother
      have hmem : (id, t') ∈ candidates cfg srt now st := mem_candidates.mpr ⟨stored, hkept, ht⟩
      rw [← List.take_append_drop (surplus cfg now st) (candidates cfg srt now st),
        List.mem_append] at hmem
      -- `e` is in the front part of the candidates and `id` in the rest, which is not older
      have hsorted := srt.sorted (finishedEntries (st.expire cfg now))
      change (candidates cfg srt now st).Pairwise _ at hsorted
      rw [← List.take_append_drop (surplus cfg now st) (candidates cfg srt now st),
        List.pairwise_append] at hsorted
      rcases hmem with hin | hin
      · exact absurd (List.mem_map_of_mem hin) hback
      · exact ⟨c.2, hfin, hsorted.2.2 c hc (id, t') hin⟩
  · cases hgone

end Harmless

/-- What a call leaves is not removed by its age at the same instant. -/
theorem expire_cleanup (cfg : CleanupConfig) (srt : EntrySort) (now : TimePoint)
    (st : ResultStore) : (st.cleanupExpiredResultsLocked cfg srt now).expire cfg now =
      (st.cleanupExpiredResultsLocked cfg srt now).results := by
  rw [expire_eq_keep, resultRetentionSecondsLocked_cleanup]
  apply keep_eq_self
  intro e he
  have hold := cleanup_from_expire (lookup_iff.mpr he)
  rw [(lookup_expire.mp hold).2]
  rfl

/-- The settings are those of before, and so is every record that is left. -/
theorem cleanup_content (srt : EntrySort) (now : TimePoint) (h : StoreContent cfg st) :
    StoreContent cfg (st.cleanupExpiredResultsLocked cfg srt now) := by
  have hev := cleanup_evicts cfg srt now st
  exact {
    finished := fun id stored hs => h.finished id stored (hev.table.survivor hs)
    ids := fun id stored hs => h.ids id stored (hev.table.survivor hs)
    capacity := by
      rw [maxStoredResultsLocked_cleanup]
      exact h.capacity }

/-- A second call finds no surplus, or no finished record to take it from. -/
theorem cleanup_exhausted (srt : EntrySort) (h : StoreContent cfg st)
    (hcast : CastHarmless cfg now st) :
    surplus cfg now (st.cleanupExpiredResultsLocked cfg srt now) = 0 ∨
      remainingFinished cfg now (st.cleanupExpiredResultsLocked cfg srt now) = 0 := by
  have hafter := remainingFinished_add_live now (cleanup_content srt now h)
  have hbefore := remainingFinished_add_live now h
  have hadd := size_cleanup_add cfg srt now st
  rw [length_furtherRemoved h hcast] at hadd
  rw [live_cleanup, ← size_expire, expire_cleanup] at hafter
  -- either the surplus was taken in full, or the finished records ran out first
  unfold surplus
  rw [← size_expire, expire_cleanup, maxStoredResultsLocked_cleanup]
  unfold surplus at hadd
  split
  · next hmax =>
    rw [if_pos hmax] at hadd
    omega
  · exact .inl rfl

/-- The cast stays harmless, since nothing is added. -/
theorem cleanup_castHarmless (srt : EntrySort) (h : StoreContent cfg st)
    (hcast : CastHarmless cfg now st) :
    CastHarmless cfg now (st.cleanupExpiredResultsLocked cfg srt now) := by
  have hafter := remainingFinished_add_live now (cleanup_content srt now h)
  have hbefore := remainingFinished_add_live now h
  have hadd := size_cleanup_add cfg srt now st
  unfold CastHarmless at hcast ⊢
  rw [live_cleanup] at hafter
  rw [← expire_cleanup, size_expire] at hadd
  rw [maxStoredResultsLocked_cleanup]
  omega

theorem cleanup_again (srt' : EntrySort) (h : StoreContent cfg st)
    (hcast : CastHarmless cfg now st) :
    (st.cleanupExpiredResultsLocked cfg srt now).cleanupExpiredResultsLocked cfg srt' now =
      st.cleanupExpiredResultsLocked cfg srt now := by
  have hcontent := cleanup_content srt now h
  have hnone : ((candidates cfg srt' now (st.cleanupExpiredResultsLocked cfg srt now)).map
      Prod.fst).take (surplus cfg now (st.cleanupExpiredResultsLocked cfg srt now)) = [] := by
    rcases cleanup_exhausted srt h hcast with hzero | hzero
    · rw [hzero]
      rfl
    · rw [← length_candidates hcontent, List.length_eq_zero_iff] at hzero
      rw [hzero, List.map_nil, List.take_nil]
  rw [cleanup_eq_results cfg srt' now, cleanup_results srt' hcontent
    (cleanup_castHarmless srt h hcast), hnone, expire_cleanup]
  rfl

theorem followsPolicy_of_harmless (srt : EntrySort) (h : StoreContent cfg st)
    (hcast : CastHarmless cfg now st) : FollowsPolicy cfg srt now st := by
  have hev := (cleanup_evicts cfg srt now st).table
  constructor
  · intro id stored hs hlive
    apply hev.live hs
    have hiff := h.finished id stored hs
    rw [hlive] at hiff
    cases hf : stored.finishedAt with
    | none => rfl
    | some t => simp [hf] at hiff
  · intro id stored hs hage
    cases hn : (st.cleanupExpiredResultsLocked cfg srt now).results.lookup id with
    | none => rfl
    | some other =>
      obtain ⟨hother, hyoung⟩ := lookup_expire.mp (cleanup_from_expire hn)
      rw [hs] at hother
      rw [Option.some.inj hother, hyoung] at hage
      cases hage
  · rw [length_furtherRemoved h hcast]
    unfold surplus
    split
    · rfl
    · exact Nat.min_zero _
  · intro e he id stored t' hs ht
    exact furtherRemoved_oldest h hcast he hs ht
  · intro id stored hs
    exact hev.survivor hs
  · intro srt'
    exact cleanup_again srt' h hcast

/-- The ids of a table are ints, so there are no more than `2 ^ 32` of them. -/
theorem size_le_of_ids {m : Table Int StoredSubmission}
    (h : ∀ id stored, m.lookup id = some stored → -2 ^ 31 ≤ id ∧ id < 2 ^ 31) :
    size m ≤ 2 ^ 32 := by
  have hsub : m.entries.keys.toFinset ⊆ Finset.Ico (-2 ^ 31) (2 ^ 31) := by
    intro id hid
    obtain ⟨stored, hmem⟩ := List.exists_of_mem_keys (List.mem_toFinset.mp hid)
    exact Finset.mem_Ico.mpr (h id stored (lookup_iff.mpr hmem))
  have hcard := Finset.card_le_card hsub
  rw [List.toFinset_card_of_nodup m.nodupKeys, Int.card_Ico] at hcard
  have hlen : m.entries.keys.length = size m := List.length_map _
  omega

theorem toInt32_nonpos {n : Nat} (hlow : 2 ^ 31 ≤ n) (hhigh : n ≤ 2 ^ 32) : toInt32 n ≤ 0 := by
  unfold toInt32
  rw [Int.bmod_def]
  split <;> omega

/-- With more records than an int can count, nothing goes for the capacity. -/
theorem furtherRemoved_of_not_harmless (srt : EntrySort) (h : StoreContent cfg st)
    (hcast : ¬ CastHarmless cfg now st) : (furtherRemoved cfg srt now st).length = 0 := by
  unfold CastHarmless at hcast
  have hsize := size_le_of_ids h.ids
  have hrem : remaining cfg now st ≤ size st.results := count_le_size _ _
  have hneg := toInt32_nonpos (n := remaining cfg now st) (by omega) (by omega)
  have hresults : (st.cleanupExpiredResultsLocked cfg srt now).results = st.expire cfg now := by
    unfold cleanupExpiredResultsLocked
    dsimp only
    rw [size_expire, if_pos (.inr (by omega))]
  have hadd := size_cleanup_add cfg srt now st
  rw [hresults, size_expire] at hadd
  omega

theorem not_followsPolicy (srt : EntrySort) (h : StoreContent cfg st)
    (hcast : ¬ CastHarmless cfg now st) : ¬ FollowsPolicy cfg srt now st := by
  intro hpolicy
  have hremoved := hpolicy.removed
  have hcapacity := h.capacity
  rw [furtherRemoved_of_not_harmless srt h hcast] at hremoved
  unfold CastHarmless at hcast
  rw [if_pos (by omega)] at hremoved
  omega

end Passes

/-- For every content of the store, every setting, instant and order of `std::sort`: a call
follows the policy if and only if fewer than `2 ^ 31` records remain after their age has been
looked at, or there is no capacity, or no finished record remains. -/
theorem eviction_follows_policy_iff (cfg : CleanupConfig) (srt : EntrySort) (now : TimePoint)
    (st : ResultStore) (h : StoreContent cfg st) :
    FollowsPolicy cfg srt now st ↔ CastHarmless cfg now st := by
  constructor
  · intro hpolicy
    by_contra hcast
    exact not_followsPolicy srt h hcast hpolicy
  · exact followsPolicy_of_harmless srt h

def finishedRecord (id : Int) : StoredSubmission where
  result := { submissionId := id, status := .finished }
  lastAccessAt := 0
  finishedAt := some 0

/-- The records `0` to `n - 1`, all finished at instant 0. -/
def finishedUpTo (n : Nat) : ResultStore where
  results := {
    entries := (List.range n).map fun i : Nat => ⟨i, finishedRecord i⟩
    nodupKeys := by
      unfold List.NodupKeys List.keys
      rw [List.map_map]
      exact List.nodup_range.map Nat.cast_injective }

theorem finishedUpTo_lookup {n : Nat} {id : Int} {stored : StoredSubmission}
    (h : (finishedUpTo n).results.lookup id = some stored) :
    0 ≤ id ∧ id < n ∧ stored = finishedRecord id := by
  obtain ⟨i, hi, he⟩ := List.mem_map.mp (lookup_iff.mp h)
  rw [List.mem_range] at hi
  cases he
  exact ⟨by omega, by omega, rfl⟩

theorem finishedUpTo_content {n : Nat} (hn : n ≤ 2 ^ 31) {cfg : CleanupConfig}
    (hmax : cfg.maxStoredResults < 2 ^ 31) : StoreContent cfg (finishedUpTo n) where
  finished := by
    intro id stored hs
    rw [(finishedUpTo_lookup hs).2.2]
    exact iff_of_true rfl rfl
  ids := by
    intro id stored hs
    obtain ⟨hlow, hhigh, -⟩ := finishedUpTo_lookup hs
    omega
  capacity := hmax

theorem finishedUpTo_count {n : Nat} {p : StoredSubmission → Bool}
    (h : ∀ id, p (finishedRecord id) = true) : count p (finishedUpTo n).results = n := by
  have hall : count p (finishedUpTo n).results = size (finishedUpTo n).results := by
    apply count_eq_size_of_forall
    intro e he
    rw [(finishedUpTo_lookup (lookup_iff.mpr he)).2.2]
    exact h e.1
  rw [hall]
  exact (List.length_map _).trans List.length_range

theorem small_store_follows_policy :
    FollowsPolicy { maxStoredResults := 1 } .stable 0 (finishedUpTo 2) ∧
      (furtherRemoved { maxStoredResults := 1 } .stable 0 (finishedUpTo 2)).length = 1 :=
  ⟨(eviction_follows_policy_iff _ _ _ _ (finishedUpTo_content (by decide) (by decide))).mpr
    (.inr (.inl (by decide))), by decide⟩

/-- `2 ^ 31` finished records and room for 1000: the size is cast to a negative number, and
the call returns before it looks for the oldest. -/
theorem crowded_store_is_not_trimmed : StoreContent {} (finishedUpTo (2 ^ 31)) ∧
    (furtherRemoved {} .stable 0 (finishedUpTo (2 ^ 31))).length = 0 ∧
    remainingFinished {} 0 (finishedUpTo (2 ^ 31)) = 2 ^ 31 ∧
    ¬ FollowsPolicy {} .stable 0 (finishedUpTo (2 ^ 31)) := by
  have hcontent : StoreContent {} (finishedUpTo (2 ^ 31)) :=
    finishedUpTo_content (Nat.le_refl _) (by decide)
  have hremaining : remaining {} 0 (finishedUpTo (2 ^ 31)) = 2 ^ 31 :=
    finishedUpTo_count fun _ => rfl
  have hfinished : remainingFinished {} 0 (finishedUpTo (2 ^ 31)) = 2 ^ 31 :=
    finishedUpTo_count fun _ => rfl
  have hcast : ¬ CastHarmless {} 0 (finishedUpTo (2 ^ 31)) := by
    unfold CastHarmless
    rw [hremaining, hfinished]
    decide
  exact ⟨hcontent, furtherRemoved_of_not_harmless _ hcontent hcast, hfinished,
    not_followsPolicy _ hcontent hcast⟩

end ResultStore
end JudgeServer.Pipeline
