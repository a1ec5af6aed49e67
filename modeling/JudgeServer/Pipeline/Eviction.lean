import JudgeServer.Pipeline.ResultStore

/-!
# What one eviction pass can do

`cleanupExpiredResultsLocked` only ever removes finished records and never edits a
record. Everything the store operations guarantee about records of other
submissions is derived from `Evicts` below; the counting facts at the end say when
the capacity pass leaves the table within its limit.
-/

namespace JudgeServer.Pipeline

open JudgeServer.Common
open JudgeServer.Lib.KeyedMap

/-- `new` is `old` with some finished records removed. -/
def EvictsTable (old new : Table Int StoredSubmission) : Prop :=
  ∀ id, new.lookup id = old.lookup id ∨
    (new.lookup id = none ∧ ∃ stored, old.lookup id = some stored ∧ stored.finishedAt.isSome)

/-- The same for whole stores: nothing but the table changes. -/
structure Evicts (old new : ResultStore) : Prop where
  next : new.nextSubmissionId = old.nextSubmissionId
  retention : new.overrideRetentionSeconds = old.overrideRetentionSeconds
  capacity : new.overrideMaxStoredResults = old.overrideMaxStoredResults
  table : EvictsTable old.results new.results

theorem EvictsTable.refl (m : Table Int StoredSubmission) : EvictsTable m m := fun _ => .inl rfl

theorem EvictsTable.trans {a b c : Table Int StoredSubmission} (h : EvictsTable a b)
    (h' : EvictsTable b c) : EvictsTable a c := by
  intro id
  rcases h' id with he | ⟨hn, stored, hs, hf⟩
  · rw [he]
    exact h id
  · rcases h id with he | ⟨hn', _⟩
    · exact .inr ⟨hn, stored, he ▸ hs, hf⟩
    · rw [hn'] at hs
      cases hs

/-- A record still there after the pass is the record that was there before. -/
theorem EvictsTable.survivor {old new : Table Int StoredSubmission} (h : EvictsTable old new)
    {id : Int} {stored : StoredSubmission} (hs : new.lookup id = some stored) :
    old.lookup id = some stored := by
  rcases h id with he | ⟨hn, _⟩
  · exact he ▸ hs
  · rw [hn] at hs
    cases hs

/-- An unfinished record survives. -/
theorem EvictsTable.live {old new : Table Int StoredSubmission} (h : EvictsTable old new)
    {id : Int} {stored : StoredSubmission} (hs : old.lookup id = some stored)
    (hf : stored.finishedAt = none) : new.lookup id = some stored := by
  rcases h id with he | ⟨_, other, ho, hfo⟩
  · exact he.trans hs
  · rw [hs] at ho
    obtain rfl := Option.some.inj ho
    simp [hf] at hfo

theorem EvictsTable.missing {old new : Table Int StoredSubmission} (h : EvictsTable old new)
    {id : Int} (hs : old.lookup id = none) : new.lookup id = none := by
  rcases h id with he | ⟨hn, _⟩
  · exact he.trans hs
  · exact hn

namespace ResultStore

theorem finishedEntries_mem {m : Table Int StoredSubmission} {e : Int × TimePoint}
    (h : e ∈ finishedEntries m) :
    ∃ stored, m.lookup e.1 = some stored ∧ stored.finishedAt = some e.2 := by
  simp only [finishedEntries, List.mem_filterMap, Option.map_eq_some_iff] at h
  obtain ⟨entry, hm, t, ht, rfl⟩ := h
  exact ⟨entry.2, lookup_iff.mpr hm, ht⟩

theorem mem_finishedEntries {m : Table Int StoredSubmission} {id : Int} {t : TimePoint}
    {stored : StoredSubmission} (hs : m.lookup id = some stored)
    (hf : stored.finishedAt = some t) : (id, t) ∈ finishedEntries m := by
  simp only [finishedEntries, List.mem_filterMap, Option.map_eq_some_iff]
  exact ⟨⟨id, stored⟩, lookup_iff.mp hs, t, hf, rfl⟩

/-- The candidates handed to the second pass are finished in the current table, or already gone. -/
def Candidates (m : Table Int StoredSubmission) (es : List (Int × TimePoint)) : Prop :=
  ∀ e ∈ es, ∀ stored, m.lookup e.1 = some stored → stored.finishedAt.isSome

theorem candidates_erase {m : Table Int StoredSubmission} {es : List (Int × TimePoint)}
    (h : Candidates m es) (a : Int) : Candidates (m.erase a) es := by
  intro e he stored hs
  rw [lookup_erase_eq] at hs
  split at hs
  · cases hs
  · exact h e he stored hs

theorem candidates_sort (srt : EntrySort) (m : Table Int StoredSubmission) :
    Candidates m (srt.sort (finishedEntries m)) := by
  intro e he stored hs
  obtain ⟨other, ho, hf⟩ := finishedEntries_mem ((srt.perm _).mem_iff.mp he)
  rw [hs] at ho
  obtain rfl := Option.some.inj ho
  simp [hf]

theorem evicts_erase {m : Table Int StoredSubmission} {a : Int}
    (h : ∀ stored, m.lookup a = some stored → stored.finishedAt.isSome) :
    EvictsTable m (m.erase a) := by
  intro id
  rw [lookup_erase_eq]
  by_cases he : id = a
  · subst he
    cases hs : m.lookup id with
    | none => left; simp
    | some stored => right; exact ⟨by simp, stored, rfl, h stored hs⟩
  · left; simp [he]

theorem evictOldest_evicts (maxStored : Int) (es : List (Int × TimePoint)) :
    ∀ m, Candidates m es → EvictsTable m (evictOldest maxStored es m) := by
  induction es with
  | nil => intro m _; exact .refl m
  | cons e es ih =>
    intro m hc
    rw [evictOldest]
    split
    · exact .refl m
    · have hfirst : EvictsTable m (m.erase e.1) := evicts_erase (hc e (by simp))
      have hrest : Candidates (m.erase e.1) es :=
        candidates_erase (fun x hx => hc x (by simp [hx])) e.1
      exact hfirst.trans (ih _ hrest)

theorem expire_evicts (cfg : CleanupConfig) (now : TimePoint) (st : ResultStore) :
    EvictsTable st.results (st.expire cfg now) := by
  unfold expire
  split
  · intro id
    rw [lookup_keep]
    cases hs : st.results.lookup id with
    | none => left; rfl
    | some stored =>
        cases hf : stored.finishedAt with
        | none => left; simp [unexpired, hf]
        | some t =>
            by_cases hu : unexpired (seconds (st.resultRetentionSecondsLocked cfg)) now stored
            · left; simp [hu]
            · right; exact ⟨by simp [hu], stored, rfl, by simp [hf]⟩
  · exact .refl _

/-- Every eviction pass, at any instant and under any configuration. -/
theorem cleanup_evicts (cfg : CleanupConfig) (srt : EntrySort) (now : TimePoint)
    (st : ResultStore) : Evicts st (st.cleanupExpiredResultsLocked cfg srt now) := by
  have he := expire_evicts cfg now st
  unfold cleanupExpiredResultsLocked
  dsimp only
  split
  · exact ⟨rfl, rfl, rfl, he⟩
  · exact ⟨rfl, rfl, rfl, he.trans (evictOldest_evicts _ _ _ (candidates_sort srt _))⟩

/-- The number of unfinished records. -/
def live (m : Table Int StoredSubmission) : Nat := count (fun stored => stored.finishedAt.isNone) m

theorem live_le_size (m : Table Int StoredSubmission) : live m ≤ size m := count_le_size _ m

theorem live_eq_size {m : Table Int StoredSubmission}
    (h : ∀ id stored, m.lookup id = some stored → stored.finishedAt = none) : live m = size m := by
  apply count_eq_size_of_forall
  intro e he
  have hf := h e.1 e.2 (lookup_iff.mpr he)
  simp [hf]

theorem live_expire (cfg : CleanupConfig) (now : TimePoint) (st : ResultStore) :
    live (st.expire cfg now) = live st.results := by
  unfold expire
  split
  · apply count_keep
    intro stored hs
    have hf : stored.finishedAt = none := by simpa using hs
    simp [unexpired, hf]
  · rfl

theorem live_evictOldest (maxStored : Int) (es : List (Int × TimePoint)) :
    ∀ m, Candidates m es → live (evictOldest maxStored es m) = live m := by
  induction es with
  | nil => intro m _; rfl
  | cons e es ih =>
    intro m hc
    rw [evictOldest]
    split
    · rfl
    · have hrest : Candidates (m.erase e.1) es :=
        candidates_erase (fun x hx => hc x (by simp [hx])) e.1
      rw [ih _ hrest]
      apply count_erase
      intro stored hs
      have hf := hc e (by simp) stored hs
      simpa using hf

/-- An eviction pass does not change the number of unfinished records. -/
theorem live_cleanup (cfg : CleanupConfig) (srt : EntrySort) (now : TimePoint) (st : ResultStore) :
    live (st.cleanupExpiredResultsLocked cfg srt now).results = live st.results := by
  unfold cleanupExpiredResultsLocked
  dsimp only
  split
  · exact live_expire cfg now st
  · change live (evictOldest _ _ _) = _
    rw [live_evictOldest _ _ _ (candidates_sort srt _), live_expire]

theorem evictOldest_missing (maxStored : Int) (es : List (Int × TimePoint)) {id : Int} :
    ∀ m, m.lookup id = none → (evictOldest maxStored es m).lookup id = none := by
  induction es with
  | nil => intro m h; exact h
  | cons e es ih =>
    intro m h
    rw [evictOldest]
    split
    · exact h
    · apply ih
      rw [lookup_erase_eq, h, ite_self]

/-- The second pass ends with a table that fits, or without any of its candidates. -/
theorem evictOldest_fits (maxStored : Int) (es : List (Int × TimePoint)) :
    ∀ m, size m < 2 ^ 31 → (size (evictOldest maxStored es m) : Int) ≤ maxStored ∨
      ∀ e ∈ es, (evictOldest maxStored es m).lookup e.1 = none := by
  induction es with
  | nil => intro m _; right; simp
  | cons e es ih =>
    intro m hs
    rw [evictOldest, toInt32_of_lt hs]
    split
    · next h => exact .inl h
    · have hsmall : size (m.erase e.1) < 2 ^ 31 := Nat.lt_of_le_of_lt (size_erase_le m e.1) hs
      rcases ih (m.erase e.1) hsmall with h | h
      · exact .inl h
      · right
        intro x hx
        rcases List.mem_cons.mp hx with rfl | hx
        · apply evictOldest_missing
          rw [lookup_erase_eq, if_pos rfl]
        · exact h x hx

theorem size_expire_le (cfg : CleanupConfig) (now : TimePoint) (st : ResultStore) :
    size (st.expire cfg now) ≤ size st.results := by
  unfold expire
  split
  · exact size_keep_le _ _
  · exact Nat.le_refl _

theorem size_evictOldest_le (maxStored : Int) (es : List (Int × TimePoint)) :
    ∀ m, size (evictOldest maxStored es m) ≤ size m := by
  induction es with
  | nil => intro m; exact Nat.le_refl _
  | cons e es ih =>
    intro m
    rw [evictOldest]
    split
    · exact Nat.le_refl _
    · exact Nat.le_trans (ih _) (size_erase_le m e.1)

theorem size_cleanup_le (cfg : CleanupConfig) (srt : EntrySort) (now : TimePoint)
    (st : ResultStore) :
    size (st.cleanupExpiredResultsLocked cfg srt now).results ≤ size st.results := by
  unfold cleanupExpiredResultsLocked
  dsimp only
  split
  · exact size_expire_le cfg now st
  · exact Nat.le_trans (size_evictOldest_le _ _ _) (size_expire_le cfg now st)

/-- After a pass the table fits, or only unfinished records are left. -/
theorem cleanup_fits (cfg : CleanupConfig) (srt : EntrySort) (now : TimePoint) (st : ResultStore)
    (hmax : 0 < st.maxStoredResultsLocked cfg) (hs : size st.results < 2 ^ 31) :
    (size (st.cleanupExpiredResultsLocked cfg srt now).results : Int) ≤ st.maxStoredResultsLocked cfg ∨
      ∀ id stored, (st.cleanupExpiredResultsLocked cfg srt now).results.lookup id = some stored →
        stored.finishedAt = none := by
  have hle := size_expire_le cfg now st
  have hsmall : size (st.expire cfg now) < 2 ^ 31 := by omega
  unfold cleanupExpiredResultsLocked
  dsimp only
  rw [toInt32_of_lt hsmall]
  split
  · next h =>
    left
    rcases h with h | h
    · omega
    · exact h
  · rcases evictOldest_fits (st.maxStoredResultsLocked cfg)
      (srt.sort (finishedEntries (st.expire cfg now))) (st.expire cfg now) hsmall with h | h
    · exact .inl h
    · right
      intro id stored hl
      have hev := evictOldest_evicts (st.maxStoredResultsLocked cfg) _ _
        (candidates_sort srt (st.expire cfg now))
      have hold := hev.survivor hl
      cases hf : stored.finishedAt with
      | none => rfl
      | some t =>
        have hm := (srt.perm _).mem_iff.mpr (mem_finishedEntries hold hf)
        have hgone := h _ hm
        rw [hl] at hgone
        cases hgone

/-- The second pass leaves nothing that the first has not left. -/
theorem cleanup_from_expire {cfg : CleanupConfig} {srt : EntrySort} {now : TimePoint}
    {st : ResultStore} {id : Int} {stored : StoredSubmission}
    (h : (st.cleanupExpiredResultsLocked cfg srt now).results.lookup id = some stored) :
    (st.expire cfg now).lookup id = some stored := by
  unfold cleanupExpiredResultsLocked at h
  dsimp only at h
  split at h
  · exact h
  · exact (evictOldest_evicts _ _ _ (candidates_sort srt _)).survivor h

/-- What is left after a pass has not expired at that instant. -/
theorem cleanup_unexpired (cfg : CleanupConfig) (srt : EntrySort) (now : TimePoint)
    (st : ResultStore) (hret : 0 ≤ st.resultRetentionSecondsLocked cfg) {id : Int}
    {stored : StoredSubmission}
    (hl : (st.cleanupExpiredResultsLocked cfg srt now).results.lookup id = some stored) :
    unexpired (seconds (st.resultRetentionSecondsLocked cfg)) now stored = true := by
  have hex := cleanup_from_expire hl
  unfold expire at hex
  rw [if_pos hret, lookup_keep, Option.filter_eq_some_iff] at hex
  exact hex.2

/-- A pass over a table that fits and in which nothing has expired. -/
theorem cleanup_eq_self (cfg : CleanupConfig) (srt : EntrySort) (now : TimePoint)
    (st : ResultStore) (hret : 0 ≤ st.resultRetentionSecondsLocked cfg)
    (hs : size st.results < 2 ^ 31) (hfit : (size st.results : Int) ≤ st.maxStoredResultsLocked cfg)
    (hall : ∀ id stored, st.results.lookup id = some stored →
      unexpired (seconds (st.resultRetentionSecondsLocked cfg)) now stored = true) :
    st.cleanupExpiredResultsLocked cfg srt now = st := by
  have hex : st.expire cfg now = st.results := by
    unfold expire
    rw [if_pos hret]
    apply keep_eq_self
    intro e he
    exact hall e.1 e.2 (lookup_iff.mpr he)
  unfold cleanupExpiredResultsLocked
  dsimp only
  rw [hex, toInt32_of_lt hs, if_pos (.inr hfit)]

end ResultStore
end JudgeServer.Pipeline
