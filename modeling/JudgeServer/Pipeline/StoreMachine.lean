import JudgeServer.Lib.Cuts
import JudgeServer.Pipeline.StoreHistory
import Mathlib.Data.List.Chain
import Mathlib.Data.List.Perm.Subperm

/-!
# The store's state machine over whole runs

`DocumentedEdge` is the transition table of the protocol description, `Tracks` the
invariant of every run: the table holds the newest snapshot of each unfinished
submission, answers are current, statuses move along documented edges, and a
finished submission that was once missed stays missing.
-/

namespace JudgeServer.Pipeline

open JudgeServer.Common
open JudgeServer.Lib.KeyedMap
open JudgeServer.Lib.Cuts (split_snoc)

/-- The documented status transitions, with self-updates of an unfinished status. -/
inductive DocumentedEdge : SubmissionStatus → SubmissionStatus → Prop where
  | queuedPreparing : DocumentedEdge .queued .preparing
  | queuedFailed : DocumentedEdge .queued .failed
  | preparingCompiling : DocumentedEdge .preparing .compiling
  | preparingFailed : DocumentedEdge .preparing .failed
  | compilingRunning : DocumentedEdge .compiling .running
  | compilingFinished : DocumentedEdge .compiling .finished
  | compilingFailed : DocumentedEdge .compiling .failed
  | runningFinished : DocumentedEdge .running .finished
  | runningFailed : DocumentedEdge .running .failed
  | again {s : SubmissionStatus} (unfinished : isTerminalStatus s = false) : DocumentedEdge s s

/-- The coded test accepts exactly the documented edges. -/
theorem isValidTransition_iff (a b : SubmissionStatus) :
    isValidTransition a b = true ↔ DocumentedEdge a b := by
  constructor
  · intro h
    cases a <;> cases b <;> first
      | (simp [isValidTransition, isTerminalStatus] at h; done)
      | exact .again rfl
      | constructor
  · intro h
    cases h with
    | again hs => simp [isValidTransition, hs]
    | _ => decide

theorem DocumentedEdge.unfinished {a b : SubmissionStatus} (h : DocumentedEdge a b) :
    isTerminalStatus a = false := by
  cases h with
  | again hs => exact hs
  | _ => rfl

/-- In a documented sequence a terminal status is the last one. -/
theorem chain_terminal_last {l : List SubmissionStatus} (h : l.IsChain DocumentedEdge)
    {a b : List SubmissionStatus} {s : SubmissionStatus} (hl : l = a ++ s :: b)
    (hs : isTerminalStatus s = true) : b = [] := by
  cases b with
  | nil => rfl
  | cons x b =>
    subst hl
    have hx := (List.isChain_append.mp h).2.1
    have he := (List.isChain_cons_cons.mp hx).1.unfinished
    rw [hs] at he
    cases he

/-- The invariant of every run, relating the table to what has been answered. -/
structure Tracks (t : TracedStore) : Prop where
  nextPos : 1 ≤ t.store.nextSubmissionId
  fresh : ∀ id, t.store.nextSubmissionId ≤ id ∨ id < 1 → snapshots id t.history = []
  known : ∀ id r f, t.store.peek id = some (r, f) → (snapshots id t.history).getLast? = some r
  live : ∀ id r, (snapshots id t.history).getLast? = some r → isTerminalStatus r.status = false →
    t.store.peek id = some (r, none)
  finished : ∀ id r f, t.store.peek id = some (r, f) → (f.isSome ↔ isTerminalStatus r.status = true)
  chain : ∀ id, ((snapshots id t.history).map (·.status)).IsChain DocumentedEdge
  answers : ∀ a b id z, t.history = a ++ .got id (some z) :: b →
    (snapshots id a).getLast? = some z
  gone : ∀ a b id, t.history = a ++ .got id none :: b → snapshots id a ≠ [] →
    t.store.peek id = none ∧ ∀ z, Entry.got id z ∈ b → z = none

/-- A freshly constructed store, with or without the overrides of the test hooks. -/
def TracedStore.start (retention capacity : Option Int) : TracedStore where
  store := { overrideRetentionSeconds := retention, overrideMaxStoredResults := capacity }

theorem tracks_start (retention capacity : Option Int) :
    Tracks (TracedStore.start retention capacity) where
  nextPos := by simp [TracedStore.start]
  fresh := fun _ _ => rfl
  known := by simp [TracedStore.start, ResultStore.peek]
  live := by simp [TracedStore.start, snapshots]
  finished := by simp [TracedStore.start, ResultStore.peek]
  chain := by simp [TracedStore.start, snapshots]
  answers := by simp [TracedStore.start]
  gone := by simp [TracedStore.start]

/-- Records that are kept keep what the invariant says of them. -/
theorem Kept.peek_some {old new : ResultStore} {id : Int} (h : Kept old new id)
    {r : SubmissionResult} {f : Option TimePoint} (hn : new.peek id = some (r, f)) :
    old.peek id = some (r, f) := by
  rcases h with he | ⟨hnone, _⟩
  · exact he ▸ hn
  · rw [hnone] at hn
    cases hn

theorem Kept.peek_live {old new : ResultStore} {id : Int} (h : Kept old new id)
    {r : SubmissionResult} (ho : old.peek id = some (r, none)) : new.peek id = some (r, none) := by
  rcases h with he | ⟨_, r', t, ho'⟩
  · exact he.trans ho
  · rw [ho] at ho'
    cases ho'

theorem Kept.peek_none {old new : ResultStore} {id : Int} (h : Kept old new id)
    (ho : old.peek id = none) : new.peek id = none := by
  rcases h with he | ⟨hn, _⟩
  · exact he.trans ho
  · exact hn

/-- The per-submission half of the invariant, for an `id` the call did not store. -/
theorem Tracks.kept {t : TracedStore} (ht : Tracks t) {e : Entry} {st' : ResultStore} {id : Int}
    (hk : Kept t.store st' id) (he : e.stored id = none) :
    (∀ r f, st'.peek id = some (r, f) → (snapshots id (t.history ++ [e])).getLast? = some r) ∧
    (∀ r, (snapshots id (t.history ++ [e])).getLast? = some r → isTerminalStatus r.status = false →
      st'.peek id = some (r, none)) ∧
    (∀ r f, st'.peek id = some (r, f) → (f.isSome ↔ isTerminalStatus r.status = true)) ∧
    ((snapshots id (t.history ++ [e])).map (·.status)).IsChain DocumentedEdge := by
  have hs : snapshots id (t.history ++ [e]) = snapshots id t.history := by
    rw [snapshots_snoc, he]
    simp
  rw [hs]
  refine ⟨?_, ?_, ?_, ht.chain id⟩
  · intro r f hp
    exact ht.known id r f (hk.peek_some hp)
  · intro r hl hu
    exact hk.peek_live (ht.live id r hl hu)
  · intro r f hp
    exact ht.finished id r f (hk.peek_some hp)

/-- What an effect does to a submission that has been stored before and is gone. -/
theorem Effect.gone {t : TracedStore} (ht : Tracks t) {e : Entry} {st' : ResultStore}
    (he : Effect t.store e st') {id : Int} (hs : snapshots id t.history ≠ [])
    (hp : t.store.peek id = none) : st'.peek id = none := by
  cases he with
  | created next new others =>
      have hne : id ≠ t.store.nextSubmissionId := by
        intro h
        exact hs (ht.fresh id (.inl (h ▸ Int.le_refl _)))
      exact (others id hne).peek_none hp
  | refused i r next all => exact (all id).peek_none hp
  | stored i r now old f next found valid new others =>
      have hne : id ≠ i := by
        rintro rfl
        rw [hp] at found
        cases found
      exact (others id hne).peek_none hp
  | got i next all => exact (all id).peek_none hp

/-- A read answers with what the table holds after its eviction pass. -/
theorem Effect.read {st st' : ResultStore} {id : Int} {z : Option SubmissionResult}
    (he : Effect st (.got id z) st') : z = (st'.peek id).map Prod.fst ∧ Kept st st' id := by
  cases he with
  | got _ next all => exact ⟨rfl, all id⟩

/-- A successful read answers with a record that was there before it. -/
theorem Effect.read_some {st st' : ResultStore} {id : Int} {r : SubmissionResult}
    (he : Effect st (.got id (some r)) st') : ∃ f, st.peek id = some (r, f) := by
  obtain ⟨hz, hk⟩ := he.read
  obtain ⟨⟨r', f⟩, hp, rfl⟩ := Option.map_eq_some_iff.mp hz.symm
  exact ⟨f, hk.peek_some hp⟩

theorem Tracks.answers_step {t : TracedStore} (ht : Tracks t) {e : Entry} {st' : ResultStore}
    (he : Effect t.store e st') : ∀ a b id z, t.history ++ [e] = a ++ .got id (some z) :: b →
      (snapshots id a).getLast? = some z := by
  intro a b id z hs
  rcases split_snoc hs with ⟨_, rfl, rfl⟩ | ⟨b', _, hb⟩
  · obtain ⟨f, hp⟩ := he.read_some
    exact ht.known id z f hp
  · exact ht.answers a b' id z hb

theorem Tracks.gone_step {t : TracedStore} (ht : Tracks t) {e : Entry} {st' : ResultStore}
    (he : Effect t.store e st') : ∀ a b id, t.history ++ [e] = a ++ .got id none :: b →
      snapshots id a ≠ [] → st'.peek id = none ∧ ∀ z, Entry.got id z ∈ b → z = none := by
  intro a b id hs hne
  rcases split_snoc hs with ⟨rfl, rfl, rfl⟩ | ⟨b', rfl, hb⟩
  · have hz := he.read.1
    exact ⟨Option.map_eq_none_iff.mp hz.symm, by simp⟩
  · obtain ⟨hp, hall⟩ := ht.gone a b' id hb hne
    have hsome : snapshots id t.history ≠ [] := by
      rw [hb, snapshots_append]
      exact List.append_ne_nil_of_left_ne_nil hne _
    have hp' := he.gone ht hsome hp
    refine ⟨hp', ?_⟩
    intro z hz
    rcases List.mem_append.mp hz with hm | hm
    · exact hall z hm
    · obtain rfl := List.mem_singleton.mp hm
      rw [he.read.1, hp']
      rfl

/-- Creating a submission: the id is new to the history and starts `QUEUED`. -/
theorem Tracks.created {t : TracedStore} (ht : Tracks t) {st' : ResultStore}
    (he : Effect t.store (.created t.store.nextSubmissionId) st')
    (hnext : st'.nextSubmissionId = toInt32 (t.store.nextSubmissionId + 1))
    (hnew : st'.peek t.store.nextSubmissionId =
      some ({ submissionId := t.store.nextSubmissionId, status := .queued }, none))
    (hothers : ∀ id, id ≠ t.store.nextSubmissionId → Kept t.store st' id)
    (hn : t.store.nextSubmissionId < 2 ^ 31 - 1) :
    Tracks ⟨st', t.history ++ [.created t.store.nextSubmissionId]⟩ := by
  have hpos := ht.nextPos
  have hcast : toInt32 (t.store.nextSubmissionId + 1) = t.store.nextSubmissionId + 1 := by
    have h := toInt32_of_lt (n := (t.store.nextSubmissionId + 1).toNat) (by omega)
    rwa [Int.toNat_of_nonneg (by omega)] at h
  rw [hcast] at hnext
  have hsnap : snapshots t.store.nextSubmissionId
      (t.history ++ [.created t.store.nextSubmissionId]) =
      [{ submissionId := t.store.nextSubmissionId, status := .queued }] := by
    rw [snapshots_snoc, ht.fresh _ (.inl (Int.le_refl _))]
    simp [Entry.stored]
  have hother : ∀ id, id ≠ t.store.nextSubmissionId →
      (Entry.created t.store.nextSubmissionId).stored id = none := by
    intro id hne
    simp [Entry.stored, Ne.symm hne]
  constructor
  · simp only [hnext]; omega
  · intro id hid
    simp only [hnext] at hid
    have hne : id ≠ t.store.nextSubmissionId := by omega
    rw [snapshots_snoc, hother id hne, ht.fresh id (by omega)]
    rfl
  · intro id r f hp
    by_cases hid : id = t.store.nextSubmissionId
    · subst hid
      rw [hnew] at hp
      obtain ⟨rfl, rfl⟩ := Prod.mk.inj (Option.some.inj hp)
      rw [hsnap]
      rfl
    · exact (ht.kept (hothers id hid) (hother id hid)).1 r f hp
  · intro id r hl hu
    by_cases hid : id = t.store.nextSubmissionId
    · subst hid
      rw [hsnap] at hl
      obtain rfl := Option.some.inj hl
      exact hnew
    · exact (ht.kept (hothers id hid) (hother id hid)).2.1 r hl hu
  · intro id r f hp
    by_cases hid : id = t.store.nextSubmissionId
    · subst hid
      rw [hnew] at hp
      obtain ⟨rfl, rfl⟩ := Prod.mk.inj (Option.some.inj hp)
      simp [isTerminalStatus]
    · exact (ht.kept (hothers id hid) (hother id hid)).2.2.1 r f hp
  · intro id
    by_cases hid : id = t.store.nextSubmissionId
    · subst hid
      rw [hsnap]
      exact List.isChain_singleton _
    · exact (ht.kept (hothers id hid) (hother id hid)).2.2.2
  · exact ht.answers_step he
  · exact ht.gone_step he

/-- Storing a snapshot: it becomes the newest one, along a documented edge. -/
theorem Tracks.stored {t : TracedStore} (ht : Tracks t) {st' : ResultStore} {id : Int}
    {r old : SubmissionResult} {f : Option TimePoint} {now : TimePoint}
    (he : Effect t.store (.updated id r true) st')
    (hnext : st'.nextSubmissionId = t.store.nextSubmissionId)
    (hfound : t.store.peek id = some (old, f))
    (hvalid : isValidTransition old.status r.status = true)
    (hnew : st'.peek id = some ({ r with submissionId := id },
        if isTerminalStatus r.status then some now else f) ∨
      (st'.peek id = none ∧ (if isTerminalStatus r.status then some now else f).isSome))
    (hothers : ∀ i, i ≠ id → Kept t.store st' i) :
    Tracks ⟨st', t.history ++ [.updated id r true]⟩ := by
  have hedge := (isValidTransition_iff _ _).mp hvalid
  have hf : f = none := by
    have h := ht.finished id old f hfound
    rw [hedge.unfinished] at h
    simpa using h
  subst hf
  have hsnap : snapshots id (t.history ++ [.updated id r true]) =
      snapshots id t.history ++ [{ r with submissionId := id }] := by
    rw [snapshots_snoc]
    simp [Entry.stored]
  have hother : ∀ i, i ≠ id → (Entry.updated id r true).stored i = none := by
    intro i hne
    simp [Entry.stored, Ne.symm hne]
  have hmem : snapshots id t.history ≠ [] := by
    intro h
    have hk := ht.known id old none hfound
    simp [h] at hk
  constructor
  · simpa [hnext] using ht.nextPos
  · intro i hi
    have hne : i ≠ id := by
      rintro rfl
      exact hmem (ht.fresh i (by simpa [hnext] using hi))
    rw [snapshots_snoc, hother i hne, ht.fresh i (by simpa [hnext] using hi)]
    rfl
  · intro i r' f' hp
    by_cases hi : i = id
    · subst hi
      rcases hnew with hn | ⟨hn, _⟩
      · rw [hn] at hp
        obtain ⟨rfl, rfl⟩ := Prod.mk.inj (Option.some.inj hp)
        rw [hsnap]
        simp
      · rw [hn] at hp
        cases hp
    · exact (ht.kept (hothers i hi) (hother i hi)).1 r' f' hp
  · intro i r' hl hu
    by_cases hi : i = id
    · subst hi
      rw [hsnap, List.getLast?_concat] at hl
      obtain rfl := Option.some.inj hl
      simp only at hu
      rcases hnew with hn | ⟨_, hn⟩
      · simpa [hu] using hn
      · simp [hu] at hn
    · exact (ht.kept (hothers i hi) (hother i hi)).2.1 r' hl hu
  · intro i r' f' hp
    by_cases hi : i = id
    · subst hi
      rcases hnew with hn | ⟨hn, _⟩
      · rw [hn] at hp
        obtain ⟨rfl, rfl⟩ := Prod.mk.inj (Option.some.inj hp)
        cases isTerminalStatus r.status <;> simp
      · rw [hn] at hp
        cases hp
    · exact (ht.kept (hothers i hi) (hother i hi)).2.2.1 r' f' hp
  · intro i
    by_cases hi : i = id
    · subst hi
      rw [hsnap, List.map_append]
      refine List.isChain_append.mpr ⟨ht.chain i, List.isChain_singleton _, ?_⟩
      intro x hx y hy
      have hk := ht.known i old none hfound
      simp only [List.getLast?_map, hk, Option.map_some, Option.mem_def, Option.some.injEq] at hx
      simp only [List.map_cons, List.map_nil, List.head?_cons, Option.mem_def, Option.some.injEq] at hy
      rw [← hx, ← hy]
      exact hedge
    · exact (ht.kept (hothers i hi) (hother i hi)).2.2.2
  · exact ht.answers_step he
  · exact ht.gone_step he

/-- A call that stores nothing. -/
theorem Tracks.unchanged {t : TracedStore} (ht : Tracks t) {e : Entry} {st' : ResultStore}
    (he : Effect t.store e st') (hnext : st'.nextSubmissionId = t.store.nextSubmissionId)
    (hall : ∀ id, Kept t.store st' id) (hnone : ∀ id, e.stored id = none) :
    Tracks ⟨st', t.history ++ [e]⟩ := by
  constructor
  · simpa [hnext] using ht.nextPos
  · intro id hid
    rw [snapshots_snoc, hnone id, ht.fresh id (by simpa [hnext] using hid)]
    rfl
  · intro id; exact (ht.kept (hall id) (hnone id)).1
  · intro id; exact (ht.kept (hall id) (hnone id)).2.1
  · intro id; exact (ht.kept (hall id) (hnone id)).2.2.1
  · intro id; exact (ht.kept (hall id) (hnone id)).2.2.2
  · exact ht.answers_step he
  · exact ht.gone_step he

/-- Every effect keeps the invariant, as long as a creation finds room in the id counter. -/
theorem Tracks.step {t : TracedStore} (ht : Tracks t) {e : Entry} {st' : ResultStore}
    (he : Effect t.store e st')
    (hn : ∀ id, e = .created id → t.store.nextSubmissionId < 2 ^ 31 - 1) :
    Tracks ⟨st', t.history ++ [e]⟩ := by
  have he' := he
  cases he with
  | created next new others => exact ht.created he' next new others (hn _ rfl)
  | refused id r next all => exact ht.unchanged he' next all fun i => by simp [Entry.stored]
  | stored id r now old f next found valid new others =>
      exact ht.stored he' next found valid new others
  | got id next all => exact ht.unchanged he' next all fun i => rfl

/-- Only a creation moves the id counter. -/
theorem Effect.next_of {st st' : ResultStore} {e : Entry} (he : Effect st e st') :
    (∃ id, e = .created id ∧ st'.nextSubmissionId = toInt32 (st.nextSubmissionId + 1)) ∨
    ((∀ id, e ≠ .created id) ∧ st'.nextSubmissionId = st.nextSubmissionId) := by
  cases he with
  | created next _ _ => exact .inl ⟨_, rfl, next⟩
  | refused _ _ next _ => exact .inr ⟨by simp, next⟩
  | stored _ _ _ _ _ next _ _ _ _ => exact .inr ⟨by simp, next⟩
  | got _ next _ => exact .inr ⟨by simp, next⟩

/-- The number of submissions a history has created. -/
def creations (h : List Entry) : Nat :=
  h.countP fun e => match e with
    | .created _ => true
    | _ => false

theorem creations_snoc_created (h : List Entry) (id : Int) :
    creations (h ++ [.created id]) = creations h + 1 := by simp [creations]

theorem creations_snoc_other (h : List Entry) {e : Entry} (he : ∀ id, e ≠ .created id) :
    creations (h ++ [e]) = creations h := by
  cases e with
  | created id => exact absurd rfl (he id)
  | _ => simp [creations]

/-- The invariant together with the position of the id counter. -/
structure Counted (t : TracedStore) : Prop where
  tracks : Tracks t
  next : t.store.nextSubmissionId = 1 + creations t.history

/-- One call keeps `Counted` while fewer than `2 ^ 31 - 1` submissions were created. -/
theorem Counted.perform {t : TracedStore} (ht : Counted t) (cfg : CleanupConfig) (c : StoreCall)
    (i : StoreInput) (hn : creations (perform cfg c i t).2.history < 2 ^ 31 - 1) :
    Counted (perform cfg c i t).2 := by
  obtain ⟨e, hh, he⟩ := perform_effect cfg c i t
  generalize hp : (JudgeServer.Pipeline.perform cfg c i t).2 = t' at hn hh he ⊢
  obtain ⟨st', h'⟩ := t'
  simp only at hh he
  subst hh
  have hnext := ht.next
  rcases he.next_of with ⟨id, rfl, hm⟩ | ⟨hne, hm⟩
  · rw [creations_snoc_created] at hn
    refine ⟨ht.tracks.step he fun _ _ => by omega, ?_⟩
    have h := toInt32_of_lt (n := (t.store.nextSubmissionId + 1).toNat) (by omega)
    rw [Int.toNat_of_nonneg (by omega)] at h
    simp only [hm, creations_snoc_created]
    rw [h]
    omega
  · refine ⟨ht.tracks.step he fun id hid => absurd hid (hne id), ?_⟩
    simp only [hm, creations_snoc_other _ hne, hnext]

theorem creations_mono {t : TracedStore} (cfg : CleanupConfig) (c : StoreCall) (i : StoreInput) :
    creations t.history ≤ creations (perform cfg c i t).2.history := by
  obtain ⟨e, hh, _⟩ := perform_effect cfg c i t
  rw [hh]
  simp [creations]

/-- Every run below the id limit satisfies the invariant. -/
theorem runCalls_counted (cfg : CleanupConfig) (retention capacity : Option Int)
    (calls : List (StoreCall × StoreInput))
    (hn : creations (runCalls cfg (.start retention capacity) calls).history < 2 ^ 31 - 1) :
    Counted (runCalls cfg (.start retention capacity) calls) := by
  induction calls using List.reverseRecOn with
  | nil => exact ⟨tracks_start retention capacity, rfl⟩
  | append_singleton calls c ih =>
    rw [runCalls_snoc] at hn ⊢
    have hm := creations_mono (t := runCalls cfg (.start retention capacity) calls) cfg c.1 c.2
    exact (ih (by omega)).perform cfg c.1 c.2 hn

/-- The table never holds more records than submissions were created. -/
theorem Counted.size_le {t : TracedStore} (ht : Counted t) :
    size t.store.results ≤ creations t.history := by
  have hsub : t.store.results.keys ⊆
      (List.range (creations t.history)).map fun n : Nat => (n : Int) + 1 := by
    intro id hid
    obtain ⟨stored, hs⟩ := Option.isSome_iff_exists.mp
      (AList.lookup_isSome.mpr (AList.mem_keys.mpr hid))
    have hk := ht.tracks.known id stored.result stored.finishedAt (by
      unfold ResultStore.peek
      rw [hs]
      rfl)
    have hrange : ¬ (t.store.nextSubmissionId ≤ id ∨ id < 1) := by
      intro h
      rw [ht.tracks.fresh id h] at hk
      cases hk
    have hnext := ht.next
    refine List.mem_map.mpr ⟨(id - 1).toNat, List.mem_range.mpr (by omega), ?_⟩
    omega
  have hnodup : t.store.results.keys.Nodup := t.store.results.keys_nodup
  have hlen := (List.Nodup.subperm hnodup hsub).length_le
  simpa [size, AList.keys, List.keys] using hlen

/-- After a terminal snapshot every answer is that snapshot or nothing, and nothing
is final. -/
theorem Tracks.terminal_fixed {t : TracedStore} (ht : Tracks t) {a b : List Entry} {id : Int}
    {r : SubmissionResult} (hh : t.history = a ++ .updated id r true :: b)
    (hr : isTerminalStatus r.status = true) :
    (∀ z, Entry.got id z ∈ b → z = none ∨ z = some { r with submissionId := id }) ∧
    (∀ b₁ b₂, b = b₁ ++ .got id none :: b₂ → ∀ z, Entry.got id z ∈ b₂ → z = none) := by
  have hall : snapshots id t.history =
      snapshots id a ++ { r with submissionId := id } :: snapshots id b := by
    rw [hh, snapshots_append]
    simp [snapshots, Entry.stored]
  have hlast : snapshots id b = [] := by
    have hc := ht.chain id
    rw [hall, List.map_append, List.map_cons] at hc
    exact List.map_eq_nil_iff.mp (chain_terminal_last hc rfl hr)
  constructor
  · intro z hz
    cases z with
    | none => exact .inl rfl
    | some y =>
      right
      obtain ⟨b₁, b₂, rfl⟩ := List.append_of_mem hz
      have hy := ht.answers (a ++ .updated id r true :: b₁) b₂ id y (by rw [hh]; simp)
      rw [snapshots_append] at hlast
      have hb₁ : snapshots id b₁ = [] := (List.append_eq_nil_iff.mp hlast).1
      have hs : snapshots id (a ++ .updated id r true :: b₁) =
          snapshots id a ++ [{ r with submissionId := id }] := by
        rw [← hb₁, snapshots_append]
        simp [snapshots, Entry.stored]
      rw [hs, List.getLast?_concat] at hy
      exact hy.symm
  · intro b₁ b₂ hb z hz
    refine (ht.gone (a ++ .updated id r true :: b₁) b₂ id (by rw [hh, hb]; simp) ?_).2 z hz
    rw [snapshots_append]
    simp [snapshots, Entry.stored]

/-- An unfinished record survives every call except the one that finishes it. -/
theorem Tracks.live_survives {t : TracedStore} (ht : Tracks t) {e : Entry} {st' : ResultStore}
    (he : Effect t.store e st') {id : Int} {stored : StoredSubmission}
    (hs : t.store.results.lookup id = some stored)
    (hu : isTerminalStatus stored.result.status = false) :
    (st'.results.lookup id).isSome ∨
      ∃ r, e = .updated id r true ∧ isTerminalStatus r.status = true := by
  have hp : t.store.peek id = some (stored.result, stored.finishedAt) := by
    unfold ResultStore.peek
    rw [hs]
    rfl
  have hf : stored.finishedAt = none := by
    have h := ht.finished id _ _ hp
    rw [hu] at h
    simpa using h
  rw [hf] at hp
  have hkept : Kept t.store st' id → (st'.results.lookup id).isSome := by
    intro hk
    have h := hk.peek_live hp
    unfold ResultStore.peek at h
    obtain ⟨s', hs', _⟩ := Option.map_eq_some_iff.mp h
    simp [hs']
  cases he with
  | created next new others =>
      left
      apply hkept
      apply others
      intro h
      have hk := ht.known id _ _ hp
      rw [ht.fresh id (.inl (h ▸ Int.le_refl _))] at hk
      cases hk
  | refused _ _ next all => exact .inl (hkept (all id))
  | stored i r now old f next found valid new others =>
      by_cases hi : id = i
      · subst hi
        rw [hp] at found
        obtain ⟨rfl, rfl⟩ := Prod.mk.inj (Option.some.inj found)
        cases hterm : isTerminalStatus r.status with
        | true => exact .inr ⟨r, rfl, hterm⟩
        | false =>
          left
          rcases new with hn | ⟨_, hn⟩
          · unfold ResultStore.peek at hn
            obtain ⟨s', hs', _⟩ := Option.map_eq_some_iff.mp hn
            simp [hs']
          · simp [hterm] at hn
      · exact .inl (hkept (others id hi))
  | got _ next all => exact .inl (hkept (all id))

/-- A refused update is its eviction pass and nothing else. -/
theorem updateResult_refused (cfg : CleanupConfig) (srt : EntrySort) (now : TimePoint) (id : Int)
    (r : SubmissionResult) (st : ResultStore) (h : (st.updateResult cfg srt now id r).1 = false) :
    (st.updateResult cfg srt now id r).2 = st.cleanupExpiredResultsLocked cfg srt now := by
  unfold ResultStore.updateResult at h ⊢
  dsimp only at h ⊢
  split
  · rfl
  · split
    · next hs hv => simp [hs, hv] at h
    · rfl

/-- A stored snapshot carries the key it is stored under. -/
theorem Entry.stored_submissionId {e : Entry} {id : Int} {r : SubmissionResult}
    (h : e.stored id = some r) : r.submissionId = id := by
  cases e with
  | created i =>
      simp only [Entry.stored] at h
      split at h
      · obtain rfl := Option.some.inj h
        rfl
      · cases h
  | updated i r' accepted =>
      simp only [Entry.stored] at h
      split at h
      · obtain rfl := Option.some.inj h
        rfl
      · cases h
  | got i z => cases h

/-- The whole state machine, for any sequence of calls, any clock and any cleanup
settings, while fewer than `2 ^ 31 - 1` submissions have been created. -/
theorem store_state_machine (cfg : CleanupConfig) (retention capacity : Option Int)
    (calls : List (StoreCall × StoreInput)) (t : TracedStore)
    (ht : t = runCalls cfg (.start retention capacity) calls)
    (hn : creations t.history < 2 ^ 31 - 1) :
    (∀ id, ((snapshots id t.history).map (·.status)).IsChain DocumentedEdge) ∧
    (∀ id r a b, t.history = a ++ .updated id r true :: b → isTerminalStatus r.status = true →
      (∀ z, Entry.got id z ∈ b → z = none ∨ z = some { r with submissionId := id }) ∧
      (∀ b₁ b₂, b = b₁ ++ .got id none :: b₂ → ∀ z, Entry.got id z ∈ b₂ → z = none)) ∧
    (∀ c i id stored, t.store.results.lookup id = some stored →
      isTerminalStatus stored.result.status = false →
      ((perform cfg c i t).2.store.results.lookup id).isSome ∨
        ∃ r, (perform cfg c i t).2.history = t.history ++ [.updated id r true] ∧
          isTerminalStatus r.status = true) ∧
    (∀ id stored, t.store.results.lookup id = some stored →
      (stored.finishedAt.isSome ↔ isTerminalStatus stored.result.status = true)) ∧
    (∀ id r (i : StoreInput), (t.store.updateResult cfg i.sort i.now id r).1 = false →
      ∀ j stored, (t.store.cleanupExpiredResultsLocked cfg i.sort i.now).results.lookup j = some stored →
        t.store.results.lookup j = some stored ∧
        (t.store.updateResult cfg i.sort i.now id r).2.results.lookup j = some stored) ∧
    (∀ id stored, t.store.results.lookup id = some stored → stored.result.submissionId = id) := by
  have hc : Counted t := by
    subst ht
    exact runCalls_counted cfg retention capacity calls hn
  have hpeek : ∀ id stored, t.store.results.lookup id = some stored →
      t.store.peek id = some (stored.result, stored.finishedAt) := by
    intro id stored hs
    unfold ResultStore.peek
    rw [hs]
    rfl
  refine ⟨hc.tracks.chain, ?_, ?_, ?_, ?_, ?_⟩
  · intro id r a b hh hr
    exact hc.tracks.terminal_fixed hh hr
  · intro c i id stored hs hu
    obtain ⟨e, hh, he⟩ := perform_effect cfg c i t
    rcases hc.tracks.live_survives he hs hu with h | ⟨r, rfl, hr⟩
    · exact .inl h
    · exact .inr ⟨r, hh, hr⟩
  · intro id stored hs
    exact hc.tracks.finished id _ _ (hpeek id stored hs)
  · intro id r i href j stored hj
    rw [updateResult_refused cfg i.sort i.now id r t.store href]
    exact ⟨(ResultStore.cleanup_evicts cfg i.sort i.now t.store).table.survivor hj, hj⟩
  · intro id stored hs
    have hk := hc.tracks.known id _ _ (hpeek id stored hs)
    have hm := List.mem_of_getLast? hk
    obtain ⟨e, _, he⟩ := List.mem_filterMap.mp hm
    exact Entry.stored_submissionId he

def failedRun : List (StoreCall × StoreInput) :=
  let i : StoreInput := ⟨0, 0, .stable⟩
  [(.createSubmission ⟨7, ascii "1000", .cpp, []⟩, i),
   (.updateResult 1 { status := .preparing }, i),
   (.updateResult 1 { status := .failed, verdict := .systemError }, i),
   (.getResult 1, i)]

theorem store_state_machine_failedRun :
    creations (runCalls {} (.start none none) failedRun).history < 2 ^ 31 - 1 ∧
    (∀ id, ((snapshots id (runCalls {} (.start none none) failedRun).history).map
      (·.status)).IsChain DocumentedEdge) := by
  have hn : creations (runCalls {} (.start none none) failedRun).history < 2 ^ 31 - 1 := by decide
  exact ⟨hn, (store_state_machine {} none none failedRun _ rfl hn).1⟩

end JudgeServer.Pipeline
