import JudgeServer.Dispatch.TaskFlow
import JudgeServer.Pipeline.WorkerRun

/-!
# Who answers for an unfinished record

From its creation to its final snapshot a submission is in one pair of hands: the
`submitAsync` call that created it, then the queue, then the worker that popped it.
Nobody else touches its record, so the worker's updates are all accepted and the record
is finished when `processSubmission` returns.
-/

namespace JudgeServer.Dispatch

open JudgeServer.Common
open JudgeServer.Pipeline
open JudgeServer.Lib.Interleave

/-- The snapshot of `id` while it is unfinished. -/
def live (st : ResultStore) (id : Int) : Option SubmissionResult :=
  match st.peek id with
  | some (r, none) => some r
  | _ => none

/-- What `live` is right after `r` was stored. -/
def liveOf (r : SubmissionResult) : Option SubmissionResult :=
  if isTerminalStatus r.status then none else some r

theorem live_eq_some {st : ResultStore} {id : Int} {r : SubmissionResult} :
    live st id = some r ↔ st.peek id = some (r, none) := by
  unfold live
  split
  · rename_i r' hpeek
    simp [hpeek]
  · rename_i hother
    simp only [reduceCtorEq, false_iff]
    exact hother r

theorem live_congr {old new : ResultStore} {id : Int} (h : Kept old new id) :
    live new id = live old id := by
  obtain heq | ⟨hnone, r, t, hold⟩ := h
  · unfold live
    rw [heq]
  · unfold live
    rw [hnone, hold]

theorem live_of_unfinished {t : TracedStore} (h : Tracks t) {id : Int} {r : SubmissionResult}
    {finishedAt : Option TimePoint} (hpeek : t.store.peek id = some (r, finishedAt))
    (hstatus : isTerminalStatus r.status = false) : live t.store id = some r := by
  have hnone : finishedAt = none := by
    have hiff := h.finished id r finishedAt hpeek
    rw [hstatus] at hiff
    simpa using hiff
  rw [live_eq_some, hpeek, hnone]

section Store

variable (cfg : CleanupConfig) (i : StoreInput) (t : TracedStore)

/-- A creation puts a queued record under the next id and leaves the others. -/
theorem create_live (request : SubmissionRequest) :
    (perform cfg (.createSubmission request) i t).1 = t.store.nextSubmissionId ∧
    live (perform cfg (.createSubmission request) i t).2.store t.store.nextSubmissionId =
      some { submissionId := t.store.nextSubmissionId, status := .queued } ∧
    ∀ id, id ≠ t.store.nextSubmissionId →
      live (perform cfg (.createSubmission request) i t).2.store id = live t.store id := by
  have hid : (perform cfg (.createSubmission request) i t).1 = t.store.nextSubmissionId :=
    (ResultStore.cleanup_evicts cfg i.sort i.now t.store).next
  have heffect := createSubmission_effect cfg i request t.store
  refine ⟨hid, ?_⟩
  change Effect t.store (.created (perform cfg (.createSubmission request) i t).1)
    (perform cfg (.createSubmission request) i t).2.store at heffect
  rw [hid] at heffect
  generalize (perform cfg (.createSubmission request) i t).2.store = st' at heffect ⊢
  cases heffect with
  | created next new others =>
    exact ⟨live_eq_some.mpr new, fun id hne => live_congr (others id hne)⟩

theorem get_live (id j : Int) :
    live (perform cfg (.getResult id) i t).2.store j = live t.store j := by
  have heffect := getResult_effect cfg i id t.store
  change Effect t.store (.got id (perform cfg (.getResult id) i t).1)
    (perform cfg (.getResult id) i t).2.store at heffect
  generalize (perform cfg (.getResult id) i t).1 = answer at heffect
  generalize (perform cfg (.getResult id) i t).2.store = st' at heffect ⊢
  cases heffect with
  | got _ next all => exact live_congr (all j)

/-- An update along an edge of the status machine is accepted and touches nothing else. -/
theorem update_live {id : Int} {old r : SubmissionResult} (hold : live t.store id = some old)
    (hr : r.submissionId = id) (hedge : isValidTransition old.status r.status = true) :
    (perform cfg (.updateResult id r) i t).1 = true ∧
    live (perform cfg (.updateResult id r) i t).2.store id = liveOf r ∧
    ∀ j, j ≠ id → live (perform cfg (.updateResult id r) i t).2.store j = live t.store j := by
  have haccepted : (perform cfg (.updateResult id r) i t).1 = true :=
    (updateResult_accepted cfg i.sort i.now id r t.store (live_eq_some.mp hold) hedge).1
  have heffect := updateResult_effect cfg i id r t.store
  change Effect t.store (.updated id r (perform cfg (.updateResult id r) i t).1)
    (perform cfg (.updateResult id r) i t).2.store at heffect
  refine ⟨haccepted, ?_⟩
  rw [haccepted] at heffect
  generalize (perform cfg (.updateResult id r) i t).2.store = st' at heffect ⊢
  have hsame : ({ r with submissionId := id } : SubmissionResult) = r := by rw [← hr]
  cases heffect with
  | stored _ _ now old' finishedAt next found valid new others =>
    refine ⟨?_, fun j hne => live_congr (others j hne)⟩
    rw [live_eq_some.mp hold] at found
    cases found
    rw [hsame] at new
    unfold live liveOf
    cases hterminal : isTerminalStatus r.status with
    | true =>
      rw [hterminal] at new
      obtain hnew | ⟨hnew, _⟩ := new <;> rw [hnew] <;> rfl
    | false =>
      rw [hterminal] at new
      obtain hnew | ⟨_, hsome⟩ := new
      · rw [hnew]
        rfl
      · cases hsome

end Store

section Ownership

variable {cfg : CleanupConfig} {n : Nat} {γ : Type} [DecidableEq γ]

/-- The place of the ids a thread answers for. -/
def mine : PoolThread n γ → Place n γ
  | .worker w => .held w
  | .caller c => .pushing c

def queuedRecord (id : Int) : SubmissionResult := { submissionId := id, status := .queued }

structure Owned (s : Pool n γ) : Prop where
  counted : Counted s.store
  placed : ∀ id, s.place id ≠ .nowhere → 0 < id ∧ id < s.store.store.nextSubmissionId
  known : ∀ t ∈ s.accepted, 0 < t.submissionId ∧
    t.submissionId < s.store.store.nextSubmissionId ∧ ∀ c, s.place t.submissionId ≠ .pushing c
  distinct : (s.accepted.map (·.submissionId)).Nodup
  queued : ∀ t ∈ s.queue.queue, s.place t.submissionId = .queued ∧
    live s.store.store t.submissionId = some (queuedRecord t.submissionId)

/-- What a thread knows of its own ids when it makes a call. -/
def OwnCall (s : Pool n γ) : PoolThread n γ → PoolCall n γ → Prop
  | .caller c, .createSubmission c' _ => c' = c
  | .caller c, .push c' t => c' = c ∧ s.place t.submissionId = .pushing c ∧
      live s.store.store t.submissionId = some (queuedRecord t.submissionId)
  | .caller c, .submitted c' id result => c' = c ∧ (result ≠ -1 → s.place id ≠ .pushing c)
  | .caller _, .store q => ∃ id, q = .getResult id
  | .worker w, .store q => ∃ id old r, q = .updateResult id r ∧ s.place id = .held w ∧
      live s.store.store id = some old ∧ r.submissionId = id ∧
      isValidTransition old.status r.status = true
  | .worker w, .processed w' t => w' = w ∧ s.place t.submissionId = .held w ∧
      live s.store.store t.submissionId = none
  | .worker w, .pop w' => w' = w
  | .caller _, .pop _ | .caller _, .processed _ _ => False
  | .worker _, .createSubmission _ _ | .worker _, .push _ _ | .worker _, .submitted _ _ _ => False
  | _, _ => True

/-- A thread answers for the ids it answered for, and their records are as it left them. -/
def Undisturbed (t : PoolThread n γ) (s s' : Pool n γ) : Prop :=
  ∀ id, (s'.place id = mine t ↔ s.place id = mine t) ∧
    (s.place id = mine t → live s'.store.store id = live s.store.store id)

/-- Too few creations for the id counter to overflow. -/
def Pool.bounded (s : Pool n γ) : Prop := creations s.store.history < 2 ^ 31 - 1

omit [DecidableEq γ] in
theorem mine_injective {t t' : PoolThread n γ} (h : mine t = mine t') : t = t' := by
  cases t <;> cases t' <;> simp_all [mine]

omit [DecidableEq γ] in
theorem mine_ne_nowhere (t : PoolThread n γ) : mine t ≠ .nowhere := by
  cases t <;> simp [mine]

omit [DecidableEq γ] in
theorem undisturbed_same {t : PoolThread n γ} {s s' : Pool n γ} (hplace : s'.place = s.place)
    (hlive : ∀ id, live s'.store.store id = live s.store.store id) : Undisturbed t s s' := by
  intro id
  rw [hplace]
  exact ⟨Iff.rfl, fun _ => hlive id⟩

omit [DecidableEq γ] in
/-- A call that moves the ids of its own thread only disturbs nobody else. -/
theorem undisturbed_update {s : Pool n γ} {st : TracedStore} {id : Int} {p : Place n γ}
    {t : PoolThread n γ} (hmine : s.place id ≠ mine t) (hp : p ≠ mine t)
    (hlive : ∀ j, j ≠ id → live st.store j = live s.store.store j) {s' : Pool n γ}
    (hplace : s'.place = Function.update s.place id p) (hstore : s'.store = st) :
    Undisturbed t s s' := by
  intro j
  rw [hplace, hstore]
  by_cases hne : j = id
  · subst hne
    rw [Function.update_self]
    exact ⟨⟨fun h => absurd h hp, fun h => absurd h hmine⟩, fun h => absurd h hmine⟩
  · rw [Function.update_of_ne hne]
    exact ⟨Iff.rfl, fun _ => hlive j hne⟩

theorem serve_undisturbed {s s' : Pool n γ} (h : Owned s) {t t' : PoolThread n γ}
    {o : PoolCall n γ} {e : PoolInput} {r : o.Reply} (ho : OwnCall s t o)
    (hserve : s.serve cfg e o = some (r, s')) (hne : t' ≠ t) : Undisturbed t' s s' := by
  have hmine : mine t ≠ mine t' := fun heq => hne (mine_injective heq).symm
  have hnowhere := (mine_ne_nowhere t').symm
  have hqueued : Place.queued ≠ mine t' := by cases t' <;> simp [mine]
  cases o with
  | createSubmission c request =>
    cases t with
    | worker w => exact ho.elim
    | caller c' =>
      obtain rfl : c = c' := ho
      obtain ⟨hid, _, hothers⟩ := create_live cfg e.store s.store request
      cases hserve
      refine undisturbed_update ?_ hmine hothers (by rw [← hid]; rfl) rfl
      intro hplace
      have hlt := (h.placed s.store.store.nextSubmissionId
        (by rw [hplace]; exact mine_ne_nowhere t')).2
      omega
  | push c task =>
    obtain ⟨_, _, rfl⟩ | ⟨_, _, rfl⟩ := push_effect hserve
    · refine undisturbed_update ?_ hqueued (fun _ _ => rfl) rfl rfl
      cases t with
      | worker w => exact ho.elim
      | caller c' =>
        rw [ho.2.1]
        exact hmine
    · exact undisturbed_same rfl fun _ => rfl
  | submitted c id result =>
    rw [submitted_effect hserve]
    cases t with
    | worker w => exact ho.elim
    | caller c' =>
      obtain rfl : c = c' := ho.1
      by_cases hplace : s.place id = .pushing c
      · refine undisturbed_update ?_ hnowhere (fun _ _ => rfl) (if_pos hplace) rfl
        rw [hplace]
        exact hmine
      · exact undisturbed_same (if_neg hplace) fun _ => rfl
  | store q =>
    cases t with
    | caller c =>
      obtain ⟨id, rfl⟩ := ho
      cases hserve
      exact undisturbed_same rfl fun j => get_live cfg e.store s.store id j
    | worker w =>
      obtain ⟨id, old, r, rfl, hplace, hold, hr, hedge⟩ := ho
      obtain ⟨_, _, hothers⟩ := update_live cfg e.store s.store hold hr hedge
      cases hserve
      have hheld : s.place id ≠ mine t' := by
        rw [hplace]
        exact hmine
      exact undisturbed_update hheld hheld hothers (Function.update_eq_self id s.place).symm rfl
  | pop w =>
    obtain ⟨_, _, rfl⟩ | ⟨task, rest, _, hq, rfl⟩ := pop_effect hserve
    · exact undisturbed_same rfl fun _ => rfl
    · cases t with
      | caller c => exact ho.elim
      | worker w' =>
        obtain rfl : w = w' := ho
        refine undisturbed_update ?_ hmine (fun _ _ => rfl) rfl rfl
        rw [(h.queued task (by rw [hq]; exact List.mem_cons_self)).1]
        exact hqueued
  | processed w task =>
    cases t with
    | caller c => exact ho.elim
    | worker w' =>
      cases hserve
      refine undisturbed_update ?_ hnowhere (fun _ _ => rfl) rfl rfl
      rw [ho.2.1]
      exact hmine
  | join w =>
    simp only [Pool.serve] at hserve
    split at hserve
    · cases hserve
      exact undisturbed_same rfl fun _ => rfl
    · cases hserve
  | _ =>
    cases hserve
    exact undisturbed_same rfl fun _ => rfl

section Moves

omit [DecidableEq γ]

/-- A creation hands out the next id, which nobody answers for yet. -/
theorem Owned.create {s : Pool n γ} (h : Owned s) (c : γ) (request : SubmissionRequest)
    (e : StoreInput) (hb : creations (perform cfg (.createSubmission request) e s.store).2.history
      < 2 ^ 31 - 1) :
    Owned { s with
      store := (perform cfg (.createSubmission request) e s.store).2
      place := Function.update s.place (perform cfg (.createSubmission request) e s.store).1
        (.pushing c) } := by
  obtain ⟨hid, _, hothers⟩ := create_live cfg e s.store request
  have hcounted := h.counted.perform cfg (.createSubmission request) e hb
  have hcreations : creations (perform cfg (.createSubmission request) e s.store).2.history =
      creations s.store.history + 1 := creations_snoc_created _ _
  have hnext := hcounted.next
  have hbefore := h.counted.next
  have hpos := h.counted.tracks.nextPos
  rw [hcreations] at hnext
  rw [hid]
  constructor
  · exact hcounted
  · intro id hplace
    dsimp only at hplace ⊢
    by_cases hne : id = s.store.store.nextSubmissionId
    · omega
    · rw [Function.update_of_ne hne] at hplace
      have hold := h.placed id hplace
      omega
  · intro t ht
    obtain ⟨hpos, hlt, hpush⟩ := h.known t ht
    have hne : t.submissionId ≠ s.store.store.nextSubmissionId := by omega
    simp only [Function.update_of_ne hne]
    exact ⟨hpos, by omega, hpush⟩
  · exact h.distinct
  · intro t ht
    obtain ⟨hplace, hlive⟩ := h.queued t ht
    have hlt := (h.placed t.submissionId (by rw [hplace]; simp)).2
    have hne : t.submissionId ≠ s.store.store.nextSubmissionId := by omega
    simp only [Function.update_of_ne hne]
    exact ⟨hplace, (hothers _ hne).trans hlive⟩

/-- The store moves under the records in the queue without touching them. -/
theorem Owned.stored {s : Pool n γ} (h : Owned s) {q : StoreCall} {e : StoreInput}
    (hb : creations (perform cfg q e s.store).2.history < 2 ^ 31 - 1)
    (hnext : (perform cfg q e s.store).2.store.nextSubmissionId = s.store.store.nextSubmissionId)
    (hlive : ∀ t ∈ s.queue.queue, live (perform cfg q e s.store).2.store t.submissionId =
      live s.store.store t.submissionId) :
    Owned { s with store := (perform cfg q e s.store).2 } := by
  constructor
  · exact h.counted.perform cfg q e hb
  · simp only [hnext]
    exact h.placed
  · simp only [hnext]
    exact h.known
  · exact h.distinct
  · intro t ht
    exact ⟨(h.queued t ht).1, (hlive t ht).trans (h.queued t ht).2⟩

/-- An accepted task passes from the caller to the queue. -/
theorem Owned.push {s : Pool n γ} (h : Owned s) {c : γ} {t : SubmissionTask}
    (hplace : s.place t.submissionId = .pushing c)
    (hlive : live s.store.store t.submissionId = some (queuedRecord t.submissionId)) :
    Owned { s with
      queue := { s.queue with queue := s.queue.queue ++ [t] }
      accepted := s.accepted ++ [t]
      place := Function.update s.place t.submissionId .queued } := by
  have hid := h.placed t.submissionId (by rw [hplace]; simp)
  have hfresh : ∀ t' ∈ s.accepted, t'.submissionId ≠ t.submissionId := by
    intro t' ht' heq
    exact (h.known t' ht').2.2 c (by rw [heq]; exact hplace)
  constructor
  · exact h.counted
  · intro id hne
    by_cases heq : id = t.submissionId
    · rw [heq]
      exact hid
    · simp only [Function.update_of_ne heq] at hne
      exact h.placed id hne
  · intro t' ht'
    rw [List.mem_append, List.mem_singleton] at ht'
    obtain ht' | rfl := ht'
    · simp only [Function.update_of_ne (hfresh t' ht')]
      exact h.known t' ht'
    · simp only [Function.update_self]
      exact ⟨hid.1, hid.2, fun c => by simp⟩
  · simp only [List.map_append, List.map_cons, List.map_nil]
    rw [List.nodup_append]
    refine ⟨h.distinct, List.nodup_singleton _, ?_⟩
    intro a ha b hb
    obtain ⟨t', ht', rfl⟩ := List.mem_map.mp ha
    rw [List.mem_singleton.mp hb]
    exact hfresh t' ht'
  · intro t' ht'
    rw [List.mem_append, List.mem_singleton] at ht'
    obtain ht' | rfl := ht'
    · have hq := h.queued t' ht'
      have hne : t'.submissionId ≠ t.submissionId := by
        intro heq
        rw [heq, hplace] at hq
        cases hq.1
      simp only [Function.update_of_ne hne]
      exact hq
    · simp only [Function.update_self]
      exact ⟨trivial, hlive⟩

/-- The first task of the queue passes to a worker; no other task has its id. -/
theorem Owned.pop {s : Pool n γ} (h : Owned s) (hflow : Flow s) {w : Fin n} {t : SubmissionTask}
    {rest : List SubmissionTask} (hq : s.queue.queue = t :: rest) :
    Owned { s with
      queue := { s.queue with queue := rest }
      popped := s.popped ++ [t]
      stage := Function.update s.stage w (.fetched t)
      place := Function.update s.place t.submissionId (.held w) } := by
  have hhead := h.queued t (by rw [hq]; exact List.mem_cons_self)
  have hid := h.placed t.submissionId (by rw [hhead.1]; simp)
  have hnodup := h.distinct
  rw [hflow.order, hq, List.map_append, List.map_cons] at hnodup
  have hrest : t.submissionId ∉ rest.map (·.submissionId) :=
    (List.nodup_cons.mp (List.nodup_append.mp hnodup).2.1).1
  constructor
  · exact h.counted
  · intro id hne
    by_cases heq : id = t.submissionId
    · rw [heq]
      exact hid
    · simp only [Function.update_of_ne heq] at hne
      exact h.placed id hne
  · intro t' ht'
    obtain ⟨hpos, hlt, hpush⟩ := h.known t' ht'
    refine ⟨hpos, hlt, fun c => ?_⟩
    by_cases heq : t'.submissionId = t.submissionId
    · simp [heq]
    · simp only [Function.update_of_ne heq]
      exact hpush c
  · exact h.distinct
  · intro t' ht'
    have hne : t'.submissionId ≠ t.submissionId := by
      intro heq
      exact hrest (by rw [← heq]; exact List.mem_map_of_mem ht')
    simp only [Function.update_of_ne hne]
    exact h.queued t' (by rw [hq]; exact List.mem_cons_of_mem _ ht')

/-- An id that is not in the queue can be given up. -/
theorem Owned.release {s s' : Pool n γ} (h : Owned s) (id : Int) (hid : s.place id ≠ .queued)
    (hs : s'.store = s.store) (ha : s'.accepted = s.accepted) (hq : s'.queue = s.queue)
    (hplace : s'.place = Function.update s.place id .nowhere) : Owned s' := by
  constructor
  · rw [hs]
    exact h.counted
  · intro j hj
    rw [hplace] at hj
    by_cases heq : j = id
    · simp [heq] at hj
    · rw [Function.update_of_ne heq] at hj
      rw [hs]
      exact h.placed j hj
  · intro t ht
    rw [ha] at ht
    obtain ⟨hpos, hlt, hpush⟩ := h.known t ht
    refine ⟨hpos, by rw [hs]; exact hlt, fun c => ?_⟩
    rw [hplace]
    by_cases heq : t.submissionId = id
    · simp [heq]
    · rw [Function.update_of_ne heq]
      exact hpush c
  · rw [ha]
    exact h.distinct
  · intro t ht
    rw [hq] at ht
    have hold := h.queued t ht
    have hne : t.submissionId ≠ id := by
      intro heq
      exact hid (by rw [← heq]; exact hold.1)
    rw [hplace, hs, Function.update_of_ne hne]
    exact hold

end Moves

theorem Owned.serve {s s' : Pool n γ} (h : Owned s) (hflow : Flow s) {t : PoolThread n γ}
    {o : PoolCall n γ} {e : PoolInput} {r : o.Reply} (ho : OwnCall s t o)
    (hserve : s.serve cfg e o = some (r, s')) (hb : s'.bounded) : Owned s' := by
  cases o with
  | createSubmission c request =>
    cases hserve
    exact h.create c request e.store hb
  | push c task =>
    obtain ⟨_, _, rfl⟩ | ⟨_, _, rfl⟩ := push_effect hserve
    · cases t with
      | worker w => exact ho.elim
      | caller c' => exact h.push ho.2.1 ho.2.2
    · exact h
  | submitted c id result =>
    rw [submitted_effect hserve]
    by_cases hplace : s.place id = .pushing c
    · exact h.release id (by rw [hplace]; simp) rfl rfl rfl (if_pos hplace)
    · simp only [if_neg hplace]
      exact h
  | store q =>
    cases t with
    | caller c =>
      obtain ⟨id, rfl⟩ := ho
      cases hserve
      refine h.stored hb ?_ fun t _ => get_live cfg e.store s.store id t.submissionId
      obtain ⟨entry, hh, heffect⟩ := perform_effect cfg (.getResult id) e.store s.store
      obtain ⟨_, rfl, _⟩ | ⟨_, hnext⟩ := heffect.next_of
      · cases (List.cons.inj (List.append_cancel_left hh)).1
      · exact hnext
    | worker w =>
      obtain ⟨id, old, r, rfl, hplace, hold, hr, hedge⟩ := ho
      obtain ⟨_, _, hothers⟩ := update_live cfg e.store s.store hold hr hedge
      cases hserve
      refine h.stored hb ?_ ?_
      · obtain ⟨entry, hh, heffect⟩ := perform_effect cfg (.updateResult id r) e.store s.store
        obtain ⟨_, rfl, _⟩ | ⟨_, hnext⟩ := heffect.next_of
        · cases (List.cons.inj (List.append_cancel_left hh)).1
        · exact hnext
      · intro task htask
        apply hothers
        rintro rfl
        rw [(h.queued task htask).1] at hplace
        cases hplace
  | pop w =>
    obtain ⟨_, _, rfl⟩ | ⟨task, rest, _, hq, rfl⟩ := pop_effect hserve
    · exact h
    · exact h.pop hflow hq
  | processed w task =>
    cases t with
    | caller c => exact ho.elim
    | worker w' =>
      cases hserve
      exact h.release task.submissionId (by rw [ho.2.1]; simp) rfl rfl rfl rfl
  | join w =>
    simp only [Pool.serve] at hserve
    split at hserve
    · cases hserve
      exact ⟨h.counted, h.placed, h.known, h.distinct, h.queued⟩
    · cases hserve
  | _ =>
    cases hserve
    exact ⟨h.counted, h.placed, h.known, h.distinct, h.queued⟩

end Ownership

end JudgeServer.Dispatch
