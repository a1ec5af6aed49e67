import JudgeServer.Dispatch.RecordOwners

/-!
# Each task is judged for its own request

What the store has been told of a task. Its caller tells it of the creation, and the worker
that popped the task tells it what `processSubmission` makes of the task's own id and
request; nobody else says anything about the id. The snapshots of a task are therefore a
beginning of what its own judging stores, and all of it once the task has been processed.
-/

namespace JudgeServer.Dispatch

open JudgeServer.Common
open JudgeServer.Pipeline
open JudgeServer.Lib.Interleave

variable {cfg : CleanupConfig} {n : Nat} {γ : Type} [DecidableEq γ]

/-- What `processSubmission` stores for this id and request, in this environment. -/
def Stores (cfg : CleanupConfig) (env : JudgeEnv) (id : Int) (request : SubmissionRequest)
    (l : List SubmissionResult) : Prop :=
  ∃ a, Script id (Pipeline.processSubmission (persistResult cfg) env id request).run l a

/-- The store is told one thing only. -/
theorem Stores.unique {env : JudgeEnv} {id : Int} {request : SubmissionRequest}
    {l l' : List SubmissionResult} (h : Stores cfg env id request l)
    (h' : Stores cfg env id request l') : l = l' := by
  obtain ⟨_, hscript⟩ := h
  obtain ⟨_, hscript'⟩ := h'
  exact hscript.unique hscript'

/-- The task popped with this ticket has been judged so far: its snapshots are `told`, out of
all that its own judging stores. -/
structure JudgedSoFar (cfg : CleanupConfig) (env : Nat → JudgeEnv) (popped : List SubmissionTask)
    (history : List Entry) (ticket : Nat) (t : SubmissionTask)
    (told all : List SubmissionResult) : Prop where
  taken : popped[ticket]? = some t
  stores : Stores cfg (env ticket) t.submissionId t.request all
  begun : told <+: all
  stored : snapshots t.submissionId history = queuedRecord t.submissionId :: told

/-- The store has heard of every task what it should have. -/
structure Told (cfg : CleanupConfig) (env : Nat → JudgeEnv) (s : Pool n γ) : Prop where
  queued : ∀ t ∈ s.queue.queue,
    snapshots t.submissionId s.store.history = [queuedRecord t.submissionId]
  popped : ∀ i t, s.popped[i]? = some t → ∃ told all,
    JudgedSoFar cfg env s.popped s.store.history i t told all ∧ (t ∈ s.processed → told = all)

/-- What a thread has to know of the store when it makes a call. -/
def TellCall (cfg : CleanupConfig) (env : Nat → JudgeEnv) (s : Pool n γ) : PoolCall n γ → Prop
  | .push _ t => snapshots t.submissionId s.store.history = [queuedRecord t.submissionId]
  | .store (.updateResult id r) => ∃ i t told rest, t.submissionId = id ∧
      JudgedSoFar cfg env s.popped s.store.history i t told (told ++ r :: rest)
  | .processed _ t => ∃ i all, JudgedSoFar cfg env s.popped s.store.history i t all all
  | _ => True

/-- What the other threads leave alone: the tasks that were popped, the ids this thread
answers for, and their snapshots. -/
structure Unheard (t : PoolThread n γ) (s s' : Pool n γ) : Prop where
  popped : s.popped <+: s'.popped
  place : ∀ id, s'.place id = mine t ↔ s.place id = mine t
  told : ∀ id, s.place id = mine t →
    snapshots id s'.store.history = snapshots id s.store.history

/-- A call by one of the threads of a run, which knows what it answers for. -/
def tellContract (cfg : CleanupConfig) (env : Nat → JudgeEnv) (t : PoolThread n γ) :
    Contract (poolMachine cfg n γ) where
  allows := fun o _ s => Accounted s ∧ OwnCall s t o
  rely := fun _ s s' => Unheard t s s' ∧ Told cfg env s'
  pre := fun o s => Told cfg env s ∧ TellCall cfg env s o

section Store

/-- An entry that stores nothing for `id`, and one that stores `r`. -/
theorem snapshots_unstored {id : Int} {h : List Entry} {e : Entry} (he : e.stored id = none) :
    snapshots id (h ++ [e]) = snapshots id h := by
  rw [snapshots_snoc, he]
  exact List.append_nil _

theorem snapshots_stored {id : Int} {h : List Entry} {e : Entry} {r : SubmissionResult}
    (he : e.stored id = some r) : snapshots id (h ++ [e]) = snapshots id h ++ [r] := by
  rw [snapshots_snoc, he]
  rfl

variable (cfg) (i : StoreInput) (t : TracedStore)

theorem snapshots_create (request : SubmissionRequest) {id : Int}
    (h : id ≠ t.store.nextSubmissionId) :
    snapshots id (perform cfg (.createSubmission request) i t).2.history =
      snapshots id t.history := by
  have hid := (create_live cfg i t request).1
  exact snapshots_unstored (if_neg fun heq => h (heq.symm.trans hid))

/-- The first snapshot of the id that a creation hands out. -/
theorem snapshots_created (ht : Tracks t) (request : SubmissionRequest) :
    snapshots t.store.nextSubmissionId (perform cfg (.createSubmission request) i t).2.history =
      [queuedRecord t.store.nextSubmissionId] := by
  have hid := (create_live cfg i t request).1
  have hstored : (Entry.created (perform cfg (.createSubmission request) i t).1).stored
      t.store.nextSubmissionId = some (queuedRecord t.store.nextSubmissionId) := if_pos hid
  refine (snapshots_stored hstored).trans ?_
  rw [ht.fresh _ (.inl (Int.le_refl _))]
  rfl

theorem snapshots_get (id j : Int) :
    snapshots j (perform cfg (.getResult id) i t).2.history = snapshots j t.history :=
  snapshots_unstored rfl

theorem snapshots_update_other {id j : Int} (r : SubmissionResult) (h : j ≠ id) :
    snapshots j (perform cfg (.updateResult id r) i t).2.history = snapshots j t.history :=
  snapshots_unstored (if_neg fun heq => h heq.1.symm)

/-- An accepted update is the record's newest snapshot. -/
theorem snapshots_update {id : Int} {r : SubmissionResult} (hr : r.submissionId = id)
    (haccepted : (perform cfg (.updateResult id r) i t).1 = true) :
    snapshots id (perform cfg (.updateResult id r) i t).2.history = snapshots id t.history ++ [r] := by
  have hstored : (Entry.updated id r (perform cfg (.updateResult id r) i t).1).stored id =
      some { r with submissionId := id } := if_pos ⟨rfl, haccepted⟩
  refine (snapshots_stored hstored).trans ?_
  rw [← hr]

end Store

section Threads

variable {env : Nat → JudgeEnv}

/-- Whoever makes a call, the ids of the other threads are told nothing. -/
theorem serve_unheard {s s' : Pool n γ} (h : Owned s) {t t' : PoolThread n γ}
    {o : PoolCall n γ} {e : PoolInput} {r : o.Reply} (ho : OwnCall s t o)
    (hserve : s.serve cfg e o = some (r, s')) (hne : t' ≠ t) : Unheard t' s s' := by
  have hplace := fun id => (serve_undisturbed h ho hserve hne id).1
  have hmine : mine t ≠ mine t' := fun heq => hne (mine_injective heq).symm
  cases o with
  | createSubmission c request =>
    cases hserve
    refine ⟨List.prefix_rfl, hplace, fun id hid => snapshots_create cfg e.store s.store request ?_⟩
    have hlt := (h.placed id (by rw [hid]; exact mine_ne_nowhere t')).2
    omega
  | store q =>
    cases t with
    | caller c =>
      obtain ⟨id, rfl⟩ := ho
      cases hserve
      exact ⟨List.prefix_rfl, hplace, fun j _ => snapshots_get cfg e.store s.store id j⟩
    | worker w =>
      obtain ⟨id, old, r, rfl, hheld, _⟩ := ho
      cases hserve
      refine ⟨List.prefix_rfl, hplace, fun j hj => snapshots_update_other cfg e.store s.store r ?_⟩
      rintro rfl
      exact hmine (hheld.symm.trans hj)
  | push c task =>
    obtain ⟨_, _, rfl⟩ | ⟨_, _, rfl⟩ := push_effect hserve
    · exact ⟨List.prefix_rfl, hplace, fun _ _ => rfl⟩
    · exact ⟨List.prefix_rfl, hplace, fun _ _ => rfl⟩
  | pop w =>
    obtain ⟨_, _, rfl⟩ | ⟨task, rest, _, _, rfl⟩ := pop_effect hserve
    · exact ⟨List.prefix_rfl, hplace, fun _ _ => rfl⟩
    · exact ⟨List.prefix_append _ _, hplace, fun _ _ => rfl⟩
  | submitted c id result =>
    have heq := submitted_effect hserve
    refine ⟨?_, hplace, fun _ _ => ?_⟩
    · rw [heq]
    · rw [heq]
  | join w =>
    simp only [Pool.serve] at hserve
    split at hserve
    · cases hserve
      exact ⟨List.prefix_rfl, hplace, fun _ _ => rfl⟩
    · cases hserve
  | _ =>
    cases hserve
    exact ⟨List.prefix_rfl, hplace, fun _ _ => rfl⟩

omit [DecidableEq γ] in
/-- Two tickets of one id are the same ticket. -/
theorem Accounted.ticket_unique {s : Pool n γ} (h : Accounted s) {i j : Nat} {t t' : SubmissionTask}
    (hi : s.popped[i]? = some t) (hj : s.popped[j]? = some t')
    (hid : t.submissionId = t'.submissionId) : i = j := by
  have hnodup := h.owned.distinct
  rw [h.flow.order, List.map_append] at hnodup
  have hi' : (s.popped.map (·.submissionId))[i]? = some t.submissionId := by
    rw [List.getElem?_map, hi]
    rfl
  have hj' : (s.popped.map (·.submissionId))[j]? = some t.submissionId := by
    rw [List.getElem?_map, hj, hid]
    rfl
  have hlt : i < (s.popped.map (·.submissionId)).length :=
    (List.getElem?_eq_some_iff.mp hi').1
  exact (List.getElem?_inj hlt (List.nodup_append.mp hnodup).1).mp (hi'.trans hj'.symm)

omit [DecidableEq γ] in
/-- A task in the queue has not been processed. -/
theorem Accounted.queued_not_processed {s : Pool n γ} (h : Accounted s) {t : SubmissionTask}
    (ht : t ∈ s.queue.queue) : t ∉ s.processed := by
  intro hprocessed
  have hnodup := h.owned.distinct
  rw [h.flow.order, List.map_append] at hnodup
  have hpos : 0 < s.processed.count t := List.count_pos_iff.mpr hprocessed
  have hfetched := h.flow.fetched t
  have hjudging := h.flow.judging t
  have hpopped : t ∈ s.popped := List.count_pos_iff.mp (by omega)
  exact (List.nodup_append.mp hnodup).2.2 _ (List.mem_map_of_mem hpopped) _
    (List.mem_map_of_mem ht) rfl

omit [DecidableEq γ] in
/-- The state moves, and the ids of the tasks are told nothing. -/
theorem Told.of_same {s s' : Pool n γ} (h : Told cfg env s) (hqueue : s'.queue.queue = s.queue.queue)
    (hpopped : s'.popped = s.popped) (hprocessed : s'.processed = s.processed)
    (htold : ∀ t, t ∈ s.queue.queue ∨ t ∈ s.popped → snapshots t.submissionId s'.store.history =
      snapshots t.submissionId s.store.history) : Told cfg env s' := by
  constructor
  · intro t ht
    rw [hqueue] at ht
    rw [htold t (Or.inl ht)]
    exact h.queued t ht
  · intro i t ht
    rw [hpopped] at ht
    obtain ⟨told, all, hso, hall⟩ := h.popped i t ht
    refine ⟨told, all, ⟨by rw [hpopped]; exact ht, hso.stores, hso.begun, ?_⟩, ?_⟩
    · rw [htold t (Or.inr (List.mem_of_getElem? ht))]
      exact hso.stored
    · rw [hprocessed]
      exact hall

/-- The entry of a grown list that stands at `i`. -/
theorem getElem?_grown {l : List SubmissionTask} {task t : SubmissionTask} {i : Nat}
    (h : (l ++ [task])[i]? = some t) : l[i]? = some t ∨ i = l.length ∧ task = t := by
  obtain hlt | rfl | hgt := Nat.lt_trichotomy i l.length
  · exact Or.inl (by rwa [List.getElem?_append_left hlt] at h)
  · rw [List.getElem?_concat_length] at h
    exact Or.inr ⟨rfl, Option.some.inj h⟩
  · rw [List.getElem?_eq_none (by simp; omega)] at h
    cases h

omit [DecidableEq γ] in
theorem Told.push {s : Pool n γ} (h : Told cfg env s) {task : SubmissionTask}
    (hnew : snapshots task.submissionId s.store.history = [queuedRecord task.submissionId]) :
    Told cfg env { s with
      queue := { s.queue with queue := s.queue.queue ++ [task] }
      accepted := s.accepted ++ [task]
      place := Function.update s.place task.submissionId .queued } := by
  refine ⟨fun t ht => ?_, h.popped⟩
  obtain hold | rfl := List.mem_append.mp ht |>.imp_right List.mem_singleton.mp
  · exact h.queued t hold
  · exact hnew

omit [DecidableEq γ] in
theorem Accounted.accepted_of_queued {s : Pool n γ} (h : Accounted s) {t : SubmissionTask}
    (ht : t ∈ s.queue.queue) : t ∈ s.accepted := by
  rw [h.flow.order]
  exact List.mem_append_right _ ht

omit [DecidableEq γ] in
theorem Accounted.accepted_of_popped {s : Pool n γ} (h : Accounted s) {t : SubmissionTask}
    (ht : t ∈ s.popped) : t ∈ s.accepted := by
  rw [h.flow.order]
  exact List.mem_append_left _ ht

omit [DecidableEq γ] in
/-- A task that is taken has had its creation told, and nothing else yet. -/
theorem Told.pop {s : Pool n γ} (h : Told cfg env s) (hs : Accounted s) {w : Fin n}
    {task : SubmissionTask} {rest : List SubmissionTask} (hq : s.queue.queue = task :: rest) :
    Told cfg env { s with
      queue := { s.queue with queue := rest }
      popped := s.popped ++ [task]
      stage := Function.update s.stage w (.fetched task)
      place := Function.update s.place task.submissionId (.held w) } := by
  have hmem : task ∈ s.queue.queue := by
    rw [hq]
    exact List.mem_cons_self
  constructor
  · intro t ht
    exact h.queued t (by rw [hq]; exact List.mem_cons_of_mem _ ht)
  · intro i t ht
    obtain hold | ⟨rfl, rfl⟩ := getElem?_grown ht
    · obtain ⟨told, all, hso, hall⟩ := h.popped i t hold
      exact ⟨told, all, ⟨ht, hso.stores, hso.begun, hso.stored⟩, hall⟩
    · obtain ⟨l, final, hscript, _⟩ :=
        processSubmission_script cfg (env s.popped.length) task.submissionId task.request
          (hs.owned.known task (hs.accepted_of_queued hmem)).1
      exact ⟨[], l ++ [final], ⟨ht, ⟨_, hscript⟩, List.nil_prefix, h.queued task hmem⟩,
        fun hprocessed => absurd hprocessed (hs.queued_not_processed hmem)⟩

omit [DecidableEq γ] in
/-- A task of which all has been told may count as processed. -/
theorem Told.processed {s : Pool n γ} (h : Told cfg env s) (hs : Accounted s) {w : Fin n}
    {task : SubmissionTask} {i : Nat} {all : List SubmissionResult}
    (hdone : JudgedSoFar cfg env s.popped s.store.history i task all all) :
    Told cfg env { s with
      processed := s.processed ++ [task]
      stage := Function.update s.stage w (.judged task)
      place := Function.update s.place task.submissionId .nowhere } := by
  refine ⟨h.queued, fun j t ht => ?_⟩
  by_cases heq : task = t
  · obtain rfl := heq
    obtain rfl := hs.ticket_unique hdone.taken ht rfl
    exact ⟨all, all, hdone, fun _ => rfl⟩
  · obtain ⟨told, all', hso, hall⟩ := h.popped j t ht
    refine ⟨told, all', hso, fun hmem => hall ?_⟩
    exact (List.mem_append.mp hmem).resolve_right fun h => heq (List.mem_singleton.mp h).symm

omit [DecidableEq γ] in
/-- Nothing is left to be told of a processed task. -/
theorem Told.not_processed {s : Pool n γ} (h : Told cfg env s) {i : Nat} {t : SubmissionTask}
    {told rest : List SubmissionResult} {r : SubmissionResult}
    (hso : JudgedSoFar cfg env s.popped s.store.history i t told (told ++ r :: rest)) :
    t ∉ s.processed := by
  intro hprocessed
  obtain ⟨told', all, hso', hall⟩ := h.popped i t hso.taken
  obtain rfl := hall hprocessed
  have hsame := hso.stores.unique hso'.stores
  rw [← (List.cons.inj (hso.stored.symm.trans hso'.stored)).2] at hsame
  simp at hsame

omit [DecidableEq γ] in
/-- The worker that holds a task tells the store one more snapshot of it. -/
theorem Told.updated {s : Pool n γ} (h : Told cfg env s) (hs : Accounted s) {w : Fin n} {i : Nat}
    {t : SubmissionTask} {told rest : List SubmissionResult} {r : SubmissionResult}
    {input : StoreInput} (hheld : s.place t.submissionId = .held w)
    (hso : JudgedSoFar cfg env s.popped s.store.history i t told (told ++ r :: rest))
    (hr : r.submissionId = t.submissionId)
    (haccepted : (perform cfg (.updateResult t.submissionId r) input s.store).1 = true) :
    Told cfg env { s with store := (perform cfg (.updateResult t.submissionId r) input s.store).2 } := by
  have hother := fun j => @snapshots_update_other cfg input s.store t.submissionId j r
  constructor
  · intro t' ht'
    have hne : t'.submissionId ≠ t.submissionId := by
      intro heq
      rw [← heq, (hs.owned.queued t' ht').1] at hheld
      cases hheld
    exact (hother _ hne).trans (h.queued t' ht')
  · intro j t' ht'
    by_cases hid : t.submissionId = t'.submissionId
    · obtain rfl := hs.ticket_unique hso.taken ht' hid
      obtain rfl : t = t' := Option.some.inj (hso.taken.symm.trans ht')
      have hmore : told ++ [r] <+: told ++ r :: rest := by
        rw [List.prefix_append_right_inj]
        exact ⟨rest, rfl⟩
      have hstored := snapshots_update cfg input s.store hr haccepted
      rw [hso.stored] at hstored
      exact ⟨told ++ [r], told ++ r :: rest, ⟨hso.taken, hso.stores, hmore, hstored⟩,
        fun hprocessed => absurd hprocessed (h.not_processed hso)⟩
    · obtain ⟨told', all, hso', hall⟩ := h.popped j t' ht'
      refine ⟨told', all, ⟨hso'.taken, hso'.stores, hso'.begun, ?_⟩, hall⟩
      exact (hother _ fun heq => hid heq.symm).trans hso'.stored

theorem Told.serve {s s' : Pool n γ} (h : Told cfg env s) (hs : Accounted s) {t : PoolThread n γ}
    {o : PoolCall n γ} {e : PoolInput} {r : o.Reply} (ho : OwnCall s t o)
    (htell : TellCall cfg env s o) (hserve : s.serve cfg e o = some (r, s')) :
    Told cfg env s' := by
  cases o with
  | createSubmission c request =>
    cases hserve
    refine h.of_same rfl rfl rfl fun t ht => snapshots_create cfg e.store s.store request ?_
    have haccepted := ht.elim hs.accepted_of_queued hs.accepted_of_popped
    have hlt := (hs.owned.known t haccepted).2.1
    omega
  | store q =>
    cases t with
    | caller c =>
      obtain ⟨id, rfl⟩ := ho
      cases hserve
      exact h.of_same rfl rfl rfl fun t _ => snapshots_get cfg e.store s.store id _
    | worker w =>
      obtain ⟨id, old, r, rfl, hheld, hold, hr, hedge⟩ := ho
      obtain ⟨haccepted, _, _⟩ := update_live cfg e.store s.store hold hr hedge
      obtain ⟨i, t, told, rest, rfl, hso⟩ := htell
      cases hserve
      exact h.updated hs hheld hso hr haccepted
  | push c task =>
    obtain ⟨_, _, rfl⟩ | ⟨_, _, rfl⟩ := push_effect hserve
    · exact h.push htell
    · exact h
  | pop w =>
    obtain ⟨_, _, rfl⟩ | ⟨task, rest, _, hq, rfl⟩ := pop_effect hserve
    · exact h
    · exact h.pop hs hq
  | processed w task =>
    cases hserve
    obtain ⟨i, all, hdone⟩ := htell
    exact h.processed hs hdone
  | submitted c id result =>
    rw [submitted_effect hserve]
    exact h.of_same rfl rfl rfl fun _ _ => rfl
  | join w =>
    simp only [Pool.serve] at hserve
    split at hserve
    · cases hserve
      exact h.of_same rfl rfl rfl fun _ _ => rfl
    · cases hserve
  | _ =>
    cases hserve
    exact h.of_same rfl rfl rfl fun _ _ => rfl

omit [DecidableEq γ] in
/-- A pool whose store has heard what it should, in a state the thread relies on. -/
theorem stable_told {t : PoolThread n γ} {A : Pool n γ → Prop} (hA : Stable (Unheard t) A) :
    Stable (fun s s' => Unheard t s s' ∧ Told cfg env s') (fun s => Told cfg env s ∧ A s) :=
  fun s s' h hr => ⟨hr.2, hA s s' h.2 hr.1⟩

/-- The rule for one call: what the thread knows before it, and what follows. -/
theorem tell_call {t : PoolThread n γ} {α : Type} {Q : α → Pool n γ → Prop} {o : PoolCall n γ}
    {f : o.Reply → Prog (poolMachine cfg n γ) α} {s : Pool n γ} (A : Pool n γ → Prop)
    (hA : Stable (Unheard t) A) (hs : Told cfg env s) (h : A s)
    (hpre : ∀ s, A s → TellCall cfg env s o)
    (hk : ∀ s e r s', Told cfg env s → A s → Accounted s → OwnCall s t o → Told cfg env s' →
      s.serve cfg e o = some (r, s') → Safe (tellContract cfg env t) Q (f r) s') :
    Safe (tellContract cfg env t) Q (call o >>= f) s := by
  refine .op_bind (fun s => Told cfg env s ∧ A s) (stable_told hA) ⟨hs, h⟩
    (fun s hs => ⟨hs.1, hpre s hs.2⟩) ?_
  intro s e r s' hs hallow hexec
  have hserve := (exec_serve hexec).1
  have htold := hs.1.serve hallow.1 hallow.2 (hpre s hs.2) hserve
  exact hk s e r s' hs.1 hs.2 hallow.1 hallow.2 htold hserve

theorem tell_ret {t : PoolThread n γ} {α : Type} {Q : α → Pool n γ → Prop} {a : α} {s : Pool n γ}
    (A : Pool n γ → Prop) (hA : Stable (Unheard t) A) (hs : Told cfg env s) (h : A s)
    (hQ : ∀ s, Told cfg env s → A s → Q a s) : Safe (tellContract cfg env t) Q (.ret a) s :=
  .ret (fun s => Told cfg env s ∧ A s) (stable_told hA) ⟨hs, h⟩ fun s h => hQ s h.1 h.2

omit [DecidableEq γ] in
theorem always_stable (t : PoolThread n γ) : Stable (Unheard t) fun _ => True :=
  fun _ _ _ _ => trivial

/-- Calls that tell the store nothing. -/
theorem silent_tells {t : PoolThread n γ} {α : Type} {p : Prog (poolMachine cfg n γ) α}
    {P : PoolCall n γ → Prop} (hp : p.Uses P) (hP : ∀ o s, P o → TellCall cfg env s o)
    {A : Pool n γ → Prop} (hA : Stable (Unheard t) A)
    (hkeep : ∀ s e o r s', P o → A s → s.serve cfg e o = some (r, s') → A s') {s : Pool n γ}
    (hs : Told cfg env s) (h : A s) :
    Safe (tellContract cfg env t) (fun _ s => Told cfg env s ∧ A s) p s := by
  refine .of_uses (fun s => Told cfg env s ∧ A s) hp (fun _ => stable_told hA) ⟨hs, h⟩
    (fun o s ho h => ⟨h.1, hP o s ho⟩) ?_
  intro o s e r s' ho h hallow hexec
  have hserve := (exec_serve hexec).1
  exact ⟨h.1.serve hallow.1 hallow.2 (hP o s ho) hserve, hkeep s e o r s' ho h.2 hserve⟩

/-- The worker holds the task, and this is what its judging has stored. -/
def Telling (cfg : CleanupConfig) (env : Nat → JudgeEnv) (w : Fin n) (i : Nat) (t : SubmissionTask)
    (told all : List SubmissionResult) (s : Pool n γ) : Prop :=
  s.place t.submissionId = .held w ∧ JudgedSoFar cfg env s.popped s.store.history i t told all

omit [DecidableEq γ] in
theorem telling_stable (w : Fin n) (i : Nat) (t : SubmissionTask)
    (told all : List SubmissionResult) :
    Stable (Unheard (.worker w)) (Telling (γ := γ) cfg env w i t told all) := by
  intro s s' ⟨hheld, hso⟩ hu
  refine ⟨(hu.place _).mpr hheld, ?_, hso.stores, hso.begun, (hu.told _ hheld).trans hso.stored⟩
  obtain ⟨more, hmore⟩ := hu.popped
  rw [← hmore, List.getElem?_append_left (List.getElem?_eq_some_iff.mp hso.taken).1]
  exact hso.taken

/-- Along a script every update is accepted and told. -/
theorem script_tells {w : Fin n} {i : Nat} {t : SubmissionTask} {α : Type}
    {p : Prog (storeMachine cfg) α} {rest : List SubmissionResult} {a : α}
    (h : Script t.submissionId p rest a) {told : List SubmissionResult} {s : Pool n γ}
    (hs : Told cfg env s) (htelling : Telling cfg env w i t told (told ++ rest) s) :
    Safe (tellContract cfg env (.worker w))
      (fun _ s => Told cfg env s ∧ Telling cfg env w i t (told ++ rest) (told ++ rest) s)
      (p.relabel storeCall) s := by
  induction h generalizing told s with
  | ret a =>
    rw [List.append_nil] at htelling ⊢
    exact tell_ret _ (telling_stable w i t _ _) hs htelling fun s hs h => ⟨hs, h⟩
  | @call r k l a hr _ ih =>
    refine tell_call _ (telling_stable w i t _ _) hs htelling ?_ ?_
    · exact fun s h => ⟨i, t, told, l, rfl, h.2⟩
    · intro s e reply s' hs h _ hown hs' hserve
      obtain ⟨id, old, r', heq, _, hold, _, hedge⟩ := hown
      cases heq
      obtain ⟨haccepted, _, _⟩ := update_live cfg e.store s.store hold hr hedge
      have hall : told ++ r :: l = told ++ [r] ++ l := by simp
      cases hserve
      rw [haccepted]
      rw [hall] at h ⊢
      refine ih hs' ⟨h.1, h.2.taken, h.2.stores, List.prefix_append _ _, ?_⟩
      exact (snapshots_update cfg e.store s.store hr haccepted).trans (by rw [h.2.stored]; rfl)

theorem judge_tells {w : Fin n} {i : Nat} {t : SubmissionTask} {all : List SubmissionResult}
    {s : Pool n γ} (hs : Told cfg env s) (h : Telling cfg env w i t [] all s) :
    Safe (tellContract cfg env (.worker w)) (fun _ s => Told cfg env s) (judge w (env i) t) s := by
  obtain ⟨a, hscript⟩ := h.2.stores
  refine tell_call _ (telling_stable w i t _ _) hs h (fun _ _ => trivial) ?_
  intro s e r s' _ h _ _ hs' hserve
  cases hserve
  apply Safe.bind
  have hsafe := script_tells hscript hs' h
  unfold processSubmission
  rw [← processSubmission_hoist]
  refine hsafe.mono ?_
  rintro _ s ⟨hs, h⟩
  refine tell_call _ (telling_stable w i t _ _) hs h (fun s h => ⟨i, all, h.2⟩) ?_
  intro s e r s' _ _ _ _ hs' _
  exact tell_ret _ (always_stable _) hs' trivial fun s hs _ => hs

/-- The calls around `processSubmission` say nothing to the store. -/
def PoolCall.aside : PoolCall n γ → Bool
  | .loadStopped | .onSubmissionStarted _ _ | .onSubmissionFinished _ _ => true
  | _ => false

theorem notify_tells {w : Fin n} (notifier : Bool) {callback : PoolCall n γ}
    (hcallback : callback.aside = true) {A : Pool n γ → Prop} (hA : Stable (Unheard (.worker w)) A)
    (hkeep : ∀ s e o r s', PoolCall.aside o = true → A s → s.serve cfg e o = some (r, s') → A s')
    {s : Pool n γ} (hs : Told cfg env s) (h : A s) :
    Safe (tellContract cfg env (.worker w)) (fun _ s => Told cfg env s ∧ A s)
      (notifyUnlessStopped notifier callback) s := by
  have huses : (notifyUnlessStopped notifier callback : Prog (poolMachine cfg n γ) Unit).Uses
      (PoolCall.aside · = true) := notifyUnlessStopped_uses notifier callback rfl hcallback
  refine silent_tells huses ?_ hA hkeep hs h
  intro o s ho
  cases o <;> trivial

theorem workerTurn_tells (notifier : Bool) (w : Fin n) {s : Pool n γ} (hs : Told cfg env s) :
    Safe (tellContract cfg env (.worker w)) (fun _ s => Told cfg env s)
      (workerTurn notifier env w) s := by
  unfold workerTurn
  refine tell_call _ (always_stable _) hs trivial (fun _ _ => trivial) ?_
  intro s e task s' hs _ _ _ hs' hserve
  obtain ⟨rfl, _, rfl⟩ | ⟨t, rest, rfl, hq, heq⟩ := pop_effect hserve
  · refine tell_call _ (always_stable _) hs trivial (fun _ _ => trivial) ?_
    intro s e r s' _ _ _ _ hs' _
    exact tell_ret _ (always_stable _) hs' trivial fun s hs _ => hs
  · have htaken : s'.popped[s.popped.length]? = some t := by
      rw [heq]
      exact List.getElem?_concat_length
    obtain ⟨told, all, hso, -⟩ := hs'.popped _ _ htaken
    have hstored : snapshots t.submissionId s'.store.history = [queuedRecord t.submissionId] := by
      rw [heq]
      exact hs.queued t (by rw [hq]; exact List.mem_cons_self)
    obtain rfl : told = [] := (List.cons.inj (hso.stored.symm.trans hstored)).2
    have hheld : s'.place t.submissionId = .held w := by
      rw [heq]
      exact Function.update_self _ _ _
    apply Safe.bind
    refine (notify_tells notifier rfl (telling_stable w _ _ _ _) ?_ hs' ⟨hheld, hso⟩).mono ?_
    · intro s e o r s' ho h hserve
      cases o <;> first | cases hserve; exact h | cases ho
    rintro _ s ⟨hs, h⟩
    apply Safe.bind
    refine (judge_tells hs h).mono ?_
    intro _ s hs
    apply Safe.bind
    refine (notify_tells notifier rfl (always_stable _) (fun _ _ _ _ _ _ _ _ => trivial) hs
      trivial).mono ?_
    rintro _ s ⟨hs, _⟩
    exact tell_ret _ (always_stable _) hs trivial fun s hs _ => hs

/-- A submission between its creation and its `push`. -/
theorem submitAsync_tells (c : γ) (request : SubmissionRequest) (channel : Bytes) {s : Pool n γ}
    (hs : Told cfg env s) :
    Safe (tellContract cfg env (.caller c)) (fun _ s => Told cfg env s)
      (submitAsync c request channel) s := by
  have hsubmitted : ∀ (id result : Int) (s : Pool n γ), Told cfg env s →
      Safe (tellContract cfg env (.caller c)) (fun _ s => Told cfg env s) (do
        call (.submitted c id result)
        pure result) s := by
    intro id result s hs
    refine tell_call _ (always_stable _) hs trivial (fun _ _ => trivial) ?_
    intro s e r s' _ _ _ _ hs' _
    exact tell_ret _ (always_stable _) hs' trivial fun s hs _ => hs
  unfold submitAsync
  refine tell_call _ (always_stable _) hs trivial (fun _ _ => trivial) ?_
  intro s e (id : Int) s' _ _ hacc _ hs' hserve
  have hcreated : s'.place id = .pushing c ∧
      snapshots id s'.store.history = [queuedRecord id] := by
    have hid := (create_live cfg e.store s.store request).1
    cases hserve
    rw [hid]
    exact ⟨Function.update_self _ _ _,
      snapshots_created cfg e.store s.store hacc.owned.counted.tracks request⟩
  split
  · exact hsubmitted _ _ _ hs'
  · refine tell_call (fun s => s.place id = .pushing c ∧
      snapshots id s.store.history = [queuedRecord id]) ?_ hs' hcreated (fun s h => h.2) ?_
    · intro s s' h hu
      exact ⟨(hu.place id).mpr h.1, (hu.told id h.1).trans h.2⟩
    · intro s e accepted s' _ _ _ _ hs' _
      exact hsubmitted _ _ _ hs'

theorem runCommand_tells (c : γ) (command : Command) {s : Pool n γ} (hs : Told cfg env s) :
    Safe (tellContract cfg env (.caller c)) (fun _ s => Told cfg env s) (runCommand c command) s := by
  have hshutdown : ∀ o (s : Pool n γ), PoolCall.ofShutdown o = true → TellCall cfg env s o := by
    intro o s ho
    cases o <;> trivial
  cases command with
  | submitAsync request channel =>
    apply Safe.bind
    refine (submitAsync_tells c request channel hs).mono ?_
    intro _ s hs
    exact tell_ret _ (always_stable _) hs trivial fun s hs _ => hs
  | query id =>
    refine tell_call _ (always_stable _) hs trivial (fun _ _ => trivial) ?_
    intro s e r s' _ _ _ _ hs' _
    exact tell_ret _ (always_stable _) hs' trivial fun s hs _ => hs
  | _ =>
    exact (silent_tells (shutdownCommand_uses c rfl) hshutdown (always_stable _)
      (fun _ _ _ _ _ _ _ _ => trivial) hs trivial).mono fun _ _ h => h.1

theorem runCommands_tells (c : γ) (commands : List Command) {s : Pool n γ} (hs : Told cfg env s) :
    Safe (tellContract cfg env (.caller c)) (fun _ s => Told cfg env s) (runCommands c commands) s := by
  induction commands generalizing s with
  | nil => exact tell_ret _ (always_stable _) hs trivial fun s hs _ => hs
  | cons command rest ih =>
    apply Safe.bind
    exact (runCommand_tells c command hs).mono fun _ s hs => ih hs

end Threads

section Runs

variable {notifier : Bool} {env : Nat → JudgeEnv} {commands : γ → List Command}
  {retention capacity : Option Int} {c : PoolConfig cfg n γ}

theorem told_start : Told cfg env
    (poolStart cfg n γ notifier env commands (TracedStore.start retention capacity)).shared :=
  ⟨fun _ h => absurd h List.not_mem_nil, fun _ _ h => by cases h⟩

/-- Every thread of a reachable configuration says to the store what its task asks for. -/
theorem tell_safe (hr : Reach (nextTurn cfg n γ notifier env commands)
      (boundedStep notifier env commands)
      (poolStart cfg n γ notifier env commands (TracedStore.start retention capacity)) c) :
    ∀ t, Safe (tellContract cfg env t) (fun _ s => Told cfg env s) (c.thread t) c.shared := by
  have hbody : ∀ t (s : Pool n γ), Told cfg env s → Safe (tellContract cfg env t)
      (fun _ s => Told cfg env s) (threadBody cfg n γ notifier env commands t) s := by
    intro t s hs
    cases t with
    | worker w => exact workerTurn_tells notifier w hs
    | caller c => exact runCommands_tells c (commands c) hs
  refine hr.safe (tellContract cfg env) (fun _ _ s => Told cfg env s)
    (fun t => hbody t _ told_start) ?_ ?_
  · intro t a p s hp hs
    cases a with
    | done => cases hp
    | again =>
      cases hp
      exact hbody t s hs
  · intro c t e o k r s' hc _ hk hpre hexec
    have hserve := (exec_serve hexec).1
    have hown := own_safe hc t
    rw [hk] at hown
    obtain ⟨hacc, howned, -⟩ := hown.pre
    refine ⟨⟨hacc, howned⟩, fun t' hne => ?_⟩
    exact ⟨serve_unheard hacc.owned howned hserve hne,
      hpre.1.serve hacc howned hpre.2 hserve⟩

theorem told_of_bounded (hr : Reach (nextTurn cfg n γ notifier env commands)
      (boundedStep notifier env commands)
      (poolStart cfg n γ notifier env commands (TracedStore.start retention capacity)) c) :
    Told cfg env c.shared := by
  refine hr.invariant (Told cfg env) told_start ?_
  intro c t e o k r s' hc _ hk hexec htold
  have hown := own_safe hc t
  have htell := tell_safe hc t
  rw [hk] at hown htell
  exact htold.serve hown.pre.1 hown.pre.2.1 htell.pre.2 (exec_serve hexec).1

end Runs

end JudgeServer.Dispatch
