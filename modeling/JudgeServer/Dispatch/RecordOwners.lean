import JudgeServer.Dispatch.Ownership

/-!
# Ownership over whole runs

Each thread against the others: what it answers for stays as it left it, so it makes
every call with the knowledge `OwnCall` asks for. `Owned` then holds in every state of a
run that creates fewer than `2 ^ 31 - 1` submissions.
-/

namespace JudgeServer.Dispatch

open JudgeServer.Common
open JudgeServer.Pipeline
open JudgeServer.Lib.Interleave

variable {cfg : CleanupConfig} {n : Nat} {γ : Type} [DecidableEq γ]

structure Accounted (s : Pool n γ) : Prop where
  flow : Flow s
  owned : Owned s

/-- The calls that a `submitAsync` makes for an id it has been given. -/
def PoolCall.Completes (c : γ) (id : Int) (o : PoolCall n γ) : Prop :=
  (∃ t, o = .push c t ∧ t.submissionId = id) ∨ ∃ r, o = .submitted c id r

/-- A caller that answers for an id is inside the `submitAsync` that created it. -/
def Completing (s : Pool n γ) : PoolThread n γ → PoolCall n γ → Prop
  | .worker _, _ => True
  | .caller c, o => ∀ id, s.place id = .pushing c → o.Completes c id

def ownContract (cfg : CleanupConfig) (t : PoolThread n γ) : Contract (poolMachine cfg n γ) where
  allows := fun o e s => ∀ r s', Pool.exec cfg o e s = some (r, s') → Flow s' ∧ s'.bounded
  rely := fun _ s s' => Undisturbed t s s' ∧ Accounted s'
  pre := fun o s => Accounted s ∧ OwnCall s t o ∧ Completing s t o

omit [DecidableEq γ] in
theorem stable_accounted {t : PoolThread n γ} {A : Pool n γ → Prop} (hA : Stable (Undisturbed t) A) :
    Stable (fun s s' => Undisturbed t s s' ∧ Accounted s') (fun s => Accounted s ∧ A s) := by
  intro s s' h hr
  exact ⟨hr.2, hA s s' h.2 hr.1⟩

section Rules

variable {t : PoolThread n γ} {α : Type} {Q : α → Pool n γ → Prop}

/-- The rule for one call: what the thread knows before it, and what follows. -/
theorem own_call {o : PoolCall n γ} {f : o.Reply → Prog (poolMachine cfg n γ) α} {s : Pool n γ}
    (A : Pool n γ → Prop) (hA : Stable (Undisturbed t) A) (hs : Accounted s) (h : A s)
    (hpre : ∀ s, A s → OwnCall s t o ∧ Completing s t o)
    (hk : ∀ s e r s', Accounted s → A s → Accounted s' → s.serve cfg e o = some (r, s') →
      Safe (ownContract cfg t) Q (f r) s') :
    Safe (ownContract cfg t) Q (call o >>= f) s := by
  refine .op_bind (fun s => Accounted s ∧ A s) (stable_accounted hA) ⟨hs, h⟩
    (fun s hs => ⟨hs.1, hpre s hs.2⟩) ?_
  intro s e r s' hs hallow hexec
  obtain ⟨hflow, hbounded⟩ := hallow r s' hexec
  obtain ⟨hserve, _⟩ := exec_serve hexec
  have howned := hs.1.owned.serve hs.1.flow (hpre s hs.2).1 hserve hbounded
  exact hk s e r s' hs.1 hs.2 ⟨hflow, howned⟩ hserve

theorem own_ret {a : α} {s : Pool n γ} (A : Pool n γ → Prop) (hA : Stable (Undisturbed t) A)
    (hs : Accounted s) (h : A s) (hQ : ∀ s, Accounted s → A s → Q a s) :
    Safe (ownContract cfg t) Q (.ret a) s :=
  .ret (fun s => Accounted s ∧ A s) (stable_accounted hA) ⟨hs, h⟩ fun s h => hQ s h.1 h.2

end Rules

/-- A worker answers for `id`, whose unfinished snapshot is `l`. -/
def Holds (w : Fin n) (id : Int) (l : Option SubmissionResult) (s : Pool n γ) : Prop :=
  s.place id = .held w ∧ live s.store.store id = l

omit [DecidableEq γ] in
theorem holds_stable (w : Fin n) (id : Int) (l : Option SubmissionResult) :
    Stable (Undisturbed (.worker w)) (Holds (γ := γ) w id l) := by
  intro s s' h hu
  exact ⟨(hu id).1.mpr h.1, ((hu id).2 h.1).trans h.2⟩

omit [DecidableEq γ] in
theorem trivial_stable (t : PoolThread n γ) : Stable (Undisturbed t) fun _ => True :=
  fun _ _ _ _ => trivial

theorem notifyUnlessStopped_own {w : Fin n} {notifier : Bool} {callback : PoolCall n γ}
    {A : Pool n γ → Prop} (hA : Stable (Undisturbed (.worker w)) A)
    (hpre : ∀ s, OwnCall s (.worker w) callback)
    (hcall : ∀ s e r s', A s → s.serve cfg e callback = some (r, s') → A s')
    {s : Pool n γ} (hs : Accounted s) (h : A s) :
    Safe (ownContract cfg (.worker w)) (fun _ s => Accounted s ∧ A s)
      (notifyUnlessStopped notifier callback) s := by
  unfold notifyUnlessStopped
  split
  · refine own_call A hA hs h (fun _ _ => ⟨trivial, trivial⟩) ?_
    intro s e stopped s' hs h _ hserve
    cases hserve
    split
    · exact own_ret A hA hs h fun s hs h => ⟨hs, h⟩
    · refine own_call A hA hs h (fun s _ => ⟨hpre s, trivial⟩) ?_
      intro s e r s' _ h hs' hserve
      exact own_ret A hA hs' (hcall s e r s' h hserve) fun s hs h => ⟨hs, h⟩
  · exact own_ret A hA hs h fun s hs h => ⟨hs, h⟩

/-- Along a script every update is accepted and becomes the record's newest snapshot. -/
theorem script_own {w : Fin n} {id : Int} {α : Type} {p : Prog (storeMachine cfg) α}
    {l : List SubmissionResult} {a : α} (h : Script id p l a) {old : SubmissionResult}
    (hchain : (old :: l).IsChain fun a b => DocumentedEdge a.status b.status) {s : Pool n γ}
    (hs : Accounted s) (hold : Holds w id (liveOf old) s) :
    Safe (ownContract cfg (.worker w))
      (fun b s => b = a ∧ Accounted s ∧ Holds w id (liveOf (l.getLastD old)) s)
      (p.relabel storeCall) s := by
  induction h generalizing old s with
  | ret a => exact own_ret _ (holds_stable w id _) hs hold fun s hs h => ⟨rfl, hs, h⟩
  | @call r k l a hr _ ih =>
    obtain ⟨hedge, hrest⟩ := List.isChain_cons_cons.mp hchain
    have hlive : liveOf old = some old := by
      unfold liveOf
      rw [hedge.unfinished]
      rfl
    have hvalid := (isValidTransition_iff _ _).mpr hedge
    refine own_call (Holds w id (liveOf old)) (holds_stable w id _) hs hold ?_ ?_
    · intro s h
      exact ⟨⟨id, old, r, rfl, h.1, h.2.trans hlive, hr, hvalid⟩, trivial⟩
    · intro s e reply s' _ h hs' hserve
      obtain ⟨haccepted, hnew, _⟩ :=
        update_live cfg e.store s.store (h.2.trans hlive) hr hvalid
      cases hserve
      rw [haccepted]
      have hnext := ih hrest hs' ⟨h.1, hnew⟩
      rwa [List.getLastD_cons]

omit [DecidableEq γ] in
theorem Owned.head_of_queue {s : Pool n γ} (h : Owned s) {t : SubmissionTask}
    {rest : List SubmissionTask} (hq : s.queue.queue = t :: rest) :
    0 < t.submissionId ∧ live s.store.store t.submissionId = some (queuedRecord t.submissionId) := by
  obtain ⟨hplace, hlive⟩ := h.queued t (by rw [hq]; exact List.mem_cons_self)
  exact ⟨(h.placed t.submissionId (by rw [hplace]; simp)).1, hlive⟩

theorem processSubmission_own {w : Fin n} (env : JudgeEnv) {id : Int} (request : SubmissionRequest)
    (hid : 0 < id) {s : Pool n γ} (hs : Accounted s) (h : Holds w id (some (queuedRecord id)) s) :
    Safe (ownContract cfg (.worker w)) (fun _ s => Accounted s ∧ Holds w id none s)
      (processSubmission env id request) s := by
  obtain ⟨l, final, hscript, houtcome, _, hchain, _⟩ :=
    processSubmission_script cfg env id request hid
  have hsafe := script_own (γ := γ) (w := w) hscript hchain hs h
  have hnone : liveOf ((l ++ [final]).getLastD (makeResult id .queued .pending)) = none := by
    rw [List.getLastD_concat]
    unfold liveOf
    rw [outcome_terminal houtcome]
    rfl
  rw [hnone] at hsafe
  unfold processSubmission
  rw [← processSubmission_hoist]
  exact hsafe.mono fun _ s hs => hs.2

theorem judge_own {w : Fin n} (env : JudgeEnv) (t : SubmissionTask) (hid : 0 < t.submissionId)
    {s : Pool n γ} (hs : Accounted s)
    (h : Holds w t.submissionId (some (queuedRecord t.submissionId)) s) :
    Safe (ownContract cfg (.worker w)) (fun _ s => Accounted s) (judge w env t) s := by
  refine own_call _ (holds_stable w _ _) hs h (fun _ _ => ⟨trivial, trivial⟩) ?_
  intro s e r s' _ h hs' hserve
  cases hserve
  apply Safe.bind
  refine (processSubmission_own env t.request hid hs' h).mono ?_
  intro _ s h
  refine own_call _ (holds_stable w _ _) h.1 h.2 (fun s h => ⟨⟨rfl, h.1, h.2⟩, trivial⟩) ?_
  intro s e r s' _ _ hs' _
  exact own_ret _ (trivial_stable _) hs' trivial fun s hs _ => hs

theorem workerTurn_own (notifier : Bool) (env : Nat → JudgeEnv) (w : Fin n) {s : Pool n γ}
    (hs : Accounted s) :
    Safe (ownContract cfg (.worker w)) (fun _ s => Accounted s) (workerTurn notifier env w) s := by
  unfold workerTurn
  refine own_call (fun _ => True) (trivial_stable _) hs trivial (fun _ _ => ⟨rfl, trivial⟩) ?_
  intro s e task s' hs _ hs' hserve
  obtain ⟨rfl, _, rfl⟩ | ⟨t, rest, rfl, hq, heq⟩ := pop_effect hserve
  · refine own_call (fun _ => True) (trivial_stable _) hs trivial (fun _ _ => ⟨trivial, trivial⟩) ?_
    intro s e r s' _ _ hs' _
    exact own_ret _ (trivial_stable _) hs' trivial fun s hs _ => hs
  · obtain ⟨hid, hlive⟩ := hs.owned.head_of_queue hq
    have hholds : Holds w t.submissionId (some (queuedRecord t.submissionId)) s' := by
      rw [heq]
      exact ⟨Function.update_self _ _ _, hlive⟩
    apply Safe.bind
    refine (notifyUnlessStopped_own (holds_stable w _ _) ?_ ?_ hs' hholds).mono ?_
    · exact fun _ => trivial
    · intro s e r s' h hserve
      cases hserve
      exact h
    intro _ s h
    apply Safe.bind
    refine (judge_own _ t hid h.1 h.2).mono ?_
    intro _ s h
    apply Safe.bind
    refine (notifyUnlessStopped_own (trivial_stable _) ?_ (fun _ _ _ _ _ _ => trivial) h trivial).mono
      ?_
    · exact fun _ => trivial
    intro _ s h
    exact own_ret _ (trivial_stable _) h.1 trivial fun s hs _ => hs

/-- The caller answers for no id but `id`. -/
def Only (c : γ) (id : Int) (s : Pool n γ) : Prop := ∀ j, s.place j = .pushing c → j = id

/-- The caller is not inside a `submitAsync`. -/
def Free (c : γ) (s : Pool n γ) : Prop := ∀ id, s.place id ≠ .pushing c

omit [DecidableEq γ] in
theorem free_stable (c : γ) : Stable (Undisturbed (.caller c)) (Free (n := n) c) :=
  fun _ _ h hu id hid => h id ((hu id).1.mp hid)

omit [DecidableEq γ] in
theorem only_stable (c : γ) (id : Int) : Stable (Undisturbed (.caller c)) (Only (n := n) c id) :=
  fun _ _ h hu j hj => h j ((hu j).1.mp hj)

omit [DecidableEq γ] in
theorem Free.completing {c : γ} {s : Pool n γ} (h : Free c s) (o : PoolCall n γ) :
    Completing s (.caller c) o :=
  fun id hid => absurd hid (h id)

/-- What a caller knows between its two calls for a new id. -/
structure Created (c : γ) (id : Int) (s : Pool n γ) : Prop where
  place : s.place id = .pushing c
  record : live s.store.store id = some (queuedRecord id)
  only : Only c id s

omit [DecidableEq γ] in
theorem created_stable (c : γ) (id : Int) :
    Stable (Undisturbed (.caller c)) (Created (n := n) c id) := by
  intro s s' h hu
  exact ⟨(hu id).1.mpr h.place, ((hu id).2 h.place).trans h.record, only_stable c id s s' h.only hu⟩

/-- The end of a `submitAsync`. -/
theorem submitted_own {c : γ} {id result : Int} {α : Type} {Q : α → Pool n γ → Prop}
    {f : Unit → Prog (poolMachine cfg n γ) α} {s : Pool n γ} (hs : Accounted s) (h : Only c id s)
    (hresult : result ≠ -1 → s.place id ≠ .pushing c)
    (hf : ∀ s, Accounted s → Free c s → Safe (ownContract cfg (.caller c)) Q (f ()) s) :
    Safe (ownContract cfg (.caller c)) Q (call (.submitted c id result) >>= f) s := by
  refine own_call (fun s => Only c id s ∧ (result ≠ -1 → s.place id ≠ .pushing c)) ?_ hs ⟨h, hresult⟩
    ?_ ?_
  · intro s s' h hu
    exact ⟨only_stable c id s s' h.1 hu, fun hne hid => h.2 hne ((hu id).1.mp hid)⟩
  · intro s h
    refine ⟨⟨rfl, h.2⟩, fun j hj => ?_⟩
    rw [h.1 j hj]
    exact Or.inr ⟨result, rfl⟩
  · intro s e r s' _ h hs' hserve
    refine hf s' hs' ?_
    rw [submitted_effect hserve]
    intro j hj
    by_cases hplace : s.place id = .pushing c
    · simp only [if_pos hplace] at hj
      by_cases hne : j = id
      · subst hne
        simp at hj
      · rw [Function.update_of_ne hne] at hj
        exact hne (h.1 j hj)
    · simp only [if_neg hplace] at hj
      obtain rfl := h.1 j hj
      exact hplace hj

theorem submitAsync_own (c : γ) (request : SubmissionRequest) (channel : Bytes) {s : Pool n γ}
    (hs : Accounted s) (h : Free c s) :
    Safe (ownContract cfg (.caller c)) (fun _ s => Accounted s ∧ Free c s)
      (submitAsync c request channel) s := by
  have hdone : ∀ (r : Int) (s : Pool n γ), Accounted s → Free c s →
      Safe (ownContract cfg (.caller c)) (fun _ s => Accounted s ∧ Free c s) (.ret r) s :=
    fun r s hs h => own_ret _ (free_stable c) hs h fun s hs h => ⟨hs, h⟩
  unfold submitAsync
  refine own_call _ (free_stable c) hs h (fun s h => ⟨rfl, h.completing _⟩) ?_
  intro s e (id : Int) s' _ h hs' hserve
  obtain ⟨hid, hlive, _⟩ := create_live cfg e.store s.store request
  have hcreated : Created c id s' := by
    cases hserve
    rw [hid]
    refine ⟨Function.update_self _ _ _, hlive, fun j hj => ?_⟩
    by_contra hne
    exact h j (by simpa only [Function.update_of_ne hne] using hj)
  have hpos : 0 < id := (hs'.owned.placed id (by rw [hcreated.place]; simp)).1
  rw [if_neg (by omega)]
  refine own_call _ (created_stable c id) hs' hcreated ?_ ?_
  · intro s h
    refine ⟨⟨rfl, h.place, h.record⟩, fun j hj => ?_⟩
    rw [h.only j hj]
    exact Or.inl ⟨_, rfl, rfl⟩
  · intro s e accepted s' _ h hs' hserve
    obtain ⟨rfl, _, heq⟩ | ⟨rfl, _, rfl⟩ := push_effect hserve
    · have hplace : s'.place = Function.update s.place id .queued := by rw [heq]
      refine submitted_own hs' ?_ ?_ (hdone _)
      · intro j hj
        rw [hplace] at hj
        by_contra hne
        rw [Function.update_of_ne hne] at hj
        exact hne (h.only j hj)
      · rw [hplace, Function.update_self]
        simp
    · exact submitted_own hs' h.only (fun hne => absurd rfl hne) (hdone _)

theorem shutdown_own (c : γ) {α : Type} {p : Prog (poolMachine cfg n γ) α}
    (hp : p.Uses (PoolCall.ofShutdown · = true)) {s : Pool n γ} (hs : Accounted s) (h : Free c s) :
    Safe (ownContract cfg (.caller c)) (fun _ s => Accounted s ∧ Free c s) p s := by
  have hown : ∀ (o : PoolCall n γ) (s : Pool n γ), o.ofShutdown = true → OwnCall s (.caller c) o := by
    intro o s ho
    cases o <;> trivial
  refine .of_uses (fun s => Accounted s ∧ Free c s) hp (fun _ => stable_accounted (free_stable c))
    ⟨hs, h⟩ (fun o s ho h => ⟨h.1, hown o s ho, h.2.completing o⟩) ?_
  intro o s e r s' ho h hallow hexec
  obtain ⟨hflow, hbounded⟩ := hallow r s' hexec
  obtain ⟨hserve, _⟩ := exec_serve hexec
  refine ⟨⟨hflow, h.1.owned.serve h.1.flow (hown o s ho) hserve hbounded⟩, ?_⟩
  have hplace : s'.place = s.place := by
    cases o with
    | join w =>
      simp only [Pool.serve] at hserve
      split at hserve
      · cases hserve
        rfl
      · cases hserve
    | shutdownQueue | exchangeStopped | storeStopped | joinable _ | destroyWorkers | returned _ =>
      cases hserve
      rfl
    | _ => cases ho
  intro id
  rw [hplace]
  exact h.2 id

theorem runCommand_own (c : γ) (command : Command) {s : Pool n γ} (hs : Accounted s)
    (h : Free c s) :
    Safe (ownContract cfg (.caller c)) (fun _ s => Accounted s ∧ Free c s)
      (runCommand c command) s := by
  cases command with
  | submitAsync request channel =>
    apply Safe.bind
    refine (submitAsync_own c request channel hs h).mono ?_
    intro _ s h
    exact own_ret _ (free_stable c) h.1 h.2 fun s hs h => ⟨hs, h⟩
  | query id =>
    refine own_call _ (free_stable c) hs h (fun s h => ⟨⟨id, rfl⟩, h.completing _⟩) ?_
    intro s e r s' _ h hs' hserve
    cases hserve
    exact own_ret _ (free_stable c) hs' h fun s hs h => ⟨hs, h⟩
  | _ => exact shutdown_own c (shutdownCommand_uses c rfl) hs h

theorem runCommands_own (c : γ) (commands : List Command) {s : Pool n γ} (hs : Accounted s)
    (h : Free c s) :
    Safe (ownContract cfg (.caller c)) (fun _ s => Accounted s ∧ Free c s)
      (runCommands c commands) s := by
  induction commands generalizing s with
  | nil => exact own_ret _ (free_stable c) hs h fun s hs h => ⟨hs, h⟩
  | cons command rest ih =>
    apply Safe.bind
    exact (runCommand_own c command hs h).mono fun _ s h => ih h.1 h.2

section Runs

variable (notifier : Bool) (env : Nat → JudgeEnv) (commands : γ → List Command)

/-- The step leaves room in the id counter. -/
def boundedStep (c : PoolConfig cfg n γ) (t : PoolThread n γ) (e : PoolInput) : Prop :=
  ∀ c', step (nextTurn cfg n γ notifier env commands) c t e = some c' → c'.shared.bounded

variable {notifier env commands}

/-- The store changes by calls of the store only. -/
theorem serve_store {o : PoolCall n γ} {e : PoolInput} {s s' : Pool n γ} {r : o.Reply}
    (h : s.serve cfg e o = some (r, s')) :
    s'.store = s.store ∨ ∃ q, s'.store = (perform cfg q e.store s.store).2 := by
  cases o with
  | createSubmission c request =>
    cases h
    exact Or.inr ⟨_, rfl⟩
  | store q =>
    cases h
    exact Or.inr ⟨q, rfl⟩
  | push c t => obtain ⟨_, _, rfl⟩ | ⟨_, _, rfl⟩ := push_effect h <;> exact Or.inl rfl
  | pop w => obtain ⟨_, _, rfl⟩ | ⟨t, rest, _, _, rfl⟩ := pop_effect h <;> exact Or.inl rfl
  | submitted c id result =>
    rw [submitted_effect h]
    exact Or.inl rfl
  | join w =>
    simp only [Pool.serve] at h
    split at h
    · cases h
      exact Or.inl rfl
    · cases h
  | _ =>
    cases h
    exact Or.inl rfl

theorem serve_creations {o : PoolCall n γ} {e : PoolInput} {s s' : Pool n γ} {r : o.Reply}
    (h : s.serve cfg e o = some (r, s')) :
    creations s.store.history ≤ creations s'.store.history := by
  obtain heq | ⟨q, heq⟩ := serve_store h
  · rw [heq]
  · rw [heq]
    exact creations_mono cfg q e.store

theorem step_bounded {c c' : PoolConfig cfg n γ} {t : PoolThread n γ} {e : PoolInput}
    (h : step (nextTurn cfg n γ notifier env commands) c t e = some c') (hb : c'.shared.bounded) :
    c.shared.bounded := by
  rcases step_cases h with ⟨_, _, _, _, rfl⟩ | ⟨o, k, r, s', _, hexec, rfl⟩
  · exact hb
  · exact Nat.lt_of_le_of_lt (serve_creations (exec_serve hexec).1) hb

/-- A run that ends with few creations had few all along. -/
theorem reach_bounded {init c : PoolConfig cfg n γ}
    (hr : Reach (nextTurn cfg n γ notifier env commands) anyStep init c) (hb : c.shared.bounded) :
    Reach (nextTurn cfg n γ notifier env commands) (boundedStep notifier env commands) init c := by
  induction hr with
  | refl => exact .refl
  | tail hc _ hs ih =>
    refine .tail (ih (step_bounded hs hb)) ?_ hs
    intro c'' hs'
    rw [hs] at hs'
    cases hs'
    exact hb

variable {retention capacity : Option Int} {c : PoolConfig cfg n γ}

theorem accounted_start : Accounted
    (poolStart cfg n γ notifier env commands (TracedStore.start retention capacity)).shared := by
  refine ⟨flow_start, ⟨tracks_start retention capacity, rfl⟩, ?_, ?_, List.nodup_nil, ?_⟩
  · exact fun id h => absurd rfl h
  · exact fun t ht => absurd ht List.not_mem_nil
  · exact fun t ht => absurd ht List.not_mem_nil

/-- What a thread that goes on starts its next turn with. -/
def settled : PoolThread n γ → Turn → Pool n γ → Prop
  | .worker _ => fun _ s => Accounted s
  | .caller c => fun _ s => Accounted s ∧ Free c s

/-- Every thread of a reachable configuration knows what it answers for. -/
theorem own_safe (hr : Reach (nextTurn cfg n γ notifier env commands)
      (boundedStep notifier env commands)
      (poolStart cfg n γ notifier env commands (TracedStore.start retention capacity)) c) :
    ∀ t, Safe (ownContract cfg t) (settled t) (c.thread t) c.shared := by
  refine hr.safe (ownContract cfg) settled ?_ ?_ ?_
  · intro t
    cases t with
    | worker w => exact workerTurn_own notifier env w accounted_start
    | caller c => exact runCommands_own c (commands c) accounted_start fun _ h => by cases h
  · intro t a p s hp hs
    cases a with
    | done => cases hp
    | again =>
      cases hp
      cases t with
      | worker w => exact workerTurn_own notifier env w hs
      | caller c => exact runCommands_own c (commands c) hs.1 hs.2
  · intro c t e o k r s' hc hok hk hpre hexec
    obtain ⟨hserve, _⟩ := exec_serve hexec
    have hstep := @step_of_exec _ _ _ _ _ _ (nextTurn cfg n γ notifier env commands) c t e o k r s' hk hexec
    have hflow : Flow s' :=
      flow_of_reach ((hc.tail hok hstep).mono fun _ _ _ _ => trivial)
    have hbounded : s'.bounded := hok _ hstep
    refine ⟨?_, ?_⟩
    · intro r' s'' hexec'
      cases Option.some.inj (hexec.symm.trans hexec')
      exact ⟨hflow, hbounded⟩
    · intro t' hne
      exact ⟨serve_undisturbed hpre.1.owned hpre.2.1 hserve hne, hflow,
        hpre.1.owned.serve hpre.1.flow hpre.2.1 hserve hbounded⟩

/-- Ownership in every state of a run that leaves room in the id counter. -/
theorem owned_of_bounded (hr : Reach (nextTurn cfg n γ notifier env commands)
      (boundedStep notifier env commands)
      (poolStart cfg n γ notifier env commands (TracedStore.start retention capacity)) c) :
    Owned c.shared := by
  refine hr.invariant Owned accounted_start.owned ?_
  intro c t e o k r s' hc hok hk hexec howned
  have hpre := own_safe hc t
  rw [hk] at hpre
  exact howned.serve hpre.pre.1.flow hpre.pre.2.1 (exec_serve hexec).1
    (hok _ (step_of_exec hk hexec))

end Runs

end JudgeServer.Dispatch
