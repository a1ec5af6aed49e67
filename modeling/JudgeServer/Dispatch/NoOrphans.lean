import JudgeServer.Dispatch.JudgedOnce

/-!
# Records without a task

`submitAsync` creates the record first and pushes the task second. While every push finds
the queue open, an unfinished record always has somebody who will finish it. A push that
the queue refuses leaves the record behind, queued for ever.
-/

namespace JudgeServer.Dispatch

open JudgeServer.Common
open JudgeServer.Pipeline
open JudgeServer.Lib.Interleave

variable {cfg : CleanupConfig} {n : Nat} {γ : Type} [DecidableEq γ]

/-- A worker between the `pop` of a task and the end of `processSubmission`. -/
def Stage.Holds (t : SubmissionTask) (g : Stage) : Prop := g = .fetched t ∨ g = .judging t

/-- The places say where the tasks are, and no unfinished record is nowhere. -/
structure Located (s : Pool n γ) : Prop where
  held : ∀ id w, s.place id = .held w → ∃ t, (s.stage w).Holds t ∧ t.submissionId = id
  queued : ∀ id, s.place id = .queued → ∃ t ∈ s.queue.queue, t.submissionId = id
  somewhere : ∀ id r, live s.store.store id = some r → s.place id ≠ .nowhere

theorem Stage.Holds.busy {t : SubmissionTask} {g : Stage} (h : g.Holds t) : g.resting = false := by
  obtain rfl | rfl := h <;> rfl

theorem Stage.Holds.unique {t t' : SubmissionTask} {g : Stage} (h : g.Holds t) (h' : g.Holds t') :
    t = t' := by
  obtain rfl | rfl := h <;> obtain h' | h' := h' <;> cases h' <;> rfl

section Moves

omit [DecidableEq γ]

variable {s : Pool n γ}

theorem Located.create (h : Located s) (c : γ) (request : SubmissionRequest) (e : StoreInput) :
    Located { s with
      store := (perform cfg (.createSubmission request) e s.store).2
      place := Function.update s.place (perform cfg (.createSubmission request) e s.store).1
        (.pushing c) } := by
  obtain ⟨hid, _, hothers⟩ := create_live cfg e s.store request
  rw [hid]
  constructor
  · intro id w hplace
    by_cases hne : id = s.store.store.nextSubmissionId
    · subst hne
      simp at hplace
    · simp only [Function.update_of_ne hne] at hplace
      exact h.held id w hplace
  · intro id hplace
    by_cases hne : id = s.store.store.nextSubmissionId
    · subst hne
      simp at hplace
    · simp only [Function.update_of_ne hne] at hplace
      exact h.queued id hplace
  · intro id r hlive
    by_cases hne : id = s.store.store.nextSubmissionId
    · subst hne
      simp
    · simp only [Function.update_of_ne hne]
      exact h.somewhere id r ((hothers id hne).symm.trans hlive)

theorem Located.push (h : Located s) (t : SubmissionTask) :
    Located { s with
      queue := { s.queue with queue := s.queue.queue ++ [t] }
      accepted := s.accepted ++ [t]
      place := Function.update s.place t.submissionId .queued } := by
  constructor
  · intro id w hplace
    by_cases hne : id = t.submissionId
    · subst hne
      simp at hplace
    · simp only [Function.update_of_ne hne] at hplace
      exact h.held id w hplace
  · intro id hplace
    by_cases hne : id = t.submissionId
    · exact ⟨t, List.mem_append_right _ List.mem_cons_self, hne.symm⟩
    · simp only [Function.update_of_ne hne] at hplace
      obtain ⟨t', ht', heq⟩ := h.queued id hplace
      exact ⟨t', List.mem_append_left _ ht', heq⟩
  · intro id r hlive
    by_cases hne : id = t.submissionId
    · subst hne
      simp
    · simp only [Function.update_of_ne hne]
      exact h.somewhere id r hlive

/-- The store moves; a record that appears there belongs to somebody. -/
theorem Located.stored (h : Located s) (st : TracedStore)
    (hlive : ∀ id r, live st.store id = some r → s.place id ≠ .nowhere) :
    Located { s with store := st } :=
  ⟨h.held, h.queued, hlive⟩

theorem Located.pop (h : Located s) {w : Fin n} {t : SubmissionTask} {rest : List SubmissionTask}
    (hq : s.queue.queue = t :: rest) (hrest : (s.stage w).resting = true) :
    Located { s with
      queue := { s.queue with queue := rest }
      popped := s.popped ++ [t]
      stage := Function.update s.stage w (.fetched t)
      place := Function.update s.place t.submissionId (.held w) } := by
  constructor
  · intro id w' hplace
    by_cases hne : id = t.submissionId
    · subst hne
      simp only [Function.update_self, Place.held.injEq] at hplace
      subst hplace
      exact ⟨t, Or.inl (Function.update_self _ _ _), rfl⟩
    · simp only [Function.update_of_ne hne] at hplace
      obtain ⟨t', hholds, heq⟩ := h.held id w' hplace
      have hw : w' ≠ w := by
        rintro rfl
        rw [hholds.busy] at hrest
        cases hrest
      exact ⟨t', by simpa only [Function.update_of_ne hw] using hholds, heq⟩
  · intro id hplace
    by_cases hne : id = t.submissionId
    · subst hne
      simp at hplace
    · simp only [Function.update_of_ne hne] at hplace
      obtain ⟨t', ht', heq⟩ := h.queued id hplace
      rw [hq, List.mem_cons] at ht'
      obtain rfl | ht' := ht'
      · exact absurd heq.symm hne
      · exact ⟨t', ht', heq⟩
  · intro id r hlive
    by_cases hne : id = t.submissionId
    · subst hne
      simp
    · simp only [Function.update_of_ne hne]
      exact h.somewhere id r hlive

/-- A worker moves on with the tasks it holds. -/
theorem Located.stage (h : Located s) {w : Fin n} {g : Stage} {s' : Pool n γ}
    (hg : ∀ t, (s.stage w).Holds t → g.Holds t) (hstage : s'.stage = Function.update s.stage w g)
    (hplace : s'.place = s.place) (hqueue : s'.queue = s.queue) (hstore : s'.store = s.store) :
    Located s' := by
  constructor
  · intro id w' hid
    rw [hplace] at hid
    obtain ⟨t, hholds, heq⟩ := h.held id w' hid
    refine ⟨t, ?_, heq⟩
    rw [hstage]
    by_cases hw : w' = w
    · subst hw
      rw [Function.update_self]
      exact hg t hholds
    · rw [Function.update_of_ne hw]
      exact hholds
  · rw [hplace, hqueue]
    exact h.queued
  · rw [hplace, hstore]
    exact h.somewhere

theorem Located.processed (h : Located s) {w : Fin n} {t : SubmissionTask}
    (hstage : s.stage w = .judging t) (hlive : live s.store.store t.submissionId = none) :
    Located { s with
      processed := s.processed ++ [t]
      stage := Function.update s.stage w (.judged t)
      place := Function.update s.place t.submissionId .nowhere } := by
  constructor
  · intro id w' hplace
    by_cases hne : id = t.submissionId
    · subst hne
      simp at hplace
    · simp only [Function.update_of_ne hne] at hplace
      obtain ⟨t', hholds, heq⟩ := h.held id w' hplace
      have hw : w' ≠ w := by
        rintro rfl
        obtain rfl := hholds.unique (Or.inr hstage)
        exact hne heq.symm
      exact ⟨t', by simpa only [Function.update_of_ne hw] using hholds, heq⟩
  · intro id hplace
    by_cases hne : id = t.submissionId
    · subst hne
      simp at hplace
    · simp only [Function.update_of_ne hne] at hplace
      exact h.queued id hplace
  · intro id r hr
    by_cases hne : id = t.submissionId
    · subst hne
      rw [hlive] at hr
      cases hr
    · simp only [Function.update_of_ne hne]
      exact h.somewhere id r hr

end Moves

/-- One call keeps every unfinished record in somebody's hands, unless it ends a
`submitAsync` that has failed. -/
theorem Located.serve {s s' : Pool n γ} (h : Located s) {t : PoolThread n γ} {o : PoolCall n γ}
    {e : PoolInput} {r : o.Reply} (hown : OwnCall s t o)
    (hstation : o.fromCaller = true ∨ ∃ w, AtStation w s o)
    (hresult : ∀ c id, o ≠ .submitted c id (-1)) (hserve : s.serve cfg e o = some (r, s')) :
    Located s' := by
  cases o with
  | createSubmission c request =>
    cases hserve
    exact h.create c request e.store
  | push c task =>
    obtain ⟨_, _, rfl⟩ | ⟨_, _, rfl⟩ := push_effect hserve
    · exact h.push task
    · exact h
  | submitted c id result =>
    rw [submitted_effect hserve]
    cases t with
    | worker w => exact hown.elim
    | caller c' =>
      obtain ⟨rfl, hplace⟩ := hown
      have hne : result ≠ -1 := by
        rintro rfl
        exact hresult c id rfl
      rw [if_neg (hplace hne)]
      exact h
  | store q =>
    cases t with
    | caller c =>
      obtain ⟨id, rfl⟩ := hown
      cases hserve
      refine h.stored _ fun j r hr => h.somewhere j r ?_
      exact (get_live cfg e.store s.store id j).symm.trans hr
    | worker w =>
      obtain ⟨id, old, r, rfl, hplace, hold, hr, hedge⟩ := hown
      obtain ⟨_, _, hothers⟩ := update_live cfg e.store s.store hold hr hedge
      cases hserve
      refine h.stored _ fun j r' hr' => ?_
      by_cases hne : j = id
      · rw [hne, hplace]
        simp
      · exact h.somewhere j r' ((hothers j hne).symm.trans hr')
  | pop w =>
    obtain ⟨w', rfl, hrest, _⟩ := hstation.resolve_left (by simp [PoolCall.fromCaller])
    obtain ⟨_, _, rfl⟩ | ⟨task, rest, _, hq, rfl⟩ := pop_effect hserve
    · exact h
    · exact h.pop hq hrest
  | processSubmission w task =>
    obtain ⟨w', rfl, hstage⟩ := hstation.resolve_left (by simp [PoolCall.fromCaller])
    cases hserve
    refine h.stage ?_ rfl rfl rfl rfl
    intro t' ht'
    obtain rfl := ht'.unique (Or.inl hstage)
    exact Or.inr rfl
  | processed w task =>
    obtain ⟨w', rfl, hstage⟩ := hstation.resolve_left (by simp [PoolCall.fromCaller])
    cases t with
    | caller c => exact hown.elim
    | worker w'' =>
      cases hserve
      exact h.processed hstage hown.2.2
  | onSubmissionFinished w task =>
    obtain ⟨w', rfl, hstage⟩ := hstation.resolve_left (by simp [PoolCall.fromCaller])
    cases hserve
    refine h.stage ?_ rfl rfl rfl rfl
    intro t' ht'
    rw [hstage] at ht'
    obtain ht' | ht' := ht' <;> cases ht'
  | join w =>
    simp only [Pool.serve] at hserve
    split at hserve
    · cases hserve
      exact ⟨h.held, h.queued, h.somewhere⟩
    · cases hserve
  | _ =>
    cases hserve
    exact ⟨h.held, h.queued, h.somewhere⟩

/-- The calls of `submitAsync` succeed. -/
def Granted : (o : PoolCall n γ) → o.Reply → Prop
  | .createSubmission _ _ => fun (r : Int) => 0 < r
  | .push _ _ => fun (r : Bool) => r = true
  | _ => fun _ => True

/-- With its calls granted, no `submitAsync` returns `-1`. -/
def grantedContract (cfg : CleanupConfig) : Contract (poolMachine cfg n γ) where
  allows := fun o e s => ∀ r s', Pool.exec cfg o e s = some (r, s') → Granted o r
  rely := fun _ _ _ => True
  pre := fun o _ => ∀ c id, o ≠ .submitted c id (-1)

theorem safe_of_uses_granted {α : Type} {p : Prog (poolMachine cfg n γ) α}
    (hp : p.Uses fun o : PoolCall n γ => ∀ c id, o ≠ .submitted c id (-1)) {s : Pool n γ} :
    Safe (grantedContract cfg) (fun _ _ => True) p s :=
  .of_uses (fun _ => True) hp (fun _ _ _ _ _ => trivial) trivial (fun _ _ ho _ => ho)
    fun _ _ _ _ _ _ _ _ _ => trivial

theorem submitAsync_granted (c : γ) (request : SubmissionRequest) (channel : Bytes) {s : Pool n γ} :
    Safe (grantedContract cfg) (fun _ _ => True) (submitAsync c request channel) s := by
  unfold submitAsync
  refine .op_bind (fun _ => True) (fun _ _ _ _ => trivial) trivial (fun _ _ c id h => by cases h) ?_
  intro s e (id : Int) s' _ hallow hexec
  have hpos : 0 < id := hallow id s' hexec
  rw [if_neg (by omega)]
  refine .op_bind (fun _ => True) (fun _ _ _ _ => trivial) trivial (fun _ _ c id h => by cases h) ?_
  intro s e (accepted : Bool) s' _ hallow hexec
  obtain rfl : accepted = true := hallow accepted s' hexec
  apply safe_of_uses_granted
  refine ⟨?_, fun _ => trivial⟩
  intro c' id' h
  simp only [if_true, PoolCall.submitted.injEq] at h
  omega

theorem runCommands_granted (c : γ) (commands : List Command) {s : Pool n γ} :
    Safe (grantedContract cfg) (fun _ _ => True) (runCommands c commands) s := by
  induction commands generalizing s with
  | nil =>
    apply safe_of_uses_granted
    trivial
  | cons command rest ih =>
    apply Safe.bind
    refine Safe.mono (Q := fun _ _ => True) ?_ fun _ s _ => ih
    cases command with
    | submitAsync request channel =>
      apply Safe.bind
      refine (submitAsync_granted c request channel).mono fun _ s _ => ?_
      apply safe_of_uses_granted
      trivial
    | query id =>
      apply safe_of_uses_granted
      exact Prog.Uses.op_bind (fun _ _ h => by cases h) fun _ => trivial
    | _ =>
      refine safe_of_uses_granted ((shutdownCommand_uses c rfl).mono ?_)
      rintro o ho c' id rfl
      cases ho

theorem workerTurn_granted (notifier : Bool) (env : Nat → JudgeEnv) (w : Fin n) {s : Pool n γ} :
    Safe (grantedContract cfg) (fun _ _ => True) (workerTurn notifier env w) s := by
  refine safe_of_uses_granted ((workerTurn_uses notifier env w).mono ?_)
  rintro o ho c id rfl
  cases ho

section Runs

variable (notifier : Bool) (env : Nat → JudgeEnv) (commands : γ → List Command)

/-- A push finds the queue open, and the id counter does not overflow. -/
def openStep (c : PoolConfig cfg n γ) (t : PoolThread n γ) (e : PoolInput) : Prop :=
  (∀ a (task : SubmissionTask), (c.thread t).head = some (PoolCall.push a task) →
    c.shared.queue.shutdown = false) ∧ boundedStep notifier env commands c t e

variable {notifier env commands} {retention capacity : Option Int} {c : PoolConfig cfg n γ}

/-- The calls of a step that keeps the queue open are granted. -/
theorem granted_of_open {s s' : Pool n γ} (h : Owned s) {o : PoolCall n γ} {e : PoolInput}
    {r : o.Reply} (hopen : ∀ a task, o = .push a task → s.queue.shutdown = false)
    (hserve : s.serve cfg e o = some (r, s')) : Granted o r := by
  cases o with
  | createSubmission c request =>
    have hid := (create_live cfg e.store s.store request).1
    have hpos := h.counted.tracks.nextPos
    cases hserve
    exact Int.lt_of_lt_of_le Int.one_pos (Int.le_trans hpos (Int.le_of_eq hid.symm))
  | push c task =>
    obtain ⟨hr, _, _⟩ | ⟨_, hshut, _⟩ := push_effect hserve
    · exact hr
    · rw [hopen c task rfl] at hshut
      cases hshut
  | _ => trivial

theorem granted_safe (hr : Reach (nextTurn cfg n γ notifier env commands)
      (openStep notifier env commands)
      (poolStart cfg n γ notifier env commands (TracedStore.start retention capacity)) c) :
    ∀ t, Safe (grantedContract cfg) (fun _ _ => True) (c.thread t) c.shared := by
  have hbody : ∀ t (s : Pool n γ), Safe (grantedContract cfg) (fun _ _ => True)
      (threadBody cfg n γ notifier env commands t) s := by
    intro t s
    cases t with
    | worker w => exact workerTurn_granted notifier env w
    | caller c => exact runCommands_granted c (commands c)
  refine hr.safe (fun _ => grantedContract cfg) (fun _ _ _ => True) (fun t => hbody t _) ?_ ?_
  · intro t a p s hp _
    cases a with
    | done => cases hp
    | again =>
      cases hp
      exact hbody t s
  · intro c t e o k r s' hc hok hk _ hexec
    have howned := owned_of_bounded (hc.mono fun _ _ _ h => h.2)
    refine ⟨?_, fun _ _ => trivial⟩
    intro r' s'' hexec'
    refine granted_of_open howned ?_ (exec_serve hexec').1
    rintro a task rfl
    exact hok.1 a task (by rw [hk]; rfl)

theorem located_of_reach (hr : Reach (nextTurn cfg n γ notifier env commands)
      (openStep notifier env commands)
      (poolStart cfg n γ notifier env commands (TracedStore.start retention capacity)) c) :
    Located c.shared := by
  refine hr.invariant Located ⟨?_, ?_, ?_⟩ ?_
  · exact fun _ _ h => by cases h
  · exact fun _ h => by cases h
  · exact fun _ _ h => by cases h
  · intro c t e o k r s' hc _ hk hexec hlocated
    have hflow := flow_safe (hc.mono fun _ _ _ _ => trivial) t
    have hown := own_safe (hc.mono fun _ _ _ h => h.2) t
    have hgranted := granted_safe hc t
    rw [hk] at hflow hown hgranted
    exact hlocated.serve hown.pre.2.1 (station_of_contract hflow.pre) hgranted.pre
      (exec_serve hexec).1

/-- A caller that answers for an id is about to push it or to return. -/
theorem completes_of_pushing {a : γ} {p : Prog (poolMachine cfg n γ) Turn} {s : Pool n γ}
    (h : Safe (ownContract cfg (.caller a)) (settled (.caller a)) p s) {id : Int}
    (hplace : s.place id = .pushing a) : ∃ o, p.head = some o ∧ PoolCall.Completes a id o := by
  cases p with
  | ret turn => exact absurd hplace (h.post.2 id)
  | call o k => exact ⟨o, rfl, h.pre.2.2 id hplace⟩

/-- While every push finds the queue open, each unfinished record belongs to a task in the
queue, to one that a worker holds, or to a `submitAsync` in progress, and no `submitAsync`
returns `-1`. -/
theorem unfinished_records_have_owners (hr : Reach (nextTurn cfg n γ notifier env commands)
      (openStep notifier env commands)
      (poolStart cfg n γ notifier env commands (TracedStore.start retention capacity)) c) :
    (∀ id r finishedAt, c.shared.store.store.peek id = some (r, finishedAt) →
      isTerminalStatus r.status = false →
      (∃ t ∈ c.shared.queue.queue, t.submissionId = id) ∨
      (∃ w t, (c.shared.stage w).Holds t ∧ t.submissionId = id) ∨
      ∃ a o, (c.thread (.caller a)).head = some o ∧ PoolCall.Completes a id o) ∧
    ∀ a id result, (c.thread (.caller a)).head = some (PoolCall.submitted a id result) →
      result ≠ -1 := by
  have hlocated := located_of_reach hr
  have hown := own_safe (hr.mono fun _ _ _ h => h.2)
  constructor
  · intro id r finishedAt hpeek hstatus
    have howned := owned_of_bounded (hr.mono fun _ _ _ h => h.2)
    have hlive := live_of_unfinished howned.counted.tracks hpeek hstatus
    cases hplace : c.shared.place id with
    | nowhere => exact absurd hplace (hlocated.somewhere id r hlive)
    | queued => exact Or.inl (hlocated.queued id hplace)
    | held w =>
      obtain ⟨t, hholds, heq⟩ := hlocated.held id w hplace
      exact Or.inr (Or.inl ⟨w, t, hholds, heq⟩)
    | pushing a => exact Or.inr (Or.inr ⟨a, completes_of_pushing (hown (.caller a)) hplace⟩)
  · rintro a id result hhead rfl
    exact (granted_safe hr (.caller a)).pre_head hhead a id rfl

end Runs

section Sample

def PoolCall.isPush : PoolCall 1 Unit → Bool
  | .push _ _ => true
  | _ => false

/-- The test that a step keeps the queue open and the id counter in range. -/
def openTest (commands : Unit → List Command) (c : PoolConfig {} 1 Unit) (t : PoolThread 1 Unit)
    (e : PoolInput) : Bool :=
  ((c.thread t).head.all fun o => !PoolCall.isPush o || !c.shared.queue.shutdown) &&
    (step (sampleTurn commands) c t e).all fun c' =>
      decide (creations c'.shared.store.history < 2 ^ 31 - 1)

theorem openTest_open {commands : Unit → List Command} (c : PoolConfig {} 1 Unit)
    (t : PoolThread 1 Unit) (e : PoolInput) (h : openTest commands c t e = true) :
    openStep true (fun _ => sampleEnv 1 5) commands c t e := by
  obtain ⟨hopen, hbounded⟩ := Bool.and_eq_true_iff.mp h
  constructor
  · intro a task hhead
    rw [hhead] at hopen
    simpa [PoolCall.isPush] using hopen
  · intro c' hstep
    rw [hstep] at hbounded
    simpa [Pool.bounded] using hbounded

/-- A caller submits and the worker takes the task; the record is the worker's. -/
def takenSchedule : List (PoolThread 1 Unit × PoolInput) :=
  (List.replicate 3 (PoolThread.caller ()) ++ [PoolThread.worker ⟨0, Nat.one_pos⟩]).map fun t =>
    (t, { store := ⟨0, 0, .stable⟩ })

theorem taken_record_has_owner :
    ∃ c, Reach (sampleTurn submitThenShut)
        (openStep true (fun _ => sampleEnv 1 5) submitThenShut) (samplePool submitThenShut) c ∧
      c.shared.store.store.peek 1 = some (queuedRecord 1, none) ∧ c.shared.queue.queue = [] ∧
      ((∃ w t, (c.shared.stage w).Holds t ∧ t.submissionId = 1) ∨
        ∃ a o, (c.thread (.caller a)).head = some o ∧ PoolCall.Completes a 1 o) := by
  have hrun : (runWhere (sampleTurn submitThenShut) (openTest submitThenShut)
      (samplePool submitThenShut) takenSchedule).map (fun c => decide
        (c.shared.store.store.peek 1 = some (queuedRecord 1, none) ∧ c.shared.queue.queue = [])) =
      some true := by decide +kernel
  obtain ⟨c, hc, hobs⟩ := Option.map_eq_some_iff.mp hrun
  obtain ⟨hpeek, hqueue⟩ := of_decide_eq_true hobs
  have hr := reach_of_runWhere openTest_open hc
  have howner := (unfinished_records_have_owners hr).1 1 (queuedRecord 1) none hpeek rfl
  refine ⟨c, hr, hpeek, hqueue, howner.resolve_left ?_⟩
  rw [hqueue]
  rintro ⟨t, ht, _⟩
  cases ht

/-- One caller that shuts the queue down and then submits. -/
def shutThenSubmit (_ : Unit) : List Command :=
  [.shutdownQueue, .submitAsync sampleRequest (ascii "0:1")]

def PoolCall.fails : PoolCall 1 Unit → Bool
  | .submitted _ _ result => result == -1
  | _ => false

/-- The queue refuses the task, `submitAsync` is about to return `-1`, and the record it
has created stays `QUEUED` with nobody to finish it. -/
theorem refused_record_is_orphaned :
    (∃ c o, Reach (sampleTurn shutThenSubmit) anyStep (samplePool shutThenSubmit) c ∧
      (c.thread (.caller ())).head = some o ∧ PoolCall.fails o = true) ∧
    ∃ c, Reach (sampleTurn shutThenSubmit) anyStep (samplePool shutThenSubmit) c ∧
      c.shared.store.store.peek 1 = some (queuedRecord 1, none) ∧
      isTerminalStatus (queuedRecord 1).status = false ∧
      ¬ ((∃ t ∈ c.shared.queue.queue, t.submissionId = 1) ∨
        (∃ w t, (c.shared.stage w).Holds t ∧ t.submissionId = 1) ∨
        ∃ a o, (c.thread (.caller a)).head = some o ∧ PoolCall.Completes a 1 o) := by
  have hfails : (run (sampleTurn shutThenSubmit) (samplePool shutThenSubmit)
      (callerSchedule 3)).map (fun c => (c.thread (.caller ())).head.map PoolCall.fails) =
      some (some true) := by decide +kernel
  have hrun : (run (sampleTurn shutThenSubmit) (samplePool shutThenSubmit)
      (callerSchedule 4)).map (fun c => decide
        (c.shared.store.store.peek 1 = some (queuedRecord 1, none) ∧ c.shared.queue.queue = [] ∧
          (∀ w, c.shared.stage w = .idle) ∧ (c.thread (.caller ())).head.isNone = true)) =
      some true := by decide +kernel
  constructor
  · obtain ⟨c, hc, hobs⟩ := Option.map_eq_some_iff.mp hfails
    obtain ⟨o, ho, hfail⟩ := Option.map_eq_some_iff.mp hobs
    exact ⟨c, o, reach_of_run hc, ho, hfail⟩
  · obtain ⟨c, hc, hobs⟩ := Option.map_eq_some_iff.mp hrun
    obtain ⟨hpeek, hqueue, hidle, hhead⟩ := of_decide_eq_true hobs
    refine ⟨c, reach_of_run hc, hpeek, rfl, ?_⟩
    rintro (⟨t, ht, _⟩ | ⟨w, t, hholds, _⟩ | ⟨a, o, ho, _⟩)
    · rw [hqueue] at ht
      cases ht
    · rw [hidle w] at hholds
      cases hholds.busy
    · rw [ho] at hhead
      cases hhead

end Sample

end JudgeServer.Dispatch
