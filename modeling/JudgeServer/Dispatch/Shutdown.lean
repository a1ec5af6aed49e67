import JudgeServer.Dispatch.JudgedOnce

/-!
# Shutting the pool down

`stop` does its work only in the call whose `compare_exchange` sets the flag, and
`graceful_shutdown` sets the flag before it calls `stop`. A shutdown call is complete on
return if its exchange finds the flag still false, or the work already done.
-/

namespace JudgeServer.Dispatch

open JudgeServer.Common
open JudgeServer.Pipeline
open JudgeServer.Lib.Interleave

variable {cfg : CleanupConfig} {n : Nat} {γ : Type} [DecidableEq γ]

/-- The work of `stop`. -/
structure Pool.Closed (s : Pool n γ) : Prop where
  shutdown : s.queue.shutdown = true
  joined : ∀ w, s.joined w = true

/-- What is done stays done. -/
structure Closing (s s' : Pool n γ) : Prop where
  shutdown : s.queue.shutdown = true → s'.queue.shutdown = true
  joined : ∀ w, s.joined w = true → s'.joined w = true

/-- The calls with which a shutdown ends. -/
def PoolCall.ends : PoolCall n γ → Bool
  | .returned _ | .destroyWorkers => true
  | _ => false

def stopContract (cfg : CleanupConfig) : Contract (poolMachine cfg n γ) where
  allows := fun o _ s => o = PoolCall.exchangeStopped → s.stopped = false ∨ s.Closed
  rely := fun _ => Closing
  pre := fun o s => PoolCall.ends o = true → s.Closed

theorem serve_joined {o : PoolCall n γ} {e : PoolInput} {s s' : Pool n γ} {r : o.Reply}
    (h : s.serve cfg e o = some (r, s')) (w : Fin n) :
    s'.joined w = s.joined w ∨ (o = .join w ∧ s.left w = true ∧ s'.joined w = true) := by
  cases o with
  | join w' =>
    simp only [Pool.serve] at h
    split at h
    · next hleft =>
      cases h
      by_cases hw : w = w'
      · subst hw
        exact Or.inr ⟨rfl, hleft, Function.update_self _ _ _⟩
      · exact Or.inl (Function.update_of_ne hw _ _)
    · cases h
  | push c t => obtain ⟨_, _, rfl⟩ | ⟨_, _, rfl⟩ := push_effect h <;> exact Or.inl rfl
  | pop w' => obtain ⟨_, _, rfl⟩ | ⟨t, rest, _, _, rfl⟩ := pop_effect h <;> exact Or.inl rfl
  | submitted c id result =>
    rw [submitted_effect h]
    exact Or.inl rfl
  | _ =>
    cases h
    exact Or.inl rfl

theorem serve_closing {o : PoolCall n γ} {e : PoolInput} {s s' : Pool n γ} {r : o.Reply}
    (h : s.serve cfg e o = some (r, s')) : Closing s s' := by
  refine ⟨fun hd => (serve_shutdown h hd).1, ?_⟩
  intro w hw
  obtain heq | ⟨_, _, hjoined⟩ := serve_joined h w
  · rw [heq]
    exact hw
  · exact hjoined

theorem serve_left {o : PoolCall n γ} {e : PoolInput} {s s' : Pool n γ} {r : o.Reply}
    (h : s.serve cfg e o = some (r, s')) (w : Fin n) (hw : s.left w = true) : s'.left w = true := by
  cases o with
  | leaveLoop w' =>
    cases h
    by_cases hne : w = w'
    · subst hne
      exact Function.update_self _ _ _
    · exact (Function.update_of_ne hne _ _).trans hw
  | join w' =>
    simp only [Pool.serve] at h
    split at h
    · cases h
      exact hw
    · cases h
  | push c t => obtain ⟨_, _, rfl⟩ | ⟨_, _, rfl⟩ := push_effect h <;> exact hw
  | pop w' => obtain ⟨_, _, rfl⟩ | ⟨t, rest, _, _, rfl⟩ := pop_effect h <;> exact hw
  | submitted c id result =>
    rw [submitted_effect h]
    exact hw
  | _ =>
    cases h
    exact hw

/-- Only a worker that has left its loop is joined. -/
def JoinedLeft (s : Pool n γ) : Prop := ∀ w, s.joined w = true → s.left w = true

theorem JoinedLeft.serve {o : PoolCall n γ} {e : PoolInput} {s s' : Pool n γ} {r : o.Reply}
    (hs : JoinedLeft s) (h : s.serve cfg e o = some (r, s')) : JoinedLeft s' := by
  intro w hw
  obtain heq | ⟨_, hleft, _⟩ := serve_joined h w
  · rw [heq] at hw
    exact serve_left h w (hs w hw)
  · exact serve_left h w hleft

omit [DecidableEq γ] in
theorem closed_stable : Stable Closing (Pool.Closed (n := n) (γ := γ)) :=
  fun _ _ h hc => ⟨hc.shutdown h.shutdown, fun w => hc.joined w (h.joined w)⟩

/-- The queue is shut down and these workers are joined. -/
def ClosedFor (ws : List (Fin n)) (s : Pool n γ) : Prop :=
  s.queue.shutdown = true ∧ ∀ w ∈ ws, s.joined w = true

omit [DecidableEq γ] in
theorem closedFor_stable (ws : List (Fin n)) : Stable Closing (ClosedFor (γ := γ) ws) :=
  fun _ _ h hc => ⟨hc.shutdown h.1, fun w hw => hc.joined w (h.2 w hw)⟩

/-- The loop joins the workers one after the other, `done` being behind it. -/
theorem joinWorkers_closes (ws done : List (Fin n)) {s : Pool n γ} (h : ClosedFor done s) :
    Safe (stopContract cfg) (fun _ => ClosedFor (done ++ ws)) (joinWorkers ws) s := by
  induction ws generalizing done s with
  | nil =>
    rw [List.append_nil]
    exact .ret _ (closedFor_stable done) h fun _ h => h
  | cons w ws ih =>
    have hnext : ∀ s : Pool n γ, ClosedFor done s → s.joined w = true →
        Safe (stopContract cfg) (fun _ => ClosedFor (done ++ w :: ws)) (joinWorkers ws) s := by
      intro s h hw
      rw [List.append_cons]
      refine ih (done ++ [w]) ⟨h.1, fun v hv => ?_⟩
      rw [List.mem_append, List.mem_singleton] at hv
      obtain hv | rfl := hv
      · exact h.2 v hv
      · exact hw
    unfold joinWorkers
    refine .op_bind _ (closedFor_stable done) h (fun _ _ ho => by cases ho) ?_
    intro s e (joinable : Bool) s' h _ hexec
    cases hj : s.joined w with
    | true =>
      have hserve := (exec_serve hexec).1
      simp only [Pool.serve, hj] at hserve
      cases hserve
      exact hnext s h hj
    | false =>
      have hserve := (exec_serve hexec).1
      simp only [Pool.serve, hj] at hserve
      cases hserve
      refine .op_bind _ (closedFor_stable done) h (fun _ _ ho => by cases ho) ?_
      intro s e r s' h _ hexec
      have hserve := (exec_serve hexec).1
      have hclosing := serve_closing hserve
      refine hnext s' (closedFor_stable done s s' h hclosing) ?_
      simp only [Pool.serve] at hserve
      split at hserve
      · cases hserve
        exact Function.update_self _ _ _
      · cases hserve

omit [DecidableEq γ] in
theorem closed_of_finRange {s : Pool n γ} (h : ClosedFor (List.finRange n) s) : s.Closed :=
  ⟨h.1, fun w => h.2 w (List.mem_finRange w)⟩

/-- A `stop` whose exchange meets the condition is complete on return. -/
theorem stop_closes {s : Pool n γ} :
    Safe (stopContract cfg) (fun _ => Pool.Closed) stop s := by
  unfold stop
  refine .op_bind (fun _ => True) (fun _ _ _ _ => trivial) trivial (fun _ _ ho => by cases ho) ?_
  intro s e (first : Bool) s' _ hallow hexec
  have hcond := hallow rfl
  cases hstopped : s.stopped with
  | true =>
    have hserve := (exec_serve hexec).1
    simp only [Pool.serve, hstopped] at hserve
    cases hserve
    rw [hstopped] at hcond
    have hclosed := hcond.resolve_left (by simp)
    exact .ret _ closed_stable ⟨hclosed.shutdown, hclosed.joined⟩ fun _ h => h
  | false =>
    have hserve := (exec_serve hexec).1
    simp only [Pool.serve, hstopped] at hserve
    cases hserve
    refine .op_bind (fun _ => True) (fun _ _ _ _ => trivial) trivial (fun _ _ ho => by cases ho) ?_
    intro s e r s' _ _ hexec
    cases (exec_serve hexec).1
    refine (joinWorkers_closes (List.finRange n) [] ⟨rfl, fun _ h => by cases h⟩).mono ?_
    intro _ s h
    exact closed_of_finRange h

/-- Nothing is asked of a program that makes none of the ending calls. -/
theorem safe_of_no_end {α : Type} {p : Prog (poolMachine cfg n γ) α}
    (hp : p.Uses fun o : PoolCall n γ => PoolCall.ends o = false) {s : Pool n γ} :
    Safe (stopContract cfg) (fun _ _ => True) p s := by
  refine .of_uses (fun _ => True) hp (fun _ _ _ _ _ => trivial) trivial ?_
    fun _ _ _ _ _ _ _ _ _ => trivial
  intro o s ho _ hend
  rw [ho] at hend
  cases hend

/-- A call that ends a shutdown. -/
theorem ending_safe {o : PoolCall n γ} {s : Pool n γ} (h : s.Closed) :
    Safe (stopContract cfg) (fun _ => Pool.Closed) (call o) s := by
  refine .call Pool.Closed closed_stable h (fun _ h _ => h) ?_
  intro s e r s' h _ hexec
  exact .ret _ closed_stable (closed_stable s s' h (serve_closing (exec_serve hexec).1)) fun _ h => h

theorem runCommand_closes (c : γ) (command : Command) {s : Pool n γ} :
    Safe (stopContract cfg) (fun _ _ => True) (runCommand c command) s := by
  have hreturn : ∀ s : Pool n γ, s.Closed →
      Safe (stopContract cfg) (fun _ _ => True) (call (.returned c)) s :=
    fun s h => (ending_safe h).mono fun _ _ _ => trivial
  cases command with
  | submitAsync request channel =>
    apply safe_of_no_end
    refine Prog.Uses.bind (.op_bind rfl fun id => ?_) fun _ => trivial
    split
    · exact ⟨rfl, fun _ => trivial⟩
    · exact ⟨rfl, fun _ => ⟨rfl, fun _ => trivial⟩⟩
  | query id =>
    apply safe_of_no_end
    exact Prog.Uses.op_bind rfl fun _ => trivial
  | shutdownQueue =>
    apply safe_of_no_end
    exact ⟨rfl, fun _ => trivial⟩
  | stop =>
    apply Safe.bind
    exact stop_closes.mono fun _ s h => hreturn s h
  | gracefulShutdown =>
    apply Safe.bind
    refine .op_bind (fun _ => True) (fun _ _ _ _ => trivial) trivial (fun _ _ ho => by cases ho) ?_
    intro s e r s' _ _ _
    exact stop_closes.mono fun _ s h => hreturn s h
  | destroy =>
    apply Safe.bind
    apply Safe.bind
    refine stop_closes.mono fun _ s h => ?_
    exact (ending_safe h).mono fun _ s h => hreturn s h

theorem runCommands_closes (c : γ) (commands : List Command) {s : Pool n γ} :
    Safe (stopContract cfg) (fun _ _ => True) (runCommands c commands) s := by
  induction commands generalizing s with
  | nil =>
    apply safe_of_no_end
    trivial
  | cons command rest ih =>
    apply Safe.bind
    exact (runCommand_closes c command).mono fun _ _ _ => ih

theorem workerTurn_closes (notifier : Bool) (env : Nat → JudgeEnv) (w : Fin n) {s : Pool n γ} :
    Safe (stopContract cfg) (fun _ _ => True) (workerTurn notifier env w) s := by
  refine safe_of_no_end ((workerTurn_uses notifier env w).mono ?_)
  intro o ho
  cases o <;> first | rfl | cases ho

section Runs

variable {notifier : Bool} {env : Nat → JudgeEnv} {commands : γ → List Command}
  {store : TracedStore} {c : PoolConfig cfg n γ}

/-- An exchange finds the flag false, or the shutdown complete. -/
def orderlyStep (c : PoolConfig cfg n γ) (t : PoolThread n γ) (_ : PoolInput) : Prop :=
  (c.thread t).head = some PoolCall.exchangeStopped →
    c.shared.stopped = false ∨ (c.shared.queue.shutdown = true ∧ ∀ w, c.shared.joined w = true)

theorem stop_safe (hr : Reach (nextTurn cfg n γ notifier env commands) orderlyStep
      (poolStart cfg n γ notifier env commands store) c) :
    ∀ t, Safe (stopContract cfg) (fun _ _ => True) (c.thread t) c.shared := by
  have hbody : ∀ t (s : Pool n γ), Safe (stopContract cfg) (fun _ _ => True)
      (threadBody cfg n γ notifier env commands t) s := by
    intro t s
    cases t with
    | worker w => exact workerTurn_closes notifier env w
    | caller c => exact runCommands_closes c (commands c)
  refine hr.safe (fun _ => stopContract cfg) (fun _ _ _ => True) (fun t => hbody t _) ?_ ?_
  · intro t a p s hp _
    cases a with
    | done => cases hp
    | again =>
      cases hp
      exact hbody t s
  · intro c t e o k r s' _ hok hk _ hexec
    refine ⟨?_, fun t' _ => serve_closing (exec_serve hexec).1⟩
    rintro rfl
    obtain hstopped | ⟨hshutdown, hjoined⟩ := hok (by rw [hk]; rfl)
    · exact Or.inl hstopped
    · exact Or.inr ⟨hshutdown, hjoined⟩

theorem joinedLeft_of_reach {ok : PoolConfig cfg n γ → PoolThread n γ → PoolInput → Prop}
    (hr : Reach (nextTurn cfg n γ notifier env commands) ok
      (poolStart cfg n γ notifier env commands store) c) : JoinedLeft c.shared := by
  refine hr.invariant JoinedLeft (fun w hw => by cases hw) ?_
  intro c t e o k r s' _ _ _ hexec h
  exact h.serve (exec_serve hexec).1

/-- While every exchange finds the flag false or the work done, a shutdown call that
returns leaves the queue shut down and every worker out of its loop and joined, and the
threads that are destroyed have been joined. -/
theorem shutdown_completes (hr : Reach (nextTurn cfg n γ notifier env commands) orderlyStep
      (poolStart cfg n γ notifier env commands store) c) (a : γ) :
    ((c.thread (.caller a)).head = some (PoolCall.returned a) →
      c.shared.queue.shutdown = true ∧ ∀ w, c.shared.left w = true ∧ c.shared.joined w = true) ∧
    ((c.thread (.caller a)).head = some PoolCall.destroyWorkers → ∀ w, c.shared.joined w = true) := by
  have hsafe := stop_safe hr (.caller a)
  constructor
  · intro hhead
    have hclosed := hsafe.pre_head hhead rfl
    exact ⟨hclosed.shutdown, fun w =>
      ⟨joinedLeft_of_reach hr w (hclosed.joined w), hclosed.joined w⟩⟩
  · intro hhead
    exact (hsafe.pre_head hhead rfl).joined

end Runs

section Sample

def PoolCall.isExchange : PoolCall 1 Unit → Bool
  | .exchangeStopped => true
  | _ => false

def PoolCall.isReturn : PoolCall 1 Unit → Bool
  | .returned _ => true
  | _ => false

/-- The test that an exchange finds the flag false or the shutdown complete. -/
def orderlyTest (c : PoolConfig {} 1 Unit) (t : PoolThread 1 Unit) (_ : PoolInput) : Bool :=
  (c.thread t).head.all fun o => !PoolCall.isExchange o ||
    decide (c.shared.stopped = false ∨ (c.shared.queue.shutdown = true ∧ ∀ w, c.shared.joined w = true))

theorem orderlyTest_orderly (c : PoolConfig {} 1 Unit) (t : PoolThread 1 Unit) (e : PoolInput)
    (h : orderlyTest c t e = true) : orderlyStep c t e := by
  intro hhead
  unfold orderlyTest at h
  rw [hhead] at h
  simpa [PoolCall.isExchange] using h

/-- One call of `stop`, with an idle worker that leaves its loop. -/
def stopSchedule : List (PoolThread 1 Unit × PoolInput) :=
  [PoolThread.caller (), .caller (), .worker ⟨0, Nat.one_pos⟩, .worker ⟨0, Nat.one_pos⟩,
    .caller (), .caller ()].map fun t =>
    (t, { store := ⟨0, 0, .stable⟩ })

theorem stop_is_complete :
    ∃ c, Reach (sampleTurn fun _ => [.stop]) orderlyStep (samplePool fun _ => [.stop]) c ∧
      (c.thread (.caller ())).head = some (PoolCall.returned ()) ∧
      c.shared.queue.shutdown = true ∧ ∀ w, c.shared.left w = true ∧ c.shared.joined w = true := by
  have hrun : (runWhere (sampleTurn fun _ => [.stop]) orderlyTest (samplePool fun _ => [.stop])
      stopSchedule).map (fun c => (c.thread (.caller ())).head.map PoolCall.isReturn) =
      some (some true) := by decide +kernel
  obtain ⟨c, hc, hobs⟩ := Option.map_eq_some_iff.mp hrun
  obtain ⟨o, ho, hreturn⟩ := Option.map_eq_some_iff.mp hobs
  have hr := reach_of_runWhere orderlyTest_orderly hc
  obtain rfl : o = PoolCall.returned () := by
    cases o <;> first | rfl | cases hreturn
  exact ⟨c, hr, ho, (shutdown_completes hr ()).1 ho⟩

/-- `graceful_shutdown` on a fresh pool: the flag is set, the exchange fails, and the call
returns with the queue open and the worker still in its loop. -/
theorem graceful_shutdown_does_nothing :
    ∃ c, Reach (sampleTurn fun _ => [.gracefulShutdown]) anyStep
        (samplePool fun _ => [.gracefulShutdown]) c ∧
      (c.thread (.caller ())).head = some (PoolCall.returned ()) ∧
      ¬ (c.shared.queue.shutdown = true ∧ ∀ w, c.shared.left w = true ∧ c.shared.joined w = true) := by
  have hrun : (run (sampleTurn fun _ => [.gracefulShutdown])
      (samplePool fun _ => [.gracefulShutdown]) (callerSchedule 2)).map (fun c =>
        ((c.thread (.caller ())).head.map PoolCall.isReturn, c.shared.queue.shutdown)) =
      some (some true, false) := by decide +kernel
  obtain ⟨c, hc, hobs⟩ := Option.map_eq_some_iff.mp hrun
  obtain ⟨hhead, hopen⟩ := Prod.mk.inj hobs
  obtain ⟨o, ho, hreturn⟩ := Option.map_eq_some_iff.mp hhead
  obtain rfl : o = PoolCall.returned () := by
    cases o <;> first | rfl | cases hreturn
  refine ⟨c, reach_of_run hc, ho, ?_⟩
  rintro ⟨hshut, _⟩
  rw [hopen] at hshut
  cases hshut

end Sample

end JudgeServer.Dispatch
