import JudgeServer.Pipeline.SubmissionService
import JudgeServer.Pipeline.StoreMachine
import Mathlib.Data.List.Infix

/-!
# What judging a submission comes to

`Outcome` is the specification of the terminal snapshot, one rule for each way a
submission can end; `Thrown` lists where an exception can come from. `Script` says
what a program persists when every update is accepted, and `processSubmission_script`
shows that it persists a legal sequence of snapshots whose last, and only terminal,
element is an outcome.
-/

namespace JudgeServer.Pipeline

open JudgeServer.Common
open JudgeServer.Lib.Interleave (Machine Prog)

/-- The request as the runner sees it. -/
def executionRequest (id : Int) (request : SubmissionRequest) : SubmissionRequest :=
  { request with uuid := id }

section Outcome

variable (env : JudgeEnv) (id : Int) (request : SubmissionRequest)

structure Started (runner : ILanguageRunner) : Prop where
  created : env.createRunner request.language = .ok (some runner)
  workDir : ∃ dir, env.runnerWorkDirFor (executionRequest id request) = .ok dir

structure Prepared (runner : ILanguageRunner) : Prop extends Started env id request runner where
  prepared : ∃ p, runner.prepare (executionRequest id request) = .ok p ∧ p.ok = true

structure Compiled (runner : ILanguageRunner) : Prop extends Prepared env id request runner where
  compiled : ∃ c, runner.compile (executionRequest id request) = .ok c ∧ c.ok = true

/-- The runner answers the cases one after the other with `rs`. -/
def Answered (runner : ILanguageRunner) (cases : List RunnerCaseInput)
    (rs : List RunnerCaseResult) : Prop :=
  cases.mapIdx (fun k c => runner.runCase k (executionRequest id request) c) = rs.map Except.ok

/-- Case number `n`, counted from zero, is reached and throws. -/
def CaseThrows (n : Nat) (ex : StdException) : Prop :=
  ∃ runner cases rs c, Compiled env id request runner ∧
    env.loadCasesForProblem request.pid = .ok cases ∧
    Answered id request runner (cases.take n) rs ∧ cases[n]? = some c ∧
    runner.runCase n (executionRequest id request) c = .error ex

/-- The exceptions that leave the stages. -/
inductive Thrown (ex : StdException) : Prop where
  | createRunner (h : env.createRunner request.language = .error ex)
  | workDir (runner : ILanguageRunner) (hr : env.createRunner request.language = .ok (some runner))
      (h : env.runnerWorkDirFor (executionRequest id request) = .error ex)
  | prepare (runner : ILanguageRunner) (hr : Started env id request runner)
      (h : runner.prepare (executionRequest id request) = .error ex)
  | compile (runner : ILanguageRunner) (hr : Prepared env id request runner)
      (h : runner.compile (executionRequest id request) = .error ex)
  | loadCases (runner : ILanguageRunner) (hr : Compiled env id request runner)
      (h : env.loadCasesForProblem request.pid = .error ex)
  | runCase (n : Nat) (h : CaseThrows env id request n ex)

/-- The terminal snapshot of a submission. -/
inductive Outcome : SubmissionResult → Prop where
  | runnerMissing (h : env.createRunner request.language = .ok none) :
      Outcome (makeResult id .failed .systemError (ascii "unsupported language"))
  | prepareFailed (runner : ILanguageRunner) (p : RunnerPrepareResult)
      (hr : Started env id request runner)
      (hp : runner.prepare (executionRequest id request) = .ok p) (hf : p.ok = false) :
      Outcome (makeResult id .failed .systemError p.message)
  | compileFailed (runner : ILanguageRunner) (c : RunnerCompileResult)
      (hr : Prepared env id request runner)
      (hc : runner.compile (executionRequest id request) = .ok c) (hf : c.ok = false) :
      Outcome { makeResult id .finished c.verdict c.message with caseResults := [] }
  | casesMissing (runner : ILanguageRunner) (hr : Compiled env id request runner)
      (h : env.loadCasesForProblem request.pid = .ok []) :
      Outcome (makeResult id .failed .systemError (ascii "failed to load problem cases"))
  | judged (runner : ILanguageRunner) (cases : List RunnerCaseInput) (rs : List RunnerCaseResult)
      (hr : Compiled env id request runner) (h : env.loadCasesForProblem request.pid = .ok cases)
      (ha : Answered id request runner cases rs) (last : RunnerCaseResult)
      (hl : rs.getLast? = some last) :
      Outcome { makeResult id .finished (summarize (rs.map (·.result))) last.message with
        caseResults := rs.map (·.result) }
  | thrown (ex : StdException) (h : Thrown env id request ex) :
      Outcome (makeResult id .failed .systemError ex.what)

/-- Some case after the first throws, that is, after a case result was stored. -/
def LateThrow : Prop := ∃ n ex, 0 < n ∧ CaseThrows env id request n ex

end Outcome

/-- `p` only updates `id`, persists exactly `l` when every update is accepted, and then
returns `a`. -/
inductive Script {cfg : CleanupConfig} {α : Type} (id : Int) :
    Prog (storeMachine cfg) α → List SubmissionResult → α → Prop where
  | ret (a : α) : Script id (.ret a) [] a
  | call {r : SubmissionResult} {k : Bool → Prog (storeMachine cfg) α} {l : List SubmissionResult}
      {a : α} : r.submissionId = id → Script id (k true) l a →
      Script id (.call (M := storeMachine cfg) (.updateResult id r) k) (r :: l) a

theorem Script.unique {cfg : CleanupConfig} {α : Type} {id : Int} {p : Prog (storeMachine cfg) α}
    {l l' : List SubmissionResult} {a a' : α} (h : Script id p l a) (h' : Script id p l' a') :
    l = l' := by
  induction h generalizing l' with
  | ret a =>
    cases h'
    rfl
  | call _ _ ih =>
    cases h' with
    | call _ hrest => rw [ih hrest]

theorem Script.bind {cfg : CleanupConfig} {α β : Type} {id : Int} {p : Prog (storeMachine cfg) α}
    {f : α → Prog (storeMachine cfg) β} {l l' : List SubmissionResult} {a : α} {b : β}
    (h : Script id p l a) (h' : Script id (f a) l' b) : Script id (p.bind f) (l ++ l') b := by
  induction h with
  | ret a => exact h'
  | call hr _ ih => exact .call hr (ih h')

theorem Script.caught {cfg : CleanupConfig} {α : Type} {id : Int}
    {p : ExceptT StdException (Prog (storeMachine cfg)) α}
    {f : StdException → ExceptT StdException (Prog (storeMachine cfg)) α}
    {l l' : List SubmissionResult} {ex : StdException} {b : Except StdException α}
    (h : Script id p.run l (.error ex)) (h' : Script id (f ex).run l' b) :
    Script id (tryCatch p f).run (l ++ l') b := h.bind h'

theorem Script.uncaught {cfg : CleanupConfig} {α : Type} {id : Int}
    {p : ExceptT StdException (Prog (storeMachine cfg)) α}
    {f : StdException → ExceptT StdException (Prog (storeMachine cfg)) α}
    {l : List SubmissionResult} {a : α} (h : Script id p.run l (.ok a)) :
    Script id (tryCatch p f).run l (.ok a) := by
  have hs : Script id (tryCatch p f).run (l ++ []) (.ok a) := h.bind (.ret _)
  rwa [List.append_nil] at hs

/-- The step from one stored snapshot to the next. -/
structure Advance (a b : SubmissionResult) : Prop where
  edge : DocumentedEdge a.status b.status
  cases : a.caseResults <+: b.caseResults

section Exits

variable {cfg : CleanupConfig} (env : JudgeEnv) (id : Int) (request : SubmissionRequest)

/-- How a part of the stages ends when `s` was the last snapshot stored: with a
terminal snapshot, or with an exception. -/
inductive Exit (s : SubmissionResult) (p : ExceptT StdException (Prog (storeMachine cfg)) Unit) :
    Prop where
  | done (l : List SubmissionResult) (final : SubmissionResult)
      (script : Script id p.run (l ++ [final]) (.ok ()))
      (chain : (s :: (l ++ [final])).IsChain Advance)
      (unfinished : ∀ x ∈ l, isTerminalStatus x.status = false)
      (terminal : isTerminalStatus final.status = true)
      (outcome : Outcome env id request final)
  | threw (l : List SubmissionResult) (ex : StdException) (last : SubmissionResult)
      (script : Script id p.run l (.error ex))
      (chain : (s :: l).IsChain Advance)
      (unfinished : ∀ x ∈ s :: l, isTerminalStatus x.status = false)
      (newest : (s :: l).getLast? = some last)
      (thrown : Thrown env id request ex)
      (stored : last.caseResults = [] ∨ LateThrow env id request)

variable {env id request}

theorem Exit.persist {s r : SubmissionResult}
    {f : Bool → ExceptT StdException (Prog (storeMachine cfg)) Unit}
    (hs : isTerminalStatus s.status = false) (hr : isTerminalStatus r.status = false)
    (hi : r.submissionId = id) (ha : Advance s r) (h : Exit env id request r (f true)) :
    Exit env id request s (persistResult cfg id r >>= f) := by
  cases h with
  | done l final script chain unfinished terminal outcome =>
    refine .done (r :: l) final (.call hi script) (.cons_cons ha chain) ?_ terminal outcome
    intro x hx
    rcases List.mem_cons.mp hx with rfl | hx
    · exact hr
    · exact unfinished x hx
  | threw l ex last script chain unfinished newest thrown stored =>
    refine .threw (r :: l) ex last (.call hi script) (.cons_cons ha chain) ?_ ?_ thrown stored
    · intro x hx
      rcases List.mem_cons.mp hx with rfl | hx
      · exact hs
      · exact unfinished x hx
    · rw [List.getLast?_cons_cons]
      exact newest

theorem Exit.final {s r : SubmissionResult} (hi : r.submissionId = id) (ha : Advance s r)
    (ht : isTerminalStatus r.status = true) (ho : Outcome env id request r) :
    Exit env id request s (persistResult cfg id r >>= fun _ => pure ()) :=
  .done [] r (.call hi (.ret _)) (.cons_cons ha (.singleton r)) (by simp) ht ho

theorem Exit.call {α : Type} {s : SubmissionResult} {x : Except StdException α} {a : α}
    {f : α → ExceptT StdException (Prog (storeMachine cfg)) Unit} (hx : x = .ok a)
    (h : Exit env id request s (f a)) : Exit env id request s (calling x >>= f) := by
  subst hx
  exact h

theorem Exit.throw {α : Type} {s : SubmissionResult} {x : Except StdException α}
    {ex : StdException} {f : α → ExceptT StdException (Prog (storeMachine cfg)) Unit}
    (hx : x = .error ex) (hs : isTerminalStatus s.status = false)
    (ht : Thrown env id request ex) (hc : s.caseResults = [] ∨ LateThrow env id request) :
    Exit env id request s (calling x >>= f) := by
  subst hx
  exact .threw [] ex s (.ret _) (.singleton s) (by simpa using hs) rfl ht hc

theorem answered_snoc {runner : ILanguageRunner} {before : List RunnerCaseInput}
    {rs : List RunnerCaseResult} {c : RunnerCaseInput} {r : RunnerCaseResult}
    (h : Answered id request runner before rs)
    (hr : runner.runCase before.length (executionRequest id request) c = .ok r) :
    Answered id request runner (before ++ [c]) (rs ++ [r]) := by
  unfold Answered at h ⊢
  rw [List.mapIdx_concat, h, hr, List.map_append]
  rfl

/-- The snapshot stored after the cases answered with `rs`. -/
def runningSnapshot (id : Int) (rs : List RunnerCaseResult) : SubmissionResult :=
  { makeResult id .running .pending ((rs.getLast?.map (·.message)).getD []) with
    caseResults := rs.map (·.result) }

theorem runningSnapshot_advance (id : Int) (rs : List RunnerCaseResult) (r : RunnerCaseResult) :
    Advance (runningSnapshot id rs) (runningSnapshot id (rs ++ [r])) := by
  refine ⟨.again rfl, ?_⟩
  change rs.map (·.result) <+: (rs ++ [r]).map (·.result)
  rw [List.map_append]
  exact List.prefix_append _ _

/-- What follows the loop. -/
def afterCases (cfg : CleanupConfig) (id : Int) :
    Option SubmissionResult → ExceptT StdException (Prog (storeMachine cfg)) Unit
  | none => pure ()
  | some runningResult => do
      let _ ← persistResult cfg id
        { makeResult id .finished (summarize runningResult.caseResults) runningResult.message with
          caseResults := runningResult.caseResults }
      pure ()

/-- The loop, from the point where the cases `before` have been answered with `rs`. -/
theorem runCases_exit {runner : ILanguageRunner} {all : List RunnerCaseInput}
    (hc : Compiled env id request runner) (hl : env.loadCasesForProblem request.pid = .ok all)
    (hne : all ≠ []) (rest before : List RunnerCaseInput) (rs : List RunnerCaseResult)
    (hall : all = before ++ rest) (ha : Answered id request runner before rs) :
    Exit env id request (runningSnapshot id rs)
      (runCases (persistResult cfg) runner id (executionRequest id request) before.length
        (runningSnapshot id rs) rest >>= afterCases cfg id) := by
  induction rest generalizing before rs with
  | nil =>
    rw [List.append_nil] at hall
    subst hall
    have hlen : rs ≠ [] := by
      intro h
      subst h
      have hlength := congrArg List.length ha
      simp at hlength
      exact hne hlength
    obtain ⟨last, hlast⟩ : ∃ last, rs.getLast? = some last :=
      ⟨_, List.getLast?_eq_some_getLast hlen⟩
    have hfinal := Outcome.judged runner all rs hc hl ha last hlast
    have hm : (runningSnapshot id rs).message = last.message := by
      simp [runningSnapshot, makeResult, hlast]
    rw [← hm] at hfinal
    exact Exit.final rfl ⟨.runningFinished, List.prefix_refl _⟩ rfl hfinal
  | cons c rest ih =>
    rw [runCases]
    cases hr : runner.runCase before.length (executionRequest id request) c with
    | error ex =>
      have hthrow : CaseThrows env id request before.length ex := by
        refine ⟨runner, all, rs, c, hc, hl, ?_, ?_, hr⟩
        · rw [hall, List.take_left]
          exact ha
        · simp [hall]
      refine Exit.throw rfl rfl (.runCase _ hthrow) ?_
      by_cases hb : before = []
      · subst hb
        left
        have hrs : rs = [] := by simpa [Answered] using ha.symm
        subst hrs
        rfl
      · exact .inr ⟨before.length, ex, List.length_pos_of_ne_nil hb, hthrow⟩
    | ok r =>
      have hnext : ({ runningSnapshot id rs with
          caseResults := (runningSnapshot id rs).caseResults ++ [r.result]
          message := r.message } : SubmissionResult) = runningSnapshot id (rs ++ [r]) := by
        simp [runningSnapshot, makeResult]
      have hrec := ih (before ++ [c]) (rs ++ [r]) (by rw [hall]; simp) (answered_snoc ha hr)
      rw [List.length_append, List.length_singleton] at hrec
      simp only [bind_assoc]
      refine Exit.call rfl ?_
      rw [hnext]
      refine Exit.persist rfl rfl rfl (runningSnapshot_advance id rs r) ?_
      exact hrec

theorem advance_early {status status' : SubmissionStatus} {verdict verdict' : SubmissionVerdict}
    {message message' : Bytes} (h : DocumentedEdge status status') :
    Advance (makeResult id status verdict message) (makeResult id status' verdict' message') :=
  ⟨h, List.prefix_refl _⟩

theorem runStage_exit {runner : ILanguageRunner} (hc : Compiled env id request runner) :
    Exit env id request (makeResult id .running .pending)
      (runStage (persistResult cfg) env runner id request (executionRequest id request)) := by
  unfold runStage
  cases hl : env.loadCasesForProblem request.pid with
  | error ex => exact Exit.throw rfl rfl (.loadCases runner hc hl) (.inl rfl)
  | ok cases =>
    refine Exit.call rfl ?_
    cases cases with
    | nil => exact Exit.final rfl (advance_early .runningFailed) rfl (.casesMissing runner hc hl)
    | cons c rest =>
      exact runCases_exit hc hl (List.cons_ne_nil c rest) (c :: rest) [] [] rfl rfl

theorem compileStage_exit {runner : ILanguageRunner} (hp : Prepared env id request runner) :
    Exit env id request (makeResult id .compiling .pending)
      (compileStage (persistResult cfg) env runner id request (executionRequest id request)) := by
  unfold compileStage
  cases hc : runner.compile (executionRequest id request) with
  | error ex => exact Exit.throw rfl rfl (.compile runner hp hc) (.inl rfl)
  | ok compileResult =>
    refine Exit.call rfl ?_
    cases hok : compileResult.ok with
    | false =>
      rw [if_neg (by simp)]
      exact Exit.final rfl (advance_early .compilingFinished) rfl (.compileFailed runner _ hp hc hok)
    | true =>
      rw [if_pos rfl]
      refine Exit.persist rfl rfl rfl (advance_early .compilingRunning) ?_
      exact runStage_exit ⟨hp, compileResult, hc, hok⟩

theorem prepareStage_exit (s : SubmissionResult)
    (hs : s = makeResult id .preparing .pending) :
    Exit env id request s (do
      match ← calling (env.createRunner request.language) with
      | none =>
          let _ ← persistResult cfg id
            (makeResult id .failed .systemError (ascii "unsupported language"))
          pure ()
      | some runner =>
          let _ ← calling (env.runnerWorkDirFor (executionRequest id request))
          let prepareResult ← calling (runner.prepare (executionRequest id request))
          if prepareResult.ok then
            if ← persistResult cfg id (makeResult id .compiling .pending) then
              compileStage (persistResult cfg) env runner id request (executionRequest id request)
            else pure ()
          else
            let _ ← persistResult cfg id (makeResult id .failed .systemError prepareResult.message)
            pure ()) := by
  subst hs
  cases hr : env.createRunner request.language with
  | error ex => exact Exit.throw rfl rfl (.createRunner hr) (.inl rfl)
  | ok created =>
    refine Exit.call rfl ?_
    cases created with
    | none => exact Exit.final rfl (advance_early .preparingFailed) rfl (.runnerMissing hr)
    | some runner =>
      cases hd : env.runnerWorkDirFor (executionRequest id request) with
      | error ex => exact Exit.throw rfl rfl (.workDir runner hr hd) (.inl rfl)
      | ok dir =>
        have hstart : Started env id request runner := ⟨hr, dir, hd⟩
        refine Exit.call rfl ?_
        cases hp : runner.prepare (executionRequest id request) with
        | error ex => exact Exit.throw rfl rfl (.prepare runner hstart hp) (.inl rfl)
        | ok prepareResult =>
          refine Exit.call rfl ?_
          cases hok : prepareResult.ok with
          | false =>
            rw [if_neg (by simp)]
            exact Exit.final rfl (advance_early .preparingFailed) rfl (.prepareFailed runner _ hstart hp hok)
          | true =>
            rw [if_pos rfl]
            refine Exit.persist rfl rfl rfl (advance_early .preparingCompiling) ?_
            exact compileStage_exit ⟨hstart, prepareResult, hp, hok⟩

theorem judgeStages_exit :
    Exit env id request (makeResult id .queued .pending)
      (judgeStages (persistResult cfg) env id request) :=
  Exit.persist rfl rfl rfl (advance_early .queuedPreparing) (prepareStage_exit _ rfl)

theorem documentedEdge_failed {s : SubmissionStatus} (h : isTerminalStatus s = false) :
    DocumentedEdge s .failed := by
  cases s with
  | queued => exact .queuedFailed
  | preparing => exact .preparingFailed
  | compiling => exact .compilingFailed
  | running => exact .runningFailed
  | finished => cases h
  | failed => cases h

theorem outcome_terminal {r : SubmissionResult} (h : Outcome env id request r) :
    isTerminalStatus r.status = true := by
  cases h <;> rfl

end Exits

/-- Whatever the environment does, `processSubmission` persists a legal sequence of
snapshots, the last of which is an outcome and the only terminal one, and returns. -/
theorem processSubmission_script (cfg : CleanupConfig) (env : JudgeEnv) (id : Int)
    (request : SubmissionRequest) (hid : 0 < id) :
    ∃ l final, Script id (processSubmission (persistResult cfg) env id request).run
        (l ++ [final]) (.ok ()) ∧
      Outcome env id request final ∧
      (∀ x ∈ l, isTerminalStatus x.status = false) ∧
      (makeResult id .queued .pending :: (l ++ [final])).IsChain
        (fun a b => DocumentedEdge a.status b.status) ∧
      (¬ LateThrow env id request →
        (makeResult id .queued .pending :: (l ++ [final])).IsChain Advance) := by
  unfold processSubmission
  rw [if_neg (by omega)]
  have hexit : Exit env id request (makeResult id .queued .pending)
      (judgeStages (persistResult cfg) env id request) := judgeStages_exit
  cases hexit with
  | done l final script chain unfinished terminal outcome =>
    exact ⟨l, final, script.uncaught, outcome, unfinished, chain.imp fun a b h => h.edge,
      fun _ => chain⟩
  | threw l ex last script chain unfinished newest thrown stored =>
    have hlast : isTerminalStatus last.status = false :=
      unfinished last (List.mem_of_getLast? newest)
    have hedge : DocumentedEdge last.status .failed := documentedEdge_failed hlast
    refine ⟨l, makeResult id .failed .systemError ex.what, script.caught (.call rfl (.ret _)),
      .thrown ex thrown, ?_, ?_, ?_⟩
    · intro x hx
      exact unfinished x (List.mem_cons_of_mem _ hx)
    · rw [← List.cons_append]
      refine List.isChain_append.mpr ⟨chain.imp fun a b h => h.edge, .singleton _, ?_⟩
      intro x hx y hy
      rw [newest] at hx
      obtain rfl := Option.some.inj hx
      obtain rfl := Option.some.inj hy
      exact hedge
    · intro hlate
      have hnone := stored.resolve_right hlate
      rw [← List.cons_append]
      refine List.isChain_append.mpr ⟨chain, .singleton _, ?_⟩
      intro x hx y hy
      rw [newest] at hx
      obtain rfl := Option.some.inj hx
      obtain rfl := Option.some.inj hy
      refine ⟨hedge, ?_⟩
      rw [hnone]
      exact List.nil_prefix

end JudgeServer.Pipeline
