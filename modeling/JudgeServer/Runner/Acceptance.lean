import JudgeServer.Runner.Reporting

/-!
# What an accepted submission has gone through

A snapshot that says `FINISHED` and `AC` is stored only after the machine has answered,
for every case of the problem, that the sandboxed run of the submission succeeded, and,
directly after it, that the output was accepted.
-/

namespace JudgeServer.Runner

open JudgeServer.Common
open JudgeServer.Pipeline
open JudgeServer.Lib.Interleave
open JudgeServer.Sjudge (JudgeConfig)

/-- A run of the user's program that returned zero behind the whole setup, in time and within
its limits. Where a group is configured whose directory cannot be examined, the process may
instead be one that the exception led out of the setup, and that ended with zero all the same. -/
structure RanWithin (config : JudgeConfig) (e : Sjudge.Execution) : Prop where
  program : e.program = .exited 0
  setup : (∃ handles, Sjudge.Granted e.kernel [] (Sjudge.setupPlan e.libseccomp config handles)) ∨
    config.cgroupPath ≠ [] ∧ Sjudge.Escaped config e
  reaped : Sjudge.ReapedWithin config e

theorem RanWithin.of_success {config : JudgeConfig} {e : Sjudge.Execution}
    {result : Sjudge.JudgeResult} (hrun : Sjudge.runSjudger config e = some result)
    (hsuccess : result.result = .success) : RanWithin config e := by
  obtain ⟨_, _, hend, hreaped⟩ :=
    (Sjudge.runSjudger_success_iff config e).mp ⟨result, hrun, hsuccess⟩
  obtain ⟨hprogram, hexecuted | hescaped⟩ := (Sjudge.childEnd_exited_zero config e).mp hend
  · exact ⟨hprogram, Or.inl ((Sjudge.executed_iff config e).mp hexecuted), hreaped⟩
  · have hgroup : config.cgroupPath ≠ [] := fun hungrouped =>
      Sjudge.not_escaped_of_ungrouped hungrouped e hescaped
    exact ⟨hprogram, Or.inr ⟨hgroup, hescaped⟩, hreaped⟩

theorem RunWith.success {config : JudgeConfig} {testCase : RunnerCaseInput}
    {result : Sjudge.JudgeResult} {l : List Answered}
    (h : RunWith config testCase result .ac l) : result.result = .success := by
  generalize hverdict : SubmissionVerdict.ac = verdict at h
  cases h with
  | stopped _ => exact (mapJudgeResultToVerdict_ac result).mp hverdict.symm
  | compared h _ => exact h

theorem exists_of_forall₂ {α β : Type} {R : α → β → Prop} {as : List α} {bs : List β}
    (h : List.Forall₂ R as bs) {a : α} (ha : a ∈ as) : ∃ b ∈ bs, R a b := by
  induction h with
  | nil => cases ha
  | cons hab _ ih =>
    obtain rfl | ha := List.mem_cons.mp ha
    · exact ⟨_, List.mem_cons_self, hab⟩
    · obtain ⟨b, hb, hr⟩ := ih ha
      exact ⟨b, List.mem_cons_of_mem _ hb, hr⟩

section Earned

variable {cfg : CleanupConfig} {settings : RunnerSettings}
  {load : Int → Bytes → Except StdException (List RunnerCaseInput)} {τ : Type} [DecidableEq τ]
  {work : τ → List (Int × SubmissionRequest)} {store : TracedStore}
  {d : Config (recordMachine cfg) τ Unit}

/-- The verdict of all cases is `AC` only if that of each of them is. -/
theorem Report.all_accepted {id : Int} {request : SubmissionRequest} {l : List Answered}
    {r : SubmissionResult} (h : Report cfg settings (load id) id request l r)
    (hfinished : r.status = .finished) (hac : r.verdict = .ac) :
    ∃ cases, load id request.pid = .ok cases ∧ cases ≠ [] ∧ ∀ testCase ∈ cases, ∃ c,
      CaseReported cfg settings id (executionRequest id request) l testCase c ∧ c.verdict = .ac := by
  obtain ⟨cases, judged, hload, hne, -, hall, hrunning | ⟨-, rfl, hverdict⟩⟩ := h
  · rw [hfinished] at hrunning
    cases hrunning
  have hresults : r.caseResults ≠ [] := by
    intro hnil
    rw [hnil, List.forall₂_nil_right_iff] at hall
    exact hne hall
  rw [hac] at hverdict
  have haccepted := ((summarize_eq_ac_iff hresults).mp hverdict.symm).2
  refine ⟨judged, hload, hne, fun testCase htest => ?_⟩
  obtain ⟨c, hc, hreported⟩ := exists_of_forall₂ hall htest
  exact ⟨c, hreported, (haccepted c hc).resolve_right hreported.ne_pending⟩

/-- However the workers take turns: when a snapshot of `id` says `FINISHED` and `AC`, a worker
was given `id`; its problem has cases; for each of them the record of `id` holds a sandboxed
run with the comparison that accepted its output directly behind it; and each such run was
started on the submission's program and returned zero in time and within its limits, behind
the whole setup unless the exception of a configured group led out of it. -/
theorem accepted_results_are_earned (hapart : WorkApart work)
    (hd : Reach (noSecondTurn cfg) sandboxed (recordsStart cfg settings load work store) d)
    (hfresh : ∀ id, ∀ r ∈ snapshots id store.history, r.status ≠ .finished)
    (id : Int) (r : SubmissionResult) (hr : r ∈ snapshots id d.shared.store.history)
    (hfinished : r.status = .finished) (hac : r.verdict = .ac) :
    ∃ w request cases, (id, request) ∈ work w ∧ load id request.pid = .ok cases ∧ cases ≠ [] ∧
      ∀ testCase ∈ cases, ∃ executable result piece execution,
        executableOf settings (executionRequest id request) = some executable ∧
        piece <:+: d.shared.answers id ∧
        RunWith (caseConfig (recordedHost cfg settings id) executable testCase
          (userOutputIn settings (executionRequest id request) testCase)) testCase result .ac
          piece ∧
        Sjudge.runSjudger (caseConfig (recordedHost cfg settings id) executable testCase
          (userOutputIn settings (executionRequest id request) testCase)) execution = some result ∧
        RanWithin (caseConfig (recordedHost cfg settings id) executable testCase
          (userOutputIn settings (executionRequest id request) testCase)) execution := by
  obtain hold | ⟨-, hplain⟩ | ⟨w, request, hmem, hreport⟩ := allTruthful_of_reach hapart hd id r hr
  · exact absurd hfinished (hfresh id r hold)
  · exact absurd hac (hplain hfinished)
  obtain ⟨cases, hload, hne, hall⟩ := hreport.all_accepted hfinished hac
  refine ⟨w, request, cases, hmem, hload, hne, fun testCase htest => ?_⟩
  obtain ⟨c, rfl | ⟨executable, result, verdict, piece, he, hrun, hin, rfl⟩, hverdict⟩ :=
    hall testCase htest
  · cases hverdict
  obtain rfl : verdict = .ac := hverdict
  obtain ⟨execution, hexecution⟩ := fromSandbox_of_reach hd id _ result (hin.subset hrun.ran)
  exact ⟨executable, result, piece, execution, he, hin, hrun, hexecution,
    RanWithin.of_success hexecution hrun.success⟩

end Earned

section Sample

def sampleJudged : Config (recordMachine {}) Unit Unit → Bool := fun d =>
  (snapshots 1 d.shared.store.history).any fun r => r.status = .finished && r.verdict = .ac

/-- The sample submission has earned its `AC`. -/
theorem one_result_is_earned :
    ∃ d, Reach (noSecondTurn {}) sandboxed
        (recordsStart {} tmpSettings (fun _ _ => .ok [plainCase]) oneWorker sampleStore) d ∧
      ∃ executable result piece, executableOf tmpSettings (executionRequest 1 codedRequest) =
          some executable ∧
        piece <:+: d.shared.answers 1 ∧
        RunWith (caseConfig (recordedHost {} tmpSettings 1) executable plainCase
          (userOutputIn tmpSettings (executionRequest 1 codedRequest) plainCase)) plainCase
          result .ac piece := by
  have hrun : (run (noSecondTurn {}) (recordsStart {} tmpSettings (fun _ _ => .ok [plainCase])
      oneWorker sampleStore) (judgedSchedule (Sjudge.sampleExecution 0))).map sampleJudged =
        some true := by decide +kernel
  obtain ⟨d, hd, hjudged⟩ := Option.map_eq_some_iff.mp hrun
  have hreach := reach_of_judged hd
  obtain ⟨r, hr, hac⟩ := List.any_eq_true.mp hjudged
  obtain ⟨hfinished, hverdict⟩ : r.status = .finished ∧ r.verdict = .ac := by simpa using hac
  have hfresh : ∀ id, ∀ r ∈ snapshots id sampleStore.history, r.status ≠ .finished := by
    intro id r hr hfinished
    rw [(sampleStore_queued hr).2] at hfinished
    cases hfinished
  obtain ⟨w, request, cases, hmem, hload, -, hall⟩ :=
    accepted_results_are_earned oneWorker_apart hreach hfresh 1 r hr hfinished hverdict
  obtain rfl : request = codedRequest := by simpa [oneWorker] using hmem
  obtain rfl : [plainCase] = cases := by simpa using hload
  obtain ⟨executable, result, piece, execution, he, hin, hpassed, -, -⟩ :=
    hall plainCase (List.mem_singleton_self _)
  exact ⟨d, hreach, executable, result, piece, he, hin, hpassed⟩

end Sample

end JudgeServer.Runner
