import JudgeServer.Pipeline.CaseList
import JudgeServer.Pipeline.SubmissionOutcome

/-!
# The verdict and the order of the cases

`RE`, `MLE` and `OLE` share a rank, and so do `WA` and `PE`; among cases of one rank the
first one names the verdict. The rank of a summary is therefore the same for every order
of the cases, and the verdict is as long as the cases of the highest rank agree. The
second half follows two runs of a submission whose data directory is enumerated in two
orders.
-/

namespace JudgeServer.Pipeline

open JudgeServer.Common

/-- A case that no other outranks. -/
def TopCase (xs : List SubmissionCaseResult) (c : SubmissionCaseResult) : Prop :=
  c ∈ xs ∧ ∀ x ∈ xs, documentedRank x.verdict ≤ documentedRank c.verdict

/-- The cases of the highest rank have one verdict. -/
def TopAgrees (xs : List SubmissionCaseResult) : Prop :=
  ∀ a b, TopCase xs a → TopCase xs b → a.verdict = b.verdict

section Orders

variable {xs ys : List SubmissionCaseResult} {d : SubmissionVerdict}

theorem summarize_top (hne : xs ≠ []) : ∃ c, TopCase xs c ∧ summarize xs d = c.verdict := by
  obtain ⟨c, hc, hsum⟩ := summarize_mem (d := d) hne
  refine ⟨c, ⟨hc, ?_⟩, hsum⟩
  intro x hx
  rw [← hsum, ← priority_le_iff]
  exact priority_le_summarize hx

/-- A case of the highest rank that comes first is the summary. -/
theorem summarize_of_top {c : SubmissionCaseResult} {rest : List SubmissionCaseResult}
    (h : TopCase (c :: rest) c) : summarize (c :: rest) d = c.verdict := by
  obtain ⟨before, e, after, heq, hsum, hbefore, -⟩ :=
    summarize_first (d := d) (List.cons_ne_nil c rest)
  cases before with
  | nil =>
    obtain ⟨rfl, -⟩ := List.cons.inj heq
    exact hsum
  | cons b before =>
    obtain ⟨rfl, rfl⟩ := List.cons.inj heq
    have hlow := (priority_lt_iff _ _).mp (hbefore c List.mem_cons_self)
    have hhigh := h.2 e (by simp)
    omega

/-- The verdicts alone decide which ranks occur. -/
theorem rank_summarize_of_perm (h : (ys.map (·.verdict)).Perm (xs.map (·.verdict))) :
    documentedRank (summarize ys d) = documentedRank (summarize xs d) := by
  have hle : ∀ {xs ys : List SubmissionCaseResult}, xs ≠ [] →
      (ys.map (·.verdict)).Perm (xs.map (·.verdict)) →
      documentedRank (summarize xs d) ≤ documentedRank (summarize ys d) := by
    intro xs ys hne hp
    obtain ⟨c, hc, hsum⟩ := summarize_mem (d := d) hne
    obtain ⟨y, hy, hverdict⟩ := List.mem_map.mp (hp.mem_iff.mpr (List.mem_map.mpr ⟨c, hc, rfl⟩))
    rw [hsum, ← hverdict, ← priority_le_iff]
    exact priority_le_summarize hy
  by_cases hne : xs = []
  · subst hne
    rw [List.map_eq_nil_iff.mp h.eq_nil]
  · have hne' : ys ≠ [] := by
      rintro rfl
      exact hne (List.map_eq_nil_iff.mp h.symm.eq_nil)
    exact Nat.le_antisymm (hle hne' h.symm) (hle hne h)

theorem summarize_of_topAgrees (h : (ys.map (·.verdict)).Perm (xs.map (·.verdict)))
    (htop : TopAgrees xs) : summarize ys d = summarize xs d := by
  have hrank := rank_summarize_of_perm (d := d) h
  by_cases hne : xs = []
  · subst hne
    rw [List.map_eq_nil_iff.mp h.eq_nil]
  · have hne' : ys ≠ [] := by
      rintro rfl
      exact hne (List.map_eq_nil_iff.mp h.symm.eq_nil)
    obtain ⟨c, hc, hsum⟩ := summarize_top (d := d) hne
    obtain ⟨y, hy, hysum⟩ := summarize_mem (d := d) hne'
    -- The verdict that `ys` comes to also occurs in `xs`, at the highest rank.
    obtain ⟨x, hx, hverdict⟩ := List.mem_map.mp (h.mem_iff.mp (List.mem_map.mpr ⟨y, hy, rfl⟩))
    have hxtop : TopCase xs x := by
      refine ⟨hx, ?_⟩
      intro z hz
      have hz' := hc.2 z hz
      rw [hverdict, ← hysum, hrank, hsum]
      exact hz'
    rw [hysum, hsum, ← hverdict]
    exact htop x c hxtop hc

/-- The verdict survives every order exactly when the cases of the highest rank agree. -/
theorem summarize_perm_iff :
    (∀ ys, ys.Perm xs → summarize ys d = summarize xs d) ↔ TopAgrees xs := by
  constructor
  · intro hall a b ha hb
    have hfront : ∀ c, TopCase xs c → c.verdict = summarize xs d := by
      intro c hc
      have hp := (List.perm_cons_erase hc.1).symm
      have htop : TopCase (c :: xs.erase c) c :=
        ⟨List.mem_cons_self, fun x hx => hc.2 x (hp.mem_iff.mp hx)⟩
      rw [← hall _ hp, summarize_of_top htop]
    rw [hfront a ha, hfront b hb]
  · intro htop ys hp
    exact summarize_of_topAgrees (hp.map _) htop

end Orders

/-- The same judge on another machine. -/
def JudgeEnv.loading (env : JudgeEnv) (fs : FileSystem) : JudgeEnv :=
  { env with loadCasesForProblem := Pipeline.loadCasesForProblem fs }

/-- The verdict of a case depends on its two files only. -/
def JudgeEnv.JudgesFiles (env : JudgeEnv) (verdictOf : Bytes × Bytes → SubmissionVerdict) : Prop :=
  ∀ language runner, env.createRunner language = .ok (some runner) → ∀ k request c r,
    runner.runCase k request c = .ok r →
      r.result.verdict = verdictOf (c.inputPath, c.expectedOutputPath)

section Runs

variable {env : JudgeEnv} {id : Int} {request : SubmissionRequest} {final : SubmissionResult}
  {verdictOf : Bytes × Bytes → SubmissionVerdict}

/-- Case results come from a run of all cases, and their summary is the verdict. -/
theorem Outcome.judged_of_cases (h : Outcome env id request final) (hne : final.caseResults ≠ []) :
    ∃ runner cases rs, Compiled env id request runner ∧
      env.loadCasesForProblem request.pid = .ok cases ∧ Answered id request runner cases rs ∧
      final.caseResults = rs.map (·.result) ∧ final.verdict = summarize final.caseResults := by
  cases h with
  | judged runner cases rs hr hload ha last hl => exact ⟨runner, cases, rs, hr, hload, ha, rfl, rfl⟩
  | _ => exact absurd rfl hne

theorem Answered.verdicts {runner : ILanguageRunner} {cases : List RunnerCaseInput}
    {rs : List RunnerCaseResult} (h : Answered id request runner cases rs)
    (hfiles : ∀ k request c r, runner.runCase k request c = .ok r →
      r.result.verdict = verdictOf (c.inputPath, c.expectedOutputPath)) :
    rs.map (·.result.verdict) =
      (cases.map fun c => (c.inputPath, c.expectedOutputPath)).map verdictOf := by
  unfold Answered at h
  rw [List.map_map]
  apply List.ext_getElem?
  intro k
  have hk := congrArg (·[k]?) h
  simp only [List.getElem?_mapIdx, List.getElem?_map] at hk ⊢
  cases hc : cases[k]? with
  | none =>
    rw [hc] at hk
    cases hr : rs[k]? with
    | none => rfl
    | some r =>
      rw [hr] at hk
      cases hk
  | some c =>
    rw [hc] at hk
    cases hr : rs[k]? with
    | none =>
      rw [hr] at hk
      cases hk
    | some r =>
      rw [hr] at hk
      have hrun := hfiles k _ c r (Option.some.inj hk)
      simp [hrun]

/-- The verdicts stored for the cases, given the stems of their files. -/
theorem Outcome.verdicts {fs : FileSystem} {root : Bytes} {order : List DirectoryEntry}
    (hfiles : env.JudgesFiles verdictOf) (hroot : resolveTestDataRoot fs = .ok root)
    (hroot_ne : root ≠ []) (hexists : fs.pathExists (dataPathFor root request.pid) = .ok true)
    (hdir : Enumerates fs (dataPathFor root request.pid) order)
    (h : Outcome (env.loading fs) id request final) (hne : final.caseResults ≠ []) :
    final.verdict = summarize final.caseResults ∧
    final.caseResults.map (·.verdict) =
      ((caseStems fs (dataPathFor root request.pid) order).map fun x =>
        (Lib.LexicalPath.join (dataPathFor root request.pid) (x ++ ascii ".in"),
          Lib.LexicalPath.join (dataPathFor root request.pid) (x ++ ascii ".out"))).map verdictOf := by
  obtain ⟨runner, cases, rs, hcompiled, hload, hanswered, hresults, hverdict⟩ :=
    h.judged_of_cases hne
  refine ⟨hverdict, ?_⟩
  have hcases : cases = casesOf (dataPathFor root request.pid)
      (caseStems fs (dataPathFor root request.pid) order) := by
    have henum := loadCases_enumerated fs request.pid hroot hroot_ne hexists hdir
    exact Except.ok.inj (hload.symm.trans henum)
  have hrun := hanswered.verdicts (hfiles request.language runner hcompiled.created)
  rw [hresults, List.map_map, ← casesOf_paths, ← hcases]
  exact hrun

end Runs

/-- For every list of case results and every order of it, the summary has the same rank,
and every order gives the same verdict exactly when the cases of the highest rank agree.
So, for a judge whose case verdicts depend on the files only, two enumerations of the data
directory lead to verdicts of one rank, and to one verdict if the cases of the highest rank
agree. -/
theorem verdict_rank_keeps_order :
    (∀ (xs ys : List SubmissionCaseResult) (d : SubmissionVerdict), ys.Perm xs →
      documentedRank (summarize ys d) = documentedRank (summarize xs d)) ∧
    (∀ (xs : List SubmissionCaseResult) (d : SubmissionVerdict),
      (∀ ys, ys.Perm xs → summarize ys d = summarize xs d) ↔ TopAgrees xs) ∧
    ∀ (env : JudgeEnv) (verdictOf : Bytes × Bytes → SubmissionVerdict) (id : Int)
      (request : SubmissionRequest) (fs : FileSystem) (root : Bytes)
      (order order' : List DirectoryEntry) (final final' : SubmissionResult),
      env.JudgesFiles verdictOf → resolveTestDataRoot fs = .ok root → root ≠ [] →
      fs.pathExists (dataPathFor root request.pid) = .ok true →
      Enumerates fs (dataPathFor root request.pid) order → order'.Perm order →
      Outcome (env.loading fs) id request final → final.caseResults ≠ [] →
      Outcome (env.loading (fs.reordered (dataPathFor root request.pid) order')) id request final' →
      final'.caseResults ≠ [] →
      documentedRank final'.verdict = documentedRank final.verdict ∧
        (TopAgrees final.caseResults → final'.verdict = final.verdict) := by
  refine ⟨fun xs ys d hp => rank_summarize_of_perm (hp.map _), fun xs d => summarize_perm_iff, ?_⟩
  intro env verdictOf id request fs root order order' final final' hfiles hroot hne hexists hdir
    hp h hcases h' hcases'
  obtain ⟨hverdict, hmap⟩ := h.verdicts hfiles hroot hne hexists hdir hcases
  have hroot' : resolveTestDataRoot (fs.reordered (dataPathFor root request.pid) order') =
    .ok root := hroot
  obtain ⟨hverdict', hmap'⟩ := h'.verdicts hfiles hroot' hne hexists (hdir.reordered hp) hcases'
  have hstems : (caseStems fs (dataPathFor root request.pid) order').Perm
    (caseStems fs (dataPathFor root request.pid) order) := caseStems_perm hp
  have hperm : (final'.caseResults.map (·.verdict)).Perm (final.caseResults.map (·.verdict)) := by
    rw [hmap, hmap']
    exact (hstems.map _).map _
  rw [hverdict, hverdict']
  exact ⟨rank_summarize_of_perm hperm, summarize_of_topAgrees hperm⟩

section Sample

/-- `1.in` makes the program crash, `2.in` makes it run out of memory. -/
def crashingVerdict (files : Bytes × Bytes) : SubmissionVerdict :=
  if files.1 = ascii "/td/7/data/1.in" then .re else .mle

def crashingResult (c : RunnerCaseInput) : RunnerCaseResult where
  result := { verdict := crashingVerdict (c.inputPath, c.expectedOutputPath) }
  message := []

def crashingRunner : ILanguageRunner where
  prepare := fun _ => .ok ⟨true, []⟩
  compile := fun _ => .ok ⟨true, .pending, []⟩
  runCase := fun _ _ c => .ok (crashingResult c)

def crashingEnv : JudgeEnv where
  createRunner := fun _ => .ok (some crashingRunner)
  runnerWorkDirFor := fun _ => .ok []
  loadCasesForProblem := fun _ => .ok []

def crashingRequest : SubmissionRequest := ⟨1, ascii "7", .cpp, []⟩

theorem crashingEnv_judgesFiles : crashingEnv.JudgesFiles crashingVerdict := by
  intro language runner hrunner k request c r hr
  obtain rfl := Option.some.inj (Except.ok.inj hrunner)
  obtain rfl := Except.ok.inj hr
  rfl

/-- The submission ends with a verdict wherever there are cases. -/
theorem crashing_outcome {fs : FileSystem} {cases : List RunnerCaseInput}
    (hload : loadCasesForProblem fs (ascii "7") = .ok cases) (hne : cases ≠ []) :
    ∃ final, Outcome (crashingEnv.loading fs) 1 crashingRequest final ∧ final.caseResults ≠ [] := by
  have hanswered : Answered 1 crashingRequest crashingRunner cases (cases.map crashingResult) := by
    unfold Answered
    rw [List.mapIdx_eq_zipIdx_map]
    conv_rhs => rw [← List.zipIdx_map_fst 0 cases, List.map_map, List.map_map]
    rfl
  have hcompiled : Compiled (crashingEnv.loading fs) 1 crashingRequest crashingRunner :=
    ⟨⟨⟨rfl, [], rfl⟩, _, rfl, rfl⟩, _, rfl, rfl⟩
  obtain ⟨c, rest, rfl⟩ := List.exists_cons_of_ne_nil hne
  exact ⟨_, .judged crashingRunner _ _ hcompiled hload hanswered _
    (List.getLast?_eq_some_getLast (List.cons_ne_nil _ _)), List.cons_ne_nil _ _⟩

theorem crashing_rank_keeps_order :
    ∃ final final', Outcome (crashingEnv.loading twoCaseFileSystem) 1 crashingRequest final ∧
      Outcome (crashingEnv.loading (twoCaseFileSystem.reordered
        (dataPathFor (ascii "/td") (ascii "7")) [entryTwo, entryOne])) 1 crashingRequest final' ∧
      documentedRank final'.verdict = documentedRank final.verdict := by
  have hp : [entryTwo, entryOne].Perm [entryOne, entryTwo] := .swap _ _ _
  have hne : ∀ {order : List DirectoryEntry}, order.Perm [entryOne, entryTwo] →
      casesOf (dataPathFor (ascii "/td") (ascii "7")) (caseStems twoCaseFileSystem
        (dataPathFor (ascii "/td") (ascii "7")) order) ≠ [] := by
    intro order horder
    rw [casesOf, Ne, List.mapIdx_eq_nil_iff, ← List.length_eq_zero_iff,
      (caseStems_perm horder).length_eq]
    decide +kernel
  have hload := loadCases_enumerated twoCaseFileSystem (ascii "7") twoCases_root (by decide) rfl
    twoCases_enumerated
  have hload' := loadCases_enumerated (twoCaseFileSystem.reordered _ [entryTwo, entryOne])
    (ascii "7") twoCases_root (by decide) rfl (twoCases_enumerated.reordered hp)
  obtain ⟨final, hfinal, hcases⟩ := crashing_outcome hload (hne (.refl _))
  obtain ⟨final', hfinal', hcases'⟩ := crashing_outcome hload' (hne hp)
  refine ⟨final, final', hfinal, hfinal', ?_⟩
  exact (verdict_rank_keeps_order.2.2 crashingEnv crashingVerdict 1 crashingRequest
    twoCaseFileSystem (ascii "/td") _ _ final final' crashingEnv_judgesFiles rfl (by decide) rfl
    twoCases_enumerated hp hfinal hcases hfinal' hcases').1

end Sample

/-- A runtime error and a memory limit in two orders. -/
theorem tied_verdicts_follow_order :
    [({ verdict := .mle } : SubmissionCaseResult), { verdict := .re }].Perm
      [{ verdict := .re }, { verdict := .mle }] ∧
    summarize [{ verdict := .re }, { verdict := .mle }] ≠
      summarize [{ verdict := .mle }, { verdict := .re }] :=
  ⟨.swap _ _ _, by decide⟩

end JudgeServer.Pipeline
