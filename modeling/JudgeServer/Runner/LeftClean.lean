import JudgeServer.Runner.Reporting

/-!
# One work directory at a time

The guard in `processSubmission` removes the work directory when the submission is left,
however it is left. So a worker has at most one work directory at any moment, and none
when it has judged all it was given.
-/

namespace JudgeServer.Runner

open JudgeServer.Common
open JudgeServer.Pipeline
open JudgeServer.Lib.Interleave
open JudgeServer.Lib.LexicalPath

/-- The work directory of a submission that is judged under `id`. -/
def submissionDir (settings : RunnerSettings) (id : Int) : Bytes :=
  join settings.temp (workDirName id)

/-- The call changes something in the directory. -/
def HostCall.Touches (dir : Bytes) (c : HostCall) : Prop :=
  ∃ p, HostCall.Affects c p ∧ Within dir p

/-- Whatever was done in the directory, it was removed afterwards. -/
def LeavesNothing (dir : Bytes) (l : List Answered) : Prop :=
  ∀ before x after, l = before ++ x :: after → HostCall.Touches dir x.call →
    ∃ y ∈ x :: after, y.call = .removeAll dir

section Record

variable {dir : Bytes} {l : List Answered}

theorem leavesNothing_nil : LeavesNothing dir [] := by
  intro before x after h
  cases before <;> cases h

/-- The last call decides, or it is one that changes nothing. -/
theorem leavesNothing_snoc {x : Answered}
    (h : x.call = .removeAll dir ∨ LeavesNothing dir l ∧ ¬ HostCall.Touches dir x.call) :
    LeavesNothing dir (l ++ [x]) := by
  intro before y after heq htouch
  obtain ⟨rfl, rfl, rfl⟩ | ⟨after', rfl, rfl⟩ := Lib.Cuts.split_snoc heq
  · obtain hremoved | ⟨-, hquiet⟩ := h
    · exact ⟨y, List.mem_singleton_self y, hremoved⟩
    · exact absurd htouch hquiet
  · obtain hremoved | ⟨hl, -⟩ := h
    · exact ⟨x, by simp, hremoved⟩
    · obtain ⟨z, hz, hcall⟩ := hl before y after' rfl htouch
      rw [← List.cons_append]
      exact ⟨z, List.mem_append_left _ hz, hcall⟩

theorem not_touches_of_targets {c : HostCall} (ht : c.targets = [])
    (hc : ∀ path, c ≠ .createDirectories path) : ¬ HostCall.Touches dir c := by
  rintro ⟨p, ⟨target, htarget, _⟩ | ⟨path, heq, _⟩, _⟩
  · rw [ht] at htarget
    cases htarget
  · exact hc path heq

end Record

section Submission

variable {cfg : CleanupConfig} {settings : RunnerSettings}
  {load : Int → Bytes → Except StdException (List RunnerCaseInput)}
  {own : List (Int × SubmissionRequest)} {id : Int} {request : SubmissionRequest}
  {l : List Answered}

/-- Storing snapshots is not restricted here. -/
def anySnapshot : Int → SubmissionResult → List Answered → Prop := fun _ _ _ => True

/-- A call made in judging `id`. -/
def JudgesCall.Judging (id : Int) (o : JudgesCall) : Prop :=
  (∃ c, o = .host id c) ∨ ∃ r, o = .store (.updateResult id r)

theorem confined_judging (cfg : CleanupConfig) (settings : RunnerSettings) (id : Int)
    (request : SubmissionRequest) :
    Confined (recordedHost cfg settings id) (JudgesCall.Judging id) request :=
  fun c _ => ⟨.inl ⟨c, rfl⟩, fun _ => trivial⟩

theorem persist_judging (cfg : CleanupConfig) (id : Int) (r : SubmissionResult) :
    (persistOnRecord cfg id r).run.Uses (JudgesCall.Judging id) :=
  ⟨.inr ⟨r, rfl⟩, fun _ => trivial⟩

theorem notes_judging {α : Type} (hid : ∃ x ∈ own, x.1 = id) {p : Prog (recordMachine cfg) α}
    (hu : p.Uses (JudgesCall.Judging id)) : Notes cfg own anySnapshot id p l fun _ _ => True := by
  intro s _
  refine Safe.of_uses (fun _ => True) hu (fun _ _ _ _ _ => trivial) trivial ?_
    fun _ _ _ _ _ _ _ _ _ => trivial
  rintro o s (⟨c, rfl⟩ | ⟨r, rfl⟩) _
  · exact hid
  · trivial

theorem removeAll_notes (hid : ∃ x ∈ own, x.1 = id) {dir : Bytes} :
    Notes cfg own anySnapshot id ((recordedHost cfg settings id).call (.removeAll dir)) l
      fun _ l' => LeavesNothing dir l' :=
  notes_call hid fun _ => notes_ret hid (leavesNothing_snoc (.inl rfl))

/-- The directory's path is not empty. -/
theorem cleanup_notes (hid : ∃ x ∈ own, x.1 = id) (hkeep : settings.keepRunnerWorkDir = false) :
    Notes cfg own anySnapshot id
      ((hostSurroundings (recordedHost cfg settings id) (load id)).cleanup (submissionDir settings id)) l
      fun _ l' => LeavesNothing (submissionDir settings id) l' := by
  have hdir : (submissionDir settings id).isEmpty = false := by
    have hnames := normalNames_join_proper settings.temp (workDirName_proper id)
    cases hempty : submissionDir settings id with
    | nil =>
      unfold submissionDir at hempty
      rw [hempty] at hnames
      simp [normalNames, descend] at hnames
    | cons b rest => rfl
  have hkeep' : (recordedHost cfg settings id).keepRunnerWorkDir = false := hkeep
  unfold hostSurroundings
  simp only [hkeep', hdir, Bool.or_self, Bool.false_eq_true]
  exact removeAll_notes hid

/-- Whether or not the stages end with an exception. -/
theorem hostedStages_leaves (hid : ∃ x ∈ own, x.1 = id)
    (hkeep : settings.keepRunnerWorkDir = false)
    (hl : LeavesNothing (submissionDir settings id) l) :
    Notes cfg own anySnapshot id
      (hostedStages (persistOnRecord cfg)
        (hostSurroundings (recordedHost cfg settings id) (load id)) id request).run l
      fun _ l' => LeavesNothing (submissionDir settings id) l' := by
  unfold hostedStages
  refine notes_persist hid trivial fun accepted => ?_
  cases accepted with
  | false => exact notes_ret hid hl
  | true =>
    have hcreate : (hostSurroundings (recordedHost cfg settings id) (load id)).createRunner
        request.language = pure (createRunner (recordedHost cfg settings id) request.language) := rfl
    rw [if_pos rfl, hcreate, pure_bind]
    cases hcreated : createRunner (recordedHost cfg settings id) request.language with
    | none => exact notes_persist hid trivial fun _ => notes_ret hid hl
    | some runner =>
      refine notes_runnerWorkDirFor hid ?_ fun _ => ?_
      · have huses := createRunner_uses
          (confined_judging cfg settings id (executionRequest id request)) hcreated
        refine Notes.bind (notes_judging hid
          (hostedPrepare_uses (persist_judging cfg id) huses (load id) request)) fun result l' _ => ?_
        exact Notes.bind (cleanup_notes hid hkeep) fun _ l'' hclean => notes_ret hid hclean
      · exact leavesNothing_snoc (.inr ⟨hl, not_touches_of_targets rfl (by simp)⟩)

theorem judgeOne_leaves (hid : ∃ x ∈ own, x.1 = id) (hkeep : settings.keepRunnerWorkDir = false)
    (hl : LeavesNothing (submissionDir settings id) l) :
    Notes cfg own anySnapshot id (judgeOne cfg settings load id request).run l
      fun _ l' => LeavesNothing (submissionDir settings id) l' := by
  unfold judgeOne hostedSubmission
  split
  · exact notes_ret hid hl
  · refine Notes.bind (hostedStages_leaves hid hkeep hl) fun result l' hclean => ?_
    cases result with
    | ok _ => exact notes_ret hid hclean
    | error ex => exact notes_persist hid trivial fun _ => notes_ret hid hclean

theorem judgeOne_judging (id : Int) (request : SubmissionRequest) :
    (judgeOne cfg settings load id request).run.Uses (JudgesCall.Judging id) :=
  hostedSubmission_uses (persist_judging cfg id) (load id) request
    (confined_judging cfg settings id (executionRequest id request))

end Submission

section Worker

variable {cfg : CleanupConfig} {settings : RunnerSettings}
  {load : Int → Bytes → Except StdException (List RunnerCaseInput)}
  {own : List (Int × SubmissionRequest)}

/-- The submission's directory is removed, if it has been there. -/
def Clean (settings : RunnerSettings) (s : Records) (id : Int) : Prop :=
  LeavesNothing (submissionDir settings id) (s.answers id)

/-- All of the worker's submissions but `id` have left nothing. -/
def CleanBut (settings : RunnerSettings) (own : List (Int × SubmissionRequest)) (id : Int)
    (s : Records) : Prop := ∀ x ∈ own, x.1 ≠ id → Clean settings s x.1

/-- A worker makes its calls in states with at most one of its directories left. -/
def cleanContract (cfg : CleanupConfig) (settings : RunnerSettings)
    (own : List (Int × SubmissionRequest)) : Contract (recordMachine cfg) where
  allows := fun _ _ _ => True
  rely := fun _ s s' => ∀ x ∈ own, s'.answers x.1 = s.answers x.1
  pre := fun o s =>
    (∃ id, CleanBut settings own id s) ∧ ∀ id c, o = .host id c → ∃ x ∈ own, x.1 = id

theorem stable_cleanBut {o : Option JudgesCall} (id : Int) :
    Stable ((cleanContract cfg settings own).rely o) (CleanBut settings own id) := by
  intro s s' h hrely x hx hne
  unfold Clean
  rw [hrely x hx]
  exact h x hx hne

theorem judgeOne_cleanBut {id : Int} {request : SubmissionRequest} (hid : ∃ x ∈ own, x.1 = id)
    {s : Records} (h : CleanBut settings own id s) :
    Safe (cleanContract cfg settings own) (fun _ => CleanBut settings own id)
      (judgeOne cfg settings load id request).run s := by
  refine Safe.of_uses (CleanBut settings own id) (judgeOne_judging id request)
    (fun _ => stable_cleanBut id) h ?_ ?_
  · rintro o s (⟨c, rfl⟩ | ⟨r, rfl⟩) hs
    · refine ⟨⟨id, hs⟩, fun id' c' heq => ?_⟩
      cases heq
      exact hid
    · exact ⟨⟨id, hs⟩, fun id' c' heq => by cases heq⟩
  · rintro o s e r s' (⟨c, rfl⟩ | ⟨r', rfl⟩) hs _ hexec
    · cases hexec
      intro x hx hne
      unfold Clean
      rw [note_answers_other hne]
      exact hs x hx hne
    · cases hexec
      exact hs

/-- All of the worker's submissions have left nothing. -/
def AllClean (settings : RunnerSettings) (own : List (Int × SubmissionRequest)) (s : Records) :
    Prop := ∀ x ∈ own, Clean settings s x.1

/-- From a clean state to a clean state, one submission at a time. -/
theorem judgeOne_clean {id : Int} {request : SubmissionRequest} (hid : ∃ x ∈ own, x.1 = id)
    (hkeep : settings.keepRunnerWorkDir = false) {s : Records} (h : AllClean settings own s) :
    Safe (cleanContract cfg settings own) (fun _ => AllClean settings own)
      (judgeOne cfg settings load id request).run s := by
  have hbut := @judgeOne_cleanBut cfg settings load own id request hid s fun x hx _ => h x hx
  have hself : Clean settings s id := by
    obtain ⟨x, hx, rfl⟩ := hid
    exact h x hx
  have hown := @judgeOne_leaves cfg settings load own id request _ hid hkeep hself s rfl
  refine (hbut.and (by rfl) (by rfl) hown).mono fun _ s' ⟨hothers, hclean⟩ x hx => ?_
  by_cases hne : x.1 = id
  · rw [hne]
    exact hclean
  · exact hothers x hx hne

theorem judgeInTurn_clean (hkeep : settings.keepRunnerWorkDir = false)
    {rest : List (Int × SubmissionRequest)} (hsub : rest ⊆ own) {s : Records}
    (h : AllClean settings own s) :
    Safe (cleanContract cfg settings own) (fun _ => AllClean settings own)
      (judgeInTurn cfg settings load rest) s := by
  induction rest generalizing s with
  | nil =>
    refine .ret (AllClean settings own) ?_ h fun _ h => h
    intro s s' hs hrely x hx
    unfold Clean
    rw [hrely x hx]
    exact hs x hx
  | cons x rest ih =>
    obtain ⟨hx, hrest⟩ := List.cons_subset.mp hsub
    exact Safe.bind ((judgeOne_clean ⟨x, hx, rfl⟩ hkeep h).mono fun _ s' hs' => ih hrest hs')

end Worker

section Clean

variable {cfg : CleanupConfig} {settings : RunnerSettings}
  {load : Int → Bytes → Except StdException (List RunnerCaseInput)} {τ : Type} [DecidableEq τ]
  {work : τ → List (Int × SubmissionRequest)} {store : TracedStore}
  {d : Config (recordMachine cfg) τ Unit}

theorem workers_clean (hkeep : settings.keepRunnerWorkDir = false) (hapart : WorkApart work)
    (hd : Reach (noSecondTurn cfg) anyStep (recordsStart cfg settings load work store) d) (w : τ) :
    Safe (cleanContract cfg settings (work w)) (fun _ => AllClean settings (work w))
      (d.thread w) d.shared := by
  have hstart : ∀ {own}, AllClean settings own (recordsStart cfg settings load work store).shared :=
    fun x _ => (leavesNothing_nil : LeavesNothing (submissionDir settings x.1) [])
  refine hd.safe (fun w => cleanContract cfg settings (work w))
    (fun w _ => AllClean settings (work w))
    (fun w => judgeInTurn_clean hkeep (List.Subset.refl _) hstart)
    (fun _ _ _ _ h => by cases h) ?_ w
  intro c t e o k r s' _ _ _ hpre hexec
  exact ⟨trivial, fun t' hne => record_rely hapart hne hpre.2 hexec⟩

/-- However the workers take turns, and whatever the machine answers or throws: unless work
directories are to be kept, a worker has changed something in a submission's directory
without removing it afterwards for at most one of its submissions, and for none of them when
it has judged them all. -/
theorem one_work_dir_at_a_time (hkeep : settings.keepRunnerWorkDir = false)
    (hapart : WorkApart work)
    (hd : Reach (noSecondTurn cfg) anyStep (recordsStart cfg settings load work store) d) (w : τ) :
    (∀ x ∈ work w, ∀ y ∈ work w,
      ¬ LeavesNothing (submissionDir settings x.1) (d.shared.answers x.1) →
      ¬ LeavesNothing (submissionDir settings y.1) (d.shared.answers y.1) → x.1 = y.1) ∧
    (d.thread w = .ret () → ∀ x ∈ work w,
      LeavesNothing (submissionDir settings x.1) (d.shared.answers x.1)) := by
  have hsafe := workers_clean hkeep hapart hd w
  constructor
  · intro x hx y hy hleft hleft'
    cases hthread : d.thread w with
    | ret a =>
      rw [hthread] at hsafe
      exact absurd (hsafe.post x hx) hleft
    | call o k =>
      rw [hthread] at hsafe
      obtain ⟨⟨id, hbut⟩, -⟩ := hsafe.pre
      have hxid : x.1 = id := by_contra fun hne => hleft (hbut x hx hne)
      have hyid : y.1 = id := by_contra fun hne => hleft' (hbut y hy hne)
      rw [hxid, hyid]
  · intro hthread x hx
    rw [hthread] at hsafe
    exact hsafe.post x hx

end Clean

/-- The sample submission, judged from beginning to end, has left nothing. -/
theorem one_work_dir_removed :
    ∃ d, Reach (noSecondTurn {}) anyStep
        (recordsStart {} tmpSettings (fun _ _ => .ok [plainCase]) oneWorker sampleStore) d ∧
      d.shared.answers 1 ≠ [] ∧
      LeavesNothing (submissionDir tmpSettings 1) (d.shared.answers 1) := by
  have hrun : (run (noSecondTurn {}) (recordsStart {} tmpSettings (fun _ _ => .ok [plainCase])
      oneWorker sampleStore) (judgedSchedule (Sjudge.sampleExecution 0))).map (fun d =>
        (d.thread ()).head.isNone && !(d.shared.answers 1).isEmpty) = some true := by decide +kernel
  obtain ⟨d, hd, hobs⟩ := Option.map_eq_some_iff.mp hrun
  obtain ⟨hreturned, hanswers⟩ := Bool.and_eq_true_iff.mp hobs
  have hreach := reach_of_run hd
  have hthread : d.thread () = .ret () := by
    cases hcase : d.thread () with
    | ret a => rfl
    | call o k =>
      rw [hcase] at hreturned
      cases hreturned
  refine ⟨d, hreach, fun hnil => ?_, ?_⟩
  · rw [hnil] at hanswers
    cases hanswers
  · exact (one_work_dir_at_a_time (by rfl) oneWorker_apart hreach ()).2 hthread
      (1, codedRequest) (List.mem_singleton_self _)

end JudgeServer.Runner
