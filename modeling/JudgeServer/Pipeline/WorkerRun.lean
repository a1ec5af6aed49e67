import JudgeServer.Pipeline.SubmissionOutcome

/-!
# A worker among other users of the store

One worker runs `processSubmission` for a submission while any number of other
threads use the store: clients that query, workers on other submissions, the network
thread that creates new ones. They never update this submission, and no creation is
handed its id again. `Working` is the invariant of every such run: the worker is at
some position of its script and the store has accepted everything before it.
-/

namespace JudgeServer.Pipeline

open JudgeServer.Common
open JudgeServer.Lib.Interleave
open JudgeServer.Lib.Cuts (split_snoc)

/-- A call that does not update `id`. -/
def LeavesAlone (id : Int) (c : StoreCall) : Prop := ∀ r, c ≠ .updateResult id r

/-- Threads of a run around one worker: `none` is the worker. Nobody is restarted. -/
abbrev WorkerConfig (cfg : CleanupConfig) (γ : Type) :=
  Config (storeMachine cfg) (Option γ) (Except StdException Unit)

def noRestart {cfg : CleanupConfig} {γ : Type} :
    Option γ → Except StdException Unit → Option (Prog (storeMachine cfg) (Except StdException Unit)) :=
  fun _ _ => none

/-- The worker about to process `id`, and the others. -/
def workerConfig {γ : Type} (cfg : CleanupConfig) (env : JudgeEnv) (id : Int)
    (request : SubmissionRequest) (t : TracedStore)
    (others : γ → Prog (storeMachine cfg) (Except StdException Unit)) : WorkerConfig cfg γ where
  shared := t
  thread
    | none => (processSubmission (persistResult cfg) env id request).run
    | some g => others g

/-- No creation is handed the id again. -/
def freshIds {cfg : CleanupConfig} {γ : Type} (id : Int) (c : WorkerConfig cfg γ) (t : Option γ)
    (_ : StoreInput) : Prop :=
  ∀ request, (c.thread t).head = some (.createSubmission request) →
    c.shared.store.nextSubmissionId ≠ id

/-- An update along a documented edge of an unfinished record is accepted. -/
theorem updateResult_accepted (cfg : CleanupConfig) (srt : EntrySort) (now : TimePoint) (id : Int)
    (r : SubmissionResult) (st : ResultStore) {old : SubmissionResult}
    (hp : st.peek id = some (old, none)) (hv : isValidTransition old.status r.status = true) :
    (st.updateResult cfg srt now id r).1 = true ∧
      (isTerminalStatus r.status = false →
        (st.updateResult cfg srt now id r).2.peek id = some ({ r with submissionId := id }, none)) := by
  have hc := (ResultStore.cleanup_evicts cfg srt now st).kept id
  unfold ResultStore.updateResult
  dsimp only
  have hp₁ := hc.peek_live hp
  generalize st.cleanupExpiredResultsLocked cfg srt now = st₁ at hp₁ ⊢
  obtain ⟨stored, hs, hpair⟩ := Option.map_eq_some_iff.mp hp₁
  obtain ⟨rfl, hf⟩ := Prod.mk.inj hpair
  rw [hs]
  dsimp only
  rw [if_pos hv]
  refine ⟨rfl, ?_⟩
  intro hr
  refine ((ResultStore.cleanup_evicts cfg srt now _).kept id).peek_live ?_
  rw [peek_insert, if_pos rfl]
  simp [ResultStore.overwrite, hr, hf]

/-- A call that stores nothing for `id` keeps its record. -/
theorem Effect.kept_of {st st' : ResultStore} {e : Entry} {id : Int} (he : Effect st e st')
    (hn : e.stored id = none) : Kept st st' id := by
  cases he with
  | created next new others =>
    apply others
    rintro rfl
    simp [Entry.stored] at hn
  | refused i r next all => exact all id
  | stored i r now old f next found valid new others =>
    apply others
    rintro rfl
    simp [Entry.stored] at hn
  | got i next all => exact all id

/-- What a call by somebody else does to the record of `id`. -/
theorem perform_other (cfg : CleanupConfig) (i : StoreInput) {c : StoreCall} {t : TracedStore}
    {id : Int} (hl : LeavesAlone id c)
    (hf : ∀ request, c = .createSubmission request → t.store.nextSubmissionId ≠ id) :
    snapshots id (perform cfg c i t).2.history = snapshots id t.history ∧
      Kept t.store (perform cfg c i t).2.store id := by
  obtain ⟨e, hh, he⟩ := perform_effect cfg c i t
  have hn : e.stored id = none := by
    cases c with
    | createSubmission request =>
      have hid : e = .created t.store.nextSubmissionId := by
        have hlast := List.append_cancel_left hh
        obtain rfl := (List.cons.inj hlast).1
        exact congrArg Entry.created (ResultStore.cleanup_evicts cfg i.sort i.now t.store).next
      subst hid
      simp [Entry.stored, hf request rfl]
    | updateResult j r =>
      have hne : j ≠ id := by
        rintro rfl
        exact hl r rfl
      obtain rfl := (List.cons.inj (List.append_cancel_left hh)).1
      simp [Entry.stored, hne]
    | getResult j =>
      obtain rfl := (List.cons.inj (List.append_cancel_left hh)).1
      rfl
  refine ⟨?_, he.kept_of hn⟩
  rw [hh, snapshots_snoc, hn]
  simp

section Run

variable {cfg : CleanupConfig} {γ : Type} [DecidableEq γ] {id : Int}

/-- The worker has made `n` calls of its script `l` and the store has accepted them. -/
structure Working (id : Int) (q : SubmissionResult) (base l : List SubmissionResult)
    (n : Nat) (c : WorkerConfig cfg γ) : Prop where
  others : ∀ g, (c.thread (some g)).Uses (LeavesAlone id)
  position : n ≤ l.length
  script : Script id (c.thread none) (l.drop n) (.ok ())
  stored : snapshots id c.shared.history = base ++ l.take n
  record : ∀ newest, (q :: l.take n).getLast? = some newest →
    isTerminalStatus newest.status = false → c.shared.store.peek id = some (newest, none)

theorem Script.cons_inv {α : Type} {p : Prog (storeMachine cfg) α} {r : SubmissionResult}
    {l : List SubmissionResult} {a : α} (h : Script id p (r :: l) a) :
    r.submissionId = id ∧ ∃ k, p = .call (M := storeMachine cfg) (.updateResult id r) k ∧
      Script id (k true) l a := by
  cases h with
  | call hr h => exact ⟨hr, _, rfl, h⟩

theorem Script.nil_inv {α : Type} {p : Prog (storeMachine cfg) α} {a : α} (h : Script id p [] a) :
    p = .ret a := by
  cases h
  rfl

theorem Working.enabled {q : SubmissionResult} {base l : List SubmissionResult} {n : Nat}
    {c : WorkerConfig cfg γ} (h : Working id q base l n c) (hn : n < l.length) (e : StoreInput) :
    ∃ c', step noRestart c none e = some c' := by
  have hs := h.script
  rw [List.drop_eq_getElem_cons hn] at hs
  obtain ⟨_, k, hk, _⟩ := hs.cons_inv
  unfold step
  rw [hk]
  exact ⟨_, rfl⟩

/-- Another thread moves. -/
theorem Working.other {q : SubmissionResult} {base l : List SubmissionResult} {n : Nat}
    {c c' : WorkerConfig cfg γ} {g : γ} {e : StoreInput} (h : Working id q base l n c)
    (hf : freshIds id c (some g) e) (hs : step noRestart c (some g) e = some c') :
    Working id q base l n c' := by
  rcases step_cases hs with ⟨a, p, _, hr, _⟩ | ⟨o, k, r, s', hk, he, rfl⟩
  · cases hr
  · have hu := h.others g
    rw [hk] at hu
    have hfresh : ∀ request, o = .createSubmission request →
        c.shared.store.nextSubmissionId ≠ id := by
      rintro request rfl
      exact hf request (by rw [hk]; rfl)
    have hp := perform_other cfg e hu.1 hfresh
    obtain rfl : (perform cfg o e c.shared).2 = s' := congrArg Prod.snd (Option.some.inj he)
    refine ⟨?_, h.position, by simpa using h.script, hp.1.trans h.stored, ?_⟩
    · intro g'
      by_cases hg : g' = g
      · subst hg
        simpa using hu.2 r
      · simpa [hg] using h.others g'
    · intro newest hnew hun
      exact hp.2.peek_live (h.record newest hnew hun)

/-- The worker moves: the next snapshot of the script is accepted. -/
theorem Working.worker {q : SubmissionResult} {base l : List SubmissionResult} {n : Nat}
    {c c' : WorkerConfig cfg γ} {e : StoreInput} (h : Working id q base l n c)
    (hchain : (q :: l).IsChain fun a b => DocumentedEdge a.status b.status)
    (hs : step noRestart c none e = some c') :
    n < l.length ∧ Working id q base l (n + 1) c' := by
  have hn : n < l.length := by
    by_contra hge
    have hscript := h.script
    rw [List.drop_eq_nil_of_le (by omega)] at hscript
    have hret := hscript.nil_inv
    unfold step at hs
    rw [hret] at hs
    cases hs
  refine ⟨hn, ?_⟩
  have hscript := h.script
  rw [List.drop_eq_getElem_cons hn] at hscript
  obtain ⟨hid, k, hk, hnext⟩ := hscript.cons_inv
  obtain ⟨newest, hnew⟩ : ∃ newest, (q :: l.take n).getLast? = some newest :=
    ⟨_, List.getLast?_eq_some_getLast (List.cons_ne_nil _ _)⟩
  have hedge : DocumentedEdge newest.status l[n].status := by
    have hsplit : q :: l = (q :: l.take n) ++ l[n] :: l.drop (n + 1) := by
      rw [List.cons_append, ← List.drop_eq_getElem_cons hn, List.take_append_drop]
    rw [hsplit] at hchain
    exact (List.isChain_append.mp hchain).2.2 newest (by simp [hnew]) l[n] (by simp)
  have hpeek := h.record newest hnew hedge.unfinished
  have hacc := updateResult_accepted cfg e.sort e.now id l[n] c.shared.store hpeek
    ((isValidTransition_iff _ _).mpr hedge)
  have hsame : ({ l[n] with submissionId := id } : SubmissionResult) = l[n] := by
    rw [← hid]
  unfold step at hs
  rw [hk] at hs
  obtain rfl := Option.some.inj hs
  refine ⟨?_, hn, ?_, ?_, ?_⟩
  · intro g
    simpa using h.others g
  · have hk' : (perform cfg (.updateResult id l[n]) e c.shared).1 = true := hacc.1
    change Script id (Function.update c.thread none
      (k (perform cfg (.updateResult id l[n]) e c.shared).1) none) _ _
    rw [Function.update_self, hk']
    exact hnext
  · change snapshots id (c.shared.history ++ [.updated id l[n] _]) = _
    rw [snapshots_snoc, h.stored, hacc.1, List.take_succ_eq_append_getElem hn, List.append_assoc]
    simp [Entry.stored, hsame]
  · intro newest' hnew' hun
    rw [List.take_succ_eq_append_getElem hn, ← List.cons_append, List.getLast?_concat] at hnew'
    obtain rfl := Option.some.inj hnew'
    have hp := hacc.2 hun
    rw [hsame] at hp
    exact hp

/-- Every run: the number of worker steps is the position in the script. -/
theorem Working.trace {q : SubmissionResult} {base l : List SubmissionResult}
    {init c : WorkerConfig cfg γ} {xs : List (Option γ × StoreInput)}
    (h0 : Working id q base l 0 init)
    (hchain : (q :: l).IsChain fun a b => DocumentedEdge a.status b.status)
    (hr : Trace noRestart (freshIds id) init xs c) :
    Working id q base l (xs.countP fun x => x.1.isNone) c := by
  induction hr with
  | nil => exact h0
  | @snoc xs c c' t e _ ho hs ih =>
    rw [List.countP_append]
    cases t with
    | none => exact (ih.worker hchain hs).2
    | some g => exact ih.other ho hs

omit [DecidableEq γ] in
/-- The worker at the start of its script. -/
theorem working_start {env : JudgeEnv} {request : SubmissionRequest} {t : TracedStore}
    {others : γ → Prog (storeMachine cfg) (Except StdException Unit)}
    (hothers : ∀ g, (others g).Uses (LeavesAlone id)) {q : SubmissionResult}
    (hq : t.store.peek id = some (q, none)) {l : List SubmissionResult}
    (hs : Script id (processSubmission (persistResult cfg) env id request).run l (.ok ())) :
    Working id q (snapshots id t.history) l 0 (workerConfig cfg env id request t others) := by
  refine ⟨hothers, Nat.zero_le _, hs, by simp [workerConfig], ?_⟩
  intro newest hnew _
  obtain rfl : q = newest := by simpa using hnew
  exact hq

end Run

/-- Only the status of the first snapshot matters for the edges that follow. -/
theorem chain_from_status {q q' : SubmissionResult} {l : List SubmissionResult}
    (h : (q :: l).IsChain fun a b => DocumentedEdge a.status b.status)
    (hs : q.status = q'.status) :
    (q' :: l).IsChain fun a b => DocumentedEdge a.status b.status := by
  cases l with
  | nil => exact .singleton q'
  | cons r l =>
    obtain ⟨he, hl⟩ := List.isChain_cons_cons.mp h
    rw [hs] at he
    exact .cons_cons he hl

/-- Every processed submission ends: whatever the environment and the other threads
do, after finitely many steps of its own the worker has returned normally, having
stored a single terminal snapshot, which is the outcome of the submission. -/
theorem processSubmission_ends {γ : Type} [DecidableEq γ] (cfg : CleanupConfig) (env : JudgeEnv)
    (id : Int) (hid : 0 < id) (request : SubmissionRequest) (t : TracedStore)
    (others : γ → Prog (storeMachine cfg) (Except StdException Unit))
    (hothers : ∀ g, (others g).Uses (LeavesAlone id))
    (q : SubmissionResult) (hq : t.store.peek id = some (q, none)) (hs : q.status = .queued) :
    ∃ l final, Outcome env id request final ∧ isTerminalStatus final.status = true ∧
      (∀ x ∈ l, isTerminalStatus x.status = false) ∧
      ∀ xs c, Trace noRestart (freshIds id) (workerConfig cfg env id request t others) xs c →
        xs.countP (fun x => x.1.isNone) ≤ l.length + 1 ∧
        snapshots id c.shared.history =
          snapshots id t.history ++ (l ++ [final]).take (xs.countP fun x => x.1.isNone) ∧
        (xs.countP (fun x => x.1.isNone) = l.length + 1 → c.thread none = .ret (.ok ())) ∧
        (xs.countP (fun x => x.1.isNone) < l.length + 1 →
          ∀ e, ∃ c', step noRestart c none e = some c') := by
  obtain ⟨l, final, hscript, hout, hun, hchain, _⟩ :=
    processSubmission_script cfg env id request hid
  refine ⟨l, final, hout, outcome_terminal hout, hun, ?_⟩
  intro xs c hr
  have hw := (working_start hothers hq hscript).trace (chain_from_status hchain hs.symm) hr
  have hlen : (l ++ [final]).length = l.length + 1 := by simp
  refine ⟨hlen ▸ hw.position, hw.stored, ?_, ?_⟩
  · intro hn
    have hscr := hw.script
    rw [List.drop_eq_nil_of_le (by omega)] at hscr
    exact hscr.nil_inv
  · intro hn e
    exact hw.enabled (by omega) e

/-- A runner that accepts everything and throws at case number `failing`. -/
def sampleRunner (failing : Nat) : ILanguageRunner where
  prepare _ := .ok ⟨true, []⟩
  compile _ := .ok ⟨true, .pending, []⟩
  runCase i _ c :=
    if i = failing then .error ⟨ascii "runner failed"⟩
    else .ok ⟨{ seqId := c.seqId, verdict := .ac }, ascii "accepted"⟩

/-- A problem with `count` cases, judged by that runner. -/
def sampleEnv (count failing : Nat) : JudgeEnv where
  createRunner _ := .ok (some (sampleRunner failing))
  runnerWorkDirFor _ := .ok (ascii "/tmp/oj_compile_1")
  loadCasesForProblem _ := .ok ((List.range count).map fun n =>
    ⟨n + 1, ascii "1.in", ascii "1.out", 1000, 1000, 1024 * 1024⟩)

def sampleRequest : SubmissionRequest := ⟨7, ascii "1000", .cpp, []⟩

def sampleCalls : List (StoreCall × StoreInput) := [(.createSubmission sampleRequest, ⟨0, 0, .stable⟩)]

/-- A store with one submission waiting. -/
def sampleStore : TracedStore := runCalls {} (.start none none) sampleCalls

/-- A client that asks for submission 1 twice. -/
def sampleClient (_ : Unit) : Prog (storeMachine {}) (Except StdException Unit) :=
  .call (M := storeMachine {}) (.getResult 1) fun _ =>
    .call (M := storeMachine {}) (.getResult 1) fun _ => .ret (.ok ())

theorem sampleClient_uses (g : Unit) : (sampleClient g).Uses (LeavesAlone 1) :=
  ⟨fun _ => by simp, fun _ => ⟨fun _ => by simp, fun _ => trivial⟩⟩

theorem processSubmission_ends_sample :
    sampleStore.store.peek 1 = some (makeResult 1 .queued .pending, none) ∧
    ∃ (l : List SubmissionResult) (final : SubmissionResult),
      Outcome (sampleEnv 2 5) 1 sampleRequest final ∧
      isTerminalStatus final.status = true ∧ ∀ x ∈ l, isTerminalStatus x.status = false := by
  refine ⟨rfl, ?_⟩
  obtain ⟨l, final, hout, hterm, hun, _⟩ := processSubmission_ends {} (sampleEnv 2 5) 1 (by decide)
    sampleRequest sampleStore sampleClient sampleClient_uses (makeResult 1 .queued .pending) rfl rfl
  exact ⟨l, final, hout, hterm, hun⟩

/-- The order of the statuses in which a submission moves. -/
def statusRank : SubmissionStatus → Nat
  | .queued => 0
  | .preparing => 1
  | .compiling => 2
  | .running => 3
  | .finished | .failed => 4

/-- `b` takes back nothing that `a` has shown. -/
structure Later (a b : SubmissionResult) : Prop where
  rank : statusRank a.status ≤ statusRank b.status
  cases : a.caseResults <+: b.caseResults

theorem Later.refl (a : SubmissionResult) : Later a a := ⟨Nat.le_refl _, List.prefix_refl _⟩

theorem Later.trans {a b c : SubmissionResult} (h : Later a b) (h' : Later b c) : Later a c :=
  ⟨Nat.le_trans h.rank h'.rank, h.cases.trans h'.cases⟩

theorem Advance.later {a b : SubmissionResult} (h : Advance a b) : Later a b := by
  refine ⟨?_, h.cases⟩
  have he := h.edge
  generalize a.status = s at he
  generalize b.status = s' at he
  cases he with
  | again _ => exact Nat.le_refl _
  | _ => decide

/-- Reads of `id` answer with its newest snapshot. -/
structure Follows (id : Int) (t : TracedStore) : Prop where
  known : ∀ r f, t.store.peek id = some (r, f) → (snapshots id t.history).getLast? = some r
  answers : ∀ a b z, t.history = a ++ .got id (some z) :: b → (snapshots id a).getLast? = some z

theorem Tracks.follows {t : TracedStore} (ht : Tracks t) (id : Int) : Follows id t :=
  ⟨ht.known id, fun a b z => ht.answers a b id z⟩

/-- What an entry stores is what the table holds afterwards, if anything. -/
theorem Effect.peek_stored {st st' : ResultStore} {e : Entry} {id : Int} (he : Effect st e st')
    {s : SubmissionResult} (hs : e.stored id = some s) {r : SubmissionResult} {f : Option TimePoint}
    (hp : st'.peek id = some (r, f)) : r = s := by
  cases he with
  | created next new others =>
    simp only [Entry.stored] at hs
    split at hs
    · next h =>
      subst h
      rw [new] at hp
      obtain ⟨rfl, rfl⟩ := Prod.mk.inj (Option.some.inj hp)
      exact Option.some.inj hs
    · cases hs
  | refused i r' next all => simp [Entry.stored] at hs
  | stored i r' now old f' next found valid new others =>
    simp only [Entry.stored] at hs
    split at hs
    · next h =>
      obtain ⟨rfl, _⟩ := h
      rcases new with hn | ⟨hn, _⟩
      · rw [hn] at hp
        obtain ⟨rfl, rfl⟩ := Prod.mk.inj (Option.some.inj hp)
        exact Option.some.inj hs
      · rw [hn] at hp
        cases hp
    · cases hs
  | got i next all => cases hs

/-- One call keeps `Follows`, whoever makes it. -/
theorem Follows.perform {t : TracedStore} {id : Int} (h : Follows id t) (cfg : CleanupConfig)
    (c : StoreCall) (i : StoreInput) : Follows id (perform cfg c i t).2 := by
  obtain ⟨e, hh, he⟩ := perform_effect cfg c i t
  constructor
  · intro r f hp
    rw [hh, snapshots_snoc]
    cases hs : e.stored id with
    | none =>
      have hold := (he.kept_of hs).peek_some hp
      simpa using h.known r f hold
    | some s =>
      rw [he.peek_stored hs hp]
      simp
  · intro a b z hsplit
    rw [hh] at hsplit
    rcases split_snoc hsplit with ⟨_, rfl, rfl⟩ | ⟨b', _, hb⟩
    · obtain ⟨f, hp⟩ := he.read_some
      exact h.known z f hp
    · exact h.answers a b' z hb

theorem Follows.trace {cfg : CleanupConfig} {γ : Type} [DecidableEq γ] {id : Int}
    {init c : WorkerConfig cfg γ} {xs : List (Option γ × StoreInput)}
    (h0 : Follows id init.shared) (hr : Trace noRestart (freshIds id) init xs c) :
    Follows id c.shared := by
  refine hr.reach.invariant (Follows id) h0 ?_
  intro c t e o k r s' _ _ _ he hf
  obtain rfl : (Pipeline.perform cfg o e c.shared).2 = s' := congrArg Prod.snd (Option.some.inj he)
  exact hf.perform cfg o e

/-- Two reads, when the snapshots stored only ever grow. -/
theorem Follows.later {t : TracedStore} {id : Int} (h : Follows id t)
    (hc : (snapshots id t.history).IsChain Advance) {a b d : List Entry} {s₁ s₂ : SubmissionResult}
    (hh : t.history = a ++ .got id (some s₁) :: (b ++ .got id (some s₂) :: d)) : Later s₁ s₂ := by
  have h₁ := h.answers a _ s₁ hh
  have h₂ := h.answers (a ++ .got id (some s₁) :: b) d s₂ (by rw [hh]; simp)
  have hab : snapshots id (a ++ .got id (some s₁) :: b) = snapshots id a ++ snapshots id b := by
    rw [snapshots_append]
    rfl
  have hpair : (snapshots id a ++ snapshots id b).Pairwise Later := by
    have htrans : IsTrans SubmissionResult Later := ⟨fun _ _ _ => Later.trans⟩
    have hall := (hc.imp fun _ _ => Advance.later).pairwise
    rw [hh, show a ++ .got id (some s₁) :: (b ++ .got id (some s₂) :: d) =
      (a ++ .got id (some s₁) :: b) ++ .got id (some s₂) :: d by simp, snapshots_append, hab] at hall
    exact (List.pairwise_append.mp hall).1
  rw [hab] at h₂
  by_cases hb : snapshots id b = []
  · rw [hb, List.append_nil, h₁] at h₂
    obtain rfl := Option.some.inj h₂
    exact .refl s₁
  · have hm : s₂ ∈ snapshots id b := by
      rw [List.getLast?_append_of_ne_nil _ hb] at h₂
      exact List.mem_of_getLast? h₂
    exact (List.pairwise_append.mp hpair).2.2 s₁ (List.mem_of_getLast? h₁) s₂ hm

/-- Progress is never taken back, in any run of an environment in which no case after
the first throws: of two successful reads the later one has at least the status and
at least the case results of the earlier one. -/
theorem progress_never_taken_back {γ : Type} [DecidableEq γ] (cfg : CleanupConfig) (env : JudgeEnv)
    (id : Int) (request : SubmissionRequest) (hlate : ¬ LateThrow env id request)
    (retention capacity : Option Int) (calls : List (StoreCall × StoreInput)) (t : TracedStore)
    (ht : t = runCalls cfg (.start retention capacity) calls)
    (hn : creations t.history < 2 ^ 31 - 1)
    (hq : snapshots id t.history = [makeResult id .queued .pending])
    (others : γ → Prog (storeMachine cfg) (Except StdException Unit))
    (hothers : ∀ g, (others g).Uses (LeavesAlone id))
    (xs : List (Option γ × StoreInput)) (c : WorkerConfig cfg γ)
    (hr : Trace noRestart (freshIds id) (workerConfig cfg env id request t others) xs c)
    (a b d : List Entry) (s₁ s₂ : SubmissionResult)
    (hh : c.shared.history = a ++ .got id (some s₁) :: (b ++ .got id (some s₂) :: d)) :
    statusRank s₁.status ≤ statusRank s₂.status ∧ s₁.caseResults <+: s₂.caseResults := by
  have hc : Counted t := by
    subst ht
    exact runCalls_counted cfg retention capacity calls hn
  have hid : 0 < id := by
    by_contra hneg
    rw [hc.tracks.fresh id (.inr (by omega))] at hq
    cases hq
  have hpeek : t.store.peek id = some (makeResult id .queued .pending, none) :=
    hc.tracks.live id _ (by rw [hq]; rfl) rfl
  obtain ⟨l, final, hscript, _, _, hchain, hadv⟩ := processSubmission_script cfg env id request hid
  have hw := (working_start hothers hpeek hscript).trace hchain hr
  have hgrow : (snapshots id c.shared.history).IsChain Advance := by
    rw [hw.stored, hq, List.singleton_append]
    have htake := (hadv hlate).take (xs.countP (fun x => x.1.isNone) + 1)
    rwa [List.take_succ_cons] at htake
  have hl := ((hc.tracks.follows id).trace hr).later hgrow hh
  exact ⟨hl.rank, hl.cases⟩

def CreatesNothing (c : StoreCall) : Prop := ∀ request, c ≠ .createSubmission request

/-- No creation, no reuse of an id. -/
theorem freshIds_of_uses {cfg : CleanupConfig} {γ : Type} [DecidableEq γ] (id : Int)
    {init : WorkerConfig cfg γ} (h0 : ∀ t, (init.thread t).Uses CreatesNothing) :
    ∀ c, Reach noRestart (freshIds id) init c → ∀ t e, freshIds id c t e := by
  intro c hr t e request hhead
  have hu := hr.uses (P := fun _ => CreatesNothing) h0 (fun _ _ _ h => by cases h) t
  exact absurd rfl (hu.head hhead request)

theorem sampleThreads_use (count failing : Nat) (t : Option Unit) :
    ((workerConfig {} (sampleEnv count failing) 1 sampleRequest sampleStore sampleClient).thread
      t).Uses CreatesNothing := by
  have hget : CreatesNothing (.getResult 1) := fun _ h => by cases h
  cases t with
  | none =>
    have hp : ∀ r, (persistResult {} 1 r).run.Uses CreatesNothing := by
      intro r
      have hup : CreatesNothing (.updateResult 1 r) := fun _ h => by cases h
      exact ⟨hup, fun _ => trivial⟩
    exact processSubmission_uses hp _ _
  | some g => exact ⟨hget, fun _ => ⟨hget, fun _ => trivial⟩⟩

/-- The worker's first four updates, a query, its last update, a query. -/
def takenBackSchedule : List (Option Unit × StoreInput) :=
  [none, none, none, none, some (), none, some ()].map fun t => (t, ⟨0, 0, .stable⟩)

/-- The history of that schedule. -/
def takenBackHistory (count failing : Nat) : Option (List Entry) :=
  (run noRestart (workerConfig {} (sampleEnv count failing) 1 sampleRequest sampleStore sampleClient)
    takenBackSchedule).map fun c => c.shared.history

theorem takenBackHistory_trace {count failing : Nat} {h : List Entry}
    (hh : takenBackHistory count failing = some h) :
    ∃ c, Trace noRestart (freshIds 1)
      (workerConfig {} (sampleEnv count failing) 1 sampleRequest sampleStore sampleClient)
      takenBackSchedule c ∧ c.shared.history = h := by
  obtain ⟨c, hrun, hc⟩ := Option.map_eq_some_iff.mp hh
  exact ⟨c, trace_of_run (freshIds_of_uses 1 (sampleThreads_use count failing)) hrun, hc⟩

/-- The snapshot after the first case. -/
def firstCaseSnapshot : SubmissionResult :=
  { makeResult 1 .running .pending (ascii "accepted") with
    caseResults := [{ seqId := 1, verdict := .ac }] }

def firstCaseHistory : List Entry :=
  [.created 1, .updated 1 (makeResult 1 .preparing .pending) true,
   .updated 1 (makeResult 1 .compiling .pending) true,
   .updated 1 (makeResult 1 .running .pending) true, .updated 1 firstCaseSnapshot true]

theorem progress_never_taken_back_sample :
    ¬ LateThrow (sampleEnv 1 5) 1 sampleRequest ∧
    ∃ s₂, (.got 1 (some s₂)) ∈ (takenBackHistory 1 5).getD [] ∧
      s₂.status = .finished ∧ firstCaseSnapshot.caseResults <+: s₂.caseResults := by
  have hlate : ¬ LateThrow (sampleEnv 1 5) 1 sampleRequest := by
    rintro ⟨n, ex, hn, runner, cases, rs, c, _, hload, _, hget, _⟩
    obtain rfl := Except.ok.inj hload
    rw [List.getElem?_eq_none (by simpa using Nat.succ_le_of_lt hn)] at hget
    cases hget
  refine ⟨hlate, ?_⟩
  let final : SubmissionResult := { firstCaseSnapshot with status := .finished, verdict := .ac }
  have hh : takenBackHistory 1 5 = some (firstCaseHistory ++ .got 1 (some firstCaseSnapshot) ::
      ([.updated 1 final true] ++ .got 1 (some final) :: [])) := by decide
  obtain ⟨c, hr, hc⟩ := takenBackHistory_trace hh
  have hlater := progress_never_taken_back {} (sampleEnv 1 5) 1 sampleRequest hlate none none
    sampleCalls sampleStore rfl (by decide) rfl sampleClient sampleClient_uses _ c hr _ _ _ _ _ hc
  refine ⟨final, ?_, rfl, hlater.2⟩
  rw [hh]
  simp

/-- With a second case that throws, the results of the first are gone from the
terminal snapshot. -/
theorem progress_taken_back :
    ∃ (xs : List (Option Unit × StoreInput)) (c : WorkerConfig {} Unit)
      (a b d : List Entry) (s₁ s₂ : SubmissionResult),
      Trace noRestart (freshIds 1)
        (workerConfig {} (sampleEnv 2 1) 1 sampleRequest sampleStore sampleClient) xs c ∧
      c.shared.history = a ++ .got 1 (some s₁) :: (b ++ .got 1 (some s₂) :: d) ∧
      ¬ (statusRank s₁.status ≤ statusRank s₂.status ∧ s₁.caseResults <+: s₂.caseResults) := by
  let final := makeResult 1 .failed .systemError (ascii "runner failed")
  have hh : takenBackHistory 2 1 = some (firstCaseHistory ++ .got 1 (some firstCaseSnapshot) ::
      ([.updated 1 final true] ++ .got 1 (some final) :: [])) := by decide
  obtain ⟨c, hr, hc⟩ := takenBackHistory_trace hh
  refine ⟨takenBackSchedule, c, _, _, _, _, _, hr, hc, ?_⟩
  rintro ⟨_, hcases⟩
  exact absurd hcases (by decide)

end JudgeServer.Pipeline
