import JudgeServer.Runner.Isolation
import JudgeServer.Lib.Returns

/-!
# What the machine answered

The workers of `Isolation` once more, on a machine that keeps for each submission the
calls made for it together with their answers. The rules say what a part of a worker's
program adds to the record of the submission it is about; the other workers, which have
other submissions, add nothing to it.
-/

namespace JudgeServer.Runner

open JudgeServer.Common
open JudgeServer.Pipeline
open JudgeServer.Lib.Interleave

/-- An answered call. -/
structure Answered where
  call : HostCall
  reply : call.Reply

/-- The store, and for each submission the answered calls, oldest first. -/
structure Records where
  store : TracedStore
  answers : Int → List Answered := fun _ => []

def Records.note (s : Records) (id : Int) (x : Answered) : Records :=
  { s with answers := Function.update s.answers id (s.answers id ++ [x]) }

@[simp] theorem note_store (s : Records) (id : Int) (x : Answered) :
    (s.note id x).store = s.store := rfl

@[simp] theorem note_answers_self (s : Records) (id : Int) (x : Answered) :
    (s.note id x).answers id = s.answers id ++ [x] := by
  simp [Records.note]

theorem note_answers_other {s : Records} {id i : Int} (h : i ≠ id) (x : Answered) :
    (s.note id x).answers i = s.answers i := by
  simp [Records.note, h]

def recordMachine (cfg : CleanupConfig) : Machine Records JudgesInput where
  Op := JudgesCall
  Res := JudgesCall.Reply
  exec
    | .store c, e, s =>
        let r := perform cfg c e.store s.store
        some (r.1, { s with store := r.2 })
    | .host id c, e, s => some (e.reply c, s.note id ⟨c, e.reply c⟩)

section Workers

variable (cfg : CleanupConfig) (settings : RunnerSettings)
  (load : Int → Bytes → Except StdException (List RunnerCaseInput))

def recordedHost (id : Int) : Host (Prog (recordMachine cfg)) :=
  { settings with call := fun c => Prog.op (recordMachine cfg) (.host id c) }

def persistOnRecord (id : Int) (r : SubmissionResult) :
    ExceptT StdException (Prog (recordMachine cfg)) Bool :=
  ExceptT.lift (Prog.op (recordMachine cfg) (.store (.updateResult id r)))

def judgeOne (id : Int) (request : SubmissionRequest) :
    ExceptT StdException (Prog (recordMachine cfg)) Unit :=
  hostedSubmission (persistOnRecord cfg)
    (hostSurroundings (recordedHost cfg settings id) (load id)) id request

/-- The submissions a worker takes, one after the other. -/
def judgeInTurn : List (Int × SubmissionRequest) → Prog (recordMachine cfg) Unit
  | [] => pure ()
  | (id, request) :: rest => do
      let _ ← (judgeOne cfg settings load id request).run
      judgeInTurn rest

variable {τ : Type} (work : τ → List (Int × SubmissionRequest))

def recordsStart (store : TracedStore) : Config (recordMachine cfg) τ Unit where
  shared := { store }
  thread := fun w => judgeInTurn cfg settings load (work w)

def noSecondTurn : τ → Unit → Option (Prog (recordMachine cfg) Unit) := fun _ _ => none

end Workers

/-- The submissions of different workers are different. -/
def WorkApart {τ : Type} (work : τ → List (Int × SubmissionRequest)) : Prop :=
  ∀ w w', w ≠ w' → ∀ x ∈ work w, ∀ y ∈ work w', x.1 ≠ y.1

/-- A snapshot is only stored when `permitted` says so of the submission's record. -/
def recordContract (cfg : CleanupConfig) (own : List (Int × SubmissionRequest))
    (permitted : Int → SubmissionResult → List Answered → Prop) : Contract (recordMachine cfg) where
  allows := fun _ _ _ => True
  rely := fun _ s s' => ∀ x ∈ own, s'.answers x.1 = s.answers x.1
  pre
    | .store (.updateResult id r), s => permitted id r (s.answers id)
    | .store _, _ => True
    | .host id _, _ => ∃ x ∈ own, x.1 = id

section Rules

variable {cfg : CleanupConfig} {own : List (Int × SubmissionRequest)}
  {permitted : Int → SubmissionResult → List Answered → Prop} {settings : RunnerSettings}
  {id : Int} {α β : Type}

/-- A part of the judging of `id`, started on the record `l`, ends with a result and a
record of which `Q` holds. -/
def Notes (cfg : CleanupConfig) (own : List (Int × SubmissionRequest))
    (permitted : Int → SubmissionResult → List Answered → Prop) (id : Int)
    (p : Prog (recordMachine cfg) α) (l : List Answered) (Q : α → List Answered → Prop) : Prop :=
  ∀ s : Records, s.answers id = l →
    Safe (recordContract cfg own permitted) (fun a s' => Q a (s'.answers id)) p s

theorem stable_answers {o : Option JudgesCall} (hid : ∃ x ∈ own, x.1 = id)
    (A : List Answered → Prop) :
    Stable ((recordContract cfg own permitted).rely o) fun s => A (s.answers id) := by
  intro s s' h hrely
  obtain ⟨x, hx, rfl⟩ := hid
  rw [hrely x hx]
  exact h

variable {l : List Answered} {Q : α → List Answered → Prop}

theorem Notes.mono {p : Prog (recordMachine cfg) α} {R : α → List Answered → Prop}
    (h : Notes cfg own permitted id p l R) (hq : ∀ a l', R a l' → Q a l') :
    Notes cfg own permitted id p l Q :=
  fun s hs => (h s hs).mono fun a _ => hq a _

theorem Notes.bind {p : Prog (recordMachine cfg) β} {f : β → Prog (recordMachine cfg) α}
    {R : β → List Answered → Prop} (hp : Notes cfg own permitted id p l R)
    (hf : ∀ b l', R b l' → Notes cfg own permitted id (f b) l' Q) :
    Notes cfg own permitted id (p.bind f) l Q := by
  intro s hs
  apply Safe.bind
  exact (hp s hs).mono fun b s' hr => hf b _ hr s' rfl

theorem notes_ret (hid : ∃ x ∈ own, x.1 = id) {a : α} (h : Q a l) :
    Notes cfg own permitted id (.ret a) l Q :=
  fun _ hs => .ret (fun s => Q a (s.answers id)) (stable_answers hid (Q a)) (hs ▸ h) fun _ h => h

/-- Sequencing where an exception ends the whole. -/
theorem Notes.except_bind {p : ExceptT StdException (Prog (recordMachine cfg)) β}
    {f : β → ExceptT StdException (Prog (recordMachine cfg)) α}
    {R : Except StdException β → List Answered → Prop}
    {Q : Except StdException α → List Answered → Prop} (hid : ∃ x ∈ own, x.1 = id)
    (hp : Notes cfg own permitted id p.run l R)
    (hf : ∀ b l', R (.ok b) l' → Notes cfg own permitted id (f b).run l' Q)
    (herr : ∀ e l', R (.error e) l' → Q (.error e) l') :
    Notes cfg own permitted id (p >>= f).run l Q := by
  refine Notes.bind hp ?_
  intro x l' hx
  cases x with
  | ok b => exact hf b l' hx
  | error e => exact notes_ret hid (herr e l' hx)

/-- A host call adds itself and its answer. -/
theorem notes_call (hid : ∃ x ∈ own, x.1 = id) {c : HostCall}
    {k : c.Reply → Prog (recordMachine cfg) α}
    (hk : ∀ r, Notes cfg own permitted id (k r) (l ++ [⟨c, r⟩]) Q) :
    Notes cfg own permitted id (.call (M := recordMachine cfg) (.host id c) k) l Q := by
  intro s hs
  refine .call (fun s => s.answers id = l) (stable_answers hid (· = l)) hs (fun _ _ => hid) ?_
  intro s e r s' hl _ hexec
  cases hexec
  exact hk (e.reply c) _ (by rw [note_answers_self, hl])

/-- An update of the store has to be permitted, and leaves the record as it is. -/
theorem notes_persist (hid : ∃ x ∈ own, x.1 = id) {r : SubmissionResult}
    {f : Bool → ExceptT StdException (Prog (recordMachine cfg)) α}
    {Q : Except StdException α → List Answered → Prop} (hpermitted : permitted id r l)
    (hf : ∀ b, Notes cfg own permitted id (f b).run l Q) :
    Notes cfg own permitted id (persistOnRecord cfg id r >>= f).run l Q := by
  intro s hs
  refine .call (fun s => s.answers id = l) (stable_answers hid (· = l)) hs ?_ ?_
  · intro s hl
    change permitted id r (s.answers id)
    rw [hl]
    exact hpermitted
  · intro s e b s' hl _ hexec
    cases hexec
    exact hf _ _ hl

/-- A host call whose answer is a value, and what follows. -/
theorem notes_lift (hid : ∃ x ∈ own, x.1 = id) {c : HostCall}
    {f : c.Reply → ExceptT StdException (Prog (recordMachine cfg)) α}
    {Q : Except StdException α → List Answered → Prop}
    (hf : ∀ r, Notes cfg own permitted id (f r).run (l ++ [⟨c, r⟩]) Q) :
    Notes cfg own permitted id
      ((ExceptT.lift ((recordedHost cfg settings id).call c) :
        ExceptT StdException (Prog (recordMachine cfg)) c.Reply) >>= f).run l Q :=
  notes_call hid hf

theorem notes_pathExists (hid : ∃ x ∈ own, x.1 = id) {path : Bytes}
    {f : Bool → ExceptT StdException (Prog (recordMachine cfg)) α}
    {Q : Except StdException α → List Answered → Prop}
    (hf : ∀ found, Notes cfg own permitted id (f found).run
      (l ++ [⟨.pathExists path, (.ok found : Except StdException Bool)⟩]) Q)
    (herr : ∀ e l', Q (.error e) l') :
    Notes cfg own permitted id (pathExists (recordedHost cfg settings id) path >>= f).run l Q := by
  refine notes_call hid fun r => ?_
  match r with
  | .ok found => exact hf found
  | .error e => exact notes_ret hid (herr e _)

/-- The temporary directory may not be found. -/
theorem notes_runnerWorkDirFor (hid : ∃ x ∈ own, x.1 = id) {request : SubmissionRequest}
    {f : Bytes → ExceptT StdException (Prog (recordMachine cfg)) α}
    {Q : Except StdException α → List Answered → Prop}
    (hf : Notes cfg own permitted id (f (workDirIn settings.temp request)).run
      (l ++ [⟨.tempDirectoryPath, (.ok () : Except StdException Unit)⟩]) Q)
    (herr : ∀ e : StdException, Q (.error e)
      (l ++ [⟨.tempDirectoryPath, (.error e : Except StdException Unit)⟩])) :
    Notes cfg own permitted id
      (runnerWorkDirFor (recordedHost cfg settings id) request >>= f).run l Q := by
  unfold runnerWorkDirFor
  rw [bind_assoc]
  refine notes_call hid fun r => ?_
  match r with
  | .ok () => exact hf
  | .error e => exact notes_ret hid (herr e)

theorem notes_filePathFor (hid : ∃ x ∈ own, x.1 = id) {request : SubmissionRequest} {name : Bytes}
    {f : Bytes → ExceptT StdException (Prog (recordMachine cfg)) α}
    {Q : Except StdException α → List Answered → Prop}
    (hf : ∀ l', Notes cfg own permitted id
      (f (Lib.LexicalPath.join (workDirIn settings.temp request) name)).run l' Q)
    (herr : ∀ e l', Q (.error e) l') :
    Notes cfg own permitted id
      (filePathFor (recordedHost cfg settings id) request name >>= f).run l Q := by
  unfold filePathFor
  rw [bind_assoc]
  exact notes_runnerWorkDirFor hid (hf _) fun e => herr e _

/-- A call made on the machine for `id`. -/
def JudgesCall.HostedFor (id : Int) (o : JudgesCall) : Prop := ∃ c, o = .host id c

theorem confined_hosted (cfg : CleanupConfig) (settings : RunnerSettings) (id : Int)
    (request : SubmissionRequest) :
    Confined (recordedHost cfg settings id) (JudgesCall.HostedFor id) request :=
  fun c _ => ⟨⟨c, rfl⟩, fun _ => trivial⟩

/-- A record is only ever added to. -/
theorem notes_of_uses (hid : ∃ x ∈ own, x.1 = id) {p : Prog (recordMachine cfg) α}
    (hu : p.Uses (JudgesCall.HostedFor id)) :
    Notes cfg own permitted id p l fun _ l' => l <+: l' := by
  intro s hs
  refine Safe.of_uses (fun s => l <+: s.answers id) hu
    (fun _ => stable_answers hid (l <+: ·)) (by rw [hs]) ?_ ?_
  · rintro _ s ⟨c, rfl⟩ _
    exact hid
  · rintro _ s e r s' ⟨c, rfl⟩ hl _ hexec
    cases hexec
    rw [note_answers_self]
    exact hl.trans (List.prefix_append _ _)

/-- A part whose answers do not matter for what follows. -/
theorem notes_skip (hid : ∃ x ∈ own, x.1 = id)
    {p : ExceptT StdException (Prog (recordMachine cfg)) β}
    {f : β → ExceptT StdException (Prog (recordMachine cfg)) α}
    {Q : Except StdException α → List Answered → Prop}
    (hu : p.run.Uses (JudgesCall.HostedFor id))
    (hf : ∀ b l', l <+: l' → Notes cfg own permitted id (f b).run l' Q)
    (herr : ∀ e l', Q (.error e) l') : Notes cfg own permitted id (p >>= f).run l Q :=
  Notes.except_bind hid (notes_of_uses hid hu) hf fun e l' _ => herr e l'

theorem Notes.and {p : Prog (recordMachine cfg) α} {R : α → List Answered → Prop}
    (h : Notes cfg own permitted id p l Q) (h' : Notes cfg own permitted id p l R) :
    Notes cfg own permitted id p l fun a l' => Q a l' ∧ R a l' :=
  fun s hs => (h s hs).and rfl rfl (h' s hs)

theorem Notes.returns {p : Prog (recordMachine cfg) α} {P : α → Prop}
    (h : Notes cfg own permitted id p l Q) (hp : p.Returns P) :
    Notes cfg own permitted id p l fun a l' => Q a l' ∧ P a :=
  fun s hs => (h s hs).returns hp

end Rules

end JudgeServer.Runner
