import JudgeServer.Runner.WorkDirs
import JudgeServer.Dispatch.JudgedOnce

/-!
# Submissions and each other's files

The ids handed out in a run of the pool, and workers that judge submissions side by side
on one machine, with a record of the calls made for each.
-/

namespace JudgeServer.Runner

open JudgeServer.Common
open JudgeServer.Pipeline
open JudgeServer.Dispatch
open JudgeServer.Lib.Interleave
open JudgeServer.Lib.LexicalPath

/-- The ids are counted from one. -/
def InOrder (t : TracedStore) : Prop :=
  handedOut t.history = (List.range (creations t.history)).map fun i : Nat => 1 + (i : Int)

theorem InOrder.perform {t : TracedStore} (h : InOrder t) (hc : Counted t) (cfg : CleanupConfig)
    (q : StoreCall) (i : StoreInput) : InOrder (perform cfg q i t).2 := by
  obtain ⟨e, hh, heffect⟩ := perform_effect cfg q i t
  unfold InOrder at h ⊢
  rw [hh]
  cases heffect with
  | created _ _ _ =>
    rw [creations_snoc_created, List.range_succ, List.map_append, ← h, hc.next]
    exact handedOut_snoc_created _ _
  | refused _ _ _ _ =>
    rw [creations_snoc_other _ (by simp), ← h]
    exact handedOut_snoc_other _ (by simp)
  | stored _ _ _ _ _ _ _ _ _ _ =>
    rw [creations_snoc_other _ (by simp), ← h]
    exact handedOut_snoc_other _ (by simp)
  | got _ _ _ =>
    rw [creations_snoc_other _ (by simp), ← h]
    exact handedOut_snoc_other _ (by simp)

theorem InOrder.nodup {t : TracedStore} (h : InOrder t) : (handedOut t.history).Nodup := by
  rw [h]
  refine List.Nodup.map ?_ List.nodup_range
  intro a b hab
  simpa using hab

theorem InOrder.positive {t : TracedStore} (h : InOrder t) : ∀ id ∈ handedOut t.history, 0 < id := by
  rw [h]
  intro id hid
  obtain ⟨i, _, rfl⟩ := List.mem_map.mp hid
  omega

section Pool

variable {cfg : CleanupConfig} {n : Nat} {γ : Type} [DecidableEq γ] {notifier : Bool}
  {env : Nat → JudgeEnv} {commands : γ → List Command} {retention capacity : Option Int}
  {c : PoolConfig cfg n γ}

theorem inOrder_of_reach (hr : Reach (nextTurn cfg n γ notifier env commands) anyStep
      (poolStart cfg n γ notifier env commands (TracedStore.start retention capacity)) c)
    (hb : c.shared.bounded) : InOrder c.shared.store := by
  refine (reach_bounded hr hb).invariant (fun s : Pool n γ => InOrder s.store) ?_ ?_
  · rfl
  intro c t e o k r s' hc _ _ hexec h
  have hcounted := (owned_of_bounded hc).counted
  obtain heq | ⟨q, heq⟩ := serve_store (exec_serve hexec).1
  · rw [heq]
    exact h
  · rw [heq]
    exact h.perform hcounted cfg q e.store

end Pool

/-- The store, and the calls made for each submission. -/
structure Judges where
  store : TracedStore
  touched : List (Int × HostCall) := []

inductive JudgesCall where
  | store (c : StoreCall)
  | host (submissionId : Int) (c : HostCall)

def JudgesCall.Reply : JudgesCall → Type
  | .store c => c.Reply
  | .host _ c => c.Reply

structure JudgesInput where
  store : StoreInput
  reply : (c : HostCall) → c.Reply

def judgesMachine (cfg : CleanupConfig) : Machine Judges JudgesInput where
  Op := JudgesCall
  Res := JudgesCall.Reply
  exec
    | .store c, e, s =>
        let r := perform cfg c e.store s.store
        some (r.1, { s with store := r.2 })
    | .host id c, e, s => some (e.reply c, { s with touched := s.touched ++ [(id, c)] })

section Judges

variable (cfg : CleanupConfig) (settings : RunnerSettings)
  (load : Int → Bytes → Except StdException (List RunnerCaseInput))

/-- The machine as the runner of one submission sees it. -/
def hostOf (id : Int) : Host (Prog (judgesMachine cfg)) :=
  { settings with call := fun c => Prog.op (judgesMachine cfg) (.host id c) }

def persistOnJudges (id : Int) (r : SubmissionResult) :
    ExceptT StdException (Prog (judgesMachine cfg)) Bool :=
  ExceptT.lift (Prog.op (judgesMachine cfg) (.store (.updateResult id r)))

/-- The submissions a worker takes, one after the other. -/
def judgeAll : List (Int × SubmissionRequest) → Prog (judgesMachine cfg) Unit
  | [] => pure ()
  | (id, request) :: rest => do
      let _ ← (hostedSubmission (persistOnJudges cfg)
        (hostSurroundings (hostOf cfg settings id) (load id)) id request).run
      judgeAll rest

variable {τ : Type} [DecidableEq τ] (work : τ → List (Int × SubmissionRequest))

def judgesStart (store : TracedStore) : Config (judgesMachine cfg) τ Unit where
  shared := { store }
  thread := fun w => judgeAll cfg settings load (work w)

def onceOnly : τ → Unit → Option (Prog (judgesMachine cfg) Unit) := fun _ _ => none

/-- A host call keeps to the directory of the submission it is made for. -/
def JudgesCall.Kept (settings : RunnerSettings) : JudgesCall → Prop
  | .store _ => True
  | .host id c => ∀ request,
      HostCall.StaysIn (workDirIn settings.temp (executionRequest id request)) c

variable {cfg settings load work}

theorem judgeAll_uses (l : List (Int × SubmissionRequest)) :
    (judgeAll cfg settings load l).Uses (JudgesCall.Kept settings) := by
  induction l with
  | nil => trivial
  | cons x rest ih =>
    refine Prog.Uses.bind (hostedSubmission_uses ?_ (load x.1) x.2 ?_) fun _ => ih
    · exact fun r => ⟨trivial, fun _ => trivial⟩
    · exact fun c hc => ⟨fun _ => hc, fun _ => trivial⟩

/-- Every call on record keeps to its submission's directory. -/
def AllKept (settings : RunnerSettings) (s : Judges) : Prop :=
  ∀ x ∈ s.touched, JudgesCall.Kept settings (.host x.1 x.2)

theorem allKept_of_reach {store : TracedStore} {d : Config (judgesMachine cfg) τ Unit}
    (hd : Reach (onceOnly cfg) anyStep (judgesStart cfg settings load work store) d) :
    AllKept settings d.shared := by
  refine hd.invariant (AllKept settings) (fun x hx => absurd hx List.not_mem_nil) ?_
  intro c t e o k r s' hc _ hk hexec h
  have huses := hc.uses (P := fun _ => JudgesCall.Kept settings) (fun t => judgeAll_uses (work t))
    (fun _ _ _ h => by cases h) t
  rw [hk] at huses
  cases o with
  | store q =>
    cases hexec
    exact h
  | host id q =>
    cases hexec
    intro x hx
    rw [List.mem_append, List.mem_singleton] at hx
    obtain hx | rfl := hx
    · exact h x hx
    · exact huses.1

end Judges

section Apart

variable {cfg : CleanupConfig} {n : Nat} {γ : Type} [DecidableEq γ] {notifier : Bool}
  {env : Nat → JudgeEnv} {commands : γ → List Command} {retention capacity : Option Int}
  {c : PoolConfig cfg n γ} {settings : RunnerSettings}
  {load : Int → Bytes → Except StdException (List RunnerCaseInput)} {τ : Type} [DecidableEq τ]
  {work : τ → List (Int × SubmissionRequest)} {store : TracedStore}
  {d : Config (judgesMachine cfg) τ Unit}

end Apart

section Sample

def codedRequest : SubmissionRequest := ⟨7, ascii "1000", .cpp, ascii "int main(){}"⟩

/-- Two workers, each with one submission; both clients sent the same `uuid`. -/
def twoWorkers (first : Bool) : List (Int × SubmissionRequest) :=
  if first then [(1, codedRequest)] else [(2, codedRequest)]

def tmpSettings : RunnerSettings where
  temp := ascii "/tmp"

def twoRecords : TracedStore := runCalls {} (.start none none) (sampleCalls ++ sampleCalls)

/-- A machine on which every call succeeds. -/
def obligingReply : (c : HostCall) → c.Reply
  | .tempDirectoryPath => .ok ()
  | .pathExists _ => .ok true
  | .removeAll _ => ()
  | .createDirectories _ => false
  | .openOutput _ => true
  | .writeOutput _ _ => ()
  | .readFile _ => []
  | .permissions _ => .ok ()
  | .runCommandCaptureStdout _ _ => .ok []
  | .system _ _ => (0 : Int)
  | .runSjudger _ => ({} : Sjudge.JudgeResult)

/-- The two workers in turn, up to the removal of old work directories. -/
def inTurns : List (Bool × JudgesInput) :=
  [true, false, true, false, true, false, true, false, true, false].map fun t =>
    (t, ⟨⟨0, 0, .stable⟩, obligingReply⟩)

/-- The call on record removes the work directory of submission 1. -/
def removesFirst (x : Int × HostCall) : Bool :=
  match x with
  | (id, .removeAll path) => id = 1 && path = workDirIn tmpSettings.temp (executionRequest 1 codedRequest)
  | _ => false

end Sample

end JudgeServer.Runner
