import JudgeServer.Sjudge.Limits

/-!
# The plan of the child's setup

`setupPlan` lists, for a configuration, the calls between `fork` and `execve` in their
order, with the answer each of them needs. The setup code reaches the user's program
exactly when every answer is the one the plan needs, and then it has made the calls of
the plan and no others.
-/

namespace JudgeServer.Sjudge

open JudgeServer.Lib.Decimal (decimal decimalInt)

/-- The answers that let the setup go on. -/
inductive Need where
  | any
  | zero
  | nonzero
  | positive
  | nonnegative
  /-- The descriptor `fd`. -/
  | opened (fd : Int)
  | value (v : Int)
  deriving DecidableEq, Repr

def Need.Met : Need → Int → Prop
  | any, _ => True
  | zero, a => a = 0
  | nonzero, a => a ≠ 0
  | positive, a => 0 < a
  | nonnegative, a => 0 ≤ a
  | opened fd, a => a = fd ∧ 0 ≤ fd
  | value v, a => a = v

abbrev Plan := List (SetupCall × Need)

/-- After the calls `calls`, the kernel answers the calls of the plan one after the other as
they need it. -/
def Granted (kernel : Kernel) : List SetupCall → Plan → Prop
  | _, [] => True
  | calls, (c, need) :: rest =>
      (∃ a, kernel calls c = .returned a ∧ need.Met a) ∧ Granted kernel (c :: calls) rest

/-- The calls made once a plan has been carried out, latest first. -/
def Plan.after (plan : Plan) (calls : List SetupCall) : List SetupCall :=
  (plan.map Prod.fst).reverse ++ calls

def redirectPlan (path : Bytes) (mode : OpenMode) (targetFd fd : Int) : Plan :=
  [(.open path mode, .opened fd), (.dup2 fd targetFd, .nonnegative), (.close fd, .any)]

/-- Equal output and error paths share one descriptor. -/
def outputPlan (config : JudgeConfig) (stdout stderr : Int) : Plan :=
  if config.outputPath = config.errorPath then
    [(.open config.outputPath .writeCreateTruncate, .opened stdout),
      (.dup2 stdout 1, .nonnegative), (.dup2 stdout 2, .nonnegative), (.close stdout, .any)]
  else
    redirectPlan config.outputPath .writeCreateTruncate 1 stdout ++
    redirectPlan config.errorPath .writeCreateTruncate 2 stderr

def streamsPlan (config : JudgeConfig) (stdin stdout stderr : Int) : Plan :=
  redirectPlan config.inputPath .readOnly 0 stdin ++ outputPlan config stdout stderr

def workingDirectoryPlan (config : JudgeConfig) : Plan :=
  if config.cwd = [] then [] else [(.chdir config.cwd, .zero)]

def limitPlan (resource : Resource) (value : UInt64) : Plan :=
  if value = 0 then [] else [(.setrlimit resource value, .zero)]

def cpuSeconds (config : JudgeConfig) : UInt64 :=
  if config.maxCpuTimeMs > 0 then ((config.maxCpuTimeMs + 999) / 1000).toUInt64 else 0

def limitsPlan (config : JudgeConfig) : Plan :=
  limitPlan .stack config.maxStackBytes ++ limitPlan .addressSpace config.maxMemoryBytes ++
  limitPlan .fileSize config.maxOutputBytes ++ limitPlan .cpu (cpuSeconds config)

def controlFilePlan (dir : Bytes) (file : ControlFile) (text : Bytes) : Plan :=
  [(.openStream dir file, .nonnegative), (.writeStream file text, .nonnegative),
    (.closeStream file, .any)]

def optionalLimitPlan (dir : Bytes) (file : ControlFile) (value : UInt64) : Plan :=
  if value = 0 then [] else controlFilePlan dir file (decimal value.toNat)

def cpuMaxPlan (config : JudgeConfig) : Plan :=
  if config.cgroupCpuMaxQuotaUs > 0 then
    controlFilePlan config.cgroupPath .cpuMax
      (decimal config.cgroupCpuMaxQuotaUs.toNat ++ ascii " " ++
        decimal (if config.cgroupCpuMaxPeriodUs > 0 then config.cgroupCpuMaxPeriodUs
          else 100000).toNat)
  else []

/-- The process joins the group last, under its own number. -/
def cgroupPlan (config : JudgeConfig) (pid : Int) : Plan :=
  if config.cgroupPath = [] then []
  else
    (.isDirectory config.cgroupPath, .positive) ::
    (optionalLimitPlan config.cgroupPath .memoryMax config.cgroupMemoryMaxBytes ++
    optionalLimitPlan config.cgroupPath .pidsMax config.cgroupPidsMax.toUInt64 ++
    cpuMaxPlan config ++
    (.getpid, .value pid) ::
    controlFilePlan config.cgroupPath .cgroupProcs (decimalInt pid))

def whenever (c : Bool) (plan : Plan) : Plan := if c then plan else []

/-- The user is given up last: the other two need its rights. -/
def privilegePlan (config : JudgeConfig) : Plan :=
  whenever config.clearSupplementaryGroups [(.setgroups, .zero)] ++
  whenever (config.runGid != 0) [(.setgid config.runGid, .zero)] ++
  whenever (config.runUid != 0) [(.setuid config.runUid, .zero)]

def rulesPlan (rules : List DeniedSyscall) : Plan :=
  rules.map fun syscall => (.seccompRuleAdd syscall, .zero)

def networkSyscalls : List DeniedSyscall :=
  [.socket, .connect, .accept, .accept4, .bind, .listen, .sendto, .recvfrom, .sendmsg, .recvmsg,
    .shutdown]

def processSpawnSyscalls : List DeniedSyscall := [.clone, .fork, .vfork, .clone3]

def seccompPlan (libseccomp : Bool) (config : JudgeConfig) : Plan :=
  whenever (libseccomp && config.enableSeccomp)
    ((.seccompInit, .nonzero) ::
    (whenever config.seccompDenyNetwork (rulesPlan networkSyscalls) ++
    whenever config.seccompDenyProcessSpawn (rulesPlan processSpawnSyscalls) ++
    [(.seccompLoad, .zero), (.seccompRelease, .any)]))

def execPlan (config : JudgeConfig) : Plan :=
  [(.execve config.exePath (buildArgv config), .nonnegative)]

/-- What the kernel answers with where the plan depends on it. -/
structure Handles where
  stdin : Int
  stdout : Int
  stderr : Int
  pid : Int
  deriving DecidableEq, Repr

def setupPlan (libseccomp : Bool) (config : JudgeConfig) (handles : Handles) : Plan :=
  workingDirectoryPlan config ++
    (streamsPlan config handles.stdin handles.stdout handles.stderr ++ (limitsPlan config ++
      (cgroupPlan config handles.pid ++ (privilegePlan config ++ (seccompPlan libseccomp config ++
        execPlan config)))))

section Carried

variable {kernel : Kernel} {calls calls' : List SetupCall} {α β : Type}

/-- The plan is granted from `calls` on and leads to `calls'`. -/
def Carried (kernel : Kernel) (calls : List SetupCall) (plan : Plan)
    (calls' : List SetupCall) : Prop :=
  Granted kernel calls plan ∧ calls' = plan.after calls

@[simp] theorem carried_nil : Carried kernel calls [] calls' ↔ calls' = calls := by
  simp [Carried, Granted, Plan.after]

theorem carried_cons {c : SetupCall} {need : Need} {rest : Plan} :
    Carried kernel calls ((c, need) :: rest) calls' ↔
      (∃ a, kernel calls c = .returned a ∧ need.Met a) ∧
        Carried kernel (c :: calls) rest calls' := by
  simp [Carried, Granted, Plan.after, and_assoc]

theorem carried_append {p q : Plan} :
    Carried kernel calls (p ++ q) calls' ↔
      ∃ mid, Carried kernel calls p mid ∧ Carried kernel mid q calls' := by
  induction p generalizing calls with
  | nil => simp
  | cons step rest ih =>
    obtain ⟨c, need⟩ := step
    rw [List.cons_append, carried_cons, ih]
    simp only [carried_cons, and_assoc, exists_and_left]

end Carried

section Steps

variable {kernel : Kernel} {calls calls' : List SetupCall} {α β : Type}

theorem bind_ok {p : Child α} {f : α → Child β} {b : β} :
    (p >>= f) calls = .ok (b, calls') ↔
      ∃ a mid, p calls = .ok (a, mid) ∧ f a mid = .ok (b, calls') := by
  constructor
  · exact bind_returned
  · rintro ⟨a, mid, hp, hf⟩
    change (p calls >>= fun r => f r.1 r.2 : Except ChildStop _) = _
    rw [hp]
    exact hf

theorem pure_ok {a b : α} : (pure a : Child α) calls = .ok (b, calls') ↔ a = b ∧ calls' = calls := by
  constructor
  · intro h
    obtain ⟨rfl, rfl⟩ := Prod.mk.inj (Except.ok.inj h)
    exact ⟨rfl, rfl⟩
  · rintro ⟨rfl, rfl⟩
    rfl

theorem call_ok {c : SetupCall} {a : Int} :
    call kernel c calls = .ok (a, calls') ↔ kernel calls c = .returned a ∧ calls' = c :: calls := by
  unfold call
  cases kernel calls c with
  | returned value => simp [Prod.ext_iff, eq_comm]
  | killed signal => simp

/-- `p` returns `a` exactly when one of the plans is granted, and has then carried it out. -/
def FollowsSome {ι : Type} (kernel : Kernel) (p : Child α) (a : α) (plan : ι → Plan) : Prop :=
  ∀ calls calls', p calls = .ok (a, calls') ↔ ∃ i, Carried kernel calls (plan i) calls'

abbrev Follows (kernel : Kernel) (p : Child α) (a : α) (plan : Plan) : Prop :=
  FollowsSome kernel p a fun _ : Unit => plan

theorem Follows.iff {p : Child α} {a : α} {plan : Plan} (h : Follows kernel p a plan) :
    p calls = .ok (a, calls') ↔ Carried kernel calls plan calls' := by
  rw [h calls calls']
  exact exists_const Unit

theorem follows_of_iff {p : Child α} {a : α} {plan : Plan}
    (h : ∀ calls calls', p calls = .ok (a, calls') ↔ Carried kernel calls plan calls') :
    Follows kernel p a plan := by
  intro calls calls'
  rw [h calls calls']
  exact (exists_const Unit).symm

/-- The same plans under other names. -/
theorem FollowsSome.reindex {ι κ : Type} {p : Child α} {a : α} {plan : ι → Plan} {plan' : κ → Plan}
    (h : FollowsSome kernel p a plan) (e : κ → ι) (he : ∀ k, plan (e k) = plan' k)
    (hsurj : Function.Surjective e) : FollowsSome kernel p a plan' := by
  intro calls calls'
  rw [h calls calls', hsurj.exists]
  simp only [he]

theorem follows_pure (a : α) : Follows kernel (pure a) a [] := by
  apply follows_of_iff
  intro calls calls'
  rw [pure_ok, carried_nil]
  simp

/-- `p` and what follows it, when what follows can only return `b` after `a`. -/
theorem FollowsSome.bind {ι κ : Type} {p : Child α} {f : α → Child β} {a : α} {b : β}
    {plan : ι → Plan} {rest : κ → Plan} (hp : FollowsSome kernel p a plan)
    (hstop : ∀ x, x ≠ a → ∀ mid calls', f x mid ≠ .ok (b, calls'))
    (hf : FollowsSome kernel (f a) b rest) :
    FollowsSome kernel (p >>= f) b fun i : ι × κ => plan i.1 ++ rest i.2 := by
  intro calls calls'
  rw [bind_ok]
  simp only [carried_append, Prod.exists]
  constructor
  · rintro ⟨x, mid, hx, hrest⟩
    by_cases hxa : x = a
    · rw [hxa] at hx hrest
      obtain ⟨i, hi⟩ := (hp _ _).mp hx
      obtain ⟨k, hk⟩ := (hf _ _).mp hrest
      exact ⟨i, k, mid, hi, hk⟩
    · exact absurd hrest (hstop x hxa _ _)
  · rintro ⟨i, k, mid, hi, hk⟩
    exact ⟨a, mid, (hp _ _).mpr ⟨i, hi⟩, (hf _ _).mpr ⟨k, hk⟩⟩

theorem FollowsSome.seq {ι κ : Type} {p : Child Unit} {q : Child β} {b : β} {plan : ι → Plan}
    {rest : κ → Plan} (hp : FollowsSome kernel p () plan) (hq : FollowsSome kernel q b rest) :
    FollowsSome kernel (do p; q) b fun i : ι × κ => plan i.1 ++ rest i.2 :=
  hp.bind (fun _ hne => absurd rfl hne) hq

theorem Follows.bind {p : Child α} {f : α → Child β} {a : α} {b : β} {plan rest : Plan}
    (hp : Follows kernel p a plan)
    (hstop : ∀ x, x ≠ a → ∀ mid calls', f x mid ≠ .ok (b, calls'))
    (hf : Follows kernel (f a) b rest) : Follows kernel (p >>= f) b (plan ++ rest) :=
  (FollowsSome.bind hp hstop hf).reindex (fun _ => ((), ())) (fun _ => rfl) fun _ => ⟨(), rfl⟩

theorem Follows.seq {p : Child Unit} {q : Child β} {b : β} {plan rest : Plan}
    (hp : Follows kernel p () plan) (hq : Follows kernel q b rest) :
    Follows kernel (do p; q) b (plan ++ rest) :=
  hp.bind (fun _ hne => absurd rfl hne) hq

theorem Follows.whenever {c : Prop} [Decidable c] {p : Child α} {a : α} {plan : Plan}
    (hp : Follows kernel p a plan) :
    Follows kernel (if c then p else pure a) a (if c then plan else []) := by
  by_cases h : c
  · rw [if_pos h, if_pos h]
    exact hp
  · rw [if_neg h, if_neg h]
    exact follows_pure a

theorem Follows.unless {c : Prop} [Decidable c] {p : Child α} {a : α} {plan : Plan}
    (hp : Follows kernel p a plan) :
    Follows kernel (if c then pure a else p) a (if c then [] else plan) := by
  by_cases h : c
  · rw [if_pos h, if_pos h]
    exact follows_pure a
  · rw [if_neg h, if_neg h]
    exact hp

/-- A call whose answer decides between going on with `q` and not returning `b`. -/
theorem test_follows {c : SetupCall} {need : Need} {f : Int → Child β} {q : Child β} {b : β}
    {rest : Plan} (hgo : ∀ a, need.Met a → f a = q)
    (hstop : ∀ a, ¬ need.Met a → ∀ mid calls', f a mid ≠ .ok (b, calls'))
    (hq : Follows kernel q b rest) :
    Follows kernel (call kernel c >>= f) b ((c, need) :: rest) := by
  apply follows_of_iff
  intro calls calls'
  rw [bind_ok, carried_cons]
  constructor
  · rintro ⟨a, mid, hcall, h⟩
    obtain ⟨hanswer, rfl⟩ := call_ok.mp hcall
    by_cases hmet : need.Met a
    · rw [hgo a hmet] at h
      exact ⟨⟨a, hanswer, hmet⟩, hq.iff.mp h⟩
    · exact absurd h (hstop a hmet _ _)
  · rintro ⟨⟨a, hanswer, hmet⟩, h⟩
    refine ⟨a, c :: calls, call_ok.mpr ⟨hanswer, rfl⟩, ?_⟩
    rw [hgo a hmet]
    exact hq.iff.mpr h

/-- A call whose answer is not looked at. -/
theorem call_follows {c : SetupCall} {q : Child β} {b : β} {rest : Plan}
    (hq : Follows kernel q b rest) :
    Follows kernel (do let _ ← call kernel c; q) b ((c, .any) :: rest) :=
  test_follows (fun _ _ => rfl) (fun _ h => absurd trivial h) hq

theorem exitIf_follows {bad : Prop} [Decidable bad] {step : SetupStep} {code : JudgeResultId}
    (h : ¬ bad) : exitIf bad step code = pure () := if_neg h

theorem exitIf_stops {bad : Prop} [Decidable bad] {step : SetupStep} {code : JudgeResultId}
    (h : bad) (mid calls' : List SetupCall) : exitIf bad step code mid ≠ .ok ((), calls') :=
  fun heq => (exitIf_returned heq).1 h

/-- A call that has to succeed with zero. -/
theorem zeroOrExit_follows {c : SetupCall} {step : SetupStep} {code : JudgeResultId} :
    Follows kernel (do exitIf ((← call kernel c) ≠ 0) step code) () [(c, .zero)] :=
  test_follows (fun _ h => exitIf_follows (not_not.mpr h)) (fun _ h => exitIf_stops h)
    (follows_pure ())

/-- A call that has to answer with something other than an error. -/
theorem nonnegativeOrExit_follows {c : SetupCall} {step : SetupStep} {code : JudgeResultId} :
    Follows kernel (do exitIf ((← call kernel c) < 0) step code) () [(c, .nonnegative)] :=
  test_follows (fun _ h => exitIf_follows (not_lt.mpr h)) (fun _ h => exitIf_stops (not_le.mp h))
    (follows_pure ())

theorem changeWorkingDirectoryOrExit_follows (config : JudgeConfig) :
    Follows kernel (changeWorkingDirectoryOrExit kernel config) () (workingDirectoryPlan config) := by
  unfold changeWorkingDirectoryOrExit workingDirectoryPlan
  rw [ite_not]
  exact zeroOrExit_follows.unless

theorem applyLimitOrExit_follows (resource : Resource) (value : UInt64) :
    Follows kernel (applyLimitOrExit kernel resource value) () (limitPlan resource value) := by
  unfold applyLimitOrExit limitPlan
  rw [ite_not]
  exact zeroOrExit_follows.unless

theorem applyResourceLimitsOrExit_follows (config : JudgeConfig) :
    Follows kernel (applyResourceLimitsOrExit kernel config) () (limitsPlan config) := by
  unfold applyResourceLimitsOrExit limitsPlan
  rw [List.append_assoc, List.append_assoc]
  refine (applyLimitOrExit_follows _ _).seq ((applyLimitOrExit_follows _ _).seq
    ((applyLimitOrExit_follows _ _).seq ?_))
  have hcpu : limitPlan .cpu (cpuSeconds config) =
      if config.maxCpuTimeMs > 0 then
        limitPlan .cpu ((config.maxCpuTimeMs + 999) / 1000).toUInt64 else [] := by
    unfold cpuSeconds
    split_ifs
    · rfl
    · rfl
  rw [hcpu]
  exact (applyLimitOrExit_follows _ _).whenever

/-- Opening a file gives the descriptor that the rest of the plan names. -/
theorem open_follows {path : Bytes} {mode : OpenMode} {f : Int → Child Unit} {rest : Int → Plan}
    (hf : ∀ fd, Follows kernel (f fd) () (rest fd)) :
    FollowsSome kernel (do
        let fd ← call kernel (.open path mode)
        exitIf (fd < 0) .redirect .dup2Failed
        f fd) () fun fd => (.open path mode, .opened fd) :: rest fd := by
  intro calls calls'
  rw [bind_ok]
  refine exists_congr fun fd => ?_
  rw [carried_cons]
  constructor
  · rintro ⟨mid, hopen, h⟩
    obtain ⟨ha, rfl⟩ := call_ok.mp hopen
    obtain ⟨_, mid', hexit, hrest⟩ := bind_returned h
    obtain ⟨hfd, rfl⟩ := exitIf_returned hexit
    exact ⟨⟨fd, ha, rfl, not_lt.mp hfd⟩, (hf fd).iff.mp hrest⟩
  · rintro ⟨⟨a, ha, rfl, hfd⟩, hrest⟩
    refine ⟨_, call_ok.mpr ⟨ha, rfl⟩, ?_⟩
    rw [exitIf_follows (not_lt.mpr hfd)]
    exact (hf a).iff.mpr hrest

/-- The descriptor is the same in the three calls. -/
theorem redirectFdOrExit_follows (path : Bytes) (mode : OpenMode) (targetFd : Int) :
    FollowsSome kernel (redirectFdOrExit kernel path mode targetFd) ()
      (redirectPlan path mode targetFd) := by
  apply open_follows
  intro fd
  rw [← bind_assoc]
  exact nonnegativeOrExit_follows.seq (call_follows (follows_pure ()))

/-- With equal paths there is one descriptor for both streams. -/
theorem outputStreams_follows (config : JudgeConfig) :
    FollowsSome kernel (if config.outputPath = config.errorPath then do
        let fd ← call kernel (.open config.outputPath .writeCreateTruncate)
        exitIf (fd < 0) .redirect .dup2Failed
        exitIf ((← call kernel (.dup2 fd 1)) < 0) .redirect .dup2Failed
        exitIf ((← call kernel (.dup2 fd 2)) < 0) .redirect .dup2Failed
        let _ ← call kernel (.close fd)
      else do
        redirectFdOrExit kernel config.outputPath .writeCreateTruncate 1
        redirectFdOrExit kernel config.errorPath .writeCreateTruncate 2) ()
      fun fds : Int × Int => outputPlan config fds.1 fds.2 := by
  unfold outputPlan
  by_cases hsame : config.outputPath = config.errorPath
  · simp only [if_pos hsame]
    have hshared : FollowsSome kernel (do
        let fd ← call kernel (.open config.outputPath .writeCreateTruncate)
        exitIf (fd < 0) .redirect .dup2Failed
        exitIf ((← call kernel (.dup2 fd 1)) < 0) .redirect .dup2Failed
        exitIf ((← call kernel (.dup2 fd 2)) < 0) .redirect .dup2Failed
        let _ ← call kernel (.close fd)) () fun fd =>
          [(.open config.outputPath .writeCreateTruncate, .opened fd), (.dup2 fd 1, .nonnegative),
            (.dup2 fd 2, .nonnegative), (.close fd, .any)] := by
      apply open_follows
      intro fd
      rw [← bind_assoc]
      refine nonnegativeOrExit_follows.seq ?_
      rw [← bind_assoc]
      exact nonnegativeOrExit_follows.seq (call_follows (follows_pure ()))
    exact hshared.reindex Prod.fst (fun _ => rfl) Prod.fst_surjective
  · simp only [if_neg hsame]
    exact (redirectFdOrExit_follows _ _ _).seq (redirectFdOrExit_follows _ _ _)

theorem redirectStandardStreamsOrExit_follows (config : JudgeConfig) :
    FollowsSome kernel (redirectStandardStreamsOrExit kernel config) ()
      fun fds : Int × Int × Int => streamsPlan config fds.1 fds.2.1 fds.2.2 :=
  FollowsSome.seq (redirectFdOrExit_follows _ _ _) (outputStreams_follows config)

/-- A query that ends the step with an error code unless it answers `a`. -/
theorem FollowsSome.check {ι : Type} {p : Child α} {a : α} {bad : α → Prop} [DecidablePred bad]
    {q : Child (Option JudgeResultId)} {code : JudgeResultId} {plan : Plan} {rest : ι → Plan}
    (hp : Follows kernel p a plan) (ha : ¬ bad a) (hbad : ∀ x, x ≠ a → bad x)
    (hq : FollowsSome kernel q none rest) :
    FollowsSome kernel (do
      let answer ← p
      if bad answer then pure (some code) else q) none fun i => plan ++ rest i := by
  have hgo : FollowsSome kernel (if bad a then pure (some code) else q) none rest := by
    rw [if_neg ha]
    exact hq
  refine (FollowsSome.bind hp ?_ hgo).reindex (fun i => ((), i)) (fun _ => rfl) ?_
  · intro x hx mid calls' h
    rw [if_pos (hbad x hx)] at h
    cases (pure_ok.mp h).1
  · exact fun i => ⟨i.2, rfl⟩

/-- The error code of a helper is what the step exits with. -/
theorem FollowsSome.exitOnError {ι : Type} {p : Child (Option JudgeResultId)} {step : SetupStep}
    {plan : ι → Plan} (hp : FollowsSome kernel p none plan) :
    FollowsSome kernel (do
      match ← p with
      | some errorCode => exitWith step errorCode
      | none => pure () : Child Unit) () plan := by
  refine (FollowsSome.bind hp ?_ (follows_pure ())).reindex (fun i => (i, ()))
    (fun i => List.append_nil _) fun i => ⟨i.1, rfl⟩
  intro x hx mid calls' h
  cases x with
  | none => exact hx rfl
  | some errorCode => cases h

/-- The end of `write_control_file`, once the stream is open. -/
theorem writeOpened_follows (file : ControlFile) (text : Bytes) :
    Follows kernel (do
      let written ← call kernel (.writeStream file text)
      let _ ← call kernel (.closeStream file)
      return decide (0 ≤ written)) true
      [(.writeStream file text, .nonnegative), (.closeStream file, .any)] := by
  refine test_follows (q := do let _ ← call kernel (.closeStream file); pure true) ?_ ?_
    (call_follows (follows_pure true))
  · intro a h
    have hle : 0 ≤ a := h
    rw [decide_eq_true hle]
  · intro a h mid calls' hstop
    obtain ⟨_, mid', _, hlast⟩ := bind_returned hstop
    have hle : 0 ≤ a := of_decide_eq_true (pure_ok.mp hlast).1
    exact h hle

theorem writeControlFile_follows (dir : Bytes) (file : ControlFile) (text : Bytes) :
    Follows kernel (writeControlFile kernel dir file text) true (controlFilePlan dir file text) := by
  unfold writeControlFile controlFilePlan
  refine test_follows (fun a h => if_neg (not_lt.mpr h)) ?_ (writeOpened_follows file text)
  intro a h mid calls' hstop
  rw [if_pos (not_le.mp h)] at hstop
  cases (pure_ok.mp hstop).1

theorem writeOptionalLimit_follows (dir : Bytes) (file : ControlFile) (value : UInt64) :
    Follows kernel (writeOptionalLimit kernel dir file value) true
      (optionalLimitPlan dir file value) :=
  (writeControlFile_follows _ _ _).unless

theorem writeCpuMax_follows (config : JudgeConfig) :
    Follows kernel (writeCpuMax kernel config) true (cpuMaxPlan config) :=
  (writeControlFile_follows _ _ _).whenever

theorem isDirectory_follows (path : Bytes) :
    Follows kernel (isDirectory kernel path) true [(.isDirectory path, .positive)] := by
  refine test_follows (fun a h => ?_) (fun a h mid calls' hstop => ?_) (follows_pure true)
  · have hpos : 0 < a := h
    rw [if_neg (by omega), decide_eq_true (by omega)]
  · split_ifs at hstop with hneg
    · cases hstop
    · have hne : a ≠ 0 := of_decide_eq_true (pure_ok.mp hstop).1
      have hle : ¬ 0 < a := h
      omega

theorem not_false_of_ne_true {b : Bool} (h : b ≠ true) : (!b) = true := by
  cases b with
  | false => rfl
  | true => exact absurd rfl h

/-- A call whose answer the rest depends on. -/
theorem value_follows {c : SetupCall} {f : Int → Child β} {b : β} {rest : Int → Plan}
    (hf : ∀ v, Follows kernel (f v) b (rest v)) :
    FollowsSome kernel (call kernel c >>= f) b fun v => (c, .value v) :: rest v := by
  intro calls calls'
  rw [bind_ok]
  refine exists_congr fun v => ?_
  rw [carried_cons]
  constructor
  · rintro ⟨mid, hcall, h⟩
    obtain ⟨hanswer, rfl⟩ := call_ok.mp hcall
    exact ⟨⟨v, hanswer, rfl⟩, (hf v).iff.mp h⟩
  · rintro ⟨⟨a, hanswer, rfl⟩, h⟩
    exact ⟨c :: calls, call_ok.mpr ⟨hanswer, rfl⟩, (hf a).iff.mpr h⟩

/-- The process writes its own number into `cgroup.procs`. -/
theorem applyCgroupIfConfigured_follows (config : JudgeConfig) :
    FollowsSome kernel (applyCgroupIfConfigured kernel config) none (cgroupPlan config) := by
  have hbad : ∀ b : Bool, b ≠ true → (!b) = true := fun _ => not_false_of_ne_true
  have hprocs : ∀ pid, Follows kernel (do
      let answer ← writeControlFile kernel config.cgroupPath .cgroupProcs (decimalInt pid)
      if !answer then pure (some JudgeResultId.cgroupFailed) else pure none) none
      (controlFilePlan config.cgroupPath .cgroupProcs (decimalInt pid)) := by
    intro pid
    refine (FollowsSome.check (writeControlFile_follows _ _ _) (by decide) hbad
      (follows_pure none)).reindex id (fun _ => List.append_nil _) Function.surjective_id
  unfold applyCgroupIfConfigured cgroupPlan
  by_cases hpath : config.cgroupPath = []
  · simp only [if_pos hpath]
    exact (follows_pure none).reindex (fun _ => ()) (fun _ => rfl) fun _ => ⟨0, rfl⟩
  · simp only [if_neg hpath]
    refine FollowsSome.reindex (FollowsSome.check (isDirectory_follows _) (by decide) hbad
      (FollowsSome.check (writeOptionalLimit_follows _ _ _) (by decide) hbad
        (FollowsSome.check (writeOptionalLimit_follows _ _ _) (by decide) hbad
          (FollowsSome.check (writeCpuMax_follows config) (by decide) hbad
            (value_follows hprocs))))) id ?_ Function.surjective_id
    intro pid
    simp only [id, List.append_assoc, List.singleton_append]

theorem refused_follows (c : Bool) (s : SetupCall) :
    Follows kernel (refused kernel c s) false (whenever c [(s, .zero)]) := by
  unfold refused whenever
  refine Follows.whenever (test_follows (fun a h => ?_) (fun a h mid calls' hstop => ?_)
    (follows_pure false))
  · have hzero : a = 0 := h
    rw [decide_eq_false (not_not.mpr hzero)]
  · have hzero : ¬ a ≠ 0 := of_decide_eq_false (pure_ok.mp hstop).1
    exact h (not_not.mp hzero)

theorem dropPrivilegesIfConfigured_follows (config : JudgeConfig) :
    Follows kernel (dropPrivilegesIfConfigured kernel config) none (privilegePlan config) := by
  have hbad : ∀ b : Bool, b ≠ false → b = true := fun _ => Bool.eq_true_of_not_eq_false
  unfold dropPrivilegesIfConfigured
  by_cases hnone : config.runUid = 0 ∧ config.runGid = 0 ∧ config.clearSupplementaryGroups = false
  · rw [if_pos hnone]
    obtain ⟨huid, hgid, hgroups⟩ := hnone
    have hplan : privilegePlan config = [] := by
      simp [privilegePlan, whenever, huid, hgid, hgroups]
    rw [hplan]
    exact follows_pure none
  · rw [if_neg hnone]
    refine (FollowsSome.check (refused_follows _ _) (by decide) hbad
      (FollowsSome.check (refused_follows _ _) (by decide) hbad
        (FollowsSome.check (refused_follows _ _) (by decide) hbad
          (follows_pure none)))).reindex id (fun _ => ?_) Function.surjective_id
    simp only [privilegePlan, List.append_assoc, List.append_nil]

theorem addKillRules_follows (rules : List DeniedSyscall) :
    Follows kernel (addKillRules kernel rules) true (rulesPlan rules) := by
  induction rules with
  | nil => exact follows_pure true
  | cons syscall rest ih =>
    refine test_follows (fun a h => if_pos h) (fun a h mid calls' hstop => ?_) ih
    have hzero : ¬ a = 0 := h
    rw [if_neg hzero] at hstop
    cases (pure_ok.mp hstop).1

theorem denyIf_follows (c : Bool) {p : Child Bool} {plan : Plan} (hp : Follows kernel p true plan) :
    Follows kernel (denyIf c p) true (whenever c plan) :=
  hp.whenever

/-- The filter is loaded after its last rule, and released in any case. -/
theorem applySeccompIfEnabled_follows (libseccomp : Bool) (config : JudgeConfig) :
    Follows kernel (applySeccompIfEnabled kernel libseccomp config) none
      (seccompPlan libseccomp config) := by
  -- What is left when something has been refused.
  have hrefused : ∀ mid calls', (do
      let _ ← call kernel .seccompRelease
      return some JudgeResultId.loadSeccompFailed) mid ≠ .ok (none, calls') := by
    intro mid calls' h
    obtain ⟨_, _, _, hlast⟩ := bind_returned h
    cases (pure_ok.mp hlast).1
  have hload : Follows kernel (do return decide ((← call kernel .seccompLoad) = 0)) true
      [(.seccompLoad, .zero)] := by
    refine test_follows (fun a h => ?_) (fun a h mid calls' hstop => ?_) (follows_pure true)
    · have hzero : a = 0 := h
      rw [decide_eq_true hzero]
    · have hzero : a = 0 := of_decide_eq_true (pure_ok.mp hstop).1
      exact h hzero
  unfold applySeccompIfEnabled seccompPlan
  cases libseccomp with
  | false => exact follows_pure none
  | true =>
    cases hon : config.enableSeccomp with
    | false => exact follows_pure none
    | true =>
      refine test_follows (fun a h => if_neg h) (fun a h mid calls' hstop => ?_) ?_
      · have hzero : a = 0 := not_not.mp h
        rw [if_pos hzero] at hstop
        cases (pure_ok.mp hstop).1
      refine (Follows.bind (denyIf_follows _ (addKillRules_follows networkSyscalls)) ?_
        (Follows.bind (denyIf_follows _ (addKillRules_follows processSpawnSyscalls)) ?_
          (Follows.bind hload ?_ (call_follows (follows_pure none))))).reindex id ?_
            Function.surjective_id
      · intro x hx
        obtain rfl := Bool.eq_false_of_not_eq_true hx
        exact hrefused
      · intro x hx
        obtain rfl := Bool.eq_false_of_not_eq_true hx
        exact hrefused
      · intro x hx
        obtain rfl := Bool.eq_false_of_not_eq_true hx
        exact hrefused
      · intro _
        simp only [List.append_assoc, List.singleton_append]

theorem execProgramOrExit_follows (config : JudgeConfig) :
    Follows kernel (execProgramOrExit kernel config) () (execPlan config) :=
  nonnegativeOrExit_follows

theorem runChildProcessOrExit_follows (libseccomp : Bool) (config : JudgeConfig) :
    FollowsSome kernel (runChildProcessOrExit kernel libseccomp config) ()
      (setupPlan libseccomp config) := by
  refine (FollowsSome.seq (changeWorkingDirectoryOrExit_follows config) <|
    FollowsSome.seq (redirectStandardStreamsOrExit_follows config) <|
    FollowsSome.seq (applyResourceLimitsOrExit_follows config) <|
    FollowsSome.seq (applyCgroupIfConfigured_follows config).exitOnError <|
    FollowsSome.seq (FollowsSome.exitOnError (dropPrivilegesIfConfigured_follows config)) <|
    FollowsSome.seq (FollowsSome.exitOnError (applySeccompIfEnabled_follows libseccomp config))
      (execProgramOrExit_follows config)).reindex
    (fun h : Handles => ((), (h.stdin, h.stdout, h.stderr), (), h.pid, (), (), ()))
    (fun _ => rfl) ?_
  rintro ⟨_, ⟨stdin, stdout, stderr⟩, _, pid, _⟩
  exact ⟨⟨stdin, stdout, stderr, pid⟩, rfl⟩

end Steps

/-- The user's program is reached exactly when the plan is granted for some descriptors and
some process number, and the calls made are then those of the plan, in its order. -/
theorem executed_iff_granted (config : JudgeConfig) (e : Execution) (calls : List SetupCall) :
    runChild config e = .ok ((), calls) ↔ ∃ handles,
      Granted e.kernel [] (setupPlan e.libseccomp config handles) ∧
        calls.reverse = (setupPlan e.libseccomp config handles).map Prod.fst := by
  unfold runChild
  rw [runChildProcessOrExit_follows e.libseccomp config [] calls]
  refine exists_congr fun handles => and_congr_right fun _ => ?_
  rw [Plan.after, List.append_nil, List.reverse_eq_iff]

end JudgeServer.Sjudge
