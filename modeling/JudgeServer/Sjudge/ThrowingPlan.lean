import JudgeServer.Sjudge.SetupPlan
import JudgeServer.Sjudge.ChildExceptions

/-!
# Where an exception can leave the child

The plan of the setup with the allocations it makes between its calls. Which step of the
plan throws first is a matter of what the machine answers up to there: a step is reached
when everything before it has gone well. An exception leaves the child exactly when a step
that is reached throws.
-/

namespace JudgeServer.Sjudge

open JudgeServer.Lib.Decimal (decimal decimalInt)

/-- A call of the plan with the answer it needs, or an allocation between two calls. -/
inductive PlanStep where
  | ask (c : SetupCall) (need : Need)
  | allocate (site : ThrowSite)
  deriving DecidableEq, Repr

/-- The allocations made for a call, before it and in their order. -/
def allocationsBefore : SetupCall → List ThrowSite
  | .isDirectory _ => [.cgroupPath]
  | .getpid => [.controlPath .cgroupProcs]
  | .openStream _ .cgroupProcs => [.controlText .cgroupProcs]
  | .openStream _ file => [.controlPath file, .controlText file]
  | .writeStream file _ => [.streamBuffer file]
  -- One `push_back` for each argument, and one for the null pointer.
  | .execve _ argv => (List.range' 0 (argv.length + 1)).map .argv
  | _ => []

def Plan.withAllocations (plan : Plan) : List PlanStep :=
  plan.flatMap fun step => (allocationsBefore step.1).map .allocate ++ [.ask step.1 step.2]

/-- A throwing call: the step of the setup it is made in, and how the log notes it. -/
def PlanStep.site : PlanStep → Option ThrowSite
  | ask (.isDirectory _) _ => some .isDirectory
  | ask _ _ => none
  | allocate site => some site

namespace PlanStep

variable (machine : Machine) (log : ChildLog)

/-- The setup goes on after this step. -/
def Granted : PlanStep → Prop
  | ask c need => ∃ a, machine.kernel log.calls c = .returned a ∧ need.Met a
  | allocate site => machine.allocationFails log site = false

/-- The step throws: there is no memory, or the directory cannot be examined. -/
def Throws : PlanStep → Prop
  | ask c _ => ∃ path a, c = .isDirectory path ∧ machine.kernel log.calls c = .returned a ∧ a < 0
  | allocate site => machine.allocationFails log site = true

/-- The log after the step, once it has gone well. -/
def note : PlanStep → ChildLog
  | ask (.isDirectory path) _ =>
      { calls := .isDirectory path :: log.calls, throwing := (.isDirectory, false) :: log.throwing }
  | ask c _ => { log with calls := c :: log.calls }
  | allocate site => { log with throwing := (site, false) :: log.throwing }

end PlanStep

/-- Every step of the plan goes well from `log` on, and leads to `log'`. -/
def CarriedOut (machine : Machine) : ChildLog → List PlanStep → ChildLog → Prop
  | log, [], log' => log' = log
  | log, step :: rest, log' =>
      step.Granted machine log ∧ CarriedOut machine (step.note log) rest log'

/-- A step of the plan is reached from `log` on and throws, in this step of the setup. -/
def ThrownIn (machine : Machine) (setupStep : SetupStep) : ChildLog → List PlanStep → Prop
  | _, [] => False
  | log, step :: rest =>
      step.Throws machine log ∧ step.site.map ThrowSite.step = some setupStep ∨
      step.Granted machine log ∧ ThrownIn machine setupStep (step.note log) rest

section Plans

variable {machine : Machine} {log log' : ChildLog} {setupStep : SetupStep}

theorem carriedOut_append {p q : List PlanStep} :
    CarriedOut machine log (p ++ q) log' ↔
      ∃ mid, CarriedOut machine log p mid ∧ CarriedOut machine mid q log' := by
  induction p generalizing log with
  | nil => simp [CarriedOut]
  | cons step rest ih =>
    rw [List.cons_append, CarriedOut, ih]
    simp only [CarriedOut, and_assoc, exists_and_left]

theorem thrownIn_append {p q : List PlanStep} :
    ThrownIn machine setupStep log (p ++ q) ↔
      ThrownIn machine setupStep log p ∨
        ∃ mid, CarriedOut machine log p mid ∧ ThrownIn machine setupStep mid q := by
  induction p generalizing log with
  | nil => simp [ThrownIn, CarriedOut]
  | cons step rest ih =>
    rw [List.cons_append, ThrownIn, ThrownIn, ih, and_or_left, or_assoc]
    simp only [CarriedOut, and_assoc, exists_and_left]

theorem Plan.withAllocations_append (p q : Plan) :
    (p ++ q).withAllocations = p.withAllocations ++ q.withAllocations := List.flatMap_append

/-- The plan as it is. -/
def Plan.asks (plan : Plan) : List PlanStep := plan.map fun step => .ask step.1 step.2

def Examines (c : SetupCall) : Prop := ∃ path, c = .isDirectory path

theorem PlanStep.note_ask {c : SetupCall} (h : ¬ Examines c) (need : Need) :
    (PlanStep.ask c need).note log = { log with calls := c :: log.calls } := by
  cases c with
  | isDirectory path => exact absurd ⟨path, rfl⟩ h
  | _ => rfl

theorem PlanStep.not_throws_ask {c : SetupCall} (h : ¬ Examines c) (need : Need) :
    ¬ (PlanStep.ask c need).Throws machine log := by
  rintro ⟨path, _, hc, _⟩
  exact h ⟨path, hc⟩

theorem carriedOut_asks {plan : Plan} (h : ∀ x ∈ plan, ¬ Examines x.1) :
    CarriedOut machine log plan.asks log' ↔
      ∃ calls, Carried machine.kernel log.calls plan calls ∧ log' = { log with calls := calls } := by
  induction plan generalizing log with
  | nil => simp [Plan.asks, CarriedOut]
  | cons step rest ih =>
    obtain ⟨c, need⟩ := step
    rw [Plan.asks, List.map_cons, CarriedOut, PlanStep.note_ask (h _ List.mem_cons_self)]
    rw [← Plan.asks, ih fun x hx => h x (List.mem_cons_of_mem _ hx)]
    simp only [carried_cons, and_assoc, exists_and_left]
    rfl

theorem not_thrownIn_asks {plan : Plan} (h : ∀ x ∈ plan, ¬ Examines x.1) :
    ¬ ThrownIn machine setupStep log plan.asks := by
  induction plan generalizing log with
  | nil => exact id
  | cons step rest ih =>
    rintro (⟨hthrows, _⟩ | ⟨_, hrest⟩)
    · exact PlanStep.not_throws_ask (h _ List.mem_cons_self) step.2 hthrows
    · exact ih (fun x hx => h x (List.mem_cons_of_mem _ hx)) hrest

/-- Nothing is allocated for these calls. -/
theorem Plan.withAllocations_asks {plan : Plan} (h : ∀ x ∈ plan, allocationsBefore x.1 = []) :
    plan.withAllocations = plan.asks := by
  induction plan with
  | nil => rfl
  | cons step rest ih =>
    rw [Plan.withAllocations, List.flatMap_cons, h _ List.mem_cons_self]
    exact congrArg (_ :: ·) (ih fun x hx => h x (List.mem_cons_of_mem _ hx))

end Plans

section Along

variable {machine : Machine} {log log' : ChildLog} {α β : Type}

theorem Throwing.bind_ok {p : ThrowingChild α} {f : α → ThrowingChild β} {b : β} :
    (p >>= f).run log = (.ok b, log') ↔
      ∃ a mid, p.run log = (.ok a, mid) ∧ (f a).run mid = (.ok b, log') := by
  rw [run_bind]
  obtain ⟨result, mid⟩ := p.run log
  constructor
  · intro h
    cases result with
    | ok a => exact ⟨a, mid, rfl, h⟩
    | error stop => cases (Prod.mk.inj h).1
  · rintro ⟨a, mid', heq, h⟩
    cases heq
    exact h

theorem Throwing.pure_ok {a b : α} :
    (pure a : ThrowingChild α).run log = (.ok b, log') ↔ a = b ∧ log' = log := by
  constructor
  · intro h
    obtain ⟨hok, hlog⟩ := Prod.mk.inj h
    exact ⟨Except.ok.inj hok, hlog.symm⟩
  · rintro ⟨rfl, rfl⟩
    rfl

theorem bind_escaped {p : ThrowingChild α} {f : α → ThrowingChild β} {step : SetupStep} :
    ((p >>= f).run log).1 = .error (.escaped step) ↔
      (p.run log).1 = .error (.escaped step) ∨
        ∃ a mid, p.run log = (.ok a, mid) ∧ ((f a).run mid).1 = .error (.escaped step) := by
  rw [run_bind]
  obtain ⟨result, mid⟩ := p.run log
  constructor
  · intro h
    cases result with
    | ok a => exact Or.inr ⟨a, mid, rfl, h⟩
    | error stop => exact Or.inl (congrArg Except.error (Except.error.inj h))
  · rintro (h | ⟨a, mid', heq, h⟩)
    · have hresult : result = .error (.escaped step) := h
      rw [hresult]
    · cases heq
      exact h

theorem quietly_ok {p : Child α} {a : α} :
    (quietly p).run log = (.ok a, log') ↔
      ∃ calls, p log.calls = .ok (a, calls) ∧ log' = { log with calls := calls } := by
  rw [run_quietly]
  constructor
  · intro h
    cases hp : p log.calls with
    | ok r =>
      rw [hp] at h
      cases h
      exact ⟨r.2, rfl, rfl⟩
    | error stop =>
      rw [hp] at h
      cases (Prod.mk.inj h).1
  · rintro ⟨calls, hp, rfl⟩
    rw [hp]

/-- `p` returns `a` exactly when one of the plans is carried out, and an exception leaves it
exactly when a step of one of them is reached and throws. -/
structure Along {ι : Type} (machine : Machine) (p : ThrowingChild α) (a : α)
    (plan : ι → List PlanStep) : Prop where
  returns : ∀ log log', p.run log = (.ok a, log') ↔ ∃ i, CarriedOut machine log (plan i) log'
  escapes : ∀ log step, (p.run log).1 = .error (.escaped step) ↔
    ∃ i, ThrownIn machine step log (plan i)

/-- `p` neither returns `a` nor throws. -/
structure Misses (p : ThrowingChild α) (a : α) : Prop where
  returns : ∀ log log', p.run log ≠ (.ok a, log')
  escapes : ∀ log step, (p.run log).1 ≠ .error (.escaped step)

theorem misses_pure {a b : α} (h : a ≠ b) : Misses (pure a) b where
  returns := by
    intro log log' heq
    exact h (Except.ok.inj (Prod.mk.inj heq).1)
  escapes := by
    intro log step heq
    cases heq

theorem misses_exit {step : SetupStep} {code : JudgeResultId} {a : α} :
    Misses (quietly (exitWith step code)) a where
  returns := by
    intro log log' heq
    cases (Prod.mk.inj heq).1
  escapes := by
    intro log step' heq
    cases heq

/-- The same plans under other names. -/
theorem Along.reindex {ι κ : Type} {p : ThrowingChild α} {a : α} {plan : ι → List PlanStep}
    {plan' : κ → List PlanStep} (h : Along machine p a plan) (e : κ → ι)
    (he : ∀ k, plan (e k) = plan' k) (hsurj : Function.Surjective e) :
    Along machine p a plan' where
  returns := by
    intro log log'
    rw [h.returns log log', hsurj.exists]
    simp only [he]
  escapes := by
    intro log step
    rw [h.escapes log step, hsurj.exists]
    simp only [he]

theorem along_pure (a : α) : Along machine (pure a) a fun _ : Unit => [] where
  returns := by
    intro log log'
    rw [Throwing.pure_ok, exists_const, CarriedOut, eq_self, true_and]
  escapes := by
    intro log step
    rw [exists_const]
    exact iff_of_false nofun id

/-- `p` and what follows it, when what follows can only return `b` or throw after `a`. -/
theorem Along.bind {ι κ : Type} [Nonempty κ] {p : ThrowingChild α} {f : α → ThrowingChild β}
    {a : α} {b : β} {plan : ι → List PlanStep} {rest : κ → List PlanStep}
    (hp : Along machine p a plan) (hstop : ∀ x, x ≠ a → Misses (f x) b)
    (hf : Along machine (f a) b rest) :
    Along machine (p >>= f) b fun i : ι × κ => plan i.1 ++ rest i.2 where
  returns := by
    intro log log'
    rw [Throwing.bind_ok]
    simp only [carriedOut_append, Prod.exists]
    constructor
    · rintro ⟨x, mid, hx, hrest⟩
      by_cases hxa : x = a
      · rw [hxa] at hx hrest
        obtain ⟨i, hi⟩ := (hp.returns _ _).mp hx
        obtain ⟨k, hk⟩ := (hf.returns _ _).mp hrest
        exact ⟨i, k, mid, hi, hk⟩
      · exact absurd hrest ((hstop x hxa).returns _ _)
    · rintro ⟨i, k, mid, hi, hk⟩
      exact ⟨a, mid, (hp.returns _ _).mpr ⟨i, hi⟩, (hf.returns _ _).mpr ⟨k, hk⟩⟩
  escapes := by
    intro log step
    rw [bind_escaped]
    simp only [thrownIn_append, Prod.exists]
    constructor
    · rintro (hfirst | ⟨x, mid, hx, hrest⟩)
      · obtain ⟨i, hi⟩ := (hp.escapes _ _).mp hfirst
        exact ⟨i, Classical.arbitrary κ, Or.inl hi⟩
      · by_cases hxa : x = a
        · rw [hxa] at hx hrest
          obtain ⟨i, hi⟩ := (hp.returns _ _).mp hx
          obtain ⟨k, hk⟩ := (hf.escapes _ _).mp hrest
          exact ⟨i, k, Or.inr ⟨mid, hi, hk⟩⟩
        · exact absurd hrest ((hstop x hxa).escapes _ _)
    · rintro ⟨i, k, hi | ⟨mid, hi, hk⟩⟩
      · exact Or.inl ((hp.escapes _ _).mpr ⟨i, hi⟩)
      · exact Or.inr ⟨a, mid, (hp.returns _ _).mpr ⟨i, hi⟩, (hf.escapes _ _).mpr ⟨k, hk⟩⟩

theorem Along.seq {ι κ : Type} [Nonempty κ] {p : ThrowingChild Unit} {q : ThrowingChild β} {b : β}
    {plan : ι → List PlanStep} {rest : κ → List PlanStep} (hp : Along machine p () plan)
    (hq : Along machine q b rest) :
    Along machine (do p; q) b fun i : ι × κ => plan i.1 ++ rest i.2 :=
  hp.bind (fun _ hne => absurd rfl hne) hq

theorem Along.whenever {c : Prop} [Decidable c] {p : ThrowingChild α} {a : α}
    {plan : List PlanStep} (hp : Along machine p a fun _ : Unit => plan) :
    Along machine (if c then p else pure a) a fun _ : Unit => if c then plan else [] := by
  by_cases h : c
  · simp only [if_pos h]
    exact hp
  · simp only [if_neg h]
    exact along_pure a

theorem Along.unless {c : Prop} [Decidable c] {p : ThrowingChild α} {a : α}
    {plan : List PlanStep} (hp : Along machine p a fun _ : Unit => plan) :
    Along machine (if c then pure a else p) a fun _ : Unit => if c then [] else plan := by
  by_cases h : c
  · simp only [if_pos h]
    exact along_pure a
  · simp only [if_neg h]
    exact hp

/-- The part stops without an exception. -/
def Quiet : ChildStop → Prop
  | .escaped _ => False
  | _ => True

theorem admits_quiet : Admits Quiet where
  exited := fun _ => trivial
  killed := fun _ => trivial

theorem not_escaped_of_quiet {p : Child α} (h : Meets Quiet (fun _ => True) p)
    (log : ChildLog) (step : SetupStep) : ((quietly p).run log).1 ≠ .error (.escaped step) := by
  intro heq
  have hmeets := quietly_meets h log
  rw [heq] at hmeets
  exact hmeets

/-- A part of the setup without throwing calls, on its plan. -/
theorem quietly_along {ι : Type} {p : Child α} {a : α} {plan : ι → Plan}
    (h : FollowsSome machine.kernel p a plan) (hquiet : Meets Quiet (fun _ => True) p)
    (hexamines : ∀ i, ∀ x ∈ plan i, ¬ Examines x.1) :
    Along machine (quietly p) a fun i => (plan i).asks where
  returns := by
    intro log log'
    rw [quietly_ok]
    constructor
    · rintro ⟨calls, hp, hlog⟩
      obtain ⟨i, hi⟩ := (h _ _).mp hp
      exact ⟨i, (carriedOut_asks (hexamines i)).mpr ⟨calls, hi, hlog⟩⟩
    · rintro ⟨i, hi⟩
      obtain ⟨calls, hcarried, hlog⟩ := (carriedOut_asks (hexamines i)).mp hi
      exact ⟨calls, (h _ _).mpr ⟨i, hcarried⟩, hlog⟩
  escapes := by
    intro log step
    refine iff_of_false (not_escaped_of_quiet hquiet log step) ?_
    rintro ⟨i, hi⟩
    exact not_thrownIn_asks (hexamines i) hi

theorem call_run {c : SetupCall} {a : Int} :
    (quietly (call machine.kernel c)).run log = (.ok a, log') ↔
      machine.kernel log.calls c = .returned a ∧ log' = { log with calls := c :: log.calls } := by
  rw [quietly_ok]
  simp only [call_ok, and_assoc, exists_and_left, exists_eq_left]

theorem call_not_escaped {c : SetupCall} (log : ChildLog) (step : SetupStep) :
    ((quietly (call machine.kernel c)).run log).1 ≠ .error (.escaped step) :=
  not_escaped_of_quiet (call_meets admits_quiet) log step

theorem mayThrow_ok {site : ThrowSite} {threw : Bool} {u : Unit} :
    (mayThrow site threw).run log = (.ok u, log') ↔
      threw = false ∧ log' = { log with throwing := (site, false) :: log.throwing } := by
  cases threw with
  | true => exact iff_of_false (fun h => by cases (Prod.mk.inj h).1) fun h => by cases h.1
  | false =>
    constructor
    · intro h
      exact ⟨rfl, (Prod.mk.inj h).2.symm⟩
    · rintro ⟨_, rfl⟩
      rfl

theorem mayThrow_escaped {site : ThrowSite} {threw : Bool} {step : SetupStep} :
    ((mayThrow site threw).run log).1 = .error (.escaped step) ↔
      threw = true ∧ site.step = step := by
  cases threw with
  | false => exact iff_of_false nofun fun h => by cases h.1
  | true =>
    constructor
    · intro h
      exact ⟨rfl, ChildStop.escaped.inj (Except.error.inj h)⟩
    · rintro ⟨_, rfl⟩
      rfl

theorem allocate_along (site : ThrowSite) :
    Along machine (Throwing.allocate machine site) () fun _ : Unit => [.allocate site] where
  returns := by
    intro log log'
    rw [exists_const, CarriedOut, CarriedOut, PlanStep.Granted, PlanStep.note]
    exact mayThrow_ok
  escapes := by
    intro log step
    rw [exists_const, ThrownIn, ThrownIn, PlanStep.Throws, PlanStep.site, and_false, or_false,
      Option.map_some, Option.some.injEq]
    exact mayThrow_escaped

/-- An allocation, and what follows it. -/
theorem allocate_then_along {ι : Type} [Nonempty ι] {site : ThrowSite} {q : ThrowingChild β} {b : β}
    {rest : ι → List PlanStep} (hq : Along machine q b rest) :
    Along machine (do Throwing.allocate machine site; q) b fun i => .allocate site :: rest i :=
  ((allocate_along site).seq hq).reindex (fun i => ((), i)) (fun _ => rfl) fun i => ⟨i.2, rfl⟩

/-- A call that does not throw, and what follows the answers to it. Each plan of the whole
asks for one need, which the answers before its rest meet. -/
theorem call_along {ι : Type} {c : SetupCall} {f : Int → ThrowingChild β} {b : β}
    {need : ι → Need} {rest : ι → List PlanStep} (hc : ¬ Examines c)
    (hreturns : ∀ a log log', (f a).run log = (.ok b, log') ↔
      ∃ i, (need i).Met a ∧ CarriedOut machine log (rest i) log')
    (hescapes : ∀ a log step, ((f a).run log).1 = .error (.escaped step) ↔
      ∃ i, (need i).Met a ∧ ThrownIn machine step log (rest i)) :
    Along machine (quietly (call machine.kernel c) >>= f) b
      fun i => .ask c (need i) :: rest i where
  returns := by
    intro log log'
    rw [Throwing.bind_ok]
    simp only [CarriedOut, PlanStep.Granted, PlanStep.note_ask hc, call_run, hreturns]
    constructor
    · rintro ⟨a, mid, ⟨ha, rfl⟩, i, hmet, hi⟩
      exact ⟨i, ⟨a, ha, hmet⟩, hi⟩
    · rintro ⟨i, ⟨a, ha, hmet⟩, hi⟩
      exact ⟨a, _, ⟨ha, rfl⟩, i, hmet, hi⟩
  escapes := by
    intro log step
    rw [bind_escaped]
    simp only [ThrownIn, PlanStep.Granted, PlanStep.note_ask hc, call_run, hescapes]
    constructor
    · rintro (h | ⟨a, mid, ⟨ha, rfl⟩, i, hmet, hi⟩)
      · exact absurd h (call_not_escaped log step)
      · exact ⟨i, Or.inr ⟨⟨a, ha, hmet⟩, hi⟩⟩
    · rintro ⟨i, ⟨hthrows, _⟩ | ⟨⟨a, ha, hmet⟩, hi⟩⟩
      · exact absurd hthrows (PlanStep.not_throws_ask hc _)
      · exact Or.inr ⟨a, _, ⟨ha, rfl⟩, i, hmet, hi⟩

/-- A call whose answer decides between going on with `q` and missing `b`. -/
theorem test_along {ι : Type} {c : SetupCall} {need : Need} {f : Int → ThrowingChild β}
    {q : ThrowingChild β} {b : β} {rest : ι → List PlanStep} (hc : ¬ Examines c)
    (hgo : ∀ a, need.Met a → f a = q) (hstop : ∀ a, ¬ need.Met a → Misses (f a) b)
    (hq : Along machine q b rest) :
    Along machine (quietly (call machine.kernel c) >>= f) b fun i => .ask c need :: rest i := by
  apply call_along hc
  · intro a log log'
    by_cases hmet : need.Met a
    · simp only [hgo a hmet, hmet, true_and, hq.returns]
    · simp only [hmet, false_and, exists_false, iff_false]
      exact (hstop a hmet).returns log log'
  · intro a log step
    by_cases hmet : need.Met a
    · simp only [hgo a hmet, hmet, true_and, hq.escapes]
    · simp only [hmet, false_and, exists_false, iff_false]
      exact (hstop a hmet).escapes log step

/-- A call whose answer the rest depends on. -/
theorem value_along {c : SetupCall} {f : Int → ThrowingChild β} {b : β}
    {rest : Int → List PlanStep} (hc : ¬ Examines c)
    (hf : ∀ v, Along machine (f v) b fun _ : Unit => rest v) :
    Along machine (quietly (call machine.kernel c) >>= f) b
      fun v => .ask c (.value v) :: rest v := by
  apply call_along hc
  · intro a log log'
    rw [(hf a).returns, exists_const]
    simp [Need.Met]
  · intro a log step
    rw [(hf a).escapes, exists_const]
    simp [Need.Met]

end Along

section Steps

variable {machine : Machine}

/-- A control file once its path and its text have been built. -/
def writtenPlan (dir : Bytes) (file : ControlFile) (text : Bytes) : List PlanStep :=
  [.ask (.openStream dir file) .nonnegative, .allocate (.streamBuffer file),
    .ask (.writeStream file text) .nonnegative, .ask (.closeStream file) .any]

theorem writeControlFile_along (dir : Bytes) (file : ControlFile) (text : Bytes) :
    Along machine (Throwing.writeControlFile machine dir file text) true
      fun _ : Unit => writtenPlan dir file text := by
  have hopened : Along machine (quietly (Throwing.writeOpened machine file text)) true
      fun _ : Unit => [.ask (.writeStream file text) .nonnegative,
        .ask (.closeStream file) .any] := by
    refine quietly_along (writeOpened_follows file text) ?_ ?_
    · apply Meets.bind (call_meets admits_quiet)
      intro written _
      exact Meets.bind (call_meets admits_quiet) fun _ _ => Meets.pure trivial
    · simp [Examines]
  refine test_along nofun (fun a h => if_neg (not_lt.mpr h)) ?_ (allocate_then_along hopened)
  intro a h
  rw [if_pos (not_le.mp h)]
  exact misses_pure (by decide)

/-- An answer below zero is the exception, zero is no, and the rest is yes. -/
theorem isDirectory_along (path : Bytes) :
    Along machine (Throwing.isDirectory machine path) true
      fun _ : Unit => [.ask (.isDirectory path) .positive] where
  returns := by
    intro log log'
    rw [exists_const, Throwing.isDirectory, Throwing.bind_ok]
    simp only [Throwing.bind_ok, call_run, mayThrow_ok, Throwing.pure_ok, CarriedOut,
      PlanStep.Granted, PlanStep.note]
    constructor
    · rintro ⟨a, mid, ⟨ha, rfl⟩, _, mid', ⟨hneg, rfl⟩, hne, rfl⟩
      have hneg : ¬ a < 0 := of_decide_eq_false hneg
      have hne : a ≠ 0 := of_decide_eq_true hne
      have hpos : 0 < a := by omega
      exact ⟨⟨a, ha, hpos⟩, rfl⟩
    · rintro ⟨⟨a, ha, hpos⟩, rfl⟩
      have hpos : 0 < a := hpos
      exact ⟨a, _, ⟨ha, rfl⟩, (), _, ⟨decide_eq_false (by omega), rfl⟩, decide_eq_true (by omega),
        rfl⟩
  escapes := by
    intro log step
    rw [exists_const, Throwing.isDirectory, bind_escaped]
    simp only [bind_escaped, call_run, mayThrow_escaped, ThrownIn, PlanStep.Throws, PlanStep.site,
      Option.map_some, Option.some.injEq, and_false, or_false]
    constructor
    · rintro (h | ⟨a, mid, ⟨ha, rfl⟩, ⟨hneg, hstep⟩ | ⟨_, _, _, hlast⟩⟩)
      · exact absurd h (call_not_escaped log step)
      · exact ⟨⟨path, a, rfl, ha, of_decide_eq_true hneg⟩, hstep⟩
      · cases hlast
    · rintro ⟨⟨path', a, hpath, ha, hneg⟩, hstep⟩
      exact Or.inr ⟨a, _, ⟨ha, rfl⟩, Or.inl ⟨decide_eq_true hneg, hstep⟩⟩

/-- A query that ends the cgroup step with its code unless the answer is yes. -/
theorem orFailed_along {ι κ : Type} [Nonempty κ] {p : ThrowingChild Bool}
    {q : ThrowingChild (Option JudgeResultId)} {plan : ι → List PlanStep}
    {rest : κ → List PlanStep} (hp : Along machine p true plan) (hq : Along machine q none rest) :
    Along machine (do
      if !(← p) then return some .cgroupFailed
      q) none fun i : ι × κ => plan i.1 ++ rest i.2 := by
  refine Along.bind hp ?_ hq
  intro answer hanswer
  obtain rfl := Bool.eq_false_of_not_eq_true hanswer
  exact misses_pure nofun

/-- Before a control file other than `cgroup.procs`, its path and its text are built. -/
theorem controlFilePlan_withAllocations (dir : Bytes) {file : ControlFile}
    (hfile : file ≠ .cgroupProcs) (text : Bytes) :
    (controlFilePlan dir file text).withAllocations =
      .allocate (.controlPath file) :: .allocate (.controlText file) ::
        writtenPlan dir file text := by
  cases file with
  | cgroupProcs => exact absurd rfl hfile
  | _ => rfl

theorem writeOptionalLimit_along (dir : Bytes) {file : ControlFile} (hfile : file ≠ .cgroupProcs)
    (value : UInt64) :
    Along machine (Throwing.writeOptionalLimit machine dir file value) true
      fun _ : Unit => (optionalLimitPlan dir file value).withAllocations := by
  unfold Throwing.writeOptionalLimit optionalLimitPlan
  rw [apply_ite Plan.withAllocations, controlFilePlan_withAllocations dir hfile]
  exact (allocate_then_along (allocate_then_along (writeControlFile_along _ _ _))).unless

theorem writeCpuMax_along (config : JudgeConfig) :
    Along machine (Throwing.writeCpuMax machine config) true
      fun _ : Unit => (cpuMaxPlan config).withAllocations := by
  have hfile : ControlFile.cpuMax ≠ .cgroupProcs := by decide
  unfold Throwing.writeCpuMax cpuMaxPlan
  rw [apply_ite Plan.withAllocations, controlFilePlan_withAllocations _ hfile]
  exact (allocate_then_along (allocate_then_along (writeControlFile_along _ _ _))).whenever

/-- The process number is asked for once the path is built, and before its text is. -/
def procsPlan (config : JudgeConfig) (pid : Int) : Plan :=
  (.getpid, .value pid) :: controlFilePlan config.cgroupPath .cgroupProcs (decimalInt pid)

theorem writeProcs_along (config : JudgeConfig) :
    Along machine (Throwing.writeProcs machine config) true
      fun pid => (procsPlan config pid).withAllocations :=
  allocate_then_along <| value_along nofun fun _ => allocate_then_along (writeControlFile_along _ _ _)

theorem applyCgroupIfConfigured_along (config : JudgeConfig) :
    Along machine (Throwing.applyCgroupIfConfigured machine config) none
      fun pid => (cgroupPlan config pid).withAllocations := by
  unfold Throwing.applyCgroupIfConfigured cgroupPlan
  by_cases hpath : config.cgroupPath = []
  · simp only [if_pos hpath]
    exact (along_pure none).reindex (fun _ => ()) (fun _ => rfl) fun _ => ⟨0, rfl⟩
  · simp only [if_neg hpath]
    refine (allocate_then_along <| orFailed_along (isDirectory_along _) <|
      orFailed_along (writeOptionalLimit_along _ (by decide) _) <|
      orFailed_along (writeOptionalLimit_along _ (by decide) _) <|
      orFailed_along (writeCpuMax_along config) <|
      orFailed_along (writeProcs_along config) (along_pure none)).reindex
      (fun pid : Int => ((), (), (), (), pid, ())) ?_ ?_
    · intro pid
      change _ = Plan.withAllocations ([(.isDirectory config.cgroupPath, .positive)] ++
        (_ ++ _ ++ _ ++ procsPlan config pid))
      simp only [Plan.withAllocations_append, List.append_nil, List.append_assoc]
      rfl
    · rintro ⟨_, _, _, _, pid, _⟩
      exact ⟨pid, rfl⟩

theorem pushBacks_along (index : Nat) (args : List Bytes) :
    Along machine (Throwing.pushBacks machine index args) ()
      fun _ : Unit => (List.range' index (args.length + 1)).map fun k => .allocate (.argv k) := by
  induction args generalizing index with
  | nil => exact allocate_along _
  | cons arg rest ih => exact allocate_then_along (ih (index + 1))

theorem execProgramOrExit_along (config : JudgeConfig) :
    Along machine (Throwing.execProgramOrExit machine config) ()
      fun _ : Unit => (execPlan config).withAllocations := by
  have hexec : Along machine (do
      let answer ← quietly (call machine.kernel (.execve config.exePath (buildArgv config)))
      quietly (exitIf (answer < 0) .execve .execveFailed)) ()
      fun _ : Unit => [.ask (.execve config.exePath (buildArgv config)) .nonnegative] := by
    refine test_along (q := pure ()) nofun (fun a h => ?_) (fun a h => ?_) (along_pure ())
    · rw [exitIf_follows (not_lt.mpr h)]
      rfl
    · rw [exitIf, if_pos (not_le.mp h)]
      exact misses_exit
  unfold Throwing.execProgramOrExit Throwing.buildArgv
  rw [bind_assoc]
  simp only [pure_bind]
  refine ((pushBacks_along 0 _).seq hexec).reindex (fun _ => ((), ())) (fun _ => ?_) fun _ => ⟨(), rfl⟩
  simp [execPlan, Plan.withAllocations, allocationsBefore]

/-- Nothing is allocated for the plan's calls, and no directory is examined. -/
def Plan.Silent (plan : Plan) : Prop := ∀ x ∈ plan, allocationsBefore x.1 = [] ∧ ¬ Examines x.1

@[simp] theorem silent_nil : Plan.Silent [] := nofun

@[simp] theorem silent_cons {c : SetupCall} {need : Need} {rest : Plan} :
    Plan.Silent ((c, need) :: rest) ↔
      (allocationsBefore c = [] ∧ ¬ Examines c) ∧ Plan.Silent rest := List.forall_mem_cons

theorem silent_single {c : SetupCall} {need : Need} (hallocations : allocationsBefore c = [])
    (hexamines : ¬ Examines c) : Plan.Silent [(c, need)] :=
  silent_cons.mpr ⟨⟨hallocations, hexamines⟩, silent_nil⟩

@[simp] theorem silent_append {p q : Plan} : Plan.Silent (p ++ q) ↔ p.Silent ∧ q.Silent :=
  List.forall_mem_append

theorem silent_ite {c : Prop} [Decidable c] {p q : Plan} (hp : p.Silent) (hq : q.Silent) :
    Plan.Silent (if c then p else q) := by
  split_ifs
  · exact hp
  · exact hq

theorem silent_whenever {c : Bool} {plan : Plan} (h : plan.Silent) : (whenever c plan).Silent :=
  silent_ite h silent_nil

theorem silent_rules (rules : List DeniedSyscall) : (rulesPlan rules).Silent := by
  intro x hx
  obtain ⟨syscall, _, rfl⟩ := List.mem_map.mp hx
  exact ⟨rfl, nofun⟩

theorem workingDirectoryPlan_silent (config : JudgeConfig) : (workingDirectoryPlan config).Silent :=
  silent_ite silent_nil (silent_single rfl nofun)

theorem streamsPlan_silent (config : JudgeConfig) (stdin stdout stderr : Int) :
    (streamsPlan config stdin stdout stderr).Silent := by
  have hredirect (path : Bytes) (mode : OpenMode) (targetFd fd : Int) :
      (redirectPlan path mode targetFd fd).Silent :=
    silent_cons.mpr ⟨⟨rfl, nofun⟩, silent_cons.mpr ⟨⟨rfl, nofun⟩, silent_single rfl nofun⟩⟩
  refine silent_append.mpr ⟨hredirect _ _ _ _, silent_ite ?_ ?_⟩
  · refine silent_cons.mpr ⟨⟨rfl, nofun⟩, silent_cons.mpr ⟨⟨rfl, nofun⟩, ?_⟩⟩
    exact silent_cons.mpr ⟨⟨rfl, nofun⟩, silent_single rfl nofun⟩
  · exact silent_append.mpr ⟨hredirect _ _ _ _, hredirect _ _ _ _⟩

theorem limitsPlan_silent (config : JudgeConfig) : (limitsPlan config).Silent := by
  have hlimit (resource : Resource) (value : UInt64) : (limitPlan resource value).Silent :=
    silent_ite silent_nil (silent_single rfl nofun)
  simp only [limitsPlan, silent_append, hlimit, and_self]

theorem privilegePlan_silent (config : JudgeConfig) : (privilegePlan config).Silent := by
  refine silent_append.mpr ⟨silent_append.mpr ⟨?_, ?_⟩, ?_⟩
  · exact silent_whenever (silent_single rfl nofun)
  · exact silent_whenever (silent_single rfl nofun)
  · exact silent_whenever (silent_single rfl nofun)

theorem seccompPlan_silent (libseccomp : Bool) (config : JudgeConfig) :
    (seccompPlan libseccomp config).Silent := by
  apply silent_whenever
  refine silent_cons.mpr ⟨⟨rfl, nofun⟩, ?_⟩
  simp only [silent_append]
  exact ⟨⟨silent_whenever (silent_rules _), silent_whenever (silent_rules _)⟩,
    silent_cons.mpr ⟨⟨rfl, nofun⟩, silent_single rfl nofun⟩⟩

/-- A part of the setup without throwing calls. -/
theorem quietPart_along {ι : Type} {p : Child Unit} {plan : ι → Plan}
    (h : FollowsSome machine.kernel p () plan) (hquiet : Meets Quiet (fun _ => True) p)
    (hsilent : ∀ i, (plan i).Silent) :
    Along machine (quietly p) () fun i => (plan i).withAllocations :=
  (quietly_along h hquiet fun i x hx => (hsilent i x hx).2).reindex id
    (fun i => (Plan.withAllocations_asks fun x hx => (hsilent i x hx).1).symm)
    Function.surjective_id

theorem applyCgroupOrExit_along (config : JudgeConfig) :
    Along machine (Throwing.applyCgroupOrExit machine config) ()
      fun pid => (cgroupPlan config pid).withAllocations := by
  refine (Along.bind (applyCgroupIfConfigured_along config) ?_ (along_pure ())).reindex
    (fun pid => (pid, ())) (fun _ => List.append_nil _) fun i => ⟨i.1, rfl⟩
  intro errorCode herror
  cases errorCode with
  | none => exact absurd rfl herror
  | some code => exact misses_exit

/-- Each part of the setup on its plan. Only the group and the last step make calls that throw. -/
theorem runChildProcessOrExit_along (machine : Machine) (libseccomp : Bool) (config : JudgeConfig) :
    Along machine (Throwing.runChildProcessOrExit machine libseccomp config) ()
      fun handles => (setupPlan libseccomp config handles).withAllocations := by
  have hstreams (fds : Int × Int × Int) := streamsPlan_silent config fds.1 fds.2.1 fds.2.2
  refine (Along.seq (quietPart_along (changeWorkingDirectoryOrExit_follows config)
      (changeWorkingDirectoryOrExit_meets admits_quiet config)
      fun _ => workingDirectoryPlan_silent config) <|
    Along.seq (quietPart_along (redirectStandardStreamsOrExit_follows config)
      (redirectStandardStreamsOrExit_meets admits_quiet config) hstreams) <|
    Along.seq (quietPart_along (applyResourceLimitsOrExit_follows config)
      (applyResourceLimitsOrExit_meets admits_quiet config) fun _ => limitsPlan_silent config) <|
    Along.seq (applyCgroupOrExit_along config) <|
    Along.seq (quietPart_along (FollowsSome.exitOnError (dropPrivilegesIfConfigured_follows config))
      (exitOnError_meets admits_quiet (dropPrivilegesIfConfigured_meets admits_quiet config))
      fun _ => privilegePlan_silent config) <|
    Along.seq (quietPart_along
      (FollowsSome.exitOnError (applySeccompIfEnabled_follows libseccomp config))
      (exitOnError_meets admits_quiet (applySeccompIfEnabled_meets admits_quiet libseccomp config))
      fun _ => seccompPlan_silent libseccomp config)
      (execProgramOrExit_along config)).reindex
    (fun h : Handles => ((), (h.stdin, h.stdout, h.stderr), (), h.pid, (), (), ())) ?_ ?_
  · intro handles
    simp only [setupPlan, Plan.withAllocations_append]
  · rintro ⟨_, ⟨stdin, stdout, stderr⟩, _, pid, _⟩
    exact ⟨⟨stdin, stdout, stderr, pid⟩, rfl⟩

end Steps

/-- The process became the user's program, left with a code that the parent recognises, or
was ended by a signal. -/
def StaysInChild : Except ChildStop Unit → Prop
  | .ok _ => True
  | .error (.exited _ code) => isChildSetupErrorCode code = true
  | .error (.escaped _) => False
  | .error (.killed _) => True

/-- For every configuration and whatever the machine answers: the child ends in `execve` or
with a recognised code exactly when no step of its plan is reached and throws. -/
theorem child_stays_iff (machine : Machine) (libseccomp : Bool) (config : JudgeConfig) :
    StaysInChild ((Throwing.runChildProcessOrExit machine libseccomp config).run {}).1 ↔
      ∀ handles setupStep,
        ¬ ThrownIn machine setupStep {} (setupPlan libseccomp config handles).withAllocations := by
  have hescapes := (runChildProcessOrExit_along machine libseccomp config).escapes {}
  have hmeets := Throwing.runChildProcessOrExit_meets machine libseccomp config {}
  rw [forall_comm]
  simp only [← not_exists, ← hescapes]
  cases hresult : ((Throwing.runChildProcessOrExit machine libseccomp config).run {}).1 with
  | ok u => exact iff_of_true trivial nofun
  | error stop =>
    rw [hresult] at hmeets
    cases stop with
    | exited step code =>
      have hcode : code = step.code.value := hmeets
      refine iff_of_true ?_ nofun
      rw [hcode]
      exact (step_code_reserved step).1
    | escaped step => exact iff_of_false id fun hnone => hnone ⟨step, rfl⟩
    | killed signal => exact iff_of_true trivial nofun

/-- The address space is too small for the first pointer of `argv`; or the directory of the
cgroup cannot be examined. Either way the child goes on as a worker of the server. -/
theorem exception_leaves_child :
    ((Throwing.runChildProcessOrExit ⟨obligingKernel, fun _ site => site = .argv 0⟩ true
      sampleConfig).run {}).1 = .error (.escaped .execve) ∧
    ((Throwing.runChildProcessOrExit
      ⟨fun calls c => if c = .isDirectory (ascii "/sys/fs/cgroup/oj") then .returned (-1)
        else obligingKernel calls c, fun _ _ => false⟩ true
      { sampleConfig with cgroupPath := ascii "/sys/fs/cgroup/oj" }).run {}).1 =
        .error (.escaped .cgroup) ∧
    ¬ StaysInChild ((Throwing.runChildProcessOrExit
      ⟨obligingKernel, fun _ site => site = .argv 0⟩ true sampleConfig).run {}).1 := by
  have hargv : ((Throwing.runChildProcessOrExit ⟨obligingKernel, fun _ site => site = .argv 0⟩ true
      sampleConfig).run {}).1 = .error (.escaped .execve) := by decide +kernel
  refine ⟨hargv, by decide +kernel, ?_⟩
  rw [hargv]
  exact id

end JudgeServer.Sjudge
