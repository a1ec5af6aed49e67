import JudgeServer.Lib.Pieces

/-!
# Watching a run

Two ways to speak about the order of calls. `Prog.Leads` says of a program which call
must come next after a call and its result, and `Reach.leads` carries this to every
thread of a run. A `Watcher` keeps notes beside the shared state, written after every
call with the name of the thread that made it; the programs never see them. A watched
run is a run, and the rules for programs apply to the watched machine.
-/

namespace JudgeServer.Lib.Interleave
set_option autoImplicit false

variable {σ ε G ξ : Type} {M : Machine σ ε} {α β τ : Type}

/-- After every call its result and the next call are related; `none` is the end of the
program. -/
def Prog.Leads (R : (o : M.Op) → M.Res o → Option M.Op → Prop) : Prog M α → Prop
  | .ret _ => True
  | .call o k => ∀ r, R o r (k r).head ∧ (k r).Leads R

section Leads

variable {R : (o : M.Op) → M.Res o → Option M.Op → Prop}

/-- A demand that is met at the end of a program is met by whatever follows. -/
def Patient (R : (o : M.Op) → M.Res o → Option M.Op → Prop) : Prop :=
  ∀ o r next, R o r none → R o r next

theorem Prog.Leads.bind (hR : Patient R) {p : Prog M α} {f : α → Prog M β} (h : p.Leads R)
    (hf : ∀ a, (f a).Leads R) : (p.bind f).Leads R := by
  induction p with
  | ret a => exact hf a
  | call o k ih =>
    intro r
    obtain ⟨hnext, hrest⟩ := h r
    apply And.intro _ (ih r hrest)
    change R o r ((k r).bind f).head
    cases hk : k r with
    | ret a =>
      rw [hk] at hnext
      exact hR o r _ hnext
    | call o' k' =>
      rw [hk] at hnext
      exact hnext

theorem Prog.Leads.except_bind (hR : Patient R) {p : ExceptT ξ (Prog M) β}
    {f : β → ExceptT ξ (Prog M) α} (hp : p.run.Leads R) (hf : ∀ b, (f b).run.Leads R) :
    (p >>= f).run.Leads R := by
  refine hp.bind hR ?_
  intro x
  cases x with
  | ok b => exact hf b
  | error e => exact True.intro

theorem MadeOf.leads (hR : Patient R) {Piece : {β : Type} → ExceptT ξ (Prog M) β → Prop}
    {p : ExceptT ξ (Prog M) α} (hp : MadeOf Piece p)
    (hpiece : ∀ {β : Type} (q : ExceptT ξ (Prog M) β), Piece q → q.run.Leads R) :
    p.run.Leads R := by
  induction hp with
  | done a => exact True.intro
  | raise e => exact True.intro
  | step hq _ ih => exact (hpiece _ hq).except_bind hR ih

/-- Calls after which nothing is demanded. -/
theorem Prog.Uses.leads {P : M.Op → Prop} {p : Prog M α} (hp : p.Uses P)
    (h : ∀ o r next, P o → R o r next) : p.Leads R := by
  induction p with
  | ret a => exact True.intro
  | call o k ih => exact fun r => ⟨h o r _ hp.1, ih r (hp.2 r)⟩

theorem Reach.leads [DecidableEq τ] {restart : τ → α → Option (Prog M α)}
    {ok : Config M τ α → τ → ε → Prop} {init c : Config M τ α} {t : τ}
    (h0 : (init.thread t).Leads R) (hr : ∀ a p, restart t a = some p → p.Leads R)
    (h : Reach restart ok init c) : (c.thread t).Leads R := by
  induction h with
  | refl => exact h0
  | @tail c c' u e _ _ hs ih =>
    obtain ⟨a, p, -, hp, rfl⟩ | ⟨o, k, r, s', hk, -, rfl⟩ := step_cases hs
    · by_cases hu : t = u
      · subst hu
        simpa using hr a p hp
      · simpa [hu] using ih
    · by_cases hu : t = u
      · subst hu
        rw [hk] at ih
        simpa using (ih r).2
      · simpa [hu] using ih

end Leads

/-- What is noted when a thread has made a call. -/
structure Watcher (M : Machine σ ε) (τ G : Type) where
  note : τ → (o : M.Op) → σ → M.Res o → σ → G → G

namespace Watcher

variable (W : Watcher M τ G)

/-- The machine with the notes; a call carries the name of its thread. -/
def machine : Machine (σ × G) ε where
  Op := τ × M.Op
  Res x := M.Res x.2
  exec x e s := (M.exec x.2 e s.1).map fun r => (r.1, r.2, W.note x.1 x.2 s.1 r.1 r.2 s.2)

/-- A program of one thread on the watched machine. -/
def tag (t : τ) (p : Prog M α) : Prog W.machine α :=
  p.relabel fun o => Prog.op W.machine (t, o)

def tagLoop (restart : τ → α → Option (Prog M α)) (t : τ) (a : α) : Option (Prog W.machine α) :=
  (restart t a).map (W.tag t)

def config (c : Config M τ α) (g : G) : Config W.machine τ α :=
  ⟨(c.shared, g), fun t => W.tag t (c.thread t)⟩

theorem tag_bind (t : τ) (p : Prog M α) (f : α → Prog M β) :
    W.tag t (p.bind f) = (W.tag t p).bind fun a => W.tag t (f a) :=
  Prog.relabel_bind _ p f

theorem tag_head (t : τ) (p : Prog M α) : (W.tag t p).head = p.head.map (Prod.mk t) := by
  cases p <;> rfl

theorem uses_tag {t : τ} {p : Prog M α} {P : M.Op → Prop} (h : p.Uses P) :
    (W.tag t p).Uses fun x : τ × M.Op => x.1 = t ∧ P x.2 := by
  induction p with
  | ret a => exact True.intro
  | call o k ih => exact ⟨⟨rfl, h.1⟩, fun r => ih r (h.2 r)⟩

section Runs

variable [DecidableEq τ] (restart : τ → α → Option (Prog M α))

/-- One step, with the notes after it. -/
def step (c : Config M τ α) (g : G) (t : τ) (e : ε) : Option (Config M τ α × G) :=
  match c.thread t with
  | .ret a => (restart t a).map fun p => (⟨c.shared, Function.update c.thread t p⟩, g)
  | .call o k => (M.exec o e c.shared).map fun r =>
      (⟨r.2, Function.update c.thread t (k r.1)⟩, W.note t o c.shared r.1 r.2 g)

/-- Run a schedule and take notes. -/
def run : Config M τ α → G → List (τ × ε) → Option (Config M τ α × G)
  | c, g, [] => some (c, g)
  | c, g, x :: xs => (W.step restart c g x.1 x.2).bind fun y => run y.1 y.2 xs

variable {restart}

/-- The notes change nothing about the run. -/
theorem step_fst (c : Config M τ α) (g : G) (t : τ) (e : ε) :
    (W.step restart c g t e).map Prod.fst = Interleave.step restart c t e := by
  unfold step Interleave.step
  cases c.thread t with
  | ret a => rw [Option.map_map]; rfl
  | call o k => rw [Option.map_map]; rfl

theorem run_fst (c : Config M τ α) (g : G) (xs : List (τ × ε)) :
    (W.run restart c g xs).map Prod.fst = Interleave.run restart c xs := by
  induction xs generalizing c g with
  | nil => rfl
  | cons x xs ih =>
    rw [run, Interleave.run, Option.map_bind, ← W.step_fst c g]
    cases W.step restart c g x.1 x.2 with
    | none => rfl
    | some y => exact ih y.1 y.2

theorem config_update (c : Config M τ α) (g : G) (s' : σ) (t : τ) (p : Prog M α) :
    W.config ⟨s', Function.update c.thread t p⟩ g =
      ⟨(s', g), Function.update (W.config c g).thread t (W.tag t p)⟩ := by
  have hthread : (fun u => W.tag u (Function.update c.thread t p u)) =
      Function.update (fun u => W.tag u (c.thread u)) t (W.tag t p) := by
    funext u
    by_cases hu : u = t
    · subst hu
      simp
    · simp [hu]
  exact congrArg (Config.mk (s', g)) hthread

theorem step_config {c c' : Config M τ α} {g g' : G} {t : τ} {e : ε}
    (h : W.step restart c g t e = some (c', g')) :
    Interleave.step (W.tagLoop restart) (W.config c g) t e = some (W.config c' g') := by
  unfold step at h
  cases hc : c.thread t with
  | ret a =>
    rw [hc] at h
    obtain ⟨p, hp, hcfg⟩ := Option.map_eq_some_iff.1 h
    obtain ⟨rfl, rfl⟩ := Prod.mk.inj hcfg
    have hthread : (W.config c g).thread t = .ret a := congrArg (W.tag t) hc
    rw [W.config_update, Interleave.step, hthread]
    simp only [tagLoop, hp, Option.map_some]
    rfl
  | call o k =>
    rw [hc] at h
    obtain ⟨⟨r, s'⟩, he, hcfg⟩ := Option.map_eq_some_iff.1 h
    obtain ⟨rfl, rfl⟩ := Prod.mk.inj hcfg
    have hthread : (W.config c g).thread t = .call (t, o) fun r => W.tag t (k r) :=
      congrArg (W.tag t) hc
    have hexec : W.machine.exec (t, o) e (c.shared, g) =
        some (r, s', W.note t o c.shared r s' g) := by
      change Option.map _ (M.exec o e c.shared) = _
      rw [he]
      rfl
    rw [W.config_update]
    exact step_of_exec hthread hexec

theorem reach_of_run_from {init c c' : Config M τ α} {g₀ g g' : G} {xs : List (τ × ε)}
    (hr : Reach (W.tagLoop restart) anyStep (W.config init g₀) (W.config c g))
    (h : W.run restart c g xs = some (c', g')) :
    Reach (W.tagLoop restart) anyStep (W.config init g₀) (W.config c' g') := by
  induction xs generalizing c g with
  | nil =>
    obtain ⟨rfl, rfl⟩ := Prod.mk.inj (Option.some.inj h)
    exact hr
  | cons x xs ih =>
    obtain ⟨⟨d, g₁⟩, hd, hrest⟩ := Option.bind_eq_some_iff.1 h
    exact ih (hr.tail True.intro (W.step_config hd)) hrest

/-- A watched run is a run of the watched machine. -/
theorem reach_of_run {init c : Config M τ α} {g₀ g : G} {xs : List (τ × ε)}
    (h : W.run restart init g₀ xs = some (c, g)) :
    Reach (W.tagLoop restart) anyStep (W.config init g₀) (W.config c g) :=
  W.reach_of_run_from .refl h

end Runs

end Watcher

end JudgeServer.Lib.Interleave
