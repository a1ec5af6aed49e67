import Mathlib.Logic.Function.Basic
import Mathlib.Logic.Relation

/-!
# Programs of atomic calls and their interleavings

A thread is a program: a tree whose nodes are atomic calls on a shared state and
whose branches are the possible results. Several threads run by interleaving their
calls; what the environment decides inside a call (a clock reading, how much a
socket accepts) is an explicit input of the step. A thread that returns may be
restarted, which is how an endless loop is written.

The proof rule is a weakest precondition with a rely: `Safe` says of a program and a
state that, whatever the other threads do within the rely, each call is made in a
state that meets its obligation and the result satisfies the postcondition.
`Reach.safe` turns one such fact per thread into a fact about every reachable
configuration.
-/

namespace JudgeServer.Lib.Interleave
set_option autoImplicit false

/-- Atomic calls on a shared state `σ`, with environment inputs `ε`. A call that
returns `none` is not enabled on that input. -/
structure Machine (σ ε : Type) where
  Op : Type
  Res : Op → Type
  exec : (o : Op) → ε → σ → Option (Res o × σ)

variable {σ ε : Type} {M : Machine σ ε} {α β γ τ : Type}

inductive Prog (M : Machine σ ε) (α : Type) where
  | ret (a : α) : Prog M α
  | call (o : M.Op) (k : M.Res o → Prog M α) : Prog M α

namespace Prog

def bind : Prog M α → (α → Prog M β) → Prog M β
  | ret a, f => f a
  | call o k, f => call o fun r => (k r).bind f

instance : Monad (Prog M) where
  pure := ret
  bind := bind

/-- The program that makes one call and returns its result. -/
def op (M : Machine σ ε) (o : M.Op) : Prog M (M.Res o) := call o ret

/-- The call a thread is about to make. -/
def head : Prog M α → Option M.Op
  | ret _ => none
  | call o _ => some o

/-- Every call the program can make satisfies `P`. -/
def Uses (P : M.Op → Prop) : Prog M α → Prop
  | ret _ => True
  | call o k => P o ∧ ∀ r, (k r).Uses P

@[simp] theorem pure_eq (a : α) : (pure a : Prog M α) = ret a := rfl
@[simp] theorem bind_eq (p : Prog M α) (f : α → Prog M β) : p >>= f = p.bind f := rfl
@[simp] theorem ret_bind (a : α) (f : α → Prog M β) : (ret a).bind f = f a := rfl
@[simp] theorem call_bind (o : M.Op) (k : M.Res o → Prog M α) (f : α → Prog M β) :
    (call o k).bind f = call o fun r => (k r).bind f := rfl
@[simp] theorem op_bind (o : M.Op) (f : M.Res o → Prog M β) : (op M o).bind f = call o f := rfl

theorem bind_assoc (p : Prog M α) (f : α → Prog M β) (g : β → Prog M γ) :
    (p.bind f).bind g = p.bind fun a => (f a).bind g := by
  induction p with
  | ret a => rfl
  | call o k ih => simp only [call_bind]; congr 1; funext r; exact ih r

theorem bind_ret (p : Prog M α) : p.bind ret = p := by
  induction p with
  | ret a => rfl
  | call o k ih => simp only [call_bind]; congr 1; funext r; exact ih r

instance : LawfulMonad (Prog M) := LawfulMonad.mk' _ bind_ret (fun _ _ => rfl) bind_assoc

theorem Uses.bind {P : M.Op → Prop} {p : Prog M α} {f : α → Prog M β} (h : p.Uses P)
    (hf : ∀ a, (f a).Uses P) : (p.bind f).Uses P := by
  induction p with
  | ret a => exact hf a
  | call o k ih => exact ⟨h.1, fun r => ih r (h.2 r)⟩

theorem Uses.op_bind {P : M.Op → Prop} {o : M.Op} {f : M.Res o → Prog M β} (h : P o)
    (hf : ∀ r, (f r).Uses P) : (op M o >>= f).Uses P :=
  ⟨h, hf⟩

end Prog

/-- The shared state and what every thread has left to do. -/
structure Config (M : Machine σ ε) (τ α : Type) where
  shared : σ
  thread : τ → Prog M α

section Step

variable [DecidableEq τ] (restart : τ → α → Option (Prog M α))

/-- One step of thread `t` on environment input `e`: a call, or the restart of a
thread that has returned. -/
def step (c : Config M τ α) (t : τ) (e : ε) : Option (Config M τ α) :=
  match c.thread t with
  | .ret a => (restart t a).map fun p => ⟨c.shared, Function.update c.thread t p⟩
  | .call o k => (M.exec o e c.shared).map fun r => ⟨r.2, Function.update c.thread t (k r.1)⟩

/-- Run a schedule; `none` if some step of it is not enabled. -/
def run : Config M τ α → List (τ × ε) → Option (Config M τ α)
  | c, [] => some c
  | c, x :: xs => (step restart c x.1 x.2).bind fun c' => run c' xs

/-- Run a schedule as long as its steps pass a test. -/
def runWhere (test : Config M τ α → τ → ε → Bool) :
    Config M τ α → List (τ × ε) → Option (Config M τ α)
  | c, [] => some c
  | c, x :: xs =>
      if test c x.1 x.2 then (step restart c x.1 x.2).bind fun c' => runWhere test c' xs else none

/-- The configurations reachable by steps that all satisfy `ok`. -/
inductive Reach (ok : Config M τ α → τ → ε → Prop) (init : Config M τ α) :
    Config M τ α → Prop where
  | refl : Reach ok init init
  | tail {c c' : Config M τ α} {t : τ} {e : ε} : Reach ok init c → ok c t e →
      step restart c t e = some c' → Reach ok init c'

/-- The same with the schedule that leads there. -/
inductive Trace (ok : Config M τ α → τ → ε → Prop) (init : Config M τ α) :
    List (τ × ε) → Config M τ α → Prop where
  | nil : Trace ok init [] init
  | snoc {xs : List (τ × ε)} {c c' : Config M τ α} {t : τ} {e : ε} : Trace ok init xs c →
      ok c t e → step restart c t e = some c' → Trace ok init (xs ++ [(t, e)]) c'

/-- Any interleaving at all. -/
def anyStep : Config M τ α → τ → ε → Prop := fun _ _ _ => True

variable {restart}

theorem Reach.mono {ok ok' : Config M τ α → τ → ε → Prop} {init c : Config M τ α}
    (h : ∀ c t e, ok c t e → ok' c t e) (hr : Reach restart ok init c) :
    Reach restart ok' init c := by
  induction hr with
  | refl => exact .refl
  | tail _ ho hs ih => exact .tail ih (h _ _ _ ho) hs

theorem Reach.runWhere_of {ok : Config M τ α → τ → ε → Prop}
    {test : Config M τ α → τ → ε → Bool} (hok : ∀ c t e, test c t e = true → ok c t e)
    {init c c' : Config M τ α} {xs : List (τ × ε)} (hr : Reach restart ok init c)
    (h : runWhere restart test c xs = some c') : Reach restart ok init c' := by
  induction xs generalizing c with
  | nil =>
    obtain rfl := Option.some.inj h
    exact hr
  | cons x xs ih =>
    rw [runWhere] at h
    split at h
    · next hx =>
      obtain ⟨d, hd, hrest⟩ := Option.bind_eq_some_iff.mp h
      exact ih (hr.tail (hok c x.1 x.2 hx) hd) hrest
    · cases h

/-- A schedule that passes the test to its end reaches its last configuration. -/
theorem reach_of_runWhere {ok : Config M τ α → τ → ε → Prop}
    {test : Config M τ α → τ → ε → Bool} (hok : ∀ c t e, test c t e = true → ok c t e)
    {init c : Config M τ α} {xs : List (τ × ε)} (h : runWhere restart test init xs = some c) :
    Reach restart ok init c :=
  Reach.runWhere_of hok .refl h

theorem run_eq_runWhere (c : Config M τ α) (xs : List (τ × ε)) :
    run restart c xs = runWhere restart (fun _ _ _ => true) c xs := by
  induction xs generalizing c with
  | nil => rfl
  | cons x xs ih =>
    rw [run, runWhere, if_pos rfl]
    congr 1
    funext d
    exact ih d

theorem reach_of_run {init c : Config M τ α} {xs : List (τ × ε)}
    (h : run restart init xs = some c) : Reach restart anyStep init c := by
  rw [run_eq_runWhere] at h
  exact reach_of_runWhere (fun _ _ _ _ => trivial) h

/-- A schedule all of whose inputs are admitted. -/
theorem Reach.run_of {ok : Config M τ α → τ → ε → Prop} {init c c' : Config M τ α}
    {xs : List (τ × ε)} (hok : ∀ x ∈ xs, ∀ c, ok c x.1 x.2) (hr : Reach restart ok init c)
    (h : run restart c xs = some c') : Reach restart ok init c' := by
  induction xs generalizing c with
  | nil =>
    obtain rfl := Option.some.inj h
    exact hr
  | cons x xs ih =>
    rw [run] at h
    obtain ⟨d, hd, hrest⟩ := Option.bind_eq_some_iff.mp h
    have hnext := hr.tail (hok x List.mem_cons_self c) hd
    exact ih (fun y hy => hok y (List.mem_cons_of_mem x hy)) hnext hrest

/-- Some reachable configuration has this shared state and leaves thread `t` this much. -/
def ReachAt (restart : τ → α → Option (Prog M α)) (ok : Config M τ α → τ → ε → Prop)
    (init : Config M τ α) (t : τ) (p : Prog M α) (s : σ) : Prop :=
  ∃ c, Reach restart ok init c ∧ c.thread t = p ∧ c.shared = s

theorem ReachAt.start {ok : Config M τ α → τ → ε → Prop} (init : Config M τ α) (t : τ) :
    ReachAt restart ok init t (init.thread t) init.shared := ⟨init, .refl, rfl, rfl⟩

theorem step_of_exec {c : Config M τ α} {t : τ} {e : ε} {o : M.Op} {k : M.Res o → Prog M α}
    {r : M.Res o} {s' : σ} (hk : c.thread t = .call o k) (he : M.exec o e c.shared = some (r, s')) :
    step restart c t e = some ⟨s', Function.update c.thread t (k r)⟩ := by
  unfold step
  rw [hk]
  simp only [he, Option.map_some]

/-- The thread makes its next call. -/
theorem ReachAt.call {init : Config M τ α} {t : τ} {o : M.Op} {k : M.Res o → Prog M α} {s s' : σ}
    {r : M.Res o} (h : ReachAt restart anyStep init t (.call o k) s) (e : ε)
    (he : M.exec o e s = some (r, s')) : ReachAt restart anyStep init t (k r) s' := by
  obtain ⟨c, hc, hp, hs⟩ := h
  subst hs
  exact ⟨_, hc.tail trivial (step_of_exec hp he), Function.update_self _ _ _, rfl⟩

theorem Trace.reach {ok : Config M τ α → τ → ε → Prop} {init c : Config M τ α}
    {xs : List (τ × ε)} (h : Trace restart ok init xs c) : Reach restart ok init c := by
  induction h with
  | nil => exact .refl
  | snoc _ ho hs ih => exact .tail ih ho hs

theorem Trace.run_of {ok : Config M τ α → τ → ε → Prop} {init c c' : Config M τ α}
    {xs ys : List (τ × ε)} (hok : ∀ c, Reach restart ok init c → ∀ t e, ok c t e)
    (ht : Trace restart ok init ys c) (h : run restart c xs = some c') :
    Trace restart ok init (ys ++ xs) c' := by
  induction xs generalizing c ys with
  | nil =>
    obtain rfl := Option.some.inj h
    rwa [List.append_nil]
  | cons x xs ih =>
    rw [run, Option.bind_eq_some_iff] at h
    obtain ⟨d, hd, hx⟩ := h
    have hnext := ih (ht.snoc (hok c ht.reach x.1 x.2) hd) hx
    rwa [List.append_assoc] at hnext

/-- A schedule that runs to the end is a trace, if `ok` holds wherever it can go. -/
theorem trace_of_run {ok : Config M τ α → τ → ε → Prop} {init c : Config M τ α}
    {xs : List (τ × ε)} (hok : ∀ c, Reach restart ok init c → ∀ t e, ok c t e)
    (h : run restart init xs = some c) : Trace restart ok init xs c :=
  Trace.run_of hok .nil h

theorem Trace.runWhere_of {ok : Config M τ α → τ → ε → Prop}
    {test : Config M τ α → τ → ε → Bool} (hok : ∀ c t e, test c t e = true → ok c t e)
    {init c c' : Config M τ α} {xs ys : List (τ × ε)} (ht : Trace restart ok init ys c)
    (h : runWhere restart test c xs = some c') : Trace restart ok init (ys ++ xs) c' := by
  induction xs generalizing c ys with
  | nil =>
    obtain rfl := Option.some.inj h
    rwa [List.append_nil]
  | cons x xs ih =>
    rw [runWhere] at h
    split at h
    · next hx =>
      obtain ⟨d, hd, hrest⟩ := Option.bind_eq_some_iff.mp h
      have hnext := ih (ht.snoc (hok c x.1 x.2 hx) hd) hrest
      rwa [List.append_assoc] at hnext
    · cases h

theorem trace_of_runWhere {ok : Config M τ α → τ → ε → Prop}
    {test : Config M τ α → τ → ε → Bool} (hok : ∀ c t e, test c t e = true → ok c t e)
    {init c : Config M τ α} {xs : List (τ × ε)} (h : runWhere restart test init xs = some c) :
    Trace restart ok init xs c :=
  Trace.runWhere_of hok .nil h

theorem run_snoc (c : Config M τ α) (xs : List (τ × ε)) (x : τ × ε) :
    run restart c (xs ++ [x]) = (run restart c xs).bind fun d => step restart d x.1 x.2 := by
  induction xs generalizing c with
  | nil => exact Option.bind_fun_some _
  | cons y xs ih =>
    rw [List.cons_append, run, run, Option.bind_assoc]
    congr 1
    funext d
    exact ih d

/-- A trace is a run. -/
theorem run_of_trace {ok : Config M τ α → τ → ε → Prop} {init c : Config M τ α}
    {xs : List (τ × ε)} (h : Trace restart ok init xs c) : run restart init xs = some c := by
  induction h with
  | nil => rfl
  | snoc _ _ hs ih =>
    rw [run_snoc, ih]
    exact hs

/-- What a step does: a restart, or one call of the thread that moved. -/
theorem step_cases {c c' : Config M τ α} {t : τ} {e : ε} (h : step restart c t e = some c') :
    (∃ a p, c.thread t = .ret a ∧ restart t a = some p ∧
      c' = ⟨c.shared, Function.update c.thread t p⟩) ∨
    (∃ o k r s', c.thread t = .call o k ∧ M.exec o e c.shared = some (r, s') ∧
      c' = ⟨s', Function.update c.thread t (k r)⟩) := by
  unfold step at h
  split at h
  · next a ha =>
    obtain ⟨p, hp, rfl⟩ := Option.map_eq_some_iff.mp h
    exact .inl ⟨a, p, ha, hp, rfl⟩
  · next o k hk =>
    obtain ⟨⟨r, s'⟩, he, rfl⟩ := Option.map_eq_some_iff.mp h
    exact .inr ⟨o, k, r, s', hk, he, rfl⟩

end Step

/-- The calls a thread can make are those of the program it was given. -/
theorem Reach.uses [DecidableEq τ] {restart : τ → α → Option (Prog M α)}
    {ok : Config M τ α → τ → ε → Prop} {init c : Config M τ α} {P : τ → M.Op → Prop}
    (h0 : ∀ t, (init.thread t).Uses (P t)) (hr : ∀ t a p, restart t a = some p → p.Uses (P t))
    (h : Reach restart ok init c) (t : τ) : (c.thread t).Uses (P t) := by
  induction h with
  | refl => exact h0 t
  | @tail c c' u e _ _ hs ih =>
    rcases step_cases hs with ⟨a, p, _, hp, rfl⟩ | ⟨o, k, r, s', hk, _, rfl⟩
    · by_cases hu : t = u
      · subst hu
        simpa using hr t a p hp
      · simpa [hu] using ih
    · by_cases hu : t = u
      · subst hu
        rw [hk] at ih
        simpa using ih.2 r
      · simpa [hu] using ih

theorem Prog.exists_call {p : Prog M α} {o : M.Op} (h : p.head = some o) : ∃ k, p = .call o k := by
  cases p with
  | ret a => cases h
  | call o' k =>
    obtain rfl := Option.some.inj h
    exact ⟨k, rfl⟩

theorem Prog.Uses.head {P : M.Op → Prop} {p : Prog M α} (h : p.Uses P) {o : M.Op}
    (ho : p.head = some o) : P o := by
  obtain ⟨k, rfl⟩ := Prog.exists_call ho
  exact h.1

/-- What one thread is verified against: which of its own calls the run promises,
what other threads may do while a given call is next, and what must hold whenever
a call is made. -/
structure Contract (M : Machine σ ε) where
  allows : M.Op → ε → σ → Prop
  rely : Option M.Op → σ → σ → Prop
  pre : M.Op → σ → Prop

/-- The weakest precondition of a program among threads that respect the rely. -/
def Safe (K : Contract M) (post : α → σ → Prop) : Prog M α → σ → Prop
  | .ret a, s => ∀ s', Relation.ReflTransGen (K.rely none) s s' → post a s'
  | .call o k, s => ∀ s', Relation.ReflTransGen (K.rely (some o)) s s' →
      K.pre o s' ∧ ∀ e r s'', K.allows o e s' → M.exec o e s' = some (r, s'') →
        Safe K post (k r) s''

section Rules

variable {K : Contract M} {Q : α → σ → Prop}

/-- An assertion that interference within `R` cannot break. -/
def Stable (R : σ → σ → Prop) (A : σ → Prop) : Prop := ∀ s s', A s → R s s' → A s'

theorem Stable.many {R : σ → σ → Prop} {A : σ → Prop} (hs : Stable R A) {s s' : σ}
    (h : A s) (hr : Relation.ReflTransGen R s s') : A s' := by
  induction hr with
  | refl => exact h
  | tail _ h' ih => exact hs _ _ ih h'

theorem Safe.rely {p : Prog M α} {s s' : σ} (h : Safe K Q p s) (hr : K.rely p.head s s') :
    Safe K Q p s' := by
  cases p with
  | ret a => exact fun u hu => h u (hu.head hr)
  | call o k => exact fun u hu => h u (hu.head hr)

theorem Safe.ret {a : α} {s : σ} (A : σ → Prop) (hs : Stable (K.rely none) A) (h : A s)
    (hp : ∀ s, A s → Q a s) : Safe K Q (.ret a) s :=
  fun _ hu => hp _ (hs.many h hu)

/-- The rule for one call: an assertion stable while the call is pending. -/
theorem Safe.call {o : M.Op} {k : M.Res o → Prog M α} {s : σ} (A : σ → Prop)
    (hs : Stable (K.rely (some o)) A) (h : A s) (hpre : ∀ s, A s → K.pre o s)
    (hk : ∀ s e r s', A s → K.allows o e s → M.exec o e s = some (r, s') →
      Safe K Q (k r) s') : Safe K Q (.call o k) s := by
  intro u hu
  have ha := hs.many h hu
  exact ⟨hpre u ha, fun e r s'' hok he => hk u e r s'' ha hok he⟩

/-- The same for a call in front of a program. -/
theorem Safe.op_bind {o : M.Op} {f : M.Res o → Prog M α} {s : σ} (A : σ → Prop)
    (hs : Stable (K.rely (some o)) A) (h : A s) (hpre : ∀ s, A s → K.pre o s)
    (hk : ∀ s e r s', A s → K.allows o e s → M.exec o e s = some (r, s') →
      Safe K Q (f r) s') : Safe K Q (Prog.op M o >>= f) s :=
  .call A hs h hpre hk

theorem Safe.pre {o : M.Op} {k : M.Res o → Prog M α} {s : σ}
    (h : Safe K Q (.call o k) s) : K.pre o s := (h s .refl).1

theorem Safe.pre_head {p : Prog M α} {s : σ} (h : Safe K Q p s) {o : M.Op}
    (ho : p.head = some o) : K.pre o s := by
  obtain ⟨k, rfl⟩ := Prog.exists_call ho
  exact h.pre

theorem Safe.next {o : M.Op} {k : M.Res o → Prog M α} {s s' : σ} {e : ε} {r : M.Res o}
    (h : Safe K Q (.call o k) s) (ha : K.allows o e s)
    (he : M.exec o e s = some (r, s')) : Safe K Q (k r) s' := (h s .refl).2 e r s' ha he

theorem Safe.post {a : α} {s : σ} (h : Safe K Q (.ret a) s) : Q a s := h s .refl

/-- Sequencing. The intermediate assertion need not be stable: nothing happens
between the last call of `p` and the first of what follows. -/
theorem Safe.bind {p : Prog M β} {f : β → Prog M α} {s : σ}
    (h : Safe K (fun b s => Safe K Q (f b) s) p s) : Safe K Q (p.bind f) s := by
  induction p generalizing s with
  | ret b => exact h s .refl
  | call o k ih =>
    intro u hu
    obtain ⟨hp, hk⟩ := h u hu
    exact ⟨hp, fun e r s'' ha he => ih r (hk e r s'' ha he)⟩

theorem Safe.mono {Q' : α → σ → Prop} {p : Prog M α} {s : σ} (h : Safe K Q p s)
    (hp : ∀ a s, Q a s → Q' a s) : Safe K Q' p s := by
  induction p generalizing s with
  | ret a => exact fun u hu => hp a u (h u hu)
  | call o k ih =>
    intro u hu
    obtain ⟨hp', hk⟩ := h u hu
    exact ⟨hp', fun e r s'' ha he => ih r (hk e r s'' ha he)⟩

/-- Nothing to show where nothing is asked. -/
theorem Safe.trivial {p : Prog M α} {s : σ} (hpre : ∀ o s, K.pre o s) (hq : ∀ a s, Q a s) :
    Safe K Q p s := by
  induction p generalizing s with
  | ret a => exact fun u _ => hq a u
  | call o k ih => exact fun u _ => ⟨hpre o u, fun _ r _ _ _ => ih r⟩

/-- A program all of whose calls keep one assertion keeps it. -/
theorem Safe.of_uses {P : M.Op → Prop} {p : Prog M α} {s : σ} (A : σ → Prop)
    (hu : p.Uses P) (hs : ∀ o, Stable (K.rely o) A) (h : A s)
    (hpre : ∀ o s, P o → A s → K.pre o s)
    (hk : ∀ o s e r s', P o → A s → K.allows o e s → M.exec o e s = some (r, s') → A s') :
    Safe K (fun _ => A) p s := by
  induction p generalizing s with
  | ret a => exact .ret A (hs none) h fun _ h => h
  | call o k ih =>
    exact .call A (hs _) h (fun s ha => hpre o s hu.1 ha) fun s e r s' ha hok he =>
      ih r (hu.2 r) (hk o s e r s' hu.1 ha hok he)

end Rules

section Soundness

variable [DecidableEq τ] {restart : τ → α → Option (Prog M α)}
  {ok : Config M τ α → τ → ε → Prop} {init : Config M τ α}

/-- One contract per thread, with a loop invariant `J t` that each return of `t`
re-establishes. The steps admitted by `ok` must stay within what the moving thread
was promised and within what every other thread relies on at its next call. -/
theorem Reach.safe (K : τ → Contract M) (J : τ → α → σ → Prop)
    (hinit : ∀ t, Safe (K t) (J t) (init.thread t) init.shared)
    (hloop : ∀ t a p s, restart t a = some p → J t a s → Safe (K t) (J t) p s)
    (hok : ∀ c t e o k r s', Reach restart ok init c → ok c t e → c.thread t = .call o k →
      (K t).pre o c.shared → M.exec o e c.shared = some (r, s') →
      (K t).allows o e c.shared ∧
        ∀ t', t' ≠ t → (K t').rely (c.thread t').head c.shared s')
    {c : Config M τ α} (hr : Reach restart ok init c) :
    ∀ t, Safe (K t) (J t) (c.thread t) c.shared := by
  induction hr with
  | refl => exact hinit
  | @tail c c' t e hc ho hs ih =>
    intro u
    rcases step_cases hs with ⟨a, p, ha, hp, rfl⟩ | ⟨o, k, r, s', hk, he, rfl⟩
    · by_cases hu : u = t
      · subst hu
        have hj := ih u
        rw [ha] at hj
        simpa using hloop u a p _ hp hj.post
      · simpa [hu] using ih u
    · have hsafe := ih t
      rw [hk] at hsafe
      obtain ⟨hallow, hrely⟩ := hok c t e o k r s' hc ho hk hsafe.pre he
      by_cases hu : u = t
      · subst hu
        simpa using hsafe.next hallow he
      · simpa [hu] using (ih u).rely (hrely u hu)

/-- An invariant of the shared state, given what `Reach.safe` says of the calls made. -/
theorem Reach.invariant (I : σ → Prop) (h0 : I init.shared)
    (hstep : ∀ c t e o k r s', Reach restart ok init c → ok c t e → c.thread t = .call o k →
      M.exec o e c.shared = some (r, s') → I c.shared → I s')
    {c : Config M τ α} (hr : Reach restart ok init c) : I c.shared := by
  induction hr with
  | refl => exact h0
  | @tail c c' t e hc ho hs ih =>
    rcases step_cases hs with ⟨a, p, _, _, rfl⟩ | ⟨o, k, r, s', hk, he, rfl⟩
    · exact ih
    · exact hstep c t e o k r s' hc ho hk he ih

end Soundness

end JudgeServer.Lib.Interleave
