import JudgeServer.Lib.Interleave

/-!
# Programs put together from pieces

A loop body is a sequence of pieces with some branching between them. If every piece
takes a resting assertion to itself, so does the whole, whatever the branching is; an
exception leaves through its own assertion.

A program written for one machine runs on another one once each of its calls is
replaced by a program of that machine with the same result. The replacement commutes
with sequencing and with exceptions, so facts about the shape of a program carry over.
-/

namespace JudgeServer.Lib.Interleave
set_option autoImplicit false

variable {σ ε ξ : Type} {M : Machine σ ε}

/-- Sequences of pieces, with the choice of the next one left to the results. -/
inductive MadeOf (Piece : {β : Type} → ExceptT ξ (Prog M) β → Prop) :
    {α : Type} → ExceptT ξ (Prog M) α → Prop where
  | done {α : Type} (a : α) : MadeOf Piece (pure a : ExceptT ξ (Prog M) α)
  | raise {α : Type} (e : ξ) : MadeOf Piece (throw e : ExceptT ξ (Prog M) α)
  | step {α β : Type} {p : ExceptT ξ (Prog M) β} {k : β → ExceptT ξ (Prog M) α} :
      Piece p → (∀ b, MadeOf Piece (k b)) → MadeOf Piece (p >>= k)

variable {Piece : {β : Type} → ExceptT ξ (Prog M) β → Prop}

theorem MadeOf.piece {β : Type} {p : ExceptT ξ (Prog M) β} (h : Piece p) : MadeOf Piece p := by
  have hp : MadeOf Piece (p >>= fun b => pure b) :=
    .step h fun b => .done b
  rwa [bind_pure] at hp

theorem MadeOf.bind {α β : Type} {p : ExceptT ξ (Prog M) β} {f : β → ExceptT ξ (Prog M) α}
    (hp : MadeOf Piece p) (hf : ∀ b, MadeOf Piece (f b)) : MadeOf Piece (p >>= f) := by
  induction hp with
  | done a =>
    rw [pure_bind]
    exact hf a
  | raise e => exact MadeOf.raise e
  | step hpiece _ ih =>
    rw [bind_assoc]
    exact .step hpiece ih

/-- A result leaves in `J`, an exception in `E`. -/
def Ends {α : Type} (J E : σ → Prop) : Except ξ α → σ → Prop
  | .ok _, s => J s
  | .error _, s => E s

section Rules

variable {K : Contract M} {α β : Type}

/-- Sequencing with exceptions. -/
theorem Safe.except_bind {Q : Except ξ α → σ → Prop} {p : ExceptT ξ (Prog M) β}
    {f : β → ExceptT ξ (Prog M) α} {R : Except ξ β → σ → Prop} {s : σ}
    (hp : Safe K R p.run s) (hok : ∀ b s, R (.ok b) s → Safe K Q (f b).run s)
    (herr : ∀ e s, R (.error e) s → Safe K Q (.ret (.error e)) s) :
    Safe K Q (p >>= f).run s := by
  apply Safe.bind
  apply hp.mono
  intro x s hx
  cases x with
  | ok b => exact hok b s hx
  | error e => exact herr e s hx

theorem Safe.ends_ret {J E : σ → Prop} (hJ : Stable (K.rely none) J) {a : α} {s : σ} (h : J s) :
    Safe K (Ends (ξ := ξ) J E) (.ret (.ok a)) s :=
  .ret J hJ h fun _ h => h

theorem Safe.ends_throw {J E : σ → Prop} (hE : Stable (K.rely none) E) {e : ξ} {s : σ} (h : E s) :
    Safe K (Ends (α := α) J E) (.ret (.error e)) s :=
  .ret E hE h fun _ h => h

variable {J E : σ → Prop} (hJ : Stable (K.rely none) J) (hE : Stable (K.rely none) E)

include hE in
/-- Sequencing of two parts, the first of which ends in `A`. -/
theorem Safe.ends_bind {A : σ → Prop} {p : ExceptT ξ (Prog M) β}
    {f : β → ExceptT ξ (Prog M) α} {s : σ} (hp : Safe K (Ends A E) p.run s)
    (hf : ∀ b s, A s → Safe K (Ends J E) (f b).run s) : Safe K (Ends J E) (p >>= f).run s :=
  hp.except_bind (fun b s h => hf b s h) fun _ _ h => .ends_throw hE h

include hJ hE in
theorem MadeOf.safe (hJE : ∀ s, J s → E s) {p : ExceptT ξ (Prog M) α} (hp : MadeOf Piece p)
    (hpiece : ∀ {β : Type} (q : ExceptT ξ (Prog M) β), Piece q →
      ∀ s, J s → Safe K (Ends J E) q.run s)
    {s : σ} (h : J s) : Safe K (Ends J E) p.run s := by
  induction hp generalizing s with
  | done a => exact .ends_ret hJ h
  | raise e => exact .ends_throw hE (hJE s h)
  | step hq _ ih => exact (hpiece _ hq s h).ends_bind hE fun b s hs => ih b hs

end Rules

section Calls

variable {P : M.Op → Prop} {α β : Type}

theorem Prog.Uses.except_bind {p : ExceptT ξ (Prog M) β} {f : β → ExceptT ξ (Prog M) α}
    (hp : p.run.Uses P) (hf : ∀ b, (f b).run.Uses P) : (p >>= f).run.Uses P := by
  refine hp.bind ?_
  intro x
  cases x with
  | ok b => exact hf b
  | error e => exact True.intro

theorem Prog.Uses.adapt {ζ : Type} {p : ExceptT ξ (Prog M) α} (hp : p.run.Uses P) (f : ξ → ζ) :
    (ExceptT.adapt f p).run.Uses P :=
  hp.bind fun _ => True.intro

theorem Prog.Uses.trivial (p : Prog M α) : p.Uses fun _ => True := by
  induction p with
  | ret a => exact True.intro
  | call o k ih => exact ⟨True.intro, ih⟩

theorem Prog.Uses.mono {P' : M.Op → Prop} {p : Prog M α} (hp : p.Uses P)
    (h : ∀ o, P o → P' o) : p.Uses P' := by
  induction p with
  | ret a => exact True.intro
  | call o k ih => exact ⟨h o hp.1, fun r => ih r (hp.2 r)⟩

end Calls

section Relabelling

variable {σ' ε' : Type} {N : Machine σ' ε'} {α β : Type}

namespace Prog

def relabel (f : (o : M.Op) → Prog N (M.Res o)) : Prog M α → Prog N α
  | ret a => ret a
  | call o k => (f o).bind fun r => (k r).relabel f

variable (f : (o : M.Op) → Prog N (M.Res o))

theorem relabel_bind (p : Prog M α) (g : α → Prog M β) :
    (p.bind g).relabel f = (p.relabel f).bind fun a => (g a).relabel f := by
  induction p with
  | ret a => rfl
  | call o k ih =>
    simp only [call_bind, relabel, bind_assoc]
    congr 1
    funext r
    exact ih r

/-- The same for programs that may throw. -/
def hoist (p : ExceptT ξ (Prog M) α) : ExceptT ξ (Prog N) α := ExceptT.mk (p.run.relabel f)

theorem hoist_bind (p : ExceptT ξ (Prog M) α) (g : α → ExceptT ξ (Prog M) β) :
    hoist f (p >>= g) = hoist f p >>= fun a => hoist f (g a) := by
  refine (relabel_bind f p.run _).trans ?_
  congr 1
  funext x
  cases x <;> rfl

theorem hoist_tryCatch (p : ExceptT ξ (Prog M) α) (g : ξ → ExceptT ξ (Prog M) α) :
    hoist f (tryCatch p g) = tryCatch (hoist f p) fun e => hoist f (g e) := by
  refine (relabel_bind f p.run _).trans ?_
  congr 1
  funext x
  cases x <;> rfl

end Prog

end Relabelling

end JudgeServer.Lib.Interleave
