import JudgeServer.Lib.Pieces

/-!
# What a program can return

`Returns` says of a program what holds of its results whatever its calls answer. It goes
together with the calls the program can make to what holds when it has been run.
-/

namespace JudgeServer.Lib.Interleave
set_option autoImplicit false

variable {σ ε ξ : Type} {M : Machine σ ε} {α β : Type}

/-- Every result the program can return satisfies `P`. -/
def Prog.Returns (P : α → Prop) : Prog M α → Prop
  | ret a => P a
  | call _ k => ∀ r, (k r).Returns P

theorem Prog.Returns.bind {P : α → Prop} {Q : β → Prop} {p : Prog M α} {f : α → Prog M β}
    (h : p.Returns P) (hf : ∀ a, P a → (f a).Returns Q) : (p.bind f).Returns Q := by
  induction p with
  | ret a => exact hf a h
  | call o k ih => exact fun r => ih r (h r)

theorem Prog.Returns.op_bind {P : α → Prop} {o : M.Op} {f : M.Res o → Prog M α}
    (hf : ∀ r, (f r).Returns P) : (op M o >>= f).Returns P := hf

theorem Prog.Returns.trivial (p : Prog M α) : p.Returns fun _ => True := by
  induction p with
  | ret a => exact True.intro
  | call o k ih => exact ih

/-- A property of the value of a program that does not throw. -/
def IfOk (P : α → Prop) : Except ξ α → Prop
  | .ok a => P a
  | .error _ => True

theorem Prog.Returns.except_bind {P : β → Prop} {p : ExceptT ξ (Prog M) α}
    {f : α → ExceptT ξ (Prog M) β} (hf : ∀ a, (f a).run.Returns (IfOk P)) :
    (p >>= f).run.Returns (IfOk P) := by
  refine (Prog.Returns.trivial p.run).bind ?_
  intro x _
  cases x with
  | ok a => exact hf a
  | error e => exact True.intro

section Rules

variable {K K' : Contract M} {Q Q' : α → σ → Prop} {p : Prog M α} {s : σ}

/-- Two facts about the same runs; one of them may be about fewer obligations. -/
theorem Safe.and (hrely : K'.rely = K.rely) (hallows : K'.allows = K.allows) (h : Safe K Q p s)
    (h' : Safe K' Q' p s) : Safe K (fun a s => Q a s ∧ Q' a s) p s := by
  induction p generalizing s with
  | ret a =>
    intro u hu
    exact ⟨h u hu, h' u (by rw [hrely]; exact hu)⟩
  | call o k ih =>
    intro u hu
    obtain ⟨hpre, hk⟩ := h u hu
    obtain ⟨-, hk'⟩ := h' u (by rw [hrely]; exact hu)
    refine ⟨hpre, fun e r s'' ha he => ih r (hk e r s'' ha he) ?_⟩
    exact hk' e r s'' (by rw [hallows]; exact ha) he

/-- A result that is returned has what every result has. -/
theorem Safe.returns {P : α → Prop} (h : Safe K Q p s) (hp : p.Returns P) :
    Safe K (fun a s => Q a s ∧ P a) p s := by
  induction p generalizing s with
  | ret a => exact fun u hu => ⟨h u hu, hp⟩
  | call o k ih =>
    intro u hu
    obtain ⟨hpre, hk⟩ := h u hu
    exact ⟨hpre, fun e r s'' ha he => ih r (hk e r s'' ha he) (hp r)⟩

end Rules

end JudgeServer.Lib.Interleave
