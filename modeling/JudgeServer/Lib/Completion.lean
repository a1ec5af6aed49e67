import JudgeServer.Lib.Interleave
import Mathlib.Data.DFinsupp.WellFounded
import Mathlib.SetTheory.Cardinal.Order

/-!
# Runs that come to an end

Threads that are restarted can run for ever. They cannot when the restarts are paid for:
some threads are never restarted and supply a shared fuel, the others are restarted only
behind a reply that has used some of it up. Then every run is finite, and what is left to
look at are the configurations in which no thread can move.
-/

namespace JudgeServer.Lib.Interleave
set_option autoImplicit false

variable {σ ε : Type} {M : Machine σ ε} {α τ : Type}

section Thread

variable {restart : α → Option (Prog M α)} {paid : ∀ o, M.Res o → Prop}

/-- On every way to a result that is restarted there is a paid reply. -/
def Prog.Pays (restart : α → Option (Prog M α)) (paid : ∀ o, M.Res o → Prop) : Prog M α → Prop
  | ret a => restart a = none
  | call o k => ∀ r, paid o r ∨ (k r).Pays restart paid

/-- What comes before a program that pays changes nothing. -/
theorem Prog.Pays.bind {β : Type} {p : Prog M β} {f : β → Prog M α}
    (h : ∀ b, (f b).Pays restart paid) : (p.bind f).Pays restart paid := by
  induction p with
  | ret b => exact h b
  | call o k ih => exact fun r => Or.inr (ih r)

/-- A move of the thread that is not paid for. -/
inductive Unpaid (restart : α → Option (Prog M α)) (paid : ∀ o, M.Res o → Prop) :
    Prog M α → Prog M α → Prop where
  | call {o : M.Op} {k : M.Res o → Prog M α} {r : M.Res o} (h : ¬ paid o r) :
      Unpaid restart paid (k r) (.call o k)
  | restart {a : α} {p : Prog M α} (h : restart a = some p) : Unpaid restart paid p (.ret a)

theorem Prog.Pays.acc {p : Prog M α} (h : p.Pays restart paid) : Acc (Unpaid restart paid) p := by
  induction p with
  | ret a =>
    refine ⟨_, fun q hq => ?_⟩
    cases hq with
    | restart hsome =>
      have hnone : restart a = none := h
      rw [hnone] at hsome
      cases hsome
  | call o k ih =>
    refine ⟨_, fun q hq => ?_⟩
    cases hq with
    | call hunpaid => exact ih _ ((h _).resolve_left hunpaid)

/-- Left with what it has, a thread stops. -/
theorem unpaid_wellFounded (hpays : ∀ a p, restart a = some p → p.Pays restart paid) :
    WellFounded (Unpaid restart paid) := by
  refine ⟨fun p => ?_⟩
  induction p with
  | ret a =>
    refine ⟨_, fun q hq => ?_⟩
    cases hq with
    | restart hsome => exact (hpays a q hsome).acc
  | call o k ih =>
    refine ⟨_, fun q hq => ?_⟩
    cases hq with
    | call _ => exact ih _

end Thread

section Family

variable {ι : Type} {β : ι → Type} {r : ∀ i, β i → β i → Prop}

/-- One member goes down, the others stay. -/
def OneDown (r : ∀ i, β i → β i → Prop) (f' f : ∀ i, β i) : Prop :=
  ∃ i, r i (f' i) (f i) ∧ ∀ j, j ≠ i → f' j = f j

theorem oneDown_wellFounded [Finite ι] (h : ∀ i, WellFounded (r i)) : WellFounded (OneDown r) := by
  refine Subrelation.wf ?_ (Pi.Lex.wellFounded WellOrderingRel h)
  rintro f' f ⟨i, hdown, hrest⟩
  refine ⟨i, fun j hj => hrest j ?_, hdown⟩
  rintro rfl
  exact irrefl_of WellOrderingRel j hj

end Family

section System

variable [DecidableEq τ]

/-- Some thread makes a step. -/
def Moves (restart : τ → α → Option (Prog M α)) (c' c : Config M τ α) : Prop :=
  ∃ t e, step restart c t e = some c'

/-- No thread can make a step. -/
def AtRest (restart : τ → α → Option (Prog M α)) (c : Config M τ α) : Prop :=
  ∀ t e, step restart c t e = none

section AtRest

variable {restart : τ → α → Option (Prog M α)} {c : Config M τ α} {t : τ}

theorem AtRest.blocked (h : AtRest restart c) {o : M.Op} {k : M.Res o → Prog M α}
    (ht : c.thread t = .call o k) (e : ε) : M.exec o e c.shared = none := by
  cases hexec : M.exec o e c.shared with
  | none => rfl
  | some x =>
    have hstep := h t e
    rw [step_of_exec ht hexec] at hstep
    cases hstep

theorem AtRest.stopped (h : AtRest restart c) {a : α} (ht : c.thread t = .ret a) (e : ε) :
    restart t a = none := by
  have hstep := h t e
  unfold step at hstep
  rw [ht] at hstep
  exact Option.map_eq_none_iff.mp hstep

end AtRest

/-- How the restarts are paid for. -/
structure Economy (restart : τ → α → Option (Prog M α)) where
  /-- The calls of each thread. -/
  makes : τ → M.Op → Prop
  /-- The threads that are not restarted. -/
  supplies : τ → Prop
  fuel : σ → Nat
  paid : ∀ o, M.Res o → Prop
  calls : ∀ t a p, restart t a = some p → p.Uses (makes t)
  pays : ∀ t a p, restart t a = some p → p.Pays (restart t) fun o r => ¬ supplies t ∧ paid o r
  spends : ∀ t o e s r s', ¬ supplies t → makes t o → M.exec o e s = some (r, s') →
    fuel s' ≤ fuel s ∧ (paid o r → fuel s' < fuel s)

namespace Economy

variable {restart : τ → α → Option (Prog M α)} (E : Economy restart)

/-- A move of thread `t` without paying. -/
def unpaid (t : τ) : Prog M α → Prog M α → Prop :=
  Unpaid (restart t) fun o r => ¬ E.supplies t ∧ E.paid o r

omit [DecidableEq τ] in
theorem unpaid_wf (t : τ) : WellFounded (E.unpaid t) := unpaid_wellFounded (E.pays t)

/-- The suppliers come first, then the fuel, then those who spend it. -/
def account (c : Config M τ α) :
    ({t // E.supplies t} → Prog M α) × Nat × ({t // ¬ E.supplies t} → Prog M α) :=
  (fun t => c.thread t, E.fuel c.shared, fun t => c.thread t)

def Less : Config M τ α → Config M τ α → Prop :=
  InvImage (Prod.Lex (OneDown fun t : {t // E.supplies t} => E.unpaid t)
    (Prod.Lex (· < ·) (OneDown fun t : {t // ¬ E.supplies t} => E.unpaid t))) E.account

omit [DecidableEq τ] in
theorem less_wellFounded [Finite τ] : WellFounded E.Less :=
  InvImage.wf _ (WellFounded.prod_lex (oneDown_wellFounded fun t => E.unpaid_wf t)
    (WellFounded.prod_lex Nat.lt_wfRel.wf (oneDown_wellFounded fun t => E.unpaid_wf t)))

variable {E} {c c' : Config M τ α}

/-- A supplier's move. -/
theorem less_of_supplier {t : τ} (ht : E.supplies t) {p : Prog M α} {s : σ}
    (h : E.unpaid t p (c.thread t)) : E.Less ⟨s, Function.update c.thread t p⟩ c := by
  refine Prod.Lex.left _ _ ⟨⟨t, ht⟩, ?_, fun u hu => ?_⟩
  · simpa only [Function.update_self] using h
  · exact Function.update_of_ne (fun heq => hu (Subtype.ext heq)) p c.thread

/-- A spender's move leaves the suppliers as they are. -/
theorem less_of_spender {t : τ} (ht : ¬ E.supplies t) {p : Prog M α} {s : σ}
    (h : E.fuel s < E.fuel c.shared ∨ E.fuel s = E.fuel c.shared ∧ E.unpaid t p (c.thread t)) :
    E.Less ⟨s, Function.update c.thread t p⟩ c := by
  have hsame : (fun u : {t // E.supplies t} => Function.update c.thread t p u) =
      fun u : {t // E.supplies t} => c.thread u := by
    funext u
    have hne : u.1 ≠ t := fun heq => ht (heq ▸ u.2)
    exact Function.update_of_ne hne p c.thread
  unfold Less InvImage account
  simp only [hsame]
  refine Prod.Lex.right _ ?_
  obtain hless | ⟨heq, hmove⟩ := h
  · exact Prod.Lex.left _ _ hless
  · rw [heq]
    refine Prod.Lex.right _ ⟨⟨t, ht⟩, ?_, fun u hu => ?_⟩
    · simpa only [Function.update_self] using hmove
    · exact Function.update_of_ne (fun heq => hu (Subtype.ext heq)) p c.thread

theorem less_of_move (hc : ∀ t, (c.thread t).Uses (E.makes t)) (h : Moves restart c' c) :
    E.Less c' c := by
  obtain ⟨t, e, hstep⟩ := h
  obtain ⟨a, p, hret, hrestart, rfl⟩ | ⟨o, k, r, s', hcall, hexec, rfl⟩ := step_cases hstep
  · have hmove : E.unpaid t p (c.thread t) := by
      rw [hret]
      exact .restart hrestart
    by_cases ht : E.supplies t
    · exact less_of_supplier ht hmove
    · exact less_of_spender ht (Or.inr ⟨rfl, hmove⟩)
  · have hmakes := hc t
    rw [hcall] at hmakes
    by_cases ht : E.supplies t
    · refine less_of_supplier ht ?_
      rw [hcall]
      exact .call fun hpaid => hpaid.1 ht
    · obtain ⟨hle, hpaid⟩ := E.spends t o e c.shared r s' ht hmakes.1 hexec
      refine less_of_spender ht ?_
      by_cases hp : E.paid o r
      · exact Or.inl (hpaid hp)
      · obtain hlt | heq := Nat.lt_or_eq_of_le hle
        · exact Or.inl hlt
        · refine Or.inr ⟨heq, ?_⟩
          rw [hcall]
          exact .call fun hpaid => hp hpaid.2

theorem uses_of_move (hc : ∀ t, (c.thread t).Uses (E.makes t)) (h : Moves restart c' c) (t : τ) :
    (c'.thread t).Uses (E.makes t) := by
  obtain ⟨u, e, hstep⟩ := h
  exact Reach.uses hc E.calls (Reach.refl.tail trivial hstep : Reach restart anyStep c c') t

/-- Where the restarts are paid for, every run is finite. -/
theorem terminates [Finite τ] (hc : ∀ t, (c.thread t).Uses (E.makes t)) :
    Acc (Moves restart) c := by
  induction c using E.less_wellFounded.induction with
  | _ c ih =>
    exact ⟨_, fun c' hmove => ih c' (less_of_move hc hmove) (uses_of_move hc hmove)⟩

end Economy

end System

end JudgeServer.Lib.Interleave
