import JudgeServer.Lib.Pieces

/-!
# What brings a thread to a call

A call is made for a reason that lies in the call before it: the input on which that one was
made. `Prog.Follows` says of a program which calls may come next after a call on an input,
`runSince` keeps the last call of a thread beside a run, and `runSince_follows` brings the
two together.
-/

namespace JudgeServer.Lib.Interleave
set_option autoImplicit false

variable {σ ε ξ : Type} {M : Machine σ ε} {α β τ : Type}

/-- After every call on an input in `I`, the next call is one that `R` admits; `none` is the
end of the program. -/
def Prog.Follows (I : M.Op → ε → Prop) (R : M.Op → ε → Option M.Op → Prop) : Prog M α → Prop
  | .ret _ => True
  | .call o k => ∀ e s r s', I o e → M.exec o e s = some (r, s') →
      R o e (k r).head ∧ (k r).Follows I R

/-- The same of a program that may stand behind anything. -/
structure Prog.Joins (I : M.Op → ε → Prop) (R : M.Op → ε → Option M.Op → Prop)
    (Q : Option M.Op → Prop) (p : Prog M α) : Prop where
  start : Q p.head
  follows : p.Follows I R

section Rules

variable {I : M.Op → ε → Prop} {R : M.Op → ε → Option M.Op → Prop} {Q : Option M.Op → Prop}
  (hQ : ∀ o e next, Q next → R o e next) (hnone : Q none)

include hnone in
theorem Prog.Joins.ret (a : α) : (Prog.ret a : Prog M α).Joins I R Q := ⟨hnone, True.intro⟩

include hQ in
theorem Prog.Joins.call {o : M.Op} {k : M.Res o → Prog M α} (ho : Q (some o))
    (hk : ∀ r, (k r).Joins I R Q) : (Prog.call o k).Joins I R Q :=
  ⟨ho, fun e _ r _ _ _ => ⟨hQ o e _ (hk r).start, (hk r).follows⟩⟩

include hQ in
theorem Prog.Follows.bind {p : Prog M α} {f : α → Prog M β} (hp : p.Follows I R)
    (hf : ∀ a, (f a).Joins I R Q) : (p.bind f).Follows I R := by
  induction p with
  | ret a => exact (hf a).follows
  | call o k ih =>
    intro e s r s' hi he
    obtain ⟨hnext, hrest⟩ := hp e s r s' hi he
    apply And.intro _ (ih r hrest)
    change R o e ((k r).bind f).head
    cases hk : k r with
    | ret a => exact hQ o e _ (hf a).start
    | call o' k' =>
      rw [hk] at hnext
      exact hnext

include hQ in
theorem Prog.Joins.bind {p : Prog M α} {f : α → Prog M β} (hp : p.Joins I R Q)
    (hf : ∀ a, (f a).Joins I R Q) : (p.bind f).Joins I R Q := by
  refine ⟨?_, hp.follows.bind hQ hf⟩
  cases p with
  | ret a => exact (hf a).start
  | call o k => exact hp.start

include hQ hnone in
theorem Prog.Joins.except_bind {p : ExceptT ξ (Prog M) β} {f : β → ExceptT ξ (Prog M) α}
    (hp : p.run.Joins I R Q) (hf : ∀ b, (f b).run.Joins I R Q) : (p >>= f).run.Joins I R Q := by
  refine hp.bind hQ ?_
  intro x
  cases x with
  | ok b => exact hf b
  | error e => exact .ret hnone _

include hQ hnone in
/-- Calls that may stand behind anything. -/
theorem Prog.Uses.joins {P : M.Op → Prop} {p : Prog M α} (hp : p.Uses P)
    (h : ∀ o, P o → Q (some o)) : p.Joins I R Q := by
  induction p with
  | ret a => exact .ret hnone a
  | call o k ih => exact .call hQ (h o hp.1) fun r => ih r (hp.2 r)

include hQ hnone in
theorem MadeOf.joins {Piece : {β : Type} → ExceptT ξ (Prog M) β → Prop}
    {p : ExceptT ξ (Prog M) α} (hp : MadeOf Piece p)
    (hpiece : ∀ {β : Type} (q : ExceptT ξ (Prog M) β), Piece q → q.run.Joins I R Q) :
    p.run.Joins I R Q := by
  induction hp with
  | done a => exact .ret hnone _
  | raise e => exact .ret hnone _
  | step hq _ ih => exact (hpiece _ hq).except_bind hQ hnone ih

end Rules

section Runs

variable [DecidableEq τ] (restart : τ → α → Option (Prog M α))
  (test : Config M τ α → τ → ε → Bool) (t : τ)

/-- Run a schedule as long as its steps pass a test, and keep the last call of thread `t` with
the input it was made on. -/
def runSince : Config M τ α → Option (M.Op × ε) → List (τ × ε) →
    Option (Config M τ α × Option (M.Op × ε))
  | c, last, [] => some (c, last)
  | c, last, x :: xs =>
      if test c x.1 x.2 then
        (step restart c x.1 x.2).bind fun c' =>
          runSince c' (if x.1 = t then (c.thread t).head.map fun o => (o, x.2) else last) xs
      else none

variable {restart test t} {I : M.Op → ε → Prop} {R : M.Op → ε → Option M.Op → Prop}
  {Q : Option M.Op → Prop}

/-- The thread goes on as it must, and stands behind its last call or at a beginning. -/
structure StandsBehind (t : τ) (I : M.Op → ε → Prop) (R : M.Op → ε → Option M.Op → Prop)
    (Q : Option M.Op → Prop) (c : Config M τ α) (last : Option (M.Op × ε)) : Prop where
  follows : (c.thread t).Follows I R
  called : ∀ o e, last = some (o, e) → R o e (c.thread t).head
  begun : last = none → Q (c.thread t).head

theorem StandsBehind.step (hr : ∀ a p, restart t a = some p → p.Joins I R Q)
    (hI : ∀ c e o, test c t e = true → (c.thread t).head = some o → I o e)
    {c c' : Config M τ α} {last : Option (M.Op × ε)} {u : τ} {e : ε}
    (h : StandsBehind t I R Q c last) (htest : test c u e = true)
    (hs : Interleave.step restart c u e = some c') :
    StandsBehind t I R Q c'
      (if u = t then (c.thread t).head.map fun o => (o, e) else last) := by
  by_cases hu : u = t
  · subst hu
    -- a restart stands at a beginning, a call behind itself
    rw [if_pos rfl]
    obtain ⟨a, p, ha, hp, rfl⟩ | ⟨o, k, r, s', hk, he, rfl⟩ := step_cases hs
    · have hj := hr a p hp
      rw [ha]
      refine ⟨?_, ?_, ?_⟩
      · simpa using hj.follows
      · intro o e' hlast
        cases hlast
      · intro _
        simpa using hj.start
    · have hi : I o e := hI c e o htest (by rw [hk]; rfl)
      have hfollows := h.follows
      rw [hk] at hfollows ⊢
      obtain ⟨hnext, hrest⟩ := hfollows e _ r s' hi he
      refine ⟨?_, ?_, ?_⟩
      · simpa using hrest
      · intro o' e' hlast
        obtain ⟨rfl, rfl⟩ := Prod.mk.inj (Option.some.inj hlast)
        simpa using hnext
      · intro hlast
        cases hlast
  · rw [if_neg hu]
    have hthread : c'.thread t = c.thread t := by
      obtain ⟨a, p, -, -, rfl⟩ | ⟨o, k, r, s', -, -, rfl⟩ := step_cases hs
      · exact Function.update_of_ne (Ne.symm hu) _ _
      · exact Function.update_of_ne (Ne.symm hu) _ _
    exact ⟨hthread ▸ h.follows, hthread ▸ h.called, hthread ▸ h.begun⟩

/-- In every run the thread stands behind its last call. -/
theorem runSince_follows (hr : ∀ a p, restart t a = some p → p.Joins I R Q)
    (hI : ∀ c e o, test c t e = true → (c.thread t).head = some o → I o e)
    {c c' : Config M τ α} {last last' : Option (M.Op × ε)} {xs : List (τ × ε)}
    (h : StandsBehind t I R Q c last)
    (hrun : runSince restart test t c last xs = some (c', last')) :
    StandsBehind t I R Q c' last' := by
  induction xs generalizing c last with
  | nil =>
    obtain ⟨rfl, rfl⟩ := Prod.mk.inj (Option.some.inj hrun)
    exact h
  | cons x xs ih =>
    rw [runSince] at hrun
    split at hrun
    · next htest =>
      obtain ⟨d, hd, hrest⟩ := Option.bind_eq_some_iff.mp hrun
      exact ih (h.step hr hI htest hd) hrest
    · cases hrun

/-- What is kept beside a run changes nothing about it. -/
theorem runSince_reach {init c c' : Config M τ α} {last last' : Option (M.Op × ε)}
    {xs : List (τ × ε)} (hc : Reach restart anyStep init c)
    (hrun : runSince restart test t c last xs = some (c', last')) :
    Reach restart anyStep init c' := by
  induction xs generalizing c last with
  | nil =>
    obtain ⟨rfl, -⟩ := Prod.mk.inj (Option.some.inj hrun)
    exact hc
  | cons x xs ih =>
    rw [runSince] at hrun
    split at hrun
    · obtain ⟨d, hd, hrest⟩ := Option.bind_eq_some_iff.mp hrun
      exact ih (hc.tail True.intro hd) hrest
    · cases hrun

end Runs

end JudgeServer.Lib.Interleave
