import JudgeServer.Common.SubmissionTypes
import Mathlib.Data.List.Induction
import Mathlib.Tactic.SplitIfs

/-!
# Verdict reduction

`pipeline/SubmissionVerdictReducer.cpp`: one verdict for a list of case results. The loop
is a fold of an associative operation, so the summary of a list is that of its parts; it
is the first verdict of the highest rank.
-/

namespace JudgeServer.Pipeline

open JudgeServer.Common

def verdictPriority : SubmissionVerdict → Nat
  | .ce => 100
  | .systemError => 90
  | .tle => 80
  | .re | .mle | .ole => 70
  | .wa | .pe => 60
  | .unknown => 50
  | .ac => 10
  | .pending => 0

/-- The summary so far after looking at one more case. -/
def raiseSummary (summary : SubmissionVerdict) (caseResult : SubmissionCaseResult) :
    SubmissionVerdict :=
  if verdictPriority caseResult.verdict > verdictPriority summary then caseResult.verdict
  else summary

def summarize (caseResults : List SubmissionCaseResult)
    (defaultVerdict : SubmissionVerdict := .pending) : SubmissionVerdict :=
  match caseResults with
  | [] => defaultVerdict
  | front :: _ => caseResults.foldl raiseSummary front.verdict

/-- The ranks of `docs/protocol.md`, lowest first. -/
def documentedOrder : List (List SubmissionVerdict) :=
  [[.pending], [.ac], [.unknown], [.wa, .pe], [.re, .mle, .ole], [.tle], [.systemError], [.ce]]

def documentedRank (verdict : SubmissionVerdict) : Nat :=
  documentedOrder.findIdx fun rank => verdict ∈ rank

/-- The numbers of the source stand for the documented order. -/
theorem priority_lt_iff (a b : SubmissionVerdict) :
    verdictPriority a < verdictPriority b ↔ documentedRank a < documentedRank b := by
  cases a <;> cases b <;> decide

theorem priority_le_iff (a b : SubmissionVerdict) :
    verdictPriority a ≤ verdictPriority b ↔ documentedRank a ≤ documentedRank b := by
  rw [← Nat.not_lt, ← Nat.not_lt, priority_lt_iff]

section Fold

variable {a b c : SubmissionCaseResult} {v : SubmissionVerdict}

theorem raiseSummary_self : raiseSummary a.verdict a = a.verdict := by
  unfold raiseSummary
  rw [if_neg (Nat.lt_irrefl _)]

theorem priority_raiseSummary :
    verdictPriority (raiseSummary v c) = max (verdictPriority v) (verdictPriority c.verdict) := by
  unfold raiseSummary
  split_ifs with h
  · exact (Nat.max_eq_right (Nat.le_of_lt h)).symm
  · exact (Nat.max_eq_left (Nat.le_of_not_lt h)).symm

/-- Two cases raise a summary as their own summary does. -/
theorem raiseSummary_raiseSummary (h : a.verdict = raiseSummary b.verdict c) :
    raiseSummary (raiseSummary v b) c = raiseSummary v a := by
  unfold raiseSummary at h ⊢
  rw [h]
  split_ifs <;> first | rfl | omega

end Fold

section Summary

variable {xs ys : List SubmissionCaseResult} {d : SubmissionVerdict}

theorem summarize_cons (front : SubmissionCaseResult) (rest : List SubmissionCaseResult) :
    summarize (front :: rest) d = rest.foldl raiseSummary front.verdict := by
  change List.foldl raiseSummary (raiseSummary front.verdict front) rest = _
  rw [raiseSummary_self]

theorem summarize_singleton (c : SubmissionCaseResult) : summarize [c] d = c.verdict :=
  summarize_cons c []

/-- One more case. -/
theorem summarize_concat (hne : xs ≠ []) (c : SubmissionCaseResult) :
    summarize (xs ++ [c]) d = raiseSummary (summarize xs d) c := by
  obtain ⟨front, rest, rfl⟩ := List.exists_cons_of_ne_nil hne
  rw [List.cons_append, summarize_cons, summarize_cons, List.foldl_append]
  rfl

theorem summarize_append (hxs : xs ≠ []) (hys : ys ≠ []) {y : SubmissionCaseResult}
    (hy : y.verdict = summarize ys d) :
    summarize (xs ++ ys) d = raiseSummary (summarize xs d) y := by
  induction ys using List.reverseRecOn generalizing y with
  | nil => exact absurd rfl hys
  | append_singleton ys c ih =>
    rw [← List.append_assoc, summarize_concat (by simp [hxs])]
    by_cases hnil : ys = []
    · subst hnil
      rw [List.nil_append, summarize_singleton] at hy
      rw [List.append_nil]
      unfold raiseSummary
      rw [hy]
    · rw [summarize_concat hnil] at hy
      rw [ih hnil (y := { verdict := summarize ys d }) rfl]
      exact raiseSummary_raiseSummary hy

/-- The summary is the verdict of the first case of the highest rank. -/
theorem summarize_first (hne : xs ≠ []) :
    ∃ before c after, xs = before ++ c :: after ∧ summarize xs d = c.verdict ∧
      (∀ x ∈ before, verdictPriority x.verdict < verdictPriority c.verdict) ∧
      ∀ x ∈ after, verdictPriority x.verdict ≤ verdictPriority c.verdict := by
  induction xs using List.reverseRecOn with
  | nil => exact absurd rfl hne
  | append_singleton xs e ih =>
    by_cases hnil : xs = []
    · subst hnil
      exact ⟨[], e, [], rfl, summarize_singleton e, by simp, by simp⟩
    · obtain ⟨before, c, after, hxs, hsum, hbefore, hafter⟩ := ih hnil
      rw [summarize_concat hnil, hsum]
      unfold raiseSummary
      split_ifs with hraise
      · -- The new case is the first of its rank.
        refine ⟨xs, e, [], rfl, rfl, ?_, by simp⟩
        intro x hx
        rw [hxs] at hx
        rcases List.mem_append.mp hx with hx | hx
        · exact Nat.lt_trans (hbefore x hx) hraise
        · rcases List.mem_cons.mp hx with rfl | hx
          · exact hraise
          · exact Nat.lt_of_le_of_lt (hafter x hx) hraise
      · refine ⟨before, c, after ++ [e], by rw [hxs]; simp, rfl, hbefore, ?_⟩
        intro x hx
        rcases List.mem_append.mp hx with hx | hx
        · exact hafter x hx
        · obtain rfl := List.mem_singleton.mp hx
          omega

theorem summarize_mem (hne : xs ≠ []) : ∃ c ∈ xs, summarize xs d = c.verdict := by
  obtain ⟨before, c, after, rfl, hsum, -⟩ := summarize_first (d := d) hne
  exact ⟨c, by simp, hsum⟩

theorem priority_le_summarize {x : SubmissionCaseResult} (hx : x ∈ xs) :
    verdictPriority x.verdict ≤ verdictPriority (summarize xs d) := by
  obtain ⟨before, c, after, rfl, hsum, hbefore, hafter⟩ :=
    summarize_first (d := d) (List.ne_nil_of_mem hx)
  rw [hsum]
  rcases List.mem_append.mp hx with hx | hx
  · exact Nat.le_of_lt (hbefore x hx)
  · rcases List.mem_cons.mp hx with rfl | hx
    · exact Nat.le_refl _
    · exact hafter x hx

theorem summarize_eq_ac_iff (hne : xs ≠ []) :
    summarize xs d = .ac ↔
      (∃ c ∈ xs, c.verdict = .ac) ∧ ∀ c ∈ xs, c.verdict = .ac ∨ c.verdict = .pending := by
  have hlow : ∀ v, verdictPriority v ≤ verdictPriority .ac → v = .ac ∨ v = .pending := by
    intro v hv
    cases v <;> simp [verdictPriority] at hv ⊢
  obtain ⟨c, hc, hsum⟩ := summarize_mem (d := d) hne
  constructor
  · intro hac
    refine ⟨⟨c, hc, hsum ▸ hac⟩, ?_⟩
    intro x hx
    apply hlow
    rw [← hac]
    exact priority_le_summarize hx
  · rintro ⟨⟨x, hx, hac⟩, hall⟩
    rcases hall c hc with h | h
    · rw [hsum, h]
    · -- A pending summary would rank below the accepted case.
      have hle := priority_le_summarize (d := d) hx
      rw [hac, hsum, h] at hle
      cases hle

end Summary

/-- For all non-empty lists of case results: the summary is the verdict of the first case
of the highest documented rank; the summary of two lists together is that of their two
summaries; another case does not lower it; and it is `AC` exactly for lists of accepted
and pending cases that are not all pending. -/
theorem summarize_documented_maximum (xs : List SubmissionCaseResult) (d : SubmissionVerdict)
    (hne : xs ≠ []) :
    (∃ before c after, xs = before ++ c :: after ∧ summarize xs d = c.verdict ∧
      (∀ x ∈ before, documentedRank x.verdict < documentedRank c.verdict) ∧
      ∀ x ∈ after, documentedRank x.verdict ≤ documentedRank c.verdict) ∧
    (∀ ys, ys ≠ [] → ∀ x y : SubmissionCaseResult, x.verdict = summarize xs d →
      y.verdict = summarize ys d → summarize (xs ++ ys) d = summarize [x, y] d) ∧
    (∀ c, documentedRank (summarize xs d) ≤ documentedRank (summarize (xs ++ [c]) d)) ∧
    (summarize xs d = .ac ↔
      (∃ c ∈ xs, c.verdict = .ac) ∧ ∀ c ∈ xs, c.verdict = .ac ∨ c.verdict = .pending) := by
  refine ⟨?_, ?_, ?_, summarize_eq_ac_iff hne⟩
  · obtain ⟨before, c, after, hxs, hsum, hbefore, hafter⟩ := summarize_first (d := d) hne
    refine ⟨before, c, after, hxs, hsum, ?_, ?_⟩
    · intro x hx
      exact (priority_lt_iff _ _).mp (hbefore x hx)
    · intro x hx
      exact (priority_le_iff _ _).mp (hafter x hx)
  · intro ys hys x y hx hy
    rw [summarize_append hne hys hy, summarize_cons, ← hx]
    rfl
  · intro c
    rw [← priority_le_iff, summarize_concat hne, priority_raiseSummary]
    exact Nat.le_max_left _ _

/-- A wrong answer between accepted cases. -/
theorem summarize_documented_maximum_wrong :
    summarize ([{ verdict := .ac }, { verdict := .wa }] ++ [{ verdict := .pe }]) = .wa ∧
    ∃ before c after, ([{ verdict := .ac }, { verdict := .wa }] : List SubmissionCaseResult) =
        before ++ c :: after ∧ summarize [{ verdict := .ac }, { verdict := .wa }] = c.verdict ∧
      (∀ x ∈ before, documentedRank x.verdict < documentedRank c.verdict) ∧
      ∀ x ∈ after, documentedRank x.verdict ≤ documentedRank c.verdict :=
  ⟨by decide, (summarize_documented_maximum _ .pending (by decide)).1⟩

end JudgeServer.Pipeline
