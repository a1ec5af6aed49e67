import Mathlib.Data.List.DropRight
import Mathlib.Data.List.GetD

/-!
# Lists without their trailing elements

`rdropWhile p` takes off the longest run of elements with `p` at the end. What is left
does not see such a run appended, and for a single element `d` two lists leave the same
exactly when they agree everywhere with `d` past their ends.
-/

namespace JudgeServer.Lib.Trimming

variable {α : Type} {p q : α → Bool}

/-- The last element that stays. -/
theorem rdropWhile_append_cons {x : α} (l t : List α) (h : ¬p x) :
    (l ++ x :: t).rdropWhile p = l ++ x :: t.rdropWhile p := by
  induction t using List.reverseRecOn with
  | nil => rw [List.rdropWhile_concat_neg p l x h, List.rdropWhile_nil]
  | append_singleton t y ih =>
    rw [← List.cons_append, ← List.append_assoc]
    by_cases hy : p y
    · rw [List.rdropWhile_concat_pos p _ y hy, ih, List.rdropWhile_concat_pos p _ y hy]
    · rw [List.rdropWhile_concat_neg p _ y hy, List.rdropWhile_concat_neg p _ y hy,
        List.append_assoc, List.cons_append]

theorem rdropWhile_append_of_all (l : List α) {t : List α} (h : ∀ x ∈ t, p x) :
    (l ++ t).rdropWhile p = l.rdropWhile p := by
  induction t using List.reverseRecOn with
  | nil => rw [List.append_nil]
  | append_singleton t y ih =>
    have hy : p y := h y (by simp)
    rw [← List.append_assoc, List.rdropWhile_concat_pos p _ y hy]
    exact ih fun x hx => h x (by simp [hx])

/-- Nothing is seen of an appended list only when it is trimmed as a whole. -/
theorem rdropWhile_append_eq_iff {l t : List α} :
    (l ++ t).rdropWhile p = l.rdropWhile p ↔ ∀ x ∈ t, p x := by
  apply Iff.intro _ (rdropWhile_append_of_all l)
  intro h x hx
  by_contra hp
  obtain ⟨a, b, rfl⟩ := List.append_of_mem hx
  rw [← List.append_assoc, rdropWhile_append_cons _ b hp] at h
  have hle : (l.rdropWhile p).length ≤ l.length := (List.rdropWhile_prefix p l).length_le
  have hlen := congrArg List.length h
  simp only [List.length_append, List.length_cons] at hlen
  omega

theorem rdropWhile_rdropWhile {l : List α} (h : ∀ x ∈ l, q x → p x) :
    (l.rdropWhile q).rdropWhile p = l.rdropWhile p := by
  conv_rhs => rw [← List.rdropWhile_append_rtakeWhile (p := q) (l := l)]
  have hall : ∀ x ∈ l.rtakeWhile q, p x := by
    intro x hx
    exact h x ((List.rtakeWhile_suffix q l).mem hx) (List.mem_rtakeWhile_imp hx)
  exact (rdropWhile_append_of_all _ hall).symm

/-- Past the end nothing changes when the default is appended. -/
theorem getD_concat_default (l : List α) (d : α) (i : Nat) : (l ++ [d]).getD i d = l.getD i d := by
  by_cases hi : i < l.length
  · rw [List.getD_append _ _ _ _ hi]
  · rw [List.getD_append_right _ _ _ _ (by omega), List.getD_eq_default l _ (by omega)]
    cases i - l.length <;> rfl

section Default

variable [DecidableEq α] (d : α)

theorem getD_rdropWhile (l : List α) (i : Nat) :
    (l.rdropWhile (· = d)).getD i d = l.getD i d := by
  induction l using List.reverseRecOn with
  | nil => rfl
  | append_singleton l y ih =>
    by_cases hy : y = d
    · rw [List.rdropWhile_concat_pos _ _ y (by simpa using hy), ih, hy, getD_concat_default]
    · rw [List.rdropWhile_concat_neg _ _ y (by simpa using hy)]

/-- A trimmed list is no longer than one it agrees with. -/
theorem length_rdropWhile_le {l k : List α} (h : ∀ i, l.getD i d = k.getD i d) :
    (l.rdropWhile (· = d)).length ≤ (k.rdropWhile (· = d)).length := by
  by_contra hlt
  have hne : l.rdropWhile (· = d) ≠ [] := by
    intro hnil
    rw [hnil] at hlt
    exact hlt (Nat.zero_le _)
  have hlast := List.rdropWhile_last_not (p := (· = d)) l hne
  rw [List.getLast_eq_getElem, decide_eq_true_eq] at hlast
  apply hlast
  rw [← List.getD_eq_getElem _ d, getD_rdropWhile, h, ← getD_rdropWhile]
  exact List.getD_eq_default _ _ (by omega)

/-- Two lists are the same up to trailing `d`. -/
theorem rdropWhile_eq_iff {l k : List α} :
    l.rdropWhile (· = d) = k.rdropWhile (· = d) ↔ ∀ i, l.getD i d = k.getD i d := by
  constructor
  · intro h i
    rw [← getD_rdropWhile d l, h, getD_rdropWhile]
  · intro h
    have hlen := le_antisymm (length_rdropWhile_le d h)
      (length_rdropWhile_le d fun i => (h i).symm)
    apply List.ext_getElem hlen
    intro i hl hk
    have hi := h i
    rw [← getD_rdropWhile d l, ← getD_rdropWhile d k] at hi
    rwa [List.getD_eq_getElem _ _ hl, List.getD_eq_getElem _ _ hk] at hi

end Default

end JudgeServer.Lib.Trimming
