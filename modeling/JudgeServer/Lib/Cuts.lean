import Mathlib.Data.List.Infix
import Mathlib.Logic.Function.Basic

/-!
# Where a sequence can be cut

A sequence that has grown by one entry is cut at that entry or where it could be cut
before. A sequence of words of a code none of whose words starts another one can be cut
into words in one way only, and if no word can be taken for the closing symbol, so can
a sequence with whatever follows its end.
-/

namespace JudgeServer.Lib.Cuts
set_option autoImplicit false

variable {α β : Type*}

/-- A split of an extended history is at the new entry or inside the old history. -/
theorem split_snoc {h a b : List α} {e x : α} (hs : h ++ [e] = a ++ x :: b) :
    (b = [] ∧ a = h ∧ x = e) ∨ ∃ b', b = b' ++ [e] ∧ h = a ++ x :: b' := by
  rcases List.eq_nil_or_concat b with rfl | ⟨b', y, rfl⟩
  · left
    obtain ⟨h1, h2⟩ := List.append_inj' hs rfl
    simp only [List.cons.injEq, and_true] at h2
    exact ⟨rfl, h1.symm, h2.symm⟩
  · right
    rw [List.concat_eq_append, ← List.cons_append, ← List.append_assoc] at hs
    obtain ⟨h1, h2⟩ := List.append_inj' hs rfl
    simp only [List.cons.injEq, and_true] at h2
    exact ⟨b', by rw [List.concat_eq_append, h2], h1⟩

/-- A text that starts with a code word says which one, and what is left. -/
def PrefixCode (word : α → List β) : Prop :=
  ∀ {a b : α} {x y : List β}, word a ++ x = word b ++ y → a = b ∧ x = y

/-- Words whose length shows at their beginning. -/
theorem prefixCode_of_length {word : α → List β} (len : List β → Nat)
    (hlen : ∀ a x, len (word a ++ x) = (word a).length) (hinj : Function.Injective word) :
    PrefixCode word := by
  intro a b x y h
  have hl : (word a).length = (word b).length := by
    rw [← hlen a x, h, hlen b y]
  obtain ⟨hw, hxy⟩ := List.append_inj h hl
  exact ⟨hinj hw, hxy⟩

/-- A sequence of code words up to a closing symbol. -/
theorem PrefixCode.flatMap_split {word : α → List β} (hcode : PrefixCode word) {stop : β}
    (hstop : ∀ a x y, word a ++ x ≠ stop :: y) {s t : List α} {x y : List β}
    (h : s.flatMap word ++ stop :: x = t.flatMap word ++ stop :: y) : s = t ∧ x = y := by
  induction s generalizing t with
  | nil =>
    cases t with
    | nil => exact ⟨rfl, (List.cons.inj h).2⟩
    | cons b t =>
      rw [List.flatMap_cons, List.append_assoc] at h
      exact absurd h.symm (hstop b _ x)
  | cons a s ih =>
    cases t with
    | nil =>
      rw [List.flatMap_cons, List.append_assoc] at h
      exact absurd h (hstop a _ y)
    | cons b t =>
      rw [List.flatMap_cons, List.flatMap_cons, List.append_assoc, List.append_assoc] at h
      obtain ⟨rfl, hrest⟩ := hcode h
      obtain ⟨rfl, hxy⟩ := ih hrest
      exact ⟨rfl, hxy⟩

end JudgeServer.Lib.Cuts
