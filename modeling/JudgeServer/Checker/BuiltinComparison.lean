import JudgeServer.Checker.Agreement
import Mathlib.Logic.Relation

/-!
# What the built-in comparison identifies

`compare_case_output` without a checker. Two files compare equal exactly when one can be
turned into the other by putting in and taking out blanks in front of a line feed or at the
end of the file, and line feeds at the end of the file.
-/

namespace JudgeServer.Checker

open JudgeServer.Common
open JudgeServer.Pipeline (StdException)
open JudgeServer.Runner
open JudgeServer.Lib.Trimming

/-- Space, tab and carriage return. -/
def IsBlank (b : UInt8) : Prop := b = 32 ∨ b = 9 ∨ b = 13

/-- One byte put into a file where it does not matter. -/
inductive Inserted : Bytes → Bytes → Prop where
  | blankBeforeNewline (front rest : Bytes) {b : UInt8} (hb : IsBlank b) :
      Inserted (front ++ 10 :: rest) (front ++ b :: 10 :: rest)
  | blankAtEnd (front : Bytes) {b : UInt8} (hb : IsBlank b) : Inserted front (front ++ [b])
  | newlineAtEnd (front : Bytes) : Inserted front (front ++ [10])

/-- The smallest equivalence that allows such insertions and deletions. -/
def Equivalent : Bytes → Bytes → Prop := Relation.EqvGen Inserted

theorem trimmed_iff {b : UInt8} : trimmed b = true ↔ IsBlank b := by
  simp [trimmed, IsBlank, or_assoc]

section Unseen

variable {s t : Bytes}

theorem trimLineRight_cons (b : UInt8) (l : Bytes) :
    trimLineRight (b :: trimLineRight l) = trimLineRight (b :: l) := by
  have hsplit : b :: l = (b :: trimLineRight l) ++ l.rtakeWhile trimmed := by
    rw [List.cons_append, trimLineRight, List.rdropWhile_append_rtakeWhile]
  rw [hsplit]
  exact (rdropWhile_append_of_all _ fun x hx => List.mem_rtakeWhile_imp hx).symm

theorem text_cons (b : UInt8) (h : ∀ i, text s i = text t i) (i : Nat) :
    text (b :: s) i = text (b :: t) i := by
  by_cases hb : b = 10
  · subst hb
    cases i with
    | zero => rw [text, text, row_lf_zero, row_lf_zero]
    | succ i =>
      rw [text, text, row_lf_succ, row_lf_succ]
      exact h i
  · cases i with
    | zero =>
      have h0 := h 0
      rw [text, text] at h0
      rw [text, text, row_cons_zero hb, row_cons_zero hb, ← trimLineRight_cons, h0,
        trimLineRight_cons]
    | succ i =>
      rw [text, text, row_cons_succ hb, row_cons_succ hb]
      exact h (i + 1)

theorem text_append (front : Bytes) (h : ∀ i, text s i = text t i) (i : Nat) :
    text (front ++ s) i = text (front ++ t) i := by
  induction front generalizing i with
  | nil => exact h i
  | cons b front ih => exact text_cons b ih i

/-- A blank in front of the end of a line. -/
theorem text_blank {b : UInt8} (hb : IsBlank b) (hs : row s 0 = []) (i : Nat) :
    text s i = text (b :: s) i := by
  have hne : b ≠ 10 := by
    rintro rfl
    revert hb
    unfold IsBlank
    decide
  cases i with
  | zero =>
    rw [text, text, row_cons_zero hne, hs, trimLineRight_nil]
    exact (List.rdropWhile_concat_pos trimmed [] b (trimmed_iff.mpr hb)).symm
  | succ i => rw [text, text, row_cons_succ hne]

theorem text_newline (i : Nat) : text [] i = text [10] i := by
  rw [text, text, row_nil]
  cases i with
  | zero => rw [row_lf_zero]
  | succ i => rw [row_lf_succ, row_nil]

theorem Inserted.text (h : Inserted s t) (i : Nat) : text s i = text t i := by
  cases h with
  | blankBeforeNewline front rest hb =>
    exact text_append front (text_blank hb (row_lf_zero rest)) i
  | blankAtEnd _ hb =>
    have hend := text_append s (text_blank hb (row_nil 0)) i
    rwa [List.append_nil] at hend
  | newlineAtEnd =>
    have hend := text_append s text_newline i
    rwa [List.append_nil] at hend

theorem Equivalent.text (h : Equivalent s t) (i : Nat) : text s i = text t i := by
  induction h with
  | rel s t h => exact h.text i
  | refl s => rfl
  | symm s t _ ih => exact ih.symm
  | trans s t u _ _ ih ih' => exact ih.trans ih'

end Unseen

section Normal

/-- A file with these lines, each ended by a line feed. -/
def unlines (lines : List Bytes) : Bytes := lines.flatMap (· ++ [10])

theorem unlines_cons (l : Bytes) (lines : List Bytes) :
    unlines (l :: lines) = l ++ 10 :: unlines lines := by
  simp [unlines]

theorem unlines_concat (lines : List Bytes) (l : Bytes) :
    unlines (lines ++ [l]) = unlines lines ++ (l ++ [10]) := by
  simp [unlines]

theorem unlines_splitOn (s : Bytes) : unlines (s.splitOn 10) = s ++ [10] := by
  have hjoin : ∀ parts : List Bytes, parts ≠ [] →
      unlines parts = [10].intercalate parts ++ [10] := by
    intro parts hne
    induction parts with
    | nil => exact absurd rfl hne
    | cons l rest ih =>
      cases rest with
      | nil => simp [unlines]
      | cons l' rest =>
        rw [unlines_cons, ih (List.cons_ne_nil _ _), List.intercalate_cons_cons]
        simp
  rw [hjoin _ (List.splitOn_ne_nil 10 s), List.intercalate_splitOn]

theorem equivalent_refl (s : Bytes) : Equivalent s s := .refl s

theorem Equivalent.trans {s t u : Bytes} (h : Equivalent s t) (h' : Equivalent t u) :
    Equivalent s u :=
  Relation.EqvGen.trans _ _ _ h h'

theorem Equivalent.symm {s t : Bytes} (h : Equivalent s t) : Equivalent t s :=
  Relation.EqvGen.symm _ _ h

theorem Inserted.equivalent {s t : Bytes} (h : Inserted s t) : Equivalent s t :=
  Relation.EqvGen.rel _ _ h

theorem equivalent_blanks (front rest : Bytes) {blanks : Bytes} (h : ∀ b ∈ blanks, IsBlank b) :
    Equivalent (front ++ 10 :: rest) (front ++ (blanks ++ 10 :: rest)) := by
  induction blanks generalizing front with
  | nil => exact equivalent_refl _
  | cons b blanks ih =>
    -- One blank in front of the line feed, the others between it and the line feed.
    have hfirst := (Inserted.blankBeforeNewline front rest (h b List.mem_cons_self)).equivalent
    have hothers := ih (front ++ [b]) fun x hx => h x (List.mem_cons_of_mem _ hx)
    simp only [List.append_assoc, List.singleton_append] at hothers
    exact hfirst.trans hothers

theorem equivalent_trimLineRight (front l rest : Bytes) :
    Equivalent (front ++ (l ++ 10 :: rest)) (front ++ (trimLineRight l ++ 10 :: rest)) := by
  have hblanks : ∀ b ∈ l.rtakeWhile trimmed, IsBlank b := fun b hb =>
    trimmed_iff.mp (List.mem_rtakeWhile_imp hb)
  have h := equivalent_blanks (front ++ trimLineRight l) rest hblanks
  have hsplit : trimLineRight l ++ (l.rtakeWhile trimmed ++ 10 :: rest) = l ++ 10 :: rest := by
    rw [← List.append_assoc, trimLineRight, List.rdropWhile_append_rtakeWhile]
  rw [List.append_assoc, List.append_assoc, hsplit] at h
  exact h.symm

theorem equivalent_map_trimLineRight (front : Bytes) (lines : List Bytes) :
    Equivalent (front ++ unlines lines) (front ++ unlines (lines.map trimLineRight)) := by
  induction lines generalizing front with
  | nil => exact equivalent_refl _
  | cons l lines ih =>
    rw [List.map_cons, unlines_cons, unlines_cons]
    have hrest := ih (front ++ (trimLineRight l ++ [10]))
    simp only [List.append_assoc, List.singleton_append] at hrest
    exact (equivalent_trimLineRight front l _).trans hrest

theorem equivalent_rdropWhile (lines : List Bytes) :
    Equivalent (unlines lines) (unlines (lines.rdropWhile (· = []))) := by
  induction lines using List.reverseRecOn with
  | nil => exact equivalent_refl _
  | append_singleton lines l ih =>
    by_cases hl : l = []
    · subst hl
      rw [List.rdropWhile_concat_pos _ _ _ (by simp), unlines_concat]
      exact (Inserted.newlineAtEnd _).equivalent.symm.trans ih
    · rw [List.rdropWhile_concat_neg _ _ _ (by simpa using hl)]
      exact equivalent_refl _

theorem equivalent_getlines (s : Bytes) : Equivalent s (unlines (getlines s)) := by
  have hparts := unlines_splitOn s
  unfold getlines
  simp only
  split
  · next hlast =>
    obtain ⟨front, hfront⟩ := List.getLast?_eq_some_iff.1 hlast
    rw [hfront, unlines_concat, List.nil_append] at hparts
    rw [hfront, List.dropLast_concat, List.append_cancel_right hparts]
    exact equivalent_refl s
  · rw [hparts]
    exact (Inserted.newlineAtEnd s).equivalent

theorem equivalent_normalize (s : Bytes) : Equivalent s (unlines (normalizeOutputLines s)) := by
  have htrim := equivalent_map_trimLineRight [] (getlines s)
  exact (equivalent_getlines s).trans (htrim.trans (equivalent_rdropWhile _))

end Normal

theorem normalize_eq_iff_equivalent {a b : Bytes} :
    normalizeOutputLines a = normalizeOutputLines b ↔ Equivalent a b := by
  constructor
  · intro h
    have ha := equivalent_normalize a
    rw [h] at ha
    exact ha.trans (equivalent_normalize b).symm
  · intro h
    exact normalizeOutputLines_eq_iff.mpr h.text

section Verdict

variable {m : Type → Type} [Monad m] [LawfulMonad m] {host : Host m}
  {inputPath expectedOutput userOutput a b : Bytes}

theorem compareCaseOutput_builtin
    (hchecker : host.call (.pathExists checkerPath) = pure (.ok false))
    (hexpected : host.call (.readFile expectedOutput) = pure a)
    (huser : host.call (.readFile userOutput) = pure b) :
    (compareCaseOutput host inputPath expectedOutput userOutput).run =
      pure (.ok (if normalizeOutputLines a = normalizeOutputLines b then .ac else .wa)) := by
  have hmissing : pathExists host checkerPath = pure false := by
    unfold pathExists throwing
    rw [hchecker]
    rfl
  have hread : readFile host expectedOutput = pure a := by
    rw [readFile, hexpected]
    exact ExceptT.lift_pure a
  have hread' : readFile host userOutput = pure b := by
    rw [readFile, huser]
    exact ExceptT.lift_pure b
  rw [compareCaseOutput, hmissing, pure_bind, if_neg Bool.false_ne_true, hread, pure_bind, hread',
    pure_bind]
  rfl

end Verdict

/-- For all contents of the two files: the built-in comparison identifies exactly the
equivalent ones, and without a checker `compare_case_output` answers `AC` for these and
`WA` for all others. -/
theorem builtin_comparison_exact (a b : Bytes) :
    (normalizeOutputLines a = normalizeOutputLines b ↔ Equivalent a b) ∧
    ∀ (m : Type → Type) [Monad m] [LawfulMonad m] (host : Host m)
      (inputPath expectedOutput userOutput : Bytes),
      host.call (.pathExists checkerPath) = pure (.ok false) →
      host.call (.readFile expectedOutput) = pure a → host.call (.readFile userOutput) = pure b →
      (Equivalent a b →
        (compareCaseOutput host inputPath expectedOutput userOutput).run = pure (.ok .ac)) ∧
      (¬ Equivalent a b →
        (compareCaseOutput host inputPath expectedOutput userOutput).run = pure (.ok .wa)) := by
  refine ⟨normalize_eq_iff_equivalent, ?_⟩
  intro m _ _ host inputPath expectedOutput userOutput hchecker hexpected huser
  rw [compareCaseOutput_builtin hchecker hexpected huser]
  constructor
  · intro h
    rw [if_pos (normalize_eq_iff_equivalent.mpr h)]
  · intro h
    rw [if_neg (mt normalize_eq_iff_equivalent.mp h)]

/-- Trailing blanks are accepted, blanks at the start of a line are not. -/
theorem builtin_comparison_trailing :
    Equivalent (ascii "a \r\n\n") (ascii "a") ∧ ¬ Equivalent (ascii " a") (ascii "a") ∧
    (compareCaseOutput (caseMachine (filesOf (ascii "a \r\n\n") (ascii "a")) false 0) (ascii "in")
      (ascii "ans") (ascii "out")).run = some (.ok .ac) := by
  have hsame : Equivalent (ascii "a \r\n\n") (ascii "a") :=
    (builtin_comparison_exact _ _).1.mp (by decide)
  have hother : ¬ Equivalent (ascii " a") (ascii "a") :=
    mt (builtin_comparison_exact _ _).1.mpr (by decide)
  exact ⟨hsame, hother,
    ((builtin_comparison_exact _ _).2 Option _ _ _ _ rfl rfl rfl).1 hsame⟩

end JudgeServer.Checker
