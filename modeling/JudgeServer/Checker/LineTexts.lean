import JudgeServer.Checker.Fcmp2
import JudgeServer.Lib.Trimming
import JudgeServer.Runner.RunnerSupport

/-!
# Two ways of reading a file's lines

The built-in comparison sees the text of a line: what is before the line feed, without
trailing spaces, tabs and carriage returns. The checker ends its lines at a carriage
return too, keeps the tabs, and does not get past a carriage return that no line feed
follows. `blank_after_iff` relates the two ways of reading a file.
-/

namespace JudgeServer.Checker

open JudgeServer.Common
open JudgeServer.Runner
open JudgeServer.Lib.Trimming

/-- The lines between line feeds; there are none after the last. -/
def row (s : Bytes) (i : Nat) : Bytes := (s.splitOn 10).getD i []

def text (s : Bytes) (i : Nat) : Bytes := trimLineRight (row s i)

@[simp] theorem trimLineRight_nil : trimLineRight [] = [] := rfl

theorem row_nil (i : Nat) : row [] i = [] := by
  cases i <;> rfl

theorem row_lf_zero (s : Bytes) : row (10 :: s) 0 = [] := by
  rw [row, List.splitOn_cons_eq_if_modifyHead]
  rfl

theorem row_lf_succ (s : Bytes) (i : Nat) : row (10 :: s) (i + 1) = row s i := by
  rw [row, List.splitOn_cons_eq_if_modifyHead]
  rfl

theorem row_cons_zero {b : UInt8} (hb : b ≠ 10) (s : Bytes) : row (b :: s) 0 = b :: row s 0 := by
  obtain ⟨x, xs, hx⟩ := List.exists_cons_of_ne_nil (List.splitOn_ne_nil 10 s)
  rw [row, row, List.splitOn_cons_eq_if_modifyHead, hx]
  simp [hb]

theorem row_cons_succ {b : UInt8} (hb : b ≠ 10) (s : Bytes) (i : Nat) :
    row (b :: s) (i + 1) = row s (i + 1) := by
  obtain ⟨x, xs, hx⟩ := List.exists_cons_of_ne_nil (List.splitOn_ne_nil 10 s)
  rw [row, row, List.splitOn_cons_eq_if_modifyHead, hx]
  simp [hb]

theorem row_append_zero {l : Bytes} (hl : 10 ∉ l) (s : Bytes) : row (l ++ s) 0 = l ++ row s 0 := by
  induction l with
  | nil => rfl
  | cons b l ih =>
    rw [List.mem_cons, not_or] at hl
    rw [List.cons_append, row_cons_zero (Ne.symm hl.1), ih hl.2, List.cons_append]

theorem row_append_succ {l : Bytes} (hl : 10 ∉ l) (s : Bytes) (i : Nat) :
    row (l ++ s) (i + 1) = row s (i + 1) := by
  induction l with
  | nil => rfl
  | cons b l ih =>
    rw [List.mem_cons, not_or] at hl
    rw [List.cons_append, row_cons_succ (Ne.symm hl.1), ih hl.2]

theorem getlines_getD (s : Bytes) (i : Nat) : (getlines s).getD i [] = row s i := by
  unfold getlines row
  simp only
  split
  · next h =>
    obtain ⟨front, hfront⟩ := List.getLast?_eq_some_iff.1 h
    rw [hfront, List.dropLast_concat, getD_concat_default]
  · rfl

/-- The built-in comparison compares the texts of all lines. -/
theorem normalizeOutputLines_eq_iff {s t : Bytes} :
    normalizeOutputLines s = normalizeOutputLines t ↔ ∀ i, text s i = text t i := by
  have hmap : ∀ (u : Bytes) (i : Nat),
      ((getlines u).map trimLineRight).getD i [] = text u i := by
    intro u i
    rw [text, ← getlines_getD]
    exact List.getD_map (f := trimLineRight) (getlines u) []
  rw [normalizeOutputLines, normalizeOutputLines, rdropWhile_eq_iff]
  simp only [hmap]

/-- The stream is at a carriage return that no line feed follows. -/
def AtLoneCR (s : Bytes) : Prop := s.head? = some 13 ∧ s.tail.head? ≠ some 10

/-- There is such a carriage return somewhere. -/
def LoneCR (s : Bytes) : Prop := ∃ z, z <:+ s ∧ AtLoneCR z

theorem eoln_cases {d : Bytes} (h : ∀ b ∈ d.head?, isEoln b) :
    d = [] ∧ eoln d = [] ∨ d = 10 :: eoln d ∨ d = 13 :: 10 :: eoln d ∨
      d = eoln d ∧ AtLoneCR (eoln d) := by
  unfold eoln
  split
  · exact .inr (.inl rfl)
  · exact .inr (.inr (.inl rfl))
  · next hlf hcrlf =>
    cases d with
    | nil => exact .inl ⟨rfl, rfl⟩
    | cons b d =>
      have hb : b = 10 ∨ b = 13 := by simpa [isEoln] using h b rfl
      obtain rfl | rfl := hb
      · exact absurd rfl (hlf d)
      · apply Or.inr ∘ Or.inr ∘ Or.inr
        apply And.intro rfl
        apply And.intro rfl
        intro hd
        obtain ⟨rest, rfl⟩ := List.head?_eq_some_iff.1 hd
        exact hcrlf rest rfl

/-- The four ways a line can end. Only before a lone carriage return is a part of the line
feed's line left. -/
theorem readString_cases (s : Bytes) :
    ∃ l s', readString s = (l, s') ∧ 10 ∉ l ∧ 13 ∉ l ∧
      (s = l ∧ s' = [] ∨ s = l ++ 10 :: s' ∨ s = l ++ 13 :: 10 :: s' ∨
        s = l ++ s' ∧ AtLoneCR s') := by
  have hsplit := List.takeWhile_append_dropWhile (p := (!isEoln ·)) (l := s)
  have hmem : ∀ b, isEoln b → b ∉ s.takeWhile (!isEoln ·) := by
    intro b hb h
    have hnot := List.mem_takeWhile_imp h
    rw [hb] at hnot
    cases hnot
  have hhead : ∀ b ∈ (s.dropWhile (!isEoln ·)).head?, isEoln b := by
    intro b hb
    have h := List.head?_dropWhile_not (!isEoln ·) s
    rw [Option.mem_def.1 hb] at h
    simpa using h
  refine ⟨_, _, rfl, hmem 10 rfl, hmem 13 rfl, ?_⟩
  obtain ⟨hd, he⟩ | hd | hd | ⟨hd, he⟩ := eoln_cases hhead
  · rw [hd, List.append_nil] at hsplit
    exact .inl ⟨hsplit.symm, he⟩
  · exact .inr (.inl (hd ▸ hsplit.symm))
  · exact .inr (.inr (.inl (hd ▸ hsplit.symm)))
  · exact .inr (.inr (.inr ⟨hd ▸ hsplit.symm, he⟩))

/-- The checker's line has the text of the line feed's line, and so have all that follow,
or a lone carriage return cuts the line off. -/
theorem readString_text (s : Bytes) :
    (text s 0 = trimLineRight (readString s).1 ∧ ∀ i, text s (i + 1) = text (readString s).2 i) ∨
      (10 ∉ (readString s).1 ∧ s = (readString s).1 ++ (readString s).2 ∧
        AtLoneCR (readString s).2) := by
  obtain ⟨l, s', hr, hl, -, ⟨rfl, rfl⟩ | rfl | rfl | ⟨rfl, hcr⟩⟩ := readString_cases s
  · left
    rw [hr]
    have hrow := row_append_zero hl []
    have hrest := row_append_succ hl []
    simp only [List.append_nil, row_nil] at hrow hrest
    simp only [text, hrow, hrest, row_nil, implies_true, and_self]
  · left
    rw [hr]
    simp only [text, row_append_zero hl, row_append_succ hl, row_lf_zero, row_lf_succ,
      List.append_nil, implies_true, and_self]
  · left
    rw [hr]
    simp only [text, row_append_zero hl, row_append_succ hl, row_lf_zero, row_lf_succ,
      row_cons_zero (show (13 : UInt8) ≠ 10 by decide),
      row_cons_succ (show (13 : UInt8) ≠ 10 by decide), implies_true, and_true]
    exact rdropWhile_append_of_all l (by simp [trimmed])
  · right
    rw [hr]
    exact ⟨hl, rfl, hcr⟩

theorem readString_of_atLoneCR {s : Bytes} (h : AtLoneCR s) : readString s = ([], s) := by
  obtain ⟨z, rfl⟩ := List.head?_eq_some_iff.1 h.1
  have hz : z.head? ≠ some 10 := h.2
  cases z with
  | nil => rfl
  | cons b z =>
    have hb : b ≠ 10 := fun hb => hz (congrArg some hb)
    simp [readString, isEoln, eoln, hb]

theorem after_of_atLoneCR {s : Bytes} (h : AtLoneCR s) (n : Nat) : after s n = s := by
  induction n with
  | zero => rfl
  | succ n ih => rw [after_succ, readString_of_atLoneCR h, ih]

theorem line_of_atLoneCR {s : Bytes} (h : AtLoneCR s) (n : Nat) : line s n = [] := by
  rw [line, after_of_atLoneCR h, readString_of_atLoneCR h]

def Blank (s : Bytes) : Prop := ∀ b ∈ s, isBlanks b

theorem blank_iff_text (s : Bytes) : Blank s ↔ ∀ i, text s i = [] := by
  induction s with
  | nil => simp [Blank, text, row_nil, trimLineRight]
  | cons b s ih =>
    have hcons : Blank (b :: s) ↔ isBlanks b ∧ Blank s := List.forall_mem_cons
    rw [hcons, ih, ← Nat.and_forall_add_one (p := fun i => text (b :: s) i = [])]
    by_cases hb : b = 10
    · subst hb
      have hblank : isBlanks 10 := rfl
      simp only [hblank, text, row_lf_zero, row_lf_succ, trimLineRight_nil]
    · have hzero : text (b :: s) 0 = [] ↔ isBlanks b ∧ text s 0 = [] := by
        rw [text, row_cons_zero hb, text, trimLineRight, trimLineRight, List.rdropWhile_eq_nil_iff,
          List.rdropWhile_eq_nil_iff, List.forall_mem_cons]
        simp [trimmed, isBlanks, hb, or_comm, or_left_comm]
      rw [← Nat.and_forall_add_one (p := fun i => text s i = []), hzero, and_assoc]
      simp only [text, row_cons_succ hb]

/-- What is left of a file is blank exactly when the lines read have the texts of the file's
lines, and there are no other texts. -/
theorem blank_after_iff (s : Bytes) (m : Nat) :
    Blank (after s m) ↔ ∀ i, text s i = if i < m then trimLineRight (line s i) else [] := by
  induction m generalizing s with
  | zero => simpa using blank_iff_text s
  | succ m ih =>
    rw [after_succ, ← Nat.and_forall_add_one]
    simp only [Nat.zero_lt_succ, if_true, Nat.add_lt_add_iff_right, line_zero, line_succ]
    obtain ⟨hzero, hsucc⟩ | ⟨hl, hcut, hcr⟩ := readString_text s
    · simp only [hzero, hsucc, true_and]
      exact ih _
    · -- The line is cut, and nothing is read any more.
      have hrow : row s 0 = (readString s).1 ++ row (readString s).2 0 := by
        conv_lhs => rw [hcut, row_append_zero hl]
      have hrest : ∀ i, text s (i + 1) = text (readString s).2 (i + 1) := by
        intro i
        rw [text, text]
        conv_lhs => rw [hcut, row_append_succ hl]
      have hzero : text s 0 = trimLineRight (readString s).1 ↔ text (readString s).2 0 = [] := by
        rw [text, text, hrow, trimLineRight, trimLineRight, trimLineRight,
          rdropWhile_append_eq_iff, List.rdropWhile_eq_nil_iff]
      rw [after_of_atLoneCR hcr, blank_iff_text, ← Nat.and_forall_add_one, hzero]
      simp only [hrest, line_of_atLoneCR hcr, trimLineRight_nil, ite_self]

theorem not_loneCR_nil : ¬LoneCR [] := by
  rintro ⟨z, hz, hcr⟩
  rw [List.suffix_nil.1 hz] at hcr
  cases hcr.1

theorem loneCR_of_cons {b : UInt8} {s : Bytes} (h : LoneCR (b :: s)) (hb : ¬AtLoneCR (b :: s)) :
    LoneCR s := by
  obtain ⟨z, hz, hcr⟩ := h
  obtain rfl | hz := List.suffix_cons_iff.1 hz
  · exact absurd hcr hb
  · exact ⟨z, hz, hcr⟩

theorem loneCR_of_append {l s : Bytes} (hl : 13 ∉ l) (h : LoneCR (l ++ s)) : LoneCR s := by
  induction l with
  | nil => exact h
  | cons b l ih =>
    rw [List.mem_cons, not_or] at hl
    apply ih hl.2
    apply loneCR_of_cons h
    intro hcr
    exact hl.1 (Option.some.inj hcr.1).symm

/-- Reading does not get past one. -/
theorem loneCR_readString {s : Bytes} (h : LoneCR s) : LoneCR (readString s).2 := by
  have hlf : ∀ r : Bytes, ¬AtLoneCR (10 :: r) := fun r h => absurd h.1 (by simp)
  obtain ⟨l, s', hr, -, hl, ⟨rfl, rfl⟩ | rfl | rfl | ⟨rfl, hcr⟩⟩ := readString_cases s
  · have hnil := loneCR_of_append hl (by rwa [List.append_nil])
    exact absurd hnil not_loneCR_nil
  · rw [hr]
    exact loneCR_of_cons (loneCR_of_append hl h) (hlf s')
  · rw [hr]
    have hcrlf : ¬AtLoneCR (13 :: 10 :: s') := fun h => h.2 rfl
    exact loneCR_of_cons (loneCR_of_cons (loneCR_of_append hl h) hcrlf) (hlf s')
  · rw [hr]
    exact ⟨s', List.suffix_rfl, hcr⟩

theorem loneCR_after {s : Bytes} (h : LoneCR s) (n : Nat) : LoneCR (after s n) := by
  induction n generalizing s with
  | zero => exact h
  | succ n ih => exact ih (loneCR_readString h)

/-- Without one a line is taken off. -/
theorem readString_shorter {s : Bytes} (h : ¬LoneCR s) (hne : s ≠ []) :
    ¬LoneCR (readString s).2 ∧ (readString s).2.length < s.length := by
  obtain ⟨l, s', hr, -, -, hs⟩ := readString_cases s
  have hsuffix : s' <:+ s := by
    obtain ⟨-, rfl⟩ | rfl | rfl | ⟨rfl, -⟩ := hs
    · exact List.nil_suffix
    · exact ⟨l ++ [10], by simp⟩
    · exact ⟨l ++ [13, 10], by simp⟩
    · exact List.suffix_append l s'
  rw [hr]
  constructor
  · rintro ⟨z, hz, hcr⟩
    exact h ⟨z, hz.trans hsuffix, hcr⟩
  · obtain ⟨rfl, rfl⟩ | rfl | rfl | ⟨rfl, hcr⟩ := hs
    · exact List.length_pos_of_ne_nil hne
    · simp only [List.length_append, List.length_cons]
      omega
    · simp only [List.length_append, List.length_cons]
      omega
    · exact absurd ⟨s', List.suffix_append l s', hcr⟩ h

theorem after_eq_nil {s : Bytes} (h : ¬LoneCR s) : ∃ n, after s n = [] := by
  by_cases hne : s = []
  · exact ⟨0, hne⟩
  · obtain ⟨hcr, hlt⟩ := readString_shorter h hne
    obtain ⟨n, hn⟩ := after_eq_nil hcr
    exact ⟨n + 1, hn⟩
termination_by s.length

end JudgeServer.Checker
