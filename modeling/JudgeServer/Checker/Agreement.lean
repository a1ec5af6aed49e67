import JudgeServer.Checker.LineTexts

/-!
# When the checker and the built-in comparison agree

The checker accepts only what the built-in comparison accepts. It rejects more: a line
that ends in a tab, or that comes after a lone carriage return, need not be seen the same
where its text is the same. On an expected output with a lone carriage return it ends only
at a difference.
-/

namespace JudgeServer.Checker

open JudgeServer.Common
open JudgeServer.Runner
open JudgeServer.Pipeline (StdException)
open JudgeServer.Lib.Trimming

def SameText (ans ouf : Bytes) : Prop := ∀ i, text ans i = text ouf i

/-- Every line that is compared is seen the same. -/
def SameSeen (ans ouf : Bytes) : Prop := ∀ i, Compared ans i → seen ans i = seen ouf i

theorem quitf_ok_eq_zero {ouf : Bytes} : quitf ouf .ok = 0 ↔ Blank ouf := by
  have hseek : seekEof ouf ↔ Blank ouf := by
    simp [seekEof, Blank]
  rw [← hseek, quitf]
  cases seekEof ouf <;> decide

theorem after_nil (n : Nat) : after [] n = [] := by
  induction n with
  | zero => rfl
  | succ n ih => exact ih

/-- The lines that are compared come first. -/
theorem Compared.before {ans : Bytes} {m n : Nat} (h : Compared ans n) (hmn : m ≤ n) :
    Compared ans m := by
  have hleft : ∀ k ≤ n, after ans k ≠ [] := by
    intro k hk hnil
    obtain ⟨d, rfl⟩ := Nat.exists_eq_add_of_le hk
    apply h.1
    rw [after_add, hnil, after_nil]
  apply And.intro (hleft m hmn)
  rintro ⟨hseen, hnil⟩
  by_cases heq : m = n
  · subst heq
    exact h.2 ⟨hseen, hnil⟩
  · exact hleft (m + 1) (by omega) hnil

/-- There is always a line at a lone carriage return. -/
theorem compared_of_loneCR {ans : Bytes} (h : LoneCR ans) (n : Nat) : Compared ans n := by
  have hne : ∀ k, after ans k ≠ [] := by
    intro k hnil
    have hcr := loneCR_after h k
    rw [hnil] at hcr
    exact not_loneCR_nil hcr
  exact ⟨hne n, fun hlast => hne (n + 1) hlast.2⟩

theorem trimLineRight_seen (s : Bytes) (i : Nat) :
    trimLineRight (seen s i) = trimLineRight (line s i) := by
  apply rdropWhile_rdropWhile
  intro b hb hstrip
  have hlf : b ≠ 10 := by
    rintro rfl
    obtain ⟨l, s', hr, hl, -⟩ := readString_cases (after s i)
    rw [line, hr] at hb
    exact hl hb
  simp only [Bool.or_eq_true, decide_eq_true_eq] at hstrip
  simp only [trimmed, Bool.or_eq_true, decide_eq_true_eq]
  tauto

/-- Where the checker stops comparing, only blanks are left. -/
theorem blank_of_not_compared {ans : Bytes} {n : Nat} (h : ¬Compared ans n) :
    Blank (after ans n) := by
  by_cases hnil : after ans n = []
  · rw [hnil]
    exact fun b hb => absurd hb List.not_mem_nil
  · have hlast : seen ans n = [] ∧ after ans (n + 1) = [] := by
      by_contra hc
      exact h ⟨hnil, hc⟩
    have hblank : Blank (after (after ans n) 1) := by
      rw [← after_add, hlast.2]
      exact fun b hb => absurd hb List.not_mem_nil
    rw [blank_iff_text]
    intro i
    rw [(blank_after_iff _ 1).1 hblank i]
    split
    · next hi =>
      obtain rfl : i = 0 := by omega
      have hline : line (after ans n) 0 = line ans n := rfl
      rw [hline, ← trimLineRight_seen, hlast.1, trimLineRight_nil]
    · rfl

/-- Both files are read to their blank ends with the same lines. -/
theorem blank_after_iff_sameText {ans ouf : Bytes} {n : Nat} (hpass : Passed ans ouf n)
    (hend : ¬Compared ans n) : Blank (after ouf n) ↔ SameText ans ouf := by
  have hans := (blank_after_iff ans n).1 (blank_of_not_compared hend)
  rw [blank_after_iff]
  have hlines : ∀ i, (if i < n then trimLineRight (line ouf i) else []) = text ans i := by
    intro i
    rw [hans i]
    split
    · next hi => rw [← trimLineRight_seen, ← (hpass i hi).2, trimLineRight_seen]
    · rfl
  simp only [hlines]
  exact forall_congr' fun i => eq_comm

/-- A difference in a line that is compared is found. -/
theorem exits_wa {ans ouf : Bytes} (h : ¬SameSeen ans ouf) : Exits ans ouf (resultExitCode .wa) := by
  have hex : ∃ n, Compared ans n ∧ seen ans n ≠ seen ouf n := by
    simpa [SameSeen] using h
  classical
  obtain ⟨hc, hs⟩ := Nat.find_spec hex
  rw [exits_iff]
  refine ⟨Nat.find hex, ?_, .inr ⟨hc, hs, rfl⟩⟩
  intro i hi
  have hci := hc.before (Nat.le_of_lt hi)
  apply And.intro hci
  by_contra hne
  exact Nat.find_min hex hi ⟨hci, hne⟩

/-- Without a difference the program ends at the end of the expected output. -/
theorem exits_ok {ans ouf : Bytes} (hseen : SameSeen ans ouf) (hcr : ¬LoneCR ans) :
    ∃ n, Passed ans ouf n ∧ ¬Compared ans n ∧ Exits ans ouf (quitf (after ouf n) .ok) := by
  have hex : ∃ n, ¬Compared ans n := by
    obtain ⟨n, hn⟩ := after_eq_nil hcr
    exact ⟨n, fun h => h.1 hn⟩
  have hend := Nat.find_spec hex
  have hpass : Passed ans ouf (Nat.find hex) := by
    intro i hi
    have hci := not_not.1 (Nat.find_min hex hi)
    exact ⟨hci, hseen i hci⟩
  exact ⟨_, hpass, hend, exits_iff.2 ⟨_, hpass, .inl ⟨hend, rfl⟩⟩⟩

/-- An output that is accepted has the expected text. -/
theorem sameText_of_exits {ans ouf : Bytes} (h : Exits ans ouf 0) :
    SameText ans ouf ∧ SameSeen ans ouf ∧ ¬LoneCR ans := by
  obtain ⟨n, hpass, ⟨hend, hcode⟩ | ⟨-, -, hcode⟩⟩ := exits_iff.1 h
  · refine ⟨(blank_after_iff_sameText hpass hend).1 (quitf_ok_eq_zero.1 hcode.symm), ?_, ?_⟩
    · intro i hi
      have hlt : i < n := by
        by_contra hle
        exact hend (hi.before (by omega))
      exact (hpass i hlt).2
    · intro hcr
      exact hend (compared_of_loneCR hcr n)
  · cases hcode

theorem exits_zero_iff {ans ouf : Bytes} :
    Exits ans ouf 0 ↔ SameText ans ouf ∧ SameSeen ans ouf ∧ ¬LoneCR ans := by
  apply Iff.intro sameText_of_exits
  rintro ⟨htext, hseen, hcr⟩
  obtain ⟨n, hpass, hend, hexit⟩ := exits_ok hseen hcr
  rwa [quitf_ok_eq_zero.2 ((blank_after_iff_sameText hpass hend).2 htext)] at hexit

/-- When the program ends at all. -/
theorem exits_some_iff {ans ouf : Bytes} :
    (∃ code, Exits ans ouf code) ↔ ¬(LoneCR ans ∧ SameSeen ans ouf) := by
  constructor
  · rintro ⟨code, h⟩ ⟨hcr, hseen⟩
    obtain ⟨n, -, ⟨hend, -⟩ | ⟨hc, hs, -⟩⟩ := exits_iff.1 h
    · exact hend (compared_of_loneCR hcr n)
    · exact hs (hseen n hc)
  · intro h
    by_cases hseen : SameSeen ans ouf
    · have hcr : ¬LoneCR ans := fun hcr => h ⟨hcr, hseen⟩
      obtain ⟨n, -, -, hexit⟩ := exits_ok hseen hcr
      exact ⟨_, hexit⟩
    · exact ⟨_, exits_wa hseen⟩

/-- The files of one case and where they are. -/
structure CaseFiles where
  content : Bytes → Bytes
  inputPath : Bytes
  expectedPath : Bytes
  userPath : Bytes

/-- What `system` returns of a run of the checker that may take a number of rounds: the exit
code in the high byte. -/
def checkerStatus (rounds : Nat) (ans ouf : Bytes) : Option Int :=
  (compareLines rounds ans ouf).map fun code : Nat => (256 * code : Int)

/-- The machine of one comparison, with the checker installed or not. -/
def caseMachine (files : CaseFiles) (installed : Bool) (rounds : Nat) : Host Option where
  temp := []
  call
    | .pathExists _ => some (.ok installed)
    | .system command _ =>
        if command = checkerPath ++ ascii " " ++ files.inputPath ++ ascii " " ++ files.userPath ++
            ascii " " ++ files.expectedPath then
          checkerStatus rounds (files.content files.expectedPath) (files.content files.userPath)
        else none
    | .readFile path => some (files.content path)
    | _ => none

/-- The verdict `compareCaseOutput` comes to. -/
def Judged (files : CaseFiles) (installed : Bool) (verdict : SubmissionVerdict) : Prop :=
  ∃ rounds, (compareCaseOutput (caseMachine files installed rounds) files.inputPath
    files.expectedPath files.userPath).run = some (.ok verdict)

theorem judged_without {files : CaseFiles} {verdict : SubmissionVerdict} :
    Judged files false verdict ↔
      verdict = if normalizeOutputLines (files.content files.expectedPath) =
        normalizeOutputLines (files.content files.userPath) then .ac else .wa := by
  have hrun : ∀ rounds, (compareCaseOutput (caseMachine files false rounds) files.inputPath
      files.expectedPath files.userPath).run =
        some (.ok (if normalizeOutputLines (files.content files.expectedPath) =
          normalizeOutputLines (files.content files.userPath) then .ac else .wa)) := fun _ => rfl
  simp only [Judged, hrun, Option.some.injEq, Except.ok.injEq, exists_const]
  exact eq_comm

/-- The checker's status decides where it is installed. -/
theorem compareCaseOutput_installed {host : Host Option} {inputPath expectedPath userPath : Bytes}
    {reply : Option Int} (hexists : host.call (.pathExists checkerPath) = some (.ok true))
    (hsystem : host.call (.system (checkerPath ++ ascii " " ++ inputPath ++ ascii " " ++
      userPath ++ ascii " " ++ expectedPath) []) = reply) :
    (compareCaseOutput host inputPath expectedPath userPath).run =
      reply.map fun status => .ok (if status = 0 then .ac else .wa) := by
  have hp : (pathExists host checkerPath).run = some (.ok true) := hexists
  have hs : (system host (checkerPath ++ ascii " " ++ inputPath ++ ascii " " ++ userPath ++
      ascii " " ++ expectedPath) []).run = reply.map .ok := by
    rw [← hsystem]
    rfl
  rw [compareCaseOutput, ExceptT.run_bind, hp]
  simp only [Option.bind_eq_bind, Option.bind_some, if_true]
  rw [ExceptT.run_bind, hs]
  cases reply <;> rfl

theorem judged_with {files : CaseFiles} {verdict : SubmissionVerdict} :
    Judged files true verdict ↔
      ∃ code, Exits (files.content files.expectedPath) (files.content files.userPath) code ∧
        verdict = if code = 0 then .ac else .wa := by
  have hzero : ∀ code : Nat, (256 * code : Int) = 0 ↔ code = 0 := by
    intro code
    omega
  have hrun : ∀ rounds, (compareCaseOutput (caseMachine files true rounds) files.inputPath
      files.expectedPath files.userPath).run =
        (compareLines rounds (files.content files.expectedPath)
          (files.content files.userPath)).map fun code => .ok (if code = 0 then .ac else .wa) := by
    intro rounds
    have hstatus : (caseMachine files true rounds).call (.system (checkerPath ++ ascii " " ++
        files.inputPath ++ ascii " " ++ files.userPath ++ ascii " " ++ files.expectedPath) []) =
          checkerStatus rounds (files.content files.expectedPath)
            (files.content files.userPath) := if_pos rfl
    rw [compareCaseOutput_installed rfl hstatus, checkerStatus, Option.map_map]
    simp only [Function.comp_def, hzero]
  simp only [Judged, hrun, Option.map_eq_some_iff, Except.ok.injEq, Exits]
  constructor
  · rintro ⟨rounds, code, hcode, rfl⟩
    exact ⟨code, ⟨rounds, hcode⟩, rfl⟩
  · rintro ⟨code, ⟨rounds, hcode⟩, rfl⟩
    exact ⟨rounds, code, hcode, rfl⟩

/-- The checker ends, and with code zero exactly where the built-in comparison accepts. -/
def Agrees (ans ouf : Bytes) : Prop :=
  ∃ code, Exits ans ouf code ∧ (code = 0 ↔ normalizeOutputLines ans = normalizeOutputLines ouf)

/-- With and without the checker a case has the same verdict. -/
def SameVerdict (ans ouf : Bytes) : Prop :=
  ∀ files : CaseFiles, files.content files.expectedPath = ans →
    files.content files.userPath = ouf →
    ∃ verdict, Judged files true verdict ∧ Judged files false verdict

/-- A case with given files. -/
def filesOf (ans ouf : Bytes) : CaseFiles where
  content path := if path = ascii "ans" then ans else ouf
  inputPath := ascii "in"
  expectedPath := ascii "ans"
  userPath := ascii "out"

theorem sameVerdict_iff_agrees {ans ouf : Bytes} : SameVerdict ans ouf ↔ Agrees ans ouf := by
  have hcode : ∀ (code : Nat) (b : Prop) [Decidable b],
      ((if b then SubmissionVerdict.ac else .wa) = if code = 0 then .ac else .wa) ↔
        (code = 0 ↔ b) := by
    intro code b _
    by_cases hb : b <;> by_cases hc : code = 0 <;> simp [hb, hc]
  constructor
  · intro h
    have hans : (filesOf ans ouf).content (filesOf ans ouf).expectedPath = ans := by
      simp only [filesOf, if_true]
    have houf : (filesOf ans ouf).content (filesOf ans ouf).userPath = ouf := by
      simp only [filesOf]
      exact if_neg (by decide)
    obtain ⟨verdict, hwith, hwithout⟩ := h (filesOf ans ouf) hans houf
    obtain ⟨code, hexit, hv⟩ := judged_with.1 hwith
    rw [judged_without.1 hwithout, hcode, hans, houf] at hv
    rw [hans, houf] at hexit
    exact ⟨code, hexit, hv⟩
  · rintro ⟨code, hexit, hv⟩ files rfl rfl
    exact ⟨_, judged_with.2 ⟨code, hexit, ((hcode code _).2 hv).symm ▸ rfl⟩, judged_without.2 rfl⟩

/-- The checker and the built-in comparison agree exactly on these files. Where the expected
output has no lone carriage return, lines with the same texts must be seen the same. Where
it has one, the files must differ in both ways. -/
theorem comparers_agree_iff (ans ouf : Bytes) :
    (Agrees ans ouf ↔
      (¬LoneCR ans → SameText ans ouf → SameSeen ans ouf) ∧
        (LoneCR ans → ¬SameText ans ouf ∧ ¬SameSeen ans ouf)) ∧
      (SameVerdict ans ouf ↔ Agrees ans ouf) := by
  apply And.intro _ sameVerdict_iff_agrees
  have htext : normalizeOutputLines ans = normalizeOutputLines ouf ↔ SameText ans ouf :=
    normalizeOutputLines_eq_iff
  unfold Agrees
  rw [htext]
  constructor
  · rintro ⟨code, hexit, hcode⟩
    have hzero : SameText ans ouf → SameSeen ans ouf ∧ ¬LoneCR ans := by
      intro h
      rw [hcode.2 h] at hexit
      exact (exits_zero_iff.1 hexit).2
    constructor
    · intro _ h
      exact (hzero h).1
    · intro hcr
      apply And.intro fun h => (hzero h).2 hcr
      intro hseen
      exact exits_some_iff.1 ⟨code, hexit⟩ ⟨hcr, hseen⟩
  · rintro ⟨hplain, hlone⟩
    have hends : ¬(LoneCR ans ∧ SameSeen ans ouf) := fun h => (hlone h.1).2 h.2
    obtain ⟨code, hexit⟩ := exits_some_iff.2 hends
    refine ⟨code, hexit, fun hzero => ?_, fun h => ?_⟩
    · rw [hzero] at hexit
      exact (exits_zero_iff.1 hexit).1
    · have hcr : ¬LoneCR ans := fun hcr => (hlone hcr).1 h
      exact exits_unique hexit (exits_zero_iff.2 ⟨h, hplain hcr h, hcr⟩)

/-- An expected line ends in a tab that the output does not have. -/
theorem tab_changes_verdict : ¬Agrees (ascii "a\t\n") (ascii "a\n") := by
  rintro ⟨code, hexit, hcode⟩
  have hwa : Exits (ascii "a\t\n") (ascii "a\n") 1 := ⟨1, by decide⟩
  obtain rfl := exits_unique hexit hwa
  exact absurd (hcode.2 (by decide)) (by decide)

end JudgeServer.Checker
