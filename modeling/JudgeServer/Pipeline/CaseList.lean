import JudgeServer.Pipeline.TestData
import Mathlib.Data.List.Nodup
import Mathlib.Data.List.Perm.Basic

/-!
# The case list of a problem

What `load_cases_for_problem` makes of a data directory that is read without an error:
one case for every regular file `x.in` that has an `x.out` beside it, numbered from one in
the order in which the directory was enumerated. Nothing sorts the files, so another order
of the same directory permutes the numbers.
-/

namespace JudgeServer.Pipeline

open JudgeServer.Common
open JudgeServer.Lib.LexicalPath

/-- The directory is enumerated as `order`, without an error. -/
structure Enumerates (fs : FileSystem) (directoryPath : Bytes) (order : List DirectoryEntry) :
    Prop where
  steps : fs.entries directoryPath = order.map .ok
  unique : (order.map (·.name)).Nodup
  regular : ∀ entry ∈ order, ∃ b, entry.regular = .ok b
  outputs : ∀ entry ∈ order, ∃ b,
    fs.pathExists (join directoryPath (outputFileName entry.name)) = .ok b

/-- The same machine, where the directory is enumerated in another order. -/
def FileSystem.reordered (fs : FileSystem) (directoryPath : Bytes) (order : List DirectoryEntry) :
    FileSystem :=
  { fs with entries := Function.update fs.entries directoryPath (order.map .ok) }

/-- There is a regular file `x.in` and something named `x.out`. -/
def HasCase (fs : FileSystem) (directoryPath : Bytes) (order : List DirectoryEntry) (x : Bytes) :
    Prop :=
  (∃ entry ∈ order, entry.name = x ++ ascii ".in" ∧ entry.regular = .ok true) ∧
    fs.pathExists (join directoryPath (x ++ ascii ".out")) = .ok true

/-- A test that did not throw. -/
def holds : Except StdException Bool → Bool
  | .ok b => b
  | .error _ => false

section Scan

variable (fs : FileSystem) (directoryPath : Bytes)

/-- The entry starts a case. -/
def startsCase (entry : DirectoryEntry) : Bool :=
  holds entry.regular && hasSuffix entry.name (ascii ".in") &&
    holds (fs.pathExists (join directoryPath (outputFileName entry.name)))

/-- A file name without its last three bytes. -/
def stem (fileName : Bytes) : Bytes := fileName.take (fileName.length - 3)

/-- The stems of the cases in the order of the directory. -/
def caseStems (order : List DirectoryEntry) : List Bytes :=
  (order.filter (startsCase fs directoryPath)).map fun entry => stem entry.name

end Scan

theorem holds_iff {x : Except StdException Bool} : holds x = true ↔ x = .ok true := by
  cases x with
  | error ex => simp [holds]
  | ok b => simp [holds]

theorem hasSuffix_iff {value suffix : Bytes} :
    hasSuffix value suffix = true ↔ ∃ x, value = x ++ suffix := by
  simp only [hasSuffix, Bool.and_eq_true, decide_eq_true_eq]
  constructor
  · rintro ⟨_, hdrop⟩
    refine ⟨value.take (value.length - suffix.length), ?_⟩
    conv_lhs => rw [← List.take_append_drop (value.length - suffix.length) value]
    rw [hdrop]
  · rintro ⟨x, rfl⟩
    simp

theorem stem_append (x : Bytes) : stem (x ++ ascii ".in") = x := by
  have hlen : (ascii ".in").length = 3 := rfl
  simp [stem, hlen]

theorem outputFileName_append (x : Bytes) : outputFileName (x ++ ascii ".in") = x ++ ascii ".out" :=
  congrArg (· ++ ascii ".out") (stem_append x)

section Listing

variable {fs : FileSystem} {directoryPath : Bytes} {order : List DirectoryEntry}

theorem startsCase_iff {entry : DirectoryEntry} :
    startsCase fs directoryPath entry = true ↔
      ∃ x, entry.name = x ++ ascii ".in" ∧ entry.regular = .ok true ∧
        fs.pathExists (join directoryPath (x ++ ascii ".out")) = .ok true := by
  simp only [startsCase, Bool.and_eq_true, holds_iff, hasSuffix_iff]
  constructor
  · rintro ⟨⟨hregular, x, hx⟩, hout⟩
    rw [hx, outputFileName_append] at hout
    exact ⟨x, hx, hregular, hout⟩
  · rintro ⟨x, hx, hregular, hout⟩
    rw [hx, outputFileName_append]
    exact ⟨⟨hregular, x, rfl⟩, hout⟩

/-- The loop keeps the entries that start a case. -/
theorem scanEntries_eq (hregular : ∀ entry ∈ order, ∃ b, entry.regular = .ok b)
    (houtputs : ∀ entry ∈ order, ∃ b,
      fs.pathExists (join directoryPath (outputFileName entry.name)) = .ok b) :
    scanEntries fs directoryPath (order.map .ok) =
      (caseStems fs directoryPath order).map fun x => (x ++ ascii ".in", x ++ ascii ".out") := by
  induction order with
  | nil => rfl
  | cons entry rest ih =>
    have hrest := ih (fun e he => hregular e (List.mem_cons_of_mem _ he))
      fun e he => houtputs e (List.mem_cons_of_mem _ he)
    obtain ⟨isRegular, hreg⟩ := hregular entry List.mem_cons_self
    obtain ⟨found, hfound⟩ := houtputs entry List.mem_cons_self
    unfold caseStems at hrest ⊢
    rw [List.map_cons, scanEntries, hrest, List.filter_cons]
    cases isRegular with
    | false => simp [hreg, startsCase, holds]
    | true =>
      by_cases hin : hasSuffix entry.name (ascii ".in") = true
      · obtain ⟨x, hx⟩ := hasSuffix_iff.mp hin
        cases found with
        | false => simp [hreg, hin, hfound, startsCase, holds]
        | true =>
          simp only [hreg, hin, hfound, startsCase, holds, Bool.and_self, if_true, List.map_cons]
          rw [hx, outputFileName_append, stem_append]
      · simp [hreg, hin, startsCase, holds]

/-- The input files are entries of the directory, in its order. -/
theorem caseStems_sublist :
    ((caseStems fs directoryPath order).map (· ++ ascii ".in")).Sublist (order.map (·.name)) := by
  have hnames : (caseStems fs directoryPath order).map (· ++ ascii ".in") =
      (order.filter (startsCase fs directoryPath)).map (·.name) := by
    rw [caseStems, List.map_map]
    apply List.map_congr_left
    intro entry hentry
    obtain ⟨x, hx, -⟩ := startsCase_iff.mp (List.mem_filter.mp hentry).2
    show stem entry.name ++ ascii ".in" = entry.name
    rw [hx, stem_append]
  rw [hnames]
  exact List.filter_sublist.map _

theorem mem_caseStems_iff {x : Bytes} :
    x ∈ caseStems fs directoryPath order ↔ HasCase fs directoryPath order x := by
  simp only [caseStems, List.mem_map, List.mem_filter, startsCase_iff]
  constructor
  · rintro ⟨entry, ⟨hmem, y, hy, hregular, hout⟩, rfl⟩
    rw [hy, stem_append]
    exact ⟨⟨entry, hmem, hy, hregular⟩, hout⟩
  · rintro ⟨⟨entry, hmem, hname, hregular⟩, hout⟩
    exact ⟨entry, ⟨hmem, x, hname, hregular, hout⟩, by rw [hname, stem_append]⟩

theorem caseStems_nodup (h : (order.map (·.name)).Nodup) :
    (caseStems fs directoryPath order).Nodup :=
  (caseStems_sublist.nodup h).of_map _

theorem caseStems_perm {order' : List DirectoryEntry} (h : order'.Perm order) :
    (caseStems fs directoryPath order').Perm (caseStems fs directoryPath order) :=
  (h.filter _).map _

end Listing

/-- The cases of a directory, given the stems of their files. -/
def casesOf (directoryPath : Bytes) (stems : List Bytes) : List RunnerCaseInput :=
  stems.mapIdx fun i x => caseSpec directoryPath i (x ++ ascii ".in", x ++ ascii ".out")

/-- The cases, given how the directory is enumerated. -/
theorem loadCases_enumerated (fs : FileSystem) (pid : Bytes) {root : Bytes}
    {order : List DirectoryEntry} (hroot : resolveTestDataRoot fs = .ok root) (hne : root ≠ [])
    (hexists : fs.pathExists (dataPathFor root pid) = .ok true)
    (h : Enumerates fs (dataPathFor root pid) order) :
    loadCasesForProblem fs pid =
      .ok (casesOf (dataPathFor root pid) (caseStems fs (dataPathFor root pid) order)) := by
  rw [loadCasesForProblem_of_exists pid hroot hne hexists, scanTestDataFilePairs, h.steps,
    scanEntries_eq h.regular h.outputs]
  unfold casesOf
  rw [List.mapIdx_eq_zipIdx_map, List.zipIdx_map, List.map_map, List.mapIdx_eq_zipIdx_map]
  rfl

section Numbering

variable (directoryPath : Bytes) (stems : List Bytes)

theorem casesOf_seqIds :
    (casesOf directoryPath stems).map (·.seqId) =
      (List.range stems.length).map fun i : Nat => 1 + (i : Int) := by
  rw [casesOf, List.mapIdx_eq_zipIdx_map, List.map_map, List.range_eq_range',
    ← List.zipIdx_map_snd 0 stems, List.map_map]
  rfl

theorem casesOf_paths :
    (casesOf directoryPath stems).map (fun c => (c.inputPath, c.expectedOutputPath)) =
      stems.map fun x => (join directoryPath (x ++ ascii ".in"),
        join directoryPath (x ++ ascii ".out")) := by
  rw [casesOf, List.mapIdx_eq_zipIdx_map, List.map_map]
  conv_rhs => rw [← List.zipIdx_map_fst 0 stems, List.map_map]
  rfl

end Numbering

/-- The case list shows in which order the files came. -/
theorem casesOf_inj {directoryPath : Bytes} {stems stems' : List Bytes}
    (hstems : ∀ x ∈ stems, isAbsolute (x ++ ascii ".in") = false)
    (hstems' : ∀ x ∈ stems', isAbsolute (x ++ ascii ".in") = false) :
    casesOf directoryPath stems = casesOf directoryPath stems' ↔ stems = stems' := by
  constructor
  · intro h
    have hpaths := congrArg (List.map fun c => (c.inputPath, c.expectedOutputPath)) h
    rw [casesOf_paths, casesOf_paths] at hpaths
    clear h
    induction stems generalizing stems' with
    | nil => exact (List.map_eq_nil_iff.mp hpaths.symm).symm
    | cons x xs ih =>
      cases stems' with
      | nil => cases hpaths
      | cons y ys =>
        rw [List.map_cons, List.map_cons, List.cons.injEq, Prod.mk.injEq] at hpaths
        obtain ⟨⟨hxy, -⟩, hrest⟩ := hpaths
        have hname := join_right_cancel (hstems x List.mem_cons_self)
          (hstems' y List.mem_cons_self) hxy
        rw [List.append_cancel_right hname, ih (fun z hz => hstems z (List.mem_cons_of_mem _ hz))
          (fun z hz => hstems' z (List.mem_cons_of_mem _ hz)) hrest]
  · intro h
    rw [h]

section Orders

variable {fs : FileSystem} {directoryPath : Bytes} {order order' : List DirectoryEntry}

theorem caseStems_relative {x : Bytes} (hx : x ∈ caseStems fs directoryPath order) :
    isAbsolute (x ++ ascii ".in") = false := by
  obtain ⟨⟨entry, -, hname, -⟩, -⟩ := mem_caseStems_iff.mp hx
  rw [← hname]
  exact isAbsolute_proper entry.proper

theorem Enumerates.reordered (h : Enumerates fs directoryPath order) (hp : order'.Perm order) :
    Enumerates (fs.reordered directoryPath order') directoryPath order' where
  steps := Function.update_self _ _ _
  unique := (hp.map _).nodup_iff.mpr h.unique
  regular := fun entry he => h.regular entry (hp.mem_iff.mp he)
  outputs := fun entry he => h.outputs entry (hp.mem_iff.mp he)

end Orders

/-- The cases are those of the files with these stems: numbered from one, each with its
two paths. -/
structure ListsCases (directoryPath : Bytes) (stems : List Bytes) (cases : List RunnerCaseInput) :
    Prop where
  seqIds : cases.map (·.seqId) = (List.range stems.length).map fun i : Nat => 1 + (i : Int)
  paths : cases.map (fun c => (c.inputPath, c.expectedOutputPath)) = stems.map fun x =>
    (join directoryPath (x ++ ascii ".in"), join directoryPath (x ++ ascii ".out"))

theorem casesOf_lists (directoryPath : Bytes) (stems : List Bytes) :
    ListsCases directoryPath stems (casesOf directoryPath stems) :=
  ⟨casesOf_seqIds directoryPath stems, casesOf_paths directoryPath stems⟩

section Sample

theorem proper_entryOne : Proper (ascii "1.in") := by
  refine ⟨?_, ?_, ?_, ?_⟩ <;> decide

theorem proper_entryTwo : Proper (ascii "2.in") := by
  refine ⟨?_, ?_, ?_, ?_⟩ <;> decide

/-- Two cases in one directory. -/
def entryOne : DirectoryEntry := ⟨ascii "1.in", proper_entryOne, .ok true⟩
def entryTwo : DirectoryEntry := ⟨ascii "2.in", proper_entryTwo, .ok true⟩

def twoCaseFileSystem : FileSystem where
  testDataPath := .ok (ascii "/td")
  projectRootDir := ascii "/srv"
  pathExists := fun _ => .ok true
  weaklyCanonical := fun _ => .ok (ascii "/td")
  canonical_absolute := by
    intro p q _ hq
    cases hq
    decide
  entries := fun _ => [.ok entryOne, .ok entryTwo]

theorem twoCases_enumerated :
    Enumerates twoCaseFileSystem (dataPathFor (ascii "/td") (ascii "7")) [entryOne, entryTwo] where
  steps := rfl
  unique := by decide
  regular := by
    intro entry hentry
    simp only [List.mem_cons, List.not_mem_nil, or_false] at hentry
    obtain rfl | rfl := hentry <;> exact ⟨true, rfl⟩
  outputs := fun _ _ => ⟨true, rfl⟩

theorem twoCases_root : resolveTestDataRoot twoCaseFileSystem = .ok (ascii "/td") := rfl

end Sample

end JudgeServer.Pipeline
