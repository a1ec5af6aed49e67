import JudgeServer.Pipeline.SubmissionService
import JudgeServer.Lib.LexicalPath
import JudgeServer.Protocol.JudgeProtocol

/-!
# Where the test cases come from

`resolve_test_data_root` and `load_cases_for_problem` of `pipeline/SubmissionService.cpp`,
and `scan_test_data_file_pairs` of `common/utils.cpp`. The content of the file system is
a parameter; the paths are byte strings that are joined, never looked into.
-/

namespace JudgeServer.Pipeline

open JudgeServer.Common
open JudgeServer.Lib.LexicalPath

structure DirectoryEntry where
  name : Bytes
  proper : Proper name
  /-- `is_regular_file`, which may throw. -/
  regular : Except StdException Bool

/-- The file system and the configuration while one problem is loaded. -/
structure FileSystem where
  /-- `Config::getTestDataPath`. -/
  testDataPath : Except StdException Bytes
  /-- The macro `PROJECT_ROOT_DIR`. -/
  projectRootDir : Bytes
  pathExists : Bytes → Except StdException Bool
  weaklyCanonical : Bytes → Except StdException Bytes
  /-- The canonical form of a path that exists is absolute. -/
  canonical_absolute : ∀ {p q : Bytes}, pathExists p = .ok true → weaklyCanonical p = .ok q →
    isAbsolute q = true
  /-- The steps of a `directory_iterator`, any of which may throw. -/
  entries : Bytes → List (Except StdException DirectoryEntry)

section Loading

variable (fs : FileSystem)

/-- The canonical form of the first candidate that exists, or the empty path. -/
def firstExisting : List Bytes → Except StdException Bytes
  | [] => .ok []
  | candidate :: rest => do
      if ← fs.pathExists candidate then fs.weaklyCanonical candidate else firstExisting rest

/-- The configured root, unless it is empty, missing or throws. -/
def configuredRoot : Option Bytes :=
  match fs.testDataPath with
  | .error _ => none
  | .ok configuredPath =>
      if configuredPath = [] then none
      else
        match fs.pathExists configuredPath with
        | .ok true => (fs.weaklyCanonical configuredPath).toOption
        | _ => none

def resolveTestDataRoot : Except StdException Bytes :=
  match configuredRoot fs with
  | some root => .ok root
  | none => firstExisting fs [join fs.projectRootDir (ascii "testData"), ascii "testData",
      ascii "../testData", ascii "../../testData"]

def hasSuffix (value suffix : Bytes) : Bool :=
  suffix.length ≤ value.length && value.drop (value.length - suffix.length) = suffix

/-- The last three bytes replaced by `.out`. -/
def outputFileName (fileName : Bytes) : Bytes :=
  fileName.take (fileName.length - 3) ++ ascii ".out"

/-- The loop of `scan_test_data_file_pairs`; an exception ends it with the pairs so far. -/
def scanEntries (directoryPath : Bytes) :
    List (Except StdException DirectoryEntry) → List (Bytes × Bytes)
  | [] => []
  | .error _ :: _ => []
  | .ok entry :: rest =>
      match entry.regular with
      | .error _ => []
      | .ok false => scanEntries directoryPath rest
      | .ok true =>
          if hasSuffix entry.name (ascii ".in") then
            match fs.pathExists (join directoryPath (outputFileName entry.name)) with
            | .error _ => []
            | .ok true =>
                (entry.name, outputFileName entry.name) :: scanEntries directoryPath rest
            | .ok false => scanEntries directoryPath rest
          else scanEntries directoryPath rest

def scanTestDataFilePairs (directoryPath : Bytes) : List (Bytes × Bytes) :=
  scanEntries fs directoryPath (fs.entries directoryPath)

def caseSpec (dataPath : Bytes) (i : Nat) (pair : Bytes × Bytes) : RunnerCaseInput :=
  { seqId := 1 + i
    inputPath := join dataPath pair.1
    expectedOutputPath := join dataPath pair.2
    cpuTimeLimitMs := 1000
    realTimeLimitMs := 1000
    memoryLimitKb := 1024 * 1024 }

def dataPathFor (testDataRoot pid : Bytes) : Bytes := join (join testDataRoot pid) (ascii "data")

def loadCasesForProblem (pid : Bytes) : Except StdException (List RunnerCaseInput) := do
  let testDataRoot ← resolveTestDataRoot fs
  if testDataRoot = [] then return []
  let dataPath := dataPathFor testDataRoot pid
  if ← fs.pathExists dataPath then
    return (scanTestDataFilePairs fs dataPath).mapIdx (caseSpec dataPath)
  else return []

end Loading

theorem firstExisting_absolute {fs : FileSystem} {candidates : List Bytes} {root : Bytes}
    (h : firstExisting fs candidates = .ok root) : root = [] ∨ isAbsolute root = true := by
  induction candidates with
  | nil =>
    cases h
    exact Or.inl rfl
  | cons candidate rest ih =>
    cases hexists : fs.pathExists candidate with
    | error ex =>
      rw [firstExisting, hexists] at h
      cases h
    | ok found =>
      rw [firstExisting, hexists] at h
      cases found with
      | true => exact Or.inr (fs.canonical_absolute hexists h)
      | false => exact ih h

theorem configuredRoot_absolute {fs : FileSystem} {root : Bytes}
    (h : configuredRoot fs = some root) : isAbsolute root = true := by
  unfold configuredRoot at h
  split at h
  · cases h
  · rename_i configuredPath _
    split_ifs at h
    split at h
    · rename_i hexists
      cases hcanonical : fs.weaklyCanonical configuredPath with
      | error ex =>
        rw [hcanonical] at h
        cases h
      | ok root' =>
        rw [hcanonical] at h
        cases h
        exact fs.canonical_absolute hexists hcanonical
    · cases h

theorem resolveTestDataRoot_absolute {fs : FileSystem} {root : Bytes}
    (h : resolveTestDataRoot fs = .ok root) : root = [] ∨ isAbsolute root = true := by
  unfold resolveTestDataRoot at h
  split at h
  · rename_i root' hconfigured
    cases h
    exact Or.inr (configuredRoot_absolute hconfigured)
  · exact firstExisting_absolute h

theorem outputFileName_proper {name : Name} (h : Proper name) : Proper (outputFileName name) := by
  unfold outputFileName
  have hlen : (name.take (name.length - 3) ++ ascii ".out").length ≥ 4 := by
    simp [ascii]
  refine ⟨?_, ?_, ?_, ?_⟩
  · intro hnil
    rw [hnil] at hlen
    simp at hlen
  · intro hdot
    rw [hdot] at hlen
    simp [dot] at hlen
  · intro hdotdot
    rw [hdotdot] at hlen
    simp [dotdot] at hlen
  · intro hslash
    rw [List.mem_append] at hslash
    obtain hslash | hslash := hslash
    · exact h.2.2.2 (List.mem_of_mem_take hslash)
    · exact absurd hslash (by decide)

/-- Every pair consists of names found in the directory. -/
theorem scanEntries_proper {fs : FileSystem} {directoryPath : Bytes}
    {entries : List (Except StdException DirectoryEntry)} {pair : Bytes × Bytes}
    (h : pair ∈ scanEntries fs directoryPath entries) : Proper pair.1 ∧ Proper pair.2 := by
  induction entries with
  | nil => simp [scanEntries] at h
  | cons step rest ih =>
    cases step with
    | error ex => simp [scanEntries] at h
    | ok entry =>
      rw [scanEntries] at h
      split at h
      · simp at h
      · exact ih h
      · split_ifs at h
        · split at h
          · simp at h
          · rw [List.mem_cons] at h
            obtain rfl | h := h
            · exact ⟨entry.proper, outputFileName_proper entry.proper⟩
            · exact ih h
          · exact ih h
        · exact ih h

/-- With a root, the cases are the pairs of the problem's data directory. -/
theorem loadCasesForProblem_eq {fs : FileSystem} {pid root : Bytes} {cases : List RunnerCaseInput}
    (hroot : resolveTestDataRoot fs = .ok root) (hne : root ≠ [])
    (h : loadCasesForProblem fs pid = .ok cases) :
    (fs.pathExists (dataPathFor root pid) = .ok false ∧ cases = []) ∨
    (fs.pathExists (dataPathFor root pid) = .ok true ∧
      cases = (scanTestDataFilePairs fs (dataPathFor root pid)).mapIdx
        (caseSpec (dataPathFor root pid))) := by
  simp only [loadCasesForProblem, hroot, bind, Except.bind, if_neg hne] at h
  cases hexists : fs.pathExists (dataPathFor root pid) with
  | error ex =>
    rw [hexists] at h
    cases h
  | ok found =>
    rw [hexists] at h
    cases found with
    | true =>
      cases h
      exact Or.inr ⟨rfl, rfl⟩
    | false =>
      cases h
      exact Or.inl ⟨rfl, rfl⟩

theorem loadCases_of_empty_root {fs : FileSystem} {pid : Bytes}
    (hroot : resolveTestDataRoot fs = .ok []) : loadCasesForProblem fs pid = .ok [] := by
  simp [loadCasesForProblem, hroot, bind, Except.bind]
  rfl

theorem loadCasesForProblem_of_exists {fs : FileSystem} (pid : Bytes) {root : Bytes}
    (hroot : resolveTestDataRoot fs = .ok root) (hne : root ≠ [])
    (hexists : fs.pathExists (dataPathFor root pid) = .ok true) :
    loadCasesForProblem fs pid = .ok ((scanTestDataFilePairs fs (dataPathFor root pid)).mapIdx
      (caseSpec (dataPathFor root pid))) := by
  simp [loadCasesForProblem, hroot, bind, Except.bind, hne, hexists]
  rfl

/-- Every file the judge is sent to lies below the root it resolved. -/
def Confined (fs : FileSystem) (pid : Bytes) : Prop :=
  ∀ root cases, resolveTestDataRoot fs = .ok root → loadCasesForProblem fs pid = .ok cases →
    ∀ c ∈ cases, Inside root c.inputPath ∧ Inside root c.expectedOutputPath

/-- The directory exists and holds a pair of files. -/
def HoldsCases (fs : FileSystem) (directoryPath : Bytes) : Prop :=
  fs.pathExists directoryPath = .ok true ∧ scanTestDataFilePairs fs directoryPath ≠ []

/-- An absolute `pid` leads below the root; a relative one climbs over no more of the
root's last names than it names again on the way down. -/
def StaysBelow (root pid : Bytes) : Prop :=
  if isAbsolute pid then normalNames root <+: normalNames pid ++ [ascii "data"]
  else (normalNames root).drop ((normalNames root).length - (climb pid).up)
    <+: (climb pid).down ++ [ascii "data"]

theorem data_proper : Proper (ascii "data") := by
  refine ⟨?_, ?_, ?_, ?_⟩ <;> decide

theorem below_dataPath_iff (root pid : Bytes) :
    normalNames root <+: normalNames (dataPathFor root pid) ↔ StaysBelow root pid := by
  unfold dataPathFor StaysBelow
  rw [normalNames_join_proper _ data_proper]
  split_ifs with habs
  · rw [show join root pid = pid from if_pos habs]
  · rw [Bool.not_eq_true] at habs
    rw [normalNames_join_climb root habs, List.append_assoc]
    generalize normalNames root = names
    generalize names.length - (climb pid).up = m
    conv_lhs =>
      lhs
      rw [← List.take_append_drop m names]
    exact List.prefix_append_right_inj _

theorem dataPath_absolute {root : Bytes} (h : isAbsolute root = true) (pid : Bytes) :
    isAbsolute (dataPathFor root pid) = true :=
  isAbsolute_join (isAbsolute_join h pid) _

theorem caseSpec_inside_iff {root pid : Bytes} (h : isAbsolute root = true) {pair : Bytes × Bytes}
    (hpair : Proper pair.1 ∧ Proper pair.2) (i : Nat) :
    (Inside root (caseSpec (dataPathFor root pid) i pair).inputPath ∧
      Inside root (caseSpec (dataPathFor root pid) i pair).expectedOutputPath) ↔
    StaysBelow root pid := by
  have hdata := dataPath_absolute h pid
  simp only [caseSpec, inside_join_iff h hdata hpair.1, inside_join_iff h hdata hpair.2,
    below_dataPath_iff, and_self]

/-- For every content of the file system and every `pid`: the cases are confined to the
root unless the `pid` leads out of it to a directory that holds cases. -/
theorem cases_confined_iff (fs : FileSystem) (pid : Bytes) :
    Confined fs pid ↔ ∀ root, resolveTestDataRoot fs = .ok root → root ≠ [] →
      HoldsCases fs (dataPathFor root pid) → StaysBelow root pid := by
  constructor
  · intro hconfined root hroot hne hholds
    have habs := (resolveTestDataRoot_absolute hroot).resolve_left hne
    obtain ⟨pair, rest, hscan⟩ := List.exists_cons_of_ne_nil hholds.2
    have hload := loadCasesForProblem_of_exists pid hroot hne hholds.1
    rw [hscan, List.mapIdx_cons] at hload
    have hinside := hconfined root _ hroot hload _ List.mem_cons_self
    have hproper : Proper pair.1 ∧ Proper pair.2 :=
      scanEntries_proper (by rw [scanTestDataFilePairs] at hscan; rw [hscan]; exact List.mem_cons_self)
    exact (caseSpec_inside_iff habs hproper 0).mp hinside
  · intro hstays root cases hroot hload c hc
    by_cases hne : root = []
    · rw [loadCases_of_empty_root (hne ▸ hroot)] at hload
      cases hload
      simp at hc
    · have habs := (resolveTestDataRoot_absolute hroot).resolve_left hne
      obtain ⟨_, rfl⟩ | ⟨hexists, rfl⟩ := loadCasesForProblem_eq hroot hne hload
      · simp at hc
      · obtain ⟨i, hi, rfl⟩ := List.mem_mapIdx.mp hc
        have hmem := List.getElem_mem hi
        have hbelow := hstays root hroot hne ⟨hexists, List.ne_nil_of_mem hmem⟩
        exact (caseSpec_inside_iff habs (scanEntries_proper hmem) i).mpr hbelow

/-- A machine with one case beside the test data. -/
def neighbouringFileSystem : FileSystem where
  testDataPath := .ok (ascii "/srv/testData")
  projectRootDir := ascii "/srv"
  pathExists := fun p => .ok (decide (p ∈ [ascii "/srv/testData",
    ascii "/srv/testData/../private/data", ascii "/srv/testData/../private/data/1.out"]))
  weaklyCanonical := fun _ => .ok (ascii "/srv/testData")
  canonical_absolute := by
    intro p q _ hq
    cases hq
    decide
  entries := fun p =>
    if p = ascii "/srv/testData/../private/data" then
      [.ok ⟨ascii "1.in", by refine ⟨?_, ?_, ?_, ?_⟩ <;> decide, .ok true⟩]
    else []

/-- A `submit` message for the problem `../private`, and its parse. -/
def climbingPayload : Bytes :=
  ascii "\x7b\"type\":\"submit\",\"uuid\":1,\"pid\":\"../private\",\"lang\":0,\"code\":\"\"\x7d"

def climbingParse : Protocol.JsonParse := fun payload =>
  if payload = climbingPayload then
    some (.ofFields [
      (ascii "type", .string (ascii "submit")),
      (ascii "uuid", .numberUnsigned 1),
      (ascii "pid", .string (ascii "../private")),
      (ascii "lang", .numberUnsigned 0),
      (ascii "code", .string [])])
  else none

theorem climbing_pid_not_confined :
    Protocol.decodeRequest climbingParse climbingPayload
      = some ⟨1, ascii "../private", .cpp, []⟩ ∧
    resolveTestDataRoot neighbouringFileSystem = .ok (ascii "/srv/testData") ∧
    (loadCasesForProblem neighbouringFileSystem (ascii "../private")).toOption.map
      (fun cases => cases.map (·.inputPath)) = some [ascii "/srv/testData/../private/data/1.in"] ∧
    ¬ Confined neighbouringFileSystem (ascii "../private") := by
  have hroot : resolveTestDataRoot neighbouringFileSystem = .ok (ascii "/srv/testData") := by
    rfl
  have hscan : scanTestDataFilePairs neighbouringFileSystem
      (dataPathFor (ascii "/srv/testData") (ascii "../private"))
        = [(ascii "1.in", ascii "1.out")] := by
    decide +kernel
  have hload := loadCasesForProblem_of_exists (ascii "../private") hroot (by decide) (by rfl)
  rw [hscan] at hload
  refine ⟨by rfl, hroot, by decide +kernel, fun hconfined => ?_⟩
  have hinside := hconfined _ _ hroot hload _ List.mem_cons_self
  have hout : ¬ normalNames (ascii "/srv/testData") <+:
      normalNames (ascii "/srv/testData/../private/data/1.in") := by
    decide +kernel
  exact hout hinside.1.2.2.1

end JudgeServer.Pipeline
