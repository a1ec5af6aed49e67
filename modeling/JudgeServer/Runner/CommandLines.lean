import JudgeServer.Runner.WorkDirs
import JudgeServer.Pipeline.CaseList
import JudgeServer.Lib.Shell

/-!
# The command lines of the runners

What a POSIX shell makes of the lines the runners pass to `system` and `popen`. The
Python runner quotes its paths, and the shell gets them back unchanged. The checker's
and the compiler's lines are put together without quoting; they mean what they say
exactly when every path in them is a literal word of the shell.
-/

namespace JudgeServer.Runner

open JudgeServer.Common
open JudgeServer.Lib.Interleave
open JudgeServer.Lib.LexicalPath
open JudgeServer.Lib.Decimal
open JudgeServer.Lib.Shell

/-- A machine that has nothing but the host's calls. -/
def hostMachine : Machine Unit ((c : HostCall) → c.Reply) where
  Op := HostCall
  Res := HostCall.Reply
  exec := fun c answer s => some (answer c, s)

/-- The host whose calls are the machine's. What a program on it `Uses` is what it calls
under some answers. -/
def bareHost (settings : RunnerSettings) : Host (Prog hostMachine) :=
  { settings with call := Prog.op hostMachine }

/-- Between single quotes the escaped text is the text. -/
theorem run_escaped {s : Bytes} (h : 0 ∉ s) (marks : List Mark) (done : List RawToken) :
    Lexer.run ⟨.single, .word marks, done⟩ (shellEscapeSingleQuotes s) =
      ⟨.single, .word (marks ++ quoted s), done⟩ := by
  unfold shellEscapeSingleQuotes
  induction s generalizing marks with
  | nil =>
    change _ = Lexer.mk _ (.word (marks ++ [])) _
    rw [List.append_nil]
    rfl
  | cons b s ih =>
    obtain ⟨hb, hs⟩ := not_or.mp (mt List.mem_cons.mpr h)
    have hstep : Lexer.run ⟨.single, .word marks, done⟩ (if b = 39 then ascii "'\\''" else [b]) =
        ⟨.single, .word (marks ++ [(b, true)]), done⟩ := by
      split
      · next h39 =>
        rw [h39]
        exact run_requote marks done
      · next h39 => exact step_single (Ne.symm hb) h39 marks done
    rw [List.flatMap_cons, run_append, hstep, ih hs, List.append_assoc]
    rfl

theorem readLine_quoted {s : Bytes} (h : 0 ∉ s) :
    readLine (39 :: (shellEscapeSingleQuotes s ++ [39])) = some [.word s] := by
  have hrun : Lexer.run {} (39 :: (shellEscapeSingleQuotes s ++ [39])) =
      ⟨.plain, .word (quoted s), []⟩ := by
    rw [run_cons, run_append]
    change Lexer.run (Lexer.run ⟨.single, .word [], []⟩ _) [39] = _
    rw [run_escaped h]
    rfl
  unfold readLine
  rw [hrun]
  change List.mapM RawToken.value [.word (quoted s)] = _
  simp [value_quoted]

/-- The syntax check of `source` with its output and its errors in `log`. -/
def pyCompileTokens (source log : Bytes) : List Token :=
  [.word (ascii "python3"), .word (ascii "-m"), .word (ascii "py_compile"), .word source,
    .operator (ascii ">"), .word log, .ioNumber (ascii "2"), .operator (ascii ">&"),
    .word (ascii "1")]

theorem readLine_pyCompile {source log : Bytes} (hs : 0 ∉ source) (hl : 0 ∉ log) :
    readLine (ascii "python3 -m py_compile '" ++ shellEscapeSingleQuotes source ++ ascii "' > '" ++
      shellEscapeSingleQuotes log ++ ascii "' 2>&1") = some (pyCompileTokens source log) := by
  have hfront : Lexer.run {} (ascii "python3 -m py_compile '") = ⟨.single, .word [],
      [.word (unquoted (ascii "py_compile")), .word (unquoted (ascii "-m")),
        .word (unquoted (ascii "python3"))]⟩ := by
    rfl
  have hmiddle : ∀ marks done, Lexer.run ⟨.single, .word marks, done⟩ (ascii "' > '") =
      ⟨.single, .word [], .operator (ascii ">") :: .word marks :: done⟩ := by
    intro marks done
    rfl
  have hback : ∀ marks done, Lexer.run ⟨.single, .word marks, done⟩ (ascii "' 2>&1") =
      ⟨.plain, .word (unquoted (ascii "1")), .operator (ascii ">&") :: .ioNumber (ascii "2") ::
        .word marks :: done⟩ := by
    intro marks done
    rfl
  unfold readLine
  simp only [run_append]
  rw [hfront, run_escaped hs, hmiddle, run_escaped hl, hback]
  change List.mapM RawToken.value [.word (unquoted (ascii "python3")), .word (unquoted (ascii "-m")),
    .word (unquoted (ascii "py_compile")), .word (quoted source), .operator (ascii ">"),
    .word (quoted log), .ioNumber (ascii "2"), .operator (ascii ">&"),
    .word (unquoted (ascii "1"))] = _
  simp only [List.mapM_cons, List.mapM_nil, value_quoted]
  rfl

/-- The wrapper: a comment line, and the interpreter on `source`. -/
def wrapperTokens (source : Bytes) : List Token :=
  [.operator (ascii "\n"), .word (ascii "exec"), .word (ascii "python3"), .word source,
    .operator (ascii "\n")]

theorem readLine_wrapper {source : Bytes} (hs : 0 ∉ source) :
    readLine (ascii "#!/bin/sh\nexec python3 '" ++ shellEscapeSingleQuotes source ++ ascii "'\n") =
      some (wrapperTokens source) := by
  have hfront : Lexer.run {} (ascii "#!/bin/sh\nexec python3 '") = ⟨.single, .word [],
      [.word (unquoted (ascii "python3")), .word (unquoted (ascii "exec")),
        .operator (ascii "\n")]⟩ := by
    rfl
  have hback : ∀ marks done, Lexer.run ⟨.single, .word marks, done⟩ (ascii "'\n") =
      ⟨.plain, .operator (ascii "\n"), .word marks :: done⟩ := by
    intro marks done
    rfl
  unfold readLine
  simp only [run_append]
  rw [hfront, run_escaped hs, hback]
  change List.mapM RawToken.value [.operator (ascii "\n"), .word (unquoted (ascii "exec")),
    .word (unquoted (ascii "python3")), .word (quoted source), .operator (ascii "\n")] = _
  simp only [List.mapM_cons, List.mapM_nil, value_quoted]
  rfl

theorem nul_not_mem_join {p q : Bytes} (hp : 0 ∉ p) (hq : 0 ∉ q) : 0 ∉ join p q := by
  have hslash : (0 : UInt8) ≠ slash := by decide
  unfold join
  split_ifs
  · exact hq
  · simp [hp, hq]
  · simp [hp, hq, hslash]

theorem nul_not_mem_file {temp name : Bytes} (ht : 0 ∉ temp) (hn : 0 ∉ name)
    (request : SubmissionRequest) : 0 ∉ join (workDirIn temp request) name := by
  refine nul_not_mem_join (nul_not_mem_join ht ?_) hn
  rw [List.mem_append]
  exact not_or.mpr ⟨by decide, not_mem_decimalInt (by decide) (by decide) _⟩

/-- A line given to `system` is read as these tokens. -/
def SystemReads (tokens : List Token) : HostCall → Prop
  | .system command _ => readLine command = some tokens
  | _ => True

/-- A text written to a file is read as these tokens. -/
def WrittenReads (tokens : List Token) : HostCall → Prop
  | .writeOutput _ text => readLine text = some tokens
  | _ => True

section Python

variable {settings : RunnerSettings} {request : SubmissionRequest} {P : HostCall → Prop}

theorem bare_uses {c : HostCall} (h : P c) :
    Prog.Uses (M := hostMachine) P ((bareHost settings).call c) :=
  ⟨h, fun _ => trivial⟩

theorem pythonCompile_reads (ht : 0 ∉ settings.temp) :
    (PythonRunner.compile (bareHost settings) request).run.Uses (SystemReads (pyCompileTokens
      (join (workDirIn settings.temp request) (ascii "solution.py"))
      (join (workDirIn settings.temp request) (ascii "compile.log")))) := by
  unfold PythonRunner.compile
  split
  · refine filePathFor_bind (bare_uses trivial) (filePathFor_bind (bare_uses trivial) ?_)
    refine Prog.Uses.except_bind (bare_uses trivial) fun prepared => ?_
    split
    · refine filePathFor_bind (bare_uses trivial) ?_
      refine Prog.Uses.except_bind (lift_uses (bare_uses ?_)) fun status => ?_
      · exact readLine_pyCompile (nul_not_mem_file ht (by decide) request)
          (nul_not_mem_file ht (by decide) request)
      · refine Prog.Uses.except_bind ?_ fun found => ?_
        · split
          · exact return_uses _
          · exact bare_uses trivial
        · split
          · exact return_uses _
          · exact Prog.Uses.except_bind (lift_uses (bare_uses trivial)) fun _ => return_uses _
    · exact return_uses _
  · exact return_uses _

/-- What a case run calls besides the sandbox: files are looked at, none is written. -/
theorem runExecutableCase_reads (tokens : List Token) (executable userOutput : Bytes)
    (testCase : RunnerCaseInput) :
    (runExecutableCase (bareHost settings) executable testCase userOutput).run.Uses
      (WrittenReads tokens) := by
  unfold runExecutableCase
  refine (someMissing_uses (fun _ => bare_uses trivial) _).except_bind fun missing => ?_
  split
  · exact return_uses _
  · refine Prog.Uses.except_bind (lift_uses (bare_uses trivial)) fun result => ?_
    split
    · exact return_uses _
    · dsimp only
      split
      · refine Prog.Uses.except_bind ?_ fun _ => return_uses _
        unfold compareCaseOutput
        refine Prog.Uses.except_bind (bare_uses trivial) fun found => ?_
        split
        · exact Prog.Uses.except_bind (lift_uses (bare_uses trivial)) fun _ => return_uses _
        · refine Prog.Uses.except_bind (lift_uses (bare_uses trivial)) fun _ => ?_
          exact Prog.Uses.except_bind (lift_uses (bare_uses trivial)) fun _ => return_uses _
      · exact return_uses _

theorem pythonRunCase_reads (ht : 0 ∉ settings.temp) (testCase : RunnerCaseInput) :
    (PythonRunner.runCase (bareHost settings) request testCase).run.Uses (WrittenReads
      (wrapperTokens (join (workDirIn settings.temp request) (ascii "solution.py")))) := by
  unfold PythonRunner.runCase
  split
  · refine filePathFor_bind (bare_uses trivial) (filePathFor_bind (bare_uses trivial)
      (filePathFor_bind (bare_uses trivial) ?_))
    refine (someMissing_uses (fun _ => bare_uses trivial) _).except_bind fun missing => ?_
    split
    · exact return_uses _
    · refine Prog.Uses.except_bind (lift_uses (bare_uses trivial)) fun good => ?_
      split
      · refine Prog.Uses.except_bind (lift_uses (bare_uses ?_)) fun _ => ?_
        · exact readLine_wrapper (nul_not_mem_file ht (by decide) request)
        · refine Prog.Uses.except_bind (bare_uses trivial) fun _ => ?_
          exact runExecutableCase_reads _ _ _ testCase
      · exact return_uses _
  · exact return_uses _

end Python

/-- Quoting is undone by the shell: the Python runner's syntax check and its wrapper name
the source file and the log of the request, for every temporary directory. -/
theorem quoting_round_trip (settings : RunnerSettings) (ht : 0 ∉ settings.temp)
    (request : SubmissionRequest) (testCase : RunnerCaseInput) :
    (∀ s : Bytes, 0 ∉ s → readLine (39 :: (shellEscapeSingleQuotes s ++ [39])) = some [.word s]) ∧
    (PythonRunner.compile (bareHost settings) request).run.Uses (SystemReads (pyCompileTokens
      (join (workDirIn settings.temp request) (ascii "solution.py"))
      (join (workDirIn settings.temp request) (ascii "compile.log")))) ∧
    (PythonRunner.runCase (bareHost settings) request testCase).run.Uses (WrittenReads
      (wrapperTokens (join (workDirIn settings.temp request) (ascii "solution.py")))) :=
  ⟨fun _ h => readLine_quoted h, pythonCompile_reads ht, pythonRunCase_reads ht testCase⟩

/-- A directory whose name has a quote, a backslash, blanks and a newline. -/
def awkwardSettings : RunnerSettings where
  temp := ascii "/tmp/it's \\ \n$(id)"

def awkwardRequest : SubmissionRequest := ⟨7, ascii "1000", .python, ascii "print(1)"⟩

theorem quoting_round_trip_awkward :
    0 ∉ awkwardSettings.temp ∧
    (∀ s : Bytes, 0 ∉ s → readLine (39 :: (shellEscapeSingleQuotes s ++ [39])) = some [.word s]) ∧
    (PythonRunner.compile (bareHost awkwardSettings) awkwardRequest).run.Uses (SystemReads
      (pyCompileTokens (ascii "/tmp/it's \\ \n$(id)/oj_compile_7/solution.py")
        (ascii "/tmp/it's \\ \n$(id)/oj_compile_7/compile.log"))) ∧
    (PythonRunner.runCase (bareHost awkwardSettings) awkwardRequest
      ⟨1, ascii "1.in", ascii "1.out", 1000, 1000, 1024⟩).run.Uses (WrittenReads
      (wrapperTokens (ascii "/tmp/it's \\ \n$(id)/oj_compile_7/solution.py"))) :=
  ⟨by decide, quoting_round_trip awkwardSettings (by decide) awkwardRequest _⟩

/-- The four words the checker is meant to be started with. -/
def checkerTokens (input user expected : Bytes) : List Token :=
  [.word checkerPath, .word input, .word user, .word expected]

section Checker

variable {input user expected : Bytes}

theorem checkerLine_eq (input user expected : Bytes) :
    checkerPath ++ ascii " " ++ input ++ ascii " " ++ user ++ ascii " " ++ expected =
      (checkerPath ++ ascii " ") ++ (input ++ 32 :: (user ++ 32 :: expected)) := by
  simp only [List.append_assoc]
  rfl

/-- The state after the checker's name. -/
theorem run_checkerPath : Lexer.run {} (checkerPath ++ ascii " ") =
    ⟨.plain, .idle, [.word (unquoted checkerPath)]⟩ := by
  rfl

theorem run_checkerLine (hi : Bare input) (hu : Bare user) (he : Bare expected) :
    Lexer.run {} (checkerPath ++ ascii " " ++ input ++ ascii " " ++ user ++ ascii " " ++ expected) =
      ⟨.plain, .word (unquoted expected),
        [.word (unquoted user), .word (unquoted input), .word (unquoted checkerPath)]⟩ := by
  rw [checkerLine_eq, run_append, run_checkerPath, run_bare_blank hi, run_bare_blank hu,
    run_bare he]

/-- A line that is read as meant has bare paths: its weight leaves no byte for anything
but the letters of the four words and the three blanks between them. -/
theorem bare_of_checkerLine
    (h : readLine (checkerPath ++ ascii " " ++ input ++ ascii " " ++ user ++ ascii " " ++ expected) =
      some (checkerTokens input user expected)) :
    Bare input ∧ Bare user ∧ (expected = [] ∨ Bare expected) := by
  obtain ⟨hweight, hs, hg⟩ := readLine_weight h
  rw [checkerLine_eq, run_append, run_checkerPath] at hweight hs hg
  generalize hst : (⟨.plain, .idle, [.word (unquoted checkerPath)]⟩ : Lexer) = st at *
  generalize hrest : input ++ 32 :: (user ++ 32 :: expected) = rest at *
  have hlen : rest.length = input.length + user.length + expected.length + 2 := by
    rw [← hrest]
    simp only [List.length_append, List.length_cons]
    omega
  have hstart : st.weight = 21 ∧ st.signs = 0 ∧ st.gaps = 1 := by
    subst hst
    exact ⟨rfl, rfl, rfl⟩
  have hletters : lineLetters (checkerTokens input user expected) =
      20 + input.length + user.length + expected.length := by
    have h20 : checkerPath.length = 20 := rfl
    simp only [checkerTokens, lineLetters]
    omega
  have hgaps : 3 ≤ (st.run rest).gaps := hg
  have hsigns : (st.run rest).signs = 0 := hs
  have hupper := Lexer.weight_run_le st rest
  have hlower : st.weight + rest.length ≤ (st.run rest).weight := by omega
  have htight := Lexer.tight_of_weight (by rw [← hst]) rest hlower
  have hop := htight.signs_le
  have hblank := htight.gaps_eq
  have hhidden := htight.not_hidden
  subst hrest
  simp only [List.countP_append, List.countP_cons] at hop hblank
  have h32 : isBlank 32 = true := rfl
  simp only [h32, if_true] at hblank
  simp only [List.mem_append, List.mem_cons] at hhidden
  have hi := ordinary_of (fun b hb => hhidden b (Or.inl hb)) (by omega) (by omega)
  have hu := ordinary_of (fun b hb => hhidden b (Or.inr (Or.inr (Or.inl hb)))) (by omega) (by omega)
  have he := ordinary_of (fun b hb => hhidden b (Or.inr (Or.inr (Or.inr (Or.inr hb)))))
    (by omega) (by omega)
  subst hst
  obtain ⟨hbi, hnext⟩ := next_word hi hlower
  obtain ⟨hbu, hlast⟩ := next_word hu hnext
  exact ⟨hbi, hbu, last_word he hlast⟩

theorem readLine_checker_iff :
    readLine (checkerPath ++ ascii " " ++ input ++ ascii " " ++ user ++ ascii " " ++ expected) =
      some (checkerTokens input user expected) ↔
    Literal input ∧ Literal user ∧ Literal expected := by
  constructor
  · intro h
    obtain ⟨hi, hu, he⟩ := bare_of_checkerLine h
    unfold readLine at h
    obtain rfl | he := he
    · -- Without a fourth path there is no fourth word.
      rw [checkerLine_eq, run_append, run_checkerPath, run_bare_blank hi, run_bare_blank hu] at h
      have hlen := (values_each h).length_eq
      cases hlen
    · rw [run_checkerLine hi hu he] at h
      have hvalues := values_each h
      cases hvalues with | cons _ hvalues =>
      cases hvalues with | cons hvi hvalues =>
      cases hvalues with | cons hvu hvalues =>
      cases hvalues with | cons hve hvalues =>
      exact ⟨⟨hi, not_expanded_of_value hvi⟩, ⟨hu, not_expanded_of_value hvu⟩,
        ⟨he, not_expanded_of_value hve⟩⟩
  · rintro ⟨hi, hu, he⟩
    unfold readLine
    rw [run_checkerLine hi.toBare hu.toBare he.toBare]
    change List.mapM RawToken.value [.word (unquoted checkerPath), .word (unquoted input),
      .word (unquoted user), .word (unquoted expected)] = _
    simp only [List.mapM_cons, List.mapM_nil, value_unquoted hi.not_expanded,
      value_unquoted hu.not_expanded, value_unquoted he.not_expanded]
    rfl

end Checker

/-- The compiler's words, and the redirection of its errors to the log. -/
def compilerTokens (executable source log : Bytes) : List Token :=
  [.word (ascii "g++"), .word (ascii "-std=c++17"), .word (ascii "-O2"),
    .word (ascii "-DONLINE_JUDGE"), .word (ascii "-o"), .word executable, .word source,
    .ioNumber (ascii "2"), .operator (ascii ">"), .word log]

section Compiler

variable {executable source log : Bytes}

/-- The state after the options. -/
def compilerOptions : Lexer :=
  ⟨.plain, .idle, [.word (unquoted (ascii "-o")), .word (unquoted (ascii "-DONLINE_JUDGE")),
    .word (unquoted (ascii "-O2")), .word (unquoted (ascii "-std=c++17")),
    .word (unquoted (ascii "g++"))]⟩

theorem run_compilerOptions :
    Lexer.run {} (ascii "g++ -std=c++17 -O2 -DONLINE_JUDGE  -o ") = compilerOptions := by
  rfl

theorem compilerLine_eq (executable source log : Bytes) :
    ascii "g++ -std=c++17 -O2 -DONLINE_JUDGE  -o " ++ executable ++ ascii " " ++ source ++
      ascii " 2> " ++ log =
    ascii "g++ -std=c++17 -O2 -DONLINE_JUDGE  -o " ++
      ((executable ++ 32 :: (source ++ 32 :: [50])) ++ ([62, 32] ++ log)) := by
  simp only [List.append_assoc, List.cons_append]
  rfl

/-- The state after the redirection, before the name of the log. -/
theorem run_compilerPaths (he : Bare executable) (hs : Bare source) :
    (compilerOptions.run (executable ++ 32 :: (source ++ 32 :: [50]))).run [62, 32] =
      ⟨.plain, .idle, .operator (ascii ">") :: .ioNumber (ascii "2") :: .word (unquoted source) ::
        .word (unquoted executable) :: compilerOptions.done⟩ := by
  unfold compilerOptions
  rw [run_bare_blank he, run_bare_blank hs]
  rfl

/-- A line that is read as meant has bare paths: the blank after `>` is the one byte of
it behind the options that weighs nothing. -/
theorem bare_of_compilerLine
    (h : readLine (ascii "g++ -std=c++17 -O2 -DONLINE_JUDGE  -o " ++ executable ++ ascii " " ++
      source ++ ascii " 2> " ++ log) = some (compilerTokens executable source log)) :
    Bare executable ∧ Bare source ∧ (log = [] ∨ Bare log) := by
  obtain ⟨hweight, hs, hg⟩ := readLine_weight h
  rw [compilerLine_eq, run_append, run_compilerOptions, run_append, run_append] at hweight hs hg
  obtain ⟨paths, hpaths⟩ : ∃ paths, executable ++ 32 :: (source ++ 32 :: [50]) = paths ++ [50] :=
    ⟨executable ++ 32 :: (source ++ [32]), by simp⟩
  have hlen : (paths ++ [50]).length = executable.length + source.length + 3 := by
    rw [← hpaths]
    simp only [List.length_append, List.length_cons, List.length_nil]
    omega
  have hstart : compilerOptions.weight = 37 ∧ compilerOptions.signs = 0 ∧
      compilerOptions.gaps = 5 := by
    exact ⟨rfl, rfl, rfl⟩
  have hletters : lineLetters (compilerTokens executable source log) =
      33 + executable.length + source.length + log.length := by
    have hconst : (ascii "g++").length = 3 ∧ (ascii "-std=c++17").length = 10 ∧
        (ascii "-O2").length = 3 ∧ (ascii "-DONLINE_JUDGE").length = 14 ∧
        (ascii "-o").length = 2 ∧ (ascii "2").length = 1 := by
      decide
    simp only [compilerTokens, lineLetters]
    omega
  rw [hpaths] at hweight hs hg
  generalize hst : ((compilerOptions.run (paths ++ [50])).run [62, 32]).run log = st at *
  have hgaps : 7 ≤ st.gaps := hg
  have hsigns : st.signs = 1 := hs
  have hredirect : TightRedirection compilerOptions (paths ++ [50]) log := by
    refine tight_redirection rfl (by decide) ?_
    rw [hst]
    omega
  have hfront := Lexer.tight_of_weight rfl (paths ++ [50]) hredirect.weight_le
  obtain ⟨_, text, _, hplain⟩ := run_redirection hredirect.plain
  have hback := Lexer.tight_of_weight (by rw [hplain]) log hredirect.log_weight_le
  have hops := hfront.signs_le
  have hops' := hback.signs_le
  have hblanks := hfront.gaps_eq
  have hblanks' := hback.gaps_eq
  have hopsMid := hredirect.signs_le
  have hgapsMid := hredirect.gaps_eq
  have htotal := hredirect.weight_eq
  have hhidden := hfront.not_hidden
  rw [hst] at hops' hblanks' htotal
  rw [← hpaths] at hhidden
  simp only [List.mem_append, List.mem_cons] at hhidden
  have hcountOps : (paths ++ [50]).countP isOperator =
      executable.countP isOperator + source.countP isOperator := by
    rw [← hpaths]
    simp [show isOperator 32 = false from rfl, show isOperator 50 = false from rfl]
  have hcountBlanks : (paths ++ [50]).countP isBlank =
      executable.countP isBlank + source.countP isBlank + 2 := by
    rw [← hpaths]
    simp [show isBlank 32 = true from rfl, show isBlank 50 = false from rfl]
    omega
  have he := ordinary_of (fun b hb => hhidden b (Or.inl hb)) (by omega) (by omega)
  have hs := ordinary_of (fun b hb => hhidden b (Or.inr (Or.inr (Or.inl hb)))) (by omega) (by omega)
  have hl := ordinary_of hback.not_hidden (by omega) (by omega)
  have hwords := hredirect.weight_le
  rw [← hpaths] at hwords
  obtain ⟨hbe, hnext⟩ := next_word he hwords
  obtain ⟨hbs, _⟩ := next_word hs hnext
  have hlast := hredirect.log_weight_le
  rw [hplain] at hlast
  exact ⟨hbe, hbs, last_word hl hlast⟩

theorem readLine_compiler_iff :
    readLine (ascii "g++ -std=c++17 -O2 -DONLINE_JUDGE  -o " ++ executable ++ ascii " " ++
      source ++ ascii " 2> " ++ log) = some (compilerTokens executable source log) ↔
    Literal executable ∧ Literal source ∧ Literal log := by
  constructor
  · intro h
    obtain ⟨he, hs, hl⟩ := bare_of_compilerLine h
    unfold readLine at h
    rw [compilerLine_eq, run_append, run_compilerOptions, run_append, run_append,
      run_compilerPaths he hs] at h
    obtain rfl | hl := hl
    · have hlen := (values_each h).length_eq
      cases hlen
    · rw [run_bare hl] at h
      have hvalues := values_each h
      cases hvalues with | cons _ hvalues =>
      cases hvalues with | cons _ hvalues =>
      cases hvalues with | cons _ hvalues =>
      cases hvalues with | cons _ hvalues =>
      cases hvalues with | cons _ hvalues =>
      cases hvalues with | cons hve hvalues =>
      cases hvalues with | cons hvs hvalues =>
      cases hvalues with | cons _ hvalues =>
      cases hvalues with | cons _ hvalues =>
      cases hvalues with | cons hvl hvalues =>
      exact ⟨⟨he, not_expanded_of_value hve⟩, ⟨hs, not_expanded_of_value hvs⟩,
        ⟨hl, not_expanded_of_value hvl⟩⟩
  · rintro ⟨he, hs, hl⟩
    unfold readLine
    rw [compilerLine_eq, run_append, run_compilerOptions, run_append, run_append,
      run_compilerPaths he.toBare hs.toBare, run_bare hl.toBare]
    change List.mapM RawToken.value [.word (unquoted (ascii "g++")),
      .word (unquoted (ascii "-std=c++17")), .word (unquoted (ascii "-O2")),
      .word (unquoted (ascii "-DONLINE_JUDGE")), .word (unquoted (ascii "-o")),
      .word (unquoted executable), .word (unquoted source), .ioNumber (ascii "2"),
      .operator (ascii ">"), .word (unquoted log)] = _
    simp only [List.mapM_cons, List.mapM_nil, value_unquoted he.not_expanded,
      value_unquoted hs.not_expanded, value_unquoted hl.not_expanded]
    rfl

end Compiler

/-- A line given to `popen` is read as these tokens. -/
def PopenReads (tokens : List Token) : HostCall → Prop
  | .runCommandCaptureStdout command _ => readLine command = some tokens
  | _ => True

theorem compareCaseOutput_reads_iff (settings : RunnerSettings) (input expected user : Bytes)
    (tokens : List Token) :
    (compareCaseOutput (bareHost settings) input expected user).run.Uses (SystemReads tokens) ↔
      readLine (checkerPath ++ ascii " " ++ input ++ ascii " " ++ user ++ ascii " " ++ expected) =
        some tokens := by
  constructor
  · intro h
    -- The checker is there, so the line is passed on.
    exact (h.2 (Except.ok true)).1
  · intro h
    unfold compareCaseOutput
    refine Prog.Uses.except_bind (bare_uses trivial) fun found => ?_
    split
    · exact Prog.Uses.except_bind (lift_uses (bare_uses h)) fun _ => return_uses _
    · refine Prog.Uses.except_bind (lift_uses (bare_uses trivial)) fun _ => ?_
      exact Prog.Uses.except_bind (lift_uses (bare_uses trivial)) fun _ => return_uses _

theorem compileCppSourceFile_reads_iff (settings : RunnerSettings)
    (source executable log : Bytes) (tokens : List Token) :
    (compileCppSourceFile (bareHost settings) source executable log).run.Uses (PopenReads tokens) ↔
      readLine (ascii "g++ -std=c++17 -O2 -DONLINE_JUDGE  -o " ++ executable ++ ascii " " ++
        source ++ ascii " 2> " ++ log) = some tokens := by
  constructor
  · intro h
    exact h.1
  · intro h
    refine Prog.Uses.bind ?_ fun result => by cases result <;> trivial
    refine Prog.Uses.except_bind (bare_uses h) fun output => ?_
    exact Prog.Uses.except_bind (bare_uses trivial) fun _ => return_uses _

/-- The checker's line and the compiler's line mean what they say exactly when each path
in them is a literal word of the shell. -/
theorem command_lines_meant_iff (settings : RunnerSettings)
    (input expected user source executable log : Bytes) :
    ((compareCaseOutput (bareHost settings) input expected user).run.Uses
        (SystemReads (checkerTokens input user expected)) ↔
      Literal input ∧ Literal user ∧ Literal expected) ∧
    ((compileCppSourceFile (bareHost settings) source executable log).run.Uses
        (PopenReads (compilerTokens executable source log)) ↔
      Literal executable ∧ Literal source ∧ Literal log) := by
  rw [compareCaseOutput_reads_iff, compileCppSourceFile_reads_iff]
  exact ⟨readLine_checker_iff, readLine_compiler_iff⟩

/-- A problem directory that somebody has made in the temporary directory. -/
def plantedFileSystem : Pipeline.FileSystem where
  testDataPath := .ok (ascii "/srv/testData")
  projectRootDir := ascii "/srv"
  pathExists := fun p => .ok ([ascii "/srv/testData", ascii "/tmp/p;id;/data",
    ascii "/tmp/p;id;/data/1.out"].contains p)
  weaklyCanonical := fun _ => .ok (ascii "/srv/testData")
  canonical_absolute := by
    intro p q _ hq
    cases hq
    decide
  entries := fun p => if p = ascii "/tmp/p;id;/data" then [.ok Pipeline.entryOne] else []

/-- A `pid` that names it makes the checker's line run `id`, and a blank in the name of the
temporary directory gives the compiler other words. -/
theorem pid_adds_command :
    (Pipeline.loadCasesForProblem plantedFileSystem (ascii "/tmp/p;id;")).toOption.map
      (fun cases => cases.map fun c => (c.inputPath, c.expectedOutputPath)) =
        some [(ascii "/tmp/p;id;/data/1.in", ascii "/tmp/p;id;/data/1.out")] ∧
    readLine (checkerPath ++ ascii " " ++ ascii "/tmp/p;id;/data/1.in" ++ ascii " " ++
      ascii "/tmp/oj_compile_7/case_1.user.out" ++ ascii " " ++ ascii "/tmp/p;id;/data/1.out") =
        some [.word checkerPath, .word (ascii "/tmp/p"), .operator (ascii ";"), .word (ascii "id"),
          .operator (ascii ";"), .word (ascii "/data/1.in"),
          .word (ascii "/tmp/oj_compile_7/case_1.user.out"), .word (ascii "/tmp/p"),
          .operator (ascii ";"), .word (ascii "id"), .operator (ascii ";"),
          .word (ascii "/data/1.out")] ∧
    ¬ (compareCaseOutput (bareHost { temp := ascii "/tmp" }) (ascii "/tmp/p;id;/data/1.in")
      (ascii "/tmp/p;id;/data/1.out") (ascii "/tmp/oj_compile_7/case_1.user.out")).run.Uses
        (SystemReads (checkerTokens (ascii "/tmp/p;id;/data/1.in")
          (ascii "/tmp/oj_compile_7/case_1.user.out") (ascii "/tmp/p;id;/data/1.out"))) ∧
    ¬ (compileCppSourceFile (bareHost { temp := ascii "/my tmp" })
      (ascii "/my tmp/oj_compile_7/solution.cpp") (ascii "/my tmp/oj_compile_7/solution")
      (ascii "/my tmp/oj_compile_7/compile.log")).run.Uses
        (PopenReads (compilerTokens (ascii "/my tmp/oj_compile_7/solution")
          (ascii "/my tmp/oj_compile_7/solution.cpp")
          (ascii "/my tmp/oj_compile_7/compile.log"))) := by
  rw [compareCaseOutput_reads_iff, compileCppSourceFile_reads_iff]
  exact ⟨by decide +kernel, by decide +kernel, by decide +kernel, by decide +kernel⟩

end JudgeServer.Runner
