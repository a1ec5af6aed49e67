import Mathlib.Data.List.Forall2
import Mathlib.Data.List.Count
import Mathlib.Tactic.SplitIfs

/-!
# How a shell reads a command line

The token recognition of the POSIX shell command language, for text without expansions:
blanks, operators, the three ways of quoting, line continuations and comments. A line
with a parameter expansion or a command substitution, with a quote left open, or with a
word that is subject to tilde or pathname expansion is not given a reading. The line is
a C string, so it ends at a zero byte.
-/

namespace JudgeServer.Lib.Shell

/-- A byte of a word, and whether it was quoted. -/
abbrev Mark := UInt8 × Bool

inductive RawToken where
  | word (marks : List Mark)
  | ioNumber (digits : List UInt8)
  | operator (text : List UInt8)
  deriving DecidableEq

inductive Token where
  | word (value : List UInt8)
  | ioNumber (digits : List UInt8)
  | operator (text : List UInt8)
  deriving DecidableEq, Repr

def isBlank (b : UInt8) : Bool := b = 32 || b = 9

/-- The bytes an operator starts with: newline, `&`, `(`, `)`, `;`, `<`, `>` and `|`. -/
def isOperator (b : UInt8) : Bool :=
  b = 10 || b = 38 || b = 40 || b = 41 || b = 59 || b = 60 || b = 62 || b = 124

/-- The operators of more than one byte:
`&&`, `;;`, `<<`, `<<-`, `<&`, `<>`, `>>`, `>&`, `>|` and `||`. -/
def longOperators : List (List UInt8) :=
  [[38, 38], [59, 59], [60, 60], [60, 60, 45], [60, 38], [60, 62], [62, 62], [62, 38], [62, 124],
    [124, 124]]

/-- The end of the text, the three quoting characters, `$` and the backquote. -/
def isHidden (b : UInt8) : Bool := b = 0 || b = 34 || b = 36 || b = 39 || b = 92 || b = 96

/-- A byte that stands for itself inside a word. -/
def isOrdinary (b : UInt8) : Bool := !isBlank b && !isOperator b && !isHidden b

/-- A tilde-prefix: an unquoted `~` with nothing quoted before the first slash. -/
def tildePrefix : List Mark → Bool
  | m :: rest => m = (126, false) && (rest.takeWhile (· ≠ (47, false))).all fun m => !m.2
  | [] => false

/-- What follows an opening bracket closes it before the next slash. -/
def bracketCloses (rest : List Mark) : Bool :=
  match if rest.head? = some (33, false) then rest.tail else rest with
  | [] => false
  | m :: rest => m.1 ≠ 47 && (rest.takeWhile fun m => m.1 ≠ 47).any fun m => m = (93, false)

/-- The word is a pattern: it has an unquoted `*`, `?` or bracket expression. -/
def isPattern : List Mark → Bool
  | [] => false
  | m :: rest =>
      m = (42, false) || m = (63, false) || (m = (91, false) && bracketCloses rest) || isPattern rest

def expands (marks : List Mark) : Bool := tildePrefix marks || isPattern marks

/-- The token after quote removal; `none` for a word the shell would expand. -/
def RawToken.value : RawToken → Option Token
  | .word marks => if expands marks then none else some (.word (marks.map Prod.fst))
  | .ioNumber digits => some (.ioNumber digits)
  | .operator text => some (.operator text)

inductive Mode where
  | plain | escaped | single | double | doubleEscaped | comment | stopped | refused
  deriving DecidableEq

/-- The token that is being read. -/
inductive Pending where
  | idle
  | word (marks : List Mark)
  | operator (text : List UInt8)
  deriving DecidableEq

structure Lexer where
  mode : Mode := .plain
  pending : Pending := .idle
  /-- The tokens delimited so far, the latest first. -/
  done : List RawToken := []

namespace Lexer

/-- Delimits the pending token. -/
def flush (st : Lexer) : Lexer :=
  match st.pending with
  | .idle => st
  | .word marks => { st with pending := .idle, done := .word marks :: st.done }
  | .operator text => { st with pending := .idle, done := .operator text :: st.done }

/-- The pending word, after a pending operator has been delimited. -/
def begin (st : Lexer) : Lexer :=
  match st.pending with
  | .idle => { st with pending := .word [] }
  | .word _ => st
  | .operator text => { st with pending := .word [], done := .operator text :: st.done }

def add (st : Lexer) (m : Mark) : Lexer :=
  match st.begin.pending with
  | .word marks => { st.begin with pending := .word (marks ++ [m]) }
  | _ => st.begin

/-- Digits right before a redirection operator are the number of a file descriptor. -/
def isIoNumber (marks : List Mark) (b : UInt8) : Bool :=
  (b = 60 || b = 62) && marks ≠ [] && marks.all fun m => !m.2 && 48 ≤ m.1 && m.1 ≤ 57

def startOperator (st : Lexer) (b : UInt8) : Lexer :=
  match st.pending with
  | .idle => { st with pending := .operator [b] }
  | .word marks =>
      if isIoNumber marks b then
        { st with pending := .operator [b], done := .ioNumber (marks.map Prod.fst) :: st.done }
      else { st with pending := .operator [b], done := .word marks :: st.done }
  | .operator text => { st with pending := .operator [b], done := .operator text :: st.done }

/-- The pending operator with one byte more, if that is an operator too. -/
def longer (st : Lexer) (b : UInt8) : Option (List UInt8) :=
  match st.pending with
  | .operator text => if longOperators.contains (text ++ [b]) then some (text ++ [b]) else none
  | _ => none

def inWord (st : Lexer) : Bool :=
  match st.pending with
  | .word _ => true
  | _ => false

def plainStep (st : Lexer) (b : UInt8) : Lexer :=
  match st.longer b with
  | some text => { st with pending := .operator text }
  | none =>
      if b = 92 then { st with mode := .escaped }
      else if b = 39 then { st.begin with mode := .single }
      else if b = 34 then { st.begin with mode := .double }
      else if b = 36 ∨ b = 96 then { st with mode := .refused }
      else if b = 0 then { st with mode := .stopped }
      else if isBlank b then st.flush
      else if isOperator b then st.startOperator b
      else if b = 35 ∧ st.inWord = false then { st.flush with mode := .comment }
      else st.add (b, false)

def step (st : Lexer) (b : UInt8) : Lexer :=
  match st.mode with
  | .plain => st.plainStep b
  | .escaped =>
      -- An escaped newline is a line continuation and leaves no trace.
      if b = 0 then { st with mode := .refused }
      else if b = 10 then { st with mode := .plain }
      else { st.add (b, true) with mode := .plain }
  | .single =>
      if b = 0 then { st with mode := .refused }
      else if b = 39 then { st with mode := .plain }
      else st.add (b, true)
  | .double =>
      if b = 0 ∨ b = 36 ∨ b = 96 then { st with mode := .refused }
      else if b = 34 then { st with mode := .plain }
      else if b = 92 then { st with mode := .doubleEscaped }
      else st.add (b, true)
  | .doubleEscaped =>
      if b = 0 then { st with mode := .refused }
      else if b = 10 then { st with mode := .double }
      else if b = 34 ∨ b = 36 ∨ b = 92 ∨ b = 96 then { st.add (b, true) with mode := .double }
      else { (st.add (92, true)).add (b, true) with mode := .double }
  | .comment =>
      if b = 10 then { st.startOperator b with mode := .plain }
      else if b = 0 then { st with mode := .stopped }
      else st
  | .stopped => st
  | .refused => st

def run (st : Lexer) (s : List UInt8) : Lexer := s.foldl step st

/-- The tokens of a line that has been read to its end. -/
def finish (st : Lexer) : Option (List RawToken) :=
  match st.mode with
  | .plain | .comment | .stopped => some st.flush.done.reverse
  | _ => none

end Lexer

/-- The tokens of a command line. -/
def readLine (s : List UInt8) : Option (List Token) :=
  (Lexer.run {} s).finish.bind fun raw => raw.mapM RawToken.value

theorem run_append (st : Lexer) (s t : List UInt8) : st.run (s ++ t) = (st.run s).run t :=
  List.foldl_append

theorem run_cons (st : Lexer) (b : UInt8) (s : List UInt8) : st.run (b :: s) = (st.step b).run s :=
  rfl

/-- The bytes of a text, none of them quoted. -/
def unquoted (s : List UInt8) : List Mark := s.map fun b => (b, false)

def quoted (s : List UInt8) : List Mark := s.map fun b => (b, true)

theorem unquoted_fst (s : List UInt8) : (unquoted s).map Prod.fst = s := by
  unfold unquoted
  rw [List.map_map]
  exact List.map_id s

theorem quoted_fst (s : List UInt8) : (quoted s).map Prod.fst = s := by
  unfold quoted
  rw [List.map_map]
  exact List.map_id s

/-- Nothing that is quoted is expanded. -/
theorem expands_quoted (s : List UInt8) : expands (quoted s) = false := by
  have hpattern : isPattern (quoted s) = false := by
    induction s with
    | nil => rfl
    | cons b s ih =>
      change isPattern ((b, true) :: quoted s) = false
      rw [isPattern, ih]
      simp
  have htilde : tildePrefix (quoted s) = false := by
    cases s with
    | nil => rfl
    | cons b s =>
      change tildePrefix ((b, true) :: quoted s) = false
      simp [tildePrefix]
  unfold expands
  rw [htilde, hpattern]
  rfl

theorem not_hidden {b : UInt8} (h : isHidden b = false) :
    b ≠ 92 ∧ b ≠ 39 ∧ b ≠ 34 ∧ ¬(b = 36 ∨ b = 96) ∧ b ≠ 0 := by
  simp only [isHidden, Bool.or_eq_false_iff, decide_eq_false_iff_not] at h
  tauto

/-- A plain byte that ends no word goes on the pending one, or starts one. -/
theorem step_ordinary {pending : Pending} {done : List RawToken} {b : UInt8}
    (hlonger : Lexer.longer ⟨.plain, pending, done⟩ b = none) (hb : isOrdinary b = true)
    (hcomment : b ≠ 35 ∨ Lexer.inWord ⟨.plain, pending, done⟩ = true) :
    Lexer.step ⟨.plain, pending, done⟩ b = Lexer.add ⟨.plain, pending, done⟩ (b, false) := by
  simp only [isOrdinary, Bool.and_eq_true, Bool.not_eq_true'] at hb
  obtain ⟨⟨hblank, hop⟩, hhidden⟩ := hb
  obtain ⟨h92, h39, h34, hexp, h0⟩ := not_hidden hhidden
  have hc : ¬(b = 35 ∧ Lexer.inWord ⟨.plain, pending, done⟩ = false) := by
    rintro ⟨h35, hin⟩
    obtain h | h := hcomment
    · exact h h35
    · rw [h] at hin
      cases hin
  change Lexer.plainStep _ b = _
  unfold Lexer.plainStep
  rw [hlonger]
  dsimp only
  rw [if_neg h92, if_neg h39, if_neg h34, if_neg hexp, if_neg h0, if_neg (by simp [hblank]),
    if_neg (by simp [hop]), if_neg hc]

/-- The rest of a word. -/
theorem run_inside {s : List UInt8} (hs : ∀ b ∈ s, isOrdinary b = true) (marks : List Mark)
    (done : List RawToken) :
    Lexer.run ⟨.plain, .word marks, done⟩ s = ⟨.plain, .word (marks ++ unquoted s), done⟩ := by
  induction s generalizing marks with
  | nil =>
    change _ = Lexer.mk _ (.word (marks ++ [])) _
    rw [List.append_nil]
    rfl
  | cons b s ih =>
    rw [run_cons, step_ordinary rfl (hs b List.mem_cons_self) (Or.inr rfl)]
    change Lexer.run ⟨.plain, .word (marks ++ [(b, false)]), done⟩ s = _
    rw [ih fun c hc => hs c (List.mem_cons_of_mem b hc), List.append_assoc]
    rfl

/-- The bytes of a word stand for themselves, and nothing makes a comment of it. -/
structure Bare (s : List UInt8) : Prop where
  ne_nil : s ≠ []
  ordinary : ∀ b ∈ s, isOrdinary b = true
  no_comment : s.head? ≠ some 35

/-- A bare word is read as it is written. -/
theorem run_bare {s : List UInt8} (h : Bare s) (done : List RawToken) :
    Lexer.run ⟨.plain, .idle, done⟩ s = ⟨.plain, .word (unquoted s), done⟩ := by
  obtain ⟨b, t, rfl⟩ := List.exists_cons_of_ne_nil h.ne_nil
  have h35 : b ≠ 35 := fun hb => h.no_comment (by rw [hb]; rfl)
  rw [run_cons, step_ordinary rfl (h.ordinary b List.mem_cons_self) (Or.inl h35)]
  exact run_inside (fun c hc => h.ordinary c (List.mem_cons_of_mem b hc)) [(b, false)] done

theorem run_bare_blank {w : List UInt8} (h : Bare w) (done : List RawToken) (rest : List UInt8) :
    Lexer.run ⟨.plain, .idle, done⟩ (w ++ 32 :: rest) =
      Lexer.run ⟨.plain, .idle, .word (unquoted w) :: done⟩ rest := by
  rw [run_append, run_bare h]
  rfl

/-- Inside single quotes every byte but the quote is taken literally. -/
theorem step_single {b : UInt8} (h0 : b ≠ 0) (h39 : b ≠ 39) (marks : List Mark)
    (done : List RawToken) :
    Lexer.step ⟨.single, .word marks, done⟩ b = ⟨.single, .word (marks ++ [(b, true)]), done⟩ := by
  change (if b = 0 then _ else if b = 39 then _ else _) = _
  rw [if_neg h0, if_neg h39]
  rfl

/-- A quote, an escaped quote and a quote: one literal quote inside single quotes. -/
theorem run_requote (marks : List Mark) (done : List RawToken) :
    Lexer.run ⟨.single, .word marks, done⟩ [39, 92, 39, 39] =
      ⟨.single, .word (marks ++ [(39, true)]), done⟩ :=
  rfl

/-- A word that the shell takes as it is written. -/
structure Literal (s : List UInt8) : Prop extends Bare s where
  not_expanded : expands (unquoted s) = false

theorem value_unquoted {s : List UInt8} (h : expands (unquoted s) = false) :
    (RawToken.word (unquoted s)).value = some (.word s) := by
  change (if expands (unquoted s) then none else some (Token.word ((unquoted s).map Prod.fst))) = _
  rw [h, unquoted_fst]
  rfl

theorem not_expanded_of_value {s : List UInt8} {t : Token}
    (h : (RawToken.word (unquoted s)).value = some t) : expands (unquoted s) = false := by
  change (if expands (unquoted s) then none else some (Token.word _)) = _ at h
  split at h
  · cases h
  · next he => rwa [Bool.not_eq_true] at he

theorem value_quoted (s : List UInt8) : (RawToken.word (quoted s)).value = some (.word s) := by
  change (if expands (quoted s) then none else some (Token.word ((quoted s).map Prod.fst))) = _
  rw [expands_quoted, quoted_fst]
  rfl

def RawToken.isWord : RawToken → Bool
  | .operator _ => false
  | _ => true

/-- The bytes of the words and numbers. -/
def letters : List RawToken → Nat
  | [] => 0
  | .word marks :: rest => marks.length + letters rest
  | .ioNumber digits :: rest => digits.length + letters rest
  | .operator _ :: rest => letters rest

/-- The bytes of the operators. -/
def signs : List RawToken → Nat
  | [] => 0
  | .operator text :: rest => text.length + signs rest
  | .word _ :: rest => signs rest
  | .ioNumber _ :: rest => signs rest

def afterWord : List RawToken → Nat
  | [] => 0
  | t :: _ => if t.isWord then 1 else 0

/-- The places where two words stand next to each other. -/
def gaps : List RawToken → Nat
  | [] => 0
  | t :: rest => (if t.isWord then afterWord rest else 0) + gaps rest

/-- A quote that is open has cost a byte and owes another one. -/
def Mode.weight : Mode → Int
  | .single | .double => -1
  | _ => 0

def Mode.inQuotes : Mode → Bool
  | .single | .double | .doubleEscaped => true
  | _ => false

namespace Lexer

def letters (st : Lexer) : Nat :=
  match st.pending with
  | .word marks => marks.length + Shell.letters st.done
  | _ => Shell.letters st.done

def signs (st : Lexer) : Nat :=
  match st.pending with
  | .operator text => text.length + Shell.signs st.done
  | _ => Shell.signs st.done

/-- The gaps so far; a blank after a word is one before the next word is there. -/
def gaps (st : Lexer) : Nat :=
  match st.pending with
  | .operator _ => Shell.gaps st.done
  | _ => afterWord st.done + Shell.gaps st.done

/-- The weight of the tokens. -/
def load (st : Lexer) : Nat := st.letters + st.signs + st.gaps

/-- Each byte read adds at most one: a byte of a token comes from a byte of the line, and
between two words there is one more. So a line as long as the weight of its tokens has no
byte to spare for quoting. -/
def weight (st : Lexer) : Int := st.load + st.mode.weight

theorem weight_withMode (st : Lexer) (mode : Mode) :
    Lexer.weight { st with mode := mode } = st.load + mode.weight :=
  rfl

theorem flush_weight (st : Lexer) : st.flush.mode = st.mode ∧ st.flush.letters = st.letters ∧
    st.flush.signs = st.signs ∧ st.flush.gaps = st.gaps + if st.inWord then 1 else 0 := by
  obtain ⟨mode, pending, done⟩ := st
  cases pending with
  | idle => exact ⟨rfl, rfl, rfl, rfl⟩
  | word marks =>
    refine ⟨rfl, rfl, rfl, ?_⟩
    change 1 + (afterWord done + Shell.gaps done) = afterWord done + Shell.gaps done + 1
    omega
  | operator text =>
    refine ⟨rfl, rfl, rfl, ?_⟩
    change 0 + (0 + Shell.gaps done) = Shell.gaps done + 0
    omega

theorem begin_weight (st : Lexer) : st.begin.mode = st.mode ∧ st.begin.letters = st.letters ∧
    st.begin.signs = st.signs ∧ st.begin.gaps = st.gaps := by
  obtain ⟨mode, pending, done⟩ := st
  cases pending with
  | idle => exact ⟨rfl, Nat.zero_add _, rfl, rfl⟩
  | word marks => exact ⟨rfl, rfl, rfl, rfl⟩
  | operator text =>
    refine ⟨rfl, Nat.zero_add _, rfl, ?_⟩
    change 0 + (0 + Shell.gaps done) = Shell.gaps done
    omega

theorem add_weight (st : Lexer) (m : Mark) : (st.add m).mode = st.mode ∧
    (st.add m).letters = st.letters + 1 ∧ (st.add m).signs = st.signs ∧
    (st.add m).gaps = st.gaps := by
  obtain ⟨hmode, hletters, hsigns, hgaps⟩ := begin_weight st
  have hword : ∃ marks, st.begin.pending = .word marks := by
    obtain ⟨mode, pending, done⟩ := st
    cases pending with
    | idle => exact ⟨[], rfl⟩
    | word marks => exact ⟨marks, rfl⟩
    | operator text => exact ⟨[], rfl⟩
  obtain ⟨marks, hmarks⟩ := hword
  have hadd : st.add m = { st.begin with pending := .word (marks ++ [m]) } := by
    unfold add
    rw [hmarks]
  rw [hadd, ← hmode, ← hletters, ← hsigns, ← hgaps]
  refine ⟨rfl, ?_, ?_, ?_⟩
  · simp only [letters, hmarks, List.length_append, List.length_singleton]
    omega
  · simp only [signs, hmarks]
  · simp only [gaps, hmarks]

theorem startOperator_weight (st : Lexer) (b : UInt8) : (st.startOperator b).mode = st.mode ∧
    (st.startOperator b).letters = st.letters ∧ (st.startOperator b).signs = st.signs + 1 ∧
    ((st.startOperator b).gaps = st.gaps ∨ (st.startOperator b).gaps + 1 = st.gaps) := by
  obtain ⟨mode, pending, done⟩ := st
  cases pending with
  | idle =>
    refine ⟨rfl, rfl, Nat.add_comm _ _, ?_⟩
    change Shell.gaps done = afterWord done + Shell.gaps done ∨
      Shell.gaps done + 1 = afterWord done + Shell.gaps done
    have hone : afterWord done = 0 ∨ afterWord done = 1 := by
      cases done with
      | nil => exact Or.inl rfl
      | cons t rest =>
        change (if t.isWord then 1 else 0) = 0 ∨ (if t.isWord then 1 else 0) = 1
        split <;> simp
    omega
  | word marks =>
    unfold startOperator
    dsimp only
    split
    · refine ⟨rfl, ?_, Nat.add_comm _ _, Or.inl rfl⟩
      change (marks.map Prod.fst).length + Shell.letters done = marks.length + Shell.letters done
      rw [List.length_map]
    · exact ⟨rfl, rfl, Nat.add_comm _ _, Or.inl rfl⟩
  | operator text =>
    refine ⟨rfl, rfl, Nat.add_comm _ _, Or.inl ?_⟩
    change 0 + Shell.gaps done = Shell.gaps done
    omega

/-- The last byte of a longer operator. -/
theorem longer_last {st : Lexer} {b : UInt8} {text : List UInt8} (h : st.longer b = some text) :
    isHidden b = false ∧ isBlank b = false := by
  unfold longer at h
  split at h
  · next text' _ =>
    split at h
    · next hmem =>
      have hlast := List.mem_map_of_mem (f := List.getLast?) (List.contains_iff_mem.mp hmem)
      rw [List.getLast?_concat] at hlast
      have hb : b = 38 ∨ b = 59 ∨ b = 60 ∨ b = 45 ∨ b = 62 ∨ b = 124 := by
        simp [longOperators] at hlast
        tauto
      obtain rfl | rfl | rfl | rfl | rfl | rfl := hb <;> decide
    · cases h
  · cases h

theorem longer_weight {st : Lexer} {b : UInt8} {text : List UInt8} (h : st.longer b = some text) :
    Lexer.letters { st with pending := .operator text } = st.letters ∧
      Lexer.signs { st with pending := .operator text } = st.signs + 1 ∧
      Lexer.gaps { st with pending := .operator text } = st.gaps := by
  obtain ⟨mode, pending, done⟩ := st
  cases pending with
  | idle => cases h
  | word marks => cases h
  | operator text' =>
    unfold longer at h
    dsimp only at h
    split at h
    · obtain rfl := Option.some.inj h
      refine ⟨rfl, ?_, rfl⟩
      change (text' ++ [b]).length + Shell.signs done = text'.length + Shell.signs done + 1
      rw [List.length_append, List.length_singleton]
      omega
    · cases h

/-- What a byte that weighs one does outside quotes: it is not hidden, a sign if it is
the start of an operator, and a gap if and only if it is a blank. -/
structure Weighs (st : Lexer) (b : UInt8) (st' : Lexer) : Prop where
  plain : st'.mode = .plain
  not_hidden : isHidden b = false
  signs_le : st.signs + (if isOperator b then 1 else 0) ≤ st'.signs
  gaps_eq : st'.gaps = st.gaps + if isBlank b then 1 else 0
  weight_eq : st'.weight = st.weight + 1

theorem weight_plain {st : Lexer} (h : st.mode = .plain) : st.weight = st.load := by
  unfold weight
  rw [h]
  exact Int.add_zero _

section PlainSteps

variable {st : Lexer} {b : UInt8} (h : st.mode = .plain)

include h

theorem weighs_longer {text : List UInt8} (hlonger : st.longer b = some text) :
    st.Weighs b { st with pending := .operator text } := by
  obtain ⟨hl, hs, hg⟩ := longer_weight hlonger
  obtain ⟨hhidden, hblank⟩ := longer_last hlonger
  refine ⟨h, hhidden, ?_, ?_, ?_⟩
  · rw [hs]
    split <;> omega
  · rw [hg, hblank]
    rfl
  · have hafter : Lexer.weight { st with pending := .operator text } =
        Lexer.load { st with pending := .operator text } := weight_plain h
    rw [weight_plain h, hafter]
    unfold load
    omega

/-- A blank counts where it ends a word. -/
theorem weighs_blank (hhidden : isHidden b = false) (hblank : isBlank b = true)
    (hin : st.inWord = true) : st.Weighs b st.flush := by
  obtain ⟨hm, hl, hs, hg⟩ := flush_weight st
  rw [hin] at hg
  have hop : isOperator b = false := by
    simp only [isBlank, Bool.or_eq_true, decide_eq_true_eq] at hblank
    obtain rfl | rfl := hblank <;> rfl
  refine ⟨hm.trans h, hhidden, ?_, ?_, ?_⟩
  · rw [hop, hs]
    exact Nat.le_refl _
  · rw [hg, hblank]
  · rw [weight_plain h, weight_plain (hm.trans h)]
    simp only [load, hl, hs, hg, if_true]
    omega

theorem weighs_operator (hhidden : isHidden b = false) (hblank : isBlank b = false) :
    st.Weighs b (st.startOperator b) ∨ (st.startOperator b).weight ≤ st.weight := by
  obtain ⟨hm, hl, hs, hg⟩ := startOperator_weight st b
  rw [weight_plain h, weight_plain (hm.trans h)]
  obtain hg | hg := hg
  · refine Or.inl ⟨hm.trans h, hhidden, ?_, ?_, ?_⟩
    · rw [hs]
      split <;> omega
    · rw [hg, hblank]
      rfl
    · rw [weight_plain h, weight_plain (hm.trans h)]
      simp only [load, hl, hs, hg]
      omega
  · refine Or.inr ?_
    simp only [load, hl, hs]
    omega

theorem weighs_ordinary (hb : isOrdinary b = true) : st.Weighs b (st.add (b, false)) := by
  simp only [isOrdinary, Bool.and_eq_true, Bool.not_eq_true'] at hb
  obtain ⟨⟨hblank, hop⟩, hhidden⟩ := hb
  obtain ⟨hm, hl, hs, hg⟩ := add_weight st (b, false)
  refine ⟨hm.trans h, hhidden, ?_, ?_, ?_⟩
  · rw [hs, hop]
    exact Nat.le_refl _
  · rw [hg, hblank]
    rfl
  · rw [weight_plain h, weight_plain (hm.trans h)]
    simp only [load, hl, hs, hg]
    omega

/-- Outside quotes a byte weighs one or nothing; the start of a quote weighs less. -/
theorem plain_step (b : UInt8) :
    st.Weighs b (st.step b) ∨ (st.step b).weight ≤ st.weight ∧
      ((st.step b).mode.inQuotes = true → (st.step b).weight + 1 ≤ st.weight) := by
  have hstep : st.step b = st.plainStep b := by
    unfold step
    rw [h]
  have hplain : st.mode.inQuotes = false := by rw [h]; rfl
  have hbegin : st.begin.load = st.load := by
    obtain ⟨_, hl, hs, hg⟩ := begin_weight st
    unfold load
    rw [hl, hs, hg]
  have hflush : st.inWord = false → st.flush.load = st.load := by
    intro hin
    obtain ⟨_, hl, hs, hg⟩ := flush_weight st
    rw [hin] at hg
    unfold load
    rw [hl, hs, hg]
    rfl
  rw [hstep]
  unfold plainStep
  cases hlonger : st.longer b with
  | some text => exact Or.inl (weighs_longer h hlonger)
  | none =>
    dsimp only
    split_ifs with h92 h39 h34 hexp h0 hblank hop hcomment
    · rw [weight_withMode, weight_plain h]
      exact Or.inr ⟨Int.le_refl _, fun hq => by cases hq⟩
    · rw [weight_withMode, weight_plain h, hbegin]
      simp only [Mode.weight]
      exact Or.inr ⟨by omega, fun _ => by omega⟩
    · rw [weight_withMode, weight_plain h, hbegin]
      simp only [Mode.weight]
      exact Or.inr ⟨by omega, fun _ => by omega⟩
    · rw [weight_withMode, weight_plain h]
      exact Or.inr ⟨Int.le_refl _, fun hq => by cases hq⟩
    · rw [weight_withMode, weight_plain h]
      exact Or.inr ⟨Int.le_refl _, fun hq => by cases hq⟩
    all_goals
      have hhidden : isHidden b = false := by
        simp only [isHidden, h92, h39, h34, h0, decide_false, Bool.or_false, Bool.false_or]
        simp [not_or.mp hexp]
    · cases hin : st.inWord with
      | true => exact Or.inl (weighs_blank h hhidden hblank hin)
      | false =>
        have hm := (flush_weight st).1
        refine Or.inr ⟨?_, fun hq => ?_⟩
        · apply Int.le_of_eq
          rw [weight_plain h, weight_plain (hm.trans h), hflush hin]
        · rw [hm, hplain] at hq
          cases hq
    · rw [Bool.not_eq_true] at hblank
      obtain hw | hw := weighs_operator h hhidden hblank
      · exact Or.inl hw
      · refine Or.inr ⟨hw, fun hq => ?_⟩
        rw [(startOperator_weight st b).1, hplain] at hq
        cases hq
    · rw [weight_withMode, weight_plain h, hflush hcomment.2]
      exact Or.inr ⟨Int.le_refl _, fun hq => by cases hq⟩
    · refine Or.inl (weighs_ordinary h ?_)
      simp [isOrdinary, hblank, hop, hhidden]

end PlainSteps

theorem add_load (st : Lexer) (m : Mark) : (st.add m).load = st.load + 1 := by
  obtain ⟨_, hl, hs, hg⟩ := add_weight st m
  unfold load
  omega

theorem startOperator_load (st : Lexer) (b : UInt8) : (st.startOperator b).load ≤ st.load + 1 := by
  obtain ⟨_, hl, hs, hg⟩ := startOperator_weight st b
  unfold load
  omega

/-- No byte weighs more than one. -/
theorem weight_step_le (st : Lexer) (b : UInt8) : (st.step b).weight ≤ st.weight + 1 := by
  have hadd : ∀ m, (st.add m).weight = st.load + 1 + st.mode.weight := by
    intro m
    unfold weight
    rw [add_load, (add_weight st m).1]
    rfl
  have hst : st.weight = st.load + st.mode.weight := rfl
  cases hmode : st.mode with
  | plain =>
    obtain hw | ⟨hw, _⟩ := plain_step hmode b
    · exact Int.le_of_eq hw.weight_eq
    · omega
  | escaped =>
    unfold step
    rw [hst, hmode]
    dsimp only
    split_ifs <;> simp only [weight_withMode, add_load, Mode.weight] <;> omega
  | single =>
    unfold step
    rw [hst, hmode]
    dsimp only
    split_ifs <;> simp only [weight_withMode, hadd, hmode, Mode.weight] <;> omega
  | double =>
    unfold step
    rw [hst, hmode]
    dsimp only
    split_ifs <;> simp only [weight_withMode, hadd, hmode, Mode.weight] <;> omega
  | doubleEscaped =>
    unfold step
    rw [hst, hmode]
    dsimp only
    split_ifs <;> simp only [weight_withMode, add_load, Mode.weight] <;> omega
  | comment =>
    have hload := startOperator_load st b
    unfold step
    rw [hst, hmode]
    dsimp only
    split_ifs <;> simp only [weight_withMode, hst, hmode, Mode.weight] <;> omega
  | stopped =>
    unfold step
    rw [hst, hmode]
    dsimp only
    rw [hst, hmode]
    omega
  | refused =>
    unfold step
    rw [hst, hmode]
    dsimp only
    rw [hst, hmode]
    omega

theorem weight_run_le (st : Lexer) (s : List UInt8) : (st.run s).weight ≤ st.weight + s.length := by
  induction s generalizing st with
  | nil => exact Int.le_of_eq (Int.add_zero _).symm
  | cons b s ih =>
    have hstep := weight_step_le st b
    have hrest := ih (st.step b)
    rw [run_cons, List.length_cons]
    omega

/-- A quote is entered from outside quotes only, and at a loss. -/
theorem enter_quotes {st : Lexer} {b : UInt8} (h : st.mode.inQuotes = false)
    (hq : (st.step b).mode.inQuotes = true) : (st.step b).weight + 1 ≤ st.weight := by
  cases hmode : st.mode with
  | plain =>
    obtain hw | ⟨_, hw⟩ := plain_step hmode b
    · rw [hw.plain] at hq
      cases hq
    · exact hw hq
  | escaped =>
    unfold step at hq
    rw [hmode] at hq
    dsimp only at hq
    split_ifs at hq <;> cases hq
  | single =>
    rw [hmode] at h
    cases h
  | double =>
    rw [hmode] at h
    cases h
  | doubleEscaped =>
    rw [hmode] at h
    cases h
  | comment =>
    unfold step at hq
    rw [hmode] at hq
    dsimp only at hq
    split_ifs at hq
    · cases hq
    · cases hq
    · rw [hmode] at hq
      cases hq
  | stopped =>
    unfold step at hq
    rw [hmode] at hq
    dsimp only at hq
    rw [hmode] at hq
    cases hq
  | refused =>
    unfold step at hq
    rw [hmode] at hq
    dsimp only at hq
    rw [hmode] at hq
    cases hq

/-- A run that ends inside quotes is short of two bytes. -/
theorem weight_inQuotes {st : Lexer} (h : st.mode.inQuotes = false) (s : List UInt8)
    (hq : (st.run s).mode.inQuotes = true) : (st.run s).weight + 2 ≤ st.weight + s.length := by
  induction s generalizing st with
  | nil =>
    change st.mode.inQuotes = true at hq
    rw [h] at hq
    cases hq
  | cons b s ih =>
    rw [run_cons] at hq ⊢
    have hstep := weight_step_le st b
    rw [List.length_cons]
    cases hq' : (st.step b).mode.inQuotes with
    | false =>
      have hrest := ih hq' hq
      omega
    | true =>
      have henter := enter_quotes h hq'
      have hrest := weight_run_le (st.step b) s
      omega

/-- A run outside quotes in which every byte weighs one. -/
structure Tight (st : Lexer) (s : List UInt8) (st' : Lexer) : Prop where
  plain : st'.mode = .plain
  not_hidden : ∀ b ∈ s, isHidden b = false
  signs_le : st.signs + s.countP isOperator ≤ st'.signs
  gaps_eq : st'.gaps = st.gaps + s.countP isBlank

theorem tight_of_weight {st : Lexer} (h : st.mode = .plain) (s : List UInt8)
    (hw : st.weight + s.length ≤ (st.run s).weight) : st.Tight s (st.run s) := by
  induction s generalizing st with
  | nil => exact ⟨h, fun _ hb => absurd hb List.not_mem_nil, Nat.le_refl _, rfl⟩
  | cons b s ih =>
    rw [run_cons] at hw ⊢
    rw [List.length_cons] at hw
    have hrest := weight_run_le (st.step b) s
    obtain hstep | ⟨hstep, _⟩ := plain_step h b
    · have htail := ih hstep.plain (by rw [hstep.weight_eq]; omega)
      refine ⟨htail.plain, ?_, ?_, ?_⟩
      · intro c hc
        obtain rfl | hc := List.mem_cons.mp hc
        · exact hstep.not_hidden
        · exact htail.not_hidden c hc
      · have h1 := hstep.signs_le
        have h2 := htail.signs_le
        rw [List.countP_cons]
        omega
      · rw [htail.gaps_eq, hstep.gaps_eq, List.countP_cons]
        omega
    · omega

theorem finish_weight {st : Lexer} {raw : List RawToken} (h : st.finish = some raw) :
    st.mode.weight = 0 ∧ Shell.letters raw.reverse = st.letters ∧
      Shell.signs raw.reverse = st.signs ∧ Shell.gaps raw.reverse ≤ st.gaps := by
  have hdone : st.mode.weight = 0 ∧ raw.reverse = st.flush.done := by
    unfold finish at h
    split at h
    · next hm => exact ⟨by rw [hm]; rfl, by rw [← Option.some.inj h, List.reverse_reverse]⟩
    · next hm => exact ⟨by rw [hm]; rfl, by rw [← Option.some.inj h, List.reverse_reverse]⟩
    · next hm => exact ⟨by rw [hm]; rfl, by rw [← Option.some.inj h, List.reverse_reverse]⟩
    · cases h
  obtain ⟨hmode, hraw⟩ := hdone
  rw [hraw]
  refine ⟨hmode, ?_⟩
  obtain ⟨mode, pending, done⟩ := st
  cases pending with
  | idle => exact ⟨rfl, rfl, Nat.le_add_left _ _⟩
  | word marks => exact ⟨rfl, rfl, Nat.le_refl _⟩
  | operator text =>
    refine ⟨rfl, rfl, ?_⟩
    change 0 + Shell.gaps done ≤ Shell.gaps done
    omega

end Lexer

def Token.isWord : Token → Bool
  | .operator _ => false
  | _ => true

def lineLetters : List Token → Nat
  | [] => 0
  | .word value :: rest => value.length + lineLetters rest
  | .ioNumber digits :: rest => digits.length + lineLetters rest
  | .operator _ :: rest => lineLetters rest

def lineSigns : List Token → Nat
  | [] => 0
  | .operator text :: rest => text.length + lineSigns rest
  | .word _ :: rest => lineSigns rest
  | .ioNumber _ :: rest => lineSigns rest

/-- The gaps of a line that follows a word (`1`) or something else (`0`). -/
def lineGaps : Nat → List Token → Nat
  | _, [] => 0
  | before, t :: rest =>
      (if t.isWord then before else 0) + lineGaps (if t.isWord then 1 else 0) rest

theorem value_word {r : RawToken} {value : List UInt8} (h : r.value = some (.word value)) :
    ∃ marks, r = .word marks ∧ expands marks = false ∧ marks.map Prod.fst = value := by
  cases r with
  | word marks =>
    change (if expands marks then none else some (Token.word (marks.map Prod.fst))) = _ at h
    split at h
    · cases h
    · next he =>
      rw [Bool.not_eq_true] at he
      exact ⟨marks, rfl, he, Token.word.inj (Option.some.inj h)⟩
  | ioNumber digits => cases h
  | operator text => cases h

/-- A token weighs what its value weighs. -/
theorem value_weight {r : RawToken} {t : Token} (h : r.value = some t) (done : List RawToken)
    (rest : List Token) :
    letters (r :: done) + lineLetters rest = lineLetters (t :: rest) + letters done ∧
      signs (r :: done) + lineSigns rest = lineSigns (t :: rest) + signs done ∧
      r.isWord = t.isWord := by
  cases t with
  | word value =>
    obtain ⟨marks, rfl, _, hvalue⟩ := value_word h
    have hlen : marks.length = value.length := by rw [← hvalue, List.length_map]
    simp only [letters, lineLetters, signs, lineSigns]
    exact ⟨by omega, by omega, rfl⟩
  | ioNumber digits =>
    cases r with
    | word marks =>
      change (if expands marks then none else some (Token.word _)) = _ at h
      split at h <;> cases h
    | ioNumber digits' =>
      cases h
      simp only [letters, lineLetters, signs, lineSigns]
      exact ⟨by omega, by omega, rfl⟩
    | operator text => cases h
  | operator text =>
    cases r with
    | word marks =>
      change (if expands marks then none else some (Token.word _)) = _ at h
      split at h <;> cases h
    | ioNumber digits' => cases h
    | operator text' =>
      cases h
      simp only [letters, lineLetters, signs, lineSigns]
      exact ⟨by omega, by omega, rfl⟩

theorem values_each {raw : List RawToken} {ts : List Token}
    (h : raw.mapM RawToken.value = some ts) :
    List.Forall₂ (fun r t => r.value = some t) raw ts := by
  induction raw generalizing ts with
  | nil =>
    cases h
    exact .nil
  | cons r rest ih =>
    rw [List.mapM_cons] at h
    cases hr : r.value with
    | none =>
      rw [hr] at h
      cases h
    | some t =>
      rw [hr] at h
      cases hrest : rest.mapM RawToken.value with
      | none =>
        rw [hrest] at h
        cases h
      | some ts' =>
        rw [hrest] at h
        cases h
        exact .cons hr (ih hrest)

theorem values_weight {raw : List RawToken} {ts : List Token}
    (h : List.Forall₂ (fun r t => r.value = some t) raw ts) (done : List RawToken) :
    letters (raw.reverse ++ done) = lineLetters ts + letters done ∧
      signs (raw.reverse ++ done) = lineSigns ts + signs done ∧
      gaps (raw.reverse ++ done) = lineGaps (afterWord done) ts + gaps done := by
  induction h generalizing done with
  | nil => exact ⟨(Nat.zero_add _).symm, (Nat.zero_add _).symm, (Nat.zero_add _).symm⟩
  | @cons r t rest ts hr hrest ih =>
    obtain ⟨hl, hs, hg⟩ := ih (r :: done)
    obtain ⟨hl', hs', hw⟩ := value_weight hr done ts
    have hsplit : (r :: rest).reverse ++ done = rest.reverse ++ r :: done := by
      rw [List.reverse_cons, List.append_assoc]
      rfl
    rw [hsplit]
    refine ⟨by omega, by omega, ?_⟩
    rw [hg, lineGaps, ← hw]
    change lineGaps (if r.isWord then 1 else 0) ts +
      ((if r.isWord then afterWord done else 0) + gaps done) = _
    omega

/-- A line is as heavy as its tokens at least: all of its weight is theirs, and only their
gaps may be more than the tokens need. -/
theorem readLine_weight {s : List UInt8} {ts : List Token} (h : readLine s = some ts) :
    (Lexer.run {} s).weight =
        ((lineLetters ts + lineSigns ts + (Lexer.run {} s).gaps : Nat) : Int) ∧
      (Lexer.run {} s).signs = lineSigns ts ∧ lineGaps 0 ts ≤ (Lexer.run {} s).gaps := by
  unfold readLine at h
  obtain ⟨raw, hraw, hvalues⟩ := Option.bind_eq_some_iff.mp h
  obtain ⟨hmode, hl, hs, hg⟩ := Lexer.finish_weight hraw
  obtain ⟨hl', hs', hg'⟩ := values_weight (values_each hvalues) []
  rw [List.append_nil] at hl' hs' hg'
  have hletters : (Lexer.run {} s).letters = lineLetters ts := by
    rw [← hl, hl']
    rfl
  have hsigns : (Lexer.run {} s).signs = lineSigns ts := by
    rw [← hs, hs']
    rfl
  refine ⟨?_, hsigns, ?_⟩
  · rw [Lexer.weight, Lexer.load, hmode, hletters, hsigns]
    exact Int.add_zero _
  · rw [hg'] at hg
    exact hg

/-- After `>` an operator is pending, and a blank delimits it. -/
theorem run_redirection {st : Lexer} (h : st.mode = .plain) :
    (st.step 62).mode = .plain ∧ ∃ text, (st.step 62).pending = .operator text ∧
      st.run [62, 32] = ⟨.plain, .idle, .operator text :: (st.step 62).done⟩ := by
  have hgreater : (st.step 62).mode = .plain ∧ ∃ text, (st.step 62).pending = .operator text := by
    have hstep : st.step 62 = st.plainStep 62 := by
      unfold Lexer.step
      rw [h]
    rw [hstep]
    unfold Lexer.plainStep
    cases st.longer 62 with
    | some text => exact ⟨h, text, rfl⟩
    | none =>
      change (st.startOperator 62).mode = .plain ∧ ∃ text, (st.startOperator 62).pending = _
      refine ⟨(Lexer.startOperator_weight st 62).1.trans h, [62], ?_⟩
      unfold Lexer.startOperator
      split
      · rfl
      · split <;> rfl
      · rfl
  obtain ⟨hplain, text, hp⟩ := hgreater
  refine ⟨hplain, text, hp, ?_⟩
  change (st.step 62).step 32 = _
  have hstep : (st.step 62).step 32 = (st.step 62).plainStep 32 := by
    rw [Lexer.step, hplain]
  rw [hstep]
  unfold Lexer.plainStep
  cases hlonger : (st.step 62).longer 32 with
  | some text' => exact absurd (Lexer.longer_last hlonger).2 (by decide)
  | none =>
    change (st.step 62).flush = _
    unfold Lexer.flush
    rw [hp, hplain]

/-- So the blank weighs nothing. -/
theorem redirection_weight {st : Lexer} (h : st.mode = .plain) :
    (st.run [62, 32]).weight = (st.step 62).weight ∧ (st.run [62, 32]).signs = (st.step 62).signs ∧
      (st.run [62, 32]).gaps = (st.step 62).gaps := by
  obtain ⟨hplain, text, hp, hrun⟩ := run_redirection h
  rw [hrun]
  generalize st.step 62 = st' at hplain hp ⊢
  obtain ⟨mode, pending, done⟩ := st'
  obtain rfl : mode = .plain := hplain
  obtain rfl : pending = .operator text := hp
  have hgaps : Lexer.gaps ⟨.plain, .idle, .operator text :: done⟩ =
      Lexer.gaps ⟨.plain, .operator text, done⟩ := by
    change 0 + (0 + gaps done) = gaps done
    omega
  refine ⟨?_, rfl, hgaps⟩
  rw [Lexer.weight_plain rfl, Lexer.weight_plain rfl]
  unfold Lexer.load
  rw [hgaps]
  rfl

/-- Only a backslash escapes. -/
theorem step_not_escaped (st : Lexer) {b : UInt8} (hb : b ≠ 92) : (st.step b).mode ≠ .escaped := by
  have hadd : ∀ m, (st.add m).mode = st.mode := fun m => (Lexer.add_weight st m).1
  have hflush : st.flush.mode = st.mode := (Lexer.flush_weight st).1
  have hstart : (st.startOperator b).mode = st.mode := (Lexer.startOperator_weight st b).1
  unfold Lexer.step
  cases hmode : st.mode with
  | plain =>
    dsimp only
    unfold Lexer.plainStep
    cases st.longer b with
    | some text => simp [hmode]
    | none =>
      dsimp only
      rw [if_neg hb]
      split_ifs <;> simp [hmode, hadd, hflush, hstart]
  | stopped => simp [hmode]
  | refused => simp [hmode]
  | _ =>
    dsimp only
    split_ifs <;> simp [hmode, hadd]

theorem redirection_unread {st : Lexer}
    (h : st.mode = .comment ∨ st.mode = .stopped ∨ st.mode = .refused) : st.run [62, 32] = st := by
  have hstep : ∀ b : UInt8, b = 62 ∨ b = 32 → st.step b = st := by
    intro b hb
    unfold Lexer.step
    obtain h | h | h := h
    · rw [h]
      obtain rfl | rfl := hb <;> rfl
    · rw [h]
    · rw [h]
  rw [run_cons, hstep 62 (Or.inl rfl), run_cons, hstep 32 (Or.inr rfl)]
  rfl

/-- What a line shows when the blank after its redirection is the only byte of it that is
lost. -/
structure TightRedirection (st : Lexer) (s log : List UInt8) : Prop where
  weight_le : st.weight + s.length ≤ (st.run s).weight
  plain : (st.run s).mode = .plain
  signs_le : (st.run s).signs + 1 ≤ ((st.run s).run [62, 32]).signs
  gaps_eq : ((st.run s).run [62, 32]).gaps = (st.run s).gaps
  log_weight_le : ((st.run s).run [62, 32]).weight + log.length ≤
    (((st.run s).run [62, 32]).run log).weight
  weight_eq : (((st.run s).run [62, 32]).run log).weight = st.weight + s.length + 1 + log.length

theorem tight_redirection {st : Lexer} (h : st.mode = .plain) {s log : List UInt8} {b : UInt8}
    (hb : b ≠ 92) (hw : st.weight + (s ++ [b]).length + 1 + log.length ≤
      (((st.run (s ++ [b])).run [62, 32]).run log).weight) :
    TightRedirection st (s ++ [b]) log := by
  have hescaped : (st.run (s ++ [b])).mode ≠ .escaped := by
    rw [run_append]
    exact step_not_escaped (st.run s) hb
  have hfront := Lexer.weight_run_le st (s ++ [b])
  have hquotes := Lexer.weight_inQuotes (by rw [h]; rfl) (s ++ [b])
  generalize s ++ [b] = s at *
  have hboth := Lexer.weight_run_le (st.run s) [62, 32]
  have hlog := Lexer.weight_run_le ((st.run s).run [62, 32]) log
  have hunread := @redirection_unread (st.run s)
  have htwo : ([62, 32] : List UInt8).length = 2 := rfl
  cases hmode : (st.run s).mode with
  | plain =>
    obtain ⟨hweight, hsigns, hgaps⟩ := redirection_weight hmode
    obtain hstep | ⟨hstep, _⟩ := Lexer.plain_step hmode 62
    · have hone := hstep.weight_eq
      refine ⟨by omega, hmode, ?_, ?_, by omega, by omega⟩
      · rw [hsigns]
        exact hstep.signs_le
      · rw [hgaps, hstep.gaps_eq]
        rfl
    · omega
  | escaped => exact absurd hmode hescaped
  | single =>
    have hq := hquotes (by rw [hmode]; rfl)
    omega
  | double =>
    have hq := hquotes (by rw [hmode]; rfl)
    omega
  | doubleEscaped =>
    have hq := hquotes (by rw [hmode]; rfl)
    omega
  | comment =>
    rw [hunread (Or.inl hmode)] at hlog hw
    omega
  | stopped =>
    rw [hunread (Or.inr (Or.inl hmode))] at hlog hw
    omega
  | refused =>
    rw [hunread (Or.inr (Or.inr hmode))] at hlog hw
    omega

theorem ordinary_of {s : List UInt8} (hhidden : ∀ b ∈ s, isHidden b = false)
    (hop : s.countP isOperator = 0) (hblank : s.countP isBlank = 0) :
    ∀ b ∈ s, isOrdinary b = true := by
  intro b hb
  have h1 := List.countP_eq_zero.mp hop b hb
  have h2 := List.countP_eq_zero.mp hblank b hb
  rw [Bool.not_eq_true] at h1 h2
  simp [isOrdinary, h1, h2, hhidden b hb]

section Words

variable {w : List UInt8} {done : List RawToken} (hw : ∀ b ∈ w, isOrdinary b = true)

include hw

/-- Ordinary bytes that all count are a word, if there are any. -/
theorem last_word (h : Lexer.weight ⟨.plain, .idle, done⟩ + w.length ≤
      (Lexer.run ⟨.plain, .idle, done⟩ w).weight) : w = [] ∨ Bare w := by
  cases w with
  | nil => exact Or.inl rfl
  | cons b t =>
    refine Or.inr ⟨List.cons_ne_nil b t, hw, ?_⟩
    intro h35
    obtain rfl : b = 35 := Option.some.inj h35
    -- A comment starts here, and its first byte weighs nothing.
    have hrest := Lexer.weight_run_le (Lexer.step ⟨.plain, .idle, done⟩ 35) t
    have hcomment : Lexer.weight (Lexer.step ⟨.plain, .idle, done⟩ 35) =
        Lexer.weight ⟨.plain, .idle, done⟩ := rfl
    rw [run_cons, List.length_cons] at h
    omega

/-- Before a blank they are a word. -/
theorem next_word {rest : List UInt8} (h : Lexer.weight ⟨.plain, .idle, done⟩ +
      (w ++ 32 :: rest).length ≤ (Lexer.run ⟨.plain, .idle, done⟩ (w ++ 32 :: rest)).weight) :
    Bare w ∧ Lexer.weight ⟨.plain, .idle, .word (unquoted w) :: done⟩ + rest.length ≤
      (Lexer.run ⟨.plain, .idle, .word (unquoted w) :: done⟩ rest).weight := by
  rw [run_append, run_cons, List.length_append, List.length_cons] at h
  have hafter := Lexer.weight_run_le (Lexer.step (Lexer.run ⟨.plain, .idle, done⟩ w) 32) rest
  have hstep := Lexer.weight_step_le (Lexer.run ⟨.plain, .idle, done⟩ w) 32
  have hbefore := Lexer.weight_run_le ⟨.plain, .idle, done⟩ w
  have hword : Lexer.weight ⟨.plain, .idle, done⟩ + w.length ≤
      (Lexer.run ⟨.plain, .idle, done⟩ w).weight := by omega
  obtain rfl | hbare := last_word hw hword
  · have hblank : Lexer.weight (Lexer.step (Lexer.run ⟨.plain, .idle, done⟩ []) 32) =
        Lexer.weight ⟨.plain, .idle, done⟩ := rfl
    simp only [List.length_nil] at h
    omega
  · refine ⟨hbare, ?_⟩
    rw [run_bare hbare] at h hstep hafter hbefore
    change _ ≤ Lexer.weight (Lexer.run ⟨.plain, .idle, .word (unquoted w) :: done⟩ rest) at h
    change Lexer.weight ⟨.plain, .idle, .word (unquoted w) :: done⟩ ≤ _ at hstep
    omega

end Words

end JudgeServer.Lib.Shell
