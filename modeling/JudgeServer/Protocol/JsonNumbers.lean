import JudgeServer.Lib.JsonText
import JudgeServer.Protocol.JsonLexer

/-!
# The numbers the lexer reads

The labels of `scan_number` are the states of an automaton. A run of it from the first
byte on reads a number of RFC 8259 exactly if it ends at a label where the scan may stop,
and it goes on as long as the number can be continued.
-/

namespace JudgeServer.Protocol.Lexer

open JudgeServer.Lib.Decimal
open JudgeServer.Lib.JsonText

/-- The label and the type after some more bytes; `none` if a label has no way on. -/
def run : NumberState → NumberType → Bytes → Option (NumberState × NumberType)
  | state, type, [] => some (state, type)
  | state, type, b :: w =>
      match state.move (some b) with
      | .goto state' => run state' (state'.type type) w
      | _ => none

theorem run_goto {state state' : NumberState} {b : UInt8} (type : NumberType) (w : Bytes)
    (h : state.move (some b) = .goto state') :
    run state type (b :: w) = run state' (state'.type type) w := by
  rw [run, h]

theorem run_append (state : NumberState) (type : NumberType) (u w : Bytes) :
    run state type (u ++ w) = (run state type u).bind fun x => run x.1 x.2 w := by
  induction u generalizing state type with
  | nil => rfl
  | cons b u ih =>
    rw [List.cons_append, run, run]
    split
    · exact ih _ _
    · rfl

/-- The scan takes a run, as long a one as there is. -/
theorem scanNumberFrom_iff {state : NumberState} {type type' : NumberType}
    {buffer buffer' input rest : Bytes} :
    scanNumberFrom state type buffer input = .ok (type', buffer', rest) ↔
      ∃ w last, input = w ++ rest ∧ buffer' = buffer ++ w ∧
        run state type w = some (last, type') ∧ last.move rest.head? = .done := by
  induction input generalizing state type buffer with
  | nil =>
    unfold scanNumberFrom
    constructor
    · intro h
      split at h
      · cases h
      · next hmove =>
        cases h
        refine ⟨[], state, rfl, (List.append_nil _).symm, rfl, ?_⟩
        cases state <;> first | rfl | exact absurd rfl (hmove _)
    · rintro ⟨w, last, hw, rfl, hrun, hdone⟩
      obtain ⟨rfl, rfl⟩ := List.append_eq_nil_iff.mp hw.symm
      obtain ⟨rfl, rfl⟩ := Prod.mk.inj (Option.some.inj hrun)
      rw [List.head?_nil] at hdone
      rw [hdone, List.append_nil]
  | cons b input ih =>
    unfold scanNumberFrom
    constructor
    · intro h
      split at h
      · next state' hmove =>
        obtain ⟨w, last, rfl, rfl, hrun, hdone⟩ := ih.mp h
        refine ⟨b :: w, last, rfl, by simp, ?_, hdone⟩
        rw [run_goto _ _ hmove, hrun]
      · next hmove =>
        cases h
        exact ⟨[], state, rfl, (List.append_nil _).symm, rfl, hmove⟩
      · cases h
    · rintro ⟨w, last, hw, rfl, hrun, hdone⟩
      cases w with
      | nil =>
        obtain rfl : b :: input = rest := hw
        obtain ⟨rfl, rfl⟩ := Prod.mk.inj (Option.some.inj hrun)
        rw [List.head?_cons] at hdone
        rw [hdone, List.append_nil]
      | cons b' w =>
        obtain ⟨rfl, rfl⟩ := List.cons.inj hw
        rw [run] at hrun
        split at hrun
        · next state' hmove =>
          rw [hmove]
          exact ih.mpr ⟨w, last, rfl, by simp, hrun, hdone⟩
        · cases hrun

section Texts

variable (n : NumberText)

/-- The label the scan is at after the whole number. -/
def lastState : NumberState :=
  match n.exp, n.frac with
  | some _, _ => .any2
  | none, some _ => .decimal2
  | none, none => if n.int = [48] then .zero else .any1

def typeOf : NumberType :=
  if n.frac.isSome || n.exp.isSome then .valueFloat
  else if n.minus then .valueInteger
  else .valueUnsigned

theorem stops_iff (b : UInt8) : n.Stops b ↔ (lastState n).move (some b) = .done := by
  obtain ⟨minus, int, frac, exp, -, -, -, -⟩ := n
  cases exp with
  | some x => cases h : isDigit b <;> simp [NumberText.Stops, lastState, NumberState.move, h]
  | none =>
    cases frac with
    | some ds => cases h : isDigit b <;> simp [NumberText.Stops, lastState, NumberState.move, h]
    | none =>
      by_cases h0 : int = [48]
      · by_cases h46 : b = 46 <;> simp [NumberText.Stops, lastState, NumberState.move, h0, h46]
      · have hpoint : isDigit 46 = false := rfl
        by_cases h46 : b = 46 <;> cases h : isDigit b <;>
          simp [NumberText.Stops, lastState, NumberState.move, h, h0, h46, hpoint]

theorem move_none : (lastState n).move none = .done := by
  unfold lastState
  split
  · rfl
  · rfl
  · split <;> rfl

theorem stops_head_iff (rest : Bytes) :
    (∀ b ∈ rest.head?, n.Stops b) ↔ (lastState n).move rest.head? = .done := by
  cases rest with
  | nil => simp [move_none]
  | cons b rest => simp [stops_iff]

end Texts

theorem run_digits {state : NumberState} {type : NumberType} {ds : Bytes}
    (hloop : ∀ b, isDigit b = true → state.move (some b) = .goto state)
    (htype : state.type type = type) (hds : ∀ b ∈ ds, isDigit b = true) (w : Bytes) :
    run state type (ds ++ w) = run state type w := by
  induction ds with
  | nil => rfl
  | cons d ds ih =>
    rw [List.cons_append, run_goto _ _ (hloop d (hds d List.mem_cons_self)), htype]
    exact ih fun b hb => hds b (List.mem_cons_of_mem d hb)

theorem digit_ne {b : UInt8} (h : isDigit b = true) :
    b ≠ 43 ∧ b ≠ 45 ∧ b ≠ 46 ∧ b ≠ 101 ∧ b ≠ 69 := by
  refine ⟨?_, ?_, ?_, ?_, ?_⟩ <;> (rintro rfl; exact absurd h (by decide))

/-- The integer part, from its first digit on. -/
theorem run_int {type : NumberType} {d : UInt8} {ds : Bytes} (w : Bytes)
    (hdigits : ∀ b ∈ d :: ds, isDigit b = true) (hlead : d = 48 → ds = []) :
    run (numberStart d) type (ds ++ w) = run (if d :: ds = [48] then .zero else .any1) type w := by
  have hd := hdigits d List.mem_cons_self
  unfold numberStart
  rw [if_neg (digit_ne hd).2.1]
  by_cases h0 : d = 48
  · rw [if_pos h0, hlead h0, h0, if_pos rfl]
    rfl
  · rw [if_neg h0, if_neg (by simp [h0])]
    refine run_digits (fun b hb => ?_) rfl (fun b hb => hdigits b (List.mem_cons_of_mem d hb)) w
    simp [NumberState.move, hb]

theorem run_frac {state : NumberState} {type : NumberType} {ds : Bytes} (w : Bytes)
    (hstate : state = .zero ∨ state = .any1) (hds : ∀ b ∈ ds, isDigit b = true) (hne : ds ≠ []) :
    run state type (46 :: ds ++ w) = run .decimal2 .valueFloat w := by
  obtain ⟨d, ds, rfl⟩ := List.exists_cons_of_ne_nil hne
  have hpoint : state.move (some 46) = .goto .decimal1 := by
    obtain rfl | rfl := hstate <;> rfl
  have hd : NumberState.decimal1.move (some d) = .goto .decimal2 := by
    simp [NumberState.move, hds d List.mem_cons_self]
  rw [List.cons_append, run_goto _ _ hpoint, List.cons_append, run_goto _ _ hd]
  refine run_digits (fun b hb => ?_) rfl (fun b hb => hds b (List.mem_cons_of_mem d hb)) w
  simp [NumberState.move, hb]

theorem run_exp {state : NumberState} (type : NumberType) (x : Exponent) (w : Bytes)
    (hstate : state = .zero ∨ state = .any1 ∨ state = .decimal2) :
    run state type (x.text ++ w) = run .any2 .valueFloat w := by
  obtain ⟨letter, sign, digits, hletter, hsign, hdigits, hne⟩ := x
  obtain ⟨d, ds, rfl⟩ := List.exists_cons_of_ne_nil hne
  have hd := hdigits d List.mem_cons_self
  have he : state.move (some letter) = .goto .exponent := by
    obtain rfl | rfl := hletter <;> obtain rfl | rfl | rfl := hstate <;> rfl
  have hloop : run .any2 .valueFloat (ds ++ w) = run .any2 .valueFloat w := by
    refine run_digits (fun b hb => ?_) rfl (fun b hb => hdigits b (List.mem_cons_of_mem d hb)) w
    simp [NumberState.move, hb]
  show run state type (letter :: (sign.toList ++ d :: ds) ++ w) = _
  rw [List.cons_append, run_goto _ _ he]
  cases sign with
  | none =>
    have hmove : NumberState.exponent.move (some d) = .goto .any2 := by
      have hne := digit_ne hd
      simp [NumberState.move, hd, hne.1, hne.2.1]
    rw [Option.toList_none, List.nil_append, List.cons_append, run_goto _ _ hmove]
    exact hloop
  | some b =>
    have hb : NumberState.exponent.move (some b) = .goto .sign := by
      obtain rfl | rfl := hsign b rfl <;> rfl
    have hmove : NumberState.sign.move (some d) = .goto .any2 := by
      simp [NumberState.move, hd]
    rw [Option.toList_some, List.append_assoc, List.singleton_append, run_goto _ _ hb,
      List.cons_append, run_goto _ _ hmove]
    exact hloop

/-- Behind the integer part there may be a fraction and an exponent. -/
theorem run_tail (n : NumberText) (type : NumberType) :
    run (if n.int = [48] then .zero else .any1) type (n.fracText ++ n.expText) =
      some (lastState n, if n.frac.isSome || n.exp.isSome then .valueFloat else type) := by
  obtain ⟨minus, int, frac, exp, hint, hne, hlead, hfrac⟩ := n
  have hstate : ∀ p : Prop, [Decidable p] →
      (if p then NumberState.zero else .any1) = .zero ∨ (if p then NumberState.zero else .any1) = .any1 := by
    intro p _
    split
    · exact Or.inl rfl
    · exact Or.inr rfl
  cases frac with
  | none =>
    cases exp with
    | none => rfl
    | some x =>
      have hrun := run_exp type x [] ((hstate (int = [48])).imp id Or.inl)
      rw [List.append_nil] at hrun
      exact hrun
  | some ds =>
    obtain ⟨hds, hdsne⟩ := hfrac ds rfl
    refine (run_frac _ (hstate (int = [48])) hds hdsne).trans ?_
    cases exp with
    | none => rfl
    | some x =>
      have hrun := run_exp .valueFloat x [] (Or.inr (Or.inr rfl))
      rw [List.append_nil] at hrun
      exact hrun

/-- From the first byte of a number the scan comes to its end. -/
theorem run_text (n : NumberText) : ∃ b w, n.text = b :: w ∧ (b = 45 ∨ isDigit b = true) ∧
    run (numberStart b) ((numberStart b).type .valueUnsigned) w = some (lastState n, typeOf n) := by
  obtain ⟨d, ds, hint⟩ := List.exists_cons_of_ne_nil n.int_ne_nil
  have hdigits : ∀ b ∈ d :: ds, isDigit b = true := hint ▸ n.int_digits
  have hd := hdigits d List.mem_cons_self
  have hlead : d = 48 → ds = [] := by
    rintro rfl
    have hone := n.int_leading (by rw [hint]; rfl)
    rw [hint] at hone
    exact (List.cons.inj hone).2
  have htail := fun type => run_tail n type
  simp only [hint] at htail
  unfold NumberText.text typeOf
  rw [hint]
  cases hminus : n.minus with
  | true =>
    refine ⟨45, _, rfl, Or.inl rfl, ?_⟩
    have hmove : NumberState.minus.move (some d) = .goto (numberStart d) := by
      unfold numberStart
      rw [if_neg (digit_ne hd).2.1]
      by_cases h0 : d = 48
      · simp [NumberState.move, h0]
      · simp [NumberState.move, h0, hd]
    have htype : (numberStart d).type .valueInteger = .valueInteger := by
      unfold numberStart
      rw [if_neg (digit_ne hd).2.1]
      split <;> rfl
    show run .minus .valueInteger (d :: ds ++ (n.fracText ++ n.expText)) = _
    rw [List.cons_append, run_goto _ _ hmove, htype, run_int _ hdigits hlead, htail]
    rfl
  | false =>
    refine ⟨d, ds ++ (n.fracText ++ n.expText), rfl, Or.inr hd, ?_⟩
    have htype : (numberStart d).type .valueUnsigned = .valueUnsigned := by
      unfold numberStart
      rw [if_neg (digit_ne hd).2.1]
      split <;> rfl
    rw [htype, run_int _ hdigits hlead, htail]
    rfl

/-- What has been read when the scan is at a label. -/
inductive Reached : NumberState → NumberType → Bytes → Prop
  | minus : Reached .minus .valueInteger [45]
  /-- The labels where the scan may stop. -/
  | number (n : NumberText) : Reached (lastState n) (typeOf n) n.text
  | decimal1 (n : NumberText) (hfrac : n.frac = none) (hexp : n.exp = none) :
      Reached .decimal1 .valueFloat (n.text ++ [46])
  | exponent (n : NumberText) (hexp : n.exp = none) {e : UInt8} (he : e = 101 ∨ e = 69) :
      Reached .exponent .valueFloat (n.text ++ [e])
  | sign (n : NumberText) (hexp : n.exp = none) {e b : UInt8} (he : e = 101 ∨ e = 69)
      (hb : b = 43 ∨ b = 45) : Reached .sign .valueFloat (n.text ++ [e, b])

theorem mem_snoc {ds : Bytes} {b : UInt8} (hds : ∀ x ∈ ds, isDigit x = true)
    (hb : isDigit b = true) : ∀ x ∈ ds ++ [b], isDigit x = true := by
  intro x hx
  obtain hx | hx := List.mem_append.mp hx
  · exact hds x hx
  · rwa [List.mem_singleton.mp hx]

theorem Reached.of_number {state : NumberState} {type : NumberType} {w : Bytes} (n : NumberText)
    (hstate : lastState n = state) (htype : typeOf n = type) (hw : n.text = w) :
    Reached state type w := by
  subst hstate htype hw
  exact .number n

/-- One digit is a number. -/
theorem reached_digit (minus : Bool) {b : UInt8} (h : isDigit b = true) :
    Reached (numberStart b) (if minus then .valueInteger else .valueUnsigned)
      ((if minus then [45] else []) ++ [b]) := by
  refine .of_number ⟨minus, [b], none, none, by simpa using h, by simp, by simp, by simp⟩ ?_ rfl ?_
  · simp [lastState, numberStart, (digit_ne h).2.1]
  · simp [NumberText.text, NumberText.fracText, NumberText.expText]

theorem reached_start {b : UInt8} (h : b = 45 ∨ isDigit b = true) :
    Reached (numberStart b) ((numberStart b).type .valueUnsigned) [b] := by
  obtain rfl | hd := h
  · exact .minus
  · have htype : (numberStart b).type .valueUnsigned = .valueUnsigned := by
      unfold numberStart
      rw [if_neg (digit_ne hd).2.1]
      split <;> rfl
    rw [htype]
    exact reached_digit false hd

theorem reached_minus {b : UInt8} {state : NumberState}
    (h : NumberState.minus.move (some b) = .goto state) :
    Reached state (state.type .valueInteger) [45, b] := by
  have hd : isDigit b = true ∧ state = numberStart b := by
    simp only [NumberState.move, Option.some.injEq, Option.any_some] at h
    split at h
    · next h0 =>
      cases h
      subst h0
      exact ⟨rfl, rfl⟩
    · next h0 =>
      split at h
      · next hd =>
        cases h
        exact ⟨hd, by simp [numberStart, h0, (digit_ne hd).2.1]⟩
      · cases h
  obtain ⟨hd, rfl⟩ := hd
  have htype : (numberStart b).type .valueInteger = .valueInteger := by
    unfold numberStart
    rw [if_neg (digit_ne hd).2.1]
    split <;> rfl
  rw [htype]
  exact reached_digit true hd

/-- A number is continued by a digit, a point or the letter of an exponent. -/
theorem reached_number {n : NumberText} {b : UInt8} {state : NumberState}
    (h : (lastState n).move (some b) = .goto state) :
    Reached state (state.type (typeOf n)) (n.text ++ [b]) := by
  obtain ⟨minus, int, frac, exp, hint, hne, hlead, hfrac⟩ := n
  cases exp with
  | some x =>
    obtain ⟨letter, sign, digits, hletter, hsign, hdigits, hdne⟩ := x
    simp only [lastState, NumberState.move, Option.any_some] at h
    split at h
    · next hd =>
      cases h
      refine .of_number ⟨minus, int, frac, some ⟨letter, sign, digits ++ [b], hletter, hsign,
        mem_snoc hdigits hd, by simp⟩, hint, hne, hlead, hfrac⟩ rfl rfl ?_
      simp [NumberText.text, NumberText.fracText, NumberText.expText, Exponent.text]
    · cases h
  | none =>
    have hletter : ∀ {e : UInt8}, e = 101 ∨ e = 69 → Reached .exponent .valueFloat
        (NumberText.text ⟨minus, int, frac, none, hint, hne, hlead, hfrac⟩ ++ [e]) :=
      fun he => .exponent _ rfl he
    cases frac with
    | some ds =>
      simp only [lastState, NumberState.move, Option.any_some, Option.some.injEq] at h
      split at h
      · next hd =>
        cases h
        refine .of_number ⟨minus, int, some (ds ++ [b]), none, hint, hne, hlead, ?_⟩ rfl rfl ?_
        · intro ds' hds'
          obtain rfl := Option.some.inj hds'
          exact ⟨mem_snoc (hfrac ds rfl).1 hd, by simp⟩
        · simp [NumberText.text, NumberText.fracText, NumberText.expText]
      · split at h
        · next he =>
          cases h
          exact hletter he
        · cases h
    | none =>
      simp only [lastState] at h
      by_cases h0 : int = [48]
      · rw [if_pos h0] at h
        simp only [NumberState.move, Option.some.injEq] at h
        split at h
        · next hpoint =>
          cases h
          subst hpoint
          exact .decimal1 _ rfl rfl
        · split at h
          · next he =>
            cases h
            exact hletter he
          · cases h
      · rw [if_neg h0] at h
        simp only [NumberState.move, Option.any_some, Option.some.injEq] at h
        split at h
        · next hd =>
          cases h
          obtain ⟨d, ds, rfl⟩ := List.exists_cons_of_ne_nil hne
          have hhead : d ≠ 48 := by
            rintro rfl
            exact h0 (hlead rfl)
          refine .of_number ⟨minus, d :: ds ++ [b], none, none, mem_snoc hint hd, by simp,
            by simp [hhead], by simp⟩ ?_ rfl ?_
          · simp [lastState]
          · simp [NumberText.text, NumberText.fracText, NumberText.expText]
        · split at h
          · next hpoint =>
            cases h
            subst hpoint
            exact .decimal1 _ rfl rfl
          · split at h
            · next he =>
              cases h
              exact hletter he
            · cases h

/-- With an exponent of one digit. -/
theorem reached_exp {n : NumberText} (hexp : n.exp = none) {e b : UInt8} (sign : Option UInt8)
    (he : e = 101 ∨ e = 69) (hsign : ∀ c ∈ sign, c = 43 ∨ c = 45) (hd : isDigit b = true) :
    Reached .any2 .valueFloat (n.text ++ e :: (sign.toList ++ [b])) := by
  obtain ⟨minus, int, frac, exp, hint, hne, hlead, hfrac⟩ := n
  obtain rfl : exp = none := hexp
  refine .of_number ⟨minus, int, frac, some ⟨e, sign, [b], he, hsign, by simpa using hd, by simp⟩,
    hint, hne, hlead, hfrac⟩ rfl ?_ ?_
  · simp [typeOf]
  · simp [NumberText.text, NumberText.fracText, NumberText.expText, Exponent.text]

theorem Reached.step {state state' : NumberState} {type : NumberType} {w : Bytes} {b : UInt8}
    (h : Reached state type w) (hmove : state.move (some b) = .goto state') :
    Reached state' (state'.type type) (w ++ [b]) := by
  cases h with
  | minus => exact reached_minus hmove
  | number n => exact reached_number hmove
  | decimal1 n hfrac hexp =>
    simp only [NumberState.move, Option.any_some] at hmove
    split at hmove
    · next hd =>
      cases hmove
      obtain ⟨minus, int, frac, exp, hint, hne, hlead, hfrac'⟩ := n
      obtain rfl : frac = none := hfrac
      obtain rfl : exp = none := hexp
      refine .of_number ⟨minus, int, some [b], none, hint, hne, hlead, ?_⟩ rfl rfl ?_
      · intro ds hds
        obtain rfl := Option.some.inj hds
        exact ⟨by simpa using hd, by simp⟩
      · simp [NumberText.text, NumberText.fracText, NumberText.expText]
    · cases hmove
  | @exponent n hexp e he =>
    simp only [NumberState.move, Option.any_some, Option.some.injEq] at hmove
    split at hmove
    · next hb =>
      cases hmove
      rw [List.append_assoc]
      exact .sign n hexp he hb
    · split at hmove
      · next hd =>
        cases hmove
        rw [List.append_assoc]
        exact reached_exp hexp none he (by simp) hd
      · cases hmove
  | @sign n hexp e c he hc =>
    simp only [NumberState.move, Option.any_some] at hmove
    split at hmove
    · next hd =>
      cases hmove
      rw [List.append_assoc]
      exact reached_exp hexp (some c) he (by simpa using hc) hd
    · cases hmove

theorem Reached.run {state state' : NumberState} {type type' : NumberType} {v w : Bytes}
    (h : Reached state type v) (hrun : run state type w = some (state', type')) :
    Reached state' type' (v ++ w) := by
  induction w generalizing state type v with
  | nil =>
    cases hrun
    rwa [List.append_nil]
  | cons b w ih =>
    rw [Lexer.run] at hrun
    split at hrun
    · next hmove =>
      rw [List.append_cons]
      exact ih (h.step hmove) hrun
    · cases hrun

/-- The scan stops behind whole numbers only. -/
theorem Reached.done {state : NumberState} {type : NumberType} {w : Bytes} {b : Option UInt8}
    (h : Reached state type w) (hdone : state.move b = .done) :
    ∃ n : NumberText, n.text = w ∧ lastState n = state ∧ typeOf n = type := by
  cases h with
  | number n => exact ⟨n, rfl, rfl, rfl⟩
  | minus | decimal1 | exponent | sign =>
    simp only [NumberState.move] at hdone
    split_ifs at hdone

/-- `scan_number` reads a number of the grammar that the next byte does not continue. -/
theorem scanNumber_iff {b : UInt8} {input buffer rest : Bytes} {type : NumberType}
    (hb : b = 45 ∨ isDigit b = true) :
    scanNumberFrom (numberStart b) ((numberStart b).type .valueUnsigned) [b] input =
        .ok (type, buffer, rest) ↔
      ∃ n : NumberText, b :: input = n.text ++ rest ∧ buffer = n.text ∧ type = typeOf n ∧
        ∀ c ∈ rest.head?, n.Stops c := by
  rw [scanNumberFrom_iff]
  constructor
  · rintro ⟨w, last, rfl, rfl, hrun, hdone⟩
    obtain ⟨n, hn, rfl, rfl⟩ := ((reached_start hb).run hrun).done hdone
    refine ⟨n, ?_, hn.symm, rfl, (stops_head_iff n rest).mpr hdone⟩
    rw [hn]
    rfl
  · rintro ⟨n, hinput, rfl, rfl, hstops⟩
    obtain ⟨b', w, hw, -, hrun⟩ := run_text n
    rw [hw] at hinput
    obtain ⟨rfl, rfl⟩ := List.cons.inj hinput
    exact ⟨w, lastState n, rfl, hw, hrun, (stops_head_iff n rest).mp hstops⟩

section Tokens

variable {φ : Type} (strtod : Bytes → Option φ)

/-- An integer that fits in 64 bits is exact, unsigned if it has no minus sign; everything
else is left to `std::strtod`. -/
def tokenOf (n : NumberText) : Token φ :=
  if n.frac.isSome ∨ n.exp.isSome then .valueFloat (strtod n.text)
  else if n.minus then
    if digitsValue n.int ≤ 2 ^ 63 then .valueInteger (-digitsValue n.int)
    else .valueFloat (strtod n.text)
  else if digitsValue n.int < 2 ^ 64 then .valueUnsigned (digitsValue n.int)
  else .valueFloat (strtod n.text)

theorem readNumeral_int (n : NumberText) (hfrac : n.frac = none) (hexp : n.exp = none) :
    readNumeral n.text = some ⟨n.minus, digitsValue n.int, n.text.length⟩ := by
  have hread := readNumeral_text ⟨[], if n.minus then some true else none, n.int, by simp,
    n.int_digits, n.int_ne_nil⟩
  unfold Spelling.text Spelling.negative Spelling.magnitude at hread
  unfold NumberText.text NumberText.fracText NumberText.expText
  rw [hfrac, hexp]
  cases hminus : n.minus with
  | true => simpa [hminus, Spelling.signText] using hread
  | false => simpa [hminus, Spelling.signText] using hread

theorem numberToken_eq (n : NumberText) :
    numberToken strtod (typeOf n) n.text = tokenOf strtod n := by
  unfold typeOf tokenOf
  by_cases hfloat : n.frac.isSome ∨ n.exp.isSome
  · rw [if_pos (by simpa using hfloat), if_pos hfloat]
    rfl
  · have hnone : n.frac = none ∧ n.exp = none := by simpa using hfloat
    have hread := readNumeral_int n hnone.1 hnone.2
    rw [if_neg (by simpa using hfloat), if_neg hfloat]
    cases hminus : n.minus with
    | true =>
      rw [hminus] at hread
      have hvalue : strtoll n.text =
          if digitsValue n.int ≤ 2 ^ 63 then some (-digitsValue n.int : Int) else none := by
        unfold strtoll
        rw [hread]
        show (if -2 ^ 63 ≤ (-digitsValue n.int : Int) ∧ (-digitsValue n.int : Int) < 2 ^ 63 then
          some (-digitsValue n.int : Int) else none) = _
        exact if_congr (by omega) rfl rfl
      unfold numberToken
      simp only [↓reduceIte, hvalue]
      by_cases hle : digitsValue n.int ≤ 2 ^ 63
      · rw [if_pos hle, if_pos hle]
      · rw [if_neg hle, if_neg hle]
    | false =>
      have hvalue : strtoull n.text =
          if digitsValue n.int < 2 ^ 64 then some (digitsValue n.int) else none := by
        unfold strtoull
        rw [hread]
        rfl
      unfold numberToken
      simp only [Bool.false_eq_true, ↓reduceIte, hvalue]
      by_cases hlt : digitsValue n.int < 2 ^ 64
      · rw [if_pos hlt, if_pos hlt]
      · rw [if_neg hlt, if_neg hlt]

end Tokens

end JudgeServer.Protocol.Lexer
