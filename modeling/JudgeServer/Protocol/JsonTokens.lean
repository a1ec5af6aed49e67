import JudgeServer.Protocol.JsonWords
import JudgeServer.Protocol.JsonNumbers

/-!
# The text behind the tokens

`Lexes` splits a text into words with white space in front of each, up to the end of the
text or to a zero byte, which the lexer takes for the end. A number is as long as it can
be. The lexer finds this splitting if there is one, and otherwise it ends with an error.
-/

namespace JudgeServer.Protocol.Lexer

open JudgeServer.Lib.Decimal
open JudgeServer.Lib.JsonText

section

variable {φ : Type} (strtod : Bytes → Option φ)

/-- The words that are always the same. -/
def fixedWords : List (Bytes × Token φ) :=
  [([91], .beginArray), ([93], .endArray), ([123], .beginObject), ([125], .endObject),
    ([58], .nameSeparator), ([44], .valueSeparator), (ascii "true", .literalTrue),
    (ascii "false", .literalFalse), (ascii "null", .literalNull)]

/-- A word in front of the rest of the text, and the token it is. -/
inductive Word : Bytes → Token φ → Bytes → Prop
  | fixed {w : Bytes} {t : Token φ} {rest : Bytes} (h : (w, t) ∈ fixedWords) : Word w t rest
  | string {s rest : Bytes} {cs : List Char} (h : StringBody s cs) :
      Word (34 :: (s ++ [34])) (.valueString (encoded cs)) rest
  | number {rest : Bytes} (n : NumberText) (h : ∀ b ∈ rest.head?, n.Stops b) :
      Word n.text (tokenOf strtod n) rest

inductive Lexes : Bytes → List (Token φ) → Prop
  | done {ws rest : Bytes} (hws : ∀ b ∈ ws, isWhitespace b = true)
      (h : ∀ b ∈ rest.head?, b = 0) : Lexes (ws ++ rest) []
  | word {ws w rest : Bytes} {t : Token φ} {ts : List (Token φ)}
      (hws : ∀ b ∈ ws, isWhitespace b = true) (h : Word strtod w t rest) (hrest : Lexes rest ts) :
      Lexes (ws ++ (w ++ rest)) (t :: ts)

variable {strtod}

theorem ascii_literals : ascii "true" = [116, 114, 117, 101] ∧
    ascii "false" = [102, 97, 108, 115, 101] ∧ ascii "null" = [110, 117, 108, 108] := by
  decide

theorem scanLiteral_fixed (w rest : Bytes) (t : Token φ) :
    scanLiteral w t (w ++ rest) = (t, rest) := by
  unfold scanLiteral
  rw [if_pos (by simp), List.drop_left]

theorem scanLiteral_cases {w input rest : Bytes} {t t' : Token φ}
    (h : scanLiteral w t input = (t', rest)) :
    (t' = t ∧ input = w ++ rest) ∨ ∃ e, t' = .parseError e := by
  unfold scanLiteral at h
  split at h
  · next hw =>
    obtain ⟨rest', rfl⟩ := List.isPrefixOf_iff_prefix.mp hw
    rw [List.drop_left] at h
    obtain ⟨rfl, rfl⟩ := Prod.mk.inj h
    exact Or.inl ⟨rfl, rfl⟩
  · obtain ⟨rfl, -⟩ := Prod.mk.inj h
    exact Or.inr ⟨_, rfl⟩

theorem scanNumber_cases {b : UInt8} {input rest : Bytes} {t : Token φ}
    (hb : b = 45 ∨ isDigit b = true) (h : scanNumber strtod b input = (t, rest)) :
    (∃ n : NumberText, b :: input = n.text ++ rest ∧ t = tokenOf strtod n ∧
      ∀ c ∈ rest.head?, n.Stops c) ∨ ∃ e, t = .parseError e := by
  unfold scanNumber at h
  dsimp only at h
  split at h
  · obtain ⟨rfl, -⟩ := Prod.mk.inj h
    exact Or.inr ⟨_, rfl⟩
  · next type buffer rest' hok =>
    obtain ⟨rfl, rfl⟩ := Prod.mk.inj h
    obtain ⟨n, hn, rfl, rfl, hstops⟩ := (scanNumber_iff hb).mp hok
    exact Or.inl ⟨n, hn, numberToken_eq strtod n, hstops⟩

/-- The switch of `scan` reads a word, meets the end, or reports an error. -/
theorem scanToken_cases {input rest : Bytes} {t : Token φ}
    (h : scanToken strtod input = (t, rest)) :
    (∃ w, input = w ++ rest ∧ Word strtod w t rest) ∨
      (t = .endOfInput ∧ ∀ b ∈ input.head?, b = 0) ∨ ∃ e, t = .parseError e := by
  have hfixed : ∀ {w : Bytes} {t' : Token φ} {after : Bytes}, (w, t') ∈ fixedWords →
      (t', after) = (t, rest) → ∃ w', w ++ after = w' ++ rest ∧ Word strtod w' t rest := by
    intro w t' after hmem heq
    obtain ⟨rfl, rfl⟩ := Prod.mk.inj heq
    exact ⟨w, rfl, .fixed hmem⟩
  have hliteral : ∀ {w : Bytes} {t' : Token φ} {text : Bytes}, (w, t') ∈ fixedWords →
      scanLiteral w t' text = (t, rest) →
      (∃ w', text = w' ++ rest ∧ Word strtod w' t rest) ∨
        (t = .endOfInput ∧ ∀ b ∈ text.head?, b = 0) ∨ ∃ e, t = .parseError e := by
    intro w t' text hmem hscan
    obtain ⟨rfl, rfl⟩ | herr := scanLiteral_cases hscan
    · exact Or.inl ⟨w, rfl, .fixed hmem⟩
    · exact Or.inr (Or.inr herr)
  cases input with
  | nil =>
    obtain ⟨rfl, -⟩ := Prod.mk.inj h
    exact Or.inr (Or.inl ⟨rfl, by simp⟩)
  | cons b input =>
    rw [scanToken] at h
    by_cases h91 : b = 91
    · rw [if_pos h91] at h
      exact Or.inl (hfixed (w := [b]) (by simp [fixedWords, h91]) h)
    rw [if_neg h91] at h
    by_cases h93 : b = 93
    · rw [if_pos h93] at h
      exact Or.inl (hfixed (w := [b]) (by simp [fixedWords, h93]) h)
    rw [if_neg h93] at h
    by_cases h123 : b = 123
    · rw [if_pos h123] at h
      exact Or.inl (hfixed (w := [b]) (by simp [fixedWords, h123]) h)
    rw [if_neg h123] at h
    by_cases h125 : b = 125
    · rw [if_pos h125] at h
      exact Or.inl (hfixed (w := [b]) (by simp [fixedWords, h125]) h)
    rw [if_neg h125] at h
    by_cases h58 : b = 58
    · rw [if_pos h58] at h
      exact Or.inl (hfixed (w := [b]) (by simp [fixedWords, h58]) h)
    rw [if_neg h58] at h
    by_cases h44 : b = 44
    · rw [if_pos h44] at h
      exact Or.inl (hfixed (w := [b]) (by simp [fixedWords, h44]) h)
    rw [if_neg h44] at h
    by_cases h116 : b = 116
    · rw [if_pos h116] at h
      exact hliteral (by simp [fixedWords]) h
    rw [if_neg h116] at h
    by_cases h102 : b = 102
    · rw [if_pos h102] at h
      exact hliteral (by simp [fixedWords]) h
    rw [if_neg h102] at h
    by_cases h110 : b = 110
    · rw [if_pos h110] at h
      exact hliteral (by simp [fixedWords]) h
    rw [if_neg h110] at h
    by_cases h34 : b = 34
    · rw [if_pos h34] at h
      split at h
      · obtain ⟨rfl, -⟩ := Prod.mk.inj h
        exact Or.inr (Or.inr ⟨_, rfl⟩)
      · next value rest' hok =>
        obtain ⟨rfl, rfl⟩ := Prod.mk.inj h
        obtain ⟨s, cs, rfl, hbody, rfl⟩ := (scanString_iff (Nat.lt_succ_self _)).mp hok
        refine Or.inl ⟨34 :: (s ++ [34]), ?_, .string hbody⟩
        rw [h34]
        simp
    rw [if_neg h34] at h
    by_cases hnumber : b = 45 ∨ isDigit b = true
    · rw [if_pos hnumber] at h
      obtain ⟨n, hn, rfl, hstops⟩ | herr := scanNumber_cases hnumber h
      · exact Or.inl ⟨n.text, hn, .number n hstops⟩
      · exact Or.inr (Or.inr herr)
    rw [if_neg hnumber] at h
    by_cases h0 : b = 0
    · rw [if_pos h0] at h
      obtain ⟨rfl, -⟩ := Prod.mk.inj h
      refine Or.inr (Or.inl ⟨rfl, ?_⟩)
      simpa using h0
    rw [if_neg h0] at h
    obtain ⟨rfl, -⟩ := Prod.mk.inj h
    exact Or.inr (Or.inr ⟨_, rfl⟩)

/-- No word starts with white space or a zero byte. -/
theorem Word.head {w rest : Bytes} {t : Token φ} (h : Word strtod w t rest) :
    ∃ b w', w = b :: w' ∧ isWhitespace b = false ∧ b ≠ 0 := by
  cases h with
  | fixed h =>
    have hall : ∀ p ∈ (fixedWords : List (Bytes × Token φ)),
        ∃ b w', p.1 = b :: w' ∧ isWhitespace b = false ∧ b ≠ 0 := by
      simp [fixedWords, ascii_literals]
      decide
    exact hall _ h
  | string h => exact ⟨34, _, rfl, by decide, by decide⟩
  | number n h =>
    obtain ⟨b, w, hw, hb, -⟩ := run_text n
    refine ⟨b, w, hw, ?_⟩
    obtain rfl | hb := hb
    · exact ⟨by decide, by decide⟩
    · simp only [isDigit, Bool.and_eq_true, decide_eq_true_eq] at hb
      constructor
      · cases hs : isWhitespace b with
        | false => rfl
        | true =>
          simp only [isWhitespace, Bool.or_eq_true, decide_eq_true_eq] at hs
          obtain ((rfl | rfl) | rfl) | rfl := hs <;> exact absurd hb (by decide)
      · rintro rfl
        exact absurd hb (by decide)

theorem Word.ne_end {w rest : Bytes} {t : Token φ} (h : Word strtod w t rest) :
    t ≠ .endOfInput ∧ ∀ e, t ≠ .parseError e := by
  cases h with
  | fixed h =>
    have hall : ∀ p ∈ (fixedWords : List (Bytes × Token φ)),
        p.2 ≠ .endOfInput ∧ ∀ e, p.2 ≠ .parseError e := by
      simp [fixedWords]
    exact hall _ h
  | string h => exact ⟨by simp, by simp⟩
  | number n h =>
    unfold tokenOf
    split_ifs <;> simp

theorem scanToken_word {w rest : Bytes} {t : Token φ} (h : Word strtod w t rest) :
    scanToken strtod (w ++ rest) = (t, rest) := by
  cases h with
  | fixed h =>
    simp only [fixedWords, List.mem_cons, List.not_mem_nil, or_false, Prod.mk.injEq] at h
    obtain ⟨rfl, rfl⟩ | ⟨rfl, rfl⟩ | ⟨rfl, rfl⟩ | ⟨rfl, rfl⟩ | ⟨rfl, rfl⟩ | ⟨rfl, rfl⟩ |
      ⟨rfl, rfl⟩ | ⟨rfl, rfl⟩ | ⟨rfl, rfl⟩ := h
    · rfl
    · rfl
    · rfl
    · rfl
    · rfl
    · rfl
    · exact scanLiteral_fixed (ascii "true") rest _
    · exact scanLiteral_fixed (ascii "false") rest _
    · exact scanLiteral_fixed (ascii "null") rest _
  | @string s _ cs h =>
    have htext : 34 :: (s ++ [34]) ++ rest = 34 :: (s ++ 34 :: rest) := by simp
    have hscan : scanString ((s ++ 34 :: rest).length + 1) [] (s ++ 34 :: rest) =
        .ok (encoded cs, rest) := (scanString_iff (Nat.lt_succ_self _)).mpr ⟨s, cs, rfl, h, rfl⟩
    rw [htext, scanToken, if_neg (by decide), if_neg (by decide), if_neg (by decide),
      if_neg (by decide), if_neg (by decide), if_neg (by decide), if_neg (by decide),
      if_neg (by decide), if_neg (by decide), if_pos rfl, hscan]
  | number n h =>
    obtain ⟨b, w, hw, hb, -⟩ := run_text n
    have hscan := (scanNumber_iff hb).mpr
      ⟨n, show b :: (w ++ rest) = n.text ++ rest by rw [hw]; rfl, rfl, rfl, h⟩
    have hswitch : scanToken strtod (b :: (w ++ rest)) = scanNumber strtod b (w ++ rest) := by
      have hne : ∀ c : UInt8, c ≠ 45 → isDigit c = false → b ≠ c := by
        rintro c h45 hc rfl
        obtain rfl | hb := hb
        · exact h45 rfl
        · rw [hc] at hb
          cases hb
      rw [scanToken, if_neg (hne 91 (by decide) rfl), if_neg (hne 93 (by decide) rfl),
        if_neg (hne 123 (by decide) rfl), if_neg (hne 125 (by decide) rfl),
        if_neg (hne 58 (by decide) rfl), if_neg (hne 44 (by decide) rfl),
        if_neg (hne 116 (by decide) rfl), if_neg (hne 102 (by decide) rfl),
        if_neg (hne 110 (by decide) rfl), if_neg (hne 34 (by decide) rfl), if_pos hb]
    rw [hw, List.cons_append, hswitch]
    unfold scanNumber
    dsimp only
    rw [hscan]
    exact congrArg (·, rest) (numberToken_eq strtod n)

theorem skipWhitespace_append {ws rest : Bytes} (hws : ∀ b ∈ ws, isWhitespace b = true)
    (h : ∀ b ∈ rest.head?, isWhitespace b = false) : skipWhitespace (ws ++ rest) = rest := by
  unfold skipWhitespace
  rw [List.dropWhile_append_of_pos hws]
  cases rest with
  | nil => rfl
  | cons b rest => rw [List.dropWhile_cons_of_neg (by simp [h b rfl])]

theorem exists_whitespace (input : Bytes) :
    ∃ ws, (∀ b ∈ ws, isWhitespace b = true) ∧ input = ws ++ skipWhitespace input :=
  ⟨input.takeWhile isWhitespace, fun _ hb => List.mem_takeWhile_imp hb,
    List.takeWhile_append_dropWhile.symm⟩

theorem scan_word {ws w rest : Bytes} {t : Token φ} (hws : ∀ b ∈ ws, isWhitespace b = true)
    (h : Word strtod w t rest) : scan strtod (ws ++ (w ++ rest)) = (t, rest) := by
  obtain ⟨b, w', hw, hb, -⟩ := h.head
  unfold scan
  rw [skipWhitespace_append hws (by rw [hw]; simpa using hb)]
  exact scanToken_word h

theorem scan_end {ws rest : Bytes} (hws : ∀ b ∈ ws, isWhitespace b = true)
    (h : ∀ b ∈ rest.head?, b = 0) : (scan strtod (ws ++ rest)).1 = .endOfInput := by
  have hhead : ∀ b ∈ rest.head?, isWhitespace b = false := by
    intro b hb
    rw [h b hb]
    rfl
  unfold scan
  rw [skipWhitespace_append hws hhead]
  cases rest with
  | nil => rfl
  | cons b rest =>
    obtain rfl := h b rfl
    rfl

theorem tokensFrom_end {fuel : Nat} {input rest : Bytes}
    (h : scan strtod input = (.endOfInput, rest)) : tokensFrom strtod (fuel + 1) input = [] := by
  rw [tokensFrom, h]

theorem tokensFrom_error {fuel : Nat} {input rest : Bytes} {e : ScanError}
    (h : scan strtod input = (.parseError e, rest)) :
    tokensFrom strtod (fuel + 1) input = [.parseError e] := by
  rw [tokensFrom, h]

theorem tokensFrom_word {fuel : Nat} {input rest : Bytes} {t : Token φ}
    (h : scan strtod input = (t, rest)) (hend : t ≠ .endOfInput) (herr : ∀ e, t ≠ .parseError e) :
    tokensFrom strtod (fuel + 1) input = t :: tokensFrom strtod fuel rest := by
  rw [tokensFrom, h]
  split
  · next heq => exact absurd (Prod.mk.inj heq).1 hend
  · next heq => exact absurd (Prod.mk.inj heq).1 (herr _)
  · next heq =>
    obtain ⟨rfl, rfl⟩ := Prod.mk.inj heq
    rfl

theorem tokensFrom_of_lexes {input : Bytes} {ts : List (Token φ)} (h : Lexes strtod input ts) :
    ∀ {fuel : Nat}, input.length < fuel → tokensFrom strtod fuel input = ts := by
  induction h with
  | @done ws rest hws hrest =>
    intro fuel hfuel
    obtain ⟨fuel, rfl⟩ := Nat.exists_eq_succ_of_ne_zero (Nat.ne_zero_of_lt hfuel)
    have hscan := @scan_end φ strtod _ _ hws hrest
    exact tokensFrom_end (Prod.ext hscan rfl)
  | @word ws w rest t ts hws hw _ ih =>
    intro fuel hfuel
    obtain ⟨fuel, rfl⟩ := Nat.exists_eq_succ_of_ne_zero (Nat.ne_zero_of_lt hfuel)
    have hrest : rest.length < fuel := by
      obtain ⟨b, w', rfl, -, -⟩ := hw.head
      simp only [List.length_append, List.length_cons] at hfuel
      omega
    rw [tokensFrom_word (scan_word hws hw) hw.ne_end.1 hw.ne_end.2, ih hrest]

theorem lexes_tokensFrom {fuel : Nat} {input : Bytes} (hfuel : input.length < fuel)
    (hok : ∀ e, .parseError e ∉ tokensFrom strtod fuel input) :
    Lexes strtod input (tokensFrom strtod fuel input) := by
  induction fuel generalizing input with
  | zero => omega
  | succ fuel ih =>
    obtain ⟨ws, hws, hinput⟩ := exists_whitespace input
    obtain ⟨⟨t, rest⟩, hscan⟩ : ∃ x, scan strtod input = x := ⟨_, rfl⟩
    obtain ⟨w, hw, hword⟩ | ⟨rfl, hend⟩ | ⟨e, rfl⟩ := scanToken_cases hscan
    · have htokens := @tokensFrom_word φ strtod fuel _ _ _ hscan hword.ne_end.1 hword.ne_end.2
      rw [htokens] at hok ⊢
      rw [hw] at hinput
      have hlen : rest.length < fuel := by
        obtain ⟨b, w', rfl, -, -⟩ := hword.head
        rw [hinput] at hfuel
        simp only [List.length_append, List.length_cons] at hfuel
        omega
      have hrest := ih hlen fun e he => hok e (List.mem_cons_of_mem _ he)
      rw [hinput]
      exact .word hws hword hrest
    · rw [tokensFrom_end hscan, hinput]
      exact .done hws hend
    · rw [tokensFrom_error hscan] at hok
      exact absurd List.mem_cons_self (hok e)

/-- The byte order mark. -/
def bom : Bytes := [0xEF, 0xBB, 0xBF]

theorem skipBom_bom (body : Bytes) : skipBom (bom ++ body) = some body := rfl

theorem skipBom_cases {input body : Bytes} (h : skipBom input = some body) :
    input = bom ++ body ∨ input = body := by
  unfold skipBom at h
  split at h
  · split at h
    · obtain rfl := Option.some.inj h
      exact Or.inl rfl
    · cases h
  · exact Or.inr (Option.some.inj h)

/-- A text that is split into words does not start with a byte order mark. -/
theorem Lexes.skipBom {input : Bytes} {ts : List (Token φ)} (h : Lexes strtod input ts) :
    skipBom input = some input := by
  have hhead : input.head? ≠ some 0xEF := by
    intro hbyte
    have hnot : ∀ ws rest : Bytes, (∀ b ∈ ws, isWhitespace b = true) →
        rest.head? ≠ some 0xEF → (ws ++ rest).head? ≠ some 0xEF := by
      intro ws rest hws hrest
      cases ws with
      | nil => exact hrest
      | cons b ws =>
        intro heq
        obtain rfl := Option.some.inj heq
        exact absurd (hws 0xEF List.mem_cons_self) (by decide)
    cases h with
    | done hws hrest =>
      refine hnot _ _ hws (fun heq => ?_) hbyte
      exact absurd (hrest _ heq) (by decide)
    | @word ws w rest t ts hws hw _ =>
      refine hnot _ _ hws (fun heq => ?_) hbyte
      cases hw with
      | fixed hmem =>
        have hall : ∀ p ∈ (fixedWords : List (Bytes × Token φ)),
            p.1 ≠ [] ∧ p.1.head? ≠ some 0xEF := by
          simp [fixedWords, ascii_literals]
        obtain ⟨hne, hfirst⟩ := hall _ hmem
        rw [List.head?_append_of_ne_nil _ hne] at heq
        exact hfirst heq
      | string _ => cases heq
      | number n _ =>
        obtain ⟨b, w', hw, hb, -⟩ := run_text n
        rw [hw] at heq
        obtain rfl := Option.some.inj heq
        obtain hb | hb := hb
        · cases hb
        · cases hb
  unfold Lexer.skipBom
  split
  · exact absurd rfl hhead
  · rfl

/-- The tokens without an error are those of the text, a byte order mark in front of it
left out. -/
theorem tokens_iff {input : Bytes} {ts : List (Token φ)} (hok : ∀ e, .parseError e ∉ ts) :
    tokens strtod input = ts ↔
      ∃ body, (input = body ∨ input = bom ++ body) ∧ Lexes strtod body ts := by
  constructor
  · intro h
    unfold tokens at h
    split at h
    · subst h
      exact absurd List.mem_cons_self (hok _)
    · next body hbom =>
      subst h
      exact ⟨body, (skipBom_cases hbom).symm, lexes_tokensFrom (Nat.lt_succ_self _) hok⟩
  · rintro ⟨body, hinput, hlexes⟩
    have hbom : Lexer.skipBom input = some body := by
      obtain rfl | rfl := hinput
      · exact hlexes.skipBom
      · exact skipBom_bom body
    unfold tokens
    rw [hbom]
    exact tokensFrom_of_lexes hlexes (Nat.lt_succ_self _)

end

end JudgeServer.Protocol.Lexer
