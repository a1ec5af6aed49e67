import JudgeServer.Protocol.JsonGrammar
import JudgeServer.Protocol.JsonTokens

/-!
# The texts `json::parse` accepts

A payload is accepted exactly if it is a JSON text, a byte order mark in front and
anything behind a zero byte left out. What is accepted is storable: its strings are UTF-8,
its integers fit in 64 bits, and the keys of an object are in order and differ.
-/

namespace JudgeServer.Protocol.Parser

open JudgeServer.Lib.Utf8
open JudgeServer.Lib.Decimal
open JudgeServer.Lib.JsonText
open JudgeServer.Protocol.Lexer

variable {φ : Type} {strtod : Bytes → Option φ}

/-- A payload with the value it is a text of. -/
def JsonText (strtod : Bytes → Option φ) (payload : Bytes) (value : Json φ) : Prop :=
  ∃ body ts, (payload = body ∨ payload = bom ++ body) ∧ Lexes strtod body ts ∧ Value ts value

def NoError (ts : List (Token φ)) : Prop := ∀ e, .parseError e ∉ ts

theorem noError_append {ts us : List (Token φ)} (h : NoError ts) (h' : NoError us) :
    NoError (ts ++ us) := by
  intro e he
  obtain he | he := List.mem_append.mp he
  · exact h e he
  · exact h' e he

theorem noError_cons {t : Token φ} {ts : List (Token φ)} (ht : ∀ e, t ≠ .parseError e)
    (h : NoError ts) : NoError (t :: ts) := by
  intro e he
  obtain he | he := List.mem_cons.mp he
  · exact ht e he.symm
  · exact h e he

theorem Value.noError {ts : List (Token φ)} {value : Json φ} (h : Value ts value) : NoError ts := by
  have hnil : NoError ([] : List (Token φ)) := fun e he => by cases he
  have hone : ∀ {t : Token φ}, (∀ e, t ≠ .parseError e) → NoError [t] :=
    fun ht => noError_cons ht hnil
  exact @Value.rec φ (fun ts _ _ => NoError ts) (fun ts _ _ => NoError ts)
    (fun ts _ _ => NoError ts) (hone (by simp)) (hone (by simp)) (hone (by simp))
    (fun _ => hone (by simp)) (fun _ => hone (by simp)) (fun _ => hone (by simp))
    (fun _ => hone (by simp)) (noError_cons (by simp) (hone (by simp)))
    (fun _ h => noError_cons (by simp) (noError_append h (hone (by simp))))
    (noError_cons (by simp) (hone (by simp)))
    (fun _ h => noError_cons (by simp) (noError_append h (hone (by simp))))
    (fun _ h => h)
    (fun _ _ h hrest => noError_append h (noError_cons (by simp) hrest))
    (fun _ _ h => noError_cons (by simp) (noError_cons (by simp) h))
    (fun _ _ _ h hrest => noError_cons (by simp) (noError_cons (by simp)
      (noError_append h (noError_cons (by simp) hrest)))) ts value h

theorem text_of_parse {payload : Bytes} {value : Json φ} (h : parse strtod payload = .ok value) :
    JsonText strtod payload value := by
  unfold parse at h
  split at h
  · cases h
  · next value' hvalue =>
    obtain rfl := Except.ok.inj h
    obtain ⟨us, hus, hderived⟩ := parseValue_iff.mp hvalue
    rw [List.append_nil] at hus
    obtain ⟨body, hbody, hlexes⟩ := (tokens_iff hderived.noError).mp hus
    exact ⟨body, us, hbody, hlexes, hderived⟩
  · cases h

theorem parse_of_text {payload : Bytes} {value : Json φ} (h : JsonText strtod payload value) :
    parse strtod payload = .ok value := by
  obtain ⟨body, ts, hbody, hlexes, hderived⟩ := h
  have htokens := (tokens_iff hderived.noError).mpr ⟨body, hbody, hlexes⟩
  have hvalue : parseValue [] ts = .ok (value, []) :=
    parseValue_iff.mpr ⟨ts, (List.append_nil _).symm, hderived⟩
  unfold parse
  rw [htokens, hvalue]

/-- The parser accepts the JSON texts and no others, and hands on their values. -/
theorem parse_accepts_iff (strtod : Bytes → Option φ) (payload : Bytes) (value : Json φ) :
    parse strtod payload = .ok value ↔ JsonText strtod payload value :=
  ⟨text_of_parse, parse_of_text⟩

/-- A number ends before a zero byte. -/
theorem stops_zero (n : NumberText) : n.Stops 0 := by
  unfold NumberText.Stops
  split
  · rfl
  · exact ⟨rfl, by decide, by decide⟩
  · exact ⟨by decide, by decide, by decide, fun _ => rfl⟩

theorem lexes_append_zero {input : Bytes} {ts : List (Token φ)} (h : Lexes strtod input ts)
    (behind : Bytes) : Lexes strtod (input ++ 0 :: behind) ts := by
  induction h with
  | @done ws rest hws hrest =>
    rw [List.append_assoc]
    refine .done hws ?_
    cases rest with
    | nil => simp
    | cons b rest => simpa using hrest
  | @word ws w rest t ts hws hw _ ih =>
    have hword : Word strtod w t (rest ++ 0 :: behind) := by
      cases hw with
      | fixed h => exact .fixed h
      | string h => exact .string h
      | number n h =>
        refine .number n ?_
        cases rest with
        | nil => simpa using stops_zero n
        | cons b rest => simpa using h
    rw [List.append_assoc, List.append_assoc]
    exact .word hws hword ih

/-- Whatever stands behind a zero byte is not looked at. -/
theorem parse_append_zero (strtod : Bytes → Option φ) (payload behind : Bytes) (value : Json φ)
    (h : parse strtod payload = .ok value) :
    parse strtod (payload ++ 0 :: behind) = .ok value := by
  obtain ⟨body, ts, hbody, hlexes, hderived⟩ := text_of_parse h
  refine parse_of_text ⟨body ++ 0 :: behind, ts, ?_, lexes_append_zero hlexes behind, hderived⟩
  obtain rfl | rfl := hbody
  · exact Or.inl rfl
  · exact Or.inr (List.append_assoc _ _ _)

theorem parse_append_zero_sample :
    parse (fun _ => (none : Option Rat)) (ascii "[]" ++ 0 :: ascii "]") = .ok (.array []) :=
  parse_append_zero _ _ _ _ rfl

/-- The keys of a `std::map`, in order. -/
def SortedKeys (fields : List (Bytes × Json φ)) : Prop := fields.Pairwise fun f g => f.1 < g.1

theorem sortedKeys_of_keys {fields : List (Bytes × Json φ)}
    (h : (fields.map Prod.fst).Pairwise fun a b => a < b) : SortedKeys fields :=
  List.pairwise_map.mp h

mutual

/-- The values `basic_json` can hold whose strings are UTF-8. -/
def Storable : Json φ → Prop
  | .numberInteger value => -2 ^ 63 ≤ value ∧ value < 2 ^ 63
  | .numberUnsigned value => value < 2 ^ 64
  | .string value => ValidUtf8 value
  | .array elements => StorableElements elements
  | .object fields => SortedKeys fields ∧ StorableFields fields
  | _ => True

def StorableElements : List (Json φ) → Prop
  | [] => True
  | x :: rest => Storable x ∧ StorableElements rest

def StorableFields : List (Bytes × Json φ) → Prop
  | [] => True
  | f :: rest => ValidUtf8 f.1 ∧ Storable f.2 ∧ StorableFields rest

end

theorem mem_assign {key : Bytes} {value : Json φ} {fields : List (Bytes × Json φ)}
    {f : Bytes × Json φ} (h : f ∈ assign key value fields) : f = (key, value) ∨ f ∈ fields := by
  induction fields with
  | nil => exact Or.inl (List.mem_singleton.mp h)
  | cons g fields ih =>
    unfold assign at h
    split_ifs at h
    · exact List.mem_cons.mp h
    · obtain rfl | h := List.mem_cons.mp h
      · exact Or.inl rfl
      · exact Or.inr (List.mem_cons_of_mem g h)
    · obtain rfl | h := List.mem_cons.mp h
      · exact Or.inr List.mem_cons_self
      · exact (ih h).imp id (List.mem_cons_of_mem g)

theorem assign_sorted {key : Bytes} {value : Json φ} {fields : List (Bytes × Json φ)}
    (h : SortedKeys fields) : SortedKeys (assign key value fields) := by
  induction fields with
  | nil => exact List.pairwise_singleton _ _
  | cons g fields ih =>
    obtain ⟨hg, hfields⟩ := List.pairwise_cons.mp h
    unfold assign
    split_ifs with hlt heq
    · refine List.pairwise_cons.mpr ⟨fun f hf => ?_, h⟩
      obtain rfl | hf := List.mem_cons.mp hf
      · exact hlt
      · exact List.lt_trans hlt (hg f hf)
    · exact List.pairwise_cons.mpr ⟨fun f hf => heq ▸ hg f hf, hfields⟩
    · refine List.pairwise_cons.mpr ⟨fun f hf => ?_, ih hfields⟩
      obtain rfl | hf := mem_assign hf
      · exact Std.lt_of_le_of_ne hlt (Ne.symm heq)
      · exact hg f hf

theorem mem_assign_iff {key : Bytes} {value : Json φ} {fields : List (Bytes × Json φ)}
    (h : SortedKeys fields) {f : Bytes × Json φ} :
    f ∈ assign key value fields ↔ f = (key, value) ∨ f ∈ fields ∧ f.1 ≠ key := by
  induction fields with
  | nil => simp [assign]
  | cons g fields ih =>
    obtain ⟨hg, hfields⟩ := List.pairwise_cons.mp h
    have hlater : ∀ f ∈ fields, f.1 ≠ g.1 := by
      intro f hf heq
      have hlt := hg f hf
      rw [heq] at hlt
      exact List.lt_irrefl _ hlt
    unfold assign
    split_ifs with hlt heq
    · have hne : ∀ f ∈ g :: fields, f.1 ≠ key := by
        rintro f hf rfl
        obtain rfl | hf := List.mem_cons.mp hf
        · exact List.lt_irrefl _ hlt
        · exact List.lt_irrefl _ (List.lt_trans hlt (hg f hf))
      rw [List.mem_cons]
      exact or_congr_right ⟨fun hf => ⟨hf, hne f hf⟩, And.left⟩
    · rw [List.mem_cons, List.mem_cons]
      refine or_congr_right ⟨fun hf => ⟨.inr hf, heq ▸ hlater f hf⟩, ?_⟩
      rintro ⟨rfl | hf, hne⟩
      · exact absurd heq.symm hne
      · exact hf
    · rw [List.mem_cons, List.mem_cons, ih hfields]
      constructor
      · rintro (rfl | hf | hf)
        · exact .inr ⟨.inl rfl, Ne.symm heq⟩
        · exact .inl hf
        · exact .inr ⟨.inr hf.1, hf.2⟩
      · rintro (hf | ⟨hf | hf, hne⟩)
        · exact .inr (.inl hf)
        · exact .inl hf
        · exact .inr (.inr ⟨hf, hne⟩)

/-- The keys of an object are in order, whatever the order of its members. -/
theorem sortedKeys_ofMembers (members : List (Bytes × Json φ)) {fields : List (Bytes × Json φ)}
    (h : SortedKeys fields) : SortedKeys (ofMembers members fields) := by
  induction members generalizing fields with
  | nil => exact h
  | cons m members ih => exact ih (assign_sorted h)

theorem mem_ofMembers_from {members fields : List (Bytes × Json φ)} (h : SortedKeys fields)
    {f : Bytes × Json φ} : f ∈ ofMembers members fields ↔
      (∃ before after, members = before ++ f :: after ∧ ∀ m ∈ after, m.1 ≠ f.1) ∨
        f ∈ fields ∧ ∀ m ∈ members, m.1 ≠ f.1 := by
  induction members generalizing fields with
  | nil => simp [ofMembers]
  | cons m members ih =>
    change f ∈ ofMembers members (assign m.1 m.2 fields) ↔ _
    rw [ih (assign_sorted h), mem_assign_iff h]
    constructor
    · rintro (⟨before, after, rfl, hafter⟩ | ⟨rfl | hf, hmembers⟩)
      · exact .inl ⟨m :: before, after, rfl, hafter⟩
      · exact .inl ⟨[], members, rfl, hmembers⟩
      · exact .inr ⟨hf.1, List.forall_mem_cons.mpr ⟨Ne.symm hf.2, hmembers⟩⟩
    · rintro (⟨before, after, heq, hafter⟩ | ⟨hf, hmembers⟩)
      · cases before with
        | nil =>
          obtain ⟨rfl, rfl⟩ := List.cons.inj heq
          exact .inr ⟨.inl rfl, hafter⟩
        | cons x before =>
          obtain ⟨-, rfl⟩ := List.cons.inj heq
          exact .inl ⟨before, after, rfl, hafter⟩
      · obtain ⟨hm, hmembers⟩ := List.forall_mem_cons.mp hmembers
        exact .inr ⟨.inr ⟨hf, Ne.symm hm⟩, hmembers⟩

/-- Of the members with one key the last counts. -/
theorem mem_ofMembers {members : List (Bytes × Json φ)} {f : Bytes × Json φ} :
    f ∈ ofMembers members [] ↔
      ∃ before after, members = before ++ f :: after ∧ ∀ m ∈ after, m.1 ≠ f.1 := by
  rw [mem_ofMembers_from .nil]
  simp

theorem storableFields_iff {fields : List (Bytes × Json φ)} :
    StorableFields fields ↔ ∀ f ∈ fields, ValidUtf8 f.1 ∧ Storable f.2 := by
  induction fields with
  | nil => simp [StorableFields]
  | cons f fields ih => rw [StorableFields, ih, List.forall_mem_cons, and_assoc]

theorem ofMembers_storable {members : List (Bytes × Json φ)} (h : StorableFields members) :
    Storable (.object (ofMembers members [])) := by
  refine ⟨sortedKeys_ofMembers members .nil, storableFields_iff.mpr ?_⟩
  intro f hf
  obtain ⟨before, after, rfl, -⟩ := mem_ofMembers.mp hf
  exact storableFields_iff.mp h f (List.mem_append_right _ List.mem_cons_self)

/-- What the lexer guarantees of a token. -/
def TokenBounds : Token φ → Prop
  | .valueString value => ValidUtf8 value
  | .valueUnsigned value => value < 2 ^ 64
  | .valueInteger value => -2 ^ 63 ≤ value ∧ value ≤ 0
  | _ => True

theorem word_bounds {w rest : Bytes} {t : Token φ} (h : Word strtod w t rest) : TokenBounds t := by
  cases h with
  | fixed h =>
    have hall : ∀ p ∈ (fixedWords : List (Bytes × Token φ)), TokenBounds p.2 := by
      simp [fixedWords, TokenBounds]
    exact hall _ h
  | string h => exact validUtf8_encoded _
  | number n h =>
    unfold tokenOf
    split_ifs with hfloat hminus hle hlt
    · trivial
    · show -2 ^ 63 ≤ (-digitsValue n.int : Int) ∧ (-digitsValue n.int : Int) ≤ 0
      omega
    · trivial
    · exact hlt
    · trivial

theorem lexes_bounds {input : Bytes} {ts : List (Token φ)} (h : Lexes strtod input ts) :
    ∀ t ∈ ts, TokenBounds t := by
  induction h with
  | done _ _ => simp
  | word _ hw _ ih => exact List.forall_mem_cons.mpr ⟨word_bounds hw, ih⟩

/-- A value is storable if its tokens keep their bounds. -/
theorem Value.storable {ts : List (Token φ)} {value : Json φ} (h : Value ts value) :
    (∀ t ∈ ts, TokenBounds t) → Storable value := by
  refine @Value.rec φ (fun ts v _ => (∀ t ∈ ts, TokenBounds t) → Storable v)
    (fun ts es _ => (∀ t ∈ ts, TokenBounds t) → StorableElements es)
    (fun ts ms _ => (∀ t ∈ ts, TokenBounds t) → StorableFields ms)
    (fun _ => trivial) (fun _ => trivial) (fun _ => trivial) ?_ ?_ (fun _ _ => trivial) ?_
    (fun _ => trivial) ?_ (fun _ => ⟨.nil, trivial⟩) ?_ ?_ ?_ ?_ ?_ ts value h
  · intro value hts
    have hbound : -2 ^ 63 ≤ value ∧ value ≤ 0 := hts _ List.mem_cons_self
    show -2 ^ 63 ≤ value ∧ value < 2 ^ 63
    omega
  · intro value hts
    exact hts _ List.mem_cons_self
  · intro value hts
    exact hts _ List.mem_cons_self
  · intro ts elements _ ih hts
    exact ih fun t ht => hts t (List.mem_cons_of_mem _ (List.mem_append_left _ ht))
  · intro ts members _ ih hts
    exact ofMembers_storable
      (ih fun t ht => hts t (List.mem_cons_of_mem _ (List.mem_append_left _ ht)))
  · intro ts value _ ih hts
    exact ⟨ih hts, trivial⟩
  · intro ts us value elements _ _ ih ihrest hts
    exact ⟨ih fun t ht => hts t (List.mem_append_left _ ht),
      ihrest fun t ht => hts t (List.mem_append_right _ (List.mem_cons_of_mem _ ht))⟩
  · intro ts value key _ ih hts
    have hkey : ValidUtf8 key := hts _ List.mem_cons_self
    exact ⟨hkey, ih fun t ht => hts t (List.mem_cons_of_mem _ (List.mem_cons_of_mem _ ht)), trivial⟩
  · intro ts us value members key _ _ ih ihrest hts
    have hkey : ValidUtf8 key := hts _ List.mem_cons_self
    have htail : ∀ t ∈ ts ++ .valueSeparator :: us, TokenBounds t :=
      fun t ht => hts t (List.mem_cons_of_mem _ (List.mem_cons_of_mem _ ht))
    exact ⟨hkey, ih fun t ht => htail t (List.mem_append_left _ ht),
      ihrest fun t ht => htail t (List.mem_append_right _ (List.mem_cons_of_mem _ ht))⟩

theorem parse_storable {payload : Bytes} {value : Json φ} (h : parse strtod payload = .ok value) :
    Storable value := by
  obtain ⟨body, ts, -, hlexes, hderived⟩ := text_of_parse h
  exact hderived.storable (lexes_bounds hlexes)

end JudgeServer.Protocol.Parser
