import JudgeServer.Protocol.DumpReading
import JudgeServer.Protocol.JsonReading

/-!
# Parsing what was dumped

The text of a storable value is a JSON text of the same value. Only the type of its
integers may change: the text of a number without a minus sign is read as an unsigned one.
-/

namespace JudgeServer.Protocol.Parser

open JudgeServer.Lib.Utf8
open JudgeServer.Lib.Decimal
open JudgeServer.Lib.JsonText
open JudgeServer.Protocol.Lexer

variable {φ : Type}

mutual

/-- The value that is read back. -/
def reread : Json Empty → Json φ
  | .null => .null
  | .boolean value => .boolean value
  | .numberInteger value =>
      if value < 0 then .numberInteger value else .numberUnsigned value.toNat
  | .numberUnsigned value => .numberUnsigned value
  | .string value => .string value
  | .array elements => .array (rereadElements elements)
  | .object fields => .object (rereadFields fields)

def rereadElements : List (Json Empty) → List (Json φ)
  | [] => []
  | x :: rest => reread x :: rereadElements rest

def rereadFields : List (Bytes × Json Empty) → List (Bytes × Json φ)
  | [] => []
  | f :: rest => (f.1, reread f.2) :: rereadFields rest

end

theorem escapeByte_high {b : UInt8} (h : 0x80 ≤ b.toNat) : escapeByte b = [b] := escape_of_ge h b

/-- What stands for an ASCII character: itself, an escape of two characters, or `\u`. -/
theorem escapeByte_table : ∀ n < 0x80,
    (escapeByte (UInt8.ofNat n) = [UInt8.ofNat n] ∧ 0x20 ≤ n ∧ n ≠ 34 ∧ n ≠ 92) ∨
    (∃ p ∈ shortEscapes, p.2.toNat = n ∧ escapeByte (UInt8.ofNat n) = [92, p.1]) ∨
    ((escapeByte (UInt8.ofNat n)).take 2 = [92, 117] ∧
      getCodepoint ((escapeByte (UInt8.ofNat n)).drop 2) = some (n, [])) := by
  decide +kernel

/-- The escaped bytes of a character are a way to write it. -/
theorem escaped_char (c : Char) :
    StringChar ((String.utf8EncodeChar c).flatMap escapeByte) c := by
  by_cases hlow : c.val.toNat < 0x80
  · rw [encode_ascii hlow, List.flatMap_singleton]
    obtain ⟨hplain, hcontrol, hquote, hback⟩ | ⟨p, hp, hvalue, hshort⟩ | ⟨hu, hcode⟩ :=
      escapeByte_table c.val.toNat hlow
    · rw [hplain, ← encode_ascii hlow]
      exact .unescaped hcontrol hquote hback
    · rw [hshort]
      exact .short hp hvalue.symm
    · obtain ⟨s, hs, hhex⟩ := getCodepoint_iff.mp hcode
      rw [← List.take_append_drop 2 (escapeByte _), hu, hs, List.append_nil]
      exact .unicode hhex
  · have hhigh := encode_high (c := c) (by omega)
    have hself : ∀ l : Bytes, (∀ b ∈ l, 0x80 ≤ b.toNat) → l.flatMap escapeByte = l := by
      intro l hl
      induction l with
      | nil => rfl
      | cons b l ih =>
        rw [List.flatMap_cons, escapeByte_high (hl b List.mem_cons_self),
          ih fun x hx => hl x (List.mem_cons_of_mem b hx)]
        rfl
    rw [hself _ hhigh]
    exact .unescaped (by omega) (by omega) (by omega)

theorem escaped_body (cs : List Char) : StringBody ((encoded cs).flatMap escapeByte) cs := by
  induction cs with
  | nil => exact .nil
  | cons c cs ih =>
    unfold encoded at ih ⊢
    rw [List.flatMap_cons, List.flatMap_append]
    exact .cons (escaped_char c) ih

section

variable {strtod : Bytes → Option φ}

theorem dumpString_word {s a : Bytes} (h : dumpString s = .ok a) (rest : Bytes) :
    Word strtod a (.valueString s) rest := by
  obtain ⟨cs, rfl⟩ := (dumpString_returns s).mp ⟨a, h⟩
  rw [dumpString_eq h]
  exact .string (escaped_body cs)

/-- What follows a value in a dumped text. -/
def Delimits (rest : Bytes) : Prop := ∀ b ∈ rest.head?, b = 44 ∨ b = 93 ∨ b = 125

theorem stops_delimiter (n : NumberText) {rest : Bytes} (h : Delimits rest) :
    ∀ b ∈ rest.head?, n.Stops b := by
  intro b hb
  have hne : isDigit b = false ∧ b ≠ 46 ∧ b ≠ 101 ∧ b ≠ 69 := by
    obtain rfl | rfl | rfl := h b hb <;> decide
  unfold NumberText.Stops
  split
  · exact hne.1
  · exact ⟨hne.1, hne.2.2⟩
  · exact ⟨hne.2.1, hne.2.2.1, hne.2.2.2, fun _ => hne.1⟩

/-- Tokens in front of those of the rest. -/
def Prepends (strtod : Bytes → Option φ) (text : Bytes) (ts : List (Token φ)) : Prop :=
  ∀ {rest : Bytes} {us : List (Token φ)}, Delimits rest → Lexes strtod rest us →
    Lexes strtod (text ++ rest) (ts ++ us)

theorem lexes_word {w rest : Bytes} {t : Token φ} {ts : List (Token φ)}
    (h : Word strtod w t rest) (hrest : Lexes strtod rest ts) :
    Lexes strtod (w ++ rest) (t :: ts) :=
  @Lexes.word φ strtod [] w rest t ts (by simp) h hrest

theorem prepends_word {w : Bytes} {t : Token φ} (h : ∀ rest, Delimits rest → Word strtod w t rest) :
    Prepends strtod w [t] :=
  fun hrest hlexes => lexes_word (h _ hrest) hlexes

/-- A number in decimal, with its sign. -/
theorem decimal_number (minus : Bool) (n : Nat) : ∃ x : NumberText,
    x.text = (if minus then [45] else []) ++ decimal n ∧ x.minus = minus ∧ x.int = decimal n ∧
      x.frac = none ∧ x.exp = none :=
  ⟨⟨minus, decimal n, none, none, decimal_digits n, decimal_ne_nil n, decimal_leading, by simp⟩,
    by simp [NumberText.text, NumberText.fracText, NumberText.expText], rfl, rfl, rfl, rfl⟩

theorem unsigned_word {n : Nat} (hn : n < 2 ^ 64) :
    Prepends strtod (decimal n) [.valueUnsigned n] := by
  refine prepends_word fun rest hrest => ?_
  obtain ⟨x, htext, hminus, hint, hfrac, hexp⟩ := decimal_number false n
  have hword : Word strtod x.text (tokenOf strtod x) rest := .number x (stops_delimiter x hrest)
  have htoken : tokenOf strtod x = .valueUnsigned n := by
    simp [tokenOf, hminus, hint, hfrac, hexp, digitsValue_decimal]
    omega
  rw [htoken, htext] at hword
  exact hword

theorem negative_word {v : Int} (hv : v < 0) (hlow : -2 ^ 63 ≤ v) :
    Prepends strtod (decimalInt v) [.valueInteger v] := by
  refine prepends_word fun rest hrest => ?_
  obtain ⟨x, htext, hminus, hint, hfrac, hexp⟩ := decimal_number true v.natAbs
  have hword : Word strtod x.text (tokenOf strtod x) rest := .number x (stops_delimiter x hrest)
  have hle : v.natAbs ≤ 2 ^ 63 := by omega
  have htoken : tokenOf strtod x = .valueInteger v := by
    unfold tokenOf
    rw [hfrac, hexp, hminus, hint, digitsValue_decimal, if_neg (by simp), if_pos rfl, if_pos hle]
    congr 1
    omega
  rw [htoken, htext] at hword
  unfold decimalInt
  rw [if_pos hv]
  exact hword

/-- The text of a value is read as tokens of the value. -/
def Reads (strtod : Bytes → Option φ) (j : Json Empty) : Prop :=
  ∀ {text : Bytes}, dump j = .ok text → Storable j →
    ∃ ts, Value ts (reread j) ∧ Prepends strtod text ts

def ElementsReadBack (strtod : Bytes → Option φ) (l : List (Json Empty)) : Prop :=
  ∀ {text : Bytes}, dumpElements l = .ok text → StorableElements l → l ≠ [] →
    ∃ ts, Elements ts (rereadElements l) ∧ Prepends strtod text ts

def FieldsReadBack (strtod : Bytes → Option φ) (l : List (Bytes × Json Empty)) : Prop :=
  ∀ {text : Bytes}, dumpFields l = .ok text → StorableFields l → l ≠ [] →
    ∃ ts, Members ts (rereadFields l) ∧ Prepends strtod text ts

theorem delimits_cons {b : UInt8} (h : b = 44 ∨ b = 93 ∨ b = 125) (rest : Bytes) :
    Delimits (b :: rest) := by
  intro c hc
  obtain rfl := Option.some.inj hc
  exact h

theorem reads_fixed {j : Json Empty} {w : Bytes} {t : Token φ} (hdump : dump j = .ok w)
    (hword : (w, t) ∈ fixedWords) (hvalue : Value [t] (reread j)) : Reads strtod j := by
  intro text htext _
  rw [hdump] at htext
  obtain rfl := Except.ok.inj htext
  exact ⟨[t], hvalue, prepends_word fun rest _ => .fixed hword⟩

theorem reads_boolean (value : Bool) : Reads strtod (.boolean value) := by
  cases value with
  | true => exact reads_fixed (by rw [dump]) (by simp [fixedWords]) .true
  | false => exact reads_fixed (by rw [dump]) (by simp [fixedWords]) .false

theorem reads_unsigned (value : Nat) : Reads strtod (.numberUnsigned value) := by
  intro text htext hstorable
  rw [dump] at htext
  obtain rfl := Except.ok.inj htext
  exact ⟨[.valueUnsigned value], .unsigned value, unsigned_word hstorable⟩

theorem reads_integer (value : Int) : Reads strtod (.numberInteger value) := by
  intro text htext hstorable
  obtain ⟨hlow, hhigh⟩ : -2 ^ 63 ≤ value ∧ value < 2 ^ 63 := hstorable
  rw [dump] at htext
  obtain rfl := Except.ok.inj htext
  rw [reread]
  by_cases hneg : value < 0
  · rw [if_pos hneg]
    exact ⟨[.valueInteger value], .integer value, negative_word hneg hlow⟩
  · rw [if_neg hneg]
    have htext : decimalInt value = decimal value.toNat := by
      unfold decimalInt
      rw [if_neg hneg]
      congr 1
      omega
    rw [htext]
    exact ⟨[.valueUnsigned value.toNat], .unsigned _, unsigned_word (by omega)⟩

theorem reads_string (value : Bytes) : Reads strtod (.string value) := by
  intro text htext _
  rw [dump] at htext
  exact ⟨[.valueString value], .string value, prepends_word fun rest _ => dumpString_word htext rest⟩

theorem reads_array {elements : List (Json Empty)} (h : ElementsReadBack strtod elements) :
    Reads strtod (.array elements) := by
  intro text htext hstorable
  obtain ⟨body, hbody, rfl⟩ := dump_array htext
  rw [reread]
  by_cases hnil : elements = []
  · subst hnil
    rw [dumpElements] at hbody
    obtain rfl := Except.ok.inj hbody
    refine ⟨[.beginArray, .endArray], .emptyArray, fun hrest hlexes => ?_⟩
    exact lexes_word (w := [91]) (.fixed (by simp [fixedWords]))
      (lexes_word (w := [93]) (.fixed (by simp [fixedWords])) hlexes)
  · obtain ⟨ts, hts, hread⟩ := h hbody hstorable hnil
    refine ⟨.beginArray :: (ts ++ [.endArray]), .array hts, fun {rest us} hrest hlexes => ?_⟩
    have hclose : Lexes strtod (93 :: rest) (.endArray :: us) :=
      lexes_word (w := [93]) (.fixed (by simp [fixedWords])) hlexes
    have hinside := hread (delimits_cons (by simp) rest) hclose
    rw [List.cons_append, List.cons_append, List.append_assoc, List.append_assoc]
    exact lexes_word (w := [91]) (.fixed (by simp [fixedWords])) hinside

theorem elements_readBack_cons {e : Json Empty} {rest : List (Json Empty)} (he : Reads strtod e)
    (hrest : ElementsReadBack strtod rest) : ElementsReadBack strtod (e :: rest) := by
  intro text htext hstorable _
  cases rest with
  | nil =>
    rw [dumpElements] at htext
    obtain ⟨ts, hts, hread⟩ := he htext hstorable.1
    exact ⟨ts, .one hts, hread⟩
  | cons e' rest =>
    obtain ⟨first, hfirst, ⟨hnil, -⟩ | ⟨others, hothers, rfl⟩⟩ := dumpElements_cons htext
    · cases hnil
    · obtain ⟨ts, hts, hread⟩ := he hfirst hstorable.1
      obtain ⟨us, hus, hreadrest⟩ := hrest hothers hstorable.2 (List.cons_ne_nil _ _)
      refine ⟨ts ++ .valueSeparator :: us, .more hts hus, fun {after vs} hafter hlexes => ?_⟩
      have hcomma : Lexes strtod (44 :: (others ++ after)) (.valueSeparator :: (us ++ vs)) :=
        lexes_word (w := [44]) (.fixed (by simp [fixedWords])) (hreadrest hafter hlexes)
      rw [List.append_assoc, List.append_assoc]
      exact hread (delimits_cons (by simp) _) hcomma

/-- The key and the colon in front of a member's value. -/
theorem lexes_key {key written rest : Bytes} {ts : List (Token φ)}
    (hkey : dumpString key = .ok written) (h : Lexes strtod rest ts) :
    Lexes strtod (written ++ 58 :: rest) (.valueString key :: .nameSeparator :: ts) :=
  lexes_word (dumpString_word hkey _) (lexes_word (w := [58]) (.fixed (by simp [fixedWords])) h)

theorem fields_readBack_cons {f : Bytes × Json Empty} {rest : List (Bytes × Json Empty)}
    (hf : Reads strtod f.2) (hrest : FieldsReadBack strtod rest) :
    FieldsReadBack strtod (f :: rest) := by
  intro text htext hstorable _
  cases rest with
  | nil =>
    rw [dumpFields] at htext
    obtain ⟨key, hkey, htext⟩ := bind_ok htext
    obtain ⟨value, hvalue, htext⟩ := bind_ok htext
    obtain rfl := Except.ok.inj htext
    obtain ⟨ts, hts, hread⟩ := hf hvalue hstorable.2.1
    refine ⟨.valueString f.1 :: .nameSeparator :: ts, .one f.1 hts, fun hafter hlexes => ?_⟩
    rw [List.append_assoc, List.append_assoc]
    exact lexes_key hkey (hread hafter hlexes)
  | cons g rest =>
    obtain ⟨key, value, hkey, hvalue, ⟨hnil, -⟩ | ⟨others, hothers, rfl⟩⟩ := dumpFields_cons htext
    · cases hnil
    · obtain ⟨ts, hts, hread⟩ := hf hvalue hstorable.2.1
      obtain ⟨us, hus, hreadrest⟩ := hrest hothers hstorable.2.2 (List.cons_ne_nil _ _)
      refine ⟨.valueString f.1 :: .nameSeparator :: (ts ++ .valueSeparator :: us),
        .more f.1 hts hus, fun {after vs} hafter hlexes => ?_⟩
      have hcomma : Lexes strtod (44 :: (others ++ after)) (.valueSeparator :: (us ++ vs)) :=
        lexes_word (w := [44]) (.fixed (by simp [fixedWords])) (hreadrest hafter hlexes)
      have hboth := lexes_key hkey (hread (delimits_cons (by simp) _) hcomma)
      simp only [List.append_assoc, List.cons_append]
      exact hboth

/-- Members in the order of their keys are put behind each other. -/
theorem assign_last {key : Bytes} {value : Json φ} {fields : List (Bytes × Json φ)}
    (h : ∀ f ∈ fields, f.1 < key) : assign key value fields = fields ++ [(key, value)] := by
  induction fields with
  | nil => rfl
  | cons g fields ih =>
    have hg := h g List.mem_cons_self
    have hne : key ≠ g.1 := by
      intro heq
      rw [heq] at hg
      exact List.lt_irrefl _ hg
    unfold assign
    rw [if_neg (fun hlt => List.lt_irrefl _ (List.lt_trans hg hlt)), if_neg hne,
      ih fun f hf => h f (List.mem_cons_of_mem g hf)]
    rfl

theorem ofMembers_sorted {members fields : List (Bytes × Json φ)}
    (h : SortedKeys (fields ++ members)) : ofMembers members fields = fields ++ members := by
  induction members generalizing fields with
  | nil => exact (List.append_nil _).symm
  | cons m members ih =>
    have hlast : ∀ f ∈ fields, f.1 < m.1 := by
      intro f hf
      exact (List.pairwise_append.mp h).2.2 f hf m List.mem_cons_self
    show ofMembers members (assign m.1 m.2 fields) = _
    rw [List.append_cons] at h
    rw [assign_last hlast]
    exact (ih h).trans (List.append_cons fields m members).symm

theorem sortedKeys_reread {fields : List (Bytes × Json Empty)} (h : SortedKeys fields) :
    SortedKeys (rereadFields fields : List (Bytes × Json φ)) := by
  have hmap : (rereadFields fields : List (Bytes × Json φ)) =
      fields.map fun f => (f.1, reread f.2) := by
    induction fields with
    | nil => rw [rereadFields, List.map_nil]
    | cons f fields ih => rw [rereadFields, List.map_cons, ih h.of_cons]
  rw [hmap]
  exact List.pairwise_map.mpr h

theorem reads_object {fields : List (Bytes × Json Empty)} (h : FieldsReadBack strtod fields) :
    Reads strtod (.object fields) := by
  intro text htext hstorable
  obtain ⟨body, hbody, rfl⟩ := dump_object htext
  obtain ⟨hsorted, hfields⟩ := hstorable
  rw [reread]
  by_cases hnil : fields = []
  · subst hnil
    rw [dumpFields] at hbody
    obtain rfl := Except.ok.inj hbody
    refine ⟨[.beginObject, .endObject], .emptyObject, fun hrest hlexes => ?_⟩
    exact lexes_word (w := [123]) (.fixed (by simp [fixedWords]))
      (lexes_word (w := [125]) (.fixed (by simp [fixedWords])) hlexes)
  · obtain ⟨ts, hts, hread⟩ := h hbody hfields hnil
    have hvalue := Value.object hts
    rw [ofMembers_sorted (sortedKeys_reread hsorted), List.nil_append] at hvalue
    refine ⟨.beginObject :: (ts ++ [.endObject]), hvalue, fun {rest us} hrest hlexes => ?_⟩
    have hclose : Lexes strtod (125 :: rest) (.endObject :: us) :=
      lexes_word (w := [125]) (.fixed (by simp [fixedWords])) hlexes
    have hinside := hread (delimits_cons (by simp) rest) hclose
    rw [List.cons_append, List.cons_append, List.append_assoc, List.append_assoc]
    exact lexes_word (w := [123]) (.fixed (by simp [fixedWords])) hinside

mutual

theorem dump_reads : (j : Json Empty) → Reads strtod j
  | .null => reads_fixed (by rw [dump]) (by simp [fixedWords]) .null
  | .boolean value => reads_boolean value
  | .numberInteger value => reads_integer value
  | .numberUnsigned value => reads_unsigned value
  | .string value => reads_string value
  | .array elements => reads_array (dumpElements_reads elements)
  | .object fields => reads_object (dumpFields_reads fields)

theorem dumpElements_reads : (l : List (Json Empty)) → ElementsReadBack strtod l
  | [] => fun _ _ hne => absurd rfl hne
  | e :: rest => elements_readBack_cons (dump_reads e) (dumpElements_reads rest)

theorem dumpFields_reads : (l : List (Bytes × Json Empty)) → FieldsReadBack strtod l
  | [] => fun _ _ hne => absurd rfl hne
  | f :: rest => fields_readBack_cons (dump_reads f.2) (dumpFields_reads rest)

end

/-- What `dump` writes for a storable value, `json::parse` reads as that value. -/
theorem parse_dump {j : Json Empty} {text : Bytes} (h : dump j = .ok text) (hj : Storable j) :
    parse strtod text = .ok (reread j) := by
  obtain ⟨ts, hts, hread⟩ := dump_reads j h hj
  have hend : Lexes strtod [] [] := @Lexes.done φ strtod [] [] (by simp) (by simp)
  have hlexes := hread (fun b hb => by cases hb) hend
  rw [List.append_nil, List.append_nil] at hlexes
  exact parse_of_text ⟨text, ts, Or.inl rfl, hlexes, hts⟩

end

mutual

/-- The value, read as one that could have held a floating-point number. -/
def lift : Json Empty → Json φ
  | .null => .null
  | .boolean value => .boolean value
  | .numberInteger value => .numberInteger value
  | .numberUnsigned value => .numberUnsigned value
  | .string value => .string value
  | .array elements => .array (liftElements elements)
  | .object fields => .object (liftFields fields)

def liftElements : List (Json Empty) → List (Json φ)
  | [] => []
  | x :: rest => lift x :: liftElements rest

def liftFields : List (Bytes × Json Empty) → List (Bytes × Json φ)
  | [] => []
  | f :: rest => (f.1, lift f.2) :: liftFields rest

end

theorem liftFields_eq_map (fields : List (Bytes × Json Empty)) :
    (liftFields fields : List (Bytes × Json φ)) = fields.map fun f => (f.1, lift f.2) := by
  induction fields with
  | nil => rw [liftFields, List.map_nil]
  | cons f fields ih => rw [liftFields, List.map_cons, ih]

mutual

theorem storable_lift : (j : Json Empty) → (Storable (lift j : Json φ) ↔ Storable j)
  | .null => Iff.rfl
  | .boolean _ => Iff.rfl
  | .numberInteger _ => Iff.rfl
  | .numberUnsigned _ => Iff.rfl
  | .string _ => Iff.rfl
  | .array elements => storableElements_lift elements
  | .object fields => by
      rw [lift, Storable, Storable, storableFields_lift fields]
      refine and_congr_left fun _ => ?_
      unfold SortedKeys
      rw [liftFields_eq_map, List.pairwise_map]

theorem storableElements_lift :
    (l : List (Json Empty)) → (StorableElements (liftElements l : List (Json φ)) ↔ StorableElements l)
  | [] => Iff.rfl
  | x :: rest => and_congr (storable_lift x) (storableElements_lift rest)

theorem storableFields_lift : (l : List (Bytes × Json Empty)) →
    (StorableFields (liftFields l : List (Bytes × Json φ)) ↔ StorableFields l)
  | [] => Iff.rfl
  | f :: rest => and_congr Iff.rfl (and_congr (storable_lift f.2) (storableFields_lift rest))

end

mutual

theorem text_of_storable : (j : Json Empty) → Storable j → Text j
  | .null, _ => trivial
  | .boolean _, _ => trivial
  | .numberInteger _, _ => trivial
  | .numberUnsigned _, _ => trivial
  | .string _, h => h
  | .array elements, h => textElements_of_storable elements h
  | .object fields, h => textFields_of_storable fields h.2

theorem textElements_of_storable : (l : List (Json Empty)) → StorableElements l → TextElements l
  | [], _ => trivial
  | x :: rest, h => ⟨text_of_storable x h.1, textElements_of_storable rest h.2⟩

theorem textFields_of_storable : (l : List (Bytes × Json Empty)) → StorableFields l → TextFields l
  | [], _ => trivial
  | f :: rest, h =>
      ⟨h.1, text_of_storable f.2 h.2.1, textFields_of_storable rest h.2.2⟩

end

/-- A payload that was accepted can be written again, and what is written is accepted as
the same value; only an integer that is not negative is now unsigned. -/
theorem accepted_dump_parse (strtod : Bytes → Option φ) (payload : Bytes) (j : Json Empty)
    (h : parse strtod payload = .ok (lift j)) :
    ∃ text, dump j = .ok text ∧ parse strtod text = .ok (reread j) := by
  have hstorable : Storable j := (storable_lift j).mp (parse_storable h)
  obtain ⟨text, htext⟩ := (dump_returns j).mpr (text_of_storable j hstorable)
  exact ⟨text, htext, parse_dump htext hstorable⟩

/-- Negative zero comes back as an unsigned number. -/
theorem accepted_dump_parse_sample :
    ∃ text, dump (.array [.numberInteger 0, .string [47]]) = .ok text ∧
      parse (fun _ => (none : Option Rat)) text =
        .ok (reread (.array [.numberInteger 0, .string [47]])) :=
  accepted_dump_parse _ (ascii "[ -0 , \"\\/\" ]") _ (by rfl)

end JudgeServer.Protocol.Parser
