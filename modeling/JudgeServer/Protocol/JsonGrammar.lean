import JudgeServer.Protocol.JsonParser

/-!
# The grammar behind the parser

The productions of RFC 8259 over tokens. The parser is a loop with a stack; `parseValue_of`
runs it along a derivation, and `value_of_parse` finds the derivation of every value it
hands on, so the two agree on which lists of tokens are a value and on what the value is.
-/

namespace JudgeServer.Protocol.Parser

open JudgeServer.Protocol.Lexer

variable {φ : Type}

/-- Later members of an object replace earlier ones with the same key. -/
def ofMembers (members : List (Bytes × Json φ)) (fields : List (Bytes × Json φ)) :
    List (Bytes × Json φ) :=
  members.foldl (fun fields m => assign m.1 m.2 fields) fields

mutual

inductive Value : List (Token φ) → Json φ → Prop
  | null : Value [.literalNull] .null
  | false : Value [.literalFalse] (.boolean false)
  | true : Value [.literalTrue] (.boolean true)
  | integer (value : Int) : Value [.valueInteger value] (.numberInteger value)
  | unsigned (value : Nat) : Value [.valueUnsigned value] (.numberUnsigned value)
  | float (value : φ) : Value [.valueFloat (some value)] (.numberFloat value)
  | string (value : Bytes) : Value [.valueString value] (.string value)
  | emptyArray : Value [.beginArray, .endArray] (.array [])
  | array {ts : List (Token φ)} {elements : List (Json φ)} (h : Elements ts elements) :
      Value (.beginArray :: (ts ++ [.endArray])) (.array elements)
  | emptyObject : Value [.beginObject, .endObject] (.object [])
  | object {ts : List (Token φ)} {members : List (Bytes × Json φ)} (h : Members ts members) :
      Value (.beginObject :: (ts ++ [.endObject])) (.object (ofMembers members []))

inductive Elements : List (Token φ) → List (Json φ) → Prop
  | one {ts : List (Token φ)} {value : Json φ} (h : Value ts value) : Elements ts [value]
  | more {ts us : List (Token φ)} {value : Json φ} {elements : List (Json φ)} (h : Value ts value)
      (rest : Elements us elements) : Elements (ts ++ .valueSeparator :: us) (value :: elements)

inductive Members : List (Token φ) → List (Bytes × Json φ) → Prop
  | one {ts : List (Token φ)} {value : Json φ} (key : Bytes) (h : Value ts value) :
      Members (.valueString key :: .nameSeparator :: ts) [(key, value)]
  | more {ts us : List (Token φ)} {value : Json φ} {members : List (Bytes × Json φ)} (key : Bytes)
      (h : Value ts value) (rest : Members us members) :
      Members (.valueString key :: .nameSeparator :: (ts ++ .valueSeparator :: us))
        ((key, value) :: members)

end

/-- A value does not start with a token that closes something. -/
theorem Value.head_ne {ts : List (Token φ)} {value : Json φ} (h : Value ts value) :
    ∃ t us, ts = t :: us ∧ t ≠ .endArray := by
  cases h <;> exact ⟨_, _, rfl, by simp⟩

theorem parseValue_beginArray {t : Token φ} (h : t ≠ .endArray) (stack : List (Frame φ))
    (ts : List (Token φ)) :
    parseValue stack (.beginArray :: t :: ts) = parseValue (.array [] :: stack) (t :: ts) := by
  cases t <;> first | rfl | exact absurd rfl h

/-- The parser reads the tokens as the value, whatever comes behind them. -/
def ValueParses (ts : List (Token φ)) (value : Json φ) : Prop :=
  ∀ (stack : List (Frame φ)) (us : List (Token φ)),
    parseValue stack (ts ++ us) = evaluateState stack value us

/-- So it does with elements, from the first or a later one on. -/
def ElementsParse (ts : List (Token φ)) (elements : List (Json φ)) : Prop :=
  (∃ t us, ts = t :: us ∧ t ≠ .endArray) ∧
  ∀ (before : List (Json φ)) (stack : List (Frame φ)) (us : List (Token φ)),
    parseValue (.array before :: stack) (ts ++ .endArray :: us) =
      evaluateState stack (.array (before ++ elements)) us

/-- And with members, the first key and its colon being read. -/
def MembersParse (ts : List (Token φ)) (members : List (Bytes × Json φ)) : Prop :=
  ∃ key rest, ts = .valueString key :: .nameSeparator :: rest ∧
    ∀ (before : List (Bytes × Json φ)) (stack : List (Frame φ)) (us : List (Token φ)),
      parseValue (.object before key :: stack) (rest ++ .endObject :: us) =
        evaluateState stack (.object (ofMembers members before)) us

theorem array_parses {ts : List (Token φ)} {elements : List (Json φ)}
    (h : ElementsParse ts elements) :
    ValueParses (.beginArray :: (ts ++ [.endArray])) (.array elements) := by
  intro stack us
  obtain ⟨⟨t, rest, rfl, ht⟩, hrun⟩ := h
  rw [List.cons_append, List.append_assoc, List.cons_append, parseValue_beginArray ht]
  exact hrun [] stack us

theorem object_parses {ts : List (Token φ)} {members : List (Bytes × Json φ)}
    (h : MembersParse ts members) :
    ValueParses (.beginObject :: (ts ++ [.endObject])) (.object (ofMembers members [])) := by
  intro stack us
  obtain ⟨key, rest, rfl, hrun⟩ := h
  rw [List.cons_append, List.append_assoc]
  exact hrun [] stack us

theorem elements_one {ts : List (Token φ)} {value : Json φ} (h : Value ts value)
    (hv : ValueParses ts value) : ElementsParse ts [value] := by
  refine ⟨h.head_ne, fun before stack us => ?_⟩
  rw [hv]
  rfl

theorem elements_more {ts us : List (Token φ)} {value : Json φ} {elements : List (Json φ)}
    (h : Value ts value) (hv : ValueParses ts value) (hrest : ElementsParse us elements) :
    ElementsParse (ts ++ .valueSeparator :: us) (value :: elements) := by
  constructor
  · obtain ⟨t, rest, rfl, ht⟩ := h.head_ne
    exact ⟨t, _, rfl, ht⟩
  · intro before stack vs
    rw [List.append_assoc, hv]
    show parseValue (.array (before ++ [value]) :: stack) (us ++ .endArray :: vs) = _
    rw [hrest.2, List.append_assoc]
    rfl

theorem members_one {ts : List (Token φ)} {value : Json φ} (key : Bytes)
    (hv : ValueParses ts value) :
    MembersParse (.valueString key :: .nameSeparator :: ts) [(key, value)] := by
  refine ⟨key, _, rfl, fun before stack us => ?_⟩
  rw [hv]
  rfl

theorem members_more {ts us : List (Token φ)} {value : Json φ} {members : List (Bytes × Json φ)}
    (key : Bytes) (hv : ValueParses ts value) (hrest : MembersParse us members) :
    MembersParse (.valueString key :: .nameSeparator :: (ts ++ .valueSeparator :: us))
      ((key, value) :: members) := by
  obtain ⟨key', after, rfl, hrun⟩ := hrest
  refine ⟨key, _, rfl, fun before stack us => ?_⟩
  rw [List.append_assoc, hv]
  exact hrun (assign key value before) stack us

theorem Value.parses {ts : List (Token φ)} {value : Json φ} (h : Value ts value) :
    ValueParses ts value := by
  have leaf : ∀ {t : Token φ} {v : Json φ},
      (∀ stack us, parseValue stack (t :: us) = evaluateState stack v us) → ValueParses [t] v :=
    fun h => h
  refine @Value.rec φ (fun ts v _ => ValueParses ts v) (fun ts es _ => ElementsParse ts es)
    (fun ts ms _ => MembersParse ts ms) (leaf fun _ _ => rfl) (leaf fun _ _ => rfl)
    (leaf fun _ _ => rfl) (fun _ => leaf fun _ _ => rfl) (fun _ => leaf fun _ _ => rfl)
    (fun _ => leaf fun _ _ => rfl) (fun _ => leaf fun _ _ => rfl) (fun _ _ => rfl)
    (fun _ h => array_parses h) (fun _ _ => rfl) (fun _ h => object_parses h)
    (fun h hv => elements_one h hv) (fun h _ hv hrest => elements_more h hv hrest)
    (fun key _ hv => members_one key hv) (fun key _ _ hv hrest => members_more key hv hrest) ts value h

/-- A value is derived from the tokens in front, and the loop goes on behind them. -/
def ValueRead (stack : List (Frame φ)) (ts : List (Token φ))
    (result : Json φ × List (Token φ)) : Prop :=
  ∃ us value rest, ts = us ++ rest ∧ Value us value ∧ evaluateState stack value rest = .ok result

def ElementsRead (before : List (Json φ)) (stack : List (Frame φ)) (ts : List (Token φ))
    (result : Json φ × List (Token φ)) : Prop :=
  ∃ us elements rest, ts = us ++ .endArray :: rest ∧ Elements us elements ∧
    evaluateState stack (.array (before ++ elements)) rest = .ok result

def MembersRead (before : List (Bytes × Json φ)) (key : Bytes) (stack : List (Frame φ))
    (ts : List (Token φ)) (result : Json φ × List (Token φ)) : Prop :=
  ∃ us members rest, ts = us ++ .endObject :: rest ∧
    Members (.valueString key :: .nameSeparator :: us) members ∧
    evaluateState stack (.object (ofMembers members before)) rest = .ok result

theorem evaluateState_nil (value : Json φ) (ts : List (Token φ)) :
    evaluateState [] value ts = .ok (value, ts) := by
  cases ts <;> rfl

/-- What the loop does next when a value of an array is complete. -/
theorem evaluateState_array {elements : List (Json φ)} {stack : List (Frame φ)} {value : Json φ}
    {ts : List (Token φ)} {result : Json φ × List (Token φ)}
    (h : evaluateState (.array elements :: stack) value ts = .ok result) :
    (∃ rest, ts = .endArray :: rest ∧
        evaluateState stack (.array (elements ++ [value])) rest = .ok result) ∨
      ∃ rest, ts = .valueSeparator :: rest ∧
        parseValue (.array (elements ++ [value]) :: stack) rest = .ok result := by
  unfold evaluateState at h
  split at h
  · next heq => cases heq
  · next heq =>
    obtain ⟨heq, rfl⟩ := List.cons.inj heq
    cases heq
    exact Or.inr ⟨_, rfl, h⟩
  · next heq =>
    obtain ⟨heq, rfl⟩ := List.cons.inj heq
    cases heq
    exact Or.inl ⟨_, rfl, h⟩
  all_goals first | cases h | (next heq => cases heq)

theorem evaluateState_object {fields : List (Bytes × Json φ)} {key : Bytes}
    {stack : List (Frame φ)} {value : Json φ} {ts : List (Token φ)}
    {result : Json φ × List (Token φ)}
    (h : evaluateState (.object fields key :: stack) value ts = .ok result) :
    (∃ rest, ts = .endObject :: rest ∧
        evaluateState stack (.object (assign key value fields)) rest = .ok result) ∨
      ∃ key' rest, ts = .valueSeparator :: .valueString key' :: .nameSeparator :: rest ∧
        parseValue (.object (assign key value fields) key' :: stack) rest = .ok result := by
  unfold evaluateState at h
  split at h
  · next heq => cases heq
  · next heq => cases heq
  · next heq => cases heq
  · cases h
  · next heq =>
    obtain ⟨heq, rfl⟩ := List.cons.inj heq
    cases heq
    exact Or.inr ⟨_, _, rfl, h⟩
  · cases h
  · cases h
  · next heq =>
    obtain ⟨heq, rfl⟩ := List.cons.inj heq
    cases heq
    exact Or.inl ⟨_, rfl, h⟩
  · cases h

/-- A value is one token, an empty container, or the first part of a container. -/
theorem parseValue_cases {stack : List (Frame φ)} {ts : List (Token φ)}
    {result : Json φ × List (Token φ)} (h : parseValue stack ts = .ok result) :
    ValueRead stack ts result ∨
      (∃ rest, ts = .beginArray :: rest ∧ parseValue (.array [] :: stack) rest = .ok result) ∨
      ∃ key rest, ts = .beginObject :: .valueString key :: .nameSeparator :: rest ∧
        parseValue (.object [] key :: stack) rest = .ok result := by
  unfold parseValue at h
  split at h
  · exact Or.inl ⟨_, _, _, rfl, .emptyObject, h⟩
  · exact Or.inr (Or.inr ⟨_, _, rfl, h⟩)
  · cases h
  · cases h
  · exact Or.inl ⟨_, _, _, rfl, .emptyArray, h⟩
  · exact Or.inr (Or.inl ⟨_, rfl, h⟩)
  · exact Or.inl ⟨[_], _, _, rfl, .float _, h⟩
  · cases h
  · exact Or.inl ⟨[_], _, _, rfl, .false, h⟩
  · exact Or.inl ⟨[_], _, _, rfl, .null, h⟩
  · exact Or.inl ⟨[_], _, _, rfl, .true, h⟩
  · exact Or.inl ⟨[_], _, _, rfl, .integer _, h⟩
  · exact Or.inl ⟨[_], _, _, rfl, .string _, h⟩
  · exact Or.inl ⟨[_], _, _, rfl, .unsigned _, h⟩
  · cases h

/-- The statements about values, elements and members for lists of a bounded length. Each
of the three functions goes on with fewer tokens than it was given. -/
structure ReadsUpTo (φ : Type) (n : Nat) : Prop where
  value : ∀ {stack : List (Frame φ)} {ts : List (Token φ)} {result : Json φ × List (Token φ)},
    ts.length ≤ n → parseValue stack ts = .ok result → ValueRead stack ts result
  elements : ∀ {before : List (Json φ)} {stack : List (Frame φ)} {ts : List (Token φ)}
    {result : Json φ × List (Token φ)}, ts.length ≤ n →
    parseValue (.array before :: stack) ts = .ok result → ElementsRead before stack ts result
  members : ∀ {before : List (Bytes × Json φ)} {key : Bytes} {stack : List (Frame φ)}
    {ts : List (Token φ)} {result : Json φ × List (Token φ)}, ts.length ≤ n →
    parseValue (.object before key :: stack) ts = .ok result →
      MembersRead before key stack ts result

section Step

variable {n : Nat} (ih : ReadsUpTo φ n) {stack : List (Frame φ)} {ts : List (Token φ)}
  {result : Json φ × List (Token φ)}

include ih

theorem valueRead_succ (hlen : ts.length ≤ n + 1) (h : parseValue stack ts = .ok result) :
    ValueRead stack ts result := by
  obtain hread | ⟨rest, rfl, hrest⟩ | ⟨key, rest, rfl, hrest⟩ := parseValue_cases h
  · exact hread
  · obtain ⟨us, elements, after, rfl, hus, hafter⟩ :=
      ih.elements (Nat.le_of_succ_le_succ hlen) hrest
    refine ⟨_, _, after, ?_, .array hus, hafter⟩
    rw [List.cons_append, List.append_assoc]
    rfl
  · have hlen' : rest.length ≤ n := by
      simp only [List.length_cons] at hlen
      omega
    obtain ⟨us, members, after, rfl, hus, hafter⟩ := ih.members hlen' hrest
    refine ⟨_, _, after, ?_, .object hus, hafter⟩
    rw [List.cons_append, List.append_assoc]
    rfl

theorem elementsRead_succ {before : List (Json φ)} (hlen : ts.length ≤ n + 1)
    (h : parseValue (.array before :: stack) ts = .ok result) :
    ElementsRead before stack ts result := by
  obtain ⟨us, value, rest, rfl, hus, h⟩ := valueRead_succ ih hlen h
  obtain ⟨after, rfl, h⟩ | ⟨after, rfl, h⟩ := evaluateState_array h
  · exact ⟨us, [value], after, rfl, .one hus, h⟩
  · have hlen' : after.length ≤ n := by
      simp only [List.length_append, List.length_cons] at hlen
      omega
    obtain ⟨vs, elements, final, rfl, hvs, h⟩ := ih.elements hlen' h
    refine ⟨_, value :: elements, final, ?_, .more hus hvs, ?_⟩
    · rw [List.append_assoc]
      rfl
    · rwa [List.append_assoc] at h

theorem membersRead_succ {before : List (Bytes × Json φ)} {key : Bytes}
    (hlen : ts.length ≤ n + 1) (h : parseValue (.object before key :: stack) ts = .ok result) :
    MembersRead before key stack ts result := by
  obtain ⟨us, value, rest, rfl, hus, h⟩ := valueRead_succ ih hlen h
  obtain ⟨after, rfl, h⟩ | ⟨key', after, rfl, h⟩ := evaluateState_object h
  · exact ⟨us, [(key, value)], after, rfl, .one key hus, h⟩
  · have hlen' : after.length ≤ n := by
      simp only [List.length_append, List.length_cons] at hlen
      omega
    obtain ⟨vs, members, final, rfl, hvs, h⟩ := ih.members hlen' h
    refine ⟨_, (key, value) :: members, final, ?_, .more key hus hvs, h⟩
    rw [List.append_assoc]
    rfl

end Step

theorem readsUpTo (n : Nat) : ReadsUpTo φ n := by
  induction n with
  | zero =>
    have hnil : ∀ {stack : List (Frame φ)} {ts : List (Token φ)}
        {result : Json φ × List (Token φ)}, ts.length ≤ 0 → parseValue stack ts ≠ .ok result := by
      intro stack ts result hlen h
      obtain rfl := List.length_eq_zero_iff.mp (Nat.le_zero.mp hlen)
      cases h
    exact ⟨fun hlen h => absurd h (hnil hlen), fun hlen h => absurd h (hnil hlen),
      fun hlen h => absurd h (hnil hlen)⟩
  | succ n ih => exact ⟨valueRead_succ ih, elementsRead_succ ih, membersRead_succ ih⟩

/-- The parser accepts the lists of tokens that start with a value, as that value. -/
theorem parseValue_iff {ts rest : List (Token φ)} {value : Json φ} :
    parseValue [] ts = .ok (value, rest) ↔ ∃ us, ts = us ++ rest ∧ Value us value := by
  constructor
  · intro h
    obtain ⟨us, value', rest', rfl, hus, hend⟩ := (readsUpTo ts.length).value (Nat.le_refl _) h
    rw [evaluateState_nil] at hend
    obtain ⟨rfl, rfl⟩ := Prod.mk.inj (Except.ok.inj hend)
    exact ⟨us, rfl, hus⟩
  · rintro ⟨us, rfl, hus⟩
    rw [hus.parses, evaluateState_nil]

end JudgeServer.Protocol.Parser
