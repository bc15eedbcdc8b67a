/-
  The spellings of types, as a grammar of its own. `Spelling ts type nullability` derives a type
  from the tokens that write it, with the nullability that its stars state; `OpenSpelling ts`
  derives the front of a type in which a list is open that may end behind these tokens. The rules
  that read types are compared with these two: reading finds exactly the spellings, and it takes
  a double bracket apart exactly where one stands behind an open spelling. The words on nullability
  are told in a table, and what some words state together by it (`lastNullability_eq_some_iff`).
-/
import HeaderBridge.Objc.Grammar.TypeName
import HeaderBridge.Proofs.Reading.Finding
import Mathlib.Tactic.SplitIfs

namespace HeaderBridge.Grammar

/-! ## Words -/

/-- The words on nullability. Each has three spellings. -/
def nullabilityWords : List (String × Nullability) := [
  ("nonnull", .nonnull), ("_Nonnull", .nonnull), ("__nonnull", .nonnull),
  ("nullable", .nullable), ("_Nullable", .nullable), ("__nullable", .nullable),
  ("null_unspecified", .unspecified), ("_Null_unspecified", .unspecified),
  ("__null_unspecified", .unspecified)]

theorem ofWord?_eq_some_iff {word : String} {n : Nullability} :
    Nullability.ofWord? word = some n ↔ (word, n) ∈ nullabilityWords := by
  constructor
  · intro h
    unfold Nullability.ofWord? at h
    split_ifs at h with hnonnull hnullable hunspecified
    all_goals cases h
    all_goals simp_all [nullabilityWords]
  · have hall : ∀ p ∈ nullabilityWords, Nullability.ofWord? p.1 = some p.2 := by decide
    exact hall (word, n)

theorem ofWord?_eq_none_iff {word : String} :
    Nullability.ofWord? word = none ↔ ∀ n, (word, n) ∉ nullabilityWords := by
  simp only [Option.eq_none_iff_forall_ne_some, ne_eq, ofWord?_eq_some_iff]

/-- A word that qualifies a type. -/
def Qualifies (t : Token) : Prop := startsWithQualifier [t] = true

/-- A word qualifies a type if it is on nullability, or says nothing about the type itself. -/
theorem qualifies_iff {t : Token} : Qualifies t ↔ t.kind = .identifier ∧
    ((∃ n, (t.text, n) ∈ nullabilityWords) ∨ t.text ∈ silentQualifiers) := by
  simp only [Qualifies, startsWithQualifier, Bool.and_eq_true, Bool.or_eq_true, beq_iff_eq,
    Option.isSome_iff_exists, ofWord?_eq_some_iff, List.contains_iff_mem]

theorem lastNullability_eq_findSome? (ts : List Token) :
    lastNullability ts = ts.reverse.findSome? fun t => Nullability.ofWord? t.text := by
  unfold lastNullability
  rw [List.foldl_eq_foldr_reverse]
  induction ts.reverse with
  | nil => rfl
  | cons t ts ih =>
    rw [List.foldr_cons, ih, List.findSome?_cons]
    cases Nullability.ofWord? t.text <;> rfl

/-- Some words state the nullability of the last word on nullability among them. -/
theorem lastNullability_eq_some_iff {ts : List Token} {n : Nullability} :
    lastNullability ts = some n ↔ ∃ front t back, ts = front ++ t :: back ∧
      (t.text, n) ∈ nullabilityWords ∧ ∀ u ∈ back, ∀ m, (u.text, m) ∉ nullabilityWords := by
  rw [lastNullability_eq_findSome?, List.findSome?_eq_some_iff]
  simp only [ofWord?_eq_some_iff, ofWord?_eq_none_iff]
  constructor
  · rintro ⟨back, t, front, hts, hword, hsilent⟩
    refine ⟨front.reverse, t, back.reverse, ?_, hword, by simpa using hsilent⟩
    rw [← List.reverse_inj, hts]
    simp
  · rintro ⟨front, t, back, rfl, hword, hsilent⟩
    exact ⟨back.reverse, t, front.reverse, by simp, hword, by simpa using hsilent⟩

theorem lastNullability_eq_none_iff {ts : List Token} :
    lastNullability ts = none ↔ ∀ t ∈ ts, ∀ n, (t.text, n) ∉ nullabilityWords := by
  simp only [lastNullability_eq_findSome?, List.findSome?_eq_none_iff, List.mem_reverse,
    ofWord?_eq_none_iff]

theorem startsWithQualifier_of_ne {t : Token} {ts : List Token} (h : t.kind ≠ .identifier) :
    startsWithQualifier (t :: ts) = false := by
  change (t.kind == .identifier && _) = false
  rw [beq_false_of_ne h, Bool.false_and]

theorem Qualifies.kind {t : Token} (h : Qualifies t) : t.kind = .identifier := by
  by_cases hk : t.kind = .identifier
  · exact hk
  · unfold Qualifies at h
    rw [startsWithQualifier_of_ne hk] at h
    cases h

theorem Qualifies.starts {t : Token} (h : Qualifies t) (ts : List Token) :
    startsWithQualifier (t :: ts) = true := h

/-- Words that may stand behind the word `last` in the name of one type. -/
def NameTail (last : String) : List Token → Prop
  | [] => True
  | t :: ts => last ∈ openingWords ∧ t.kind = .identifier ∧ t.text ∈ followingWords ∧
      NameTail t.text ts

/-- The words that write the name of a type. -/
inductive NameSpelling : List Token → String → Prop where
  | words {first : Token} {more : List Token} (word : first.kind = .identifier)
      (tail : NameTail first.text more) :
      NameSpelling (first :: more) (" ".intercalate (first.text :: more.map (·.text)))

theorem NameSpelling.single {t : Token} (h : t.kind = .identifier) : NameSpelling [t] t.text :=
  .words h (show NameTail t.text [] from trivial)

/-- The type that a name alone stands for. -/
def plainType (name : String) : ObjcType :=
  if name = "id" then .id [] else .named name

/-! ## Stars -/

/-- Stars behind a type, each with its qualifiers: from a type and a nullability to those with the
    stars. -/
inductive Stars : ObjcType → Option Nullability → List Token → ObjcType → Option Nullability →
    Prop where
  | none (type : ObjcType) (found : Option Nullability) : Stars type found [] type found
  | star {type last : ObjcType} {found total : Option Nullability} {star : Token}
      {qualifiers rest : List Token} (kind : star.kind = .star)
      (qualify : ∀ q ∈ qualifiers, Qualifies q)
      (more : Stars (.pointer type) ((lastNullability qualifiers).or found) rest last total) :
      Stars type found (star :: (qualifiers ++ rest)) last total

/-! ## Types -/

/-- An argument of a generic type: qualifiers that do not count, and the type behind them. -/
structure Argument where
  qualifiers : List Token
  body : List Token
  type : ObjcType
  nullability : Option Nullability

def Argument.tokens (a : Argument) : List Token := a.qualifiers ++ a.body

/-- The words that are not part of a type may stand in front of it. -/
structure Argument.Led (a : Argument) : Prop where
  qualify : ∀ q ∈ a.qualifiers, Qualifies q
  free : startsWithQualifier a.body = false

/-- The tokens that write a type, without qualifiers in front. -/
inductive Spelling : List Token → ObjcType → Option Nullability → Prop where
  | plain {words stars : List Token} {name : String} {type : ObjcType}
      {nullability : Option Nullability} (spelt : NameSpelling words name)
      (behind : Stars (plainType name) none stars type nullability) :
      Spelling (words ++ stars) type nullability
  | protocols {word less greater : Token} {names inner stars : List Token} {type : ObjcType}
      {nullability : Option Nullability} (id : word.kind = .identifier ∧ word.text = "id")
      (opening : less.kind = .less) (items : ∀ t ∈ names, t.kind = .identifier)
      (commas : Commas (names.map fun t => [t]) inner) (closing : greater.kind = .greater)
      (behind : Stars (.id (names.map (·.text))) none stars type nullability) :
      Spelling (word :: less :: (inner ++ greater :: stars)) type nullability
  | generic {words inner stars : List Token} {less greater : Token} {name : String}
      {arguments : List Argument} {type : ObjcType} {nullability : Option Nullability}
      (spelt : NameSpelling words name) (other : name ≠ "id") (opening : less.kind = .less)
      (led : ∀ a ∈ arguments, a.Led)
      (items : ∀ a ∈ arguments, Spelling a.body a.type a.nullability)
      (commas : Commas (arguments.map Argument.tokens) inner) (closing : greater.kind = .greater)
      (behind : Stars (.generic name (arguments.map Argument.type)) none stars type nullability) :
      Spelling (words ++ less :: (inner ++ greater :: stars)) type nullability

/-- The tokens that write one item of the list behind a name: a protocol behind `id`, else a
    type. -/
def ItemSpelling (name : String) (ts : List Token) : Prop :=
  if name = "id" then ∃ t, ts = [t] ∧ t.kind = .identifier
  else ∃ a : Argument, ts = a.tokens ∧ a.Led ∧ Spelling a.body a.type a.nullability

/-- The front of a type up to a place where its innermost open list may end. -/
inductive OpenSpelling : List Token → Prop where
  /-- At the start of a list, or behind a comma. -/
  | between {words before : List Token} {less : Token} {name : String}
      (spelt : NameSpelling words name) (opening : less.kind = .less)
      (items : Leading (ItemSpelling name) before) :
      OpenSpelling (words ++ less :: before)
  /-- Behind an item. -/
  | behind {words before last : List Token} {less : Token} {name : String}
      (spelt : NameSpelling words name) (opening : less.kind = .less)
      (items : Leading (ItemSpelling name) before) (item : ItemSpelling name last) :
      OpenSpelling (words ++ less :: (before ++ last))
  /-- Inside an item that is a type. -/
  | inside {words before qualifiers inner : List Token} {less : Token} {name : String}
      (spelt : NameSpelling words name) (other : name ≠ "id") (opening : less.kind = .less)
      (items : Leading (ItemSpelling name) before) (qualify : ∀ q ∈ qualifiers, Qualifies q)
      (free : startsWithQualifier inner = false) (deeper : OpenSpelling inner) :
      OpenSpelling (words ++ less :: (before ++ (qualifiers ++ inner)))

/-- Tokens of which a type reads up to a double bracket at a place where a list may end. -/
def MeetsDouble (ts : List Token) : Prop :=
  ∃ qualifiers inner double rest, ts = qualifiers ++ (inner ++ double :: rest) ∧
    (∀ q ∈ qualifiers, Qualifies q) ∧ startsWithQualifier inner = false ∧
    OpenSpelling inner ∧ double.kind = .shiftRight

/-! ## The ends of types -/

/-- Tokens of which the first is no word that may go on a name. -/
def NoWord (ts : List Token) : Prop :=
  ∀ t ∈ ts.head?, t.kind = .identifier → t.text ∉ followingWords

/-- Tokens in front of which a type may end: no list, star, qualifier or further word of a name. -/
structure EndsType (ts : List Token) : Prop where
  noList : ReadState.kindOf ts ≠ .less
  noStar : ReadState.kindOf ts ≠ .star
  noQualifier : startsWithQualifier ts = false
  noWord : NoWord ts

end HeaderBridge.Grammar
