/-
  The texts of types tell the types apart. A type of the mapping is a name, a name with arguments,
  a collection in brackets or a composition of names. Inside brackets every such type ends where a
  separator or a closing bracket stands; outside of them a composition has no end of its own, since
  a blank and an ampersand may go on it, and every other type ends where its name does.
-/
import HeaderBridge.Proofs.Rendering.Words
import HeaderBridge.Swift.Type

namespace HeaderBridge.SwiftType

open Lexer (isWordPart)

variable {a b : SwiftType} {name name' : String} {us vs : List Char} {inside : Bool}

/-! ## Types -/

/-- A type as the mapping of types makes it, with names that are names of types. -/
inductive Legible : SwiftType → Prop where
  | named {name : String} (isName : IsTypeName name) : Legible (.named name)
  | generic {name : String} {arguments : List SwiftType} (isName : IsTypeName name)
      (each : ∀ a ∈ arguments, Legible a) : Legible (.generic name arguments)
  | array {element : SwiftType} (each : Legible element) : Legible (.array element)
  | dictionary {key value : SwiftType} (keys : Legible key) (values : Legible value) :
      Legible (.dictionary key value)
  | composition {first second : String} {more : List String} (first_isName : IsTypeName first)
      (each : ∀ name ∈ second :: more, IsTypeName name) :
      Legible (.composition ((first :: second :: more).map .named))

def isBracketed : SwiftType → Bool
  | .array _ | .dictionary _ _ => true
  | _ => false

def isComposition : SwiftType → Bool
  | .composition _ => true
  | _ => false

/-! ## Texts -/

theorem texts_eq (types : List SwiftType) : texts types = types.map text := by
  induction types with
  | nil => rfl
  | cons t types ih => rw [texts, ih, List.map_cons]

/-- Types in a row, each behind a separator. -/
def behindEach (separator : String) (types : List SwiftType) : List Char :=
  types.flatMap fun t => separator.toList ++ t.text.toList

theorem toList_items (separator : String) (first : SwiftType) (more : List SwiftType) :
    (separator.intercalate (texts (first :: more))).toList =
      first.text.toList ++ behindEach separator more := by
  rw [texts_eq, List.map_cons, toList_intercalate, List.flatMap_map]
  rfl

theorem generic_append (name : String) (arguments : List SwiftType) (us : List Char) :
    (generic name arguments).text.toList ++ us =
      name.toList ++ '<' :: ((", ".intercalate (texts arguments)).toList ++ '>' :: us) := by
  simp only [text, String.toList_append, List.append_assoc]
  rfl

theorem array_append (element : SwiftType) (us : List Char) :
    (array element).text.toList ++ us = '[' :: (element.text.toList ++ ']' :: us) := by
  simp only [text, String.toList_append, List.append_assoc]
  rfl

theorem dictionary_append (key value : SwiftType) (us : List Char) :
    (dictionary key value).text.toList ++ us =
      '[' :: (key.text.toList ++ ':' :: ' ' :: (value.text.toList ++ ']' :: us)) := by
  simp only [text, String.toList_append, List.append_assoc]
  rfl

theorem text_named (name : String) : (named name).text = name := by rw [text]

theorem behindEach_argument (first : SwiftType) (more : List SwiftType) (us : List Char) :
    behindEach ", " (first :: more) ++ us =
      ',' :: ' ' :: (first.text.toList ++ (behindEach ", " more ++ us)) := by
  rw [behindEach, List.flatMap_cons, List.append_assoc, List.append_assoc]
  rfl

theorem behindEach_member (name : String) (more : List SwiftType) (us : List Char) :
    behindEach " & " (named name :: more) ++ us =
      ' ' :: '&' :: ' ' :: (name.toList ++ (behindEach " & " more ++ us)) := by
  rw [behindEach, List.flatMap_cons, text_named, List.append_assoc, List.append_assoc]
  rfl

theorem text_composition (members : List SwiftType) :
    (composition members).text = " & ".intercalate (texts members) := by
  rw [text]

theorem composition_append (first second : String) (more : List String) (us : List Char) :
    (composition ((first :: second :: more).map named)).text.toList ++ us =
      first.toList ++ (behindEach " & " ((second :: more).map named) ++ us) := by
  rw [text_composition, List.map_cons, toList_items, text_named, List.append_assoc]

/-! ## What ends a type -/

/-- What may stand behind a type: inside brackets a separator or a closing bracket, else what goes
    on no name, behind a type that is no composition. -/
inductive EndsType : Bool → SwiftType → List Char → Prop where
  | inside {type : SwiftType} {c : Char} {rest : List Char} (mem : c ∈ [',', '>', ']', ':']) :
      EndsType true type (c :: rest)
  | outside {type : SwiftType} {rest : List Char} (ends : EndsName rest)
      (no_list : rest.head? ≠ some '<') (single : type.isComposition = false) :
      EndsType false type rest

namespace EndsType

theorem endsName (h : EndsType inside a us) : EndsName us := by
  cases h with
  | inside mem =>
    simp only [List.mem_cons, List.not_mem_nil, or_false] at mem
    rcases mem with rfl | rfl | rfl | rfl <;> exact .of_mark (by decide) (by decide)
  | outside ends => exact ends

theorem ne_list (h : EndsType inside a ('<' :: us)) : False := by
  cases h with
  | inside mem => revert mem; decide
  | outside _ no_list => exact no_list rfl

theorem not_inside_blank : ¬ EndsType true a (' ' :: us) := by
  intro h
  cases h with
  | inside mem => revert mem; decide

/-- Not both of two types with the same end are a composition and in front of a blank. -/
theorem ne_blank (h : EndsType inside a (' ' :: us)) (hb : EndsType inside b vs)
    (hcomposition : b.isComposition = true) : False := by
  cases h with
  | inside mem => revert mem; decide
  | outside =>
    cases hb with
    | outside _ _ single =>
      rw [single] at hcomposition
      cases hcomposition

end EndsType

theorem endsName_list : EndsName ('<' :: us) := .of_mark (by decide) (by decide)

/-- Behind a member of a composition another member may follow. -/
theorem endsName_member : EndsName (' ' :: '&' :: us) where
  endsRun := endsRun_of_mark (by decide)
  noWord := by
    intro behind h
    obtain rfl := (List.cons.inj h).2
    rw [List.takeWhile_cons, isWordPart_of_mark (by decide), if_neg (by decide)]
    decide

theorem endsName_members {names : List String} (h : EndsName us) :
    EndsName (behindEach " & " (names.map named) ++ us) := by
  cases names with
  | nil => exact h
  | cons name names =>
    rw [List.map_cons, behindEach_member]
    exact endsName_member

/-! ## Types with text behind them -/

/-- A type is told from every other one, whatever may stand behind them. -/
def Told (a : SwiftType) : Prop :=
  ∀ {b : SwiftType} {inside : Bool} {us vs : List Char}, Legible b → EndsType inside a us →
    EndsType inside b vs → a.text.toList ++ us = b.text.toList ++ vs → a = b ∧ us = vs

/-- A type in brackets starts with one, every other type with a word character. -/
theorem Legible.starts (h : Legible a) (us : List Char) : ∃ c cs, a.text.toList ++ us = c :: cs ∧
    (c = '[' ∨ isWordPart c = true) ∧ (a.isBracketed = true ↔ c = '[') := by
  have ofName : ∀ {name : String} {us : List Char}, IsTypeName name → ∃ c cs,
      name.toList ++ us = c :: cs ∧ (c = '[' ∨ isWordPart c = true) ∧ (false = true ↔ c = '[') := by
    intro name us hname
    obtain ⟨c, cs, hstarts, hc⟩ := hname.starts us
    refine ⟨c, cs, hstarts, .inr hc, ⟨nofun, ?_⟩⟩
    rintro rfl
    rw [isWordPart_of_mark (by decide)] at hc
    cases hc
  cases h with
  | named isName => exact ofName isName
  | generic isName =>
    rw [generic_append]
    exact ofName isName
  | array => exact ⟨'[', _, array_append _ us, .inl rfl, ⟨fun _ => rfl, fun _ => rfl⟩⟩
  | dictionary => exact ⟨'[', _, dictionary_append _ _ us, .inl rfl, ⟨fun _ => rfl, fun _ => rfl⟩⟩
  | composition isName =>
    rw [composition_append]
    exact ofName isName

/-- No type starts with a closing bracket. -/
theorem Legible.ne_closing (h : Legible a) : a.text.toList ++ us ≠ '>' :: vs := by
  intro heq
  obtain ⟨c, cs, hstarts, hc, -⟩ := h.starts us
  obtain rfl := (List.cons.inj (hstarts.symm.trans heq)).1
  rw [isWordPart_of_mark (by decide)] at hc
  exact absurd hc (by decide)

/-- A type in brackets is told from one without by the first character. -/
theorem Legible.isBracketed_eq (ha : Legible a) (hb : Legible b)
    (h : a.text.toList ++ us = b.text.toList ++ vs) : a.isBracketed = b.isBracketed := by
  obtain ⟨c, cs, hc, -, hca⟩ := ha.starts us
  obtain ⟨d, ds, hd, -, hdb⟩ := hb.starts vs
  obtain rfl := (List.cons.inj (hc.symm.trans (h.trans hd))).1
  exact Bool.eq_iff_iff.mpr (hca.trans hdb.symm)

theorem endsType_behindEach (type : SwiftType) (types : List SwiftType) (us : List Char) :
    EndsType true type (behindEach ", " types ++ '>' :: us) := by
  cases types with
  | nil => exact .inside (by decide)
  | cons t types =>
    rw [behindEach_argument]
    exact .inside (by decide)

theorem behindEach_append_inj {as bs : List SwiftType} (has : ∀ a ∈ as, Told a)
    (hbs : ∀ b ∈ bs, Legible b)
    (h : behindEach ", " as ++ '>' :: us = behindEach ", " bs ++ '>' :: vs) :
    as = bs ∧ us = vs := by
  induction as generalizing bs with
  | nil =>
    cases bs with
    | nil => exact ⟨rfl, (List.cons.inj h).2⟩
    | cons b bs =>
      rw [behindEach_argument] at h
      exact absurd (List.cons.inj h).1 (by decide)
  | cons a as ih =>
    cases bs with
    | nil =>
      rw [behindEach_argument] at h
      exact absurd (List.cons.inj h).1 (by decide)
    | cons b bs =>
      obtain ⟨hfirst, hmore⟩ := List.forall_mem_cons.mp has
      obtain ⟨hfirst', hmore'⟩ := List.forall_mem_cons.mp hbs
      rw [behindEach_argument, behindEach_argument] at h
      obtain ⟨rfl, hrest⟩ := hfirst hfirst' (endsType_behindEach a as us)
        (endsType_behindEach b bs vs)
        (List.cons.inj (List.cons.inj h).2).2
      obtain ⟨rfl, rfl⟩ := ih hmore hmore' hrest
      exact ⟨rfl, rfl⟩

theorem arguments_append_inj {as bs : List SwiftType} (has : ∀ a ∈ as, Legible a ∧ Told a)
    (hbs : ∀ b ∈ bs, Legible b)
    (h : (", ".intercalate (texts as)).toList ++ '>' :: us =
      (", ".intercalate (texts bs)).toList ++ '>' :: vs) : as = bs ∧ us = vs := by
  cases as with
  | nil =>
    cases bs with
    | nil => exact ⟨rfl, (List.cons.inj h).2⟩
    | cons b bs =>
      rw [toList_items, List.append_assoc] at h
      exact absurd h.symm (List.forall_mem_cons.mp hbs).1.ne_closing
  | cons a as =>
    obtain ⟨hfirst, hmore⟩ := List.forall_mem_cons.mp has
    rw [toList_items, List.append_assoc] at h
    cases bs with
    | nil => exact absurd h hfirst.1.ne_closing
    | cons b bs =>
      obtain ⟨hfirst', hmore'⟩ := List.forall_mem_cons.mp hbs
      rw [toList_items, List.append_assoc] at h
      obtain ⟨rfl, hrest⟩ := hfirst.2 hfirst' (endsType_behindEach a as us)
        (endsType_behindEach b bs vs) h
      obtain ⟨rfl, rfl⟩ := behindEach_append_inj (fun a ha => (hmore a ha).2) hmore' hrest
      exact ⟨rfl, rfl⟩

theorem members_append_inj {names names' : List String} (h : ∀ name ∈ names, IsTypeName name)
    (h' : ∀ name ∈ names', IsTypeName name) (hu : EndsType true a us) (hv : EndsType true b vs)
    (heq : behindEach " & " (names.map named) ++ us = behindEach " & " (names'.map named) ++ vs) :
    names = names' ∧ us = vs := by
  induction names generalizing names' with
  | nil =>
    cases names' with
    | nil => exact ⟨rfl, heq⟩
    | cons name' names' =>
      rw [List.map_cons, behindEach_member] at heq
      obtain rfl := heq
      exact absurd hu EndsType.not_inside_blank
  | cons name names ih =>
    cases names' with
    | nil =>
      rw [List.map_cons, behindEach_member] at heq
      obtain rfl := heq
      exact absurd hv EndsType.not_inside_blank
    | cons name' names' =>
      obtain ⟨hname, hnames⟩ := List.forall_mem_cons.mp h
      obtain ⟨hname', hnames'⟩ := List.forall_mem_cons.mp h'
      rw [List.map_cons, List.map_cons, behindEach_member, behindEach_member] at heq
      obtain ⟨rfl, hrest⟩ := hname.append_inj hname' (endsName_members hu.endsName)
        (endsName_members hv.endsName) (List.cons.inj (List.cons.inj (List.cons.inj heq).2).2).2
      obtain ⟨rfl, rfl⟩ := ih hnames hnames' hrest
      exact ⟨rfl, rfl⟩

/-! ## Each type is told from the others -/

theorem told_named (isName : IsTypeName name) : Told (named name) := by
  intro b inside us vs hb hu hv heq
  have hsame := (Legible.named isName).isBracketed_eq hb heq
  rw [text_named] at heq
  cases hb with
  | named isName' =>
    rw [text_named] at heq
    obtain ⟨rfl, rfl⟩ := isName.append_inj isName' hu.endsName hv.endsName heq
    exact ⟨rfl, rfl⟩
  | generic isName' =>
    rw [generic_append] at heq
    obtain ⟨rfl, rfl⟩ := isName.append_inj isName' hu.endsName endsName_list heq
    exact hu.ne_list.elim
  | composition isName' =>
    rw [composition_append, List.map_cons, behindEach_member] at heq
    obtain ⟨rfl, rfl⟩ := isName.append_inj isName' hu.endsName endsName_member heq
    exact (hu.ne_blank hv rfl).elim
  | array | dictionary => cases hsame

theorem told_generic {arguments : List SwiftType} (isName : IsTypeName name)
    (each : ∀ a ∈ arguments, Legible a ∧ Told a) : Told (generic name arguments) := by
  intro b inside us vs hb hu hv heq
  have hsame := (Legible.generic isName fun a ha => (each a ha).1).isBracketed_eq hb heq
  rw [generic_append] at heq
  cases hb with
  | named isName' =>
    rw [text_named] at heq
    obtain ⟨rfl, rfl⟩ := isName.append_inj isName' endsName_list hv.endsName heq
    exact hv.ne_list.elim
  | generic isName' each' =>
    rw [generic_append] at heq
    obtain ⟨rfl, hrest⟩ := isName.append_inj isName' endsName_list endsName_list heq
    obtain ⟨rfl, rfl⟩ := arguments_append_inj each each' (List.cons.inj hrest).2
    exact ⟨rfl, rfl⟩
  | composition isName' =>
    rw [composition_append, List.map_cons, behindEach_member] at heq
    obtain ⟨rfl, hrest⟩ := isName.append_inj isName' endsName_list endsName_member heq
    exact absurd (List.cons.inj hrest).1 (by decide)
  | array | dictionary => cases hsame

theorem told_array {element : SwiftType} (legible : Legible element) (told : Told element) :
    Told (array element) := by
  intro b inside us vs hb hu hv heq
  have hsame := (Legible.array legible).isBracketed_eq hb heq
  rw [array_append] at heq
  cases hb with
  | array legible' =>
    rw [array_append] at heq
    obtain ⟨rfl, hrest⟩ := told legible' (.inside (by decide)) (.inside (by decide))
      (List.cons.inj heq).2
    exact ⟨rfl, (List.cons.inj hrest).2⟩
  | dictionary keys' =>
    rw [dictionary_append] at heq
    obtain ⟨-, hrest⟩ := told keys' (.inside (by decide)) (.inside (by decide)) (List.cons.inj heq).2
    exact absurd (List.cons.inj hrest).1 (by decide)
  | named | generic | composition => cases hsame

theorem told_dictionary {key value : SwiftType} (keys : Legible key) (values : Legible value)
    (told : Told key) (told' : Told value) : Told (dictionary key value) := by
  intro b inside us vs hb hu hv heq
  have hsame := (Legible.dictionary keys values).isBracketed_eq hb heq
  rw [dictionary_append] at heq
  cases hb with
  | array legible' =>
    rw [array_append] at heq
    obtain ⟨-, hrest⟩ := told legible' (.inside (by decide)) (.inside (by decide))
      (List.cons.inj heq).2
    exact absurd (List.cons.inj hrest).1 (by decide)
  | dictionary keys' values' =>
    rw [dictionary_append] at heq
    obtain ⟨rfl, hrest⟩ := told keys' (.inside (by decide)) (.inside (by decide))
      (List.cons.inj heq).2
    obtain ⟨rfl, hbehind⟩ := told' values' (.inside (by decide)) (.inside (by decide))
      (List.cons.inj (List.cons.inj hrest).2).2
    exact ⟨rfl, (List.cons.inj hbehind).2⟩
  | named | generic | composition => cases hsame

theorem told_composition {first second : String} {more : List String} (isName : IsTypeName first)
    (each : ∀ name ∈ second :: more, IsTypeName name) :
    Told (composition ((first :: second :: more).map named)) := by
  intro b inside us vs hb hu hv heq
  have hsame := (Legible.composition isName each).isBracketed_eq hb heq
  rw [composition_append] at heq
  cases hb with
  | named isName' =>
    rw [text_named, List.map_cons, behindEach_member] at heq
    obtain ⟨rfl, rfl⟩ := isName.append_inj isName' endsName_member hv.endsName heq
    exact (hv.ne_blank hu rfl).elim
  | generic isName' =>
    rw [generic_append, List.map_cons, behindEach_member] at heq
    obtain ⟨rfl, hrest⟩ := isName.append_inj isName' endsName_member endsName_list heq
    exact absurd (List.cons.inj hrest).1 (by decide)
  | composition isName' each' =>
    rw [composition_append] at heq
    obtain ⟨rfl, hrest⟩ := isName.append_inj isName' (endsName_members hu.endsName)
      (endsName_members hv.endsName) heq
    cases inside with
    | false =>
      cases hu with
      | outside _ _ single => cases single
    | true =>
      obtain ⟨hmore, rfl⟩ := members_append_inj each each' hu hv hrest
      obtain ⟨rfl, rfl⟩ := List.cons.inj hmore
      exact ⟨rfl, rfl⟩
  | array | dictionary => cases hsame

/-- Types as the mapping makes them are told apart by their texts, with any text behind them that
    may stand there. -/
theorem Legible.told (h : Legible a) : Told a := by
  induction h with
  | named isName => exact told_named isName
  | generic isName each ih => exact told_generic isName fun a ha => ⟨each a ha, ih a ha⟩
  | array each ih => exact told_array each ih
  | dictionary keys values ihk ihv => exact told_dictionary keys values ihk ihv
  | composition isName each => exact told_composition isName each

end HeaderBridge.SwiftType
