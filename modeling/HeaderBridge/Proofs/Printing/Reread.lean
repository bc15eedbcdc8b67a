/-
  The text of a readable type is read back. Wherever the text stands in front of a mark, the grammar
  sees the same tokens of it, once double brackets are taken apart, and each row of these tokens is a
  spelling of the type (`Prints`). So a property that is declared with the text has the type and the
  nullability again, whatever source the type is from.
-/
import HeaderBridge.Proofs.Header.Reproduced
import HeaderBridge.Proofs.Printing.Faces
import HeaderBridge.Proofs.Printing.Rules

namespace HeaderBridge

open Grammar
open Lexer (isWordStart operatorPair typeSigns)

/-! ## Texts and the rows of tokens that show them -/

/-- In front of whatever may stand behind a type the text shows the same tokens, and `P` holds of
    each row of these tokens. -/
def Prints (text : List Char) (P : List Token → Prop) : Prop :=
  ∃ fs, (∀ cs, GoesOn cs → singleFaces (text ++ cs) = fs ++ singleFaces cs) ∧
    ∀ ts, ts.map Token.face = fs → P ts

theorem exists_of_map_face_eq_singleton {ts : List Token} {face : TokenKind × String}
    (h : ts.map Token.face = [face]) : ∃ t, ts = [t] ∧ t.kind = face.1 ∧ t.text = face.2 := by
  obtain ⟨t, rest, rfl, ht, hrest⟩ := List.map_eq_cons_iff.mp h
  obtain rfl := List.map_eq_nil_iff.mp hrest
  exact ⟨t, rfl, congrArg Prod.fst ht, congrArg Prod.snd ht⟩

namespace Prints

variable {text text' : List Char} {P Q : List Token → Prop} {c : Char} {kind : TokenKind}

theorem mono (h : Prints text P) (hP : ∀ ts, P ts → Q ts) : Prints text Q := by
  obtain ⟨fs, hshown, hrows⟩ := h
  exact ⟨fs, hshown, fun ts hts => hP ts (hrows ts hts)⟩

theorem nil : Prints [] (· = []) :=
  ⟨[], fun _ _ => rfl, fun _ hts => List.map_eq_nil_iff.mp hts⟩

theorem word {w : String} (hw : IsWord w.toList) :
    Prints w.toList fun ts => ∃ t, ts = [t] ∧ t.kind = .identifier ∧ t.text = w :=
  ⟨[(.identifier, w)], fun _ hcs => singleFaces_word hw hcs.endsRun,
    fun _ hts => exists_of_map_face_eq_singleton hts⟩

theorem append (h : Prints text P) (h' : Prints text' Q)
    (hgoes : ∀ cs, GoesOn cs → GoesOn (text' ++ cs)) :
    Prints (text ++ text') fun ts => ∃ us vs : List Token, ts = us ++ vs ∧ P us ∧ Q vs := by
  obtain ⟨fs, hshown, hrows⟩ := h
  obtain ⟨fs', hshown', hrows'⟩ := h'
  refine ⟨fs ++ fs', fun cs hcs => ?_, fun ts hts => ?_⟩
  · rw [List.append_assoc, hshown _ (hgoes cs hcs), hshown' cs hcs, List.append_assoc]
  · obtain ⟨us, vs, rfl, hus, hvs⟩ := List.map_eq_append_iff.mp hts
    exact ⟨us, vs, rfl, hrows us hus, hrows' vs hvs⟩

theorem blank (h : Prints text P) : Prints (' ' :: text) P := by
  obtain ⟨fs, hshown, hrows⟩ := h
  refine ⟨fs, fun cs hcs => ?_, hrows⟩
  rw [List.cons_append, singleFaces_blank, hshown cs hcs]

theorem sign (hsign : (c, kind) ∈ typeSigns)
    (hpair : ∀ cs, GoesOn cs → ∀ d ∈ (text ++ cs).head?, operatorPair c d = none)
    (h : Prints text P) :
    Prints (c :: text) fun ts =>
      ∃ (t : Token) (us : List Token), ts = t :: us ∧ t.kind = kind ∧ P us := by
  obtain ⟨fs, hshown, hrows⟩ := h
  refine ⟨(kind, String.ofList [c]) :: fs, fun cs hcs => ?_, fun ts hts => ?_⟩
  · rw [List.cons_append, singleFaces_sign hsign (hpair cs hcs), hshown cs hcs, List.cons_append]
  · obtain ⟨t, us, rfl, ht, hus⟩ := List.map_eq_cons_iff.mp hts
    exact ⟨t, us, rfl, congrArg Prod.fst ht, hrows us hus⟩

theorem closing : Prints ['>'] fun ts => ∃ t, ts = [t] ∧ t.kind = .greater := by
  refine ⟨[(.greater, ">")], fun cs hcs => hcs.closing, fun ts hts => ?_⟩
  obtain ⟨t, rfl, hkind, -⟩ := exists_of_map_face_eq_singleton hts
  exact ⟨t, rfl, hkind⟩

theorem star (h : Prints text P) :
    Prints (text ++ ['*']) fun ts =>
      ∃ (us : List Token) (t : Token), ts = us ++ [t] ∧ P us ∧ t.kind = .star := by
  have hstar : Prints ['*'] fun ts => ∃ t, ts = [t] ∧ t.kind = .star := by
    refine ⟨[(.star, "*")], fun cs hcs => hcs.star, fun ts hts => ?_⟩
    obtain ⟨t, rfl, hkind, -⟩ := exists_of_map_face_eq_singleton hts
    exact ⟨t, rfl, hkind⟩
  refine (h.append hstar fun cs _ => .of_mark (by decide)).mono ?_
  rintro _ ⟨us, _, rfl, hus, t, rfl, ht⟩
  exact ⟨us, t, rfl, hus, ht⟩

/-- A list in angle brackets behind a name. -/
theorem bracketed {inner : List Char} (h : Prints text P) (hinner : Prints inner Q)
    (hstart : ∀ c ∈ inner.head?, isWordStart c = true) :
    Prints (text ++ '<' :: (inner ++ ['>'])) fun ts =>
      ∃ (us : List Token) (less : Token) (vs : List Token) (greater : Token),
        ts = us ++ less :: (vs ++ [greater]) ∧ P us ∧ less.kind = .less ∧ Q vs ∧
          greater.kind = .greater := by
  have hless : ('<', TokenKind.less) ∈ typeSigns := by decide
  have hlist := hinner.append closing fun cs hcs => hcs.bracket
  have hpair : ∀ cs, GoesOn cs → ∀ d ∈ (inner ++ ['>'] ++ cs).head?, operatorPair '<' d = none := by
    intro cs _ d hd
    cases inner with
    | nil => cases hd; rfl
    | cons d' inner =>
      obtain rfl := Option.some.inj hd
      have hd' := Lexer.not_mem_signs (hstart d' rfl)
      unfold operatorPair
      split <;> first | rfl | exact absurd (by decide) hd'
  refine (h.append (hlist.sign hless hpair) fun cs _ =>
    .of_mark (by decide)).mono ?_
  rintro _ ⟨us, _, rfl, hus, less, _, rfl, hless, vs, _, rfl, hvs, greater, rfl, hgreater⟩
  exact ⟨us, less, vs, greater, rfl, hus, hless, hvs, hgreater⟩

/-- Items with commas between them. -/
theorem list {α β : Type} {text : α → String} {tokens : β → List Token} {value : β → α}
    {Q : β → Prop} {items : List α} (h : ∀ i ∈ items, Prints (text i).toList fun ts =>
      ∃ b, tokens b = ts ∧ value b = i ∧ Q b) :
    Prints (", ".intercalate (items.map text)).toList fun ts => ∃ found : List β,
      found.map value = items ∧ (∀ b ∈ found, Q b) ∧ Commas (found.map tokens) ts := by
  have hcomma : (',', TokenKind.comma) ∈ typeSigns := by decide
  induction items with
  | nil =>
    refine nil.mono ?_
    rintro _ rfl
    exact ⟨[], rfl, List.forall_mem_nil _, .none⟩
  | cons i items ih =>
    obtain ⟨hi, hitems⟩ := List.forall_mem_cons.mp h
    cases items with
    | nil =>
      rw [List.map_singleton, String.intercalate_singleton]
      refine hi.mono ?_
      rintro _ ⟨b, rfl, rfl, hb⟩
      exact ⟨[b], rfl, List.forall_mem_singleton.mpr hb, .one _⟩
    | cons j items =>
      have htext : (", ".intercalate ((i :: j :: items).map text)).toList = (text i).toList ++
          ',' :: ' ' :: (", ".intercalate ((j :: items).map text)).toList := by
        rw [List.map_cons, List.map_cons, String.intercalate_cons_cons, String.toList_append,
          String.toList_append, List.append_assoc]
        rfl
      rw [htext]
      refine (hi.append ((ih hitems).blank.sign hcomma ?_) fun cs _ =>
        .of_mark (by decide)).mono ?_
      · rintro cs - _ ⟨⟩
        rfl
      · rintro _ ⟨_, _, rfl, ⟨b, rfl, rfl, hb⟩, comma, ts, rfl, hkind, found, hfound, hall, hcommas⟩
        cases found with
        | nil => cases hfound
        | cons b' found =>
          exact ⟨b :: b' :: found, congrArg _ hfound, List.forall_mem_cons.mpr ⟨hb, hall⟩,
            .more _ _ hkind hcommas⟩

end Prints

/-! ## Names -/

theorem IsWord.starts {cs : List Char} (h : IsWord cs) :
    ∃ c rest, cs = c :: rest ∧ isWordStart c = true := by
  cases cs with
  | nil => exact absurd rfl h.1.1
  | cons c rest => exact ⟨c, rest, rfl, h.2 c rfl⟩

namespace Grammar

variable {first name : String} {more : List String}

/-- A word with the words that go on it. -/
theorem FollowsWord.prints (h : FollowsWord first more) (hfirst : IsWord first.toList) :
    Prints (" ".intercalate (first :: more)).toList fun ts => ∃ t rest, ts = t :: rest ∧
      t.kind = .identifier ∧ t.text = first ∧ rest.map (·.text) = more ∧ NameTail first rest := by
  induction h with
  | nil =>
    rw [String.intercalate_singleton]
    refine (Prints.word hfirst).mono ?_
    rintro _ ⟨t, rfl, hkind, htext⟩
    exact ⟨t, [], rfl, hkind, htext, rfl, trivial⟩
  | @cons last word more opens follows _ ih =>
    have htext : (" ".intercalate (last :: word :: more)).toList =
        last.toList ++ ' ' :: (" ".intercalate (word :: more)).toList := by
      rw [String.intercalate_cons_cons, String.toList_append, String.toList_append,
        List.append_assoc]
      rfl
    rw [htext]
    refine ((Prints.word hfirst).append (ih (isWord_of_followingWords word follows)).blank fun cs _ =>
      .of_mark (by decide)).mono ?_
    rintro _ ⟨_, _, rfl, ⟨t, rfl, hkind, rfl⟩, u, rest, rfl, hkind', rfl, rfl, htail⟩
    exact ⟨t, u :: rest, rfl, hkind, rfl, rfl, opens, hkind', follows, htail⟩

theorem IsBaseName.prints (h : IsBaseName name) :
    Prints name.toList fun ts => NameSpelling ts name ∧ startsWithQualifier ts = false := by
  obtain ⟨first, more, hfirst, hfree, hfollows, rfl⟩ := h
  refine (hfollows.prints hfirst).mono ?_
  rintro _ ⟨t, rest, rfl, hkind, rfl, rfl, htail⟩
  exact ⟨.words hkind htail, startsWithQualifier_of_word hfree rest⟩

theorem IsBaseName.starts (h : IsBaseName name) :
    ∃ c cs, name.toList = c :: cs ∧ isWordStart c = true := by
  obtain ⟨first, more, hfirst, -, -, rfl⟩ := h
  obtain ⟨c, cs, hlist, hc⟩ := hfirst.starts
  rw [toList_intercalate, hlist]
  exact ⟨c, _, rfl, hc⟩

/-! ## Types -/

/-- One more star behind stars. -/
theorem Stars.snoc {type last : ObjcType} {found total : Option Nullability} {ts : List Token}
    (h : Stars type found ts last total) {star : Token} (hstar : star.kind = .star) :
    Stars type found (ts ++ [star]) (.pointer last) total := by
  induction h with
  | none type found => exact .star hstar (List.forall_mem_nil _) (.none _ _)
  | star kind qualify more ih =>
    rw [List.cons_append, List.append_assoc]
    exact .star kind qualify ih

theorem Spelling.pointer {type : ObjcType} {found : Option Nullability} {ts : List Token}
    (h : Spelling ts type found) {star : Token} (hstar : star.kind = .star) :
    Spelling (ts ++ [star]) (.pointer type) found := by
  cases h with
  | plain spelt behind =>
    rw [List.append_assoc]
    exact .plain spelt (behind.snoc hstar)
  | protocols id opening items commas closing behind =>
    simp only [List.cons_append, List.append_assoc]
    exact .protocols id opening items commas closing (behind.snoc hstar)
  | generic spelt other opening led items commas closing behind =>
    simp only [List.cons_append, List.append_assoc]
    exact .generic spelt other opening led items commas closing (behind.snoc hstar)

end Grammar

namespace ObjcType

variable {t : ObjcType}

theorem texts_eq (types : List ObjcType) : texts types = types.map text := by
  induction types with
  | nil => rfl
  | cons t types ih => rw [texts, ih, List.map_cons]

theorem text_id (p : String) (protocols : List String) :
    (ObjcType.id (p :: protocols)).text = "id<" ++ ", ".intercalate (p :: protocols) ++ ">" := by
  rw [text]
  nofun

theorem Readable.starts (h : t.Readable) :
    ∃ c cs, t.text.toList = c :: cs ∧ isWordStart c = true := by
  have hid : isWordStart 'i' = true := by decide
  induction h with
  | named isName => exact isName.starts
  | @id protocols =>
    cases protocols with
    | nil => exact ⟨'i', ['d'], rfl, hid⟩
    | cons p protocols =>
      rw [text_id, String.toList_append, String.toList_append, List.append_assoc]
      exact ⟨'i', _, rfl, hid⟩
  | generic isName =>
    obtain ⟨c, cs, hname, hc⟩ := isName.starts
    simp only [text, String.toList_append, List.append_assoc, hname]
    exact ⟨c, _, rfl, hc⟩
  | pointer readable ih =>
    obtain ⟨c, cs, htext, hc⟩ := ih
    rw [text, String.toList_append, htext]
    exact ⟨c, _, rfl, hc⟩

/-- The text of a list starts with its first item. -/
theorem starts_intercalate {items : List String}
    (h : ∀ i ∈ items, ∃ c cs, i.toList = c :: cs ∧ isWordStart c = true) :
    ∀ c ∈ (", ".intercalate items).toList.head?, isWordStart c = true := by
  cases items with
  | nil => exact fun _ hc => by cases hc
  | cons i items =>
    obtain ⟨c, cs, hi, hc⟩ := h i List.mem_cons_self
    rw [toList_intercalate, hi]
    rintro _ ⟨⟩
    exact hc

theorem plain_prints {name : String} (h : IsBaseName name) (other : name ≠ "id") :
    Prints (ObjcType.named name).text.toList fun ts =>
      Spelling ts (.named name) none ∧ startsWithQualifier ts = false := by
  have hplain : plainType name = .named name := if_neg other
  refine h.prints.mono fun ts ⟨hspelt, hfree⟩ => ⟨?_, hfree⟩
  have hspelling := Spelling.plain hspelt (.none _ _)
  rwa [hplain, List.append_nil] at hspelling

theorem id_prints {protocols : List String} (words : ∀ p ∈ protocols, IsWord p.toList) :
    Prints (ObjcType.id protocols).text.toList fun ts =>
      Spelling ts (.id protocols) none ∧ startsWithQualifier ts = false := by
  have hword : Prints ("id" : String).toList fun ts => ∃ t, ts = [t] ∧ t.kind = .identifier ∧
      t.text = "id" := .word (by decide)
  have hfree : ∀ {t : Token} {rest : List Token}, t.text = "id" →
      startsWithQualifier (t :: rest) = false := fun htext =>
    startsWithQualifier_of_word (by rw [htext]; rfl) _
  cases protocols with
  | nil =>
    refine hword.mono ?_
    rintro _ ⟨t, rfl, hkind, htext⟩
    refine ⟨?_, hfree htext⟩
    have hspelling := Spelling.plain (.words hkind (show NameTail t.text [] from trivial))
      (.none _ _)
    rwa [List.map_nil, String.intercalate_singleton, htext] at hspelling
  | cons p protocols =>
    have htext : (ObjcType.id (p :: protocols)).text.toList = ("id" : String).toList ++
        '<' :: ((", ".intercalate (p :: protocols)).toList ++ ['>']) := by
      simp [text_id, String.toList_append]
    have hlist := @Prints.list String Token (fun p => p) (fun t => [t]) Token.text
      (·.kind = .identifier) (p :: protocols) fun p hp =>
        (Prints.word (words p hp)).mono fun ts ⟨t, hts, hkind, htext⟩ => ⟨t, hts.symm, htext, hkind⟩
    rw [List.map_id'] at hlist
    have hstarts : ∀ p' ∈ p :: protocols, ∃ c cs, p'.toList = c :: cs ∧ isWordStart c = true :=
      fun p' hp' => (words p' hp').starts
    rw [htext]
    refine (hword.bracketed hlist (starts_intercalate hstarts)).mono ?_
    rintro _ ⟨_, less, inner, greater, rfl, ⟨t, rfl, hkind, hid⟩, hless, ⟨names, hnames, hall,
      hcommas⟩, hgreater⟩
    rw [← hnames]
    exact ⟨.protocols ⟨hkind, hid⟩ hless hall hcommas hgreater (.none _ _), hfree hid⟩

theorem generic_prints {name : String} {arguments : List ObjcType} (isName : IsBaseName name)
    (other : name ≠ "id")
    (starts : ∀ a ∈ arguments, ∃ c cs, a.text.toList = c :: cs ∧ isWordStart c = true)
    (each : ∀ a ∈ arguments, Prints a.text.toList fun ts =>
      Spelling ts a none ∧ startsWithQualifier ts = false) :
    Prints (ObjcType.generic name arguments).text.toList fun ts =>
      Spelling ts (.generic name arguments) none ∧ startsWithQualifier ts = false := by
  have htext : (ObjcType.generic name arguments).text.toList = name.toList ++
      '<' :: ((", ".intercalate (arguments.map text)).toList ++ ['>']) := by
    rw [text, texts_eq]
    simp [String.toList_append]
  have hinner : Prints (", ".intercalate (arguments.map text)).toList fun ts =>
      ∃ found : List Argument, found.map Argument.type = arguments ∧
        (∀ a ∈ found, a.Led ∧ Spelling a.body a.type a.nullability) ∧
        Commas (found.map Argument.tokens) ts :=
    .list fun a ha => (each a ha).mono fun ts ⟨hspelt, hfree⟩ =>
      ⟨⟨[], ts, a, none⟩, rfl, rfl, ⟨List.forall_mem_nil _, hfree⟩, hspelt⟩
  rw [htext]
  refine (isName.prints.bracketed hinner (starts_intercalate (List.forall_mem_map.mpr starts))).mono ?_
  rintro _ ⟨words, less, inner, greater, rfl, ⟨hname, hfree⟩, hless, ⟨found, rfl, hall, hcommas⟩,
    hgreater⟩
  refine ⟨.generic hname other hless (fun a ha => (hall a ha).1) (fun a ha => (hall a ha).2) hcommas
    hgreater (.none _ _), ?_⟩
  have hstarts := hname.starts []
  rw [List.append_nil] at hstarts
  exact startsWithQualifier_append hfree hstarts _

/-- The text of a readable type shows only spellings of the type. -/
theorem Readable.prints (h : t.Readable) : Prints t.text.toList fun ts =>
    Spelling ts t none ∧ startsWithQualifier ts = false := by
  induction h with
  | named isName other => exact plain_prints isName other
  | id words => exact id_prints words
  | generic isName other each ih =>
    exact generic_prints isName other (fun a ha => (each a ha).starts) ih
  | pointer readable ih =>
    rw [text, String.toList_append]
    refine ih.star.mono ?_
    rintro _ ⟨us, star, rfl, ⟨hspelt, hfree⟩, hstar⟩
    exact ⟨hspelt.pointer hstar, hspelt.free_append hfree _⟩

end ObjcType

/-! ## Type names -/

theorem isWord_nullability (n : Nullability) : IsWord n.word.toList := by
  cases n <;> decide

theorem mem_nullabilityWords (n : Nullability) : (n.word, n) ∈ nullabilityWords := by
  cases n <;> decide

/-- The word for a nullability states it. -/
theorem lastNullability_word (n : Nullability) {q : Token} (htext : q.text = n.word) :
    lastNullability [q] = some n :=
  lastNullability_eq_some_iff.mpr
    ⟨[], q, [], rfl, htext ▸ mem_nullabilityWords n, List.forall_mem_nil _⟩

theorem qualifies_word (n : Nullability) {q : Token} (hkind : q.kind = .identifier)
    (htext : q.text = n.word) : Qualifies q :=
  qualifies_iff.mpr ⟨hkind, Or.inl ⟨n, htext ▸ mem_nullabilityWords n⟩⟩

/-- The text of a type name shows only spellings of it. -/
theorem TypeName.prints {t : TypeName} (h : t.type.Readable) :
    Prints t.text.toList fun ts => StatedSpelling ts t.stated := by
  obtain ⟨type, nullability, span⟩ := t
  cases nullability with
  | none =>
    exact h.prints.mono fun ts ⟨hspelt, hfree⟩ => .stated (List.forall_mem_nil _) hfree hspelt
  | some n =>
    have htext : (TypeName.mk type (some n) span).text.toList =
        n.word.toList ++ ' ' :: type.text.toList := by
      simp [TypeName.text, String.toList_append]
    rw [htext]
    refine ((Prints.word (isWord_nullability n)).append h.prints.blank fun cs _ =>
      .of_mark (by decide)).mono ?_
    rintro _ ⟨_, ts, rfl, ⟨q, rfl, hkind, hword⟩, hspelt, hfree⟩
    have hstated := StatedSpelling.stated
      (List.forall_mem_singleton.mpr (qualifies_word n hkind hword)) hfree hspelt
    rwa [lastNullability_word n hword] at hstated

/-! ## A property of the type -/

/-- What the grammar sees in front of the type of the first property in a class. -/
theorem singleFaces_opening {ds : List Char} (hends : Lexer.Ends ds) :
    singleFaces (("@interface A\n@property" : String).toList ++ ds) =
      (.atInterface, "@interface") :: (.identifier, "A") :: (.atProperty, "@property") ::
        singleFaces ds := by
  have htokens : tokenize "@interface A\n@property" = [
      ⟨.atInterface, "@interface", ⟨0, 10, by decide⟩⟩, ⟨.identifier, "A", ⟨11, 12, by decide⟩⟩,
      ⟨.atProperty, "@property", ⟨13, 22, by decide⟩⟩, ⟨.endOfFile, "", ⟨22, 22, by decide⟩⟩] := by
    cbv
  have hvalid : ∀ t ∈ significant (tokenize "@interface A\n@property"), t.kind ≠ .invalid := by
    rw [htokens]
    decide
  have hline : ¬ EndsInLine "@interface A\n@property" := by
    unfold EndsInLine
    rw [htokens]
    decide
  rw [singleFaces_eq, seenFaces_append hends hvalid hline, List.flatMap_append, ← singleFaces_eq,
    htokens]
  rfl

/-- The name of the property and what stands behind it. -/
def nameFaces : List (TokenKind × String) :=
  [(.identifier, "x"), (.semicolon, ";"), (.atEnd, "@end")]

theorem singleFaces_closing : singleFaces (" x;\n@end" : String).toList = nameFaces := by
  have htokens : tokenize " x;\n@end" = [⟨.identifier, "x", ⟨1, 2, by decide⟩⟩,
      ⟨.semicolon, ";", ⟨2, 3, by decide⟩⟩, ⟨.atEnd, "@end", ⟨4, 8, by decide⟩⟩,
      ⟨.endOfFile, "", ⟨8, 8, by decide⟩⟩] := by
    cbv
  show halvedFaces (significant (tokenize " x;\n@end")) = _
  rw [htokens]
  rfl

/-- The tokens of a class with one property. -/
theorem headerSpelling_of_faces {us : List Token} {fs : List (TokenKind × String)}
    {type : StatedType} (hrows : ∀ ts, ts.map Token.face = fs → StatedSpelling ts type)
    (h : us.map Token.face =
      (.atInterface, "@interface") :: (.identifier, "A") :: (.atProperty, "@property") ::
        (fs ++ nameFaces)) :
    HeaderSpelling us [.classInterface "A" none [] [.property ⟨[], type, "x", false⟩]] := by
  obtain ⟨directive, _, rfl, hdirective, h⟩ := List.map_eq_cons_iff.mp h
  obtain ⟨name, _, rfl, hname, h⟩ := List.map_eq_cons_iff.mp h
  obtain ⟨property, _, rfl, hproperty, h⟩ := List.map_eq_cons_iff.mp h
  obtain ⟨ts, back, rfl, hts, hback⟩ := List.map_eq_append_iff.mp h
  obtain ⟨x, _, rfl, hx, hback⟩ := List.map_eq_cons_iff.mp hback
  obtain ⟨semicolon, _, rfl, hsemicolon, hback⟩ := List.map_eq_cons_iff.mp hback
  obtain ⟨last, rfl, hlast, -⟩ := exists_of_map_face_eq_singleton hback
  have hname : name.kind = .identifier ∧ name.text = "A" := Prod.mk.inj hname
  have hx : x.kind = .identifier ∧ x.text = "x" := Prod.mk.inj hx
  have hfree : isQualifier x.text = false := by
    rw [hx.2]
    rfl
  have hnames : NamesProperty x :=
    ⟨hx.1, startsWithQualifier_of_word hfree [], by rw [hx.2]; decide⟩
  have hspelt : PropertySpelling (property :: ([] ++ (ts ++ [x, semicolon])))
      ⟨[], type, x.text, false⟩ :=
    .property false (congrArg Prod.fst hproperty) .none (hrows ts hts) hnames (congrArg Prod.fst hsemicolon)
  have hbody : BodySpelling false false _ _ := .member (.property hspelt) (.done false)
  have hclass := DeclarationSpelling.classInterface (congrArg Prod.fst hdirective) hname.1 .none
    .none hbody hlast
  have hheader := HeaderSpelling.declaration hclass .done
  rw [hname.2, hx.2] at hheader
  simpa using hheader

/-- Whatever the source, a property that is declared with the text of a type of its tree is read
    without an error, and its type and its nullability are those of the type. -/
theorem types_read_again (source : String) (log : DiagnosticLog) (origin : Option String) :
    ∃ h, Header.read source log origin = .ok h ∧ ∀ t ∈ h.typeNames, ∀ log' origin', ∃ again,
      Header.read ("@interface A\n@property " ++ t.text ++ " x;\n@end") log' origin' = .ok again ∧
        again.errors = [] ∧ again.log = log' ∧ again.root.declarations? =
          some [.classInterface "A" none [] [.property ⟨[], t.stated, "x", false⟩]] := by
  obtain ⟨h, hread⟩ := exists_read_header source log origin
  refine ⟨h, hread, fun t ht log' origin' => ?_⟩
  obtain ⟨fs, hshown, hrows⟩ := TypeName.prints (Header.readable_of_read hread t ht)
  let again : String := "@interface A\n@property " ++ t.text ++ " x;\n@end"
  have hlist : again.toList = ("@interface A\n@property" : String).toList ++
      ' ' :: (t.text.toList ++ (" x;\n@end" : String).toList) := by
    simp [again, String.toList_append]
  have hends : Lexer.Ends (' ' :: (t.text.toList ++ (" x;\n@end" : String).toList)) := by
    rintro _ ⟨⟩
    decide
  have hgoes : GoesOn (" x;\n@end" : String).toList :=
    show GoesOn (' ' :: _) from .of_mark (by decide)
  have hfaces := singleFaces_opening hends
  rw [← hlist, singleFaces_blank, hshown _ hgoes, singleFaces_closing] at hfaces
  obtain ⟨us, hhalved, hus⟩ := InOrder.exists_halved (within_start again log' origin')
  obtain ⟨_, hdone, _⟩ := exists_header_done again log' origin'
  exact exists_read_of_header_done hhalved (headerSpelling_of_faces hrows (hus.trans hfaces)) hdone

/-- A nullability behind the star is printed in front of the type, and the type is the same. -/
theorem types_read_again_nullable :
    ∃ h, Header.read "@interface A @property Map<id<P>,Set<long int*>>*_Nullable y; @end" = .ok h ∧
      ∃ t ∈ h.typeNames, t.text = "nullable Map<id<P>, Set<long int*>>*" ∧ ∃ again, Header.read
        "@interface A\n@property nullable Map<id<P>, Set<long int*>>* x;\n@end" = .ok again ∧
        again.errors = [] ∧ again.root.declarations? =
          some [.classInterface "A" none [] [.property ⟨[], t.stated, "x", false⟩]] := by
  let row : List Token := [⟨.atInterface, "@interface", ⟨0, 10, by decide⟩⟩,
    ⟨.identifier, "A", ⟨11, 12, by decide⟩⟩, ⟨.atProperty, "@property", ⟨13, 22, by decide⟩⟩,
    ⟨.identifier, "Map", ⟨23, 26, by decide⟩⟩, ⟨.less, "<", ⟨26, 27, by decide⟩⟩,
    ⟨.identifier, "id", ⟨27, 29, by decide⟩⟩, ⟨.less, "<", ⟨29, 30, by decide⟩⟩,
    ⟨.identifier, "P", ⟨30, 31, by decide⟩⟩, ⟨.greater, ">", ⟨31, 32, by decide⟩⟩,
    ⟨.comma, ",", ⟨32, 33, by decide⟩⟩, ⟨.identifier, "Set", ⟨33, 36, by decide⟩⟩,
    ⟨.less, "<", ⟨36, 37, by decide⟩⟩, ⟨.identifier, "long", ⟨37, 41, by decide⟩⟩,
    ⟨.identifier, "int", ⟨42, 45, by decide⟩⟩, ⟨.star, "*", ⟨45, 46, by decide⟩⟩,
    ⟨.shiftRight, ">>", ⟨46, 48, by decide⟩⟩, ⟨.star, "*", ⟨48, 49, by decide⟩⟩,
    ⟨.identifier, "_Nullable", ⟨49, 58, by decide⟩⟩, ⟨.identifier, "y", ⟨59, 60, by decide⟩⟩,
    ⟨.semicolon, ";", ⟨60, 61, by decide⟩⟩, ⟨.atEnd, "@end", ⟨62, 66, by decide⟩⟩]
  have hrow : significant (tokenize
      "@interface A @property Map<id<P>,Set<long int*>>*_Nullable y; @end") = row := by cbv
  obtain ⟨h, hread, -, htest⟩ := exists_read_of_typeNames hrow (fun types => types.any fun t =>
    t.text == "nullable Map<id<P>, Set<long int*>>*") (by decide +kernel)
  obtain ⟨t, ht, htext⟩ := List.any_eq_true.mp htest
  have htext : t.text = "nullable Map<id<P>, Set<long int*>>*" := beq_iff_eq.mp htext
  obtain ⟨_, hread', hagain⟩ := types_read_again
    "@interface A @property Map<id<P>,Set<long int*>>*_Nullable y; @end" .empty none
  obtain rfl := Except.ok.inj (hread.symm.trans hread')
  obtain ⟨again, hreads, herrors, -, hdeclared⟩ := hagain t ht .empty none
  have hsource : "@interface A\n@property " ++ t.text ++ " x;\n@end" =
      "@interface A\n@property nullable Map<id<P>, Set<long int*>>* x;\n@end" := by
    rw [htext]
    decide
  rw [hsource] at hreads
  exact ⟨h, hread, t, ht, htext, again, hreads, herrors, hdeclared⟩

end HeaderBridge
