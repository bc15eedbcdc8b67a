/-
  What the grammar sees of a text of words and signs, such as the text of a type. A word ends where
  no word character follows, a sign where it makes no operator of two characters with what follows.
  Only brackets that close lists do: two of them are a double bracket. With every double bracket
  taken apart each of them is seen alone, however many there are.
-/
import HeaderBridge.Proofs.Agreement.Trying
import HeaderBridge.Proofs.Lexical.Joining
import HeaderBridge.Proofs.Rendering.Words

namespace HeaderBridge

variable {c : Char} {cs ds : List Char} {kind : TokenKind}

/-! ## Words and signs -/

namespace Lexer

/-- The blanks, and the characters that start a token other than a word. -/
def signs : List Char := [
  ' ', '\t', '\n', '\x0c', '\r', '#', '@', '"', '\'', '.', '=', '!', '*', '+', '-', '/', '<', '>', '&',
  '|', '(', ')', '[', ']', '{', '}', ',', ';', ':', '?', '~', '^', '%', '0', '1', '2', '3', '4', '5',
  '6', '7', '8', '9']

theorem not_mem_signs (h : isWordStart c = true) : c ∉ signs := by
  have hall : signs.all (fun c => !isWordStart c) = true := by decide
  intro hc
  have hnot := List.all_eq_true.mp hall c hc
  rw [h] at hnot
  cases hnot

theorem mem_signs_of_isDigit (h : c.isDigit = true) : c ∈ signs := by
  have hrange : 48 ≤ c.toNat ∧ c.toNat ≤ 57 := by
    simpa [Char.isDigit, UInt32.le_iff_toNat_le] using h
  rw [← Char.ofNat_toNat c]
  obtain ⟨hlower, hupper⟩ := hrange
  interval_cases c.toNat <;> decide

theorem operator_eq_none (h : c ∉ signs) : operator c cs = none := by
  have hpair : ∀ d, operatorPair c d = none := by
    intro d
    unfold operatorPair
    split <;> first | rfl | exact absurd (by decide) h
  have hsingle : operatorSingle c = none := by
    unfold operatorSingle
    split <;> first | rfl | exact absurd (by decide) h
  unfold operator
  cases cs with
  | nil => rw [List.head?_nil, Option.bind_none, hsingle]; rfl
  | cons d cs => rw [List.head?_cons, Option.bind_some, hpair, hsingle]; rfl

theorem scan_word (h : isWordStart c = true) :
    scan c cs = ⟨.identifier, run isWordPart cs⟩ := by
  have hc := not_mem_signs h
  have hdigit : ¬ c.isDigit = true := fun hd => hc (mem_signs_of_isDigit hd)
  have hpoint : (c == '.') = false := beq_false_of_ne fun he => hc (he ▸ by decide)
  unfold scan
  split
  iterate 6 exact absurd (by decide) hc
  rw [if_neg hdigit, hpoint, Bool.false_and, if_neg Bool.false_ne_true, operator_eq_none hc]
  exact if_pos h

theorem run_append_of_endsRun {word : List Char} (h : ∀ c ∈ word, isWordPart c = true)
    (hends : EndsRun ds) : run isWordPart (word ++ ds) = word.length := by
  rw [run, List.takeWhile_append_of_pos h, hends.takeWhile_eq_nil, List.append_nil]

/-- A word in front of a text that does not go on it. -/
theorem seenFaces_word {word : List Char} (hword : IsWord word) (hends : EndsRun ds) :
    seenFaces (word ++ ds) = (.identifier, String.ofList word) :: seenFaces ds := by
  obtain ⟨⟨hnil, hpart⟩, hstart⟩ := hword
  cases word with
  | nil => exact absurd rfl hnil
  | cons c cs =>
    have hc : isWordStart c = true := hstart c rfl
    have hblank : ¬ Unicode.isBlank c = true := by
      intro hb
      have hmem := mem_separators_of_isBlank hb
      exact not_mem_signs hc ((by decide : separators ⊆ signs) hmem)
    refine seenFaces_token cs hblank ?_ rfl
    rw [scan_word hc, run_append_of_endsRun (List.forall_mem_cons.mp hpart).2 hends]

/-- The signs in the text of a type and behind it. -/
def typeSigns : List (Char × TokenKind) :=
  [('<', .less), ('>', .greater), (',', .comma), ('*', .star), (';', .semicolon)]

/-- A sign that makes no operator with the character behind it. -/
theorem seenFaces_sign (h : (c, kind) ∈ typeSigns)
    (hpair : ∀ d ∈ cs.head?, operatorPair c d = none) :
    seenFaces (c :: cs) = (kind, String.ofList [c]) :: seenFaces cs := by
  have hnone : cs.head?.bind (operatorPair c) = none := by
    cases cs with
    | nil => rfl
    | cons d cs => exact hpair d rfl
  simp only [typeSigns, List.mem_cons, List.not_mem_nil, or_false, Prod.mk.injEq] at h
  rcases h with ⟨rfl, rfl⟩ | ⟨rfl, rfl⟩ | ⟨rfl, rfl⟩ | ⟨rfl, rfl⟩ | ⟨rfl, rfl⟩ <;>
    exact seenFaces_cons (by decide) (by simp [scan, operator, hnone, operatorSingle]) rfl

end Lexer

/-! ## Single brackets -/

/-- What the grammar sees of a text when all its double brackets are taken apart. -/
def singleFaces (cs : List Char) : List (TokenKind × String) :=
  halvedFaces (significant (Lexer.tokensFrom 0 cs))

theorem singleFaces_eq (cs : List Char) : singleFaces cs = (seenFaces cs).flatMap fun face =>
    if face.1 = .shiftRight then [(.greater, ">"), (.greater, ">")] else [face] := by
  rw [seenFaces, List.flatMap_map]
  rfl

theorem singleFaces_of_cons {face : TokenKind × String} (hface : face.1 ≠ .shiftRight)
    (h : seenFaces cs = face :: seenFaces ds) : singleFaces cs = face :: singleFaces ds := by
  rw [singleFaces_eq, h, List.flatMap_cons, if_neg hface, ← singleFaces_eq]
  rfl

theorem singleFaces_blank : singleFaces (' ' :: cs) = singleFaces cs := by
  rw [singleFaces_eq, Lexer.seenFaces_blank (by decide), ← singleFaces_eq]

theorem singleFaces_word {word : String} (hword : IsWord word.toList) (hends : EndsRun ds) :
    singleFaces (word.toList ++ ds) = (.identifier, word) :: singleFaces ds := by
  have h := Lexer.seenFaces_word hword hends
  rw [String.ofList_toList] at h
  exact singleFaces_of_cons (show TokenKind.identifier ≠ .shiftRight by decide) h

theorem singleFaces_sign (h : (c, kind) ∈ Lexer.typeSigns)
    (hpair : ∀ d ∈ cs.head?, Lexer.operatorPair c d = none) :
    singleFaces (c :: cs) = (kind, String.ofList [c]) :: singleFaces cs := by
  refine singleFaces_of_cons ?_ (Lexer.seenFaces_sign h hpair)
  have hall : ∀ sign ∈ Lexer.typeSigns, sign.2 ≠ .shiftRight := by decide
  exact hall _ h

/-- Two closing brackets are seen one by one. -/
theorem singleFaces_double :
    singleFaces ('>' :: '>' :: cs) = (.greater, ">") :: (.greater, ">") :: singleFaces cs := by
  have h : seenFaces ('>' :: ['>'] ++ cs) = (.shiftRight, ">>") :: seenFaces cs :=
    Lexer.seenFaces_token ['>'] (by decide) (by cases cs <;> rfl) rfl
  rw [singleFaces_eq, show '>' :: '>' :: cs = '>' :: ['>'] ++ cs from rfl, h, List.flatMap_cons,
    ← singleFaces_eq]
  rfl

/-- A row in order can be written with all its double brackets taken apart. -/
theorem InOrder.exists_halved {lower upper : Nat} {ts : List Token} (h : InOrder lower upper ts) :
    ∃ us, Halved ts us ∧ us.map Token.face = halvedFaces ts := by
  induction ts generalizing lower with
  | nil => exact ⟨[], .nil, rfl⟩
  | cons t ts ih =>
    obtain ⟨-, -, hdouble, hrest⟩ := h
    obtain ⟨us, hus, hfaces⟩ := ih hrest
    unfold halvedFaces at hfaces ⊢
    rw [List.flatMap_cons, ← hfaces]
    by_cases hkind : t.kind = .shiftRight
    · have hstop := hdouble hkind
      let first : Token := ⟨.greater, ">", ⟨t.span.start, t.span.start + 1, by omega⟩⟩
      let second : Token := ⟨.greater, ">", ⟨t.span.start + 1, t.span.stop, by omega⟩⟩
      have hhalves : Halves t first second := ⟨hkind, rfl, rfl, rfl, rfl, rfl, rfl, rfl, rfl⟩
      exact ⟨_, .halve hhalves hus, by rw [if_pos hkind]; rfl⟩
    · exact ⟨_, .keep t hus, by rw [if_neg hkind]; rfl⟩

/-! ## Behind a type -/

/-- What may stand behind a type: a mark, or the brackets that close lists in front of a mark. A
    bracket in front of it is seen alone. -/
structure GoesOn (cs : List Char) : Prop where
  sign : ∀ c ∈ cs.head?, c ∈ [' ', ',', '*', '<', '>']
  closing : singleFaces ('>' :: cs) = (.greater, ">") :: singleFaces cs

namespace GoesOn

theorem of_mark (h : c ∈ [' ', ',', '*', '<']) : GoesOn (c :: cs) where
  sign := by
    rintro _ ⟨⟩
    exact (by decide : ([' ', ',', '*', '<'] : List Char) ⊆ [' ', ',', '*', '<', '>']) h
  closing := by
    refine singleFaces_sign (by decide) ?_
    rintro _ ⟨⟩
    simp only [List.mem_cons, List.not_mem_nil, or_false] at h
    rcases h with rfl | rfl | rfl | rfl <;> rfl

theorem bracket (h : GoesOn cs) : GoesOn ('>' :: cs) where
  sign := by
    rintro _ ⟨⟩
    decide
  closing := by rw [singleFaces_double, h.closing]

theorem endsRun (h : GoesOn cs) : EndsRun cs := fun c hc =>
  isWordPart_of_mark ((by decide : ([' ', ',', '*', '<', '>'] : List Char) ⊆ marks) (h.sign c hc))

theorem star (h : GoesOn cs) : singleFaces ('*' :: cs) = (.star, "*") :: singleFaces cs := by
  refine singleFaces_sign (by decide) fun d hd => ?_
  have hmem := h.sign d hd
  simp only [List.mem_cons, List.not_mem_nil, or_false] at hmem
  rcases hmem with rfl | rfl | rfl | rfl | rfl <;> rfl

end GoesOn

end HeaderBridge
