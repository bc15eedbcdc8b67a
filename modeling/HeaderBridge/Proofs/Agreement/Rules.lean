/-
  Every rule of the grammar of headers does the same on rows of the same faces. A rule that looks at
  the state takes the same branch on both sides, since it asks for kinds and words of tokens only,
  and what it says about places is forgotten.
-/
import HeaderBridge.Proofs.Agreement.Combinators
import HeaderBridge.Proofs.Tree.Rules

namespace HeaderBridge.Grammar

open ReadState (kindOf)
open Bare (bare)
open Rule Rule.AgreeAt

variable {tail : Option (List Token)}

/-! ## Types -/

theorem qualifiers_agreeAt (s s' : ReadState) : AgreeAt tail qualifiers qualifiers s s' := by
  refine readWhileThen (fun ts us h hsees => h.startsWithQualifier_eq hsees) (fun ts us h => ?_) s s'
  -- Only the words of the qualifiers count.
  have words : ∀ ts : List Token, lastNullability ts =
      (ts.map Token.face).foldl (fun found f => (Nullability.ofWord? f.2).or found) none :=
    fun ts => by
      rw [List.foldl_map]
      rfl
  rw [words, words, h]

/-- As many tokens are read on both sides. -/
theorem foldl_advance_agreeAt (words : List String) (s s' : ReadState) :
    AgreeAt tail (modify fun s => words.foldl (fun s _ => s.advance) s)
      (modify fun s => words.foldl (fun s _ => s.advance) s) s s' := by
  refine modifyReads (.foldl_advance words s) (.foldl_advance words s') fun halike hsees => ?_
  clear hsees
  induction words generalizing s s' with
  | nil => exact Or.inr halike.facing
  | cons w words ih =>
    by_cases hout : RanOut tail s.rest
    · exact Or.inl ((Keeps.of_reads (.foldl_advance (w :: words) s)).rest tail hout)
    · exact ih s.advance s'.advance (alike_advance halike hout)

theorem baseName_agreeAt (s s' : ReadState) : AgreeAt tail baseName baseName s s' := by
  unfold baseName
  refine (identifier _ s s').bind fun first first' s₁ s₁' hfirst => state ?_
  have hname := Ident.name_eq_of_bare hfirst
  have read : ∀ (words : List String) t t', AgreeAt tail (do
      modify fun s => words.foldl (fun s _ => s.advance) s
      return " ".intercalate (first.name :: words)) (do
      modify fun s => words.foldl (fun s _ => s.advance) s
      return " ".intercalate (first'.name :: words)) t t' := fun words t t' =>
    (foldl_advance_agreeAt words t t').bind fun _ _ u u' _ => pure (by rw [hname]) u u'
  apply AgreeAt.seeing (read (nameWords first.name s₁.rest) s₁ s₁')
  intro halike hsees
  rw [halike.facing.nameWords_eq hsees, hname]

theorem stars_agreeAt (fuel : Nat) :
    ∀ fuel' type found (s s' : ReadState),
      AgreeAt tail (stars fuel type found) (stars fuel' type found) s s' := by
  induction fuel with
  | zero => intro _ _ _ s s'; exact breakWith _ _ s s'
  | succ fuel ih =>
    intro fuel' type found s s'
    apply AgreeAt.onFuel fuel'
    · rfl
    intro fuel'
    unfold stars
    refine (eat _ s s').bind fun star star' s₁ s₁' hstar => ?_
    obtain rfl : star = star' := hstar
    refine ite (fun _ _ => Iff.rfl) (fun _ => ?_) fun _ => pure rfl s₁ s₁'
    refine (qualifiers_agreeAt s₁ s₁').bind fun behind behind' s₂ s₂' hbehind => ?_
    rw [bare_nullability, bare_nullability] at hbehind
    rw [hbehind]
    exact ih _ _ _ s₂ s₂'

theorem objcType_agreeAt (fuel : Nat) :
    ∀ fuel' (s s' : ReadState), AgreeAt tail (objcType fuel) (objcType fuel') s s' := by
  induction fuel with
  | zero => intro _ s s'; exact breakWith _ _ s s'
  | succ fuel ih =>
    intro fuel' s s'
    apply AgreeAt.onFuel fuel'
    · rfl
    intro fuel'
    have hnext : ∀ (type : ObjcType) s s', AgreeAt tail (do
        let type ← pure type
        stars ((← state).weight + 1) type none) (do
        let type ← pure type
        stars ((← state).weight + 1) type none) s s' := fun type s s' =>
      (AgreeAt.pure rfl s s').bind fun found found' s₁ s₁' h => state (by
        obtain rfl : found = found' := h
        exact stars_agreeAt _ _ _ none s₁ s₁')
    unfold objcType
    refine (baseName_agreeAt s s').bind fun name name' s₁ s₁' h => state ?_
    obtain rfl : name = name' := h
    refine ite ?_ (fun _ => ite (fun _ _ => Iff.rfl) (fun _ => ?_) fun _ => ?_) fun _ =>
      hnext _ s₁ s₁'
    · intro halike hsees
      rw [halike.current_eq hsees]
    · refine (AgreeAt.list (fun s s' => (identifier _ s s').map fun _ _ h => ?_) s₁ s₁').bind
        fun protocols protocols' s₂ s₂' h => ?_
      · exact Ident.name_eq_of_bare h
      · rw [bare_list fun _ => rfl, bare_list fun _ => rfl] at h
        rw [h]
        exact hnext _ s₂ s₂'
    · refine (AgreeAt.list (fun s s' => ?_) s₁ s₁').bind fun types types' s₂ s₂' h => ?_
      · refine (qualifiers_agreeAt s s').bind fun _ _ s₂ s₂' _ => ?_
        exact (ih _ s₂ s₂').bind fun _ _ s₃ s₃' h => AgreeAt.pure (congrArg Prod.fst h) s₃ s₃'
      · rw [bare_list fun _ => rfl, bare_list fun _ => rfl] at h
        rw [h]
        exact hnext _ s₂ s₂'

theorem typeName_agreeAt (s s' : ReadState) : AgreeAt tail typeName typeName s s' := by
  unfold typeName
  refine state ((qualifiers_agreeAt s s').bind fun inFront inFront' s₁ s₁' hfront => state ?_)
  refine (AgreeAt.failingAs _ (objcType_agreeAt _ _ s₁ s₁')).bind
    fun (type, behind) (type', behind') s₂ s₂' h => state ?_
  obtain ⟨htype, hbehind⟩ := Prod.mk.inj h
  rw [bare_nullability, bare_nullability] at hfront hbehind
  have name : ∀ span span', bare (⟨type, behind.or inFront, span⟩ : TypeName) =
      bare (⟨type', behind'.or inFront', span'⟩ : TypeName) := fun span span' => by
    rw [show type = type' from htype, hfront, hbehind]
    rfl
  cases Span.between s.currentSpan.start s₂.lastEnd with
  | error fault => exact AgreeAt.breakWith fault _ s₂ s₂'
  | ok span =>
    cases Span.between s'.currentSpan.start s₂'.lastEnd with
    | error fault => exact (AgreeAt.pure (name span span) s₂ s₂').breakWithToo fault
    | ok span' => exact AgreeAt.pure (name span span') s₂ s₂'

/-! ## Properties -/

theorem propertyModifier_agreeAt (s s' : ReadState) :
    AgreeAt tail propertyModifier propertyModifier s s' := by
  unfold propertyModifier
  refine (identifier _ s s').bind fun name name' s₁ s₁' hname => ?_
  have last : ∀ (value : Option String) t t', AgreeAt tail (do
      let value ← pure value
      leafFrom (.modifier ⟨name.name, value⟩) name.span.start) (do
      let value ← pure value
      leafFrom (.modifier ⟨name'.name, value⟩) name'.span.start) t t' := fun value t t' =>
    (AgreeAt.pure rfl t t').bind fun found found' u u' hfound => by
      rw [bare_word, bare_word] at hfound
      rw [hfound, Ident.name_eq_of_bare hname]
      exact leafFrom rfl _ _ u u'
  refine (eat _ s₁ s₁').bind fun eq eq' s₂ s₂' heq => ?_
  obtain rfl : eq = eq' := heq
  refine ite (fun _ _ => Iff.rfl) (fun _ => ?_) fun _ => last none s₂ s₂'
  refine (identifier _ s₂ s₂').bind fun accessor accessor' s₃ s₃' haccessor => ?_
  refine (eat _ s₃ s₃').bind fun colon colon' s₄ s₄' hcolon => ?_
  obtain rfl : colon = colon' := hcolon
  simp only [Ident.name_eq_of_bare haccessor]
  exact last _ s₄ s₄'

theorem modifierList_agreeAt (s s' : ReadState) :
    AgreeAt tail modifierList modifierList s s' := by
  unfold modifierList
  exact AgreeAt.withNode rfl ((AgreeAt.list propertyModifier_agreeAt _ _).bind fun _ _ s₁ s₁' _ =>
    AgreeAt.pure rfl s₁ s₁')

theorem propertyName_valid (type : TypeName) : propertyName (.valid type) =
    recover (Rule.identifier .propertyName) fun kind => kind == .semicolon || isMemberSync kind :=
  rfl

theorem propertyName_agreeAt {type type' : Slot TypeName} (h : bare type = bare type')
    (s s' : ReadState) : AgreeAt tail (propertyName type) (propertyName type') s s' := by
  unfold propertyName
  refine state (ite ?_ (fun _ => ?_) fun _ => AgreeAt.recover (identifier _ s s') _)
  · intro halike hsees
    rw [halike.current_eq hsees, Slot.isInvalid_eq_of_bare h]
  · refine (AgreeAt.skipUntil _ s s').bind fun _ _ s₁ s₁' _ => AgreeAt.pure ?_ s₁ s₁'
    rfl

/-- What a property is, behind its type and its name, and its end. -/
def propertyEnd (isOptional : Bool) (type : Slot TypeName) (name : Slot Ident) : Rule Unit := do
  setKind (.property ⟨type, name, isOptional⟩)
  if (type.isInvalid || name.isInvalid) && (← Rule.state).current != .semicolon then return
  punctuation .semicolon .propertyEnd

/-- A property behind its modifiers. -/
def propertyFields (isOptional : Bool) : Rule Unit := do
  let type ← recover typeName fun kind =>
    kind == .identifier || kind == .semicolon || isMemberSync kind
  let name ← propertyName type
  propertyEnd isOptional type name

/-- The node of a property, from its directive on. -/
def propertyParts (isOptional : Bool) : Rule Unit := do
  keywordHere
  if (← Rule.state).current = .leftParen then modifierList
  propertyFields isOptional

theorem property_eq : property = (do
    let isOptional := (← Rule.state).inOptional
    Rule.withNode (.property ⟨.missing, .missing, isOptional⟩) (propertyParts isOptional)) := rfl

theorem propertyEnd_agreeAt (isOptional : Bool) {type type' : Slot TypeName}
    {name name' : Slot Ident} (htype : bare type = bare type') (hname : bare name = bare name')
    (s s' : ReadState) : AgreeAt tail (propertyEnd isOptional type name)
      (propertyEnd isOptional type' name') s s' := by
  unfold propertyEnd
  have hkind : bare (NodeKind.property ⟨type, name, isOptional⟩) =
      bare (NodeKind.property ⟨type', name', isOptional⟩) := by
    show NodeKind.property ⟨bare type, bare name, isOptional⟩ =
      NodeKind.property ⟨bare type', bare name', isOptional⟩
    rw [htype, hname]
  refine (setKind hkind s s').bind fun _ _ s₁ s₁' _ => state (ite ?_ (fun _ => ?_) fun _ => ?_)
  · intro halike hsees
    rw [halike.current_eq hsees, Slot.isInvalid_eq_of_bare htype, Slot.isInvalid_eq_of_bare hname]
  · exact AgreeAt.pure rfl s₁ s₁'
  · exact expectLeaf _ _ _ s₁ s₁'

theorem propertyFields_agreeAt (isOptional : Bool) (s s' : ReadState) :
    AgreeAt tail (propertyFields isOptional) (propertyFields isOptional) s s' :=
  (AgreeAt.recover (typeName_agreeAt s s') _).bind fun _ _ s₁ s₁' htype =>
    (propertyName_agreeAt htype s₁ s₁').bind fun _ _ s₂ s₂' hname =>
    propertyEnd_agreeAt isOptional htype hname s₂ s₂'

theorem propertyParts_agreeAt (isOptional : Bool) (s s' : ReadState) :
    AgreeAt tail (propertyParts isOptional) (propertyParts isOptional) s s' := by
  unfold propertyParts
  refine (keywordHere s s').bind fun _ _ s₁ s₁' _ => state (ite ?_ (fun _ => ?_) fun _ => ?_)
  · intro halike hsees
    rw [halike.current_eq hsees]
  · exact (modifierList_agreeAt s₁ s₁').bind fun _ _ s₂ s₂' _ =>
      propertyFields_agreeAt isOptional s₂ s₂'
  · exact propertyFields_agreeAt isOptional s₁ s₁'

theorem property_agreeAt (s s' : ReadState) : AgreeAt tail property property s s' := by
  rw [property_eq]
  refine state (.seeing (withNode rfl (propertyParts_agreeAt _ _ _)) fun halike _ => ?_)
  rw [halike.inOptional]

/-! ## Methods -/

theorem parenthesizedType_agreeAt (s s' : ReadState) :
    AgreeAt tail parenthesizedType parenthesizedType s s' :=
  (advance s s').bind fun _ _ s₁ s₁' _ => (typeName_agreeAt s₁ s₁').bind fun _ _ s₂ s₂' h =>
    (expect _ _ s₂ s₂').bind fun _ _ s₃ s₃' _ => AgreeAt.pure h s₃ s₃'

theorem optionalType_agreeAt (s s' : ReadState) :
    AgreeAt tail optionalType optionalType s s' := by
  unfold optionalType
  refine state (ite ?_ (fun _ => ?_) fun _ => AgreeAt.pure rfl s s')
  · intro halike hsees
    rw [halike.current_eq hsees]
  · exact (parenthesizedType_agreeAt s s').map fun _ _ h => congrArg some h

/-- A piece of a selector from its name on, and the pieces behind it. -/
def partsFromName (fuel : Nat) (keyword : Option Ident) (read : Array KeywordPart)
    (type : Option TypeName) : Rule (Array KeywordPart) := do
  let name ← identifier .parameterName
  let read := read.push ⟨keyword, type, name⟩
  let s ← Rule.state
  if s.current = .identifier && s.second = .colon then
    let next ← identifier .selector
    keywordParts fuel (some next) read
  else if s.current = .colon then keywordParts fuel none read
  else return read

theorem keywordParts_succ (fuel : Nat) (keyword : Option Ident) (read : Array KeywordPart) :
    keywordParts (fuel + 1) keyword read = (do
      let _ ← advance
      let type ← optionalType
      partsFromName fuel keyword read type) := by
  rw [keywordParts]
  rfl

theorem partsFromName_agreeAt {fuel fuel' : Nat}
    (hparts : ∀ keyword keyword' read read' (s s' : ReadState), bare keyword = bare keyword' →
      bare read = bare read' →
      AgreeAt tail (keywordParts fuel keyword read) (keywordParts fuel' keyword' read') s s')
    {keyword keyword' : Option Ident} {read read' : Array KeywordPart} {type type' : Option TypeName}
    (hkeyword : bare keyword = bare keyword') (hread : bare read = bare read')
    (htype : bare type = bare type') (s s' : ReadState) :
    AgreeAt tail (partsFromName fuel keyword read type) (partsFromName fuel' keyword' read' type')
      s s' := by
  unfold partsFromName
  refine (identifier _ s s').bind fun name name' s₁ s₁' hname => state ?_
  have hpush : bare (read.push ⟨keyword, type, name⟩) =
      bare (read'.push ⟨keyword', type', name'⟩) := by
    show (read.push _).map bare = (read'.push _).map bare
    rw [Array.map_push, Array.map_push, show read.map bare = read'.map bare from hread]
    show (read'.map bare).push ⟨bare keyword, bare type, bare name⟩ =
      (read'.map bare).push ⟨bare keyword', bare type', bare name'⟩
    rw [hkeyword, htype, hname]
  refine ite ?_ (fun _ => ?_) fun _ => ite ?_ (fun _ => ?_) fun _ => ?_
  · intro halike hsees
    have hcurrent := halike.current_eq hsees
    rw [← hcurrent]
    by_cases hc : s₁.current = .identifier
    · have hsecond := halike.facing.second_eq hsees
        (show (ReadState.current s₁).isFinal = false by rw [hc]; rfl)
      rw [show s₁.second = s₁'.second from hsecond]
    · simp [hc]
  · exact (identifier _ s₁ s₁').bind fun _ _ s₂ s₂' hnext =>
      hparts _ _ _ _ s₂ s₂' (congrArg some hnext) hpush
  · intro halike hsees
    rw [halike.current_eq hsees]
  · exact hparts _ _ _ _ s₁ s₁' rfl hpush
  · exact AgreeAt.pure hpush s₁ s₁'

theorem keywordParts_agreeAt (fuel : Nat) :
    ∀ fuel' keyword keyword' read read' (s s' : ReadState), bare keyword = bare keyword' →
      bare read = bare read' →
      AgreeAt tail (keywordParts fuel keyword read) (keywordParts fuel' keyword' read') s s' := by
  induction fuel with
  | zero => intro _ _ _ _ _ s s' _ _; exact breakWith _ _ s s'
  | succ fuel ih =>
    intro fuel' keyword keyword' read read' s s' hkeyword hread
    apply AgreeAt.onFuel fuel'
    · rfl
    intro fuel'
    rw [keywordParts_succ, keywordParts_succ]
    refine (advance s s').bind fun _ _ s₁ s₁' _ => ?_
    exact (optionalType_agreeAt s₁ s₁').bind fun _ _ s₂ s₂' htype =>
      partsFromName_agreeAt (ih fuel') hkeyword hread htype s₂ s₂'

theorem variadicMark_agreeAt (s s' : ReadState) :
    AgreeAt tail variadicMark variadicMark s s' := by
  unfold variadicMark
  refine (eat _ s s').bind fun found found' s₁ s₁' h => ?_
  obtain rfl : found = found' := h
  refine ite (fun _ _ => Iff.rfl) (fun _ => ?_) fun _ => AgreeAt.pure rfl s₁ s₁'
  exact modifyWhile (fun ts us h hsees => by rw [h.kindOf_eq hsees]) s₁ s₁'

theorem selectorFrom_agreeAt (first first' : Option Ident) (s s' : ReadState)
    (h : bare first = bare first') :
    AgreeAt tail (selectorFrom first) (selectorFrom first') s s' := by
  refine state (ite ?_ (fun hc => ?_) fun _ => ?_)
  · intro halike hsees
    rw [halike.current_eq hsees]
  · refine (keywordParts_agreeAt _ _ _ _ _ _ s s' h rfl).bind fun parts parts' s₁ s₁' hparts => ?_
    refine (variadicMark_agreeAt s₁ s₁').bind fun _ _ s₂ s₂' _ => AgreeAt.pure ?_ s₂ s₂'
    exact congrArg Selector.keywords (bare_toList hparts)
  · cases first with
    | none =>
      cases first' with
      | none => exact failHere _ s s'
      | some _ => cases h
    | some name =>
      cases first' with
      | none => cases h
      | some name' => exact AgreeAt.pure (congrArg Selector.simple (Option.some.inj h)) s s'

theorem selector_agreeAt (s s' : ReadState) : AgreeAt tail selector selector s s' := by
  unfold selector
  refine state (ite ?_ (fun _ => ?_) fun _ => ?_)
  · intro halike hsees
    rw [halike.current_eq hsees]
  · exact ((identifier _ s s').map fun _ _ h => congrArg some h).bind fun _ _ s₁ s₁' h =>
      selectorFrom_agreeAt _ _ s₁ s₁' h
  · exact (AgreeAt.pure rfl s s').bind fun _ _ s₁ s₁' h => selectorFrom_agreeAt _ _ s₁ s₁' h

theorem readAttributes_of_ne {s : ReadState} (h : s.current ≠ .identifier) (fuel : Nat) :
    readAttributes fuel s = s := by
  cases fuel with
  | zero => rfl
  | succ fuel =>
    unfold readAttributes
    rw [if_neg h]

theorem weight_advance_lt {s : ReadState} (h : s.current ≠ .endOfFile) :
    s.advance.weight < s.weight :=
  (Course.moving_advance h).1.passage.forward.weight_lt (Course.moving_advance h).2.moved

/-- With as much fuel as there are tokens, the attributes of a method are read on both sides. -/
theorem facing_readAttributes (fuel : Nat) : ∀ (fuel' : Nat) (s s' : ReadState),
    s.weight ≤ fuel → s'.weight ≤ fuel' → Facing tail s.rest s'.rest →
      RanOut tail (readAttributes fuel s).rest ∨
        Facing tail (readAttributes fuel s).rest (readAttributes fuel' s').rest := by
  induction fuel with
  | zero =>
    intro fuel' s s' hfuel _ h
    by_cases hout : RanOut tail s.rest
    · exact Or.inl hout
    have hne : s'.current ≠ .identifier := by
      intro hc
      have hword : s.current = .identifier := (h.kindOf_eq hout).trans hc
      have := weight_advance_lt (s := s) (by rw [hword]; decide)
      omega
    rw [readAttributes_of_ne hne]
    exact Or.inr h
  | succ fuel ih =>
    intro fuel' s s' hfuel hfuel' h
    by_cases hout : RanOut tail s.rest
    · exact Or.inl ((Keeps.of_reads (reads_readAttributes _ s)).rest tail hout)
    have hcurrent : s.current = s'.current := h.kindOf_eq hout
    by_cases hc : s.current = .identifier
    · have hc' : s'.current = .identifier := hcurrent ▸ hc
      obtain ⟨hs, _⟩ | ⟨t, ts, u, us, hs, hs', _, hrest⟩ := h.cases_of_sees hout
      · rw [ReadState.current, hs] at hc
        cases hc
      have hlt := weight_advance_lt (s := s) (by rw [hc]; decide)
      have hlt' := weight_advance_lt (s := s') (by rw [hc']; decide)
      cases fuel' with
      | zero => omega
      | succ fuel' =>
        have hle := (Passage.of_reads (reads_optionalGroup .leftParen .rightParen
          s.advance)).forward.weight_le
        have hle' := (Passage.of_reads (reads_optionalGroup .leftParen .rightParen
          s'.advance)).forward.weight_le
        rw [← show s.advance.rest = ts by rw [ReadState.advance_of_cons hs]; rfl,
          ← show s'.advance.rest = us by rw [ReadState.advance_of_cons hs']; rfl] at hrest
        unfold readAttributes
        rw [if_pos hc, if_pos hc']
        rcases facing_optionalGroup hrest with hout | hfacing
        · exact Or.inl ((Keeps.of_reads (reads_readAttributes fuel _)).rest tail hout)
        · exact ih fuel' (optionalGroup .leftParen .rightParen s.advance)
            (optionalGroup .leftParen .rightParen s'.advance) (by omega) (by omega) hfacing
    · rw [readAttributes_of_ne hc, readAttributes_of_ne (by rwa [← hcurrent])]
      exact Or.inr h

/-- The node of a method, from its sign on. -/
def methodParts (start : MethodData) : Rule Unit := do
  punctuationHere
  let returns ← optionalType
  let found ← selector
  setKind (.method { start with returns, selector := .valid found })
  modify fun s => readAttributes s.weight s
  punctuation .semicolon .methodEnd

theorem method_eq : method = (do
    let s ← Rule.state
    let start : MethodData := ⟨s.current == .plus, none, .missing, s.inOptional⟩
    Rule.withNode (.method start) (methodParts start)) := rfl

theorem methodKind_eq (start : MethodData) {returns returns' : Option TypeName}
    {found found' : Selector} (hreturns : bare returns = bare returns')
    (hfound : bare found = bare found') :
    bare (NodeKind.method { start with returns, selector := .valid found }) =
      bare (NodeKind.method { start with returns := returns', selector := .valid found' }) := by
  show NodeKind.method ⟨start.isClassMethod, bare returns, .valid (bare found), start.isOptional⟩ =
    NodeKind.method ⟨start.isClassMethod, bare returns', .valid (bare found'), start.isOptional⟩
  rw [hreturns, hfound]

theorem attributes_agreeAt (s s' : ReadState) :
    AgreeAt tail (modify fun s => readAttributes s.weight s)
      (modify fun s => readAttributes s.weight s) s s' :=
  modifyReads (reads_readAttributes _ s) (reads_readAttributes _ s') fun halike _ =>
    facing_readAttributes _ _ s s' (Nat.le_refl _) (Nat.le_refl _) halike.facing

/-- What a method is, behind its selector, and its end. -/
def methodEnd (start : MethodData) (returns : Option TypeName) (found : Selector) : Rule Unit := do
  setKind (.method { start with returns, selector := .valid found })
  modify fun s => readAttributes s.weight s
  punctuation .semicolon .methodEnd

theorem methodEnd_agreeAt (start : MethodData) {returns returns' : Option TypeName}
    {found found' : Selector} (hreturns : bare returns = bare returns')
    (hfound : bare found = bare found') (s s' : ReadState) :
    AgreeAt tail (methodEnd start returns found) (methodEnd start returns' found') s s' :=
  (setKind (methodKind_eq start hreturns hfound) s s').bind fun _ _ s₁ s₁' _ =>
    (attributes_agreeAt s₁ s₁').bind fun _ _ s₂ s₂' _ => expectLeaf _ _ _ s₂ s₂'

theorem methodParts_agreeAt (start : MethodData) (s s' : ReadState) :
    AgreeAt tail (methodParts start) (methodParts start) s s' :=
  (punctuationHere s s').bind fun _ _ s₁ s₁' _ =>
    (optionalType_agreeAt s₁ s₁').bind fun _ _ s₂ s₂' hreturns =>
    (selector_agreeAt s₂ s₂').bind fun _ _ s₃ s₃' hfound =>
    methodEnd_agreeAt start hreturns hfound s₃ s₃'

theorem method_agreeAt (s s' : ReadState) : AgreeAt tail method method s s' := by
  rw [method_eq]
  refine state (.seeing (withNode rfl (methodParts_agreeAt _ _ _)) fun halike hsees => ?_)
  rw [halike.inOptional, halike.current_eq hsees]

/-! ## Bodies -/

/-- Passing over an unknown member. -/
def skipMember : Rule Unit := do
  let start := (← Rule.advance).start
  modify (·.readWhile fun ts => !startsMember ts && kindOf ts != .semicolon)
  let _ ← Rule.eat .semicolon
  Rule.leafFrom .invalid start

theorem unknownMember_eq (cause : SyntaxError.Cause) : unknownMember cause = (do
    let s ← Rule.state
    Rule.report (s.errorHere cause)
    skipMember) := rfl

theorem skipMember_agreeAt (s s' : ReadState) : AgreeAt tail skipMember skipMember s s' := by
  refine (advance s s').bind fun _ _ s₁ s₁' _ => ?_
  refine (modifyWhile (fun ts us h hsees => ?_) s₁ s₁').bind fun _ _ s₂ s₂' _ => ?_
  · rw [h.startsMember_eq hsees, h.kindOf_eq hsees]
  · exact (eat _ s₂ s₂').bind fun _ _ s₃ s₃' _ => leafFrom rfl _ _ s₃ s₃'

theorem unknownMember_agreeAt (cause : SyntaxError.Cause) (s s' : ReadState) :
    AgreeAt tail (unknownMember cause) (unknownMember cause) s s' := by
  rw [unknownMember_eq]
  exact state ((reportHere cause s s').bind fun _ _ s₁ s₁' _ => skipMember_agreeAt s₁ s₁')

/-- One member, of which the kind of the first token is known. -/
def memberRound (cause : SyntaxError.Cause) (inProtocol : Bool) (kind : TokenKind) : Rule Unit :=
  match kind with
  | .atProperty => recoverMember property
  | .plus | .minus => recoverMember method
  | .atOptional | .atRequired =>
    if inProtocol then do
      modify fun s => { s with inOptional := kind == .atOptional }
      keywordHere
    else unknownMember cause
  | _ => unknownMember cause

theorem memberList_succ (cause : SyntaxError.Cause) (inProtocol : Bool) (fuel : Nat) :
    memberList cause inProtocol (fuel + 1) = (do
      let kind := (← Rule.state).current
      if endsBody kind then return
      memberRound cause inProtocol kind
      memberList cause inProtocol fuel) := by
  funext s
  conv => lhs; unfold memberList
  show (if endsBody s.current then _ else _ : Rule Unit) s =
    (if endsBody s.current then _ else _ : Rule Unit) s
  cases s.current <;> first | rfl | (cases inProtocol <;> rfl)

theorem memberRound_agreeAt (cause : SyntaxError.Cause) (inProtocol : Bool) (kind : TokenKind)
    (s s' : ReadState) :
    AgreeAt tail (memberRound cause inProtocol kind) (memberRound cause inProtocol kind) s s' := by
  have enter : ∀ inOptional : Bool, AgreeAt tail (do
      modify fun s => { s with inOptional }
      Rule.keywordHere) (do
      modify fun s => { s with inOptional }
      Rule.keywordHere) s s' := fun inOptional =>
    (AgreeAt.enter inOptional s s').bind fun _ _ s₁ s₁' _ => keywordHere s₁ s₁'
  unfold memberRound
  split
  · exact AgreeAt.recoverMember (property_agreeAt s s')
  · exact AgreeAt.recoverMember (method_agreeAt s s')
  · exact AgreeAt.recoverMember (method_agreeAt s s')
  · exact ite (fun _ _ => Iff.rfl) (fun _ => enter _) fun _ => unknownMember_agreeAt cause s s'
  · exact ite (fun _ _ => Iff.rfl) (fun _ => enter _) fun _ => unknownMember_agreeAt cause s s'
  · exact unknownMember_agreeAt cause s s'

theorem memberList_agreeAt (cause : SyntaxError.Cause) (inProtocol : Bool) (fuel : Nat) :
    ∀ fuel' (s s' : ReadState), AgreeAt tail (memberList cause inProtocol fuel)
      (memberList cause inProtocol fuel') s s' := by
  induction fuel with
  | zero => intro _ s s'; exact breakWith _ _ s s'
  | succ fuel ih =>
    intro fuel' s s'
    apply AgreeAt.onFuel fuel'
    · rfl
    intro fuel'
    rw [memberList_succ, memberList_succ]
    have next : ∀ kind, AgreeAt tail (do
        if endsBody kind then return
        memberRound cause inProtocol kind
        memberList cause inProtocol fuel) (do
        if endsBody kind then return
        memberRound cause inProtocol kind
        memberList cause inProtocol fuel') s s' := fun kind =>
      ite (fun _ _ => Iff.rfl) (fun _ => AgreeAt.pure rfl s s') fun _ =>
        (memberRound_agreeAt cause inProtocol kind s s').bind fun _ _ s₁ s₁' _ => ih fuel' s₁ s₁'
    refine state (.seeing (next s.current) fun halike hsees => ?_)
    rw [halike.current_eq hsees]

theorem body_agreeAt (cause : SyntaxError.Cause) (inProtocol : Bool) (s s' : ReadState) :
    AgreeAt tail (body cause inProtocol) (body cause inProtocol) s s' :=
  state ((memberList_agreeAt cause inProtocol _ _ s s').bind fun _ _ s₁ s₁' _ =>
    AgreeAt.enter false s₁ s₁')

/-! ## Declarations -/

theorem protocolList_agreeAt (s s' : ReadState) :
    AgreeAt tail protocolList protocolList s s' :=
  AgreeAt.withNode rfl ((AgreeAt.list (fun s s' => identifier _ s s') _ _).bind
    fun _ _ s₁ s₁' h => setKind (congrArg NodeKind.protocolList h) s₁ s₁')

theorem optionalProtocolList_agreeAt (s s' : ReadState) :
    AgreeAt tail optionalProtocolList optionalProtocolList s s' := by
  have heq : optionalProtocolList = (do
      if (← Rule.state).current = .less then
        Rule.handle protocolList Pure.pure fun e =>
          (Rule.modify fun s => (s.report e).skipUntil fun kind =>
            kind == .greater || isMemberSync kind) >>= fun _ => (do let _ ← Rule.eat .greater)) := by
    funext s
    show optionalProtocolList s = (if s.current = .less then _ else _ : Rule Unit) s
    unfold optionalProtocolList
    by_cases hc : s.current = .less
    · rw [if_pos hc, if_pos hc]
      unfold Rule.handle
      cases protocolList s <;> rfl
    · rw [if_neg hc, if_neg hc]
      rfl
  rw [heq]
  refine state (ite ?_ (fun _ => ?_) fun _ => AgreeAt.pure rfl s s')
  · intro halike hsees
    rw [halike.current_eq hsees]
  · exact handleThenEat (protocolList_agreeAt s s') _ _

theorem optionalSuperclass_agreeAt (s s' : ReadState) :
    AgreeAt tail optionalSuperclass optionalSuperclass s s' := by
  unfold optionalSuperclass
  refine state (ite ?_ (fun _ => ?_) fun _ => AgreeAt.pure rfl s s')
  · intro halike hsees
    rw [halike.current_eq hsees]
  · exact (punctuationHere s s').bind fun _ _ s₁ s₁' _ => (identifier _ s₁ s₁').bind
      fun _ _ s₂ s₂' h => leaf (congrArg NodeKind.superclassName h) _ _ s₂ s₂'

theorem variableBlock_agreeAt (s s' : ReadState) :
    AgreeAt tail variableBlock variableBlock s s' :=
  modifyReads (reads_optionalGroup _ _ s) (reads_optionalGroup _ _ s') fun halike _ =>
    facing_optionalGroup halike.facing

theorem classInterface_agreeAt (s s' : ReadState) :
    AgreeAt tail classInterface classInterface s s' :=
  AgreeAt.withNode rfl <| (keywordHere _ _).bind fun _ _ s₁ s₁' _ =>
    (identifier _ s₁ s₁').bind fun _ _ s₂ s₂' h =>
    (setKind (congrArg (fun name => NodeKind.classInterface (.valid name)) h) s₂ s₂').bind
      fun _ _ s₃ s₃' _ =>
    (optionalSuperclass_agreeAt s₃ s₃').bind fun _ _ s₄ s₄' _ =>
    (optionalProtocolList_agreeAt s₄ s₄').bind fun _ _ s₅ s₅' _ =>
    (variableBlock_agreeAt s₅ s₅').bind fun _ _ s₆ s₆' _ =>
    (body_agreeAt _ _ s₆ s₆').bind fun _ _ s₇ s₇' _ => expectLeaf _ _ _ s₇ s₇'

/-- What follows the directive of a protocol. -/
def protocolParts : Rule Unit := do
  let name ← identifier .protocolName
  setKind (.protocolDeclaration (.valid name))
  optionalProtocolList
  body .protocolMember true
  keyword .atEnd .protocolEnd

theorem protocolParts_agreeAt (s s' : ReadState) :
    AgreeAt tail protocolParts protocolParts s s' :=
  (identifier _ s s').bind fun _ _ s₁ s₁' h =>
    (setKind (congrArg (fun name => NodeKind.protocolDeclaration (.valid name)) h) s₁ s₁').bind
      fun _ _ s₂ s₂' _ =>
    (optionalProtocolList_agreeAt s₂ s₂').bind fun _ _ s₃ s₃' _ =>
    (body_agreeAt _ _ s₃ s₃').bind fun _ _ s₄ s₄' _ => expectLeaf _ _ _ s₄ s₄'

theorem protocolDeclaration_agreeAt (s s' : ReadState) :
    AgreeAt tail protocolDeclaration protocolDeclaration s s' :=
  withNode rfl <| (keywordHere _ _).bind fun _ _ s₁ s₁' _ => protocolParts_agreeAt s₁ s₁'

theorem skipDeclaration_agreeAt (s s' : ReadState) :
    AgreeAt tail skipDeclaration skipDeclaration s s' :=
  (skipUntil _ s s').bind fun _ _ s₁ s₁' _ => eatThenPure _ s₁ s₁'

theorem skipImplementation_agreeAt (s s' : ReadState) :
    AgreeAt tail skipImplementation skipImplementation s s' :=
  (skipUntil _ s s').bind fun _ _ s₁ s₁' _ => eatThenPure _ s₁ s₁'

/-- One declaration, or a token between declarations. The kind of the first token is known, and
    whether it starts a protocol that is only named. -/
def declarationRound (kind : TokenKind) (isForward : Bool) : Rule Unit :=
  match kind with
  | .atInterface => recoverDeclaration classInterface
  | .atProtocol => if isForward then skipDeclaration else recoverDeclaration protocolDeclaration
  | .atClass => skipDeclaration
  | .atImplementation => skipImplementation
  | _ => do let _ ← Rule.advance

theorem declarations_succ (fuel : Nat) : declarations (fuel + 1) = (do
    let s ← Rule.state
    if s.current = .endOfFile then return
    declarationRound s.current (isForwardProtocol s)
    declarations fuel) := by
  funext s
  rw [declarations, bind_state, bind_state]
  cases s.current <;> first | rfl | (cases isForwardProtocol s <;> rfl)

theorem declarationRound_agreeAt (kind : TokenKind) (isForward : Bool) (s s' : ReadState) :
    AgreeAt tail (declarationRound kind isForward) (declarationRound kind isForward) s s' := by
  unfold declarationRound
  split
  · exact AgreeAt.recoverDeclaration (classInterface_agreeAt s s')
  · exact ite (fun _ _ => Iff.rfl) (fun _ => skipDeclaration_agreeAt s s') fun _ =>
      AgreeAt.recoverDeclaration (protocolDeclaration_agreeAt s s')
  · exact skipDeclaration_agreeAt s s'
  · exact skipImplementation_agreeAt s s'
  · exact (advance s s').bind fun _ _ s₁ s₁' _ => AgreeAt.pure rfl s₁ s₁'

/-- Behind a directive the rows say the same of whether a protocol is only named. -/
theorem isForwardProtocol_eq {s s' : ReadState} (h : Alike tail s s')
    (hsees : ¬ RanOut tail s.rest) (hbehind : ¬ RanOut tail (s.rest.drop 1)) :
    isForwardProtocol s = isForwardProtocol s' := by
  unfold isForwardProtocol ReadState.second ReadState.third
  obtain ⟨hs, hs'⟩ | ⟨t, ts, u, us, hs, hs', _, hrest⟩ := h.facing.cases_of_sees hsees
  · rw [hs, hs']
  rw [hs] at hbehind
  rw [hs, hs']
  show (kindOf ts == .identifier && _) = (kindOf us == .identifier && _)
  have hsecond : kindOf ts = kindOf us := hrest.kindOf_eq hbehind
  by_cases hname : kindOf ts = .identifier
  · have hthird : kindOf (ts.drop 1) = kindOf (us.drop 1) :=
      hrest.second_eq hbehind (by rw [hname]; rfl)
    rw [hsecond]
    show (_ && (kindOf (ts.drop 1) == .semicolon || kindOf (ts.drop 1) == .comma)) =
      (_ && (kindOf (us.drop 1) == .semicolon || kindOf (us.drop 1) == .comma))
    rw [hthird]
  · rw [← hsecond, beq_false_of_ne hname, Bool.false_and, Bool.false_and]

/-- Whether a protocol is only named matters for protocols. -/
theorem declarationRound_eq {s s' : ReadState} (h : Alike tail s s')
    (hsees : ¬ RanOut tail s.rest)
    (hbehind : s.current = .atProtocol → ¬ RanOut tail (s.rest.drop 1)) :
    declarationRound s.current (isForwardProtocol s) =
      declarationRound s'.current (isForwardProtocol s') := by
  rw [← h.current_eq hsees]
  by_cases hc : s.current = .atProtocol
  · rw [isForwardProtocol_eq h hsees (hbehind hc)]
  · unfold declarationRound
    split <;> first | rfl | exact absurd ‹_› hc

/-- On rows of the same faces the loop over declarations does the same. -/
theorem declarations_agreeAt (fuel : Nat) :
    ∀ fuel' (s s' : ReadState), AgreeAt none (declarations fuel) (declarations fuel') s s' := by
  induction fuel with
  | zero => intro _ s s'; exact breakWith _ _ s s'
  | succ fuel ih =>
    intro fuel' s s'
    apply AgreeAt.onFuel fuel'
    · rfl
    intro fuel'
    have next : ∀ kind isForward, AgreeAt none (do
        declarationRound kind isForward
        declarations fuel) (do
        declarationRound kind isForward
        declarations fuel') s s' := fun kind isForward =>
      (declarationRound_agreeAt kind isForward s s').bind fun _ _ s₁ s₁' _ => ih fuel' s₁ s₁'
    rw [declarations_succ, declarations_succ]
    refine state (ite ?_ (fun _ => AgreeAt.pure rfl s s') fun _ =>
      .seeing (next s.current (isForwardProtocol s)) ?_)
    · intro halike hsees
      rw [halike.current_eq hsees]
    · intro halike hsees
      rw [declarationRound_eq halike hsees fun _ => not_ranOut_none _]

theorem header_agreeAt (s s' : ReadState) : AgreeAt none header header s s' :=
  state (declarations_agreeAt _ _ s s')

end HeaderBridge.Grammar
