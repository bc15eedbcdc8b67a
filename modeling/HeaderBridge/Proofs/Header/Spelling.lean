/-
  The documented grammar of headers, as derivations from tokens to what they declare. A
  double bracket may be written for the ends of two lists, so a header is spelt by a row in which
  some double brackets are taken apart (`Halved`). The words that could go on a type are no names
  of properties, and no type has a qualifier for its name; everything else about words is left
  open. A section of a protocol lasts up to the next one or to the end of the protocol, so the
  derivation of a body carries the section that it stands in.
-/
import HeaderBridge.Objc.Grammar.Header
import HeaderBridge.Proofs.Header.Declared
import HeaderBridge.Proofs.Types.Spelling

namespace HeaderBridge.Grammar

/-! ## Types -/

/-- The tokens that write a type name: qualifiers and a type. -/
inductive StatedSpelling : List Token → StatedType → Prop where
  | stated {qualifiers body : List Token} {type : ObjcType} {behind : Option Nullability}
      (qualify : ∀ q ∈ qualifiers, Qualifies q) (free : startsWithQualifier body = false)
      (spelt : Spelling body type behind) :
      StatedSpelling (qualifiers ++ body) ⟨type, behind.or (lastNullability qualifiers)⟩

/-- A type in parentheses, or nothing. -/
inductive OptionalSpelling : List Token → Option StatedType → Prop where
  | none : OptionalSpelling [] none
  | some {opening closing : Token} {ts : List Token} {type : StatedType}
      (opening_kind : opening.kind = .leftParen) (inside : StatedSpelling ts type)
      (closing_kind : closing.kind = .rightParen) :
      OptionalSpelling (opening :: (ts ++ [closing])) (some type)

/-! ## Properties -/

/-- The tokens that write a modifier of a property. -/
inductive ModifierSpelling : List Token → PropertyModifier → Prop where
  | word {word : Token} (word_kind : word.kind = .identifier) :
      ModifierSpelling [word] ⟨word.text, none⟩
  | getter {word equals accessor : Token} (word_kind : word.kind = .identifier)
      (equals_kind : equals.kind = .eq) (accessor_kind : accessor.kind = .identifier) :
      ModifierSpelling [word, equals, accessor] ⟨word.text, some accessor.text⟩
  | setter {word equals accessor colon : Token} (word_kind : word.kind = .identifier)
      (equals_kind : equals.kind = .eq) (accessor_kind : accessor.kind = .identifier)
      (colon_kind : colon.kind = .colon) :
      ModifierSpelling [word, equals, accessor, colon] ⟨word.text, some (accessor.text ++ ":")⟩

/-- Modifiers in parentheses, or nothing. -/
inductive ModifiersSpelling : List Token → List PropertyModifier → Prop where
  | none : ModifiersSpelling [] []
  | list {opening closing : Token} {inner : List Token}
      {modifiers : List (List Token × PropertyModifier)} (opening_kind : opening.kind = .leftParen)
      (each : ∀ m ∈ modifiers, ModifierSpelling m.1 m.2)
      (commas : Commas (modifiers.map Prod.fst) inner) (closing_kind : closing.kind = .rightParen) :
      ModifiersSpelling (opening :: (inner ++ [closing])) (modifiers.map Prod.snd)

/-- A word that goes on no type. -/
structure NamesProperty (name : Token) : Prop where
  kind : name.kind = .identifier
  no_qualifier : startsWithQualifier [name] = false
  no_word : name.text ∉ followingWords

/-- The tokens that write a property. -/
inductive PropertySpelling : List Token → DeclaredProperty → Prop where
  | property {directive name semicolon : Token} {ms ts : List Token}
      {modifiers : List PropertyModifier} {type : StatedType} (isOptional : Bool)
      (directive_kind : directive.kind = .atProperty) (modified : ModifiersSpelling ms modifiers)
      (typed : StatedSpelling ts type) (named : NamesProperty name)
      (semicolon_kind : semicolon.kind = .semicolon) :
      PropertySpelling (directive :: (ms ++ (ts ++ [name, semicolon])))
        ⟨modifiers, type, name.text, isOptional⟩

/-! ## Methods -/

/-- The tokens that write a piece of a selector. -/
inductive PieceSpelling : List Token → DeclaredPiece → Prop where
  | labelled {label colon name : Token} {ts : List Token} {type : Option StatedType}
      (label_kind : label.kind = .identifier) (colon_kind : colon.kind = .colon)
      (typed : OptionalSpelling ts type) (name_kind : name.kind = .identifier) :
      PieceSpelling (label :: colon :: (ts ++ [name])) ⟨some label.text, type, name.text⟩
  | plain {colon name : Token} {ts : List Token} {type : Option StatedType}
      (colon_kind : colon.kind = .colon) (typed : OptionalSpelling ts type)
      (name_kind : name.kind = .identifier) :
      PieceSpelling (colon :: (ts ++ [name])) ⟨none, type, name.text⟩

/-- The tokens that write a selector. -/
inductive SelectorSpelling : List Token → DeclaredSelector → Prop where
  | simple {name : Token} (name_kind : name.kind = .identifier) :
      SelectorSpelling [name] (.simple name.text)
  | keywords {pieces : List (List Token × DeclaredPiece)} (nonempty : pieces ≠ [])
      (each : ∀ p ∈ pieces, PieceSpelling p.1 p.2) :
      SelectorSpelling (pieces.flatMap Prod.fst) (.keywords (pieces.map Prod.snd))

/-- The tokens that write a method. -/
inductive MethodSpelling : List Token → DeclaredMethod → Prop where
  | method {sign semicolon : Token} {rs ss : List Token} {returns : Option StatedType}
      {selector : DeclaredSelector} (isOptional : Bool)
      (sign_kind : sign.kind = .plus ∨ sign.kind = .minus) (typed : OptionalSpelling rs returns)
      (named : SelectorSpelling ss selector) (semicolon_kind : semicolon.kind = .semicolon) :
      MethodSpelling (sign :: (rs ++ (ss ++ [semicolon])))
        ⟨sign.kind == .plus, returns, selector, isOptional⟩

/-! ## Bodies -/

/-- The tokens that write a member, in an optional section or outside one. -/
inductive MemberSpelling : Bool → List Token → Member → Prop where
  | property {ts : List Token} {p : DeclaredProperty} (spelt : PropertySpelling ts p) :
      MemberSpelling p.isOptional ts (.property p)
  | method {ts : List Token} {m : DeclaredMethod} (spelt : MethodSpelling ts m) :
      MemberSpelling m.isOptional ts (.method m)

/-- The tokens that write the members of a declaration from some place on. The first parameter
    says whether the declaration is a protocol, the second one whether the place is in an optional
    section. -/
inductive BodySpelling (inProtocol : Bool) : Bool → List Token → List Member → Prop where
  | done (isOptional : Bool) : BodySpelling inProtocol isOptional [] []
  | member {isOptional : Bool} {ts rest : List Token} {m : Member} {members : List Member}
      (first : MemberSpelling isOptional ts m)
      (more : BodySpelling inProtocol isOptional rest members) :
      BodySpelling inProtocol isOptional (ts ++ rest) (m :: members)
  | optional {isOptional : Bool} {mark : Token} {rest : List Token} {members : List Member}
      (allowed : inProtocol = true) (mark_kind : mark.kind = .atOptional)
      (more : BodySpelling inProtocol true rest members) :
      BodySpelling inProtocol isOptional (mark :: rest) members
  | required {isOptional : Bool} {mark : Token} {rest : List Token} {members : List Member}
      (allowed : inProtocol = true) (mark_kind : mark.kind = .atRequired)
      (more : BodySpelling inProtocol false rest members) :
      BodySpelling inProtocol isOptional (mark :: rest) members

/-! ## Declarations -/

/-- A superclass behind a colon, or nothing. -/
inductive SuperclassSpelling : List Token → Option String → Prop where
  | none : SuperclassSpelling [] none
  | some {colon name : Token} (colon_kind : colon.kind = .colon)
      (name_kind : name.kind = .identifier) : SuperclassSpelling [colon, name] (some name.text)

/-- Protocols in angle brackets, or nothing. -/
inductive ConformanceSpelling : List Token → List String → Prop where
  | none : ConformanceSpelling [] []
  | list {less greater : Token} {names inner : List Token} (less_kind : less.kind = .less)
      (each : ∀ t ∈ names, t.kind = .identifier)
      (commas : Commas (names.map fun t => [t]) inner) (greater_kind : greater.kind = .greater) :
      ConformanceSpelling (less :: (inner ++ [greater])) (names.map (·.text))

/-- The tokens that write a declaration. Its body starts outside any optional section. -/
inductive DeclarationSpelling : List Token → Declaration → Prop where
  | classInterface {directive name last : Token} {ss ps bs : List Token}
      {superclass : Option String} {protocols : List String} {members : List Member}
      (directive_kind : directive.kind = .atInterface) (name_kind : name.kind = .identifier)
      (derived : SuperclassSpelling ss superclass) (conforms : ConformanceSpelling ps protocols)
      (body : BodySpelling false false bs members) (last_kind : last.kind = .atEnd) :
      DeclarationSpelling (directive :: name :: (ss ++ (ps ++ (bs ++ [last]))))
        (.classInterface name.text superclass protocols members)
  | protocolDeclaration {directive name last : Token} {ps bs : List Token}
      {protocols : List String} {members : List Member}
      (directive_kind : directive.kind = .atProtocol) (name_kind : name.kind = .identifier)
      (conforms : ConformanceSpelling ps protocols) (body : BodySpelling true false bs members)
      (last_kind : last.kind = .atEnd) :
      DeclarationSpelling (directive :: name :: (ps ++ (bs ++ [last])))
        (.protocolDeclaration name.text protocols members)

/-- The tokens that write a header: any number of declarations. -/
inductive HeaderSpelling : List Token → List Declaration → Prop where
  | done : HeaderSpelling [] []
  | declaration {ts rest : List Token} {d : Declaration} {declarations : List Declaration}
      (first : DeclarationSpelling ts d) (more : HeaderSpelling rest declarations) :
      HeaderSpelling (ts ++ rest) (d :: declarations)

end HeaderBridge.Grammar
