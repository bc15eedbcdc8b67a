/-
  The language of expressions without groups, as a grammar in rungs. Every operator belongs to a
  rung, and an operand of an operator is an expression of its own rung or of a tighter one, as the
  way in which the operator groups says. `Derives rung ts e` says that the tokens `ts` spell the
  expression `e` on a rung. No number stands for how strong an operator is: that the powers which
  the parser works with describe this language is what has to be proved. A word is a literal if it
  stands in a table (`literalWord?_eq_some_iff`), and a literal in quotes has what stands between them
  (`toList_unquoted`).

  An expression is free of groups if no part of it is in parentheses, a cast or a `sizeof`.
-/
import HeaderBridge.Objc.Grammar.Expr
import HeaderBridge.Proofs.Reading.Finding
import Mathlib.Tactic.SplitIfs

namespace HeaderBridge

/-! ## Groups -/

namespace ObjcExpr

/-- Whether an expression is one that stands in parentheses or has a type in it. -/
def isGroup : ObjcExpr → Bool
  | .paren _ | .cast _ _ | .sizeOfType _ | .sizeOfValue _ => true
  | _ => false

/-- Nothing in the expression is a group. -/
def GroupFree (e : ObjcExpr) : Prop := ∀ part ∈ e.sequence, part.isGroup = false

attribute [simp] sequence sequenceAll sequenceLabelled isGroup

variable {e e' e'' : ObjcExpr}

@[simp] theorem not_groupFree_paren : ¬ (paren e).GroupFree := by
  intro h
  cases h (paren e) (by simp)

@[simp] theorem not_groupFree_cast {type : ObjcType} : ¬ (cast type e).GroupFree := by
  intro h
  cases h (cast type e) (by simp)

@[simp] theorem not_groupFree_sizeOfType {type : ObjcType} : ¬ (sizeOfType type).GroupFree := by
  intro h
  cases h (sizeOfType type) (by simp)

@[simp] theorem not_groupFree_sizeOfValue : ¬ (sizeOfValue e).GroupFree := by
  intro h
  cases h (sizeOfValue e) (by simp)

@[simp] theorem groupFree_literal {value : ObjcLiteral} : (literal value).GroupFree := by
  simp [GroupFree]

@[simp] theorem groupFree_ident {name : String} : (ident name).GroupFree := by
  simp [GroupFree]

@[simp] theorem groupFree_unary {op : ObjcUnary} : (unary op e).GroupFree ↔ e.GroupFree := by
  simp [GroupFree]

@[simp] theorem groupFree_binary {op : ObjcBinary} :
    (binary op e e').GroupFree ↔ e.GroupFree ∧ e'.GroupFree := by
  simp [GroupFree, or_imp, forall_and]

@[simp] theorem groupFree_assign {op : ObjcAssign} :
    (assign op e e').GroupFree ↔ e.GroupFree ∧ e'.GroupFree := by
  simp [GroupFree, or_imp, forall_and]

@[simp] theorem groupFree_ternary :
    (ternary e e' e'').GroupFree ↔ e.GroupFree ∧ e'.GroupFree ∧ e''.GroupFree := by
  simp [GroupFree, or_imp, forall_and]

@[simp] theorem groupFree_member {name : String} {arrow : Bool} :
    (member e name arrow).GroupFree ↔ e.GroupFree := by
  simp [GroupFree]

@[simp] theorem groupFree_subscript :
    (subscript e e').GroupFree ↔ e.GroupFree ∧ e'.GroupFree := by
  simp [GroupFree, or_imp, forall_and]

theorem mem_sequenceAll {part : ObjcExpr} {es : List ObjcExpr} :
    part ∈ sequenceAll es ↔ ∃ e ∈ es, part ∈ e.sequence := by
  induction es with
  | nil => simp
  | cons e es ih => simp [ih]

theorem mem_sequenceLabelled {part : ObjcExpr} {as : List (Labelled ObjcExpr)} :
    part ∈ sequenceLabelled as ↔ ∃ a ∈ as, part ∈ a.value.sequence := by
  induction as with
  | nil => simp
  | cons a as ih => simp [ih]

@[simp] theorem groupFree_call {arguments : List ObjcExpr} :
    (call e arguments).GroupFree ↔ e.GroupFree ∧ ∀ a ∈ arguments, a.GroupFree := by
  simp only [GroupFree, sequence, List.mem_cons, List.mem_append, mem_sequenceAll, or_imp,
    forall_and, forall_eq, isGroup, true_and]
  constructor
  · rintro ⟨he, ha⟩
    exact ⟨he, fun a ha' part hp => ha part ⟨a, ha', hp⟩⟩
  · rintro ⟨he, ha⟩
    exact ⟨he, fun part ⟨a, ha', hp⟩ => ha a ha' part hp⟩

@[simp] theorem groupFree_message {selector : String} {arguments : List (Labelled ObjcExpr)} :
    (message e selector arguments).GroupFree ↔
      e.GroupFree ∧ ∀ a ∈ arguments, a.value.GroupFree := by
  simp only [GroupFree, sequence, List.mem_cons, List.mem_append, mem_sequenceLabelled, or_imp,
    forall_and, forall_eq, isGroup, true_and]
  constructor
  · rintro ⟨he, ha⟩
    exact ⟨he, fun a ha' part hp => ha part ⟨a, ha', hp⟩⟩
  · rintro ⟨he, ha⟩
    exact ⟨he, fun part ⟨a, ha', hp⟩ => ha a ha' part hp⟩

end ObjcExpr

namespace Grammar

/-! ## Rungs -/

/-- The rungs of the grammar, the loosest one first. -/
inductive Rung where
  | assignment | ternary | or | and | bitOr | bitXor | bitAnd | equality | relational | shift
  | additive | multiplicative | signed | suffixed
  deriving DecidableEq

/-- The next tighter rung. -/
def Rung.tighter : Rung → Rung
  | .assignment => .ternary
  | .ternary => .or
  | .or => .and
  | .and => .bitOr
  | .bitOr => .bitXor
  | .bitXor => .bitAnd
  | .bitAnd => .equality
  | .equality => .relational
  | .relational => .shift
  | .shift => .additive
  | .additive => .multiplicative
  | .multiplicative => .signed
  | .signed | .suffixed => .suffixed

/-- The operators on a rung that stand between two operands and group to the left. -/
def Rung.operators : Rung → List (TokenKind × ObjcBinary)
  | .or => [(.pipePipe, .or)]
  | .and => [(.ampAmp, .and)]
  | .bitOr => [(.pipe, .bitOr)]
  | .bitXor => [(.caret, .bitXor)]
  | .bitAnd => [(.amp, .bitAnd)]
  | .equality => [(.eqEq, .eq), (.notEq, .notEq)]
  | .relational => [
    (.less, .less), (.greater, .greater), (.lessEq, .lessEq), (.greaterEq, .greaterEq)]
  | .shift => [(.shiftLeft, .shl), (.shiftRight, .shr)]
  | .additive => [(.plus, .add), (.minus, .sub)]
  | .multiplicative => [(.star, .mul), (.slash, .div), (.percent, .rem)]
  | .assignment | .ternary | .signed | .suffixed => []

/-- The operators of assignments, which group to the right. -/
def assignments : List (TokenKind × ObjcAssign) := [
  (.eq, .assign), (.plusEq, .add), (.minusEq, .sub), (.starEq, .mul), (.slashEq, .div)]

/-- The operators in front of an operand. -/
def signs : List (TokenKind × ObjcUnary) := [
  (.minus, .neg), (.plus, .plus), (.bang, .not), (.tilde, .bitNot)]

/-- The tokens in front of the name of a member, and whether they are an arrow. -/
def accesses : List (TokenKind × Bool) := [(.dot, false), (.arrow, true)]

/-- The words for literals. -/
def literalWords : List (String × ObjcLiteral) := [
  ("true", .bool true), ("YES", .bool true), ("false", .bool false), ("NO", .bool false),
  ("nil", .nil), ("Nil", .nil), ("NULL", .nil)]

theorem literalWord?_eq_some_iff {word : String} {literal : ObjcLiteral} :
    literalWord? word = some literal ↔ (word, literal) ∈ literalWords := by
  constructor
  · intro h
    unfold literalWord? at h
    split_ifs at h with htrue hfalse hnil
    all_goals cases h
    all_goals simp_all [literalWords]
  · have hall : ∀ p ∈ literalWords, literalWord? p.1 = some p.2 := by
      simp [literalWords, literalWord?]
    exact hall (word, literal)

theorem literalWord?_eq_none_iff {word : String} :
    literalWord? word = none ↔ ∀ literal, (word, literal) ∉ literalWords := by
  simp only [Option.eq_none_iff_forall_ne_some, ne_eq, literalWord?_eq_some_iff]

/-! ## Arguments of messages -/

/-- What stands in front of a further argument of a message. -/
inductive Mark where
  | keyword (name colon : Token)
  | comma (token : Token)

namespace Mark

def tokens : Mark → List Token
  | .keyword name colon => [name, colon]
  | .comma token => [token]

def WellFormed : Mark → Prop
  | .keyword name colon => name.kind = .identifier ∧ colon.kind = .colon
  | .comma token => token.kind = .comma

def label : Mark → Option String
  | .keyword name _ => some name.text
  | .comma _ => none

/-- What the mark adds to the selector. -/
def selector : Mark → String
  | .keyword name _ => name.text ++ ":"
  | .comma _ => ""

end Mark

/-- A further argument of a message with its mark. -/
structure Piece where
  mark : Mark
  body : List Token
  value : ObjcExpr

namespace Piece

def tokens (p : Piece) : List Token := p.mark.tokens ++ p.body

def argument (p : Piece) : Labelled ObjcExpr := ⟨p.mark.label, p.value⟩

end Piece

/-- What some pieces add to the selector of a message. -/
def selectorOf (pieces : List Piece) : String := String.join (pieces.map (·.mark.selector))

theorem selectorOf_cons (p : Piece) (pieces : List Piece) :
    selectorOf (p :: pieces) = p.mark.selector ++ selectorOf pieces :=
  String.join_cons

/-! ## Derivations -/

/-- The tokens spell the expression on a rung. -/
inductive Derives : Rung → List Token → ObjcExpr → Prop where
  | climb {rung : Rung} {ts : List Token} {e : ObjcExpr} (h : Derives rung.tighter ts e) :
      Derives rung ts e
  | assign {ls rs : List Token} {l r : ObjcExpr} {t : Token} {op : ObjcAssign}
      (target : Derives .ternary ls l) (mem : (t.kind, op) ∈ assignments)
      (value : Derives .assignment rs r) :
      Derives .assignment (ls ++ t :: rs) (.assign op l r)
  | ternary {cs ys ns : List Token} {c y n : ObjcExpr} {question colon : Token}
      (condition : Derives .or cs c) (question_kind : question.kind = .question)
      (yes : Derives .assignment ys y) (colon_kind : colon.kind = .colon)
      (no : Derives .ternary ns n) :
      Derives .ternary (cs ++ question :: (ys ++ colon :: ns)) (.ternary c y n)
  | binary {rung : Rung} {ls rs : List Token} {l r : ObjcExpr} {t : Token} {op : ObjcBinary}
      (lhs : Derives rung ls l) (mem : (t.kind, op) ∈ rung.operators)
      (rhs : Derives rung.tighter rs r) :
      Derives rung (ls ++ t :: rs) (.binary op l r)
  | unary {ts : List Token} {e : ObjcExpr} {t : Token} {op : ObjcUnary}
      (mem : (t.kind, op) ∈ signs) (operand : Derives .signed ts e) :
      Derives .signed (t :: ts) (.unary op e)
  | member {ts : List Token} {e : ObjcExpr} {mark name : Token} {arrow : Bool}
      (base : Derives .suffixed ts e) (mem : (mark.kind, arrow) ∈ accesses)
      (name_kind : name.kind = .identifier) :
      Derives .suffixed (ts ++ [mark, name]) (.member e name.text arrow)
  | call {ts inner : List Token} {e : ObjcExpr} {opening closing : Token}
      {arguments : List (List Token × ObjcExpr)} (callee : Derives .suffixed ts e)
      (opening_kind : opening.kind = .leftParen)
      (each : ∀ a ∈ arguments, Derives .assignment a.1 a.2)
      (commas : Commas (arguments.map Prod.fst) inner)
      (closing_kind : closing.kind = .rightParen) :
      Derives .suffixed (ts ++ opening :: (inner ++ [closing])) (.call e (arguments.map Prod.snd))
  | subscript {ts inner : List Token} {e index : ObjcExpr} {opening closing : Token}
      (base : Derives .suffixed ts e) (opening_kind : opening.kind = .leftBracket)
      (inside : Derives .assignment inner index) (closing_kind : closing.kind = .rightBracket) :
      Derives .suffixed (ts ++ opening :: (inner ++ [closing])) (.subscript e index)
  | plainMessage {ts : List Token} {e : ObjcExpr} {opening name closing : Token}
      (opening_kind : opening.kind = .leftBracket) (receiver : Derives .assignment ts e)
      (name_kind : name.kind = .identifier) (closing_kind : closing.kind = .rightBracket) :
      Derives .suffixed (opening :: (ts ++ [name, closing])) (.message e name.text [])
  | message {ts first : List Token} {e value : ObjcExpr} {opening name colon closing : Token}
      {pieces : List Piece} (opening_kind : opening.kind = .leftBracket)
      (receiver : Derives .assignment ts e) (name_kind : name.kind = .identifier)
      (colon_kind : colon.kind = .colon) (argument : Derives .assignment first value)
      (marks : ∀ p ∈ pieces, p.mark.WellFormed)
      (each : ∀ p ∈ pieces, Derives .assignment p.body p.value)
      (closing_kind : closing.kind = .rightBracket) :
      Derives .suffixed
        (opening :: (ts ++ name :: colon :: (first ++ pieces.flatMap Piece.tokens ++ [closing])))
        (.message e (name.text ++ ":" ++ selectorOf pieces)
          (⟨none, value⟩ :: pieces.map Piece.argument))
  | int {t : Token} (kind : t.kind = .intLiteral) : Derives .suffixed [t] (.literal (.int t.text))
  | float {t : Token} (kind : t.kind = .floatLiteral) :
      Derives .suffixed [t] (.literal (.float t.text))
  | char {t : Token} (kind : t.kind = .charLiteral) :
      Derives .suffixed [t] (.literal (.char (unquoted t.text)))
  | strings {ts : List Token} (nonempty : ts ≠ []) (kinds : ∀ t ∈ ts, t.kind = .stringLiteral) :
      Derives .suffixed ts (.literal (.string (String.join (ts.map fun t => unquoted t.text))))
  | word {t : Token} {literal : ObjcLiteral} (kind : t.kind = .identifier)
      (text : literalWord? t.text = some literal) : Derives .suffixed [t] (.literal literal)
  | name {t : Token} (kind : t.kind = .identifier) (text : literalWord? t.text = none)
      (no_sizeof : t.text ≠ "sizeof") : Derives .suffixed [t] (.ident t.text)

end Grammar

end HeaderBridge
