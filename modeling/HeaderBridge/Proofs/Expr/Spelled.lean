/-
  The whole language of expressions, as a grammar in the same rungs as the one without groups. A
  group is an operand with suffixes, a cast and the `sizeof` of a value are operands with signs,
  and the types in them are spelt as declarations spell them. What is spelt without a group is
  derived by the same tokens in the grammar without groups (`Spells.derives`).
-/
import HeaderBridge.Proofs.Expr.Rounds
import HeaderBridge.Proofs.Types.Exact

namespace HeaderBridge.Grammar

/-- The tokens spell the expression on a rung, with groups. -/
inductive Spells : Rung → List Token → ObjcExpr → Prop where
  | climb {rung : Rung} {ts : List Token} {e : ObjcExpr} (h : Spells rung.tighter ts e) :
      Spells rung ts e
  | assign {ls rs : List Token} {l r : ObjcExpr} {t : Token} {op : ObjcAssign}
      (target : Spells .ternary ls l) (mem : (t.kind, op) ∈ assignments)
      (value : Spells .assignment rs r) :
      Spells .assignment (ls ++ t :: rs) (.assign op l r)
  | ternary {cs ys ns : List Token} {c y n : ObjcExpr} {question colon : Token}
      (condition : Spells .or cs c) (question_kind : question.kind = .question)
      (yes : Spells .assignment ys y) (colon_kind : colon.kind = .colon)
      (no : Spells .ternary ns n) :
      Spells .ternary (cs ++ question :: (ys ++ colon :: ns)) (.ternary c y n)
  | binary {rung : Rung} {ls rs : List Token} {l r : ObjcExpr} {t : Token} {op : ObjcBinary}
      (lhs : Spells rung ls l) (mem : (t.kind, op) ∈ rung.operators)
      (rhs : Spells rung.tighter rs r) :
      Spells rung (ls ++ t :: rs) (.binary op l r)
  | unary {ts : List Token} {e : ObjcExpr} {t : Token} {op : ObjcUnary}
      (mem : (t.kind, op) ∈ signs) (operand : Spells .signed ts e) :
      Spells .signed (t :: ts) (.unary op e)
  | cast {front ts : List Token} {type : ObjcType} {e : ObjcExpr} {opening closing : Token}
      (opening_kind : opening.kind = .leftParen) (spelt : ArgumentSpelling front type)
      (closing_kind : closing.kind = .rightParen) (operand : Spells .signed ts e) :
      Spells .signed (opening :: (front ++ [closing]) ++ ts) (.cast type e)
  | sizeOfValue {ts : List Token} {e : ObjcExpr} {word : Token}
      (word_kind : word.kind = .identifier) (word_text : word.text = "sizeof")
      (operand : Spells .signed ts e) :
      Spells .signed (word :: ts) (.sizeOfValue e)
  | sizeOfType {front : List Token} {type : ObjcType} {word opening closing : Token}
      (word_kind : word.kind = .identifier) (word_text : word.text = "sizeof")
      (opening_kind : opening.kind = .leftParen) (spelt : ArgumentSpelling front type)
      (closing_kind : closing.kind = .rightParen) :
      Spells .suffixed (word :: opening :: (front ++ [closing])) (.sizeOfType type)
  | paren {ts : List Token} {e : ObjcExpr} {opening closing : Token}
      (opening_kind : opening.kind = .leftParen) (inner : Spells .assignment ts e)
      (closing_kind : closing.kind = .rightParen) :
      Spells .suffixed (opening :: (ts ++ [closing])) (.paren e)
  | member {ts : List Token} {e : ObjcExpr} {mark name : Token} {arrow : Bool}
      (base : Spells .suffixed ts e) (mem : (mark.kind, arrow) ∈ accesses)
      (name_kind : name.kind = .identifier) :
      Spells .suffixed (ts ++ [mark, name]) (.member e name.text arrow)
  | call {ts inner : List Token} {e : ObjcExpr} {opening closing : Token}
      {arguments : List (List Token × ObjcExpr)} (callee : Spells .suffixed ts e)
      (opening_kind : opening.kind = .leftParen)
      (each : ∀ a ∈ arguments, Spells .assignment a.1 a.2)
      (commas : Commas (arguments.map Prod.fst) inner)
      (closing_kind : closing.kind = .rightParen) :
      Spells .suffixed (ts ++ opening :: (inner ++ [closing])) (.call e (arguments.map Prod.snd))
  | subscript {ts inner : List Token} {e index : ObjcExpr} {opening closing : Token}
      (base : Spells .suffixed ts e) (opening_kind : opening.kind = .leftBracket)
      (inside : Spells .assignment inner index) (closing_kind : closing.kind = .rightBracket) :
      Spells .suffixed (ts ++ opening :: (inner ++ [closing])) (.subscript e index)
  | plainMessage {ts : List Token} {e : ObjcExpr} {opening name closing : Token}
      (opening_kind : opening.kind = .leftBracket) (receiver : Spells .assignment ts e)
      (name_kind : name.kind = .identifier) (closing_kind : closing.kind = .rightBracket) :
      Spells .suffixed (opening :: (ts ++ [name, closing])) (.message e name.text [])
  | message {ts first : List Token} {e value : ObjcExpr} {opening name colon closing : Token}
      {pieces : List Piece} (opening_kind : opening.kind = .leftBracket)
      (receiver : Spells .assignment ts e) (name_kind : name.kind = .identifier)
      (colon_kind : colon.kind = .colon) (argument : Spells .assignment first value)
      (marks : ∀ p ∈ pieces, p.mark.WellFormed)
      (each : ∀ p ∈ pieces, Spells .assignment p.body p.value)
      (closing_kind : closing.kind = .rightBracket) :
      Spells .suffixed
        (opening :: (ts ++ name :: colon :: (first ++ pieces.flatMap Piece.tokens ++ [closing])))
        (.message e (name.text ++ ":" ++ selectorOf pieces)
          (⟨none, value⟩ :: pieces.map Piece.argument))
  | int {t : Token} (kind : t.kind = .intLiteral) : Spells .suffixed [t] (.literal (.int t.text))
  | float {t : Token} (kind : t.kind = .floatLiteral) :
      Spells .suffixed [t] (.literal (.float t.text))
  | char {t : Token} (kind : t.kind = .charLiteral) :
      Spells .suffixed [t] (.literal (.char (unquoted t.text)))
  | strings {ts : List Token} (nonempty : ts ≠ []) (kinds : ∀ t ∈ ts, t.kind = .stringLiteral) :
      Spells .suffixed ts (.literal (.string (String.join (ts.map fun t => unquoted t.text))))
  | word {t : Token} {literal : ObjcLiteral} (kind : t.kind = .identifier)
      (text : literalWord? t.text = some literal) : Spells .suffixed [t] (.literal literal)
  | name {t : Token} (kind : t.kind = .identifier) (text : literalWord? t.text = none)
      (no_sizeof : t.text ≠ "sizeof") : Spells .suffixed [t] (.ident t.text)

/-- What a tighter rung spells, a looser one spells as well. -/
theorem Spells.loosen {rung other : Rung} {ts : List Token} {e : ObjcExpr}
    (h : Spells other ts e) (hle : rung.left ≤ other.left) : Spells rung ts e := by
  rcases Nat.eq_or_lt_of_le hle with heq | hlt
  · rw [Rung.left_injective heq]
    exact h
  · obtain ⟨htighter, _⟩ := Rung.tighter_left_le hlt
    exact .climb (h.loosen htighter)
termination_by other.left - rung.left

namespace Spells

variable {rung : Rung} {ts : List Token} {e : ObjcExpr}

/-- Every expression of a rung is an expression. -/
theorem whole (h : Spells rung ts e) : Spells .assignment ts e :=
  h.loosen (by cases rung <;> decide)

/-- What is spelt without a group is derived in the grammar without groups. -/
theorem derives (h : Spells rung ts e) (hfree : e.GroupFree) : Derives rung ts e := by
  induction h with
  | climb _ ih => exact .climb (ih hfree)
  | assign _ hmem _ ihl ihr =>
    obtain ⟨hl, hr⟩ := ObjcExpr.groupFree_assign.mp hfree
    exact .assign (ihl hl) hmem (ihr hr)
  | ternary _ hq _ hc _ ihc ihy ihn =>
    obtain ⟨hfc, hfy, hfn⟩ := ObjcExpr.groupFree_ternary.mp hfree
    exact .ternary (ihc hfc) hq (ihy hfy) hc (ihn hfn)
  | binary _ hmem _ ihl ihr =>
    obtain ⟨hl, hr⟩ := ObjcExpr.groupFree_binary.mp hfree
    exact .binary (ihl hl) hmem (ihr hr)
  | unary hmem _ ih => exact .unary hmem (ih (ObjcExpr.groupFree_unary.mp hfree))
  | cast => exact absurd hfree ObjcExpr.not_groupFree_cast
  | sizeOfValue => exact absurd hfree ObjcExpr.not_groupFree_sizeOfValue
  | sizeOfType => exact absurd hfree ObjcExpr.not_groupFree_sizeOfType
  | paren => exact absurd hfree ObjcExpr.not_groupFree_paren
  | member _ hmem hname ih => exact .member (ih (ObjcExpr.groupFree_member.mp hfree)) hmem hname
  | call _ ho _ hcommas hc ihe iha =>
    obtain ⟨he, ha⟩ := ObjcExpr.groupFree_call.mp hfree
    exact .call (ihe he) ho (fun a h => iha a h (ha a.2 (List.mem_map_of_mem h))) hcommas hc
  | subscript _ ho _ hc ihe ihi =>
    obtain ⟨he, hi⟩ := ObjcExpr.groupFree_subscript.mp hfree
    exact .subscript (ihe he) ho (ihi hi) hc
  | plainMessage ho _ hname hc ih =>
    exact .plainMessage ho (ih (ObjcExpr.groupFree_message.mp hfree).1) hname hc
  | message ho _ hname hcolon _ hmarks _ hc ihe ihv ihp =>
    obtain ⟨he, ha⟩ := ObjcExpr.groupFree_message.mp hfree
    obtain ⟨hv, hp⟩ := List.forall_mem_cons.mp ha
    exact .message ho (ihe he) hname hcolon (ihv hv) hmarks
      (fun p h => ihp p h (hp p.argument (List.mem_map_of_mem h))) hc
  | int hk => exact .int hk
  | float hk => exact .float hk
  | char hk => exact .char hk
  | strings hne hk => exact .strings hne hk
  | word hk ht => exact .word hk ht
  | name hk ht hs => exact .name hk ht hs

end Spells

end HeaderBridge.Grammar
