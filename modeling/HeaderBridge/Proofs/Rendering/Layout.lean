/-
  Expressions laid out as rows of lexemes. `Laid rung x row e` says that `x` needs no parentheses on
  a rung, that `row` writes it, and that the tokens of the row derive `e` in the grammar without
  groups. A cast binds there like a suffix, so it never holds a sign.

  A row derives one expression at most, and this expression says which one was laid out. A text is
  the text of one row at most. So expressions that are laid out have different texts.
-/
import HeaderBridge.Proofs.Expr.Exact
import HeaderBridge.Proofs.Rendering.Lexemes

namespace HeaderBridge

open Grammar (Rung Derives signs assignments)

/-! ## Rows of tokens -/

/-- Tokens of given kinds and texts, each at a place of its own. -/
def placed : Nat → List (TokenKind × String) → List Token
  | _, [] => []
  | n, face :: faces => ⟨face.1, face.2, ⟨2 * n, 2 * n + 2, by omega⟩⟩ :: placed (n + 1) faces

theorem placed_append (n : Nat) (faces more : List (TokenKind × String)) :
    placed n (faces ++ more) = placed n faces ++ placed (n + faces.length) more := by
  induction faces generalizing n with
  | nil => rfl
  | cons face faces ih =>
    rw [List.cons_append, placed, placed, ih, List.length_cons, Nat.add_right_comm n 1,
      Nat.add_assoc]
    rfl

theorem placed_cons (n : Nat) (face : TokenKind × String) (faces : List (TokenKind × String)) :
    placed n (face :: faces) =
      ⟨face.1, face.2, ⟨2 * n, 2 * n + 2, by omega⟩⟩ :: placed (n + 1) faces := rfl

theorem inOrder_placed (n : Nat) (faces : List (TokenKind × String)) :
    InOrder (2 * n) (2 * (n + faces.length)) (placed n faces) := by
  induction faces generalizing n with
  | nil => exact Nat.le_refl _
  | cons face faces ih =>
    refine ⟨Nat.le_refl _, Nat.lt_add_of_pos_right Nat.two_pos, fun _ => rfl, ?_⟩
    rw [List.length_cons, Nat.add_comm faces.length 1, ← Nat.add_assoc]
    exact ih (n + 1)

/-- Tokens in order derive one expression at most. -/
theorem Grammar.Derives.unique {ts : List Token} {upper : Nat} {e e' : ObjcExpr}
    (h : Derives .assignment ts e) (h' : Derives .assignment ts e') (hts : InOrder 0 upper ts) :
    e = e' := by
  let s : ReadState :=
    { ReadState.start "" [] .empty none with rest := ts, sourceLength := upper }
  have hsound : s.Sound := ⟨⟨upper, hts⟩, Nat.one_pos⟩
  have hyields := Grammar.wholeExpression_yields (s := s) h rfl
  have hyields' := Grammar.wholeExpression_yields (s := s) h' rfl
  rcases (wholeExpression_safeAt hsound).cases with ⟨b, s', hdone, _⟩ | ⟨error, s', hfailed, _⟩
  · exact (hyields.of_done hdone).symm.trans (hyields'.of_done hdone)
  · exact (hyields.of_failed hfailed).elim

theorem Grammar.Rung.left_le_suffixed (rung : Rung) : rung.left ≤ Rung.suffixed.left := by
  cases rung <;> decide

/-- A name that no word starts like is neither a literal nor an operator. -/
theorem Grammar.Derives.shade {name : String}
    (h : name.toList.head? ∈ [some '.', some ':', some '(']) (span : Span) :
    Derives .suffixed [⟨.identifier, name, span⟩] (.ident name) := by
  have hne : ∀ word ∈ ["true", "YES", "false", "NO", "nil", "Nil", "NULL", "sizeof"],
      name ≠ word := by
    rintro word hword rfl
    revert h
    revert name
    simp
  refine .name rfl (literalWord?_eq_none_iff.mpr fun literal hmem => ?_) (hne "sizeof" (by simp))
  simp only [List.forall_mem_cons] at hne
  simp [literalWords, hne] at hmem

/-! ## Layouts -/

namespace Expr

/-- An argument with the row of its value and what the row derives. -/
structure LaidArgument where
  label : Option String
  value : Expr
  row : List Lexeme
  shadow : ObjcExpr

namespace LaidArgument

def argument (a : LaidArgument) : Labelled Expr := ⟨a.label, a.value⟩

/-- The row of an argument, with its label. -/
def lexemes (a : LaidArgument) : List Lexeme := a.label.toList.map .label ++ a.row

/-- What an argument derives: its label is an argument of its own. -/
def shadows (a : LaidArgument) : List ObjcExpr :=
  (a.label.toList.map fun label => .ident (":" ++ label)) ++ [a.shadow]

/-- The row of the arguments of a call. -/
def allLexemes : List LaidArgument → List Lexeme
  | [] => []
  | [a] => a.lexemes
  | a :: b :: more => a.lexemes ++ .mark .comma [',', ' '] :: allLexemes (b :: more)

end LaidArgument

/-- The expression stands on the rung without parentheses, the row writes it, and the tokens of the
    row derive an expression without groups. -/
inductive Laid : Rung → Expr → List Lexeme → ObjcExpr → Prop where
  | assign {rung : Rung} {l r : Expr} {ls rs : List Lexeme} {e f : ObjcExpr} {kind : TokenKind}
      {op : ObjcAssign} (hle : rung.left ≤ Rung.assignment.left) (target : Laid .ternary l ls e)
      (mem : (kind, op) ∈ assignments) (value : Laid .assignment r rs f) :
      Laid rung (.assignment l op.swift r) (ls ++ .joint kind op.swift.symbol :: rs)
        (.assign op e f)
  | ternary {rung : Rung} {c y n : Expr} {cs ys ns : List Lexeme} {e f g : ObjcExpr}
      (hle : rung.left ≤ Rung.ternary.left) (condition : Laid .or c cs e)
      (yes : Laid .assignment y ys f) (no : Laid .ternary n ns g) :
      Laid rung (.ternary c y n)
        (cs ++ .joint .question "?" :: (ys ++ .joint .colon ":" :: ns)) (.ternary e f g)
  | binary {rung own : Rung} {l r : Expr} {ls rs : List Lexeme} {e f : ObjcExpr} {kind : TokenKind}
      {op : ObjcBinary} (hle : rung.left ≤ own.left) (lhs : Laid own l ls e)
      (mem : (kind, op) ∈ own.operators) (rhs : Laid own.tighter r rs f) :
      Laid rung (.binary l op.swift r) (ls ++ .joint kind op.swift.symbol :: rs) (.binary op e f)
  | unary {rung : Rung} {x : Expr} {row : List Lexeme} {e : ObjcExpr} {kind : TokenKind}
      {op : ObjcUnary} (hle : rung.left ≤ Rung.signed.left) (mem : (kind, op) ∈ signs)
      (operand : Laid .signed x row e) :
      Laid rung (.unary op.swift x) (.mark kind op.swift.symbol.toList :: row) (.unary op e)
  | atom {rung : Rung} {x : Expr} (isAtom : x.IsAtom) :
      Laid rung x [.atom x] (.ident ("." ++ x.text))
  | parens {rung : Rung} {x : Expr} {row : List Lexeme} {e : ObjcExpr}
      (inner : Laid .assignment x row e) :
      Laid rung (.parens x) (.group :: (row ++ [.mark .rightParen [')']]))
        (.call (.ident "(") [e])
  | sizeOfValue {rung : Rung} {x : Expr} {row : List Lexeme} {e : ObjcExpr}
      (value : Laid .assignment x row e) :
      Laid rung (.sizeOfValue x)
        (.atom (ofWord "MemoryLayout") :: .member "size" :: .mark .leftParen ['('] ::
          .label "ofValue" :: (row ++ [.mark .rightParen [')']]))
        (.call (.member (.ident ".MemoryLayout") "size" false) [.ident ":ofValue", e])
  | member {rung : Rung} {x : Expr} {row : List Lexeme} {e : ObjcExpr} {name : String}
      (base : Laid .suffixed x row e) (isRun : IsRun name.toList) :
      Laid rung (.member x name) (row ++ [.member name]) (.member e name false)
  | cast {rung : Rung} {x : Expr} {row : List Lexeme} {e : ObjcExpr} {type : SwiftType}
      (value : Laid .suffixed x row e) (legible : type.Legible)
      (single : type.isComposition = false) :
      Laid rung (.cast x type) (row ++ [.cast type]) (.member e type.text true)
  | call {rung : Rung} {x : Expr} {row : List Lexeme} {e : ObjcExpr}
      {arguments : List LaidArgument} (callee : Laid .suffixed x row e)
      (each : ∀ a ∈ arguments, Laid .assignment a.value a.row a.shadow)
      (labels : ∀ a ∈ arguments, ∀ label ∈ a.label, IsRun label.toList)
      (first : ∀ a ∈ arguments.head?, a.label = none) :
      Laid rung (.call x (arguments.map LaidArgument.argument))
        (row ++ .mark .leftParen ['('] ::
          (LaidArgument.allLexemes arguments ++ [.mark .rightParen [')']]))
        (.call e (arguments.flatMap LaidArgument.shadows))
  | subscript {rung : Rung} {x i : Expr} {row inner : List Lexeme} {e f : ObjcExpr}
      (base : Laid .suffixed x row e) (index : Laid .assignment i inner f) :
      Laid rung (.subscript x i)
        (row ++ .mark .leftBracket ['['] :: (inner ++ [.mark .rightBracket [']']])) (.subscript e f)

/-! ## Texts -/

theorem toList_binary (l r : Expr) (op : SwiftOperator) : (binary l op r).text.toList =
    l.text.toList ++ ' ' :: (op.symbol.toList ++ ' ' :: r.text.toList) := by
  have htext : (binary l op r).text = l.text ++ " " ++ op.symbol ++ " " ++ r.text := rfl
  simp [htext]

theorem toList_assignment (l r : Expr) (op : SwiftOperator) : (assignment l op r).text.toList =
    l.text.toList ++ ' ' :: (op.symbol.toList ++ ' ' :: r.text.toList) := by
  have htext : (assignment l op r).text = l.text ++ " " ++ op.symbol ++ " " ++ r.text := rfl
  simp [htext]

theorem toList_ternary (c y n : Expr) : (ternary c y n).text.toList =
    c.text.toList ++ ' ' :: '?' :: ' ' :: (y.text.toList ++ ' ' :: ':' :: ' ' :: n.text.toList) := by
  have htext : (ternary c y n).text = c.text ++ " ? " ++ y.text ++ " : " ++ n.text := rfl
  simp [htext]

theorem toList_unary (op : SwiftOperator) (x : Expr) :
    (unary op x).text.toList = op.symbol.toList ++ x.text.toList := by
  have htext : (unary op x).text = op.symbol ++ x.text := rfl
  simp [htext]

theorem toList_parens (x : Expr) : (parens x).text.toList = '(' :: (x.text.toList ++ [')']) := by
  have htext : (parens x).text = "(" ++ x.text ++ ")" := rfl
  simp [htext]

theorem toList_sizeOfValue (x : Expr) : (sizeOfValue x).text.toList =
    "MemoryLayout.size(ofValue: ".toList ++ (x.text.toList ++ [')']) := by
  have htext : (sizeOfValue x).text = "MemoryLayout.size(ofValue: " ++ x.text ++ ")" := rfl
  simp [htext]

theorem toList_member (x : Expr) (name : String) :
    (member x name).text.toList = x.text.toList ++ '.' :: name.toList := by
  have htext : (member x name).text = x.text ++ "." ++ name := rfl
  simp [htext]

theorem toList_cast (x : Expr) (type : SwiftType) : (cast x type).text.toList =
    x.text.toList ++ ' ' :: 'a' :: 's' :: '?' :: ' ' :: type.text.toList := by
  have htext : (cast x type).text = x.text ++ " as? " ++ type.text := rfl
  simp [htext]

theorem toList_subscript (x i : Expr) :
    (subscript x i).text.toList = x.text.toList ++ '[' :: (i.text.toList ++ [']']) := by
  have htext : (subscript x i).text = x.text ++ "[" ++ i.text ++ "]" := rfl
  simp [htext]

theorem toList_call (x : Expr) (arguments : List (Labelled Expr)) :
    (call x arguments).text.toList = x.text.toList ++
      '(' :: ((", ".intercalate (argumentTexts arguments)).toList ++ [')']) := by
  have htext : (call x arguments).text =
      x.text ++ "(" ++ ", ".intercalate (argumentTexts arguments) ++ ")" := rfl
  rw [htext, String.toList_append, String.toList_append, String.toList_append]
  simp only [List.append_assoc]
  rfl

namespace LaidArgument

variable {arguments : List LaidArgument} {a : LaidArgument}

theorem texts_lexemes (h : Lexeme.texts a.row = a.value.text.toList) :
    Lexeme.texts a.lexemes = (argumentText a.label a.value.text).toList := by
  cases hlabel : a.label with
  | none => simp [lexemes, argumentText, hlabel, h]
  | some label => simp [lexemes, argumentText, hlabel, h, Lexeme.label]

theorem texts_allLexemes (h : ∀ a ∈ arguments, Lexeme.texts a.row = a.value.text.toList) :
    Lexeme.texts (allLexemes arguments) =
      (", ".intercalate (argumentTexts (arguments.map argument))).toList := by
  induction arguments with
  | nil => rfl
  | cons a more ih =>
    obtain ⟨ha, hmore⟩ := List.forall_mem_cons.mp h
    have hfirst : ∀ more : List LaidArgument,
        argumentTexts ((a :: more).map argument) =
          argumentText a.label a.value.text :: argumentTexts (more.map argument) := fun _ => rfl
    cases more with
    | nil =>
      rw [hfirst, allLexemes, texts_lexemes ha]
      exact congrArg String.toList String.intercalate_singleton.symm
    | cons b more =>
      have hsecond : argumentTexts ((b :: more).map argument) =
          argumentText b.label b.value.text :: argumentTexts (more.map argument) := rfl
      rw [allLexemes, Lexeme.texts_append, Lexeme.texts_cons, texts_lexemes ha, ih hmore, hfirst,
        hsecond, String.intercalate_cons_cons]
      simp [Lexeme.mark]

/-- The rows of arguments lead from an operand's place to the end of the last one. -/
theorem flow_allLexemes (h : ∀ a ∈ arguments, Flow .operand a.row .operator)
    (labels : ∀ a ∈ arguments, ∀ label ∈ a.label, IsRun label.toList) (hne : arguments ≠ []) :
    Flow .operand (allLexemes arguments) .operator := by
  have hone : ∀ a ∈ arguments, Flow .operand a.lexemes .operator := by
    intro a ha
    unfold lexemes
    cases hlabel : a.label with
    | none => exact h a ha
    | some label => exact .cons (.label (labels a ha label hlabel)) (h a ha)
  clear h labels
  induction arguments with
  | nil => exact absurd rfl hne
  | cons a more ih =>
    obtain ⟨ha, hmore⟩ := List.forall_mem_cons.mp hone
    cases more with
    | nil => exact ha
    | cons b more =>
      exact ha.append (.cons (.mark (by decide)) (ih (List.cons_ne_nil _ _) hmore))

/-- The tokens of arguments are pieces that derive what the arguments derive, with commas between
    them. -/
theorem exists_pieces
    (h : ∀ a ∈ arguments, ∀ n, Derives .assignment (placed n (Lexeme.allFaces a.row)) a.shadow)
    (n : Nat) : ∃ pieces : List (List Token × ObjcExpr),
      (∀ p ∈ pieces, Derives .assignment p.1 p.2) ∧ (arguments ≠ [] → pieces ≠ []) ∧
      Commas (pieces.map Prod.fst) (placed n (Lexeme.allFaces (allLexemes arguments))) ∧
      pieces.map Prod.snd = arguments.flatMap shadows := by
  have hone : ∀ a ∈ arguments, ∀ n, ∃ pieces : List (List Token × ObjcExpr),
      (∀ p ∈ pieces, Derives .assignment p.1 p.2) ∧ pieces ≠ [] ∧
      Commas (pieces.map Prod.fst) (placed n (Lexeme.allFaces a.lexemes)) ∧
      pieces.map Prod.snd = a.shadows := by
    intro a ha n
    unfold lexemes shadows
    cases a.label with
    | none =>
      exact ⟨[(_, a.shadow)], List.forall_mem_singleton.mpr (h a ha n), List.cons_ne_nil _ _,
        .one _, rfl⟩
    | some label =>
      have hlabel : (":" ++ label).toList.head? ∈ [some '.', some ':', some '('] := by simp
      refine ⟨[([⟨.identifier, ":" ++ label, _⟩], .ident (":" ++ label)), (_, a.shadow)],
        List.forall_mem_cons.mpr ⟨(Derives.shade hlabel _).whole,
          List.forall_mem_singleton.mpr (h a ha (n + 2))⟩, List.cons_ne_nil _ _,
        .more _ _ rfl (.one _), rfl⟩
  clear h
  induction arguments generalizing n with
  | nil => exact ⟨[], List.forall_mem_nil _, fun h => absurd rfl h, .none, rfl⟩
  | cons a more ih =>
    obtain ⟨ha, hmore⟩ := List.forall_mem_cons.mp hone
    obtain ⟨front, hfront, hne, hcommas, hshadows⟩ := ha n
    cases more with
    | nil =>
      exact ⟨front, hfront, fun _ => hne, hcommas, by rw [hshadows, List.flatMap_singleton]⟩
    | cons b more =>
      obtain ⟨pieces, hpieces, hne', hrest, hvalues⟩ :=
        ih (n + (Lexeme.allFaces a.lexemes).length + 1) hmore
      refine ⟨front ++ pieces, List.forall_mem_append.mpr ⟨hfront, hpieces⟩,
        fun _ h => hne (List.append_eq_nil_iff.mp h).1, ?_, ?_⟩
      · rw [List.map_append, allLexemes, Lexeme.allFaces_append, placed_append]
        exact hcommas.append hrest (mt List.map_eq_nil_iff.mp hne)
          (mt List.map_eq_nil_iff.mp (hne' (List.cons_ne_nil _ _))) rfl
      · rw [List.map_append, hshadows, hvalues]
        exact List.flatMap_cons.symm

/-- The tokens of a call derive the call. -/
theorem call_derives {row : List Lexeme} {e : ObjcExpr} (arguments : List LaidArgument)
    (hcallee : ∀ n, Derives .suffixed (placed n (Lexeme.allFaces row)) e)
    (h : ∀ a ∈ arguments, ∀ n, Derives .assignment (placed n (Lexeme.allFaces a.row)) a.shadow)
    (n : Nat) : Derives .suffixed (placed n (Lexeme.allFaces (row ++ .mark .leftParen ['('] ::
      (allLexemes arguments ++ [.mark .rightParen [')']])))) (.call e (arguments.flatMap shadows)) := by
  rw [Lexeme.allFaces_append, placed_append, Lexeme.allFaces_cons, Lexeme.faces_mark,
    List.singleton_append, placed_cons, Lexeme.allFaces_append, placed_append]
  obtain ⟨pieces, hpieces, -, hcommas, hvalues⟩ := exists_pieces h _
  rw [← hvalues]
  exact .call (hcallee n) rfl hpieces hcommas rfl

end LaidArgument

namespace Laid

variable {rung : Rung} {x y : Expr} {row : List Lexeme} {e : ObjcExpr}

/-! ## What a row writes -/

/-- The row writes the expression. -/
theorem texts_eq (h : Laid rung x row e) : Lexeme.texts row = x.text.toList := by
  induction h with
  | assign _ _ _ _ ihl ihr => simp [toList_assignment, ihl, ihr, Lexeme.joint, Lexeme.mark]
  | ternary _ _ _ _ ihc ihy ihn =>
    simp [toList_ternary, ihc, ihy, ihn, Lexeme.joint, Lexeme.mark]
  | binary _ _ _ _ ihl ihr => simp [toList_binary, ihl, ihr, Lexeme.joint, Lexeme.mark]
  | unary _ _ _ ih => simp [toList_unary, ih, Lexeme.mark]
  | atom => exact List.append_nil _
  | parens _ ih => simp [toList_parens, ih, Lexeme.group, Lexeme.mark]
  | sizeOfValue _ ih =>
    simp [toList_sizeOfValue, ih, Lexeme.atom, text_ofWord, Lexeme.member, Lexeme.label,
      Lexeme.mark]
  | member _ _ ih => simp [toList_member, ih, Lexeme.member]
  | cast _ _ _ ih => simp [toList_cast, ih, Lexeme.cast]
  | call _ _ _ _ ih iha =>
    simp [toList_call, ih, LaidArgument.texts_allLexemes iha, Lexeme.mark]
  | subscript _ _ ih ihi => simp [toList_subscript, ih, ihi, Lexeme.mark]

/-- The row leads from where an operand is expected to where one has ended. -/
theorem flow (h : Laid rung x row e) : Flow .operand row .operator := by
  have hclosing : Flow .operator [Lexeme.mark .rightParen [')']] .operator :=
    .one (.mark (by decide))
  induction h with
  | assign _ _ mem _ ihl ihr =>
    exact ihl.append (.cons (.joint (mem_joints_of_assignments mem)) ihr)
  | ternary _ _ _ _ ihc ihy ihn =>
    exact ihc.append (.cons (.joint (by decide))
      (ihy.append (.cons (.joint (by decide)) ihn)))
  | binary _ _ mem _ ihl ihr =>
    exact ihl.append (.cons (.joint (mem_joints_of_operators mem)) ihr)
  | unary _ mem _ ih => exact .cons (.sign mem) ih
  | atom isAtom => exact .one (.atom isAtom)
  | parens _ ih => exact .cons (.mark (by decide)) (ih.append hclosing)
  | sizeOfValue _ ih =>
    refine .cons (.atom (.word (by decide))) (.cons (.member (by decide +kernel)) ?_)
    exact .cons (.mark (by decide)) (.cons (.label (by decide +kernel)) (ih.append hclosing))
  | member _ isRun ih => exact ih.append (.one (.member isRun))
  | cast _ legible single ih => exact ih.append (.one (.cast legible single))
  | @call _ _ _ _ arguments _ _ labels _ ih iha =>
    refine ih.append (.cons (q := .operand) (.mark (by decide)) ?_)
    cases arguments with
    | nil => exact .one (.mark (by decide))
    | cons a more =>
      exact (LaidArgument.flow_allLexemes iha labels (List.cons_ne_nil _ _)).append hclosing
  | subscript _ _ ih ihi =>
    exact ih.append (.cons (q := .operand) (.mark (by decide))
      (ihi.append (.one (.mark (by decide)))))

/-- The tokens of the row derive the expression without groups. -/
theorem derives (h : Laid rung x row e) (n : Nat) :
    Derives rung (placed n (Lexeme.allFaces row)) e := by
  induction h generalizing n with
  | assign hle _ mem _ ihl ihr =>
    rw [Lexeme.allFaces_append, Lexeme.allFaces_cons, placed_append]
    exact (Derives.assign (ihl n) mem (ihr _)).loosen hle
  | ternary hle _ _ _ ihc ihy ihn =>
    rw [Lexeme.allFaces_append, Lexeme.allFaces_cons, Lexeme.allFaces_append,
      Lexeme.allFaces_cons, placed_append, Lexeme.joint, Lexeme.faces_mark, List.singleton_append,
      placed_cons, placed_append]
    exact (Derives.ternary (ihc n) rfl (ihy _) rfl (ihn _)).loosen hle
  | binary hle _ mem _ ihl ihr =>
    rw [Lexeme.allFaces_append, Lexeme.allFaces_cons, placed_append]
    exact (Derives.binary (ihl n) mem (ihr _)).loosen hle
  | unary hle mem _ ih =>
    rw [Lexeme.allFaces_cons]
    exact (Derives.unary mem (ih _)).loosen hle
  | @atom _ x isAtom =>
    have hpoint : ("." ++ x.text).toList.head? ∈ [some '.', some ':', some '('] := by simp
    exact (Derives.shade hpoint _).loosen (Rung.left_le_suffixed _)
  | @parens _ x row e _ ih =>
    rw [Lexeme.allFaces_cons, Lexeme.allFaces_append, placed_append, placed_append]
    have hinner : ∀ n, ∀ a ∈ [(placed n (Lexeme.allFaces row), e)],
        Derives .assignment a.1 a.2 := fun n => List.forall_mem_singleton.mpr (ih n)
    exact (Derives.call (Derives.shade (by simp) _) rfl (hinner _) (.one _) rfl).loosen
      (Rung.left_le_suffixed _)
  | @sizeOfValue _ x row e _ ih =>
    have hsize : ∀ n, Derives .suffixed (placed n (Lexeme.allFaces
        [.atom (ofWord "MemoryLayout"), .member "size"]))
        (.member (.ident ".MemoryLayout") "size" false) := fun n =>
      .member (.shade (by simp) _) List.mem_cons_self rfl
    exact (LaidArgument.call_derives [⟨some "ofValue", x, row, e⟩] hsize
      (List.forall_mem_singleton.mpr ih) n).loosen (Rung.left_le_suffixed _)
  | member _ _ ih =>
    rw [Lexeme.allFaces_append, placed_append]
    exact (Derives.member (ih n) List.mem_cons_self rfl).loosen (Rung.left_le_suffixed _)
  | cast _ _ _ ih =>
    rw [Lexeme.allFaces_append, placed_append]
    exact (Derives.member (ih n) (List.mem_cons_of_mem _ List.mem_cons_self) rfl).loosen
      (Rung.left_le_suffixed _)
  | call _ _ _ _ ih iha =>
    exact (LaidArgument.call_derives _ ih iha n).loosen (Rung.left_le_suffixed _)
  | subscript _ _ ih ihi =>
    rw [Lexeme.allFaces_append, placed_append, Lexeme.allFaces_cons, Lexeme.faces_mark,
      List.singleton_append, placed_cons, Lexeme.allFaces_append, placed_append]
    exact (Derives.subscript (ih n) rfl (ihi _) rfl).loosen (Rung.left_le_suffixed _)

/-! ## Which expression was laid out -/

/-- A name stands for an atom, and starts with a point. -/
theorem head_of_ident {name : String} (h : Laid rung x row (.ident name)) :
    name.toList.head? = some '.' := by
  cases h with
  | atom => simp

theorem not_laid_group : ¬ Laid rung x row (.ident "(") := fun h => by
  have hhead := h.head_of_ident
  simp at hhead

theorem shadow_ne_label {a : LaidArgument} (h : Laid rung a.value a.row a.shadow)
    (label : String) : a.shadow ≠ .ident (":" ++ label) := by
  intro heq
  rw [heq] at h
  have hhead := h.head_of_ident
  simp at hhead

/-- No argument without a label derives what one with a label does. -/
theorem shadows_ne_label {arguments : List LaidArgument}
    (each : ∀ a ∈ arguments, Laid .assignment a.value a.row a.shadow)
    (first : ∀ a ∈ arguments.head?, a.label = none) (label : String) (more : List ObjcExpr) :
    arguments.flatMap LaidArgument.shadows ≠ .ident (":" ++ label) :: more := by
  intro heq
  cases arguments with
  | nil => cases heq
  | cons a arguments =>
    rw [List.flatMap_cons, LaidArgument.shadows, first a rfl] at heq
    exact (each a List.mem_cons_self).shadow_ne_label label (List.cons.inj heq).1

theorem arguments_unique {arguments arguments' : List LaidArgument}
    (h : ∀ a ∈ arguments, Laid .assignment a.value a.row a.shadow)
    (unique : ∀ a ∈ arguments, ∀ (other : Rung) (y : Expr) (row' : List Lexeme),
      Laid other y row' a.shadow → a.value = y)
    (h' : ∀ a ∈ arguments', Laid .assignment a.value a.row a.shadow)
    (heq : arguments.flatMap LaidArgument.shadows = arguments'.flatMap LaidArgument.shadows) :
    arguments.map LaidArgument.argument = arguments'.map LaidArgument.argument := by
  induction arguments generalizing arguments' with
  | nil =>
    cases arguments' with
    | nil => rfl
    | cons b more' => simp [LaidArgument.shadows] at heq
  | cons a more ih =>
    cases arguments' with
    | nil => simp [LaidArgument.shadows] at heq
    | cons b more' =>
      obtain ⟨ha, hmore⟩ := List.forall_mem_cons.mp h
      obtain ⟨hb, hmore'⟩ := List.forall_mem_cons.mp h'
      obtain ⟨hfirst, hothers⟩ := List.forall_mem_cons.mp unique
      rw [List.flatMap_cons, List.flatMap_cons] at heq
      have hlabel : a.label = b.label ∧ a.shadow = b.shadow ∧
          more.flatMap LaidArgument.shadows = more'.flatMap LaidArgument.shadows := by
        cases hla : a.label with
        | none =>
          cases hlb : b.label with
          | none => simpa [LaidArgument.shadows, hla, hlb] using heq
          | some label =>
            simp [LaidArgument.shadows, hla, hlb] at heq
            exact absurd heq.1 (ha.shadow_ne_label label)
        | some label =>
          cases hlb : b.label with
          | none =>
            simp [LaidArgument.shadows, hla, hlb] at heq
            exact absurd heq.1.symm (hb.shadow_ne_label label)
          | some label' => simpa [LaidArgument.shadows, hla, hlb] using heq
      obtain ⟨hlabel, hshadow, hrest⟩ := hlabel
      have hvalue : a.value = b.value := hfirst _ _ _ (hshadow ▸ hb)
      rw [List.map_cons, List.map_cons, ih hmore hothers hmore' hrest, LaidArgument.argument,
        LaidArgument.argument, hlabel, hvalue]

/-- The derived expression says which one was laid out. -/
theorem unique (h : Laid rung x row e) :
    ∀ (other : Rung) (y : Expr) (row' : List Lexeme), Laid other y row' e → x = y := by
  have hnil : EndsOperand [] := ⟨nofun, nofun⟩
  induction h with
  | assign _ _ _ _ ihl ihr =>
    intro other y row' h'
    cases h' with
    | assign _ target _ value => rw [ihl _ _ _ target, ihr _ _ _ value]
  | ternary _ _ _ _ ihc ihy ihn =>
    intro other y row' h'
    cases h' with
    | ternary _ condition yes no => rw [ihc _ _ _ condition, ihy _ _ _ yes, ihn _ _ _ no]
  | binary _ _ _ _ ihl ihr =>
    intro other y row' h'
    cases h' with
    | binary _ lhs _ rhs => rw [ihl _ _ _ lhs, ihr _ _ _ rhs]
  | unary _ _ _ ih =>
    intro other y row' h'
    cases h' with
    | unary _ _ operand => rw [ih _ _ _ operand]
  | @atom _ x isAtom =>
    intro other y row' h'
    generalize hname : "." ++ x.text = name at h'
    cases h' with
    | atom isAtom' =>
      have htext := congrArg String.toList hname
      rw [String.toList_append, String.toList_append] at htext
      have happend := congrArg (· ++ []) (List.append_cancel_left htext)
      exact (isAtom.append_inj isAtom' hnil hnil happend).1
  | @parens _ _ _ e _ ih =>
    intro other y row' h'
    generalize hargs : [e] = arguments at h'
    cases h' with
    | parens inner =>
      obtain rfl := (List.cons.inj hargs).1
      rw [ih _ _ _ inner]
    | call callee => exact absurd callee not_laid_group
  | @sizeOfValue _ _ _ e _ ih =>
    intro other y row' h'
    generalize hargs : [.ident ":ofValue", e] = arguments at h'
    cases h' with
    | sizeOfValue value =>
      obtain rfl := (List.cons.inj (List.cons.inj hargs).2).1
      rw [ih _ _ _ value]
    | call _ each _ first => exact absurd hargs.symm (shadows_ne_label each first "ofValue" _)
  | member _ _ ih =>
    intro other y row' h'
    cases h' with
    | member base => rw [ih _ _ _ base]
  | @cast _ _ _ _ type _ legible single ih =>
    intro other y row' h'
    generalize hname : type.text = name at h'
    cases h' with
    | cast value legible' single' =>
      have happend := congrArg (fun name => name.toList ++ []) hname
      rw [(legible.told legible' (hnil.endsType single) (hnil.endsType single') happend).1,
        ih _ _ _ value]
  | @call _ _ _ _ arguments callee each _ first ih iha =>
    intro other y row' h'
    generalize hargs : arguments.flatMap LaidArgument.shadows = values at h'
    cases h' with
    | parens => exact absurd callee not_laid_group
    | sizeOfValue => exact absurd hargs (shadows_ne_label each first "ofValue" _)
    | call callee' each' => rw [ih _ _ _ callee', arguments_unique each iha each' hargs]
  | subscript _ _ ih ihi =>
    intro other y row' h'
    cases h' with
    | subscript base index => rw [ih _ _ _ base, ihi _ _ _ index]

end Laid

/-- Expressions that are laid out have different texts. -/
theorem Laid.text_inj {x y : Expr} {row row' : List Lexeme} {e e' : ObjcExpr}
    (h : Laid .assignment x row e) (h' : Laid .assignment y row' e') (heq : x.text = y.text) :
    x = y := by
  obtain rfl := h.flow.unique h'.flow (by rw [h.texts_eq, h'.texts_eq, heq])
  have hinOrder := inOrder_placed 0 (Lexeme.allFaces row)
  obtain rfl := (h.derives 0).unique (h'.derives 0) hinOrder
  exact h.unique _ _ _ h'

end Expr

end HeaderBridge
