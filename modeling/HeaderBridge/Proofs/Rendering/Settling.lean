/-
  Where the text of an expression leaves open what a sign holds. A sign in front of an operand with
  suffixes and casts may hold all of it, or only a part from the front on; the text is the same.
  `settle` moves every sign outwards over what stands behind its operand, which changes no text.
-/
import HeaderBridge.Proofs.Rendering.Layout

namespace HeaderBridge.Expr

open Grammar (Rung)

variable {rung : Rung} {x y : Expr} {row : List Lexeme} {e : ObjcExpr} {suffix : Expr → Expr}

/-! ## Settling -/

/-- The expression with a suffix behind the operand of its signs. -/
def push (suffix : Expr → Expr) : Expr → Expr
  | .unary op x => .unary op (push suffix x)
  | x => suffix x

mutual

/-- The expression with every sign in front of the suffixes and casts of its operand. -/
def settle : Expr → Expr
  | .constant c => .constant c
  | .identifier name => .identifier name
  | .member base name => push (.member · name) (settle base)
  | .call callee arguments => push (.call · (settleArguments arguments)) (settle callee)
  | .subscript base index => push (.subscript · (settle index)) (settle base)
  | .binary lhs op rhs => .binary (settle lhs) op (settle rhs)
  | .unary op x => .unary op (settle x)
  | .assignment lhs op rhs => .assignment (settle lhs) op (settle rhs)
  | .parens inner => .parens (settle inner)
  | .cast value type => push (.cast · type) (settle value)
  | .sizeOfType type => .sizeOfType type
  | .sizeOfValue value => .sizeOfValue (settle value)
  | .ternary condition yes no => .ternary (settle condition) (settle yes) (settle no)
  | .block parameters result body => .block parameters result body

def settleArguments : List (Labelled Expr) → List (Labelled Expr)
  | [] => []
  | a :: as => ⟨a.label, settle a.value⟩ :: settleArguments as

end

theorem settleArguments_eq (as : List (Labelled Expr)) :
    settleArguments as = as.map fun a => ⟨a.label, settle a.value⟩ := by
  induction as with
  | nil => rfl
  | cons a as ih => rw [settleArguments, ih, List.map_cons]

/-- A suffix stands behind the operand of a sign in the text of either. -/
theorem text_push {behind : List Char}
    (h : ∀ x, (suffix x).text.toList = x.text.toList ++ behind) (x : Expr) :
    (push suffix x).text.toList = x.text.toList ++ behind := by
  fun_induction push suffix x with
  | case1 op x ih => rw [toList_unary, toList_unary, ih, List.append_assoc]
  | case2 x => exact h x

mutual

/-- Settling changes no text. -/
theorem text_settle : ∀ x : Expr, (settle x).text = x.text
  | .constant _ | .identifier _ | .sizeOfType _ | .block _ _ _ => rfl
  | .member base name => by
    refine String.toList_injective ?_
    rw [settle, text_push (fun x => toList_member x name), text_settle base, toList_member]
  | .call callee arguments => by
    refine String.toList_injective ?_
    rw [settle, text_push (fun x => toList_call x _), text_settle callee, toList_call,
      argumentTexts_settle arguments]
  | .subscript base index => by
    refine String.toList_injective ?_
    rw [settle, text_push (fun x => toList_subscript x _), text_settle base, toList_subscript,
      text_settle index]
  | .binary lhs op rhs => by
    refine String.toList_injective ?_
    rw [settle, toList_binary, toList_binary, text_settle lhs, text_settle rhs]
  | .unary op x => by
    refine String.toList_injective ?_
    rw [settle, toList_unary, toList_unary, text_settle x]
  | .assignment lhs op rhs => by
    refine String.toList_injective ?_
    rw [settle, toList_assignment, toList_assignment, text_settle lhs, text_settle rhs]
  | .parens inner => by
    refine String.toList_injective ?_
    rw [settle, toList_parens, toList_parens, text_settle inner]
  | .cast value type => by
    refine String.toList_injective ?_
    rw [settle, text_push (fun x => toList_cast x type), text_settle value, toList_cast]
  | .sizeOfValue value => by
    refine String.toList_injective ?_
    rw [settle, toList_sizeOfValue, toList_sizeOfValue, text_settle value]
  | .ternary condition yes no => by
    refine String.toList_injective ?_
    rw [settle, toList_ternary, toList_ternary, text_settle condition, text_settle yes,
      text_settle no]

theorem argumentTexts_settle : ∀ as : List (Labelled Expr),
    argumentTexts (settleArguments as) = argumentTexts as
  | [] => rfl
  | a :: as => by
    have hfirst : argumentTexts (settleArguments (a :: as)) =
        argumentText a.label (settle a.value).text :: argumentTexts (settleArguments as) := rfl
    have hsecond : argumentTexts (a :: as) =
        argumentText a.label a.value.text :: argumentTexts as := rfl
    rw [hfirst, hsecond, text_settle a.value, argumentTexts_settle as]

end

/-! ## Operators between two operands -/

/-- Whether an operator between two operands stands outermost. -/
def isJoint : Expr → Bool
  | .binary _ _ _ | .assignment _ _ _ | .ternary _ _ _ => true
  | _ => false

theorem isJoint_push (h : ∀ x, (suffix x).isJoint = false) (x : Expr) :
    (push suffix x).isJoint = false := by
  cases x <;> first | rfl | exact h _

theorem isJoint_settle (x : Expr) : (settle x).isJoint = x.isJoint := by
  cases x <;> first | rfl | exact isJoint_push (fun _ => rfl) _

mutual

/-- Whether no member is one of an operator between two operands, and no cast is one to a
    composition. -/
def clear : Expr → Bool
  | .constant _ | .identifier _ | .sizeOfType _ | .block _ _ _ => true
  | .member base _ => !base.isJoint && clear base
  | .call callee arguments => clear callee && clearArguments arguments
  | .subscript base index => clear base && clear index
  | .binary lhs _ rhs | .assignment lhs _ rhs => clear lhs && clear rhs
  | .unary _ x | .parens x | .sizeOfValue x => clear x
  | .cast value type => !type.isComposition && clear value
  | .ternary condition yes no => clear condition && clear yes && clear no

def clearArguments : List (Labelled Expr) → Bool
  | [] => true
  | a :: as => clear a.value && clearArguments as

end

theorem IsAtom.shape (h : x.IsAtom) :
    (∃ c, x = .constant c) ∨ (∃ name, x = .identifier name) ∨ ∃ type, x = .sizeOfType type := by
  cases h with
  | integer | string => exact .inl ⟨_, rfl⟩
  | word =>
    unfold ofWord
    split_ifs
    · exact .inl ⟨_, rfl⟩
    · exact .inl ⟨_, rfl⟩
    · exact .inl ⟨_, rfl⟩
    · exact .inr (.inl ⟨_, rfl⟩)
  | sizeOfType => exact .inr (.inr ⟨_, rfl⟩)

theorem IsAtom.isJoint_eq_false (h : x.IsAtom) : x.isJoint = false := by
  obtain ⟨_, rfl⟩ | ⟨_, rfl⟩ | ⟨_, rfl⟩ := h.shape <;> rfl

theorem IsAtom.push_eq (h : x.IsAtom) : push suffix x = suffix x := by
  obtain ⟨_, rfl⟩ | ⟨_, rfl⟩ | ⟨_, rfl⟩ := h.shape <;> rfl

theorem IsAtom.settle_eq (h : x.IsAtom) : settle x = x := by
  obtain ⟨_, rfl⟩ | ⟨_, rfl⟩ | ⟨_, rfl⟩ := h.shape <;> rfl

/-! ## Layouts of settled expressions -/

namespace Laid

theorem loosen {other : Rung} (h : Laid rung x row e) (hle : other.left ≤ rung.left) :
    Laid other x row e := by
  cases h with
  | assign hown target mem value => exact .assign (hle.trans hown) target mem value
  | ternary hown condition yes no => exact .ternary (hle.trans hown) condition yes no
  | binary hown lhs mem rhs => exact .binary (hle.trans hown) lhs mem rhs
  | unary hown mem operand => exact .unary (hle.trans hown) mem operand
  | atom isAtom => exact .atom isAtom
  | parens inner => exact .parens inner
  | sizeOfValue value => exact .sizeOfValue value
  | member base isRun => exact .member base isRun
  | cast value legible single => exact .cast value legible single
  | call callee each labels first => exact .call callee each labels first
  | subscript base index => exact .subscript base index

/-- No operator between two operands joins an operand with signs. -/
theorem isJoint_eq_false (h : Laid .signed x row e) : x.isJoint = false := by
  cases h with
  | assign hle | ternary hle => exact absurd hle (by decide)
  | @binary _ own _ _ _ _ _ _ _ _ hle _ mem =>
    have hloose : ∀ own : Rung, Rung.signed.left ≤ own.left → own.operators = [] := by
      intro own
      cases own <;> decide
    rw [hloose own hle] at mem
    cases mem
  | atom isAtom => exact isAtom.isJoint_eq_false
  | unary | parens | sizeOfValue | member | cast | call | subscript => rfl

/-- A suffix that can stand behind an operand can stand behind one with signs. -/
theorem exists_push (hsuffix : ∀ {x : Expr} {row : List Lexeme} {e : ObjcExpr},
      Laid .suffixed x row e → ∃ row' e', Laid .signed (suffix x) row' e')
    (h : Laid rung x row e) (hx : x.isJoint = false) :
    ∃ row' e', Laid .signed (push suffix x) row' e' := by
  induction h with
  | assign | ternary | binary => cases hx
  | unary _ mem operand ih =>
    obtain ⟨row', e', hlaid⟩ := ih operand.isJoint_eq_false
    exact ⟨_, _, .unary (Nat.le_refl _) mem hlaid⟩
  | atom isAtom =>
    rw [isAtom.push_eq]
    exact hsuffix (.atom isAtom)
  | parens inner => exact hsuffix (.parens inner)
  | sizeOfValue value => exact hsuffix (.sizeOfValue value)
  | member base isRun => exact hsuffix (.member base isRun)
  | cast value legible single => exact hsuffix (.cast value legible single)
  | call callee each labels first => exact hsuffix (.call callee each labels first)
  | subscript base index => exact hsuffix (.subscript base index)

end Laid

/-! ## Expressions that can be laid out once they are settled -/

/-- The settled expression can be laid out on every looser rung, down to that of signs. -/
def Settles (rung : Rung) (x : Expr) : Prop :=
  ∃ row e, ∀ other : Rung, other.left ≤ rung.left → other.left ≤ Rung.signed.left →
    Laid other x.settle row e

namespace Settles

theorem of_laid (h : Laid rung x.settle row e) : Settles rung x :=
  ⟨row, e, fun _ hle _ => h.loosen hle⟩

theorem of_signed (h : Laid .signed x.settle row e) : Settles .suffixed x :=
  ⟨row, e, fun _ _ hle => h.loosen hle⟩

theorem exists_laid {other : Rung} (h : Settles rung x) (hle : other.left ≤ rung.left)
    (hsigned : other.left ≤ Rung.signed.left) : ∃ row e, Laid other x.settle row e := by
  obtain ⟨row, e, hlaid⟩ := h
  exact ⟨row, e, hlaid other hle hsigned⟩

theorem exists_laid_assignment (h : Settles rung x) :
    ∃ row e, Laid .assignment x.settle row e :=
  h.exists_laid (by cases rung <;> decide) (by decide)

theorem loosen {other : Rung} (h : Settles rung x) (hle : other.left ≤ rung.left) :
    Settles other x := by
  obtain ⟨row, e, hlaid⟩ := h
  exact ⟨row, e, fun rung hrung => hlaid rung (hrung.trans hle)⟩

/-- No operator between two operands joins an operand with suffixes or signs. -/
theorem isJoint_eq_false (h : Settles rung x) (hle : Rung.signed.left ≤ rung.left) :
    x.isJoint = false := by
  obtain ⟨_, _, hlaid⟩ := h.exists_laid hle (Nat.le_refl _)
  rw [← isJoint_settle]
  exact hlaid.isJoint_eq_false

theorem atom (h : x.IsAtom) : Settles rung x :=
  ⟨_, _, fun _ _ _ => by rw [h.settle_eq]; exact .atom h⟩

theorem assign {kind : TokenKind} {op : ObjcAssign} (target : Settles .ternary x)
    (mem : (kind, op) ∈ Grammar.assignments) (value : Settles .assignment y) :
    Settles .assignment (.assignment x op.swift y) := by
  obtain ⟨_, _, hx⟩ := target.exists_laid (Nat.le_refl _) (by decide)
  obtain ⟨_, _, hy⟩ := value.exists_laid_assignment
  exact .of_laid (.assign (Nat.le_refl _) hx mem hy)

theorem ternary {z : Expr} (condition : Settles .or x) (yes : Settles .assignment y)
    (no : Settles .ternary z) : Settles .ternary (.ternary x y z) := by
  obtain ⟨_, _, hx⟩ := condition.exists_laid (Nat.le_refl _) (by decide)
  obtain ⟨_, _, hy⟩ := yes.exists_laid_assignment
  obtain ⟨_, _, hz⟩ := no.exists_laid (Nat.le_refl _) (by decide)
  exact .of_laid (.ternary (Nat.le_refl _) hx hy hz)

theorem binary {kind : TokenKind} {op : ObjcBinary} (lhs : Settles rung x)
    (mem : (kind, op) ∈ rung.operators) (rhs : Settles rung.tighter y) :
    Settles rung (.binary x op.swift y) := by
  obtain ⟨hrung, htighter⟩ : rung.left ≤ Rung.signed.left ∧
      rung.tighter.left ≤ Rung.signed.left := by
    cases rung <;> first | decide | cases mem
  obtain ⟨_, _, hx⟩ := lhs.exists_laid (Nat.le_refl _) hrung
  obtain ⟨_, _, hy⟩ := rhs.exists_laid (Nat.le_refl _) htighter
  exact .of_laid (.binary (Nat.le_refl _) hx mem hy)

theorem unary {kind : TokenKind} {op : ObjcUnary} (mem : (kind, op) ∈ Grammar.signs)
    (operand : Settles .signed x) : Settles .signed (.unary op.swift x) := by
  obtain ⟨_, _, hx⟩ := operand.exists_laid (Nat.le_refl _) (Nat.le_refl _)
  exact .of_laid (.unary (Nat.le_refl _) mem hx)

theorem parens (inner : Settles .assignment x) : Settles .suffixed (.parens x) := by
  obtain ⟨_, _, hx⟩ := inner.exists_laid_assignment
  exact .of_signed (.parens hx)

theorem sizeOfValue (value : Settles .signed x) : Settles .suffixed (.sizeOfValue x) := by
  obtain ⟨_, _, hx⟩ := value.exists_laid_assignment
  exact .of_signed (.sizeOfValue hx)

/-- A suffix that can stand behind an operand can stand behind everything that no operator between
    two operands joins. -/
theorem push (h : Settles rung x) (hx : x.isJoint = false) (hy : y.settle = push suffix x.settle)
    (hsuffix : ∀ {x : Expr} {row : List Lexeme} {e : ObjcExpr},
      Laid .suffixed x row e → ∃ row' e', Laid .signed (suffix x) row' e') :
    Settles .suffixed y := by
  obtain ⟨_, _, hlaid⟩ := h.exists_laid_assignment
  obtain ⟨_, _, hpush⟩ := hlaid.exists_push hsuffix ((isJoint_settle x).trans hx)
  rw [← hy] at hpush
  exact .of_signed hpush

theorem member {name : String} (base : Settles rung x) (hx : x.isJoint = false)
    (isRun : IsRun name.toList) : Settles .suffixed (.member x name) :=
  base.push hx rfl fun hlaid => ⟨_, _, .member hlaid isRun⟩

theorem cast {type : SwiftType} (value : Settles .signed x) (legible : type.Legible)
    (single : type.isComposition = false) : Settles .suffixed (.cast x type) :=
  value.push (value.isJoint_eq_false (Nat.le_refl _)) rfl fun hlaid =>
    ⟨_, _, .cast hlaid legible single⟩

theorem subscript (base : Settles .suffixed x) (index : Settles .assignment y) :
    Settles .suffixed (.subscript x y) := by
  obtain ⟨_, _, hy⟩ := index.exists_laid_assignment
  exact base.push (base.isJoint_eq_false (by decide)) rfl fun hlaid =>
    ⟨_, _, .subscript hlaid hy⟩

/-- The arguments of a call, settled and laid out. -/
theorem exists_laidArguments {arguments : List (Labelled Expr)}
    (each : ∀ a ∈ arguments, Settles .assignment a.value) :
    ∃ laid : List LaidArgument, laid.map LaidArgument.argument = settleArguments arguments ∧
      ∀ a ∈ laid, Laid .assignment a.value a.row a.shadow := by
  induction arguments with
  | nil => exact ⟨[], rfl, List.forall_mem_nil _⟩
  | cons a arguments ih =>
    obtain ⟨ha, hmore⟩ := List.forall_mem_cons.mp each
    obtain ⟨row, shadow, hlaid⟩ := ha.exists_laid_assignment
    obtain ⟨laid, hmap, hall⟩ := ih hmore
    refine ⟨⟨a.label, a.value.settle, row, shadow⟩ :: laid, ?_,
      List.forall_mem_cons.mpr ⟨hlaid, hall⟩⟩
    rw [List.map_cons, hmap, LaidArgument.argument, settleArguments]

theorem call {arguments : List (Labelled Expr)} (callee : Settles .suffixed x)
    (each : ∀ a ∈ arguments, Settles .assignment a.value)
    (labels : ∀ label ∈ arguments.map (·.label), ∀ word ∈ label, IsRun word.toList)
    (first : ∀ label ∈ (arguments.map (·.label)).head?, label = none) :
    Settles .suffixed (.call x arguments) := by
  obtain ⟨laid, hlaid, hall⟩ := exists_laidArguments each
  have hlabels : arguments.map (·.label) = laid.map (·.label) := by
    have hmap := congrArg (List.map Labelled.label) ((settleArguments_eq arguments).symm.trans
      hlaid.symm)
    rw [List.map_map, List.map_map] at hmap
    exact hmap
  have hsettle : settle (.call x arguments) =
      Expr.push (.call · (laid.map LaidArgument.argument)) x.settle := by rw [hlaid, settle]
  rw [hlabels] at labels first
  refine callee.push (callee.isJoint_eq_false (by decide)) hsettle fun hx =>
    ⟨_, _, .call hx hall (List.forall_mem_map.mp labels) fun a ha => first _ ?_⟩
  rw [List.head?_map, ha]
  rfl

end Settles

end HeaderBridge.Expr
