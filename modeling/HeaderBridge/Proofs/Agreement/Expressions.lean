/-
  The rules for expressions do the same on rows of the same faces. They are built over the rule for a
  whole expression, so each of them agrees as long as that rule does; the rule for whole expressions
  then agrees by induction on how deep expressions may be nested.
-/
import HeaderBridge.Proofs.Agreement.Trying

namespace HeaderBridge

open ReadState (kindOf)
open Bare (bare)

/-! An expression has no place in it. -/

instance : Bare ObjcExpr := ⟨id⟩
instance : Bare ObjcLiteral := ⟨id⟩
instance : Bare (Labelled ObjcExpr) := ⟨id⟩

/-- An array of values without places stays as it is. -/
theorem bare_array {α : Type} [Bare α] (h : ∀ a : α, bare a = a) (as : Array α) : bare as = as := by
  show as.map bare = as
  rw [show (bare : α → α) = id from funext h, Array.map_id]

theorem optionalType_eq_of_bare {type type' : Option ObjcType} (h : bare type = bare type') :
    type = type' := by
  have same : ∀ type : Option ObjcType, bare type = type := fun type => by cases type <;> rfl
  rwa [same, same] at h

namespace Grammar

open Rule Rule.AgreeAt

/-- Two rules for expressions of every power do the same from all states. -/
def AgreeThroughout (expr expr' : Nat → Rule ObjcExpr) : Prop :=
  ∀ power s s', AgreeAt none (expr power) (expr' power) s s'

/-! ## Operands -/

theorem strings_agreeAt (s s' : ReadState) : AgreeAt none strings strings s s' := by
  have sees : SeesFaces none fun ts => kindOf ts == .stringLiteral := fun ts us h hsees =>
    congrArg (· == TokenKind.stringLiteral) (h.kindOf_eq hsees)
  -- Only the texts of the strings count.
  have texts : ∀ ts : List Token, ts.map (fun t => unquoted t.text) =
      (ts.map Token.face).map fun f => unquoted f.2 := fun ts => by
    rw [List.map_map]
    rfl
  have value : ∀ ts us : List Token, ts.map Token.face = us.map Token.face →
      bare (ObjcLiteral.string (String.join (ts.map fun t => unquoted t.text))) =
        bare (ObjcLiteral.string (String.join (us.map fun t => unquoted t.text))) := fun ts us h => by
    rw [texts, texts, h]
  exact readWhileThen sees value s s'

section Parts

variable {expr expr' : Nat → Rule ObjcExpr} {s s' : ReadState}

theorem sizeOf_agreeAt (hexpr : AgreeThroughout expr expr') (s s' : ReadState) :
    AgreeAt none (sizeOf expr) (sizeOf expr') s s' := by
  have last : ∀ (type type' : Option ObjcType) t t', bare type = bare type' →
      AgreeAt none (sizeOfOperand expr type) (sizeOfOperand expr' type') t t' := by
    intro type type' t t' h
    obtain rfl : type = type' := optionalType_eq_of_bare h
    cases type with
    | some type => exact .pure rfl t t'
    | none => exact (hexpr _ t t').bind fun _ _ u u' h => .pure (congrArg ObjcExpr.sizeOfValue h) u u'
  unfold sizeOf
  refine (AgreeAt.advance s s').bind fun _ _ s₁ s₁' _ => .state (.ite ?_ (fun hc => ?_) fun _ => ?_)
  · intro halike hsees
    rw [halike.current_eq hsees]
  · exact (IsTried.attempt_agreeAt (.inr rfl) hc).bind last
  · exact (AgreeAt.pure rfl s₁ s₁').bind last

theorem castOrGroup_agreeAt (hexpr : AgreeThroughout expr expr') (hc : s.current = .leftParen) :
    AgreeAt none (castOrGroup expr) (castOrGroup expr') s s' := by
  unfold castOrGroup
  refine (IsTried.attempt_agreeAt (.inl rfl) hc).bind fun type type' s₁ s₁' h => ?_
  obtain rfl : type = type' := optionalType_eq_of_bare h
  cases type with
  | some type =>
    exact (hexpr _ s₁ s₁').bind fun _ _ s₂ s₂' h => .pure (congrArg (ObjcExpr.cast type) h) s₂ s₂'
  | none =>
    refine (AgreeAt.advance s₁ s₁').bind fun _ _ s₂ s₂' _ => ?_
    refine (hexpr _ s₂ s₂').bind fun _ _ s₃ s₃' hinner => ?_
    exact (AgreeAt.expect _ _ s₃ s₃').bind fun _ _ s₄ s₄' _ =>
      .pure (congrArg ObjcExpr.paren hinner) s₄ s₄'

/-! ## Calls and messages -/

theorem moreArguments_agreeAt (hexpr : AgreeThroughout expr expr') (fuel : Nat) :
    ∀ fuel' read (s s' : ReadState),
      AgreeAt none (moreArguments expr fuel read) (moreArguments expr' fuel' read) s s' := by
  induction fuel with
  | zero => intro _ _ s s'; exact .breakWith _ _ s s'
  | succ fuel ih =>
    intro fuel' read s s'
    apply AgreeAt.onFuel fuel'
    · rfl
    intro fuel'
    unfold moreArguments
    refine (hexpr 0 s s').bind fun value value' s₁ s₁' hvalue => ?_
    obtain rfl : value = value' := hvalue
    refine (AgreeAt.eat _ s₁ s₁').bind fun comma comma' s₂ s₂' hcomma => ?_
    obtain rfl : comma = comma' := hcomma
    exact .ite (fun _ _ => Iff.rfl) (fun _ => ih _ _ s₂ s₂') fun _ => .pure rfl s₂ s₂'

theorem callArguments_agreeAt (hexpr : AgreeThroughout expr expr') (s s' : ReadState) :
    AgreeAt none (callArguments expr) (callArguments expr') s s' := by
  have last : ∀ (read read' : Array ObjcExpr) t t', bare read = bare read' → AgreeAt none (do
      let _ ← Rule.expect .rightParen .argumentsEnd
      return read.toList) (do
      let _ ← Rule.expect .rightParen .argumentsEnd
      return read'.toList) t t' := fun read read' t t' h =>
    (AgreeAt.expect _ _ t t').bind fun _ _ u u' _ => .pure (bare_toList h) u u'
  unfold callArguments
  refine (AgreeAt.advance s s').bind fun _ _ s₁ s₁' _ => .state (.ite ?_ (fun _ => ?_) fun _ => ?_)
  · intro halike hsees
    rw [halike.current_eq hsees]
  · exact (AgreeAt.pure rfl s₁ s₁').bind last
  · exact (moreArguments_agreeAt hexpr _ _ _ s₁ s₁').bind last

theorem messageArguments_agreeAt (hexpr : AgreeThroughout expr expr') (fuel : Nat) :
    ∀ fuel' selector read (s s' : ReadState), AgreeAt none (messageArguments expr fuel selector read)
      (messageArguments expr' fuel' selector read) s s' := by
  induction fuel with
  | zero => intro _ _ _ s s'; exact .breakWith _ _ s s'
  | succ fuel ih =>
    intro fuel' selector read s s'
    apply AgreeAt.onFuel fuel'
    · rfl
    intro fuel'
    have next : ∀ selector label t t', AgreeAt none (do
        let value ← expr 0
        messageArguments expr fuel selector (read.push ⟨label, value⟩)) (do
        let value ← expr' 0
        messageArguments expr' fuel' selector (read.push ⟨label, value⟩)) t t' :=
      fun selector label t t' => (hexpr 0 t t').bind fun value value' u u' hvalue => by
        obtain rfl : value = value' := hvalue
        exact ih _ _ _ u u'
    unfold messageArguments
    refine .state (.ite ?_ (fun _ => .seeing ((AgreeAt.advance s s').bind fun _ _ s₁ s₁' _ =>
      (AgreeAt.advance s₁ s₁').bind fun _ _ s₂ s₂' _ => next _ (some s.currentText) s₂ s₂') ?_)
      fun _ => ?_)
    · intro halike hsees
      rw [halike.current_eq hsees, halike.second_eq]
    · -- The word in front of the colon is the same on both sides.
      intro halike hsees
      rw [halike.currentText_eq hsees]
    · refine (AgreeAt.eat _ s s').bind fun comma comma' s₁ s₁' hcomma => ?_
      obtain rfl : comma = comma' := hcomma
      exact .ite (fun _ _ => Iff.rfl) (fun _ => next _ _ s₁ s₁') fun _ => .pure rfl s₁ s₁'

theorem message_agreeAt (hexpr : AgreeThroughout expr expr') (s s' : ReadState) :
    AgreeAt none (message expr) (message expr') s s' := by
  unfold message
  refine (AgreeAt.advance s s').bind fun _ _ s₁ s₁' _ => ?_
  refine (hexpr 0 s₁ s₁').bind fun receiver receiver' s₂ s₂' hreceiver => ?_
  obtain rfl : receiver = receiver' := hreceiver
  refine (AgreeAt.identifier _ s₂ s₂').bind fun first first' s₃ s₃' hfirst => ?_
  have hname := Ident.name_eq_of_bare hfirst
  have last : ∀ (found found' : String × Array (Labelled ObjcExpr)) t t', bare found = bare found' →
      AgreeAt none (do
        let _ ← Rule.expect .rightBracket .messageEnd
        return ObjcExpr.message receiver found.1 found.2.toList) (do
        let _ ← Rule.expect .rightBracket .messageEnd
        return ObjcExpr.message receiver found'.1 found'.2.toList) t t' := by
    rintro ⟨selector, arguments⟩ ⟨selector', arguments'⟩ t t' h
    obtain ⟨hselector, harguments⟩ := Prod.mk.inj h
    rw [bare_array fun _ => rfl, bare_array fun _ => rfl] at harguments
    obtain rfl : selector = selector' := hselector
    rw [harguments]
    exact (AgreeAt.expect _ _ t t').bind fun _ _ u u' _ => .pure rfl u u'
  refine (AgreeAt.eat _ s₃ s₃').bind fun colon colon' s₄ s₄' hcolon => ?_
  obtain rfl : colon = colon' := hcolon
  refine .ite (fun _ _ => Iff.rfl) (fun _ => ?_) fun _ => ?_
  · refine (hexpr 0 s₄ s₄').bind fun value value' s₅ s₅' hvalue => .state ?_
    obtain rfl : value = value' := hvalue
    rw [hname]
    exact (messageArguments_agreeAt hexpr _ _ _ _ s₅ s₅').bind last
  · rw [hname]
    exact (AgreeAt.pure rfl s₄ s₄').bind last

/-! ## Single operands -/

/-- A word of which the text is known. -/
def wordOf (expr : Nat → Rule ObjcExpr) (text : String) : Rule ObjcExpr :=
  match literalWord? text with
  | some literal => do
    let _ ← Rule.advance
    return .literal literal
  | none =>
    if text = "sizeof" then sizeOf expr
    else do
      let _ ← Rule.advance
      return .ident text

theorem word_eq (expr : Nat → Rule ObjcExpr) :
    word expr = (do wordOf expr (← Rule.state).currentText) := rfl

theorem wordOf_agreeAt (hexpr : AgreeThroughout expr expr') (text : String) (s s' : ReadState) :
    AgreeAt none (wordOf expr text) (wordOf expr' text) s s' := by
  unfold wordOf
  cases literalWord? text with
  | some literal => exact (AgreeAt.advance s s').bind fun _ _ s₁ s₁' _ => .pure rfl s₁ s₁'
  | none =>
    refine .ite (fun _ _ => Iff.rfl) (fun _ => sizeOf_agreeAt hexpr s s') fun _ => ?_
    exact (AgreeAt.advance s s').bind fun _ _ s₁ s₁' _ => .pure rfl s₁ s₁'

theorem word_agreeAt (hexpr : AgreeThroughout expr expr') (s s' : ReadState) :
    AgreeAt none (word expr) (word expr') s s' := by
  rw [word_eq, word_eq]
  refine .state (.seeing (wordOf_agreeAt hexpr s.currentText s s') fun halike hsees => ?_)
  rw [halike.currentText_eq hsees]

/-- An operand of which the kind and the text of the first token are known. -/
def operandOf (expr : Nat → Rule ObjcExpr) (kind : TokenKind) (text : String) : Rule ObjcExpr :=
  match unaryOf? kind with
  | some op => do
    let _ ← Rule.advance
    return .unary op (← expr unaryPower)
  | none =>
    match kind with
    | .intLiteral => do
      let _ ← Rule.advance
      return .literal (.int text)
    | .floatLiteral => do
      let _ ← Rule.advance
      return .literal (.float text)
    | .stringLiteral => do return .literal (← strings)
    | .charLiteral => do
      let _ ← Rule.advance
      return .literal (.char (unquoted text))
    | .identifier => word expr
    | .leftParen => castOrGroup expr
    | .leftBracket => message expr
    | _ => failHere .expression

theorem operand_eq (expr : Nat → Rule ObjcExpr) : operand expr = (do
    let s ← Rule.state
    operandOf expr s.current s.currentText) := rfl

theorem operandOf_agreeAt (hexpr : AgreeThroughout expr expr') {kind : TokenKind}
    (hkind : s.current = kind) (text : String) :
    AgreeAt none (operandOf expr kind text) (operandOf expr' kind text) s s' := by
  have literal : ∀ value : ObjcLiteral, AgreeAt none (do
      let _ ← Rule.advance
      return ObjcExpr.literal value) (do
      let _ ← Rule.advance
      return ObjcExpr.literal value) s s' := fun value =>
    (AgreeAt.advance s s').bind fun _ _ s₁ s₁' _ => .pure rfl s₁ s₁'
  unfold operandOf
  split
  · next op _ =>
    exact (AgreeAt.advance s s').bind fun _ _ s₁ s₁' _ => (hexpr _ s₁ s₁').bind
      fun _ _ s₂ s₂' h => .pure (congrArg (ObjcExpr.unary op) h) s₂ s₂'
  · split
    · exact literal _
    · exact literal _
    · exact (strings_agreeAt s s').bind fun _ _ s₁ s₁' h =>
        .pure (congrArg ObjcExpr.literal h) s₁ s₁'
    · exact literal _
    · exact word_agreeAt hexpr s s'
    · exact castOrGroup_agreeAt hexpr hkind
    · exact message_agreeAt hexpr s s'
    · exact .failHere _ s s'

theorem operand_agreeAt (hexpr : AgreeThroughout expr expr') (s s' : ReadState) :
    AgreeAt none (operand expr) (operand expr') s s' := by
  rw [operand_eq, operand_eq]
  refine .state (.seeing (operandOf_agreeAt hexpr rfl s.currentText) fun halike hsees => ?_)
  rw [halike.current_eq hsees, halike.currentText_eq hsees]

/-! ## Operators -/

theorem joined_agreeAt (hexpr : AgreeThroughout expr expr') (joint : Joint) (lhs : ObjcExpr)
    (s s' : ReadState) : AgreeAt none (joined expr joint lhs) (joined expr' joint lhs) s s' := by
  unfold joined
  cases joint with
  | assign op =>
    exact (hexpr _ s s').bind fun _ _ s₁ s₁' h => .pure (congrArg (ObjcExpr.assign op lhs) h) s₁ s₁'
  | binary op =>
    exact (hexpr _ s s').bind fun _ _ s₁ s₁' h => .pure (congrArg (ObjcExpr.binary op lhs) h) s₁ s₁'
  | ternary =>
    refine (hexpr _ s s').bind fun yes yes' s₁ s₁' hyes => ?_
    obtain rfl : yes = yes' := hyes
    refine (AgreeAt.expect _ _ s₁ s₁').bind fun _ _ s₂ s₂' _ => ?_
    exact (hexpr _ s₂ s₂').bind fun _ _ s₃ s₃' h =>
      .pure (congrArg (ObjcExpr.ternary lhs yes) h) s₃ s₃'

/-- What follows an operand, of which the kind of the first token is known, and the rule for what
    follows that. -/
def extendedBy (expr : Nat → Rule ObjcExpr) (power : Nat) (next : ObjcExpr → Rule ObjcExpr)
    (lhs : ObjcExpr) (kind : TokenKind) : Rule ObjcExpr :=
  match kind with
  | .leftParen => do
    let arguments ← callArguments expr
    next (.call lhs arguments)
  | .dot | .arrow => do
    let _ ← Rule.advance
    let name ← Rule.identifier .memberName
    next (.member lhs name.name (kind == .arrow))
  | .leftBracket => do
    let _ ← Rule.advance
    let index ← expr 0
    let _ ← Rule.expect .rightBracket .subscriptEnd
    next (.subscript lhs index)
  | _ =>
    match jointOf? kind with
    | none => return lhs
    | some joint =>
      if joint.powers.1 < power then return lhs
      else do
        let _ ← Rule.advance
        let whole ← joined expr joint lhs
        next whole

theorem extended_succ (expr : Nat → Rule ObjcExpr) (power fuel : Nat) (lhs : ObjcExpr) :
    extended expr power (fuel + 1) lhs = (do
      let kind := (← Rule.state).current
      extendedBy expr power (extended expr power fuel) lhs kind) := rfl

theorem extendedBy_agreeAt (hexpr : AgreeThroughout expr expr') (power : Nat)
    {next next' : ObjcExpr → Rule ObjcExpr}
    (hnext : ∀ whole s s', AgreeAt none (next whole) (next' whole) s s') (lhs : ObjcExpr)
    (kind : TokenKind) (s s' : ReadState) :
    AgreeAt none (extendedBy expr power next lhs kind) (extendedBy expr' power next' lhs kind)
      s s' := by
  have goesOn : ∀ (whole whole' : ObjcExpr) t t', bare whole = bare whole' →
      AgreeAt none (next whole) (next' whole') t t' := fun whole whole' t t' h => by
    obtain rfl : whole = whole' := h
    exact hnext whole t t'
  have member : ∀ arrow : Bool, AgreeAt none (do
      let _ ← Rule.advance
      let name ← Rule.identifier .memberName
      next (.member lhs name.name arrow)) (do
      let _ ← Rule.advance
      let name ← Rule.identifier .memberName
      next' (.member lhs name.name arrow)) s s' := fun arrow =>
    (AgreeAt.advance s s').bind fun _ _ s₁ s₁' _ =>
      (AgreeAt.identifier _ s₁ s₁').bind fun name name' s₂ s₂' h => by
        rw [Ident.name_eq_of_bare h]
        exact hnext _ s₂ s₂'
  unfold extendedBy
  split
  · refine (callArguments_agreeAt hexpr s s').bind fun arguments arguments' s₁ s₁' h => ?_
    rw [bare_list fun _ => rfl, bare_list fun _ => rfl] at h
    rw [h]
    exact hnext _ s₁ s₁'
  · exact member _
  · exact member _
  · refine (AgreeAt.advance s s').bind fun _ _ s₁ s₁' _ => ?_
    refine (hexpr 0 s₁ s₁').bind fun index index' s₂ s₂' hindex => ?_
    obtain rfl : index = index' := hindex
    exact (AgreeAt.expect _ _ s₂ s₂').bind fun _ _ s₃ s₃' _ => hnext _ s₃ s₃'
  · cases jointOf? kind with
    | none => exact .pure rfl s s'
    | some joint =>
      refine .ite (fun _ _ => Iff.rfl) (fun _ => .pure rfl s s') fun _ => ?_
      exact (AgreeAt.advance s s').bind fun _ _ s₁ s₁' _ =>
        (joined_agreeAt hexpr joint lhs s₁ s₁').bind goesOn

theorem extended_agreeAt (hexpr : AgreeThroughout expr expr') (power fuel : Nat) :
    ∀ fuel' lhs (s s' : ReadState), AgreeAt none (extended expr power fuel lhs)
      (extended expr' power fuel' lhs) s s' := by
  induction fuel with
  | zero => intro _ _ s s'; exact .breakWith _ _ s s'
  | succ fuel ih =>
    intro fuel' lhs s s'
    apply AgreeAt.onFuel fuel'
    · rfl
    intro fuel'
    rw [extended_succ, extended_succ]
    refine .state (.seeing (extendedBy_agreeAt hexpr power (ih fuel') lhs s.current s s') ?_)
    intro halike hsees
    rw [halike.current_eq hsees]

end Parts

/-! ## Whole expressions -/

theorem expressionFrom_agreeThroughout (fuel : Nat) :
    ∀ fuel', AgreeThroughout (expressionFrom fuel) (expressionFrom fuel') := by
  induction fuel with
  | zero => intro _ _ s s'; exact .breakWith _ _ s s'
  | succ fuel ih =>
    intro fuel' power s s'
    apply AgreeAt.onFuel fuel'
    · rfl
    intro fuel'
    unfold expressionFrom
    refine (operand_agreeAt (ih fuel') s s').bind fun first first' s₁ s₁' h => .state ?_
    obtain rfl : first = first' := h
    exact extended_agreeAt (ih fuel') power _ _ first s₁ s₁'

theorem expression_agreeAt (s s' : ReadState) : AgreeAt none expression expression s s' :=
  .state (expressionFrom_agreeThroughout _ _ 0 s s')

end Grammar

end HeaderBridge
