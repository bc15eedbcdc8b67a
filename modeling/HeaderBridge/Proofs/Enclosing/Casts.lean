/-
  A type in parentheses in front of an operand. The token behind the parentheses decides whether they
  are a cast: if it can only start an operand they are, and if it is a sign, which may also stand
  between two operands, they are if the type is known to be one by its words. What stands in the
  parentheses is a type in both cases. So a cast to a scalar depends on how its operand starts where
  the name of the scalar is defined in a header, and does not where it is made of words of C.
-/
import HeaderBridge.Bridge.TypeMap
import HeaderBridge.Proofs.Enclosing.Groups

namespace HeaderBridge

open ReadState (kindOf)

namespace ObjcExpr

/-- Whether the expression is an operand, with no operator and no suffix behind it. -/
def isOperand : ObjcExpr → Bool
  | .binary _ _ _ | .assign _ _ _ | .ternary _ _ _ | .member _ _ _ | .call _ _
  | .subscript _ _ => false
  | _ => true

/-- Whether the expression starts with a sign that may also stand between two operands. -/
def isSigned : ObjcExpr → Bool
  | .unary .neg _ | .unary .plus _ => true
  | _ => false

end ObjcExpr

namespace Grammar

open Rule

variable {expr : Nat → Rule ObjcExpr} {power : Nat} {s : ReadState} {source : String}
  {e : ObjcExpr}

/-! ## Operands -/

/-- A round of the loop makes something of the operand that is none itself. -/
theorem round_isOperand {lhs : ObjcExpr} {kind : TokenKind} {r : Rule ObjcExpr}
    (h : round? expr power lhs kind = some r) :
    Ends True r s (fun e _ => e.isOperand = false) fun _ _ => True := by
  have member : ∀ arrow : Bool, Ends True (do
      let _ ← Rule.advance
      let name ← Rule.identifier .memberName
      return ObjcExpr.member lhs name.name arrow) s (fun e _ => e.isOperand = false)
      fun _ _ => True := fun arrow =>
    ends_bind.mpr (ends_advance.mpr (ends_bind.mpr
      (ends_identifier.mpr ⟨fun _ => rfl, fun _ => trivial⟩)))
  unfold round? at h
  split at h
  · cases h
    exact ends_map.mpr (ends_trivial.mono (fun _ _ _ => rfl) fun _ _ _ => trivial)
  · cases h
    exact member _
  · cases h
    exact member _
  · cases h
    refine ends_bind.mpr (ends_advance.mpr (ends_bind.mpr (ends_trivial.mono ?_ fun _ _ h => h)))
    exact fun _ _ _ => ends_bind.mpr (ends_expect.mpr ⟨fun _ => rfl, fun _ => trivial⟩)
  · split at h
    · cases h
    · next joint _ =>
      split at h
      · cases h
      · cases h
        refine ends_bind.mpr (ends_advance.mpr ?_)
        unfold joined
        cases joint with
        | assign op => exact ends_bind.mpr (ends_trivial.mono (fun _ _ _ => rfl) fun _ _ h => h)
        | binary op => exact ends_bind.mpr (ends_trivial.mono (fun _ _ _ => rfl) fun _ _ h => h)
        | ternary =>
          refine ends_bind.mpr (ends_trivial.mono (fun _ _ _ => ?_) fun _ _ h => h)
          refine ends_bind.mpr (ends_expect.mpr ⟨fun _ => ?_, fun _ => trivial⟩)
          exact ends_bind.mpr (ends_trivial.mono (fun _ _ _ => rfl) fun _ _ h => h)

/-- If the loop comes to an operand, it has not gone on. -/
theorem extended_isOperand (fuel : Nat) : ∀ (lhs : ObjcExpr) (s : ReadState),
    Ends True (extended expr power fuel lhs) s
      (fun e t => e.isOperand = true → e = lhs ∧ t = s) fun _ _ => True := by
  induction fuel with
  | zero => exact fun _ _ => trivial
  | succ fuel ih =>
    intro lhs s
    refine ends_extended.mpr ?_
    cases hround : round? expr power lhs s.current with
    | none => exact fun _ => ⟨rfl, rfl⟩
    | some r =>
      refine (round_isOperand hround).mono (fun whole t hwhole => ?_) fun _ _ h => h
      refine (ih whole t).mono (fun e u he hoperand => ?_) fun _ _ h => h
      rw [(he hoperand).1, hwhole] at hoperand
      cases hoperand

/-- A word is no operator in front of an operand. -/
theorem word_isSigned (expr : Nat → Rule ObjcExpr) (s : ReadState) :
    Ends True (word expr) s (fun e _ => e.isSigned = false) fun _ _ => True := by
  rw [word_eq]
  refine ends_bind.mpr (ends_state.mpr ?_)
  unfold wordOf
  split
  · exact ends_bind.mpr (ends_advance.mpr rfl)
  · refine ends_ite.mpr ⟨fun _ => ?_, fun _ => ends_bind.mpr (ends_advance.mpr rfl)⟩
    have last : ∀ (type : Option ObjcType) (t : ReadState), Ends True (sizeOfOperand expr type) t
        (fun e _ => e.isSigned = false) fun _ _ => True := fun type t => by
      cases type with
      | some type => rfl
      | none => exact ends_bind.mpr (ends_trivial.mono (fun _ _ _ => rfl) fun _ _ h => h)
    unfold sizeOf
    refine ends_bind.mpr (ends_advance.mpr (ends_bind.mpr (ends_state.mpr ?_)))
    exact ends_ite.mpr
      ⟨fun _ => ends_bind.mpr (ends_trivial.mono (fun _ _ _ => last _ _) fun _ _ h => h),
        fun _ => last _ _⟩

/-- The rule for casts and groups reads no signed operand. -/
theorem castOrGroup_isSigned (expr : Nat → Rule ObjcExpr) (s : ReadState) :
    Ends True (castOrGroup expr) s (fun e _ => e.isSigned = false) fun _ _ => True := by
  unfold castOrGroup
  refine ends_bind.mpr (ends_trivial.mono (fun type _ _ => ?_) fun _ _ h => h)
  cases type with
  | some type => exact ends_bind.mpr (ends_trivial.mono (fun _ _ _ => rfl) fun _ _ h => h)
  | none =>
    refine ends_bind.mpr (ends_advance.mpr (ends_bind.mpr ?_))
    refine ends_trivial.mono (fun _ _ _ => ?_) fun _ _ h => h
    exact ends_bind.mpr (ends_expect.mpr ⟨fun _ => rfl, fun _ => trivial⟩)

/-- The rule for messages reads no signed operand. -/
theorem message_isSigned (expr : Nat → Rule ObjcExpr) (s : ReadState) :
    Ends True (message expr) s (fun e _ => e.isSigned = false) fun _ _ => True := by
  have last : ∀ (receiver : ObjcExpr) (found : String × Array (Labelled ObjcExpr)) (t : ReadState),
      Ends True (do
        let _ ← Rule.expect .rightBracket .messageEnd
        return ObjcExpr.message receiver found.1 found.2.toList) t (fun e _ => e.isSigned = false)
        fun _ _ => True := fun receiver found t =>
    ends_bind.mpr (ends_expect.mpr ⟨fun _ => rfl, fun _ => trivial⟩)
  unfold message
  refine ends_bind.mpr (ends_advance.mpr (ends_bind.mpr ?_))
  refine ends_trivial.mono (fun receiver _ _ => ends_bind.mpr ?_) fun _ _ h => h
  refine ends_identifier.mpr ⟨fun _ => ends_bind.mpr ?_, fun _ => trivial⟩
  refine ends_trivial.mono (fun colon _ _ => ends_ite.mpr ⟨fun _ => ?_, fun _ => ?_⟩)
    fun _ _ h => h
  · refine ends_bind.mpr (ends_trivial.mono (fun value _ _ => ?_) fun _ _ h => h)
    refine ends_bind.mpr (ends_state.mpr (ends_bind.mpr ?_))
    exact ends_trivial.mono (fun found _ _ => last _ found _) fun _ _ h => h
  · exact ends_bind.mpr (ends_pure.mpr (last receiver (_, #[]) _))

/-- An operand starts with a sign exactly if its first token is one; else this token can only start
    an operand. -/
theorem operand_starts (expr : Nat → Rule ObjcExpr) (s : ReadState) :
    Ends True (operand expr) s (fun e _ => startsOperand s.current = true ∧ e.isSigned = false ∨
      (s.current = .plus ∨ s.current = .minus) ∧ e.isSigned = true) fun _ _ => True := by
  have unsigned : ∀ {r : Rule ObjcExpr} {kind : TokenKind}, startsOperand kind = true →
      Ends True r s (fun e _ => e.isSigned = false) (fun _ _ => True) →
      Ends True r s (fun e _ => startsOperand kind = true ∧ e.isSigned = false ∨
        (kind = .plus ∨ kind = .minus) ∧ e.isSigned = true) fun _ _ => True := fun hkind h =>
    h.mono (fun _ _ he => .inl ⟨hkind, he⟩) fun _ _ h => h
  have literal : ∀ value : ObjcLiteral, Ends True (do
      let _ ← Rule.advance
      return ObjcExpr.literal value) s (fun e _ => e.isSigned = false) fun _ _ => True :=
    fun _ => ends_bind.mpr (ends_advance.mpr rfl)
  refine ends_operand rfl ?_
  generalize s.current = kind
  unfold operandOf
  split
  · next op hop =>
    refine ends_bind.mpr (ends_advance.mpr (ends_bind.mpr ?_))
    refine ends_trivial.mono (fun e _ _ => ?_) fun _ _ h => h
    have hmem := unaryOf_iff.mp hop
    simp only [signs, List.mem_cons, Prod.mk.injEq, List.not_mem_nil, or_false] at hmem
    rcases hmem with ⟨rfl, rfl⟩ | ⟨rfl, rfl⟩ | ⟨rfl, rfl⟩ | ⟨rfl, rfl⟩ <;>
      simp [startsOperand, ObjcExpr.isSigned]
  · split
    · exact unsigned rfl (literal _)
    · exact unsigned rfl (literal _)
    · exact unsigned rfl (ends_bind.mpr (ends_trivial.mono (fun _ _ _ => rfl) fun _ _ h => h))
    · exact unsigned rfl (literal _)
    · exact unsigned rfl (word_isSigned expr s)
    · exact unsigned rfl (castOrGroup_isSigned expr s)
    · exact unsigned rfl (message_isSigned expr s)
    · trivial

/-! ## Operands of sources -/

/-- A source that is an operand was read by the rule for operands alone. -/
theorem exists_operand_of_read (hread : ObjcExpr.read source = .ok (.ok e))
    (he : e.isOperand = true) :
    ∃ fuel t, operand (expressionFrom fuel) (.start source (tokenize source) .empty none) =
      .done e t ∧ t.rest = [] := by
  obtain ⟨t, ht, hnil⟩ := exists_expression_of_read hread
  have hends : Ends True expression (.start source (tokenize source) .empty none)
      (fun e t => e.isOperand = true → ∃ fuel, operand (expressionFrom fuel)
        (.start source (tokenize source) .empty none) = .done e t) fun _ _ => True := by
    unfold expression
    refine ends_bind.mpr (ends_state.mpr ?_)
    unfold expressionFrom
    generalize (ReadState.start source (tokenize source) .empty none).weight = fuel
    have hself : Ends True (operand (expressionFrom fuel))
        (.start source (tokenize source) .empty none) (fun e t => operand (expressionFrom fuel)
          (.start source (tokenize source) .empty none) = .done e t) fun _ _ => True := by
      unfold Ends
      cases hrun : operand (expressionFrom fuel) (.start source (tokenize source) .empty none) <;>
        trivial
    refine ends_bind.mpr (hself.mono (fun first u hrun => ?_) fun _ _ h => h)
    refine ends_bind.mpr (ends_state.mpr ((extended_isOperand _ first u).mono ?_ fun _ _ h => h))
    intro e t hlast hoperand
    obtain ⟨rfl, rfl⟩ := hlast hoperand
    exact ⟨fuel, hrun⟩
  obtain ⟨fuel, hrun⟩ := hends.of_done ht he
  exact ⟨fuel, t, hrun, hnil⟩

/-- What decides about a cast in front of an operand is whether it starts with a sign. -/
theorem takesCast_iff_of_read {type : ObjcType} {more : List Token}
    (hread : ObjcExpr.read source = .ok (.ok e)) (he : e.isOperand = true)
    (hrow : IsRowOf source more) :
    TakesCast type (kindOf more) ↔ (e.isSigned = true → castsSigned type = true) := by
  obtain ⟨fuel, t, hrun, _⟩ := exists_operand_of_read hread he
  have hkind : kindOf more = ReadState.current (.start source (tokenize source) .empty none) := by
    have hfacing : Facing none more (significant (tokenize source)) := hrow
    exact hfacing.kindOf_eq (not_ranOut_none _)
  have hstarts := (operand_starts _ _).of_done hrun
  rw [← hkind] at hstarts
  unfold TakesCast
  rcases hstarts with ⟨hstart, hsigned⟩ | ⟨hsign, hsigned⟩
  · simp [hstart, hsigned]
  · have hstart : startsOperand (kindOf more) = false := by
      rcases hsign with h | h <;> rw [h] <;> rfl
    simp [hstart, hsign, hsigned]

/-- At the end of a row a source that is an operand is the same operand, however strong the operators
    are that wait for it. -/
theorem ends_expressionFrom_of_read {more : List Token}
    (hread : ObjcExpr.read source = .ok (.ok e)) (he : e.isOperand = true)
    (hrow : IsRowOf source more) (hs : s.Ready) (hr : s.rest = more) (fuel : Nat) :
    Ends True (expressionFrom fuel power) s (fun b t => b = e ∧ t.rest = []) fun _ _ => False := by
  obtain ⟨fuel', t, hrun, hnil⟩ := exists_operand_of_read hread he
  cases fuel with
  | zero => trivial
  | succ fuel =>
    have halike : Alike none (.start source (tokenize source) .empty none) s := by
      refine ⟨?_, hs.speculating.symm, hs.inOptional.symm⟩
      rw [hr]
      exact hrow.symm
    have hagreed := (operand_agreeAt (expressionFrom_agreeThroughout fuel' fuel) _ s).agreed halike
      (not_ranOut_none _)
    have hoperand : Ends True (operand (expressionFrom fuel)) s
        (fun b t => b = e ∧ t.rest = []) fun _ _ => False := by
      unfold Ends
      rw [hrun] at hagreed
      generalize operand (expressionFrom fuel) s = o at hagreed
      cases hagreed with
      | brokenToo => trivial
      | doneOut _ _ out => exact absurd out (not_ranOut_none _)
      | @done _ e' _ t' values alike _ =>
        obtain rfl : e = e' := values
        have hfaces : t.rest.map Token.face = t'.rest.map Token.face := alike.facing
        rw [hnil] at hfaces
        exact ⟨rfl, List.map_eq_nil_iff.mp hfaces.symm⟩
    unfold expressionFrom
    refine ends_bind.mpr (hoperand.mono (fun b t ht => ?_) fun _ _ h => h)
    obtain ⟨rfl, hnil'⟩ := ht
    have hstops : Stops power t.rest := by
      rw [hnil']
      exact .of_none rfl rfl
    exact ends_bind.mpr (ends_state.mpr ((extended_leadsTo _ hstops).ends ⟨rfl, hnil'⟩))

/-! ## Casts -/

section Casts

variable {type : ObjcType} {row more : List Token} {opening closing : Token} {operandText : String}

/-- A type in parentheses and an operand are a cast, if the parentheses are taken for one. -/
theorem ends_expressionFrom_castOf (htype : ReadsAs source type)
    (hread : ObjcExpr.read operandText = .ok (.ok e)) (he : e.isOperand = true)
    (hgroup : Delimited .leftParen .rightParen source opening row closing)
    (hrow : IsRowOf operandText more) (hs : s.Ready)
    (hr : s.rest = opening :: (row ++ closing :: more)) (htakes : TakesCast type (kindOf more))
    (fuel : Nat) :
    Ends True (expressionFrom fuel 0) s (fun b t => b = .cast type e ∧ t.rest = [])
      fun _ _ => False := by
  cases fuel with
  | zero => trivial
  | succ fuel =>
    obtain ⟨front, hhalved, hcast⟩ := attempt_castType_yields htype hgroup hs htakes hr
    have hs₁ : (s.past (opening :: (front ++ [closing])) more).Ready := by
      refine hs.past ?_
      rw [hr, List.cons_append, List.append_assoc]
      exact .keep opening (hhalved.append (.refl _))
    unfold expressionFrom
    refine ends_bind.mpr (ends_operand ((ReadState.current_of_cons hr).trans hgroup.opening_kind) ?_)
    refine ends_bind.mpr (hcast.ends (ends_bind.mpr ?_))
    refine (ends_expressionFrom_of_read hread he hrow hs₁ rfl fuel).mono (fun b t ht => ?_)
      fun _ _ h => h
    obtain ⟨rfl, hnil⟩ := ht
    have hstops : Stops 0 t.rest := by
      rw [hnil]
      exact .of_none rfl rfl
    exact ends_pure.mpr (ends_bind.mpr
      (ends_state.mpr ((extended_leadsTo _ hstops).ends ⟨rfl, hnil⟩)))

/-- If the parentheses are not taken for a cast, the operand that they start is none. -/
theorem operand_ne_cast {type' : ObjcType} (htype : ReadsAs source type)
    (hgroup : Delimited .leftParen .rightParen source opening row closing) (hs : s.Ready)
    (hr : s.rest = opening :: (row ++ closing :: more)) (hno : ¬ TakesCast type (kindOf more))
    (fuel : Nat) :
    Ends True (operand (expressionFrom fuel)) s (fun b _ => b ≠ .cast type' e) fun _ _ => True := by
  obtain ⟨_, _, -, hfails⟩ := exists_castType htype hgroup hs hr
  have hnone : Ends True (attempt castType) s (fun found _ => found = none) fun _ _ => True := by
    have hcast := hfails hno
    unfold Fails Ends at hcast
    unfold Ends attempt
    cases hrun : castType { s with speculating := true } with
    | done a t =>
      rw [hrun] at hcast
      exact hcast.elim
    | failed error t =>
      simp only []
      cases t.nodes.restore s.nodes.checkpoint with
      | ok nodes => rfl
      | error fault => trivial
    | broken fault => trivial
  refine ends_operand ((ReadState.current_of_cons hr).trans hgroup.opening_kind) ?_
  refine ends_bind.mpr (hnone.mono (fun found t hfound => ?_) fun _ _ h => h)
  subst hfound
  refine ends_bind.mpr (ends_advance.mpr (ends_bind.mpr ?_))
  refine ends_trivial.mono (fun inner _ _ => ends_bind.mpr ?_) fun _ _ h => h
  refine ends_expect.mpr ⟨fun _ => ?_, fun _ => trivial⟩
  exact ends_pure.mpr (by simp)

end Casts

end Grammar

/-! ## Texts -/

section Texts

variable {typeText operandText : String} {type : ObjcType} {e : ObjcExpr}

/-- The row of a type in parentheses in front of an operand. -/
theorem exists_row_cast (htype : ReadsAs typeText type) (hline : ¬ EndsInLine typeText) :
    ∃ opening closing row more,
      significant (tokenize ("(" ++ typeText ++ ")" ++ operandText)) =
        opening :: (row ++ closing :: more) ∧
      Delimited .leftParen .rightParen typeText opening row closing ∧ IsRowOf operandText more := by
  have htext : ("(" ++ typeText ++ ")" ++ operandText).toList =
      '(' :: (typeText.toList ++ ')' :: operandText.toList) := by
    simp [String.toList_append]
  have hvalid : ∀ t ∈ significant (tokenize typeText), t.kind ≠ .invalid := by
    intro t ht hk
    have hmem := (readsAsType_iff.mpr ⟨type, htype⟩).kind_of_mem t ht
    rw [hk] at hmem
    revert hmem
    decide
  have hfaces : (significant (tokenize ("(" ++ typeText ++ ")" ++ operandText))).map Token.face =
      (.leftParen, String.ofList ['(']) :: ((significant (tokenize typeText)).map Token.face ++
        (.rightParen, String.ofList [')']) ::
          (significant (tokenize operandText)).map Token.face) := by
    show seenFaces _ = _
    rw [htext, Lexer.seenFaces_delimiter '(' .leftParen (by decide),
      seenFaces_append (ends_of_mem (by decide) _) hvalid hline,
      Lexer.seenFaces_delimiter ')' .rightParen (by decide)]
    rfl
  obtain ⟨opening, ts, hrow, hopening, hts⟩ := List.map_eq_cons_iff.mp hfaces
  obtain ⟨row, us, rfl, htypeRow, hus⟩ := List.map_eq_append_iff.mp hts
  obtain ⟨closing, more, rfl, hclosing, hmore⟩ := List.map_eq_cons_iff.mp hus
  exact ⟨opening, closing, row, more, hrow,
    ⟨congrArg Prod.fst hopening, htypeRow, congrArg Prod.fst hclosing⟩, hmore⟩

/-- A type in parentheses and an operand are read as a cast exactly if the operand starts with no sign
    or the type is known to be one. -/
theorem read_eq_cast_iff (htype : ReadsAs typeText type) (hline : ¬ EndsInLine typeText)
    (hread : ObjcExpr.read operandText = .ok (.ok e)) (he : e.isOperand = true) :
    ObjcExpr.read ("(" ++ typeText ++ ")" ++ operandText) = .ok (.ok (.cast type e)) ↔
      (e.isSigned = true → Grammar.castsSigned type = true) := by
  obtain ⟨_, _, _, _, hr, hgroup, hrow⟩ :=
    @exists_row_cast typeText operandText type htype hline
  have hs := ReadState.ready_start ("(" ++ typeText ++ ")" ++ operandText)
  rw [← Grammar.takesCast_iff_of_read hread he hrow]
  constructor
  · intro hcast
    by_contra hno
    obtain ⟨fuel, _, hrun, _⟩ := Grammar.exists_operand_of_read hcast rfl
    exact (Grammar.operand_ne_cast htype hgroup hs hr hno fuel).of_done hrun rfl
  · intro htakes
    refine read_eq_of_ends ?_
      (Grammar.ends_expressionFrom_castOf htype hread he hgroup hrow hs hr htakes)
    rw [ReadState.current_of_cons hr, hgroup.opening_kind]
    decide

end Texts

/-! ## Casts to scalars -/

/-- The scalars that a header defines, whose names are no words of C. -/
def definedScalars : List String := [
  "NSInteger", "NSUInteger", "CGFloat", "int8_t", "int16_t", "int32_t", "int64_t", "uint8_t",
  "uint16_t", "uint32_t", "uint64_t"]

/-- A scalar is known to be a type by its words exactly if no header defines it. -/
theorem castsSigned_scalar {type : ObjcType} (h : type.isScalar = true) :
    Grammar.castsSigned type = true ↔ type.baseName ∉ definedScalars := by
  have hall : (scalarTable.all fun row => row.1.all fun name =>
      Grammar.castsSigned (.named name) == !definedScalars.contains name) = true := by
    cbv
  cases type with
  | named name =>
    have hsome : (scalarName? name).isSome = true := h
    unfold scalarName? at hsome
    rw [Option.isSome_map, List.find?_isSome] at hsome
    obtain ⟨row, hrow, hname⟩ := hsome
    have hrows := List.all_eq_true.mp (List.all_eq_true.mp hall row hrow) name
      (List.contains_iff_mem.mp hname)
    rw [eq_of_beq hrows, Bool.not_eq_true', ← Bool.not_eq_true, List.contains_iff_mem]
    rfl
  | id protocols => cases h
  | generic name arguments => cases h
  | pointer target => cases h

/-- A cast to a scalar is read as one in front of every operand that starts with no sign, and in front
    of one that does exactly if no header defines the scalar. -/
theorem read_scalarCast_iff {typeText operandText : String} {type : ObjcType} {e : ObjcExpr}
    (htype : ReadsAs typeText type) (hscalar : type.isScalar = true)
    (hline : ¬ EndsInLine typeText) (hread : ObjcExpr.read operandText = .ok (.ok e))
    (he : e.isOperand = true) :
    ObjcExpr.read ("(" ++ typeText ++ ")" ++ operandText) = .ok (.ok (.cast type e)) ↔
      (e.isSigned = true → type.baseName ∉ definedScalars) := by
  rw [read_eq_cast_iff htype hline hread he, castsSigned_scalar hscalar]

theorem tokenize_int : tokenize "int" = [⟨.identifier, "int", ⟨0, 3, by decide⟩⟩,
    ⟨.endOfFile, "", Span.point 3⟩] := by
  cbv

theorem tokenize_defined : tokenize "NSInteger" = [⟨.identifier, "NSInteger", ⟨0, 9, by decide⟩⟩,
    ⟨.endOfFile, "", Span.point 9⟩] := by
  cbv

theorem read_negative : ObjcExpr.read "-1" = .ok (.ok (.unary .neg (.literal (.int "1")))) := by
  have htokens : tokenize "-1" = [⟨.minus, "-", ⟨0, 1, by decide⟩⟩,
      ⟨.intLiteral, "1", ⟨1, 2, by decide⟩⟩, ⟨.endOfFile, "", Span.point 2⟩] := by
    cbv
  unfold ObjcExpr.read
  rw [htokens]
  rfl

theorem readsAs_int : ReadsAs "int" (.named "int") := by
  refine ⟨⟨.named "int", none, ⟨0, 3, by decide⟩⟩, { ReadState.start "int" [] .empty none with
    speculating := true, passed := [⟨.identifier, "int", ⟨0, 3, by decide⟩⟩] }, ?_, rfl, rfl⟩
  rw [tokenize_int]
  rfl

theorem readsAs_defined : ReadsAs "NSInteger" (.named "NSInteger") := by
  refine ⟨⟨.named "NSInteger", none, ⟨0, 9, by decide⟩⟩,
    { ReadState.start "NSInteger" [] .empty none with
      speculating := true, passed := [⟨.identifier, "NSInteger", ⟨0, 9, by decide⟩⟩] }, ?_, rfl, rfl⟩
  rw [tokenize_defined]
  rfl

theorem isScalar_int : (ObjcType.named "int").isScalar = true := by cbv

theorem isScalar_defined : (ObjcType.named "NSInteger").isScalar = true := by cbv

/-- In front of a sign `int` is a type. -/
theorem read_scalarCast_int : ReadsAs "int" (.named "int") ∧
    (ObjcType.named "int").isScalar = true ∧ ¬ EndsInLine "int" ∧
    ObjcExpr.read "-1" = .ok (.ok (.unary .neg (.literal (.int "1")))) ∧
    ObjcExpr.read "(int)-1" =
      .ok (.ok (.cast (.named "int") (.unary .neg (.literal (.int "1"))))) := by
  have hline : ¬ EndsInLine "int" := not_endsInLine_of_tokenize tokenize_int (by decide)
  have hread := read_scalarCast_iff readsAs_int isScalar_int hline read_negative rfl
  exact ⟨readsAs_int, isScalar_int, hline, read_negative, hread.mpr fun _ => by decide⟩

/-- The name of a defined scalar is a type as well, but the sign behind it is an operator. -/
theorem exists_scalar_not_cast : ReadsAs "NSInteger" (.named "NSInteger") ∧
    (ObjcType.named "NSInteger").isScalar = true ∧ ¬ EndsInLine "NSInteger" ∧
    ObjcExpr.read "-1" = .ok (.ok (.unary .neg (.literal (.int "1")))) ∧
    ObjcExpr.read "(NSInteger)-1" ≠
      .ok (.ok (.cast (.named "NSInteger") (.unary .neg (.literal (.int "1"))))) := by
  have hline : ¬ EndsInLine "NSInteger" :=
    not_endsInLine_of_tokenize tokenize_defined (by decide)
  have hsigned : Grammar.castsSigned (.named "NSInteger") = false := by cbv
  refine ⟨readsAs_defined, isScalar_defined, hline, read_negative, fun hread => ?_⟩
  have htrue := (read_eq_cast_iff readsAs_defined hline read_negative rfl).mp hread rfl
  rw [hsigned] at htrue
  cases htrue

end HeaderBridge
