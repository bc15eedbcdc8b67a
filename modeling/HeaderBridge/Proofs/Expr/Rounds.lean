/-
  The powers of operators and the rungs that they stand for. The loop behind an operand is cut
  into rounds: `round?` says what one round does, if there is one, so that both directions of the
  proof follow the loop by the same equation (`ends_extended`). What a rung derives is complete in
  front of some tokens if no operator of a greater power than its own comes next (`Follows`).
-/
import HeaderBridge.Proofs.Expr.Stratified

namespace HeaderBridge.Grammar

open Rule
open ReadState (kindOf)

/-! ## Powers of rungs -/

/-- The power on the left of the operators of a rung. -/
def Rung.left : Rung → Nat
  | .assignment => 2
  | .ternary => 4
  | .or => 5
  | .and => 7
  | .bitOr => 9
  | .bitXor => 11
  | .bitAnd => 13
  | .equality => 15
  | .relational => 17
  | .shift => 19
  | .additive => 21
  | .multiplicative => 23
  | .signed => 25
  | .suffixed => 26

/-- The power on the right of the operators of a rung. -/
def Rung.right : Rung → Nat
  | .assignment => 1
  | .ternary => 3
  | .signed => 25
  | .suffixed => 26
  | rung => rung.left + 1

theorem Rung.left_le_tighter (rung : Rung) : rung.left ≤ rung.tighter.left := by
  cases rung <;> decide

theorem Rung.right_le_tighter (rung : Rung) : rung.right ≤ rung.tighter.right := by
  cases rung <;> decide

theorem Rung.right_le (rung : Rung) : rung.right ≤ rung.left + 1 := by
  cases rung <;> decide

/-- An operator that groups to the right has an expression of a tighter rung on its left. -/
theorem Rung.tighter_le_of_right {rung other : Rung} (hr : rung = .assignment ∨ rung = .ternary)
    (h : rung.left < other.right) : rung.tighter.left ≤ other.left := by
  revert h
  rcases hr with rfl | rfl <;> cases other <;> decide

theorem Rung.ternary_le_of_right {other : Rung} (h : Rung.ternary.right ≤ other.left) :
    Rung.ternary.left ≤ other.left := by
  revert h
  cases other <;> decide

theorem Rung.left_injective {rung other : Rung} (h : rung.left = other.left) : rung = other := by
  cases rung <;> cases other <;> first | rfl | cases h

/-- No rung lies between two neighbours. -/
theorem Rung.tighter_left_le {rung other : Rung} (h : rung.left < other.left) :
    rung.tighter.left ≤ other.left ∧ rung.left < rung.tighter.left := by
  revert h
  cases rung <;> cases other <;> decide

/-- What a tighter rung derives, a looser one derives as well. -/
theorem Derives.loosen {rung other : Rung} {ts : List Token} {e : ObjcExpr}
    (h : Derives other ts e) (hle : rung.left ≤ other.left) : Derives rung ts e := by
  rcases Nat.eq_or_lt_of_le hle with heq | hlt
  · rw [Rung.left_injective heq]
    exact h
  · obtain ⟨htighter, _⟩ := Rung.tighter_left_le hlt
    exact .climb (h.loosen htighter)
termination_by other.left - rung.left

/-- Every expression of a rung is an expression. -/
theorem Derives.whole {rung : Rung} {ts : List Token} {e : ObjcExpr} (h : Derives rung ts e) :
    Derives .assignment ts e :=
  h.loosen (by cases rung <;> decide)

/-! ## Powers of operators -/

theorem Joint.left_le (joint : Joint) : joint.powers.1 ≤ unaryPower := by
  cases joint with
  | assign op => exact Nat.le_add_left 2 23
  | ternary => exact Nat.le_add_left 4 21
  | binary op => cases op <;> decide

theorem Joint.right_le (joint : Joint) : joint.powers.2 ≤ unaryPower := by
  cases joint with
  | assign op => exact Nat.le_add_left 1 24
  | ternary => exact Nat.le_add_left 3 22
  | binary op => cases op <;> decide

theorem jointOf_of_operators {rung : Rung} {kind : TokenKind} {op : ObjcBinary}
    (h : (kind, op) ∈ rung.operators) :
    jointOf? kind = some (.binary op) ∧ (Joint.binary op).powers = (rung.left, rung.right) := by
  have hall : ∀ p ∈ rung.operators, jointOf? p.1 = some (.binary p.2) ∧
      (Joint.binary p.2).powers = (rung.left, rung.right) := by
    cases rung <;> decide
  exact hall _ h

/-- The left and right powers on a rung with operators that group to the left. -/
theorem Rung.right_of_operators {rung : Rung} {kind : TokenKind} {op : ObjcBinary}
    (h : (kind, op) ∈ rung.operators) :
    rung.right = rung.left + 1 ∧ rung.right ≤ rung.tighter.left := by
  cases rung <;> first | exact ⟨rfl, by decide⟩ | cases h

theorem exists_rung_of_binary {kind : TokenKind} {op : ObjcBinary}
    (h : jointOf? kind = some (.binary op)) : ∃ rung : Rung, (kind, op) ∈ rung.operators := by
  unfold jointOf? at h
  split at h <;> cases h
  · exact ⟨.or, by decide⟩
  · exact ⟨.and, by decide⟩
  · exact ⟨.bitOr, by decide⟩
  · exact ⟨.bitXor, by decide⟩
  · exact ⟨.bitAnd, by decide⟩
  iterate 2 exact ⟨.equality, by decide⟩
  iterate 4 exact ⟨.relational, by decide⟩
  iterate 2 exact ⟨.shift, by decide⟩
  iterate 2 exact ⟨.additive, by decide⟩
  iterate 3 exact ⟨.multiplicative, by decide⟩

theorem jointOf_assign_iff {kind : TokenKind} {op : ObjcAssign} :
    jointOf? kind = some (.assign op) ↔ (kind, op) ∈ assignments := by
  constructor
  · intro h
    unfold jointOf? at h
    split at h <;> cases h <;> decide
  · intro h
    have hall : ∀ p ∈ assignments, jointOf? p.1 = some (.assign p.2) := by decide
    exact hall _ h

theorem jointOf_ternary_iff {kind : TokenKind} : jointOf? kind = some .ternary ↔
    kind = .question := by
  constructor
  · intro h
    unfold jointOf? at h
    split at h <;> cases h
    rfl
  · rintro rfl
    rfl

theorem unaryOf_iff {kind : TokenKind} {op : ObjcUnary} :
    unaryOf? kind = some op ↔ (kind, op) ∈ signs := by
  constructor
  · intro h
    unfold unaryOf? at h
    split at h <;> cases h <;> decide
  · intro h
    have hall : ∀ p ∈ signs, unaryOf? p.1 = some p.2 := by decide
    exact hall _ h

/-! ## Rounds of the loop -/

variable {expr : Nat → Rule ObjcExpr} {power fuel : Nat} {lhs : ObjcExpr} {s : ReadState}

/-- The tokens that go on behind any operand. -/
def isSuffix : TokenKind → Bool
  | .leftParen | .dot | .arrow | .leftBracket => true
  | _ => false

/-- What one round behind an operand does, if the loop goes on at a token. -/
def round? (expr : Nat → Rule ObjcExpr) (power : Nat) (lhs : ObjcExpr) (kind : TokenKind) :
    Option (Rule ObjcExpr) :=
  match kind with
  | .leftParen => some (ObjcExpr.call lhs <$> callArguments expr)
  | .dot | .arrow => some do
    let _ ← advance
    let name ← identifier .memberName
    return .member lhs name.name (kind == .arrow)
  | .leftBracket => some do
    let _ ← advance
    let index ← expr 0
    let _ ← expect .rightBracket .subscriptEnd
    return .subscript lhs index
  | _ =>
    match jointOf? kind with
    | none => none
    | some joint =>
      if joint.powers.1 < power then none
      else some do
        let _ ← advance
        joined expr joint lhs

theorem round_of_not_suffix {kind : TokenKind} (h : isSuffix kind = false) :
    round? expr power lhs kind = match jointOf? kind with
      | none => none
      | some joint =>
        if joint.powers.1 < power then none
        else some (advance >>= fun _ => joined expr joint lhs) := by
  cases kind <;> first | rfl | cases h

theorem isSuffix_of_ne {kind : TokenKind} (h₁ : kind ≠ .leftParen) (h₂ : kind ≠ .dot)
    (h₃ : kind ≠ .arrow) (h₄ : kind ≠ .leftBracket) : isSuffix kind = false := by
  unfold isSuffix
  split <;> first | rfl | contradiction

/-- Behind an operand the loop does a round and goes on, or it ends there. -/
theorem ends_extended {B : Prop} {Q : ObjcExpr → ReadState → Prop}
    {E : SyntaxError → ReadState → Prop} :
    Ends B (extended expr power (fuel + 1) lhs) s Q E ↔
      match round? expr power lhs s.current with
      | none => Q lhs s
      | some r =>
        Ends B r s (fun whole s' => Ends B (extended expr power fuel whole) s' Q E) E := by
  conv => lhs; unfold extended
  rw [ends_bind, ends_state]
  simp only []
  generalize s.current = kind
  split
  · simp only [round?, ends_bind, ends_map]
  · simp only [round?, ends_bind, ends_pure]
  · simp only [round?, ends_bind, ends_pure]
  · simp only [round?, ends_bind, ends_pure]
  · next h₁ h₂ h₃ h₄ =>
    rw [round_of_not_suffix (isSuffix_of_ne h₁ h₂ h₃ h₄)]
    cases jointOf? kind with
    | none => rfl
    | some joint =>
      simp only []
      split
      · rfl
      · simp only [ends_bind]

/-- No suffix and no operator of at least a certain power comes next. -/
structure Stops (power : Nat) (ts : List Token) : Prop where
  no_suffix : isSuffix (kindOf ts) = false
  weak : ∀ joint, jointOf? (kindOf ts) = some joint → joint.powers.1 < power

theorem Stops.mono {power power' : Nat} {ts : List Token} (h : Stops power ts)
    (hle : power ≤ power') : Stops power' ts :=
  ⟨h.no_suffix, fun joint hj => Nat.lt_of_lt_of_le (h.weak joint hj) hle⟩

/-- Tokens that start with no suffix and no operator stop every loop. -/
theorem Stops.of_none {power : Nat} {ts : List Token} (hs : isSuffix (kindOf ts) = false)
    (hj : jointOf? (kindOf ts) = none) : Stops power ts :=
  ⟨hs, fun joint h => by rw [hj] at h; cases h⟩

/-- The loop ends exactly in front of tokens that stop it. -/
theorem round_eq_none_iff : round? expr power lhs s.current = none ↔ Stops power s.rest := by
  unfold ReadState.current
  by_cases hs : isSuffix (kindOf s.rest) = false
  · rw [round_of_not_suffix hs]
    cases hj : jointOf? (kindOf s.rest) with
    | none => exact ⟨fun _ => .of_none hs hj, fun _ => rfl⟩
    | some joint =>
      simp only [ite_eq_left_iff, reduceCtorEq, imp_false, Decidable.not_not]
      refine ⟨fun h => ⟨hs, fun joint' hj' => ?_⟩, fun h => h.weak joint hj⟩
      cases hj.symm.trans hj'
      exact h
  · refine ⟨fun h => ?_, fun h => absurd h.no_suffix hs⟩
    unfold round? at h
    unfold isSuffix at hs
    split at h <;> simp_all

/-- What may come next behind an expression of a rung that is complete there. -/
def Follows (rung : Rung) (ts : List Token) : Prop := rung ≠ .suffixed → Stops rung.right ts

end HeaderBridge.Grammar
