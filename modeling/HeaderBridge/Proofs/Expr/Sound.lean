/-
  What the rules for expressions come to is spelt by the tokens that they have read. A type that is
  tried in front of a cast may take double brackets apart, also where it fails, so the tokens are
  those of the row as it is then (`HasTaken`). Nothing is said of a rule that fails, so the
  statements go through a rule from its front to its end. The invariant of the loop (`Found`) is
  that the operand on the left is spelt on some rung, that the operators of this rung are strong
  enough for the loop, and that what comes next may follow there.
-/
import HeaderBridge.Proofs.Expr.Spelled
import HeaderBridge.Proofs.Types.Speculation

namespace HeaderBridge.Grammar

open Rule
open ReadState (kindOf HasRead HasTaken)

/-! ## Types in parentheses -/

/-- A type in parentheses was read. -/
def TookType (s : ReadState) (type : ObjcType) (s' : ReadState) : Prop :=
  ∃ opening front closing, opening.kind = .leftParen ∧ closing.kind = .rightParen ∧
    HasTaken s (opening :: (front ++ [closing])) s' ∧ ArgumentSpelling front type

/-- What a rule for a type in parentheses reads if it succeeds. -/
theorem IsTried.writes {r : Rule ObjcType} {s : ReadState} (hr : IsTried r)
    (hs : s.speculating = true) (hc : s.current = .leftParen) :
    Ends True r s (fun type s' => TookType s type s') fun _ _ => True := by
  obtain ⟨opening, hopening, hadv⟩ := HasTaken.exists_advance hc (by decide)
  -- The parenthesis, a type name, and its end.
  have hlast : ∀ {last : TypeName → Rule ObjcType}, (∀ (name : TypeName) (front : List Token)
      (s₁ : ReadState), HasTaken s.advance front s₁ → ArgumentSpelling front name.type →
        Ends True (last name) s₁ (fun type s' => TookType s type s') fun _ _ => True) →
      Ends True (advance >>= fun _ => typeName >>= last) s (fun type s' => TookType s type s')
        fun _ _ => True := by
    intro last hlast
    refine ends_bind.mpr (ends_advance.mpr (ends_bind.mpr ?_))
    refine (typeName_writesAt (hadv.speculating.trans hs)).mono (fun name s₁ h₁ => ?_)
      fun _ _ _ => trivial
    obtain ⟨front, hfront, hspelt⟩ := h₁
    exact hlast name front s₁ hfront hspelt
  have hclosed : ∀ {type : ObjcType} {front : List Token} {s₁ : ReadState},
      HasTaken s.advance front s₁ → ArgumentSpelling front type →
      s₁.current = .rightParen → TookType s type s₁.advance := by
    intro type front s₁ hfront hspelt hc₁
    obtain ⟨closing, hclosing, hadv₁⟩ := HasTaken.exists_advance hc₁ (by decide)
    exact ⟨opening, front, closing, hopening, hclosing, hadv.trans (hfront.trans hadv₁), hspelt⟩
  rcases hr with rfl | rfl
  · refine hlast fun name front s₁ hfront hspelt => ?_
    simp only [ends_bind, ends_expect, ends_state, ends_ite, ends_pure, ends_failHere]
    exact ⟨fun hc₁ => ⟨fun _ => hclosed hfront hspelt hc₁, fun _ => trivial⟩, fun _ => trivial⟩
  · refine hlast fun name front s₁ hfront hspelt => ?_
    simp only [ends_bind, ends_expect, ends_pure]
    exact ⟨fun hc₁ => hclosed hfront hspelt hc₁, fun _ => trivial⟩

/-- Trying a type in parentheses reads one, or nothing. -/
theorem IsTried.attempt_takes {r : Rule ObjcType} {s : ReadState} (hr : IsTried r)
    (hc : s.current = .leftParen) :
    Ends True (attempt r) s (fun found s' => match found with
      | some type => TookType s type s'
      | none => HasTaken s [] s') fun _ _ => True := by
  have hwrites := hr.writes (s := { s with speculating := true }) rfl hc
  obtain ⟨hshifts, -, -⟩ := hr.ends (s := { s with speculating := true }) rfl
  unfold Ends
  cases hrun : r { s with speculating := true } with
  | done type t =>
    obtain ⟨opening, front, closing, ho, hcl, htaken, hspelt⟩ := hwrites.of_done hrun
    rw [attempt_of_done hrun]
    exact ⟨opening, front, closing, ho, hcl, htaken.speculate s.speculating, hspelt⟩
  | failed e t =>
    obtain ⟨front, rest, hrow, rfl⟩ := hshifts.of_failed hrun
    rw [attempt_of_failed hrun]
    exact ⟨front ++ rest, hrow, rfl⟩
  | broken f =>
    rw [attempt_of_broken hrun]
    trivial

/-! ## Whole expressions inside others -/

/-- Unless it breaks or fails, the rule for whole expressions reads what spells its value. -/
def Faithful (expr : Nat → Rule ObjcExpr) : Prop :=
  ∀ power ≤ unaryPower, ∀ s, Ends True (expr power) s
    (fun e s' => ∃ rung front, HasTaken s front s' ∧ Spells rung front e ∧ power ≤ rung.left ∧
      Stops power s'.rest)
    fun _ _ => True

/-- Since the state `s₀` tokens were read that spell `e`, and it is complete there. -/
def Found (s₀ : ReadState) (power : Nat) (e : ObjcExpr) (s : ReadState) : Prop :=
  ∃ rung front, HasTaken s₀ front s ∧ Spells rung front e ∧ power ≤ rung.left ∧
    Follows rung s.rest

variable {expr : Nat → Rule ObjcExpr} {s s₀ : ReadState}

/-- A whole expression inside another one is spelt on the loosest rung. -/
theorem Faithful.inner (hx : Faithful expr) (s : ReadState) :
    Ends True (expr 0) s (fun e s' => ∃ front, HasTaken s front s' ∧
      Spells .assignment front e) fun _ _ => True := by
  refine (hx 0 (Nat.zero_le _) s).mono (fun e s' h => ?_) fun _ _ h => h
  obtain ⟨rung, front, hread, hd, _, _⟩ := h
  exact ⟨front, hread, hd.whole⟩

/-- The operand of a sign, a cast or a `sizeof` is spelt with signs. -/
theorem Faithful.signed (hx : Faithful expr) (s : ReadState) :
    Ends True (expr unaryPower) s (fun e s' => ∃ front, HasTaken s front s' ∧
      Spells .signed front e ∧ Stops unaryPower s'.rest) fun _ _ => True := by
  refine (hx unaryPower (Nat.le_refl _) s).mono (fun e s' h => ?_) fun _ _ h => h
  obtain ⟨rung, front, hread, hd, hle, hstops⟩ := h
  exact ⟨front, hread, hd.loosen hle, hstops⟩

/-- What is spelt as an operand with suffixes may have any tokens behind it. -/
theorem Found.suffixed {front : List Token} {e : ObjcExpr} {power : Nat}
    (hp : power ≤ unaryPower) (hread : HasTaken s₀ front s) (h : Spells .suffixed front e) :
    Found s₀ power e s :=
  ⟨.suffixed, front, hread, h, Nat.le_trans hp (by decide), fun h => absurd rfl h⟩

/-- What is spelt with a sign in front is complete where nothing goes on. -/
theorem Found.signed {front : List Token} {e : ObjcExpr} {power : Nat} (hp : power ≤ unaryPower)
    (hread : HasTaken s₀ front s) (h : Spells .signed front e) (hs : Stops unaryPower s.rest) :
    Found s₀ power e s :=
  ⟨.signed, front, hread, h, hp, fun _ => hs⟩

/-! ## Arguments of calls -/

/-- The tokens spell the values, with commas between them. -/
def SpellsList (ts : List Token) (es : List ObjcExpr) : Prop :=
  ∃ arguments : List (List Token × ObjcExpr), es = arguments.map Prod.snd ∧
    (∀ a ∈ arguments, Spells .assignment a.1 a.2) ∧ Commas (arguments.map Prod.fst) ts

namespace SpellsList

variable {front ts : List Token} {e : ObjcExpr} {es : List ObjcExpr}

theorem none : SpellsList [] [] := ⟨[], rfl, (fun _ h => by cases h), .none⟩

theorem one (h : Spells .assignment front e) : SpellsList front [e] :=
  ⟨[(front, e)], rfl, List.forall_mem_singleton.mpr h, .one front⟩

theorem more {comma : Token} (h : Spells .assignment front e) (hk : comma.kind = .comma)
    (hne : es ≠ []) (hes : SpellsList ts es) :
    SpellsList (front ++ comma :: ts) (e :: es) := by
  obtain ⟨arguments, rfl, heach, hcommas⟩ := hes
  refine ⟨(front, e) :: arguments, rfl, List.forall_mem_cons.mpr ⟨h, heach⟩, ?_⟩
  cases arguments with
  | nil => exact absurd rfl hne
  | cons next arguments => exact .more front next.1 hk hcommas

end SpellsList

theorem moreArguments_spells (hx : Faithful expr) (fuel : Nat) :
    ∀ (read : Array ObjcExpr) (s : ReadState), Ends True (moreArguments expr fuel read) s
      (fun all s' => ∃ (found : List ObjcExpr) (front : List Token),
        all = read ++ found.toArray ∧ found ≠ [] ∧ HasTaken s front s' ∧ SpellsList front found)
      fun _ _ => True := by
  induction fuel with
  | zero => intro _ _; exact trivial
  | succ fuel ih =>
    intro read s
    unfold moreArguments
    refine ends_bind.mpr ((hx.inner s).mono (fun e s₁ h₁ => ?_) fun _ _ h => h)
    obtain ⟨front, hread, hd⟩ := h₁
    rw [ends_bind, ends_eat]
    refine ⟨fun hc => ?_, fun _ => ?_⟩
    · rw [if_pos rfl]
      obtain ⟨comma, hk, hadv⟩ := HasTaken.exists_advance hc (by decide)
      refine (ih (read.push e) s₁.advance).mono (fun all s₂ h₂ => ?_) fun _ _ h => h
      obtain ⟨found, inner, rfl, hne, hread', hlist⟩ := h₂
      exact ⟨e :: found, _, by simp, List.cons_ne_nil e found, hread.trans (hadv.trans hread'),
        .more hd hk hne hlist⟩
    · rw [if_neg (by decide)]
      exact ends_pure.mpr ⟨[e], front, by simp, List.cons_ne_nil e [], hread, .one hd⟩

/-- The arguments of a call are spelt between its parentheses. -/
theorem callArguments_spells (hx : Faithful expr) (hc : s.current = .leftParen) :
    Ends True (callArguments expr) s
      (fun found s' => ∃ opening inner closing,
        opening.kind = .leftParen ∧ closing.kind = .rightParen ∧
        HasTaken s (opening :: (inner ++ [closing])) s' ∧ SpellsList inner found)
      fun _ _ => True := by
  obtain ⟨opening, hopening, hadv⟩ := HasTaken.exists_advance hc (by decide)
  have hlast : ∀ (read : Array ObjcExpr) (inner : List Token) (s₁ : ReadState),
      HasTaken s.advance inner s₁ → SpellsList inner read.toList →
      Ends True (do
        let _ ← Rule.expect .rightParen .argumentsEnd
        return read.toList) s₁ (fun found s' => ∃ opening inner closing,
          opening.kind = .leftParen ∧ closing.kind = .rightParen ∧
          HasTaken s (opening :: (inner ++ [closing])) s' ∧ SpellsList inner found)
        fun _ _ => True := by
    intro read inner s₁ hinner hlist
    rw [ends_bind, ends_expect]
    refine ⟨fun hc₁ => ends_pure.mpr ?_, fun _ => trivial⟩
    obtain ⟨closing, hclosing, hadv₁⟩ := HasTaken.exists_advance hc₁ (by decide)
    exact ⟨opening, inner, closing, hopening, hclosing, hadv.trans (hinner.trans hadv₁), hlist⟩
  unfold callArguments
  rw [ends_bind, ends_advance, ends_bind, ends_state]
  refine ends_ite.mpr ⟨fun _ => ?_, fun _ => ?_⟩
  · exact ends_bind.mpr (ends_pure.mpr (hlast #[] [] _ (.refl _) .none))
  · refine ends_bind.mpr ((moreArguments_spells hx _ #[] s.advance).mono
      (fun read s₁ h₁ => ?_) fun _ _ h => h)
    obtain ⟨found, inner, rfl, _, hinner, hlist⟩ := h₁
    have hall : ((#[] : Array ObjcExpr) ++ found.toArray).toList = found := by simp
    exact hlast _ inner s₁ hinner (by rw [hall]; exact hlist)

/-! ## Messages -/

/-- The tokens are further arguments of a message, which add this much to its selector. -/
def SpellsPieces (ts : List Token) (selector : String) (arguments : List (Labelled ObjcExpr)) :
    Prop :=
  ∃ pieces : List Piece, ts = pieces.flatMap Piece.tokens ∧ selector = selectorOf pieces ∧
    arguments = pieces.map Piece.argument ∧ (∀ p ∈ pieces, p.mark.WellFormed) ∧
    ∀ p ∈ pieces, Spells .assignment p.body p.value

theorem SpellsPieces.none : SpellsPieces [] "" [] :=
  ⟨[], rfl, rfl, rfl, (fun _ h => by cases h), (fun _ h => by cases h)⟩

theorem SpellsPieces.more {ts front : List Token} {selector : String} {e : ObjcExpr}
    {arguments : List (Labelled ObjcExpr)} {mark : Mark} (hm : mark.WellFormed)
    (h : Spells .assignment front e) (hts : SpellsPieces ts selector arguments) :
    SpellsPieces (mark.tokens ++ (front ++ ts)) (mark.selector ++ selector)
      (⟨mark.label, e⟩ :: arguments) := by
  obtain ⟨pieces, rfl, rfl, rfl, hmarks, heach⟩ := hts
  refine ⟨⟨mark, front, e⟩ :: pieces, ?_, (selectorOf_cons ⟨mark, front, e⟩ pieces).symm, rfl,
    List.forall_mem_cons.mpr ⟨hm, hmarks⟩, List.forall_mem_cons.mpr ⟨h, heach⟩⟩
  rw [List.flatMap_cons, ← List.append_assoc]
  rfl

theorem messageArguments_spells (hx : Faithful expr) (fuel : Nat) :
    ∀ (selector : String) (read : Array (Labelled ObjcExpr)) (s : ReadState),
      Ends True (messageArguments expr fuel selector read) s
        (fun all s' => ∃ more found front, all = (selector ++ more, read ++ List.toArray found) ∧
          HasTaken s front s' ∧ SpellsPieces front more found)
        fun _ _ => True := by
  induction fuel with
  | zero => intro _ _ _; exact trivial
  | succ fuel ih =>
    intro selector read s
    -- One further argument behind its mark, and all that follow.
    have hnext : ∀ (mark : Mark) (s₁ : ReadState), mark.WellFormed → HasTaken s mark.tokens s₁ →
        Ends True (do
          let value ← expr 0
          messageArguments expr fuel (selector ++ mark.selector) (read.push ⟨mark.label, value⟩))
          s₁ (fun all s' => ∃ more found front,
            all = (selector ++ more, read ++ List.toArray found) ∧ HasTaken s front s' ∧
              SpellsPieces front more found)
          fun _ _ => True := by
      intro mark s₁ hm hread
      refine ends_bind.mpr ((hx.inner s₁).mono (fun e s₂ h₂ => ?_) fun _ _ h => h)
      obtain ⟨front, hread₂, hd⟩ := h₂
      refine (ih _ _ s₂).mono (fun all s₃ h₃ => ?_) fun _ _ h => h
      obtain ⟨more, found, behind, rfl, hread₃, hpieces⟩ := h₃
      refine ⟨mark.selector ++ more, ⟨mark.label, e⟩ :: found, _, ?_,
        hread.trans (hread₂.trans hread₃), .more hm hd hpieces⟩
      rw [String.append_assoc]
      simp
    unfold messageArguments
    rw [ends_bind, ends_state]
    refine ends_ite.mpr ⟨fun hc => ?_, fun _ => ?_⟩
    · rw [Bool.and_eq_true, decide_eq_true_iff, decide_eq_true_iff] at hc
      obtain ⟨name, rest, hr, hname⟩ := ReadState.exists_cons_of_current hc.1 (by decide)
      have hcolon : s.advance.current = .colon := by
        have hsecond := hc.2
        unfold ReadState.second at hsecond
        rw [hr] at hsecond
        rw [ReadState.advance_of_cons hr]
        exact hsecond
      obtain ⟨colon, hk, hadv⟩ := HasTaken.exists_advance hcolon (by decide)
      have hnamed := hnext (.keyword name colon) _ ⟨hname, hk⟩
        ((HasTaken.of_read (.advance hr)).trans hadv)
      rw [ends_bind, ends_advance, ends_bind, ends_advance,
        ReadState.currentText_of_cons hr, String.append_assoc]
      exact hnamed
    · rw [ends_bind, ends_eat]
      refine ⟨fun hc => ?_, fun _ => ?_⟩
      · obtain ⟨comma, hk, hadv⟩ := HasTaken.exists_advance hc (by decide)
        have hplain := hnext (.comma comma) _ hk hadv
        rw [if_pos rfl]
        rw [show selector ++ (Mark.comma comma).selector = selector from String.append_empty]
          at hplain
        exact hplain
      · rw [if_neg (by decide)]
        exact ends_pure.mpr ⟨"", [], [], by simp, .refl s, .none⟩

/-- A message is spelt between its brackets. -/
theorem message_spells (hx : Faithful expr) (hc : s.current = .leftBracket) :
    Ends True (message expr) s
      (fun e s' => ∃ front, HasTaken s front s' ∧ Spells .suffixed front e)
      fun _ _ => True := by
  obtain ⟨opening, hopening, hadv⟩ := HasTaken.exists_advance hc (by decide)
  unfold message
  rw [ends_bind, ends_advance, ends_bind]
  refine (hx.inner s.advance).mono (fun receiver s₁ h₁ => ?_) fun _ _ h => h
  obtain ⟨front, hread, hd⟩ := h₁
  rw [ends_bind, ends_identifier]
  refine ⟨fun hc₁ => ?_, fun _ => trivial⟩
  obtain ⟨name, rest, hr₁, hname⟩ := ReadState.exists_cons_of_current hc₁ (by decide)
  have hnamed : HasTaken s (opening :: front ++ [name]) s₁.advance :=
    (hadv.trans hread).trans (.of_read (.advance hr₁))
  rw [ReadState.currentText_of_cons hr₁]
  -- The closing bracket, behind whatever spells the message together with it.
  have hlast : ∀ (selector : String) (arguments : Array (Labelled ObjcExpr)) (s₂ : ReadState)
      (inner : List Token), HasTaken s inner s₂ → (∀ closing : Token,
        closing.kind = .rightBracket →
          Spells .suffixed (inner ++ [closing]) (.message receiver selector arguments.toList)) →
      Ends True (do
        let _ ← Rule.expect .rightBracket .messageEnd
        return .message receiver selector arguments.toList) s₂
        (fun e s' => ∃ front, HasTaken s front s' ∧ Spells .suffixed front e)
        fun _ _ => True := by
    intro selector arguments s₂ inner hinner hall
    rw [ends_bind, ends_expect]
    refine ⟨fun hc₂ => ends_pure.mpr ?_, fun _ => trivial⟩
    obtain ⟨closing, hclosing, hadv₂⟩ := HasTaken.exists_advance hc₂ (by decide)
    exact ⟨_, hinner.trans hadv₂, hall closing hclosing⟩
  rw [ends_bind, ends_eat]
  refine ⟨fun hc₂ => ?_, fun _ => ?_⟩
  · obtain ⟨colon, hcolon, hadv₂⟩ := HasTaken.exists_advance hc₂ (by decide)
    refine ends_ite.mpr ⟨fun _ => ?_, fun h => absurd rfl h⟩
    refine ends_bind.mpr ((hx.inner _).mono (fun value s₃ h₃ => ?_) fun _ _ h => h)
    obtain ⟨first, hread₃, hd₃⟩ := h₃
    rw [ends_bind, ends_state, ends_bind]
    refine (messageArguments_spells hx _ _ _ s₃).mono (fun found s₄ h₄ => ?_) fun _ _ h => h
    obtain ⟨more, arguments, behind, rfl, hread₄, pieces, rfl, rfl, rfl, hmarks, heach⟩ := h₄
    have hlist : ((#[⟨none, value⟩] : Array (Labelled ObjcExpr)) ++
        (pieces.map Piece.argument).toArray).toList =
        ⟨none, value⟩ :: pieces.map Piece.argument := by simp
    refine hlast _ _ s₄ _ (hnamed.trans (hadv₂.trans (hread₃.trans hread₄)))
      fun closing hclosing => ?_
    have hmessage := Spells.message hopening hd hname hcolon hd₃ hmarks heach hclosing
    rw [hlist]
    simpa using hmessage
  · refine ends_ite.mpr ⟨(fun h => by cases h), fun _ => ?_⟩
    refine ends_bind.mpr (ends_pure.mpr (hlast _ _ _ _ hnamed fun closing hclosing => ?_))
    have hmessage := Spells.plainMessage hopening hd hname hclosing
    simpa using hmessage

/-! ## Operands -/

/-- The strings that follow each other are read as one literal. -/
theorem strings_spells (hc : s.current = .stringLiteral) :
    Ends True strings s
      (fun value s' => ∃ front, HasTaken s front s' ∧ Spells .suffixed front (.literal value))
      fun _ _ => True := by
  obtain ⟨front, rest, hr, hstop, hgo, hend⟩ :=
    ReadState.Reads.readWhile_spec (fun ts => kindOf ts == .stringLiteral) s
  have hkinds : ∀ t ∈ front, t.kind = .stringLiteral := by
    intro t ht
    obtain ⟨before, after, rfl⟩ := List.append_of_mem ht
    exact eq_of_beq (hgo before t after rfl)
  have hne : front ≠ [] := by
    rintro rfl
    unfold ReadState.current at hc
    rw [hr, List.nil_append] at hc
    rcases hend with rfl | hend
    · cases hc
    · rw [hc] at hend
      cases hend
  unfold strings
  rw [ends_bind, ends_state, ends_bind, ends_modify, ends_bind, ends_state, hstop]
  refine ends_pure.mpr ⟨front, .of_read ⟨rest, hr, rfl⟩, ?_⟩
  have htake : s.rest.take ((s.past front rest).position - s.position) = front := by
    rw [ReadState.past_position, Nat.add_sub_cancel, hr, List.take_left]
  rw [htake]
  exact .strings hne hkinds

/-- `sizeof` is spelt in front of a type in parentheses or of an operand. -/
theorem sizeOf_found (hx : Faithful expr) {word : Token} {rest : List Token} {power : Nat}
    (hp : power ≤ unaryPower) (hr : s.rest = word :: rest) (hk : word.kind = .identifier)
    (htext : word.text = "sizeof") :
    Ends True (sizeOf expr) s (fun e s' => Found s power e s') fun _ _ => True := by
  have hadv : HasTaken s [word] s.advance := .of_read (.advance hr)
  have hvalue : ∀ s₁ : ReadState, HasTaken s.advance [] s₁ →
      Ends True (sizeOfOperand expr none) s₁ (fun e s' => Found s power e s')
        fun _ _ => True := by
    intro s₁ hsame
    refine ends_bind.mpr ((hx.signed s₁).mono (fun e s₂ h₂ => ?_) fun _ _ h => h)
    obtain ⟨front, hread, hd, hstops⟩ := h₂
    exact ends_pure.mpr (.signed hp (hadv.trans (hsame.trans hread)) (.sizeOfValue hk htext hd)
      hstops)
  unfold sizeOf
  rw [ends_bind, ends_advance, ends_bind, ends_state]
  refine ends_ite.mpr ⟨fun hc => ?_, fun _ => ?_⟩
  · have htried : IsTried typeInParens := Or.inr rfl
    refine ends_bind.mpr ((htried.attempt_takes hc).mono (fun found s₁ h₁ => ?_) fun _ _ h => h)
    cases found with
    | none => exact hvalue s₁ h₁
    | some type =>
      obtain ⟨opening, front, closing, ho, hcl, hread, hspelt⟩ := h₁
      exact ends_pure.mpr (.suffixed hp (hadv.trans hread) (.sizeOfType hk htext ho hspelt hcl))
  · exact ends_bind.mpr (ends_pure.mpr (hvalue _ (.refl _)))

/-- Parentheses are those of a cast or of a group. -/
theorem castOrGroup_found (hx : Faithful expr) {power : Nat} (hp : power ≤ unaryPower)
    (hc : s.current = .leftParen) :
    Ends True (castOrGroup expr) s (fun e s' => Found s power e s') fun _ _ => True := by
  have htried : IsTried castType := Or.inl rfl
  unfold castOrGroup
  refine ends_bind.mpr ((htried.attempt_takes hc).mono (fun found s₁ h₁ => ?_) fun _ _ h => h)
  cases found with
  | some type =>
    obtain ⟨opening, front, closing, ho, hcl, hread, hspelt⟩ := h₁
    refine ends_bind.mpr ((hx.signed s₁).mono (fun e s₂ h₂ => ?_) fun _ _ h => h)
    obtain ⟨behind, hread₂, hd, hstops⟩ := h₂
    exact ends_pure.mpr (.signed hp (hread.trans hread₂) (.cast ho hspelt hcl hd) hstops)
  | none =>
    -- The failed try leaves the parenthesis where it was.
    have hc₁ : s₁.current = .leftParen := h₁.halved.kindOf_right hc (by decide)
    obtain ⟨opening, ho, hadv⟩ := HasTaken.exists_advance hc₁ (by decide)
    simp only []
    rw [ends_bind, ends_advance, ends_bind]
    refine (hx.inner s₁.advance).mono (fun e s₂ h₂ => ?_) fun _ _ h => h
    obtain ⟨front, hread, hd⟩ := h₂
    rw [ends_bind, ends_expect]
    refine ⟨fun hc₂ => ends_pure.mpr ?_, fun _ => trivial⟩
    obtain ⟨closing, hcl, hadv₂⟩ := HasTaken.exists_advance hc₂ (by decide)
    exact .suffixed hp (h₁.trans (hadv.trans (hread.trans hadv₂))) (.paren ho hd hcl)

/-- A word is a literal, a name, or `sizeof`. -/
theorem word_found (hx : Faithful expr) {power : Nat} (hp : power ≤ unaryPower)
    (hc : s.current = .identifier) :
    Ends True (word expr) s (fun e s' => Found s power e s') fun _ _ => True := by
  obtain ⟨t, rest, hr, hk⟩ := ReadState.exists_cons_of_current hc (by decide)
  have hadv : HasTaken s [t] s.advance := .of_read (.advance hr)
  unfold word
  rw [ends_bind, ends_state]
  simp only []
  rw [ReadState.currentText_of_cons hr]
  cases hword : literalWord? t.text with
  | some value =>
    simp only [ends_bind, ends_advance, ends_pure]
    exact .suffixed hp hadv (.word hk hword)
  | none =>
    simp only []
    refine ends_ite.mpr ⟨fun hsizeof => sizeOf_found hx hp hr hk hsizeof, fun hsizeof => ?_⟩
    simp only [ends_bind, ends_advance, ends_pure]
    exact .suffixed hp hadv (.name hk hword hsizeof)

/-- A literal of one token. -/
theorem literal_spells {kind : TokenKind} {e : String → ObjcExpr} (hc : s.current = kind)
    (hk : kind ≠ .endOfFile)
    (he : ∀ t : Token, t.kind = kind → Spells .suffixed [t] (e t.text)) :
    Ends True (do let _ ← advance; return e s.currentText) s
      (fun e s' => ∃ front, HasTaken s front s' ∧ Spells .suffixed front e)
      fun _ _ => True := by
  obtain ⟨t, rest, hr, ht⟩ := ReadState.exists_cons_of_current hc hk
  rw [ends_bind, ends_advance, ReadState.currentText_of_cons hr]
  exact ends_pure.mpr ⟨[t], .of_read (.advance hr), he t ht⟩

/-- The front of an expression is spelt on one of the two tightest rungs. -/
theorem operand_found (hx : Faithful expr) {power : Nat} (hp : power ≤ unaryPower) :
    Ends True (operand expr) s (fun e s' => Found s power e s') fun _ _ => True := by
  have hpart : ∀ {r : Rule ObjcExpr}, Ends True r s
      (fun e s' => ∃ front, HasTaken s front s' ∧ Spells .suffixed front e)
      (fun _ _ => True) → Ends True r s (fun e s' => Found s power e s') fun _ _ => True := by
    intro r h
    refine h.mono (fun e s' h => ?_) fun _ _ h => h
    obtain ⟨front, hread, hd⟩ := h
    exact .suffixed hp hread hd
  unfold operand
  rw [ends_bind, ends_state]
  cases hop : unaryOf? s.current with
  | some op =>
    obtain ⟨t, hk, hadv⟩ := HasTaken.exists_advance (s := s) rfl
      (by intro h; rw [h] at hop; cases hop)
    rw [← hk] at hop
    simp only []
    rw [ends_bind, ends_advance, ends_bind]
    refine (hx.signed s.advance).mono (fun e s₁ h₁ => ?_) fun _ _ h => h
    obtain ⟨front, hread, hd, hstops⟩ := h₁
    exact ends_pure.mpr (.signed hp (hadv.trans hread) (.unary (unaryOf_iff.mp hop) hd) hstops)
  | none =>
    simp only []
    split
    · next hc =>
      exact hpart (literal_spells (e := fun text => .literal (.int text)) hc (by decide)
        fun t ht => .int ht)
    · next hc =>
      exact hpart (literal_spells (e := fun text => .literal (.float text)) hc (by decide)
        fun t ht => .float ht)
    · next hc =>
      refine hpart (ends_bind.mpr ((strings_spells hc).mono (fun value s₁ h₁ => ?_)
        fun _ _ h => h))
      exact ends_pure.mpr h₁
    · next hc =>
      exact hpart (literal_spells (e := fun text => .literal (.char (unquoted text))) hc
        (by decide) fun t ht => .char ht)
    · next hc => exact word_found hx hp hc
    · next hc => exact castOrGroup_found hx hp hc
    · next hc => exact hpart (message_spells hx hc)
    · trivial

/-! ## The loop -/

/-- In front of a suffix only a part with suffixes is complete. -/
theorem Follows.suffixed {rung : Rung} {ts : List Token} (h : Follows rung ts)
    (hs : isSuffix (kindOf ts) = true) : rung = .suffixed := by
  by_cases hr : rung = .suffixed
  · exact hr
  · rw [(h hr).no_suffix] at hs
    cases hs

/-- In front of an operator an expression is complete on the rungs above the one on its left. -/
theorem Follows.left_lt {rung : Rung} {ts : List Token} {joint : Joint} (h : Follows rung ts)
    (hj : jointOf? (kindOf ts) = some joint) : joint.powers.1 < rung.right := by
  by_cases hr : rung = .suffixed
  · subst hr
    exact Nat.lt_of_le_of_lt joint.left_le (by decide)
  · exact (h hr).weak joint hj

/-- An operator joins the operand on its left and what is spelt on its right. -/
theorem joined_found (hx : Faithful expr) {power : Nat} {joint : Joint} {lhs : ObjcExpr}
    (hj : jointOf? s.current = some joint) (hp : power ≤ joint.powers.1)
    (hlhs : Found s₀ power lhs s) :
    Ends True (joined expr joint lhs) s.advance (fun e s' => Found s₀ power e s')
      fun _ _ => True := by
  obtain ⟨t, hk, hadv⟩ := HasTaken.exists_advance (s := s) rfl
    (by intro h; rw [h] at hj; cases hj)
  have hoperator : jointOf? t.kind = some joint := by rw [hk]; exact hj
  have hright := joint.right_le
  obtain ⟨rung, front, hread, hd, _, hfollows⟩ := hlhs
  have hlt := hfollows.left_lt hj
  unfold joined
  cases joint with
  | assign op =>
    refine ends_bind.mpr ((hx _ hright s.advance).mono (fun r s₁ h₁ => ?_) fun _ _ h => h)
    obtain ⟨_, behind, hread₁, hd₁, _, hstops⟩ := h₁
    have htarget : Rung.ternary.left ≤ rung.left := Rung.tighter_le_of_right (Or.inl rfl) hlt
    exact ends_pure.mpr ⟨.assignment, _, hread.trans (hadv.trans hread₁),
      .assign (hd.loosen htarget) (jointOf_assign_iff.mp hoperator) hd₁.whole, hp,
      fun _ => hstops⟩
  | ternary =>
    refine ends_bind.mpr ((hx.inner s.advance).mono (fun y s₁ h₁ => ?_) fun _ _ h => h)
    obtain ⟨inner, hread₁, hd₁⟩ := h₁
    rw [ends_bind, ends_expect]
    refine ⟨fun hc₁ => ?_, fun _ => trivial⟩
    obtain ⟨colon, hcolon, hadv₁⟩ := HasTaken.exists_advance hc₁ (by decide)
    refine ends_bind.mpr ((hx _ hright s₁.advance).mono (fun n s₂ h₂ => ?_) fun _ _ h => h)
    obtain ⟨other, behind, hread₂, hd₂, hle, hstops⟩ := h₂
    have hcondition : Rung.or.left ≤ rung.left := Rung.tighter_le_of_right (Or.inr rfl) hlt
    have hno : Rung.ternary.left ≤ other.left := Rung.ternary_le_of_right hle
    exact ends_pure.mpr
      ⟨.ternary, _, hread.trans (hadv.trans (hread₁.trans (hadv₁.trans hread₂))),
        .ternary (hd.loosen hcondition) (jointOf_ternary_iff.mp hoperator) hd₁ hcolon
          (hd₂.loosen hno), hp, fun _ => hstops⟩
  | binary op =>
    obtain ⟨level, hmem⟩ := exists_rung_of_binary hoperator
    obtain ⟨_, hpowers⟩ := jointOf_of_operators hmem
    obtain ⟨hsucc, _⟩ := Rung.right_of_operators hmem
    rw [hpowers] at hp hright hlt ⊢
    refine ends_bind.mpr ((hx _ hright s.advance).mono (fun r s₁ h₁ => ?_) fun _ _ h => h)
    obtain ⟨rungr, behind, hread₁, hd₁, hle, hstops⟩ := h₁
    have hl : level.left ≤ rung.left := Nat.le_of_lt_succ (Nat.lt_of_lt_of_le hlt rung.right_le)
    have hr : level.tighter.left ≤ rungr.left :=
      (Rung.tighter_left_le (by rw [hsucc] at hle; exact hle)).1
    exact ends_pure.mpr ⟨level, _, hread.trans (hadv.trans hread₁),
      .binary (hd.loosen hl) hmem (hd₁.loosen hr), hp, fun _ => hstops⟩

/-- A round of the loop keeps its invariant. -/
theorem round_found (hx : Faithful expr) {power : Nat} {lhs : ObjcExpr} {r : Rule ObjcExpr}
    (hr : round? expr power lhs s.current = some r)
    (hlhs : Found s₀ power lhs s) :
    Ends True r s (fun e s' => Found s₀ power e s') fun _ _ => True := by
  -- Behind an operand that a suffix follows, the operand with its suffix is found.
  have hsuffix : ∀ {e : ObjcExpr} {behind : List Token} {s₁ : ReadState},
      isSuffix s.current = true → HasTaken s behind s₁ →
      (∀ front, Spells .suffixed front lhs → Spells .suffixed (front ++ behind) e) →
      Found s₀ power e s₁ := by
    intro e behind s₁ hs hread₁ hd₁
    obtain ⟨rung, front, hread, hd, hle, hfollows⟩ := hlhs
    cases hfollows.suffixed hs
    exact ⟨.suffixed, _, hread.trans hread₁, hd₁ front hd, hle, fun h => absurd rfl h⟩
  unfold round? at hr
  split at hr
  · next hc =>
    cases hr
    refine ends_map.mpr ((callArguments_spells hx hc).mono (fun found s₁ h₁ => ?_) fun _ _ h => h)
    obtain ⟨opening, inner, closing, hopening, hclosing, hread, arguments, rfl, heach, hcommas⟩ :=
      h₁
    exact hsuffix (by rw [hc]; rfl) hread fun front hd => .call hd hopening heach hcommas hclosing
  iterate 2
    · next hc =>
      cases hr
      obtain ⟨t, hk, hadv⟩ := HasTaken.exists_advance hc (by decide)
      rw [ends_bind, ends_advance, ends_bind, ends_identifier]
      refine ⟨fun hc₁ => ends_pure.mpr ?_, fun _ => trivial⟩
      obtain ⟨name, rest, hr₁, hname⟩ := ReadState.exists_cons_of_current hc₁ (by decide)
      rw [ReadState.currentText_of_cons hr₁]
      refine hsuffix (by rw [hc]; rfl) (hadv.trans (.of_read (.advance hr₁))) fun front hd => ?_
      exact .member hd (by rw [hk, hc]; decide) hname
  · next hc =>
    cases hr
    obtain ⟨opening, hopening, hadv⟩ := HasTaken.exists_advance hc (by decide)
    rw [ends_bind, ends_advance, ends_bind]
    refine (hx.inner s.advance).mono (fun index s₁ h₁ => ?_) fun _ _ h => h
    obtain ⟨inner, hread, hindex⟩ := h₁
    rw [ends_bind, ends_expect]
    refine ⟨fun hc₁ => ends_pure.mpr ?_, fun _ => trivial⟩
    obtain ⟨closing, hclosing, hadv₁⟩ := HasTaken.exists_advance hc₁ (by decide)
    exact hsuffix (by rw [hc]; rfl) (hadv.trans (hread.trans hadv₁)) fun front hd =>
      .subscript hd hopening hindex hclosing
  · cases hj : jointOf? s.current with
    | none =>
      rw [hj] at hr
      cases hr
    | some joint =>
      rw [hj] at hr
      simp only [] at hr
      split at hr
      · cases hr
      · next hp =>
        cases hr
        rw [ends_bind, ends_advance]
        exact joined_found hx hj (Nat.le_of_not_lt hp) hlhs

/-- The loop keeps its invariant and ends in front of tokens that stop it. -/
theorem extended_spells (hx : Faithful expr) {power : Nat} (fuel : Nat) :
    ∀ (lhs : ObjcExpr) (s : ReadState), Found s₀ power lhs s →
      Ends True (extended expr power fuel lhs) s
        (fun e s' => ∃ rung front, HasTaken s₀ front s' ∧ Spells rung front e ∧
          power ≤ rung.left ∧ Stops power s'.rest)
        fun _ _ => True := by
  induction fuel with
  | zero => intro _ _ _; exact trivial
  | succ fuel ih =>
    intro lhs s hlhs
    rw [ends_extended]
    cases hr : round? expr power lhs s.current with
    | none =>
      obtain ⟨rung, front, hread, hd, hle, _⟩ := hlhs
      exact ⟨rung, front, hread, hd, hle, round_eq_none_iff.mp hr⟩
    | some r => exact (round_found hx hr hlhs).mono (fun e s₁ h₁ => ih e s₁ h₁) fun _ _ h => h

theorem expressionFrom_faithful (fuel : Nat) : Faithful (expressionFrom fuel) := by
  induction fuel with
  | zero => intro _ _ _; exact trivial
  | succ fuel ih =>
    intro power hp s
    unfold expressionFrom
    refine ends_bind.mpr ((operand_found ih hp).mono (fun first s₁ h₁ => ?_) fun _ _ h => h)
    exact ends_bind.mpr (ends_state.mpr (extended_spells ih _ first s₁ h₁))

/-- What an expression comes to is spelt by the tokens that were read. -/
theorem expression_spells (s : ReadState) :
    Ends True expression s (fun e s' => ∃ front, HasTaken s front s' ∧
      Spells .assignment front e) fun _ _ => True := by
  unfold expression
  exact ends_bind.mpr (ends_state.mpr ((expressionFrom_faithful _).inner s))

/-- What a whole text comes to is spelt by all of it, with some double brackets taken apart. -/
theorem wholeExpression_spells (hs : ∀ t ∈ s.rest, t.kind ≠ .endOfFile) :
    Ends True wholeExpression s (fun e _ => ∃ ts, Halved s.rest ts ∧ Spells .assignment ts e)
      fun _ _ => True := by
  unfold wholeExpression
  refine ends_bind.mpr (ends_state.mpr (ends_ite.mpr ⟨fun _ => trivial, fun _ => ?_⟩))
  refine ends_bind.mpr ((expression_spells s).mono (fun e s₁ h₁ => ?_) fun _ _ h => h)
  refine ends_bind.mpr (ends_state.mpr (ends_ite.mpr ⟨fun _ => trivial, fun hend => ?_⟩))
  cases s₁.errors.toList.head? with
  | some error => trivial
  | none =>
    obtain ⟨front, hread, hd⟩ := h₁
    have hrow := hread.halved
    have hnil : s₁.rest = [] := by
      cases hrest : s₁.rest with
      | nil => rfl
      | cons t rest =>
        have hcurrent : t.kind = .endOfFile := by
          rw [← ReadState.current_of_cons hrest]
          exact Decidable.not_not.mp hend
        have ht : t ∈ s.rest := by
          refine (hrow.mem_iff_of_kind hcurrent (by decide)).mp ?_
          rw [hrest]
          exact List.mem_append_right front List.mem_cons_self
        exact absurd hcurrent (hs t ht)
    rw [hnil, List.append_nil] at hrow
    exact ends_pure.mpr ⟨front, hrow, hd⟩

end HeaderBridge.Grammar
