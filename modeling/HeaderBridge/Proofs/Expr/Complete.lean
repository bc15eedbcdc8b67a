/-
  What some tokens derive is found in front of them. `Reaches rung ts e` says that the rule for
  expressions reads the tokens `ts` and then stands in its loop with the operand `e`: wherever the
  loop may come to from there, the rule comes to. An operand that is derived in parts reaches its
  end part by part, since the loop that read the one on the left goes on with the next operator.
  A derivation that ends in front of tokens which stop the loop is the value of the rule.
-/
import HeaderBridge.Proofs.Expr.Rounds

namespace HeaderBridge

open ReadState (kindOf)

namespace Rule

variable {α β : Type} {s : ReadState} {front us : List Token}

/-- Unless it breaks, the rule comes to a value behind some tokens, in front of others. -/
def Yields (r : Rule α) (a : α) (front us : List Token) (s : ReadState) : Prop :=
  Ends True r s (fun b s' => b = a ∧ s' = s.past front us) fun _ _ => False

theorem Yields.ends {r : Rule α} {a : α} {Q : α → ReadState → Prop}
    {E : SyntaxError → ReadState → Prop} (h : Yields r a front us s) (hQ : Q a (s.past front us)) :
    Ends True r s Q E := by
  refine h.mono (fun b s' hb => ?_) fun _ _ h => h.elim
  obtain ⟨rfl, rfl⟩ := hb
  exact hQ

theorem Yields.bind {r : Rule β} {f : β → Rule α} {a : α} {b : β} {front' us' : List Token}
    (h : Yields r b front us s) (hf : Yields (f b) a front' us' (s.past front us)) :
    Yields (r >>= f) a (front ++ front') us' s := by
  refine ends_bind.mpr (h.ends (hf.mono (fun c s' hc => ?_) fun _ _ h => h))
  obtain ⟨rfl, rfl⟩ := hc
  exact ⟨rfl, ReadState.past_past⟩

theorem Yields.map {r : Rule β} {b : β} (h : Yields r b front us s) (f : β → α) :
    Yields (f <$> r) (f b) front us s :=
  ends_map.mpr (h.ends ⟨rfl, rfl⟩)

theorem Yields.state {f : ReadState → Rule α} {a : α} (h : Yields (f s) a front us s) :
    Yields (Rule.state >>= f) a front us s :=
  ends_bind.mpr h

variable {t : Token}

theorem Yields.advance (h : s.rest = t :: us) : Yields advance t.span [t] us s := by
  refine ends_advance.mpr ⟨ReadState.currentSpan_of_cons h, ReadState.advance_of_cons h⟩

theorem Yields.expect {kind : TokenKind} (cause : SyntaxError.Cause) (hk : t.kind = kind)
    (h : s.rest = t :: us) : Yields (Rule.expect kind cause) t.span [t] us s := by
  have hc : s.current = kind := (ReadState.current_of_cons h).trans hk
  refine ends_expect.mpr ⟨fun _ => ?_, fun hne => absurd hc hne⟩
  exact ⟨ReadState.currentSpan_of_cons h, ReadState.advance_of_cons h⟩

theorem Yields.identifier (cause : SyntaxError.Cause) (hk : t.kind = .identifier)
    (h : s.rest = t :: us) : Yields (Rule.identifier cause) ⟨t.text, t.span⟩ [t] us s := by
  have hc : s.current = .identifier := (ReadState.current_of_cons h).trans hk
  refine ends_identifier.mpr ⟨fun _ => ?_, fun hne => absurd hc hne⟩
  rw [ReadState.currentText_of_cons h, ReadState.currentSpan_of_cons h]
  exact ⟨rfl, ReadState.advance_of_cons h⟩

theorem Yields.eat {kind : TokenKind} (hk : t.kind = kind) (h : s.rest = t :: us) :
    Yields (Rule.eat kind) true [t] us s := by
  have hc : s.current = kind := (ReadState.current_of_cons h).trans hk
  exact ends_eat.mpr ⟨fun _ => ⟨rfl, ReadState.advance_of_cons h⟩, fun hne => absurd hc hne⟩

theorem Yields.eat_of_ne {kind : TokenKind} (hk : kindOf us ≠ kind) (h : s.rest = us) :
    Yields (Rule.eat kind) false [] us s := by
  subst h
  exact ends_eat.mpr ⟨fun hc => absurd hc hk, fun _ => ⟨rfl, rfl⟩⟩

end Rule

namespace Grammar

open Rule

variable {rung : Rung} {ts us : List Token} {e : ObjcExpr}

/-! ## What follows and what starts -/

/-- A token comes next that no expression goes on with. -/
def Closes (us : List Token) : Prop :=
  kindOf us ∈ [.comma, .colon, .rightParen, .rightBracket, .identifier, .endOfFile]

theorem Closes.spec (h : Closes us) :
    (∀ power, Stops power us) ∧ kindOf us ≠ .stringLiteral := by
  have hall : ∀ kind ∈ [TokenKind.comma, .colon, .rightParen, .rightBracket, .identifier,
      .endOfFile], isSuffix kind = false ∧ jointOf? kind = none ∧ kind ≠ .stringLiteral := by
    decide
  obtain ⟨hsuffix, hjoint, hstring⟩ := hall _ h
  exact ⟨fun _ => .of_none hsuffix hjoint, hstring⟩

theorem Closes.of_cons {t : Token} (h : t.kind ∈ [TokenKind.comma, .colon, .rightParen,
    .rightBracket, .identifier, .endOfFile]) (ts : List Token) : Closes (t :: ts) := h

theorem Follows.tighter (h : Follows rung us) : Follows rung.tighter us := by
  intro hne
  have hr : rung ≠ .suffixed := by
    rintro rfl
    exact hne rfl
  exact (h hr).mono rung.right_le_tighter

/-- A derivation starts with a token that closes no argument. -/
theorem Derives.starts (h : Derives rung ts e) :
    ∃ t rest, ts = t :: rest ∧ t.kind ≠ .rightParen ∧ t.kind ≠ .endOfFile := by
  have happend : ∀ {ls rs : List Token},
      (∃ t rest, ls = t :: rest ∧ t.kind ≠ .rightParen ∧ t.kind ≠ .endOfFile) →
      ∃ t rest, ls ++ rs = t :: rest ∧ t.kind ≠ .rightParen ∧ t.kind ≠ .endOfFile := by
    rintro _ rs ⟨t, rest, rfl, ht⟩
    exact ⟨t, rest ++ rs, rfl, ht⟩
  have hone : ∀ {t : Token} {rest : List Token} {kind : TokenKind}, t.kind = kind →
      kind ≠ .rightParen → kind ≠ .endOfFile →
      ∃ u rest', t :: rest = u :: rest' ∧ u.kind ≠ .rightParen ∧ u.kind ≠ .endOfFile := by
    rintro t rest _ rfl h₁ h₂
    exact ⟨t, rest, rfl, h₁, h₂⟩
  induction h with
  | climb _ ih => exact ih
  | assign _ _ _ ih => exact happend ih
  | ternary _ _ _ _ _ ih => exact happend ih
  | binary _ _ _ ih => exact happend ih
  | @unary ts e t op hmem _ _ =>
    have hall : ∀ p ∈ signs, p.1 ≠ .rightParen ∧ p.1 ≠ .endOfFile := by decide
    exact ⟨t, ts, rfl, hall _ hmem⟩
  | member _ _ _ ih => exact happend ih
  | call _ _ _ _ _ ih => exact happend ih
  | subscript _ _ _ _ ih => exact happend ih
  | plainMessage hk => exact hone hk (by decide) (by decide)
  | message hk => exact hone hk (by decide) (by decide)
  | int hk => exact hone hk (by decide) (by decide)
  | float hk => exact hone hk (by decide) (by decide)
  | char hk => exact hone hk (by decide) (by decide)
  | @strings ts hne hk =>
    cases ts with
    | nil => exact absurd rfl hne
    | cons t ts => exact hone (hk t List.mem_cons_self) (by decide) (by decide)
  | word hk => exact hone hk (by decide) (by decide)
  | name hk => exact hone hk (by decide) (by decide)

/-! ## Reaching the loop -/

/-- In front of these tokens the rule comes to wherever the loop behind them may come to. -/
def Reaches (rung : Rung) (ts : List Token) (e : ObjcExpr) : Prop :=
  ∀ (fuel power : Nat) (us : List Token) (s : ReadState), power ≤ rung.left → Follows rung us →
    kindOf us ≠ .stringLiteral → s.rest = ts ++ us →
    ∀ (Q : ObjcExpr → ReadState → Prop) (E : SyntaxError → ReadState → Prop),
      (∀ loop, Ends True (extended (expressionFrom fuel) power loop e) (s.past ts us) Q E) →
      Ends True (expressionFrom (fuel + 1) power) s Q E

namespace Reaches

variable {fuel power : Nat} {s : ReadState}

/-- In front of tokens that stop the loop, the rule comes to the operand. -/
theorem yields (h : Reaches rung ts e) (hl : power ≤ rung.left) (hr : power ≤ rung.right)
    (hstops : Stops power us) (hstring : kindOf us ≠ .stringLiteral) (hs : s.rest = ts ++ us) :
    Yields (expressionFrom fuel power) e ts us s := by
  cases fuel with
  | zero => exact trivial
  | succ fuel =>
    refine h fuel power us s hl (fun _ => hstops.mono hr) hstring hs _ _ fun loop => ?_
    cases loop with
    | zero => exact trivial
    | succ loop =>
      rw [ends_extended, round_eq_none_iff.mpr hstops]
      exact ⟨rfl, rfl⟩

/-- In front of a token that closes it, a whole expression is found. -/
theorem inner (h : Reaches .assignment ts e) (hcloses : Closes us) (hs : s.rest = ts ++ us) :
    Yields (expressionFrom fuel 0) e ts us s :=
  h.yields (Nat.zero_le _) (Nat.zero_le _) (hcloses.spec.1 0) hcloses.spec.2 hs

theorem climb (h : Reaches rung.tighter ts e) : Reaches rung ts e := by
  intro fuel power us s hl hfollows hstring hs Q E hloop
  exact h fuel power us s (Nat.le_trans hl rung.left_le_tighter) hfollows.tighter hstring hs Q E
    hloop

/-- What the rule for operands finds is reached. -/
theorem of_operand (h : ∀ fuel us (s : ReadState), Follows rung us → kindOf us ≠ .stringLiteral →
    s.rest = ts ++ us → Yields (operand (expressionFrom fuel)) e ts us s) :
    Reaches rung ts e := by
  intro fuel power us s _ hfollows hstring hs Q E hloop
  unfold expressionFrom
  refine ends_bind.mpr ((h fuel us s hfollows hstring hs).ends ?_)
  exact ends_bind.mpr (ends_state.mpr (hloop _))

/-- Behind an operand that is reached, a round of the loop reaches what it makes of it. -/
theorem of_round {other : Rung} {ls behind : List Token} {l : ObjcExpr} {t : Token}
    (h : Reaches other ls l) (hle : rung.left ≤ other.left)
    (hfollows : ∀ us, Follows other (t :: us)) (hstring : t.kind ≠ .stringLiteral)
    (hround : ∀ fuel power us (s : ReadState), power ≤ rung.left → Follows rung us →
      kindOf us ≠ .stringLiteral → s.rest = t :: (behind ++ us) →
      ∃ r, round? (expressionFrom fuel) power l t.kind = some r ∧
        Yields r e (t :: behind) us s) :
    Reaches rung (ls ++ t :: behind) e := by
  intro fuel power us s hp hus hstring' hs Q E hloop
  rw [List.append_assoc] at hs
  refine h fuel power (t :: (behind ++ us)) s (Nat.le_trans hp hle) (hfollows _) hstring hs Q E
    fun loop => ?_
  cases loop with
  | zero => exact trivial
  | succ loop =>
    obtain ⟨r, hr, hyields⟩ :=
      hround fuel power us (s.past ls (t :: (behind ++ us))) hp hus hstring' rfl
    rw [ends_extended]
    rw [show (s.past ls (t :: (behind ++ us))).current = t.kind from rfl, hr]
    refine hyields.ends ?_
    rw [ReadState.past_past]
    exact hloop loop

/-- A suffix behind a part with suffixes. -/
theorem suffix {ls behind : List Token} {l : ObjcExpr} {t : Token} (h : Reaches .suffixed ls l)
    (ht : isSuffix t.kind = true)
    (hround : ∀ fuel power us (s : ReadState), s.rest = t :: (behind ++ us) →
      ∃ r, round? (expressionFrom fuel) power l t.kind = some r ∧
        Yields r e (t :: behind) us s) :
    Reaches .suffixed (ls ++ t :: behind) e := by
  refine h.of_round (Nat.le_refl _) (fun us hne => absurd rfl hne) ?_
    fun fuel power us s _ _ _ hs => hround fuel power us s hs
  intro hk
  rw [hk] at ht
  cases ht

/-- An operator between two operands. -/
theorem join {other : Rung} {ls rs : List Token} {l : ObjcExpr} {t : Token} {joint : Joint}
    (h : Reaches other ls l) (hj : jointOf? t.kind = some joint)
    (hpowers : joint.powers = (rung.left, rung.right)) (hle : rung.left ≤ other.left)
    (hlt : rung.left < other.right) (hne : rung ≠ .suffixed)
    (hjoined : ∀ fuel us (s : ReadState), Stops rung.right us → kindOf us ≠ .stringLiteral →
      s.rest = rs ++ us → Yields (joined (expressionFrom fuel) joint l) e rs us s) :
    Reaches rung (ls ++ t :: rs) e := by
  have hsuffix : isSuffix t.kind = false := by
    cases hs : isSuffix t.kind with
    | false => rfl
    | true =>
      unfold isSuffix at hs
      split at hs <;> simp_all [jointOf?]
  have hstops : ∀ us, Stops other.right (t :: us) := by
    refine fun us => ⟨hsuffix, fun joint' hj' => ?_⟩
    cases hj.symm.trans hj'
    rw [hpowers]
    exact hlt
  refine h.of_round hle (fun us _ => hstops us) ?_ fun fuel power us s hp hus hstring hs => ?_
  · intro hk
    rw [hk] at hj
    cases hj
  · refine ⟨advance >>= fun _ => joined (expressionFrom fuel) joint l, ?_, ?_⟩
    · rw [round_of_not_suffix hsuffix, hj]
      exact if_neg (by rw [hpowers]; exact Nat.not_lt_of_le hp)
    · exact (Yields.advance hs).bind (hjoined fuel us _ (hus hne) hstring rfl)

end Reaches

/-! ## Arguments of calls -/

section Arguments

variable {fuel : Nat} {s : ReadState} {inner : List Token}
  {arguments : List (List Token × ObjcExpr)} {closing : Token}

theorem moreArguments_yields (each : ∀ a ∈ arguments, Reaches .assignment a.1 a.2)
    (hne : arguments ≠ []) (hcommas : Commas (arguments.map Prod.fst) inner)
    (hk : closing.kind = .rightParen) :
    ∀ (loop : Nat) (read : Array ObjcExpr) (s : ReadState), s.rest = inner ++ closing :: us →
      Yields (moreArguments (expressionFrom fuel) loop read)
        (read ++ (arguments.map Prod.snd).toArray) inner (closing :: us) s := by
  induction arguments generalizing inner with
  | nil => exact absurd rfl hne
  | cons a arguments ih =>
    intro loop read s hs
    obtain ⟨ha, heach⟩ := List.forall_mem_cons.mp each
    cases loop with
    | zero => exact trivial
    | succ loop =>
      unfold moreArguments
      rw [List.map_cons] at hcommas
      rcases hcommas.of_cons with ⟨hnil, rfl⟩ | ⟨comma, rest, hcomma, hmore, hrest, rfl⟩
      · have hcloses : Closes (closing :: us) := .of_cons (by rw [hk]; decide) us
        have hcomma : kindOf (closing :: us) ≠ .comma := by
          rw [ReadState.kindOf_cons, hk]
          decide
        refine ends_bind.mpr ((ha.inner hcloses hs).ends (ends_bind.mpr ?_))
        refine (Yields.eat_of_ne hcomma rfl).ends ?_
        rw [if_neg (by decide), ReadState.past_past, List.append_nil, List.map_eq_nil_iff.mp hnil]
        exact ends_pure.mpr ⟨by simp, rfl⟩
      · have hcloses : Closes (comma :: (rest ++ closing :: us)) :=
          .of_cons (by rw [hcomma]; decide) _
        rw [List.append_assoc] at hs
        refine ends_bind.mpr ((ha.inner hcloses hs).ends (ends_bind.mpr ?_))
        refine (Yields.eat hcomma rfl).ends ?_
        rw [if_pos rfl, ReadState.past_past]
        refine (ih heach (fun h => hmore (by rw [h]; rfl)) hrest loop _ _ rfl).ends ⟨by simp, ?_⟩
        rw [ReadState.past_past, List.append_assoc]
        rfl

theorem callArguments_yields (each : ∀ a ∈ arguments, Reaches .assignment a.1 a.2)
    (starts : ∀ a ∈ arguments, ∃ t rest, a.1 = t :: rest ∧ t.kind ≠ .rightParen)
    (hcommas : Commas (arguments.map Prod.fst) inner) {opening : Token}
    (hk : closing.kind = .rightParen) (hs : s.rest = opening :: (inner ++ closing :: us)) :
    Yields (callArguments (expressionFrom fuel)) (arguments.map Prod.snd)
      (opening :: (inner ++ [closing])) us s := by
  have hlast : ∀ read : Array ObjcExpr, read.toList = arguments.map Prod.snd →
      Ends True (do
        let _ ← Rule.expect .rightParen .argumentsEnd
        return read.toList) (s.past (opening :: inner) (closing :: us))
        (fun found s' => found = arguments.map Prod.snd ∧
          s' = s.past (opening :: (inner ++ [closing])) us) fun _ _ => False := by
    intro read hread
    refine ends_bind.mpr ((Yields.expect _ hk rfl).ends (ends_pure.mpr ⟨hread, ?_⟩))
    rw [ReadState.past_past]
    rfl
  unfold callArguments
  refine ends_bind.mpr ((Yields.advance hs).ends (ends_bind.mpr (ends_state.mpr ?_)))
  rw [ReadState.past_current]
  cases arguments with
  | nil =>
    cases hcommas
    refine ends_ite.mpr ⟨fun _ => ends_bind.mpr (ends_pure.mpr (hlast #[] rfl)), fun h => ?_⟩
    exact absurd hk h
  | cons a arguments =>
    have hopen : kindOf (inner ++ closing :: us) ≠ .rightParen := by
      obtain ⟨t, rest, ha, ht⟩ := starts a List.mem_cons_self
      rw [List.map_cons, ha] at hcommas
      rcases hcommas.of_cons with ⟨_, rfl⟩ | ⟨comma, behind, _, _, _, rfl⟩
      · exact ht
      · exact ht
    refine ends_ite.mpr ⟨fun h => absurd h hopen, fun _ => ends_bind.mpr ?_⟩
    refine (moreArguments_yields each (List.cons_ne_nil a arguments) hcommas hk _ #[] _ rfl).ends ?_
    rw [ReadState.past_past]
    exact hlast _ (by simp)

end Arguments

/-! ## Messages -/

/-- A further argument, and the end of the message as well, closes the one in front of it. -/
theorem closes_pieces {pieces : List Piece} {closing : Token}
    (marks : ∀ p ∈ pieces, p.mark.WellFormed) (hk : closing.kind = .rightBracket) :
    Closes (pieces.flatMap Piece.tokens ++ closing :: us) := by
  cases pieces with
  | nil => exact .of_cons (by rw [hk]; decide) us
  | cons p pieces =>
    obtain ⟨mark, body, value⟩ := p
    have hmark := marks _ List.mem_cons_self
    cases mark with
    | keyword name colon => exact .of_cons (by rw [hmark.1]; decide) _
    | comma token => exact .of_cons (by rw [show token.kind = .comma from hmark]; decide) _

theorem not_keyword_of_ne {s : ReadState} (h : s.current ≠ .identifier) :
    ¬ (decide (s.current = .identifier) && decide (s.second = .colon)) = true := by
  rw [Bool.and_eq_true, decide_eq_true_iff]
  exact fun hc => h hc.1

/-- In front of a mark the rule reads it, and goes on with an argument. -/
theorem ends_messageArguments_mark {expr : Nat → Rule ObjcExpr} {mark : Mark} {loop : Nat}
    {selector : String} {read : Array (Labelled ObjcExpr)} {s : ReadState}
    {Q : String × Array (Labelled ObjcExpr) → ReadState → Prop} (hmark : mark.WellFormed)
    (hs : s.rest = mark.tokens ++ us)
    (h : Ends True (do
      let value ← expr 0
      messageArguments expr loop (selector ++ mark.selector) (read.push ⟨mark.label, value⟩))
      (s.past mark.tokens us) Q fun _ _ => False) :
    Ends True (messageArguments expr (loop + 1) selector read) s Q fun _ _ => False := by
  unfold messageArguments
  refine ends_bind.mpr (ends_state.mpr ?_)
  cases mark with
  | keyword name colon =>
    have hident : (decide (s.current = .identifier) && decide (s.second = .colon)) = true := by
      unfold ReadState.current ReadState.second
      rw [hs]
      exact (Bool.and_eq_true _ _).mpr ⟨decide_eq_true hmark.1, decide_eq_true hmark.2⟩
    rw [if_pos hident, ReadState.currentText_of_cons hs]
    refine ends_bind.mpr ((Yields.advance hs).ends ?_)
    refine ends_bind.mpr ((Yields.advance rfl).ends ?_)
    rw [ReadState.past_past, String.append_assoc]
    exact h
  | comma token =>
    have hident := not_keyword_of_ne (s := s) (by
      rw [ReadState.current_of_cons hs, show token.kind = .comma from hmark]
      decide)
    rw [if_neg hident]
    refine ends_bind.mpr ((Yields.eat hmark hs).ends ?_)
    rw [if_pos rfl]
    rw [show selector ++ (Mark.comma token).selector = selector from String.append_empty] at h
    exact h

theorem messageArguments_yields {fuel : Nat} {closing : Token} {pieces : List Piece}
    (marks : ∀ p ∈ pieces, p.mark.WellFormed)
    (each : ∀ p ∈ pieces, Reaches .assignment p.body p.value)
    (hk : closing.kind = .rightBracket) :
    ∀ (loop : Nat) (selector : String) (read : Array (Labelled ObjcExpr)) (s : ReadState),
      s.rest = pieces.flatMap Piece.tokens ++ closing :: us →
      Yields (messageArguments (expressionFrom fuel) loop selector read)
        (selector ++ selectorOf pieces, read ++ (pieces.map Piece.argument).toArray)
        (pieces.flatMap Piece.tokens) (closing :: us) s := by
  induction pieces with
  | nil =>
    intro loop selector read s hs
    cases loop with
    | zero => exact trivial
    | succ loop =>
      have hs' : s.rest = closing :: us := hs
      have hident := not_keyword_of_ne (s := s) (by
        rw [ReadState.current_of_cons hs', hk]
        decide)
      have hcomma : kindOf (closing :: us) ≠ .comma := by
        rw [ReadState.kindOf_cons, hk]
        decide
      unfold messageArguments
      refine ends_bind.mpr (ends_state.mpr ?_)
      rw [if_neg hident]
      refine ends_bind.mpr ((Yields.eat_of_ne hcomma hs').ends ?_)
      rw [if_neg (by decide)]
      exact ends_pure.mpr ⟨by simp [selectorOf], rfl⟩
  | cons p pieces ih =>
    intro loop selector read s hs
    obtain ⟨mark, body, value⟩ := p
    obtain ⟨hmark, hmarks⟩ := List.forall_mem_cons.mp marks
    obtain ⟨hvalue, heach⟩ := List.forall_mem_cons.mp each
    have hcloses : Closes (pieces.flatMap Piece.tokens ++ closing :: us) :=
      closes_pieces hmarks hk
    have htokens : (⟨mark, body, value⟩ :: pieces).flatMap Piece.tokens =
        mark.tokens ++ (body ++ pieces.flatMap Piece.tokens) := by
      rw [List.flatMap_cons, ← List.append_assoc]
      rfl
    rw [htokens, List.append_assoc, List.append_assoc] at hs
    rw [htokens, selectorOf_cons]
    cases loop with
    | zero => exact trivial
    | succ loop =>
      -- Behind the mark come the value and the further arguments.
      have hnext : Ends True (do
          let value ← expressionFrom fuel 0
          messageArguments (expressionFrom fuel) loop (selector ++ mark.selector)
            (read.push ⟨mark.label, value⟩))
          (s.past mark.tokens (body ++ (pieces.flatMap Piece.tokens ++ closing :: us)))
          (fun found s' => found = (selector ++ (mark.selector ++ selectorOf pieces),
              read ++ (List.map Piece.argument (⟨mark, body, value⟩ :: pieces)).toArray) ∧
            s' = s.past (mark.tokens ++ (body ++ pieces.flatMap Piece.tokens)) (closing :: us))
          fun _ _ => False := by
        refine ends_bind.mpr ((hvalue.inner hcloses rfl).ends ?_)
        refine (ih hmarks heach loop _ _ _ rfl).ends ⟨?_, ?_⟩
        · rw [String.append_assoc]
          simp [Piece.argument]
        · rw [ReadState.past_past, ReadState.past_past]
      exact ends_messageArguments_mark hmark hs hnext

/-- A message without arguments, whose receiver is found in front of the selector. -/
theorem message_yields_plain {fuel : Nat} {s : ReadState} {opening name closing : Token}
    {behind : List Token} (hs : s.rest = opening :: behind)
    (receiver : Yields (expressionFrom fuel 0) e ts (name :: closing :: us) (s.past [opening] behind))
    (hname : name.kind = .identifier) (hk : closing.kind = .rightBracket) :
    Yields (message (expressionFrom fuel)) (.message e name.text [])
      (opening :: (ts ++ [name, closing])) us s := by
  have hcolon : kindOf (closing :: us) ≠ .colon := by
    rw [ReadState.kindOf_cons, hk]
    decide
  unfold message
  refine ends_bind.mpr ((Yields.advance hs).ends (ends_bind.mpr (receiver.ends ?_)))
  refine ends_bind.mpr ((Yields.identifier _ hname rfl).ends ?_)
  refine ends_bind.mpr ((Yields.eat_of_ne hcolon rfl).ends ?_)
  refine ends_ite.mpr ⟨(fun h => by cases h), fun _ => ends_bind.mpr (ends_pure.mpr ?_)⟩
  refine ends_bind.mpr ((Yields.expect _ hk rfl).ends (ends_pure.mpr ⟨rfl, ?_⟩))
  simp

/-- A message with arguments. -/
theorem message_yields {fuel : Nat} {s : ReadState} {first : List Token} {value : ObjcExpr}
    {opening name colon closing : Token} {pieces : List Piece}
    (receiver : Reaches .assignment ts e) (hname : name.kind = .identifier)
    (hcolon : colon.kind = .colon) (argument : Reaches .assignment first value)
    (marks : ∀ p ∈ pieces, p.mark.WellFormed)
    (each : ∀ p ∈ pieces, Reaches .assignment p.body p.value)
    (hk : closing.kind = .rightBracket)
    (hs : s.rest = opening :: (ts ++ name :: colon ::
      (first ++ (pieces.flatMap Piece.tokens ++ closing :: us)))) :
    Yields (message (expressionFrom fuel))
      (.message e (name.text ++ ":" ++ selectorOf pieces)
        (⟨none, value⟩ :: pieces.map Piece.argument))
      (opening :: (ts ++ name :: colon :: (first ++ pieces.flatMap Piece.tokens ++ [closing])))
      us s := by
  unfold message
  refine ends_bind.mpr ((Yields.advance hs).ends ?_)
  refine ends_bind.mpr ((receiver.inner (.of_cons (by rw [hname]; decide) _) rfl).ends ?_)
  refine ends_bind.mpr ((Yields.identifier _ hname rfl).ends ?_)
  refine ends_bind.mpr ((Yields.eat hcolon rfl).ends ?_)
  refine ends_ite.mpr ⟨fun _ => ?_, fun h => absurd rfl h⟩
  refine ends_bind.mpr ((argument.inner (closes_pieces marks hk) rfl).ends ?_)
  refine ends_bind.mpr (ends_state.mpr (ends_bind.mpr ?_))
  refine (messageArguments_yields marks each hk _ _ _ _ rfl).ends ?_
  refine ends_bind.mpr ((Yields.expect _ hk rfl).ends (ends_pure.mpr ⟨?_, ?_⟩))
  · simp
  · simp

/-! ## Operands -/

section Operands

variable {fuel : Nat} {s : ReadState} {t : Token}

/-- The strings up to a token that is none are read as one literal. -/
theorem strings_yields (kinds : ∀ t ∈ ts, t.kind = .stringLiteral)
    (hus : kindOf us ≠ .stringLiteral) (hs : s.rest = ts ++ us) :
    Yields strings (.string (String.join (ts.map fun t => unquoted t.text))) ts us s := by
  have hread : s.readWhile (fun ts => kindOf ts == .stringLiteral) = s.past ts us := by
    refine ReadState.readWhile_of_append hs (fun t ht _ => ?_) (Or.inr ?_)
    · rw [ReadState.kindOf_cons, kinds t ht]
      rfl
    · exact beq_false_of_ne hus
  unfold strings
  refine ends_bind.mpr (ends_state.mpr (ends_bind.mpr (ends_modify.mpr ?_)))
  refine ends_bind.mpr (ends_state.mpr (ends_pure.mpr ⟨?_, hread⟩))
  rw [hread, ReadState.past_position, Nat.add_sub_cancel, hs, List.take_left]

/-- A literal of one token is read with its text. -/
theorem operand_yields_literal {value : ObjcLiteral}
    (hvalue : t.kind = .intLiteral ∧ value = .int t.text ∨
      t.kind = .floatLiteral ∧ value = .float t.text ∨
      t.kind = .charLiteral ∧ value = .char (unquoted t.text)) (hs : s.rest = t :: us) :
    Yields (operand (expressionFrom fuel)) (.literal value) [t] us s := by
  have hc := ReadState.current_of_cons hs
  have htext := ReadState.currentText_of_cons hs
  unfold operand
  refine ends_bind.mpr (ends_state.mpr ?_)
  rcases hvalue with ⟨hk, rfl⟩ | ⟨hk, rfl⟩ | ⟨hk, rfl⟩
  all_goals
    rw [hc, hk, htext]
    exact ends_bind.mpr ((Yields.advance hs).ends (ends_pure.mpr ⟨rfl, rfl⟩))

theorem operand_yields_strings (nonempty : ts ≠ []) (kinds : ∀ t ∈ ts, t.kind = .stringLiteral)
    (hus : kindOf us ≠ .stringLiteral) (hs : s.rest = ts ++ us) :
    Yields (operand (expressionFrom fuel))
      (.literal (.string (String.join (ts.map fun t => unquoted t.text)))) ts us s := by
  have hc : s.current = .stringLiteral := by
    cases ts with
    | nil => exact absurd rfl nonempty
    | cons t ts => exact (ReadState.current_of_cons hs).trans (kinds t List.mem_cons_self)
  unfold operand
  refine ends_bind.mpr (ends_state.mpr ?_)
  rw [hc]
  exact ends_bind.mpr ((strings_yields kinds hus hs).ends (ends_pure.mpr ⟨rfl, rfl⟩))

/-- A word that is no `sizeof` is read as the literal that it stands for, or as a name. -/
theorem operand_yields_word (hk : t.kind = .identifier) (hs : s.rest = t :: us)
    (he : (∃ value, literalWord? t.text = some value ∧ e = .literal value) ∨
      literalWord? t.text = none ∧ t.text ≠ "sizeof" ∧ e = .ident t.text) :
    Yields (operand (expressionFrom fuel)) e [t] us s := by
  unfold operand
  refine ends_bind.mpr (ends_state.mpr ?_)
  rw [ReadState.current_of_cons hs, hk]
  simp only [unaryOf?]
  unfold word
  refine ends_bind.mpr (ends_state.mpr ?_)
  rw [ReadState.currentText_of_cons hs]
  simp only []
  rcases he with ⟨value, hvalue, rfl⟩ | ⟨hnone, hsizeof, rfl⟩
  · rw [hvalue]
    exact ends_bind.mpr ((Yields.advance hs).ends (ends_pure.mpr ⟨rfl, rfl⟩))
  · rw [hnone]
    refine ends_ite.mpr ⟨fun h => absurd h hsizeof, fun _ => ?_⟩
    exact ends_bind.mpr ((Yields.advance hs).ends (ends_pure.mpr ⟨rfl, rfl⟩))

/-- A sign is read with the operand behind it. -/
theorem operand_yields_unary {op : ObjcUnary} (hop : (t.kind, op) ∈ signs)
    (he : Reaches .signed ts e) (hstops : Stops unaryPower us)
    (hstring : kindOf us ≠ .stringLiteral) (hs : s.rest = t :: (ts ++ us)) :
    Yields (operand (expressionFrom fuel)) (.unary op e) (t :: ts) us s := by
  unfold operand
  refine ends_bind.mpr (ends_state.mpr ?_)
  rw [ReadState.current_of_cons hs, unaryOf_iff.mpr hop]
  refine ends_bind.mpr ((Yields.advance hs).ends (ends_bind.mpr ?_))
  refine (he.yields (Nat.le_refl _) (Nat.le_refl _) hstops hstring rfl).ends ?_
  exact ends_pure.mpr ⟨rfl, ReadState.past_past⟩

/-- A bracket in front of an operand opens a message. -/
theorem operand_yields_message {front : List Token} (hk : t.kind = .leftBracket)
    (hs : s.rest = t :: us) (h : Yields (message (expressionFrom fuel)) e front ts s) :
    Yields (operand (expressionFrom fuel)) e front ts s := by
  unfold operand
  refine ends_bind.mpr (ends_state.mpr ?_)
  rw [ReadState.current_of_cons hs, hk]
  exact h

end Operands

/-! ## Operators -/

namespace Reaches

variable {ls rs : List Token} {l r : ObjcExpr} {t : Token}

theorem assign {op : ObjcAssign} (hl : Reaches .ternary ls l) (hop : (t.kind, op) ∈ assignments)
    (hr : Reaches .assignment rs r) : Reaches .assignment (ls ++ t :: rs) (.assign op l r) := by
  refine hl.join (jointOf_assign_iff.mpr hop) rfl (by decide) (by decide) (by decide) ?_
  intro fuel us s hstops hstring hs
  exact ends_bind.mpr ((hr.yields (by decide) (by decide) hstops hstring hs).ends
    (ends_pure.mpr ⟨rfl, rfl⟩))

theorem ternary {cs ys ns : List Token} {c y n : ObjcExpr} {question colon : Token}
    (hc : Reaches .or cs c) (hquestion : question.kind = .question)
    (hy : Reaches .assignment ys y) (hcolon : colon.kind = .colon) (hn : Reaches .ternary ns n) :
    Reaches .ternary (cs ++ question :: (ys ++ colon :: ns)) (.ternary c y n) := by
  refine hc.join (jointOf_ternary_iff.mpr hquestion) rfl (by decide) (by decide) (by decide) ?_
  intro fuel us s hstops hstring hs
  rw [List.append_assoc] at hs
  refine ends_bind.mpr ((hy.inner (.of_cons (by rw [hcolon]; decide) _) hs).ends ?_)
  refine ends_bind.mpr ((Yields.expect _ hcolon rfl).ends (ends_bind.mpr ?_))
  refine (hn.yields (by decide) (by decide) hstops hstring rfl).ends (ends_pure.mpr ⟨rfl, ?_⟩)
  rw [ReadState.past_past, ReadState.past_past]
  rfl

theorem binary {op : ObjcBinary} (hl : Reaches rung ls l) (hop : (t.kind, op) ∈ rung.operators)
    (hr : Reaches rung.tighter rs r) : Reaches rung (ls ++ t :: rs) (.binary op l r) := by
  obtain ⟨hj, hpowers⟩ := jointOf_of_operators hop
  obtain ⟨hsucc, hright⟩ := Rung.right_of_operators hop
  have hne : rung ≠ .suffixed := by
    rintro rfl
    cases hop
  refine hl.join hj hpowers (Nat.le_refl _) (by rw [hsucc]; exact Nat.lt_succ_self _) hne ?_
  intro fuel us s hstops hstring hs
  unfold joined
  rw [hpowers]
  exact ends_bind.mpr ((hr.yields hright (Rung.right_le_tighter _) hstops hstring hs).ends
    (ends_pure.mpr ⟨rfl, rfl⟩))

/-! ## Suffixes -/

theorem member {mark name : Token} {arrow : Bool} (h : Reaches .suffixed ts e)
    (hmark : (mark.kind, arrow) ∈ accesses) (hname : name.kind = .identifier) :
    Reaches .suffixed (ts ++ [mark, name]) (.member e name.text arrow) := by
  have hall : ∀ p ∈ accesses, isSuffix p.1 = true := by decide
  refine h.suffix (hall _ hmark) fun fuel power us s hs => ?_
  have hkind : mark.kind = .dot ∧ arrow = false ∨ mark.kind = .arrow ∧ arrow = true := by
    simpa [accesses] using hmark
  rcases hkind with ⟨hk, rfl⟩ | ⟨hk, rfl⟩
  all_goals
    rw [hk]
    refine ⟨_, rfl, ends_bind.mpr ((Yields.advance hs).ends (ends_bind.mpr ?_))⟩
    refine (Yields.identifier _ hname rfl).ends (ends_pure.mpr ⟨rfl, ?_⟩)
    rw [ReadState.past_past]
    rfl

theorem call {inner : List Token} {opening closing : Token}
    {arguments : List (List Token × ObjcExpr)} (h : Reaches .suffixed ts e)
    (hopening : opening.kind = .leftParen)
    (each : ∀ a ∈ arguments, Derives .assignment a.1 a.2 ∧ Reaches .assignment a.1 a.2)
    (hcommas : Commas (arguments.map Prod.fst) inner) (hclosing : closing.kind = .rightParen) :
    Reaches .suffixed (ts ++ opening :: (inner ++ [closing]))
      (.call e (arguments.map Prod.snd)) := by
  refine h.suffix (by rw [hopening]; rfl) fun fuel power us s hs => ?_
  rw [List.append_assoc] at hs
  rw [hopening]
  have hstarts : ∀ a ∈ arguments, ∃ t rest, a.1 = t :: rest ∧ t.kind ≠ .rightParen := by
    intro a ha
    obtain ⟨t, rest, hfront, ht, _⟩ := (each a ha).1.starts
    exact ⟨t, rest, hfront, ht⟩
  exact ⟨_, rfl, (callArguments_yields (fun a ha => (each a ha).2) hstarts hcommas hclosing hs).map _⟩

theorem subscript {inner : List Token} {index : ObjcExpr} {opening closing : Token}
    (h : Reaches .suffixed ts e) (hopening : opening.kind = .leftBracket)
    (hindex : Reaches .assignment inner index) (hclosing : closing.kind = .rightBracket) :
    Reaches .suffixed (ts ++ opening :: (inner ++ [closing])) (.subscript e index) := by
  refine h.suffix (by rw [hopening]; rfl) fun fuel power us s hs => ?_
  rw [List.append_assoc] at hs
  rw [hopening]
  refine ⟨_, rfl, ends_bind.mpr ((Yields.advance hs).ends (ends_bind.mpr ?_))⟩
  refine (hindex.inner (.of_cons (by rw [hclosing]; decide) _) rfl).ends (ends_bind.mpr ?_)
  refine (Yields.expect _ hclosing rfl).ends (ends_pure.mpr ⟨rfl, ?_⟩)
  rw [ReadState.past_past, ReadState.past_past]
  rfl

end Reaches

/-! ## Derivations -/

/-- What some tokens derive is reached in front of them. -/
theorem Derives.reaches (h : Derives rung ts e) : Reaches rung ts e := by
  induction h with
  | climb _ ih => exact ih.climb
  | assign _ mem _ ihl ihr => exact ihl.assign mem ihr
  | ternary _ hquestion _ hcolon _ ihc ihy ihn => exact ihc.ternary hquestion ihy hcolon ihn
  | binary _ mem _ ihl ihr => exact ihl.binary mem ihr
  | unary mem _ ih =>
    refine .of_operand fun fuel us s hfollows hstring hs => ?_
    exact operand_yields_unary mem ih (hfollows (by decide)) hstring hs
  | member _ mem hname ih => exact ih.member mem hname
  | call _ hopening each hcommas hclosing ih iheach =>
    exact ih.call hopening (fun a ha => ⟨each a ha, iheach a ha⟩) hcommas hclosing
  | subscript _ hopening _ hclosing ih ihi => exact ih.subscript hopening ihi hclosing
  | plainMessage hopening _ hname hclosing ih =>
    refine .of_operand fun fuel us s _ _ hs => ?_
    rw [List.cons_append, List.append_assoc] at hs
    refine operand_yields_message hopening hs (message_yields_plain hs ?_ hname hclosing)
    exact ih.inner (.of_cons (by rw [hname]; decide) _) rfl
  | message hopening _ hname hcolon _ hmarks _ hclosing ih ihv iheach =>
    refine .of_operand fun fuel us s _ _ hs => ?_
    have hs' := hs
    simp only [List.cons_append, List.append_assoc, List.nil_append] at hs
    exact operand_yields_message hopening hs
      (message_yields ih hname hcolon ihv hmarks iheach hclosing hs)
  | int hk =>
    exact .of_operand fun fuel us s _ _ hs => operand_yields_literal (.inl ⟨hk, rfl⟩) hs
  | float hk =>
    exact .of_operand fun fuel us s _ _ hs => operand_yields_literal (.inr (.inl ⟨hk, rfl⟩)) hs
  | char hk =>
    exact .of_operand fun fuel us s _ _ hs => operand_yields_literal (.inr (.inr ⟨hk, rfl⟩)) hs
  | strings hne hkinds =>
    exact .of_operand fun fuel us s _ hstring hs => operand_yields_strings hne hkinds hstring hs
  | word hk hword =>
    exact .of_operand fun fuel us s _ _ hs => operand_yields_word hk hs (.inl ⟨_, hword, rfl⟩)
  | name hk hword hsizeof =>
    exact .of_operand fun fuel us s _ _ hs =>
      operand_yields_word hk hs (.inr ⟨hword, hsizeof, rfl⟩)

end Grammar

end HeaderBridge
