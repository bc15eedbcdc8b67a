/-
  Types and modifiers inside a run of tokens that a semicolon ends. Whatever the tokens of the run
  are, a rule for types or for modifiers does not get past the semicolon, and it notes no error, as
  long as the run has no comma (`StaysInside`).
-/
import HeaderBridge.Proofs.Agreement.Rules

namespace HeaderBridge.Grammar

open ReadState (kindOf)
open Rule

/-- At the token no member starts or ends, and no list goes on. -/
structure Plain (t : Token) : Prop where
  sync : isMemberSync t.kind = false
  semicolon : t.kind ≠ .semicolon
  comma : t.kind ≠ .comma

/-- The parser stands in a run of plain tokens in front of a semicolon. It has noted the errors of
    an earlier one. -/
structure Inside (semi : Token) (back : List Token) (base s : ReadState) : Prop where
  rest : ∃ left, s.rest = left ++ semi :: back ∧ ∀ t ∈ left, Plain t
  errors : s.errors = base.errors
  speculating : s.speculating = base.speculating
  inOptional : s.inOptional = base.inOptional

variable {semi : Token} {back : List Token} {base s t : ReadState}

namespace Inside

theorem nodes (h : Inside semi back base s) (nodes : NodeStack) :
    Inside semi back base { s with nodes } := ⟨h.rest, h.errors, h.speculating, h.inOptional⟩

theorem current_ne (h : Inside semi back base s) (hsemi : semi.kind = .semicolon) :
    s.current ≠ .comma ∧ s.current ≠ .endOfFile := by
  obtain ⟨left, hrest, hleft⟩ := h.rest
  cases left with
  | nil =>
    rw [ReadState.current_of_cons hrest, hsemi]
    decide
  | cons x left =>
    have hx := hleft x List.mem_cons_self
    rw [ReadState.current_of_cons hrest]
    refine ⟨hx.comma, fun hfile => ?_⟩
    have hsync := hx.sync
    rw [hfile] at hsync
    cases hsync

/-- In front of the semicolon one more token may be read. -/
theorem advance (h : Inside semi back base s) (hsemi : semi.kind = .semicolon)
    (hne : s.current ≠ .semicolon) : Inside semi back base s.advance := by
  obtain ⟨left, hrest, hleft⟩ := h.rest
  cases left with
  | nil => exact absurd ((ReadState.current_of_cons hrest).trans hsemi) hne
  | cons x left =>
    rw [ReadState.advance_of_cons hrest]
    exact ⟨⟨left, rfl, fun u hu => hleft u (List.mem_cons_of_mem x hu)⟩, h.errors, h.speculating,
      h.inOptional⟩

theorem split (h : Inside semi back base s) (hsemi : semi.kind = .semicolon)
    (hsplit : s.splitShiftRight = .ok t) : Inside semi back base t := by
  rcases ReadState.splitShiftRight_cases hsplit with ⟨_, rfl⟩ | ⟨x, a, b, rest, hr, hv, rfl⟩
  · exact h
  obtain ⟨left, hrest, hleft⟩ := h.rest
  rw [hr] at hrest
  cases left with
  | nil =>
    obtain ⟨rfl, _⟩ := List.cons.inj hrest
    rw [hv.kind] at hsemi
    cases hsemi
  | cons y left =>
    obtain ⟨_, rfl⟩ := List.cons.inj hrest
    refine ⟨⟨a :: b :: left, rfl, fun u hu => ?_⟩, h.errors, h.speculating, h.inOptional⟩
    have greater : ∀ {t : Token}, t.kind = .greater → Plain t := fun ht =>
      ⟨by rw [ht]; rfl, by rw [ht]; decide, by rw [ht]; decide⟩
    rcases List.mem_cons.mp hu with rfl | hu
    · exact greater hv.first_kind
    rcases List.mem_cons.mp hu with rfl | hu
    · exact greater hv.second_kind
    · exact hleft u (List.mem_cons_of_mem y hu)

/-- Tokens may be passed over that are no semicolons. -/
theorem readWhile (h : Inside semi back base s) (hsemi : semi.kind = .semicolon)
    {go : List Token → Bool} (hgo : ∀ ts, kindOf ts = .semicolon → go ts = false) :
    Inside semi back base (s.readWhile go) := by
  obtain ⟨left, hrest, hleft⟩ := h.rest
  obtain ⟨front, rest, hr, he, hfront, _⟩ := ReadState.Reads.readWhile_spec go s
  rw [he]
  refine ⟨?_, h.errors, h.speculating, h.inOptional⟩
  rw [hrest] at hr
  -- What is passed over ends inside the run, since the semicolon is not passed over.
  rcases List.append_eq_append_iff.mp hr with ⟨more, hmore, hback⟩ | ⟨more, hmore, hback⟩
  · cases more with
    | nil => exact ⟨[], hback.symm, fun u hu => by cases hu⟩
    | cons x more =>
      obtain ⟨rfl, rfl⟩ := List.cons.inj hback
      have hpassed := hfront left semi more hmore
      rw [hgo (semi :: more ++ rest) hsemi] at hpassed
      cases hpassed
  · exact ⟨more, hback, fun u hu => hleft u (by rw [hmore]; exact List.mem_append_right front hu)⟩

end Inside

/-- Inside of a run the rule does not leave it, whether it succeeds or fails. -/
def StaysInside {α : Type} (semi : Token) (back : List Token) (base : ReadState) (r : Rule α) :
    Prop :=
  ∀ s, Inside semi back base s →
    Ends True r s (fun _ t => Inside semi back base t) fun _ t => Inside semi back base t

namespace StaysInside

variable {α β : Type}

theorem pure (a : α) : StaysInside semi back base (pure a) := fun _ h => h

theorem bind {r : Rule β} {f : β → Rule α} (h : StaysInside semi back base r)
    (hf : ∀ b, StaysInside semi back base (f b)) : StaysInside semi back base (r >>= f) :=
  fun s hs => ends_bind.mpr ((h s hs).mono (fun b t ht => hf b t ht) fun _ _ ht => ht)

theorem map {r : Rule β} (f : β → α) (h : StaysInside semi back base r) :
    StaysInside semi back base (f <$> r) := h.bind fun b => .pure (f b)

theorem state {f : ReadState → Rule α}
    (h : ∀ s, StaysInside semi back base (f s)) : StaysInside semi back base (Rule.state >>= f) :=
  fun s hs => h s s hs

theorem ite {c : Prop} [Decidable c] {r r' : Rule α} (h : StaysInside semi back base r)
    (h' : StaysInside semi back base r') : StaysInside semi back base (if c then r else r') := by
  split
  · exact h
  · exact h'

theorem breakWith (fault : Fault) : StaysInside semi back base (breakWith fault : Rule α) :=
  fun _ _ => trivial

/-! ## Tokens and nodes -/

theorem eat (hsemi : semi.kind = .semicolon) {kind : TokenKind} (hkind : kind ≠ .semicolon) :
    StaysInside semi back base (eat kind) := fun _ hs =>
  ends_eat.mpr ⟨fun hc => hs.advance hsemi (by rw [hc]; exact hkind), fun _ => hs⟩

theorem expect (hsemi : semi.kind = .semicolon) {kind : TokenKind} (hkind : kind ≠ .semicolon)
    (cause : SyntaxError.Cause) : StaysInside semi back base (expect kind cause) := fun _ hs =>
  ends_expect.mpr ⟨fun hc => hs.advance hsemi (by rw [hc]; exact hkind), fun _ => hs⟩

theorem identifier (hsemi : semi.kind = .semicolon) (cause : SyntaxError.Cause) :
    StaysInside semi back base (identifier cause) := fun _ hs =>
  ends_identifier.mpr ⟨fun hc => hs.advance hsemi (by rw [hc]; decide), fun _ => hs⟩

theorem leaf (kind : NodeKind) (span : Span) : StaysInside semi back base (leaf kind span) :=
  fun _ hs => ends_leaf.mpr fun nodes _ => hs.nodes nodes

theorem leafFrom (kind : NodeKind) (start : Nat) :
    StaysInside semi back base (leafFrom kind start) := by
  refine .state fun s => ?_
  cases Span.between start s.lastEnd with
  | error fault => exact .breakWith fault
  | ok span => exact .leaf kind span

theorem withNode {kind : NodeKind} {r : Rule α} (h : StaysInside semi back base r) :
    StaysInside semi back base (withNode kind r) := by
  intro s hs
  refine ends_withNode (h _ (hs.nodes _)) (fun _ t u ht hclose => ?_) fun _ t u ht hclose => ?_
  · obtain ⟨_, _, _, _, _, _, _, rfl⟩ := closeNode_cases hclose
    exact ht.nodes _
  · obtain ⟨_, _, _, _, _, _, _, rfl⟩ := closeNode_cases hclose
    exact ht.nodes _

/-! ## Lists -/

theorem delimiter (hsemi : semi.kind = .semicolon) (shown : Bool) {kind : TokenKind}
    (hkind : kind ≠ .semicolon) (cause : SyntaxError.Cause) :
    StaysInside semi back base (delimiter shown kind cause) :=
  (expect hsemi hkind cause).bind fun span => .ite (.leaf _ span) (.pure ())

theorem splitCloser (hsemi : semi.kind = .semicolon) (closing : TokenKind) :
    StaysInside semi back base (splitCloser closing) := by
  unfold Rule.splitCloser
  exact .ite (fun s hs => ends_modifyOrBreak.mpr fun t hsplit => hs.split hsemi hsplit) (.pure ())

/-- Without a comma no item is due behind the last one. -/
theorem listItems (hsemi : semi.kind = .semicolon) {shown : Bool} {closing : TokenKind}
    {item : Rule α} (hitem : StaysInside semi back base item) (fuel : Nat) (items : Array α)
    (s : ReadState) (hs : Inside semi back base s) :
    Ends True (listItems shown closing item fuel false items) s
      (fun found t => found.2 = false ∧ Inside semi back base t)
      fun _ t => Inside semi back base t := by
  cases fuel with
  | zero => trivial
  | succ fuel =>
    unfold Rule.listItems
    refine ends_bind.mpr ((splitCloser hsemi closing s hs).mono (fun _ s₁ h₁ => ?_) fun _ _ h => h)
    refine ends_bind.mpr (ends_state.mpr (ends_ite.mpr ⟨fun _ => ⟨rfl, h₁⟩, fun _ => ?_⟩))
    refine ends_bind.mpr ((hitem s₁ h₁).mono (fun a s₂ h₂ => ?_) fun _ _ h => h)
    refine ends_bind.mpr (ends_state.mpr (ends_ite.mpr ⟨fun hcomma => ?_, fun _ => ⟨rfl, h₂⟩⟩))
    exact absurd hcomma (h₂.current_ne hsemi).1

theorem list (hsemi : semi.kind = .semicolon) {shown : Bool} {opening closing : TokenKind}
    {item : Rule α} (hopening : opening ≠ .semicolon) (hclosing : closing ≠ .semicolon)
    (hitem : StaysInside semi back base item) :
    StaysInside semi back base (list shown opening closing item) := by
  have last : ∀ items : Array α, StaysInside semi back base (AgreeAt.listEnd shown closing items) :=
    fun items => (splitCloser hsemi closing).bind fun _ =>
      (delimiter hsemi shown hclosing _).bind fun _ => .pure items.toList
  unfold Rule.list
  refine (delimiter hsemi shown hopening _).bind fun _ => .state fun s t ht => ?_
  refine ends_bind.mpr ((listItems hsemi hitem _ _ t ht).mono (fun found u hu => ?_) fun _ _ h => h)
  obtain ⟨items, due⟩ := found
  obtain ⟨rfl, hu⟩ := hu
  exact last items u hu

/-! ## Types -/

theorem qualifiers (hsemi : semi.kind = .semicolon) : StaysInside semi back base qualifiers := by
  refine .state fun s t ht => ends_bind.mpr (ends_modify.mpr (ends_bind.mpr (ends_state.mpr ?_)))
  refine ht.readWhile hsemi fun ts hts => ?_
  cases ts with
  | nil => rfl
  | cons x ts =>
    show (x.kind == .identifier && _) = false
    rw [show x.kind = .semicolon from hts]
    rfl

/-- The words of a name are words. -/
theorem foldl_advance_nameWords (hsemi : semi.kind = .semicolon) (ts : List Token) :
    ∀ (last : String) (s : ReadState), s.rest = ts → Inside semi back base s →
      Inside semi back base ((nameWords last ts).foldl (fun s _ => s.advance) s) := by
  induction ts with
  | nil => exact fun _ _ _ h => h
  | cons x ts ih =>
    intro last s hrest h
    unfold nameWords
    split
    · next hword =>
      simp only [Bool.and_eq_true, beq_iff_eq] at hword
      have hcurrent : s.current = .identifier := (ReadState.current_of_cons hrest).trans hword.1.2
      refine ih x.text s.advance ?_ (h.advance hsemi (by rw [hcurrent]; decide))
      rw [ReadState.advance_of_cons hrest]
      rfl
    · exact h

theorem baseName (hsemi : semi.kind = .semicolon) : StaysInside semi back base baseName := by
  refine (identifier hsemi _).bind fun first s hs => ?_
  exact foldl_advance_nameWords hsemi s.rest first.name s rfl hs

theorem stars (hsemi : semi.kind = .semicolon) (fuel : Nat) :
    ∀ type found, StaysInside semi back base (stars fuel type found) := by
  induction fuel with
  | zero => exact fun _ _ => .breakWith .exhausted
  | succ fuel ih =>
    intro type found
    unfold Grammar.stars
    exact (eat hsemi (by decide)).bind fun star =>
      .ite ((qualifiers hsemi).bind fun behind => ih _ _) (.pure _)

theorem objcType (hsemi : semi.kind = .semicolon) (fuel : Nat) :
    StaysInside semi back base (objcType fuel) := by
  induction fuel with
  | zero => exact .breakWith .exhausted
  | succ fuel ih =>
    have hnext : ∀ type : ObjcType, StaysInside semi back base (do
        let type ← Pure.pure type
        Grammar.stars ((← Rule.state).weight + 1) type none) := fun type =>
      (pure type).bind fun type => .state fun s => stars hsemi _ type none
    unfold Grammar.objcType
    refine (baseName hsemi).bind fun name => .state fun s => .ite (.ite ?_ ?_) (hnext _)
    · exact (list hsemi (by decide) (by decide) ((identifier hsemi _).map _)).bind fun _ => hnext _
    · refine (list hsemi (by decide) (by decide) ?_).bind fun _ => hnext _
      exact (qualifiers hsemi).bind fun _ => ih.bind fun found => .pure found.1

theorem failingAs {r : Rule α} (h : StaysInside semi back base r) (cause : SyntaxError.Cause) :
    StaysInside semi back base (failingAs cause r) := by
  intro s hs
  have hr := h s hs
  unfold Ends at hr ⊢
  unfold Grammar.failingAs
  cases hc : r s with
  | done a t => rw [hc] at hr; exact hr
  | failed e t => rw [hc] at hr; exact hr
  | broken fault => trivial

theorem typeName (hsemi : semi.kind = .semicolon) : StaysInside semi back base typeName := by
  refine .state fun s => (qualifiers hsemi).bind fun inFront => .state fun s₁ => ?_
  refine ((objcType hsemi _).failingAs _).bind fun (type, behind) => .state fun s₂ => ?_
  cases Span.between s.currentSpan.start s₂.lastEnd with
  | error fault => exact .breakWith fault
  | ok span => exact .pure _

/-! ## Modifiers -/

theorem propertyModifier (hsemi : semi.kind = .semicolon) :
    StaysInside semi back base propertyModifier := by
  have last : ∀ (name : Ident) (value : Option String), StaysInside semi back base (do
      let value ← Pure.pure value
      Rule.leafFrom (.modifier ⟨name.name, value⟩) name.span.start) := fun name value =>
    (pure value).bind fun value => .leafFrom _ _
  refine (identifier hsemi _).bind fun name => (eat hsemi (by decide)).bind fun eq => ?_
  refine .ite ((identifier hsemi _).bind fun accessor => ?_) (last name none)
  exact (eat hsemi (by decide)).bind fun colon => last name _

theorem modifierList (hsemi : semi.kind = .semicolon) :
    StaysInside semi back base modifierList :=
  .withNode ((list hsemi (by decide) (by decide) (propertyModifier hsemi)).bind fun _ => .pure ())

end StaysInside

end HeaderBridge.Grammar
