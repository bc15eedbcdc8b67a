/-
  Text that is no member of a body costs one error and leaves one node. A run of tokens in which no
  member starts or ends is passed over with the semicolon behind it (`takesUnknown_of_inert`), and
  everything around it is read as it is without the run (`read_with_unknown_member`).
-/
import HeaderBridge.Proofs.Recovery.Insertion
import Mathlib.Data.List.Chain

namespace HeaderBridge

open ReadState (kindOf)
open Bare (bare)
open Rule

namespace Grammar

/-- Tokens in which no member starts and no declaration ends. -/
structure Inert (run : List Token) : Prop where
  directives : ∀ t ∈ run, t.kind.isAtKeyword = false
  semicolons : ∀ t ∈ run, t.kind ≠ .semicolon
  /-- No sign has a return type behind it. -/
  signs : run.IsChain fun t u => t.kind = .plus ∨ t.kind = .minus → u.kind ≠ .leftParen

theorem Inert.tail {t : Token} {run : List Token} (h : Inert (t :: run)) : Inert run :=
  ⟨fun u hu => h.directives u (List.mem_cons_of_mem t hu),
    fun u hu => h.semicolons u (List.mem_cons_of_mem t hu), h.signs.tail⟩

/-- No member starts in front of the semicolon. -/
theorem Inert.startsMember_eq_false {before after back : List Token} {t semi : Token}
    (h : Inert (before ++ t :: after)) (hsemi : semi.kind = .semicolon) :
    startsMember (t :: after ++ semi :: back) = false := by
  have ht : t ∈ before ++ t :: after := List.mem_append_right before List.mem_cons_self
  have hbehind : t.kind = .plus ∨ t.kind = .minus → kindOf (after ++ semi :: back) ≠ .leftParen := by
    intro hsign
    cases after with
    | nil =>
      rw [List.nil_append, ReadState.kindOf_cons, hsemi]
      decide
    | cons u after => exact (List.isChain_append_cons_cons.mp h.signs).2.1 hsign
  show (t.kind.isAtKeyword ||
    ((t.kind == .plus || t.kind == .minus) && kindOf (after ++ semi :: back) == .leftParen)) = false
  rw [h.directives t ht, Bool.false_or]
  by_cases hsign : t.kind = .plus ∨ t.kind = .minus
  · rw [beq_false_of_ne (hbehind hsign), Bool.and_false]
  · obtain ⟨hplus, hminus⟩ := not_or.mp hsign
    rw [beq_false_of_ne hplus, beq_false_of_ne hminus, Bool.or_false, Bool.false_and]

/-- A node from `start` reaches to the last token, if that is not in front of it. -/
theorem leafFrom_of_le (kind : NodeKind) {start : Nat} {s : ReadState} (h : start ≤ s.lastEnd) :
    leafFrom kind start s = leaf kind ⟨start, s.lastEnd, h⟩ s := by
  rw [leafFrom, bind_state, show Span.between start s.lastEnd = .ok ⟨start, s.lastEnd, h⟩ from
    dif_pos h]

theorem leafFrom_of_lt (kind : NodeKind) {start : Nat} {s : ReadState} (h : s.lastEnd < start) :
    leafFrom kind start s = .broken (.reversedSpan start s.lastEnd) := by
  rw [leafFrom, bind_state, show Span.between start s.lastEnd =
    .error (.reversedSpan start s.lastEnd) from dif_neg (Nat.not_le.mpr h)]
  rfl

/-- What comes of an unknown member: a node over its tokens, and an error at the first of them. -/
def LeavesUnknown (cause : SyntaxError.Cause) (tokens : List Token) (nodes : List Node)
    (errors : List SyntaxError) : Prop :=
  ∃ (id : Nat) (span : Span) (first : Token), nodes = [⟨id, .invalid, some span, []⟩] ∧
    Covers span tokens ∧ tokens.head? = some first ∧ errors = [⟨cause, first.span, true⟩]

/-- An unknown member at the state gets behind these tokens. -/
def TakesUnknown (cause : SyntaxError.Cause) (tokens back : List Token) (s : ReadState) : Prop :=
  (∃ fault, unknownMember cause s = .broken fault) ∨ ∃ t nodes es,
    unknownMember cause s = .done () t ∧ GetsTo back nodes es s t ∧ LeavesUnknown cause tokens nodes es

/-- An unknown member takes its first token with what the skipping behind it passes over. -/
theorem TakesUnknown.of_passed {cause : SyntaxError.Cause} {s : ReadState} {first : Token}
    {more back : List Token} {ate : Bool} (hrest : s.rest = first :: more ++ back)
    (hspeculating : s.speculating = false)
    (hpassed : eat .semicolon (((s.report (s.errorHere cause)).past [first] (more ++ back)).readWhile
      fun ts => !startsMember ts && kindOf ts != .semicolon) =
        .done ate ((s.report (s.errorHere cause)).past (first :: more) back)) :
    TakesUnknown cause (first :: more) back s := by
  let reported := s.report (s.errorHere cause)
  let behind := reported.past (first :: more) back
  have hmember : unknownMember cause s = leafFrom .invalid first.span.start behind := by
    have hadvance : reported.advance = reported.past [first] (more ++ back) :=
      ReadState.advance_of_cons (s := reported) hrest
    show (do
      modify (·.readWhile fun ts => !startsMember ts && kindOf ts != .semicolon)
      let _ ← eat .semicolon
      leafFrom .invalid reported.currentSpan.start : Rule Unit) reported.advance = _
    rw [hadvance, ReadState.currentSpan_of_cons (s := reported) hrest]
    exact bind_of_done hpassed
  have hrow : behind.passed = (first :: more).reverse ++ s.passed := rfl
  have hlast := ReadState.lastEnd_eq hrow (List.cons_ne_nil first more)
  by_cases hle : first.span.start ≤ behind.lastEnd
  · let span : Span := ⟨first.span.start, behind.lastEnd, hle⟩
    unfold TakesUnknown
    rw [hmember, leafFrom_of_le .invalid hle]
    rcases AgreeAt.leaf_cases .invalid span behind with ⟨fault, hr⟩ | ⟨nodes, hr, hgrows⟩
    · exact Or.inl ⟨fault, hr⟩
    · refine Or.inr ⟨_, _, _, hr, ⟨rfl, hspeculating, rfl, hgrows, ?_⟩, _, span, first, rfl,
        ⟨_, rfl, hlast⟩, rfl, rfl⟩
      show (s.errors.push _).toList = _
      rw [Array.toList_push]
      show s.errors.toList ++ [⟨cause, s.currentSpan, true⟩] = _
      rw [ReadState.currentSpan_of_cons hrest]
  · exact Or.inl ⟨_, hmember.trans (leafFrom_of_lt .invalid (Nat.not_le.mp hle))⟩

/-- An unknown member takes an inert run with the semicolon behind it. -/
theorem takesUnknown_of_inert {cause : SyntaxError.Cause} {s : ReadState} {first semi : Token}
    {run back : List Token} (hrest : s.rest = first :: run ++ semi :: back)
    (hspeculating : s.speculating = false) (hinert : Inert (first :: run))
    (hsemi : semi.kind = .semicolon) : TakesUnknown cause (first :: run ++ [semi]) back s := by
  let reported := s.report (s.errorHere cause)
  have hsplit : run ++ semi :: back = run ++ [semi] ++ back := List.append_cons run semi back
  have hskip : ((reported.past [first] (run ++ semi :: back)).readWhile fun ts =>
      !startsMember ts && kindOf ts != .semicolon) =
        reported.past (first :: run) (semi :: back) := by
    have hpast : (reported.past [first] (run ++ semi :: back)).rest = run ++ semi :: back := rfl
    refine (ReadState.readWhile_of_suffixes hpast (fun before t after hrun => ?_)
      (Or.inr ?_)).trans ReadState.past_past
    · subst hrun
      rw [hinert.tail.startsMember_eq_false hsemi]
      exact bne_iff_ne.mpr (hinert.tail.semicolons t (by simp))
    · rw [ReadState.kindOf_cons, hsemi]
      exact Bool.and_false _
  have heat : eat .semicolon (reported.past (first :: run) (semi :: back)) =
      .done true (reported.past (first :: (run ++ [semi])) back) := by
    unfold eat
    rw [if_pos (show ReadState.current (reported.past (first :: run) (semi :: back)) = .semicolon
      from hsemi), ReadState.advance_of_cons (s := reported.past (first :: run) (semi :: back)) rfl,
      ReadState.past_past]
    rfl
  have hpassed := (congrArg (eat .semicolon) hskip).trans heat
  rw [hsplit] at hpassed
  exact .of_passed (hrest.trans (congrArg (first :: ·) hsplit)) hspeculating hpassed

/-- What is neither a directive nor a sign starts an unknown member. -/
theorem memberRound_of_not_sync (cause : SyntaxError.Cause) (inProtocol : Bool) {kind : TokenKind}
    (h : isMemberSync kind = false) :
    endsBody kind = false ∧ memberRound cause inProtocol kind = unknownMember cause := by
  cases kind <;> first | exact ⟨rfl, rfl⟩ | cases h

theorem Leaves.of_takesUnknown {inProtocol : Bool} {first : Token} {more back : List Token}
    (hfirst : isMemberSync first.kind = false)
    (h : ∀ s : ReadState, s.rest = first :: more ++ back → s.speculating = false →
      TakesUnknown (memberCause inProtocol) (first :: more) back s) :
    Leaves inProtocol (first :: more) back
      (LeavesUnknown (memberCause inProtocol) (first :: more)) := by
  refine .of_round fun s hrest hspeculating => ?_
  obtain ⟨hends, hround⟩ := memberRound_of_not_sync (memberCause inProtocol) inProtocol hfirst
  rw [ReadState.current_of_cons hrest, hround]
  exact ⟨hends, h s hrest hspeculating⟩

theorem leaves_unknownMember {inProtocol : Bool} {first semi : Token} {run back : List Token}
    (hfirst : isMemberSync first.kind = false) (hinert : Inert (first :: run))
    (hsemi : semi.kind = .semicolon) : Leaves inProtocol (first :: run ++ [semi]) back
      (LeavesUnknown (memberCause inProtocol) (first :: run ++ [semi])) :=
  .of_takesUnknown hfirst fun _ hrest hspeculating => takesUnknown_of_inert
    (hrest.trans (List.append_cons (first :: run) semi back).symm) hspeculating hinert hsemi

end Grammar

open Grammar

/-- A run of tokens that starts with a name, and in which no member starts or ends, costs one error
    between the members of a body, at its first token. The tree is the tree without the run with one
    more node, which covers the run and the semicolon behind it. -/
theorem read_with_unknown_member {source source' : String} (log log' : DiagnosticLog)
    (origin origin' : Option String) {inProtocol : Bool} {front front' run back back' : List Token}
    {first semi : Token} (hsource : significant (tokenize source) = front ++ back)
    (hsource' : significant (tokenize source') =
      front' ++ (first :: run ++ semi :: back'))
    (hfront : front.map Token.face = front'.map Token.face)
    (hback : back.map Token.face = back'.map Token.face) (hplace : LeadsInto inProtocol front)
    (hnext : continuesHead back = false) (hfirst : first.kind = .identifier)
    (hinert : Inert (first :: run)) (hsemi : semi.kind = .semicolon) :
    ∃ h h' id span, Header.read source log origin = .ok h ∧
      Header.read source' log' origin' = .ok h' ∧
      Node.Inserted [⟨id, .invalid, some span, []⟩] h.root h'.root ∧
      Covers span (first :: run ++ [semi]) ∧ ∃ before after before' after',
        h.errors = before ++ after ∧
        h'.errors = before' ++ [⟨memberCause inProtocol, first.span, true⟩] ++ after' ∧
        before.map SyntaxError.cause = before'.map SyntaxError.cause ∧
        after.map SyntaxError.cause = after'.map SyntaxError.cause := by
  have hmiddle : first :: run ++ semi :: back' = first :: run ++ [semi] ++ back' := by simp
  rw [hmiddle] at hsource'
  have hnext' : continuesHead (first :: run ++ [semi] ++ back') = false := by
    unfold continuesHead
    rw [show kindOf (first :: run ++ [semi] ++ back') = .identifier from hfirst]
  obtain ⟨h, h', extra, es, hread, hread', hinserted, hleft, before, after, before', after', herrors,
    herrors', hcauses, hcauses'⟩ := inserted_read log log' origin origin' hsource hsource' hfront
      hback hplace hnext hnext' (leaves_unknownMember (by rw [hfirst]; rfl) hinert hsemi)
  obtain ⟨id, span, first', rfl, hcovers, hfirst', rfl⟩ := hleft
  obtain rfl : first = first' := Option.some.inj hfirst'
  exact ⟨h, h', id, span, hread, hread', hinserted, hcovers, before, after, before', after', herrors,
    herrors', hcauses, hcauses'⟩

set_option maxRecDepth 4096 in
/-- A sum between the mark of a section and its first method. -/
theorem read_with_unknown_member_sum :
    ∃ h h' id span, Header.read "@protocol P @optional -a; @end" = .ok h ∧
      Header.read "@protocol P @optional b+3; -a; @end" = .ok h' ∧
      Node.Inserted [⟨id, .invalid, some span, []⟩] h.root h'.root ∧
      Covers span [⟨.identifier, "b", ⟨22, 23, by decide⟩⟩, ⟨.plus, "+", ⟨23, 24, by decide⟩⟩,
        ⟨.intLiteral, "3", ⟨24, 25, by decide⟩⟩, ⟨.semicolon, ";", ⟨25, 26, by decide⟩⟩] ∧
      ∃ before after before' after', h.errors = before ++ after ∧
        h'.errors = before' ++ [⟨.protocolMember, ⟨22, 23, by decide⟩, true⟩] ++ after' ∧
        before.map SyntaxError.cause = before'.map SyntaxError.cause ∧
        after.map SyntaxError.cause = after'.map SyntaxError.cause := by
  let front : List Token := [⟨.atProtocol, "@protocol", ⟨0, 9, by decide⟩⟩,
    ⟨.identifier, "P", ⟨10, 11, by decide⟩⟩, ⟨.atOptional, "@optional", ⟨12, 21, by decide⟩⟩]
  let back : List Token := [⟨.minus, "-", ⟨22, 23, by decide⟩⟩,
    ⟨.identifier, "a", ⟨23, 24, by decide⟩⟩, ⟨.semicolon, ";", ⟨24, 25, by decide⟩⟩,
    ⟨.atEnd, "@end", ⟨26, 30, by decide⟩⟩]
  let back' : List Token := [⟨.minus, "-", ⟨27, 28, by decide⟩⟩,
    ⟨.identifier, "a", ⟨28, 29, by decide⟩⟩, ⟨.semicolon, ";", ⟨29, 30, by decide⟩⟩,
    ⟨.atEnd, "@end", ⟨31, 35, by decide⟩⟩]
  let run : List Token := [⟨.plus, "+", ⟨23, 24, by decide⟩⟩,
    ⟨.intLiteral, "3", ⟨24, 25, by decide⟩⟩]
  have hsource : significant (tokenize "@protocol P @optional -a; @end") = front ++ back := by cbv
  have hsource' : significant (tokenize "@protocol P @optional b+3; -a; @end") =
      front ++ (⟨.identifier, "b", ⟨22, 23, by decide⟩⟩ :: run ++
        ⟨.semicolon, ";", ⟨25, 26, by decide⟩⟩ :: back') := by
    cbv
  have hplace : LeadsInto true front :=
    ⟨⟨.atEnd, "@end", ⟨22, 26, by decide⟩⟩, _, rfl, .refl _, rfl, rfl, fun _ => by decide, _, rfl,
      rfl, rfl⟩
  exact read_with_unknown_member .empty .empty none none hsource hsource' rfl rfl hplace rfl rfl
    ⟨by decide, by decide, by decide⟩ rfl

end HeaderBridge
