/-
  Places in the bodies of declarations. A row of tokens opens a body if it is a declaration that is
  read without errors to the `@end` at the end of the row. What stands before the `@end` is then read
  in the same way in front of anything, and the loop over members goes on there (`Opens.resumes`).
-/
import HeaderBridge.Proofs.Agreement.Members

namespace HeaderBridge.Grammar

open ReadState (kindOf)
open Bare (bare)
open Rule

variable {tail : List Token}

/-! ## Heads -/

theorem protocolList_closesAt (s s' : ReadState) :
    ClosesAt tail protocolList protocolList s s' :=
  .withNode rfl <| (ClosesAt.list rfl (by decide) (by decide)
    (fun s s' => .identifier _ s s') _ _).bind fun _ _ s₁ s₁' h =>
      .setKind (congrArg NodeKind.protocolList h) s₁ s₁'

theorem optionalProtocolList_carriesAt (htail : kindOf tail ≠ .less) (s s' : ReadState) :
    CarriesAt tail optionalProtocolList optionalProtocolList s s' := by
  have hkeeps : Keeping protocolList s := keeping_of_agreeAt (protocolList_agreeAt s s)
  refine ⟨keeping_of_agreeAt (optionalProtocolList_agreeAt s s), fun halike a t hclean => ?_⟩
  obtain ⟨hdone, hrest, herrors⟩ := hclean
  have hiff := halike.current_iff htail (by decide)
  unfold optionalProtocolList at hdone ⊢
  by_cases hc : s.current = .less
  · rw [if_pos hc] at hdone
    rw [if_pos (hiff.mp hc)]
    unfold Keeping Ends at hkeeps
    cases hr : protocolList s with
    | broken fault => rw [hr] at hdone; cases hdone
    | failed e u =>
      -- A broken list is noted.
      rw [hr] at hdone hkeeps
      have heat : Keeping (do let _ ← eat .greater) ((u.report e).skipUntil fun kind =>
          kind == .greater || isMemberSync kind) :=
        keeping_of_agreeAt (AgreeAt.eatThenPure _ _ _)
      have hle := (heat.of_done hdone).errors
      have hle' := hkeeps.1.errors
      rw [errors_reportThenSkip hkeeps.2, herrors] at hle
      omega
    | done b u =>
      rw [hr] at hdone
      cases hdone
      rcases (protocolList_closesAt s s').carries halike _ t ⟨hr, hrest, herrors⟩ with
        ⟨fault, hr'⟩ | ⟨a', t', hr', hcarried⟩
      · rw [hr']
        exact Or.inl ⟨fault, rfl⟩
      · rw [hr']
        exact Or.inr ⟨a', t', rfl, hcarried⟩
  · rw [if_neg hc] at hdone
    cases hdone
    rw [if_neg fun h => hc (hiff.mpr h)]
    exact Or.inr ⟨(), s', rfl, rfl, halike, .refl _ s'⟩

theorem optionalSuperclass_carriesAt (htail : kindOf tail ≠ .colon) (s s' : ReadState) :
    CarriesAt tail optionalSuperclass optionalSuperclass s s' :=
  .state <| .ite (fun halike => halike.current_iff htail (by decide))
    (fun _ => (CarriesAt.punctuationHere s s').bind fun _ _ s₁ s₁' _ =>
      (CarriesAt.identifier _ s₁ s₁').bind fun _ _ s₂ s₂' h =>
      .leaf (congrArg NodeKind.superclassName h) _ _ s₂ s₂') fun _ => .pure rfl s s'

/-- The tokens could go on the head of a declaration, or make it a name only. -/
def continuesHead (ts : List Token) : Bool :=
  match kindOf ts with
  | .colon | .less | .leftBrace | .semicolon | .comma => true
  | _ => false

/-- The tokens could go on the head of a declaration. -/
def extendsHead (ts : List Token) : Bool :=
  match kindOf ts with
  | .colon | .less | .leftBrace => true
  | _ => false

/-- A class or a protocol up to its body. -/
def head : (inProtocol : Bool) → Rule Unit
  | false => do
    keywordHere
    let name ← identifier .className
    setKind (.classInterface (.valid name))
    optionalSuperclass
    optionalProtocolList
    variableBlock
  | true => do
    keywordHere
    let name ← identifier .protocolName
    setKind (.protocolDeclaration (.valid name))
    optionalProtocolList

theorem head_agreeAt (inProtocol : Bool) (s s' : ReadState) :
    AgreeAt none (head inProtocol) (head inProtocol) s s' := by
  cases inProtocol with
  | false =>
    exact (AgreeAt.keywordHere s s').bind fun _ _ s₁ s₁' _ =>
      (AgreeAt.identifier _ s₁ s₁').bind fun _ _ s₂ s₂' h =>
      (AgreeAt.setKind (congrArg (fun name => NodeKind.classInterface (.valid name)) h)
        s₂ s₂').bind fun _ _ s₃ s₃' _ =>
      (optionalSuperclass_agreeAt s₃ s₃').bind fun _ _ s₄ s₄' _ =>
      (optionalProtocolList_agreeAt s₄ s₄').bind fun _ _ s₅ s₅' _ => variableBlock_agreeAt s₅ s₅'
  | true =>
    exact (AgreeAt.keywordHere s s').bind fun _ _ s₁ s₁' _ =>
      (AgreeAt.identifier _ s₁ s₁').bind fun _ _ s₂ s₂' h =>
      (AgreeAt.setKind (congrArg (fun name => NodeKind.protocolDeclaration (.valid name)) h)
        s₂ s₂').bind fun _ _ s₃ s₃' _ => optionalProtocolList_agreeAt s₃ s₃'

theorem head_carriesAt (htail : extendsHead tail = false) (inProtocol : Bool)
    (s s' : ReadState) : CarriesAt tail (head inProtocol) (head inProtocol) s s' := by
  have hne : ∀ kind, (kind = .colon ∨ kind = .less ∨ kind = .leftBrace) → kindOf tail ≠ kind := by
    rintro kind hkind rfl
    unfold extendsHead at htail
    rcases hkind with h | h | h <;> rw [h] at htail <;> cases htail
  cases inProtocol with
  | false =>
    exact (CarriesAt.keywordHere s s').bind fun _ _ s₁ s₁' _ =>
      (CarriesAt.identifier _ s₁ s₁').bind fun _ _ s₂ s₂' h =>
      (CarriesAt.setKind (congrArg (fun name => NodeKind.classInterface (.valid name)) h)
        s₂ s₂').bind fun _ _ s₃ s₃' _ =>
      (optionalSuperclass_carriesAt (hne _ (by simp)) s₃ s₃').bind fun _ _ s₄ s₄' _ =>
      (optionalProtocolList_carriesAt (hne _ (by simp)) s₄ s₄').bind fun _ _ s₅ s₅' _ =>
      .optionalGroup (by decide) (by decide) (hne _ (by simp)) s₅ s₅'
  | true =>
    exact (CarriesAt.keywordHere s s').bind fun _ _ s₁ s₁' _ =>
      (CarriesAt.identifier _ s₁ s₁').bind fun _ _ s₂ s₂' h =>
      (CarriesAt.setKind (congrArg (fun name => NodeKind.protocolDeclaration (.valid name)) h)
        s₂ s₂').bind fun _ _ s₃ s₃' _ =>
      optionalProtocolList_carriesAt (hne _ (by simp)) s₃ s₃'

/-! ## Bodies -/

/-- What a member that is none is said to be missing. -/
def memberCause : (inProtocol : Bool) → SyntaxError.Cause
  | false => .classMember
  | true => .protocolMember

/-- What a body without an end is said to be missing. -/
def endCause : (inProtocol : Bool) → SyntaxError.Cause
  | false => .classEnd
  | true => .protocolEnd

/-- A declaration before anything of it is read. -/
def declaredKind : (inProtocol : Bool) → NodeKind
  | false => .classInterface .missing
  | true => .protocolDeclaration .missing

/-- A class or a protocol. -/
def declaration : (inProtocol : Bool) → Rule Unit
  | false => classInterface
  | true => protocolDeclaration

/-- A body from some place on, with its end. -/
def bodyFrom (inProtocol : Bool) (fuel : Nat) : Rule Unit := do
  memberList (memberCause inProtocol) inProtocol fuel
  modify fun s => { s with inOptional := false }
  keyword .atEnd (endCause inProtocol)

/-- The node of a class or a protocol, from its directive on. -/
def declarationParts (inProtocol : Bool) : Rule Unit := do
  head inProtocol
  bodyFrom inProtocol ((← state).weight + 1)

theorem declaration_eq (inProtocol : Bool) : declaration inProtocol =
    withNode (declaredKind inProtocol) (declarationParts inProtocol) := by
  cases inProtocol with
  | false =>
    unfold declaration declarationParts head classInterface body
    simp only [bind_assoc]
    rfl
  | true =>
    unfold declaration declarationParts head protocolDeclaration body
    simp only [bind_assoc]
    rfl

theorem bodyFrom_agreeAt (inProtocol : Bool) (fuel fuel' : Nat) (s s' : ReadState)
    {tail : Option (List Token)} :
    AgreeAt tail (bodyFrom inProtocol fuel) (bodyFrom inProtocol fuel') s s' :=
  (memberList_agreeAt _ _ _ _ s s').bind fun _ _ s₁ s₁' _ =>
    (AgreeAt.enter false s₁ s₁').bind fun _ _ s₂ s₂' _ => .expectLeaf _ _ _ s₂ s₂'

/-- Up to its last token the row leads into the body of a class or a protocol, to a place where a
    member or the end may stand: it is a whole declaration, which is read without errors
    (`Opens.of_spelling`). -/
structure Opens (inProtocol : Bool) (s : ReadState) : Prop where
  directive : s.current = if inProtocol then .atProtocol else .atInterface
  name : s.second = .identifier
  /-- A protocol is not only named. -/
  declares : inProtocol = true → s.third ≠ .semicolon ∧ s.third ≠ .comma
  reads : ∃ t, declaration inProtocol s = .done () t ∧ t.rest = [] ∧ t.errors = s.errors

/-- A directive that is read at the end of a row is its last token. -/
theorem exists_last_of_keyword {kind : TokenKind} {cause : SyntaxError.Cause} {s t : ReadState}
    (hdone : keyword kind cause s = .done () t) (hkind : kind ≠ .endOfFile) (hrest : t.rest = []) :
    ∃ last, s.rest = [last] := by
  obtain ⟨_, u, hexpect, hleaf⟩ := exists_of_bind hdone
  unfold expect at hexpect
  by_cases hc : s.current = kind
  · rw [if_pos hc] at hexpect
    cases hexpect
    obtain ⟨last, rest, hs, _⟩ := ReadState.exists_cons_of_current hc hkind
    rw [ReadState.advance_of_cons hs] at hleaf
    rcases AgreeAt.leaf_cases (.keyword kind) s.currentSpan (s.past [last] rest) with
      ⟨fault, hr⟩ | ⟨nodes, hr, _⟩
    · rw [hr] at hleaf
      cases hleaf
    · rw [hr] at hleaf
      cases hleaf
      exact ⟨last, by rw [hs, show rest = [] from hrest]⟩
  · rw [if_neg hc] at hexpect
    cases hexpect

/-- Its head and its members are read without errors up to the `@end`. -/
theorem Opens.cleanly {inProtocol : Bool} {s : ReadState} (h : Opens inProtocol s) :
    ∃ u t, Cleanly (head inProtocol)
        { s with nodes := s.nodes.begin (declaredKind inProtocol) } () u ∧
      Cleanly (memberList (memberCause inProtocol) inProtocol (u.weight + 1)) u () t ∧
      ∃ last, t.rest = [last] := by
  obtain ⟨w, hdone, hend, herrors⟩ := h.reads
  rw [declaration_eq] at hdone
  obtain ⟨v, hparts, hclose⟩ := done_of_withNode hdone
  obtain ⟨_, _, _, _, _, _, _, rfl⟩ := closeNode_cases hclose
  obtain ⟨_, u, hhead, hbody⟩ := exists_of_bind hparts
  obtain ⟨_, t, hmembers, hclosing⟩ := exists_of_bind
    (show bodyFrom inProtocol (u.weight + 1) u = .done () v from hbody)
  have hkeyword : keyword .atEnd (endCause inProtocol) { t with inOptional := false } =
    .done () v := hclosing
  obtain ⟨last, hlast⟩ := exists_last_of_keyword hkeyword (by decide) hend
  have hle := ((keeping_of_agreeAt (head_agreeAt inProtocol _ _)).of_done hhead).errors
  have hmember := (keeping_of_agreeAt (memberList_agreeAt (memberCause inProtocol) inProtocol
    (u.weight + 1) (u.weight + 1) u u)).of_done hmembers
  have hle' := hmember.errors
  have hle'' : t.errors.size ≤ v.errors.size :=
    ((keeping_of_agreeAt (AgreeAt.expectLeaf _ _ _ _ _)).of_done hkeyword).errors
  have hsize : v.errors.size = s.errors.size := congrArg Array.size herrors
  have ht : t.rest = [last] := hlast
  have hne : t.rest ≠ [] := by
    rw [ht]
    exact List.cons_ne_nil last []
  simp only [] at hle
  refine ⟨u, t, ⟨hhead, fun hnil => hne (hmember.nil hnil), ?_⟩, ⟨hmembers, hne, ?_⟩, last, ht⟩
  · show u.errors.size = s.errors.size
    omega
  · omega

/-- In front of anything the loop over members goes on at the place, with the same node open. -/
theorem Opens.resumes {inProtocol : Bool} {s₀ : ReadState} (h : Opens inProtocol s₀) :
    ∃ (node : Node) (inOptional : Bool), ∀ (s : ReadState) (tail : List Token),
      Alike (some tail) s₀ s → extendsHead tail = false →
      (∃ fault, declarationParts inProtocol
        { s with nodes := s.nodes.begin (declaredKind inProtocol) } = .broken fault) ∨
      ∃ (fuel : Nat) (t : ReadState) (n : Node), declarationParts inProtocol
          { s with nodes := s.nodes.begin (declaredKind inProtocol) } =
            bodyFrom inProtocol fuel t ∧
        t.rest = tail ∧ t.speculating = s.speculating ∧ t.inOptional = inOptional ∧
        t.errors = s.errors ∧ t.nodes.opened = n :: s.nodes.opened ∧ bare n = bare node := by
  obtain ⟨u₀, t₀, hhead, hmembers, last, hlast⟩ := h.cleanly
  let opened (s : ReadState) : ReadState :=
    { s with nodes := s.nodes.begin (declaredKind inProtocol) }
  refine ⟨t₀.nodes.opened.headD (s₀.nodes.fresh (declaredKind inProtocol)).1, t₀.inOptional,
    fun s tail halike htail => ?_⟩
  have halike : Alike (some tail) (opened s₀) (opened s) :=
    ⟨halike.facing, halike.speculating, halike.inOptional⟩
  rcases (head_carriesAt htail inProtocol _ _).carries halike () u₀ hhead with
    ⟨fault, hbroken⟩ | ⟨_, u, hdone, _, halike', hgain⟩
  · exact Or.inl ⟨fault, bind_of_broken hbroken⟩
  have hparts : declarationParts inProtocol (opened s) = bodyFrom inProtocol (u.weight + 1) u :=
    bind_of_done hdone
  rw [hparts]
  rcases memberList_resumes _ (u.weight + 1) u₀ u halike' hmembers hlast with
    ⟨fault, hbroken⟩ | ⟨more, t, heq, halike'', hgain'⟩
  · exact Or.inl ⟨fault, bind_of_broken hbroken⟩
  obtain ⟨⟨k, cs, k', cs', hgrows, hgrows', hk, hcs⟩, es, es', he, he', hes⟩ := hgain.trans hgain'
  have hopened₀ := hgrows (s₀.nodes.fresh (declaredKind inProtocol)).1 s₀.nodes.opened rfl
  have hopened := hgrows' (s.nodes.fresh (declaredKind inProtocol)).1 s.nodes.opened rfl
  refine Or.inr ⟨more, t, _, bind_congr heq, ?_, ?_, halike''.inOptional.symm, ?_, hopened, ?_⟩
  · -- The first row is at its last token, so nothing is left in common.
    obtain ⟨common, _, common', _, hrow, htail', hsame⟩ := halike''.facing
    rw [hlast] at hrow
    have hnil : common = [] := by
      cases common with
      | nil => rfl
      | cons _ common => simp at hrow
    rw [hnil] at hsame
    rw [htail', List.map_eq_nil_iff.mp hsame.symm, List.nil_append]
  · have hkeeps := (keeping_of_agreeAt (head_agreeAt inProtocol _ _)).of_done hhead.done
    have hkeeps' := (keeping_of_agreeAt (memberList_agreeAt (memberCause inProtocol) inProtocol
      (u₀.weight + 1) (u₀.weight + 1) u₀ u₀)).of_done hmembers.done
    rw [← halike''.speculating, hkeeps'.speculating, hkeeps.speculating]
    exact halike.speculating
  · have hsize : t₀.errors.size = s₀.errors.size := hmembers.errors.trans hhead.errors
    have hnil : es = [] := by
      have hlength := congrArg List.length he
      rw [List.length_append, Array.length_toList, Array.length_toList, hsize] at hlength
      exact List.length_eq_zero_iff.mp (Nat.left_eq_add.mp hlength)
    rw [hnil] at hes
    rw [List.map_eq_nil_iff.mp hes.symm, List.append_nil] at he'
    exact Array.ext' he'
  · rw [hopened₀]
    exact Node.bare_eq_iff.mpr ⟨(bare_getD hk rfl).symm, hcs.symm⟩

end HeaderBridge.Grammar
