/-
  A semicolon between the members of a body. An unknown member takes its first token whatever that
  is, and stops where a member starts (`TakesUnknown.of_startsMember`). So a semicolon in front of a
  directive, or of a sign with a return type, costs one error and leaves one node, and everything
  around it is read as without it (`read_with_stray_semicolon`). The place right behind the name of a
  protocol is none between members, since there the semicolon ends a forward declaration.
-/
import HeaderBridge.Proofs.Recovery.BrokenProperty

namespace HeaderBridge

open ReadState (kindOf)
open Rule

namespace Grammar

theorem isMemberSync_of_startsMember {ts : List Token} (h : startsMember ts = true) :
    isMemberSync (kindOf ts) = true := by
  cases ts with
  | nil => rfl
  | cons t ts =>
    unfold startsMember at h
    unfold isMemberSync
    rw [ReadState.kindOf_cons]
    grind

theorem startsMember_eq_of_faces {ts us : List Token} (h : ts.map Token.face = us.map Token.face) :
    startsMember ts = startsMember us :=
  (show Facing none ts us from h).startsMember_eq (not_ranOut_none ts)

/-- In front of the start of a member an unknown member takes one token. -/
theorem TakesUnknown.of_startsMember {cause : SyntaxError.Cause} {s : ReadState} {first : Token}
    {back : List Token} (hrest : s.rest = first :: back) (hspeculating : s.speculating = false)
    (hnext : startsMember back = true) : TakesUnknown cause [first] back s := by
  let behind := (s.report (s.errorHere cause)).past [first] back
  have hstops : behind.readWhile (fun ts => !startsMember ts && kindOf ts != .semicolon) =
      behind := by
    have hrow : behind.rest = [] ++ back := rfl
    exact ReadState.readWhile_of_suffixes hrow (by simp) (Or.inr (by rw [hnext]; rfl))
  have hcurrent : behind.current ≠ .semicolon := fun hsemi => by
    have hsync := isMemberSync_of_startsMember hnext
    rw [show kindOf back = .semicolon from hsemi] at hsync
    cases hsync
  have heat : eat .semicolon behind = .done false behind := if_neg hcurrent
  exact .of_passed hrest hspeculating ((congrArg (eat .semicolon) hstops).trans heat)

theorem leaves_semicolon {inProtocol : Bool} {semi : Token} {back : List Token}
    (hsemi : semi.kind = .semicolon) (hnext : startsMember back = true) :
    Leaves inProtocol [semi] back (LeavesUnknown (memberCause inProtocol) [semi]) :=
  .of_takesUnknown (by rw [hsemi]; rfl) fun _ hrest hspeculating =>
    .of_startsMember hrest hspeculating hnext

/-- The tokens lead to a place between the members of a body, and if that is the body of a protocol
    then more than its name stands in front of the place. -/
def LeadsPastName (inProtocol : Bool) (ts : List Token) : Prop :=
  ∃ (last : Token) (s : ReadState), last.kind = .atEnd ∧ ComesTo (before (ts ++ [last])) s ∧
    Opens inProtocol s ∧ (inProtocol = true → s.third ≠ .atEnd)

theorem KeepsHead.of_semicolon {inProtocol : Bool} {s : ReadState} {semi : Token} {ts : List Token}
    (hsemi : semi.kind = .semicolon) (hname : inProtocol = true → s.third ≠ .atEnd) :
    KeepsHead inProtocol s (semi :: ts) := by
  refine ⟨?_, fun hprotocol hthird => absurd hthird (hname hprotocol)⟩
  unfold extendsHead
  rw [ReadState.kindOf_cons, hsemi]

end Grammar

open Grammar

theorem Covers.eq_span {span : Span} {t : Token} (h : Covers span [t]) : span = t.span := by
  obtain ⟨_, hstart, hstop⟩ := h
  obtain ⟨start, stop, _⟩ := span
  obtain rfl : start = t.span.start := hstart
  obtain rfl : stop = t.span.stop := hstop
  rfl

/-- A semicolon between the members of a body costs one error, at the semicolon, if what follows it
    is a directive or a sign with a return type. The tree is the tree without the semicolon with one
    more node, which covers it. -/
theorem read_with_stray_semicolon {source source' : String} (log log' : DiagnosticLog)
    (origin origin' : Option String) {inProtocol : Bool} {front front' back back' : List Token}
    {semi : Token} (hsource : significant (tokenize source) = front ++ back)
    (hsource' : significant (tokenize source') = front' ++ semi :: back')
    (hfront : front.map Token.face = front'.map Token.face)
    (hback : back.map Token.face = back'.map Token.face) (hplace : LeadsPastName inProtocol front)
    (hnext : startsMember back = true) (hsemi : semi.kind = .semicolon) :
    ∃ h h' id, Header.read source log origin = .ok h ∧ Header.read source' log' origin' = .ok h' ∧
      Node.Inserted [⟨id, .invalid, some semi.span, []⟩] h.root h'.root ∧
      ∃ before after before' after', h.errors = before ++ after ∧
        h'.errors = before' ++ [⟨memberCause inProtocol, semi.span, true⟩] ++ after' ∧
        before.map SyntaxError.cause = before'.map SyntaxError.cause ∧
        after.map SyntaxError.cause = after'.map SyntaxError.cause := by
  obtain ⟨last, s, hlast, hcomes, hopens, hname⟩ := hplace
  have hhead := continuesHead_of_sync (isMemberSync_of_startsMember hnext)
  have hnext' : startsMember back' = true := by rwa [← startsMember_eq_of_faces hback]
  obtain ⟨h, h', extra, es, hread, hread', hinserted, hleft, before, after, before', after', herrors,
    herrors', hcauses, hcauses'⟩ := inserted_read_of_opens log log' origin origin' hsource hsource'
      hfront hback hlast hcomes hopens (.of_continuesHead hhead) (.of_semicolon hsemi hname)
      (leaves_semicolon hsemi hnext')
  obtain ⟨id, span, first, rfl, hcovers, hfirst, rfl⟩ := hleft
  obtain rfl : semi = first := Option.some.inj hfirst
  rw [hcovers.eq_span] at hinserted
  exact ⟨h, h', id, hread, hread', hinserted, before, after, before', after', herrors, herrors',
    hcauses, hcauses'⟩

set_option maxRecDepth 4096 in
/-- A semicolon between the mark of a section and its first method. -/
theorem read_with_stray_semicolon_behind_mark :
    ∃ h h' id, Header.read "@protocol P @optional -(int)a; @end" = .ok h ∧
      Header.read "@protocol P @optional ; -(int)a; @end" = .ok h' ∧
      Node.Inserted [⟨id, .invalid, some ⟨22, 23, by decide⟩, []⟩] h.root h'.root ∧
      ∃ before after before' after', h.errors = before ++ after ∧
        h'.errors = before' ++ [⟨.protocolMember, ⟨22, 23, by decide⟩, true⟩] ++ after' ∧
        before.map SyntaxError.cause = before'.map SyntaxError.cause ∧
        after.map SyntaxError.cause = after'.map SyntaxError.cause := by
  let front : List Token := [⟨.atProtocol, "@protocol", ⟨0, 9, by decide⟩⟩,
    ⟨.identifier, "P", ⟨10, 11, by decide⟩⟩, ⟨.atOptional, "@optional", ⟨12, 21, by decide⟩⟩]
  let back : List Token := [⟨.minus, "-", ⟨22, 23, by decide⟩⟩,
    ⟨.leftParen, "(", ⟨23, 24, by decide⟩⟩, ⟨.identifier, "int", ⟨24, 27, by decide⟩⟩,
    ⟨.rightParen, ")", ⟨27, 28, by decide⟩⟩, ⟨.identifier, "a", ⟨28, 29, by decide⟩⟩,
    ⟨.semicolon, ";", ⟨29, 30, by decide⟩⟩, ⟨.atEnd, "@end", ⟨31, 35, by decide⟩⟩]
  let back' : List Token := [⟨.minus, "-", ⟨24, 25, by decide⟩⟩,
    ⟨.leftParen, "(", ⟨25, 26, by decide⟩⟩, ⟨.identifier, "int", ⟨26, 29, by decide⟩⟩,
    ⟨.rightParen, ")", ⟨29, 30, by decide⟩⟩, ⟨.identifier, "a", ⟨30, 31, by decide⟩⟩,
    ⟨.semicolon, ";", ⟨31, 32, by decide⟩⟩, ⟨.atEnd, "@end", ⟨33, 37, by decide⟩⟩]
  have hsource : significant (tokenize "@protocol P @optional -(int)a; @end") = front ++ back := by
    cbv
  have hsource' : significant (tokenize "@protocol P @optional ; -(int)a; @end") =
      front ++ ⟨.semicolon, ";", ⟨22, 23, by decide⟩⟩ :: back' := by
    cbv
  have hplace : LeadsPastName true front :=
    ⟨⟨.atEnd, "@end", ⟨22, 26, by decide⟩⟩, _, rfl, .refl _, ⟨rfl, rfl, fun _ => by decide, _, rfl,
      rfl, rfl⟩, fun _ => by decide⟩
  exact read_with_stray_semicolon .empty .empty none none hsource hsource' rfl rfl hplace rfl rfl

/-- How many nodes there are below the open ones, and how many errors. -/
def nodesAndErrors (s : ReadState) : Nat × Nat :=
  ((s.nodes.opened.flatMap fun n => Node.sequenceAll n.children).length, s.errors.size)

theorem exists_read_of_nodesAndErrors {source : String} {row : List Token}
    (hrow : significant (tokenize source) = row) (nodes errors : Nat)
    (htest : isDoneWith (fun s => nodesAndErrors s == (nodes, errors))
      (header { before row with sourceLength := source.utf8ByteSize }) = true) :
    ∃ h, Header.read source = .ok h ∧ (Node.sequenceAll h.root.children).length = nodes ∧
      h.errors.length = errors := by
  obtain ⟨h, s, root, hread, hcount, hopened, hroot, herrors, _⟩ :=
    exists_read_of_isDoneWith hrow htest
  obtain ⟨hnodes, hsize⟩ := Prod.mk.inj (beq_iff_eq.mp hcount)
  rw [hopened, List.flatMap_singleton] at hnodes
  refine ⟨h, hread, ?_, herrors ▸ hsize⟩
  rw [hroot]
  exact hnodes

/-- The second source is the first one, which has no errors, with one more semicolon at a place of a
    body. It has some errors and no more nodes. -/
def LosesNodes (inProtocol : Bool) (source source' : String) (errors : Nat) : Prop :=
  ∃ (front back back' : List Token) (semi : Token) (h h' : Header),
    significant (tokenize source) = front ++ back ∧
    significant (tokenize source') = front ++ semi :: back' ∧
    back.map Token.face = back'.map Token.face ∧ LeadsInto inProtocol front ∧
    semi.kind = .semicolon ∧ Header.read source = .ok h ∧ h.errors = [] ∧
    Header.read source' = .ok h' ∧ h'.errors.length = errors ∧
    (Node.sequenceAll h'.root.children).length < (Node.sequenceAll h.root.children).length

set_option maxRecDepth 4096 in
/-- Behind the name of a protocol a semicolon makes the body text that is no part of a declaration.
    In front of a method without a return type it takes the method with it. -/
theorem exists_semicolon_losing_nodes :
    LosesNodes true "@protocol P @property int x; @end" "@protocol P ; @property int x; @end" 0 ∧
      LosesNodes false "@interface A -a; @end" "@interface A ; -a; @end" 1 := by
  constructor
  · let front : List Token := [⟨.atProtocol, "@protocol", ⟨0, 9, by decide⟩⟩,
      ⟨.identifier, "P", ⟨10, 11, by decide⟩⟩]
    let back : List Token := [⟨.atProperty, "@property", ⟨12, 21, by decide⟩⟩,
      ⟨.identifier, "int", ⟨22, 25, by decide⟩⟩, ⟨.identifier, "x", ⟨26, 27, by decide⟩⟩,
      ⟨.semicolon, ";", ⟨27, 28, by decide⟩⟩, ⟨.atEnd, "@end", ⟨29, 33, by decide⟩⟩]
    let back' : List Token := [⟨.atProperty, "@property", ⟨14, 23, by decide⟩⟩,
      ⟨.identifier, "int", ⟨24, 27, by decide⟩⟩, ⟨.identifier, "x", ⟨28, 29, by decide⟩⟩,
      ⟨.semicolon, ";", ⟨29, 30, by decide⟩⟩, ⟨.atEnd, "@end", ⟨31, 35, by decide⟩⟩]
    let semi : Token := ⟨.semicolon, ";", ⟨12, 13, by decide⟩⟩
    have hsource : significant (tokenize "@protocol P @property int x; @end") = front ++ back := by
      cbv
    have hsource' : significant (tokenize "@protocol P ; @property int x; @end") =
        front ++ semi :: back' := by
      cbv
    have hplace : LeadsInto true front :=
      ⟨⟨.atEnd, "@end", ⟨12, 16, by decide⟩⟩, _, rfl, .refl _, rfl, rfl, fun _ => by decide, _, rfl,
        rfl, rfl⟩
    obtain ⟨h, hread, hnodes, herrors⟩ :=
      exists_read_of_nodesAndErrors hsource 6 0 (by decide +kernel)
    obtain ⟨h', hread', hnodes', herrors'⟩ :=
      exists_read_of_nodesAndErrors hsource' 0 0 (by decide +kernel)
    exact ⟨front, back, back', semi, h, h', hsource, hsource', rfl, hplace, rfl, hread,
      List.length_eq_zero_iff.mp herrors, hread', herrors', by rw [hnodes, hnodes']; decide⟩
  · let front : List Token := [⟨.atInterface, "@interface", ⟨0, 10, by decide⟩⟩,
      ⟨.identifier, "A", ⟨11, 12, by decide⟩⟩]
    let back : List Token := [⟨.minus, "-", ⟨13, 14, by decide⟩⟩,
      ⟨.identifier, "a", ⟨14, 15, by decide⟩⟩, ⟨.semicolon, ";", ⟨15, 16, by decide⟩⟩,
      ⟨.atEnd, "@end", ⟨17, 21, by decide⟩⟩]
    let back' : List Token := [⟨.minus, "-", ⟨15, 16, by decide⟩⟩,
      ⟨.identifier, "a", ⟨16, 17, by decide⟩⟩, ⟨.semicolon, ";", ⟨17, 18, by decide⟩⟩,
      ⟨.atEnd, "@end", ⟨19, 23, by decide⟩⟩]
    let semi : Token := ⟨.semicolon, ";", ⟨13, 14, by decide⟩⟩
    have hsource : significant (tokenize "@interface A -a; @end") = front ++ back := by cbv
    have hsource' : significant (tokenize "@interface A ; -a; @end") = front ++ semi :: back' := by
      cbv
    have hplace : LeadsInto false front :=
      ⟨⟨.atEnd, "@end", ⟨13, 17, by decide⟩⟩, _, rfl, .refl _, rfl, rfl,
        fun h => Bool.noConfusion h, _, rfl, rfl, rfl⟩
    obtain ⟨h, hread, hnodes, herrors⟩ :=
      exists_read_of_nodesAndErrors hsource 6 0 (by decide +kernel)
    obtain ⟨h', hread', hnodes', herrors'⟩ :=
      exists_read_of_nodesAndErrors hsource' 4 1 (by decide +kernel)
    exact ⟨front, back, back', semi, h, h', hsource, hsource', rfl, hplace, rfl, hread,
      List.length_eq_zero_iff.mp herrors, hread', herrors', by rw [hnodes, hnodes']; decide⟩

end HeaderBridge
