/-
  Where the directives of a header are in its tree. Every `@interface` starts a class of its own
  unless a round of the loop over declarations passes it over (`read_interfaces`), and in the body of
  a class or a protocol every `@property` starts a property of its own unless it stands in the
  attributes of a method (`body_properties`). In both cases something in front of the directive was
  opened and not closed, and no error need be noted of it.
-/
import HeaderBridge.Proofs.Directives.Declarations
import HeaderBridge.Proofs.Recovery.Insertion

namespace HeaderBridge

open Rule

namespace Grammar

/-! ## Rounds and the tree -/

theorem ComesTo.lays {s t : ReadState} (h : ComesTo s t) : ∃ front cs, Lays s front none cs t := by
  induction h with
  | refl s => exact ⟨[], [], .of_nodes rfl (.refl _) rfl⟩
  | @round s u t more done next ih =>
    obtain ⟨d, rest, hr, hd⟩ := ReadState.exists_cons_of_current rfl more
    rw [← hd] at done
    obtain ⟨inside, ns, hlays, _⟩ := (declarationRound_turn hr).of_done done
    obtain ⟨front, cs, hlays'⟩ := ih
    exact ⟨_, _, hlays.trans hlays'⟩

/-- What the loop comes to is on its way. -/
theorem ComesTo.declarations_done {s t u : ReadState} (h : ComesTo s t) {fuel : Nat}
    (hdone : declarations fuel s = .done () u) : ∃ more, declarations more t = .done () u := by
  induction h generalizing fuel with
  | refl s => exact ⟨fuel, hdone⟩
  | round more done next ih =>
    cases fuel with
    | zero => cases hdone
    | succ fuel =>
      rw [declarations_round more, bind_of_done done] at hdone
      exact ih hdone

variable {source : String} {log : DiagnosticLog} {origin : Option String}

/-- The children of the root are laid over the tokens in order. -/
theorem exists_read_of_run (source : String) (log : DiagnosticLog) (origin : Option String) :
    ∃ h e fuel, Header.read source log origin = .ok h ∧
      declarations fuel (.start source (tokenize source) log origin) = .done () e ∧
      ∀ front cs, Lays (.start source (tokenize source) log origin) front none cs e →
        h.root.children = cs ∧ ∃ upper, InOrder 0 upper front := by
  obtain ⟨e, hdone, hpassage⟩ := exists_header_done source log origin
  obtain ⟨root, _, hopened, _, hread, _⟩ := exists_read_of_header hdone
  refine ⟨_, e, _, hread, hdone, fun front cs hlays => ⟨?_, ?_⟩⟩
  · have hgrown := hlays.opened _ _ rfl
    rw [hopened] at hgrown
    exact congrArg Node.children (List.cons.inj hgrown).1
  · have hpassed : e.passed = front.reverse := hlays.passed.trans (List.append_nil _)
    have ho := hpassage.forward.within (within_start source log origin)
    unfold ReadState.Within at ho
    rw [hpassed, List.reverse_reverse] at ho
    obtain ⟨upper, hfront, _⟩ := inOrder_append.mp ho
    exact ⟨upper, hfront⟩

/-- A round of the loop is made to its end, and what it lays has its place in the tree. -/
theorem exists_read_around {s : ReadState}
    (hcomes : ComesTo (.start source (tokenize source) log origin) s)
    (hmore : s.current ≠ .endOfFile) : ∃ h t, Header.read source log origin = .ok h ∧
      declarationRound s.current (isForwardProtocol s) s = .done () t ∧
      ∀ front ns, Lays s front none ns t → ∃ before after cs cs' upper,
        h.root.children = cs ++ (ns ++ cs') ∧ Placed before cs ∧ Placed after cs' ∧
        InOrder 0 upper (before ++ (front ++ after)) := by
  obtain ⟨h, e, fuel, hread, hdone, htree⟩ := exists_read_of_run source log origin
  obtain ⟨more, hfrom⟩ := hcomes.declarations_done hdone
  cases more with
  | zero => cases hfrom
  | succ more =>
    rw [declarations_round hmore] at hfrom
    obtain ⟨_, t, hround, hrest⟩ := exists_of_bind hfrom
    obtain ⟨before, cs, hbefore⟩ := hcomes.lays
    obtain ⟨_, after, cs', hafter, _⟩ := (declarations_interfaces more t).of_done hrest
    refine ⟨h, t, hread, hround, fun front ns hlays => ?_⟩
    obtain ⟨hchildren, upper, ho⟩ := htree _ _ (hbefore.trans (hlays.trans hafter))
    exact ⟨before, after, cs, cs', upper, hchildren, hbefore.placed, hafter.placed, ho⟩

/-! ## Texts of which the tokens are known -/

/-- Whether a leaf of a directive is among the nodes or below them. -/
def hasLeaf (kind : TokenKind) (ns : List Node) : Bool :=
  (Node.sequenceAll ns).any fun n =>
    match n.kind with
    | .keyword k => k == kind
    | _ => false

theorem ne_of_hasLeaf {kind : TokenKind} {ns : List Node} (h : hasLeaf kind ns = false)
    {n : Node} (hn : n ∈ Node.sequenceAll ns) : n.kind ≠ .keyword kind := fun hkind => by
  have htest := List.any_eq_false.mp h n hn
  rw [hkind] at htest
  simp at htest

/-- The tree lacks a directive if the root that is left open does. -/
theorem exists_read_without_leaf {row : List Token} (hrow : significant (tokenize source) = row)
    (kind : TokenKind) (test : ReadState → Bool)
    (h : isDoneWith (fun s => s.nodes.opened.all (fun n => !hasLeaf kind n.children) && test s)
      (header { before row with sourceLength := source.utf8ByteSize }) = true) :
    ∃ h s, Header.read source = .ok h ∧ h.errors = s.errors.toList ∧ test s = true ∧
      ∀ n ∈ Node.sequenceAll h.root.children, n.kind ≠ .keyword kind := by
  obtain ⟨h, s, root, hread, htest, hopened, hroot, herrors, _⟩ := exists_read_of_isDoneWith hrow h
  obtain ⟨hleaf, htest⟩ := Bool.and_eq_true_iff.mp htest
  rw [hopened] at hleaf
  refine ⟨h, s, hread, herrors, htest, fun n hn => ne_of_hasLeaf ?_ hn⟩
  rw [hroot]
  simpa using hleaf

end Grammar

open Grammar

/-! ## Classes -/

/-- What nodes stand over lies where their tokens lie. -/
theorem Placed.span_between {lower upper : Nat} {ts : List Token} {ns : List Node} {n : Node}
    {t : Token} (h : Placed ts ns) (ho : InOrder lower upper ts) (hn : n ∈ ns) (hspans : n.Spans t) :
    lower ≤ t.span.start ∧ t.span.stop ≤ upper := by
  obtain ⟨span, hrange, hle, hle'⟩ := hspans
  obtain ⟨span', hrange', hlower, hupper⟩ := h.between ho hn
  obtain rfl := Option.some.inj (hrange.symm.trans hrange')
  omega

/-- A directive that a round passes over starts no node of the tree. -/
theorem Grammar.PassesOver.not_startsWith {source : String} {log : DiagnosticLog}
    {origin : Option String} {t : Token} {h : Header}
    (hpass : PassesOver (.start source (tokenize source) log origin) t)
    (hread : Header.read source log origin = .ok h) {n : Node} (hn : n ∈ h.root.children) :
    ¬ n.StartsWith t := by
  intro hstarts
  obtain ⟨u, v, d, rest, inside, after, hcomes, hr, hround, hpassed, hhides⟩ := hpass
  have hcurrent : u.current = d.kind := ReadState.current_of_cons hr
  have hmore : u.current ≠ .endOfFile := fun hfile => by
    have hdirective := hhides.directive
    rw [← hcurrent, hfile] at hdirective
    cases hdirective
  obtain ⟨h', v', hread', hround', htree⟩ := exists_read_around hcomes hmore
  obtain rfl : h' = h := Except.ok.inj (hread'.symm.trans hread)
  obtain rfl : v' = v := by
    rw [hround] at hround'
    cases hround'
    rfl
  rw [hcurrent] at hround
  obtain ⟨inside', ns, hlays, hturn⟩ := (declarationRound_turn hr).of_done hround
  obtain rfl : inside' = inside ++ t :: after := by
    have hsame := List.append_cancel_right (hlays.passed.symm.trans hpassed)
    exact (List.cons.inj (List.reverse_inj.mp hsame)).2
  obtain ⟨before, behind, cs, cs', upper, hchildren, hbefore, hbehind, ho⟩ := htree _ _ hlays
  obtain ⟨m, hob, ho⟩ := inOrder_append.mp ho
  obtain ⟨m', hround, hoa⟩ := inOrder_append.mp ho
  obtain ⟨hle, hlt, hle'⟩ := hround.mem (t := t) (by simp)
  rw [hchildren] at hn
  simp only [List.mem_append] at hn
  rcases hn with hn | hn | hn
  · have := hbefore.span_between hob hn (hbefore.spans_of_startsWith hob hn hstarts)
    omega
  · -- The nodes of the round start with the token at which it was made.
    obtain ⟨_, _, hfirst⟩ := hstarts
    obtain ⟨_, _, hfirst'⟩ := hturn.starts n hn
    have hspan : d.span = t.span := by
      rw [hfirst] at hfirst'
      simp only [List.cons.injEq, Node.mk.injEq] at hfirst'
      exact (Option.some.inj hfirst'.1.2.2.1).symm
    have hlt' := (hround.2.2.2.mem (t := t) (by simp)).1
    rw [← hspan] at hlt'
    have := hround.2.1
    omega
  · have := hbehind.span_between hoa hn (hbehind.spans_of_startsWith hoa hn hstarts)
    omega

/-- At the end of the file every significant token that is no angle bracket was read. -/
theorem Lays.mem_of_end {source : String} {log : DiagnosticLog} {origin : Option String}
    {front : List Token} {kind : Option NodeKind} {cs : List Node} {e : ReadState}
    (h : Lays (.start source (tokenize source) log origin) front kind cs e)
    (hend : e.current = .endOfFile) {t : Token} (ht : t ∈ significant (tokenize source))
    (hdouble : t.kind ≠ .shiftRight) (hsingle : t.kind ≠ .greater) : t ∈ front := by
  have hrest : Halved (significant (tokenize source)) (front ++ e.rest) := h.rest
  have hnil : e.rest = [] := by
    cases hr : e.rest with
    | nil => rfl
    | cons x rest =>
      have hx : x.kind = .endOfFile := (ReadState.current_of_cons hr).symm.trans hend
      have hmem := (hrest.mem_iff (t := x) (by rw [hx]; decide) (by rw [hx]; decide)).mp
        (by rw [hr]; simp)
      exact absurd hx (ne_endOfFile_of_significant hmem)
  rw [hnil, List.append_nil] at hrest
  exact (hrest.mem_iff hdouble hsingle).mpr ht

/-- Every `@interface` of a source is the first thing in a class of its own, except for those that a
    round of the loop over declarations passes over. -/
theorem read_interfaces (source : String) (log : DiagnosticLog) (origin : Option String) :
    ∃ h, Header.read source log origin = .ok h ∧
      ∀ t ∈ tokenize source, t.kind = .atInterface →
        ((∃! n, n ∈ h.root.children ∧ isDeclared false n.kind ∧ n.StartsWith t) ↔
          ¬ PassesOver (.start source (tokenize source) log origin) t) := by
  obtain ⟨h, e, fuel, hread, hdone, htree⟩ := exists_read_of_run source log origin
  obtain ⟨hend, front, cs, hlays, hfind⟩ := (declarations_interfaces fuel _).of_done hdone
  obtain ⟨hchildren, upper, ho⟩ := htree front cs hlays
  have hall : ∀ t ∈ tokenize source, t.kind = .atInterface → t ∈ front := fun t ht hkind =>
    hlays.mem_of_end hend (List.mem_filter.mpr ⟨ht, by rw [hkind]; rfl⟩) (by rw [hkind]; decide)
      (by rw [hkind]; decide)
  refine ⟨h, hread, fun t ht hkind => ⟨?_, fun hnot => ?_⟩⟩
  · rintro ⟨n, ⟨hn, _, hstarts⟩, _⟩ hpass
    exact hpass.not_startsWith hread hn hstarts
  · obtain ⟨n, hn, hclass, hstarts⟩ := (hfind t (hall t ht hkind) hkind).resolve_right hnot
    rw [hchildren]
    refine ⟨n, ⟨hn, hclass, hstarts⟩, fun m hm => ?_⟩
    exact hlays.placed.eq_of_spans ho hm.1 hn (hlays.placed.spans_of_startsWith ho hm.1 hm.2.2)
      (hlays.placed.spans_of_startsWith ho hn hstarts) (ho.mem (hall t ht hkind)).2.1

set_option maxRecDepth 4096 in
/-- A class is lost without an error behind a list of names that lacks its semicolon. -/
theorem exists_lost_interface :
    ∃ (source : String) (h : Header), source = "@class A\n@interface B\n@property int x;\n@end" ∧
      Header.read source = .ok h ∧ h.errors = [] ∧
      (∃ t ∈ tokenize source, t.kind = .atInterface) ∧
      (∀ t ∈ tokenize source, t.kind ≠ .atImplementation) ∧
      ∀ n ∈ Node.sequenceAll h.root.children, n.kind ≠ .keyword .atInterface := by
  let row : List Token := [⟨.atClass, "@class", ⟨0, 6, by decide⟩⟩,
    ⟨.identifier, "A", ⟨7, 8, by decide⟩⟩, ⟨.atInterface, "@interface", ⟨9, 19, by decide⟩⟩,
    ⟨.identifier, "B", ⟨20, 21, by decide⟩⟩, ⟨.atProperty, "@property", ⟨22, 31, by decide⟩⟩,
    ⟨.identifier, "int", ⟨32, 35, by decide⟩⟩, ⟨.identifier, "x", ⟨36, 37, by decide⟩⟩,
    ⟨.semicolon, ";", ⟨37, 38, by decide⟩⟩, ⟨.atEnd, "@end", ⟨39, 43, by decide⟩⟩]
  have htokens : tokenize "@class A\n@interface B\n@property int x;\n@end" =
      row ++ [⟨.endOfFile, "", ⟨43, 43, by decide⟩⟩] := by cbv
  obtain ⟨h, s, hread, herrors, hnone, hleaf⟩ := exists_read_without_leaf
    (congrArg significant htokens) .atInterface (·.errors.isEmpty) (by decide +kernel)
  refine ⟨_, h, rfl, hread, ?_, ?_, ?_, hleaf⟩
  · rw [herrors]
    simpa using hnone
  · rw [htokens]
    decide
  · rw [htokens]
    decide

/-! ## Properties -/

namespace Grammar

variable {inProtocol : Bool} {s s' : ReadState} {d : Token} {rest : List Token}

theorem body_members (cause : SyntaxError.Cause) (inProtocol : Bool) (s : ReadState) :
    Ends True (body cause inProtocol) s
      (fun _ s' => ∃ front cs, Lays s front none cs s' ∧ Members front cs) fun _ _ => False := by
  refine ends_bind.mpr (ends_state.mpr (ends_bind.mpr ?_))
  refine (memberList_members cause inProtocol (s.weight + 1) s).mono ?_ fun _ _ h => h
  rintro _ s₁ ⟨front, cs, hlays, hmembers⟩
  exact ⟨front, cs, ⟨hlays.passed, hlays.rest, hlays.opened, hlays.placed, hlays.numbered⟩, hmembers⟩

theorem head_lays (hr : s.rest = d :: rest) (hhead : head inProtocol s = .done () s') :
    ∃ inside kind cs, Lays s (d :: inside) kind cs s' ∧ ∀ k ∈ kind, isDeclared inProtocol k := by
  rw [head_eq] at hhead
  obtain ⟨_, s₁, hkeyword, hrest⟩ := exists_of_bind hhead
  have hfirst := (ends_keywordHere hr).of_done hkeyword
  have hpasses : PassesAt (interfaces inProtocol) (isDeclared inProtocol) (headRest inProtocol) s₁ :=
    headRest_passesAt (fun hclass before h => Or.inr ⟨hclass, h⟩) s₁
  obtain ⟨inside, kind, cs, hlays, _, hkind⟩ :=
    (hpasses.of_done hrest).lays ((headRest_courseAt inProtocol s₁).of_done hrest)
  have hall := hfirst.trans hlays
  rw [Option.or_none] at hall
  exact ⟨inside, kind, _, hall, hkind⟩

/-- The end of a body is a leaf, if it is there. -/
theorem ends_keyword_lays {kind : TokenKind} (hkind : kind ≠ .endOfFile) (cause : SyntaxError.Cause)
    (s : ReadState) : Ends True (keyword kind cause) s
      (fun _ s' => ∃ front cs, Lays s front none cs s') fun _ s' =>
      ∃ front cs, Lays s front none cs s' := by
  refine ends_bind.mpr (ends_expect.mpr ⟨fun hc => ?_, fun _ => ?_⟩)
  · obtain ⟨t, rest, hr, _⟩ := ReadState.exists_cons_of_current hc hkind
    exact (ends_leafHere hr (.keyword kind)).mono (fun _ _ h => ⟨_, _, h⟩) fun _ _ h => h.elim
  · exact ⟨[], [], .of_nodes rfl (.refl _) rfl⟩

/-- The node of a class or a protocol was laid. The nodes `cs` over the tokens `front` are among its
    children. -/
def LaysAround (inProtocol : Bool) (front : List Token) (cs : List Node) (s s' : ReadState) : Prop :=
  ∃ own n lead last, Lays s own none [n] s' ∧ isDeclared inProtocol n.kind ∧
    n.id = s.nodes.nextId ∧ Placed own n.children ∧ front <:+: own ∧
    n.children = lead ++ (cs ++ last)

/-- What the members of a class or a protocol lay is laid among the children of its node. -/
theorem ends_declaration_around {front : List Token} {cs : List Node} {t : ReadState}
    (hr : s.rest = d :: rest)
    (hhead : head inProtocol { s with nodes := s.nodes.begin (declaredKind inProtocol) } = .done () s')
    (hbody : body (memberCause inProtocol) inProtocol s' = .done () t)
    (hlays : Lays s' front none cs t) : Ends True (declaration inProtocol) s
      (fun _ u => LaysAround inProtocol front cs s u) fun _ u => LaysAround inProtocol front cs s u := by
  obtain ⟨inside, kind, lead, hlead, hkind⟩ :=
    head_lays (s := { s with nodes := s.nodes.begin (declaredKind inProtocol) }) hr hhead
  have hclosed : Ends True (head inProtocol >>= fun _ => closedBody inProtocol)
      { s with nodes := s.nodes.begin (declaredKind inProtocol) }
      (fun _ u => ∃ behind last, Lays t behind none last u)
      fun _ u => ∃ behind last, Lays t behind none last u := by
    unfold Ends
    rw [bind_of_done hhead, show closedBody inProtocol s' = _ from bind_of_done hbody]
    exact ends_keyword_lays (by decide) _ t
  have close : ∀ {u v : ReadState}, (∃ behind last, Lays t behind none last u) →
      closeNode s.currentSpan.start s.position s.nodes.depth u = .ok v →
      LaysAround inProtocol front cs s v := by
    rintro u v ⟨behind, last, hlast⟩ hclose
    have hall := hlead.trans (hlays.trans hlast)
    obtain ⟨span, _, hnode⟩ := hall.close_over hclose
    refine ⟨_, _, lead, last, hnode, ?_, rfl, hall.placed, ⟨d :: inside, behind, by simp⟩, rfl⟩
    cases kind with
    | none => cases inProtocol <;> trivial
    | some k => exact hkind k rfl
  rw [declaration_eq, declarationParts_eq]
  exact ends_withNode hclosed (fun _ _ _ hu hclose => close hu hclose) fun _ _ _ hu hclose =>
    close hu hclose

/-- The loop over declarations comes to a class or a protocol, and this is read up to its members. -/
structure StartsBody (source : String) (log : DiagnosticLog) (origin : Option String)
    (inProtocol : Bool) (s s' : ReadState) : Prop where
  comes : ComesTo (.start source (tokenize source) log origin) s
  directive : s.current = if inProtocol then .atProtocol else .atInterface
  declares : inProtocol = true → isForwardProtocol s = false
  reads : head inProtocol { s with nodes := s.nodes.begin (declaredKind inProtocol) } = .done () s'

theorem StartsBody.round_eq {source : String} {log : DiagnosticLog} {origin : Option String}
    (h : StartsBody source log origin inProtocol s s') :
    declarationRound s.current (isForwardProtocol s) =
      recoverDeclaration (declaration inProtocol) :=
  declarationRound_of_directive h.directive h.declares

/-- Where a declaration is read or given up, its body was read to its end. -/
theorem exists_body_of_done {u : ReadState}
    (hdone : recoverDeclaration (declaration inProtocol) s = .done () u)
    (hhead : head inProtocol { s with nodes := s.nodes.begin (declaredKind inProtocol) } =
      .done () s') : ∃ t front cs, body (memberCause inProtocol) inProtocol s' = .done () t ∧
      Lays s' front none cs t ∧ Members front cs := by
  have hmembers := body_members (memberCause inProtocol) inProtocol s'
  unfold Ends at hmembers
  cases hbody : body (memberCause inProtocol) inProtocol s' with
  | done _ t =>
    rw [hbody] at hmembers
    obtain ⟨front, cs, hlays, hmembers⟩ := hmembers
    exact ⟨t, front, cs, rfl, hlays, hmembers⟩
  | failed e t => rw [hbody] at hmembers; exact hmembers.elim
  | broken fault =>
    -- What breaks in the body breaks the whole declaration.
    have hparts : (head inProtocol >>= fun _ => closedBody inProtocol)
        { s with nodes := s.nodes.begin (declaredKind inProtocol) } = .broken fault :=
      (bind_of_done hhead).trans (bind_of_broken hbody)
    have hbroken : declaration inProtocol s = .broken fault := by
      rw [declaration_eq, declarationParts_eq]
      unfold withNode
      rw [hparts]
    unfold recoverDeclaration at hdone
    rw [hbroken] at hdone
    cases hdone

/-- A class at the start of a header, with a `@property` in its body. -/
theorem exists_property_of_test {source : String} {row : List Token} (test : ReadState → Bool)
    (hrow : significant (tokenize source) = row) (hdirective : (before row).current = .atInterface)
    (h : isDoneWith (fun s' => s'.passed.all (·.kind != .atProperty) &&
      isDoneWith (fun t => t.passed.any (·.kind == .atProperty) && test t)
        (body (memberCause false) false s'))
      (head false { before row with
        sourceLength := source.utf8ByteSize
        nodes := (before row).nodes.begin (declaredKind false) }) = true) :
    ∃ (s s' t : ReadState) (front : List Token) (x : Token),
      StartsBody source .empty none false s s' ∧
      body (memberCause false) false s' = .done () t ∧ t.passed = front.reverse ++ s'.passed ∧
      x ∈ front ∧ x.kind = .atProperty ∧ test t = true := by
  obtain ⟨s', hhead, htest⟩ := exists_of_isDoneWith h
  obtain ⟨hnone, hbody⟩ := Bool.and_eq_true_iff.mp htest
  obtain ⟨t, hbody, htest⟩ := exists_of_isDoneWith hbody
  obtain ⟨hsome, htest⟩ := Bool.and_eq_true_iff.mp htest
  obtain ⟨front, _, hlays, _⟩ := (body_members _ _ s').of_done hbody
  obtain ⟨x, hx, hkind⟩ := List.any_eq_true.mp hsome
  have hkind : x.kind = .atProperty := beq_iff_eq.mp hkind
  refine ⟨{ before row with sourceLength := source.utf8ByteSize }, s', t, front, x,
    ⟨by rw [start_eq hrow]; exact .refl _, hdirective, nofun, hhead⟩, hbody, hlays.passed, ?_, hkind,
    htest⟩
  rw [hlays.passed, List.mem_append, List.mem_reverse] at hx
  refine hx.resolve_right fun hbefore => ?_
  have hne := List.all_eq_true.mp hnone x hbefore
  rw [hkind] at hne
  cases hne

end Grammar

/-- Where the members lie in order among some nodes, a `@property` that was passed is the first thing in
    one of these nodes alone, or it stands in the attributes of a method. -/
theorem Grammar.Members.property_iff {front own before after : List Token} {cs ns : List Node}
    {lower upper : Nat} {x : Token} (h : Members front cs) (hplaced : Placed own ns)
    (ho : InOrder lower upper own) (hfront : front <:+: own) (hmem : ∀ m ∈ cs, m ∈ ns)
    (he : front = before ++ x :: after) (hx : x.kind = .atProperty) :
    (∃! p, p ∈ ns ∧ isProperty p.kind ∧ p.StartsWith x) ↔
      ¬ (InGroup before ∧ ∃ m ∈ ns, isMethod m.kind ∧ m.Spans x) := by
  obtain ⟨_, _, hinside⟩ := ho.infix hfront
  have hlt := (hinside.mem (t := x) (by rw [he]; simp)).2.1
  refine ⟨?_, fun hnot => ?_⟩
  · rintro ⟨p, ⟨hp, hproperty, hfirst⟩, _⟩ ⟨_, m, hm, hmethod, hspans⟩
    obtain rfl := hplaced.eq_of_spans ho hp hm (hplaced.spans_of_startsWith ho hp hfirst) hspans hlt
    exact not_isMethod_of_isProperty hproperty hmethod
  · rcases h.find before x after he (by rw [hx]; rfl) with
      ⟨hgroup, m, hm, hmethod, span, part, hrange, hcovers, hxm, hpart⟩ | ⟨_, hfind⟩
    · obtain ⟨_, _, hpart⟩ := hinside.infix hpart
      exact absurd ⟨hgroup, m, hmem m hm, hmethod, Node.spans_of_covers hrange hcovers hpart hxm⟩ hnot
    · obtain ⟨p, hp, hproperty, hfirst⟩ := hfind hx
      refine ⟨p, ⟨hmem p hp, hproperty, hfirst⟩, fun q hq => ?_⟩
      exact hplaced.eq_of_spans ho hq.1 (hmem p hp) (hplaced.spans_of_startsWith ho hq.1 hq.2.2)
        (hplaced.spans_of_startsWith ho (hmem p hp) hfirst) hlt

/-- In the body of a class or a protocol every `@property` is the first thing in a property of its own,
    except for those that stand in the attributes of a method. -/
theorem body_properties {source : String} {log : DiagnosticLog} {origin : Option String}
    {inProtocol : Bool} {s s' : ReadState} (hstarts : StartsBody source log origin inProtocol s s') :
    ∃ h t front n, Header.read source log origin = .ok h ∧
      body (memberCause inProtocol) inProtocol s' = .done () t ∧
      t.passed = front.reverse ++ s'.passed ∧ n ∈ h.root.children ∧
      isDeclared inProtocol n.kind ∧ n.id = s.nodes.nextId ∧
      ∀ before x after, front = before ++ x :: after → x.kind = .atProperty →
        ((∃! p, p ∈ n.children ∧ isProperty p.kind ∧ p.StartsWith x) ↔
          ¬ (InGroup before ∧ ∃ m ∈ n.children, isMethod m.kind ∧ m.Spans x)) := by
  have hmore : s.current ≠ .endOfFile := by
    rw [hstarts.directive]
    cases inProtocol <;> decide
  obtain ⟨d, rest, hr, _⟩ := ReadState.exists_cons_of_current rfl hmore
  obtain ⟨h, u, hread, hround, htree⟩ := exists_read_around hstarts.comes hmore
  rw [hstarts.round_eq] at hround
  obtain ⟨t, front, cs, hbody, hlays, hmembers⟩ := exists_body_of_done hround hstarts.reads
  obtain ⟨v, skipped, ⟨own, n, lead, last, hnode, hkind, hid, hplaced, hinfix, hchildren⟩, hskip, _⟩ :=
    (ends_recoverDeclaration (ends_declaration_around hr hstarts.reads hbody hlays)).of_done hround
  obtain ⟨before, after, ms, ms', upper, hroot, _, _, ho⟩ := htree _ _ (hnode.trans hskip)
  refine ⟨h, t, front, n, hread, hbody, hlays.passed, by rw [hroot]; simp, hkind, hid, ?_⟩
  obtain ⟨_, _, hown⟩ := ho.infix (show own <:+: _ from ⟨before, skipped ++ after, by simp⟩)
  intro before x after he hx
  exact hmembers.property_iff hplaced hown hinfix (fun m hm => by rw [hchildren]; simp [hm]) he hx

set_option maxRecDepth 4096 in
theorem body_properties_class : ∃ (s s' : ReadState) (h : Header) (n : Node) (x : Token) (p : Node),
    StartsBody "@interface A @property int x; @end" .empty none false s s' ∧
      Header.read "@interface A @property int x; @end" = .ok h ∧ n ∈ h.root.children ∧
      isDeclared false n.kind ∧ x.kind = .atProperty ∧ p ∈ n.children ∧ isProperty p.kind ∧
      p.StartsWith x := by
  let row : List Token := [⟨.atInterface, "@interface", ⟨0, 10, by decide⟩⟩,
    ⟨.identifier, "A", ⟨11, 12, by decide⟩⟩, ⟨.atProperty, "@property", ⟨13, 22, by decide⟩⟩,
    ⟨.identifier, "int", ⟨23, 26, by decide⟩⟩, ⟨.identifier, "x", ⟨27, 28, by decide⟩⟩,
    ⟨.semicolon, ";", ⟨28, 29, by decide⟩⟩, ⟨.atEnd, "@end", ⟨30, 34, by decide⟩⟩]
  have hrow : significant (tokenize "@interface A @property int x; @end") = row := by cbv
  obtain ⟨s, s', t, front, x, hstarts, hbody, hpassed, hx, hkind, hnone⟩ :=
    exists_property_of_test (·.passed.all (·.kind != .leftParen)) hrow rfl (by decide +kernel)
  obtain ⟨h, t', front', n, hread, hbody', hpassed', hn, hclass, _, hproperties⟩ :=
    body_properties hstarts
  obtain rfl : t = t' := by
    rw [hbody] at hbody'
    cases hbody'
    rfl
  obtain rfl : front = front' :=
    List.reverse_inj.mp (List.append_cancel_right (hpassed.symm.trans hpassed'))
  obtain ⟨before, after, rfl⟩ := List.append_of_mem hx
  -- There is no group in the class.
  have hgroup : ¬ InGroup before := by
    rintro ⟨_, _, paren, _, rfl, _, hparen, _⟩
    have hne := List.all_eq_true.mp hnone paren (by rw [hpassed]; simp)
    rw [hparen] at hne
    cases hne
  obtain ⟨p, ⟨hp, hproperty, hfirst⟩, _⟩ :=
    (hproperties before x after rfl hkind).mpr fun hhidden => hgroup hhidden.1
  exact ⟨s, s', h, n, x, p, hstarts, hread, hn, hclass, hkind, hp, hproperty, hfirst⟩

set_option maxRecDepth 4096 in
/-- A property is lost in the open attributes of a broken method. -/
theorem exists_lost_property :
    ∃ (source : String) (s s' t : ReadState) (front : List Token) (x : Token) (h : Header),
      source = "@interface A\n- (void)run FOO(;\n@property int x;\n@end" ∧
      StartsBody source .empty none false s s' ∧
      body (memberCause false) false s' = .done () t ∧ t.passed = front.reverse ++ s'.passed ∧
      x ∈ front ∧ x.kind = .atProperty ∧ Header.read source = .ok h ∧
      ∀ n ∈ Node.sequenceAll h.root.children, n.kind ≠ .keyword .atProperty := by
  let row : List Token := [⟨.atInterface, "@interface", ⟨0, 10, by decide⟩⟩,
    ⟨.identifier, "A", ⟨11, 12, by decide⟩⟩, ⟨.minus, "-", ⟨13, 14, by decide⟩⟩,
    ⟨.leftParen, "(", ⟨15, 16, by decide⟩⟩, ⟨.identifier, "void", ⟨16, 20, by decide⟩⟩,
    ⟨.rightParen, ")", ⟨20, 21, by decide⟩⟩, ⟨.identifier, "run", ⟨21, 24, by decide⟩⟩,
    ⟨.identifier, "FOO", ⟨25, 28, by decide⟩⟩, ⟨.leftParen, "(", ⟨28, 29, by decide⟩⟩,
    ⟨.semicolon, ";", ⟨29, 30, by decide⟩⟩, ⟨.atProperty, "@property", ⟨31, 40, by decide⟩⟩,
    ⟨.identifier, "int", ⟨41, 44, by decide⟩⟩, ⟨.identifier, "x", ⟨45, 46, by decide⟩⟩,
    ⟨.semicolon, ";", ⟨46, 47, by decide⟩⟩, ⟨.atEnd, "@end", ⟨48, 52, by decide⟩⟩]
  have hrow : significant (tokenize "@interface A\n- (void)run FOO(;\n@property int x;\n@end") =
      row := by
    cbv
  obtain ⟨s, s', t, front, x, hstarts, hbody, hpassed, hx, hkind, _⟩ :=
    exists_property_of_test (fun _ => true) hrow rfl (by decide +kernel)
  obtain ⟨h, _, hread, _, _, hleaf⟩ :=
    exists_read_without_leaf hrow .atProperty (fun _ => true) (by decide +kernel)
  exact ⟨_, s, s', t, front, x, h, rfl, hstarts, hbody, hpassed, hx, hkind, hread, hleaf⟩

end HeaderBridge
