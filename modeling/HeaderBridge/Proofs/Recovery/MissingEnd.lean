/-
  Declarations that lack their closing directive. A body ends in front of the directive of the next
  declaration as it ends in front of its own `@end`, so a declaration without an `@end` costs one
  error and nothing else: it keeps all of its members, and what follows it is read as before.
-/
import HeaderBridge.Proofs.Recovery.Insertion

namespace HeaderBridge

open ReadState (kindOf)
open Bare (bare)
open Rule

namespace Grammar

/-! ## Declarations with and without an end -/

/-- A class or a protocol that is read to its `@end` without an error, as each is that the grammar
    of headers spells (`WholeDeclaration.ofSpelling`). -/
structure WholeDeclaration where
  inProtocol : Bool
  /-- Its tokens up to the `@end`. -/
  front : List Token
  close : Token
  close_kind : close.kind = .atEnd
  opens : Opens inProtocol (before (front ++ [close]))

theorem exists_done_of_test {inProtocol : Bool} {ts : List Token}
    (h : isDoneWith (fun t => t.rest.isEmpty && t.errors.isEmpty)
      (declaration inProtocol (before ts)) = true) :
    ∃ t, declaration inProtocol (before ts) = .done () t ∧ t.rest = [] ∧
      t.errors = (before ts).errors := by
  obtain ⟨t, hdone, htest⟩ := exists_of_isDoneWith h
  obtain ⟨hrest, herrors⟩ := Bool.and_eq_true_iff.mp htest
  exact ⟨t, hdone, List.isEmpty_iff.mp hrest, Array.isEmpty_iff.mp herrors⟩

/-- The tokens of a declaration, with its `@end` or without it. -/
def WholeDeclaration.tokens (d : WholeDeclaration) (closed : Bool) : List Token :=
  if closed then d.front ++ [d.close] else d.front

/-- A declaration starts with its directive, which is not its end. -/
theorem WholeDeclaration.kindOf_append (d : WholeDeclaration) (closed : Bool) (more : List Token) :
    kindOf (d.tokens closed ++ more) = if d.inProtocol then .atProtocol else .atInterface := by
  have hdirective := d.opens.directive
  obtain ⟨t, front, hfront⟩ : ∃ t front, d.front = t :: front := by
    refine List.exists_cons_of_ne_nil fun hnil => ?_
    rw [show before (d.front ++ [d.close]) = before [d.close] by rw [hnil]; rfl] at hdirective
    have hclose : d.close.kind = _ := hdirective
    rw [d.close_kind] at hclose
    cases hinside : d.inProtocol <;> rw [hinside] at hclose <;> cases hclose
  rw [← hdirective]
  unfold tokens
  cases closed <;> simp [hfront, before, ReadState.current]

/-- The rows of some declarations, each with its `@end` if it is marked. -/
def rowOf (ds : List (WholeDeclaration × Bool)) : List Token :=
  ds.flatMap fun d => d.1.tokens d.2

/-- Where a row of declarations starts or ends, a body ends, and not in an `@end`. -/
theorem endsBody_of_rowOf {more : List Token} {ds : List (WholeDeclaration × Bool)}
    (h : more.map Token.face = (rowOf ds).map Token.face) :
    endsBody (kindOf more) = true ∧ kindOf more ≠ .atEnd ∧ continuesHead more = false := by
  have hfacing : Facing none more (rowOf ds) := h
  have hkind : kindOf more = kindOf (rowOf ds) := hfacing.kindOf_eq (not_ranOut_none _)
  unfold continuesHead
  rw [hkind]
  cases ds with
  | nil => exact ⟨rfl, by decide, rfl⟩
  | cons d ds =>
    rw [show rowOf (d :: ds) = d.1.tokens d.2 ++ rowOf ds from List.flatMap_cons,
      d.1.kindOf_append]
    cases d.1.inProtocol <;> exact ⟨rfl, by decide, rfl⟩

/-! ## The end of a body -/

/-- Where a body ends, only its end is left to read. -/
theorem bodyFrom_of_endsBody {s : ReadState} (h : endsBody s.current = true) (inProtocol : Bool)
    (fuel : Nat) : bodyFrom inProtocol (fuel + 1) s =
      keyword .atEnd (endCause inProtocol) { s with inOptional := false } := by
  refine bind_of_done (b := ()) ?_
  rw [memberList_succ]
  show (if endsBody s.current = true then _ else _ : Rule Unit) s = _
  rw [if_pos h]
  rfl

/-- An `@end` is read as a leaf. -/
theorem bodyFrom_of_end {s : ReadState} {close : Token} {more : List Token}
    (hrest : s.rest = close :: more) (hclose : close.kind = .atEnd)
    (hspeculating : s.speculating = false) (inProtocol : Bool) (fuel : Nat) :
    (∃ fault, bodyFrom inProtocol fuel s = .broken fault) ∨ ∃ t,
      bodyFrom inProtocol fuel s = .done () t ∧
      GetsTo more [⟨s.nodes.nextId, .keyword .atEnd, some close.span, []⟩] []
        { s with inOptional := false } t := by
  cases fuel with
  | zero => exact Or.inl ⟨.exhausted, rfl⟩
  | succ fuel =>
  have hcurrent : s.current = .atEnd := (ReadState.current_of_cons hrest).trans hclose
  let left : ReadState := { s with inOptional := false }
  let behind : ReadState := left.past [close] more
  have hkeyword : keyword .atEnd (endCause inProtocol) left =
      leaf (.keyword .atEnd) close.span behind := by
    refine bind_of_done ?_
    unfold expect
    rw [if_pos (show left.current = .atEnd from hcurrent),
      ReadState.currentSpan_of_cons (s := left) hrest, ReadState.advance_of_cons (s := left) hrest]
  rw [bodyFrom_of_endsBody (by rw [hcurrent]; rfl), hkeyword]
  rcases AgreeAt.leaf_cases (.keyword .atEnd) close.span behind with
    hbroken | ⟨nodes, hr, hgrows⟩
  · exact Or.inl hbroken
  · exact Or.inr ⟨_, hr, rfl, hspeculating, rfl, hgrows, (List.append_nil _).symm⟩

/-- Without an `@end` the body fails, and nothing is read. -/
theorem bodyFrom_without_end {s : ReadState} (hends : endsBody s.current = true)
    (hnot : s.current ≠ .atEnd) (inProtocol : Bool) (fuel : Nat) :
    bodyFrom inProtocol fuel s = .broken .exhausted ∨ bodyFrom inProtocol fuel s =
      .failed ⟨endCause inProtocol, s.currentSpan, false⟩ { s with inOptional := false } := by
  cases fuel with
  | zero => exact Or.inl rfl
  | succ fuel =>
    rw [bodyFrom_of_endsBody hends]
    refine Or.inr (bind_of_failed ?_)
    unfold expect
    rw [if_neg (show ReadState.current { s with inOptional := false } ≠ .atEnd from hnot)]
    rfl

/-- A declaration that failed where a body ends without an `@end` costs its error, and nothing is
    passed over. -/
theorem resume_of_endsBody {s : ReadState} (hends : endsBody s.current = true)
    (hnot : s.current ≠ .atEnd) (cause : SyntaxError.Cause) (span : Span) :
    resume ⟨cause, span, false⟩ s = .done () (s.report ⟨cause, span, false⟩) := by
  let reported : ReadState := s.report ⟨cause, span, false⟩
  have hskip : reported.skipUntil endsBody = reported := by
    refine ReadState.readWhile_of_suffixes (List.nil_append reported.rest).symm (by simp) (Or.inr ?_)
    show (!endsBody s.current) = false
    rw [hends]
    rfl
  have heat : eat .atEnd reported = .done false reported :=
    if_neg (show reported.current ≠ .atEnd from hnot)
  have hmodify : (Rule.modify fun s => (s.report ⟨cause, span, false⟩).skipUntil endsBody) s =
      .done () reported := congrArg (Outcome.done ()) hskip
  exact (bind_of_done hmodify).trans (bind_of_done heat)

/-! ## One declaration -/

/-- The tokens of an `@end`, if there is one. -/
def EndToken (closed : Bool) (ts : List Token) : Prop :=
  if closed then ∃ close : Token, ts = [close] ∧ close.kind = .atEnd else ts = []

/-- The leaf of an `@end`, if there is one. -/
def EndLeaf (closed : Bool) (ns : List Node) : Prop :=
  if closed then ∃ id span, ns = [⟨id, .keyword .atEnd, some span, []⟩] else ns = []

/-- What a declaration costs: an error if its `@end` is missing. -/
def Costs (closed inProtocol : Bool) (es : List SyntaxError) : Prop :=
  es.map SyntaxError.cause = if closed then [] else [endCause inProtocol]

/-- A declaration that is closed is one more node of the node around it. -/
theorem GetsTo.of_close {row : List Token} {leaf : List Node} {n : Node} {s v w : ReadState}
    (hclose : closeNode s.currentSpan.start s.position s.nodes.depth v = .ok w)
    (hopened : v.nodes.opened = n.grown none leaf :: s.nodes.opened) (hrest : v.rest = row)
    (hspeculating : v.speculating = false) (hoptional : v.inOptional = s.inOptional)
    (herrors : v.errors.toList = s.errors.toList) :
    ∃ range, GetsTo row [{ n.grown none leaf with range }] [] s w := by
  obtain ⟨⟨range, hgrows⟩, hw⟩ := AgreeAt.grows_of_close hopened hclose
  refine ⟨range, ?_, ?_, ?_, hgrows, ?_⟩
  · rw [hw]; exact hrest
  · rw [hw]; exact hspeculating
  · rw [hw]; exact hoptional
  · rw [hw, List.append_nil]; exact herrors

/-- A body whose members are read is closed, with or without its `@end`. -/
theorem finish_body {closed inProtocol : Bool} {ending more : List Token} {s t u : ReadState}
    {n : Node} {left fuel : Nat} (hending : EndToken closed ending) (hrest : t.rest = ending ++ more)
    (hends : endsBody (kindOf more) = true) (hnot : kindOf more ≠ .atEnd)
    (hspeculating : t.speculating = false) (hoptional : s.inOptional = false)
    (hopened : t.nodes.opened = n :: s.nodes.opened) (herrors : t.errors = s.errors)
    (hdone : recovered (fun _ => declarations fuel)
      (finishNode s (bodyFrom inProtocol left t)) = .done () u) :
    ∃ w leaf range es, declarations fuel w = .done () u ∧
      GetsTo more [{ n.grown none leaf with range }] es s w ∧ EndLeaf closed leaf ∧
      Costs closed inProtocol es := by
  cases closed with
  | true =>
    obtain ⟨close, rfl, hkind⟩ := hending
    rcases bodyFrom_of_end hrest hkind hspeculating inProtocol left with
      ⟨fault, hbroken⟩ | ⟨v, hread, hv⟩
    · rw [hbroken] at hdone
      cases hdone
    rw [hread] at hdone
    rcases recovered_done (fun _ => declarations fuel) s v with
      ⟨fault, hbroken⟩ | ⟨w, hclose, hbehind⟩
    · rw [hbroken] at hdone
      cases hdone
    rw [hbehind] at hdone
    obtain ⟨range, hw⟩ := GetsTo.of_close hclose (hv.nodes n _ hopened) hv.rest hv.speculating
      (hv.inOptional.trans hoptional.symm) (by rw [hv.errors, List.append_nil, herrors])
    exact ⟨w, _, range, [], hdone, hw, ⟨_, _, rfl⟩, rfl⟩
  | false =>
    obtain rfl : ending = [] := hending
    have hcurrent : t.current = kindOf more := congrArg kindOf hrest
    rcases bodyFrom_without_end (by rwa [hcurrent]) (by rwa [hcurrent]) inProtocol left with
      hbroken | hfailed
    · rw [hbroken] at hdone
      cases hdone
    rw [hfailed] at hdone
    rcases recovered_failed (fun _ => declarations fuel) _ s { t with inOptional := false } with
      ⟨fault, hbroken⟩ | ⟨w, hclose, hbehind⟩
    · rw [hbroken] at hdone
      cases hdone
    rw [hbehind] at hdone
    have hgrown : t.nodes.opened = n.grown none [] :: s.nodes.opened := by
      rw [Node.grown_none_nil]
      exact hopened
    obtain ⟨range, hw⟩ := GetsTo.of_close hclose hgrown hrest hspeculating hoptional.symm
      (congrArg Array.toList herrors)
    have hwcurrent : w.current = kindOf more := congrArg kindOf hw.rest
    have hresume := resume_of_endsBody (s := w) (by rwa [hwcurrent]) (by rwa [hwcurrent])
      (endCause inProtocol) t.currentSpan
    rw [bind_of_done hresume] at hdone
    refine ⟨_, [], range, [⟨endCause inProtocol, t.currentSpan, true⟩], hdone,
      ⟨hw.rest, hw.speculating, hw.inOptional, hw.nodes, ?_⟩, rfl, rfl⟩
    show (w.errors.push _).toList = _
    rw [Array.toList_push, hw.errors, List.append_nil]

/-- The node of a declaration: what another node is but for places, with the leaf of an `@end` if it
    is closed. -/
def Shows (closed : Bool) (node n : Node) : Prop :=
  bare n.kind = bare node.kind ∧ ∃ members leaf, n.children = members ++ leaf ∧
    bare members = bare node.children ∧ EndLeaf closed leaf

/-- In front of another declaration, or of the end of the file, a declaration is read to a node that
    does not depend on what follows, with or without its `@end`. -/
theorem WholeDeclaration.exists_node (d : WholeDeclaration) : ∃ node : Node,
    ∀ {closed : Bool} {front more : List Token} {ds : List (WholeDeclaration × Bool)}
      {s u : ReadState} {fuel : Nat}, s.rest = front ++ more →
      front.map Token.face = (d.tokens closed).map Token.face →
      more.map Token.face = (rowOf ds).map Token.face → s.speculating = false →
      s.inOptional = false → declarations fuel s = .done () u →
      ∃ left t n es, declarations left t = .done () u ∧ GetsTo more [n] es s t ∧
        Shows closed node n ∧ Costs closed d.inProtocol es := by
  obtain ⟨node, inOptional, hresumes⟩ := d.opens.resumes
  refine ⟨node, fun {closed front more ds s u fuel} hrest hfront hmore hspeculating hoptional hdone =>
    ?_⟩
  cases fuel with
  | zero => cases hdone
  | succ fuel =>
  obtain ⟨hends, hnot, hhead⟩ := endsBody_of_rowOf hmore
  obtain ⟨members, ending, rfl, hmembers, hending⟩ : ∃ members ending, front = members ++ ending ∧
      members.map Token.face = d.front.map Token.face ∧ EndToken closed ending := by
    cases closed with
    | false => exact ⟨front, [], (List.append_nil _).symm, hfront, rfl⟩
    | true =>
      obtain ⟨members, ending, rfl, hmembers, hending⟩ := List.map_eq_append_iff.mp
        (hfront.trans List.map_append)
      obtain ⟨close, rfl, hclose⟩ := List.map_eq_singleton_iff.mp hending
      exact ⟨members, [close], rfl, hmembers, close, rfl,
        (congrArg Prod.fst hclose).trans d.close_kind⟩
  rw [List.append_assoc] at hrest
  have hkeeps : KeepsHead d.inProtocol (before (d.front ++ [d.close])) (ending ++ more) := by
    refine .of_continuesHead ?_
    cases closed with
    | false => rwa [show ending = [] from hending]
    | true =>
      obtain ⟨close, rfl, hclose⟩ := hending
      unfold continuesHead
      rw [show kindOf ([close] ++ more) = .atEnd from hclose]
  have halike : Alike (some (ending ++ more)) (before (d.front ++ [d.close])) s :=
    ⟨⟨d.front, d.close, members, d.close_kind, rfl, hrest, hmembers.symm⟩, hspeculating.symm,
      hoptional.symm⟩
  rw [d.opens.declarations_eq halike hkeeps] at hdone
  rcases hresumes s _ halike hkeeps.extension with
    ⟨fault, hbroken⟩ | ⟨left, t, n, hparts, ht, htspec, _, hterrors, hopened, hbare⟩
  · rw [hbroken] at hdone
    cases hdone
  rw [hparts] at hdone
  obtain ⟨w, leaf, range, es, hw, hgets, hleaf, hcosts⟩ := finish_body hending ht hends hnot
    (htspec.trans hspeculating) hoptional hopened hterrors hdone
  obtain ⟨hkinds, hbelow⟩ := Node.bare_eq_iff.mp hbare
  exact ⟨fuel, w, _, es, hw, hgets, ⟨hkinds, n.children, leaf, rfl, hbelow, hleaf⟩, hcosts⟩

/-! ## All declarations -/

/-- The second node is the first one, but for places. The first one ends in the leaf of an `@end`; so
    does the second one if it is closed, and otherwise it lacks this leaf alone. -/
def SameUpToEnd (closed : Bool) (n n' : Node) : Prop :=
  bare n.kind = bare n'.kind ∧ ∃ members leaf members' leaf', n.children = members ++ leaf ∧
    n'.children = members' ++ leaf' ∧ bare members = bare members' ∧ EndLeaf true leaf ∧
    EndLeaf closed leaf'

theorem Shows.sameUpToEnd {closed : Bool} {node n n' : Node} (h : Shows true node n)
    (h' : Shows closed node n') : SameUpToEnd closed n n' := by
  obtain ⟨hkind, members, leaf, hchildren, hmembers, hleaf⟩ := h
  obtain ⟨hkind', members', leaf', hchildren', hmembers', hleaf'⟩ := h'
  exact ⟨hkind.trans hkind'.symm, members, leaf, members', leaf', hchildren, hchildren',
    hmembers.trans hmembers'.symm, hleaf, hleaf'⟩

/-- The nodes of some declarations, once with all their ends and once with those that are marked. -/
inductive SameDeclarations : List Bool → List Node → List Node → Prop where
  | nil : SameDeclarations [] [] []
  | cons {closed : Bool} {marks : List Bool} {n n' : Node} {ns ns' : List Node}
      (same : SameUpToEnd closed n n') (behind : SameDeclarations marks ns ns') :
      SameDeclarations (closed :: marks) (n :: ns) (n' :: ns')

/-- The same declarations, each with its `@end`. -/
def allClosed (ds : List (WholeDeclaration × Bool)) : List (WholeDeclaration × Bool) :=
  ds.map fun d => (d.1, true)

/-- What the missing ends of some declarations cost, in order. -/
def missingEnds (ds : List (WholeDeclaration × Bool)) : List SyntaxError.Cause :=
  (ds.filter fun d => !d.2).map fun d => endCause d.1.inProtocol

/-- Behind the last declaration the loop is over. -/
theorem getsTo_of_declarations_nil {s u : ReadState} {fuel : Nat} (hrest : s.rest = [])
    (hspeculating : s.speculating = false) (hdone : declarations fuel s = .done () u) :
    GetsTo [] [] [] s u := by
  cases fuel with
  | zero => cases hdone
  | succ fuel =>
    have hcurrent : s.current = .endOfFile := congrArg kindOf hrest
    rw [declarations_succ] at hdone
    change (if s.current = .endOfFile then _ else _ : Rule Unit) s = .done () u at hdone
    rw [if_pos hcurrent] at hdone
    cases hdone
    exact ⟨hrest, hspeculating, rfl, .refl s, (List.append_nil _).symm⟩

/-- Two loops over the same declarations, of which the second one misses some ends. -/
theorem declarations_without_ends (ds : List (WholeDeclaration × Bool)) :
    ∀ {fuel fuel' : Nat} {s s' u u' : ReadState},
      s.rest.map Token.face = (rowOf (allClosed ds)).map Token.face →
      s'.rest.map Token.face = (rowOf ds).map Token.face →
      s.speculating = false → s.inOptional = false →
      s'.speculating = false → s'.inOptional = false →
      declarations fuel s = .done () u → declarations fuel' s' = .done () u' →
      ∃ ns ns' es, GetsTo [] ns [] s u ∧ GetsTo [] ns' es s' u' ∧
        es.map SyntaxError.cause = missingEnds ds ∧ SameDeclarations (ds.map Prod.snd) ns ns' := by
  induction ds with
  | nil =>
    intro fuel fuel' s s' u u' hrest hrest' hspec _ hspec' _ hdone hdone'
    exact ⟨[], [], [],
      getsTo_of_declarations_nil (List.map_eq_nil_iff.mp hrest) hspec hdone,
      getsTo_of_declarations_nil (List.map_eq_nil_iff.mp hrest') hspec' hdone', rfl, .nil⟩
  | cons d ds ih =>
    obtain ⟨d, closed⟩ := d
    intro fuel fuel' s s' u u' hrest hrest' hspec hopt hspec' hopt' hdone hdone'
    obtain ⟨front, more, hs, hfront, hmore⟩ := List.map_eq_append_iff.mp
      (hrest.trans ((congrArg _ List.flatMap_cons).trans List.map_append))
    obtain ⟨front', more', hs', hfront', hmore'⟩ := List.map_eq_append_iff.mp
      (hrest'.trans ((congrArg _ List.flatMap_cons).trans List.map_append))
    obtain ⟨node, hnode⟩ := d.exists_node
    obtain ⟨left, t, n, es, hleft, hgets, hshows, hcosts⟩ :=
      hnode hs hfront hmore hspec hopt hdone
    obtain ⟨left', t', n', es', hleft', hgets', hshows', hcosts'⟩ :=
      hnode hs' hfront' hmore' hspec' hopt' hdone'
    obtain ⟨ns, ns', more_es, hns, hns', hes, hsame⟩ := ih (by rw [hgets.rest]; exact hmore)
      (by rw [hgets'.rest]; exact hmore') hgets.speculating (hgets.inOptional.trans hopt)
      hgets'.speculating (hgets'.inOptional.trans hopt') hleft hleft'
    obtain rfl : es = [] := List.map_eq_nil_iff.mp hcosts
    refine ⟨n :: ns, n' :: ns', es' ++ more_es, hgets.trans hns, hgets'.trans hns', ?_,
      .cons (hshows.sameUpToEnd hshows') hsame⟩
    rw [List.map_append, hes, show es'.map SyntaxError.cause = _ from hcosts']
    cases closed <;> rfl

end Grammar

open Grammar

/-- The reading of a header ends in a state whose root becomes the tree. -/
theorem exists_read_of_start (source : String) (log : DiagnosticLog) (origin : Option String) :
    ∃ s, Grammar.header (.start source (tokenize source) log origin) = .done () s ∧ ∀ {row ns es},
      GetsTo row ns es (.start source (tokenize source) log origin) s →
        ∃ h, Header.read source log origin = .ok h ∧ h.root.kind = .header ∧
          h.root.children = ns ∧ h.errors = es := by
  obtain ⟨s, hdone, _⟩ := exists_header_done source log origin
  obtain ⟨root, _, hroot, _, hread, _⟩ := exists_read_of_header hdone
  refine ⟨s, hdone, fun hgets => ⟨_, hread, ?_⟩⟩
  obtain ⟨rfl, _⟩ := List.cons.inj (hroot.symm.trans (hgets.nodes _ _ rfl))
  exact ⟨rfl, rfl, hgets.errors⟩

/-- Some classes and protocols stand in a header, and some of them lack their `@end`. Every
    declaration is read with all of its members, as it is read where none lacks its `@end`, and each
    missing `@end` costs one error. -/
theorem read_without_ends {source source' : String} (log log' : DiagnosticLog)
    (origin origin' : Option String) {ds : List (WholeDeclaration × Bool)}
    (hsource : (significant (tokenize source)).map Token.face =
      (rowOf (allClosed ds)).map Token.face)
    (hsource' : (significant (tokenize source')).map Token.face = (rowOf ds).map Token.face) :
    ∃ h h', Header.read source log origin = .ok h ∧ Header.read source' log' origin' = .ok h' ∧
      h.errors = [] ∧ h'.errors.map SyntaxError.cause = missingEnds ds ∧
      h.root.kind = .header ∧ h'.root.kind = .header ∧
      SameDeclarations (ds.map Prod.snd) h.root.children h'.root.children := by
  obtain ⟨s, hdone, hs⟩ := exists_read_of_start source log origin
  obtain ⟨s', hdone', hs'⟩ := exists_read_of_start source' log' origin'
  obtain ⟨ns, ns', es, hgets, hgets', hes, hsame⟩ :=
    declarations_without_ends ds hsource hsource' rfl rfl rfl rfl hdone hdone'
  obtain ⟨h, hread, hroot, rfl, herrors⟩ := hs hgets
  obtain ⟨h', hread', hroot', rfl, rfl⟩ := hs' hgets'
  exact ⟨h, h', hread, hread', herrors, hes, hroot, hroot', hsame⟩

set_option maxRecDepth 4096 in
/-- A protocol that is left open in an optional section, in front of a class. -/
theorem read_without_ends_optional :
    ∃ h h', Header.read "@protocol P @optional -a; @end @interface B -b; @end" = .ok h ∧
      Header.read "@protocol P @optional -a; @interface B -b; @end" = .ok h' ∧
      h.errors = [] ∧ h'.errors.map SyntaxError.cause = [.protocolEnd] ∧
      h.root.kind = .header ∧ h'.root.kind = .header ∧
      SameDeclarations [false, true] h.root.children h'.root.children := by
  let front : List Token := [⟨.atProtocol, "@protocol", ⟨0, 9, by decide⟩⟩,
    ⟨.identifier, "P", ⟨10, 11, by decide⟩⟩, ⟨.atOptional, "@optional", ⟨12, 21, by decide⟩⟩,
    ⟨.minus, "-", ⟨22, 23, by decide⟩⟩, ⟨.identifier, "a", ⟨23, 24, by decide⟩⟩,
    ⟨.semicolon, ";", ⟨24, 25, by decide⟩⟩]
  let close : Token := ⟨.atEnd, "@end", ⟨26, 30, by decide⟩⟩
  let back : List Token := [⟨.atInterface, "@interface", ⟨31, 41, by decide⟩⟩,
    ⟨.identifier, "B", ⟨42, 43, by decide⟩⟩, ⟨.minus, "-", ⟨44, 45, by decide⟩⟩,
    ⟨.identifier, "b", ⟨45, 46, by decide⟩⟩, ⟨.semicolon, ";", ⟨46, 47, by decide⟩⟩]
  let back' : List Token := [⟨.atInterface, "@interface", ⟨26, 36, by decide⟩⟩,
    ⟨.identifier, "B", ⟨37, 38, by decide⟩⟩, ⟨.minus, "-", ⟨39, 40, by decide⟩⟩,
    ⟨.identifier, "b", ⟨40, 41, by decide⟩⟩, ⟨.semicolon, ";", ⟨41, 42, by decide⟩⟩]
  let last : Token := ⟨.atEnd, "@end", ⟨48, 52, by decide⟩⟩
  let last' : Token := ⟨.atEnd, "@end", ⟨43, 47, by decide⟩⟩
  have hsource : significant (tokenize "@protocol P @optional -a; @end @interface B -b; @end") =
      front ++ [close] ++ (back ++ [last]) := by
    cbv
  have hsource' : significant (tokenize "@protocol P @optional -a; @interface B -b; @end") =
      front ++ (back' ++ [last']) := by
    cbv
  let first : WholeDeclaration := ⟨true, front, close, rfl, rfl, rfl, fun _ => by decide,
    exists_done_of_test (by decide +kernel)⟩
  let second : WholeDeclaration := ⟨false, back, last, rfl, rfl, rfl, fun h => Bool.noConfusion h,
    exists_done_of_test (by decide +kernel)⟩
  let declared : List (WholeDeclaration × Bool) := [(first, false), (second, true)]
  have hrow : (significant (tokenize "@protocol P @optional -a; @interface B -b; @end")).map
      Token.face = (rowOf declared).map Token.face := by
    rw [hsource']
    rfl
  exact read_without_ends .empty .empty none none (by rw [hsource]; rfl) hrow

end HeaderBridge
