/-
  Text that is inserted into a body. Two headers that differ by some tokens between the members of
  a declaration are compared: if the loop over members gets behind these tokens with some nodes and
  some errors (`Leaves`), the trees differ by these nodes and the lists of errors by these errors
  (`inserted_read`). Everything else is read in lock step.
-/
import HeaderBridge.Proofs.Recovery.Reaching
import HeaderBridge.Proofs.Tree.WellFormed

namespace HeaderBridge

open ReadState (kindOf)
open Bare (bare)
open Rule

/-! ## Nodes with more children -/

/-- The second node is the first one with some more children in between, but for places. -/
def Node.Widened (extra : List Node) (n n' : Node) : Prop :=
  bare n.kind = bare n'.kind ∧ ∃ front back front' back', n.children = front ++ back ∧
    n'.children = front' ++ extra ++ back' ∧ bare front = bare front' ∧ bare back = bare back'

/-- The second tree is the first one with some more nodes below one of its declarations, but for
    places. They stand among the other nodes as in the text. -/
def Node.Inserted (extra : List Node) (root root' : Node) : Prop :=
  bare root.kind = bare root'.kind ∧ ∃ front n back front' n' back',
    root.children = front ++ n :: back ∧ root'.children = front' ++ n' :: back' ∧
    bare front = bare front' ∧ bare back = bare back' ∧ Node.Widened extra n n' ∧
    n'.children.Pairwise Node.Precedes

theorem Node.Widened.of_grown {n n' : Node} {kind kind' : Option NodeKind}
    {cs cs' extra : List Node} (h : bare n = bare n') (hkind : bare kind = bare kind')
    (hcs : bare cs = bare cs') (range range' : Option Span) :
    Node.Widened extra { n.grown kind cs with range }
      { (n'.grown none extra).grown kind' cs' with range := range' } := by
  obtain ⟨hkinds, hbelow⟩ := Node.bare_eq_iff.mp h
  exact ⟨bare_getD hkind hkinds, n.children, cs, n'.children, cs', rfl, rfl, hbelow, hcs⟩

namespace Grammar

/-! ## Declarations -/

/-- The tokens do not change what kind of declaration starts at the state: they do not go on its
    head, and right behind the name of a protocol they do not make it a name only. -/
structure KeepsHead (inProtocol : Bool) (s : ReadState) (ts : List Token) : Prop where
  extension : extendsHead ts = false
  declares : inProtocol = true → s.third = .atEnd → kindOf ts ≠ .semicolon ∧ kindOf ts ≠ .comma

theorem KeepsHead.of_continuesHead {inProtocol : Bool} {s : ReadState} {ts : List Token}
    (h : continuesHead ts = false) : KeepsHead inProtocol s ts := by
  unfold continuesHead at h
  refine ⟨?_, fun _ _ => ⟨fun hkind => ?_, fun hkind => ?_⟩⟩
  · unfold extendsHead
    grind
  · rw [hkind] at h
    cases h
  · rw [hkind] at h
    cases h

/-- Where a body is opened a declaration starts. -/
theorem Opens.declarations_succ {inProtocol : Bool} {s₀ s : ReadState} {tail : List Token}
    (h : Opens inProtocol s₀) (halike : Alike (some tail) s₀ s)
    (htail : KeepsHead inProtocol s₀ tail) (fuel : Nat) : declarations (fuel + 1) s =
      (recoverDeclaration (declaration inProtocol) >>= fun _ => declarations fuel) s := by
  obtain ⟨x, ts, x', ts', hs₀, hs, hx, hts⟩ := halike.facing.cons_of_ne
    (show s₀.current ≠ .atEnd by rw [h.directive]; cases inProtocol <;> decide)
  have hcurrent : s.current = if inProtocol then .atProtocol else .atInterface := by
    rw [ReadState.current_of_cons hs, ← show x.kind = x'.kind from congrArg Prod.fst hx,
      ← ReadState.current_of_cons hs₀]
    exact h.directive
  rw [declarations_round (by rw [hcurrent]; cases inProtocol <;> decide)]
  suffices hforward : inProtocol = true → isForwardProtocol s = false by
    rw [declarationRound_of_directive hcurrent hforward]
  rintro rfl
  refine isForwardProtocol_eq_false ?_
  have hname : kindOf ts = .identifier := by
    have hsecond := h.name
    unfold ReadState.second at hsecond
    rwa [hs₀] at hsecond
  obtain ⟨y, us, y', us', rfl, rfl, _, hus⟩ := hts.cons_of_ne (by rw [hname]; decide)
  have hdeclares := h.declares rfl
  unfold ReadState.third at hdeclares ⊢
  rw [hs₀] at hdeclares
  rw [hs]
  change kindOf us ≠ .semicolon ∧ kindOf us ≠ .comma at hdeclares
  show kindOf us' ≠ .semicolon ∧ kindOf us' ≠ .comma
  obtain ⟨z, _, z', _, rfl, rfl, hz, _⟩ | ⟨hnone, _⟩ | ⟨last, hlast, rfl, htail'⟩ := hus.cases
  · rwa [ReadState.kindOf_cons, show z.kind = z'.kind from congrArg Prod.fst hz] at hdeclares
  · cases hnone
  · -- The name of the protocol is the last token in common.
    rw [← Option.some.inj htail']
    refine htail.declares rfl ?_
    unfold ReadState.third
    rw [hs₀]
    exact hlast

/-- What comes of a rule inside a new node. -/
def finishNode {α : Type} (s : ReadState) : Outcome α → Outcome α
  | .done a t =>
    match closeNode s.currentSpan.start s.position s.nodes.depth t with
    | .ok u => .done a u
    | .error fault => .broken fault
  | .failed e t =>
    match closeNode s.currentSpan.start s.position s.nodes.depth t with
    | .ok u => .failed e u
    | .error fault => .broken fault
  | .broken fault => .broken fault

theorem withNode_eq {α : Type} (kind : NodeKind) (r : Rule α) (s : ReadState) :
    withNode kind r s = finishNode s (r { s with nodes := s.nodes.begin kind }) := by
  unfold withNode finishNode
  cases r { s with nodes := s.nodes.begin kind } <;> rfl

/-- Going on behind a declaration that failed. -/
def resume (e : SyntaxError) : Rule Unit := do
  modify fun s => (s.report e).skipUntil endsBody
  let _ ← eat .atEnd

/-- What comes of a rule behind a declaration that may be broken. -/
def recovered (f : Unit → Rule Unit) : Outcome Unit → Outcome Unit
  | .done _ t => f () t
  | .failed e t => (resume e >>= f) t
  | .broken fault => .broken fault

theorem recoverDeclaration_bind (r : Rule Unit) (f : Unit → Rule Unit) (s : ReadState) :
    (recoverDeclaration r >>= f) s = recovered f (r s) := by
  cases hr : r s with
  | done a t => exact bind_of_done (by unfold recoverDeclaration; rw [hr])
  | failed e t =>
    refine bind_congr ?_
    unfold recoverDeclaration
    rw [hr]
    rfl
  | broken fault => exact bind_of_broken (by unfold recoverDeclaration; rw [hr])

/-- Behind a declaration its node is closed and what follows is read, unless the reading breaks
    off. -/
theorem recovered_done (f : Unit → Rule Unit) (s u : ReadState) :
    (∃ fault, recovered f (finishNode s (.done () u)) = .broken fault) ∨
      ∃ w, closeNode s.currentSpan.start s.position s.nodes.depth u = .ok w ∧
        recovered f (finishNode s (.done () u)) = f () w := by
  simp only [finishNode]
  cases closeNode s.currentSpan.start s.position s.nodes.depth u with
  | error fault => exact Or.inl ⟨fault, rfl⟩
  | ok w => exact Or.inr ⟨w, rfl, rfl⟩

theorem recovered_failed (f : Unit → Rule Unit) (e : SyntaxError) (s u : ReadState) :
    (∃ fault, recovered f (finishNode s (.failed e u)) = .broken fault) ∨
      ∃ w, closeNode s.currentSpan.start s.position s.nodes.depth u = .ok w ∧
        recovered f (finishNode s (.failed e u)) = (resume e >>= f) w := by
  simp only [finishNode]
  cases closeNode s.currentSpan.start s.position s.nodes.depth u with
  | error fault => exact Or.inl ⟨fault, rfl⟩
  | ok w => exact Or.inr ⟨w, rfl, rfl⟩

/-- Where a body is opened the declaration is read in a node of its own. -/
theorem Opens.declarations_eq {inProtocol : Bool} {s₀ s : ReadState} {tail : List Token}
    (h : Opens inProtocol s₀) (halike : Alike (some tail) s₀ s)
    (htail : KeepsHead inProtocol s₀ tail) (fuel : Nat) : declarations (fuel + 1) s =
      recovered (fun _ => declarations fuel) (finishNode s (declarationParts inProtocol
        { s with nodes := s.nodes.begin (declaredKind inProtocol) })) := by
  rw [h.declarations_succ halike htail, recoverDeclaration_bind, declaration_eq, withNode_eq]

/-! ## One body -/

/-- What is read between two states leaves the row, some nodes and some errors. -/
structure GetsTo (row : List Token) (extra : List Node) (es : List SyntaxError) (s t : ReadState) :
    Prop where
  rest : t.rest = row
  speculating : t.speculating = false
  inOptional : t.inOptional = s.inOptional
  nodes : Grows s t none extra
  errors : t.errors.toList = s.errors.toList ++ es

theorem GetsTo.trans {row row' : List Token} {extra extra' : List Node} {es es' : List SyntaxError}
    {s t u : ReadState} (h : GetsTo row extra es s t) (h' : GetsTo row' extra' es' t u) :
    GetsTo row' (extra ++ extra') (es ++ es') s u :=
  ⟨h'.rest, h'.speculating, h'.inOptional.trans h.inOptional, h.nodes.trans h'.nodes, by
    rw [h'.errors, h.errors, List.append_assoc]⟩

/-- In front of `back` the loop over members gets behind the tokens `middle`. They leave nodes and
    cost errors of which `P` holds. -/
def Leaves (inProtocol : Bool) (middle back : List Token)
    (P : List Node → List SyntaxError → Prop) : Prop :=
  ∀ (fuel : Nat) (s : ReadState), s.rest = middle ++ back → s.speculating = false →
    (∃ fault, bodyFrom inProtocol fuel s = .broken fault) ∨
      ∃ more t extra es, bodyFrom inProtocol fuel s = bodyFrom inProtocol more t ∧
        GetsTo back extra es s t ∧ P extra es

theorem Leaves.nil (inProtocol : Bool) (back : List Token) :
    Leaves inProtocol [] back fun extra es => extra = [] ∧ es = [] := fun fuel s hrest hspeculating =>
  Or.inr ⟨fuel, s, [], [], rfl, ⟨hrest, hspeculating, rfl, .refl s, (List.append_nil _).symm⟩, rfl,
    rfl⟩

/-- Tokens are left behind that start with a member, if what this member leaves of them is. -/
theorem Leaves.of_rounds {inProtocol : Bool} {middle back : List Token}
    {P : List Node → List SyntaxError → Prop} (h : ∀ s : ReadState, s.rest = middle ++ back →
      s.speculating = false → endsBody s.current = false ∧
      ((∃ fault, memberRound (memberCause inProtocol) inProtocol s.current s = .broken fault) ∨
        ∃ t extra es left Q,
          memberRound (memberCause inProtocol) inProtocol s.current s = .done () t ∧
          GetsTo (left ++ back) extra es s t ∧ Leaves inProtocol left back Q ∧
          ∀ extra' es', Q extra' es' → P (extra ++ extra') (es ++ es'))) :
    Leaves inProtocol middle back P := by
  intro fuel s hrest hspeculating
  cases fuel with
  | zero => exact Or.inl ⟨.exhausted, rfl⟩
  | succ fuel =>
  obtain ⟨hends, hround⟩ := h s hrest hspeculating
  have hlist : memberList (memberCause inProtocol) inProtocol (fuel + 1) s =
      (memberRound (memberCause inProtocol) inProtocol s.current >>= fun _ =>
        memberList (memberCause inProtocol) inProtocol fuel) s := by
    rw [memberList_succ]
    show (if endsBody s.current = true then _ else _ : Rule Unit) s = _
    rw [if_neg (by rw [hends]; exact Bool.false_ne_true)]
  rcases hround with ⟨fault, hbroken⟩ | ⟨t, extra, es, left, Q, hdone, ht, hleft, hP⟩
  · exact Or.inl ⟨fault, bind_of_broken (hlist.trans (bind_of_broken hbroken))⟩
  have hbody : bodyFrom inProtocol (fuel + 1) s = bodyFrom inProtocol fuel t :=
    bind_congr (hlist.trans (bind_of_done hdone))
  rcases hleft fuel t ht.rest ht.speculating with
    ⟨fault, hbroken⟩ | ⟨more, u, extra', es', heq, hu, hQ⟩
  · exact Or.inl ⟨fault, hbody.trans hbroken⟩
  · exact Or.inr ⟨more, u, _, _, hbody.trans heq, ht.trans hu, hP extra' es' hQ⟩

/-- Tokens that are read as one member are left behind. -/
theorem Leaves.of_round {inProtocol : Bool} {middle back : List Token}
    {P : List Node → List SyntaxError → Prop} (h : ∀ s : ReadState, s.rest = middle ++ back →
      s.speculating = false → endsBody s.current = false ∧
      ((∃ fault, memberRound (memberCause inProtocol) inProtocol s.current s = .broken fault) ∨
        ∃ t extra es, memberRound (memberCause inProtocol) inProtocol s.current s = .done () t ∧
          GetsTo back extra es s t ∧ P extra es)) :
    Leaves inProtocol middle back P := by
  refine .of_rounds fun s hrest hspeculating => ?_
  obtain ⟨hends, hround⟩ := h s hrest hspeculating
  refine ⟨hends, hround.imp_right ?_⟩
  rintro ⟨t, extra, es, hdone, ht, hP⟩
  refine ⟨t, extra, es, [], _, hdone, ht, .nil inProtocol back, ?_⟩
  rintro _ _ ⟨rfl, rfl⟩
  rwa [List.append_nil, List.append_nil]

/-- What is still to be read behind a declaration that may be broken. -/
def Resumption (P : List Node → List SyntaxError → Prop) (s s' : ReadState)
    (o o' : Outcome Unit) : Prop :=
  ∃ (r r' : Rule Unit) (t t' : ReadState), o = r t ∧ o' = r' t' ∧
    AgreeAt none r r' t t' ∧ Alike none t t' ∧ ∃ (n n' : Node) (extra : List Node)
      (es more more' : List SyntaxError), Grows s t none [n] ∧ Grows s' t' none [n'] ∧
      Node.Widened extra n n' ∧ P extra es ∧ t.errors.toList = s.errors.toList ++ more ∧
      t'.errors.toList = s'.errors.toList ++ (es ++ more') ∧
      more.map SyntaxError.cause = more'.map SyntaxError.cause

theorem errors_of_close {t w : ReadState} {start position depth : Nat}
    (hclose : closeNode start position depth t = .ok w) : w.errors = t.errors := by
  obtain ⟨_, _, _, _, _, _, _, rfl⟩ := closeNode_cases hclose
  rfl

/-- Inside of two declarations, of which the second one has some more children and errors. -/
structure Ahead (P : List Node → List SyntaxError → Prop) (s s' t t' : ReadState) : Prop where
  opened : ∃ n n' extra es, t.nodes.opened = n :: s.nodes.opened ∧
    t'.nodes.opened = n'.grown none extra :: s'.nodes.opened ∧ bare n = bare n' ∧
    t'.errors.toList = s'.errors.toList ++ es ∧ P extra es
  errors : t.errors = s.errors

/-- Both declarations are closed, and what follows them is read alike. -/
theorem Ahead.of_close {P : List Node → List SyntaxError → Prop} {r r' : Rule Unit}
    {s s' t t' u u' : ReadState} {o o' : Outcome Unit}
    {start position depth start' position' depth' : Nat} (h : Ahead P s s' t t')
    (halike : Alike none u u') (hgain : SameGain t u t' u')
    (hagree : ∀ w w', AgreeAt none r r' w w')
    (hclosed : (∃ fault, o = .broken fault) ∨
      ∃ w, closeNode start position depth u = .ok w ∧ o = r w)
    (hclosed' : (∃ fault, o' = .broken fault) ∨
      ∃ w', closeNode start' position' depth' u' = .ok w' ∧ o' = r' w') :
    (∃ fault, o = .broken fault) ∨ (∃ fault, o' = .broken fault) ∨ Resumption P s s' o o' := by
  rcases hclosed with hbroken | ⟨w, hclose, ho⟩
  · exact Or.inl hbroken
  rcases hclosed' with hbroken | ⟨w', hclose', ho'⟩
  · exact Or.inr (Or.inl hbroken)
  obtain ⟨⟨n, n', extra, es, hopened, hopened', hbare, hes, hP⟩, herrors⟩ := h
  obtain ⟨⟨kind, cs, kind', cs', hgrows, hgrows', hkind, hcs⟩, more, more', hmore, hmore', hcauses⟩ :=
    hgain
  obtain ⟨⟨range, hw⟩, _⟩ := AgreeAt.grows_of_close (hgrows n _ hopened) hclose
  obtain ⟨⟨range', hw'⟩, _⟩ := AgreeAt.grows_of_close (hgrows' _ _ hopened') hclose'
  refine Or.inr (Or.inr ⟨r, r', w, w', ho, ho', hagree w w',
    AgreeAt.alike_close halike hclose hclose', _, _, extra, es, more, more', hw, hw',
    .of_grown hbare hkind hcs range range', hP, ?_, ?_, hcauses⟩)
  · rw [errors_of_close hclose, hmore, herrors]
  · rw [errors_of_close hclose', hmore', hes, List.append_assoc]

theorem resume_agreeAt {e e' : SyntaxError} (hcause : e.cause = e'.cause)
    (hnew : e.reported = false) (hnew' : e'.reported = false) (s s' : ReadState) :
    AgreeAt none (resume e) (resume e') s s' :=
  (AgreeAt.reportThenSkip hcause hnew hnew' endsBody s s').bind fun _ _ t t' _ =>
    .eatThenPure .atEnd t t'

/-- Where the rest of both declarations is read alike, so is what follows them. -/
theorem Ahead.resumption {P : List Node → List SyntaxError → Prop} {s s' t t' : ReadState}
    {o o' : Outcome Unit} (h : Ahead P s s' t t') (hagreed : Agreed none t t' o o')
    (hnew : ∀ e u, o = .failed e u → e.reported = false) (fuel fuel' : Nat) :
    (∃ fault, recovered (fun _ => declarations fuel) (finishNode s o) = .broken fault) ∨
      (∃ fault, recovered (fun _ => declarations fuel') (finishNode s' o') = .broken fault) ∨
      Resumption P s s' (recovered (fun _ => declarations fuel) (finishNode s o))
        (recovered (fun _ => declarations fuel') (finishNode s' o')) := by
  cases hagreed with
  | broken fault o' => exact Or.inl ⟨fault, rfl⟩
  | brokenToo o fault => exact Or.inr (Or.inl ⟨fault, rfl⟩)
  | doneOut a o' out => exact absurd out (not_ranOut_none _)
  | failedOut e o' out => exact absurd out (not_ranOut_none _)
  | done _ alike gain =>
    exact h.of_close alike gain (declarations_agreeAt fuel fuel') (recovered_done _ s _)
      (recovered_done _ s' _)
  | @failed e e' u u' causes reported alike gain =>
    refine h.of_close alike gain (fun w w' => ?_) (recovered_failed _ e s u)
      (recovered_failed _ e' s' u')
    exact (resume_agreeAt causes (hnew e u rfl) reported w w').bind fun _ _ v v' _ =>
      declarations_agreeAt fuel fuel' v v'

/-- Two headers stand before a declaration, of which the second one has some more tokens between the
    members. -/
theorem Opens.insert {inProtocol : Bool} {middle back back' : List Token}
    {P : List Node → List SyntaxError → Prop} {s₀ s s' : ReadState} (h : Opens inProtocol s₀)
    (hleaves : Leaves inProtocol middle back' P) (hback : back.map Token.face = back'.map Token.face)
    (htail : KeepsHead inProtocol s₀ back) (htail' : KeepsHead inProtocol s₀ (middle ++ back'))
    (halike : Alike (some back) s₀ s) (halike' : Alike (some (middle ++ back')) s₀ s')
    (hspeculating : s₀.speculating = false) (fuel fuel' : Nat) :
    (∃ fault, declarations fuel s = .broken fault) ∨
      (∃ fault, declarations fuel' s' = .broken fault) ∨
      Resumption P s s' (declarations fuel s) (declarations fuel' s') := by
  cases fuel with
  | zero => exact Or.inl ⟨.exhausted, rfl⟩
  | succ fuel =>
  cases fuel' with
  | zero => exact Or.inr (Or.inl ⟨.exhausted, rfl⟩)
  | succ fuel' =>
  rw [h.declarations_eq halike htail, h.declarations_eq halike' htail']
  obtain ⟨node, inOptional, hresumes⟩ := h.resumes
  rcases hresumes s back halike htail.extension with
    ⟨fault, hbroken⟩ | ⟨more, t, n, hparts, ht, htspec, htopt, hterrors, hopened, hbare⟩
  · rw [hbroken]
    exact Or.inl ⟨fault, rfl⟩
  rcases hresumes s' _ halike' htail'.extension with
    ⟨fault, hbroken⟩ | ⟨more', t', n', hparts', ht', htspec', htopt', hterrors', hopened', hbare'⟩
  · rw [hbroken]
    exact Or.inr (Or.inl ⟨fault, rfl⟩)
  rw [← halike.speculating, hspeculating] at htspec
  rw [← halike'.speculating, hspeculating] at htspec'
  rw [hparts, hparts']
  rcases hleaves more' t' ht' htspec' with ⟨fault, hbroken⟩ | ⟨most, u', extra, es, heq, hu', hP⟩
  · rw [hbroken]
    exact Or.inr (Or.inl ⟨fault, rfl⟩)
  rw [heq]
  -- Behind the inserted tokens both loops stand before the same faces.
  have halike : Alike none t u' := ⟨by rw [ht, hu'.rest]; exact hback,
    htspec.trans hu'.speculating.symm, by rw [hu'.inOptional, htopt, htopt']⟩
  have hlock : AgreeAt none (bodyFrom inProtocol more) (bodyFrom inProtocol most) t u' :=
    bodyFrom_agreeAt inProtocol more most t u'
  have hahead : Ahead P s s' t u' := ⟨⟨n, n', extra, es, hopened, hu'.nodes n' _ hopened',
    hbare.trans hbare'.symm, by rw [hu'.errors, hterrors'], hP⟩, hterrors⟩
  exact hahead.resumption (hlock.agreed halike (not_ranOut_none _))
    (fun e u hfailed => (hlock.keeps.of_failed hfailed).2) fuel fuel'

/-! ## Whole headers -/

/-- A parser at the start of a header of which the tokens are known. -/
def before (ts : List Token) : ReadState := { ReadState.start "" [] .empty none with rest := ts }

/-- Whether a rule is done, and a test holds of the state behind it. -/
def isDoneWith (test : ReadState → Bool) : Outcome Unit → Bool
  | .done _ s => test s
  | _ => false

theorem exists_of_isDoneWith {test : ReadState → Bool} {outcome : Outcome Unit}
    (h : isDoneWith test outcome = true) : ∃ s, outcome = .done () s ∧ test s = true := by
  cases outcome with
  | done _ s => exact ⟨s, rfl, h⟩
  | failed _ _ => cases h
  | broken _ => cases h

theorem start_eq {source : String} {row : List Token} (hrow : significant (tokenize source) = row) :
    ReadState.start source (tokenize source) .empty none =
      { before row with sourceLength := source.utf8ByteSize } := by
  subst hrow
  rfl

/-- What a test finds behind the declarations of a source is to be found in its header. -/
theorem exists_read_of_isDoneWith {source : String} {row : List Token} {test : ReadState → Bool}
    (hrow : significant (tokenize source) = row)
    (htest : isDoneWith test (header { before row with sourceLength := source.utf8ByteSize }) =
      true) :
    ∃ h s root, Header.read source = .ok h ∧ test s = true ∧ s.nodes.opened = [root] ∧
      h.root = { root with range := h.root.range } ∧ h.errors = s.errors.toList ∧ h.log = s.log := by
  rw [← start_eq hrow] at htest
  obtain ⟨s, hdone, htest⟩ := exists_of_isDoneWith htest
  obtain ⟨root, _, hopened, _, hread, _⟩ := exists_read_of_header hdone
  exact ⟨_, s, root, hread, htest, hopened, rfl, rfl, rfl⟩

/-- With an `@end` behind them the tokens are a header whose last declaration, a class or a protocol,
    is read without errors: they lead to a place between the members of its body. Wherever the
    grammar of headers has such a place it is one (`LeadsInto.of_spelling`). -/
def LeadsInto (inProtocol : Bool) (ts : List Token) : Prop :=
  ∃ (last : Token) (s : ReadState), last.kind = .atEnd ∧ ComesTo (before (ts ++ [last])) s ∧
    Opens inProtocol s

end Grammar

open Grammar

theorem Node.bare_grown {n n' : Node} {kind kind' : Option NodeKind} {cs cs' : List Node}
    (h : bare n = bare n') (hkind : bare kind = bare kind') (hcs : bare cs = bare cs') :
    bare (n.grown kind cs) = bare (n'.grown kind' cs') := by
  obtain ⟨hkinds, hbelow⟩ := Node.bare_eq_iff.mp h
  refine Node.bare_eq_iff.mpr ⟨bare_getD hkind hkinds, ?_⟩
  show bare (n.children ++ cs) = bare (n'.children ++ cs')
  rw [bare_append, bare_append, hbelow, hcs]

/-- Where only the root is open, what is gained is gained by the root. -/
theorem SameGain.root {s t s' t' : ReadState} {root : Node} (h : SameGain s t s' t')
    (hs : s.nodes.opened = [root]) (hs' : s'.nodes.opened = [root]) :
    ∃ n n', t.nodes.opened = [n] ∧ t'.nodes.opened = [n'] ∧ bare n = bare n' := by
  obtain ⟨⟨kind, cs, kind', cs', hgrows, hgrows', hkind, hcs⟩, _⟩ := h
  exact ⟨_, _, hgrows root [] hs, hgrows' root [] hs', Node.bare_grown rfl hkind hcs⟩

/-- What opens a declaration is seen, whatever stands behind what the rows have in common. -/
theorem Grammar.Opens.not_ranOut {inProtocol : Bool} {s : ReadState} (h : Opens inProtocol s)
    (tail : List Token) : ¬ RanOut (some tail) s.rest := by
  intro hout
  have hdirective := h.directive
  cases inProtocol with
  | false => exact hout.kindOf_ne rfl (by decide) (by decide) hdirective
  | true => exact hout.kindOf_ne rfl (by decide) (by decide) hdirective

/-- Two headers that come to the same place have the same nodes and errors there, but for places. -/
theorem Grammar.ComesTo.both {tail tail' : List Token} {s₀ t₀ s s' f f' : ReadState} {root : Node}
    {fuel fuel' : Nat} (h : ComesTo s₀ t₀) (hsees : ∀ tail, ¬ RanOut (some tail) t₀.rest)
    (halike : Alike (some tail) s₀ s) (halike' : Alike (some tail') s₀ s')
    (hroot₀ : s₀.nodes.opened = [root]) (hroot : s.nodes.opened = [root])
    (hroot' : s'.nodes.opened = [root]) (hdone : declarations fuel s = .done () f)
    (hdone' : declarations fuel' s' = .done () f') :
    ∃ more t more' t', declarations more t = .done () f ∧ declarations more' t' = .done () f' ∧
      Alike (some tail) t₀ t ∧ Alike (some tail') t₀ t' ∧
      (∃ n n', t.nodes.opened = [n] ∧ t'.nodes.opened = [n'] ∧ bare n = bare n') ∧
      ∃ es es', t.errors.toList = s.errors.toList ++ es ∧
        t'.errors.toList = s'.errors.toList ++ es' ∧
        es.map SyntaxError.cause = es'.map SyntaxError.cause := by
  rcases h.resumes (hsees tail) halike fuel with ⟨_, hbroken⟩ | ⟨more, t, heq, hlike, hgain⟩
  · rw [hdone] at hbroken
    cases hbroken
  rcases h.resumes (hsees tail') halike' fuel' with
    ⟨_, hbroken⟩ | ⟨more', t', heq', hlike', hgain'⟩
  · rw [hdone'] at hbroken
    cases hbroken
  obtain ⟨n₀, n, hn₀, hn, hbare⟩ := hgain.root hroot₀ hroot
  obtain ⟨n₁, n', hn₁, hn', hbare'⟩ := hgain'.root hroot₀ hroot'
  obtain rfl : n₀ = n₁ := (List.cons.inj (hn₀.symm.trans hn₁)).1
  obtain ⟨_, es₀, es, hes₀, hes, hcauses⟩ := hgain
  obtain ⟨_, es₁, es', hes₁, hes', hcauses'⟩ := hgain'
  obtain rfl : es₀ = es₁ := List.append_cancel_left (hes₀.symm.trans hes₁)
  exact ⟨more, t, more', t', heq ▸ hdone, heq' ▸ hdone', hlike, hlike',
    ⟨n, n', hn, hn', hbare.symm.trans hbare'⟩, es, es', hes, hes', hcauses.symm.trans hcauses'⟩

/-- Where what follows both declarations is read to the end, the second tree is the first one with
    some more nodes. -/
theorem Grammar.Resumption.inserted {P : List Node → List SyntaxError → Prop}
    {s s' f f' : ReadState} {n n' root root' : Node}
    (h : Resumption P s s' (.done () f) (.done () f')) (hn : s.nodes.opened = [n])
    (hn' : s'.nodes.opened = [n']) (hbare : bare n = bare n') (hroot : f.nodes.opened = [root])
    (hroot' : f'.nodes.opened = [root'])
    (hordered : ∀ m ∈ root'.children, m.children.Pairwise Node.Precedes) :
    ∃ extra es more more', Node.Inserted extra root root' ∧ P extra es ∧
      f.errors.toList = s.errors.toList ++ more ∧
      f'.errors.toList = s'.errors.toList ++ (es ++ more') ∧
      more.map SyntaxError.cause = more'.map SyntaxError.cause := by
  obtain ⟨r, r', w, w', hr, hr', hagree, halike, m, m', extra, es, more, more', hm, hm', hwidened, hP,
    hmore, hmore', hcauses⟩ := h
  have hagreed := hagree.agreed halike (not_ranOut_none _)
  rw [← hr, ← hr'] at hagreed
  cases hagreed with
  | doneOut _ _ out => exact absurd out (not_ranOut_none _)
  | done _ _ gain =>
  obtain ⟨⟨kind, cs, kind', cs', hgrows, hgrows', hkind, hcs⟩, rest, rest', hrest, hrest', hcauses_rest⟩ :=
    gain
  rw [hgrows _ _ (hm n _ hn)] at hroot
  rw [hgrows' _ _ (hm' n' _ hn')] at hroot'
  obtain ⟨rfl, _⟩ := List.cons.inj hroot
  obtain ⟨rfl, _⟩ := List.cons.inj hroot'
  obtain ⟨hkinds, hbelow⟩ := Node.bare_eq_iff.mp hbare
  have hchildren : n.children ++ [m] ++ cs = n.children ++ m :: cs := List.append_assoc _ _ _
  have hchildren' : n'.children ++ [m'] ++ cs' = n'.children ++ m' :: cs' := List.append_assoc _ _ _
  have hmem : m' ∈ n'.children ++ [m'] ++ cs' := by simp
  refine ⟨extra, es, more ++ rest, more' ++ rest', ⟨bare_getD hkind hkinds, n.children, m, cs,
    n'.children, m', cs', hchildren, hchildren', hbelow, hcs, hwidened, hordered m' hmem⟩, hP, ?_, ?_,
    ?_⟩
  · rw [hrest, hmore, List.append_assoc]
  · rw [hrest', hmore', List.append_assoc, List.append_assoc]
  · rw [List.map_append, List.map_append, hcauses, hcauses_rest]

/-- Two headers that differ by some tokens between the members of a declaration differ by the nodes
    and the errors that come of these tokens, if neither these nor what stands behind them changes
    the head of the declaration. -/
theorem inserted_read_of_opens {source source' : String} (log log' : DiagnosticLog)
    (origin origin' : Option String) {inProtocol : Bool}
    {front front' middle back back' : List Token} {P : List Node → List SyntaxError → Prop}
    {last : Token} {s₀ : ReadState}
    (hsource : significant (tokenize source) = front ++ back)
    (hsource' : significant (tokenize source') = front' ++ (middle ++ back'))
    (hfront : front.map Token.face = front'.map Token.face)
    (hback : back.map Token.face = back'.map Token.face) (hlast : last.kind = .atEnd)
    (hcomes : ComesTo (before (front ++ [last])) s₀) (hopens : Opens inProtocol s₀)
    (htail : KeepsHead inProtocol s₀ back) (htail' : KeepsHead inProtocol s₀ (middle ++ back'))
    (hleaves : Leaves inProtocol middle back' P) :
    ∃ h h' extra es, Header.read source log origin = .ok h ∧
      Header.read source' log' origin' = .ok h' ∧
      Node.Inserted extra h.root h'.root ∧ P extra es ∧ ∃ first more first' more',
        h.errors = first ++ more ∧ h'.errors = first' ++ es ++ more' ∧
        first.map SyntaxError.cause = first'.map SyntaxError.cause ∧
        more.map SyntaxError.cause = more'.map SyntaxError.cause := by
  obtain ⟨f, hdone, _⟩ := exists_header_done source log origin
  obtain ⟨f', hdone', _⟩ := exists_header_done source' log' origin'
  obtain ⟨root, _, hroot, _, hread, _⟩ := exists_read_of_header hdone
  obtain ⟨root', _, hroot', _, hread', hwell⟩ := exists_read_of_header hdone'
  have halike : Alike (some back) (before (front ++ [last]))
      (.start source (tokenize source) log origin) :=
    ⟨⟨front, last, front, hlast, rfl, hsource, rfl⟩, rfl, rfl⟩
  have halike' : Alike (some (middle ++ back')) (before (front ++ [last]))
      (.start source' (tokenize source') log' origin') :=
    ⟨⟨front, last, front', hlast, rfl, hsource', hfront⟩, rfl, rfl⟩
  have hspeculating : s₀.speculating = false := hcomes.keeps.speculating
  -- Both loops come to the declaration with the same nodes and errors, ...
  change declarations _ _ = _ at hdone hdone'
  obtain ⟨fuel, t, fuel', t', hdone, hdone', halikeₜ, halikeₜ', ⟨n, n', hn, hn', hbare⟩, first, first',
    hfirst, hfirst', hcauses⟩ := hcomes.both hopens.not_ranOut halike halike' rfl rfl rfl hdone hdone'
  -- ... read it, and agree on what is left.
  have hboth := hopens.insert hleaves hback htail htail' halikeₜ halikeₜ' hspeculating fuel fuel'
  rw [hdone, hdone'] at hboth
  rcases hboth with ⟨_, hbroken⟩ | ⟨_, hbroken⟩ | hresumption
  · cases hbroken
  · cases hbroken
  obtain ⟨extra, es, more, more', hinserted, hP, hmore, hmore', hcauses'⟩ :=
    hresumption.inserted hn hn' hbare hroot hroot' fun m hm =>
      hwell.ordered m (Node.mem_sequence_of_mem_children hm)
  refine ⟨_, _, extra, es, hread, hread', hinserted, hP, first, more, first', more', ?_, ?_, hcauses,
    hcauses'⟩
  · show f.errors.toList = _
    rw [hmore, hfirst]
    rfl
  · show f'.errors.toList = _
    rw [hmore', hfirst', List.append_assoc, List.append_assoc]
    rfl

/-- The same where the tokens and what stands behind them can neither go on a head nor make it a name
    only. -/
theorem inserted_read {source source' : String} (log log' : DiagnosticLog)
    (origin origin' : Option String) {inProtocol : Bool}
    {front front' middle back back' : List Token} {P : List Node → List SyntaxError → Prop}
    (hsource : significant (tokenize source) = front ++ back)
    (hsource' : significant (tokenize source') = front' ++ (middle ++ back'))
    (hfront : front.map Token.face = front'.map Token.face)
    (hback : back.map Token.face = back'.map Token.face) (hplace : LeadsInto inProtocol front)
    (htail : continuesHead back = false) (htail' : continuesHead (middle ++ back') = false)
    (hleaves : Leaves inProtocol middle back' P) :
    ∃ h h' extra es, Header.read source log origin = .ok h ∧
      Header.read source' log' origin' = .ok h' ∧
      Node.Inserted extra h.root h'.root ∧ P extra es ∧ ∃ first more first' more',
        h.errors = first ++ more ∧ h'.errors = first' ++ es ++ more' ∧
        first.map SyntaxError.cause = first'.map SyntaxError.cause ∧
        more.map SyntaxError.cause = more'.map SyntaxError.cause := by
  obtain ⟨last, s₀, hlast, hcomes, hopens⟩ := hplace
  exact inserted_read_of_opens log log' origin origin' hsource hsource' hfront hback hlast hcomes hopens
    (.of_continuesHead htail) (.of_continuesHead htail') hleaves

end HeaderBridge
