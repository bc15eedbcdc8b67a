/-
  Agreement of the ways in which rules are built: passing over tokens, leaves and nodes, recovery,
  and lists.
-/
import HeaderBridge.Proofs.Agreement.Outcomes

namespace HeaderBridge

open ReadState (kindOf)
open Bare (bare)

/-! ## Passing over tokens -/

/-- A test that cannot tell rows of the same faces apart. -/
def SeesFaces (tail : Option (List Token)) (go : List Token → Bool) : Prop :=
  ∀ ts us, Facing tail ts us → ¬ RanOut tail ts → go ts = go us

/-- Tokens over which a test allows to pass have the same faces in both rows, and so do the tokens
    behind them. -/
theorem Facing.passed {tail : Option (List Token)} {go : List Token → Bool}
    (hgo : SeesFaces tail go) {front rest front' rest' : List Token}
    (h : Facing tail (front ++ rest) (front' ++ rest'))
    (hfront : ∀ before t after, front = before ++ t :: after → go (t :: after ++ rest) = true)
    (hrest : rest = [] ∨ go rest = false)
    (hfront' : ∀ before t after, front' = before ++ t :: after → go (t :: after ++ rest') = true)
    (hrest' : rest' = [] ∨ go rest' = false) :
    RanOut tail rest ∨
      (front.map Token.face = front'.map Token.face ∧ Facing tail rest rest') := by
  induction front generalizing front' with
  | nil =>
    by_cases hout : RanOut tail rest
    · exact Or.inl hout
    rw [List.nil_append] at h
    cases front' with
    | nil => exact Or.inr ⟨rfl, h⟩
    | cons u front' =>
      -- The second row cannot have passed over a token that the first row stopped at.
      have htrue := hfront' [] u front' rfl
      rw [← hgo _ _ h hout] at htrue
      rcases hrest with rfl | hfalse
      · obtain ⟨_, hnil⟩ | ⟨_, _, _, _, hcons, _⟩ := h.cases_of_sees hout
        · cases hnil
        · cases hcons
      · rw [hfalse] at htrue
        cases htrue
  | cons t front ih =>
    by_cases hout : RanOut tail (t :: front ++ rest)
    · exact Or.inl hout.of_append
    obtain ⟨u, us, heq, hface, hnext⟩ := h.cons_left hout
    have htrue := hfront [] t front rfl
    cases front' with
    | nil =>
      rw [List.nil_append] at heq h
      rw [hgo _ _ h hout] at htrue
      rcases hrest' with rfl | hfalse
      · cases heq
      · rw [hfalse] at htrue
        cases htrue
    | cons u' front' =>
      obtain ⟨rfl, rfl⟩ := List.cons.inj heq
      have hih := ih hnext (fun before v after hv => hfront (t :: before) v after (by rw [hv]; rfl))
        fun before v after hv => hfront' (u' :: before) v after (by rw [hv]; rfl)
      refine hih.imp_right fun ⟨hfaces, hfacing⟩ => ⟨?_, hfacing⟩
      rw [List.map_cons, List.map_cons, hface, hfaces]

namespace Rule

/-! ## What is kept -/

section Keeping

variable {α : Type} {s : ReadState}

theorem keeps_close {t u : ReadState} {kind : NodeKind} {start position depth : Nat}
    (h : Keeps { s with nodes := s.nodes.begin kind } t)
    (hclose : closeNode start position depth t = .ok u) : Keeps s u := by
  obtain ⟨_, _, _, _, _, _, _, rfl⟩ := closeNode_cases hclose
  exact ⟨h.rest, h.nil, h.errors, h.speculating⟩

theorem ends_withNode {kind : NodeKind} {r : Rule α} {Q Q' : α → ReadState → Prop}
    {E E' : SyntaxError → ReadState → Prop}
    (h : Ends True r { s with nodes := s.nodes.begin kind } Q E)
    (hQ : ∀ a t u, Q a t → closeNode s.currentSpan.start s.position s.nodes.depth t = .ok u → Q' a u)
    (hE : ∀ e t u, E e t → closeNode s.currentSpan.start s.position s.nodes.depth t = .ok u →
      E' e u) : Ends True (Rule.withNode kind r) s Q' E' := by
  unfold Ends at h ⊢
  unfold Rule.withNode
  cases hr : r { s with nodes := s.nodes.begin kind } with
  | broken fault => trivial
  | done a t =>
    rw [hr] at h
    simp only []
    cases hc : closeNode s.currentSpan.start s.position s.nodes.depth t with
    | error fault => trivial
    | ok u => exact hQ a t u h hc
  | failed e t =>
    rw [hr] at h
    simp only []
    cases hc : closeNode s.currentSpan.start s.position s.nodes.depth t with
    | error fault => trivial
    | ok u => exact hE e t u h hc

theorem Keeping.withNode {kind : NodeKind} {r : Rule α}
    (h : Keeping r { s with nodes := s.nodes.begin kind }) : Keeping (withNode kind r) s :=
  ends_withNode h (fun _ _ _ hkeeps hclose => keeps_close hkeeps hclose) fun _ _ _ hkeeps hclose =>
    ⟨keeps_close hkeeps.1 hclose, hkeeps.2⟩

theorem errors_report {e : SyntaxError} (hnew : e.reported = false) :
    (s.report e).errors.size = s.errors.size + 1 := by
  unfold ReadState.report
  rw [hnew]
  simp

theorem errors_reportThenSkip {e : SyntaxError} (hnew : e.reported = false)
    {stop : TokenKind → Bool} :
    ((s.report e).skipUntil stop).errors.size = s.errors.size + 1 := by
  obtain ⟨_, _, _, he⟩ := ReadState.Reads.skipUntil stop (s.report e)
  rw [he, ReadState.past_errors, errors_report hnew]

theorem keeps_reportThenSkip (s : ReadState) (e : SyntaxError) (stop : TokenKind → Bool) :
    Keeps s ((s.report e).skipUntil stop) :=
  (Keeps.report s e).trans (.of_reads (.skipUntil stop _))

theorem Keeping.recover {r : Rule α} (h : Keeping r s) (sync : TokenKind → Bool) :
    Keeping (recover r sync) s := by
  unfold Keeping Ends at h ⊢
  unfold Rule.recover
  cases hr : r s with
  | broken fault => trivial
  | done a t => rw [hr] at h; exact h
  | failed e t => rw [hr] at h; exact h.1.trans (keeps_reportThenSkip t e sync)

theorem Keeping.recoverMember {r : Rule Unit} (h : Keeping r s) :
    Keeping (Grammar.recoverMember r) s := by
  unfold Keeping Ends at h ⊢
  unfold Grammar.recoverMember
  cases hr : r s with
  | broken fault => trivial
  | done a t => rw [hr] at h; exact h
  | failed e t => rw [hr] at h; exact h.1.trans (keeps_reportThenSkip t e _)

end Keeping

namespace AgreeAt

variable {tail : Option (List Token)} {s s' : ReadState}

theorem readWhile_cases {go : List Token → Bool} (hgo : SeesFaces tail go)
    (halike : Alike tail s s') : RanOut tail (s.readWhile go).rest ∨
      ∃ front front', front.map Token.face = front'.map Token.face ∧
        s.HasRead front (s.readWhile go) ∧ s'.HasRead front' (s'.readWhile go) ∧
        Facing tail (s.readWhile go).rest (s'.readWhile go).rest := by
  obtain ⟨front, rest, hr, he, hfront, hrest⟩ := ReadState.Reads.readWhile_spec go s
  obtain ⟨front', rest', hr', he', hfront', hrest'⟩ := ReadState.Reads.readWhile_spec go s'
  have hfacing := halike.facing
  rw [hr, hr'] at hfacing
  rw [he, he', ReadState.past_rest, ReadState.past_rest]
  rcases hfacing.passed hgo hfront hrest hfront' hrest' with hout | ⟨hfaces, hrest⟩
  · exact Or.inl hout
  · exact Or.inr ⟨front, front', hfaces, ⟨rest, hr, rfl⟩, ⟨rest', hr', rfl⟩, hrest⟩

/-- A change that only reads agrees with one that comes to a row of the same faces. -/
theorem modifyReads {change change' : ReadState → ReadState} (hreads : s.Reads (change s))
    (hreads' : s'.Reads (change' s'))
    (h : Alike tail s s' → ¬ RanOut tail s.rest → RanOut tail (change s).rest ∨
      Facing tail (change s).rest (change' s').rest) :
    AgreeAt tail (Rule.modify change) (Rule.modify change') s s' := by
  refine modify (.of_reads hreads) fun halike hsees => (h halike hsees).imp_right fun hfacing => ?_
  exact ⟨halike.of_reads hreads hreads' hfacing, .of_reads hreads hreads'⟩

theorem modifyWhile {go : List Token → Bool} (hgo : SeesFaces tail go) (s s' : ReadState) :
    AgreeAt tail (Rule.modify (·.readWhile go)) (Rule.modify (·.readWhile go)) s s' := by
  refine modifyReads (.readWhile go s) (.readWhile go s') fun halike _ => ?_
  exact (readWhile_cases hgo halike).imp_right fun ⟨_, _, _, _, _, hfacing⟩ => hfacing

/-- What is made of the tokens over which a test allows to pass, if it is made of their faces. -/
theorem readWhileThen {α : Type} [Bare α] {go : List Token → Bool} (hgo : SeesFaces tail go)
    {f : List Token → α}
    (hf : ∀ ts us, ts.map Token.face = us.map Token.face → bare (f ts) = bare (f us))
    (s s' : ReadState) :
    AgreeAt tail (do
      let before ← Rule.state
      Rule.modify (·.readWhile go)
      let after ← Rule.state
      return f (before.rest.take (after.position - before.position))) (do
      let before ← Rule.state
      Rule.modify (·.readWhile go)
      let after ← Rule.state
      return f (before.rest.take (after.position - before.position))) s s' := by
  have passed : ∀ {s : ReadState} {front : List Token}, s.HasRead front (s.readWhile go) →
      s.rest.take ((s.readWhile go).position - s.position) = front := by
    rintro s front ⟨rest, hr, he⟩
    rw [he, ReadState.past_position, Nat.add_sub_cancel, hr, List.take_left]
  refine ⟨Keeps.of_reads (.readWhile go s), fun halike _ => ?_⟩
  show Agreed tail s s' (.done (f (s.rest.take ((s.readWhile go).position - s.position))) _)
    (.done (f (s'.rest.take ((s'.readWhile go).position - s'.position))) _)
  rcases readWhile_cases hgo halike with hout | ⟨front, front', hfaces, hread, hread', hfacing⟩
  · exact .doneOut _ _ hout
  · rw [passed hread, passed hread']
    refine .done (hf _ _ hfaces) ?_ (.of_reads hread.reads hread'.reads)
    exact halike.of_reads hread.reads hread'.reads hfacing

theorem skipUntil (stop : TokenKind → Bool) (s s' : ReadState) :
    AgreeAt tail (Rule.modify (·.skipUntil stop)) (Rule.modify (·.skipUntil stop)) s s' :=
  modifyWhile (fun ts us h hsees => by rw [h.kindOf_eq hsees]) s s'

theorem facing_skipGroup {opening closing : TokenKind} (h : Facing tail s.rest s'.rest) :
    RanOut tail (s.skipGroup opening closing).rest ∨
      Facing tail (s.skipGroup opening closing).rest (s'.skipGroup opening closing).rest := by
  have key : ∀ ts us depth passed passed', Facing tail ts us →
      RanOut tail (ReadState.skipGroup.move opening closing s depth passed ts).rest ∨
        Facing tail (ReadState.skipGroup.move opening closing s depth passed ts).rest
          (ReadState.skipGroup.move opening closing s' depth passed' us).rest := by
    intro ts
    induction ts with
    | nil =>
      intro us depth passed passed' h
      by_cases hout : RanOut tail []
      · exact Or.inl hout
      · obtain ⟨_, rfl⟩ | ⟨_, _, _, _, hcons, _⟩ := h.cases_of_sees hout
        · exact Or.inr h
        · cases hcons
    | cons t ts ih =>
      intro us depth passed passed' h
      by_cases hout : RanOut tail (t :: ts)
      · obtain ⟨front, rest, hrow, hmove⟩ :=
          ReadState.Reads.exists_skipGroup_move opening closing s (t :: ts) depth passed
        rw [hrow] at hout
        rw [hmove]
        exact Or.inl hout.of_append
      obtain ⟨u, us, rfl, hface, hrest⟩ := h.cons_left hout
      have hkind : t.kind = u.kind := congrArg Prod.fst hface
      rw [ReadState.skipGroup_move_cons, ReadState.skipGroup_move_cons, ← hkind]
      split
      · exact ih us _ _ _ hrest
      · split
        · split
          · exact Or.inr hrest
          · exact ih us _ _ _ hrest
        · exact ih us _ _ _ hrest
  exact key s.rest s'.rest 0 s.passed s'.passed h

/-- A group in brackets is read if there is one. -/
def optionalGroup (opening closing : TokenKind) (s : ReadState) : ReadState :=
  if s.current = opening then s.skipGroup opening closing else s

theorem reads_optionalGroup (opening closing : TokenKind) (s : ReadState) :
    s.Reads (optionalGroup opening closing s) := by
  unfold optionalGroup
  split
  · exact .skipGroup opening closing s
  · exact .refl s

theorem facing_optionalGroup {opening closing : TokenKind} (h : Facing tail s.rest s'.rest) :
    RanOut tail (optionalGroup opening closing s).rest ∨
      Facing tail (optionalGroup opening closing s).rest (optionalGroup opening closing s').rest := by
  by_cases hout : RanOut tail s.rest
  · exact Or.inl ((Keeps.of_reads (reads_optionalGroup opening closing s)).rest tail hout)
  · have hcurrent : s.current = s'.current := h.kindOf_eq hout
    unfold optionalGroup
    rw [← hcurrent]
    split
    · exact facing_skipGroup h
    · exact Or.inr h

/-! ## Leaves and nodes -/

theorem bare_leaf {id id' : Nat} {kind kind' : NodeKind} {range range' : Option Span}
    (h : bare kind = bare kind') :
    bare [(⟨id, kind, range, []⟩ : Node)] = bare [(⟨id', kind', range', []⟩ : Node)] :=
  congrArg (fun n => [n]) (Node.bare_eq_iff.mpr ⟨h, rfl⟩)

theorem leaf_cases (kind : NodeKind) (span : Span) (s : ReadState) :
    (∃ fault, Rule.leaf kind span s = .broken fault) ∨
      ∃ nodes, Rule.leaf kind span s = .done () { s with nodes } ∧
        Grows s { s with nodes } none [⟨s.nodes.nextId, kind, some span, []⟩] := by
  unfold Rule.leaf modifyOrBreak
  simp only [NodeStack.fresh]
  cases hattach : NodeStack.attach _ _ with
  | error fault => exact Or.inl ⟨fault, rfl⟩
  | ok nodes =>
    refine Or.inr ⟨nodes, rfl, fun n outer ho => ?_⟩
    obtain ⟨m, outer', hm, rfl⟩ := NodeStack.attach_cases hattach
    cases ho.symm.trans hm
    rfl

theorem keeping_leaf (kind : NodeKind) (span : Span) (s : ReadState) :
    Keeping (Rule.leaf kind span) s :=
  ends_leaf.mpr fun _ _ => .of_eq rfl rfl rfl

theorem leaf {kind kind' : NodeKind} (h : bare kind = bare kind') (span span' : Span)
    (s s' : ReadState) : AgreeAt tail (Rule.leaf kind span) (Rule.leaf kind' span') s s' := by
  refine ⟨keeping_leaf kind span s, fun halike _ => ?_⟩
  rcases leaf_cases kind span s with ⟨fault, hr⟩ | ⟨nodes, hr, hgrows⟩
  · rw [hr]
    exact .broken fault _
  rcases leaf_cases kind' span' s' with ⟨fault, hr'⟩ | ⟨nodes', hr', hgrows'⟩
  · rw [hr']
    exact .brokenToo _ fault
  rw [hr, hr']
  exact .done rfl ⟨halike.facing, halike.speculating, halike.inOptional⟩
    (.of_grows hgrows hgrows' rfl (bare_leaf h) rfl rfl)

theorem leafFrom {kind kind' : NodeKind} (h : bare kind = bare kind') (start start' : Nat)
    (s s' : ReadState) :
    AgreeAt tail (Rule.leafFrom kind start) (Rule.leafFrom kind' start') s s' := by
  unfold Rule.leafFrom
  refine state ?_
  cases Span.between start s.lastEnd with
  | error fault => exact breakWith fault _ s s'
  | ok span =>
    cases Span.between start' s'.lastEnd with
    | error fault => exact (leaf h span span s s').breakWithToo fault
    | ok span' => exact leaf h span span' s s'

/-- A leaf over the next token. -/
theorem advanceLeaf {kind kind' : NodeKind} (h : bare kind = bare kind') (s s' : ReadState) :
    AgreeAt tail (Rule.advance >>= Rule.leaf kind) (Rule.advance >>= Rule.leaf kind') s s' :=
  (advance s s').bind fun _ _ t t' _ => leaf h _ _ t t'

theorem keywordHere (s s' : ReadState) : AgreeAt tail Rule.keywordHere Rule.keywordHere s s' := by
  refine state (.seeing (advanceLeaf rfl s s') fun halike hsees => ?_)
  rw [halike.current_eq hsees]

theorem punctuationHere (s s' : ReadState) :
    AgreeAt tail Rule.punctuationHere Rule.punctuationHere s s' := by
  refine state (.seeing (advanceLeaf rfl s s') fun halike hsees => ?_)
  rw [halike.current_eq hsees]

theorem expectLeaf (kind : TokenKind) (cause : SyntaxError.Cause) (node : NodeKind)
    (s s' : ReadState) : AgreeAt tail (Rule.expect kind cause >>= Rule.leaf node)
      (Rule.expect kind cause >>= Rule.leaf node) s s' :=
  (expect kind cause s s').bind fun _ _ t t' _ => leaf rfl _ _ t t'

theorem delimiter (shown : Bool) (kind : TokenKind) (cause : SyntaxError.Cause)
    (s s' : ReadState) :
    AgreeAt tail (Rule.delimiter shown kind cause) (Rule.delimiter shown kind cause) s s' := by
  unfold Rule.delimiter
  cases shown with
  | true => exact expectLeaf kind cause _ s s'
  | false => exact (expect kind cause s s').bind fun _ _ t t' _ => pure rfl t t'

/-- A node that is closed goes to the node around it. -/
theorem grows_of_close {t u : ReadState} {n : Node} {start position depth : Nat}
    (hopened : t.nodes.opened = n :: s.nodes.opened)
    (hclose : closeNode start position depth t = .ok u) :
    (∃ range, Grows s u none [{ n with range }]) ∧ u = { t with nodes := u.nodes } := by
  obtain ⟨n', parent, outer, range, ho, _, _, rfl⟩ := closeNode_cases hclose
  rw [hopened] at ho
  obtain ⟨rfl, houter⟩ := List.cons.inj ho
  refine ⟨⟨range, fun m outer' ho' => ?_⟩, rfl⟩
  rw [houter] at ho'
  obtain ⟨rfl, rfl⟩ := List.cons.inj ho'
  simp [Node.grown, NodeStack.withChild]

theorem grows_close {t u : ReadState} {kind₀ : NodeKind} {kind : Option NodeKind}
    {cs : List Node} {start position depth : Nat}
    (h : Grows { s with nodes := s.nodes.begin kind₀ } t kind cs)
    (hclose : closeNode start position depth t = .ok u) :
    (∃ range, Grows s u none [⟨s.nodes.nextId, kind.getD kind₀, range, cs⟩]) ∧
      u = { t with nodes := u.nodes } :=
  grows_of_close (h _ _ rfl) hclose

/-- What is gained below two nodes that are closed is gained with them. -/
theorem sameGain_close {t u t' u' : ReadState} {kind kind' : NodeKind}
    {start position depth start' position' depth' : Nat} (hkind : bare kind = bare kind')
    (h : SameGain { s with nodes := s.nodes.begin kind } t
      { s' with nodes := s'.nodes.begin kind' } t')
    (hclose : closeNode start position depth t = .ok u)
    (hclose' : closeNode start' position' depth' t' = .ok u') : SameGain s u s' u' := by
  obtain ⟨⟨k, cs, k', cs', hgrows, hgrows', hk, hcs⟩, herrors⟩ := h
  obtain ⟨⟨range, hg⟩, hu⟩ := grows_close hgrows hclose
  obtain ⟨⟨range', hg'⟩, hu'⟩ := grows_close hgrows' hclose'
  refine ⟨⟨none, _, none, _, hg, hg', rfl, ?_⟩, ?_⟩
  · exact congrArg (fun n => [n]) (Node.bare_eq_iff.mpr ⟨bare_getD hk hkind, hcs⟩)
  · rw [hu, hu']
    exact herrors

theorem alike_close {t u t' u' : ReadState} {start position depth start' position' depth' : Nat}
    (h : Alike tail t t') (hclose : closeNode start position depth t = .ok u)
    (hclose' : closeNode start' position' depth' t' = .ok u') : Alike tail u u' := by
  obtain ⟨_, _, _, _, _, _, _, rfl⟩ := closeNode_cases hclose
  obtain ⟨_, _, _, _, _, _, _, rfl⟩ := closeNode_cases hclose'
  exact ⟨h.facing, h.speculating, h.inOptional⟩

theorem withNode {α : Type} [Bare α] {kind kind' : NodeKind} {r r' : Rule α}
    (hkind : bare kind = bare kind') (h : AgreeAt tail r r'
      { s with nodes := s.nodes.begin kind } { s' with nodes := s'.nodes.begin kind' }) :
    AgreeAt tail (Rule.withNode kind r) (Rule.withNode kind' r') s s' := by
  refine ⟨.withNode h.keeps, fun halike hsees => ?_⟩
  · have hagreed := h.agreed ⟨halike.facing, halike.speculating, halike.inOptional⟩ hsees
    unfold Rule.withNode
    generalize r { s with nodes := s.nodes.begin kind } = o at hagreed
    generalize r' { s' with nodes := s'.nodes.begin kind' } = o' at hagreed
    -- Closing may break on either side; otherwise it touches neither row.
    cases hagreed with
    | broken fault o' => exact .broken fault _
    | brokenToo o fault => exact .brokenToo _ fault
    | @doneOut t a o' out =>
      simp only []
      cases hc : closeNode s.currentSpan.start s.position s.nodes.depth t with
      | error fault => exact .broken fault _
      | ok u =>
        obtain ⟨_, _, _, _, _, _, _, rfl⟩ := closeNode_cases hc
        exact .doneOut a _ out
    | @failedOut t e o' out =>
      simp only []
      cases hc : closeNode s.currentSpan.start s.position s.nodes.depth t with
      | error fault => exact .broken fault _
      | ok u =>
        obtain ⟨_, _, _, _, _, _, _, rfl⟩ := closeNode_cases hc
        exact .failedOut e _ out
    | @done a a' t t' values alike gain =>
      simp only []
      cases hc : closeNode s.currentSpan.start s.position s.nodes.depth t with
      | error fault => exact .broken fault _
      | ok u =>
        cases hc' : closeNode s'.currentSpan.start s'.position s'.nodes.depth t' with
        | error fault => exact .brokenToo _ fault
        | ok u' => exact .done values (alike_close alike hc hc') (sameGain_close hkind gain hc hc')
    | @failed e e' t t' causes reported alike gain =>
      simp only []
      cases hc : closeNode s.currentSpan.start s.position s.nodes.depth t with
      | error fault => exact .broken fault _
      | ok u =>
        cases hc' : closeNode s'.currentSpan.start s'.position s'.nodes.depth t' with
        | error fault => exact .brokenToo _ fault
        | ok u' =>
          exact .failed causes reported (alike_close alike hc hc') (sameGain_close hkind gain hc hc')

/-! ## Recovering -/

section Recovering

variable {α : Type} [Bare α] {r r' : Rule α}

/-- Noting an error and passing over what is left. -/
theorem reportThenSkip {e e' : SyntaxError} (hcause : e.cause = e'.cause)
    (hnew : e.reported = false) (hnew' : e'.reported = false) (stop : TokenKind → Bool)
    (s s' : ReadState) :
    AgreeAt tail (Rule.modify fun s => (s.report e).skipUntil stop)
      (Rule.modify fun s => (s.report e').skipUntil stop) s s' :=
  (report hcause hnew hnew' s s').bind fun _ _ t t' _ => skipUntil stop t t'

theorem recover (h : AgreeAt tail r r' s s') (sync : TokenKind → Bool) :
    AgreeAt tail (Rule.recover r sync) (Rule.recover r' sync) s s' := by
  have heq : ∀ r : Rule α, Rule.recover r sync = Rule.handle r (fun a => Pure.pure (.valid a))
      fun e => (Rule.modify fun s => (s.report e).skipUntil sync) >>= fun _ =>
        Pure.pure (.invalid e.span) := fun r => by
    funext s
    unfold Rule.recover Rule.handle
    cases r s <;> rfl
  rw [heq, heq]
  refine h.handle (fun _ _ t t' ha => pure (congrArg Slot.valid ha) t t') ?_
  intro e e' t t' hcause hnew hnew'
  exact (reportThenSkip hcause hnew hnew' sync t t').bind fun _ _ u u' _ => by
    refine pure ?_ u u'
    rfl

theorem failingAs (cause : SyntaxError.Cause) (h : AgreeAt tail r r' s s') :
    AgreeAt tail (Grammar.failingAs cause r) (Grammar.failingAs cause r') s s' := by
  have heq : ∀ r : Rule α, Grammar.failingAs cause r = Rule.handle r Pure.pure
      fun e s => .failed ⟨cause, e.span, false⟩ s := fun r => by
    funext s
    unfold Grammar.failingAs Rule.handle
    cases r s <;> rfl
  rw [heq, heq]
  refine h.handle (fun _ _ t t' ha => pure ha t t') fun _ _ t t' _ _ _ => ?_
  refine fail ?_ ?_ ?_ t t' <;> rfl

theorem eatThenPure (kind : TokenKind) (s s' : ReadState) :
    AgreeAt tail (do let _ ← Rule.eat kind) (do let _ ← Rule.eat kind) s s' :=
  (eat kind s s').bind fun _ _ t t' _ => pure rfl t t'

theorem recoverMember {r r' : Rule Unit} (h : AgreeAt tail r r' s s') :
    AgreeAt tail (Grammar.recoverMember r) (Grammar.recoverMember r') s s' := by
  have heq : ∀ r : Rule Unit, Grammar.recoverMember r = Rule.handle r Pure.pure
      fun e => Rule.modify fun s => (s.report e).skipUntil Grammar.isMemberSync := fun r => by
    funext s
    unfold Grammar.recoverMember Rule.handle
    cases r s <;> rfl
  rw [heq, heq]
  exact h.handle (fun _ _ t t' ha => pure ha t t') fun _ _ t t' hcause hnew hnew' =>
    reportThenSkip hcause hnew hnew' _ t t'

/-- Noting an error, passing over what is left, and reading a token behind it. -/
theorem handleThenEat {r r' : Rule Unit} (h : AgreeAt tail r r' s s') (stop : TokenKind → Bool)
    (kind : TokenKind) :
    AgreeAt tail (Rule.handle r Pure.pure fun e =>
        (Rule.modify fun s => (s.report e).skipUntil stop) >>= fun _ => do let _ ← Rule.eat kind)
      (Rule.handle r' Pure.pure fun e =>
        (Rule.modify fun s => (s.report e).skipUntil stop) >>= fun _ => do let _ ← Rule.eat kind)
      s s' :=
  h.handle (fun _ _ t t' ha => pure ha t t') fun _ _ t t' hcause hnew hnew' =>
    (reportThenSkip hcause hnew hnew' stop t t').bind fun _ _ u u' _ => eatThenPure kind u u'

theorem recoverDeclaration {r r' : Rule Unit} (h : AgreeAt tail r r' s s') :
    AgreeAt tail (Grammar.recoverDeclaration r) (Grammar.recoverDeclaration r') s s' := by
  have heq : ∀ r : Rule Unit, Grammar.recoverDeclaration r = Rule.handle r Pure.pure
      fun e => (Rule.modify fun s => (s.report e).skipUntil Grammar.endsBody) >>= fun _ =>
        (do let _ ← Rule.eat .atEnd) := fun r => by
    funext s
    unfold Grammar.recoverDeclaration Rule.handle
    cases r s <;> rfl
  rw [heq, heq]
  exact handleThenEat h _ _

end Recovering

/-! ## Lists -/

theorem splitCloser (closing : TokenKind) (s s' : ReadState) :
    AgreeAt tail (Rule.splitCloser closing) (Rule.splitCloser closing) s s' := by
  constructor
  · refine Ends.splitCloser (fun _ => .refl s) fun _ hr hv =>
      ⟨fun tail hout => ?_, fun hnil => ?_, Nat.le_refl _, rfl⟩
    · exact absurd ((ReadState.current_of_cons hr).trans hv.kind)
        (hout.kindOf_ne rfl (by decide) (by decide))
    · rw [hr] at hnil
      cases hnil
  · intro halike hsees
    unfold Rule.splitCloser
    split
    · unfold modifyOrBreak
      cases hsplit : s.splitShiftRight with
      | error fault => exact .broken fault _
      | ok t =>
        cases hsplit' : s'.splitShiftRight with
        | error fault => exact .brokenToo _ fault
        | ok t' =>
          have hcurrent := halike.current_eq hsees
          rcases ReadState.splitShiftRight_cases hsplit with ⟨hne, rfl⟩ | ⟨v, a, b, rest, hr, hv, rfl⟩
          · rcases ReadState.splitShiftRight_cases hsplit' with ⟨_, rfl⟩ | ⟨v', _, _, _, hr', hv', _⟩
            · exact .done rfl halike (.refl t t')
            · rw [hcurrent, ReadState.current_of_cons hr'] at hne
              exact absurd hv'.kind hne
          · rcases ReadState.splitShiftRight_cases hsplit' with
              ⟨hne, rfl⟩ | ⟨v', a', b', rest', hr', hv', rfl⟩
            · rw [← hcurrent, ReadState.current_of_cons hr] at hne
              exact absurd hv.kind hne
            · have hfacing := halike.facing
              rw [hr] at hsees
              rw [hr, hr'] at hfacing
              refine .done rfl ⟨hfacing.halve hsees ?_ ?_, halike.speculating, halike.inOptional⟩
                (.of_eq rfl rfl rfl rfl)
              · unfold Token.face
                rw [hv.first_kind, hv.first_text, hv'.first_kind, hv'.first_text]
              · unfold Token.face
                rw [hv.second_kind, hv.second_text, hv'.second_kind, hv'.second_text]
    · exact .done rfl halike (.refl s s')

theorem listItems {α : Type} [Bare α] {shown : Bool} {closing : TokenKind} {item : Rule α}
    (fuel : Nat) : ∀ {item' : Rule α}, (∀ s s', AgreeAt tail item item' s s') →
      ∀ fuel' due items items' (s s' : ReadState), bare items = bare items' →
        AgreeAt tail (Rule.listItems shown closing item fuel due items)
          (Rule.listItems shown closing item' fuel' due items') s s' := by
  induction fuel with
  | zero => intro _ _ _ _ _ _ s s' _; exact breakWith _ _ s s'
  | succ fuel ih =>
    intro item' hitem fuel' due items items' s s' hitems
    apply AgreeAt.onFuel fuel'
    · rfl
    intro fuel'
    unfold Rule.listItems
    refine (splitCloser closing s s').bind fun _ _ s₁ s₁' _ => state (ite ?_ ?_ fun _ => ?_)
    · intro halike hsees
      rw [halike.current_eq hsees]
    · exact fun _ => pure (congrArg (·, due) hitems) s₁ s₁'
    refine (hitem s₁ s₁').bind fun a a' s₂ s₂' ha => ?_
    have hpush : bare (items.push a) = bare (items'.push a') := by
      show (items.push a).map bare = (items'.push a').map bare
      rw [Array.map_push, Array.map_push, ha, show items.map bare = items'.map bare from hitems]
    refine state (ite ?_ (fun _ => ?_) fun _ => ?_)
    · intro halike hsees
      rw [halike.current_eq hsees]
    · refine (advance s₂ s₂').bind fun _ _ s₃ s₃' _ => ?_
      cases shown with
      | true =>
        exact (leaf rfl _ _ s₃ s₃').bind fun _ _ s₄ s₄' _ => ih hitem _ _ _ _ s₄ s₄' hpush
      | false => exact ih hitem _ _ _ _ s₃ s₃' hpush
    · refine pure ?_ s₂ s₂'
      show (bare (items.push a), false) = (bare (items'.push a'), false)
      rw [hpush]

/-- What follows behind the items of a list. -/
def listEnd {α : Type} (shown : Bool) (closing : TokenKind) (items : Array α) : Rule (List α) := do
  Rule.splitCloser closing
  Rule.delimiter shown closing (.listClosing closing)
  return items.toList

theorem bare_toList {α : Type} [Bare α] {items items' : Array α} (h : bare items = bare items') :
    bare items.toList = bare items'.toList := by
  have hlists := congrArg Array.toList (show items.map bare = items'.map bare from h)
  rwa [Array.toList_map, Array.toList_map] at hlists

theorem listEnd_agreeAt {α : Type} [Bare α] {shown : Bool} {closing : TokenKind}
    {items items' : Array α} (h : bare items = bare items') (s s' : ReadState) :
    AgreeAt tail (listEnd shown closing items) (listEnd shown closing items') s s' := by
  refine (splitCloser closing s s').bind fun _ _ s₁ s₁' _ =>
    (delimiter shown closing _ s₁ s₁').bind fun _ _ s₂ s₂' _ => pure (bare_toList h) s₂ s₂'

theorem list {α : Type} [Bare α] {shown : Bool} {opening closing : TokenKind} {item item' : Rule α}
    (hitem : ∀ s s', AgreeAt tail item item' s s') (s s' : ReadState) :
    AgreeAt tail (Rule.list shown opening closing item) (Rule.list shown opening closing item')
      s s' := by
  unfold Rule.list
  refine (delimiter shown opening _ s s').bind fun _ _ s₁ s₁' _ => state ?_
  refine (listItems _ hitem _ _ _ _ s₁ s₁' rfl).bind fun (items, due) (items', due') s₂ s₂' h => ?_
  obtain ⟨hitems, hdue⟩ := Prod.mk.inj h
  have last : ∀ t t', AgreeAt tail (listEnd shown closing items) (listEnd shown closing items') t t' :=
    fun t t' => listEnd_agreeAt hitems t t'
  refine ite (fun _ _ => by rw [show due = due' from hdue]) (fun _ => state ?_) fun _ => last s₂ s₂'
  refine ite (fun halike _ => by rw [halike.speculating]) (fun _ => ?_) fun _ => ?_
  · exact (failHere _ s₂ s₂').bind fun _ _ t t' _ => last t t'
  · exact (reportHere _ s₂ s₂').bind fun _ _ t t' _ => last t t'

end AgreeAt

end Rule

end HeaderBridge
