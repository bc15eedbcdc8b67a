/-
  Lists that the tree shows, with a comma in front of the closing delimiter. The items of a list are
  read the same in front of a comma (`listItems_readsOn`), and then the comma is read for one more
  item, which is missing. So a list meets the place of its closing delimiter, and it passes every other
  place by (`list_meetsAt`).
-/
import HeaderBridge.Proofs.Trailing.Spots

namespace HeaderBridge

open ReadState (kindOf)
open Bare (bare)
open Grammar (keeping_of_agreeAt)

namespace Rule

variable {α : Type} {item : Rule α} {closing : TokenKind} {s t : ReadState} {items read : Array α}

/-! ## The items in front of the comma -/

/-- A comma behind items of a list, and the items behind it. -/
def furtherItems (closing : TokenKind) (item : Rule α) (fuel : Nat) (items : Array α) :
    Rule (Array α × Bool) := do
  let span ← advance
  leaf (.token .comma) span
  listItems true closing item fuel true items

/-- What follows an item. -/
def behindShown (closing : TokenKind) (item : Rule α) (fuel : Nat) (items : Array α) :
    Rule (Array α × Bool) := do
  if (← state).current = .comma then furtherItems closing item fuel items else return (items, false)

theorem splitCloser_cases (h : splitCloser closing s = .done () t) :
    t = s ∨ ∃ d a b rest, s.rest = d :: rest ∧ Halves d a b ∧
      t = { s with rest := a :: b :: rest } := by
  have hends : Ends True (splitCloser closing) s (fun _ u => u = s ∨ ∃ d a b rest,
      s.rest = d :: rest ∧ Halves d a b ∧ u = { s with rest := a :: b :: rest }) fun _ _ => True :=
    Ends.splitCloser (fun _ => .inl rfl) fun _ hr hv => .inr ⟨_, _, _, _, hr, hv, rfl⟩
  exact hends.of_done h

theorem listItems_of_word (hclosing : closing ≠ .identifier) (hc : s.current = .identifier)
    (fuel : Nat) (due : Bool) (read : Array α) : listItems true closing item (fuel + 1) due read s =
      (item >>= fun a => behindShown closing item fuel (read.push a)) s := by
  conv => lhs; unfold listItems
  rw [bind_of_done (splitCloser_of_ne (by rw [hc]; decide)), bind_state, hc, if_neg]
  · rfl
  · simpa using hclosing.symm

theorem keeping_behindShown (hitem : ∀ s, Keeping item s) (fuel : Nat) (items : Array α)
    (s : ReadState) : Keeping (behindShown closing item fuel items) s :=
  Keeping.bind (.refl s) fun _ t => ends_ite.mpr ⟨fun _ => Keeping.bind (.of_reads (.advance t))
    fun _ u => (AgreeAt.keeping_leaf _ _ u).bind fun _ v =>
      FramesAt.keeping_listItems hitem true closing fuel true items v, fun _ => .refl t⟩

/-- Either an item is read, or the list is at its end. -/
theorem listItems_cases (hstarts : ∀ {s a t}, item s = .done a t → s.current = .identifier)
    {fuel : Nat} {due found : Bool}
    (h : listItems true closing item fuel due read s = .done (items, found) t) :
    s.current = .identifier ∨ (found = due ∧ splitCloser closing s = .done () t) := by
  cases fuel with
  | zero => cases h
  | succ fuel =>
    obtain ⟨_, s₀, hsplit, hround⟩ := exists_of_bind h
    rw [bind_state] at hround
    split at hround
    · cases hround
      exact .inr ⟨rfl, hsplit⟩
    · obtain ⟨a, s₁, hitem, -⟩ := exists_of_bind hround
      have hword := hstarts hitem
      rcases splitCloser_cases hsplit with rfl | ⟨d, a, b, rest, -, hv, rfl⟩
      · exact .inl hword
      · exact absurd (hv.first_kind.symm.trans hword) (by decide)

/-- The rule reads up to where the items of a list end, and in front of a comma that stands there
    instead it goes on with further items. -/
def ReadsOn (closing : TokenKind) (item : Rule α) (items : Array α) (r : Rule (Array α × Bool))
    (s t : ReadState) : Prop :=
  ∃ p, s.rest = p ++ t.rest ∧ ∀ w' o, kindOf w' = .comma → Breaks r (s.onto (p ++ w') o) ∨
    ∃ fuel, r (s.onto (p ++ w') o) = furtherItems closing item fuel items (t.onto w' o)

theorem ReadsOn.bind {β : Type} {first : Rule β} {f : β → Rule (Array α × Bool)} {b : β}
    {s₁ : ReadState} (hframes : FramesAt itemEnd first first s) (hneat : Neatly first s b s₁)
    (hstops : itemEnd.stops t.rest) (h : ReadsOn closing item items (f b) s₁ t) :
    ReadsOn closing item items (first >>= f) s t := by
  obtain ⟨q, hq, hrun⟩ := h
  obtain ⟨p, hp, -, hread⟩ := hframes.frames hneat hq trivial hstops
  refine ⟨p, hp, fun w' o hw' => ?_⟩
  rcases hread w' o (by simp [itemEnd, hw']) with ⟨fault, hbroken⟩ | hdone
  · exact .inl ⟨fault, bind_of_broken hbroken⟩
  · unfold Breaks
    rw [bind_of_done hdone]
    exact hrun w' o hw'

theorem behindShown_of_comma (hc : s.current = .comma) (fuel : Nat) :
    behindShown closing item fuel read s = furtherItems closing item fuel read s := by
  unfold behindShown
  rw [bind_state, if_pos hc]

/-- Behind an item stands the end of the list, or a comma and more items. -/
theorem behindShown_readsOn {fuel : Nat}
    (hneat : Neatly (behindShown closing item fuel read) s (items, false) t) (fuel' : Nat)
    (hfurther : s.current = .comma → Neatly (furtherItems closing item fuel read) s (items, false) t →
      ReadsOn closing item items (furtherItems closing item fuel' read) s t) :
    ReadsOn closing item items (behindShown closing item fuel' read) s t := by
  rcases hneat.of_state.of_ite with ⟨hc, hmore⟩ | ⟨-, hlast⟩
  · obtain ⟨p, hp, hrun⟩ := hfurther hc hmore
    refine ⟨p, hp, fun w' o hw' => ?_⟩
    have hcomma : (s.onto (p ++ w') o).current = .comma := by
      unfold ReadState.current at hc
      rw [hp] at hc
      cases p with
      | nil => exact hw'
      | cons y p => exact hc
    unfold Breaks
    rw [behindShown_of_comma hcomma]
    exact hrun w' o hw'
  · cases hlast.done
    exact ⟨[], rfl, fun w' o hw' => .inr ⟨fuel', behindShown_of_comma (s := s.onto w' o) hw' fuel'⟩⟩

theorem comma_framesAt (hc : s.current = .comma) : FramesAt itemEnd advance advance s := by
  obtain ⟨y, rest, hrow, -⟩ := ReadState.exists_cons_of_current hc (by decide)
  refine .of_advance (.of_reads (.advance s)) fun h => ⟨y, rest, hrow, ?_, fun us o => ?_⟩
  · cases h
    exact ReadState.advance_of_cons hrow
  · cases h
    rw [ReadState.currentSpan_of_cons hrow]
    rfl

theorem furtherItems_readsOn {fuel fuel' : Nat} (hkeeps : ∀ s, Keeping item s)
    (hc : s.current = .comma) (hneat : Neatly (furtherItems closing item fuel read) s (items, false) t)
    (hstops : itemEnd.stops t.rest)
    (hitems : ∀ s, Neatly (listItems true closing item fuel true read) s (items, false) t →
      ReadsOn closing item items (listItems true closing item fuel' true read) s t) :
    ReadsOn closing item items (furtherItems closing item fuel' read) s t := by
  obtain ⟨span, s₁, hadvance, hneat⟩ := hneat.of_bind (comma_framesAt hc).keeps fun _ u =>
    (AgreeAt.keeping_leaf _ _ u).bind fun _ v =>
      FramesAt.keeping_listItems hkeeps true closing fuel true read v
  obtain ⟨_, s₂, hleaf, hneat⟩ := hneat.of_bind (AgreeAt.keeping_leaf _ _ s₁) fun _ v =>
    FramesAt.keeping_listItems hkeeps true closing fuel true read v
  exact .bind (comma_framesAt hc) hadvance hstops
    (.bind (FramesAt.leaf _ _ s₁) hleaf hstops (hitems s₂ hneat))

/-- Where the items of a list are read up to its end, they are read up to a comma that stands there
    instead, and the list goes on behind it. -/
theorem listItems_readsOn (hclosing : closing ≠ .identifier)
    (hstarts : ∀ {s a t}, item s = .done a t → s.current = .identifier)
    (hframes : ∀ s, FramesAt itemEnd item item s) (fuel : Nat) :
    ∀ {due : Bool} {read items : Array α} {s t : ReadState} (fuel' : Nat), s.current = .identifier →
      Neatly (listItems true closing item fuel due read) s (items, false) t →
      itemEnd.stops t.rest →
      ReadsOn closing item items (listItems true closing item fuel' due read) s t := by
  have hkeeps : ∀ s, Keeping item s := fun s => (hframes s).keeps
  induction fuel with
  | zero => exact fun _ _ hneat => by cases hneat.done
  | succ fuel ih =>
    intro due read items s t fuel' hc hneat hstops
    have hneat : Neatly (item >>= fun a => behindShown closing item fuel (read.push a)) s
        (items, false) t := by
      refine ⟨?_, hneat.errors⟩
      rw [← listItems_of_word hclosing hc fuel due read]
      exact hneat.done
    obtain ⟨a, s₁, hitem, hbehind⟩ := hneat.of_bind (hframes s).keeps fun a t =>
      keeping_behindShown hkeeps fuel (read.push a) t
    have hmore := fun fuel' => behindShown_readsOn hbehind fuel' fun hcomma hneat =>
      furtherItems_readsOn hkeeps hcomma hneat hstops fun s₂ hitems =>
        ih fuel' ((listItems_cases hstarts hitems.done).resolve_right fun h => by cases h.1) hitems
          hstops
    obtain ⟨p, hp, hrun⟩ := ReadsOn.bind (f := fun a => behindShown closing item (fuel' - 1)
      (read.push a)) (hframes s) hitem hstops (hmore (fuel' - 1))
    refine ⟨p, hp, fun w' o hw' => ?_⟩
    have hword : (s.onto (p ++ w') o).current = .identifier := by
      unfold ReadState.current at hc
      rw [hp] at hc
      cases p with
      | nil =>
        have hstops : kindOf t.rest ∈ [.comma, .greater, .shiftRight, .rightParen] := hstops
        rw [show kindOf t.rest = _ from hc] at hstops
        exact absurd hstops (by decide)
      | cons y p => exact hc
    cases fuel' with
    | zero => exact .inl ⟨.exhausted, rfl⟩
    | succ fuel' =>
      unfold Breaks
      rw [listItems_of_word hclosing hword]
      exact hrun w' o hw'

/-! ## The end of the list -/

/-- A delimiter that the tree shows is a leaf over one token. -/
theorem delimiter_cases {kind : TokenKind} (hkind : kind ≠ .endOfFile) {cause : SyntaxError.Cause}
    (h : delimiter true kind cause s = .done () t) : ∃ y rest, s.rest = y :: rest ∧ y.kind = kind ∧
      leaf (.token kind) y.span (s.past [y] rest) = .done () t := by
  obtain ⟨span, u, hexpect, hleaf⟩ := exists_of_bind h
  unfold expect at hexpect
  by_cases hc : s.current = kind
  · rw [if_pos hc] at hexpect
    cases hexpect
    obtain ⟨y, rest, hrow, hy⟩ := ReadState.exists_cons_of_current hc hkind
    have hleaf : leaf (.token kind) s.currentSpan s.advance = .done () t := hleaf
    rw [ReadState.advance_of_cons hrow, ReadState.currentSpan_of_cons hrow] at hleaf
    exact ⟨y, rest, hrow, hy, hleaf⟩
  · rw [if_neg hc] at hexpect
    cases hexpect

theorem leaf_done {kind : NodeKind} {span : Span} (h : leaf kind span s = .done () t) :
    (∃ nodes, t = { s with nodes }) ∧ Grows s t none [⟨s.nodes.nextId, kind, some span, []⟩] := by
  rcases AgreeAt.leaf_cases kind span s with ⟨fault, hr⟩ | ⟨nodes, hr, hgrows⟩
  · rw [hr] at h
    cases h
  · rw [hr] at h
    cases h
    exact ⟨⟨nodes, rfl⟩, hgrows⟩

/-- Taking the current token apart leaves a token at its place. -/
theorem exists_of_splitCloser {c : Token} {rest : List Token}
    (h : splitCloser closing s = .done () t) (hrow : t.rest = c :: rest) :
    ∃ x ts, s.rest = x :: ts ∧ x.span.start = c.span.start ∧
      (x.kind = c.kind ∨ x.kind = .shiftRight) := by
  rcases splitCloser_cases h with rfl | ⟨d, a, b, ts, hs, hv, rfl⟩
  · exact ⟨c, rest, hrow, rfl, .inl rfl⟩
  · obtain ⟨rfl, -⟩ := List.cons.inj (show a :: b :: ts = c :: rest from hrow)
    exact ⟨d, ts, hs, hv.first_start.symm, .inr hv.kind⟩

theorem ends_splitCloser_nodes (closing : TokenKind) (s : ReadState) :
    Ends True (splitCloser closing) s (fun _ t => t.nodes = s.nodes ∧ t.errors = s.errors)
      fun _ _ => True := by
  unfold Ends
  cases h : splitCloser closing s with
  | broken fault => trivial
  | failed e t => trivial
  | done _ t => rcases splitCloser_cases h with rfl | ⟨_, _, _, _, _, _, rfl⟩ <;> exact ⟨rfl, rfl⟩

theorem ends_delimiter_grows {kind : TokenKind} (hkind : kind ≠ .endOfFile) (cause : SyntaxError.Cause)
    (s : ReadState) : Ends True (delimiter true kind cause) s (fun _ t => t.errors = s.errors ∧
      ∃ id span, Grows s t none [⟨id, .token kind, some span, []⟩]) fun _ _ => True := by
  unfold Ends
  cases h : delimiter true kind cause s with
  | broken fault => trivial
  | failed e t => trivial
  | done _ t =>
    obtain ⟨y, rest, -, -, hleaf⟩ := delimiter_cases hkind h
    obtain ⟨⟨nodes, rfl⟩, hgrows⟩ := leaf_done hleaf
    exact ⟨rfl, _, _, hgrows⟩

theorem listItems_passesBy {spot : Spot} (hitem : ∀ s, PassesBy spot item s) (fuel : Nat) :
    ∀ due (read : Array α) s, PassesBy spot (listItems true closing item fuel due read) s := by
  induction fuel with
  | zero => exact fun _ _ _ => .breakWith _
  | succ fuel ih =>
    intro due read s
    unfold listItems
    refine (MissesAt.splitCloser closing s).bind fun _ t _ =>
      .state (.ite (fun _ => .pure trivial) fun _ => ?_)
    refine (hitem t).bind fun a u _ => .state (.ite (fun _ => ?_) fun _ => .pure trivial)
    have hcomma : spot.AvoidsKind (.token .comma) := .of_nil rfl rfl
    exact (MissesAt.advance u).bind fun span v _ =>
      ((MissesAt.leaf (fun _ => hcomma.avoids rfl) v).bind fun _ w _ => ih true (read.push a) w :
        PassesBy spot (leaf (.token .comma) span >>= fun _ =>
          listItems true closing item fuel true (read.push a)) v)

theorem ends_of_done {β : Type} {r : Rule β} {b : β} {Q : β → ReadState → Prop}
    {E : SyntaxError → ReadState → Prop} (hr : r s = .done b t) (h : Q b t) : Ends True r s Q E := by
  unfold Ends
  rw [hr]
  exact h

theorem ends_of_broken {β : Type} {r : Rule β} {fault : Fault} {Q : β → ReadState → Prop}
    {E : SyntaxError → ReadState → Prop} (hr : r s = .broken fault) : Ends True r s Q E := by
  unfold Ends
  rw [hr]
  trivial

/-- Behind a comma and an error the delimiter is the leaf that it is without them. -/
theorem adds_of_grows {spot : Spot} {u' t' : ReadState} {comma c d : Node} {e : SyntaxError}
    (hopened : s.nodes.opened ≠ []) (hshown : spot.shown = true)
    (hleaf : Grows s t none [c]) (hcloses : c.ClosesAt spot.place)
    (hcomma : Grows s u' none [comma]) (hkind : comma.kind = .token .comma)
    (halone : comma.children = []) (hleaf' : Grows u' t' none [d]) (hbare : bare [c] = bare [d])
    (herrors : t.errors = s.errors) (herrors' : t'.errors = s.errors.push e)
    (hcause : e.cause = .itemAfterComma) : spot.Adds t t' := by
  obtain ⟨n, outer, ho⟩ := List.exists_cons_of_ne_nil hopened
  refine ⟨⟨_, _, outer, hleaf n outer ho, hleaf' _ outer (hcomma n outer ho), rfl, ?_⟩, ?_⟩
  · have hextends : spot.Extends [c] [comma, d] :=
      ⟨fun _ => .here hcloses hkind halone hbare, fun h => by rw [hshown] at h; cases h⟩
    have hchildren := hextends.append_left n.children
    rw [show n.children ++ [comma, d] = n.children ++ [comma] ++ [d] by simp] at hchildren
    exact hchildren
  · rw [herrors, herrors', Array.toList_push, List.map_append, List.map_singleton, hcause]

/-- With a comma in front of its closing delimiter a list is closed all the same, behind one error. -/
theorem ends_furtherItems {spot : Spot} {c : Token} {rest us : List Token} {s₂ s₃ : ReadState}
    (hs : spot.Misses s₂) (hclosing : closing = .greater ∨ closing = .rightParen)
    (hsplit : splitCloser closing s₂ = .done () s₃)
    (hclose : delimiter true closing (.listClosing closing) s₃ = .done () t)
    (hrow : s₃.rest = c :: rest) (hc : c.kind = closing) (hstart : c.span.start = spot.place)
    (hshown : spot.shown = true) (hfaces : us.map Token.face = s₂.rest.map Token.face)
    (comma : Token) (o : ReadState) (item : Rule α) (fuel : Nat) (items : Array α) :
    Ends True (do
      let found ← furtherItems closing item fuel items
      FramesAt.listFinish true closing found.1 found.2) (s₂.onto (comma :: us) o)
      (fun as t' => items.toList = as ∧ Alike none t t' ∧ spot.Adds t t') fun _ _ => False := by
  have hkind : closing ≠ .endOfFile ∧ closing ≠ .shiftRight := by
    rcases hclosing with rfl | rfl <;> decide
  unfold furtherItems
  refine ends_bind.mpr (ends_bind.mpr (ends_advance.mpr (ends_bind.mpr ?_)))
  rw [ReadState.advance_of_cons (t := comma) rfl]
  rcases AgreeAt.leaf_cases (.token .comma) (s₂.onto (comma :: us) o).currentSpan
    ((s₂.onto (comma :: us) o).past [comma] us) with ⟨fault, hr⟩ | ⟨nodes, hr, hgrows⟩
  · exact ends_of_broken hr
  refine ends_of_done hr ?_
  generalize hv₂ : { (s₂.onto (comma :: us) o).past [comma] us with nodes } = v₂ at hgrows
  have halike : Alike none s₂ v₂ := by
    subst hv₂
    exact ⟨hfaces.symm, rfl, rfl⟩
  cases fuel with
  | zero => exact trivial
  | succ fuel =>
    unfold listItems
    refine ends_bind.mpr ((((AgreeAt.splitCloser closing s₂ v₂).ends halike hsplit).and
      (ends_splitCloser_nodes closing v₂)).mono (fun _ v₃ hv₃ => ?_) fun _ _ h => h.1)
    obtain ⟨⟨-, halike₃, -⟩, hnodes₃, herrors₃⟩ := hv₃
    have hcurrent : v₃.current = closing := by
      rw [← halike₃.current_eq (not_ranOut_none _), ReadState.current_of_cons hrow]
      exact hc
    have hcertain : v₃.speculating = false :=
      halike₃.speculating.symm.trans ((MissesAt.splitCloser closing s₂ hs).of_done hsplit).1.certain
    refine ends_bind.mpr (ends_state.mpr (ends_ite.mpr ⟨fun _ => ends_pure.mpr ?_, fun h => ?_⟩))
    · refine ends_bind.mpr (ends_state.mpr ?_)
      rw [hcertain, if_neg Bool.false_ne_true]
      refine ends_bind.mpr (ends_report.mpr (ends_bind.mpr ?_))
      have halike₄ : Alike none s₃ (v₃.report (v₃.errorHere .itemAfterComma)) :=
        ⟨halike₃.facing, halike₃.speculating, halike₃.inOptional⟩
      refine ends_of_done (splitCloser_of_ne (s := v₃.report _) ?_) (ends_bind.mpr ?_)
      · exact ne_of_eq_of_ne hcurrent hkind.2
      refine (((AgreeAt.delimiter true closing _ s₃ _).ends halike₄ hclose).and
        (ends_delimiter_grows hkind.1 _ _)).mono (fun _ t' ht' => ends_pure.mpr ?_) fun _ _ h => h.1
      obtain ⟨⟨-, halike', -⟩, herrors', id, span, hgrows'⟩ := ht'
      have hopened : s₂.nodes.opened ≠ [] := List.ne_nil_of_length_pos hs.sound.opened
      obtain ⟨hnodes, herrors⟩ := (ends_splitCloser_nodes closing s₂).of_done hsplit
      obtain ⟨y, ys, hy, hykind, hleaf⟩ := delimiter_cases hkind.1 hclose
      obtain ⟨rfl, rfl⟩ := List.cons.inj (hy.symm.trans hrow)
      obtain ⟨⟨nodes', rfl⟩, hgrows₃⟩ := leaf_done hleaf
      have hcloses : ∀ id, Node.ClosesAt spot.place ⟨id, .token closing, some y.span, []⟩ :=
        fun id => ⟨by rcases hclosing with rfl | rfl <;> rfl, congrArg some hstart⟩
      have hgrows₂ : Grows s₂ v₂ none _ := (Grows.of_nodes rfl).trans hgrows
      exact ⟨rfl, halike', adds_of_grows hopened hshown
        ((Grows.of_nodes hnodes).trans hgrows₃) (hcloses _) hgrows₂ rfl rfl
        ((Grows.of_nodes hnodes₃).trans hgrows') (AgreeAt.bare_leaf rfl) herrors
        (e := { v₃.errorHere .itemAfterComma with reported := true })
        (herrors'.trans (congrArg (Array.push · _) (herrors₃.trans (by rw [← hv₂]; rfl)))) rfl⟩
    · rw [hcurrent] at h
      simp at h

/-! ## The list -/

section
variable {opening : TokenKind}

theorem keeping_listRest (hkeeps : ∀ s, Keeping item s) (s : ReadState) : Keeping (do
    let found ← listItems true closing item ((← state).weight + 1) false #[]
    FramesAt.listFinish true closing found.1 found.2) s :=
  Keeping.bind (.refl s) fun s' t =>
    (FramesAt.keeping_listItems hkeeps true closing (s'.weight + 1) false #[] t).bind fun found u =>
      FramesAt.keeping_listFinish true closing found.1 found.2 u

theorem keeping_delimiter (kind : TokenKind) (cause : SyntaxError.Cause) (s : ReadState) :
    Keeping (delimiter true kind cause) s :=
  keeping_of_agreeAt (AgreeAt.delimiter true kind cause s s)

/-- A list that is read without an error is an opening delimiter, items and a closing delimiter. -/
theorem exists_of_neatly_list (hkeeps : ∀ s, Keeping item s) {as : List α}
    (h : Neatly (list true opening closing item) s as t) : ∃ s₁ s₂ s₃ items, items.toList = as ∧
      Neatly (delimiter true opening (.listOpening opening)) s () s₁ ∧
      Neatly (listItems true closing item (s₁.weight + 1) false #[]) s₁ (items, false) s₂ ∧
      Neatly (splitCloser closing) s₂ () s₃ ∧
      Neatly (delimiter true closing (.listClosing closing)) s₃ () t := by
  rw [FramesAt.list_eq] at h
  obtain ⟨_, s₁, hopen, hrest⟩ := h.of_bind (keeping_delimiter opening _ s) fun _ u =>
    keeping_listRest hkeeps u
  obtain ⟨⟨items, due⟩, s₂, hitems, hlast⟩ := hrest.of_state.of_bind
    (FramesAt.keeping_listItems hkeeps true closing _ false #[] s₁) fun found u =>
      FramesAt.keeping_listFinish true closing found.1 found.2 u
  cases due with
  | true => exact absurd hlast FramesAt.not_neatly_listFinish
  | false =>
    have hlast : Neatly (AgreeAt.listEnd true closing items) s₂ as t := hlast
    obtain ⟨_, s₃, hsplit, hend⟩ := hlast.of_bind
      (keeping_of_agreeAt (AgreeAt.splitCloser closing s₂ s₂)) fun _ u =>
        (keeping_delimiter closing _ u).bind fun _ v => .refl v
    obtain ⟨_, u, hclose, hvalue⟩ := hend.of_bind (keeping_delimiter closing _ s₃) fun _ v => .refl v
    cases hvalue.done
    exact ⟨s₁, s₂, s₃, items, rfl, hopen, hitems, hsplit, hclose⟩

/-- No opening delimiter stands in front of the place, so the list that ends there is not empty. -/
theorem current_of_place {spot : Spot} {x y : Token} {ts : List Token} {fuel : Nat}
    (hs : spot.Misses s) (hlast : y ∈ s.passed.head?) (hopening : y.kind = .less ∨ y.kind = .leftParen)
    (hstarts : ∀ {s a t}, item s = .done a t → s.current = .identifier)
    (hitems : listItems true closing item fuel false read s = .done (items, false) t)
    (hrow : t.rest = x :: ts) (hplace : x.span.start = spot.place) : s.current = .identifier := by
  refine (listItems_cases hstarts hitems).resolve_right fun ⟨_, hempty⟩ => ?_
  obtain ⟨z, zs, hz, hzstart, -⟩ := exists_of_splitCloser hempty hrow
  have hcloser := hs.closer
  obtain ⟨upper, hinOrder⟩ := hs.sound.inOrder
  rw [hz] at hcloser hinOrder
  have hbehind := hcloser.behind hinOrder (hzstart.trans hplace) y (by rwa [List.getLast?_reverse])
  exact hopening.elim hbehind.1 hbehind.2

/-- Where a token begins at the place, the comma stands in front of the token. -/
theorem exists_comma_of_parted {place : Nat} {x : Token} {ts w' : List Token}
    (hplace : x.span.start = place) (h : Parted place (x :: ts) w') : ∃ comma us, w' = comma :: us ∧
      comma.face = (.comma, ",") ∧ us.map Token.face = (x :: ts).map Token.face := by
  cases h with
  | whole start face => exact ⟨_, _, rfl, face, by rw [List.map_map]; rfl⟩
  | half halves start =>
    have hsecond := halves.second_start
    omega

/-- A list whose closing delimiter is at the place is closed behind a comma as well, with one error. -/
theorem list_meets [Bare α] {spot : Spot} {c : Token} {rest : List Token} {s₁ s₂ s₃ : ReadState}
    (hopening : opening = .less ∨ opening = .leftParen)
    (hclosing : closing = .greater ∨ closing = .rightParen)
    (hstarts : ∀ {s a t}, item s = .done a t → s.current = .identifier)
    (hframes : ∀ s, FramesAt itemEnd item item s) (hs₁ : spot.Misses s₁) (hs₂ : spot.Misses s₂)
    (hopen : Neatly (delimiter true opening (.listOpening opening)) s () s₁)
    (hitems : Neatly (listItems true closing item (s₁.weight + 1) false #[]) s₁ (items, false) s₂)
    (hsplit : Neatly (splitCloser closing) s₂ () s₃)
    (hclose : Neatly (delimiter true closing (.listClosing closing)) s₃ () t)
    (hrow : s₃.rest = c :: rest) (hc : c.kind = closing) (hshown : spot.shown = true)
    (hplace : c.span.start = spot.place) :
    spot.Meets (list true opening closing item) s items.toList t := by
  have hopened : opening ≠ .endOfFile := by rcases hopening with rfl | rfl <;> decide
  have hclosed : closing ≠ .identifier := by rcases hclosing with rfl | rfl <;> decide
  obtain ⟨y, rest₁, hrow₁, hy, hleaf₁⟩ := delimiter_cases hopened hopen.done
  obtain ⟨⟨nodes₁, rfl⟩, -⟩ := leaf_done hleaf₁
  obtain ⟨x, ts, hx, hxstart, hxkind⟩ := exists_of_splitCloser hsplit.done hrow
  have hxplace : x.span.start = spot.place := hxstart.trans hplace
  have hstops : itemEnd.stops s₂.rest := by
    show kindOf s₂.rest ∈ [.comma, .greater, .shiftRight, .rightParen]
    rw [hx, ReadState.kindOf_cons]
    rcases hxkind with h | h
    · rw [h, hc]
      rcases hclosing with rfl | rfl <;> decide
    · rw [h]
      decide
  have hword := current_of_place hs₁ (y := y) rfl (by rwa [hy]) hstarts hitems.done hx hxplace
  have hreads := fun fuel => listItems_readsOn hclosed hstarts hframes _ fuel hword hitems hstops
  obtain ⟨p, hp, -⟩ := hreads 0
  obtain ⟨q, hq, -, hdelimiter⟩ := (FramesAt.delimiter hopened _ s :
    FramesAt itemEnd _ _ s).frames hopen hp trivial hstops
  have hmem : y ∈ q := by
    have hp : rest₁ = p ++ s₂.rest := hp
    rw [hrow₁, hp, ← List.cons_append] at hq
    rw [← List.append_cancel_right hq]
    exact List.mem_cons_self
  refine ⟨q, s₂.rest, hq, ⟨y, hmem, by rwa [hy]⟩, ⟨x, ts, hx, .inl hxplace⟩, fun w' o hparted => ?_⟩
  rw [hx] at hparted
  obtain ⟨comma, us, rfl, hcomma, hfaces⟩ := exists_comma_of_parted hxplace hparted
  rw [← hx] at hfaces
  have hcommaKind : kindOf (comma :: us) = .comma := congrArg Prod.fst hcomma
  rw [FramesAt.list_eq]
  unfold Ends
  rcases hdelimiter (comma :: us) o (by simp [itemEnd, hcommaKind]) with ⟨fault, hbroken⟩ | hdone
  · rw [bind_of_broken hbroken]
    trivial
  rw [bind_of_done hdone, bind_state]
  obtain ⟨p', hp', hrun⟩ := hreads _
  obtain rfl : p = p' := List.append_cancel_right (hp.symm.trans hp')
  rcases hrun (comma :: us) o hcommaKind with ⟨fault, hbroken⟩ | ⟨more, heq⟩
  · rw [bind_of_broken hbroken]
    trivial
  · rw [bind_congr heq]
    exact (ends_furtherItems hs₂ hclosing hsplit.done hclose.done hrow hc hplace hshown hfaces comma o
      item more items).mono (fun _ _ h => ⟨congrArg bare h.1, h.2⟩) fun _ _ h => h

/-- A list that the tree shows meets the place if it is the one of its closing delimiter. -/
theorem list_meetsAt [Bare α] {spot : Spot} (hopening : opening = .less ∨ opening = .leftParen)
    (hclosing : closing = .greater ∨ closing = .rightParen)
    (hstarts : ∀ {s a t}, item s = .done a t → s.current = .identifier)
    (hframes : ∀ s, FramesAt itemEnd item item s) (hitem : ∀ s, PassesBy spot item s)
    (s : ReadState) : MeetsAt spot (fun _ => True) (list true opening closing item)
      (list true opening closing item) s := by
  have hkeeps : ∀ s, Keeping item s := fun s => (hframes s).keeps
  refine ⟨?_, fun {as t} hs hneat => ?_⟩
  · rw [FramesAt.list_eq]
    exact (keeping_delimiter opening _ s).bind fun _ u => keeping_listRest hkeeps u
  obtain ⟨s₁, s₂, s₃, items, rfl, hopen, hitems, hsplit, hclose⟩ := exists_of_neatly_list hkeeps hneat
  have hcloser : (NodeKind.token opening).isCloser = false := by
    rcases hopening with rfl | rfl <;> rfl
  have hs₁ : spot.Misses s₁ := ((MissesAt.expectLeaf (.of_nil hcloser rfl) _ _ s :
    PassesBy spot (delimiter true opening _) s) hs |>.of_done hopen.done).1
  have hs₂ : spot.Misses s₂ := (listItems_passesBy hitem _ _ _ s₁ hs₁ |>.of_done hitems.done).1
  have hs₃ : spot.Misses s₃ := (MissesAt.splitCloser closing s₂ hs₂ |>.of_done hsplit.done).1
  obtain ⟨c, rest, hrow, hc, hleaf⟩ :=
    delimiter_cases (by rcases hclosing with rfl | rfl <;> decide) hclose.done
  by_cases hplace : spot.shown = true ∧ c.span.start = spot.place
  · exact .inr (list_meets hopening hclosing hstarts hframes hs₁ hs₂ hopen hitems hsplit hclose hrow hc
      hplace.1 hplace.2)
  · have havoids : ∀ id, spot.Avoids ⟨id, .token closing, some c.span, []⟩ := fun id =>
      ⟨fun hshown hcloses => hplace ⟨hshown, Option.some.inj hcloses.2⟩, List.forall_mem_nil _⟩
    have hpast := hs₃.of_reads (.advance s₃)
    rw [ReadState.advance_of_cons hrow] at hpast
    exact .inl ⟨(MissesAt.leaf havoids _ hpast |>.of_done hleaf).1, trivial⟩

end

end Rule

end HeaderBridge
