/-
  A type at the end of a row and in front of a closing delimiter. Both are read to the same type, and
  both fail at the same token. In an open list alone the end of the row is taken for the end of the
  list, where the delimiter is not, but the list fails there in either case.
-/
import HeaderBridge.Proofs.Enclosing.Rows
import HeaderBridge.Proofs.Types.Exact

namespace HeaderBridge

open ReadState (kindOf)

theorem joins_ofTypes : Joins OfTypes :=
  ⟨List.forall_mem_nil _, OfTypes.append⟩

namespace OfTypes

variable {ts : List Token}

/-- No such token is a parenthesis. -/
theorem kind_ne (h : OfTypes ts) : ∀ t ∈ ts, t.kind ∉ [.leftParen, .rightParen, .invalid] := by
  intro t ht hk
  have hkind := h t ht
  simp only [List.mem_cons, List.not_mem_nil, or_false] at hkind
  rcases hkind with hkind | hkind | hkind | hkind | hkind <;> rw [hkind] at hk <;>
    exact absurd hk (by decide)

theorem balanced (h : OfTypes ts) : Balanced ts := .of_plain h.kind_ne

end OfTypes

namespace ReadState

variable {s : ReadState} {tail : List Token}

/-- A double bracket is taken apart in front of a tail as it is at the end of the row. -/
theorem splitShiftRight_before (htail : Shuts tail) (s : ReadState) :
    (s.before tail).splitShiftRight = (·.before tail) <$> s.splitShiftRight := by
  cases hr : s.rest with
  | nil =>
    have hc : s.current ≠ .shiftRight := by
      rw [current_of_nil hr]
      decide
    rw [splitShiftRight_of_ne hc, splitShiftRight_of_ne]
    · rfl
    · exact mt (current_before_iff htail (by decide)).mp hc
  | cons t rest =>
    unfold splitShiftRight
    rw [before_rest, hr, List.cons_append]
    by_cases hk : t.kind = .shiftRight
    · simp only [hk, if_true]
      cases Span.between t.span.start (t.span.start + 1) with
      | error fault => rfl
      | ok first =>
        cases Span.between (t.span.start + 1) t.span.stop with
        | error fault => rfl
        | ok second => rfl
    · simp only [hk, if_false]
      rfl

end ReadState

namespace Rule

open ReadState (Consumes Shuts)

variable {α β : Type} {tail : List Token} {pass : List Token → Prop} {strict : Prop} {s t : ReadState}

/-! ## Lists -/

theorem EnclosedAt.splitCloser (hp : Joins pass) (htail : Shuts tail) (s : ReadState) :
    EnclosedAt tail pass strict (Rule.splitCloser .greater) (Rule.splitCloser .greater) s := by
  rw [show Rule.splitCloser .greater = modifyOrBreak ReadState.splitShiftRight from if_pos rfl]
  refine ends_modifyOrBreak.mpr fun t hsplit => ⟨?_, ?_⟩
  · rcases ReadState.splitShiftRight_cases hsplit with ⟨_, rfl⟩ | ⟨u, a, b, rest, hr, hv, rfl⟩
    · exact .refl hp t
    · refine ⟨[], a :: b :: rest, ?_, hp.nil, rfl⟩
      rw [hr]
      exact .halve hv (Halved.refl rest)
  · unfold LeadsTo Ends modifyOrBreak
    dsimp only
    rw [ReadState.splitShiftRight_before htail, hsplit]
    exact ⟨rfl, rfl⟩

/-- What the first rule comes to, the second one comes to as well; but where the first one has come
    to the end of the row, the second one may fail instead. -/
def OpenAt (tail : List Token) (pass : List Token → Prop) (r r' : Rule α) (s : ReadState) : Prop :=
  Ends True r s (fun a t => s.Consumes pass t ∧ (LeadsTo r' a (t.before tail) (s.before tail) ∨
      t.rest = [] ∧ Refuses r' (t.before tail) (s.before tail)))
    fun _ t => Refuses r' (t.before tail) (s.before tail)

theorem EnclosedAt.isOpen {r r' : Rule α} (h : EnclosedAt tail pass True r r' s) :
    OpenAt tail pass r r' s :=
  Ends.mono h (fun _ _ h => ⟨h.1, .inl h.2⟩) fun _ _ h => h trivial

theorem EnclosedAt.bindOpen (hp : Joins pass) {r r' : Rule β} {f f' : β → Rule α}
    (h : EnclosedAt tail pass True r r' s)
    (hf : ∀ b t, s.Consumes pass t → OpenAt tail pass (f b) (f' b) t) :
    OpenAt tail pass (r >>= f) (r' >>= f') s := by
  refine ends_bind.mpr (Ends.mono h (fun b t hb => ?_) fun e t he => (he trivial).bind f')
  obtain ⟨hread, hsame⟩ := hb
  refine Ends.mono (hf b t hread) (fun a u ha => ⟨hread.trans hp ha.1, ?_⟩) fun e u he =>
    hsame.bindRefuses he
  rcases ha.2 with h | ⟨hnil, h⟩
  · exact .inl (hsame.bind h)
  · exact .inr ⟨hnil, hsame.bindRefuses h⟩

theorem OpenAt.state {f f' : ReadState → Rule α} (h : OpenAt tail pass (f s) (f' (s.before tail)) s) :
    OpenAt tail pass (Rule.state >>= f) (Rule.state >>= f') s := h

theorem OpenAt.ite {c c' : Prop} [Decidable c] [Decidable c'] {r₁ r₂ r₁' r₂' : Rule α} (hc : c' ↔ c)
    (h : c → OpenAt tail pass r₁ r₁' s) (h' : ¬ c → OpenAt tail pass r₂ r₂' s) :
    OpenAt tail pass (if c then r₁ else r₂) (if c' then r₁' else r₂') s := by
  by_cases hcase : c
  · rw [if_pos hcase, if_pos (hc.mpr hcase)]
    exact h hcase
  · rw [if_neg hcase, if_neg fun h => hcase (hc.mp h)]
    exact h' hcase

theorem OpenAt.onFuel {r : Rule α} {f : Nat → Rule α} (fuel : Nat)
    (hzero : f 0 = Rule.breakWith .exhausted) (h : ∀ fuel, OpenAt tail pass r (f (fuel + 1)) s) :
    OpenAt tail pass r (f fuel) s := by
  cases fuel with
  | zero =>
    rw [hzero]
    exact Ends.mono (h 0) (fun _ _ h => ⟨h.1, .inl trivial⟩) fun _ _ _ => trivial
  | succ fuel => exact h fuel

/-- What follows fails at the end of the row. -/
theorem OpenAt.shut (hp : Joins pass) {r r' : Rule β} {f f' : β → Rule α}
    (h : OpenAt tail pass r r' s)
    (hf : ∀ b t, s.Consumes pass t → EnclosedAt tail pass True (f b) (f' b) t)
    (hend : ∀ b t, s.Consumes pass t → t.rest = [] → Refuses (f b) t t) :
    EnclosedAt tail pass True (r >>= f) (r' >>= f') s := by
  refine ends_bind.mpr (Ends.mono h (fun b t hb => ?_) fun e t he _ => he.bind f')
  obtain ⟨hread, hsame | ⟨hnil, hrefuses⟩⟩ := hb
  · refine Ends.mono (hf b t hread) (fun a u ha => ?_) fun e u he hs => hsame.bindRefuses (he hs)
    exact ⟨hread.trans hp ha.1, hsame.bind ha.2⟩
  · refine Ends.mono (hend b t hread hnil) (fun _ _ h => h.elim) fun e u hu _ => ?_
    obtain rfl := hu
    exact hrefuses.bind f'

/-- Where no items are left, the first row ends the list, and the other one has no item. -/
theorem listItems_open (htail : Shuts tail) {item : Rule α} (fuel : Nat) : ∀ {item' : Rule α},
    (∀ s : ReadState, s.speculating = true → EnclosedAt tail OfTypes True item item' s) →
    (∀ s : ReadState, s.current ≠ .identifier → Refuses item' s s) →
    ∀ fuel' due read (s : ReadState), s.speculating = true →
      OpenAt tail OfTypes (listItems false .greater item fuel due read)
        (listItems false .greater item' fuel' due read) s := by
  induction fuel with
  | zero =>
    intro _ _ _ _ _ _ _ _
    exact trivial
  | succ fuel ih =>
    intro item' hitem hend fuel' due read s hs
    apply OpenAt.onFuel fuel'
    · rfl
    intro fuel'
    unfold listItems
    refine (EnclosedAt.splitCloser joins_ofTypes htail s).bindOpen joins_ofTypes fun _ t ht => ?_
    have hst : t.speculating = true := ht.speculating.trans hs
    by_cases hr : t.rest = []
    · have hc : t.current = .endOfFile := ReadState.current_of_nil hr
      have hc' : (t.before tail).current = kindOf tail := ReadState.current_before_of_nil hr
      refine ends_bind.mpr (ends_state.mpr (ends_ite.mpr ⟨fun _ => ?_, fun h => ?_⟩))
      · refine ⟨.refl joins_ofTypes t, .inr ⟨hr, ?_⟩⟩
        refine ends_bind.mpr (ends_state.mpr (ends_ite.mpr ⟨fun h => ?_, fun _ => ?_⟩))
        · rw [Bool.or_eq_true, decide_eq_true_iff, decide_eq_true_iff, hc'] at h
          rcases h with h | h <;> exact absurd h (htail.kindOf_ne (by decide))
        · exact (hend _ (hc' ▸ htail.kindOf_ne (by decide))).bind _
      · rw [hc] at h
        exact absurd rfl h
    · have hc : (t.before tail).current = t.current := ReadState.current_before_of_ne_nil hr
      refine .state (.ite (by rw [hc]) (fun _ => ?_) fun _ => ?_)
      · exact (EnclosedAt.pure joins_ofTypes _ t).isOpen
      refine (hitem t hst).bindOpen joins_ofTypes fun a u hu => .state ?_
      refine .ite (ReadState.current_before_iff htail (by decide)) (fun hcomma => ?_) fun _ => ?_
      · have hcommas : ∀ v : Token, v.kind = .comma → OfTypes [v] := fun v hv => .single hv (by decide)
        refine (EnclosedAt.advance hcomma (by decide) hcommas).bindOpen joins_ofTypes fun _ v hv => ?_
        refine ih hitem hend fuel' true _ v ?_
        exact hv.speculating.trans (hu.speculating.trans hst)
      · exact (EnclosedAt.pure joins_ofTypes _ u).isOpen

/-- A list that is tried comes to the same in front of a tail. -/
theorem EnclosedAt.list (htail : Shuts tail) {item item' : Rule α}
    (hitem : ∀ s : ReadState, s.speculating = true → EnclosedAt tail OfTypes True item item' s)
    (hend : ∀ s : ReadState, s.current ≠ .identifier → Refuses item' s s)
    (hs : s.speculating = true) :
    EnclosedAt tail OfTypes True (Rule.list false .less .greater item)
      (Rule.list false .less .greater item') s := by
  have delimited : ∀ (kind : TokenKind) (cause : SyntaxError.Cause) (t : ReadState),
      kind ∈ [TokenKind.less, .greater] →
      EnclosedAt tail OfTypes True (delimiter false kind cause) (delimiter false kind cause) t := by
    intro kind cause t hkind
    have hother : kind ≠ .endOfFile ∧ kindOf tail ≠ kind ∧
        kind ∈ [TokenKind.identifier, .less, .greater, .comma, .star] := by
      simp only [List.mem_cons, List.not_mem_nil, or_false] at hkind
      rcases hkind with rfl | rfl <;>
        exact ⟨by decide, htail.kindOf_ne (by decide), by decide⟩
    unfold delimiter
    refine (EnclosedAt.expect cause hother.1 (fun u hu => .single hu hother.2.2) t
      fun _ _ => hother.2.1).bind joins_ofTypes fun _ u _ => ?_
    exact .pure joins_ofTypes () u
  have last : ∀ (items : Array α) (t : ReadState), EnclosedAt tail OfTypes True (do
      Rule.splitCloser .greater
      delimiter false .greater (.listClosing .greater)
      return items.toList) (do
      Rule.splitCloser .greater
      delimiter false .greater (.listClosing .greater)
      return items.toList) t := fun items t =>
    (EnclosedAt.splitCloser joins_ofTypes htail t).bind joins_ofTypes fun _ u _ =>
      (delimited .greater _ u (by decide)).bind joins_ofTypes fun _ v _ => .pure joins_ofTypes _ v
  unfold Rule.list
  refine (delimited .less _ s (by decide)).bind joins_ofTypes fun _ t ht => .state ?_
  have hst : t.speculating = true := ht.speculating.trans hs
  refine (listItems_open htail _ hitem hend _ _ _ t hst).shut joins_ofTypes (fun found u hu => ?_)
    fun found u hu hnil => ?_
  · have hsu : u.speculating = true := hu.speculating.trans hst
    have hsu' : (u.before tail).speculating = true := hsu
    refine .ite Iff.rfl (fun _ => .state ?_) fun _ => last found.1 u
    refine .ite (by rw [hsu, hsu']) (fun _ => ?_) fun h => absurd hsu h
    exact (EnclosedAt.failHere _ u).bind joins_ofTypes fun _ v _ => last found.1 v
  · have hsu : u.speculating = true := hu.speculating.trans hst
    have hc : u.current = .endOfFile := ReadState.current_of_nil hnil
    have hsplit : u.splitShiftRight = .ok u :=
      ReadState.splitShiftRight_of_ne (by rw [hc]; decide)
    refine ends_ite.mpr ⟨fun _ => ?_, fun _ => ?_⟩
    · refine ends_bind.mpr (ends_state.mpr (ends_ite.mpr ⟨fun _ => ?_, fun h => absurd hsu h⟩))
      exact ends_bind.mpr rfl
    · have hcloser : LeadsTo (Rule.splitCloser .greater) () u u := by
        unfold LeadsTo Ends
        rw [splitCloser_of_ne (by rw [hc]; decide)]
        exact ⟨rfl, rfl⟩
      refine hcloser.bindRefuses (Refuses.bind ?_ _)
      unfold delimiter
      exact (Refuses.expect _ (by rw [hc]; decide)).bind _

/-! ## Failing for another cause -/

theorem ends_failingAs {B : Prop} {cause : SyntaxError.Cause} {r : Rule α}
    {Q : α → ReadState → Prop} {E : SyntaxError → ReadState → Prop} :
    Ends B (Grammar.failingAs cause r) s Q E ↔ Ends B r s Q fun e => E ⟨cause, e.span, false⟩ := by
  unfold Ends Grammar.failingAs
  cases r s <;> rfl

theorem EnclosedAt.failingAs {r r' : Rule α} (cause : SyntaxError.Cause)
    (h : EnclosedAt tail pass strict r r' s) :
    EnclosedAt tail pass strict (Grammar.failingAs cause r) (Grammar.failingAs cause r') s :=
  ends_failingAs.mpr (Ends.mono h (fun _ _ h => ⟨h.1, ends_failingAs.mpr h.2⟩)
    fun _ _ h hs => ends_failingAs.mpr (h hs))

theorem Refuses.failingAs {r : Rule α} (cause : SyntaxError.Cause) (h : Refuses r t s) :
    Refuses (Grammar.failingAs cause r) t s :=
  ends_failingAs.mpr h

end Rule

namespace Grammar

open ReadState (Shuts)
open Rule

variable {tail : List Token} {strict : Prop} {s : ReadState}

/-! ## Types -/

theorem qualifiers_enclosed (htail : Shuts tail) (s : ReadState) :
    EnclosedAt tail OfTypes strict qualifiers qualifiers s := by
  have hother : kindOf tail ≠ .identifier := htail.kindOf_ne (by decide)
  refine .readWhileThen _ (fun _ _ _ => rfl) (startsWithQualifier_of_kindOf hother) s ?_
  intro front rest _ hfront _ t ht
  have hword := hfront t ht
  unfold startsWithQualifier at hword
  rw [Bool.and_eq_true, beq_iff_eq] at hword
  rw [hword.1]
  decide

/-- A word that does not come goes on no name. -/
theorem nameWords_append (htail : kindOf tail ≠ .identifier) (last : String) (ts : List Token) :
    nameWords last (ts ++ tail) = nameWords last ts := by
  induction ts generalizing last with
  | nil =>
    have hnone : NameTail last [] := trivial
    exact nameWords_of_tail hnone (.of_ne htail)
  | cons t ts ih =>
    rw [List.cons_append]
    unfold nameWords
    rw [ih]

theorem baseName_enclosed (htail : Shuts tail) (s : ReadState) :
    EnclosedAt tail OfTypes strict baseName baseName s := by
  have hother : kindOf tail ≠ .identifier := htail.kindOf_ne (by decide)
  unfold baseName
  refine (EnclosedAt.identifier htail _ (fun t ht => .single ht (by decide)) s).bind
    joins_ofTypes fun first t _ => .state ?_
  obtain ⟨more, rest, hr, hmore, hwords⟩ := exists_nameTail first.name t.rest
  have hr' : (t.before tail).rest = more ++ (rest ++ tail) := by
    rw [ReadState.before_rest, hr, List.append_assoc]
  rw [ReadState.before_rest, nameWords_append hother, hwords]
  have hlength : (more.map (·.text)).length = more.length := List.length_map _
  have hread := foldl_advance hr hlength
  have hread' := foldl_advance hr' hlength
  refine ⟨?_, rfl, ?_⟩
  · show t.Consumes OfTypes ((more.map (·.text)).foldl (fun s _ => s.advance) t)
    rw [hread]
    refine .past hr fun u hu => ?_
    rw [hmore.kind u hu]
    decide
  · show (more.map (·.text)).foldl (fun s _ => s.advance) (t.before tail) =
      ((more.map (·.text)).foldl (fun s _ => s.advance) t).before tail
    rw [hread, hread', ReadState.before_past]

theorem stars_enclosed (htail : Shuts tail) (fuel : Nat) :
    ∀ fuel' type found (s : ReadState),
      EnclosedAt tail OfTypes strict (stars fuel type found) (stars fuel' type found) s := by
  induction fuel with
  | zero => intro _ _ _ s; exact .breakWith _ _ s
  | succ fuel ih =>
    intro fuel' type found s
    apply EnclosedAt.onFuel fuel'
    · rfl
    intro fuel'
    unfold stars
    refine (EnclosedAt.eat joins_ofTypes htail (by decide) (fun t ht => .single ht (by decide)) s).bind
      joins_ofTypes fun star t _ => .ite Iff.rfl (fun _ => ?_) fun _ => .pure joins_ofTypes _ t
    exact (qualifiers_enclosed htail t).bind joins_ofTypes fun behind u _ => ih _ _ _ u

theorem objcType_refuses (fuel : Nat) (hc : s.current ≠ .identifier) :
    Refuses (objcType fuel) s s := by
  cases fuel with
  | zero => trivial
  | succ fuel =>
    unfold objcType baseName
    exact ((Refuses.identifier _ hc).bind _).bind _

/-- Where no word comes, no qualifier is read. -/
theorem qualifiers_leadsTo (hc : s.current ≠ .identifier) : LeadsTo qualifiers none s s := by
  have hread : s.readWhile startsWithQualifier = s.past [] s.rest :=
    ReadState.readWhile_of_append (List.nil_append _).symm (fun _ ht => (List.not_mem_nil ht).elim)
      (.inr (startsWithQualifier_of_kindOf hc))
  rw [ReadState.past_nil] at hread
  unfold qualifiers LeadsTo
  refine ends_bind.mpr (ends_state.mpr (ends_bind.mpr (ends_modify.mpr ?_)))
  rw [hread]
  refine ends_bind.mpr (ends_state.mpr (ends_pure.mpr ⟨?_, rfl⟩))
  rw [Nat.sub_self]
  rfl

theorem typeName_refuses (hc : s.current ≠ .identifier) : Refuses typeName s s := by
  unfold typeName
  refine ends_bind.mpr (ends_state.mpr ((qualifiers_leadsTo hc).bindRefuses ?_))
  exact ends_bind.mpr (ends_state.mpr (((objcType_refuses _ hc).failingAs _).bind _))

theorem objcType_enclosed (htail : Shuts tail) (fuel : Nat) :
    ∀ fuel' (s : ReadState), s.speculating = true →
      EnclosedAt tail OfTypes True (objcType fuel) (objcType fuel') s := by
  induction fuel with
  | zero => intro _ s _; exact .breakWith _ _ s
  | succ fuel ih =>
    intro fuel' s hs
    apply EnclosedAt.onFuel fuel'
    · rfl
    intro fuel'
    have last : ∀ (type : ObjcType) (t : ReadState), EnclosedAt tail OfTypes True (do
        let type ← pure type
        stars ((← state).weight + 1) type none) (do
        let type ← pure type
        stars ((← state).weight + 1) type none) t := fun type t =>
      (EnclosedAt.pure joins_ofTypes type t).bind joins_ofTypes fun _ u _ =>
        .state (stars_enclosed htail _ _ _ none u)
    unfold objcType
    refine (baseName_enclosed htail s).bind joins_ofTypes fun name t ht => .state ?_
    have hst : t.speculating = true := ht.speculating.trans hs
    refine .ite (ReadState.current_before_iff htail (by decide))
      (fun _ => .ite Iff.rfl (fun _ => ?_) fun _ => ?_) fun _ => last _ t
    · refine (EnclosedAt.list htail (fun u _ => ?_) (fun u hu => ?_) hst).bind joins_ofTypes
        fun protocols u _ => last _ u
      · exact (EnclosedAt.identifier htail _ (fun v hv => .single hv (by decide)) u).map
          joins_ofTypes _
      · exact (Refuses.identifier _ hu).bind _
    · refine (EnclosedAt.list htail (fun u hu => ?_) (fun u hu => ?_) hst).bind joins_ofTypes
        fun arguments u _ => last _ u
      · refine (qualifiers_enclosed htail u).bind joins_ofTypes fun _ v hv => ?_
        exact (ih fuel' v (hv.speculating.trans hu)).map joins_ofTypes Prod.fst
      · exact (qualifiers_leadsTo hu).bindRefuses ((objcType_refuses fuel' hu).bind _)

theorem typeName_enclosed (htail : Shuts tail) (hs : s.speculating = true) :
    EnclosedAt tail OfTypes True typeName typeName s := by
  by_cases hr : s.rest = []
  · refine .of_refuses (typeName_refuses ?_) (typeName_refuses ?_)
    · rw [ReadState.current_of_nil hr]
      decide
    · rw [ReadState.current_before_of_nil hr]
      exact htail.kindOf_ne (by decide)
  unfold typeName
  refine .state ?_
  rw [ReadState.currentSpan_before hr]
  refine (qualifiers_enclosed htail s).bind joins_ofTypes fun inFront t ht => .state ?_
  have htype := objcType_enclosed htail (t.weight + 1) ((t.before tail).weight + 1) t
    (ht.speculating.trans hs)
  refine (htype.failingAs .typeName).bind joins_ofTypes fun (type, behind) u _ => .state ?_
  have hlast : (u.before tail).lastEnd = u.lastEnd := rfl
  rw [hlast]
  cases Span.between s.currentSpan.start u.lastEnd with
  | ok span => exact .pure joins_ofTypes _ u
  | error fault => exact .breakWith fault _ u

end Grammar

end HeaderBridge
