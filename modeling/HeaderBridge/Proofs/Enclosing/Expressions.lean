/-
  An expression at the end of a row and in front of a closing delimiter. What is an expression at the
  end of the row is the same expression in front of the delimiter, and its parentheses are closed. The
  converse does not hold: a type in parentheses may be closed by the delimiter alone. A try of such a
  type comes to different things, but then a parenthesis stays open in the row, and the row is no
  expression.
-/
import HeaderBridge.Proofs.Agreement.Expressions
import HeaderBridge.Proofs.Enclosing.Types

namespace HeaderBridge

open ReadState (kindOf)

/-! ## Groups -/

/-- Balanced tokens, and at least one. -/
def Solid (ts : List Token) : Prop := Balanced ts ∧ ts ≠ []

/-- A parenthesis that opens. -/
def Opening (ts : List Token) : Prop := ∃ t : Token, t.kind = .leftParen ∧ ts = [t]

/-- A parenthesis that closes. -/
def Closing (ts : List Token) : Prop := ∃ t : Token, t.kind = .rightParen ∧ ts = [t]

/-- Balanced tokens with a parenthesis behind them that closes. -/
def Closed (ts : List Token) : Prop := ∃ us vs, Balanced us ∧ Closing vs ∧ ts = us ++ vs

namespace Solid

variable {ts us : List Token}

theorem of_kind {kind : TokenKind} (hkind : kind ∉ [.leftParen, .rightParen, .invalid]) (t : Token)
    (ht : t.kind = kind) : Solid [t] :=
  ⟨.of_kind hkind t ht, List.cons_ne_nil t []⟩

theorem append (hts : Solid ts) (hus : Balanced us) : Solid (ts ++ us) :=
  ⟨hts.1.append hus, fun h => hts.2 (List.append_eq_nil_iff.mp h).1⟩

theorem append_right (hts : Balanced ts) (hus : Solid us) : Solid (ts ++ us) :=
  ⟨hts.append hus.1, fun h => hus.2 (List.append_eq_nil_iff.mp h).2⟩

/-- A parenthesis, and what closes it. -/
theorem group (hts : Opening ts) (hus : Closed us) : Solid (ts ++ us) := by
  obtain ⟨t, ht, rfl⟩ := hts
  obtain ⟨inner, _, hinner, ⟨u, hu, rfl⟩, rfl⟩ := hus
  exact ⟨.group ht hinner hu .nil, List.cons_ne_nil t _⟩

end Solid

theorem Closing.append_nil {ts us : List Token} (hts : Closing ts) (hus : us = []) :
    Closing (ts ++ us) := by
  rwa [hus, List.append_nil]

theorem Closed.append {ts us : List Token} (hts : Balanced ts) (hus : Closing us) :
    Closed (ts ++ us) :=
  ⟨ts, us, hts, hus, rfl⟩

namespace ReadState

variable {s t : ReadState}

/-- At the end of a row there is no token to read. -/
theorem Consumes.rest_ne_nil (h : s.Consumes Solid t) : s.rest ≠ [] := by
  obtain ⟨front, rest, hr, hfront, rfl⟩ := h
  intro hnil
  rw [hnil] at hr
  cases hrow : front ++ rest with
  | nil => exact hfront.2 (List.append_eq_nil_iff.mp hrow).1
  | cons u us =>
    rw [hrow] at hr
    cases hr

/-- A parenthesis opens that no other one closes. -/
def Unclosed (s : ReadState) : Prop :=
  s.current = .leftParen ∧ ∀ u ∈ s.rest, u.kind ≠ .rightParen

theorem Unclosed.not_consumes (h : s.Unclosed) : ¬ s.Consumes Solid t := by
  rintro ⟨front, rest, hr, hfront, rfl⟩
  obtain ⟨u, front, rfl⟩ := List.exists_cons_of_ne_nil hfront.2
  have hu : u.kind = .leftParen := hr.kindOf_right h.1 (by decide)
  obtain ⟨v, hv, hk⟩ := hfront.1.exists_closing hu
  have hmem : v ∈ s.rest := by
    refine (hr.mem_iff_of_kind hk (by decide)).mp ?_
    exact List.mem_append_left rest (List.mem_cons_of_mem u hv)
  exact h.2 v hmem hk

end ReadState

namespace Rule.EnclosedAt

open ReadState (Consumes Shuts Unclosed)

variable {α β : Type} {tail : List Token} {pass : List Token → Prop} {strict : Prop} {s : ReadState}

/-- Behind a parenthesis, up to the one that closes it. -/
theorem opened (hc : s.current = .leftParen) {f f' : Span → Rule α}
    (hf : ∀ b t, s.Consumes Opening t → EnclosedAt tail Closed strict (f b) (f' b) t) :
    EnclosedAt tail Solid strict (Rule.advance >>= f) (Rule.advance >>= f') s :=
  (EnclosedAt.advance hc (by decide) fun t ht => ⟨t, ht, rfl⟩).join hf fun _ _ => Solid.group

/-- The parenthesis that closes, and what is made of all. -/
theorem closed (cause : SyntaxError.Cause) (a : α) (s : ReadState) :
    EnclosedAt tail Closing False (do
      let _ ← Rule.expect .rightParen cause
      return a) (do
      let _ ← Rule.expect .rightParen cause
      return a) s := by
  have hclose : EnclosedAt tail Closing False (Rule.expect .rightParen cause)
      (Rule.expect .rightParen cause) s :=
    .expect cause (by decide) (fun t ht => ⟨t, ht, rfl⟩) s fun h => h.elim
  exact hclose.join (fun _ t _ => .pure joins_nil a t) fun _ _ => Closing.append_nil

/-- A rule that reads something fails at the end of the row. -/
theorem fails_of_nil {r r' : Rule α} (h : EnclosedAt tail Solid strict r r' s) (hr : s.rest = []) :
    Fails r s :=
  Ends.mono h (fun _ _ h => absurd hr h.1.rest_ne_nil) fun _ _ _ => trivial

theorem fails_of_unclosed {r r' : Rule α} (h : EnclosedAt tail Solid strict r r' s)
    (hs : s.Unclosed) : Fails r s :=
  Ends.mono h (fun _ _ h => hs.not_consumes h.1) fun _ _ _ => trivial

end Rule.EnclosedAt

namespace Grammar

open ReadState (Consumes Shuts Unclosed)
open Rule

variable {tail : List Token} {strict : Prop} {s : ReadState}

/-! ## Trying a type -/

/-- A type behind an opening parenthesis. Where it fails, the second rule also does so if some
    parenthesis is closed in the row, since the end of the type is not the end of the row then. -/
theorem parenthesized_enclosed (htail : Shuts tail) {last : TypeName → Rule ObjcType}
    (hlast : ∀ name (t : ReadState), (strict → t.rest ≠ []) →
      EnclosedAt tail Closing strict (last name) (last name) t)
    (hs : s.speculating = true) (hc : s.current = .leftParen)
    (hclosed : strict → ∃ u ∈ s.rest, u.kind = .rightParen) :
    EnclosedAt tail Solid strict (advance >>= fun _ => typeName >>= last)
      (advance >>= fun _ => typeName >>= last) s := by
  refine .opened hc fun _ t ht => ?_
  have htype := typeName_enclosed htail (s := t) (ht.speculating.trans hs)
  refine (htype.mono (fun _ => id) fun _ => trivial).join (fun name u hu => hlast name u ?_)
    fun _ _ hts => Closed.append (OfTypes.balanced hts)
  intro hstrict hnil
  obtain ⟨c, hmem, hk⟩ := hclosed hstrict
  obtain ⟨front, rest, hr, ⟨o, ho, rfl⟩, rfl⟩ := ht
  have hrest : c ∈ rest := by
    rcases List.mem_cons.mp ((hr.mem_iff_of_kind hk (by decide)).mpr hmem)
      with rfl | hmem
    · rw [hk] at ho
      cases ho
    · exact hmem
  obtain ⟨front', rest', hr', htypes, rfl⟩ := hu
  rw [show rest' = [] from hnil, List.append_nil] at hr'
  have hfront := (hr'.mem_iff_of_kind hk (by decide)).mpr hrest
  exact htypes.kind_ne c hfront (by rw [hk]; decide)

theorem IsTried.enclosed {r : Rule ObjcType} (hr : IsTried r) (htail : Shuts tail)
    (hs : s.speculating = true) (hc : s.current = .leftParen)
    (hclosed : strict → ∃ u ∈ s.rest, u.kind = .rightParen) :
    EnclosedAt tail Solid strict r r s := by
  have hclose : ∀ t : ReadState, (strict → t.rest ≠ []) → EnclosedAt tail Closing strict
      (expect .rightParen .parenthesisAfterType) (expect .rightParen .parenthesisAfterType) t :=
    fun t ht => .expect _ (by decide) (fun u hu => ⟨u, hu, rfl⟩) t fun h hrest => absurd hrest (ht h)
  rcases hr with rfl | rfl
  · refine parenthesized_enclosed htail (fun name t ht => ?_) hs hc hclosed
    refine (hclose t ht).join (fun _ u _ => .state (.ite ?_ (fun _ => .pure joins_nil _ u) fun _ =>
      .failHere _ u)) fun _ _ => Closing.append_nil
    -- Neither the end of the row nor its tail starts an operand.
    by_cases hrest : u.rest = []
    · have hc : u.current = .endOfFile := ReadState.current_of_nil hrest
      rw [ReadState.current_before_of_nil hrest, hc]
      rcases htail with h | h <;> rw [h] <;> exact Iff.rfl
    · rw [ReadState.current_before_of_ne_nil hrest]
  · refine parenthesized_enclosed htail (fun name t ht => ?_) hs hc hclosed
    exact (hclose t ht).join (fun _ u _ => .pure joins_nil _ u) fun _ _ => Closing.append_nil

theorem attempt_leadsTo {α : Type} {r : Rule α} {a : α} {t : ReadState}
    (h : LeadsTo r a t { s with speculating := true }) :
    LeadsTo (attempt r) (some a) { t with speculating := s.speculating } s := by
  unfold LeadsTo Ends at h ⊢
  cases hrun : r { s with speculating := true } with
  | done b u =>
    rw [hrun] at h
    obtain ⟨rfl, rfl⟩ := h
    rw [attempt_of_done hrun]
    exact ⟨rfl, rfl⟩
  | failed e u =>
    rw [hrun] at h
    exact h.elim
  | broken fault =>
    rw [attempt_of_broken hrun]
    trivial

theorem attempt_leadsTo_none {α : Type} {r : Rule α} {front rest : List Token}
    (h : Refuses r (ReadState.past { s with speculating := true } front rest)
      { s with speculating := true }) :
    LeadsTo (attempt r) none { s with rest := front ++ rest } s := by
  unfold Refuses LeadsTo Ends at *
  cases hrun : r { s with speculating := true } with
  | done b u =>
    rw [hrun] at h
    exact h.elim
  | failed e u =>
    rw [hrun] at h
    obtain rfl := h
    rw [attempt_of_failed hrun]
    exact ⟨rfl, rfl⟩
  | broken fault =>
    rw [attempt_of_broken hrun]
    trivial

/-- Trying a type comes to the same, or no parenthesis is closed in the row. -/
theorem IsTried.attempt_enclosed {r : Rule ObjcType} (hr : IsTried r) (htail : Shuts tail)
    (hc : s.current = .leftParen) :
    EnclosedAt tail Balanced False (attempt r) (attempt r) s ∨
      Ends True (attempt r) s (fun type t => type = none ∧ t.Unclosed) fun _ _ => False := by
  by_cases hclosed : ∃ u ∈ s.rest, u.kind = .rightParen
  · left
    have hsame : EnclosedAt tail Solid True r r { s with speculating := true } :=
      hr.enclosed htail rfl hc fun _ => hclosed
    unfold EnclosedAt Ends
    cases hrun : r { s with speculating := true } with
    | done a t =>
      obtain ⟨⟨front, rest, hrow, hfront, rfl⟩, hcomes⟩ := hsame.of_done hrun
      rw [attempt_of_done hrun]
      exact ⟨⟨front, rest, hrow, hfront.1, rfl⟩, attempt_leadsTo (s := s.before tail) hcomes⟩
    | failed e t =>
      have hwalks := hr.tracksAt ReadState.tracks_walks (s := { s with speculating := true }) rfl hc
      obtain ⟨front, rest, hrow, _, rfl⟩ := hwalks.of_failed hrun
      have hnone : LeadsTo (attempt r) none { s.before tail with rest := front ++ (rest ++ tail) }
          (s.before tail) :=
        attempt_leadsTo_none (hsame.of_failed hrun trivial)
      rw [attempt_of_failed hrun]
      rw [← List.append_assoc] at hnone
      exact ⟨⟨[], front ++ rest, hrow, .nil, rfl⟩, hnone⟩
    | broken fault =>
      rw [attempt_of_broken hrun]
      trivial
  · right
    have hopen : ∀ u ∈ s.rest, u.kind ≠ .rightParen := fun u hu hk => hclosed ⟨u, hu, hk⟩
    have hself : EnclosedAt tail Solid False r r { s with speculating := true } :=
      hr.enclosed htail rfl hc fun h => h.elim
    have hfails := hself.fails_of_unclosed ⟨hc, hopen⟩
    unfold Ends
    cases hrun : r { s with speculating := true } with
    | done a t => exact (hfails.of_done hrun).elim
    | failed e t =>
      obtain ⟨front, hrow, _, hattempt⟩ := hr.attempt_failed hc hrun
      rw [hattempt]
      refine ⟨rfl, hrow.kindOf_right hc (by decide), fun u hu hk => ?_⟩
      exact hopen u ((hrow.mem_iff_of_kind hk (by decide)).mp hu) hk
    | broken fault =>
      rw [attempt_of_broken hrun]
      trivial

/-- A try that fails comes back to where it began. -/
theorem IsTried.current_of_attempt_none {r : Rule ObjcType} (hr : IsTried r)
    (hc : s.current = .leftParen) :
    Ends True (attempt r) s (fun type t => type = none → t.current = .leftParen) fun _ _ => True := by
  unfold Ends
  cases hrun : r { s with speculating := true } with
  | done a t =>
    rw [attempt_of_done hrun]
    intro h
    cases h
  | failed e t =>
    obtain ⟨front, hrow, _, hattempt⟩ := hr.attempt_failed hc hrun
    rw [hattempt]
    exact fun _ => hrow.kindOf_right hc (by decide)
  | broken fault =>
    rw [attempt_of_broken hrun]
    trivial

/-- Two rules for expressions of every power compare in front of the tail. -/
def EnclosedThroughout (tail : List Token) (expr expr' : Nat → Rule ObjcExpr) : Prop :=
  ∀ power s, EnclosedAt tail Solid False (expr power) (expr' power) s

section Parts

variable {expr expr' : Nat → Rule ObjcExpr}

/-- An expression as a part of another one. -/
theorem EnclosedThroughout.part (hexpr : EnclosedThroughout tail expr expr') (power : Nat)
    (s : ReadState) : EnclosedAt tail Balanced False (expr power) (expr' power) s :=
  (hexpr power s).mono (fun _ h => h.1) id

/-! ## Operands -/

theorem strings_enclosed (htail : Shuts tail) (hc : s.current = .stringLiteral) :
    EnclosedAt tail Solid False strings strings s := by
  have hother : (kindOf tail == .stringLiteral) = false :=
    beq_eq_false_iff_ne.mpr (htail.kindOf_ne (by decide))
  have hpass : ∀ front rest : List Token, s.rest = front ++ rest →
      (∀ t ∈ front, (kindOf [t] == .stringLiteral) = true) →
      (rest = [] ∨ (kindOf rest == .stringLiteral) = false) → Solid front := by
    refine fun front rest hr hfront hrest => ⟨.of_plain fun t ht => ?_, ?_⟩
    · have hk : t.kind = .stringLiteral := beq_iff_eq.mp (hfront t ht)
      rw [hk]
      decide
    · rintro rfl
      rw [List.nil_append] at hr
      rw [← hr, show kindOf s.rest = .stringLiteral from hc] at hrest
      exact ReadState.ne_nil_of_current hc (by decide) (hrest.resolve_right (by decide))
  have hread : EnclosedAt tail Solid False _ _ s := EnclosedAt.readWhileThen
    (f := fun ts => ObjcLiteral.string (String.join (ts.map fun t => unquoted t.text)))
    (fun ts => kindOf ts == .stringLiteral) (fun _ _ _ => rfl) hother s hpass
  exact hread

theorem sizeOf_enclosed (htail : Shuts tail) (hexpr : EnclosedThroughout tail expr expr')
    (hc : s.current = .identifier) : EnclosedAt tail Solid False (sizeOf expr) (sizeOf expr') s := by
  have last : ∀ (type : Option ObjcType) (t : ReadState), EnclosedAt tail Balanced False
      (sizeOfOperand expr type) (sizeOfOperand expr' type) t := fun type t => by
    cases type with
    | some type => exact .pure joins_balanced _ t
    | none => exact (hexpr.part _ t).bind joins_balanced fun _ u _ => .pure joins_balanced _ u
  unfold sizeOf
  have hword : EnclosedAt tail Solid False advance advance s :=
    .advance hc (by decide) (Solid.of_kind (by decide))
  refine hword.join (fun _ t _ => .state ?_) fun _ _ => Solid.append
  refine .ite (ReadState.current_before_iff htail (by decide)) (fun hparen => ?_) fun _ => ?_
  · rcases IsTried.attempt_enclosed (.inr rfl) htail hparen with h | h
    · exact h.bind joins_balanced fun type u _ => last type u
    · refine .of_fails (ends_bind.mpr (h.mono (fun type u hu => ?_) fun _ _ h => h.elim))
      obtain ⟨rfl, hunclosed⟩ := hu
      exact ((hexpr unaryPower u).fails_of_unclosed hunclosed).bind _
  · exact (EnclosedAt.pure joins_balanced none t).bind joins_balanced fun type u _ => last type u

theorem castOrGroup_enclosed (htail : Shuts tail) (hexpr : EnclosedThroughout tail expr expr')
    (hc : s.current = .leftParen) :
    EnclosedAt tail Solid False (castOrGroup expr) (castOrGroup expr') s := by
  have group : ∀ t : ReadState, t.current = .leftParen → EnclosedAt tail Solid False (do
      let _ ← advance
      let inner ← expr 0
      let _ ← expect .rightParen .groupEnd
      return ObjcExpr.paren inner) (do
      let _ ← advance
      let inner ← expr' 0
      let _ ← expect .rightParen .groupEnd
      return ObjcExpr.paren inner) t := fun t ht =>
    .opened ht fun _ u _ => (hexpr.part 0 u).join (fun inner v _ => .closed _ _ v)
      fun _ _ => Closed.append
  unfold castOrGroup
  rcases IsTried.attempt_enclosed (.inl rfl) htail hc with h | h
  · refine h.joinKnowing (IsTried.current_of_attempt_none (.inl rfl) hc) (fun type t _ hnone => ?_)
      fun _ _ => Solid.append_right
    cases type with
    | some type =>
      exact (hexpr _ t).join (fun _ u _ => .pure joins_balanced _ u) fun _ _ => Solid.append
    | none => exact group t (hnone rfl)
  · refine .of_fails (ends_bind.mpr (h.mono (fun type t ht => ?_) fun _ _ h => h.elim))
    obtain ⟨rfl, hunclosed⟩ := ht
    exact (group t hunclosed.1).fails_of_unclosed hunclosed

/-! ## Calls and messages -/

theorem moreArguments_enclosed (htail : Shuts tail) (fuel : Nat) :
    ∀ {expr'}, EnclosedThroughout tail expr expr' → ∀ fuel' read (s : ReadState),
      EnclosedAt tail Solid False (moreArguments expr fuel read)
        (moreArguments expr' fuel' read) s := by
  induction fuel with
  | zero => intro _ _ _ _ s; exact .breakWith _ _ s
  | succ fuel ih =>
    intro expr' hexpr fuel' read s
    apply EnclosedAt.onFuel fuel'
    · rfl
    intro fuel'
    unfold moreArguments
    refine (hexpr 0 s).join (fun value t _ => ?_) fun _ _ => Solid.append
    refine (EnclosedAt.eat joins_balanced htail (by decide) (Balanced.of_kind (by decide)) t).bind
      joins_balanced fun comma u _ => .ite Iff.rfl (fun _ => ?_) fun _ => .pure joins_balanced _ u
    exact (ih hexpr fuel' _ u).mono (fun _ h => h.1) id

theorem callArguments_enclosed (htail : Shuts tail) (hexpr : EnclosedThroughout tail expr expr')
    (hc : s.current = .leftParen) :
    EnclosedAt tail Solid False (callArguments expr) (callArguments expr') s := by
  unfold callArguments
  refine .opened hc fun _ t _ => .state ?_
  have hmore := moreArguments_enclosed htail (t.weight + 1) hexpr ((t.before tail).weight + 1) #[] t
  by_cases hr : t.rest = []
  · -- There are no arguments at the end of the row.
    have hend : t.current ≠ .rightParen := by
      rw [ReadState.current_of_nil hr]
      decide
    rw [if_neg hend]
    exact .of_fails ((hmore.fails_of_nil hr).bind _)
  · refine .ite (by rw [ReadState.current_before_of_ne_nil hr]) (fun _ => ?_) fun _ => ?_
    · exact (EnclosedAt.pure joins_balanced #[] t).join (fun _ u _ => .closed _ _ u)
        fun _ _ => Closed.append
    · exact (hmore.mono (fun _ h => h.1) id).join (fun _ u _ => .closed _ _ u)
        fun _ _ => Closed.append

theorem messageArguments_enclosed (htail : Shuts tail) (fuel : Nat) :
    ∀ {expr'}, EnclosedThroughout tail expr expr' → ∀ fuel' selector read (s : ReadState),
      EnclosedAt tail Balanced False (messageArguments expr fuel selector read)
        (messageArguments expr' fuel' selector read) s := by
  induction fuel with
  | zero => intro _ _ _ _ _ s; exact .breakWith _ _ s
  | succ fuel ih =>
    intro expr' hexpr fuel' selector read s
    apply EnclosedAt.onFuel fuel'
    · rfl
    intro fuel'
    have next : ∀ selector label (t : ReadState), EnclosedAt tail Balanced False (do
        let value ← expr 0
        messageArguments expr fuel selector (read.push ⟨label, value⟩)) (do
        let value ← expr' 0
        messageArguments expr' fuel' selector (read.push ⟨label, value⟩)) t :=
      fun selector label t => (hexpr.part 0 t).bind joins_balanced fun value u _ =>
        ih hexpr fuel' _ _ u
    unfold messageArguments
    refine .state (.ite ?_ (fun hlabel => ?_) fun _ => ?_)
    · by_cases hr : s.rest = []
      · have hword : s.current ≠ .identifier := by
          rw [ReadState.current_of_nil hr]
          decide
        have hword' := mt (ReadState.current_before_iff htail (by decide)).mp hword
        simp [hword, hword']
      · simp only [Bool.and_eq_true, decide_eq_true_iff]
        rw [ReadState.current_before_of_ne_nil hr, ReadState.second_before_iff htail hr (by decide)]
    · rw [Bool.and_eq_true, decide_eq_true_iff, decide_eq_true_iff] at hlabel
      obtain ⟨hword, hcolon⟩ := hlabel
      rw [ReadState.currentText_before (ReadState.ne_nil_of_current hword (by decide))]
      refine (EnclosedAt.advance hword (by decide) (Balanced.of_kind (by decide))).joinKnowing
        (K := fun _ t => t = s.advance) rfl (fun _ t _ ht => ?_) fun _ _ => joins_balanced.append
      have hcurrent : t.current = .colon := by
        rw [ht]
        unfold ReadState.current
        rw [ReadState.rest_advance]
        exact hcolon
      exact (EnclosedAt.advance hcurrent (by decide) (Balanced.of_kind (by decide))).bind
        joins_balanced fun _ u _ => next _ _ u
    · refine (EnclosedAt.eat joins_balanced htail (by decide) (Balanced.of_kind (by decide)) s).bind
        joins_balanced fun comma t _ => ?_
      exact .ite Iff.rfl (fun _ => next _ _ t) fun _ => .pure joins_balanced _ t

theorem message_enclosed (htail : Shuts tail) (hexpr : EnclosedThroughout tail expr expr')
    (hc : s.current = .leftBracket) :
    EnclosedAt tail Solid False (message expr) (message expr') s := by
  unfold message
  have hopen : EnclosedAt tail Solid False advance advance s :=
    .advance hc (by decide) (Solid.of_kind (by decide))
  refine hopen.join (fun _ t _ => ?_) fun _ _ => Solid.append
  refine (hexpr.part 0 t).bind joins_balanced fun receiver u _ => ?_
  have last : ∀ (found : String × Array (Labelled ObjcExpr)) (v : ReadState),
      EnclosedAt tail Balanced False (do
        let _ ← Rule.expect .rightBracket .messageEnd
        return ObjcExpr.message receiver found.1 found.2.toList) (do
        let _ ← Rule.expect .rightBracket .messageEnd
        return ObjcExpr.message receiver found.1 found.2.toList) v := fun found v =>
    (EnclosedAt.expect _ (by decide) (Balanced.of_kind (by decide)) v fun h => h.elim).bind
      joins_balanced fun _ w _ => .pure joins_balanced _ w
  refine (EnclosedAt.identifier htail _ (Balanced.of_kind (by decide)) u).bind joins_balanced
    fun first v _ => ?_
  refine (EnclosedAt.eat joins_balanced htail (by decide) (Balanced.of_kind (by decide)) v).bind
    joins_balanced fun colon w _ => .ite Iff.rfl (fun _ => ?_) fun _ => ?_
  · refine (hexpr.part 0 w).bind joins_balanced fun value x _ => .state ?_
    exact (messageArguments_enclosed htail _ hexpr _ _ _ x).bind joins_balanced fun found y _ =>
      last found y
  · exact (EnclosedAt.pure joins_balanced _ w).bind joins_balanced fun found x _ => last found x

/-! ## Single operands -/

theorem wordOf_enclosed (htail : Shuts tail) (hexpr : EnclosedThroughout tail expr expr')
    (hc : s.current = .identifier) (text : String) :
    EnclosedAt tail Solid False (wordOf expr text) (wordOf expr' text) s := by
  have value : ∀ value : ObjcExpr, EnclosedAt tail Solid False (do
      let _ ← Rule.advance
      return value) (do
      let _ ← Rule.advance
      return value) s := fun value =>
    (EnclosedAt.advance hc (by decide) (Solid.of_kind (by decide))).join
      (fun _ t _ => .pure joins_balanced _ t) fun _ _ => Solid.append
  unfold wordOf
  cases literalWord? text with
  | some literal => exact value _
  | none => exact .ite Iff.rfl (fun _ => sizeOf_enclosed htail hexpr hc) fun _ => value _

theorem operandOf_enclosed (htail : Shuts tail) (hexpr : EnclosedThroughout tail expr expr')
    {kind : TokenKind} (hc : s.current = kind) (text : String) :
    EnclosedAt tail Solid False (operandOf expr kind text) (operandOf expr' kind text) s := by
  have literal : ∀ value : ObjcLiteral, kind ∉ [.leftParen, .rightParen, .invalid, .endOfFile] →
      EnclosedAt tail Solid False (do
        let _ ← Rule.advance
        return ObjcExpr.literal value) (do
        let _ ← Rule.advance
        return ObjcExpr.literal value) s := fun value hkind => by
    simp only [List.mem_cons, List.not_mem_nil, or_false, not_or] at hkind
    refine (EnclosedAt.advance hc hkind.2.2.2 (Solid.of_kind ?_)).join
      (fun _ t _ => .pure joins_balanced _ t) fun _ _ => Solid.append
    simp [hkind]
  unfold operandOf
  split
  · next op hop =>
    have hkind : kind ∉ [.leftParen, .rightParen, .invalid] ∧ kind ≠ .endOfFile := by
      simp only [List.mem_cons, List.not_mem_nil, or_false, not_or]
      refine ⟨⟨?_, ?_, ?_⟩, ?_⟩ <;> rintro rfl <;> cases hop
    refine (EnclosedAt.advance hc hkind.2 (Solid.of_kind hkind.1)).join (fun _ t _ => ?_)
      fun _ _ => Solid.append
    exact (hexpr.part _ t).bind joins_balanced fun _ u _ => .pure joins_balanced _ u
  · split
    · exact literal _ (by decide)
    · exact literal _ (by decide)
    · exact (strings_enclosed htail hc).join (fun _ t _ => .pure joins_balanced _ t)
        fun _ _ => Solid.append
    · exact literal _ (by decide)
    · rw [word_eq, word_eq]
      refine .state ?_
      rw [ReadState.currentText_before (ReadState.ne_nil_of_current hc (by decide))]
      exact wordOf_enclosed htail hexpr hc _
    · exact castOrGroup_enclosed htail hexpr hc
    · exact message_enclosed htail hexpr hc
    · exact .failHere _ s

theorem operand_enclosed (htail : Shuts tail) (hexpr : EnclosedThroughout tail expr expr')
    (s : ReadState) : EnclosedAt tail Solid False (operand expr) (operand expr') s := by
  rw [operand_eq, operand_eq]
  refine .state ?_
  by_cases hr : s.rest = []
  · have hc : s.current = .endOfFile := ReadState.current_of_nil hr
    rw [hc]
    exact fun h => h.elim
  · rw [ReadState.current_before_of_ne_nil hr, ReadState.currentText_before hr]
    exact operandOf_enclosed htail hexpr rfl _

/-! ## Operators -/

theorem joined_enclosed (hexpr : EnclosedThroughout tail expr expr') (joint : Joint)
    (lhs : ObjcExpr) (s : ReadState) :
    EnclosedAt tail Balanced False (joined expr joint lhs) (joined expr' joint lhs) s := by
  unfold joined
  cases joint with
  | assign op => exact (hexpr.part _ s).bind joins_balanced fun _ t _ => .pure joins_balanced _ t
  | binary op => exact (hexpr.part _ s).bind joins_balanced fun _ t _ => .pure joins_balanced _ t
  | ternary =>
    refine (hexpr.part _ s).bind joins_balanced fun yes t _ => ?_
    refine (EnclosedAt.expect _ (by decide) (Balanced.of_kind (by decide)) t
      fun h => h.elim).bind joins_balanced fun _ u _ => ?_
    exact (hexpr.part _ u).bind joins_balanced fun _ v _ => .pure joins_balanced _ v

theorem extendedBy_enclosed (htail : Shuts tail) (hexpr : EnclosedThroughout tail expr expr')
    (power : Nat) {next next' : ObjcExpr → Rule ObjcExpr}
    (hnext : ∀ whole t, EnclosedAt tail Balanced False (next whole) (next' whole) t)
    (lhs : ObjcExpr) {kind : TokenKind} (hc : s.current = kind) :
    EnclosedAt tail Balanced False (extendedBy expr power next lhs kind)
      (extendedBy expr' power next' lhs kind) s := by
  have member : ∀ arrow : Bool, kind ∈ [.dot, .arrow] → EnclosedAt tail Balanced False (do
      let _ ← Rule.advance
      let name ← Rule.identifier .memberName
      next (.member lhs name.name arrow)) (do
      let _ ← Rule.advance
      let name ← Rule.identifier .memberName
      next' (.member lhs name.name arrow)) s := fun arrow hkind => by
    have hother : kind ∉ [.leftParen, .rightParen, .invalid] ∧ kind ≠ .endOfFile := by
      simp only [List.mem_cons, List.not_mem_nil, or_false] at hkind
      rcases hkind with rfl | rfl <;> decide
    refine (EnclosedAt.advance hc hother.2 (Balanced.of_kind hother.1)).bind joins_balanced
      fun _ t _ => ?_
    exact (EnclosedAt.identifier htail _ (Balanced.of_kind (by decide)) t).bind joins_balanced
      fun name u _ => hnext _ u
  unfold extendedBy
  split
  · exact ((callArguments_enclosed htail hexpr hc).mono (fun _ h => h.1) id).bind joins_balanced
      fun arguments t _ => hnext _ t
  · exact member _ (by decide)
  · exact member _ (by decide)
  · refine (EnclosedAt.advance hc (by decide) (Balanced.of_kind (by decide))).bind joins_balanced
      fun _ t _ => ?_
    refine (hexpr.part 0 t).bind joins_balanced fun index u _ => ?_
    exact (EnclosedAt.expect _ (by decide) (Balanced.of_kind (by decide)) u fun h => h.elim).bind
      joins_balanced fun _ v _ => hnext _ v
  · cases hjoint : jointOf? kind with
    | none => exact .pure joins_balanced _ s
    | some joint =>
      have hkind : kind ∉ [.leftParen, .rightParen, .invalid] ∧ kind ≠ .endOfFile := by
        simp only [List.mem_cons, List.not_mem_nil, or_false, not_or]
        refine ⟨⟨?_, ?_, ?_⟩, ?_⟩ <;> rintro rfl <;> cases hjoint
      refine .ite Iff.rfl (fun _ => .pure joins_balanced _ s) fun _ => ?_
      refine (EnclosedAt.advance hc hkind.2 (Balanced.of_kind hkind.1)).bind joins_balanced
        fun _ t _ => ?_
      exact (joined_enclosed hexpr joint lhs t).bind joins_balanced fun whole u _ => hnext whole u

theorem extended_enclosed (htail : Shuts tail) (hexpr : EnclosedThroughout tail expr expr')
    (power fuel : Nat) : ∀ fuel' lhs (s : ReadState), EnclosedAt tail Balanced False
      (extended expr power fuel lhs) (extended expr' power fuel' lhs) s := by
  induction fuel with
  | zero => intro _ _ s; exact .breakWith _ _ s
  | succ fuel ih =>
    intro fuel' lhs s
    apply EnclosedAt.onFuel fuel'
    · rfl
    intro fuel'
    rw [extended_succ, extended_succ]
    refine .state ?_
    by_cases hr : s.rest = []
    · -- Neither the end of the row nor its tail goes on with an operand.
      have hc : s.current = .endOfFile := ReadState.current_of_nil hr
      rw [ReadState.current_before_of_nil hr, hc]
      rcases htail with h | h <;> rw [h] <;> exact .pure joins_balanced lhs s
    · rw [ReadState.current_before_of_ne_nil hr]
      exact extendedBy_enclosed htail hexpr power (ih fuel') lhs rfl

end Parts

/-! ## Whole expressions -/

theorem expressionFrom_enclosed (htail : Shuts tail) (fuel : Nat) :
    ∀ fuel', EnclosedThroughout tail (expressionFrom fuel) (expressionFrom fuel') := by
  induction fuel with
  | zero => intro _ _ s; exact .breakWith _ _ s
  | succ fuel ih =>
    intro fuel' power s
    apply EnclosedAt.onFuel fuel'
    · rfl
    intro fuel'
    unfold expressionFrom
    refine (operand_enclosed htail (ih fuel') s).join (fun first t _ => .state ?_)
      fun _ _ => Solid.append
    exact extended_enclosed htail (ih fuel') power _ _ first t

/-- An expression at the end of a row is the same expression in front of a closing delimiter. -/
theorem expression_enclosed (htail : Shuts tail) (s : ReadState) :
    EnclosedAt tail Solid False expression expression s :=
  .state (expressionFrom_enclosed htail _ _ 0 s)

end Grammar

end HeaderBridge
