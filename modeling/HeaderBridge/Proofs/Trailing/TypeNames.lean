/-
  Type names with a comma in front of a closing delimiter. A type name that is read without an error is
  read from qualifiers and a spelling, whose double brackets were taken apart where a list closes
  (`typeName_writesNeatly`). So a delimiter in its place is one of a list of the type, and in front of
  the comma the same type is found, with one error (`typeName_meets`).
-/
import HeaderBridge.Proofs.Enclosing.Types
import HeaderBridge.Proofs.Trailing.Overrun
import HeaderBridge.Proofs.Trailing.Spots

namespace HeaderBridge

open ReadState (kindOf HasRead)

/-- No token of a type is a double angle bracket or a sign of equality. -/
theorem OfTypes.isLoose {ts : List Token} (h : OfTypes ts) : ∀ t ∈ ts, t.IsLoose := by
  intro t ht hdouble
  have hkind := h t ht
  revert hdouble hkind
  generalize t.kind = kind
  revert kind
  decide

/-- What is left behind tokens that were taken apart is left of what stood behind them. -/
theorem Halved.behind {p q v ts us : List Token} (h : Halved p q) (hrow : Halved (p ++ v) us)
    (hus : us = q ++ ts) : Halved v ts := by
  induction h generalizing us with
  | nil =>
    subst hus
    exact hrow
  | keep t _ ih =>
    cases hrow with
    | keep _ rest => exact ih rest (List.cons.inj hus).2
    | halve halves _ =>
      obtain ⟨rfl, -⟩ := List.cons.inj hus
      exact absurd (halves.first_kind.symm.trans halves.kind) (by decide)
  | halve halves _ ih =>
    cases hrow with
    | keep _ _ =>
      obtain ⟨rfl, -⟩ := List.cons.inj hus
      exact absurd (halves.first_kind.symm.trans halves.kind) (by decide)
    | halve _ rest => exact ih rest (List.cons.inj (List.cons.inj hus).2).2

namespace ReadState

variable {s s' s'' : ReadState} {front front' : List Token}

/-- These tokens were read of a row in which brackets may have been taken apart, but none behind the
    place where the reading stands. -/
def TakesOff (s : ReadState) (front : List Token) (s' : ReadState) : Prop :=
  ∃ p halves rest, s.rest = p ++ rest ∧ Halved p (front ++ halves) ∧
    (∀ t ∈ halves, t.kind = .greater) ∧ s' = s.past front (halves ++ rest)

namespace TakesOff

theorem of_read (h : HasRead s front s') : TakesOff s front s' := by
  obtain ⟨rest, hr, rfl⟩ := h
  exact ⟨front, [], rest, hr, by rw [List.append_nil]; exact .refl front, List.forall_mem_nil _, rfl⟩

theorem refl (s : ReadState) : TakesOff s [] s := of_read (.refl s)

theorem trans (h : TakesOff s front s') (h' : TakesOff s' front' s'') :
    TakesOff s (front ++ front') s'' := by
  obtain ⟨p, halves, rest, hr, hp, hhalves, rfl⟩ := h
  obtain ⟨p', halves', rest', hr', hp', hhalves', rfl⟩ := h'
  rw [past_past]
  rcases List.append_eq_append_iff.mp (show halves ++ rest = p' ++ rest' from hr') with
    ⟨more, rfl, rfl⟩ | ⟨more, rfl, rfl⟩
  · refine ⟨p ++ more, halves', rest', by rw [hr, List.append_assoc], ?_, hhalves', rfl⟩
    have hall := hp.append (.refl more)
    rw [List.append_assoc] at hall ⊢
    exact hall.trans ((Halved.refl front).append hp')
  · refine ⟨p, halves' ++ more, rest, hr, ?_, ?_, by rw [List.append_assoc]⟩
    · have hall := (Halved.refl front).append (hp'.append (.refl more))
      rw [List.append_assoc] at hall
      rw [List.append_assoc]
      exact hp.trans hall
    · exact List.forall_mem_append.mpr ⟨hhalves', (List.forall_mem_append.mp hhalves).2⟩

/-- Taking the current token apart reads nothing. -/
theorem split (h : s.splitShiftRight = .ok s') : TakesOff s [] s' := by
  rcases splitShiftRight_cases h with ⟨_, rfl⟩ | ⟨t, a, b, rest, hr, hv, rfl⟩
  · exact .refl s'
  · refine ⟨[t], [a, b], rest, hr, .halve hv .nil, ?_, rfl⟩
    exact List.forall_mem_cons.mpr ⟨hv.first_kind, List.forall_mem_singleton.mpr hv.second_kind⟩

theorem speculating (h : TakesOff s front s') : s'.speculating = s.speculating := by
  obtain ⟨_, _, _, _, _, _, rfl⟩ := h
  rfl

/-- Where no closing bracket is left, nothing that is left was taken apart. -/
theorem cut (h : TakesOff s front s') (hne : s'.current ≠ .greater) :
    ∃ p, s.rest = p ++ s'.rest ∧ Halved p front := by
  obtain ⟨p, halves, rest, hr, hp, hhalves, rfl⟩ := h
  cases halves with
  | nil => exact ⟨p, hr, by rwa [List.append_nil] at hp⟩
  | cons t halves => exact absurd (hhalves t List.mem_cons_self) hne

theorem eq_past (h : TakesOff s front s') : s' = s.past front s'.rest := by
  obtain ⟨_, _, _, _, _, _, rfl⟩ := h
  rfl

theorem halved (h : TakesOff s front s') : Halved s.rest (front ++ s'.rest) := by
  obtain ⟨p, halves, rest, hr, hp, -, rfl⟩ := h
  rw [hr, past_rest, ← List.append_assoc]
  exact hp.append (.refl rest)

theorem takesTokens : TakesTokens TakesOff := ⟨of_read, trans, speculating, halved⟩

end TakesOff

end ReadState

open ReadState (TakesOff)
open Grammar (keeping_of_agreeAt)

namespace Rule

variable {α β : Type} {s : ReadState} {w w' : List Token → α → ReadState → Prop}

/-- Where the rule is read without an error, it takes off tokens that write its value. -/
structure WritesNeatly (r : Rule α) (w : List Token → α → ReadState → Prop) (s : ReadState) :
    Prop where
  keeps : Keeping r s
  writes : ∀ {a t}, Neatly r s a t → ∃ front, TakesOff s front t ∧ w front a t

namespace WritesNeatly

theorem mono {r : Rule α} (h : WritesNeatly r w s) (hw : ∀ front a t, w front a t → w' front a t) :
    WritesNeatly r w' s :=
  ⟨h.keeps, fun hneat => (h.writes hneat).imp fun _ h => ⟨h.1, hw _ _ _ h.2⟩⟩

theorem bind {r : Rule β} {f : β → Rule α} {v : List Token → β → ReadState → Prop}
    (h : WritesNeatly r v s) (hk : ∀ b t, Keeping (f b) t)
    (hf : ∀ front b t, TakesOff s front t → v front b t →
      WritesNeatly (f b) (fun behind => w (front ++ behind)) t) : WritesNeatly (r >>= f) w s := by
  refine ⟨h.keeps.bind hk, fun hneat => ?_⟩
  obtain ⟨b, t, hfirst, hsecond⟩ := hneat.of_bind h.keeps hk
  obtain ⟨front, htakes, hv⟩ := h.writes hfirst
  obtain ⟨behind, htakes', hw⟩ := (hf front b t htakes hv).writes hsecond
  exact ⟨front ++ behind, htakes.trans htakes', hw⟩

theorem pure {a : α} (h : w [] a s) : WritesNeatly (pure a) w s := by
  refine ⟨.refl s, fun hneat => ?_⟩
  cases hneat.done
  exact ⟨[], .refl s, h⟩

theorem state {f : ReadState → Rule α} (h : WritesNeatly (f s) w s) :
    WritesNeatly (Rule.state >>= f) w s :=
  ⟨h.keeps, fun hneat => h.writes hneat.of_state⟩

theorem ite {c : Prop} [Decidable c] {r r' : Rule α} (h : c → WritesNeatly r w s)
    (h' : ¬ c → WritesNeatly r' w s) : WritesNeatly (if c then r else r') w s := by
  by_cases hc : c
  · rw [if_pos hc]
    exact h hc
  · rw [if_neg hc]
    exact h' hc

theorem of_ends {r : Rule α} (hkeeps : Keeping r s)
    (h : Ends True r s (fun a t => ∃ front, HasRead s front t ∧ w front a t) fun _ _ => True) :
    WritesNeatly r w s :=
  ⟨hkeeps, fun hneat => (h.of_done hneat.done).imp fun _ h => ⟨.of_read h.1, h.2⟩⟩

theorem identifier (cause : SyntaxError.Cause) (s : ReadState) :
    WritesNeatly (Rule.identifier cause)
      (fun front i _ => ∃ t : Token, front = [t] ∧ t.kind = .identifier ∧ i.name = t.text) s := by
  refine of_ends (.identifier cause s) (ends_identifier.mpr ⟨fun hc => ?_, fun _ => trivial⟩)
  obtain ⟨t, rest, hr, hk⟩ := ReadState.exists_cons_of_current hc (by decide)
  exact ⟨[t], .advance hr, t, rfl, hk, ReadState.currentText_of_cons hr⟩

theorem splitCloser (s : ReadState) :
    WritesNeatly (Rule.splitCloser .greater) (fun front _ _ => front = []) s := by
  refine ⟨keeping_of_agreeAt (AgreeAt.splitCloser .greater s s), fun {_ t} hneat => ⟨[], ?_, rfl⟩⟩
  have hdone := hneat.done
  rw [show Rule.splitCloser .greater = modifyOrBreak ReadState.splitShiftRight from if_pos rfl] at hdone
  unfold modifyOrBreak at hdone
  cases hsplit : s.splitShiftRight with
  | error fault => rw [hsplit] at hdone; cases hdone
  | ok u =>
    rw [hsplit] at hdone
    cases hdone
    exact .split hsplit

theorem delimiter {kind : TokenKind} (hkind : kind ≠ .endOfFile) (cause : SyntaxError.Cause)
    (s : ReadState) : WritesNeatly (Rule.delimiter false kind cause)
      (fun front _ _ => ∃ t : Token, front = [t] ∧ t.kind = kind) s := by
  refine of_ends (keeping_of_agreeAt (AgreeAt.delimiter false kind cause s s)) ?_
  unfold Rule.delimiter
  refine ends_bind.mpr (ends_expect.mpr ⟨fun hc => ?_, fun _ => trivial⟩)
  obtain ⟨t, hk, hread⟩ := HasRead.exists_advance hc hkind
  exact ⟨[t], hread, t, rfl, hk⟩

theorem advance {kind : TokenKind} (hc : s.current = kind) (hkind : kind ≠ .endOfFile) :
    WritesNeatly Rule.advance (fun front _ _ => ∃ t : Token, front = [t] ∧ t.kind = kind) s := by
  refine of_ends (.of_reads (.advance s)) ?_
  obtain ⟨t, hk, hread⟩ := HasRead.exists_advance hc hkind
  exact ⟨[t], hread, t, rfl, hk⟩

theorem eat {kind : TokenKind} (hkind : kind ≠ .endOfFile) (s : ReadState) :
    WritesNeatly (Rule.eat kind) (fun front found t =>
      (found = true → ∃ t : Token, front = [t] ∧ t.kind = kind) ∧
        (¬ found = true → front = [] ∧ t = s)) s := by
  refine of_ends (ends_eat.mpr ⟨fun _ => .of_reads (.advance s), fun _ => .refl s⟩)
    (ends_eat.mpr ⟨fun hc => ?_, fun _ => ⟨[], .refl s, nofun, fun _ => ⟨rfl, rfl⟩⟩⟩)
  obtain ⟨t, hk, hread⟩ := HasRead.exists_advance hc hkind
  exact ⟨[t], hread, fun _ => ⟨t, rfl, hk⟩, fun h => absurd rfl h⟩

/-- The items of a list between commas, if none is due at its end. -/
theorem listItems {item : Rule α} {v : List Token → α → ReadState → Prop}
    (hitem : ∀ s, WritesNeatly item v s) (fuel : Nat) : ∀ (due : Bool) (read : Array α) s,
      WritesNeatly (Rule.listItems false .greater item fuel due read) (fun inner found _ =>
        ∃ pieces : List (List Token × α), (∀ p ∈ pieces, ∃ t, v p.1 p.2 t) ∧ (found.2 = false →
          Commas (pieces.map Prod.fst) inner ∧ (due = true → pieces ≠ []) ∧
            found.1 = read ++ (pieces.map Prod.snd).toArray)) s := by
  induction fuel with
  | zero => exact fun _ _ _ => ⟨trivial, fun hneat => by cases hneat.done⟩
  | succ fuel ih =>
    intro due read s
    have hkeeps : ∀ a t, Keeping (do
        if (← Rule.state).current = .comma then
          let span ← Rule.advance
          Rule.listItems false .greater item fuel true (read.push a)
        else return (read.push a, false)) t := fun a t =>
      Keeping.bind (.refl t) fun t' u => ends_ite.mpr ⟨fun _ =>
        Keeping.bind (.of_reads (.advance u)) fun _ u' => (ih true _ u').keeps, fun _ => .refl u⟩
    have hround : ∀ s, WritesNeatly (do
        let s ← Rule.state
        if s.current = .greater || s.current = .endOfFile then return (read, due)
        let a ← item
        if (← Rule.state).current = .comma then
          let span ← Rule.advance
          Rule.listItems false .greater item fuel true (read.push a)
        else return (read.push a, false)) (fun inner found _ =>
          ∃ pieces : List (List Token × α), (∀ p ∈ pieces, ∃ t, v p.1 p.2 t) ∧ (found.2 = false →
            Commas (pieces.map Prod.fst) inner ∧ (due = true → pieces ≠ []) ∧
              found.1 = read ++ (pieces.map Prod.snd).toArray)) s := by
      intro s
      refine state (ite (fun _ => pure ?_) fun _ => ?_)
      · refine ⟨[], List.forall_mem_nil _, fun hdue => ⟨.none, fun h => ?_, by simp⟩⟩
        rw [h] at hdue
        cases hdue
      · refine (hitem s).bind (hkeeps ·) fun piece a t _ hpiece => state (ite (fun hcomma => ?_) ?_)
        · refine (advance hcomma (by decide)).bind (fun _ u => (ih true _ u).keeps)
            fun front _ u _ ⟨comma, hfront, hk⟩ => (ih true _ u).mono ?_
          rintro inner found - ⟨pieces, hall, hfound⟩
          refine ⟨(piece, a) :: pieces, List.forall_mem_cons.mpr ⟨⟨t, hpiece⟩, hall⟩, fun hdue => ?_⟩
          obtain ⟨hcommas, hne, hvalues⟩ := hfound hdue
          refine ⟨?_, fun _ => List.cons_ne_nil _ _, by rw [hvalues]; simp⟩
          cases pieces with
          | nil => exact absurd rfl (hne rfl)
          | cons p pieces =>
            rw [hfront]
            exact .more piece p.1 hk hcommas
        · refine fun _ => pure ⟨[(piece, a)], List.forall_mem_singleton.mpr ⟨t, hpiece⟩, fun _ => ?_⟩
          rw [List.append_nil]
          exact ⟨.one piece, fun _ => List.cons_ne_nil _ _, by simp⟩
    unfold Rule.listItems
    refine (splitCloser s).bind (fun _ t => (hround t).keeps) fun front _ t _ hfront => ?_
    rw [hfront]
    exact hround t

/-- A list in angle brackets. -/
theorem list {item : Rule α} {v : List Token → α → ReadState → Prop}
    (hitem : ∀ s, WritesNeatly item v s) (s : ReadState) :
    WritesNeatly (Rule.list false .less .greater item) (fun front values _ =>
      ∃ (less greater : Token) (pieces : List (List Token × α)) (inner : List Token),
        front = less :: (inner ++ [greater]) ∧ less.kind = .less ∧ greater.kind = .greater ∧
        (∀ p ∈ pieces, ∃ t, v p.1 p.2 t) ∧ Commas (pieces.map Prod.fst) inner ∧
        values = pieces.map Prod.snd) s := by
  have hrest : ∀ s, WritesNeatly (do
      let found ← Rule.listItems false .greater item ((← Rule.state).weight + 1) false #[]
      FramesAt.listFinish false .greater found.1 found.2) (fun front values _ =>
        ∃ (greater : Token) (pieces : List (List Token × α)) (inner : List Token),
          front = inner ++ [greater] ∧ greater.kind = .greater ∧ (∀ p ∈ pieces, ∃ t, v p.1 p.2 t) ∧
            Commas (pieces.map Prod.fst) inner ∧ values = pieces.map Prod.snd) s := by
    intro s
    refine state ((listItems hitem _ false #[] s).bind
      (fun found t => FramesAt.keeping_listFinish _ _ found.1 found.2 t)
      fun inner found t _ hitems => ?_)
    obtain ⟨items, due⟩ := found
    obtain ⟨pieces, hall, hfound⟩ := hitems
    cases due with
    | true =>
      exact ⟨FramesAt.keeping_listFinish _ _ items true t,
        fun hneat => absurd hneat FramesAt.not_neatly_listFinish⟩
    | false =>
      obtain ⟨hcommas, -, hvalues⟩ := hfound rfl
      refine (splitCloser t).bind (fun _ u => ?_) fun front _ u _ hfront => ?_
      · exact (keeping_of_agreeAt (AgreeAt.delimiter false .greater _ u u)).bind fun _ u' => .refl u'
      refine (delimiter (by decide) _ u).bind (fun _ u' => .refl u') fun _ _ u' _ hgreater => pure ?_
      obtain ⟨greater, hback, hk⟩ := hgreater
      refine ⟨greater, pieces, inner, by rw [hfront, hback]; simp, hk, hall, hcommas, ?_⟩
      rw [show items = #[] ++ (pieces.map Prod.snd).toArray from hvalues]
      simp
  rw [FramesAt.list_eq]
  refine (delimiter (by decide) _ s).bind (fun _ t => (hrest t).keeps)
    fun front _ t _ hless => (hrest t).mono ?_
  obtain ⟨less, hfront, hl⟩ := hless
  rintro behind values - ⟨greater, pieces, inner, rfl, hg, hall, hcommas, hvalues⟩
  exact ⟨less, greater, pieces, inner, by rw [hfront]; rfl, hl, hg, hall, hcommas, hvalues⟩

theorem failingAs {cause : SyntaxError.Cause} {r : Rule α} (h : WritesNeatly r w s)
    (hkeeps : Keeping (Grammar.failingAs cause r) s) : WritesNeatly (Grammar.failingAs cause r) w s := by
  refine ⟨hkeeps, fun {a t} hneat => h.writes ⟨?_, hneat.errors⟩⟩
  have hdone := hneat.done
  unfold Grammar.failingAs at hdone
  cases hr : r s with
  | done b u => rw [hr] at hdone; exact hdone
  | failed e u => rw [hr] at hdone; cases hdone
  | broken fault => rw [hr] at hdone; cases hdone

end WritesNeatly

end Rule

namespace Grammar

open Rule

variable {s : ReadState}

/-! ## Types -/

/-- What follows a type that ends in a star is no qualifier of the star. -/
def StarsEnd (body rest : List Token) : Prop :=
  ∀ {before star quals}, body = before ++ star :: quals → star.kind = .star →
    (∀ q ∈ quals, Qualifies q) → startsWithQualifier rest = false

/-- Tokens of a type up to its stars. -/
structure Heads (head : List Token) (base : ObjcType) : Prop where
  spelling : ∀ {stars type found}, Stars base none stars type found → Spelling (head ++ stars) type found
  last : (∀ t ∈ head, t.kind = .identifier) ∨
    ∃ front greater, head = front ++ [greater] ∧ greater.kind = .greater

/-- A type without stars does not end in one. -/
theorem Heads.ne_star {head before quals : List Token} {base : ObjcType} {star : Token}
    (h : Heads head base) (hrow : head = before ++ star :: quals) (hk : star.kind = .star)
    (hq : ∀ q ∈ quals, Qualifies q) : False := by
  have hstar : star ∈ head := by
    rw [hrow]
    exact List.mem_append_right _ List.mem_cons_self
  rcases h.last with hwords | ⟨front, greater, rfl, hg⟩
  · exact absurd (hk.symm.trans (hwords star hstar)) (by decide)
  · rcases List.eq_nil_or_concat quals with rfl | ⟨quals, q, rfl⟩
    · obtain ⟨-, hlast⟩ := List.append_inj' hrow rfl
      rw [List.cons.inj hlast |>.1] at hg
      exact absurd (hk.symm.trans hg) (by decide)
    · have hrow' : front ++ [greater] = (before ++ star :: quals) ++ [q] := by simpa using hrow
      obtain ⟨-, hlast⟩ := List.append_inj' hrow' rfl
      have hword := (hq q (by simp)).kind
      rw [← (List.cons.inj hlast).1, hg] at hword
      cases hword

theorem qualifiers_writesNeatly (s : ReadState) : WritesNeatly qualifiers (fun front found t =>
    (∀ q ∈ front, Qualifies q) ∧ found = lastNullability front ∧
      startsWithQualifier t.rest = false) s :=
  .of_ends (keeping_of_agreeAt (qualifiers_agreeAt s s))
    ((ends_qualifiers_exact s).mono (fun _ _ h => h) fun _ _ _ => trivial)

theorem baseName_writesNeatly (s : ReadState) :
    WritesNeatly baseName (fun front name _ => NameSpelling front name) s :=
  .of_ends (keeping_of_agreeAt (baseName_agreeAt s s))
    (Ends.mono (baseName_writesAt s) (fun _ _ h => h) fun _ _ _ => trivial)

/-- Stars are read with all qualifiers behind them. -/
theorem stars_writesNeatly (fuel : Nat) : ∀ type found (s : ReadState),
    WritesNeatly (stars fuel type found) (fun front v t => Stars type found front v.1 v.2 ∧
      (front = [] → t.rest = s.rest) ∧ (front ≠ [] → startsWithQualifier t.rest = false)) s := by
  induction fuel with
  | zero => exact fun _ _ _ => ⟨trivial, fun hneat => by cases hneat.done⟩
  | succ fuel ih =>
    intro type found s
    unfold stars
    refine (WritesNeatly.eat (by decide) s).bind (fun star t => ?_) fun front star t _ hfront => ?_
    · exact ends_ite.mpr ⟨fun _ => Keeping.bind (keeping_of_agreeAt (qualifiers_agreeAt t t))
        fun _ u => (ih _ _ u).keeps, fun _ => .refl t⟩
    refine .ite (fun hstar => ?_) fun hstar => .pure ?_
    · obtain ⟨t', rfl, hk⟩ := hfront.1 hstar
      refine (qualifiers_writesNeatly t).bind (fun _ u => (ih _ _ u).keeps)
        fun quals behind u _ hquals => (ih _ _ u).mono ?_
      obtain ⟨hq, hbehind, hfree⟩ := hquals
      rintro rest v u' ⟨hstars, hnone, hsome⟩
      rw [hbehind] at hstars
      refine ⟨?_, fun h => absurd h (List.cons_ne_nil _ _), fun _ => ?_⟩
      · show Stars type found (t' :: (quals ++ rest)) v.1 v.2
        exact .star hk hq hstars
      · cases rest with
        | nil => rwa [hnone rfl]
        | cons t'' rest => exact hsome (List.cons_ne_nil _ _)
    · obtain ⟨rfl, rfl⟩ := hfront.2 hstar
      exact ⟨.none type found, fun _ => rfl, fun h => absurd rfl h⟩

theorem protocol_writesNeatly (s : ReadState) : WritesNeatly (Ident.name <$> identifier .conformance)
    (fun piece name _ => ProtocolSpelling piece name) s :=
  (WritesNeatly.identifier _ s).bind (fun _ t => .refl t)
    fun _ _ _ _ ⟨t, hpiece, hk, hname⟩ => .pure ⟨t, (by rw [hpiece]; rfl), hk, hname⟩

section

variable {fuel : Nat} (ih : ∀ s : ReadState, WritesNeatly (objcType fuel)
  (fun body v t => Spelling body v.1 v.2 ∧ StarsEnd body t.rest) s)

include ih

theorem argument_writesNeatly (s : ReadState) : WritesNeatly (do
    let _ ← qualifiers
    return (← objcType fuel).1) (fun piece type _ => ArgumentSpelling piece type) s := by
  refine (qualifiers_writesNeatly s).bind (fun _ t => (ih t).keeps.bind fun _ u => .refl u)
    fun quals _ t htakes ⟨hq, _, hfree⟩ => (ih t).bind (fun _ u => .refl u)
    fun body v u htakes' ⟨hspelt, _⟩ => .pure ?_
  rw [List.append_nil]
  exact ⟨⟨quals, body, v.1, v.2⟩, rfl, rfl,
    ⟨hq, startsWithQualifier_of_takes TakesOff.takesTokens htakes' hfree⟩, hspelt⟩

/-- Where a type is read up to its stars, its tokens are the front of a spelling of it. -/
theorem listedType_writesNeatly (s : ReadState) :
    WritesNeatly (listedType fuel) (fun head base _ => Heads head base) s := by
  unfold listedType
  refine (baseName_writesNeatly s).bind (fun name t => ?_) fun words name t _ hname =>
    .state (.ite (fun _ => .ite (fun hid => ?_) fun hid => ?_) fun _ => .pure ?_)
  · exact Keeping.bind (.refl t) fun t' u => ends_ite.mpr ⟨fun _ => ends_ite.mpr
      ⟨fun _ => (WritesNeatly.list protocol_writesNeatly u).keeps.bind fun _ u' => .refl u',
        fun _ => (WritesNeatly.list (argument_writesNeatly ih) u).keeps.bind fun _ u' => .refl u'⟩,
      fun _ => .refl u⟩
  · subst hid
    refine (WritesNeatly.list protocol_writesNeatly t).bind (fun _ u => .refl u)
      fun front values u _ ⟨less, greater, pieces, inner, hfront, hl, hg, hall, hcommas, hvalues⟩ =>
      .pure ?_
    obtain ⟨names, rfl, hnames⟩ := exists_names fun p hp => (hall p hp).elim fun _ h => h
    obtain ⟨word, rfl, hid⟩ := exists_idToken hname
    rw [List.map_map] at hcommas hvalues
    refine ⟨fun {stars type found} hstars => ?_, .inr ⟨word :: less :: inner, greater, ?_, hg⟩⟩
    · have hrow : [word] ++ (front ++ []) ++ stars = word :: less :: (inner ++ greater :: stars) := by
        rw [hfront]
        simp
      rw [hrow]
      rw [hvalues] at hstars
      exact .protocols hid hl hnames hcommas hg hstars
    · rw [hfront]
      simp
  · refine (WritesNeatly.list (argument_writesNeatly ih) t).bind (fun _ u => .refl u)
      fun front values u _ ⟨less, greater, pieces, inner, hfront, hl, hg, hall, hcommas, hvalues⟩ =>
      .pure ?_
    obtain ⟨arguments, rfl, harguments⟩ :=
      exists_arguments fun p hp => (hall p hp).elim fun _ h => h
    rw [List.map_map] at hcommas hvalues
    refine ⟨fun {stars type found} hstars => ?_, .inr ⟨words ++ less :: inner, greater, ?_, hg⟩⟩
    · have hrow : words ++ (front ++ []) ++ stars = words ++ less :: (inner ++ greater :: stars) := by
        rw [hfront]
        simp
      rw [hrow]
      rw [hvalues] at hstars
      exact .generic hname hid hl (fun a ha => (harguments a ha).1)
        (fun a ha => (harguments a ha).2) hcommas hg hstars
    · rw [hfront]
      simp
  · rw [List.append_nil]
    exact ⟨.plain hname, .inl hname.kind⟩

end

/-- Where a type is read without an error, its tokens are a spelling of it. -/
theorem objcType_writesNeatly (fuel : Nat) : ∀ s : ReadState, WritesNeatly (objcType fuel)
    (fun body v t => Spelling body v.1 v.2 ∧ StarsEnd body t.rest) s := by
  induction fuel with
  | zero => exact fun _ => ⟨trivial, fun hneat => by cases hneat.done⟩
  | succ fuel ih =>
    intro s
    rw [objcType_succ]
    refine (listedType_writesNeatly ih s).bind (fun type t => ?_) fun head base t _ hhead => ?_
    · exact Keeping.bind (.refl t) fun t' u =>
        keeping_of_agreeAt (stars_agreeAt (t'.weight + 1) (t'.weight + 1) type none u u)
    refine .state ((stars_writesNeatly _ base none t).mono fun stars v u ⟨hstars, _, hends⟩ => ?_)
    refine ⟨hhead.spelling hstars, fun {before star quals} hrow hk hq => ?_⟩
    cases stars with
    | nil =>
      rw [List.append_nil] at hrow
      exact (hhead.ne_star hrow hk hq).elim
    | cons star' stars => exact hends (List.cons_ne_nil _ _)

/-! ## Type names -/

/-- What a type name is read from without an error. -/
structure NamesType (t : TypeName) (quals body : List Token) : Prop where
  qualify : ∀ q ∈ quals, Qualifies q
  free : startsWithQualifier body = false
  spelling : ∃ found, Spelling body t.type found ∧ t.nullability = found.or (lastNullability quals)

/-- A type name behind its type. -/
def typeNameEnd (start : Nat) (inFront : Option Nullability) (found : ObjcType × Option Nullability) :
    Rule TypeName := do
  match Span.between start (← state).lastEnd with
  | .ok span => return ⟨found.1, found.2.or inFront, span⟩
  | .error f => breakWith f

/-- A type name that is read without an error is read from qualifiers and a spelling. -/
theorem typeName_writesNeatly (s : ReadState) : WritesNeatly typeName (fun front t u =>
    ∃ quals body, front = quals ++ body ∧ NamesType t quals body ∧ StarsEnd body u.rest ∧
      t.span.start = s.currentSpan.start ∧ t.span.stop = u.lastEnd) s := by
  have hlast : ∀ (inFront : Option Nullability) found u,
      Keeping (typeNameEnd s.currentSpan.start inFront found) u := by
    intro inFront found u
    refine Keeping.bind (.refl u) fun u' u => ?_
    cases Span.between s.currentSpan.start u'.lastEnd with
    | ok span => exact .refl u
    | error fault => trivial
  have htype : ∀ t : ReadState, Keeping (failingAs .typeName (objcType (t.weight + 1))) t := fun t =>
    keeping_of_agreeAt (AgreeAt.failingAs _ (objcType_agreeAt _ (t.weight + 1) t t))
  unfold typeName
  refine .state ((qualifiers_writesNeatly s).bind (fun inFront t => ?_)
    fun quals inFront t _ hquals => .state ?_)
  · exact Keeping.bind (.refl t) fun t' u => (keeping_of_agreeAt (AgreeAt.failingAs _
      (objcType_agreeAt _ (t'.weight + 1) u u))).bind fun found v => hlast inFront found v
  obtain ⟨hq, hfound, hfree⟩ := hquals
  refine ((objcType_writesNeatly _ t).failingAs (htype t)).bind (fun found u => hlast inFront found u)
    fun body found u htakes hbody => .state ?_
  obtain ⟨type, behind⟩ := found
  obtain ⟨hspelt, hends⟩ := hbody
  cases hspan : Span.between s.currentSpan.start u.lastEnd with
  | error fault => exact ⟨trivial, fun hneat => by cases hneat.done⟩
  | ok span =>
    refine .pure ⟨quals, body, ?_, ⟨hq, ?_, behind, hspelt, ?_⟩, hends, ?_⟩
    · rw [List.append_nil]
    · exact startsWithQualifier_of_takes TakesOff.takesTokens htakes hfree
    · rw [hfound]
    · unfold Span.between at hspan
      split at hspan
      · cases hspan
        exact ⟨rfl, rfl⟩
      · cases hspan

/-! ## A comma in a type name -/

/-- Stars with their qualifiers end in a star and its qualifiers. -/
theorem Stars.exists_star {type last : ObjcType} {found total : Option Nullability}
    {ts : List Token} (h : Stars type found ts last total) (hne : ts ≠ []) :
    ∃ before star quals, ts = before ++ star :: quals ∧ star.kind = .star ∧
      ∀ q ∈ quals, Qualifies q := by
  induction h with
  | none => exact absurd rfl hne
  | @star _ _ _ _ star quals rest hk hq _ ih =>
    cases rest with
    | nil => exact ⟨[], star, quals, by rw [List.append_nil]; rfl, hk, hq⟩
    | cons t rest =>
      obtain ⟨before, star', quals', hrest, hk', hq'⟩ := ih (List.cons_ne_nil t rest)
      exact ⟨star :: (quals ++ before), star', quals', by rw [hrest]; simp, hk', hq'⟩

/-- Behind the stars of a type stands no qualifier. -/
theorem StarsEnd.free {front stars rest : List Token} {type last : ObjcType}
    {found total : Option Nullability} (h : StarsEnd (front ++ stars) rest)
    (hstars : Stars type found stars last total) (hne : stars ≠ []) :
    startsWithQualifier rest = false := by
  obtain ⟨inner, star, quals, rfl, hk, hq⟩ := hstars.exists_star hne
  exact @h (front ++ inner) star quals (by simp) hk hq

variable {spot : Spot} {u : ReadState} {t : TypeName} {quals body : List Token}

/-- The closing delimiter in the place of a type name closes a list of its type. -/
theorem exists_closing (hs : spot.Misses s) (htakes : TakesOff s (quals ++ body) u)
    (hnames : NamesType t quals body) (hstart : t.span.start = s.currentSpan.start)
    (hstop : t.span.stop = u.lastEnd) (hspans : t.Spans spot.place) :
    ∃ front c back, body = front ++ c :: back ∧ c.kind = .greater ∧
      c.span.start = spot.place ∧ ∀ y ∈ front.getLast?, y.kind ≠ .less := by
  obtain ⟨found, hspelt, -⟩ := hnames.spelling
  have htypes : OfTypes (quals ++ body) :=
    .append (.of_identifiers fun q hq => (hnames.qualify q hq).kind) hspelt.ofTypes
  have hrow := htakes.halved
  have hstarts := hspelt.starts []
  have hne : quals ++ body ≠ [] := by
    intro h
    rw [(List.append_eq_nil_iff.mp h).2] at hstarts
    cases hstarts
  have hpassed : u.passed = (quals ++ body).reverse ++ s.passed := by
    rw [htakes.eq_past]
    rfl
  have hwhole : Halved (s.passed.reverse ++ s.rest)
      (s.passed.reverse ++ ((quals ++ body) ++ u.rest)) := (Halved.refl _).append hrow
  have hhead : ((quals ++ body).head hne).span.start = s.currentSpan.start := by
    obtain ⟨y, more, hcons⟩ := List.exists_cons_of_ne_nil hne
    have hy : (quals ++ body).head hne = y := by simp only [hcons, List.head_cons]
    rw [hcons] at hrow
    cases hrest : s.rest with
    | nil => rw [hrest] at hrow; cases hrow
    | cons z rest =>
      rw [hrest] at hrow
      rw [hy, ReadState.currentSpan_of_cons hrest]
      exact hrow.head_start
  obtain ⟨upper, hall⟩ := hs.sound.inOrder
  obtain ⟨before, c, back, hcut, hc⟩ := (hs.closer.halved hwhole).inside
    (hwhole.inOrder hall) hne
    (by rw [hhead, ← hstart]; exact hspans.1)
    (by rw [← ReadState.lastEnd_eq hpassed hne, ← hstop]; exact hspans.2)
  have hkind := htypes c (by rw [hcut]; exact List.mem_append_right _ List.mem_cons_self)
  rcases hc with ⟨hplace, hclosing, hlast⟩ | ⟨hdouble, -⟩
  · have hgreater : c.kind = .greater := by
      simp only [List.mem_cons, List.not_mem_nil, or_false] at hclosing
      rcases hclosing with h | h | h
      · exact h
      · rw [h] at hkind
        exact absurd hkind (by decide)
      · rw [h] at hkind
        exact absurd hkind (by decide)
    obtain ⟨front, rfl, hbody⟩ := behind_of_kind_ne hcut
      (kind_ne_of_identifiers fun q hq => (hnames.qualify q hq).kind) hgreater
    exact ⟨front, c, back, hbody, hgreater, hplace,
      fun y hy => (hlast y (mem_getLast?_append quals hy rfl)).1⟩
  · rw [hdouble] at hkind
    exact absurd hkind (by decide)

/-- In front of a comma that is too many the same type name is read, with one error. -/
theorem ends_typeName_late {head stars us : List Token} {base type : ObjcType}
    {found : Option Nullability} (hq : ∀ q ∈ quals, Qualifies q) (hover : Overrun head base)
    (hstars : Stars base none stars type found) (hfree : startsWithQualifier head = false)
    (hstar : kindOf us ≠ .star) (hends : stars ≠ [] → startsWithQualifier us = false)
    (hspeculating : s.speculating = false)
    (hs : Halved s.rest (quals ++ (head ++ (stars ++ us)))) :
    Ends True typeName s (fun t' u' => (t'.type = type ∧
      t'.nullability = found.or (lastNullability quals)) ∧
        Late s (quals ++ (head ++ stars)) us u') fun _ _ => False := by
  obtain ⟨y, more, rfl⟩ := hover.exists_cons
  have hfinds : Finds qualifiers quals (y :: more ++ (stars ++ us)) (lastNullability quals) s :=
    finds_qualifiers hq hfree hs
  unfold typeName
  refine ends_bind.mpr (ends_state.mpr (ends_bind.mpr (hfinds.mono ?_ fun _ _ h => h)))
  rintro inFront _ ⟨rfl, ts, rfl, hts⟩
  refine ends_bind.mpr (ends_state.mpr (ends_bind.mpr ?_))
  have hlate := findsLate_objcType hover hstars hstar hends ((s.past quals ts).weight + 1)
    (s.past quals ts) hspeculating hts
  refine ends_failingAs.mpr (hlate.further.mono ?_ fun _ _ h => h)
  rintro _ u' ⟨rfl, hlate⟩
  refine ends_bind.mpr (ends_state.mpr ?_)
  cases Span.between s.currentSpan.start u'.lastEnd with
  | error fault => exact trivial
  | ok span => exact ⟨⟨rfl, rfl⟩, hlate⟩

/-- With one error more the same is read behind a comma that is too many, and nothing behind it is
    taken apart. -/
theorem adds_of_late {q front front' v v' row : List Token} {o u' : ReadState} (hs : spot.Misses s)
    (hhidden : spot.shown = false) (hread : Halved q front')
    (hrest : (s.onto row o).rest = q ++ v') (hfacing : Facing none v v')
    (hlate : Late (s.onto row o) front' v' u') (hcourse : Course (s.onto row o) u') :
    Alike none (s.past front v) u' ∧ spot.Adds (s.past front v) u' := by
  obtain ⟨e, ts, hcause, hreported, rfl, hts⟩ := hlate
  have herror : (s.onto row o).report e = { s.onto row o with
      log := ((s.onto row o).report e).log
      errors := s.errors.push { e with reported := true } } := by
    unfold ReadState.report
    rw [hreported]
    rfl
  have hsame : ts = v' := by
    obtain ⟨moved, hpassed, hmoved⟩ := hcourse.passage.forward.moved
    rw [herror] at hpassed
    have hfront : front' = moved := List.reverse_injective (List.append_cancel_right hpassed)
    rw [hrest, ← hfront] at hmoved
    exact hts.eq_of_length (hread.behind hmoved rfl).length_le
  obtain ⟨n, outer, hopened⟩ := List.exists_cons_of_ne_nil
    (List.ne_nil_of_length_pos hs.sound.opened)
  rw [hsame, herror]
  refine ⟨⟨hfacing, rfl, rfl⟩, ⟨n, n, outer, hopened, hopened, rfl, ?_⟩, ?_⟩
  · exact ⟨fun hshown => (by rw [hhidden] at hshown; cases hshown), fun _ => rfl⟩
  · show (s.errors.push _).toList.map _ = _
    rw [Array.toList_push, List.map_append, List.map_singleton, hcause]
    rfl

/-- A type name meets the place of a closing delimiter that it lies over. -/
theorem typeName_meets (hs : spot.Misses s) (hneat : Neatly typeName s t u)
    (hspans : t.Spans spot.place) (hhidden : spot.shown = false)
    (hbehind : kindOf u.rest ∈ [.rightParen, .identifier]) : spot.Meets typeName s t u := by
  obtain ⟨_, htakes, quals, body, rfl, hnames, hends, hstart, hstop⟩ :=
    (typeName_writesNeatly s).writes hneat
  obtain ⟨front, c, back, rfl, hc, hplace, hlast⟩ :=
    exists_closing hs htakes hnames hstart hstop hspans
  have hnot : ∀ kind, kind ∉ [.rightParen, .identifier] → kindOf u.rest ≠ kind :=
    fun kind hkind h => hkind (h ▸ hbehind)
  obtain ⟨p, hrow, hp⟩ := htakes.cut (hnot .greater (by decide))
  obtain ⟨found, hspelt, hnullability⟩ := hnames.spelling
  have htypes : OfTypes (quals ++ (front ++ c :: back)) :=
    .append (.of_identifiers fun q hq => (hnames.qualify q hq).kind) hspelt.ofTypes
  rw [← List.append_assoc] at htypes hp
  have hapart : StandsApart u.rest := by
    intro hkind
    revert hbehind hkind
    generalize kindOf u.rest = kind
    revert kind
    decide
  obtain ⟨before, w, hcut, hstarts, hstays, hparts⟩ := hp.parted hc hplace htypes.isLoose hapart
  obtain ⟨⟨less, hmem, hless⟩, -⟩ := hspelt.overrun Token.face_later
    (show ({ c with kind := .comma } : Token).kind = .comma from rfl) rfl hc hlast
  have hopens : OpensAhead before :=
    ⟨less, hstays less (List.mem_append_right _ hmem) (by rw [hless]; decide), .inl hless⟩
  refine ⟨before, w, hrow.trans hcut, hopens, hstarts, fun w' o hparted => ?_⟩
  obtain ⟨comma, front', back', hface, hcommaRow, hfront', hback'⟩ := hparts w' hparted
  obtain ⟨-, _, base, between, stars, rfl, rfl, hover, hstars⟩ := hspelt.overrun
    Token.face_later (congrArg Prod.fst hface) rfl hc hlast
  obtain ⟨y, more, rfl⟩ := hspelt.exists_cons rfl hc
  have hread : Halved (front' ++ comma :: back')
      (quals ++ ((y :: more ++ comma :: c.later :: between.map Token.later) ++
        stars.map Token.later)) := by
    have hwhole := hfront'.append (.keep comma hback')
    simpa using hwhole
  have hrest : (s.onto (before ++ w') o).rest =
      (front' ++ comma :: back') ++ u.rest.map Token.later := by
    rw [ReadState.onto_rest, hcommaRow]
    simp
  have hfaces : (u.rest.map Token.later).map Token.face = u.rest.map Token.face :=
    List.map_map.trans rfl
  have hfree : stars.map Token.later ≠ [] →
      startsWithQualifier (u.rest.map Token.later) = false := by
    rw [startsWithQualifier_map Token.face_later]
    exact fun hne => StarsEnd.free
      (show StarsEnd ((y :: more ++ c :: between) ++ stars) u.rest by
        rw [List.append_assoc]
        exact @hends) hstars fun h => hne (List.map_eq_nil_iff.mpr h)
  have hfacing : Facing none u.rest (u.rest.map Token.later) := hfaces.symm
  have hlate := ends_typeName_late (s := s.onto (before ++ w') o) hnames.qualify hover
    (hstars.map Token.face_later) hnames.free
    (by rw [← hfacing.kindOf_eq (not_ranOut_none _)]; exact hnot .star (by decide)) hfree hs.certain
    (by rw [hrest]; simpa using hread.append (.refl (u.rest.map Token.later)))
  refine (hlate.and (typeName_courseAt _)).mono ?_ fun _ _ h => h.1
  rintro t' u' ⟨⟨⟨htype, hnull⟩, hlate⟩, hcourse⟩
  refine ⟨?_, by rw [htakes.eq_past]; exact adds_of_late hs hhidden hread hrest hfacing hlate hcourse⟩
  obtain ⟨type, nullability, span⟩ := t
  obtain ⟨type', nullability', span'⟩ := t'
  cases htype
  cases hnull.trans hnullability.symm
  rfl

end Grammar

end HeaderBridge
