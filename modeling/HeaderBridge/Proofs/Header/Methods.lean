/-
  The rules for methods build what their spellings say. Whether another piece of a selector
  follows is seen from the next two tokens: a word with a colon behind it, or a colon alone.
-/
import HeaderBridge.Proofs.Header.Properties

namespace HeaderBridge.Grammar

open Rule
open ReadState (kindOf)

variable {s : ReadState} {us : List Token}

/-! ## Selectors -/

/-- A piece is a label, if there is one, and what follows from the colon on. -/
theorem PieceSpelling.of_colon {ts : List Token} {p : DeclaredPiece} (h : PieceSpelling ts p) :
    ∃ colon name tys, colon.kind = .colon ∧ OptionalSpelling tys p.type ∧
      name.kind = .identifier ∧
      ((p = ⟨none, p.type, name.text⟩ ∧ ts = colon :: (tys ++ [name])) ∨
        ∃ label, label.kind = .identifier ∧ p = ⟨some label.text, p.type, name.text⟩ ∧
          ts = label :: colon :: (tys ++ [name])) := by
  cases h with
  | labelled hlabel hcolon htyped hname =>
    exact ⟨_, _, _, hcolon, htyped, hname, Or.inr ⟨_, hlabel, rfl, rfl⟩⟩
  | plain hcolon htyped hname => exact ⟨_, _, _, hcolon, htyped, hname, Or.inl ⟨rfl, rfl⟩⟩

/-- From the colon of a piece on, the rule reads this piece and those behind it. -/
theorem quiet_keywordParts (fuel : Nat) :
    ∀ {pieces : List (List Token × DeclaredPiece)} {colon name : Token} {tys : List Token}
      {type : Option StatedType} (keyword : Option Ident) (read : Array KeywordPart)
      (s : ReadState), (∀ p ∈ pieces, PieceSpelling p.1 p.2) → kindOf us = .semicolon →
      colon.kind = .colon → OptionalSpelling tys type → name.kind = .identifier →
      Halved s.rest (colon :: (tys ++ name :: (pieces.flatMap Prod.fst ++ us))) →
      Quiet (keywordParts fuel keyword read) us (fun parts =>
        parts.toList.map KeywordPart.declared = read.toList.map KeywordPart.declared ++
          ⟨keyword.map Ident.name, type, name.text⟩ :: pieces.map Prod.snd) s := by
  induction fuel with
  | zero => intros; trivial
  | succ fuel ih =>
    intro pieces colon name tys type keyword read s heach hus hcolon htyped hname hs
    unfold keywordParts
    refine (Quiet.of_finds (.advance (by rw [hcolon]; decide) hs)).bind fun _ s₁ h₁ _ => ?_
    have hparen : kindOf (name :: (pieces.flatMap Prod.fst ++ us)) ≠ .leftParen := by
      rw [ReadState.kindOf_cons, hname]
      decide
    refine (quiet_optionalType htyped hparen h₁.rest).bind fun t s₂ h₂ ht => ?_
    refine (Quiet.of_finds (.identifier hname _ h₂.rest)).bind fun i s₃ h₃ hi => .state ?_
    have hpart : KeywordPart.declared ⟨keyword, t, i⟩ =
        ⟨keyword.map Ident.name, type, name.text⟩ := by
      rw [← ht, hi]
      rfl
    have hread : (read.push ⟨keyword, t, i⟩).toList.map KeywordPart.declared =
        read.toList.map KeywordPart.declared ++ [⟨keyword.map Ident.name, type, name.text⟩] := by
      simp [hpart]
    cases pieces with
    | nil =>
      have hlast : s₃.current = .semicolon := h₃.rest.kindOf_of hus (by decide)
      rw [if_neg (by rw [hlast]; simp), if_neg (by rw [hlast]; decide)]
      exact .pure h₃.rest hread
    | cons p pieces =>
      obtain ⟨hp, hmore⟩ := List.forall_mem_cons.mp heach
      obtain ⟨colon', name', tys', hcolon', htyped', hname', hform⟩ := hp.of_colon
      have hbehind := h₃.rest
      rw [List.flatMap_cons] at hbehind
      -- From the colon of the next piece on, the induction goes on with its label, if it has one.
      have onward : ∀ (label : Option Ident) (s₄ : ReadState),
          p.2 = ⟨label.map Ident.name, p.2.type, name'.text⟩ →
          Halved s₄.rest (colon' :: (tys' ++ name' :: (pieces.flatMap Prod.fst ++ us))) →
          Quiet (keywordParts fuel label (read.push ⟨keyword, t, i⟩)) us (fun parts =>
            parts.toList.map KeywordPart.declared = read.toList.map KeywordPart.declared ++
              ⟨keyword.map Ident.name, type, name.text⟩ :: (p :: pieces).map Prod.snd) s₄ := by
        intro label s₄ hpiece hrest
        refine (ih label _ s₄ hmore hus hcolon' htyped' hname' hrest).mono fun parts hparts => ?_
        rw [hparts, hread, List.map_cons, hpiece, List.append_assoc]
        rfl
      rcases hform with ⟨hpiece, hrow⟩ | ⟨label, hlabel, hpiece, hrow⟩
      · -- A colon alone starts the next piece.
        have hrest : Halved s₃.rest
            (colon' :: (tys' ++ name' :: (pieces.flatMap Prod.fst ++ us))) := by
          rw [hrow] at hbehind
          simpa using hbehind
        have hc : s₃.current = .colon := hrest.kindOf_of hcolon' (by decide)
        rw [if_neg (by rw [hc]; simp), if_pos hc]
        exact onward none s₃ hpiece hrest
      · -- A word with a colon behind it does.
        have hrest : Halved s₃.rest
            (label :: colon' :: (tys' ++ name' :: (pieces.flatMap Prod.fst ++ us))) := by
          rw [hrow] at hbehind
          simpa using hbehind
        obtain ⟨ts, hr, hts⟩ := hrest.of_cons (by rw [hlabel]; decide)
        have hnext : (decide (s₃.current = .identifier) && decide (s₃.second = .colon)) = true := by
          unfold ReadState.current ReadState.second
          rw [hr, ReadState.kindOf_cons, hlabel, List.drop_one, List.tail_cons,
            hts.kindOf_of hcolon' (by decide)]
          rfl
        rw [if_pos hnext]
        refine (Quiet.of_finds (.identifier hlabel _ hrest)).bind fun found s₄ h₄ hfound => ?_
        exact onward (some found) s₄ (by rw [hpiece, hfound]; rfl) h₄.rest

theorem SelectorSpelling.starts {ts : List Token} {selector : DeclaredSelector}
    (h : SelectorSpelling ts selector) (us : List Token) :
    kindOf (ts ++ us) = .identifier ∨ kindOf (ts ++ us) = .colon := by
  cases h with
  | simple hname => exact Or.inl hname
  | @keywords pieces hne heach =>
    cases pieces with
    | nil => exact absurd rfl hne
    | cons p pieces =>
      obtain ⟨colon, name, tys, hcolon, _, _, hform⟩ := (heach p List.mem_cons_self).of_colon
      rw [List.flatMap_cons]
      rcases hform with ⟨_, hrow⟩ | ⟨label, hlabel, _, hrow⟩
      · rw [hrow]
        exact Or.inr hcolon
      · rw [hrow]
        exact Or.inl hlabel

theorem quiet_variadicMark (hus : kindOf us = .semicolon) (hs : Halved s.rest us) :
    Quiet variadicMark us (fun _ => True) s := by
  unfold variadicMark
  have hnone : kindOf us ≠ .comma := by
    rw [hus]
    decide
  refine (Quiet.of_finds (.eatNone hnone (by decide) hs)).bind fun found s₁ h₁ hfound => ?_
  subst hfound
  exact .pure h₁.rest trivial

/-- What is left of a selector behind the label of its first piece, if it has one. -/
theorem quiet_selectorPieces {pieces : List (List Token × DeclaredPiece)} {colon name : Token}
    {tys : List Token} {type : Option StatedType} (first : Option Ident)
    (heach : ∀ p ∈ pieces, PieceSpelling p.1 p.2) (hus : kindOf us = .semicolon)
    (hcolon : colon.kind = .colon) (htyped : OptionalSpelling tys type)
    (hname : name.kind = .identifier)
    (hs : Halved s.rest (colon :: (tys ++ name :: (pieces.flatMap Prod.fst ++ us)))) :
    Quiet (selectorFrom first) us
      (fun read => read.declared =
        .keywords (⟨first.map Ident.name, type, name.text⟩ :: pieces.map Prod.snd)) s := by
  have hc : s.current = .colon := hs.kindOf_of hcolon (by decide)
  refine .state ?_
  rw [if_pos hc]
  refine (quiet_keywordParts _ first #[] s heach hus hcolon htyped hname hs).bind
    fun parts s₁ h₁ hparts => ?_
  refine (quiet_variadicMark hus h₁.rest).bind fun _ s₂ h₂ _ => .pure h₂.rest ?_
  exact congrArg DeclaredSelector.keywords hparts

/-- A selector is read up to the semicolon behind it. -/
theorem quiet_selector {ts : List Token} {found : DeclaredSelector} (h : SelectorSpelling ts found)
    (hus : kindOf us = .semicolon) (hs : Halved s.rest (ts ++ us)) :
    Quiet selector us (fun read => read.declared = found) s := by
  unfold selector
  refine .state ?_
  cases h with
  | @simple name hname =>
    rw [if_pos (show s.current = .identifier from hs.kindOf_of hname (by decide))]
    refine (Quiet.of_finds ((Finds.identifier hname _ hs).map some)).bind
      fun first s₁ h₁ hfirst => .state ?_
    have hc : s₁.current = .semicolon := h₁.rest.kindOf_of hus (by decide)
    rw [if_neg (by rw [hc]; decide), hfirst]
    exact .pure h₁.rest rfl
  | @keywords found hne heach =>
    cases found with
    | nil => exact absurd rfl hne
    | cons p found =>
      obtain ⟨hp, hmore⟩ := List.forall_mem_cons.mp heach
      obtain ⟨colon, name, tys, hcolon, htyped, hname, hform⟩ := hp.of_colon
      rw [List.flatMap_cons] at hs
      rw [List.map_cons]
      rcases hform with ⟨hpiece, hrow⟩ | ⟨label, hlabel, hpiece, hrow⟩
      · have hrest : Halved s.rest
            (colon :: (tys ++ name :: (found.flatMap Prod.fst ++ us))) := by
          rw [hrow] at hs
          simpa using hs
        have hc : s.current = .colon := hrest.kindOf_of hcolon (by decide)
        rw [if_neg (by rw [hc]; decide), hpiece]
        have hnone : Quiet (pure (none : Option Ident))
            (colon :: (tys ++ name :: (found.flatMap Prod.fst ++ us))) (· = none) s :=
          .pure hrest rfl
        refine hnone.bind fun first s₁ h₁ hfirst => ?_
        have hread := quiet_selectorPieces first hmore hus hcolon htyped hname h₁.rest
        rwa [hfirst] at hread ⊢
      · have hrest : Halved s.rest
            (label :: colon :: (tys ++ name :: (found.flatMap Prod.fst ++ us))) := by
          rw [hrow] at hs
          simpa using hs
        rw [if_pos (show s.current = .identifier from hrest.kindOf_of hlabel (by decide)),
          hpiece]
        refine (Quiet.of_finds ((Finds.identifier hlabel _ hrest).map some)).bind
          fun first s₁ h₁ hfirst => ?_
        have hread := quiet_selectorPieces first hmore hus hcolon htyped hname h₁.rest
        rwa [hfirst] at hread ⊢

/-! ## Methods -/

theorem readAttributes_of_semicolon (h : s.current = .semicolon) (fuel : Nat) :
    readAttributes fuel s = s := by
  cases fuel with
  | zero => rfl
  | succ fuel =>
    unfold readAttributes
    rw [if_neg (by rw [h]; decide)]

/-- A method adds a node that shows it, in the section that the reading stands in. -/
theorem builds_method {ts : List Token} {m : DeclaredMethod} (h : MethodSpelling ts m)
    (hsection : s.inOptional = m.isOptional) (hs : Halved s.rest (ts ++ us)) :
    Builds method us (AddsMember (.method m)) s := by
  cases h with
  | @method sign semicolon rs ss returns found isOptional hsign htyped hnamed hsemicolon =>
    obtain rfl : s.inOptional = isOptional := hsection
    have hrow : sign :: (rs ++ (ss ++ [semicolon])) ++ us =
        sign :: (rs ++ (ss ++ semicolon :: us)) := by simp
    rw [hrow] at hs
    have hfirst : sign.kind ≠ .greater := by
      rcases hsign with h | h
      · rw [h]
        decide
      · rw [h]
        decide
    have hcurrent : s.current = sign.kind := hs.kindOf_of rfl hfirst
    have hbehind : kindOf (semicolon :: us) = .semicolon := hsemicolon
    unfold method
    refine .state (Builds.withNode (fun _ k cs => ∃ t i, k = some (.method
      ⟨s.current == .plus, t, .valid i, s.inOptional⟩) ∧ t.map TypeName.stated = returns ∧
        i.declared = found) ?_ ?_)
    · refine .bindQuiet (quiet_punctuationHere hfirst hs) fun _ s₁ h₁ _ => ?_
      have hparen : kindOf (ss ++ semicolon :: us) ≠ .leftParen := by
        rcases hnamed.starts (semicolon :: us) with h | h
        · rw [h]
          decide
        · rw [h]
          decide
      refine .bindQuiet (quiet_optionalType htyped hparen h₁.rest) fun t s₂ h₂ ht => ?_
      refine .bindQuiet (quiet_selector hnamed hbehind h₂.rest) fun i s₃ h₃ hi => ?_
      have hkind : Builds (setKind (.method ⟨s.current == .plus, t, .valid i, s.inOptional⟩))
          (semicolon :: us) (fun _ k cs => k = some (.method
            ⟨s.current == .plus, t, .valid i, s.inOptional⟩) ∧ cs = []) s₃ :=
        .setKind h₃.rest ⟨rfl, rfl⟩
      refine hkind.bind fun _ k cs s₄ h₄ hset => ?_
      obtain ⟨rfl, rfl⟩ := hset
      have hc : s₄.current = .semicolon := h₄.rest.kindOf_of hsemicolon (by decide)
      have hread : Rule.modify (fun s => readAttributes s.weight s) s₄ = .done () s₄ :=
        congrArg (Outcome.done ()) (readAttributes_of_semicolon hc _)
      refine .bindQuiet (.of_done hread (.refl h₄.rest)) fun _ s₅ h₅ _ => ?_
      refine .of_quiet (quiet_punctuation hsemicolon (by decide) _ h₅.rest) fun _ _ => ?_
      exact ⟨t, i, rfl, ht, hi⟩
    · intro _ k all id range hnode
      obtain ⟨t, i, rfl, ht, hi⟩ := hnode
      refine ⟨rfl, ?_⟩
      change [some (Member.method
        ⟨s.current == .plus, t.map TypeName.stated, i.declared, s.inOptional⟩)] = _
      rw [ht, hi, hcurrent]

end HeaderBridge.Grammar
