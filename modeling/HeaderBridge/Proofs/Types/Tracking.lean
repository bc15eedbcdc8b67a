/-
  What a relation between states must allow for so that the reading of a type in a speculation keeps
  to it: a step over a token that is no double bracket, and taking such a bracket apart. Every list
  looks for a double bracket where its end may be, so none is read whole; this is shown once here,
  for every such relation.
-/
import HeaderBridge.Proofs.Reading.Finding
import HeaderBridge.Proofs.Types.Reading

namespace HeaderBridge

open ReadState (kindOf)

/-- A preorder of states that allows for single steps and for taking brackets apart. -/
structure Tracks (R : ReadState → ReadState → Prop) : Prop where
  refl : ∀ s, R s s
  trans : ∀ {s t u}, R s t → R t u → R s u
  speculating : ∀ {s t}, R s t → t.speculating = s.speculating
  advance : ∀ {s : ReadState}, s.current ≠ .shiftRight → R s s.advance
  halve : ∀ {s : ReadState} {t a b rest}, s.rest = t :: rest → Halves t a b →
    R s { s with rest := a :: b :: rest }

namespace Rule

variable {α β : Type} {R : ReadState → ReadState → Prop} {s : ReadState}

/-- Unless it breaks, the rule leads to a state that the relation allows. -/
def TracksAt (R : ReadState → ReadState → Prop) (r : Rule α) (s : ReadState) : Prop :=
  Ends True r s (fun _ t => R s t) fun _ t => R s t

namespace TracksAt

theorem bind (hR : Tracks R) {r : Rule β} {f : β → Rule α} (h : TracksAt R r s)
    (hf : ∀ b t, R s t → TracksAt R (f b) t) : TracksAt R (r >>= f) s :=
  ends_bind.mpr (h.mono
    (fun b t hs => (hf b t hs).mono (fun _ _ h => hR.trans hs h) fun _ _ h => hR.trans hs h)
    fun _ _ hs => hs)

theorem pure (hR : Tracks R) (a : α) (s : ReadState) : TracksAt R (pure a) s := hR.refl s

theorem state {f : ReadState → Rule α} (h : TracksAt R (f s) s) :
    TracksAt R (Rule.state >>= f) s :=
  ends_bind.mpr h

theorem ite {c : Prop} [Decidable c] {r r' : Rule α} (h : c → TracksAt R r s)
    (h' : ¬ c → TracksAt R r' s) : TracksAt R (if c then r else r') s :=
  ends_ite.mpr ⟨h, h'⟩

theorem map {r : Rule β} (f : β → α) (h : TracksAt R r s) : TracksAt R (f <$> r) s :=
  ends_map.mpr h

theorem failHere (hR : Tracks R) (cause : SyntaxError.Cause) (s : ReadState) :
    TracksAt R (failHere cause : Rule α) s :=
  hR.refl s

/-! ## Single tokens -/

theorem advance (hR : Tracks R) (hc : s.current ≠ .shiftRight) : TracksAt R advance s :=
  hR.advance hc

theorem expect (hR : Tracks R) {kind : TokenKind} (hkind : kind ≠ .shiftRight)
    (cause : SyntaxError.Cause) (s : ReadState) : TracksAt R (expect kind cause) s :=
  ends_expect.mpr ⟨fun hc => hR.advance (hc ▸ hkind), fun _ => hR.refl s⟩

theorem identifier (hR : Tracks R) (cause : SyntaxError.Cause) (s : ReadState) :
    TracksAt R (identifier cause) s :=
  ends_identifier.mpr ⟨fun hc => hR.advance (by rw [hc]; decide), fun _ => hR.refl s⟩

theorem splitCloser (hR : Tracks R) (s : ReadState) : TracksAt R (splitCloser .greater) s :=
  Ends.splitCloser (fun _ => hR.refl s) fun _ hr hv => hR.halve hr hv

/-! ## Lists -/

/-- How a list goes on behind an item. -/
theorem listStep (hR : Tracks R) {next : Rule (Array α × Bool)} (items : Array α)
    (hnext : ∀ t : ReadState, t.speculating = true → TracksAt R next t)
    (hs : s.speculating = true) : TracksAt R (do
      if (← Rule.state).current = .comma then
        let _ ← Rule.advance
        next
      else return (items, false)) s := by
  refine .state (.ite (fun hc => ?_) fun _ => .pure hR _ s)
  have hcomma : s.current ≠ .shiftRight := by
    rw [hc]
    decide
  exact (advance hR hcomma).bind hR fun _ t h => hnext t ((hR.speculating h).trans hs)

/-- A round of a list, behind the check for a double bracket. -/
theorem listRound (hR : Tracks R) {item : Rule α} {next : Array α → Rule (Array α × Bool)}
    (hitem : ∀ t : ReadState, t.speculating = true → TracksAt R item t)
    (hnext : ∀ read (t : ReadState), t.speculating = true → TracksAt R (next read) t)
    (due : Bool) (items : Array α) (hs : s.speculating = true) : TracksAt R (do
      let s ← Rule.state
      if s.current = .greater || s.current = .endOfFile then
        return (items, due)
      let items := items.push (← item)
      if (← Rule.state).current = .comma then
        let _ ← Rule.advance
        next items
      else return (items, false)) s := by
  refine .state (.ite (fun _ => .pure hR _ s) fun _ => ?_)
  refine (hitem s hs).bind hR fun a t h => ?_
  exact listStep hR _ (hnext _) ((hR.speculating h).trans hs)

theorem listItems (hR : Tracks R) {item : Rule α}
    (hitem : ∀ t : ReadState, t.speculating = true → TracksAt R item t) (fuel : Nat) :
    ∀ due read (s : ReadState), s.speculating = true →
      TracksAt R (listItems false .greater item fuel due read) s := by
  induction fuel with
  | zero =>
    intro _ _ s _
    exact trivial
  | succ fuel ih =>
    intro due read s hs
    unfold Rule.listItems
    refine (splitCloser hR s).bind hR fun _ t h => ?_
    exact listRound hR hitem (ih true) due read ((hR.speculating h).trans hs)

theorem closing (hR : Tracks R) (items : Array α) (s : ReadState) : TracksAt R (do
    delimiter false .greater (.listClosing .greater)
    return items.toList) s := by
  unfold delimiter
  exact ((expect hR (by decide) _ s).bind hR fun _ t _ => .pure hR () t).bind hR
    fun _ t _ => .pure hR _ t

/-- How a list goes on behind its items. -/
theorem listEnd (hR : Tracks R) (found : Array α × Bool) (hs : s.speculating = true) :
    TracksAt R (do
      if found.2 then
        let s ← Rule.state
        if s.speculating then Rule.failHere .itemAfterComma
        else report (s.errorHere .itemAfterComma)
      Rule.splitCloser .greater
      delimiter false .greater (.listClosing .greater)
      return found.1.toList) s := by
  have last : ∀ t, TracksAt R (do
      Rule.splitCloser .greater
      delimiter false .greater (.listClosing .greater)
      return found.1.toList) t := fun t =>
    (splitCloser hR t).bind hR fun _ u _ => closing hR _ u
  refine .ite (fun _ => .state (.ite (fun _ => ?_) fun h => absurd hs h)) fun _ => last s
  exact (failHere hR _ s).bind hR fun _ t _ => last t

theorem list (hR : Tracks R) {item : Rule α}
    (hitem : ∀ t : ReadState, t.speculating = true → TracksAt R item t)
    (hs : s.speculating = true) : TracksAt R (list false .less .greater item) s := by
  unfold Rule.list
  have hopen : TracksAt R (delimiter false .less (.listOpening .less)) s := by
    unfold delimiter
    exact (expect hR (by decide) _ s).bind hR fun _ t _ => .pure hR () t
  refine hopen.bind hR fun _ t h => .state ?_
  have ht := (hR.speculating h).trans hs
  refine (listItems hR hitem _ _ _ t ht).bind hR fun found u h => ?_
  exact listEnd hR found ((hR.speculating h).trans ht)

end TracksAt

end Rule

/-! ## Types -/

theorem Tracks.past {R : ReadState → ReadState → Prop} (hR : Tracks R) {front rest : List Token}
    (hfront : ∀ t ∈ front, t.kind ≠ .shiftRight) {s : ReadState} (hr : s.rest = front ++ rest) :
    R s (s.past front rest) := by
  induction front generalizing s with
  | nil =>
    rw [List.nil_append] at hr
    rw [← hr]
    exact hR.refl s
  | cons t front ih =>
    obtain ⟨ht, hfront⟩ := List.forall_mem_cons.mp hfront
    have hadvance := hR.advance (s := s) (by rwa [ReadState.current_of_cons hr])
    rw [ReadState.advance_of_cons hr] at hadvance
    have hnext := ih (s := s.past [t] (front ++ rest)) hfront rfl
    rw [ReadState.past_past] at hnext
    exact hR.trans hadvance hnext

namespace Grammar

open Rule

variable {R : ReadState → ReadState → Prop}

theorem qualifiers_tracksAt (hR : Tracks R) (s : ReadState) : TracksAt R qualifiers s := by
  obtain ⟨front, rest, hr, he, hfront, -⟩ := ReadState.Reads.readWhile_spec startsWithQualifier s
  have hwords : ∀ t ∈ front, t.kind ≠ .shiftRight := by
    intro t ht
    obtain ⟨before, after, rfl⟩ := List.append_of_mem ht
    have hword := hfront before t after rfl
    simp only [List.cons_append, startsWithQualifier, Bool.and_eq_true, beq_iff_eq] at hword
    rw [hword.1]
    decide
  unfold qualifiers TracksAt
  simp only [ends_bind, ends_modify, ends_state, ends_pure]
  rw [he]
  exact hR.past hwords hr

theorem foldl_advance_tracks (hR : Tracks R) (ts : List Token) :
    ∀ (last : String) (s : ReadState), s.rest = ts →
      R s ((nameWords last ts).foldl (fun s _ => s.advance) s) := by
  induction ts with
  | nil => intro _ s _; exact hR.refl s
  | cons t ts ih =>
    intro last s hr
    unfold nameWords
    split
    · next h =>
      simp only [Bool.and_eq_true, beq_iff_eq] at h
      have hc : s.current ≠ .shiftRight := by
        rw [ReadState.current_of_cons hr, h.1.2]
        decide
      refine hR.trans (hR.advance hc) (ih t.text s.advance ?_)
      rw [ReadState.advance_of_cons hr]
      rfl
    · exact hR.refl s

theorem baseName_tracksAt (hR : Tracks R) (s : ReadState) : TracksAt R baseName s := by
  unfold baseName
  refine (TracksAt.identifier hR _ s).bind hR fun first t _ => .state ?_
  unfold TracksAt
  simp only [ends_bind, ends_modify, ends_pure]
  exact foldl_advance_tracks hR t.rest first.name t rfl

theorem stars_tracksAt (hR : Tracks R) (fuel : Nat) :
    ∀ type found (s : ReadState), TracksAt R (stars fuel type found) s := by
  induction fuel with
  | zero =>
    intro _ _ s
    exact trivial
  | succ fuel ih =>
    intro type found s
    unfold stars TracksAt
    simp only [ends_bind, ends_eat]
    refine ⟨fun hc => ?_, fun _ => hR.refl s⟩
    have hadvance : R s s.advance := hR.advance (by rw [hc]; decide)
    have hmore : TracksAt R (do stars fuel (.pointer type) ((← qualifiers).or found)) s.advance :=
      (qualifiers_tracksAt hR s.advance).bind hR fun behind t _ => ih _ _ t
    exact hmore.mono (fun _ _ h => hR.trans hadvance h) fun _ _ h => hR.trans hadvance h

/-- The items of the list behind a name: protocols behind `id`, else types. -/
theorem objcType_tracksAt (hR : Tracks R) (fuel : Nat) :
    ∀ s : ReadState, s.speculating = true → TracksAt R (objcType fuel) s := by
  induction fuel with
  | zero =>
    intro s _
    exact trivial
  | succ fuel ih =>
    intro s hs
    unfold objcType
    refine (baseName_tracksAt hR s).bind hR fun name t h => .state ?_
    have ht := (hR.speculating h).trans hs
    have last : ∀ type u, TracksAt R (do
        let type ← pure type
        stars ((← state).weight + 1) type none) u := fun type u =>
      (TracksAt.pure hR type u).bind hR fun type v _ => .state (stars_tracksAt hR _ type none v)
    refine .ite (fun _ => .ite (fun _ => ?_) fun _ => ?_) fun _ => last _ t
    · exact (TracksAt.list hR (fun u _ => (TracksAt.identifier hR _ u).map _) ht).bind hR
        fun _ u _ => last _ u
    · refine (TracksAt.list hR (fun u hu => ?_) ht).bind hR fun _ u _ => last _ u
      refine (qualifiers_tracksAt hR u).bind hR fun _ v h => ?_
      exact (ih v ((hR.speculating h).trans hu)).map Prod.fst

end Grammar

end HeaderBridge
