/-
  Finding what stands in front. `Finds r front us a s` says that the rule `r` reads the tokens
  `front` of a state and comes to the value `a`, in front of `us`, where both may hold halves of
  double brackets that the state still has in one piece. A rule is not asked to come to an end
  here, so that no fuel is counted. Lists are found if their items are.
-/
import HeaderBridge.Proofs.Reading.Halves
import HeaderBridge.Proofs.Reading.Outcome
import HeaderBridge.Proofs.Reading.Past

namespace HeaderBridge

open ReadState (kindOf)

theorem Halves.unique {t a b a' b' : Token} (h : Halves t a b) (h' : Halves t a' b') :
    a = a' ∧ b = b' := by
  have token_eq : ∀ {x y : Token}, x.kind = y.kind → x.text = y.text →
      x.span.start = y.span.start → x.span.stop = y.span.stop → x = y := by
    rintro ⟨_, _, _, _, _⟩ ⟨_, _, _, _, _⟩ rfl rfl rfl rfl
    rfl
  refine ⟨token_eq ?_ ?_ ?_ ?_, token_eq ?_ ?_ ?_ ?_⟩
  · rw [h.first_kind, h'.first_kind]
  · rw [h.first_text, h'.first_text]
  · rw [h.first_start, h'.first_start]
  · rw [h.first_stop, h'.first_stop]
  · rw [h.second_kind, h'.second_kind]
  · rw [h.second_text, h'.second_text]
  · rw [h.second_start, h'.second_start]
  · rw [h.second_stop, h'.second_stop]

/-! ## Tokens between commas -/

/-- Tokens that are pieces with commas between them. -/
inductive Commas : List (List Token) → List Token → Prop where
  | none : Commas [] []
  | one (piece : List Token) : Commas [piece] piece
  | more {pieces : List (List Token)} {ts : List Token} (piece next : List Token) {comma : Token}
      (kind : comma.kind = .comma) (rest : Commas (next :: pieces) ts) :
      Commas (piece :: next :: pieces) (piece ++ comma :: ts)

/-- Items with a comma behind each of them. -/
inductive Leading (item : List Token → Prop) : List Token → Prop where
  | none : Leading item []
  | more {piece rest : List Token} {comma : Token} (first : item piece)
      (kind : comma.kind = .comma) (behind : Leading item rest) :
      Leading item (piece ++ comma :: rest)

theorem Commas.of_cons {piece ts : List Token} {pieces : List (List Token)}
    (h : Commas (piece :: pieces) ts) :
    (pieces = [] ∧ ts = piece) ∨ ∃ comma rest, comma.kind = .comma ∧ pieces ≠ [] ∧
      Commas pieces rest ∧ ts = piece ++ comma :: rest := by
  cases h with
  | one => exact Or.inl ⟨rfl, rfl⟩
  | more _ next hk hr => exact Or.inr ⟨_, _, hk, List.cons_ne_nil next _, hr, rfl⟩

/-- Behind the first of some pieces, in front of other tokens, stand these tokens, or a comma and
    the other pieces. -/
theorem Commas.behind {piece inner : List Token} {pieces : List (List Token)}
    (h : Commas (piece :: pieces) inner) (ts : List Token) :
    ∃ behind, inner ++ ts = piece ++ behind ∧ ((pieces = [] ∧ inner = piece ∧ behind = ts) ∨
      ∃ comma rest, comma.kind = .comma ∧ pieces ≠ [] ∧ Commas pieces rest ∧
        inner = piece ++ comma :: rest ∧ behind = comma :: (rest ++ ts)) := by
  rcases h.of_cons with ⟨hnil, rfl⟩ | ⟨comma, rest, hk, hne, hrest, rfl⟩
  · exact ⟨ts, rfl, Or.inl ⟨hnil, rfl, rfl⟩⟩
  · exact ⟨_, List.append_assoc .., Or.inr ⟨comma, rest, hk, hne, hrest, rfl, rfl⟩⟩

/-- Rows of pieces between commas, with a comma between them. -/
theorem Commas.append {pieces more : List (List Token)} {ts us : List Token} {t : Token}
    (h : Commas pieces ts) (h' : Commas more us) (hne : pieces ≠ []) (hne' : more ≠ [])
    (hk : t.kind = .comma) : Commas (pieces ++ more) (ts ++ t :: us) := by
  cases more with
  | nil => exact absurd rfl hne'
  | cons next more =>
    induction h with
    | none => exact absurd rfl hne
    | one piece => exact .more piece next hk h'
    | more piece second hcomma _ ih =>
      rw [List.append_assoc]
      exact .more piece second hcomma (ih (List.cons_ne_nil _ _))

/-- What holds of rows of tokens side by side, with commas in front of them or not, holds of pieces
    with commas between them if it holds of the pieces. -/
theorem Commas.closed {P : List Token → Prop} {ts : List Token} {pieces : List (List Token)}
    (hc : Commas pieces ts) (nil : P []) (append : ∀ {ts us}, P ts → P us → P (ts ++ us))
    (comma : ∀ {t ts}, t.kind = .comma → P ts → P (t :: ts)) (h : ∀ piece ∈ pieces, P piece) :
    P ts := by
  induction hc with
  | none => exact nil
  | one piece => exact h piece List.mem_cons_self
  | more piece next hk _ ih =>
    obtain ⟨hpiece, hrest⟩ := List.forall_mem_cons.mp h
    exact append hpiece (comma hk (ih hrest))

/-- What holds of every token holds of those between commas. -/
theorem Commas.forall_mem {P : Token → Prop} {ts : List Token} {pieces : List (List Token)}
    (hc : Commas pieces ts) (h : ∀ t ∈ ts, P t) : ∀ piece ∈ pieces, ∀ t ∈ piece, P t := by
  induction hc with
  | none => exact List.forall_mem_nil _
  | one piece => exact List.forall_mem_singleton.mpr h
  | more piece next _ _ ih =>
    obtain ⟨hpiece, hrest⟩ := List.forall_mem_append.mp h
    exact List.forall_mem_cons.mpr ⟨hpiece, ih (List.forall_mem_cons.mp hrest).2⟩

/-- What a piece of a list may be followed by. -/
def EndsItem (ts : List Token) : Prop :=
  kindOf ts = .comma ∨ kindOf ts = .greater ∨ kindOf ts = .shiftRight

namespace Rule

variable {α β : Type} {s : ReadState} {front us : List Token}

/-! ## Finding -/

/-- Unless it breaks, the rule comes to a value and stands behind some tokens, in front of others
    of which double brackets may still have to be taken apart. -/
def Finds (r : Rule α) (front us : List Token) (a : α) (s : ReadState) : Prop :=
  Ends True r s (fun b s' => b = a ∧ ∃ ts, s' = s.past front ts ∧ Halved ts us) fun _ _ => False

theorem Finds.bind {r : Rule β} {f : β → Rule α} {a : α} {b : β} {front' us' : List Token}
    (h : Finds r front us b s)
    (hf : ∀ ts, Halved ts us → Finds (f b) front' us' a (s.past front ts)) :
    Finds (r >>= f) (front ++ front') us' a s := by
  refine ends_bind.mpr (h.mono (fun c s' hc => ?_) fun _ _ h => h)
  obtain ⟨rfl, ts, rfl, hts⟩ := hc
  refine (hf ts hts).mono (fun d s' hd => ?_) fun _ _ h => h
  obtain ⟨rfl, ts', rfl, hts'⟩ := hd
  exact ⟨rfl, ts', ReadState.past_past, hts'⟩

theorem Finds.pure {a : α} (h : Halved s.rest us) : Finds (pure a) [] us a s :=
  ends_pure.mpr ⟨rfl, s.rest, ReadState.past_nil.symm, h⟩

theorem Finds.map {r : Rule β} {b : β} (h : Finds r front us b s) (f : β → α) :
    Finds (f <$> r) front us (f b) s := by
  refine ends_map.mpr (h.mono (fun c s' hc => ?_) fun _ _ h => h)
  obtain ⟨rfl, ts, hs, hts⟩ := hc
  exact ⟨rfl, ts, hs, hts⟩

theorem Finds.state {f : ReadState → Rule α} {a : α} (h : Finds (f s) front us a s) :
    Finds (Rule.state >>= f) front us a s :=
  ends_bind.mpr h

theorem Finds.identifier {t : Token} (hk : t.kind = .identifier) (cause : SyntaxError.Cause)
    (hs : Halved s.rest (t :: us)) :
    Finds (Rule.identifier cause) [t] us ⟨t.text, t.span⟩ s := by
  obtain ⟨ts, hr, hts⟩ := hs.of_cons (by rw [hk]; decide)
  have hc : s.current = .identifier := (ReadState.current_of_cons hr).trans hk
  refine ends_identifier.mpr ⟨fun _ => ?_, fun h => absurd hc h⟩
  rw [ReadState.currentText_of_cons hr, ReadState.currentSpan_of_cons hr]
  exact ⟨rfl, ts, ReadState.advance_of_cons hr, hts⟩

theorem Finds.advance {t : Token} (hne : t.kind ≠ .greater) (hs : Halved s.rest (t :: us)) :
    Finds Rule.advance [t] us t.span s := by
  obtain ⟨ts, hr, hts⟩ := hs.of_cons hne
  refine ends_advance.mpr ⟨ReadState.currentSpan_of_cons hr, ts, ?_, hts⟩
  exact ReadState.advance_of_cons hr

theorem Finds.expect {t : Token} {kind : TokenKind} (hk : t.kind = kind) (hne : kind ≠ .greater)
    (cause : SyntaxError.Cause) (hs : Halved s.rest (t :: us)) :
    Finds (Rule.expect kind cause) [t] us t.span s := by
  obtain ⟨ts, hr, hts⟩ := hs.of_cons (by rw [hk]; exact hne)
  have hc : s.current = kind := (ReadState.current_of_cons hr).trans hk
  refine ends_expect.mpr ⟨fun _ => ?_, fun h => absurd hc h⟩
  rw [ReadState.currentSpan_of_cons hr]
  exact ⟨rfl, ts, ReadState.advance_of_cons hr, hts⟩

theorem Finds.eat {t : Token} {kind : TokenKind} (hk : t.kind = kind) (hne : kind ≠ .greater)
    (hs : Halved s.rest (t :: us)) : Finds (Rule.eat kind) [t] us true s := by
  obtain ⟨ts, hr, hts⟩ := hs.of_cons (by rw [hk]; exact hne)
  have hc : s.current = kind := (ReadState.current_of_cons hr).trans hk
  refine ends_eat.mpr ⟨fun _ => ?_, fun h => absurd hc h⟩
  exact ⟨rfl, ts, ReadState.advance_of_cons hr, hts⟩

theorem Finds.eatNone {kind : TokenKind} (h : kindOf us ≠ kind) (hk : kind ≠ .shiftRight)
    (hs : Halved s.rest us) : Finds (Rule.eat kind) [] us false s := by
  have hc : s.current ≠ kind := hs.kindOf_ne h hk
  exact ends_eat.mpr ⟨fun h => absurd h hc, fun _ => ⟨rfl, s.rest, rfl, hs⟩⟩

/-! ## Lists -/

theorem splitCloser_of_ne {closing : TokenKind} (h : s.current ≠ .shiftRight) :
    splitCloser closing s = .done () s := by
  unfold splitCloser
  split
  · unfold modifyOrBreak
    rw [ReadState.splitShiftRight_of_ne h]
  · rfl

/-- Where the closing token of a list is next, possibly as the first half of a double bracket, it
    stands alone behind the split. -/
theorem ends_splitCloser {t : Token} {closing : TokenKind} (hk : t.kind = closing)
    (hs : Halved s.rest (t :: us)) :
    Ends True (splitCloser closing) s
      (fun _ s' => ∃ ts, s' = { s with rest := t :: ts } ∧ Halved ts us) fun _ _ => False := by
  refine Ends.splitCloser (fun hne => ?_) fun hg hr hv => ?_
  · generalize hts : s.rest = ts at hs
    cases hs with
    | keep _ hrest => exact ⟨_, by rw [← hts], hrest⟩
    | halve hv _ =>
      refine absurd ?_ (hne (hk.symm.trans hv.first_kind))
      unfold ReadState.current
      rw [hts, ReadState.kindOf_cons, hv.kind]
  · rw [hr] at hs
    cases hs with
    | keep _ _ =>
      have := hv.kind
      rw [hk, hg] at this
      cases this
    | halve hv' hrest =>
      obtain ⟨rfl, rfl⟩ := hv.unique hv'
      exact ⟨_, rfl, .keep _ hrest⟩

/-- Pieces that a rule for items finds, each with its value, and each with a word in front. -/
structure FindsItems (item : Rule α) (pieces : List (List Token × α)) : Prop where
  finds : ∀ p ∈ pieces, ∀ us s, EndsItem us → Halved s.rest (p.1 ++ us) →
    Finds item p.1 us p.2 s
  starts : ∀ p ∈ pieces, kindOf p.1 = .identifier

theorem FindsItems.tail {item : Rule α} {p : List Token × α} {pieces : List (List Token × α)}
    (h : FindsItems item (p :: pieces)) : FindsItems item pieces :=
  ⟨fun q hq => h.finds q (List.mem_cons_of_mem p hq),
    fun q hq => h.starts q (List.mem_cons_of_mem p hq)⟩

theorem kindOf_append_of_starts {piece : List Token} (h : kindOf piece = .identifier)
    (us : List Token) : kindOf (piece ++ us) = .identifier := by
  cases piece with
  | nil => cases h
  | cons t piece => exact h

/-- In front of a piece the current token is its first word. -/
theorem current_of_starts {front : List Token} (hf : kindOf front = .identifier)
    (hs : Halved s.rest (front ++ us)) : s.current = .identifier :=
  hs.kindOf_of (kindOf_append_of_starts hf us) (by decide)

theorem current_of_comma {comma : Token} (hc : comma.kind = .comma)
    (hs : Halved s.rest (comma :: us)) :
    s.current = .comma ∧ ∃ ts, s.advance = s.past [comma] ts ∧ Halved ts us := by
  obtain ⟨ts, hr, hts⟩ := hs.of_cons (by rw [hc]; decide)
  exact ⟨(ReadState.current_of_cons hr).trans hc, ts, ReadState.advance_of_cons hr, hts⟩

section

variable {B : Prop} {shown due : Bool} {closing : TokenKind} {item : Rule α} {fuel : Nat}
  {read : Array α} {Q : Array α × Bool → ReadState → Prop} {E : SyntaxError → ReadState → Prop}

/-- A list at whose front an item stands goes on with this item. -/
theorem ends_listItems_item (hc : s.current = .identifier) (hclosing : closing ≠ .identifier)
    (h : Ends B item s (fun a s' => Ends B (do
      if (← Rule.state).current = .comma then
        let span ← Rule.advance
        if shown then leaf (.token .comma) span
        listItems shown closing item fuel true (read.push a)
      else return (read.push a, false)) s' Q E) E) :
    Ends B (listItems shown closing item (fuel + 1) due read) s Q E := by
  have hsplit : splitCloser closing s = .done () s :=
    splitCloser_of_ne (by rw [hc]; decide)
  have hopen : ¬ (decide (s.current = closing) || decide (s.current = .endOfFile)) = true := by
    rw [hc, decide_eq_false hclosing.symm]
    decide
  unfold listItems
  refine ends_bind.mpr ?_
  unfold Ends
  rw [hsplit]
  refine ends_bind.mpr (ends_state.mpr ?_)
  rw [if_neg hopen]
  exact ends_bind.mpr h

/-- A list at whose closing token the reading stands is over, and this token stands alone. -/
theorem ends_listItems_over {t : Token} (hk : t.kind = closing) (hs : Halved s.rest (t :: us))
    (h : ∀ ts, Halved ts us → Q (read, due) { s with rest := t :: ts }) :
    Ends True (listItems shown closing item (fuel + 1) due read) s Q fun _ _ => False := by
  unfold listItems
  refine ends_bind.mpr ((ends_splitCloser hk hs).mono (fun _ s₁ h₁ => ?_) fun _ _ h => h)
  obtain ⟨ts, rfl, hts⟩ := h₁
  have hclose : (decide (kindOf (t :: ts) = closing) ||
      decide (kindOf (t :: ts) = .endOfFile)) = true := by
    rw [ReadState.kindOf_cons, decide_eq_true hk, Bool.true_or]
  refine ends_bind.mpr (ends_state.mpr ?_)
  unfold ReadState.current
  rw [if_pos hclose]
  exact ends_pure.mpr (h ts hts)

end

/-- The items of a list in angle brackets are found up to its closing bracket. -/
theorem finds_listItems {item : Rule α} {pieces : List (List Token × α)} {inner : List Token}
    {greater : Token} (hg : greater.kind = .greater) (hitems : FindsItems item pieces)
    (hc : Commas (pieces.map Prod.fst) inner) (fuel : Nat) :
    ∀ (due : Bool) (read : Array α) (s : ReadState), (pieces = [] → due = false) →
      Halved s.rest (inner ++ greater :: us) →
      Finds (listItems false .greater item fuel due read) inner (greater :: us)
        (read ++ (pieces.map Prod.snd).toArray, false) s := by
  induction pieces generalizing inner fuel with
  | nil =>
    intro due read s hdue hs
    cases hc
    cases fuel with
    | zero => exact trivial
    | succ fuel =>
      refine ends_listItems_over hg hs fun ts hts => ?_
      rw [hdue rfl]
      exact ⟨by simp, greater :: ts, rfl, .keep _ hts⟩
  | cons p pieces ih =>
    intro due read s _ hs
    cases fuel with
    | zero => exact trivial
    | succ fuel =>
      rw [List.map_cons] at hc
      obtain ⟨behind, hbehind, hrow⟩ := hc.behind (greater :: us)
      have hends : EndsItem behind := by
        rcases hrow with ⟨_, _, rfl⟩ | ⟨comma, rest, hk, _, _, _, rfl⟩
        · exact Or.inr (Or.inl hg)
        · exact Or.inl hk
      rw [hbehind] at hs
      have hident := current_of_starts (hitems.starts p List.mem_cons_self) hs
      refine ends_listItems_item hident (by decide)
        ((hitems.finds p List.mem_cons_self behind s hends hs).mono (fun a s₁ h₁ => ?_)
          fun _ _ h => h)
      obtain ⟨rfl, ts, rfl, hts⟩ := h₁
      refine ends_bind.mpr (ends_state.mpr ?_)
      rw [ReadState.past_current]
      rcases hrow with ⟨hnil, rfl, rfl⟩ | ⟨comma, rest, hk, hne, hrest, rfl, rfl⟩
      · -- The closing bracket, whole or as a half, is no comma.
        have hcomma : kindOf ts ≠ .comma :=
          hts.kindOf_ne (by rw [ReadState.kindOf_cons, hg]; decide) (by decide)
        rw [if_neg hcomma]
        refine ends_pure.mpr ⟨?_, ts, rfl, hts⟩
        rw [List.map_eq_nil_iff.mp hnil]
        simp
      · have hts' : Halved (s.past p.1 ts).rest (comma :: (rest ++ greater :: us)) := hts
        obtain ⟨hcomma, ts', hadv, hrest'⟩ := current_of_comma hk hts'
        rw [ReadState.past_current] at hcomma
        rw [if_pos hcomma]
        refine ends_bind.mpr (ends_advance.mpr ?_)
        rw [hadv, ReadState.past_past]
        have hnext := ih hitems.tail hrest fuel true (read.push p.2)
          (s.past (p.1 ++ [comma]) ts') (fun h => absurd (by rw [h]; rfl) hne) hrest'
        refine hnext.mono (fun found s₂ h₂ => ?_) fun _ _ h => h
        obtain ⟨rfl, ts'', rfl, hts''⟩ := h₂
        refine ⟨by simp, ts'', ?_, hts''⟩
        rw [ReadState.past_past, List.append_assoc]
        rfl

/-- Where the closing bracket of a list is next, the list ends behind it. -/
theorem finds_closing {greater : Token} (hg : greater.kind = .greater) (items : List α)
    (hs : Halved s.rest (greater :: us)) :
    Finds (do
      splitCloser .greater
      delimiter false .greater (.listClosing .greater)
      return items) [greater] us items s := by
  refine ends_bind.mpr ((ends_splitCloser hg hs).mono (fun _ s₁ h₁ => ?_) fun _ _ h => h)
  obtain ⟨ts, rfl, hts⟩ := h₁
  unfold delimiter
  refine ends_bind.mpr (ends_bind.mpr (ends_expect.mpr ⟨fun _ => ?_, fun h => absurd hg h⟩))
  rw [ReadState.advance_of_cons rfl]
  exact ends_bind.mpr (ends_pure.mpr (ends_pure.mpr ⟨rfl, ts, rfl, hts⟩))

/-- A list in angle brackets is found with the values of its pieces. -/
theorem finds_list {item : Rule α} {pieces : List (List Token × α)} {inner : List Token}
    {less greater : Token} (hl : less.kind = .less) (hg : greater.kind = .greater)
    (hitems : FindsItems item pieces) (hc : Commas (pieces.map Prod.fst) inner)
    (hs : Halved s.rest (less :: (inner ++ greater :: us))) :
    Finds (list false .less .greater item) (less :: (inner ++ [greater])) us
      (pieces.map Prod.snd) s := by
  have hopen : Finds (delimiter false .less (.listOpening .less)) [less]
      (inner ++ greater :: us) () s := by
    unfold delimiter
    exact (Finds.expect hl (by decide) _ hs).bind fun ts hts => Finds.pure hts
  unfold list
  refine hopen.bind fun ts hts => Finds.state ?_
  refine (finds_listItems hg hitems hc _ false #[] (s.past [less] ts) (fun _ => rfl) hts).bind
    fun ts' hts' => ?_
  have hread : ((#[] : Array α) ++ (pieces.map Prod.snd).toArray).toList =
      pieces.map Prod.snd := by simp
  have hlast := finds_closing (s := (s.past [less] ts).past inner ts') hg
    (pieces.map Prod.snd) hts'
  simp only [Bool.false_eq_true, if_false, hread]
  exact hlast

end Rule

end HeaderBridge
