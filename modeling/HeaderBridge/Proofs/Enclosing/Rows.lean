/-
  What is read at the end of a row and in front of a closing delimiter. No rule looks for a closing
  delimiter unless it has read the opening one, so the row that ends looks the same as the row that
  goes on with a delimiter. `EnclosedAt tail r r' s` compares the rule `r` from `s` with `r'` from the
  same state with `tail` behind its row: if `r` comes to a value, `r'` comes to the same one and stands
  at the same place, unless it breaks. It also says what kind of tokens were read. Fuel plays no part,
  since a rule that is out of fuel breaks.
-/
import HeaderBridge.Proofs.Types.Tracking

namespace HeaderBridge

open ReadState (kindOf)

/-! ## What tokens are read -/

/-- Tokens that the grammar reads, with every closing parenthesis behind its opening one. -/
inductive Balanced : List Token → Prop where
  | nil : Balanced []
  | plain {t : Token} {ts : List Token} (kind : t.kind ∉ [.leftParen, .rightParen, .invalid])
      (rest : Balanced ts) : Balanced (t :: ts)
  | group {opening closing : Token} {inner ts : List Token} (opening_kind : opening.kind = .leftParen)
      (inside : Balanced inner) (closing_kind : closing.kind = .rightParen) (rest : Balanced ts) :
      Balanced (opening :: (inner ++ closing :: ts))

namespace Balanced

variable {ts us : List Token}

theorem append (hts : Balanced ts) (hus : Balanced us) : Balanced (ts ++ us) := by
  induction hts with
  | nil => exact hus
  | plain kind _ ih => exact .plain kind ih
  | group opening_kind inside closing_kind _ _ ih =>
    rw [List.cons_append, List.append_assoc]
    exact .group opening_kind inside closing_kind ih

/-- A token of a kind that neither opens nor closes. -/
theorem of_kind {kind : TokenKind} (hkind : kind ∉ [.leftParen, .rightParen, .invalid]) (t : Token)
    (ht : t.kind = kind) : Balanced [t] :=
  .plain (ht ▸ hkind) .nil

theorem of_plain (h : ∀ t ∈ ts, t.kind ∉ [.leftParen, .rightParen, .invalid]) : Balanced ts := by
  induction ts with
  | nil => exact .nil
  | cons t ts ih =>
    obtain ⟨ht, hts⟩ := List.forall_mem_cons.mp h
    exact .plain ht (ih hts)

theorem kind_ne_invalid (h : Balanced ts) : ∀ t ∈ ts, t.kind ≠ .invalid := by
  induction h with
  | nil => exact List.forall_mem_nil _
  | plain kind _ ih =>
    refine List.forall_mem_cons.mpr ⟨fun hk => kind ?_, ih⟩
    rw [hk]
    decide
  | group opening_kind _ closing_kind _ ihi ih =>
    refine List.forall_mem_cons.mpr ⟨by rw [opening_kind]; decide, ?_⟩
    refine List.forall_mem_append.mpr ⟨ihi, List.forall_mem_cons.mpr ⟨?_, ih⟩⟩
    rw [closing_kind]
    decide

/-- Where a row is balanced, a parenthesis at its front is closed. -/
theorem exists_closing {t : Token} (h : Balanced (t :: ts)) (ht : t.kind = .leftParen) :
    ∃ u ∈ ts, u.kind = .rightParen := by
  cases h with
  | plain kind =>
    refine absurd ?_ kind
    rw [ht]
    decide
  | @group _ closing _ _ _ _ closing_kind => exact ⟨closing, by simp, closing_kind⟩

/-- No parenthesis is closed in front of the first one that is opened. -/
theorem not_append_closing {front : List Token} {closing : Token}
    (hfront : ∀ t ∈ front, t.kind ≠ .leftParen) (hclosing : closing.kind = .rightParen) :
    ¬ Balanced (front ++ closing :: ts) := by
  induction front with
  | nil =>
    intro h
    cases h with
    | plain kind =>
      refine absurd ?_ kind
      rw [hclosing]
      decide
    | group opening_kind =>
      rw [hclosing] at opening_kind
      cases opening_kind
  | cons t front ih =>
    obtain ⟨ht, hfront⟩ := List.forall_mem_cons.mp hfront
    intro h
    rw [List.cons_append] at h
    generalize hrow : front ++ closing :: ts = row at h
    cases h with
    | plain _ rest =>
      subst hrow
      exact ih hfront rest
    | group opening_kind => exact ht opening_kind

end Balanced

/-- A kind of rows that may stand one behind the other. -/
structure Joins (pass : List Token → Prop) : Prop where
  nil : pass []
  append : ∀ {ts us}, pass ts → pass us → pass (ts ++ us)

theorem joins_balanced : Joins Balanced := ⟨.nil, .append⟩

theorem joins_nil : Joins (· = []) := ⟨rfl, by rintro _ _ rfl rfl; rfl⟩

namespace ReadState

variable {pass pass' : List Token → Prop} {s t u : ReadState} {tail : List Token}

/-- Tokens of a kind were read, and perhaps some double brackets taken apart. -/
def Consumes (s : ReadState) (pass : List Token → Prop) (t : ReadState) : Prop :=
  ∃ front rest, Halved s.rest (front ++ rest) ∧ pass front ∧ t = s.past front rest

namespace Consumes

theorem mono (h : s.Consumes pass t) (hpass : ∀ ts, pass ts → pass' ts) : s.Consumes pass' t := by
  obtain ⟨front, rest, hr, hfront, rfl⟩ := h
  exact ⟨front, rest, hr, hpass front hfront, rfl⟩

/-- What was read first and what was read then. -/
theorem join {pass₁ pass₂ : List Token → Prop} (h : s.Consumes pass₁ t) (h' : t.Consumes pass₂ u)
    (hpass : ∀ ts us, pass₁ ts → pass₂ us → pass (ts ++ us)) : s.Consumes pass u := by
  obtain ⟨front, rest, hr, hfront, rfl⟩ := h
  obtain ⟨front', rest', hr', hfront', rfl⟩ := h'
  refine ⟨front ++ front', rest', ?_, hpass front front' hfront hfront', past_past⟩
  rw [List.append_assoc]
  exact hr.trans ((Halved.refl front).append hr')

theorem trans (hp : Joins pass) (h : s.Consumes pass t) (h' : t.Consumes pass u) : s.Consumes pass u :=
  h.join h' fun _ _ => hp.append

theorem refl (hp : Joins pass) (s : ReadState) : s.Consumes pass s :=
  ⟨[], s.rest, Halved.refl s.rest, hp.nil, rfl⟩

theorem past {front rest : List Token} (hr : s.rest = front ++ rest) (hfront : pass front) :
    s.Consumes pass (s.past front rest) :=
  ⟨front, rest, by rw [hr]; exact Halved.refl _, hfront, rfl⟩

theorem speculating (h : s.Consumes pass t) : t.speculating = s.speculating := by
  obtain ⟨front, rest, _, _, rfl⟩ := h
  rfl

/-- The current token was read, if it is of the kind. -/
theorem advance {kind : TokenKind} (hc : s.current = kind) (hkind : kind ≠ .endOfFile)
    (hpass : ∀ t : Token, t.kind = kind → pass [t]) : s.Consumes pass s.advance := by
  obtain ⟨t, rest, hr, ht⟩ := exists_cons_of_current hc hkind
  rw [advance_of_cons hr]
  exact .past hr (hpass t ht)

end Consumes

/-! ## A row with more behind it -/

/-- A closing delimiter comes first. -/
def Shuts (tail : List Token) : Prop := kindOf tail = .rightParen ∨ kindOf tail = .rightBracket

theorem Shuts.kindOf_ne (h : Shuts tail) {kind : TokenKind}
    (hkind : kind ∉ [.rightParen, .rightBracket]) : kindOf tail ≠ kind := by
  rintro rfl
  simp only [List.mem_cons, List.not_mem_nil, or_false] at hkind
  exact hkind h

/-- The same state, with more tokens behind those that are left. -/
def before (s : ReadState) (tail : List Token) : ReadState := { s with rest := s.rest ++ tail }

theorem before_past (s : ReadState) (front rest tail : List Token) :
    (s.past front rest).before tail = (s.before tail).past front (rest ++ tail) := rfl

theorem before_rest (s : ReadState) (tail : List Token) : (s.before tail).rest = s.rest ++ tail := rfl

theorem current_of_nil (hr : s.rest = []) : s.current = .endOfFile := by
  unfold current
  rw [hr, kindOf_nil]

/-- At the end of the row its tail comes next. -/
theorem current_before_of_nil (hr : s.rest = []) : (s.before tail).current = kindOf tail := by
  unfold current
  rw [before_rest, hr, List.nil_append]

theorem current_before_of_ne_nil (hr : s.rest ≠ []) : (s.before tail).current = s.current := by
  cases h : s.rest with
  | nil => exact absurd h hr
  | cons t rest =>
    rw [current_of_cons h]
    exact current_of_cons (by rw [before_rest, h, List.cons_append])

theorem ne_nil_of_current {kind : TokenKind} (hc : s.current = kind) (hkind : kind ≠ .endOfFile) :
    s.rest ≠ [] := by
  obtain ⟨t, rest, hr, _⟩ := exists_cons_of_current hc hkind
  rw [hr]
  exact List.cons_ne_nil t rest

/-- The end of a row and its tail are told apart by the end of the file and by closing delimiters
    alone. -/
theorem current_before_iff (htail : Shuts tail) {kind : TokenKind}
    (hkind : kind ∉ [.rightParen, .rightBracket, .endOfFile]) :
    (s.before tail).current = kind ↔ s.current = kind := by
  by_cases hr : s.rest = []
  · rw [current_before_of_nil hr, current_of_nil hr]
    constructor
    · refine fun h => absurd h (htail.kindOf_ne fun hmem => hkind ?_)
      exact List.mem_append_left [.endOfFile] hmem
    · rintro rfl
      exact absurd (by decide) hkind
  · rw [current_before_of_ne_nil hr]

theorem second_before_iff (htail : Shuts tail) (hr : s.rest ≠ []) {kind : TokenKind}
    (hkind : kind ∉ [.rightParen, .rightBracket, .endOfFile]) :
    (s.before tail).second = kind ↔ s.second = kind := by
  obtain ⟨t, rest, hrow⟩ := List.exists_cons_of_ne_nil hr
  have hsecond : s.second = (s.past [t] rest).current := by
    unfold second
    rw [hrow]
    rfl
  have hsecond' : (s.before tail).second = ((s.past [t] rest).before tail).current := by
    unfold second
    rw [before_rest, hrow]
    rfl
  rw [hsecond, hsecond']
  exact current_before_iff htail hkind

theorem currentText_before (hr : s.rest ≠ []) : (s.before tail).currentText = s.currentText := by
  obtain ⟨t, rest, hrow⟩ := List.exists_cons_of_ne_nil hr
  rw [currentText_of_cons hrow]
  exact currentText_of_cons (by rw [before_rest, hrow, List.cons_append])

theorem currentSpan_before (hr : s.rest ≠ []) : (s.before tail).currentSpan = s.currentSpan := by
  obtain ⟨t, rest, hrow⟩ := List.exists_cons_of_ne_nil hr
  rw [currentSpan_of_cons hrow]
  exact currentSpan_of_cons (by rw [before_rest, hrow, List.cons_append])

theorem advance_before (hr : s.rest ≠ []) : (s.before tail).advance = s.advance.before tail := by
  obtain ⟨t, rest, hrow⟩ := List.exists_cons_of_ne_nil hr
  rw [advance_of_cons hrow,
    advance_of_cons (show (s.before tail).rest = t :: (rest ++ tail) by rw [before_rest, hrow]; rfl)]
  rfl

end ReadState

namespace Rule

open ReadState (Consumes Shuts)

variable {α β : Type} {tail : List Token} {pass pass' : List Token → Prop} {strict : Prop}
  {s t u : ReadState}

/-! ## What a rule comes to -/

/-- Unless it breaks, the rule comes to the value, and it stands there. -/
def LeadsTo (r : Rule α) (a : α) (t s : ReadState) : Prop :=
  Ends True r s (fun b u => b = a ∧ u = t) fun _ _ => False

/-- Unless it breaks, the rule fails. -/
def Fails (r : Rule α) (s : ReadState) : Prop :=
  Ends True r s (fun _ _ => False) fun _ _ => True

/-- Unless it breaks, the rule fails there. -/
def Refuses (r : Rule α) (t s : ReadState) : Prop :=
  Ends True r s (fun _ _ => False) fun _ u => u = t

theorem LeadsTo.ends {r : Rule α} {a : α} {Q : α → ReadState → Prop}
    {E : SyntaxError → ReadState → Prop} (h : LeadsTo r a t s) (hQ : Q a t) : Ends True r s Q E := by
  refine h.mono (fun b u hb => ?_) fun _ _ h => h.elim
  obtain ⟨rfl, rfl⟩ := hb
  exact hQ

theorem LeadsTo.bind {r : Rule β} {f : β → Rule α} {b : β} {a : α} (h : LeadsTo r b t s)
    (hf : LeadsTo (f b) a u t) : LeadsTo (r >>= f) a u s :=
  ends_bind.mpr (h.ends hf)

theorem LeadsTo.bindRefuses {r : Rule β} {f : β → Rule α} {b : β} (h : LeadsTo r b t s)
    (hf : Refuses (f b) u t) : Refuses (r >>= f) u s :=
  ends_bind.mpr (h.ends hf)

theorem Refuses.bind {r : Rule β} (h : Refuses r t s) (f : β → Rule α) : Refuses (r >>= f) t s :=
  ends_bind.mpr (h.mono (fun _ _ h => h.elim) fun _ _ h => h)

theorem Fails.ends {r : Rule α} {Q : α → ReadState → Prop} (h : Fails r s) :
    Ends True r s Q fun _ _ => True :=
  h.mono (fun _ _ h => h.elim) fun _ _ h => h

theorem Fails.bind {r : Rule β} (h : Fails r s) (f : β → Rule α) : Fails (r >>= f) s :=
  ends_bind.mpr h.ends

theorem LeadsTo.pure (a : α) (s : ReadState) : LeadsTo (pure a) a s s := ⟨rfl, rfl⟩

theorem LeadsTo.expect {kind : TokenKind} (cause : SyntaxError.Cause) (hc : s.current = kind) :
    LeadsTo (Rule.expect kind cause) s.currentSpan s.advance s :=
  ends_expect.mpr ⟨fun _ => ⟨rfl, rfl⟩, fun h => absurd hc h⟩

theorem Refuses.expect {kind : TokenKind} (cause : SyntaxError.Cause) (hc : s.current ≠ kind) :
    Refuses (Rule.expect kind cause) s s :=
  ends_expect.mpr ⟨fun h => absurd h hc, fun _ => rfl⟩

theorem Refuses.identifier (cause : SyntaxError.Cause) (hc : s.current ≠ .identifier) :
    Refuses (Rule.identifier cause) s s :=
  ends_identifier.mpr ⟨fun h => absurd h hc, fun _ => rfl⟩

theorem LeadsTo.identifier (cause : SyntaxError.Cause) (hc : s.current = .identifier) :
    LeadsTo (Rule.identifier cause) ⟨s.currentText, s.currentSpan⟩ s.advance s :=
  ends_identifier.mpr ⟨fun _ => ⟨rfl, rfl⟩, fun h => absurd hc h⟩

/-! ## Rules in front of a tail -/

/-- What the first rule comes to, the second one comes to with the tail behind the row. If the rules
    are compared strictly, the second one also fails where the first one does. -/
def EnclosedAt (tail : List Token) (pass : List Token → Prop) (strict : Prop) (r r' : Rule α)
    (s : ReadState) : Prop :=
  Ends True r s (fun a t => s.Consumes pass t ∧ LeadsTo r' a (t.before tail) (s.before tail))
    fun _ t => strict → Refuses r' (t.before tail) (s.before tail)

namespace EnclosedAt

/-- Rules that are compared strictly are compared, and so are those that read less. -/
theorem mono {r r' : Rule α} {strict' : Prop} (h : EnclosedAt tail pass strict r r' s)
    (hpass : ∀ ts, pass ts → pass' ts) (hstrict : strict' → strict) :
    EnclosedAt tail pass' strict' r r' s :=
  Ends.mono h (fun _ _ ⟨hread, hsame⟩ => ⟨hread.mono hpass, hsame⟩)
    fun _ _ h hs => h (hstrict hs)

/-- A rule that fails is compared with every other one, unless strictly. -/
theorem of_fails {r r' : Rule α} (h : Fails r s) : EnclosedAt tail pass False r r' s :=
  Ends.mono h (fun _ _ h => h.elim) fun _ _ _ h => h.elim

theorem of_refuses {r r' : Rule α} (h : Refuses r s s)
    (h' : Refuses r' (s.before tail) (s.before tail)) : EnclosedAt tail pass strict r r' s := by
  refine Ends.mono h (fun _ _ h => h.elim) fun _ t ht _ => ?_
  obtain rfl := ht
  exact h'

/-! ### Sequences and choices -/

/-- One rule behind another of which something is known. Together they read what is made of both. -/
theorem joinKnowing {pass₁ pass₂ : List Token → Prop} {r r' : Rule β} {f f' : β → Rule α}
    {K : β → ReadState → Prop} (h : EnclosedAt tail pass₁ strict r r' s)
    (hknown : Ends True r s K fun _ _ => True)
    (hf : ∀ b t, s.Consumes pass₁ t → K b t → EnclosedAt tail pass₂ strict (f b) (f' b) t)
    (hpass : ∀ ts us, pass₁ ts → pass₂ us → pass (ts ++ us)) :
    EnclosedAt tail pass strict (r >>= f) (r' >>= f') s := by
  refine ends_bind.mpr ((Ends.and h hknown).mono (fun b t hb => ?_) fun e t he hs =>
    (he.1 hs).bind f')
  obtain ⟨⟨hread, hsame⟩, hk⟩ := hb
  refine Ends.mono (hf b t hread hk) (fun a u ha => ?_) fun e u he hs => hsame.bindRefuses (he hs)
  exact ⟨hread.join ha.1 hpass, hsame.bind ha.2⟩

theorem join {pass₁ pass₂ : List Token → Prop} {r r' : Rule β} {f f' : β → Rule α}
    (h : EnclosedAt tail pass₁ strict r r' s)
    (hf : ∀ b t, s.Consumes pass₁ t → EnclosedAt tail pass₂ strict (f b) (f' b) t)
    (hpass : ∀ ts us, pass₁ ts → pass₂ us → pass (ts ++ us)) :
    EnclosedAt tail pass strict (r >>= f) (r' >>= f') s :=
  h.joinKnowing ends_trivial (fun b t hread _ => hf b t hread) hpass

theorem bind (hp : Joins pass) {r r' : Rule β} {f f' : β → Rule α}
    (h : EnclosedAt tail pass strict r r' s)
    (hf : ∀ b t, s.Consumes pass t → EnclosedAt tail pass strict (f b) (f' b) t) :
    EnclosedAt tail pass strict (r >>= f) (r' >>= f') s :=
  h.join hf fun _ _ => hp.append

theorem pure (hp : Joins pass) (a : α) (s : ReadState) :
    EnclosedAt tail pass strict (pure a) (pure a) s :=
  ⟨.refl hp s, .pure a (s.before tail)⟩

theorem map (hp : Joins pass) {r r' : Rule β} (h : EnclosedAt tail pass strict r r' s) (f : β → α) :
    EnclosedAt tail pass strict (f <$> r) (f <$> r') s :=
  h.bind hp fun b t _ => pure hp (f b) t

theorem state {f f' : ReadState → Rule α}
    (h : EnclosedAt tail pass strict (f s) (f' (s.before tail)) s) :
    EnclosedAt tail pass strict (Rule.state >>= f) (Rule.state >>= f') s := h

theorem ite {c c' : Prop} [Decidable c] [Decidable c'] {r₁ r₂ r₁' r₂' : Rule α} (hc : c' ↔ c)
    (h : c → EnclosedAt tail pass strict r₁ r₁' s)
    (h' : ¬ c → EnclosedAt tail pass strict r₂ r₂' s) :
    EnclosedAt tail pass strict (if c then r₁ else r₂) (if c' then r₁' else r₂') s := by
  by_cases hcase : c
  · rw [if_pos hcase, if_pos (hc.mpr hcase)]
    exact h hcase
  · rw [if_neg hcase, if_neg fun h => hcase (hc.mp h)]
    exact h' hcase

theorem breakWith (fault : Fault) (r' : Rule α) (s : ReadState) :
    EnclosedAt tail pass strict (Rule.breakWith fault) r' s := trivial

/-- The second rule may have as little fuel as it wants. -/
theorem onFuel {r : Rule α} {f : Nat → Rule α} (fuel : Nat)
    (hzero : f 0 = Rule.breakWith .exhausted)
    (h : ∀ fuel, EnclosedAt tail pass strict r (f (fuel + 1)) s) :
    EnclosedAt tail pass strict r (f fuel) s := by
  cases fuel with
  | zero =>
    rw [hzero]
    exact Ends.mono (h 0) (fun _ _ h => ⟨h.1, trivial⟩) fun _ _ _ _ => trivial
  | succ fuel => exact h fuel

/-! ### Single tokens -/

theorem advance {kind : TokenKind} (hc : s.current = kind) (hkind : kind ≠ .endOfFile)
    (hpass : ∀ t : Token, t.kind = kind → pass [t]) :
    EnclosedAt tail pass strict Rule.advance Rule.advance s := by
  have hr := ReadState.ne_nil_of_current hc hkind
  refine ⟨.advance hc hkind hpass, ?_, ?_⟩
  · exact ReadState.currentSpan_before hr
  · exact ReadState.advance_before hr

/-- A token is expected that may not be the first one of the tail. -/
theorem expect {kind : TokenKind} (cause : SyntaxError.Cause) (hkind : kind ≠ .endOfFile)
    (hpass : ∀ t : Token, t.kind = kind → pass [t]) (s : ReadState)
    (htail : strict → s.rest = [] → kindOf tail ≠ kind) :
    EnclosedAt tail pass strict (Rule.expect kind cause) (Rule.expect kind cause) s := by
  refine ends_expect.mpr ⟨fun hc => ?_, fun hc hs => .expect cause ?_⟩
  · have hr := ReadState.ne_nil_of_current hc hkind
    have hspan : (s.before tail).currentSpan = s.currentSpan := ReadState.currentSpan_before hr
    rw [← hspan, ← ReadState.advance_before hr]
    exact ⟨.advance hc hkind hpass, .expect cause ((ReadState.current_before_of_ne_nil hr).trans hc)⟩
  · by_cases hr : s.rest = []
    · rw [ReadState.current_before_of_nil hr]
      exact htail hs hr
    · rw [ReadState.current_before_of_ne_nil hr]
      exact hc

theorem identifier (htail : Shuts tail) (cause : SyntaxError.Cause)
    (hpass : ∀ t : Token, t.kind = .identifier → pass [t]) (s : ReadState) :
    EnclosedAt tail pass strict (Rule.identifier cause) (Rule.identifier cause) s := by
  refine ends_identifier.mpr ⟨fun hc => ?_, fun hc _ => .identifier cause ?_⟩
  · have hr := ReadState.ne_nil_of_current hc (by decide)
    have htext : (s.before tail).currentText = s.currentText := ReadState.currentText_before hr
    have hspan : (s.before tail).currentSpan = s.currentSpan := ReadState.currentSpan_before hr
    rw [← htext, ← hspan, ← ReadState.advance_before hr]
    refine ⟨.advance hc (by decide) hpass, .identifier cause ?_⟩
    exact (ReadState.current_before_of_ne_nil hr).trans hc
  · exact mt (ReadState.current_before_iff htail (by decide)).mp hc

theorem eat (hp : Joins pass) (htail : Shuts tail) {kind : TokenKind}
    (hkind : kind ∉ [.rightParen, .rightBracket, .endOfFile])
    (hpass : ∀ t : Token, t.kind = kind → pass [t]) (s : ReadState) :
    EnclosedAt tail pass strict (Rule.eat kind) (Rule.eat kind) s := by
  have hiff := ReadState.current_before_iff (s := s) htail hkind
  refine ends_eat.mpr ⟨fun hc => ?_, fun hc => ?_⟩
  · have hend : kind ≠ .endOfFile := fun h => hkind (by rw [h]; decide)
    refine ⟨.advance hc hend hpass, ends_eat.mpr ⟨fun _ => ?_, fun h => absurd (hiff.mpr hc) h⟩⟩
    exact ⟨rfl, ReadState.advance_before (ReadState.ne_nil_of_current hc hend)⟩
  · exact ⟨.refl hp s, ends_eat.mpr ⟨fun h => absurd (hiff.mp h) hc, fun _ => ⟨rfl, rfl⟩⟩⟩

theorem failHere (cause : SyntaxError.Cause) (s : ReadState) :
    EnclosedAt tail pass strict (Rule.failHere cause : Rule α) (Rule.failHere cause) s :=
  fun _ => rfl

/-- Reading on while a test of the next token allows it, and what is made of the tokens read. -/
theorem readWhileThen (go : List Token → Bool) {f : List Token → α}
    (hgo : ∀ t ts us, go (t :: ts) = go (t :: us)) (htail : go tail = false) (s : ReadState)
    (hpass : ∀ front rest : List Token, s.rest = front ++ rest → (∀ t ∈ front, go [t] = true) →
      (rest = [] ∨ go rest = false) → pass front) :
    EnclosedAt tail pass strict (do
      let before ← Rule.state
      Rule.modify (·.readWhile go)
      let after ← Rule.state
      return f (before.rest.take (after.position - before.position))) (do
      let before ← Rule.state
      Rule.modify (·.readWhile go)
      let after ← Rule.state
      return f (before.rest.take (after.position - before.position))) s := by
  obtain ⟨front, rest, hr, hread, hfront, hrest⟩ := ReadState.Reads.readWhile_spec go s
  have hall : ∀ t ∈ front, ∀ ts, go (t :: ts) = true := by
    intro t ht ts
    obtain ⟨before, after, rfl⟩ := List.append_of_mem ht
    rw [hgo t ts (after ++ rest)]
    exact hfront before t after rfl
  have hread' : (s.before tail).readWhile go = (s.past front rest).before tail := by
    refine ReadState.readWhile_of_append ?_ hall ?_
    · rw [ReadState.before_rest, hr, List.append_assoc]
      rfl
    · rw [ReadState.past_rest]
      cases rest with
      | nil => exact .inr htail
      | cons t rest =>
        rw [List.cons_append, hgo t (rest ++ tail) rest]
        exact .inr (hrest.resolve_left (List.cons_ne_nil t rest))
  -- As many tokens are read, and they are the same.
  have htaken : ∀ ts, (front ++ ts).take (front.length + s.position - s.position) = front := by
    intro ts
    rw [Nat.add_sub_cancel, List.take_left]
  refine ⟨?_, ?_⟩
  · show s.Consumes pass (s.readWhile go)
    rw [hread]
    exact .past hr (hpass front rest hr (fun t ht => hall t ht []) hrest)
  · refine ⟨?_, ?_⟩
    · show f ((s.before tail).rest.take (((s.before tail).readWhile go).position - s.position)) =
        f (s.rest.take ((s.readWhile go).position - s.position))
      rw [hread, hread', ReadState.before_rest, hr, List.append_assoc]
      show f ((front ++ (rest ++ tail)).take ((s.past front rest).position - s.position)) = _
      rw [ReadState.past_position, htaken, htaken]
    · show (s.before tail).readWhile go = (s.readWhile go).before tail
      rw [hread, hread']

end EnclosedAt

end Rule

end HeaderBridge
