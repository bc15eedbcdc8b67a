/-
  Rules that do the same on rows of the same faces. `AgreeAt tail r r' s s'` compares the rule `r`
  from `s` with `r'` from `s'`: unless one of them breaks, both succeed with values that are the
  same but for places, or both fail for the same cause, and they have added the same nodes and
  errors. With a tail this holds as long as no look ahead passes what the rows have in common. The
  lemmas follow the way rules are put together; fuel plays no part, since a rule that is out of fuel
  breaks.
-/
import HeaderBridge.Proofs.Agreement.Faces
import HeaderBridge.Proofs.Header.Building

namespace HeaderBridge

open ReadState (kindOf)
open Bare (bare)

/-! ## States that are alike -/

/-- Two parsers stand before rows of the same faces, in the same section, and both or none of them
    read what may be undone. -/
structure Alike (tail : Option (List Token)) (s s' : ReadState) : Prop where
  facing : Facing tail s.rest s'.rest
  speculating : s.speculating = s'.speculating
  inOptional : s.inOptional = s'.inOptional

/-- The innermost open node has grown, and no other node. -/
def Grows (s t : ReadState) (kind : Option NodeKind) (cs : List Node) : Prop :=
  ∀ n outer, s.nodes.opened = n :: outer → t.nodes.opened = n.grown kind cs :: outer

/-- What two parsers have added since two earlier states is the same but for places. -/
structure SameGain (s t s' t' : ReadState) : Prop where
  nodes : ∃ kind cs kind' cs', Grows s t kind cs ∧ Grows s' t' kind' cs' ∧
    bare kind = bare kind' ∧ bare cs = bare cs'
  errors : ∃ es es', t.errors.toList = s.errors.toList ++ es ∧
    t'.errors.toList = s'.errors.toList ++ es' ∧
    es.map SyntaxError.cause = es'.map SyntaxError.cause

/-- Where a look ahead may pass the common tokens it always may, no error is taken back, and what may
    be undone stays so. -/
structure Keeps (s t : ReadState) : Prop where
  rest : ∀ tail, RanOut tail s.rest → RanOut tail t.rest
  nil : s.rest = [] → t.rest = []
  errors : s.errors.size ≤ t.errors.size
  speculating : t.speculating = s.speculating

section States

variable {tail : Option (List Token)} {s t u s' t' u' : ReadState} {kind kind' : Option NodeKind}
  {cs cs' : List Node}

theorem Alike.current_eq (h : Alike tail s s') (hsees : ¬ RanOut tail s.rest) :
    s.current = s'.current := h.facing.kindOf_eq hsees

theorem Alike.currentText_eq (h : Alike tail s s') (hsees : ¬ RanOut tail s.rest) :
    s.currentText = s'.currentText := by
  unfold ReadState.currentText
  obtain ⟨hs, hs'⟩ | ⟨t, ts, u, us, hs, hs', hface, _⟩ := h.facing.cases_of_sees hsees
  · rw [hs, hs']
  · rw [hs, hs']
    exact congrArg Prod.snd hface

/-- Rows of the same faces show the same kind in the second place. -/
theorem Alike.second_eq (h : Alike none s s') : s.second = s'.second := by
  have hbehind : Facing none (s.rest.drop 1) (s'.rest.drop 1) := by
    show (s.rest.drop 1).map Token.face = (s'.rest.drop 1).map Token.face
    rw [List.map_drop, List.map_drop, show s.rest.map Token.face = _ from h.facing]
  exact hbehind.kindOf_eq (not_ranOut_none _)

theorem Alike.of_reads (h : Alike tail s s') (hread : s.Reads t) (hread' : s'.Reads t')
    (hfacing : Facing tail t.rest t'.rest) : Alike tail t t' := by
  obtain ⟨_, _, _, rfl⟩ := hread
  obtain ⟨_, _, _, rfl⟩ := hread'
  exact ⟨hfacing, h.speculating, h.inOptional⟩

theorem Grows.refl (s : ReadState) : Grows s s none [] := fun n outer ho => by
  rw [ho, Node.grown_none_nil]

theorem Grows.of_nodes (h : t.nodes = s.nodes) : Grows s t none [] := fun n outer ho => by
  rw [h, ho, Node.grown_none_nil]

theorem Grows.trans (h : Grows s t kind cs) (h' : Grows t u kind' cs') :
    Grows s u (kind'.or kind) (cs ++ cs') := fun n outer ho => by
  rw [h' _ _ (h n outer ho), Node.grown_grown]

theorem bare_or {k k' l l' : Option NodeKind} (h : bare k = bare k') (h' : bare l = bare l') :
    bare (l.or k) = bare (l'.or k') := by
  cases l with
  | none =>
    cases l' with
    | none => exact h
    | some _ => cases h'
  | some _ =>
    cases l' with
    | none => cases h'
    | some _ => exact h'

theorem bare_getD {k k' : Option NodeKind} {l l' : NodeKind} (h : bare k = bare k')
    (h' : bare l = bare l') : bare (k.getD l) = bare (k'.getD l') := by
  cases k with
  | none =>
    cases k' with
    | none => exact h'
    | some _ => cases h
  | some _ =>
    cases k' with
    | none => cases h
    | some _ => exact Option.some.inj h

namespace SameGain

theorem refl (s s' : ReadState) : SameGain s s s' s' :=
  ⟨⟨none, [], none, [], .refl s, .refl s', rfl, rfl⟩,
    ⟨[], [], (List.append_nil _).symm, (List.append_nil _).symm, rfl⟩⟩

theorem trans (h : SameGain s t s' t') (h' : SameGain t u t' u') : SameGain s u s' u' := by
  obtain ⟨⟨kind, cs, kind', cs', hgrows, hgrows', hkind, hcs⟩, es, es', he, he', hes⟩ := h
  obtain ⟨⟨kind₂, cs₂, kind₂', cs₂', hgrows₂, hgrows₂', hkind₂, hcs₂⟩, es₂, es₂', he₂, he₂', hes₂⟩ :=
    h'
  refine ⟨⟨_, _, _, _, hgrows.trans hgrows₂, hgrows'.trans hgrows₂', bare_or hkind hkind₂, ?_⟩,
    es ++ es₂, es' ++ es₂', ?_, ?_, ?_⟩
  · rw [bare_append, bare_append, hcs, hcs₂]
  · rw [he₂, he, List.append_assoc]
  · rw [he₂', he', List.append_assoc]
  · rw [List.map_append, List.map_append, hes, hes₂]

/-- Where neither nodes nor errors are touched, nothing is added. -/
theorem of_eq (hnodes : t.nodes = s.nodes) (hnodes' : t'.nodes = s'.nodes)
    (herrors : t.errors = s.errors) (herrors' : t'.errors = s'.errors) : SameGain s t s' t' :=
  ⟨⟨none, [], none, [], .of_nodes hnodes, .of_nodes hnodes', rfl, rfl⟩,
    ⟨[], [], by rw [herrors, List.append_nil], by rw [herrors', List.append_nil], rfl⟩⟩

/-- Where only nodes are touched, no error is added. -/
theorem of_grows (hgrows : Grows s t kind cs) (hgrows' : Grows s' t' kind' cs')
    (hkind : bare kind = bare kind') (hcs : bare cs = bare cs') (herrors : t.errors = s.errors)
    (herrors' : t'.errors = s'.errors) : SameGain s t s' t' :=
  ⟨⟨kind, cs, kind', cs', hgrows, hgrows', hkind, hcs⟩,
    ⟨[], [], by rw [herrors, List.append_nil], by rw [herrors', List.append_nil], rfl⟩⟩

theorem setKind {kind kind' : NodeKind} (h : bare kind = bare kind') (s s' : ReadState) :
    SameGain s { s with nodes := s.nodes.update fun n => { n with kind } }
      s' { s' with nodes := s'.nodes.update fun n => { n with kind := kind' } } := by
  have grows : ∀ (s : ReadState) (kind : NodeKind),
      Grows s { s with nodes := s.nodes.update fun n => { n with kind } } (some kind) [] := by
    intro s kind n outer ho
    simp [NodeStack.update, ho, Node.grown]
  exact .of_grows (grows s kind) (grows s' kind') (congrArg some h) rfl rfl rfl

/-- Reading on adds nothing. -/
theorem of_reads (h : s.Reads t) (h' : s'.Reads t') : SameGain s t s' t' := by
  obtain ⟨_, _, _, rfl⟩ := h
  obtain ⟨_, _, _, rfl⟩ := h'
  exact .of_eq rfl rfl rfl rfl

end SameGain

namespace Keeps

theorem refl (s : ReadState) : Keeps s s := ⟨fun _ => id, id, Nat.le_refl _, rfl⟩

theorem trans (h : Keeps s t) (h' : Keeps t u) : Keeps s u :=
  ⟨fun tail hs => h'.rest tail (h.rest tail hs), fun hs => h'.nil (h.nil hs),
    Nat.le_trans h.errors h'.errors, h'.speculating.trans h.speculating⟩

/-- Where the row and the errors are not touched. -/
theorem of_eq (hrest : t.rest = s.rest) (herrors : t.errors = s.errors)
    (hspeculating : t.speculating = s.speculating) : Keeps s t := by
  refine ⟨fun tail hs => ?_, fun hs => hrest.trans hs, ?_, hspeculating⟩
  · rwa [hrest]
  · exact Nat.le_of_eq (congrArg Array.size herrors).symm

theorem of_reads (h : s.Reads t) : Keeps s t := by
  obtain ⟨front, rest, hr, rfl⟩ := h
  refine ⟨fun tail hs => ?_, fun hs => ?_, Nat.le_refl _, rfl⟩
  · rw [hr] at hs
    exact hs.of_append
  · rw [hs] at hr
    exact (List.append_eq_nil_iff.mp hr.symm).2

theorem report (s : ReadState) (e : SyntaxError) : Keeps s (s.report e) := by
  unfold ReadState.report
  split
  · exact .refl s
  · exact ⟨fun _ => id, id, by simp, rfl⟩

end Keeps

end States

namespace Rule

variable {α β : Type} [Bare α] [Bare β] {tail : Option (List Token)} {s s' : ReadState}

/-- Two outcomes that are the same but for places, unless a look ahead may have passed the common
    tokens. -/
inductive Agreed (tail : Option (List Token)) (s s' : ReadState) : Outcome α → Outcome α → Prop where
  | broken (f : Fault) (o' : Outcome α) : Agreed tail s s' (.broken f) o'
  | brokenToo (o : Outcome α) (f : Fault) : Agreed tail s s' o (.broken f)
  | doneOut {t : ReadState} (a : α) (o' : Outcome α) (out : RanOut tail t.rest) :
      Agreed tail s s' (.done a t) o'
  | failedOut {t : ReadState} (e : SyntaxError) (o' : Outcome α) (out : RanOut tail t.rest) :
      Agreed tail s s' (.failed e t) o'
  | done {a a' : α} {t t' : ReadState} (values : bare a = bare a') (alike : Alike tail t t')
      (gain : SameGain s t s' t') : Agreed tail s s' (.done a t) (.done a' t')
  | failed {e e' : SyntaxError} {t t' : ReadState} (causes : e.cause = e'.cause)
      (reported : e'.reported = false) (alike : Alike tail t t')
      (gain : SameGain s t s' t') : Agreed tail s s' (.failed e t) (.failed e' t')

/-- No error is taken back, and one that the rule fails with was not noted yet. -/
def Keeping {α : Type} (r : Rule α) (s : ReadState) : Prop :=
  Ends True r s (fun _ t => Keeps s t) fun e t => Keeps s t ∧ e.reported = false

/-- The first rule from the first state and the second rule from the second one do the same. -/
structure AgreeAt (tail : Option (List Token)) (r r' : Rule α) (s s' : ReadState) : Prop where
  keeps : Keeping r s
  agreed : Alike tail s s' → ¬ RanOut tail s.rest → Agreed tail s s' (r s) (r' s')

/-! A sequence comes to what its first part comes to, or to what follows on its value. -/

section Sequences

variable {α β : Type} {r : Rule β} {f : β → Rule α} {s t : ReadState}

theorem bind_apply (r : Rule β) (f : β → Rule α) (s : ReadState) : (r >>= f) s =
    match r s with
    | .done b t => f b t
    | .failed e t => .failed e t
    | .broken fault => .broken fault := rfl

theorem bind_of_done {b : β} (h : r s = .done b t) : (r >>= f) s = f b t := by
  rw [bind_apply, h]

theorem bind_of_failed {e : SyntaxError} (h : r s = .failed e t) :
    (r >>= f) s = .failed e t := by
  rw [bind_apply, h]

theorem bind_of_broken {fault : Fault} (h : r s = .broken fault) :
    (r >>= f) s = .broken fault := by
  rw [bind_apply, h]

theorem bind_congr {r' : Rule β} {s' : ReadState} (h : r s = r' s') :
    (r >>= f) s = (r' >>= f) s' := by
  rw [bind_apply, bind_apply, h]

theorem bind_assoc {γ : Type} (r : Rule γ) (f : γ → Rule β) (g : β → Rule α) :
    (r >>= f) >>= g = r >>= fun c => f c >>= g := by
  funext s
  rw [bind_apply, bind_apply, bind_apply]
  cases r s <;> rfl

theorem exists_of_bind {a : α} {u : ReadState} (h : (r >>= f) s = .done a u) :
    ∃ b t, r s = .done b t ∧ f b t = .done a u := by
  rw [bind_apply] at h
  cases hr : r s with
  | done b t => exact ⟨b, t, rfl, by rwa [hr] at h⟩
  | failed e t => rw [hr] at h; cases h
  | broken fault => rw [hr] at h; cases h

end Sequences

theorem Keeping.bind {α β : Type} {r : Rule β} {f : β → Rule α} {s : ReadState}
    (hr : Keeping r s) (hf : ∀ b t, Keeping (f b) t) : Keeping (r >>= f) s :=
  ends_bind.mpr (hr.mono (fun b t h => (hf b t).mono (fun _ _ h' => h.trans h') fun _ _ h' =>
    ⟨h.trans h'.1, h'.2⟩) fun _ _ h => h)

theorem Keeping.expect (kind : TokenKind) (cause : SyntaxError.Cause) (s : ReadState) :
    Keeping (Rule.expect kind cause) s :=
  ends_expect.mpr ⟨fun _ => .of_reads (.advance s), fun _ => ⟨.refl s, rfl⟩⟩

theorem Keeping.identifier (cause : SyntaxError.Cause) (s : ReadState) :
    Keeping (Rule.identifier cause) s :=
  ends_identifier.mpr ⟨fun _ => .of_reads (.advance s), fun _ => ⟨.refl s, rfl⟩⟩

namespace Agreed

theorem trans {t t' : ReadState} {o o' : Outcome α} (h : SameGain s t s' t')
    (h' : Agreed tail t t' o o') : Agreed tail s s' o o' := by
  cases h' with
  | broken f o' => exact .broken f o'
  | brokenToo o f => exact .brokenToo o f
  | doneOut a o' out => exact .doneOut a o' out
  | failedOut e o' out => exact .failedOut e o' out
  | done values alike gain => exact .done values alike (h.trans gain)
  | failed causes reported alike gain => exact .failed causes reported alike (h.trans gain)

end Agreed

/-- A rule and what follows on its success and on its failure. -/
def handle (r : Rule β) (f : β → Rule α) (g : SyntaxError → Rule α) : Rule α := fun s =>
  match r s with
  | .done b t => f b t
  | .failed e t => g e t
  | .broken fault => .broken fault

namespace AgreeAt

/-! ## Sequences and choices -/

/-- Where a look ahead may have passed the common tokens the second rule does not matter. -/
theorem agreed_of_ranOut {r r' : Rule α} {t t' : ReadState} (h : AgreeAt tail r r' t t')
    (hout : RanOut tail t.rest) (o' : Outcome α) : Agreed tail s s' (r t) o' := by
  have hkeeps := h.keeps
  unfold Keeping Ends at hkeeps
  cases hr : r t with
  | done a u => rw [hr] at hkeeps; exact .doneOut a o' (hkeeps.rest tail hout)
  | failed e u => rw [hr] at hkeeps; exact .failedOut e o' (hkeeps.1.rest tail hout)
  | broken fault => exact .broken fault o'

theorem handle {r r' : Rule β} {f f' : β → Rule α} {g g' : SyntaxError → Rule α}
    (h : AgreeAt tail r r' s s')
    (hf : ∀ b b' t t', bare b = bare b' → AgreeAt tail (f b) (f' b') t t')
    (hg : ∀ e e' t t', e.cause = e'.cause → e.reported = false → e'.reported = false →
      AgreeAt tail (g e) (g' e') t t') :
    AgreeAt tail (handle r f g) (Rule.handle r' f' g') s s' := by
  constructor
  · have hkeeps := h.keeps
    unfold Keeping Ends at hkeeps
    unfold Keeping Ends Rule.handle
    cases hr : r s with
    | done b t =>
      rw [hr] at hkeeps
      exact (hf b b t t rfl).keeps.mono (fun _ _ h' => hkeeps.trans h') fun _ _ h' =>
        ⟨hkeeps.trans h'.1, h'.2⟩
    | failed e t =>
      rw [hr] at hkeeps
      exact (hg e e t t rfl hkeeps.2 hkeeps.2).keeps.mono (fun _ _ h' => hkeeps.1.trans h')
        fun _ _ h' => ⟨hkeeps.1.trans h'.1, h'.2⟩
    | broken fault => trivial
  · intro halike hsees
    have hagreed := h.agreed halike hsees
    have hkeeps := h.keeps
    unfold Keeping Ends at hkeeps
    unfold Rule.handle
    generalize r s = o at hagreed hkeeps
    generalize r' s' = o' at hagreed
    cases hagreed with
    | broken fault o' => exact .broken fault _
    | brokenToo o fault => exact .brokenToo _ fault
    | @doneOut t b o' out => exact (hf b b t t rfl).agreed_of_ranOut out _
    | @failedOut t e o' out =>
      exact (hg e e t t rfl hkeeps.2 hkeeps.2).agreed_of_ranOut out _
    | @done b b' t t' values alike gain =>
      by_cases hout : RanOut tail t.rest
      · exact (hf b b' t t' values).agreed_of_ranOut hout _
      · exact ((hf b b' t t' values).agreed alike hout).trans gain
    | @failed e e' t t' causes reported alike gain =>
      by_cases hout : RanOut tail t.rest
      · exact (hg e e' t t' causes hkeeps.2 reported).agreed_of_ranOut hout _
      · exact ((hg e e' t t' causes hkeeps.2 reported).agreed alike hout).trans gain

theorem pure {a a' : α} (h : bare a = bare a') (s s' : ReadState) :
    AgreeAt tail (pure a) (pure a') s s' :=
  ⟨.refl s, fun halike _ => .done h halike (.refl s s')⟩

/-- Failing with an error. -/
theorem fail {e e' : SyntaxError} (hcause : e.cause = e'.cause) (hnew : e.reported = false)
    (hnew' : e'.reported = false) (s s' : ReadState) :
    AgreeAt tail (fun s => .failed e s : Rule α) (fun s => .failed e' s) s s' :=
  ⟨⟨.refl s, hnew⟩, fun halike _ => .failed hcause hnew' halike (.refl s s')⟩

theorem bind {r r' : Rule β} {f f' : β → Rule α} (h : AgreeAt tail r r' s s')
    (hf : ∀ b b' t t', bare b = bare b' → AgreeAt tail (f b) (f' b') t t') :
    AgreeAt tail (r >>= f) (r' >>= f') s s' :=
  h.handle hf fun _ _ t t' hcause hnew hnew' => fail hcause hnew hnew' t t'

theorem state {f f' : ReadState → Rule α} (h : AgreeAt tail (f s) (f' s') s s') :
    AgreeAt tail (Rule.state >>= f) (Rule.state >>= f') s s' :=
  ⟨h.keeps, h.agreed⟩

theorem map {r r' : Rule β} {f f' : β → α} (h : AgreeAt tail r r' s s')
    (hf : ∀ b b', bare b = bare b' → bare (f b) = bare (f' b')) :
    AgreeAt tail (f <$> r) (f' <$> r') s s' :=
  h.bind fun b b' t t' hb => pure (hf b b' hb) t t'

/-- A choice is made on what both rows show. -/
theorem ite {c c' : Prop} [Decidable c] [Decidable c'] {r₁ r₂ r₁' r₂' : Rule α}
    (hc : Alike tail s s' → ¬ RanOut tail s.rest → (c ↔ c')) (h : c → AgreeAt tail r₁ r₁' s s')
    (h' : ¬ c → AgreeAt tail r₂ r₂' s s') :
    AgreeAt tail (if c then r₁ else r₂) (if c' then r₁' else r₂') s s' := by
  refine ⟨ends_ite.mpr ⟨fun hc => (h hc).keeps, fun hc => (h' hc).keeps⟩, fun halike hsees => ?_⟩
  have hiff := hc halike hsees
  by_cases hcase : c
  · rw [if_pos hcase, if_pos (hiff.mp hcase)]
    exact (h hcase).agreed halike hsees
  · rw [if_neg hcase, if_neg fun h => hcase (hiff.mpr h)]
    exact (h' hcase).agreed halike hsees

theorem breakWith (fault : Fault) (r' : Rule α) (s s' : ReadState) :
    AgreeAt tail (Rule.breakWith fault) r' s s' :=
  ⟨trivial, fun _ _ => .broken fault _⟩

/-- A rule agrees with one that is out of fuel. -/
theorem breakWithToo {r r' : Rule α} (h : AgreeAt tail r r' s s') (fault : Fault) :
    AgreeAt tail r (Rule.breakWith fault) s s' :=
  ⟨h.keeps, fun _ _ => .brokenToo _ fault⟩

/-- Where a loop runs out of fuel on the second side, the first side does not matter. -/
theorem onFuel {r : Rule α} {f : Nat → Rule α} (fuel : Nat)
    (hzero : f 0 = Rule.breakWith .exhausted)
    (h : ∀ fuel, AgreeAt tail r (f (fuel + 1)) s s') : AgreeAt tail r (f fuel) s s' := by
  cases fuel with
  | zero =>
    rw [hzero]
    exact (h 0).breakWithToo .exhausted
  | succ fuel => exact h fuel

/-- The second rule may be given by what the first row shows, since both rows show the same. -/
theorem seeing {r r₁ r₂ : Rule α} (h : AgreeAt tail r r₁ s s')
    (heq : Alike tail s s' → ¬ RanOut tail s.rest → r₁ = r₂) : AgreeAt tail r r₂ s s' := by
  refine ⟨h.keeps, fun halike hsees => ?_⟩
  rw [← heq halike hsees]
  exact h.agreed halike hsees

theorem failHere (cause : SyntaxError.Cause) (s s' : ReadState) :
    AgreeAt tail (Rule.failHere cause : Rule α) (Rule.failHere cause) s s' :=
  ⟨⟨.refl s, rfl⟩, fun halike _ => .failed rfl rfl halike (.refl s s')⟩

/-! ## Changes of the state -/

theorem modify {change change' : ReadState → ReadState} (hkeeps : Keeps s (change s))
    (h : Alike tail s s' → ¬ RanOut tail s.rest → RanOut tail (change s).rest ∨
      (Alike tail (change s) (change' s') ∧ SameGain s (change s) s' (change' s'))) :
    AgreeAt tail (Rule.modify change) (Rule.modify change') s s' := by
  refine ⟨hkeeps, fun halike hsees => ?_⟩
  rcases h halike hsees with hout | ⟨halike', hgain⟩
  · exact .doneOut () _ hout
  · exact .done rfl halike' hgain

/-- Noting an error that was not noted before. -/
theorem report {e e' : SyntaxError} (hcause : e.cause = e'.cause) (hnew : e.reported = false)
    (hnew' : e'.reported = false) (s s' : ReadState) :
    AgreeAt tail (Rule.report e) (Rule.report e') s s' := by
  refine modify (.report s e) fun halike _ => Or.inr ?_
  unfold ReadState.report
  rw [hnew, hnew', if_neg Bool.false_ne_true, if_neg Bool.false_ne_true]
  · refine ⟨⟨halike.facing, halike.speculating, halike.inOptional⟩,
      ⟨none, [], none, [], .of_nodes rfl, .of_nodes rfl, rfl, rfl⟩, [{ e with reported := true }],
      [{ e' with reported := true }], by simp, by simp, ?_⟩
    rw [List.map_cons, List.map_cons]
    exact congrArg (fun cause => [cause]) hcause

/-- Noting an error at the current token. -/
theorem reportHere (cause : SyntaxError.Cause) (s s' : ReadState) :
    AgreeAt tail (Rule.report (s.errorHere cause)) (Rule.report (s'.errorHere cause)) s s' := by
  refine report ?_ ?_ ?_ s s' <;> rfl

theorem enter (inOptional : Bool) (s s' : ReadState) :
    AgreeAt tail (Rule.modify fun s => { s with inOptional })
      (Rule.modify fun s => { s with inOptional }) s s' :=
  modify (.of_eq rfl rfl rfl) fun halike _ =>
    Or.inr ⟨⟨halike.facing, halike.speculating, rfl⟩, .of_eq rfl rfl rfl rfl⟩

theorem setKind {kind kind' : NodeKind} (h : bare kind = bare kind') (s s' : ReadState) :
    AgreeAt tail (Rule.setKind kind) (Rule.setKind kind') s s' := by
  refine modify (.of_eq rfl rfl rfl) fun halike _ => Or.inr ⟨?_, .setKind h s s'⟩
  exact ⟨halike.facing, halike.speculating, halike.inOptional⟩

/-! ## Reading on -/

theorem alike_advance (halike : Alike tail s s') (hsees : ¬ RanOut tail s.rest) :
    Alike tail s.advance s'.advance := by
  obtain ⟨hs, hs'⟩ | ⟨t, ts, u, us, hs, hs', _, hrest⟩ := halike.facing.cases_of_sees hsees
  · rw [ReadState.advance_of_nil hs, ReadState.advance_of_nil hs']
    exact halike
  · rw [ReadState.advance_of_cons hs, ReadState.advance_of_cons hs']
    exact ⟨hrest, halike.speculating, halike.inOptional⟩

theorem advance (s s' : ReadState) : AgreeAt tail Rule.advance Rule.advance s s' :=
  ⟨.of_reads (.advance s), fun halike hsees =>
    .done rfl (alike_advance halike hsees) (.of_reads (.advance s) (.advance s'))⟩

theorem eat (kind : TokenKind) (s s' : ReadState) :
    AgreeAt tail (Rule.eat kind) (Rule.eat kind) s s' := by
  refine ⟨ends_eat.mpr ⟨fun _ => .of_reads (.advance s), fun _ => .refl s⟩, fun halike hsees => ?_⟩
  unfold Rule.eat
  rw [← halike.current_eq hsees]
  split
  · exact .done rfl (alike_advance halike hsees) (.of_reads (.advance s) (.advance s'))
  · exact .done rfl halike (.refl s s')

theorem expect (kind : TokenKind) (cause : SyntaxError.Cause) (s s' : ReadState) :
    AgreeAt tail (Rule.expect kind cause) (Rule.expect kind cause) s s' := by
  refine ⟨.expect kind cause s, fun halike hsees => ?_⟩
  unfold Rule.expect
  rw [← halike.current_eq hsees]
  split
  · exact .done rfl (alike_advance halike hsees) (.of_reads (.advance s) (.advance s'))
  · exact .failed rfl rfl halike (.refl s s')

theorem identifier (cause : SyntaxError.Cause) (s s' : ReadState) :
    AgreeAt tail (Rule.identifier cause) (Rule.identifier cause) s s' := by
  refine ⟨.identifier cause s, fun halike hsees => ?_⟩
  unfold Rule.identifier
  rw [← halike.current_eq hsees]
  split
  · refine .done ?_ (alike_advance halike hsees) (.of_reads (.advance s) (.advance s'))
    rw [halike.currentText_eq hsees]
    rfl
  · exact .failed rfl rfl halike (.refl s s')

end AgreeAt

end Rule

end HeaderBridge
