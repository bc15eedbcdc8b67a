/-
  What a rule comes to, as a predicate. `Ends B r s Q E` says what holds behind the rule `r` from
  the state `s`: `Q` of the value and the state if it succeeds, `E` of the error and the state if
  it fails. `B` says whether it may break; with `False` in its place the statement is that it does
  not. The lemmas follow the way rules are put together, so that a property of a rule is read off
  its definition.
-/
import HeaderBridge.Objc.Rule
import HeaderBridge.Proofs.Reading.Halves

namespace HeaderBridge.Rule

variable {α β : Type} {B : Prop} {s : ReadState}
  {Q Q' : α → ReadState → Prop} {E E' : SyntaxError → ReadState → Prop}

/-- What holds behind a rule. -/
def Ends (B : Prop) (r : Rule α) (s : ReadState) (Q : α → ReadState → Prop)
    (E : SyntaxError → ReadState → Prop) : Prop :=
  match r s with
  | .done a s' => Q a s'
  | .failed e s' => E e s'
  | .broken _ => B

theorem Ends.mono {r : Rule α} (h : Ends B r s Q E) (hQ : ∀ a s', Q a s' → Q' a s')
    (hE : ∀ e s', E e s' → E' e s') : Ends B r s Q' E' := by
  unfold Ends at h ⊢
  cases hr : r s with
  | done a s' => rw [hr] at h; exact hQ a s' h
  | failed e s' => rw [hr] at h; exact hE e s' h
  | broken f => rw [hr] at h; exact h

theorem Ends.and {r : Rule α} (h : Ends B r s Q E) (h' : Ends B r s Q' E') :
    Ends B r s (fun a s' => Q a s' ∧ Q' a s') fun e s' => E e s' ∧ E' e s' := by
  unfold Ends at h h' ⊢
  cases hr : r s with
  | done a s' => rw [hr] at h h'; exact ⟨h, h'⟩
  | failed e s' => rw [hr] at h h'; exact ⟨h, h'⟩
  | broken f => rw [hr] at h; exact h

theorem Ends.of_done {r : Rule α} {a : α} {s' : ReadState} (h : Ends B r s Q E)
    (hr : r s = .done a s') : Q a s' := by
  unfold Ends at h
  rwa [hr] at h

theorem Ends.of_failed {r : Rule α} {e : SyntaxError} {s' : ReadState} (h : Ends B r s Q E)
    (hr : r s = .failed e s') : E e s' := by
  unfold Ends at h
  rwa [hr] at h

/-- A rule that cannot break comes to a value or to an error. -/
theorem Ends.cases {r : Rule α} (h : Ends False r s Q E) :
    (∃ a s', r s = .done a s' ∧ Q a s') ∨ (∃ e s', r s = .failed e s' ∧ E e s') := by
  unfold Ends at h
  cases hr : r s with
  | done a s' => rw [hr] at h; exact Or.inl ⟨a, s', rfl, h⟩
  | failed e s' => rw [hr] at h; exact Or.inr ⟨e, s', rfl, h⟩
  | broken f => rw [hr] at h; exact h.elim

/-- Nothing needs to hold behind a rule. -/
theorem ends_trivial {r : Rule α} : Ends True r s (fun _ _ => True) fun _ _ => True := by
  unfold Ends
  cases r s <;> trivial

/-! ## Sequences and choices -/

@[simp] theorem ends_pure {a : α} : Ends B (pure a) s Q E ↔ Q a s := Iff.rfl

@[simp] theorem ends_bind {r : Rule β} {f : β → Rule α} :
    Ends B (r >>= f) s Q E ↔ Ends B r s (fun b s' => Ends B (f b) s' Q E) E := by
  unfold Ends
  change (match (match r s with
      | .done b s' => f b s'
      | .failed e s' => .failed e s'
      | .broken g => .broken g) with
    | .done a s' => Q a s'
    | .failed e s' => E e s'
    | .broken _ => B) ↔ _
  cases r s <;> rfl

/-- A rule that looks at the state first goes on with it. -/
theorem bind_state (f : ReadState → Rule α) (s : ReadState) : (state >>= f) s = f s s := rfl

@[simp] theorem ends_map {r : Rule β} {f : β → α} :
    Ends B (f <$> r) s Q E ↔ Ends B r s (fun b => Q (f b)) E := by
  change Ends B (r >>= fun b => pure (f b)) s Q E ↔ _
  rw [ends_bind]
  rfl

@[simp] theorem ends_ite {c : Prop} [Decidable c] {r r' : Rule α} :
    Ends B (if c then r else r') s Q E ↔
      (c → Ends B r s Q E) ∧ (¬ c → Ends B r' s Q E) := by
  split
  · next h => simp [h]
  · next h => simp [h]

/-! ## Rules that do not read -/

@[simp] theorem ends_state {Q : ReadState → ReadState → Prop} :
    Ends B state s Q E ↔ Q s s := Iff.rfl

@[simp] theorem ends_modify {f : ReadState → ReadState} {Q : Unit → ReadState → Prop} :
    Ends B (modify f) s Q E ↔ Q () (f s) := Iff.rfl

@[simp] theorem ends_report {e : SyntaxError} {Q : Unit → ReadState → Prop} :
    Ends B (report e) s Q E ↔ Q () (s.report e) := Iff.rfl

@[simp] theorem ends_failHere {cause : SyntaxError.Cause} :
    Ends B (failHere cause) s Q E ↔ E (s.errorHere cause) s := Iff.rfl

@[simp] theorem ends_breakWith {f : Fault} : Ends B (breakWith f) s Q E ↔ B := Iff.rfl

/-- A change that may break has to be looked at where it succeeds only. -/
theorem ends_modifyOrBreak {change : ReadState → Except Fault ReadState}
    {Q : Unit → ReadState → Prop} :
    Ends True (modifyOrBreak change) s Q E ↔ ∀ s', change s = .ok s' → Q () s' := by
  unfold Ends modifyOrBreak
  cases change s with
  | ok s' => simp
  | error f => simp

/-- A leaf is a new node that is attached at once. -/
theorem ends_leaf {kind : NodeKind} {span : Span} {Q : Unit → ReadState → Prop} :
    Ends True (leaf kind span) s Q E ↔ ∀ nodes, (s.nodes.fresh kind).2.attach
      { (s.nodes.fresh kind).1 with range := some span } = .ok nodes → Q () { s with nodes } := by
  unfold Ends leaf modifyOrBreak
  dsimp only [Bind.bind, Except.bind, Pure.pure, Except.pure]
  cases (s.nodes.fresh kind).2.attach { (s.nodes.fresh kind).1 with range := some span } with
  | error f => simp
  | ok nodes => simp

/-- Where a list may end, a double bracket is taken apart and everything else is left as it is. -/
theorem Ends.splitCloser {closing : TokenKind} {Q : Unit → ReadState → Prop}
    (hkeep : (closing = .greater → s.current ≠ .shiftRight) → Q () s)
    (hhalve : ∀ {t a b rest}, closing = .greater → s.rest = t :: rest → Halves t a b →
      Q () { s with rest := a :: b :: rest }) :
    Ends True (Rule.splitCloser closing) s Q E := by
  unfold Rule.splitCloser
  refine ends_ite.mpr ⟨fun hg => ends_modifyOrBreak.mpr fun s' hsplit => ?_,
    fun hne => hkeep fun hg => absurd hg hne⟩
  rcases ReadState.splitShiftRight_cases hsplit with ⟨hc, rfl⟩ | ⟨t, a, b, rest, hr, hv, rfl⟩
  · exact hkeep fun _ => hc
  · exact hhalve hg hr hv

/-! ## Rules that read one token -/

@[simp] theorem ends_advance {Q : Span → ReadState → Prop} :
    Ends B advance s Q E ↔ Q s.currentSpan s.advance := Iff.rfl

@[simp] theorem ends_eat {kind : TokenKind} {Q : Bool → ReadState → Prop} :
    Ends B (eat kind) s Q E ↔
      (s.current = kind → Q true s.advance) ∧ (s.current ≠ kind → Q false s) := by
  unfold Ends eat
  by_cases h : s.current = kind <;> simp [h]

@[simp] theorem ends_expect {kind : TokenKind} {cause : SyntaxError.Cause}
    {Q : Span → ReadState → Prop} :
    Ends B (expect kind cause) s Q E ↔
      (s.current = kind → Q s.currentSpan s.advance) ∧
        (s.current ≠ kind → E (s.errorHere cause) s) := by
  unfold Ends expect
  by_cases h : s.current = kind <;> simp [h]

@[simp] theorem ends_identifier {cause : SyntaxError.Cause} {Q : Ident → ReadState → Prop} :
    Ends B (identifier cause) s Q E ↔
      (s.current = .identifier → Q ⟨s.currentText, s.currentSpan⟩ s.advance) ∧
        (s.current ≠ .identifier → E (s.errorHere cause) s) := by
  unfold Ends identifier
  by_cases h : s.current = .identifier <;> simp [h]

end HeaderBridge.Rule
