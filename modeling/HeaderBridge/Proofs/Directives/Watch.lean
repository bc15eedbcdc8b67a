/-
  Directives that reading passes over. A watch looks for directives of some kinds and says at which
  places one of them may be passed over; `PassesAt` says of a rule that wherever it ends it has passed
  over none at another place, and that it has made the innermost open node nothing that it may not
  be. Types, properties and methods are followed here, for every watch: they look at a token before
  they read it, and none of them asks for a directive.
-/
import HeaderBridge.Proofs.Agreement.Rules
import HeaderBridge.Proofs.Tree.Placed

namespace HeaderBridge

open ReadState (kindOf)
open Rule

/-! ## Watches -/

/-- Directives that are looked for, and the places where reading may pass one of them over. A place
    is known by the tokens in front of it. -/
structure Watch where
  wanted : TokenKind → Bool
  hidden : List Token → Prop
  directive : ∀ kind, wanted kind = true → kind.isAtKeyword = true
  behind : ∀ front before, hidden before → hidden (front ++ before)

/-- Every wanted directive among the tokens is at a hidden place. -/
def Watch.Misses (w : Watch) (ts : List Token) : Prop :=
  ∀ before t after, ts = before ++ t :: after → w.wanted t.kind = true → w.hidden before

namespace Watch

variable {w : Watch} {ts us : List Token}

theorem not_wanted {kind : TokenKind} (h : kind.isAtKeyword = false) : w.wanted kind = false := by
  cases hw : w.wanted kind with
  | false => rfl
  | true => rw [w.directive kind hw] at h; cases h

theorem Misses.of_not_wanted (h : ∀ t ∈ ts, w.wanted t.kind = false) : w.Misses ts := by
  rintro before t after rfl hw
  rw [h t (by simp)] at hw
  cases hw

theorem Misses.append (h : w.Misses ts) (h' : w.Misses us) : w.Misses (ts ++ us) := by
  intro before t after heq hw
  rcases cons_of_append_eq heq with ⟨more, hts⟩ | ⟨more, rfl, hus⟩
  · exact h before t more hts hw
  · exact w.behind ts more (h' more t after hus hw)

end Watch

/-- Noting an error changes the log and the list of errors at most. -/
theorem ReadState.report_eq (s : ReadState) (e : SyntaxError) :
    ∃ log errors, s.report e = { s with log, errors } := by
  unfold report
  split
  · exact ⟨s.log, s.errors, rfl⟩
  · exact ⟨_, _, rfl⟩

/-- From the first state to the second one no wanted directive was passed over at a place that is
    not hidden. The innermost open node has grown; if it became something, this was allowed. -/
structure Passes (w : Watch) (allowed : NodeKind → Prop) (s s' : ReadState) : Prop where
  tokens : ∃ front, s'.passed = front.reverse ++ s.passed ∧ w.Misses front
  nodes : ∃ kind cs, Grows s s' kind cs ∧ ∀ k ∈ kind, allowed k

variable {w : Watch} {allowed : NodeKind → Prop} {s s' s'' : ReadState}

namespace Passes

theorem of_eq (hpassed : s'.passed = s.passed) (hnodes : s'.nodes = s.nodes) :
    Passes w allowed s s' :=
  ⟨⟨[], hpassed, .of_not_wanted (by simp)⟩, none, [], .of_nodes hnodes, by simp⟩

theorem refl (s : ReadState) : Passes w allowed s s := of_eq rfl rfl

theorem trans (h : Passes w allowed s s') (h' : Passes w allowed s' s'') :
    Passes w allowed s s'' := by
  obtain ⟨⟨front, hpassed, hmisses⟩, kind, cs, hgrows, hallowed⟩ := h
  obtain ⟨⟨front', hpassed', hmisses'⟩, kind', cs', hgrows', hallowed'⟩ := h'
  refine ⟨⟨front ++ front', ?_, hmisses.append hmisses'⟩, _, _, hgrows.trans hgrows', ?_⟩
  · rw [hpassed', hpassed, List.reverse_append, List.append_assoc]
  · intro k hk
    cases kind' with
    | none => exact hallowed k hk
    | some _ => exact hallowed' k hk

theorem report (s : ReadState) (e : SyntaxError) : Passes w allowed s (s.report e) := by
  obtain ⟨log, errors, h⟩ := s.report_eq e
  rw [h]
  exact .of_eq rfl rfl

/-- Reading on over tokens that are none of the wanted ones, or hidden. -/
theorem past {front : List Token} (h : w.Misses front) (rest : List Token) :
    Passes w allowed s (s.past front rest) :=
  ⟨⟨front, rfl, h⟩, none, [], .of_nodes rfl, by simp⟩

theorem advance (h : w.wanted s.current = false) : Passes w allowed s s.advance := by
  cases hr : s.rest with
  | nil => rw [ReadState.advance_of_nil hr]; exact .refl s
  | cons t rest =>
    rw [ReadState.advance_of_cons hr]
    refine past (.of_not_wanted fun u hu => ?_) rest
    rwa [List.mem_singleton.mp hu, ← ReadState.current_of_cons hr]

/-- What stops at the wanted directives does not pass one over. -/
theorem readWhile {go : List Token → Bool} (h : ∀ ts, w.wanted (kindOf ts) = true → go ts = false)
    (s : ReadState) : Passes w allowed s (s.readWhile go) := by
  obtain ⟨front, rest, _, he, hgo, _⟩ := ReadState.Reads.readWhile_spec go s
  rw [he]
  refine past (fun before t after hfront hw => ?_) rest
  have hstop := h (t :: after ++ rest) hw
  rw [hgo before t after hfront] at hstop
  cases hstop

theorem skipUntil {stop : TokenKind → Bool} (h : ∀ kind, w.wanted kind = true → stop kind = true)
    (s : ReadState) : Passes w allowed s (s.skipUntil stop) :=
  readWhile (fun ts hw => by rw [h _ hw]; rfl) s

/-- What a course lays is known by the tokens and the kind that are passed. The first tokens may have
    been read before. -/
theorem lays_behind {u : ReadState} {front : List Token} (h : Passes w allowed u s')
    (hfront : u.passed = front.reverse ++ s.passed) (hnodes : u.nodes = s.nodes)
    (hcourse : Course s s') : ∃ inside kind cs,
      Lays s (front ++ inside) kind cs s' ∧ w.Misses inside ∧ ∀ k ∈ kind, allowed k := by
  obtain ⟨⟨inside, hpassed, hmisses⟩, kind, cs, hgrows, hallowed⟩ := h
  obtain ⟨front', kind', cs', hlays⟩ := hcourse.laid
  rw [hfront, ← List.append_assoc, ← List.reverse_append] at hpassed
  obtain rfl : front' = front ++ inside :=
    List.reverse_inj.mp (List.append_cancel_right (hlays.passed.symm.trans hpassed))
  refine ⟨inside, kind, cs', ⟨hlays.passed, hlays.rest, fun n outer ho => ?_, hlays.placed,
    hlays.numbered⟩, hmisses, hallowed⟩
  have hgrown := hgrows n outer (by rw [hnodes]; exact ho)
  rw [hlays.opened n outer ho] at hgrown ⊢
  obtain ⟨hnode, _⟩ := List.cons.inj hgrown
  obtain rfl : cs' = cs := List.append_cancel_left (congrArg Node.children hnode)
  rw [hnode]

theorem lays (h : Passes w allowed s s') (hcourse : Course s s') : ∃ front kind cs,
    Lays s front kind cs s' ∧ w.Misses front ∧ ∀ k ∈ kind, allowed k :=
  h.lays_behind (show s.passed = [].reverse ++ s.passed from rfl) rfl hcourse

end Passes

namespace Rule

variable {α β : Type}

/-- Wherever the rule ends, it has passed over no wanted directive that is not hidden. -/
def PassesAt (w : Watch) (allowed : NodeKind → Prop) (r : Rule α) (s : ReadState) : Prop :=
  Ends True r s (fun _ s' => Passes w allowed s s') fun _ s' => Passes w allowed s s'

namespace PassesAt

theorem «from» {r : Rule α} (h : PassesAt w allowed r s') (hp : Passes w allowed s s') :
    Ends True r s' (fun _ s'' => Passes w allowed s s'') fun _ s'' => Passes w allowed s s'' :=
  h.mono (fun _ _ h => hp.trans h) fun _ _ h => hp.trans h

theorem bind {r : Rule β} {f : β → Rule α} (h : PassesAt w allowed r s)
    (hf : ∀ b s', PassesAt w allowed (f b) s') : PassesAt w allowed (r >>= f) s :=
  ends_bind.mpr (h.mono (fun b s' hp => (hf b s').from hp) fun _ _ hp => hp)

theorem pure (a : α) (s : ReadState) : PassesAt w allowed (pure a) s := .refl s

theorem state {f : ReadState → Rule α} (h : PassesAt w allowed (f s) s) :
    PassesAt w allowed (Rule.state >>= f) s :=
  ends_bind.mpr h

theorem map {r : Rule β} (f : β → α) (h : PassesAt w allowed r s) :
    PassesAt w allowed (f <$> r) s :=
  ends_map.mpr h

theorem ite {c : Prop} [Decidable c] {r r' : Rule α} (h : c → PassesAt w allowed r s)
    (h' : ¬ c → PassesAt w allowed r' s) : PassesAt w allowed (if c then r else r') s :=
  ends_ite.mpr ⟨h, h'⟩

theorem breakWith (fault : Fault) (s : ReadState) :
    PassesAt w allowed (breakWith fault : Rule α) s := trivial

theorem modify {change : ReadState → ReadState} (h : Passes w allowed s (change s)) :
    PassesAt w allowed (Rule.modify change) s := h

theorem setKind {kind : NodeKind} (h : allowed kind) (s : ReadState) :
    PassesAt w allowed (setKind kind) s := by
  refine ⟨⟨[], rfl, .of_not_wanted (by simp)⟩, some kind, [], fun n outer ho => ?_, ?_⟩
  · simp [NodeStack.update, ho, Node.grown]
  · intro k hk
    rwa [← Option.some.inj hk]

/-! ## Tokens -/

theorem advance (h : w.wanted s.current = false) : PassesAt w allowed advance s := Passes.advance h

theorem eat {kind : TokenKind} (h : kind.isAtKeyword = false) (s : ReadState) :
    PassesAt w allowed (eat kind) s :=
  ends_eat.mpr ⟨fun hc => .advance (by rw [hc]; exact w.not_wanted h), fun _ => .refl s⟩

theorem expect {kind : TokenKind} (h : kind.isAtKeyword = false) (cause : SyntaxError.Cause)
    (s : ReadState) : PassesAt w allowed (expect kind cause) s :=
  ends_expect.mpr ⟨fun hc => .advance (by rw [hc]; exact w.not_wanted h), fun _ => .refl s⟩

theorem identifier (cause : SyntaxError.Cause) (s : ReadState) :
    PassesAt w allowed (identifier cause) s :=
  ends_identifier.mpr ⟨fun hc => .advance (by rw [hc]; exact w.not_wanted rfl), fun _ => .refl s⟩

/-! ## Nodes -/

/-- Leaves do not fail. -/
theorem done_leaf (kind : NodeKind) (span : Span) (s : ReadState) :
    Ends True (Rule.leaf kind span) s (fun _ s' => Passes w allowed s s') fun _ _ => False := by
  unfold Ends
  rcases AgreeAt.leaf_cases kind span s with ⟨fault, hr⟩ | ⟨nodes, hr, hgrows⟩
  · rw [hr]
    trivial
  · rw [hr]
    exact ⟨⟨[], rfl, .of_not_wanted (by simp)⟩, none, _, hgrows, by simp⟩

theorem done_leafFrom (kind : NodeKind) (start : Nat) (s : ReadState) :
    Ends True (Rule.leafFrom kind start) s (fun _ s' => Passes w allowed s s') fun _ _ => False := by
  refine ends_bind.mpr (ends_state.mpr ?_)
  cases Span.between start s.lastEnd with
  | error fault => trivial
  | ok span => exact done_leaf kind span s

theorem leaf (kind : NodeKind) (span : Span) (s : ReadState) :
    PassesAt w allowed (leaf kind span) s :=
  (done_leaf kind span s).mono (fun _ _ h => h) fun _ _ h => h.elim

theorem leafFrom (kind : NodeKind) (start : Nat) (s : ReadState) :
    PassesAt w allowed (leafFrom kind start) s :=
  (done_leafFrom kind start s).mono (fun _ _ h => h) fun _ _ h => h.elim

/-- What a rule makes of a node of its own does not matter outside. -/
theorem withNode {r : Rule α} {kind : NodeKind} {inner : NodeKind → Prop}
    (h : PassesAt w inner r { s with nodes := s.nodes.begin kind }) :
    PassesAt w allowed (withNode kind r) s := by
  have close : ∀ {t u : ReadState}, Passes w inner { s with nodes := s.nodes.begin kind } t →
      closeNode s.currentSpan.start s.position s.nodes.depth t = .ok u → Passes w allowed s u := by
    rintro t u ⟨htokens, _, cs, hgrows, _⟩ hclose
    obtain ⟨⟨range, hnode⟩, hu⟩ := AgreeAt.grows_close hgrows hclose
    exact ⟨by rw [hu]; exact htokens, none, _, hnode, by simp⟩
  exact ends_withNode h (fun _ _ _ ht hclose => close ht hclose) fun _ _ _ ht hclose =>
    close ht hclose

theorem recover {r : Rule α} (h : PassesAt w allowed r s) {sync : TokenKind → Bool}
    (hsync : ∀ kind, w.wanted kind = true → sync kind = true) :
    PassesAt w allowed (recover r sync) s := by
  unfold PassesAt Ends at h ⊢
  unfold Rule.recover
  cases hr : r s with
  | done a t => rw [hr] at h; exact h
  | failed e t => rw [hr] at h; exact (h.trans (.report t e)).trans (.skipUntil hsync _)
  | broken fault => trivial

/-! ## Lists -/

theorem delimiter (shown : Bool) {kind : TokenKind} (h : kind.isAtKeyword = false)
    (cause : SyntaxError.Cause) (s : ReadState) :
    PassesAt w allowed (delimiter shown kind cause) s := by
  refine (expect h cause s).bind fun span s₁ => ?_
  cases shown with
  | true => exact leaf _ span s₁
  | false => exact pure () s₁

theorem splitCloser (closing : TokenKind) (s : ReadState) :
    PassesAt w allowed (splitCloser closing) s :=
  Ends.splitCloser (fun _ => .refl s) fun _ _ _ => .of_eq rfl rfl

theorem listItems {shown : Bool} {closing : TokenKind} {item : Rule α}
    (hitem : ∀ s, PassesAt w allowed item s) (fuel : Nat) :
    ∀ due items (s : ReadState), PassesAt w allowed (listItems shown closing item fuel due items) s := by
  induction fuel with
  | zero => exact fun _ _ s => breakWith _ s
  | succ fuel ih =>
    intro due items s
    unfold Rule.listItems
    refine (splitCloser closing s).bind fun _ s₁ => state (ite (fun _ => pure _ s₁) fun _ => ?_)
    refine (hitem s₁).bind fun a s₂ => state (ite (fun hcomma => ?_) fun _ => pure _ s₂)
    refine (advance (by rw [hcomma]; exact w.not_wanted rfl)).bind fun span s₃ => ?_
    cases shown with
    | true => exact (leaf _ span s₃).bind fun _ s₄ => ih _ _ s₄
    | false => exact ih _ _ s₃

theorem list {shown : Bool} {opening closing : TokenKind} {item : Rule α}
    (hopening : opening.isAtKeyword = false) (hclosing : closing.isAtKeyword = false)
    (hitem : ∀ s, PassesAt w allowed item s) (s : ReadState) :
    PassesAt w allowed (list shown opening closing item) s := by
  refine (delimiter shown hopening _ s).bind fun _ s₁ => state ?_
  refine (listItems hitem _ false #[] s₁).bind fun found s₂ => ?_
  have last : ∀ s₃, PassesAt w allowed (AgreeAt.listEnd shown closing found.1) s₃ := fun s₃ =>
    (splitCloser closing s₃).bind fun _ s₄ =>
      (delimiter shown hclosing _ s₄).bind fun _ s₅ => pure _ s₅
  refine ite (fun _ => state (ite (fun _ => ?_) fun _ => ?_)) fun _ => last s₂
  · exact bind (r := failHere _) (.refl s₂) fun _ s₃ => last s₃
  · exact bind (r := Rule.report _) (.report s₂ _) fun _ s₃ => last s₃

end PassesAt

end Rule

end HeaderBridge
