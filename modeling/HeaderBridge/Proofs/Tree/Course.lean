/-
  What the reading of a header does to the state of a parser. `Course s s'` has the steps of a
  passage without those that undo a reading, which headers never do, and it builds a node only
  around tokens that were read, so many that at most two nodes are made for each token
  (`Course.nextId_le`). So whatever every such step keeps holds behind the rules of a header on
  every text, on success and on failure. A failure is noticed at the current token and handed on
  from there, so an error is only ever noted where it was noticed. Here a rule may break: that it
  does not is another matter, and no fuel is followed.
-/
import HeaderBridge.Proofs.Reading.Outcome
import HeaderBridge.Proofs.Reading.Passage

namespace HeaderBridge

/-- Reading ends where the last token ends that was read. -/
theorem ReadState.lastEnd_eq {s : ReadState} {front passed : List Token}
    (h : s.passed = front.reverse ++ passed) (hf : front ≠ []) :
    s.lastEnd = (front.getLast hf).span.stop := by
  rw [← List.dropLast_concat_getLast hf, List.reverse_append] at h
  unfold ReadState.lastEnd
  rw [h]
  rfl

/-- The error was noticed at the current token and not noted yet. -/
def SyntaxError.IsAt (e : SyntaxError) (s : ReadState) : Prop := ∃ cause, e = s.errorHere cause

theorem ReadState.errorHere_isAt (s : ReadState) (cause : SyntaxError.Cause) :
    (s.errorHere cause).IsAt s := ⟨cause, rfl⟩

/-- Something was read, and fewer nodes were made than two for each token. -/
structure Sparing (s s' : ReadState) : Prop where
  moved : s.position < s'.position
  spare : s'.nodes.nextId + 2 * s.position < s.nodes.nextId + 2 * s'.position

/-- The second state is reached from the first by the steps of which the rules of a header are
    made. -/
inductive Course : ReadState → ReadState → Prop where
  | refl (s : ReadState) : Course s s
  | trans {s s' s'' : ReadState} (first : Course s s') (second : Course s' s'') : Course s s''
  | read {s : ReadState} {t : Token} {rest : List Token} (tokens : s.rest = t :: rest) :
      Course s (s.past [t] rest)
  | halve {s : ReadState} {t a b : Token} {rest : List Token} (tokens : s.rest = t :: rest)
      (halves : Halves t a b) : Course s { s with rest := a :: b :: rest }
  | report {s : ReadState} {e : SyntaxError} (here : e.IsAt s) : Course s (s.report e)
  | enter (s : ReadState) (inOptional : Bool) : Course s { s with inOptional }
  | setKind (s : ReadState) (kind : NodeKind) :
      Course s { s with nodes := s.nodes.update fun n => { n with kind } }
  /-- A leaf over tokens that are read for it. -/
  | leaf {s : ReadState} {front rest : List Token} {kind : NodeKind} {span : Span}
      {nodes : NodeStack} (tokens : s.rest = front ++ rest) (covers : Covers span front)
      (attached : (s.nodes.fresh kind).2.attach
        { (s.nodes.fresh kind).1 with range := some span } = .ok nodes) :
      Course s { s.past front rest with nodes }
  /-- A node around a course on which something was read and that can spare a number for it. -/
  | node {s s₁ s₂ : ReadState} {kind : NodeKind}
      (inner : Course { s with nodes := s.nodes.begin kind } s₁)
      (sparing : Sparing { s with nodes := s.nodes.begin kind } s₁)
      (closed : Rule.closeNode s.currentSpan.start s.position s.nodes.depth s₁ = .ok s₂) :
      Course s s₂

/-- A course on which something was read and that can spare a number. -/
def Moving (s s' : ReadState) : Prop := Course s s' ∧ Sparing s s'

namespace Course

variable {s s' s'' : ReadState}

/-- A leaf takes one number, and a token at least. -/
theorem sparing_leaf {front rest : List Token} {kind : NodeKind} {span : Span} {nodes : NodeStack}
    (covers : Covers span front) (attached : (s.nodes.fresh kind).2.attach
      { (s.nodes.fresh kind).1 with range := some span } = .ok nodes) :
    Sparing s { s.past front rest with nodes } := by
  have hlen : 0 < front.length := List.length_pos_iff.mpr covers.ne_nil
  obtain ⟨_, _, _, rfl⟩ := NodeStack.attach_cases attached
  constructor
  · simp only [ReadState.position, ReadState.past_passed, List.length_append, List.length_reverse]
    omega
  · simp only [ReadState.position, ReadState.past_passed, List.length_append, List.length_reverse,
      NodeStack.fresh]
    omega

theorem passage (h : Course s s') : Passage s s' := by
  induction h with
  | refl s => exact .refl s
  | trans _ _ ih ih' => exact .trans ih ih'
  | read tokens => exact .read tokens
  | halve tokens halves => exact .halve tokens halves
  | report here => exact .report _ _
  | enter s inOptional => exact .enter s inOptional
  | setKind s kind => exact .setKind s kind
  | leaf tokens covers attached => exact .leaf tokens covers attached
  | node _ _ closed ih => exact .node ih closed

theorem position_le (h : Course s s') : s.position ≤ s'.position := h.passage.forward.position_le

/-- At most two nodes are made for each token that is read. -/
theorem nextId_le (h : Course s s') :
    s'.nodes.nextId + 2 * s.position ≤ s.nodes.nextId + 2 * s'.position := by
  induction h with
  | trans _ _ ih ih' => omega
  | read tokens =>
    simp only [ReadState.position, ReadState.past_passed, ReadState.past_nodes, List.length_append,
      List.length_reverse, List.length_singleton]
    omega
  | report here =>
    unfold ReadState.report
    split <;> exact Nat.le_refl _
  | setKind s kind =>
    rw [NodeStack.nextId_update]
    exact Nat.le_refl _
  | leaf tokens covers attached => exact Nat.le_of_lt (sparing_leaf covers attached).spare
  | @node s s₁ _ kind _ sparing closed _ =>
    obtain ⟨_, _, _, _, _, _, _, rfl⟩ := Rule.closeNode_cases closed
    have hspare : s₁.nodes.nextId + 2 * s.position < s.nodes.nextId + 1 + 2 * s₁.position :=
      sparing.spare
    change s₁.nodes.nextId + 2 * s.position ≤ s.nodes.nextId + 2 * s₁.position
    omega
  | _ => exact Nat.le_refl _

theorem of_reads (h : s.Reads s') : Course s s' := by
  obtain ⟨front, rest, hr, rfl⟩ := h
  induction front generalizing s with
  | nil => rw [← show s.rest = rest from hr]; exact .refl s
  | cons t front ih =>
    have hnext := ih (s := s.past [t] (front ++ rest)) rfl
    rw [ReadState.past_past] at hnext
    exact .trans (.read hr) hnext

theorem advance (s : ReadState) : Course s s.advance := .of_reads (.advance s)

theorem moving_advance (h : s.current ≠ .endOfFile) : Moving s s.advance := by
  obtain ⟨t, rest, hr, _⟩ := ReadState.exists_cons_of_current rfl h
  rw [ReadState.advance_of_cons hr]
  exact ⟨.read hr, by simp, by simp⟩

end Course

namespace Moving

variable {s s' s'' : ReadState}

theorem trans_left (h : Moving s s') (h' : Course s' s'') : Moving s s'' :=
  ⟨h.1.trans h', Nat.lt_of_lt_of_le h.2.moved h'.position_le, by
    have hspare := h.2.spare
    have hrest := h'.nextId_le
    omega⟩

end Moving

namespace Rule

variable {α β : Type} {s s' : ReadState}

/-- Wherever the rule ends, a course leads there, and what it fails with was noticed there. -/
def CourseAt (r : Rule α) (s : ReadState) : Prop :=
  Ends True r s (fun _ s' => Course s s') (fun e s' => Course s s' ∧ e.IsAt s')

/-- The same, with something read and a number to spare. -/
def MovingAt (r : Rule α) (s : ReadState) : Prop :=
  Ends True r s (fun _ s' => Moving s s') (fun e s' => Moving s s' ∧ e.IsAt s')

theorem course_of_moving {r : Rule α}
    (h : Ends True r s' (fun _ s'' => Moving s s'') (fun e s'' => Moving s s'' ∧ e.IsAt s'')) :
    Ends True r s' (fun _ s'' => Course s s'') (fun e s'' => Course s s'' ∧ e.IsAt s'') :=
  h.mono (fun _ _ h => h.1) fun _ _ h => h.imp_left And.left

theorem MovingAt.courseAt {r : Rule α} (h : MovingAt r s) : CourseAt r s := course_of_moving h

theorem CourseAt.from {r : Rule α} (h : CourseAt r s') (hp : Course s s') :
    Ends True r s' (fun _ s'' => Course s s'') (fun e s'' => Course s s'' ∧ e.IsAt s'') :=
  h.mono (fun _ _ h => hp.trans h) (fun _ _ h => h.imp_left hp.trans)

theorem CourseAt.bind {r : Rule β} {f : β → Rule α} (h : CourseAt r s)
    (hf : ∀ b s', CourseAt (f b) s') : CourseAt (r >>= f) s :=
  ends_bind.mpr (h.mono (fun b s' hp => (hf b s').from hp) fun _ _ hp => hp)

theorem MovingAt.bind {r : Rule β} {f : β → Rule α} (h : MovingAt r s)
    (hf : ∀ b s', CourseAt (f b) s') : MovingAt (r >>= f) s :=
  ends_bind.mpr (h.mono
    (fun b s' hp => (hf b s').mono (fun _ _ h => hp.trans_left h) fun _ _ h =>
      h.imp_left hp.trans_left)
    fun _ _ hp => hp)

theorem CourseAt.pure (a : α) (s : ReadState) : CourseAt (pure a) s := .refl s

theorem CourseAt.state {f : ReadState → Rule α} (h : CourseAt (f s) s) :
    CourseAt (state >>= f) s :=
  ends_bind.mpr h

theorem CourseAt.map {r : Rule β} (f : β → α) (h : CourseAt r s) : CourseAt (f <$> r) s :=
  ends_map.mpr h

theorem CourseAt.ite {c : Prop} [Decidable c] {r r' : Rule α} (h : c → CourseAt r s)
    (h' : ¬ c → CourseAt r' s) : CourseAt (if c then r else r') s :=
  ends_ite.mpr ⟨h, h'⟩

theorem CourseAt.modify {f : ReadState → ReadState} (h : Course s (f s)) :
    CourseAt (modify f) s := h

theorem CourseAt.breakWith (f : Fault) (s : ReadState) : CourseAt (breakWith f : Rule α) s :=
  trivial

theorem CourseAt.setKind (kind : NodeKind) (s : ReadState) : CourseAt (setKind kind) s :=
  CourseAt.modify (.setKind s kind)

/-! ## Tokens -/

theorem CourseAt.advance (s : ReadState) : CourseAt advance s := Course.advance s

theorem CourseAt.eat (kind : TokenKind) (s : ReadState) : CourseAt (eat kind) s :=
  ends_eat.mpr ⟨fun _ => .advance s, fun _ => .refl s⟩

theorem CourseAt.expect (kind : TokenKind) (cause : SyntaxError.Cause) (s : ReadState) :
    CourseAt (expect kind cause) s :=
  ends_expect.mpr ⟨fun _ => .advance s, fun _ => ⟨.refl s, s.errorHere_isAt cause⟩⟩

theorem CourseAt.identifier (cause : SyntaxError.Cause) (s : ReadState) :
    CourseAt (identifier cause) s :=
  ends_identifier.mpr ⟨fun _ => .advance s, fun _ => ⟨.refl s, s.errorHere_isAt cause⟩⟩

/-! ## Leaves -/

/-- A leaf over tokens that were read for it. -/
theorem moving_leaf {front rest : List Token} {span : Span} (hr : s.rest = front ++ rest)
    (hc : Covers span front) (kind : NodeKind) :
    Ends True (leaf kind span) (s.past front rest) (fun _ s' => Moving s s')
      (fun e s' => Moving s s' ∧ e.IsAt s') := by
  exact ends_leaf.mpr fun nodes hn => ⟨.leaf hr hc hn, Course.sparing_leaf hc hn⟩

/-- A leaf from a token to where reading came behind it. -/
theorem moving_leafFrom {t : Token} {rest : List Token} (ht : s.rest = t :: rest)
    (hr : s.advance.Reads s') (kind : NodeKind) :
    Ends True (leafFrom kind t.span.start) s' (fun _ s'' => Moving s s'')
      (fun e s'' => Moving s s'' ∧ e.IsAt s'') := by
  rw [ReadState.advance_of_cons ht] at hr
  obtain ⟨front, rest', he, rfl⟩ := hr
  rw [ReadState.past_rest] at he
  rw [ReadState.past_past, List.singleton_append]
  have hall : s.rest = t :: front ++ rest' := by rw [ht, he]; rfl
  unfold leafFrom
  refine ends_bind.mpr (ends_state.mpr ?_)
  unfold Span.between
  split
  · next span hspan =>
    have hc : Covers span (t :: front) := by
      split at hspan
      · cases hspan
        exact ⟨List.cons_ne_nil t front, rfl, ReadState.lastEnd_eq rfl (List.cons_ne_nil t front)⟩
      · cases hspan
    exact moving_leaf hall hc kind
  · exact trivial

/-- A token that is read for a leaf of its own. -/
theorem moving_advance_leaf (hc : s.current ≠ .endOfFile) (kind : NodeKind) :
    Ends True (leaf kind s.currentSpan) s.advance (fun _ s' => Moving s s')
      (fun e s' => Moving s s' ∧ e.IsAt s') := by
  obtain ⟨t, rest, hr, _⟩ := ReadState.exists_cons_of_current rfl hc
  rw [ReadState.advance_of_cons hr, ReadState.currentSpan_of_cons hr]
  exact moving_leaf hr ⟨by simp, rfl, rfl⟩ kind

theorem MovingAt.keywordHere (hc : s.current ≠ .endOfFile) : MovingAt keywordHere s :=
  moving_advance_leaf hc _

theorem MovingAt.punctuationHere (hc : s.current ≠ .endOfFile) : MovingAt punctuationHere s :=
  moving_advance_leaf hc _

/-- Behind a token of a kind a leaf over it follows; without one nothing was done. -/
theorem CourseAt.expectLeaf {kind : TokenKind} (hk : kind ≠ .endOfFile) (cause : SyntaxError.Cause)
    (node : NodeKind) (s : ReadState) :
    CourseAt (Rule.expect kind cause >>= fun span => leaf node span) s := by
  refine ends_bind.mpr (ends_expect.mpr ⟨fun h => ?_, fun _ => ⟨.refl s, s.errorHere_isAt cause⟩⟩)
  exact course_of_moving (moving_advance_leaf (by rw [h]; exact hk) node)

theorem CourseAt.delimiter (shown : Bool) {kind : TokenKind} (hk : kind ≠ .endOfFile)
    (cause : SyntaxError.Cause) (s : ReadState) : CourseAt (delimiter shown kind cause) s := by
  unfold Rule.delimiter
  cases shown with
  | true => exact CourseAt.expectLeaf hk cause _ s
  | false => exact (CourseAt.expect kind cause s).bind fun _ s' => CourseAt.pure () s'

/-- A delimiter that stands there is read. -/
theorem MovingAt.delimiter (shown : Bool) {kind : TokenKind} (hk : kind ≠ .endOfFile)
    (hc : s.current = kind) (cause : SyntaxError.Cause) :
    MovingAt (delimiter shown kind cause) s := by
  have hne : s.current ≠ .endOfFile := by rw [hc]; exact hk
  unfold Rule.delimiter
  refine ends_bind.mpr (ends_expect.mpr ⟨fun _ => ?_, fun h => absurd hc h⟩)
  cases shown with
  | true => exact moving_advance_leaf hne _
  | false => exact Course.moving_advance hne

/-! ## Recovering and building -/

theorem CourseAt.recover {r : Rule α} (h : CourseAt r s) (sync : TokenKind → Bool) :
    CourseAt (recover r sync) s := by
  have hk := h
  unfold CourseAt Ends Rule.recover
  unfold CourseAt Ends at hk
  cases hr : r s with
  | done a s' => rw [hr] at hk; exact hk
  | failed e s' =>
    rw [hr] at hk
    exact (hk.1.trans (.report hk.2)).trans (.of_reads (.skipUntil sync _))
  | broken f => trivial

/-- A node takes the number that the rule inside it can spare. -/
theorem MovingAt.withNode {r : Rule α} {kind : NodeKind}
    (h : MovingAt r { s with nodes := s.nodes.begin kind }) : CourseAt (withNode kind r) s := by
  -- Closing keeps what was read, whether the rule succeeded or failed, and the token that a failure
  -- was noticed at stays the current one.
  have close : ∀ {s₁ s₂ : ReadState}, Moving { s with nodes := s.nodes.begin kind } s₁ →
      closeNode s.currentSpan.start s.position s.nodes.depth s₁ = .ok s₂ →
        Course s s₂ ∧ ∀ e : SyntaxError, e.IsAt s₁ → e.IsAt s₂ := by
    intro s₁ s₂ hmoving hclosed
    have hsame : ∀ e : SyntaxError, e.IsAt s₁ → e.IsAt s₂ := by
      obtain ⟨_, _, _, _, _, _, _, rfl⟩ := closeNode_cases hclosed
      exact fun _ h => h
    exact ⟨.node hmoving.1 hmoving.2 hclosed, hsame⟩
  have hk := h
  unfold MovingAt Ends at hk
  unfold CourseAt Ends Rule.withNode
  cases hr : r { s with nodes := s.nodes.begin kind } with
  | broken f => trivial
  | done a s₁ =>
    rw [hr] at hk
    simp only []
    cases hc : closeNode s.currentSpan.start s.position s.nodes.depth s₁ with
    | error f => trivial
    | ok s₂ => exact (close hk hc).1
  | failed e s₁ =>
    rw [hr] at hk
    simp only []
    cases hc : closeNode s.currentSpan.start s.position s.nodes.depth s₁ with
    | error f => trivial
    | ok s₂ =>
      obtain ⟨hcourse, hat⟩ := close hk.1 hc
      exact ⟨hcourse, hat e hk.2⟩

/-! ## Lists -/

theorem CourseAt.splitCloser (closing : TokenKind) (s : ReadState) :
    CourseAt (splitCloser closing) s :=
  Ends.splitCloser (fun _ => .refl s) fun _ hr hv => .halve hr hv

theorem CourseAt.listItems {shown : Bool} {closing : TokenKind} {item : Rule α}
    (hitem : ∀ s, CourseAt item s) (fuel : Nat) :
    ∀ due items (s : ReadState), CourseAt (listItems shown closing item fuel due items) s := by
  induction fuel with
  | zero => intro _ _ _; exact trivial
  | succ fuel ih =>
    intro due items s
    unfold Rule.listItems
    refine (CourseAt.splitCloser closing s).bind fun _ s₁ => .state (.ite ?_ fun _ => ?_)
    · exact fun _ => CourseAt.pure _ s₁
    refine (hitem s₁).bind fun a s₂ => .state (.ite (fun hcomma => ?_) fun _ => CourseAt.pure _ s₂)
    have hne : s₂.current ≠ .endOfFile := by rw [hcomma]; decide
    refine ends_bind.mpr (ends_advance.mpr ?_)
    cases shown with
    | true =>
      refine ends_bind.mpr ((moving_advance_leaf hne _).mono (fun _ s₃ h₃ => ?_) fun _ _ h =>
        h.imp_left And.left)
      exact (ih _ _ s₃).from h₃.1
    | false => exact (ih _ _ _).from (Course.advance s₂)

/-- What stands behind the opening delimiter of a list. -/
theorem CourseAt.listRest {shown : Bool} {closing : TokenKind} {item : Rule α}
    (hc : closing ≠ .endOfFile) (hitem : ∀ s, CourseAt item s) (s : ReadState) : CourseAt (do
      let (items, due) ← Rule.listItems shown closing item ((← Rule.state).weight + 1) false #[]
      if due then
        let s ← Rule.state
        if s.speculating then failHere .itemAfterComma
        else Rule.report (s.errorHere .itemAfterComma)
      Rule.splitCloser closing
      Rule.delimiter shown closing (.listClosing closing)
      return items.toList) s := by
  refine .state ((CourseAt.listItems hitem _ false #[] s).bind fun found s₁ => ?_)
  have last : ∀ s₂, CourseAt (do
      Rule.splitCloser closing
      Rule.delimiter shown closing (.listClosing closing)
      return found.1.toList) s₂ := fun s₂ =>
    (CourseAt.splitCloser closing s₂).bind fun _ s₃ =>
      (CourseAt.delimiter shown hc _ s₃).bind fun _ s₄ => CourseAt.pure _ s₄
  refine .ite (fun _ => .state (.ite (fun _ => ?_) fun _ => ?_)) fun _ => last s₁
  · exact CourseAt.bind ⟨Course.refl s₁, s₁.errorHere_isAt _⟩ fun _ s₂ => last s₂
  · exact CourseAt.bind (Course.report (s₁.errorHere_isAt _)) fun _ s₂ => last s₂

theorem CourseAt.list {shown : Bool} {opening closing : TokenKind} {item : Rule α}
    (ho : opening ≠ .endOfFile) (hc : closing ≠ .endOfFile) (hitem : ∀ s, CourseAt item s)
    (s : ReadState) : CourseAt (list shown opening closing item) s :=
  (CourseAt.delimiter shown ho _ s).bind fun _ s₁ => CourseAt.listRest hc hitem s₁

/-- A list whose opening delimiter stands there reads it. -/
theorem MovingAt.list {shown : Bool} {opening closing : TokenKind} {item : Rule α}
    (ho : opening ≠ .endOfFile) (hc : closing ≠ .endOfFile) (hs : s.current = opening)
    (hitem : ∀ s, CourseAt item s) : MovingAt (list shown opening closing item) s :=
  (MovingAt.delimiter shown ho hs _).bind fun _ s₁ => CourseAt.listRest hc hitem s₁

end Rule

end HeaderBridge
