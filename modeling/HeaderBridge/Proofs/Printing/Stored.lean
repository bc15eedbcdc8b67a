/-
  The types that a tree stores. A readable type is one that the grammar of types has a spelling for:
  its names are words of the source, of which only a C type has several, no name is a qualifier, and
  `id` is never a plain name. What a rule is to keep is that every type in the nodes built so far
  is readable and every identifier still to be read is a word; so every type of a finished tree
  is readable, whatever the source, with errors or without.
-/
import HeaderBridge.Objc.Parse
import HeaderBridge.Proofs.Agreement.Combinators
import HeaderBridge.Proofs.Lexical.Spelling
import HeaderBridge.Proofs.Tree.WellFormed

namespace HeaderBridge

/-! ## Readable types -/

namespace Grammar

/-- The word would be read as a qualifier of a type. -/
def isQualifier (word : String) : Bool :=
  (Nullability.ofWord? word).isSome || silentQualifiers.contains word

theorem startsWithQualifier_cons (t : Token) (ts : List Token) :
    startsWithQualifier (t :: ts) = (t.kind == .identifier && isQualifier t.text) := rfl

theorem startsWithQualifier_of_word {t : Token} (h : isQualifier t.text = false) (ts : List Token) :
    startsWithQualifier (t :: ts) = false := by
  rw [startsWithQualifier_cons, h, Bool.and_false]

/-- Words that go on the name of a type behind the word `last`. -/
inductive FollowsWord : String → List String → Prop where
  | nil {last : String} : FollowsWord last []
  | cons {last word : String} {more : List String} (opens : last ∈ openingWords)
      (follows : word ∈ followingWords) (rest : FollowsWord word more) : FollowsWord last (word :: more)

/-- A word that is no qualifier, with the words that go on it. -/
def IsBaseName (name : String) : Prop :=
  ∃ first more, IsWord first.toList ∧ isQualifier first = false ∧ FollowsWord first more ∧
    name = " ".intercalate (first :: more)

theorem follows_nameWords (last : String) (ts : List Token) : FollowsWord last (nameWords last ts) := by
  induction ts generalizing last with
  | nil => exact .nil
  | cons t ts ih =>
    unfold nameWords
    split
    · next h =>
      simp only [Bool.and_eq_true, List.contains_iff_mem] at h
      exact .cons h.1.1 h.2 (ih t.text)
    · exact .nil

end Grammar

namespace ObjcType

open Grammar (IsBaseName)

/-- A type with names as the grammar of types reads them. -/
inductive Readable : ObjcType → Prop where
  | named {name : String} (isName : IsBaseName name) (other : name ≠ "id") : Readable (.named name)
  | id {protocols : List String} (words : ∀ p ∈ protocols, IsWord p.toList) :
      Readable (.id protocols)
  | generic {name : String} {arguments : List ObjcType} (isName : IsBaseName name)
      (other : name ≠ "id") (each : ∀ a ∈ arguments, Readable a) :
      Readable (.generic name arguments)
  | pointer {target : ObjcType} (readable : Readable target) : Readable (.pointer target)

end ObjcType

/-! ## Types in a tree -/

/-- The types of the parameters that a selector names. -/
def Selector.types : Selector → List TypeName
  | .simple _ => []
  | .keywords parts => parts.filterMap (·.type)

/-- The types in the fields of a node. -/
def NodeKind.typeNames : NodeKind → List TypeName
  | .property data => data.type.value?.toList
  | .method data => data.returns.toList ++ data.selector.value?.toList.flatMap Selector.types
  | _ => []

/-- The types in a tree, in the order of the nodes. -/
def Header.typeNames (h : Header) : List TypeName :=
  h.root.sequence.flatMap (·.kind.typeNames)

/-- Every type in the fields is readable. -/
def NodeKind.Readable (kind : NodeKind) : Prop := ∀ t ∈ kind.typeNames, t.type.Readable

/-- Every type in the node and below it is readable. -/
def Node.Readable (n : Node) : Prop := ∀ m ∈ n.sequence, m.kind.Readable

theorem NodeKind.Readable.of_nil {kind : NodeKind} (h : kind.typeNames = []) : kind.Readable := by
  unfold NodeKind.Readable
  rw [h]
  exact List.forall_mem_nil _

theorem Node.readable_iff (n : Node) :
    n.Readable ↔ n.kind.Readable ∧ ∀ child ∈ n.children, child.Readable := by
  have hbelow : ∀ ns : List Node, (∀ m ∈ sequenceAll ns, m.kind.Readable) ↔
      ∀ child ∈ ns, child.Readable := by
    intro ns
    induction ns with
    | nil => simp [sequenceAll]
    | cons n ns ih => rw [sequenceAll, List.forall_mem_append, ih, List.forall_mem_cons, Readable]
  rw [Readable, sequence_eq, List.forall_mem_cons, hbelow]

/-- The node is readable whatever its number and its range. -/
theorem Node.Readable.of_eq {n m : Node} (h : n.Readable) (hkind : m.kind = n.kind)
    (hchildren : m.children = n.children) : m.Readable := by
  rw [readable_iff] at h ⊢
  rw [hkind, hchildren]
  exact h

theorem Node.Readable.withChild {n child : Node} (h : n.Readable) (hchild : child.Readable) :
    (NodeStack.withChild n child).Readable := by
  obtain ⟨hkind, hchildren⟩ := (readable_iff n).mp h
  refine (readable_iff _).mpr ⟨hkind, List.forall_mem_append.mpr ⟨hchildren, ?_⟩⟩
  exact List.forall_mem_singleton.mpr hchild

theorem Node.readable_leaf {kind : NodeKind} (h : kind.Readable) (id : Nat) (range : Option Span) :
    Node.Readable ⟨id, kind, range, []⟩ :=
  (readable_iff _).mpr ⟨h, List.forall_mem_nil _⟩

/-- Every identifier that is still to be read is a word, and every type in the open nodes is
    readable. -/
structure ReadState.Tidy (s : ReadState) : Prop where
  words : ∀ t ∈ s.rest, t.kind = .identifier → IsWord t.text.toList
  nodes : ∀ n ∈ s.nodes.opened, n.Readable

namespace ReadState.Tidy

variable {s s' : ReadState}

theorem of_rest (h : s.Tidy) (hrest : ∀ t ∈ s'.rest, t ∈ s.rest) (hnodes : s'.nodes = s.nodes) :
    s'.Tidy :=
  ⟨fun t ht => h.words t (hrest t ht), by rw [hnodes]; exact h.nodes⟩

theorem of_nodes (h : s.Tidy) {nodes : NodeStack} (hnodes : ∀ n ∈ nodes.opened, n.Readable) :
    ReadState.Tidy { s with nodes } :=
  ⟨h.words, hnodes⟩

theorem of_reads (h : s.Tidy) (hreads : s.Reads s') : s'.Tidy := by
  obtain ⟨front, rest, hr, rfl⟩ := hreads
  exact h.of_rest (fun t ht => by rw [hr]; exact List.mem_append_right front ht) rfl

theorem advance (h : s.Tidy) : s.advance.Tidy := h.of_reads (.advance s)

theorem report (h : s.Tidy) (e : SyntaxError) : (s.report e).Tidy := by
  unfold ReadState.report
  split
  · exact h
  · exact ⟨h.words, h.nodes⟩

theorem skipUntil (h : s.Tidy) (stop : TokenKind → Bool) : (s.skipUntil stop).Tidy :=
  h.of_reads (.skipUntil stop s)

theorem currentText (h : s.Tidy) (hc : s.current = .identifier) : IsWord s.currentText.toList := by
  obtain ⟨t, rest, hr, hkind⟩ := ReadState.exists_cons_of_current hc (by decide)
  rw [currentText_of_cons hr]
  exact h.words t (hr ▸ List.mem_cons_self) hkind

theorem begin (h : s.Tidy) {kind : NodeKind} (hkind : kind.Readable) :
    ReadState.Tidy { s with nodes := s.nodes.begin kind } :=
  h.of_nodes (List.forall_mem_cons.mpr ⟨Node.readable_leaf hkind _ _, h.nodes⟩)

theorem attach (h : s.Tidy) {nodes nodes' : NodeStack} {child : Node} (hchild : child.Readable)
    (hattach : nodes.attach child = .ok nodes') (hopened : nodes.opened = s.nodes.opened) :
    ReadState.Tidy { s with nodes := nodes' } := by
  refine h.of_nodes ?_
  have hnodes := h.nodes
  obtain ⟨n, outer, ho, rfl⟩ := NodeStack.attach_cases hattach
  rw [← hopened, ho] at hnodes
  obtain ⟨hn, houter⟩ := List.forall_mem_cons.mp hnodes
  exact List.forall_mem_cons.mpr ⟨hn.withChild hchild, houter⟩

theorem setKind (h : s.Tidy) {kind : NodeKind} (hkind : kind.Readable) :
    ReadState.Tidy { s with nodes := s.nodes.update fun n => { n with kind } } := by
  refine h.of_nodes ?_
  have hnodes := h.nodes
  unfold NodeStack.update
  cases ho : s.nodes.opened with
  | nil => simp [ho]
  | cons n outer =>
    rw [ho] at hnodes
    obtain ⟨hn, houter⟩ := List.forall_mem_cons.mp hnodes
    refine List.forall_mem_cons.mpr ⟨(Node.readable_iff _).mpr ⟨hkind, ?_⟩, houter⟩
    exact ((Node.readable_iff n).mp hn).2

theorem close (h : s.Tidy) {start position depth : Nat}
    (hclose : Rule.closeNode start position depth s = .ok s') : s'.Tidy := by
  obtain ⟨n, parent, outer, range, ho, -, -, rfl⟩ := Rule.closeNode_cases hclose
  have hnodes := h.nodes
  rw [ho] at hnodes
  obtain ⟨hn, hnodes⟩ := List.forall_mem_cons.mp hnodes
  obtain ⟨hparent, houter⟩ := List.forall_mem_cons.mp hnodes
  exact h.of_nodes (List.forall_mem_cons.mpr ⟨hparent.withChild (hn.of_eq rfl rfl), houter⟩)

end ReadState.Tidy

/-! ## Rules that keep a state tidy -/

namespace Rule

variable {α β : Type} {s : ReadState} {P : β → ReadState → Prop} {Q Q' : α → ReadState → Prop}

/-- From a tidy state the rule comes to a tidy state, and to a value of which `Q` holds. -/
def TidyAt (Q : α → ReadState → Prop) (r : Rule α) (s : ReadState) : Prop :=
  s.Tidy → Ends True r s (fun a s' => s'.Tidy ∧ Q a s') fun _ s' => s'.Tidy

/-- Nothing is said of the value. -/
abbrev KeepsTidy (r : Rule α) (s : ReadState) : Prop := TidyAt (fun _ _ => True) r s

namespace TidyAt

theorem mono {r : Rule α} (h : TidyAt Q r s) (hQ : ∀ a s', Q a s' → Q' a s') : TidyAt Q' r s :=
  fun hs => (h hs).mono (fun a s' ha => ⟨ha.1, hQ a s' ha.2⟩) fun _ _ h => h

theorem bind {r : Rule β} {f : β → Rule α} (h : TidyAt P r s)
    (hf : ∀ b s', P b s' → TidyAt Q (f b) s') : TidyAt Q (r >>= f) s :=
  fun hs => ends_bind.mpr ((h hs).mono (fun b s' hb => hf b s' hb.2 hb.1) fun _ _ h => h)

theorem pure {a : α} (h : Q a s) : TidyAt Q (pure a) s := fun hs => ⟨hs, h⟩

theorem state {f : ReadState → Rule α} (h : TidyAt Q (f s) s) : TidyAt Q (Rule.state >>= f) s :=
  fun hs => ends_bind.mpr (h hs)

theorem map {r : Rule β} {f : β → α} (h : TidyAt (fun b => Q (f b)) r s) : TidyAt Q (f <$> r) s :=
  fun hs => ends_map.mpr (h hs)

theorem ite {c : Prop} [Decidable c] {r r' : Rule α} (h : c → TidyAt Q r s)
    (h' : ¬ c → TidyAt Q r' s) : TidyAt Q (if c then r else r') s :=
  fun hs => ends_ite.mpr ⟨fun hc => h hc hs, fun hc => h' hc hs⟩

theorem breakWith (fault : Fault) : TidyAt Q (breakWith fault : Rule α) s := fun _ => trivial

theorem failHere (cause : SyntaxError.Cause) : TidyAt Q (failHere cause : Rule α) s := fun hs => hs

theorem modify {change : ReadState → ReadState} (h : s.Tidy → (change s).Tidy) :
    KeepsTidy (Rule.modify change) s := fun hs => ⟨h hs, trivial⟩

theorem report (e : SyntaxError) : KeepsTidy (Rule.report e) s := modify fun hs => hs.report e

theorem setKind {kind : NodeKind} (h : kind.Readable) : KeepsTidy (Rule.setKind kind) s :=
  modify fun hs => hs.setKind h

/-! ## Tokens -/

theorem advance : KeepsTidy Rule.advance s := fun hs => ⟨hs.advance, trivial⟩

theorem eat (kind : TokenKind) : KeepsTidy (Rule.eat kind) s := fun hs =>
  ends_eat.mpr ⟨fun _ => ⟨hs.advance, trivial⟩, fun _ => ⟨hs, trivial⟩⟩

theorem expect (kind : TokenKind) (cause : SyntaxError.Cause) :
    KeepsTidy (Rule.expect kind cause) s := fun hs =>
  ends_expect.mpr ⟨fun _ => ⟨hs.advance, trivial⟩, fun _ => hs⟩

theorem identifier (cause : SyntaxError.Cause) :
    TidyAt (fun name _ => IsWord name.name.toList) (Rule.identifier cause) s := fun hs =>
  ends_identifier.mpr ⟨fun hc => ⟨hs.advance, hs.currentText hc⟩, fun _ => hs⟩

/-! ## Nodes -/

theorem leaf {kind : NodeKind} (h : kind.Readable) (span : Span) :
    KeepsTidy (Rule.leaf kind span) s := fun hs =>
  ends_leaf.mpr fun _ hattach => ⟨hs.attach (Node.readable_leaf h _ _) hattach rfl, trivial⟩

theorem leafFrom {kind : NodeKind} (h : kind.Readable) (start : Nat) :
    KeepsTidy (Rule.leafFrom kind start) s := by
  refine state ?_
  cases Span.between start s.lastEnd with
  | error fault => exact breakWith fault
  | ok span => exact leaf h span

theorem keywordHere : KeepsTidy Rule.keywordHere s :=
  state (advance.bind fun span _ _ => leaf (.of_nil rfl) span)

theorem punctuationHere : KeepsTidy Rule.punctuationHere s :=
  state (advance.bind fun span _ _ => leaf (.of_nil rfl) span)

theorem keyword (kind : TokenKind) (cause : SyntaxError.Cause) :
    KeepsTidy (Rule.keyword kind cause) s :=
  (expect kind cause).bind fun span _ _ => leaf (.of_nil rfl) span

theorem punctuation (kind : TokenKind) (cause : SyntaxError.Cause) :
    KeepsTidy (Rule.punctuation kind cause) s :=
  (expect kind cause).bind fun span _ _ => leaf (.of_nil rfl) span

theorem withNode {r : Rule α} {kind : NodeKind} (hkind : kind.Readable)
    (h : ∀ s', KeepsTidy r s') : KeepsTidy (Rule.withNode kind r) s := fun hs =>
  ends_withNode (h _ (hs.begin hkind)) (fun _ _ _ ht hclose => ⟨ht.1.close hclose, trivial⟩)
    fun _ _ _ ht hclose => ht.close hclose

theorem recover {r : Rule α} {p : α → Prop} (h : TidyAt (fun a _ => p a) r s)
    (sync : TokenKind → Bool) :
    TidyAt (fun slot _ => ∀ a ∈ slot.value?, p a) (Rule.recover r sync) s := by
  intro hs
  have hr := h hs
  unfold Ends at hr ⊢
  unfold Rule.recover
  cases he : r s with
  | done a s' =>
    rw [he] at hr
    refine ⟨hr.1, ?_⟩
    rintro _ ⟨⟩
    exact hr.2
  | failed e s' =>
    rw [he] at hr
    exact ⟨(hr.report e).skipUntil sync, nofun⟩
  | broken fault => trivial

/-! ## Lists -/

theorem delimiter (shown : Bool) (kind : TokenKind) (cause : SyntaxError.Cause) :
    KeepsTidy (Rule.delimiter shown kind cause) s := by
  refine (expect kind cause).bind fun span _ _ => ?_
  cases shown with
  | true => exact leaf (.of_nil rfl) span
  | false => exact pure trivial

/-- The halves of a double bracket are no words. -/
theorem splitCloser (closing : TokenKind) : KeepsTidy (Rule.splitCloser closing) s := by
  intro hs
  refine Ends.splitCloser (fun _ => ⟨hs, trivial⟩) fun _ hr hv => ⟨⟨?_, hs.nodes⟩, trivial⟩
  have hwords := hs.words
  rw [hr] at hwords
  simp only [List.forall_mem_cons, hv.first_kind, hv.second_kind, reduceCtorEq, false_implies,
    true_and]
  exact (List.forall_mem_cons.mp hwords).2

theorem listItems {shown : Bool} {closing : TokenKind} {item : Rule α} {p : α → Prop}
    (hitem : ∀ s, TidyAt (fun a _ => p a) item s) (fuel : Nat) :
    ∀ due (items : Array α) (s : ReadState), (∀ a ∈ items, p a) →
      TidyAt (fun found _ => ∀ a ∈ found.1, p a)
        (Rule.listItems shown closing item fuel due items) s := by
  induction fuel with
  | zero => exact fun _ _ _ _ => breakWith _
  | succ fuel ih =>
    intro due items s hitems
    unfold Rule.listItems
    refine (splitCloser closing).bind fun _ s₁ _ => state (ite (fun _ => pure hitems) fun _ => ?_)
    refine (hitem s₁).bind fun a s₂ ha => state ?_
    have hmore : ∀ b ∈ items.push a, p b := by
      intro b hb
      rcases Array.mem_push.mp hb with hb | rfl
      · exact hitems b hb
      · exact ha
    refine ite (fun _ => advance.bind fun span s₃ _ => ?_) fun _ => pure hmore
    cases shown with
    | true => exact (leaf (.of_nil rfl) span).bind fun _ s₄ _ => ih _ _ s₄ hmore
    | false => exact ih _ _ s₃ hmore

theorem list {shown : Bool} {opening closing : TokenKind} {item : Rule α} {p : α → Prop}
    (hitem : ∀ s, TidyAt (fun a _ => p a) item s) :
    TidyAt (fun items _ => ∀ a ∈ items, p a) (Rule.list shown opening closing item) s := by
  refine (delimiter shown opening _).bind fun _ s₁ _ => state ?_
  refine (listItems hitem _ false #[] s₁ nofun).bind fun found s₂ hfound => ?_
  have last : ∀ s₃, TidyAt (fun items _ => ∀ a ∈ items, p a)
      (AgreeAt.listEnd shown closing found.1) s₃ := fun s₃ =>
    (splitCloser closing).bind fun _ s₄ _ => (delimiter shown closing _).bind fun _ s₅ _ =>
      pure fun a ha => hfound a (Array.mem_toList_iff.mp ha)
  refine ite (fun _ => state (ite (fun _ => ?_) fun _ => ?_)) fun _ => last s₂
  · exact (failHere (Q := fun _ _ => True) .itemAfterComma).bind fun _ s₃ _ => last s₃
  · exact (report _).bind fun _ s₃ _ => last s₃

end TidyAt

end Rule

end HeaderBridge
