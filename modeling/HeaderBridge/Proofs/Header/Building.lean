/-
  Rules that build the tree. `Builds r us P s` says that the rule `r` reads on to the tokens `us`,
  where double brackets may still be in one piece, and that the innermost open node receives
  children and perhaps another kind, of which `P` holds together with the value of the rule. Nodes
  of punctuation and directives do not count among these children. No error is noted, and the
  section that members stand in stays. A rule is not asked to come to an end here, so neither fuel
  nor the numbers and ranges of nodes have to be followed.
-/
import HeaderBridge.Proofs.Reading.Passage
import HeaderBridge.Proofs.Types.Reading

namespace HeaderBridge

open ReadState (kindOf)

/-! ## Nodes that grow -/

/-- Whether a node is one of punctuation or of a directive. -/
def Node.isMark (n : Node) : Bool :=
  match n.kind with
  | .keyword _ | .token _ => true
  | _ => false

/-- Nodes without those of punctuation and directives. -/
def unmarked (cs : List Node) : List Node := cs.filter fun n => !n.isMark

theorem unmarked_append (cs cs' : List Node) : unmarked (cs ++ cs') = unmarked cs ++ unmarked cs' :=
  List.filter_append ..

/-- What is found in nodes that are no marks can be looked for among all nodes. -/
theorem filterMap_unmarked {β : Type} {f : Node → Option β}
    (hf : ∀ n : Node, n.isMark = true → f n = none) (cs : List Node) :
    (unmarked cs).filterMap f = cs.filterMap f := by
  unfold unmarked
  rw [List.filterMap_filter]
  congr 1
  funext n
  cases hn : n.isMark with
  | true => exact (hf n hn).symm
  | false => rfl

theorem filter_unmarked {p : Node → Bool} (hp : ∀ n : Node, n.isMark = true → p n = false)
    (cs : List Node) : (unmarked cs).filter p = cs.filter p := by
  unfold unmarked
  rw [List.filter_filter]
  congr 1
  funext n
  cases hn : n.isMark with
  | true => rw [hp n hn]; rfl
  | false => exact Bool.and_true _

/-- A node with another kind, if one is given, and with more children. -/
def Node.grown (n : Node) (kind : Option NodeKind) (children : List Node) : Node :=
  ⟨n.id, kind.getD n.kind, n.range, n.children ++ children⟩

theorem Node.grown_none_nil (n : Node) : n.grown none [] = n := by
  obtain ⟨id, kind, range, children⟩ := n
  simp [Node.grown]

theorem Node.grown_grown (n : Node) (kind kind' : Option NodeKind) (cs cs' : List Node) :
    (n.grown kind cs).grown kind' cs' = n.grown (kind'.or kind) (cs ++ cs') := by
  unfold Node.grown
  cases kind' <;> simp

/-- Tokens were read up to some others, and the innermost open node has grown by these children,
    next to punctuation and directives. -/
structure Grown (s : ReadState) (us : List Token) (kind : Option NodeKind) (cs : List Node)
    (s' : ReadState) : Prop where
  rest : Halved s'.rest us
  opened : ∀ n outer, s.nodes.opened = n :: outer →
    ∃ all, unmarked all = cs ∧ s'.nodes.opened = n.grown kind all :: outer
  errors : s'.errors = s.errors
  log : s'.log = s.log
  inOptional : s'.inOptional = s.inOptional

namespace Grown

variable {s s' s'' : ReadState} {us us' : List Token} {kind kind' : Option NodeKind}
  {cs cs' : List Node}

theorem trans (h : Grown s us kind cs s') (h' : Grown s' us' kind' cs' s'') :
    Grown s us' (kind'.or kind) (cs ++ cs') s'' := by
  refine ⟨h'.rest, fun n outer ho => ?_, h'.errors.trans h.errors, h'.log.trans h.log,
    h'.inOptional.trans h.inOptional⟩
  obtain ⟨all, rfl, hopened⟩ := h.opened n outer ho
  obtain ⟨all', rfl, hopened'⟩ := h'.opened _ outer hopened
  exact ⟨all ++ all', unmarked_append all all', by rw [hopened', Node.grown_grown]⟩

/-- Where nothing has grown, the rest counts alone. -/
theorem quiet_trans (h : Grown s us none [] s') (h' : Grown s' us' kind' cs' s'') :
    Grown s us' kind' cs' s'' := by
  have hboth := h.trans h'
  rwa [Option.or_none, List.nil_append] at hboth

/-- Where the nodes stay, nothing has grown. -/
theorem of_eq (h : Halved s'.rest us) (hnodes : s'.nodes = s.nodes) (herrors : s'.errors = s.errors)
    (hlog : s'.log = s.log) (hsection : s'.inOptional = s.inOptional) :
    Grown s us none [] s' := by
  refine ⟨h, fun n outer ho => ⟨[], rfl, ?_⟩, herrors, hlog, hsection⟩
  rw [hnodes, ho, Node.grown_none_nil]

theorem of_past {front ts : List Token} (h : Halved ts us) :
    Grown s us none [] (s.past front ts) :=
  of_eq h rfl rfl rfl rfl

theorem refl (h : Halved s.rest us) : Grown s us none [] s := of_eq h rfl rfl rfl rfl

end Grown

namespace Rule

variable {α β : Type} {s : ReadState} {us us' : List Token}
  {P : α → Option NodeKind → List Node → Prop}

/-- Unless it breaks, the rule comes to a value, and the innermost open node grows. -/
def Builds (r : Rule α) (us : List Token) (P : α → Option NodeKind → List Node → Prop)
    (s : ReadState) : Prop :=
  Ends True r s (fun a s' => ∃ kind cs, Grown s us kind cs s' ∧ P a kind cs) fun _ _ => False

/-- Unless it breaks, the rule comes to a value, and nothing grows. -/
def Quiet (r : Rule α) (us : List Token) (p : α → Prop) (s : ReadState) : Prop :=
  Ends True r s (fun a s' => Grown s us none [] s' ∧ p a) fun _ _ => False

namespace Quiet

theorem mono {r : Rule α} {p q : α → Prop} (h : Quiet r us p s) (hp : ∀ a, p a → q a) :
    Quiet r us q s :=
  Ends.mono h (fun a _ ha => ⟨ha.1, hp a ha.2⟩) fun _ _ h => h

theorem of_finds {r : Rule α} {front : List Token} {a : α} (h : Finds r front us a s) :
    Quiet r us (· = a) s := by
  refine Ends.mono h (fun b s' hb => ?_) fun _ _ h => h
  obtain ⟨rfl, ts, rfl, hts⟩ := hb
  exact ⟨.of_past hts, rfl⟩

theorem of_done {r : Rule α} {a : α} {s' : ReadState} (hr : r s = .done a s')
    (h : Grown s us none [] s') : Quiet r us (· = a) s := by
  unfold Quiet Ends
  rw [hr]
  exact ⟨h, rfl⟩

theorem pure {a : α} {p : α → Prop} (h : Halved s.rest us) (hp : p a) :
    Quiet (pure a) us p s :=
  ends_pure.mpr ⟨.refl h, hp⟩

theorem bind {r : Rule β} {f : β → Rule α} {p : β → Prop} {q : α → Prop} (h : Quiet r us p s)
    (hf : ∀ b s', Grown s us none [] s' → p b → Quiet (f b) us' q s') :
    Quiet (r >>= f) us' q s := by
  refine ends_bind.mpr (Ends.mono h (fun b s' hb => ?_) fun _ _ h => h)
  refine Ends.mono (hf b s' hb.1 hb.2) (fun a s'' ha => ?_) fun _ _ h => h
  exact ⟨hb.1.quiet_trans ha.1, ha.2⟩

theorem state {f : ReadState → Rule α} {p : α → Prop} (h : Quiet (f s) us p s) :
    Quiet (Rule.state >>= f) us p s :=
  ends_bind.mpr h

theorem map {r : Rule β} {f : β → α} {p : α → Prop} (h : Quiet r us (fun b => p (f b)) s) :
    Quiet (f <$> r) us p s :=
  ends_map.mpr h

theorem recover {r : Rule α} {sync : TokenKind → Bool} {p : Slot α → Prop}
    (h : Quiet r us (fun a => p (.valid a)) s) : Quiet (Rule.recover r sync) us p s := by
  unfold Quiet Ends at h
  unfold Quiet Ends Rule.recover
  cases hr : r s with
  | done a s' => rw [hr] at h; exact h
  | failed e s' => rw [hr] at h; exact h.elim
  | broken f => trivial

end Quiet

namespace Builds

theorem mono {r : Rule α} {P' : α → Option NodeKind → List Node → Prop} (h : Builds r us P s)
    (hP : ∀ a kind cs, P a kind cs → P' a kind cs) : Builds r us P' s := by
  refine Ends.mono h (fun a s' ha => ?_) fun _ _ h => h
  obtain ⟨kind, cs, hgrown, hp⟩ := ha
  exact ⟨kind, cs, hgrown, hP a kind cs hp⟩

theorem bind {r : Rule β} {f : β → Rule α} {P' : β → Option NodeKind → List Node → Prop}
    (h : Builds r us P' s)
    (hf : ∀ b kind cs s', Grown s us kind cs s' → P' b kind cs →
      Builds (f b) us' (fun a kind' cs' => P a (kind'.or kind) (cs ++ cs')) s') :
    Builds (r >>= f) us' P s := by
  refine ends_bind.mpr (Ends.mono h (fun b s' hb => ?_) fun _ _ h => h)
  obtain ⟨kind, cs, hgrown, hp⟩ := hb
  refine Ends.mono (hf b kind cs s' hgrown hp) (fun a s'' ha => ?_) fun _ _ h => h
  obtain ⟨kind', cs', hgrown', hp'⟩ := ha
  exact ⟨_, _, hgrown.trans hgrown', hp'⟩

/-- Behind a rule that adds nothing, another one builds what it builds alone. -/
theorem bindQuiet {r : Rule β} {f : β → Rule α} {p : β → Prop} (h : Quiet r us p s)
    (hf : ∀ b s', Grown s us none [] s' → p b → Builds (f b) us' P s') :
    Builds (r >>= f) us' P s := by
  refine ends_bind.mpr (Ends.mono h (fun b s' hb => ?_) fun _ _ h => h)
  refine Ends.mono (hf b s' hb.1 hb.2) (fun a s'' ha => ?_) fun _ _ h => h
  obtain ⟨kind, cs, hgrown, hp⟩ := ha
  exact ⟨kind, cs, hb.1.quiet_trans hgrown, hp⟩

theorem of_quiet {r : Rule α} {p : α → Prop} (h : Quiet r us p s)
    (hp : ∀ a, p a → P a none []) : Builds r us P s :=
  Ends.mono h (fun a _ ha => ⟨none, [], ha.1, hp a ha.2⟩) fun _ _ h => h

theorem pure {a : α} (h : Halved s.rest us) (hp : P a none []) : Builds (pure a) us P s :=
  ends_pure.mpr ⟨none, [], .refl h, hp⟩

theorem state {f : ReadState → Rule α} (h : Builds (f s) us P s) :
    Builds (Rule.state >>= f) us P s :=
  ends_bind.mpr h

/-! ## Nodes -/

theorem setKind {kind : NodeKind} {P : Unit → Option NodeKind → List Node → Prop}
    (h : Halved s.rest us) (hp : P () (some kind) []) : Builds (Rule.setKind kind) us P s := by
  refine ends_modify.mpr ⟨some kind, [], ⟨h, fun n outer ho => ⟨[], rfl, ?_⟩, rfl, rfl, rfl⟩, hp⟩
  simp [NodeStack.update, ho, Node.grown]

theorem leaf {kind : NodeKind} {span : Span} {P : Unit → Option NodeKind → List Node → Prop}
    (h : Halved s.rest us) (hp : ∀ id, P () none (unmarked [⟨id, kind, some span, []⟩])) :
    Builds (Rule.leaf kind span) us P s := by
  refine ends_leaf.mpr fun nodes hattach =>
    ⟨none, _, ⟨h, fun n outer ho => ?_, rfl, rfl, rfl⟩, hp s.nodes.nextId⟩
  obtain ⟨m, outer', hm, rfl⟩ := NodeStack.attach_cases hattach
  cases ho.symm.trans hm
  exact ⟨_, rfl, rfl⟩

theorem leafFrom {kind : NodeKind} {start : Nat} {P : Unit → Option NodeKind → List Node → Prop}
    (h : Halved s.rest us) (hp : ∀ id range, P () none (unmarked [⟨id, kind, range, []⟩])) :
    Builds (Rule.leafFrom kind start) us P s := by
  unfold Rule.leafFrom
  refine Builds.state ?_
  cases Span.between start s.lastEnd with
  | error f => trivial
  | ok span => exact Builds.leaf h fun id => hp id (some span)

/-- A rule with a new node open adds this node with what the rule has made of it. -/
theorem withNode {r : Rule α} {kind : NodeKind}
    (P' : α → Option NodeKind → List Node → Prop)
    (h : Builds r us P' { s with nodes := s.nodes.begin kind })
    (hp : ∀ a kind' all id range, P' a kind' (unmarked all) →
      P a none (unmarked [⟨id, kind'.getD kind, range, all⟩])) :
    Builds (Rule.withNode kind r) us P s := by
  unfold Builds Ends Rule.withNode
  unfold Builds Ends at h
  cases hr : r { s with nodes := s.nodes.begin kind } with
  | broken f => simp only []
  | failed e s₁ =>
    rw [hr] at h
    exact h.elim
  | done a s₁ =>
    rw [hr] at h
    obtain ⟨kind', cs, hgrown, hpa⟩ := h
    simp only []
    cases hclose : closeNode s.currentSpan.start s.position s.nodes.depth s₁ with
    | error f => simp only []
    | ok s₂ =>
      simp only []
      obtain ⟨n, parent, outer, range, ho, _, _, rfl⟩ := closeNode_cases hclose
      obtain ⟨all, rfl, hopened⟩ :=
        hgrown.opened ⟨s.nodes.nextId, kind, none, []⟩ s.nodes.opened rfl
      rw [hopened] at ho
      obtain ⟨rfl, houter⟩ := List.cons.inj ho
      refine ⟨none, _, ⟨hgrown.rest, fun n' outer' ho' => ⟨_, rfl, ?_⟩, hgrown.errors, hgrown.log,
        hgrown.inOptional⟩, hp a kind' all s.nodes.nextId range hpa⟩
      obtain ⟨rfl, rfl⟩ := List.cons.inj (houter.symm.trans ho')
      simp [NodeStack.withChild, Node.grown]

end Builds

/-! ## Punctuation and directives -/

/-- A leaf of punctuation or of a directive adds nothing. -/
theorem quiet_leaf {kind : NodeKind} {span : Span}
    (hk : ∀ id, unmarked [⟨id, kind, some span, []⟩] = []) (hs : Halved s.rest us) :
    Quiet (leaf kind span) us (fun _ => True) s := by
  have hbuilds : Builds (leaf kind span) us (fun _ k cs => k = none ∧ cs = []) s :=
    .leaf hs fun id => ⟨rfl, hk id⟩
  refine Ends.mono hbuilds (fun _ s' h => ?_) fun _ _ h => h
  obtain ⟨_, _, hgrown, rfl, rfl⟩ := h
  exact ⟨hgrown, trivial⟩

theorem quiet_keywordHere {t : Token} (hne : t.kind ≠ .greater) (hs : Halved s.rest (t :: us)) :
    Quiet keywordHere us (fun _ => True) s := by
  unfold keywordHere
  exact .state ((Quiet.of_finds (.advance hne hs)).bind fun _ _ h _ =>
    quiet_leaf (fun _ => rfl) h.rest)

theorem quiet_punctuationHere {t : Token} (hne : t.kind ≠ .greater)
    (hs : Halved s.rest (t :: us)) : Quiet punctuationHere us (fun _ => True) s := by
  unfold punctuationHere
  exact .state ((Quiet.of_finds (.advance hne hs)).bind fun _ _ h _ =>
    quiet_leaf (fun _ => rfl) h.rest)

theorem quiet_keyword {t : Token} {kind : TokenKind} (hk : t.kind = kind) (hne : kind ≠ .greater)
    (cause : SyntaxError.Cause) (hs : Halved s.rest (t :: us)) :
    Quiet (keyword kind cause) us (fun _ => True) s := by
  unfold keyword
  exact (Quiet.of_finds (.expect hk hne cause hs)).bind fun _ _ h _ =>
    quiet_leaf (fun _ => rfl) h.rest

theorem quiet_punctuation {t : Token} {kind : TokenKind} (hk : t.kind = kind)
    (hne : kind ≠ .greater) (cause : SyntaxError.Cause) (hs : Halved s.rest (t :: us)) :
    Quiet (punctuation kind cause) us (fun _ => True) s := by
  unfold punctuation
  exact (Quiet.of_finds (.expect hk hne cause hs)).bind fun _ _ h _ =>
    quiet_leaf (fun _ => rfl) h.rest

/-- A delimiter that stands alone. It may be a single bracket. -/
theorem quiet_delimiter {kind : TokenKind} {cause : SyntaxError.Cause} {t : Token}
    {ts : List Token} (hk : t.kind = kind) (hr : s.rest = t :: ts) (hts : Halved ts us) :
    Quiet (delimiter true kind cause) us (fun _ => True) s := by
  have hexpect : Rule.expect kind cause s = .done s.currentSpan (s.past [t] ts) := by
    have hc : s.current = kind := (ReadState.current_of_cons hr).trans hk
    unfold Rule.expect
    rw [if_pos hc, ReadState.advance_of_cons hr]
  unfold delimiter
  refine (Quiet.of_done hexpect (.of_past hts)).bind fun _ _ h _ => ?_
  rw [if_pos rfl]
  exact quiet_leaf (fun _ => rfl) h.rest

/-! ## Lists that the tree shows -/

/-- Pieces of which a rule for items builds something, each with a word in front. -/
structure BuildsItems (item : Rule α) (closing : TokenKind) (pieces : List (List Token × β))
    (P : β → α → List Node → Prop) : Prop where
  builds : ∀ p ∈ pieces, ∀ us s, kindOf us = .comma ∨ kindOf us = closing →
    Halved s.rest (p.1 ++ us) → Builds item us (fun a k cs => k = none ∧ P p.2 a cs) s
  starts : ∀ p ∈ pieces, kindOf p.1 = .identifier

/-- What a list has made of its pieces: values and children. -/
inductive Collects (P : β → α → List Node → Prop) : List β → List α → List Node → Prop where
  | nil : Collects P [] [] []
  | cons {b : β} {a : α} {cs cs' : List Node} {bs : List β} {as : List α} (first : P b a cs)
      (more : Collects P bs as cs') : Collects P (b :: bs) (a :: as) (cs ++ cs')

theorem builds_listItems {item : Rule α} {closing : TokenKind} {pieces : List (List Token × β)}
    {P : β → α → List Node → Prop} {inner : List Token} {t : Token} (hk : t.kind = closing)
    (hne : closing ≠ .comma ∧ closing ≠ .identifier) (hitems : BuildsItems item closing pieces P)
    (hc : Commas (pieces.map Prod.fst) inner) (fuel : Nat) :
    ∀ (due : Bool) (read : Array α) (s : ReadState), (pieces = [] → due = false) →
      Halved s.rest (inner ++ t :: us) →
      Builds (listItems true closing item fuel due read) (t :: us)
        (fun found k cs => k = none ∧ found.2 = false ∧ ∃ as, found.1.toList = read.toList ++ as ∧
          Collects P (pieces.map Prod.snd) as cs) s := by
  induction pieces generalizing inner fuel with
  | nil =>
    intro due read s hdue hs
    cases hc
    cases fuel with
    | zero => exact trivial
    | succ fuel =>
      refine ends_listItems_over hk hs fun ts hts => ?_
      refine ⟨none, [], .of_eq (.keep t hts) rfl rfl rfl rfl, rfl, hdue rfl, [], ?_⟩
      exact ⟨(List.append_nil _).symm, .nil⟩
  | cons p pieces ih =>
    intro due read s _ hs
    cases fuel with
    | zero => exact trivial
    | succ fuel =>
      rw [List.map_cons] at hc
      obtain ⟨behind, hbehind, hrow⟩ := hc.behind (t :: us)
      have hends : kindOf behind = .comma ∨ kindOf behind = closing := by
        rcases hrow with ⟨_, _, rfl⟩ | ⟨comma, rest, hcomma, _, _, _, rfl⟩
        · exact Or.inr hk
        · exact Or.inl hcomma
      rw [hbehind] at hs
      have hident := current_of_starts (hitems.starts p List.mem_cons_self) hs
      have hitem := hitems.builds p List.mem_cons_self behind s hends hs
      refine ends_listItems_item hident hne.2 (ends_bind.mp (hitem.bind
        fun a kind cs s₂ hgrown ha => ?_))
      obtain ⟨rfl, ha⟩ := ha
      refine Builds.state ?_
      rcases hrow with ⟨hnil, _, rfl⟩ | ⟨comma, rest, hcomma, hmore, hrest, _, rfl⟩
      · -- The closing token, whole or as a half, is no comma.
        have hlast : s₂.current ≠ .comma :=
          hgrown.rest.kindOf_ne (by rw [ReadState.kindOf_cons, hk]; exact hne.1) (by decide)
        rw [if_neg hlast]
        refine .pure hgrown.rest ⟨rfl, rfl, [a], by simp, ?_⟩
        rw [List.map_cons, List.map_eq_nil_iff.mp hnil]
        exact .cons ha .nil
      · obtain ⟨hcurrent, _⟩ := current_of_comma hcomma hgrown.rest
        rw [if_pos hcurrent]
        refine .bindQuiet (.of_finds (.advance (by rw [hcomma]; decide) hgrown.rest))
          fun span s₃ h₃ _ => ?_
        rw [if_pos rfl]
        refine .bindQuiet (quiet_leaf (fun _ => rfl) h₃.rest) fun _ s₄ h₄ _ => ?_
        have htail : BuildsItems item closing pieces P :=
          ⟨fun q hq => hitems.builds q (List.mem_cons_of_mem p hq),
            fun q hq => hitems.starts q (List.mem_cons_of_mem p hq)⟩
        have hnext := ih htail hrest fuel true (read.push a) s₄
          (fun h => absurd (by rw [h]; rfl) hmore) h₄.rest
        refine hnext.mono fun found kind cs' hfound => ?_
        obtain ⟨rfl, hdue, as, has, hcollects⟩ := hfound
        exact ⟨rfl, hdue, a :: as, by rw [has]; simp, .cons ha hcollects⟩

/-- A list that the tree shows collects what its pieces are. -/
theorem builds_list {item : Rule α} {opening closing : TokenKind}
    {pieces : List (List Token × β)} {P : β → α → List Node → Prop} {inner : List Token}
    {first last : Token} (hf : first.kind = opening) (ho : opening ≠ .greater)
    (hl : last.kind = closing) (hne : closing ≠ .comma ∧ closing ≠ .identifier)
    (hitems : BuildsItems item closing pieces P) (hc : Commas (pieces.map Prod.fst) inner)
    (hs : Halved s.rest (first :: (inner ++ last :: us))) :
    Builds (list true opening closing item) us
      (fun as k cs => k = none ∧ Collects P (pieces.map Prod.snd) as cs) s := by
  obtain ⟨ts, hr, hts⟩ := hs.of_cons (by rw [hf]; exact ho)
  unfold list
  refine .bindQuiet (quiet_delimiter hf hr hts) fun _ s₁ h₁ _ => Builds.state ?_
  refine (builds_listItems hl hne hitems hc _ false #[] s₁ (fun _ => rfl) h₁.rest).bind
    fun found kind cs s₂ h₂ hfound => ?_
  obtain ⟨found, due⟩ := found
  obtain ⟨rfl, rfl, as, has, hcollects⟩ := hfound
  simp only [Bool.false_eq_true, if_false]
  refine ends_bind.mpr ((ends_splitCloser hl h₂.rest).mono (fun _ s₃ h₃ => ?_) fun _ _ h => h)
  obtain ⟨ts', rfl, hts'⟩ := h₃
  have hclosing : Quiet (do
      delimiter true closing (.listClosing closing)
      return found.toList) us (· = as) { s₂ with rest := last :: ts' } := by
    refine (quiet_delimiter hl rfl hts').bind fun _ s₄ h₄ _ => ?_
    exact .pure h₄.rest (by rw [has]; rfl)
  refine Ends.mono hclosing (fun result s₅ h₅ => ?_) fun _ _ h => h
  obtain ⟨hgrown, rfl⟩ := h₅
  refine ⟨none, [], ⟨hgrown.rest, hgrown.opened, hgrown.errors, hgrown.log, hgrown.inOptional⟩,
    rfl, ?_⟩
  rw [List.append_nil]
  exact hcollects

end Rule

end HeaderBridge
