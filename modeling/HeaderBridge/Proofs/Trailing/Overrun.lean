/-
  Types with a comma too many. `Overrun ts type` derives a type, up to its stars, from tokens in which
  one list has a comma in front of its closing bracket, at any depth. A comma in front of any closing
  bracket of a spelling makes such a row of it (`Spelling.overrun`), and reading finds the type that
  was spelt, with one error for the item that is missing (`findsLate_objcType`).
-/
import HeaderBridge.Proofs.Trailing.Framing
import HeaderBridge.Proofs.Types.Reading

namespace HeaderBridge

open ReadState (kindOf)

/-! ## Pieces and commas -/

/-- Pieces with a comma behind each of them. -/
inductive Heading : List (List Token) → List Token → Prop where
  | none : Heading [] []
  | more {pieces : List (List Token)} {ts : List Token} {comma : Token} (piece : List Token)
      (kind : comma.kind = .comma) (rest : Heading pieces ts) :
      Heading (piece :: pieces) (piece ++ comma :: ts)

/-- Pieces with a comma in front of each of them. -/
inductive Behind : List (List Token) → List Token → Prop where
  | none : Behind [] []
  | more {pieces : List (List Token)} {ts : List Token} {comma : Token} (kind : comma.kind = .comma)
      (some : pieces ≠ []) (rest : Commas pieces ts) : Behind pieces (comma :: ts)

section Commas

variable {pieces : List (List Token)} {ts front back : List Token} {c comma : Token}

theorem Behind.endsItem (h : Behind pieces ts) (hk : c.kind = .greater) (us : List Token) :
    EndsItem (ts ++ c :: us) := by
  cases h with
  | none => exact .inr (.inl hk)
  | more hcomma => exact .inl hcomma

theorem Commas.heading (h : Commas pieces ts) (hne : pieces ≠ []) (hk : comma.kind = .comma) :
    Heading pieces (ts ++ [comma]) := by
  induction h with
  | none => exact absurd rfl hne
  | one piece => exact .more piece hk .none
  | more piece next hk' _ ih =>
    rw [List.append_assoc]
    exact .more piece hk' (ih (List.cons_ne_nil _ _))

/-- A token between commas is a token of one of the pieces. -/
theorem Commas.cut (h : Commas pieces (front ++ c :: back)) (hc : c.kind ≠ .comma) :
    ∃ befores before afters after left right, pieces = befores ++ (left ++ c :: right) :: afters ∧
      front = before ++ left ∧ back = right ++ after ∧ Heading befores before ∧
      Behind afters after := by
  generalize hts : front ++ c :: back = ts at h
  induction h generalizing front with
  | none => exact absurd (List.append_eq_nil_iff.mp hts).2 (List.cons_ne_nil _ _)
  | one piece =>
    subst hts
    exact ⟨[], [], [], [], front, back, rfl, rfl, (List.append_nil _).symm, .none, .none⟩
  | @more pieces ts piece next comma hk hrest ih =>
    rcases cons_of_append_eq hts.symm with ⟨right, rfl⟩ | ⟨left, rfl, hleft⟩
    · rw [List.append_assoc] at hts
      obtain ⟨-, rfl⟩ := List.cons.inj (List.append_cancel_left hts)
      exact ⟨[], [], next :: pieces, comma :: ts, front, right, rfl, rfl, rfl, .none,
        .more hk (List.cons_ne_nil _ _) hrest⟩
    · cases left with
      | nil => exact absurd ((List.cons.inj hleft).1 ▸ hk) hc
      | cons comma' left =>
        obtain ⟨rfl, hmore⟩ := List.cons.inj hleft
        obtain ⟨befores, before, afters, after, left', right', hpieces, rfl, rfl, hbefore, hafter⟩ :=
          ih hmore.symm
        rw [hpieces]
        refine ⟨piece :: befores, piece ++ comma :: before, afters, after, left', right', rfl, ?_, rfl,
          .more piece hk hbefore, hafter⟩
        simp

end Commas

/-! ## Finding with one error -/

theorem ReadState.report_past {s : ReadState} {front rest : List Token} (e : SyntaxError) :
    (s.past front rest).report e = (s.report e).past front rest := by
  unfold ReadState.report
  split <;> rfl

namespace Rule

variable {α β : Type} {s : ReadState} {front front' us us' : List Token}

/-- Behind some tokens, with the error that an item is missing after a comma. -/
def Late (s : ReadState) (front us : List Token) (t : ReadState) : Prop :=
  ∃ e ts, e.cause = .itemAfterComma ∧ e.reported = false ∧ t = (s.report e).past front ts ∧
    Halved ts us

theorem Late.further {t : ReadState} {rest : List Token} (h : Late (s.past front rest) front' us t) :
    Late s (front ++ front') us t := by
  obtain ⟨e, ts, hcause, hnew, rfl, hts⟩ := h
  rw [ReadState.report_past, ReadState.past_past]
  exact ⟨e, ts, hcause, hnew, rfl, hts⟩

/-- The rule finds what stands in front, and it has noted that an item is missing after a comma. -/
def FindsLate (r : Rule α) (front us : List Token) (a : α) (s : ReadState) : Prop :=
  Ends True r s (fun b t => b = a ∧ Late s front us t) fun _ _ => False

theorem FindsLate.bind {r : Rule β} {f : β → Rule α} {a : α} {b : β}
    (h : FindsLate r front us b s)
    (hf : ∀ e ts, Halved ts us → Finds (f b) front' us' a ((s.report e).past front ts)) :
    FindsLate (r >>= f) (front ++ front') us' a s := by
  refine ends_bind.mpr (h.mono (fun c t hc => ?_) fun _ _ h => h)
  obtain ⟨rfl, e, ts, hcause, hnew, rfl, hts⟩ := hc
  refine (hf e ts hts).mono (fun d u hd => ?_) fun _ _ h => h
  obtain ⟨rfl, ts', rfl, hts'⟩ := hd
  exact ⟨rfl, e, ts', hcause, hnew, ReadState.past_past, hts'⟩

theorem FindsLate.further {r : Rule α} {a : α} {ts : List Token}
    (h : FindsLate r front' us a (s.past front ts)) :
    Ends True r (s.past front ts) (fun b t => b = a ∧ Late s (front ++ front') us t)
      fun _ _ => False :=
  h.mono (fun _ _ h => ⟨h.1, h.2.further⟩) fun _ _ h => h

theorem Finds.bindLate {r : Rule β} {f : β → Rule α} {a : α} {b : β} (h : Finds r front us b s)
    (hf : ∀ ts, Halved ts us → FindsLate (f b) front' us' a (s.past front ts)) :
    FindsLate (r >>= f) (front ++ front') us' a s := by
  refine ends_bind.mpr (h.mono (fun c t hc => ?_) fun _ _ h => h)
  obtain ⟨rfl, ts, rfl, hts⟩ := hc
  exact (hf ts hts).further

theorem FindsLate.state {f : ReadState → Rule α} {a : α} (h : FindsLate (f s) front us a s) :
    FindsLate (Rule.state >>= f) front us a s :=
  ends_bind.mpr h

theorem FindsLate.map {r : Rule β} {b : β} (h : FindsLate r front us b s) (f : β → α) :
    FindsLate (f <$> r) front us (f b) s := by
  refine ends_map.mpr (h.mono (fun c t hc => ?_) fun _ _ h => h)
  exact ⟨congrArg f hc.1, hc.2⟩

/-! ## Lists with a comma too many -/

section Lists

variable {item : Rule α} {pieces : List (List Token × α)} {inner before after piece : List Token}
  {less greater : Token} {Q : Array α × Bool → ReadState → Prop}

/-- A list goes on behind items that have a comma behind each of them. -/
theorem ends_listItems_heading (hitems : FindsItems item pieces)
    (hc : Heading (pieces.map Prod.fst) inner) (fuel : Nat) :
    ∀ (due : Bool) (read : Array α) (s : ReadState), Halved s.rest (inner ++ us) →
      (∀ fuel ts, Halved ts us → Ends True (listItems false .greater item fuel
        (due || !pieces.isEmpty) (read ++ (pieces.map Prod.snd).toArray)) (s.past inner ts) Q
          fun _ _ => False) →
      Ends True (listItems false .greater item fuel due read) s Q fun _ _ => False := by
  induction pieces generalizing inner fuel with
  | nil =>
    intro due read s hs hnext
    cases hc
    have hself := hnext fuel s.rest hs
    rw [ReadState.past_nil] at hself
    simpa using hself
  | cons p pieces ih =>
    intro due read s hs hnext
    cases fuel with
    | zero => exact trivial
    | succ fuel =>
      rw [List.map_cons] at hc
      cases hc with
      | @more _ ts comma _ hk hrest =>
        rw [List.append_assoc] at hs
        have hends : EndsItem (comma :: (ts ++ us)) := .inl hk
        have hident := current_of_starts (hitems.starts p List.mem_cons_self) hs
        refine ends_listItems_item hident (by decide)
          ((hitems.finds p List.mem_cons_self _ s hends hs).mono (fun a s₁ h₁ => ?_)
            fun _ _ h => h)
        obtain ⟨rfl, ts', rfl, hts'⟩ := h₁
        obtain ⟨hcomma, ts'', hadv, hrest'⟩ :=
          current_of_comma (s := s.past p.1 ts') hk hts'
        refine ends_bind.mpr (ends_state.mpr ?_)
        rw [if_pos hcomma]
        refine ends_bind.mpr (ends_advance.mpr ?_)
        rw [hadv, ReadState.past_past]
        refine ih hitems.tail hrest fuel true (read.push p.2) _ hrest' fun fuel ts₃ hts₃ => ?_
        have hlast := hnext fuel ts₃ hts₃
        rw [ReadState.past_past, Bool.true_or]
        rw [List.isEmpty_cons, Bool.not_false, Bool.or_true] at hlast
        simpa using hlast

/-- What follows an item of a list: the other items, or the end. -/
def behindItem (item : Rule α) (fuel : Nat) (read : Array α) : Rule (Array α × Bool) := do
  if (← Rule.state).current = .comma then
    let _ ← Rule.advance
    listItems false .greater item fuel true read
  else return (read, false)

theorem finds_behindItem (hg : greater.kind = .greater) (hitems : FindsItems item pieces)
    (hc : Behind (pieces.map Prod.fst) inner) (fuel : Nat) (read : Array α)
    (hs : Halved s.rest (inner ++ greater :: us)) :
    Finds (behindItem item fuel read) inner (greater :: us)
      (read ++ (pieces.map Prod.snd).toArray, false) s := by
  unfold behindItem
  refine Finds.state ?_
  generalize hpieces : pieces.map Prod.fst = rows at hc
  cases hc with
  | none =>
    have hcomma : s.current ≠ .comma :=
      hs.kindOf_ne (by rw [List.nil_append, ReadState.kindOf_cons, hg]; decide) (by decide)
    rw [if_neg hcomma, List.map_eq_nil_iff.mp hpieces]
    simpa using Finds.pure (a := (read, false)) hs
  | @more _ ts comma hk hne hrest =>
    subst hpieces
    obtain ⟨hcomma, _⟩ := current_of_comma hk hs
    rw [if_pos hcomma]
    exact (Finds.advance (by rw [hk]; decide) hs).bind fun ts' hts' =>
      finds_listItems hg hitems hrest fuel true read _
        (fun h => absurd (by rw [h]; rfl) hne) hts'

theorem findsLate_opening (hl : less.kind = .less) {closing : TokenKind} {as : List α}
    (h : ∀ ts, Halved ts us → FindsLate (do
      let (items, due) ← listItems false closing item ((← Rule.state).weight + 1) false #[]
      FramesAt.listFinish false closing items due) front us' as (s.past [less] ts))
    (hs : Halved s.rest (less :: us)) :
    FindsLate (list false .less closing item) (less :: front) us' as s := by
  have hopen : Finds (delimiter false .less (.listOpening .less)) [less] us () s := by
    unfold delimiter
    exact (Finds.expect hl (by decide) _ hs).bind fun ts hts => Finds.pure hts
  rw [FramesAt.list_eq]
  exact hopen.bindLate h

/-- The end of a list in front of which an item was due. -/
theorem findsLate_finish (hg : greater.kind = .greater) (items : Array α)
    (hspeculating : s.speculating = false) (hs : Halved s.rest (greater :: us)) :
    FindsLate (FramesAt.listFinish false .greater items true) [greater] us items.toList s := by
  refine ends_bind.mpr (ends_state.mpr ?_)
  rw [if_neg (by rw [hspeculating]; decide)]
  refine ends_bind.mpr (ends_report.mpr ?_)
  have hrest : Halved (s.report (s.errorHere .itemAfterComma)).rest (greater :: us) := hs
  refine (finds_closing hg items.toList hrest).mono (fun as t h => ?_) fun _ _ h => h
  obtain ⟨rfl, ts, rfl, hts⟩ := h
  exact ⟨rfl, _, ts, rfl, rfl, rfl, hts⟩

/-- A list with a comma in front of its closing bracket is found with the values of its items. -/
theorem findsLate_list (hl : less.kind = .less) (hg : greater.kind = .greater)
    (hitems : FindsItems item pieces) (hc : Heading (pieces.map Prod.fst) inner)
    (hne : pieces ≠ []) (hspeculating : s.speculating = false)
    (hs : Halved s.rest (less :: (inner ++ greater :: us))) :
    FindsLate (list false .less .greater item) (less :: (inner ++ [greater])) us
      (pieces.map Prod.snd) s := by
  refine findsLate_opening hl (fun ts hts => FindsLate.state ?_) hs
  have hfound : Finds (listItems false .greater item ((s.past [less] ts).weight + 1) false #[])
      inner (greater :: us) ((pieces.map Prod.snd).toArray, true) (s.past [less] ts) := by
    refine ends_listItems_heading hitems hc _ false #[] (s.past [less] ts) hts
      fun fuel ts' hts' => ?_
    cases fuel with
    | zero => trivial
    | succ fuel =>
      refine ends_listItems_over hg hts' fun ts'' hts'' => ?_
      refine ⟨by simpa using hne, greater :: ts'', rfl, .keep greater hts''⟩
  refine hfound.bindLate fun ts' hts' => ?_
  have hlast := findsLate_finish hg (pieces.map Prod.snd).toArray (s := (s.past [less] ts).past inner ts')
    hspeculating hts'
  simpa using hlast

/-- A list of which one item is found late is found with the values of its items. -/
theorem findsLate_list_inside {befores afters : List (List Token × α)} {a : α}
    (hl : less.kind = .less) (hg : greater.kind = .greater) (hitems : FindsItems item befores)
    (hc : Heading (befores.map Prod.fst) before) (hmore : FindsItems item afters)
    (hc' : Behind (afters.map Prod.fst) after) (hstarts : kindOf piece = .identifier)
    (hpiece : ∀ us s, EndsItem us → s.speculating = false → Halved s.rest (piece ++ us) →
      FindsLate item piece us a s) (hspeculating : s.speculating = false)
    (hs : Halved s.rest (less :: (before ++ (piece ++ (after ++ greater :: us))))) :
    FindsLate (list false .less .greater item)
      (less :: (before ++ (piece ++ (after ++ [greater])))) us
      (befores.map Prod.snd ++ a :: afters.map Prod.snd) s := by
  refine findsLate_opening hl (fun ts hts => FindsLate.state ?_) hs
  have hends := hc'.endsItem hg us
  have hfound : FindsLate (listItems false .greater item ((s.past [less] ts).weight + 1) false #[])
      (before ++ (piece ++ after)) (greater :: us)
      ((befores.map Prod.snd ++ a :: afters.map Prod.snd).toArray, false) (s.past [less] ts) := by
    refine ends_listItems_heading hitems hc _ false #[] (s.past [less] ts) hts
      fun fuel ts' hts' => ?_
    cases fuel with
    | zero => trivial
    | succ fuel =>
      refine FindsLate.further (ends_listItems_item (current_of_starts hstarts hts') (by decide) ?_)
      refine ends_bind.mp (FindsLate.bind (hpiece _ _ hends hspeculating hts') fun e ts'' hts'' => ?_)
      have hlast := finds_behindItem hg hmore hc' fuel ((#[] ++ (befores.map Prod.snd).toArray).push a)
        (s := (((s.past [less] ts).past before ts').report e).past piece ts'') hts''
      have hvalue : (#[] ++ (befores.map Prod.snd).toArray).push a ++ (afters.map Prod.snd).toArray =
          (befores.map Prod.snd ++ a :: afters.map Prod.snd).toArray := by simp
      rw [hvalue] at hlast
      exact hlast
  have hfront : before ++ (piece ++ (after ++ [greater])) = before ++ (piece ++ after) ++ [greater] := by
    simp
  rw [hfront]
  exact hfound.bind fun e ts' hts' => finds_closing hg
    (befores.map Prod.snd ++ a :: afters.map Prod.snd)
    (s := ((s.past [less] ts).report e).past (before ++ (piece ++ after)) ts') hts'

end Lists

end Rule

/-! ## Tokens at another place -/

section Faces

variable {f : Token → Token} {pieces : List (List Token)} {ts : List Token}

/-- The tokens are replaced by others of the same kinds and texts. -/
def KeepsFaces (f : Token → Token) : Prop := ∀ t, (f t).face = t.face

theorem KeepsFaces.kind (hf : KeepsFaces f) (t : Token) : (f t).kind = t.kind :=
  congrArg Prod.fst (hf t)

theorem KeepsFaces.text (hf : KeepsFaces f) (t : Token) : (f t).text = t.text :=
  congrArg Prod.snd (hf t)

theorem KeepsFaces.map_text (hf : KeepsFaces f) (ts : List Token) :
    (ts.map f).map (·.text) = ts.map (·.text) := by
  rw [List.map_map]
  exact List.map_congr_left fun t _ => hf.text t

theorem Commas.map (hf : KeepsFaces f) (h : Commas pieces ts) :
    Commas (pieces.map (List.map f)) (ts.map f) := by
  induction h with
  | none => exact .none
  | one piece => exact .one _
  | more piece next hk _ ih =>
    rw [List.map_append, List.map_cons]
    exact .more _ _ ((hf.kind _).trans hk) ih

theorem Behind.map (hf : KeepsFaces f) (h : Behind pieces ts) :
    Behind (pieces.map (List.map f)) (ts.map f) := by
  cases h with
  | none => exact .none
  | more hk hne hrest =>
    exact .more ((hf.kind _).trans hk) (fun h => hne (List.map_eq_nil_iff.mp h)) (hrest.map hf)

end Faces

namespace Grammar

open Rule

/-! ## Spellings at another place -/

section Map

variable {f : Token → Token} {ts : List Token}

theorem startsWithQualifier_map (hf : KeepsFaces f) (ts : List Token) :
    startsWithQualifier (ts.map f) = startsWithQualifier ts := by
  cases ts with
  | nil => rfl
  | cons t ts =>
    show ((f t).kind == .identifier && _) = (t.kind == .identifier && _)
    rw [hf.kind, hf.text]

theorem Qualifies.map (hf : KeepsFaces f) {t : Token} (h : Qualifies t) : Qualifies (f t) :=
  (startsWithQualifier_map hf [t]).trans h

theorem forall_qualifies_map (hf : KeepsFaces f) (h : ∀ t ∈ ts, Qualifies t) :
    ∀ t ∈ ts.map f, Qualifies t := by
  intro t ht
  obtain ⟨u, hu, rfl⟩ := List.mem_map.mp ht
  exact (h u hu).map hf

theorem lastNullability_map (hf : KeepsFaces f) (ts : List Token) :
    lastNullability (ts.map f) = lastNullability ts := by
  unfold lastNullability
  rw [List.foldl_map]
  simp only [hf.text]

theorem NameTail.map (hf : KeepsFaces f) {last : String} (h : NameTail last ts) :
    NameTail last (ts.map f) := by
  induction ts generalizing last with
  | nil => trivial
  | cons t ts ih =>
    obtain ⟨hlast, hkind, htext, hmore⟩ := h
    refine ⟨hlast, (hf.kind t).trans hkind, ?_, ?_⟩
    · rwa [hf.text]
    · rw [hf.text]
      exact ih hmore

theorem NameSpelling.map (hf : KeepsFaces f) {name : String} (h : NameSpelling ts name) :
    NameSpelling (ts.map f) name := by
  cases h with
  | @words first more hword htail =>
    rw [← hf.text first, ← hf.map_text more, List.map_cons]
    exact .words ((hf.kind first).trans hword) (by rw [hf.text]; exact htail.map hf)

theorem Stars.map (hf : KeepsFaces f) {type last : ObjcType} {found total : Option Nullability}
    (h : Stars type found ts last total) : Stars type found (ts.map f) last total := by
  induction h with
  | none type found => exact .none type found
  | star hk hq _ ih =>
    rw [List.map_cons, List.map_append]
    refine .star ((hf.kind _).trans hk) (forall_qualifies_map hf hq) ?_
    rwa [lastNullability_map hf]

def Argument.map (f : Token → Token) (a : Argument) : Argument :=
  ⟨a.qualifiers.map f, a.body.map f, a.type, a.nullability⟩

theorem Argument.tokens_map (a : Argument) : (a.map f).tokens = a.tokens.map f :=
  (List.map_append).symm

theorem Argument.Led.map (hf : KeepsFaces f) {a : Argument} (h : a.Led) : (a.map f).Led :=
  ⟨forall_qualifies_map hf h.qualify, (startsWithQualifier_map hf a.body).trans h.free⟩

theorem map_tokens_map (arguments : List Argument) :
    (arguments.map (Argument.map f)).map Argument.tokens =
      (arguments.map Argument.tokens).map (List.map f) := by
  simp only [List.map_map]
  exact List.map_congr_left fun a _ => a.tokens_map

theorem map_type_map (arguments : List Argument) :
    (arguments.map (Argument.map f)).map Argument.type = arguments.map Argument.type := by
  rw [List.map_map]
  rfl

/-- Tokens of the same kinds and texts write the same type. -/
theorem Spelling.map (hf : KeepsFaces f) {type : ObjcType} {found : Option Nullability}
    (h : Spelling ts type found) : Spelling (ts.map f) type found := by
  induction h with
  | plain hname hstars =>
    rw [List.map_append]
    exact .plain (hname.map hf) (hstars.map hf)
  | @protocols word less greater names inner stars type found hid hl hitems hc hg hstars =>
    have hkinds : ∀ t ∈ names.map f, t.kind = .identifier := by
      intro t ht
      obtain ⟨u, hu, rfl⟩ := List.mem_map.mp ht
      exact (hf.kind u).trans (hitems u hu)
    have hcommas := hc.map hf
    rw [List.map_map] at hcommas
    rw [List.map_cons, List.map_cons, List.map_append, List.map_cons]
    refine .protocols ⟨(hf.kind _).trans hid.1, (hf.text _).trans hid.2⟩ ((hf.kind _).trans hl) hkinds
      ?_ ((hf.kind _).trans hg) ?_
    · rw [List.map_map]
      exact hcommas
    · rw [hf.map_text]
      exact hstars.map hf
  | @generic words inner stars less greater name arguments type found hname hne hl hled hitems hc hg
      hstars ih =>
    have hled' : ∀ a ∈ arguments.map (Argument.map f), a.Led := by
      intro a ha
      obtain ⟨b, hb, rfl⟩ := List.mem_map.mp ha
      exact (hled b hb).map hf
    have hitems' : ∀ a ∈ arguments.map (Argument.map f), Spelling a.body a.type a.nullability := by
      intro a ha
      obtain ⟨b, hb, rfl⟩ := List.mem_map.mp ha
      exact ih b hb
    rw [List.map_append, List.map_cons, List.map_append, List.map_cons]
    refine .generic (hname.map hf) hne ((hf.kind _).trans hl) hled' hitems' ?_
      ((hf.kind _).trans hg) ?_
    · rw [map_tokens_map]
      exact hc.map hf
    · rw [map_type_map]
      exact hstars.map hf

end Map

/-! ## Types with a comma too many -/

/-- The tokens that write a type, up to its stars, with a comma in front of one closing bracket. -/
inductive Overrun : List Token → ObjcType → Prop where
  | protocols {word less greater : Token} {names inner : List Token}
      (id : word.kind = .identifier ∧ word.text = "id") (opening : less.kind = .less)
      (some : names ≠ []) (items : ∀ t ∈ names, t.kind = .identifier)
      (commas : Heading (names.map fun t => [t]) inner) (closing : greater.kind = .greater) :
      Overrun (word :: less :: (inner ++ [greater])) (.id (names.map (·.text)))
  | generic {words inner : List Token} {less greater : Token} {name : String}
      {arguments : List Argument} (spelt : NameSpelling words name) (other : name ≠ "id")
      (opening : less.kind = .less) (some : arguments ≠ []) (led : ∀ a ∈ arguments, a.Led)
      (items : ∀ a ∈ arguments, Spelling a.body a.type a.nullability)
      (commas : Heading (arguments.map Argument.tokens) inner) (closing : greater.kind = .greater) :
      Overrun (words ++ less :: (inner ++ [greater])) (.generic name (arguments.map Argument.type))
  /-- The list is one of an argument, which other arguments may surround. -/
  | inside {words before qualifiers head stars after : List Token} {less greater : Token}
      {name : String} {befores afters : List Argument} {base type : ObjcType}
      {nullability : Option Nullability} (spelt : NameSpelling words name) (other : name ≠ "id")
      (opening : less.kind = .less) (led : ∀ a ∈ befores ++ afters, a.Led)
      (items : ∀ a ∈ befores ++ afters, Spelling a.body a.type a.nullability)
      (heading : Heading (befores.map Argument.tokens) before)
      (qualify : ∀ q ∈ qualifiers, Qualifies q) (free : startsWithQualifier head = false)
      (deeper : Overrun head base) (pointed : Stars base none stars type nullability)
      (behind : Behind (afters.map Argument.tokens) after) (closing : greater.kind = .greater) :
      Overrun (words ++ less :: (before ++ (qualifiers ++ (head ++ stars) ++ (after ++ [greater]))))
        (.generic name (befores.map Argument.type ++ type :: afters.map Argument.type))

section Overrun

variable {f : Token → Token} {ts front back : List Token} {c comma : Token} {type : ObjcType}
  {nullability : Option Nullability}

/-- No bracket stands among words and stars. -/
theorem kind_ne_of_identifiers (h : ∀ t ∈ ts, t.kind = .identifier) : ∀ t ∈ ts, t.kind ≠ .greater :=
  fun t ht => by rw [h t ht]; decide

theorem Stars.kind_ne {last : ObjcType} {found total : Option Nullability}
    (h : Stars type found ts last total) : ∀ t ∈ ts, t.kind ≠ .greater := by
  induction h with
  | none => exact List.forall_mem_nil _
  | star hk hq _ ih =>
    exact List.forall_mem_cons.mpr ⟨by rw [hk]; decide, List.forall_mem_append.mpr
      ⟨kind_ne_of_identifiers fun q h => (hq q h).kind, ih⟩⟩

/-- No bracket stands among the names of protocols. -/
theorem kind_ne_of_protocols {names : List Token} (h : ∀ t ∈ names, t.kind = .identifier)
    (hcommas : Commas (names.map fun t => [t]) ts) : ∀ t ∈ ts, t.kind ≠ .greater := by
  refine hcommas.closed (P := fun ts => ∀ t ∈ ts, t.kind ≠ .greater) (List.forall_mem_nil _)
    (fun hts hus => List.forall_mem_append.mpr ⟨hts, hus⟩)
    (fun hk hts => List.forall_mem_cons.mpr ⟨by rw [hk]; decide, hts⟩) ?_
  exact List.forall_mem_map.mpr fun t ht =>
    List.forall_mem_singleton.mpr (by rw [h t ht]; decide)

theorem mem_getLast?_append {us : List Token} {t : Token} (as : List Token) (h : t ∈ us.getLast?)
    (heq : as ++ us = ts) : t ∈ ts.getLast? := by
  rw [← heq, List.getLast?_append, show us.getLast? = some t from h]
  rfl

/-- In front of the bracket in a type stands a word at least. -/
theorem Spelling.exists_cons (h : Spelling ts type nullability) (hrow : ts = front ++ c :: back)
    (hc : c.kind = .greater) : ∃ t more, front = t :: more := by
  refine List.exists_cons_of_ne_nil ?_
  rintro rfl
  have hstart := h.starts []
  rw [hrow] at hstart
  exact absurd (hc.symm.trans hstart) (by decide)

theorem Overrun.starts (h : Overrun ts type) (us : List Token) :
    ReadState.kindOf (ts ++ us) = .identifier := by
  cases h with
  | protocols hid => exact hid.1
  | generic hname | inside hname =>
    rw [List.append_assoc]
    exact hname.starts _

theorem Overrun.exists_cons (h : Overrun ts type) : ∃ t more, ts = t :: more := by
  refine List.exists_cons_of_ne_nil ?_
  rintro rfl
  exact TokenKind.noConfusion (h.starts [])

theorem forall_arguments_map {P : Argument → Prop} {befores afters : List Argument} {a : Argument}
    (h : ∀ b ∈ befores ++ a :: afters, P b) (hmap : ∀ b, P b → P (b.map f)) :
    ∀ b ∈ befores ++ afters.map (Argument.map f), P b := by
  obtain ⟨hbefores, hafters⟩ := List.forall_mem_append.mp h
  refine List.forall_mem_append.mpr ⟨hbefores, fun b hb => ?_⟩
  obtain ⟨b', hb', rfl⟩ := List.mem_map.mp hb
  exact hmap b' (hafters b' (List.mem_cons_of_mem a hb'))

/-- Behind tokens that are no closing brackets one is found in the rest. -/
theorem behind_of_kind_ne {as bs : List Token} (h : as ++ bs = front ++ c :: back)
    (has : ∀ t ∈ as, t.kind ≠ .greater) (hc : c.kind = .greater) :
    ∃ more, front = as ++ more ∧ bs = more ++ c :: back :=
  (cons_of_append_eq h).resolve_left fun ⟨more, hmore⟩ =>
    has c (by rw [hmore]; exact List.mem_append_right _ List.mem_cons_self) hc

/-- The bracket of a list in angle brackets, among tokens of a type, is the closing one, or one of an
    item. -/
theorem closing_or_inner {words inner stars : List Token} {less greater : Token}
    (hrow : words ++ less :: (inner ++ greater :: stars) = front ++ c :: back)
    (hc : c.kind = .greater) (hwords : ∀ t ∈ words, t.kind = .identifier) (hl : less.kind = .less)
    (hstars : ∀ t ∈ stars, t.kind ≠ .greater) :
    ∃ left, front = words ++ less :: left ∧
      ((left = inner ∧ c = greater ∧ back = stars) ∨
        ∃ right, inner = left ++ c :: right ∧ back = right ++ greater :: stars) := by
  obtain ⟨more, rfl, hmore⟩ := behind_of_kind_ne hrow (kind_ne_of_identifiers hwords) hc
  cases more with
  | nil =>
    obtain ⟨rfl, -⟩ := List.cons.inj hmore
    exact absurd (hc.symm.trans hl) (by decide)
  | cons less' left =>
    obtain ⟨rfl, hinner⟩ := List.cons.inj hmore
    refine ⟨left, rfl, ?_⟩
    rcases cons_of_append_eq hinner with ⟨right, rfl⟩ | ⟨more, rfl, hmore'⟩
    · rw [List.append_assoc] at hinner
      obtain ⟨-, hback⟩ := List.cons.inj (List.append_cancel_left hinner)
      exact .inr ⟨right, rfl, hback.symm⟩
    · cases more with
      | nil =>
        obtain ⟨rfl, rfl⟩ := List.cons.inj hmore'
        exact .inl ⟨List.append_nil _, rfl, rfl⟩
      | cons greater' more =>
        obtain ⟨-, rfl⟩ := List.cons.inj hmore'
        exact absurd hc (hstars c (List.mem_append_right _ List.mem_cons_self))

/-- A list overruns if one of its arguments does, whose stars and what stands behind it are moved. -/
theorem Overrun.of_argument (hf : KeepsFaces f) {words before head stars after : List Token}
    {less greater : Token} {name : String} {befores afters : List Argument} {a : Argument}
    {base : ObjcType} (hname : NameSpelling words name) (hne : name ≠ "id") (hl : less.kind = .less)
    (hled : ∀ b ∈ befores ++ a :: afters, b.Led)
    (hitems : ∀ b ∈ befores ++ a :: afters, Spelling b.body b.type b.nullability)
    (hbefore : Heading (befores.map Argument.tokens) before)
    (hfree : startsWithQualifier head = false) (hover : Overrun head base)
    (hpointed : Stars base none stars a.type a.nullability)
    (hafter : Behind (afters.map Argument.tokens) after) (hg : greater.kind = .greater) :
    Overrun (words ++ less :: (before ++ (a.qualifiers ++ (head ++ stars.map f) ++
      (after.map f ++ [f greater])))) (.generic name ((befores ++ a :: afters).map Argument.type)) := by
  have hmem : a ∈ befores ++ a :: afters := List.mem_append_right _ List.mem_cons_self
  have hbehind : Behind ((afters.map (Argument.map f)).map Argument.tokens) (after.map f) := by
    rw [map_tokens_map]
    exact hafter.map hf
  have hover := Overrun.inside hname hne hl
    (forall_arguments_map hled fun _ => Argument.Led.map hf)
    (forall_arguments_map hitems fun _ => Spelling.map hf) hbefore (hled a hmem).qualify hfree hover
    (hpointed.map hf) hbehind ((hf.kind _).trans hg)
  rwa [map_type_map, ← List.map_cons, ← List.map_append] at hover

/-- A comma in front of a closing bracket of a type, whose list is not empty, makes the type overrun.
    The stars of the type stand behind the bracket. -/
theorem Spelling.overrun (hf : KeepsFaces f) (hcomma : comma.kind = .comma)
    (h : Spelling ts type nullability) :
    ∀ {front c back}, ts = front ++ c :: back → c.kind = .greater →
      (∀ t ∈ front.getLast?, t.kind ≠ .less) → (∃ t ∈ front, t.kind = .less) ∧
      ∃ head base between stars, back = between ++ stars ∧
        front ++ comma :: f c :: between.map f = head ∧ Overrun head base ∧
        Stars base none stars type nullability := by
  induction h with
  | @plain words stars name type nullability hname hstars =>
    intro front c back hrow hc _
    have hnone : ∀ t ∈ words ++ stars, t.kind ≠ .greater :=
      List.forall_mem_append.mpr ⟨kind_ne_of_identifiers hname.kind, hstars.kind_ne⟩
    exact absurd hc (hnone c (by rw [hrow]; exact List.mem_append_right _ List.mem_cons_self))
  | @protocols word less greater names inner stars type nullability hid hl hitems hcommas hg hstars =>
    intro front c back hrow hc hlast
    have hwords : ∀ t ∈ [word], t.kind = .identifier := List.forall_mem_singleton.mpr hid.1
    have hrow : [word] ++ less :: (inner ++ greater :: stars) = front ++ c :: back := hrow
    obtain ⟨left, rfl, ⟨rfl, rfl, rfl⟩ | ⟨right, hinner, -⟩⟩ :=
      closing_or_inner hrow hc hwords hl hstars.kind_ne
    · have hsome : names ≠ [] := by
        rintro rfl
        cases hcommas
        exact hlast less rfl hl
      refine ⟨⟨less, by simp, hl⟩, word :: less :: (left ++ [comma] ++ [f c]), _, [], back, rfl, by simp,
        .protocols hid hl hsome hitems (hcommas.heading ?_ hcomma) ((hf.kind c).trans hc), hstars⟩
      exact fun h => hsome (List.map_eq_nil_iff.mp h)
    · have hmem : c ∈ inner := by
        rw [hinner]
        exact List.mem_append_right _ List.mem_cons_self
      exact absurd hc (kind_ne_of_protocols hitems hcommas c hmem)
  | @generic words inner stars less greater name arguments type nullability hname hne hl hled hitems
      hcommas hg hstars ih =>
    intro front c back hrow hc hlast
    obtain ⟨left, rfl, ⟨rfl, rfl, rfl⟩ | ⟨right, rfl, rfl⟩⟩ :=
      closing_or_inner hrow hc hname.kind hl hstars.kind_ne
    · have hsome : arguments ≠ [] := by
        rintro rfl
        cases hcommas
        exact hlast less (by simp) hl
      refine ⟨⟨less, by simp, hl⟩, words ++ less :: (left ++ [comma] ++ [f c]), _, [], back, rfl,
        by simp, .generic hname hne hl hsome hled hitems (hcommas.heading ?_ hcomma)
          ((hf.kind c).trans hc), hstars⟩
      exact fun h => hsome (List.map_eq_nil_iff.mp h)
    · obtain ⟨befores, before, afters, after, left', right', hpieces, rfl, rfl, hbefore, hafter⟩ :=
        hcommas.cut (by rw [hc]; decide)
      obtain ⟨befores, rest, rfl, rfl, hrest⟩ := List.map_eq_append_iff.mp hpieces
      obtain ⟨a, afters, rfl, ha, rfl⟩ := List.map_eq_cons_iff.mp hrest
      have hmem : a ∈ befores ++ a :: afters := List.mem_append_right _ List.mem_cons_self
      obtain ⟨more, rfl, hbody⟩ := behind_of_kind_ne (show a.qualifiers ++ a.body = _ from ha)
        (kind_ne_of_identifiers fun q hq => ((hled a hmem).qualify q hq).kind) hc
      obtain ⟨t, more, rfl⟩ := (hitems a hmem).exists_cons hbody hc
      obtain ⟨-, head, base, between, stars', rfl, heq, hover, hpointed⟩ := ih a hmem hbody hc fun u hu =>
        hlast u (mem_getLast?_append (words ++ less :: (before ++ a.qualifiers)) hu (by simp))
      have hfree : startsWithQualifier head = false := by
        have hbodyFree := (hled a hmem).free
        rw [hbody] at hbodyFree
        rw [← heq]
        exact hbodyFree
      refine ⟨⟨less, by simp, hl⟩, _, _, between ++ stars' ++ after ++ [greater], stars, by simp, ?_,
        .of_argument hf hname hne hl hled hitems hbefore hfree hover hpointed hafter hg, hstars⟩
      rw [← heq]
      simp

end Overrun

/-! ## Reading such types -/

/-- A type up to its stars: a name, and the list behind it. -/
def listedType (fuel : Nat) : Rule ObjcType := do
  let name ← baseName
  if (← state).current = .less then
    if name = "id" then do
      let protocols ← list false .less .greater (Ident.name <$> identifier .conformance)
      return ObjcType.id protocols
    else do
      let argument : Rule ObjcType := do
        let _ ← qualifiers
        return (← objcType fuel).1
      return ObjcType.generic name (← list false .less .greater argument)
  else return plainType name

theorem objcType_succ (fuel : Nat) : objcType (fuel + 1) = (do
    let type ← listedType fuel
    stars ((← state).weight + 1) type none) := by
  funext s
  unfold objcType listedType
  rw [bind_assoc, bind_apply, bind_apply]
  cases baseName s with
  | failed e t => rfl
  | broken fault => rfl
  | done name t =>
    simp only []
    rw [bind_assoc, bind_apply, bind_apply]
    show (ite _ _ _ : Rule _) t = ((ite _ _ _ : Rule _) >>= _) t
    split
    · split
      · exact congrFun (Rule.bind_assoc _ _ _).symm t
      · exact congrFun (Rule.bind_assoc _ _ _).symm t
    · rfl

/-- The name of a type is found in front of its list, and the list is found late. -/
theorem findsLate_behindName {words inner us : List Token} {less : Token} {name : String}
    {type : ObjcType} {fuel : Nat} {s : ReadState} (hname : NameSpelling words name)
    (hl : less.kind = .less) (h : ∀ ts, Halved ts (less :: (inner ++ us)) → FindsLate (do
      if name = "id" then do
        let protocols ← list false .less .greater (Ident.name <$> identifier .conformance)
        return ObjcType.id protocols
      else do
        let argument : Rule ObjcType := do
          let _ ← qualifiers
          return (← objcType fuel).1
        return ObjcType.generic name (← list false .less .greater argument))
      (less :: inner) us type (s.past words ts))
    (hs : Halved s.rest (words ++ less :: (inner ++ us))) :
    FindsLate (listedType fuel) (words ++ less :: inner) us type s := by
  have hword : NoWord (less :: (inner ++ us)) :=
    .of_ne (by rw [ReadState.kindOf_cons, hl]; decide)
  refine (finds_baseName hname hword hs).bindLate fun ts hts => FindsLate.state ?_
  have hless : (s.past words ts).current = .less := hts.kindOf_of hl (by decide)
  rw [if_pos hless]
  exact h ts hts

/-- A type of which the list is found late is found late with its stars. -/
theorem findsLate_starred {head stars us : List Token} {base type : ObjcType}
    {nullability : Option Nullability} {fuel : Nat} {s : ReadState}
    (hhead : ∀ (fuel : Nat) (us : List Token) (s : ReadState), s.speculating = false →
      Halved s.rest (head ++ us) → FindsLate (listedType fuel) head us base s)
    (hstars : Stars base none stars type nullability) (hstar : kindOf us ≠ .star)
    (hfree : stars ≠ [] → startsWithQualifier us = false)
    (hspeculating : s.speculating = false) (hs : Halved s.rest (head ++ (stars ++ us))) :
    FindsLate (objcType fuel) (head ++ stars) us (type, nullability) s := by
  cases fuel with
  | zero => exact trivial
  | succ fuel =>
    rw [objcType_succ]
    exact FindsLate.bind (hhead fuel _ s hspeculating hs) fun e ts hts =>
      Finds.state (finds_stars hstars hstar hfree _ _ hts)

/-- A type with a comma too many is found up to its stars, with the error that an item is missing. -/
theorem findsLate_listedType {front : List Token} {type : ObjcType} (h : Overrun front type) :
    ∀ (fuel : Nat) (us : List Token) (s : ReadState), s.speculating = false →
      Halved s.rest (front ++ us) → FindsLate (listedType fuel) front us type s := by
  induction h with
  | @protocols word less greater names inner hid hl hsome hitems hcommas hg =>
    intro fuel us s hspeculating hs
    have hname : NameSpelling [word] "id" := hid.2 ▸ .single hid.1
    rw [← List.singleton_append] at hs ⊢
    refine findsLate_behindName hname hl (fun ts hts => ?_) (by simpa using hs)
    rw [if_pos rfl]
    have hlist := findsLate_list hl hg (findsItems_protocols hitems) (by rwa [List.map_map])
      (fun h => hsome (List.map_eq_nil_iff.mp h)) (s := s.past [word] ts) hspeculating
      (by simpa using hts)
    rw [List.map_map] at hlist
    exact hlist.map ObjcType.id
  | @generic words inner less greater name arguments hname hne hl hsome hled hitems hcommas hg =>
    intro fuel us s hspeculating hs
    refine findsLate_behindName hname hl (fun ts hts => ?_) (by simpa using hs)
    rw [if_neg hne]
    have hread : FindsItems (do
        let _ ← qualifiers
        return (← objcType fuel).1) (arguments.map fun a => (a.tokens, a.type)) :=
      findsItems_arguments hled hitems fun a ha => finds_objcType (hitems a ha) fuel
    have hlist := findsLate_list hl hg hread (by rwa [List.map_map])
      (fun h => hsome (List.map_eq_nil_iff.mp h)) (s := s.past words ts) hspeculating
      (by simpa using hts)
    rw [List.map_map] at hlist
    exact hlist.map (ObjcType.generic name)
  | @inside words before quals head stars after less greater name befores afters base type nullability
      hname hne hl hled hitems hheading hq hfree hover hpointed hbehind hg ih =>
    intro fuel us s hspeculating hs
    obtain ⟨hled, hled'⟩ := List.forall_mem_append.mp hled
    obtain ⟨hitems, hitems'⟩ := List.forall_mem_append.mp hitems
    have hpiece : ∀ us (s : ReadState), EndsItem us → s.speculating = false →
        Halved s.rest (quals ++ (head ++ stars) ++ us) → FindsLate (do
          let _ ← qualifiers
          return (← objcType fuel).1) (quals ++ (head ++ stars)) us type s := by
      intro us s hends hspeculating hs
      obtain ⟨t, more, rfl⟩ := hover.exists_cons
      have hrow : quals ++ (t :: more ++ stars) ++ us = quals ++ (t :: more ++ (stars ++ us)) := by simp
      have hfree' : startsWithQualifier (t :: more ++ (stars ++ us)) = false := hfree
      rw [hrow] at hs
      exact (finds_qualifiers hq hfree' hs).bindLate fun ts hts =>
        (findsLate_starred (s := s.past quals ts) ih hpointed (EndsType.of_endsItem hends).noStar
          (fun _ => (EndsType.of_endsItem hends).noQualifier) hspeculating hts).map Prod.fst
    refine findsLate_behindName hname hl (fun ts hts => ?_) (by simpa using hs)
    rw [if_neg hne]
    have hread : ∀ arguments : List Argument, (∀ a ∈ arguments, a.Led) →
        (∀ a ∈ arguments, Spelling a.body a.type a.nullability) → FindsItems (do
          let _ ← qualifiers
          return (← objcType fuel).1) (arguments.map fun a => (a.tokens, a.type)) :=
      fun _ hled hitems => findsItems_arguments hled hitems fun a ha => finds_objcType (hitems a ha) fuel
    have hlist := findsLate_list_inside hl hg (hread befores hled hitems) (by rwa [List.map_map])
      (hread afters hled' hitems') (by rwa [List.map_map]) ?_ hpiece (s := s.past words ts)
      hspeculating (by simpa using hts)
    · rw [List.map_map, List.map_map] at hlist
      exact hlist.map (ObjcType.generic name)
    · cases quals with
      | nil => exact hover.starts stars
      | cons q quals => exact (hq q List.mem_cons_self).kind

/-- Reading a type with a comma too many finds it, with the error that an item is missing. -/
theorem findsLate_objcType {head stars us : List Token} {base type : ObjcType}
    {nullability : Option Nullability} (h : Overrun head base)
    (hstars : Stars base none stars type nullability) (hstar : kindOf us ≠ .star)
    (hfree : stars ≠ [] → startsWithQualifier us = false) (fuel : Nat) (s : ReadState)
    (hspeculating : s.speculating = false) (hs : Halved s.rest (head ++ (stars ++ us))) :
    FindsLate (objcType fuel) (head ++ stars) us (type, nullability) s :=
  findsLate_starred (findsLate_listedType h) hstars hstar hfree hspeculating hs

end Grammar

end HeaderBridge
