/-
  What a source reads as alone, its tokens read as wherever they stand in front of a closing
  delimiter. A row shows a source if it has the kinds and texts of the tokens that the grammar sees in
  the source; where the tokens stand does not matter, and neither does what is behind the delimiter.
  This holds for an expression, and for a type in a try. A type that the source is not is none in
  front of the delimiter either, and the try takes no double bracket apart if it meets none in the
  source.
-/
import HeaderBridge.Proofs.Agreement.Sources
import HeaderBridge.Proofs.Enclosing.Expressions
import HeaderBridge.Proofs.Expr.Exact
import HeaderBridge.Proofs.Tree.WellFormed

namespace HeaderBridge

open Bare (bare)
open ReadState (kindOf Shuts)

/-! ## States of a reader -/

namespace ReadState

variable {s : ReadState} {front rest row tail : List Token}

/-- A reader between declarations and expressions, whose tokens lie in order. -/
structure Ready (s : ReadState) : Prop where
  sound : s.Sound
  speculating : s.speculating = false
  inOptional : s.inOptional = false

theorem ready_start (source : String) :
    (ReadState.start source (tokenize source) .empty none).Ready :=
  ⟨sound_start source .empty none, rfl, rfl⟩

theorem Ready.past (h : s.Ready) (hr : Halved s.rest (front ++ rest)) : (s.past front rest).Ready :=
  ⟨Forward.sound ⟨⟨front, rfl, hr⟩, rfl, rfl⟩ h.sound, h.speculating, h.inOptional⟩

theorem Ready.past_cons {t : Token} (h : s.Ready) (hr : s.rest = t :: rest) :
    (s.past [t] rest).Ready :=
  h.past (by rw [hr]; exact .refl _)

/-- The state is sound as well if the row ends earlier. -/
theorem Sound.cut (h : s.Sound) (hr : s.rest = row ++ tail) :
    ReadState.Sound { s with rest := row } := by
  obtain ⟨upper, hall⟩ := h.inOrder
  rw [hr, ← List.append_assoc] at hall
  obtain ⟨last, hrow, _⟩ := inOrder_append.mp hall
  exact ⟨⟨last, hrow⟩, h.opened⟩

theorem before_cut (hr : s.rest = row ++ tail) : ReadState.before { s with rest := row } tail = s := by
  unfold before
  rw [← hr]

end ReadState

open ReadState (Ready)

/-- The row has the kinds and texts of the tokens that the grammar sees in the source. -/
def IsRowOf (source : String) (row : List Token) : Prop :=
  row.map Token.face = (significant (tokenize source)).map Token.face

/-- All of the source is read as a type when a type is tried. -/
def ReadsAsType (source : String) : Prop :=
  ∃ name t, Grammar.typeName { ReadState.start source (tokenize source) .empty none with
    speculating := true } = .done name t ∧ t.rest = []

/-- All of the source is read as the type when a type is tried. -/
def ReadsAs (source : String) (type : ObjcType) : Prop :=
  ∃ name t, Grammar.typeName { ReadState.start source (tokenize source) .empty none with
    speculating := true } = .done name t ∧ t.rest = [] ∧ name.type = type

theorem readsAsType_iff {source : String} : ReadsAsType source ↔ ∃ type, ReadsAs source type := by
  constructor
  · rintro ⟨name, t, hrun, hnil⟩
    exact ⟨name.type, name, t, hrun, hnil, rfl⟩
  · rintro ⟨_, name, t, hrun, hnil, -⟩
    exact ⟨name, t, hrun, hnil⟩

/-! ## Expressions -/

theorem Rule.Ends.weaken {α : Type} {B : Prop} {r : Rule α} {s : ReadState}
    {Q : α → ReadState → Prop} {E : SyntaxError → ReadState → Prop} (h : Ends False r s Q E) :
    Ends B r s Q E := by
  unfold Ends at h ⊢
  cases hrun : r s with
  | broken fault =>
    rw [hrun] at h
    exact h.elim
  | _ => rwa [hrun] at h

namespace Grammar

open Rule

variable {s : ReadState} {tail : List Token}

/-- What a whole text comes to was read to its end by the rule for expressions. -/
theorem wholeExpression_reads (hs : s.Sound) (hkinds : ∀ t ∈ s.rest, t.kind ≠ .endOfFile) :
    Ends True wholeExpression s (fun e _ => ∃ t, expression s = .done e t ∧ t.rest = [])
      fun _ _ => True := by
  have hself : Ends True expression s (fun e t => expression s = .done e t) fun _ _ => True := by
    unfold Ends
    cases hrun : expression s <;> trivial
  have hsafe : Ends True expression s (fun _ t => Passage s t) fun _ t => Passage s t :=
    Ends.weaken (expression_safeAt hs)
  unfold wholeExpression
  refine ends_bind.mpr (ends_state.mpr (ends_ite.mpr ⟨fun _ => trivial, fun _ => ?_⟩))
  refine ends_bind.mpr ((Ends.and hself hsafe).mono (fun e t ht => ?_) fun _ _ _ => trivial)
  obtain ⟨hrun, hpassage⟩ := ht
  refine ends_bind.mpr (ends_state.mpr (ends_ite.mpr ⟨fun _ => trivial, fun hend => ?_⟩))
  have hnil : t.rest = [] := by
    cases hrest : t.rest with
    | nil => rfl
    | cons u rest =>
      have hu : u.kind = .endOfFile := by
        rw [← ReadState.current_of_cons hrest]
        exact not_not.mp hend
      obtain ⟨front, _, hrow⟩ := hpassage.forward.moved
      have hmem : u ∈ front ++ t.rest := by
        rw [hrest]
        exact List.mem_append_right front List.mem_cons_self
      have hbefore := (hrow.mem_iff_of_kind hu (by decide)).mp hmem
      exact absurd hu (hkinds u hbefore)
  cases t.errors.toList.head? with
  | some error => trivial
  | none => exact ⟨t, hrun, hnil⟩

/-- A source that is an expression is read to its end by the rule for expressions. -/
theorem exists_expression_of_read {source : String} {e : ObjcExpr}
    (hread : ObjcExpr.read source = .ok (.ok e)) :
    ∃ t, expression (.start source (tokenize source) .empty none) = .done e t ∧ t.rest = [] := by
  obtain ⟨u, hu⟩ := read_eq_ok_iff_done.mp hread
  exact (wholeExpression_reads (sound_start source .empty none)
    fun t ht => ne_endOfFile_of_significant ht).of_done hu

/-- What a source is as an expression, its tokens are in front of a closing delimiter. -/
theorem expressionFrom_yields {source : String} {e : ObjcExpr} {row : List Token}
    (hread : ObjcExpr.read source = .ok (.ok e)) (hrow : IsRowOf source row) (hs : s.Ready)
    (hr : s.rest = row ++ tail) (htail : Shuts tail) :
    ∃ front, Halved row front ∧ Solid front ∧
      ∀ fuel, Yields (expressionFrom fuel 0) e front tail s := by
  obtain ⟨t, ht, hnil⟩ := exists_expression_of_read hread
  -- The end of the row is put where the delimiter is.
  have halike : Alike none (.start source (tokenize source) .empty none) { s with rest := row } :=
    ⟨hrow.symm, hs.speculating.symm, hs.inOptional.symm⟩
  have hagreed := (expression_agreeAt _ _).agreed halike (not_ranOut_none _)
  have hsafe := expression_safeAt (hs.sound.cut hr)
  rw [ht] at hagreed
  generalize hrun : expression { s with rest := row } = o at hagreed
  cases hagreed with
  | brokenToo _ fault =>
    unfold SafeAt Ends at hsafe
    rw [hrun] at hsafe
    exact hsafe.elim
  | doneOut _ _ out => exact absurd out (not_ranOut_none _)
  | @done _ e' _ t' values alike _ =>
    obtain rfl : e = e' := values
    have hnil' : t'.rest = [] := by
      have hfaces : t.rest.map Token.face = t'.rest.map Token.face := alike.facing
      rw [hnil] at hfaces
      exact List.map_eq_nil_iff.mp hfaces.symm
    have henclosed : ∀ fuel, ReadState.Consumes { s with rest := row } Solid t' ∧
        LeadsTo (expressionFrom fuel 0) e (t'.before tail) s := fun fuel => by
      have h := (expressionFrom_enclosed htail _ fuel 0 { s with rest := row }).of_done hrun
      rwa [ReadState.before_cut hr] at h
    obtain ⟨⟨front, rest, hhalved, hfront, rfl⟩, _⟩ := henclosed 0
    obtain rfl : rest = [] := hnil'
    rw [List.append_nil] at hhalved
    exact ⟨front, hhalved, hfront, fun fuel => (henclosed fuel).2⟩

/-- A source that is an expression has only tokens that are some. -/
theorem kind_ne_invalid_of_read {source : String} {e : ObjcExpr}
    (hread : ObjcExpr.read source = .ok (.ok e)) :
    ∀ t ∈ significant (tokenize source), t.kind ≠ .invalid := by
  have htail : Shuts [⟨.rightParen, ")", Span.point 0⟩] := .inl rfl
  obtain ⟨t, ht, hnil⟩ := exists_expression_of_read hread
  obtain ⟨⟨front, rest, hhalved, hfront, rfl⟩, _⟩ := (expression_enclosed htail _).of_done ht
  obtain rfl : rest = [] := hnil
  intro t ht hk
  rw [List.append_nil] at hhalved
  have hmem := (hhalved.mem_iff_of_kind hk (by decide)).mpr ht
  exact hfront.1.kind_ne_invalid t hmem hk

end Grammar

/-! ## Types -/

/-- Where no double bracket was taken apart, none is on a row of the same faces. -/
theorem ReadState.Reads.of_walks {s t s' t' : ReadState} (hread : s.Reads t) (hwalks : s.Walks t)
    (hwalks' : s'.Walks t') (hfaces : s.rest.map Token.face = s'.rest.map Token.face)
    (hbehind : t.rest.map Token.face = t'.rest.map Token.face) : s'.Reads t' := by
  obtain ⟨front, rest, hrow, rfl⟩ := hread
  obtain ⟨_, _, hhalved, hwhole, hsame⟩ := hwalks
  obtain ⟨rfl, rfl⟩ := Grammar.past_injective hsame
  obtain ⟨front', rest', hhalved', hwhole', rfl⟩ := hwalks'
  have hfront := faces_front_of_halved hfaces hhalved hhalved' hwhole hwhole' hbehind
  have hlength : (front' ++ rest').length = s'.rest.length := by
    have hfaces := congrArg List.length hfaces
    have hfront := congrArg List.length hfront
    have hbehind := congrArg List.length hbehind
    rw [hrow] at hfaces
    simp only [List.length_map, List.length_append, ReadState.past_rest] at hfaces hfront hbehind ⊢
    omega
  exact ⟨front', rest', hhalved'.eq_of_length (Nat.le_of_eq hlength), rfl⟩

namespace Grammar

open Rule

variable {s : ReadState} {source : String} {row tail : List Token}

/-- What a try of a type comes to on a source, it comes to on a row of the source. -/
theorem typeName_agreed (hrow : IsRowOf source row) (hs : s.Ready) (hr : s.rest = row ++ tail) :
    (∃ name t name' t', typeName { ReadState.start source (tokenize source) .empty none with
        speculating := true } = .done name t ∧
      typeName { s with rest := row, speculating := true } = .done name' t' ∧
      t.rest.map Token.face = t'.rest.map Token.face ∧ name.type = name'.type) ∨
    ∃ e t e' t', typeName { ReadState.start source (tokenize source) .empty none with
        speculating := true } = .failed e t ∧
      typeName { s with rest := row, speculating := true } = .failed e' t' ∧
      t.rest.map Token.face = t'.rest.map Token.face := by
  have hsound := (sound_start source .empty none).speculate
  have hsound' := (hs.sound.cut hr).speculate
  have hagree : AgreeAt none typeName typeName
      { ReadState.start source (tokenize source) .empty none with speculating := true }
      { s with rest := row, speculating := true } := typeName_agreeAt _ _
  have hagreed := hagree.agreed ⟨hrow.symm, rfl, hs.inOptional.symm⟩ (not_ranOut_none _)
  rcases (typeName_gainAt hsound).cases with ⟨name, t, hrun, -⟩ | ⟨e, t, hrun, -⟩ <;>
    rcases (typeName_gainAt hsound').cases with ⟨name', t', hrun', -⟩ | ⟨e', t', hrun', -⟩ <;>
    rw [hrun, hrun'] at hagreed
  · cases hagreed with
    | doneOut _ _ out => exact absurd out (not_ranOut_none _)
    | done values alike _ =>
      have htype : (bare name).type = (bare name').type := congrArg TypeName.type values
      exact .inl ⟨name, t, name', t', hrun, hrun', alike.facing, htype⟩
  · cases hagreed with
    | doneOut _ _ out => exact absurd out (not_ranOut_none _)
  · cases hagreed with
    | failedOut _ _ out => exact absurd out (not_ranOut_none _)
  · cases hagreed with
    | failedOut _ _ out => exact absurd out (not_ranOut_none _)
    | failed _ _ alike _ => exact .inr ⟨e, t, e', t', hrun, hrun', alike.facing⟩

/-- A source that is a type is the same type in front of a closing delimiter. -/
theorem typeName_yields {type : ObjcType} (htype : ReadsAs source type) (hrow : IsRowOf source row)
    (hs : s.Ready) (hr : s.rest = row ++ tail) (htail : Shuts tail) :
    ∃ name front, name.type = type ∧ Halved row front ∧ OfTypes front ∧
      Yields typeName name front tail { s with speculating := true } := by
  obtain ⟨name, t, hrun, hnil, rfl⟩ := htype
  obtain ⟨_, _, name', t', hsame, hrun', hbehind, hvalue⟩ | ⟨_, _, _, _, hsame, _⟩ :=
    typeName_agreed hrow hs hr
  · cases hrun.symm.trans hsame
    rw [hnil] at hbehind
    have hnil' : t'.rest = [] := List.map_eq_nil_iff.mp hbehind.symm
    obtain ⟨⟨front, rest, hhalved, hfront, rfl⟩, hleads⟩ :=
      (typeName_enclosed htail rfl).of_done hrun'
    obtain rfl : rest = [] := hnil'
    rw [List.append_nil] at hhalved
    have hwhole := ReadState.before_cut (s := { s with speculating := true }) hr
    exact ⟨name', front, hvalue.symm, hhalved, hfront, hwhole ▸ hleads⟩
  · cases hrun.symm.trans hsame

/-- A source that is no type is none in front of a closing delimiter, and reading it only reads: the
    type fails, or ends somewhere in the row. -/
theorem typeName_stops (htype : ¬ ReadsAsType source)
    (hdouble : ¬ MeetsDouble (significant (tokenize source))) (hrow : IsRowOf source row)
    (hs : s.Ready) (hr : s.rest = row ++ tail) (htail : Shuts tail) :
    ∃ front rest, row = front ++ rest ∧
      (Refuses typeName (ReadState.past { s with speculating := true } front (rest ++ tail))
          { s with speculating := true } ∨
        rest ≠ [] ∧ OfTypes front ∧
          ∃ name, Yields typeName name front (rest ++ tail) { s with speculating := true }) := by
  have hwhole : ReadState.before { s with rest := row, speculating := true } tail =
      { s with speculating := true } := ReadState.before_cut (s := { s with speculating := true }) hr
  have hreads := typeName_readsAt (s := { ReadState.start source (tokenize source) .empty none with
    speculating := true }) rfl hdouble
  have hwalks := typeName_tracksAt ReadState.tracks_walks
    (s := { ReadState.start source (tokenize source) .empty none with speculating := true }) rfl
  have hwalks' := typeName_tracksAt ReadState.tracks_walks
    (s := { s with rest := row, speculating := true }) rfl
  have henclosed := typeName_enclosed htail (s := { s with rest := row, speculating := true }) rfl
  obtain ⟨name, t, name', t', hrun, hrun', hbehind, -⟩ | ⟨e, t, e', t', hrun, hrun', hbehind⟩ :=
    typeName_agreed hrow hs hr
  · obtain ⟨front, rest, hsplit, rfl⟩ := (hreads.of_done hrun).of_walks (hwalks.of_done hrun)
      (hwalks'.of_done hrun') hrow.symm hbehind
    obtain ⟨⟨_, _, _, hfront, hsame⟩, hleads⟩ := henclosed.of_done hrun'
    obtain ⟨rfl, rfl⟩ := past_injective hsame
    rw [hwhole] at hleads
    refine ⟨front, rest, hsplit, .inr ⟨?_, hfront, name', hleads⟩⟩
    rintro rfl
    exact htype ⟨name, t, hrun, List.map_eq_nil_iff.mp hbehind⟩
  · obtain ⟨front, rest, hsplit, rfl⟩ := (hreads.of_failed hrun).of_walks (hwalks.of_failed hrun)
      (hwalks'.of_failed hrun') hrow.symm hbehind
    have hrefuses := henclosed.of_failed hrun' trivial
    rw [hwhole] at hrefuses
    exact ⟨front, rest, hsplit, .inl hrefuses⟩

end Grammar

/-- A source that is a type has only tokens of types, some of which may be double brackets. -/
theorem ReadsAsType.kind_of_mem {source : String} (h : ReadsAsType source) :
    ∀ t ∈ significant (tokenize source),
      t.kind ∈ [TokenKind.identifier, .less, .greater, .shiftRight, .comma, .star] := by
  have htail : Shuts [⟨.rightParen, ")", Span.point 0⟩] := .inl rfl
  obtain ⟨name, t, hrun, hnil⟩ := h
  obtain ⟨⟨front, rest, hhalved, hfront, rfl⟩, _⟩ :=
    (Grammar.typeName_enclosed htail rfl).of_done hrun
  obtain rfl : rest = [] := hnil
  rw [List.append_nil] at hhalved
  intro t ht
  by_cases hdouble : t.kind = .shiftRight
  · rw [hdouble]
    decide
  by_cases hsingle : t.kind = .greater
  · rw [hsingle]
    decide
  have hkind := hfront t ((hhalved.mem_iff hdouble hsingle).mpr ht)
  simp only [List.mem_cons, List.not_mem_nil, or_false] at hkind ⊢
  tauto

end HeaderBridge
