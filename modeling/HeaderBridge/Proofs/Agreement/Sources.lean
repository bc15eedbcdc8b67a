/-
  What is read from a source depends on its tokens alone, without comments and preprocessor lines:
  on what kinds they are of and how they are spelt, and not on where they stand. Two sources with the
  same tokens have trees that differ in offsets only, the same messages, and the same expression.
-/
import HeaderBridge.Proofs.Agreement.Expressions
import HeaderBridge.Proofs.Recovery.Insertion

namespace HeaderBridge

open Bare (bare)
open Rule

/-! ## Trees without offsets -/

namespace Node

mutual

/-- The tree with its numbers, in which every range and every place in a kind is the empty one at the
    start. -/
def withoutOffsets : Node → Node
  | ⟨id, kind, range, children⟩ => ⟨id, bare kind, bare range, withoutOffsetsAll children⟩

def withoutOffsetsAll : List Node → List Node
  | [] => []
  | n :: ns => withoutOffsets n :: withoutOffsetsAll ns

end

/-- What `withoutPlaces` forgets of a node and `withoutOffsets` does not. -/
def mark (n : Node) : Nat × Option Span := (n.id, bare n.range)

mutual

theorem length_sequence_eq : ∀ {n m : Node}, bare n = bare m →
    n.sequence.length = m.sequence.length
  | ⟨_, _, _, children⟩, ⟨_, _, _, children'⟩, h => by
    obtain ⟨_, hchildren⟩ := bare_eq_iff.mp h
    rw [sequence, sequence, List.length_cons, List.length_cons, length_sequenceAll_eq hchildren]

theorem length_sequenceAll_eq : ∀ {ns ms : List Node}, bare ns = bare ms →
    (sequenceAll ns).length = (sequenceAll ms).length
  | [], [], _ => rfl
  | n :: ns, m :: ms, h => by
    obtain ⟨hn, hns⟩ := List.cons.inj h
    rw [sequenceAll, sequenceAll, List.length_append, List.length_append, length_sequence_eq hn,
      length_sequenceAll_eq hns]
  | [], _ :: _, h => by cases h
  | _ :: _, [], h => by cases h

end

mutual

/-- Trees that are the same but for places differ in offsets only, if their nodes in order have the
    same numbers and if ranges are missing at the same nodes. -/
theorem withoutOffsets_eq : ∀ {n m : Node}, bare n = bare m →
    n.sequence.map mark = m.sequence.map mark → n.withoutOffsets = m.withoutOffsets
  | ⟨_, _, _, children⟩, ⟨_, _, _, children'⟩, h, hmarks => by
    obtain ⟨hkind, hchildren⟩ := bare_eq_iff.mp h
    rw [sequence, sequence, List.map_cons, List.map_cons] at hmarks
    obtain ⟨hmark, hbelow⟩ := List.cons.inj hmarks
    obtain ⟨hid, hrange⟩ := Prod.mk.inj hmark
    rw [withoutOffsets, withoutOffsets, withoutOffsetsAll_eq hchildren hbelow]
    simp only [mk.injEq, and_true]
    exact ⟨hid, hkind, hrange⟩

theorem withoutOffsetsAll_eq : ∀ {ns ms : List Node}, bare ns = bare ms →
    (sequenceAll ns).map mark = (sequenceAll ms).map mark →
    withoutOffsetsAll ns = withoutOffsetsAll ms
  | [], [], _, _ => rfl
  | n :: ns, m :: ms, h, hmarks => by
    obtain ⟨hn, hns⟩ := List.cons.inj h
    rw [sequenceAll, sequenceAll, List.map_append, List.map_append] at hmarks
    have hlength : (n.sequence.map mark).length = (m.sequence.map mark).length := by
      rw [List.length_map, List.length_map, length_sequence_eq hn]
    obtain ⟨hfirst, hbehind⟩ := List.append_inj hmarks hlength
    rw [withoutOffsetsAll, withoutOffsetsAll, withoutOffsets_eq hn hfirst,
      withoutOffsetsAll_eq hns hbehind]
  | [], _ :: _, h, _ => by cases h
  | _ :: _, [], h, _ => by cases h

end

namespace WellFormed

variable {root root' : Node} {row row' : List Token} {span span' : Span}

/-- In a well-formed tree the marks follow from the number of nodes. -/
theorem marks (h : root.WellFormed row) (hrange : root.range = some span) :
    root.sequence.map mark =
      (List.range root.sequence.length).map fun id => (id, some (Span.point 0)) := by
  rw [← h.numbered, List.map_map]
  refine List.map_congr_left fun n hn => ?_
  have hcovered : ∃ span, n.range = some span := by
    rw [sequence_eq, List.mem_cons] at hn
    rcases hn with rfl | hn
    · exact ⟨span, hrange⟩
    · obtain ⟨own, _, hown, _⟩ := h.covered n hn
      exact ⟨own, hown⟩
  obtain ⟨own, hown⟩ := hcovered
  show (n.id, bare n.range) = (n.id, some (Span.point 0))
  rw [hown]
  rfl

theorem withoutOffsets_eq (h : root.WellFormed row) (h' : root'.WellFormed row')
    (hrange : root.range = some span) (hrange' : root'.range = some span')
    (hbare : bare root = bare root') : root.withoutOffsets = root'.withoutOffsets := by
  apply Node.withoutOffsets_eq hbare
  rw [h.marks hrange, h'.marks hrange', length_sequence_eq hbare]

end WellFormed

end Node

/-! ## Sources with the same tokens -/

/-- The kinds and the texts of tokens, without comments and preprocessor lines. -/
def shownFaces (tokens : List Token) : List (TokenKind × String) :=
  (tokens.filter fun t => t.kind != .comment && t.kind != .directive).map Token.face

theorem faces_significant (tokens : List Token) : (significant tokens).map Token.face =
    (shownFaces tokens).filter fun face => face.1 != .endOfFile := by
  unfold significant shownFaces
  rw [List.filter_map, List.filter_filter]
  congr 1
  apply List.filter_congr
  intro t _
  exact (Bool.and_comm ..).symm

section Sources

variable {source source' : String}

theorem alike_start (h : shownFaces (tokenize source) = shownFaces (tokenize source'))
    (log log' : DiagnosticLog) (origin origin' : Option String) :
    Alike none (.start source (tokenize source) log origin)
      (.start source' (tokenize source') log' origin') := by
  refine ⟨?_, rfl, rfl⟩
  show (significant (tokenize source)).map Token.face =
    (significant (tokenize source')).map Token.face
  rw [faces_significant, faces_significant, h]

theorem messages_eq_of_causes {es es' : List SyntaxError}
    (h : es.map SyntaxError.cause = es'.map SyntaxError.cause) :
    es.map SyntaxError.message = es'.map SyntaxError.message := by
  have hmessages := congrArg (List.map SyntaxError.Cause.message) h
  rwa [List.map_map, List.map_map] at hmessages

/-- Headers with the same tokens have trees that differ in offsets only, and the same messages. -/
theorem read_header_of_faces (h : shownFaces (tokenize source) = shownFaces (tokenize source'))
    (log log' : DiagnosticLog) (origin origin' : Option String) :
    ∃ header header', Header.read source log origin = .ok header ∧
      Header.read source' log' origin' = .ok header' ∧
      header.root.withoutOffsets = header'.root.withoutOffsets ∧
      header.errors.map SyntaxError.message = header'.errors.map SyntaxError.message := by
  obtain ⟨s, hdone, _⟩ := exists_header_done source log origin
  obtain ⟨s', hdone', _⟩ := exists_header_done source' log' origin'
  obtain ⟨root, row, hroot, _, hread, hwell⟩ := exists_read_of_header hdone
  obtain ⟨root', row', hroot', _, hread', hwell'⟩ := exists_read_of_header hdone'
  have hagreed := (Grammar.header_agreeAt _ _).agreed (alike_start h log log' origin origin')
    (not_ranOut_none _)
  rw [hdone, hdone'] at hagreed
  cases hagreed with
  | doneOut _ _ out => exact absurd out (not_ranOut_none _)
  | done _ _ gain =>
    obtain ⟨n, n', hn, hn', hbare⟩ := gain.root rfl rfl
    obtain rfl : root = n := List.cons.inj (hroot.symm.trans hn) |>.1
    obtain rfl : root' = n' := List.cons.inj (hroot'.symm.trans hn') |>.1
    obtain ⟨es, es', hes, hes', hcauses⟩ := gain.errors
    have hparts := Node.bare_eq_iff.mp hbare
    refine ⟨_, _, hread, hread', ?_, messages_eq_of_causes ?_⟩
    · exact hwell.withoutOffsets_eq hwell' rfl rfl (Node.bare_eq_iff.mpr hparts)
    · rw [hes, hes']
      exact hcauses

end Sources

/-! ## Single expressions -/

/-- Two outcomes are the same expression, or errors of one cause, unless one of them breaks. -/
inductive SameAnswer : Outcome ObjcExpr → Outcome ObjcExpr → Prop where
  | done (e : ObjcExpr) (t t' : ReadState) : SameAnswer (.done e t) (.done e t')
  | failed {e e' : SyntaxError} (t t' : ReadState) (causes : e.cause = e'.cause) :
    SameAnswer (.failed e t) (.failed e' t')
  | broken (fault : Fault) (o' : Outcome ObjcExpr) : SameAnswer (.broken fault) o'
  | brokenToo (o : Outcome ObjcExpr) (fault : Fault) : SameAnswer o (.broken fault)

namespace Grammar

/-- What is asked of the text behind an expression, and of the errors in it. -/
def wholeEnd (e : ObjcExpr) : Rule ObjcExpr := do
  let s ← Rule.state
  if s.current ≠ .endOfFile then failHere .leftOver
  else
    match s.errors.toList.head? with
    | some error => fun s => .failed error s
    | none => return e

theorem wholeExpression_eq : wholeExpression = (do
    if (← Rule.state).current = .endOfFile then failHere .expression
    else expression >>= wholeEnd) := rfl

variable {s s' t t' : ReadState}

theorem sameAnswer_wholeEnd (e : ObjcExpr) (halike : Alike none t t')
    (hcauses : t.errors.toList.map SyntaxError.cause = t'.errors.toList.map SyntaxError.cause) :
    SameAnswer (wholeEnd e t) (wholeEnd e t') := by
  have hcurrent := halike.current_eq (not_ranOut_none _)
  show SameAnswer ((if t.current ≠ .endOfFile then _ else _ : Rule ObjcExpr) t)
    ((if t'.current ≠ .endOfFile then _ else _ : Rule ObjcExpr) t')
  rw [← hcurrent]
  split
  · exact .failed t t' rfl
  · cases herrors : t.errors.toList with
    | nil =>
      rw [herrors] at hcauses
      rw [List.map_eq_nil_iff.mp hcauses.symm]
      exact .done e t t'
    | cons error errors =>
      cases herrors' : t'.errors.toList with
      | nil =>
        rw [herrors, herrors'] at hcauses
        cases hcauses
      | cons error' errors' =>
        rw [herrors, herrors'] at hcauses
        exact .failed t t' (List.cons.inj hcauses).1

theorem sameAnswer_wholeExpression (halike : Alike none s s') (herrors : s.errors = #[])
    (herrors' : s'.errors = #[]) : SameAnswer (wholeExpression s) (wholeExpression s') := by
  have hcurrent := halike.current_eq (not_ranOut_none _)
  have hagreed := (expression_agreeAt s s').agreed halike (not_ranOut_none _)
  rw [wholeExpression_eq]
  show SameAnswer ((if s.current = .endOfFile then _ else _ : Rule ObjcExpr) s)
    ((if s'.current = .endOfFile then _ else _ : Rule ObjcExpr) s')
  rw [← hcurrent]
  split
  · exact .failed s s' rfl
  · rw [bind_apply, bind_apply]
    generalize expression s = o at hagreed
    generalize expression s' = o' at hagreed
    cases hagreed with
    | broken fault o' => exact .broken fault _
    | brokenToo o fault => exact .brokenToo _ fault
    | doneOut _ _ out => exact absurd out (not_ranOut_none _)
    | failedOut _ _ out => exact absurd out (not_ranOut_none _)
    | failed causes _ _ _ => exact .failed _ _ causes
    | @done e e' t t' values alike gain =>
      obtain rfl : e = e' := values
      obtain ⟨es, es', hes, hes', hcauses⟩ := gain.errors
      rw [herrors] at hes
      rw [herrors'] at hes'
      refine sameAnswer_wholeEnd e alike ?_
      rw [hes, hes']
      exact hcauses

end Grammar

theorem read_expr_of_faces {source source' : String}
    (h : shownFaces (tokenize source) = shownFaces (tokenize source')) :
    ∃ answer answer', ObjcExpr.read source = .ok answer ∧ ObjcExpr.read source' = .ok answer' ∧
      answer.mapError SyntaxError.message = answer'.mapError SyntaxError.message := by
  obtain ⟨answer, hread⟩ := exists_read_expr source
  obtain ⟨answer', hread'⟩ := exists_read_expr source'
  refine ⟨answer, answer', hread, hread', ?_⟩
  have hsame := Grammar.sameAnswer_wholeExpression (alike_start h .empty .empty none none) rfl rfl
  unfold ObjcExpr.read at hread hread'
  generalize Grammar.wholeExpression (.start source (tokenize source) .empty none) = o at hsame hread
  generalize Grammar.wholeExpression (.start source' (tokenize source') .empty none) = o' at hsame hread'
  cases hsame with
  | done e t t' =>
    cases hread
    cases hread'
    rfl
  | @failed e e' t t' causes =>
    cases hread
    cases hread'
    show Except.error e.message = Except.error e'.message
    rw [SyntaxError.message, SyntaxError.message, causes]
  | broken fault o' => cases hread
  | brokenToo o fault => cases hread'

/-- Only the significant tokens of a source are seen: where two sources have the same ones, the trees
    of both as headers are the same but for offsets and their errors have the same messages, and as
    expressions they are the same expression or have the same message. -/
theorem read_of_faces {source source' : String}
    (h : shownFaces (tokenize source) = shownFaces (tokenize source')) :
    (∀ log log' origin origin', ∃ header header', Header.read source log origin = .ok header ∧
      Header.read source' log' origin' = .ok header' ∧
      header.root.withoutOffsets = header'.root.withoutOffsets ∧
      header.errors.map SyntaxError.message = header'.errors.map SyntaxError.message) ∧
    ∃ answer answer', ObjcExpr.read source = .ok answer ∧ ObjcExpr.read source' = .ok answer' ∧
      answer.mapError SyntaxError.message = answer'.mapError SyntaxError.message :=
  ⟨read_header_of_faces h, read_expr_of_faces h⟩

theorem shownFaces_property : shownFaces (tokenize "@interface A @property G<G<B>>c; @end") =
    shownFaces (tokenize "@interface A\n#if x\n@property G<G < B/**/>> c;//\n@end") := by
  cbv

theorem shownFaces_comparison : shownFaces (tokenize "(a<b>>c)") =
    shownFaces (tokenize "( a < /**/ b\n#if x\n>> c )") := by
  cbv

/-- A property whose type ends in a double bracket, and a comparison whose shift operator a try takes
    apart, each with and without comments, directives and blanks in between. -/
theorem read_of_faces_brackets :
    (shownFaces (tokenize "@interface A @property G<G<B>>c; @end") =
        shownFaces (tokenize "@interface A\n#if x\n@property G<G < B/**/>> c;//\n@end") ∧
      ∃ header header', Header.read "@interface A @property G<G<B>>c; @end" = .ok header ∧
        Header.read "@interface A\n#if x\n@property G<G < B/**/>> c;//\n@end" = .ok header' ∧
        header.root.withoutOffsets = header'.root.withoutOffsets ∧
        header.errors.map SyntaxError.message = header'.errors.map SyntaxError.message) ∧
    (shownFaces (tokenize "(a<b>>c)") = shownFaces (tokenize "( a < /**/ b\n#if x\n>> c )") ∧
      ∃ answer answer', ObjcExpr.read "(a<b>>c)" = .ok answer ∧
        ObjcExpr.read "( a < /**/ b\n#if x\n>> c )" = .ok answer' ∧
        answer.mapError SyntaxError.message = answer'.mapError SyntaxError.message) :=
  ⟨⟨shownFaces_property, (read_of_faces shownFaces_property).1 .empty .empty none none⟩,
    ⟨shownFaces_comparison, (read_of_faces shownFaces_comparison).2⟩⟩

end HeaderBridge
