/-
  The errors of a header and the records of its log never drift apart. The rules note an error only
  at the token at which it was noticed, so an account of the errors that are noted can be kept along
  the course of a reading (`Notes`): each of them goes to both lists at once, at the end of each,
  and starts where the reading stands, which only ever moves on. Every step of a course keeps the
  account (`Course.notes`).

  A reading only ever stands before a token, which has some bytes of the source, or at the end of the
  source, where there are none. So the span of an error is drawn uncut, and it has something to
  underline unless it lies at the end (`underlined_of_read`). There nothing is
  (`exists_nothing_underlined`).
-/
import HeaderBridge.Proofs.Recovery.Insertion

namespace HeaderBridge

/-- What the log keeps of an error. -/
def SyntaxError.record (e : SyntaxError) (origin : Option String) : Diagnostic :=
  ⟨.error, e.message, e.span, origin⟩

/-- The span is made of whole characters of the source. -/
def Span.IsCut (span : Span) (source : String) : Prop :=
  ∃ front inside back, source.toList = front ++ (inside ++ back) ∧
    span.start = byteLength front ∧ span.stop = byteLength front + byteLength inside

theorem Span.isCut_point (source : String) : (point source.utf8ByteSize).IsCut source :=
  ⟨source.toList, [], [], by rw [List.append_nil, List.append_nil], utf8ByteSize_eq source,
    utf8ByteSize_eq source⟩

theorem Token.AtPlace.isCut {source : String} {t : Token} (h : t.AtPlace source) :
    t.span.IsCut source := by
  obtain ⟨front, back, hsource, hstart, hstop⟩ := h
  exact ⟨front, _, back, hsource, hstart, hstop⟩

/-! ## Where a reading stands -/

/-- Where the first of some tokens starts, or where the source ends behind them. -/
def startOf (upper : Nat) : List Token → Nat
  | [] => upper
  | t :: _ => t.span.start

theorem ReadState.currentSpan_start (s : ReadState) :
    s.currentSpan.start = startOf s.sourceLength s.rest := by
  unfold ReadState.currentSpan
  cases s.rest with
  | nil => rfl
  | cons t rest => rfl

theorem Halved.startOf_eq {ts us : List Token} (h : Halved ts us) (upper : Nat) :
    startOf upper us = startOf upper ts := by
  cases h with
  | nil => rfl
  | keep t _ => rfl
  | halve hv _ => exact hv.first_start

theorem InOrder.le_startOf {lower upper : Nat} {ts : List Token} (h : InOrder lower upper ts) :
    lower ≤ startOf upper ts := by
  cases ts with
  | nil => exact h
  | cons t ts => exact h.1

theorem InOrder.startOf_append_le {lower upper : Nat} {front ts : List Token}
    (h : InOrder lower upper (front ++ ts)) : startOf upper (front ++ ts) ≤ startOf upper ts := by
  cases front with
  | nil => exact Nat.le_refl _
  | cons t front =>
    obtain ⟨_, hpos, _, hrest⟩ := h
    obtain ⟨m, hfront, hts⟩ := inOrder_append.mp hrest
    calc t.span.start ≤ t.span.stop := Nat.le_of_lt hpos
      _ ≤ startOf upper (front ++ ts) := hrest.le_startOf
      _ ≤ startOf upper ts := hrest.startOf_append_le

/-- A reading that goes on stands at the same place or behind it. -/
theorem Forward.currentSpan_start_le {s s' : ReadState} (h : Forward s s') (hs : s.Within) :
    s.currentSpan.start ≤ s'.currentSpan.start := by
  obtain ⟨front, _, hrest⟩ := h.moved
  obtain ⟨_, _, ho⟩ := inOrder_append.mp hs
  rw [ReadState.currentSpan_start, ReadState.currentSpan_start, h.sourceLength,
    ← hrest.startOf_eq]
  exact (hrest.inOrder ho).startOf_append_le

/-- Wherever the reading of a source stands, its current token is made of whole characters. -/
theorem Forward.isCut_currentSpan {source : String} {log : DiagnosticLog} {origin : Option String}
    {s : ReadState} (h : Forward (.start source (tokenize source) log origin) s) :
    s.currentSpan.IsCut source := by
  obtain ⟨front, _, hrest⟩ := h.moved
  unfold ReadState.currentSpan
  cases hs : s.rest with
  | nil =>
    rw [h.sourceLength]
    exact Span.isCut_point source
  | cons t rest =>
    have hmem : t ∈ front ++ s.rest := by
      rw [hs]
      exact List.mem_append_right _ List.mem_cons_self
    exact (hrest.atPlace (fun _ ht => List.mem_of_mem_filter ht) t hmem).isCut

/-! ## The account of a course -/

/-- From the first state to the second the errors were noted: both in the list of errors and in the
    log, behind what was there before. They stand in the order of the source, and each was noticed at
    a token that the reading came to. -/
structure Notes (s s' : ReadState) (es : List SyntaxError) : Prop where
  errors : s'.errors.toList = s.errors.toList ++ es
  records : s'.log.records.toList = s.log.records.toList ++ es.map (·.record s.origin)
  origin : s'.origin = s.origin
  reported : ∀ e ∈ es, e.reported = true
  noticed : ∀ e ∈ es, ∃ u, Forward s u ∧ e.span = u.currentSpan
  between : ∀ e ∈ es, s.currentSpan.start ≤ e.span.start ∧ e.span.start ≤ s'.currentSpan.start
  ordered : es.Pairwise fun e e' => e.span.start ≤ e'.span.start

namespace Notes

variable {s s' s'' : ReadState} {es es' : List SyntaxError} {e : SyntaxError}

/-- Where the lists stay as they are, nothing was noted. -/
theorem of_same (herrors : s'.errors = s.errors) (hlog : s'.log = s.log)
    (horigin : s'.origin = s.origin) : Notes s s' [] where
  errors := by rw [herrors, List.append_nil]
  records := by rw [hlog, List.map_nil, List.append_nil]
  origin := horigin
  reported := nofun
  noticed := nofun
  between := nofun
  ordered := .nil

/-- An error that was noticed at the current token goes to both lists. -/
theorem of_report (h : e.IsAt s) : ∃ e', Notes s (s.report e) [e'] := by
  obtain ⟨cause, rfl⟩ := h
  refine ⟨⟨cause, s.currentSpan, true⟩, ?_, ?_, rfl, ?_, ?_, ?_, List.pairwise_singleton _ _⟩
  · exact Array.toList_push
  · exact Array.toList_push
  · exact List.forall_mem_singleton.mpr rfl
  · exact List.forall_mem_singleton.mpr ⟨s, .refl s, rfl⟩
  · exact List.forall_mem_singleton.mpr ⟨Nat.le_refl _, Nat.le_refl _⟩

theorem trans (hs : s.Within) (hforward : Forward s s') (h : Notes s s' es)
    (hforward' : Forward s' s'') (h' : Notes s' s'' es') : Notes s s'' (es ++ es') where
  errors := by rw [h'.errors, h.errors, List.append_assoc]
  records := by rw [h'.records, h.records, h.origin, List.map_append, List.append_assoc]
  origin := h'.origin.trans h.origin
  reported e he := (List.mem_append.mp he).elim (h.reported e) (h'.reported e)
  noticed e he := by
    rcases List.mem_append.mp he with he | he
    · exact h.noticed e he
    · obtain ⟨u, hu, hspan⟩ := h'.noticed e he
      exact ⟨u, hforward.trans hu, hspan⟩
  between e he := by
    rcases List.mem_append.mp he with he | he
    · obtain ⟨hle, hle'⟩ := h.between e he
      exact ⟨hle, hle'.trans (hforward'.currentSpan_start_le (hforward.within hs))⟩
    · obtain ⟨hle, hle'⟩ := h'.between e he
      exact ⟨(hforward.currentSpan_start_le hs).trans hle, hle'⟩
  ordered := List.pairwise_append.mpr ⟨h.ordered, h'.ordered, fun e he e' he' =>
    (h.between e he).2.trans (h'.between e' he').1⟩

end Notes

/-- The account is kept on every course. -/
theorem Course.notes {s s' : ReadState} (h : Course s s') (hs : s.Within) :
    ∃ es, Notes s s' es := by
  induction h with
  | refl s => exact ⟨[], .of_same rfl rfl rfl⟩
  | trans first second ih ih' =>
    obtain ⟨es, hfirst⟩ := ih hs
    obtain ⟨es', hsecond⟩ := ih' (first.passage.forward.within hs)
    exact ⟨es ++ es', .trans hs first.passage.forward hfirst second.passage.forward hsecond⟩
  | read tokens => exact ⟨[], .of_same rfl rfl rfl⟩
  | halve tokens halves => exact ⟨[], .of_same rfl rfl rfl⟩
  | report here =>
    obtain ⟨e', hnotes⟩ := Notes.of_report here
    exact ⟨[e'], hnotes⟩
  | enter s inOptional => exact ⟨[], .of_same rfl rfl rfl⟩
  | setKind s kind => exact ⟨[], .of_same rfl rfl rfl⟩
  | leaf tokens covers attached => exact ⟨[], .of_same rfl rfl rfl⟩
  | @node s s₁ s₂ kind _ _ closed ih =>
    -- The node that is open meanwhile is of no account, neither in front nor behind.
    obtain ⟨es, hinner⟩ := ih hs
    obtain ⟨_, _, _, _, _, _, _, rfl⟩ := Rule.closeNode_cases closed
    refine ⟨es, hinner.errors, hinner.records, hinner.origin, hinner.reported, fun e he => ?_,
      hinner.between, hinner.ordered⟩
    obtain ⟨u, hu, hspan⟩ := hinner.noticed e he
    exact ⟨{ u with nodes := s.nodes }, ⟨hu.moved, hu.sourceLength, rfl⟩, hspan⟩

/-! ## Headers -/

/-- Whatever the source and the log: what the reading of a header adds to the log are, in order, the
    errors of the header, each as an error under the given origin, with its message and its span, and
    the records that were there before stay as they are. Every error is marked as reported. The spans
    of the errors are made of whole characters of the source and start one behind the other, or at the
    same place. -/
theorem read_header_logged (source : String) (log : DiagnosticLog) (origin : Option String) :
    ∃ h, Header.read source log origin = .ok h ∧
      h.log.records.toList = log.records.toList ++
        h.errors.map (fun e => ⟨.error, e.message, e.span, origin⟩) ∧
      (∀ e ∈ h.errors, e.reported = true ∧ e.span.IsCut source) ∧
      h.errors.Pairwise fun e e' => e.span.start ≤ e'.span.start := by
  obtain ⟨s, hdone, _⟩ := exists_header_done source log origin
  obtain ⟨_, _, _, _, hread, _⟩ := exists_read_of_header hdone
  have hcourse := (Grammar.header_courseAt (.start source (tokenize source) log origin)).of_done
    hdone
  obtain ⟨es, hnotes⟩ := hcourse.notes (within_start source log origin)
  have herrors : s.errors.toList = es := hnotes.errors
  refine ⟨_, hread, ?_, fun e he => ?_, ?_⟩
  · rw [herrors]
    exact hnotes.records
  · rw [herrors] at he
    obtain ⟨u, hu, hspan⟩ := hnotes.noticed e he
    rw [hspan]
    exact ⟨hnotes.reported e he, hu.isCut_currentSpan⟩
  · rw [herrors]
    exact hnotes.ordered

/-! ## What is underlined -/

open Excerpt (shownRange)

/-- A span that has some bytes of the source, or none at its end. -/
structure Span.Fits (span : Span) (size : Nat) : Prop where
  stop_le : span.stop ≤ size
  nonempty_iff : span.start < span.stop ↔ span.start < size

namespace Span.Fits

variable {span : Span} {size : Nat}

theorem of_lt (h : span.start < span.stop) (hle : span.stop ≤ size) : span.Fits size :=
  ⟨hle, fun _ => Nat.lt_of_lt_of_le h hle, fun _ => h⟩

theorem point (size : Nat) : (Span.point size).Fits size := ⟨Nat.le_refl size, Iff.rfl⟩

/-- Such a span is drawn as it is. Where it has no bytes the source has none behind it, by which it
    could be widened. -/
theorem shownRange_eq (h : span.Fits size) : shownRange span size = (span.start, span.stop) := by
  have hle := span.start_le_stop
  have hstart : min span.start size = span.start := Nat.min_eq_left (hle.trans h.stop_le)
  have hstop : max (min span.stop size) span.start = span.stop := by
    rw [Nat.min_eq_left h.stop_le, Nat.max_eq_left hle]
  unfold shownRange
  simp only [hstart, hstop]
  by_cases hempty : span.start = span.stop
  · have hend : size ≤ span.start :=
      Nat.le_of_not_lt fun hlt => Nat.ne_of_lt (h.nonempty_iff.mpr hlt) hempty
    have hsize : span.stop = size := Nat.le_antisymm h.stop_le (hempty ▸ hend)
    rw [if_pos hempty, hsize, Nat.min_eq_right (Nat.le_succ size)]
  · rw [if_neg hempty]

end Span.Fits

/-- Wherever a reading stands, its current span is a token or the end of the source. -/
theorem ReadState.Within.fits_currentSpan {s : ReadState} (hs : s.Within) :
    s.currentSpan.Fits s.sourceLength := by
  obtain ⟨_, _, horder⟩ := inOrder_append.mp hs
  unfold ReadState.currentSpan
  cases hrest : s.rest with
  | nil => exact .point s.sourceLength
  | cons t rest =>
    rw [hrest] at horder
    exact .of_lt horder.2.1 horder.2.2.2.le

/-- Whatever the source and the log: for each record that the reading of a header adds to the log
    exactly its span is drawn, which lies inside the source. Some of the source is underlined for it
    if and only if it does not lie at the end of the source. -/
theorem underlined_of_read (source : String) (log : DiagnosticLog) (origin : Option String) :
    ∃ h added, Header.read source log origin = .ok h ∧
      h.log.records.toList = log.records.toList ++ added ∧
      ∀ d ∈ added, shownRange d.span source.utf8ByteSize = (d.span.start, d.span.stop) ∧
        d.span.stop ≤ source.utf8ByteSize ∧
        (d.span.start < d.span.stop ↔ d.span.start < source.utf8ByteSize) := by
  obtain ⟨s, hdone, _⟩ := exists_header_done source log origin
  obtain ⟨_, _, _, _, hread, _⟩ := exists_read_of_header hdone
  have hwithin := within_start source log origin
  have hcourse := (Grammar.header_courseAt (.start source (tokenize source) log origin)).of_done
    hdone
  obtain ⟨es, hnotes⟩ := hcourse.notes hwithin
  refine ⟨_, _, hread, hnotes.records, fun d hd => ?_⟩
  obtain ⟨e, he, rfl⟩ := List.mem_map.mp hd
  obtain ⟨u, hu, hspan⟩ := hnotes.noticed e he
  have hfits : e.span.Fits source.utf8ByteSize := by
    rw [hspan, ← show u.sourceLength = source.utf8ByteSize from hu.sourceLength]
    exact (hu.within hwithin).fits_currentSpan
  exact ⟨hfits.shownRange_eq, hfits.stop_le, hfits.nonempty_iff⟩

set_option maxRecDepth 4096 in
/-- Nothing is underlined for the missing end of a class at the end of a source. -/
theorem exists_nothing_underlined :
    ∃ (source : String) (h : Header) (d : Diagnostic), source ≠ "" ∧
      Header.read source = .ok h ∧ d ∈ h.log.records ∧
      shownRange d.span source.utf8ByteSize = (source.utf8ByteSize, source.utf8ByteSize) := by
  let row : List Token := [⟨.atInterface, "@interface", ⟨0, 10, by decide⟩⟩,
    ⟨.identifier, "A", ⟨11, 12, by decide⟩⟩]
  have hrow : significant (tokenize "@interface A") = row := by cbv
  have htest : Grammar.isDoneWith (fun s => s.log.records.toList.any (·.span == Span.point 12))
      (Grammar.header { Grammar.before row with sourceLength := 12 }) = true := by decide +kernel
  obtain ⟨h, s, _, hread, hlogged, _, _, _, hlog⟩ := Grammar.exists_read_of_isDoneWith hrow htest
  obtain ⟨d, hd, hspan⟩ := List.any_eq_true.mp hlogged
  refine ⟨"@interface A", h, d, by decide, hread, hlog ▸ Array.mem_toList_iff.mp hd, ?_⟩
  rw [beq_iff_eq.mp hspan]
  rfl

end HeaderBridge
