/-
  Reading is total. Every text has a tree as a header and an answer as an expression, and no
  promise is broken on the way: no span is reversed, no node is closed or extended that is not
  open, no rewind finds another depth, no rule leaves a node open, and no loop outlasts its fuel.
  Whatever is cut out of the text lies inside it and between characters.
-/
import HeaderBridge.Objc.Parse
import HeaderBridge.Proofs.Lexical.Places
import HeaderBridge.Proofs.Totality.Expr
import HeaderBridge.Proofs.Totality.Header
import Mathlib

namespace HeaderBridge

open Rule

/-! ## Whole texts -/

/-- The grammar sees no end of the file. -/
theorem ne_endOfFile_of_significant {tokens : List Token} {t : Token}
    (h : t ∈ significant tokens) : t.kind ≠ .endOfFile := by
  have hkept := (List.mem_filter.mp h).2
  simp only [Bool.and_eq_true, bne_iff_ne] at hkept
  exact hkept.2

theorem wholeExpression_safeAt {s : ReadState} (hs : s.Sound) :
    SafeAt Grammar.wholeExpression s := by
  unfold Grammar.wholeExpression
  refine .state (.ite (fun _ => SafeAt.failHere _ s) fun _ => ?_)
  refine (Grammar.expression_safeAt hs).bind fun e s₁ _ => .state ?_
  refine .ite (fun _ => SafeAt.failHere _ s₁) fun _ => ?_
  cases s₁.errors.toList.head? with
  | some error => exact Passage.refl s₁
  | none => exact SafeAt.pure e s₁

/-- Behind a passage from the start, only the root is open, and it can be closed. -/
theorem exists_finish {source : String} {log : DiagnosticLog} {origin : Option String}
    {s : ReadState} (hp : Passage (ReadState.start source (tokenize source) log origin) s)
    (directives : List Directive) : ∃ h, s.finish directives = .ok h := by
  have hd : s.nodes.depth = 1 := hp.forward.depth
  unfold NodeStack.depth at hd
  obtain ⟨root, ho⟩ := List.length_eq_one_iff.mp hd
  unfold ReadState.finish NodeStack.update NodeStack.close
  simp only [ho]
  exact ⟨_, rfl⟩

/-- The declarations of a source are read to the end. -/
theorem exists_header_done (source : String) (log : DiagnosticLog) (origin : Option String) :
    ∃ s, Grammar.header (.start source (tokenize source) log origin) = .done () s ∧
      Passage (.start source (tokenize source) log origin) s := by
  obtain ⟨_, s, hdone, hp⟩ | ⟨_, _, _, hfalse⟩ :=
    (Grammar.header_succeedsAt (sound_start source log origin)).cases
  · exact ⟨s, hdone, hp⟩
  · exact hfalse.elim

theorem exists_read_header (source : String) (log : DiagnosticLog) (origin : Option String) :
    ∃ h, Header.read source log origin = .ok h := by
  obtain ⟨s, hdone, hp⟩ := exists_header_done source log origin
  unfold Header.read
  simp only [hdone]
  exact exists_finish hp _

theorem exists_read_expr (source : String) : ∃ r, ObjcExpr.read source = .ok r := by
  have hs := sound_start source .empty none
  unfold ObjcExpr.read
  obtain ⟨e, s, hr, _⟩ | ⟨e, s, hr, _⟩ := (wholeExpression_safeAt hs).cases
  · rw [hr]
    exact ⟨_, rfl⟩
  · rw [hr]
    exact ⟨_, rfl⟩

theorem exists_slice_insideQuotes {source : String} {t : Token} (ht : t ∈ tokenize source)
    (hk : t.kind = .stringLiteral ∨ t.kind = .charLiteral) :
    ∃ span, insideQuotes t.text = .ok span ∧
      span.slice t.text = .ok (Grammar.unquoted t.text) := by
  rcases spelt_of_mem ht with h | h
  · rw [h] at hk
    rcases hk with hk | hk <;> cases hk
  · rcases hk with hk | hk
    · rw [hk] at h
      exact slice_insideQuotes h rfl (by decide)
    · rw [hk] at h
      exact slice_insideQuotes h rfl (by decide)

/-- Reading a header and reading an expression come to an answer for every source, and every
    piece of text that they take is there: the text of each token, of each half of a double
    bracket, and of the inside of each literal in quotes. -/
theorem reading_total (source : String) :
    (∀ log origin, ∃ h, Header.read source log origin = .ok h) ∧
    (∃ r, ObjcExpr.read source = .ok r) ∧
    (∀ ts, Halved (tokenize source) ts → ∀ t ∈ ts,
      t.span.stop ≤ source.utf8ByteSize ∧ t.span.slice source = .ok t.text) ∧
    ∀ t ∈ tokenize source, t.kind = .stringLiteral ∨ t.kind = .charLiteral →
      ∃ span, insideQuotes t.text = .ok span ∧
        span.slice t.text = .ok (Grammar.unquoted t.text) := by
  refine ⟨exists_read_header source, exists_read_expr source, ?_, ?_⟩
  · intro ts hts t ht
    have hplace := atPlace_of_halved hts t ht
    exact ⟨hplace.stop_le, hplace.slice⟩
  · intro t ht hk
    exact exists_slice_insideQuotes ht hk

/-- A double bracket in front of a string whose letter has two bytes: both halves of the bracket
    and the letter are cut out of the text. -/
theorem reading_total_bracket_string :
    ∃ first second string : Token, Halved (tokenize ">>\"é\"")
        [first, second, string, ⟨.endOfFile, "", Span.point 6⟩] ∧
      first.span.slice ">>\"é\"" = .ok ">" ∧ second.span.slice ">>\"é\"" = .ok ">" ∧
      string ∈ tokenize ">>\"é\"" ∧ string.kind = .stringLiteral ∧
      ∃ span, insideQuotes string.text = .ok span ∧ span.slice string.text = .ok "é" := by
  have htokens : tokenize ">>\"é\"" = [⟨.shiftRight, ">>", ⟨0, 2, by decide⟩⟩,
      ⟨.stringLiteral, "\"é\"", ⟨2, 6, by decide⟩⟩, ⟨.endOfFile, "", Span.point 6⟩] := by
    cbv
  have hhalved : Halved (tokenize ">>\"é\"") [⟨.greater, ">", ⟨0, 1, by decide⟩⟩,
      ⟨.greater, ">", ⟨1, 2, by decide⟩⟩, ⟨.stringLiteral, "\"é\"", ⟨2, 6, by decide⟩⟩,
      ⟨.endOfFile, "", Span.point 6⟩] := by
    rw [htokens]
    exact .halve ⟨rfl, rfl, rfl, rfl, rfl, rfl, rfl, rfl, rfl⟩ (.refl _)
  have hstring : ⟨.stringLiteral, "\"é\"", ⟨2, 6, by decide⟩⟩ ∈ tokenize ">>\"é\"" := by
    rw [htokens]
    exact .tail _ (.head _)
  obtain ⟨_, _, hplace, hquotes⟩ := reading_total ">>\"é\""
  exact ⟨_, _, _, hhalved, (hplace _ hhalved _ (.head _)).2,
    (hplace _ hhalved _ (.tail _ (.head _))).2, hstring, rfl, hquotes _ hstring (.inl rfl)⟩

end HeaderBridge
