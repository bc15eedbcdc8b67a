/-
  Texts one behind the other. In front of a closing bracket a text has the tokens that it has alone,
  unless a line comment or a preprocessor line at its end takes the bracket along. Strings, characters
  and block comments that are not closed would take it along as well, but these are no tokens that the
  grammar reads.
-/
import HeaderBridge.Proofs.Lexical.Spacing

namespace HeaderBridge

open Unicode

/-- A token that only the end of a line ends. -/
def Token.TakesLine (t : Token) : Prop :=
  t.kind = .directive ∨ t.kind = .comment ∧ ['/', '/'] <+: t.text.toList

instance (t : Token) : Decidable t.TakesLine := inferInstanceAs (Decidable (_ ∨ _ ∧ _))

/-- The text ends inside a line comment or a preprocessor line. -/
def EndsInLine (source : String) : Prop :=
  ∃ t ∈ tokenize source, t.TakesLine ∧ t.span.stop = source.utf8ByteSize

instance (source : String) : Decidable (EndsInLine source) :=
  inferInstanceAs (Decidable (∃ t ∈ tokenize source, t.TakesLine ∧ _))

namespace Lexer

variable {p : Char → Bool} {c : Char} {cs ds : List Char}

/-! ## One token -/

theorem run_append (h : run p cs < cs.length) : run p (cs ++ ds) = run p cs := by
  induction cs with
  | nil => exact absurd h (Nat.not_lt_zero _)
  | cons c cs ih =>
    rw [run_cons, List.length_cons] at h
    rw [List.cons_append, run_cons, run_cons]
    cases hc : p c with
    | false => rfl
    | true =>
      rw [hc, if_pos rfl] at h
      rw [if_pos rfl, if_pos rfl, ih (Nat.lt_of_succ_lt_succ h)]

theorem directiveLine_append (h : directiveLine cs < cs.length) :
    directiveLine (cs ++ ds) = directiveLine cs := by
  fun_induction directiveLine cs with
  | case1 => exact absurd h (Nat.not_lt_zero _)
  | case2 cs ih =>
    have hnext := ih (Nat.lt_of_succ_lt_succ (Nat.lt_of_succ_lt_succ h))
    rw [List.cons_append, List.cons_append, directiveLine, hnext]
  | case3 cs => rfl
  | case4 c cs hslash hfeed ih =>
    have hmore := Nat.lt_of_succ_lt_succ h
    rw [List.cons_append, directiveLine, ih hmore]
    · rintro es rfl hes
      cases cs with
      | nil => exact absurd hmore (Nat.not_lt_zero _)
      | cons d cs =>
        obtain ⟨rfl, -⟩ := List.cons.inj hes
        exact hslash cs rfl rfl
    · exact hfeed

/-- A block comment that is closed ends there, whatever stands behind it. -/
theorem blockComment_append (h : (blockComment cs).kind ≠ .invalid) :
    blockComment (cs ++ ds) = blockComment cs ∧ (blockComment cs).further ≤ cs.length := by
  fun_induction blockComment cs with
  | case1 => exact absurd rfl h
  | case2 cs => exact ⟨rfl, Nat.succ_le_succ (Nat.succ_le_succ (Nat.zero_le _))⟩
  | case3 c cs hclose rest ih =>
    obtain ⟨hsame, hle⟩ := ih h
    refine ⟨?_, Nat.succ_le_succ hle⟩
    rw [List.cons_append, blockComment, hsame]
    rintro es rfl hes
    cases cs with
    | nil => exact absurd rfl h
    | cons d cs =>
      obtain ⟨rfl, -⟩ := List.cons.inj hes
      exact hclose cs rfl rfl

/-- Where a line begins that is taken to its end. -/
def OpensLine (c : Char) (cs : List Char) : Prop := c = '#' ∨ c = '/' ∧ cs.head? = some '/'

/-- A token is found again with a separator behind the text. -/
theorem scan_append (hkind : (scan c cs).kind ≠ .invalid)
    (hline : OpensLine c cs → (scan c cs).further < cs.length) (hends : Ends ds) :
    scan c (cs ++ ds) = scan c cs ∧ (scan c cs).further ≤ cs.length := by
  by_cases hopens : Opens c cs
  · rcases hopens with rfl | ⟨rfl, d, hd, rfl | rfl⟩
    · have hlength : directiveLine cs < cs.length := hline (.inl rfl)
      refine ⟨?_, Nat.le_of_lt hlength⟩
      show (⟨.directive, directiveLine (cs ++ ds)⟩ : Scan) = ⟨.directive, directiveLine cs⟩
      rw [directiveLine_append hlength]
    · obtain ⟨cs, rfl⟩ := List.head?_eq_some_iff.mp hd
      have hlength : run (· != '\n') ('/' :: cs) < ('/' :: cs).length := hline (.inr ⟨rfl, rfl⟩)
      refine ⟨?_, Nat.le_of_lt hlength⟩
      show (⟨.comment, run (· != '\n') ('/' :: cs ++ ds)⟩ : Scan) =
        ⟨.comment, run (· != '\n') ('/' :: cs)⟩
      rw [run_append hlength]
    · obtain ⟨cs, rfl⟩ := List.head?_eq_some_iff.mp hd
      obtain ⟨hsame, hle⟩ : blockComment (cs ++ ds) = blockComment cs ∧
        (blockComment cs).further ≤ cs.length := blockComment_append hkind
      refine ⟨?_, Nat.succ_le_succ hle⟩
      show (⟨(blockComment (cs ++ ds)).kind, (blockComment (cs ++ ds)).further + 1⟩ : Scan) =
        ⟨(blockComment cs).kind, (blockComment cs).further + 1⟩
      rw [hsame]
  · -- The text is all in front of the place where the separator comes.
    have hwhole : ¬ Opens c (cs ++ []) := by rwa [List.append_nil]
    have hle := (steadyScan_scanner c).further_le cs
    have hsame : scanner c (cs ++ ds) = scanner c (cs ++ []) := by
      refine (steadyScan_scanner c).same ?_ ?_ (.inl hends)
      · exact .inl (by rwa [List.append_nil, ← scan_eq_scanner hopens])
      · rwa [List.append_nil]
    rw [List.append_nil] at hsame
    rw [scan_eq_scanner (not_opens_of_ends hwhole hends.stops), scan_eq_scanner hopens]
    exact ⟨hsame, hle⟩

/-! ## All tokens -/

/-- Kinds and texts of tokens do not depend on the place of the text. -/
theorem faces_tokensFrom (offset offset' : Nat) (cs : List Char) :
    (tokensFrom offset' cs).map Token.face = (tokensFrom offset cs).map Token.face := by
  fun_induction tokensFrom offset cs generalizing offset' with
  | case1 offset =>
    rw [tokensFrom]
    rfl
  | case2 offset c cs hblank ih => rw [tokensFrom, if_pos hblank, ih]
  | case3 offset c cs hblank found text stop token ih =>
    rw [tokensFrom, if_neg hblank, List.map_cons, List.map_cons]
    exact congrArg _ (ih _)

/-- A token that begins a line is taken to the end of that line. -/
theorem takesLine_of_opensLine (h : OpensLine c cs) (hlength : cs.length ≤ (scan c cs).further)
    (span : Span) : Token.TakesLine
      ⟨(scan c cs).kind, String.ofList (c :: cs.take (scan c cs).further), span⟩ := by
  rcases h with rfl | ⟨rfl, hd⟩
  · exact .inl rfl
  · rw [List.take_of_length_le hlength]
    obtain ⟨cs, rfl⟩ := List.head?_eq_some_iff.mp hd
    refine .inr ⟨rfl, ?_⟩
    rw [String.toList_ofList]
    exact ⟨cs, rfl⟩

/-- In front of a separator, or of nothing, a text has the tokens that it has alone. -/
theorem tokensFrom_append (hends : Ends ds) (offset : Nat) (cs : List Char)
    (hvalid : ∀ t ∈ tokensFrom offset cs, t.kind ≠ .invalid)
    (hline : ∀ t ∈ tokensFrom offset cs, t.TakesLine → t.span.stop ≠ offset + byteLength cs) :
    ∀ offset', (tokensFrom offset' (cs ++ ds)).map Token.face =
      (tokensFrom offset cs).dropLast.map Token.face ++ (tokensFrom 0 ds).map Token.face := by
  fun_induction tokensFrom offset cs with
  | case1 offset =>
    intro offset'
    exact faces_tokensFrom 0 offset' ds
  | case2 offset c cs hblank ih =>
    intro offset'
    rw [byteLength_cons, ← Nat.add_assoc] at hline
    rw [List.cons_append, tokensFrom, if_pos hblank, ih hvalid hline]
  | case3 offset c cs hblank found text stop token ih =>
    intro offset'
    obtain ⟨hkind, hvalid⟩ := List.forall_mem_cons.mp hvalid
    obtain ⟨hhead, hline⟩ := List.forall_mem_cons.mp hline
    have hopens : OpensLine c cs → found.further < cs.length := by
      intro hopens
      by_contra hlength
      have hwhole : cs.length ≤ found.further := Nat.not_lt.mp hlength
      refine hhead (takesLine_of_opensLine hopens hwhole _) ?_
      show offset + byteLength (c :: cs.take found.further) = offset + byteLength (c :: cs)
      rw [List.take_of_length_le hwhole]
    obtain ⟨hsame, hle⟩ := scan_append hkind hopens hends
    have hlength : stop + byteLength (cs.drop found.further) = offset + byteLength (c :: cs) := by
      have hcut := congrArg byteLength (List.take_append_drop found.further cs)
      rw [byteLength_append] at hcut
      show offset + byteLength (c :: cs.take found.further) + _ = _
      rw [byteLength_cons, byteLength_cons, ← hcut]
      omega
    rw [← hlength] at hline
    have hcut : cs ++ ds = cs.take found.further ++ (cs.drop found.further ++ ds) := by
      rw [← List.append_assoc, List.take_append_drop]
    have htaken : (scan c (cs.take found.further ++ (cs.drop found.further ++ ds))).further =
        (cs.take found.further).length := by
      rw [← hcut, hsame, List.length_take_of_le hle]
    rw [List.dropLast_cons_of_ne_nil (tokensFrom_ne_nil _ _), List.map_cons, List.cons_append,
      List.cons_append, hcut, tokensFrom_cons hblank htaken, ← hcut, hsame, ih hvalid hline]
    rfl

end Lexer

/-! ## What the grammar sees -/

/-- The kinds and the texts of the tokens that the grammar sees in a text. -/
def seenFaces (cs : List Char) : List (TokenKind × String) :=
  (significant (Lexer.tokensFrom 0 cs)).map Token.face

/-- Whether the grammar sees tokens of the kind. -/
def TokenKind.isSeen (kind : TokenKind) : Bool :=
  kind != .comment && kind != .directive && kind != .endOfFile

theorem map_face_significant (ts : List Token) :
    (significant ts).map Token.face = (ts.map Token.face).filter fun face => face.1.isSeen := by
  rw [List.filter_map]
  rfl

namespace Lexer

variable {c : Char} {cs ds : List Char}

theorem seenFaces_eq (offset : Nat) (cs : List Char) :
    seenFaces cs = ((tokensFrom offset cs).map Token.face).filter fun face => face.1.isSeen := by
  unfold seenFaces
  rw [map_face_significant, faces_tokensFrom offset 0 cs]

theorem seenFaces_nil : seenFaces [] = [] := by
  rw [seenFaces_eq 0, tokensFrom]
  rfl

theorem seenFaces_blank (hc : isBlank c = true) : seenFaces (c :: cs) = seenFaces cs := by
  rw [seenFaces_eq 0, tokensFrom, if_pos hc, ← seenFaces_eq]

/-- A token in front of a text. -/
theorem seenFaces_token {kind : TokenKind} (front : List Char) (hc : ¬ isBlank c = true)
    (hscan : scan c (front ++ cs) = ⟨kind, front.length⟩) (hseen : kind.isSeen = true) :
    seenFaces (c :: (front ++ cs)) = (kind, String.ofList (c :: front)) :: seenFaces cs := by
  have hlength : (scan c (front ++ cs)).further = front.length := by rw [hscan]
  have htokens := tokensFrom_cons hc hlength 0
  rw [hscan] at htokens
  rw [seenFaces_eq 0, htokens, List.filter_cons_of_pos (by exact hseen), ← seenFaces_eq]

/-- A token of one character. -/
theorem seenFaces_cons {kind : TokenKind} (hc : ¬ isBlank c = true) (hscan : scan c cs = ⟨kind, 0⟩)
    (hseen : kind.isSeen = true) :
    seenFaces (c :: cs) = (kind, String.ofList [c]) :: seenFaces cs :=
  seenFaces_token [] hc hscan hseen

/-- The delimiters of groups, subscripts and messages. -/
def delimiters : List (Char × TokenKind) :=
  [('(', .leftParen), (')', .rightParen), ('[', .leftBracket), (']', .rightBracket)]

theorem seenFaces_delimiter (c : Char) (kind : TokenKind) (h : (c, kind) ∈ delimiters) :
    seenFaces (c :: cs) = (kind, String.ofList [c]) :: seenFaces cs := by
  simp only [delimiters, List.mem_cons, List.not_mem_nil, or_false, Prod.mk.injEq] at h
  rcases h with ⟨rfl, rfl⟩ | ⟨rfl, rfl⟩ | ⟨rfl, rfl⟩ | ⟨rfl, rfl⟩ <;>
    exact seenFaces_cons (by decide) (by cases cs <;> rfl) rfl

end Lexer

/-- In front of a separator the grammar sees of a text what it sees of the text alone. -/
theorem seenFaces_append {source : String} {ds : List Char} (hends : Lexer.Ends ds)
    (hvalid : ∀ t ∈ significant (tokenize source), t.kind ≠ .invalid)
    (hline : ¬ EndsInLine source) :
    seenFaces (source.toList ++ ds) =
      (significant (tokenize source)).map Token.face ++ seenFaces ds := by
  have hinvalid : ∀ t ∈ Lexer.tokensFrom 0 source.toList, t.kind ≠ .invalid := by
    intro t ht hk
    refine hvalid t (List.mem_filter.mpr ⟨ht, ?_⟩) hk
    rw [hk]
    rfl
  have hopen : ∀ t ∈ Lexer.tokensFrom 0 source.toList, t.TakesLine →
      t.span.stop ≠ 0 + byteLength source.toList := by
    intro t ht htakes hstop
    refine hline ⟨t, ht, htakes, ?_⟩
    rw [hstop, Nat.zero_add, utf8ByteSize_eq]
  have hjoined := Lexer.tokensFrom_append hends 0 source.toList hinvalid hopen 0
  obtain ⟨ts, htokens, -⟩ := Lexer.tokensFrom_eq_append 0 source.toList
  rw [map_face_significant, Lexer.seenFaces_eq 0, hjoined, List.filter_append,
    ← Lexer.seenFaces_eq]
  congr 1
  unfold tokenize
  rw [htokens, List.dropLast_concat, List.map_append, List.filter_append]
  exact (List.append_nil _).symm

end HeaderBridge
