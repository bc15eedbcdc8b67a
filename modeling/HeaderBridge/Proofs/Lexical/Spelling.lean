/-
  What the kind of a token says about its characters. Only two angle brackets are a double one, only
  one closing bracket is a single one, only a number sign starts a directive, a literal in quotes
  has a quote at either end, with at most an at sign in front, and an identifier is a word.
-/
import HeaderBridge.Objc.Grammar.Expr
import HeaderBridge.Token.Lexer

namespace HeaderBridge

/-- A text between quotes of one kind, with or without an at sign in front. -/
def InQuotes (quote : Char) (text : List Char) : Prop :=
  ∃ sign body, (sign = [] ∨ sign = ['@']) ∧ text = sign ++ quote :: (body ++ [quote])

/-- A row of word characters. -/
def IsRun (cs : List Char) : Prop := cs ≠ [] ∧ ∀ c ∈ cs, Lexer.isWordPart c = true

instance : DecidablePred IsRun := fun cs =>
  decidable_of_iff ((!cs.isEmpty && cs.all Lexer.isWordPart) = true) (by simp [IsRun])

/-- A row of word characters that a letter starts. -/
def IsWord (cs : List Char) : Prop := IsRun cs ∧ ∀ c ∈ cs.head?, Lexer.isWordStart c = true

instance : DecidablePred IsWord := fun cs =>
  decidable_of_iff ((decide (IsRun cs) && cs.head?.all Lexer.isWordStart) = true)
    (by simp [IsWord, Option.all_eq_true])

/-- The characters that a token of some kinds can have. -/
def Spelt : TokenKind → List Char → Prop
  | .shiftRight, text => text = ['>', '>']
  | .greater, text => text = ['>']
  | .rightParen, text => text = [')']
  | .directive, text => text.head? = some '#'
  | .stringLiteral, text => InQuotes '"' text
  | .charLiteral, text => InQuotes '\'' text
  | .identifier, text => IsWord text
  | .endOfFile, _ => False
  | _, _ => True

namespace Lexer

variable {quote c : Char} {kind : TokenKind} {cs : List Char}

theorem kind_quoted (quote : Char) (kind : TokenKind) (cs : List Char) :
    (quoted quote kind cs).kind = kind ∨ (quoted quote kind cs).kind = .invalid := by
  fun_induction quoted quote kind cs with
  | case1 => exact Or.inr rfl
  | case2 => exact Or.inr rfl
  | case3 => exact Or.inl rfl
  | case4 => exact Or.inr rfl
  | case5 _ _ _ _ _ _ rest ih => exact ih
  | case6 _ _ _ _ _ rest ih => exact ih

/-- What is scanned behind an opening quote ends with the closing one. -/
theorem take_quoted (hk : kind ≠ .invalid) (h : (quoted quote kind cs).kind = kind) :
    ∃ body, cs.take (quoted quote kind cs).further = body ++ [quote] := by
  fun_induction quoted quote kind cs with
  | case1 => exact absurd h.symm hk
  | case2 => exact absurd h.symm hk
  | case3 c cs _ hq =>
    refine ⟨[], ?_⟩
    rw [List.take_succ_cons, List.take_zero, eq_of_beq hq]
    rfl
  | case4 => exact absurd h.symm hk
  | case5 c _ _ _ d cs rest ih =>
    obtain ⟨body, he⟩ := ih h
    exact ⟨c :: d :: body, by rw [List.take_succ_cons, List.take_succ_cons, he]; rfl⟩
  | case6 c cs _ _ _ rest ih =>
    obtain ⟨body, he⟩ := ih h
    exact ⟨c :: body, by rw [List.take_succ_cons, he]; rfl⟩

theorem kind_blockComment (cs : List Char) :
    (blockComment cs).kind = .comment ∨ (blockComment cs).kind = .invalid := by
  fun_induction blockComment cs with
  | case1 => exact Or.inr rfl
  | case2 => exact Or.inl rfl
  | case3 _ _ _ rest ih => exact ih

theorem kind_decimalNumber (cs : List Char) :
    (decimalNumber cs).kind = .intLiteral ∨ (decimalNumber cs).kind = .floatLiteral := by
  simp only [decimalNumber]
  split
  · exact Or.inr rfl
  · exact Or.inl rfl

theorem kind_number (c : Char) (cs : List Char) :
    (number c cs).kind = .intLiteral ∨ (number c cs).kind = .floatLiteral := by
  simp only [number]
  split
  · split
    · exact Or.inl rfl
    · split
      · exact Or.inl rfl
      · exact kind_decimalNumber _
  · exact kind_decimalNumber _

theorem isAtKeyword_ofAtWord (word : String) : (TokenKind.ofAtWord word).isAtKeyword = true := by
  unfold TokenKind.ofAtWord
  split <;> rfl

theorem spelt_of_isAtKeyword (h : kind.isAtKeyword = true) (text : List Char) :
    Spelt kind text := by
  cases kind <;> trivial

theorem spelt_quoted (hk : kind = .stringLiteral ∧ quote = '"' ∨ kind = .charLiteral ∧ quote = '\'')
    {sign : List Char} (hsign : sign = [] ∨ sign = ['@']) (cs : List Char) :
    Spelt (quoted quote kind cs).kind
      (sign ++ quote :: cs.take (quoted quote kind cs).further) := by
  rcases kind_quoted quote kind cs with h | h
  · have hne : kind ≠ .invalid := by
      rcases hk with ⟨rfl, _⟩ | ⟨rfl, _⟩ <;> decide
    obtain ⟨body, he⟩ := take_quoted hne h
    rw [h, he]
    rcases hk with ⟨rfl, rfl⟩ | ⟨rfl, rfl⟩
    · exact ⟨sign, body, hsign, rfl⟩
    · exact ⟨sign, body, hsign, rfl⟩
  · rw [h]
    trivial

theorem spelt_operatorPair {d : Char} (h : operatorPair c d = some kind) :
    Spelt kind [c, d] := by
  unfold operatorPair at h
  split at h <;> cases h <;> first | rfl | trivial

theorem spelt_operatorSingle (h : operatorSingle c = some kind) : Spelt kind [c] := by
  unfold operatorSingle at h
  split at h <;> cases h <;> trivial

theorem spelt_operator {found : Scan} (h : operator c cs = some found) :
    Spelt found.kind (c :: cs.take found.further) := by
  unfold operator at h
  cases hp : cs.head?.bind (operatorPair c) with
  | some kind =>
    rw [hp] at h
    cases h
    cases cs with
    | nil => cases hp
    | cons d cs => exact spelt_operatorPair hp
  | none =>
    rw [hp] at h
    obtain ⟨kind, hk, rfl⟩ := Option.map_eq_some_iff.mp h
    exact spelt_operatorSingle hk

theorem isWord_run (h : isWordStart c = true) : IsWord (c :: cs.take (run isWordPart cs)) := by
  have hstart : isWordPart c = true := by
    unfold isWordStart at h
    unfold isWordPart Unicode.isAlphanumeric
    simp only [Bool.or_eq_true] at h ⊢
    exact h.imp_left (·.imp_left .inl)
  have hrun : cs.take (run isWordPart cs) = cs.takeWhile isWordPart :=
    (List.prefix_iff_eq_take.mp (List.takeWhile_prefix isWordPart)).symm
  refine ⟨⟨List.cons_ne_nil _ _, List.forall_mem_cons.mpr ⟨hstart, ?_⟩⟩, fun d hd => ?_⟩
  · rw [hrun]
    exact fun d hd => List.all_eq_true.mp List.all_takeWhile d hd
  · obtain rfl : c = d := Option.some.inj hd
    exact h

/-- A token is spelt as its kind requires. -/
theorem spelt_scan (c : Char) (cs : List Char) :
    Spelt (scan c cs).kind (c :: cs.take (scan c cs).further) := by
  unfold scan
  split
  · trivial
  · next rest =>
    change Spelt (blockComment rest).kind _
    rcases kind_blockComment rest with h | h
    · rw [h]; trivial
    · rw [h]; trivial
  · rfl
  · unfold atSign
    split
    · trivial
    · next d ds =>
      split
      · next hd =>
        rw [eq_of_beq hd]
        exact spelt_quoted (.inl ⟨rfl, rfl⟩) (.inr rfl) ds
      · split
        · exact spelt_of_isAtKeyword (isAtKeyword_ofAtWord _) _
        · trivial
  · exact spelt_quoted (.inl ⟨rfl, rfl⟩) (.inl rfl) cs
  · exact spelt_quoted (.inr ⟨rfl, rfl⟩) (.inl rfl) cs
  · split
    · rcases kind_number c cs with h | h
      · rw [h]; trivial
      · rw [h]; trivial
    · split
      · trivial
      · split
        · next found h => exact spelt_operator h
        · split
          · next h => exact isWord_run h
          · trivial

end Lexer

end HeaderBridge
