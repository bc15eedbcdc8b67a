/-
  The value of a string through reading and writing. A source of string literals is read as what
  stands between their quotes, with the escapes as they are written, and the text in Swift stands
  for exactly these characters. So the value is kept where no literal has an escape, and nowhere
  else: the backslash of an escape is written as one that stands for itself.
-/
import HeaderBridge.Bridge.ExprReading
import HeaderBridge.Proofs.Expr.Exact
import HeaderBridge.Proofs.Quoting.Denotation

namespace HeaderBridge

/-- The tokens are string literals that stand for the values, each for its own by the common
    escapes. -/
def AreStrings (ts : List Token) (values : List (List Char)) : Prop :=
  List.Forall₂ (fun t value => t.kind = .stringLiteral ∧ Quoted.Means false t.text.toList value)
    ts values

namespace AreStrings

variable {ts : List Token} {values : List (List Char)} {text : String} {sign body value : List Char}

/-! ## One literal -/

/-- The characters of a literal that stay stand for its value. -/
theorem denotes_unquoted (h : Quoted.Means false text.toList value) :
    Quoted.Denotes false (Grammar.unquoted text).toList value ∧
      ('\\' ∈ (Grammar.unquoted text).toList ↔ '\\' ∈ text.toList) := by
  obtain ⟨sign, body, hsign, htext, hbody⟩ := h
  rw [Grammar.toList_unquoted (by decide) hsign htext]
  refine ⟨hbody, ?_⟩
  rw [htext]
  rcases hsign with rfl | rfl <;> simp

/-! ## Literals one behind the other -/

/-- The characters between the quotes of some literals. -/
def contents (ts : List Token) : List Char := ts.flatMap fun t => (Grammar.unquoted t.text).toList

theorem toList_join : (String.join (ts.map fun t => Grammar.unquoted t.text)).toList =
    contents ts := by
  rw [String.toList_join, List.flatMap_map]
  rfl

theorem kind_of_mem (h : AreStrings ts values) : ∀ t ∈ ts, t.kind = .stringLiteral := by
  induction h with
  | nil => exact fun t ht => absurd ht List.not_mem_nil
  | cons head _ ih => exact List.forall_mem_cons.mpr ⟨head.1, ih⟩

/-- The literals have at least as many characters as their values, and more if there is an
    escape. -/
theorem length_le (h : AreStrings ts values) : values.flatten.length ≤ (contents ts).length ∧
    ((∃ t ∈ ts, '\\' ∈ t.text.toList) → values.flatten.length < (contents ts).length) := by
  induction h with
  | nil => simp [contents]
  | @cons t value ts values head _ ih =>
    obtain ⟨hbody, hslash⟩ := denotes_unquoted head.2
    obtain ⟨hle, hlt⟩ := hbody.length_le
    simp only [contents, List.flatMap_cons, List.flatten_cons, List.length_append,
      List.exists_mem_cons_iff] at ih ⊢
    refine ⟨Nat.add_le_add hle ih.1, ?_⟩
    rintro (hhead | htail)
    · exact Nat.add_lt_add_of_lt_of_le (hlt (hslash.mpr hhead)) ih.1
    · exact Nat.add_lt_add_of_le_of_lt hle (ih.2 htail)

/-- Without escapes the values are what stands between the quotes. -/
theorem flatten_eq (h : AreStrings ts values) (hplain : ∀ t ∈ ts, '\\' ∉ t.text.toList) :
    values.flatten = contents ts := by
  induction h with
  | nil => rfl
  | cons head _ ih =>
    obtain ⟨hhead, htail⟩ := List.forall_mem_cons.mp hplain
    obtain ⟨hbody, hslash⟩ := denotes_unquoted head.2
    rw [List.flatten_cons, ih htail, hbody.eq_of_notMem (mt hslash.mp hhead)]
    rfl

/-- The values are what stands between the quotes exactly if there is no escape. -/
theorem flatten_eq_iff (h : AreStrings ts values) :
    values.flatten = contents ts ↔ ∀ t ∈ ts, '\\' ∉ t.text.toList := by
  refine ⟨fun he t ht hslash => ?_, h.flatten_eq⟩
  have hlt := h.length_le.2 ⟨t, ht, hslash⟩
  rw [he] at hlt
  exact absurd hlt (lt_irrefl _)

end AreStrings

/-! ## Sources -/

/-- A source of string literals is a constant in Swift, whose text stands for exactly what was
    between the quotes. It stands for the values of the literals, one behind the other, exactly if
    no literal has an escape. -/
theorem means_text_iff_no_escape {source : String} {values : List (List Char)} (m : TypeMap)
    (hstrings : AreStrings (significant (tokenize source)) values)
    (hnonempty : significant (tokenize source) ≠ []) :
    ∃ e constant, ObjcExpr.read source = .ok (.ok e) ∧
      e.swift? m = some (.constant constant) ∧
      (∀ value, Quoted.Means true (Expr.constant constant).text.toList value ↔
        value = AreStrings.contents (significant (tokenize source))) ∧
      (Quoted.Means true (Expr.constant constant).text.toList values.flatten ↔
        ∀ t ∈ significant (tokenize source), '\\' ∉ t.text.toList) := by
  have hderives := (Grammar.Derives.strings hnonempty hstrings.kind_of_mem).whole
  have hmeans : ∀ value, Quoted.Means true (Expr.constant (.string (String.join
      ((significant (tokenize source)).map fun t => Grammar.unquoted t.text)))).text.toList value ↔
        value = AreStrings.contents (significant (tokenize source)) := fun value => by
    rw [← AreStrings.toList_join]
    exact Quoted.means_write_iff
  exact ⟨_, _, read_of_derives hderives, rfl, hmeans, (hmeans _).trans hstrings.flatten_eq_iff⟩

theorem tokenize_two : tokenize "\"a\" @\"b\"" = [⟨.stringLiteral, "\"a\"", ⟨0, 3, by decide⟩⟩,
    ⟨.stringLiteral, "@\"b\"", ⟨4, 8, by decide⟩⟩, ⟨.endOfFile, "", Span.point 8⟩] := by
  cbv

theorem tokenize_feed : tokenize "\"\\n\"" = [⟨.stringLiteral, "\"\\n\"", ⟨0, 4, by decide⟩⟩,
    ⟨.endOfFile, "", Span.point 4⟩] := by
  cbv

/-- Two literals without escapes keep their values. -/
theorem means_text_two : AreStrings (significant (tokenize "\"a\" @\"b\"")) [['a'], ['b']] ∧
    ∃ e constant, ObjcExpr.read "\"a\" @\"b\"" = .ok (.ok e) ∧
      e.swift? {} = some (.constant constant) ∧
      Quoted.Means true (Expr.constant constant).text.toList ['a', 'b'] := by
  have hstrings : AreStrings (significant (tokenize "\"a\" @\"b\"")) [['a'], ['b']] := by
    rw [tokenize_two]
    refine .cons ⟨rfl, [], ['a'], .inl rfl, rfl, ?_⟩ (.cons ⟨rfl, ['@'], ['b'], .inr rfl, rfl, ?_⟩ .nil)
    · exact .plain (by decide) (by decide) .nil
    · exact .plain (by decide) (by decide) .nil
  have hnonempty : significant (tokenize "\"a\" @\"b\"") ≠ [] := by
    rw [tokenize_two]
    decide
  obtain ⟨e, constant, hread, hswift, -, hmeans⟩ :=
    means_text_iff_no_escape {} hstrings hnonempty
  refine ⟨hstrings, e, constant, hread, hswift, hmeans.mpr ?_⟩
  rw [tokenize_two]
  decide

/-- A line feed by its escape, which stands for a backslash and a letter in the end. -/
theorem exists_escape_doubled :
    AreStrings (significant (tokenize "\"\\n\"")) [['\n']] ∧
    ObjcExpr.read "\"\\n\"" = .ok (.ok (.literal (.string "\\n"))) ∧
    (ObjcExpr.literal (.string "\\n")).swift? {} = some (.constant (.string "\\n")) ∧
    ¬ Quoted.Means true (Expr.constant (.string "\\n")).text.toList ['\n'] := by
  refine ⟨?_, ?_, rfl, fun h => ?_⟩
  · rw [tokenize_feed]
    exact .cons ⟨rfl, [], ['\\', 'n'], .inl rfl, rfl, .escape rfl .nil⟩ .nil
  · unfold ObjcExpr.read
    rw [tokenize_feed]
    rfl
  · exact absurd (Quoted.means_write_iff.mp h) (by decide)

end HeaderBridge
