/-
  The operands that are one word in the text of an expression: integers, words, strings and the
  sizes of types. Their texts tell them apart, with any text behind them that may stand behind an
  operand. An integer starts with a digit and a word with a letter, so no integer is a word; the
  mark of an integer says its base, and a decimal one has no letter to be taken for a mark.
-/
import HeaderBridge.Proofs.Rendering.Types
import HeaderBridge.Swift.Expr

namespace HeaderBridge

open Lexer (isWordStart isWordPart)
open Literal (digitValue? digitsValue?)

variable {us vs : List Char}

/-! ## Integers -/

namespace Base

theorem one_lt_radix (base : Base) : 1 < base.radix := by cases base <;> decide

theorem radix_le (base : Base) : base.radix ≤ 16 := by cases base <;> decide

/-- The base that the mark of a number says. -/
def ofMark : List Char → Base
  | '0' :: 'b' :: _ => .binary
  | '0' :: 'o' :: _ => .octal
  | '0' :: 'x' :: _ => .hexadecimal
  | _ => .decimal

/-- The digits of a number as they are written. -/
def digits (base : Base) (n : Nat) : List Char := (Nat.toDigits base.radix n).map Char.toUpper

theorem toList_write (base : Base) (n : Nat) :
    (base.write n).toList = base.mark.toList ++ base.digits n := by
  rw [write, String.toList_append, String.toList_ofList]
  rfl

/-- Every written digit is a digit of the base. -/
theorem mem_digits {base : Base} {n : Nat} {c : Char} (h : c ∈ base.digits n) :
    ∃ d < base.radix, c = d.digitChar.toUpper := by
  obtain ⟨c, hc, rfl⟩ := List.mem_map.mp h
  obtain ⟨d, hd, rfl⟩ := Literal.mem_toDigits base.one_lt_radix c hc
  exact ⟨d, hd, rfl⟩

theorem digitsValue?_digits (base : Base) (n : Nat) :
    digitsValue? base.radix 0 (base.digits n) = some n :=
  Literal.digitsValue?_toDigits base.one_lt_radix
    (fun _ hd => (Literal.digitValue?_digitChar (hd.trans_le base.radix_le)).2) n

theorem ofMark_write (base : Base) (n : Nat) : ofMark (base.write n).toList = base := by
  rw [toList_write]
  cases base with
  | decimal =>
    have hdigit : ∀ c ∈ Base.decimal.digits n, c ≠ 'b' ∧ c ≠ 'o' ∧ c ≠ 'x' := by
      intro c hc
      obtain ⟨d, hd, rfl⟩ := mem_digits hc
      clear hc
      revert d
      decide
    change ofMark (Base.decimal.digits n) = .decimal
    unfold ofMark
    split
    · next heq => exact absurd rfl (hdigit 'b' (by rw [heq]; simp)).1
    · next heq => exact absurd rfl (hdigit 'o' (by rw [heq]; simp)).2.1
    · next heq => exact absurd rfl (hdigit 'x' (by rw [heq]; simp)).2.2
    · rfl
  | binary | octal | hexadecimal => rfl

/-- Numbers are told apart by what is written, and so are their bases. -/
theorem write_inj {base base' : Base} {n n' : Nat} (h : base.write n = base'.write n') :
    base = base' ∧ n = n' := by
  obtain rfl : base = base' := by rw [← ofMark_write base n, h, ofMark_write]
  have hlist := congrArg String.toList h
  rw [toList_write, toList_write, List.append_cancel_left_eq] at hlist
  refine ⟨rfl, Option.some.inj ?_⟩
  rw [← digitsValue?_digits base n, hlist, digitsValue?_digits]

/-- A number is a row of word characters that a digit starts. -/
theorem isRun_write (base : Base) (n : Nat) :
    IsRun (base.write n).toList ∧ ∀ c ∈ (base.write n).toList.head?, isWordStart c = false := by
  have hdigits : ∀ c ∈ base.digits n, isWordPart c = true := by
    intro c hc
    obtain ⟨d, hd, rfl⟩ := mem_digits hc
    have hall : (List.range 16).all (fun d => isWordPart d.digitChar.toUpper) = true := by
      decide
    exact List.all_eq_true.mp hall d (List.mem_range.mpr (hd.trans_le base.radix_le))
  have hne : base.digits n ≠ [] := fun h => Nat.toDigits_ne_nil (List.map_eq_nil_iff.mp h)
  rw [toList_write]
  constructor
  · refine ⟨fun h => hne (List.append_eq_nil_iff.mp h).2, ?_⟩
    have hmark : base.mark.toList.all isWordPart = true := by cases base <;> decide
    exact List.forall_mem_append.mpr ⟨List.all_eq_true.mp hmark, hdigits⟩
  · have hstart : (List.range 10).all (fun d => !isWordStart d.digitChar.toUpper) = true := by
      decide
    have hnoStart : ∀ d < 10, isWordStart d.digitChar.toUpper = false := fun d hd =>
      (Bool.not_eq_true' _).mp (List.all_eq_true.mp hstart d (List.mem_range.mpr hd))
    cases base with
    | decimal =>
      intro c hc
      have hmem : c ∈ Base.decimal.digits n := List.mem_of_mem_head? hc
      obtain ⟨d, hd, rfl⟩ := mem_digits hmem
      exact hnoStart d hd
    | binary | octal | hexadecimal =>
      intro c hc
      obtain rfl : '0' = c := Option.some.inj hc
      exact hnoStart 0 (by decide)

end Base

/-! ## Operands of one word -/

/-- What may stand behind an operand: the end, or a mark that goes on no word and no type. -/
structure EndsOperand (rest : List Char) : Prop where
  mark : ∀ c ∈ rest.head?, c ∈ [' ', '.', ',', '(', ')', '[', ']']
  noWord : ∀ behind, rest = ' ' :: behind →
    String.ofList (behind.takeWhile isWordPart) ∉ Grammar.followingWords

namespace EndsOperand

theorem endsName (h : EndsOperand us) : EndsName us where
  endsRun := by
    intro c hc
    have hmarks : [' ', '.', ',', '(', ')', '[', ']'] ⊆ marks := by decide
    exact isWordPart_of_mark (hmarks (h.mark c hc))
  noWord := h.noWord

theorem ne_list (h : EndsOperand us) : us.head? ≠ some '<' := by
  intro hlist
  have hmark := h.mark '<' hlist
  revert hmark
  decide

theorem endsType {type : SwiftType} (h : EndsOperand us) (single : type.isComposition = false) :
    SwiftType.EndsType false type us :=
  .outside h.endsName h.ne_list single

end EndsOperand

namespace Expr

/-- The expression that a word is: three words are literals. -/
def ofWord (word : String) : Expr :=
  if word = "true" then .constant (.boolean true)
  else if word = "false" then .constant (.boolean false)
  else if word = "nil" then .constant .nil
  else .identifier word

theorem text_constant (c : Constant) : (constant c).text = c.text := rfl

theorem text_ofWord (word : String) : (ofWord word).text = word := by
  unfold ofWord
  split_ifs with htrue hfalse hnil
  · exact htrue.symm ▸ text_constant _
  · exact hfalse.symm ▸ text_constant _
  · exact hnil.symm ▸ text_constant _
  · rfl

/-- The expressions that are one word or number in the text, quoted or not. -/
inductive IsAtom : Expr → Prop where
  | integer (base : Base) (value : UInt64) : IsAtom (.constant (.integer base value))
  | word {word : String} (isWord : IsWord word.toList) : IsAtom (ofWord word)
  | string (value : String) : IsAtom (.constant (.string value))
  | sizeOfType {type : SwiftType} (legible : type.Legible) : IsAtom (.sizeOfType type)

theorem text_integer (base : Base) (value : UInt64) :
    (constant (.integer base value)).text = base.write value.toNat := rfl

theorem string_append (value : String) (us : List Char) :
    (constant (.string value)).text.toList ++ us =
      '"' :: (Quoted.body value.toList ++ '"' :: us) := by
  rw [text_constant, show (Constant.string value).text = Quoted.write value from rfl,
    Quoted.toList_write, List.cons_append, List.append_assoc]
  rfl

theorem sizeOfType_append (type : SwiftType) (us : List Char) :
    (sizeOfType type).text.toList ++ us = "MemoryLayout".toList ++ '<' ::
      (type.text.toList ++ '>' :: ('.' :: 's' :: 'i' :: 'z' :: 'e' :: us)) := by
  have htext : (sizeOfType type).text = "MemoryLayout<" ++ type.text ++ ">.size" := rfl
  rw [htext, String.toList_append, String.toList_append, List.append_assoc, List.append_assoc]
  rfl

theorem isRun_memoryLayout : IsRun "MemoryLayout".toList := by
  refine ⟨by decide, List.all_eq_true.mp ?_⟩
  decide

/-- An atom starts with a quote or with a word character. -/
theorem IsAtom.ne_mark {x : Expr} {c : Char} (h : IsAtom x) (hc : c ∈ marks) (hquote : c ≠ '"') :
    x.text.toList ++ us ≠ c :: vs := by
  cases h with
  | integer base value => exact (Base.isRun_write base value.toNat).1.ne_mark hc
  | word isWord =>
    rw [text_ofWord]
    exact isWord.1.ne_mark hc
  | string =>
    rw [string_append]
    exact fun heq => hquote (List.cons.inj heq).1.symm
  | sizeOfType =>
    rw [sizeOfType_append]
    exact isRun_memoryLayout.ne_mark hc

/-- No atom is the word in front of a colon. -/
theorem IsAtom.ne_label {x : Expr} {run : List Char} (h : IsAtom x) (hrun : IsRun run)
    (hu : EndsOperand us) : x.text.toList ++ us ≠ run ++ ':' :: vs := by
  have hcolon : EndsRun (':' :: vs) := endsRun_of_mark (by decide)
  have hne : ∀ {vs}, ¬ EndsOperand (':' :: vs) := fun hends => by
    have hmark := hends.mark ':' rfl
    revert hmark
    decide
  intro heq
  cases h with
  | integer base value =>
    obtain ⟨-, rfl⟩ := (Base.isRun_write base value.toNat).1.append_inj hrun
      hu.endsName.endsRun hcolon heq
    exact hne hu
  | word isWord =>
    rw [text_ofWord] at heq
    obtain ⟨-, rfl⟩ := isWord.1.append_inj hrun hu.endsName.endsRun hcolon heq
    exact hne hu
  | string =>
    rw [string_append] at heq
    exact hrun.ne_mark (by decide) heq.symm
  | sizeOfType =>
    rw [sizeOfType_append] at heq
    obtain ⟨-, hrest⟩ := isRun_memoryLayout.append_inj hrun (endsRun_of_mark (by decide)) hcolon heq
    exact absurd (List.cons.inj hrest).1 (by decide)

/-! ## Which operand it is -/

/-- The forms of the operands that are one word in the text. -/
inductive AtomForm where
  | integer
  | word
  | string
  | sizeOfType

/-- The form that the front of a text shows. A quote starts a string; behind a size stands the type,
    in angle brackets; no integer starts as a word does. -/
def AtomForm.shownBy (text : List Char) : AtomForm :=
  if text.head? = some '"' then .string
  else if (text.dropWhile isWordPart).head? = some '<' then .sizeOfType
  else if text.head?.any isWordStart then .word
  else .integer

theorem AtomForm.shownBy_append {run : List Char} (hrun : IsRun run) (hu : EndsRun us) :
    shownBy (run ++ us) = if us.head? = some '<' then .sizeOfType
      else if run.head?.any isWordStart then .word else .integer := by
  have hhead : (run ++ us).head? = run.head? := List.head?_append_of_ne_nil run hrun.1
  have hquote : (run ++ us).head? ≠ some '"' := by
    intro hquote
    obtain ⟨cs, hcs⟩ := List.head?_eq_some_iff.mp hquote
    exact hrun.ne_mark (by decide) hcs
  have hdrop : (run ++ us).dropWhile isWordPart = us := by
    rw [List.dropWhile_append_of_pos hrun.2]
    cases us with
    | nil => rfl
    | cons c us => rw [List.dropWhile_cons, endsRun_cons.mp hu, if_neg Bool.false_ne_true]
  unfold shownBy
  rw [if_neg hquote, hdrop, hhead]

/-- The expressions of a form. -/
inductive HasForm : AtomForm → Expr → Prop where
  | integer (base : Base) (value : UInt64) : HasForm .integer (.constant (.integer base value))
  | word {word : String} (isWord : IsWord word.toList) : HasForm .word (ofWord word)
  | string (value : String) : HasForm .string (.constant (.string value))
  | sizeOfType {type : SwiftType} (legible : type.Legible) : HasForm .sizeOfType (.sizeOfType type)

/-- An operand has the form that its text shows. -/
theorem IsAtom.hasForm {x : Expr} (h : IsAtom x) (hu : EndsOperand us) :
    HasForm (AtomForm.shownBy (x.text.toList ++ us)) x := by
  cases h with
  | integer base value =>
    obtain ⟨hrun, hstart⟩ := Base.isRun_write base value.toNat
    have hno : ¬ (base.write value.toNat).toList.head?.any isWordStart = true := by
      intro hany
      obtain ⟨c, hc, hword⟩ := (Option.any_eq_true _ _).mp hany
      exact absurd hword (Bool.eq_false_iff.mp (hstart c hc))
    rw [text_integer, AtomForm.shownBy_append hrun hu.endsName.endsRun, if_neg hu.ne_list, if_neg hno]
    exact .integer base value
  | @word word isWord =>
    have hstart : word.toList.head?.any isWordStart = true := by
      obtain ⟨c, cs, hcs⟩ := List.exists_cons_of_ne_nil isWord.1.1
      rw [hcs]
      exact isWord.2 c (by rw [hcs]; rfl)
    rw [text_ofWord, AtomForm.shownBy_append isWord.1 hu.endsName.endsRun, if_neg hu.ne_list, hstart,
      if_pos rfl]
    exact .word isWord
  | string value =>
    rw [string_append]
    exact .string value
  | sizeOfType legible =>
    rw [sizeOfType_append, AtomForm.shownBy_append isRun_memoryLayout (endsRun_of_mark (by decide)),
      List.head?_cons, if_pos rfl]
    exact .sizeOfType legible

/-- Atoms are told apart by their texts, with any text behind them that may stand there. -/
theorem IsAtom.append_inj {x y : Expr} (hx : IsAtom x) (hy : IsAtom y) (hu : EndsOperand us)
    (hv : EndsOperand vs) (h : x.text.toList ++ us = y.text.toList ++ vs) : x = y ∧ us = vs := by
  have hform := hx.hasForm hu
  have hform' := hy.hasForm hv
  rw [h] at hform
  -- Both have the same form, so the words, the strings or the types in them are compared.
  generalize AtomForm.shownBy (y.text.toList ++ vs) = form at hform hform'
  cases hform with
  | integer base value =>
    cases hform' with
    | integer base' value' =>
      rw [text_integer, text_integer] at h
      obtain ⟨htext, rfl⟩ := (Base.isRun_write base value.toNat).1.append_inj
        (Base.isRun_write base' value'.toNat).1 hu.endsName.endsRun hv.endsName.endsRun h
      obtain ⟨rfl, hvalue⟩ := Base.write_inj (String.toList_injective htext)
      obtain rfl := UInt64.toNat_inj.mp hvalue
      exact ⟨rfl, rfl⟩
  | word isWord =>
    cases hform' with
    | word isWord' =>
      rw [text_ofWord, text_ofWord] at h
      obtain ⟨htext, rfl⟩ := isWord.1.append_inj isWord'.1 hu.endsName.endsRun
        hv.endsName.endsRun h
      rw [String.toList_injective htext]
      exact ⟨rfl, rfl⟩
  | string value =>
    cases hform' with
    | string value' =>
      rw [string_append, string_append] at h
      obtain ⟨hvalue, rfl⟩ := Quoted.body_append_inj (List.cons.inj h).2
      rw [String.toList_injective hvalue]
      exact ⟨rfl, rfl⟩
  | sizeOfType legible =>
    cases hform' with
    | sizeOfType legible' =>
      rw [sizeOfType_append, sizeOfType_append] at h
      obtain ⟨rfl, hrest⟩ := legible.told legible' (.inside (by decide)) (.inside (by decide))
        (List.cons.inj (List.append_cancel_left h)).2
      simp only [List.cons.injEq, true_and] at hrest
      exact ⟨rfl, hrest⟩

end Expr

end HeaderBridge
