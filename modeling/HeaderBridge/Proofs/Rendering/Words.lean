/-
  Words in a text. A row of word characters ends where another character follows, so the text
  alone says how far it goes. The name of a type may be several words with blanks between them; it
  ends where no word follows that could go on the name. A number is a row of word characters too,
  and tells its base by its mark.
-/
import HeaderBridge.Objc.Grammar.TypeName
import HeaderBridge.Proofs.Lexical.Spelling
import HeaderBridge.Proofs.Quoting.Denotation
import Mathlib

namespace HeaderBridge

open Lexer (isWordStart isWordPart)

variable {cs ds us vs : List Char} {c : Char}

/-! ## Rows of word characters -/

/-- No word character follows. -/
def EndsRun (rest : List Char) : Prop := ∀ c ∈ rest.head?, isWordPart c = false

theorem endsRun_cons : EndsRun (c :: cs) ↔ isWordPart c = false := by
  simp [EndsRun]

theorem EndsRun.takeWhile_eq_nil {rest : List Char} (h : EndsRun rest) :
    rest.takeWhile isWordPart = [] := by
  cases rest with
  | nil => rfl
  | cons c rest => rw [List.takeWhile_cons, endsRun_cons.mp h, if_neg Bool.false_ne_true]

/-- Two rows of word characters with other characters behind them end at the same place. -/
theorem IsRun.append_inj (hc : IsRun cs) (hd : IsRun ds) (hu : EndsRun us) (hv : EndsRun vs)
    (h : cs ++ us = ds ++ vs) : cs = ds ∧ us = vs :=
  append_inj_of_class (p := fun c => isWordPart c = true) hc.2 hd.2
    (fun u h => Bool.eq_false_iff.mp (hu u h)) (fun v h => Bool.eq_false_iff.mp (hv v h)) h

/-- The characters other than those of words that stand in the text of an expression. -/
def marks : List Char := [
  ' ', '.', ',', ':', '?', '!', '"', '&', '|', '^', '~', '+', '-', '*', '/', '%', '=', '(', ')', '[',
  ']', '<', '>']

theorem isWordPart_of_mark (h : c ∈ marks) : isWordPart c = false := by
  have hall : marks.all (fun c => !isWordPart c) = true := by decide +kernel
  exact (Bool.not_eq_true' _).mp (List.all_eq_true.mp hall c h)

theorem endsRun_of_mark (h : c ∈ marks) : EndsRun (c :: cs) := endsRun_cons.mpr (isWordPart_of_mark h)

/-- No row of word characters starts with a mark. -/
theorem IsRun.ne_mark (h : IsRun cs) (hc : c ∈ marks) : cs ++ us ≠ c :: vs := by
  cases cs with
  | nil => exact absurd rfl h.1
  | cons d ds =>
    intro heq
    obtain rfl := (List.cons.inj heq).1
    have hpart := h.2 d List.mem_cons_self
    rw [isWordPart_of_mark hc] at hpart
    cases hpart

/-! ## Names of types -/

/-- The further words of a name, each with the blank in front of it. -/
def behindBlanks (words : List String) : List Char := words.flatMap fun w => ' ' :: w.toList

/-- A word, and behind it words that may go on the name of a type. -/
def IsTypeName (name : String) : Prop :=
  ∃ (first : String) (more : List String), IsRun first.toList ∧
    (∀ w ∈ more, w ∈ Grammar.followingWords) ∧ name = " ".intercalate (first :: more)

theorem toList_intercalate (separator first : String) (more : List String) :
    (separator.intercalate (first :: more)).toList =
      first.toList ++ more.flatMap fun s => separator.toList ++ s.toList := by
  induction more generalizing first with
  | nil => simp [String.intercalate_singleton]
  | cons second more ih =>
    rw [String.intercalate_cons_cons, String.toList_append, String.toList_append, ih]
    simp

theorem IsTypeName.starts {name : String} (h : IsTypeName name) (us : List Char) :
    ∃ c cs, name.toList ++ us = c :: cs ∧ isWordPart c = true := by
  obtain ⟨first, more, hfirst, _, rfl⟩ := h
  rw [toList_intercalate]
  cases hlist : first.toList with
  | nil => exact absurd hlist hfirst.1
  | cons c cs => exact ⟨c, _, rfl, hfirst.2 c (hlist ▸ List.mem_cons_self)⟩

theorem isWord_of_followingWords : ∀ w ∈ Grammar.followingWords, IsWord w.toList := by decide

/-- Neither a word character follows, nor a blank and a word that may go on the name of a type. -/
structure EndsName (rest : List Char) : Prop where
  endsRun : EndsRun rest
  noWord : ∀ behind, rest = ' ' :: behind →
    String.ofList (behind.takeWhile isWordPart) ∉ Grammar.followingWords

theorem EndsName.of_mark (h : c ∈ marks) (hblank : c ≠ ' ') : EndsName (c :: cs) where
  endsRun := endsRun_of_mark h
  noWord := fun _ h => absurd (List.cons.inj h).1 hblank

theorem endsRun_behindBlanks {words : List String} (h : EndsRun us) :
    EndsRun (behindBlanks words ++ us) := by
  cases words with
  | nil => exact h
  | cons w words => exact endsRun_of_mark List.mem_cons_self

/-- A text that a further word starts does not end a name. -/
theorem not_endsName {w : String} {words : List String} (hw : w ∈ Grammar.followingWords)
    (hu : EndsRun us) : ¬ EndsName (behindBlanks (w :: words) ++ us) := by
  intro h
  refine h.noWord (w.toList ++ (behindBlanks words ++ us)) (by simp [behindBlanks]) ?_
  have hbehind : EndsRun (behindBlanks words ++ us) := endsRun_behindBlanks hu
  rw [List.takeWhile_append_of_pos (isWord_of_followingWords w hw).1.2]
  rw [hbehind.takeWhile_eq_nil, List.append_nil, String.ofList_toList]
  exact hw

theorem behindBlanks_append_inj {words words' : List String}
    (h : ∀ w ∈ words, w ∈ Grammar.followingWords) (h' : ∀ w ∈ words', w ∈ Grammar.followingWords)
    (hu : EndsName us) (hv : EndsName vs)
    (heq : behindBlanks words ++ us = behindBlanks words' ++ vs) : words = words' ∧ us = vs := by
  induction words generalizing words' with
  | nil =>
    cases words' with
    | nil => exact ⟨rfl, heq⟩
    | cons w words' =>
      obtain rfl : us = behindBlanks (w :: words') ++ vs := heq
      exact absurd hu (not_endsName (h' w List.mem_cons_self) hv.endsRun)
  | cons w words ih =>
    cases words' with
    | nil =>
      obtain rfl : behindBlanks (w :: words) ++ us = vs := heq
      exact absurd hv (not_endsName (h w List.mem_cons_self) hu.endsRun)
    | cons w' words' =>
      obtain ⟨hw, hwords⟩ := List.forall_mem_cons.mp h
      obtain ⟨hw', hwords'⟩ := List.forall_mem_cons.mp h'
      have hcons : w.toList ++ (behindBlanks words ++ us) =
          w'.toList ++ (behindBlanks words' ++ vs) := by
        simpa [behindBlanks] using heq
      obtain ⟨hfirst, hrest⟩ := (isWord_of_followingWords w hw).1.append_inj
        (isWord_of_followingWords w' hw').1 (endsRun_behindBlanks hu.endsRun)
        (endsRun_behindBlanks hv.endsRun) hcons
      obtain ⟨rfl, rfl⟩ := ih hwords hwords' hrest
      exact ⟨by rw [String.toList_injective hfirst], rfl⟩

/-- Two names of types with ends behind them are the same. -/
theorem IsTypeName.append_inj {name name' : String} (h : IsTypeName name) (h' : IsTypeName name')
    (hu : EndsName us) (hv : EndsName vs) (heq : name.toList ++ us = name'.toList ++ vs) :
    name = name' ∧ us = vs := by
  obtain ⟨first, more, hfirst, hmore, rfl⟩ := h
  obtain ⟨first', more', hfirst', hmore', rfl⟩ := h'
  have hrow : first.toList ++ (behindBlanks more ++ us) =
      first'.toList ++ (behindBlanks more' ++ vs) := by
    rw [toList_intercalate, toList_intercalate, List.append_assoc, List.append_assoc] at heq
    exact heq
  obtain ⟨hwords, hrest⟩ := hfirst.append_inj hfirst' (endsRun_behindBlanks hu.endsRun)
    (endsRun_behindBlanks hv.endsRun) hrow
  obtain ⟨rfl, rfl⟩ := behindBlanks_append_inj hmore hmore' hu hv hrest
  exact ⟨by rw [String.toList_injective hwords], rfl⟩

end HeaderBridge
