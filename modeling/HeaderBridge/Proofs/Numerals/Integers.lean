/-
  Integer literals from the source to Swift. The text of one falls apart in one way into a mark, its
  digits and the letters of a suffix, and the mark says the base (`IsInteger`). It has a value just if
  it has a digit, all digits are of the base, and the number that they denote fits 64 bits; what is
  written for it in Swift is a numeral of the same base and number (`swift?_integer_iff`). What digits
  denote is said here once for both languages, by the place of each digit in the row of all digits
  (`Denotes`).
-/
import HeaderBridge.Bridge.ExprReading
import HeaderBridge.Proofs.Lexical.Spacing
import HeaderBridge.Proofs.Rendering.Atoms

namespace HeaderBridge

namespace Numeral

open Lexer
open Literal (digitValue? digitsValue?)

/-! ## Digits -/

/-- The digits of all bases, each at the place of its value. -/
def row : List Char :=
  ['0', '1', '2', '3', '4', '5', '6', '7', '8', '9', 'a', 'b', 'c', 'd', 'e', 'f']

/-- The character is the digit with a value, in either case. -/
def IsDigit (c : Char) (d : Nat) : Prop := row[d]? = some c ∨ row[d]?.map Char.toUpper = some c

/-- The characters are digits of a base, and the number has these digits, the highest one first. -/
def Denotes (radix : Nat) (digits : List Char) (number : Nat) : Prop :=
  ∃ ds, List.Forall₂ IsDigit digits ds ∧ (∀ d ∈ ds, d < radix) ∧
    number = Nat.ofDigits radix ds.reverse

instance (c : Char) (d : Nat) : Decidable (IsDigit c d) := inferInstanceAs (Decidable (_ ∨ _))

/-- What is true of the first 128 characters is true of every character of ASCII. -/
theorem of_ascii (p : Char → Prop) (h : ∀ n < 128, p (Char.ofNat n)) {c : Char}
    (hc : c.toNat < 128) : p c := by
  have hp := h c.toNat hc
  rwa [Char.ofNat_toNat] at hp

theorem toNat_lt_of_le {c last : Char} (h : c ≤ last) (hlast : last.toNat < 128) :
    c.toNat < 128 :=
  Nat.lt_of_le_of_lt h hlast

theorem toNat_lt_of_digitValue? {c : Char} {d : Nat} (h : digitValue? c = some d) :
    c.toNat < 128 := by
  unfold digitValue? at h
  split_ifs at h with hdigit hlower hupper
  · exact toNat_lt_of_le hdigit.2 (by decide)
  · exact toNat_lt_of_le hlower.2 (by decide)
  · exact toNat_lt_of_le hupper.2 (by decide)

/-- What is true of all digits in both cases is true of a digit. -/
theorem IsDigit.of_row {c : Char} {d : Nat} (h : IsDigit c d) (p : Char → Prop)
    (hrow : ∀ c ∈ row ++ row.map Char.toUpper, p c) : p c := by
  refine hrow c (List.mem_append.mpr (h.imp List.mem_of_getElem? fun hupper => ?_))
  rw [← List.getElem?_map] at hupper
  exact List.mem_of_getElem? hupper

theorem digitValue?_eq_some_iff {c : Char} {d : Nat} (hd : d < 16) :
    digitValue? c = some d ↔ IsDigit c d := by
  have hascii (hc : c.toNat < 128) : ∀ d < 16, digitValue? c = some d ↔ IsDigit c d :=
    of_ascii (fun c => ∀ d < 16, digitValue? c = some d ↔ IsDigit c d) (by decide +kernel) hc
  constructor
  · exact fun h => (hascii (toNat_lt_of_digitValue? h) d hd).mp h
  · exact fun h => (hascii (h.of_row (·.toNat < 128) (by simp [row])) d hd).mpr h

/-- No digit is a plus sign or a letter of a suffix. -/
theorem IsDigit.notMem {c : Char} {d : Nat} (h : IsDigit c d) : c ∉ ['u', 'U', 'l', 'L', '+'] :=
  h.of_row (· ∉ ['u', 'U', 'l', 'L', '+']) (by simp [row])

/-- No digit below ten is a letter of a mark. -/
theorem IsDigit.notMem_of_lt {c : Char} {d : Nat} (h : IsDigit c d) (hd : d < 10) :
    c ∉ ['x', 'X', 'b', 'B'] := by
  have hall : ∀ c ∈ row.take 10, c ∉ ['x', 'X', 'b', 'B'] ∧ c.toUpper ∉ ['x', 'X', 'b', 'B'] := by
    simp [row]
  have hmem {c : Char} (hc : row[d]? = some c) : c ∈ row.take 10 := by
    rw [← List.getElem?_take_of_lt hd] at hc
    exact List.mem_of_getElem? hc
  rcases h with h | h
  · exact (hall c (hmem h)).1
  · obtain ⟨lower, hlower, rfl⟩ := Option.map_eq_some_iff.mp h
    exact (hall lower (hmem hlower)).2

theorem exists_isDigit_of_isDigit {c : Char} (h : c.isDigit = true) : ∃ d < 10, IsDigit c d :=
  of_ascii (fun c => c.isDigit = true → ∃ d < 10, IsDigit c d) (by decide +kernel)
    (Nat.lt_of_le_of_lt (Char.isDigit_iff_toNat.mp h).2 (by decide)) h

theorem exists_isDigit_of_isHexDigit {c : Char} (h : Unicode.isHexDigit c = true) :
    ∃ d < 16, IsDigit c d := by
  have hlt : c.toNat < 128 := by
    simp only [Unicode.isHexDigit, Bool.or_eq_true, Bool.and_eq_true, decide_eq_true_eq] at h
    rcases h with (h | h) | h
    · exact Nat.lt_of_le_of_lt (Char.isDigit_iff_toNat.mp h).2 (by decide)
    · exact toNat_lt_of_le h.2 (by decide)
    · exact toNat_lt_of_le h.2 (by decide)
  exact of_ascii (fun c => Unicode.isHexDigit c = true → ∃ d < 16, IsDigit c d) (by decide +kernel)
    hlt h

theorem digitsValue?_eq_some_iff {radix : Nat} (hradix : radix ≤ 16) {value number : Nat}
    {cs : List Char} : digitsValue? radix value cs = some number ↔
      ∃ ds, List.Forall₂ IsDigit cs ds ∧ (∀ d ∈ ds, d < radix) ∧
        number = value * radix ^ ds.length + Nat.ofDigits radix ds.reverse := by
  induction cs generalizing value with
  | nil => simp [digitsValue?, eq_comm]
  | cons c cs ih =>
    have hstep : digitsValue? radix value (c :: cs) = some number ↔ ∃ d < radix, IsDigit c d ∧
        digitsValue? radix (radix * value + d) cs = some number := by
      rw [digitsValue?]
      constructor
      · intro h
        split at h
        · next d hd =>
          split at h
          · next hlt => exact ⟨d, hlt, (digitValue?_eq_some_iff (hlt.trans_le hradix)).mp hd, h⟩
          · cases h
        · cases h
      · rintro ⟨d, hlt, hd, h⟩
        rw [(digitValue?_eq_some_iff (hlt.trans_le hradix)).mpr hd]
        exact (if_pos hlt).trans h
    have hnumber (d : Nat) (ds : List Nat) :
        value * radix ^ (d :: ds).length + Nat.ofDigits radix (d :: ds).reverse =
          (radix * value + d) * radix ^ ds.length + Nat.ofDigits radix ds.reverse := by
      rw [List.reverse_cons, Nat.ofDigits_append, Nat.ofDigits_singleton, List.length_reverse,
        List.length_cons, pow_succ]
      ring
    rw [hstep]
    constructor
    · rintro ⟨d, hlt, hd, h⟩
      obtain ⟨ds, hds, hall, rfl⟩ := ih.mp h
      exact ⟨d :: ds, .cons hd hds, List.forall_mem_cons.mpr ⟨hlt, hall⟩, (hnumber d ds).symm⟩
    · rintro ⟨ds, hds, hall, rfl⟩
      cases hds with
      | cons hd hds =>
        obtain ⟨hlt, hall⟩ := List.forall_mem_cons.mp hall
        exact ⟨_, hlt, hd, ih.mpr ⟨_, hds, hall, hnumber _ _⟩⟩

/-- The value of digits is the number that they denote. -/
theorem digitsValue?_zero_iff {radix : Nat} (hradix : radix ≤ 16) {number : Nat} {cs : List Char} :
    digitsValue? radix 0 cs = some number ↔ Denotes radix cs number := by
  rw [digitsValue?_eq_some_iff hradix]
  simp only [Nat.zero_mul, Nat.zero_add]
  rfl

/-! ## The parts of a literal -/

/-- Digits below a bound, however many. -/
def IsRow (bound : Nat) (cs : List Char) : Prop := ∀ c ∈ cs, ∃ d < bound, IsDigit c d

/-- What a mark in front of some digits says of their base: `0x` that it is hexadecimal, `0b` that it
    is binary, and a zero in front of further digits that it is octal. Otherwise there is no mark. -/
def Marks : Base → List Char → List Char → Prop
  | .hexadecimal, mark, digits => (mark = ['0', 'x'] ∨ mark = ['0', 'X']) ∧ IsRow 16 digits
  | .binary, mark, digits => (mark = ['0', 'b'] ∨ mark = ['0', 'B']) ∧ IsRow 10 digits
  | .octal, mark, digits => mark = ['0'] ∧ digits ≠ [] ∧ IsRow 10 digits
  | .decimal, mark, digits =>
    mark = [] ∧ (digits.head? = some '0' → digits = ['0']) ∧ IsRow 10 digits

/-- The text is a mark, digits and any number of suffix letters. -/
def IsInteger (base : Base) (digits text : List Char) : Prop :=
  ∃ mark suffix, text = mark ++ digits ++ suffix ∧ Marks base mark digits ∧
    ∀ c ∈ suffix, c ∈ ['u', 'U', 'l', 'L']

theorem IsRow.mono {bound bound' : Nat} {cs : List Char} (h : IsRow bound cs)
    (hle : bound ≤ bound') : IsRow bound' cs := fun c hc =>
  let ⟨d, hd, hdigit⟩ := h c hc
  ⟨d, hd.trans_le hle, hdigit⟩

theorem Marks.isRow {base : Base} {mark digits : List Char} (h : Marks base mark digits) :
    IsRow 16 digits := by
  cases base with
  | hexadecimal => exact h.2
  | binary => exact h.2.mono (by decide)
  | octal => exact h.2.2.mono (by decide)
  | decimal => exact h.2.2.mono (by decide)

theorem mem_suffix_iff {c : Char} : Literal.isIntSuffix c = true ↔ c ∈ ['u', 'U', 'l', 'L'] := by
  simp [Literal.isIntSuffix, or_assoc]

theorem withoutSuffix_append {isSuffix : Char → Bool} {front suffix : List Char}
    (hfront : ∀ c ∈ front, isSuffix c = false) (hsuffix : ∀ c ∈ suffix, isSuffix c = true) :
    Literal.withoutSuffix isSuffix (front ++ suffix) = front := by
  have hall : ∀ c ∈ suffix.reverse, isSuffix c = true := fun c hc =>
    hsuffix c (List.mem_reverse.mp hc)
  have hnone : front.reverse.dropWhile isSuffix = front.reverse := by
    rw [List.dropWhile_eq_self_iff]
    intro hpos hc
    rw [hfront _ (List.mem_reverse.mp (List.getElem_mem hpos))] at hc
    cases hc
  unfold Literal.withoutSuffix
  rw [List.reverse_append, List.dropWhile_append_of_pos hall, hnone, List.reverse_reverse]

theorem Marks.baseOf_eq {base : Base} {mark digits : List Char} (h : Marks base mark digits) :
    Literal.baseOf (mark ++ digits) = (base, digits) := by
  have hnoMark {c : Char} (hrow : IsRow 10 digits) (hc : c ∈ digits) :
      c ∉ ['x', 'X', 'b', 'B'] := by
    obtain ⟨d, hd, hdigit⟩ := hrow c hc
    exact hdigit.notMem_of_lt hd
  cases base with
  | hexadecimal => rcases h.1 with rfl | rfl <;> rfl
  | binary => rcases h.1 with rfl | rfl <;> rfl
  | octal =>
    obtain ⟨rfl, hne, hrow⟩ := h
    obtain ⟨c, cs, rfl⟩ := List.exists_cons_of_ne_nil hne
    have hc := hnoMark hrow List.mem_cons_self
    change Literal.baseOf ('0' :: c :: cs) = _
    unfold Literal.baseOf
    split
    all_goals simp_all
  | decimal =>
    obtain ⟨rfl, hzero, hrow⟩ := h
    rw [List.nil_append]
    unfold Literal.baseOf
    split
    all_goals simp_all

theorem Marks.notMem {base : Base} {mark digits : List Char} (h : Marks base mark digits) :
    ∀ c ∈ mark ++ digits, Literal.isIntSuffix c = false := by
  have hmark : ∀ c ∈ mark, Literal.isIntSuffix c = false := by
    cases base with
    | hexadecimal => rcases h.1 with rfl | rfl <;> simp [Literal.isIntSuffix]
    | binary => rcases h.1 with rfl | rfl <;> simp [Literal.isIntSuffix]
    | octal => rw [h.1]; simp [Literal.isIntSuffix]
    | decimal => rw [h.1]; exact List.forall_mem_nil _
  refine List.forall_mem_append.mpr ⟨hmark, fun c hc => ?_⟩
  obtain ⟨d, -, hdigit⟩ := h.isRow c hc
  rw [Bool.eq_false_iff]
  intro hsuffix
  exact hdigit.notMem (List.mem_append_left ['+'] (mem_suffix_iff.mp hsuffix))

/-- The parts of a literal are told from its text. -/
theorem IsInteger.baseOf_eq {base : Base} {digits text : List Char}
    (h : IsInteger base digits text) :
    Literal.baseOf (Literal.withoutSuffix Literal.isIntSuffix text) = (base, digits) := by
  obtain ⟨mark, suffix, rfl, hmark, hsuffix⟩ := h
  rw [withoutSuffix_append hmark.notMem fun c hc => mem_suffix_iff.mpr (hsuffix c hc),
    hmark.baseOf_eq]

theorem unsigned?_eq_some_iff {radix : Nat} (hradix : radix ≤ 16) {digits : List Char}
    (hrow : IsRow 16 digits) {value : UInt64} : Literal.unsigned? radix digits = some value ↔
      digits ≠ [] ∧ ∃ number, Denotes radix digits number ∧ number < 2 ^ 64 ∧
        value = UInt64.ofNat number := by
  have hplus : digits.head? ≠ some '+' := by
    intro hhead
    obtain ⟨d, hd, hdigit⟩ := hrow '+' (List.mem_of_mem_head? hhead)
    exact hdigit.notMem (by decide)
  unfold Literal.unsigned?
  rw [if_neg hplus]
  simp only [← digitsValue?_zero_iff hradix]
  cases digits with
  | nil => simp
  | cons c cs =>
    rw [if_neg (by simp)]
    cases digitsValue? radix 0 (c :: cs) with
    | none => simp
    | some number => simp [eq_comm]

/-! ## Where the lexer ends a literal -/

/-- The characters of two classes, those of the first one in front. -/
theorem take_followedBy_run (p q : Char → Bool) (cs : List Char) :
    cs.take (followedBy (run p) (run q) cs) =
      cs.takeWhile p ++ (cs.drop (run p cs)).takeWhile q := by
  have htake (p : Char → Bool) (cs : List Char) : cs.take (run p cs) = cs.takeWhile p :=
    (List.prefix_iff_eq_take.mp (List.takeWhile_prefix p)).symm
  unfold followedBy
  rw [List.take_add, htake, htake]

/-- Digits and suffix letters behind a mark are the rest of a literal. -/
theorem isInteger_of_runs {base : Base} {mark lead cs : List Char} {isDigit : Char → Bool}
    (hmark : Marks base mark (lead ++ cs.takeWhile isDigit)) :
    IsInteger base (lead ++ cs.takeWhile isDigit)
      (mark ++ lead ++ cs.take (followedBy (run isDigit) (run isIntSuffix) cs)) := by
  refine ⟨mark, (cs.drop (run isDigit cs)).takeWhile isIntSuffix, ?_, hmark, fun c hc => ?_⟩
  · rw [take_followedBy_run]
    simp only [List.append_assoc]
  · exact mem_suffix_iff.mp (List.mem_takeWhile_imp hc)

theorem isRow_takeWhile_digits (cs : List Char) : IsRow 10 (cs.takeWhile Char.isDigit) :=
  fun _ hc => exists_isDigit_of_isDigit (List.mem_takeWhile_imp hc)

theorem isInteger_of_decimalNumber {c : Char} {cs : List Char} (hc : c.isDigit = true)
    (hkind : (decimalNumber cs).kind = .intLiteral) :
    ∃ base digits, IsInteger base digits (c :: cs.take (decimalNumber cs).further) := by
  rw [decimalNumber_eq] at hkind ⊢
  split at hkind
  · cases hkind
  next hint =>
  have hdigits : decimalDigits cs = run Char.isDigit cs := by
    by_contra hne
    exact hint (.inl hne)
  have hfurther : followedBy decimalDigits (run isIntSuffix) cs =
      followedBy (run Char.isDigit) (run isIntSuffix) cs := by
    unfold followedBy
    rw [hdigits]
  rw [if_neg hint, hfurther]
  have hrow := isRow_takeWhile_digits cs
  by_cases hoctal : c = '0' ∧ cs.takeWhile Char.isDigit ≠ []
  · obtain ⟨rfl, hne⟩ := hoctal
    have hmark : Marks .octal ['0'] ([] ++ cs.takeWhile Char.isDigit) := ⟨rfl, hne, hrow⟩
    exact ⟨.octal, _, isInteger_of_runs hmark⟩
  · have hmark : Marks .decimal [] ([c] ++ cs.takeWhile Char.isDigit) := by
      refine ⟨rfl, fun hhead => ?_, ?_⟩
      · obtain rfl : c = '0' := Option.some.inj hhead
        have hnone : cs.takeWhile Char.isDigit = [] := by simpa using hoctal
        rw [hnone]
        rfl
      · exact List.forall_mem_cons.mpr ⟨exists_isDigit_of_isDigit hc, hrow⟩
    exact ⟨.decimal, _, isInteger_of_runs hmark⟩

/-- A mark of two characters, with digits of its class behind it. -/
theorem isInteger_of_basedNumber {base : Base} {lead mark : Char} {isDigit : Char → Bool}
    {cs : List Char} (hmark : Marks base [lead, mark] (cs.takeWhile isDigit)) :
    ∃ base digits, IsInteger base digits
      (lead :: (mark :: cs).take (basedNumber isDigit cs).further) := by
  have hlead : Marks base [lead, mark] ([] ++ cs.takeWhile isDigit) := hmark
  refine ⟨base, [] ++ cs.takeWhile isDigit, ?_⟩
  rw [basedNumber_eq, List.take_succ_cons]
  exact isInteger_of_runs hlead

theorem isInteger_of_number {c : Char} {cs : List Char} (hc : c.isDigit = true)
    (hkind : (number c cs).kind = .intLiteral) :
    ∃ base digits, IsInteger base digits (c :: cs.take (number c cs).further) := by
  by_cases hzero : c = '0'
  · subst hzero
    cases cs with
    | nil => exact isInteger_of_decimalNumber hc hkind
    | cons mark cs =>
      rw [number_zero] at hkind ⊢
      split at hkind
      · next hx =>
        rw [if_pos hx]
        have hmark : Marks .hexadecimal ['0', mark] (cs.takeWhile Unicode.isHexDigit) := by
          refine ⟨by simpa using hx, fun d hd => ?_⟩
          exact exists_isDigit_of_isHexDigit (List.mem_takeWhile_imp hd)
        exact isInteger_of_basedNumber hmark
      · next hx =>
        rw [if_neg hx]
        split at hkind
        · next hb =>
          rw [if_pos hb]
          have hmark : Marks .binary ['0', mark] (cs.takeWhile isBit) := by
            refine ⟨by simpa using (Bool.and_eq_true_iff.mp hb).1, fun d hd => ?_⟩
            have hbit : isBit d = true := List.mem_takeWhile_imp hd
            refine exists_isDigit_of_isDigit ?_
            rcases Bool.or_eq_true_iff.mp hbit with h | h
            all_goals rw [eq_of_beq h]; rfl
          exact isInteger_of_basedNumber hmark
        · next hb =>
          rw [if_neg hb]
          exact isInteger_of_decimalNumber hc hkind
  · rw [number_of_ne hzero] at hkind ⊢
    exact isInteger_of_decimalNumber hc hkind

theorem kind_operator_ne {c : Char} {cs : List Char} {found : Scan}
    (h : operator c cs = some found) : found.kind ≠ .intLiteral := by
  unfold operator at h
  split at h
  · next kind hpair =>
    obtain rfl := Option.some.inj h
    obtain ⟨d, -, hpair⟩ := Option.bind_eq_some_iff.mp hpair
    rintro rfl
    unfold operatorPair at hpair
    split at hpair
    all_goals cases hpair
  · obtain ⟨kind, hsingle, rfl⟩ := Option.map_eq_some_iff.mp h
    rintro rfl
    unfold operatorSingle at hsingle
    split at hsingle
    all_goals cases hsingle

theorem kind_atSign_ne (cs : List Char) : (atSign cs).kind ≠ .intLiteral := by
  unfold atSign
  split
  · intro h
    cases h
  · next c cs =>
    split
    · rcases kind_quoted '"' .stringLiteral cs with h | h
      all_goals
        change (quoted '"' .stringLiteral cs).kind ≠ _
        rw [h]
        intro hkind
        cases hkind
    · split
      · intro h
        have hword := isAtKeyword_ofAtWord (String.ofList (c :: cs.take (run isWordPart cs)))
        rw [show TokenKind.ofAtWord _ = .intLiteral from h] at hword
        cases hword
      · intro h
        cases h

/-- Only a number is an integer. -/
theorem scan_eq_number {c : Char} {cs : List Char} (hkind : (scan c cs).kind = .intLiteral) :
    c.isDigit = true ∧ scan c cs = number c cs := by
  have hopens : ¬ Opens c cs := by
    intro h
    rcases isScrap_of_opens h with h | h | h
    all_goals
      rw [hkind] at h
      cases h
  have hquoted (quote : Char) {kind : TokenKind} (hne : kind ≠ .intLiteral) :
      (quoted quote kind cs).kind ≠ .intLiteral := by
    rcases kind_quoted quote kind cs with h | h
    all_goals rw [h]
    · exact hne
    · nofun
  rw [scan_eq_scanner hopens] at hkind ⊢
  unfold scanner at hkind ⊢
  split_ifs at hkind ⊢ with hat hstring hchar
  · exact absurd hkind (kind_atSign_ne cs)
  · exact absurd hkind (hquoted '"' nofun)
  · exact absurd hkind (hquoted '\'' nofun)
  · unfold plainScan at hkind ⊢
    by_cases hdigit : c.isDigit = true
    · exact ⟨hdigit, if_pos hdigit⟩
    · rw [if_neg hdigit] at hkind
      split at hkind
      · cases hkind
      · split at hkind
        · next found hfound => exact absurd hkind (kind_operator_ne hfound)
        · split at hkind
          · cases hkind
          · cases hkind

/-- Every integer literal of a source falls apart into its parts. -/
theorem isInteger_of_mem {offset : Nat} {cs : List Char} {t : Token} (ht : t ∈ tokensFrom offset cs)
    (hkind : t.kind = .intLiteral) : ∃ base digits, IsInteger base digits t.text.toList := by
  fun_induction tokensFrom offset cs with
  | case1 offset =>
    rw [List.mem_singleton.mp ht] at hkind
    cases hkind
  | case2 offset c cs _ ih => exact ih ht
  | case3 offset c cs _ found text stop token ih =>
    rcases List.mem_cons.mp ht with rfl | ht
    · obtain ⟨hdigit, hscan⟩ := scan_eq_number hkind
      have hnumber : (number c cs).kind = .intLiteral := hscan ▸ hkind
      have hparts := isInteger_of_number hdigit hnumber
      rw [← hscan] at hparts
      rwa [String.toList_ofList]
    · exact ih ht

/-! ## Swift -/

/-- The text is a numeral of Swift: a mark that says the base, and behind it digits of that base
    that denote the number. -/
def IsNumeral (base : Base) (number : Nat) (text : List Char) : Prop :=
  ∃ mark digits, (mark, base) ∈ [([], Base.decimal), (['0', 'b'], .binary), (['0', 'o'], .octal),
      (['0', 'x'], .hexadecimal)] ∧
    text = mark ++ digits ∧ digits ≠ [] ∧ Denotes base.radix digits number

theorem isNumeral_write (base : Base) (number : Nat) :
    IsNumeral base number (base.write number).toList := by
  refine ⟨base.mark.toList, base.digits number, ?_, Base.toList_write base number, ?_, ?_⟩
  · cases base <;> simp [Base.mark]
  · exact fun h => Nat.toDigits_ne_nil (List.map_eq_nil_iff.mp h)
  · exact (digitsValue?_zero_iff base.radix_le).mp (Base.digitsValue?_digits base number)

end Numeral

open Numeral

/-- An integer literal of a source keeps its base and its value, whatever suffix it has. It is read
    just if it has a digit, all of its digits are of the base that its mark says, and the number that
    they denote fits 64 bits. -/
theorem swift?_integer_iff {source : String} {t : Token} (ht : t ∈ tokenize source)
    (hkind : t.kind = .intLiteral) : ∃ base digits, IsInteger base digits t.text.toList ∧
      (∀ base' digits', IsInteger base' digits' t.text.toList → base' = base ∧ digits' = digits) ∧
      ∀ (m : TypeMap) (e : Expr), (ObjcExpr.literal (.int t.text)).swift? m = some e ↔
        digits ≠ [] ∧ ∃ number, Denotes base.radix digits number ∧ number < 2 ^ 64 ∧
          e = .constant (.integer base (UInt64.ofNat number)) ∧
          IsNumeral base number e.text.toList := by
  obtain ⟨base, digits, hparts⟩ := isInteger_of_mem ht hkind
  refine ⟨base, digits, hparts, fun base' digits' h => ?_, fun m e => ?_⟩
  · have heq := h.baseOf_eq.symm.trans hparts.baseOf_eq
    exact Prod.mk.inj heq
  · have hrow : IsRow 16 digits := by
      obtain ⟨mark, suffix, -, hmark, -⟩ := hparts
      exact hmark.isRow
    have hread : (ObjcExpr.literal (.int t.text)).swift? m =
        ((Literal.unsigned? base.radix digits).map (Constant.integer base)).map .constant := by
      change (Literal.integer? t.text).map Expr.constant = _
      unfold Literal.integer?
      rw [hparts.baseOf_eq]
    rw [hread]
    constructor
    · intro h
      obtain ⟨_, hconstant, rfl⟩ := Option.map_eq_some_iff.mp h
      obtain ⟨value, hvalue, rfl⟩ := Option.map_eq_some_iff.mp hconstant
      obtain ⟨hne, number, hnumber, hlt, rfl⟩ :=
        (unsigned?_eq_some_iff base.radix_le hrow).mp hvalue
      refine ⟨hne, number, hnumber, hlt, rfl, ?_⟩
      have hkept : (UInt64.ofNat number).toNat = number := UInt64.toNat_ofNat_of_lt' hlt
      rw [Expr.text_integer, hkept]
      exact isNumeral_write base number
    · rintro ⟨hne, number, hnumber, hlt, rfl, -⟩
      rw [(unsigned?_eq_some_iff base.radix_le hrow).mpr ⟨hne, number, hnumber, hlt, rfl⟩]
      rfl

/-- A hexadecimal literal whose suffix starts behind a letter that is a digit. -/
theorem swift?_integer_iff_hexadecimal :
    ∃ t ∈ tokenize "0XfFuL", t.kind = .intLiteral ∧ IsInteger .hexadecimal ['f', 'F'] t.text.toList ∧
      ∀ m : TypeMap, (ObjcExpr.literal (.int t.text)).swift? m =
        some (.constant (.integer .hexadecimal 255)) := by
  have htokens : tokenize "0XfFuL" =
      [⟨.intLiteral, "0XfFuL", ⟨0, 6, by decide⟩⟩, ⟨.endOfFile, "", Span.point 6⟩] := by
    cbv
  have ht : ⟨.intLiteral, "0XfFuL", ⟨0, 6, by decide⟩⟩ ∈ tokenize "0XfFuL" := by
    rw [htokens]
    exact List.mem_cons_self
  obtain ⟨base, digits, -, hunique, hread⟩ := swift?_integer_iff ht rfl
  have hdigits : Numeral.Denotes 16 ['f', 'F'] 255 :=
    ⟨[15, 15], .cons (.inl rfl) (.cons (.inr rfl) .nil), by decide, by decide⟩
  have hparts : IsInteger .hexadecimal ['f', 'F'] "0XfFuL".toList := by
    refine ⟨['0', 'X'], ['u', 'L'], rfl, ⟨.inr rfl, ?_⟩, by simp⟩
    exact List.forall_mem_cons.mpr ⟨⟨15, by decide, .inl rfl⟩,
      List.forall_mem_singleton.mpr ⟨15, by decide, .inr rfl⟩⟩
  obtain ⟨rfl, rfl⟩ := hunique _ _ hparts
  refine ⟨_, ht, rfl, hparts, fun m => (hread m _).mpr ⟨by decide, 255, hdigits, by decide, rfl, ?_⟩⟩
  exact isNumeral_write .hexadecimal 255

end HeaderBridge
