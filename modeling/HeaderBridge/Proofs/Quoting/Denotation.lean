/-
  Which characters a text in double quotes stands for. An escape stands for the character that it
  stands for in a character literal; a reader that knows numbered escapes takes a number in braces
  for the character of that code point; every other character stands for itself.

  A text stands for one value at most. What is written with escapes stands for the value that it was
  written from, so that different values have different texts, even in front of more text.
-/
import HeaderBridge.Bridge.Literal
import HeaderBridge.Text.Quoted
import Mathlib

namespace HeaderBridge

/-- Where a row of a class ends is seen from what is behind it. -/
theorem append_inj_of_class {α : Type} {p : α → Prop} {xs ys us vs : List α}
    (hxs : ∀ x ∈ xs, p x) (hys : ∀ y ∈ ys, p y) (hus : ∀ u ∈ us.head?, ¬ p u)
    (hvs : ∀ v ∈ vs.head?, ¬ p v) (h : xs ++ us = ys ++ vs) : xs = ys ∧ us = vs := by
  induction xs generalizing ys with
  | nil =>
    cases ys with
    | nil => exact ⟨rfl, h⟩
    | cons y ys =>
      obtain rfl : us = y :: (ys ++ vs) := h
      exact absurd (hys y List.mem_cons_self) (hus y rfl)
  | cons x xs ih =>
    cases ys with
    | nil =>
      obtain rfl : x :: (xs ++ us) = vs := h
      exact absurd (hxs x List.mem_cons_self) (hvs x rfl)
    | cons y ys =>
      obtain ⟨rfl, hbehind⟩ := List.cons.inj h
      obtain ⟨rfl, rfl⟩ := ih (fun z hz => hxs z (List.mem_cons_of_mem _ hz))
        (fun z hz => hys z (List.mem_cons_of_mem _ hz)) hbehind
      exact ⟨rfl, rfl⟩

/-! ## Numbers -/

namespace Literal

variable {radix value : Nat} {cs ds : List Char}

theorem digitsValue?_append :
    digitsValue? radix value (cs ++ ds) =
      (digitsValue? radix value cs).bind (digitsValue? radix · ds) := by
  induction cs generalizing value with
  | nil => rfl
  | cons c cs ih =>
    simp only [List.cons_append, digitsValue?]
    cases digitValue? c with
    | none => rfl
    | some d =>
      show (if d < radix then digitsValue? radix (radix * value + d) (cs ++ ds) else none) =
        Option.bind (if d < radix then digitsValue? radix (radix * value + d) cs else none)
          (digitsValue? radix · ds)
      split
      · exact ih
      · rfl

/-- Every character of a number is a digit. -/
theorem digitValue?_ne_none_of_mem {n : Nat} (h : digitsValue? radix value cs = some n) :
    ∀ c ∈ cs, digitValue? c ≠ none := by
  induction cs generalizing value with
  | nil => exact fun c hc => absurd hc List.not_mem_nil
  | cons c cs ih =>
    unfold digitsValue? at h
    split at h
    · next d hd =>
      split at h
      · exact List.forall_mem_cons.mpr ⟨by rw [hd]; exact Option.some_ne_none d, ih h⟩
      · cases h
    · cases h

/-- A digit of a number in some base has its value, as a capital letter too. -/
theorem digitValue?_digitChar {d : Nat} (h : d < 16) :
    digitValue? d.digitChar = some d ∧ digitValue? d.digitChar.toUpper = some d := by
  revert d
  decide

/-- The digits of a number are digits of its base. -/
theorem mem_toDigits {n : Nat} (hone : 1 < radix) :
    ∀ c ∈ Nat.toDigits radix n, ∃ d < radix, c = d.digitChar := by
  induction n using Nat.strongRecOn with
  | ind n ih =>
    have hpos : 0 < radix := Nat.zero_lt_of_lt hone
    rcases lt_or_ge n radix with hn | hn
    · rw [Nat.toDigits_of_lt_base hn]
      exact fun c hc => ⟨n, hn, List.mem_singleton.mp hc⟩
    · rw [Nat.toDigits_of_base_le hone hn]
      refine List.forall_mem_append.mpr ⟨ih _ (Nat.div_lt_self (hpos.trans_le hn) hone), ?_⟩
      exact fun c hc => ⟨n % radix, Nat.mod_lt n hpos, List.mem_singleton.mp hc⟩

theorem digitsValue?_digit {d : Nat} {c : Char} (hc : digitValue? c = some d) (hd : d < radix) :
    digitsValue? radix value [c] = some (radix * value + d) := by
  unfold digitsValue?
  rw [hc]
  exact if_pos hd

/-- The digits of a number have its value, and so have other characters for the same digits. -/
theorem digitsValue?_toDigits {f : Char → Char} (hone : 1 < radix)
    (hf : ∀ d < radix, digitValue? (f d.digitChar) = some d) (n : Nat) :
    digitsValue? radix 0 ((Nat.toDigits radix n).map f) = some n := by
  induction n using Nat.strongRecOn with
  | ind n ih =>
    have hpos : 0 < radix := Nat.zero_lt_of_lt hone
    rcases lt_or_ge n radix with hn | hn
    · rw [Nat.toDigits_of_lt_base hn, List.map_singleton, digitsValue?_digit (hf n hn) hn,
        Nat.mul_zero, Nat.zero_add]
    · have hlast : n % radix < radix := Nat.mod_lt n hpos
      rw [Nat.toDigits_of_base_le hone hn, List.map_append, List.map_singleton,
        digitsValue?_append, ih (n / radix) (Nat.div_lt_self (hpos.trans_le hn) hone),
        Option.bind_some, digitsValue?_digit (hf _ hlast) hlast, Nat.div_add_mod]

end Literal

namespace Quoted

/-! ## What a text stands for -/

/-- The text between quotes stands for a value. A number has at most the six digits that a code
    point can have. -/
inductive Denotes (numbered : Bool) : List Char → List Char → Prop where
  | nil : Denotes numbered [] []
  | plain {c : Char} {body value : List Char} (no_escape : c ≠ '\\') (no_quote : c ≠ '"')
      (rest : Denotes numbered body value) : Denotes numbered (c :: body) (c :: value)
  | escape {d c : Char} {body value : List Char} (letter : Literal.escaped? d = some c)
      (rest : Denotes numbered body value) : Denotes numbered ('\\' :: d :: body) (c :: value)
  | number {c : Char} {digits body value : List Char} (allowed : numbered = true)
      (nonempty : digits ≠ []) (short : digits.length ≤ 6)
      (code : Literal.digitsValue? 16 0 digits = some c.toNat)
      (rest : Denotes numbered body value) :
      Denotes numbered ('\\' :: 'u' :: '{' :: (digits ++ '}' :: body)) (c :: value)

/-- The text is in double quotes, with or without an at sign in front, and what is between them
    stands for the value. -/
def Means (numbered : Bool) (text value : List Char) : Prop :=
  ∃ sign body, (sign = [] ∨ sign = ['@']) ∧ text = sign ++ '"' :: (body ++ ['"']) ∧
    Denotes numbered body value

variable {numbered : Bool} {body body' value value' more more' : List Char} {c : Char}

/-! ## One value at most -/

/-- Behind a number there is its closing brace, which is no digit. -/
theorem eq_of_digits {digits digits' : List Char} {n n' : Nat}
    (h : Literal.digitsValue? 16 0 digits = some n)
    (h' : Literal.digitsValue? 16 0 digits' = some n')
    (he : digits ++ '}' :: more = digits' ++ '}' :: more') : digits = digits' ∧ more = more' := by
  have hbrace : ∀ cs : List Char, ∀ c ∈ ('}' :: cs).head?, ¬ Literal.digitValue? c ≠ none := by
    rintro cs _ ⟨⟩ hdigit
    exact hdigit rfl
  obtain ⟨rfl, hbehind⟩ := append_inj_of_class (Literal.digitValue?_ne_none_of_mem h)
    (Literal.digitValue?_ne_none_of_mem h') (hbrace more) (hbrace more') he
  exact ⟨rfl, (List.cons.inj hbehind).2⟩

/-- Up to the closing quote a text stands for one value, and it ends at the same place. -/
theorem Denotes.eq_of_append (h : Denotes numbered body value)
    (h' : Denotes numbered body' value') (he : body ++ '"' :: more = body' ++ '"' :: more') :
    value = value' ∧ more = more' := by
  induction h generalizing body' value' with
  | nil =>
    cases h' with
    | nil => exact ⟨rfl, (List.cons.inj he).2⟩
    | plain _ hquote => exact absurd (List.cons.inj he).1.symm hquote
    | escape => cases (List.cons.inj he).1
    | number => cases (List.cons.inj he).1
  | plain hescape hquote _ ih =>
    cases h' with
    | nil => exact absurd (List.cons.inj he).1 hquote
    | plain _ _ hrest =>
      obtain ⟨rfl, hbehind⟩ := List.cons.inj he
      obtain ⟨rfl, rfl⟩ := ih hrest hbehind
      exact ⟨rfl, rfl⟩
    | escape => exact absurd (List.cons.inj he).1 hescape
    | number => exact absurd (List.cons.inj he).1 hescape
  | escape hletter _ ih =>
    cases h' with
    | nil => cases (List.cons.inj he).1
    | plain hescape => exact absurd (List.cons.inj he).1.symm hescape
    | escape hletter' hrest =>
      obtain ⟨rfl, hbehind⟩ := List.cons.inj (List.cons.inj he).2
      obtain ⟨rfl, rfl⟩ := ih hrest hbehind
      obtain rfl := Option.some.inj (hletter.symm.trans hletter')
      exact ⟨rfl, rfl⟩
    | number =>
      obtain ⟨rfl, _⟩ := List.cons.inj (List.cons.inj he).2
      cases hletter
  | number _ _ _ hcode _ ih =>
    cases h' with
    | nil => cases (List.cons.inj he).1
    | plain hescape => exact absurd (List.cons.inj he).1.symm hescape
    | escape hletter =>
      obtain ⟨rfl, _⟩ := List.cons.inj (List.cons.inj he).2
      cases hletter
    | number _ _ _ hcode' hrest =>
      simp only [List.cons_append, List.append_assoc, List.cons.injEq, true_and] at he
      obtain ⟨rfl, hbehind⟩ := eq_of_digits hcode hcode' he
      obtain ⟨rfl, rfl⟩ := ih hrest hbehind
      obtain rfl := Char.toNat_inj.mp (Option.some.inj (hcode.symm.trans hcode'))
      exact ⟨rfl, rfl⟩

/-- A text in quotes stands for one value. -/
theorem Means.unique {text : List Char} (h : Means numbered text value)
    (h' : Means numbered text value') : value = value' := by
  obtain ⟨sign, body, hsign, rfl, hbody⟩ := h
  obtain ⟨sign', body', hsign', he, hbody'⟩ := h'
  rcases hsign with rfl | rfl <;> rcases hsign' with rfl | rfl <;>
    simp only [List.nil_append, List.cons_append, List.cons.injEq] at he
  · exact (hbody.eq_of_append hbody' he.2).1
  · exact absurd he.1 (by decide)
  · exact absurd he.1 (by decide)
  · exact (hbody.eq_of_append hbody' he.2.2).1

/-! ## What is written -/

/-- The common escapes stand for the characters that are written by them. -/
theorem Denotes.escape_append (c : Char) (h : Denotes true body value) :
    Denotes true (Quoted.escape c ++ body) (c :: value) := by
  unfold Quoted.escape
  split_ifs with hzero htab hreturn hfeed hslash hquote hshown
  · obtain rfl := eq_of_beq hzero
    exact .escape rfl h
  · obtain rfl := eq_of_beq htab
    exact .escape rfl h
  · obtain rfl := eq_of_beq hreturn
    exact .escape rfl h
  · obtain rfl := eq_of_beq hfeed
    exact .escape rfl h
  · obtain rfl := eq_of_beq hslash
    exact .escape rfl h
  · obtain rfl := eq_of_beq hquote
    exact .escape rfl h
  · exact .plain (fun hc => hslash (beq_iff_eq.mpr hc)) (fun hc => hquote (beq_iff_eq.mpr hc)) h
  · have hcode := Literal.digitsValue?_toDigits (f := id) (by decide)
      (fun d hd => (Literal.digitValue?_digitChar hd).1) c.toNat
    rw [List.map_id] at hcode
    have hlt : c.toNat < 16 ^ 6 := by
      rcases c.valid with h | h <;> simp only [Char.toNat] <;> omega
    have hshort : (Nat.toDigits 16 c.toNat).length ≤ 6 :=
      (Nat.length_toDigits_le_iff (by decide) (by decide)).mpr hlt
    have hnumber := Denotes.number rfl Nat.toDigits_ne_nil hshort hcode h
    simpa using hnumber

/-- What is written between quotes stands for what it was written from. -/
theorem denotes_body (cs : List Char) : Denotes true (Quoted.body cs) cs := by
  induction cs with
  | nil => exact .nil
  | cons c cs ih => exact ih.escape_append c

/-- A text in quotes is one of a value, even in front of more text. -/
theorem body_append_inj {cs ds : List Char}
    (h : Quoted.body cs ++ '"' :: more = Quoted.body ds ++ '"' :: more') :
    cs = ds ∧ more = more' :=
  (denotes_body cs).eq_of_append (denotes_body ds) h

theorem toList_write (s : String) : (write s).toList = '"' :: (Quoted.body s.toList ++ ['"']) := by
  simp [write]

/-- A written text stands for what it was written from, and for nothing else. -/
theorem means_write_iff {s : String} : Means true (write s).toList value ↔ value = s.toList := by
  have hwrite : Means true (write s).toList s.toList :=
    ⟨[], Quoted.body s.toList, .inl rfl, toList_write s, denotes_body s.toList⟩
  constructor
  · exact fun h => h.unique hwrite
  · rintro rfl
    exact hwrite

/-! ## Texts that stand for themselves -/

/-- A text has as many characters as it stands for, and more if it has an escape. -/
theorem Denotes.length_le (h : Denotes numbered body value) :
    value.length ≤ body.length ∧ ('\\' ∈ body → value.length < body.length) := by
  induction h with
  | nil => simp
  | plain hescape _ _ ih =>
    simp only [List.length_cons, Nat.add_le_add_iff_right, Nat.add_lt_add_iff_right,
      List.mem_cons]
    exact ⟨ih.1, fun h => ih.2 (h.resolve_left (Ne.symm hescape))⟩
  | escape _ _ ih =>
    simp only [List.length_cons]
    omega
  | number _ _ _ _ _ ih =>
    simp only [List.length_cons, List.length_append]
    omega

/-- Without escapes every character stands for itself. -/
theorem Denotes.eq_of_notMem (h : Denotes numbered body value) (hb : '\\' ∉ body) :
    value = body := by
  induction h with
  | nil => rfl
  | plain _ _ _ ih => rw [ih fun h => hb (List.mem_cons_of_mem _ h)]
  | escape => exact absurd List.mem_cons_self hb
  | number => exact absurd List.mem_cons_self hb

end Quoted

end HeaderBridge
