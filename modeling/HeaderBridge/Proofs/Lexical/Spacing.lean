/-
  Where a token ends is not a matter of what stands behind it, as long as that is a blank, a closing
  bracket, a comma or nothing. A class of tokens is given by how many characters it takes. `Steady` says of such
  a number that it stays the same when the characters that are not taken make way for one of these
  separators, and `scan_same` says it of one token. So the tokens of a source, written in order with
  blanks of any kind between them, are read again as the same tokens (`tokenize_spaced`).
-/
import HeaderBridge.Proofs.Agreement.Faces
import HeaderBridge.Proofs.Lexical.Tiling
import Mathlib

namespace HeaderBridge

open Unicode

namespace Lexer

variable {p : Char → Bool} {f g : List Char → Nat} {front rest rest' : List Char} {c d : Char}

/-! ## Separators -/

/-- The blanks, the closing brackets and the comma. -/
def separators : List Char := [' ', '\t', '\n', '\x0c', '\r', ')', ']', ',']

theorem mem_separators_of_isBlank (h : isBlank c = true) : c ∈ separators := by
  simp only [isBlank, Bool.or_eq_true, beq_iff_eq] at h
  simp only [separators, List.mem_cons, List.not_mem_nil, or_false]
  tauto

/-- No separator is of the class, and neither is the angle bracket that closes. -/
def NoSeparator (p : Char → Bool) : Prop := ∀ c ∈ '>' :: separators, p c = false

instance (p : Char → Bool) : Decidable (NoSeparator p) :=
  decidable_of_iff ((('>' :: separators).all fun c => !p c) = true)
    (by simp only [List.all_eq_true, Bool.not_eq_true', NoSeparator])

theorem noSeparator_isWordPart : NoSeparator isWordPart := by decide +kernel

theorem noSeparator_isDigit : NoSeparator Char.isDigit := by decide

theorem operatorPair_of_mem (h : d ∈ separators) : operatorPair c d = none := by
  unfold operatorPair
  split
  all_goals first | rfl | exact absurd h (by decide)

/-- Nothing is left, or a separator comes next. -/
def Ends (rest : List Char) : Prop := ∀ c ∈ rest.head?, c ∈ separators

/-- Nothing is left, or a separator or an angle bracket comes next that closes. -/
def Stops (rest : List Char) : Prop := ∀ c ∈ rest.head?, c ∈ '>' :: separators

theorem Ends.stops (h : Ends rest) : Stops rest := fun c hc => List.mem_cons_of_mem '>' (h c hc)

/-- What was left makes way for a separator or for nothing, or it begins with a closing angle bracket
    as before. -/
def MakesWay (rest rest' : List Char) : Prop :=
  Ends rest' ∨ rest.head? = some '>' ∧ rest'.head? = some '>'

/-- A delimiter comes next that closes a list. -/
def Closes (rest : List Char) : Prop := ∃ d ∈ rest.head?, d = '>' ∨ d = ')'

theorem Closes.ne_nil (h : Closes rest) : rest ≠ [] := by
  rintro rfl
  obtain ⟨_, hd, _⟩ := h
  cases hd

/-- No other character comes next. -/
theorem Closes.ne (h : Closes (c :: rest)) (hc : ∀ d, d = '>' ∨ d = ')' → c ≠ d) : False := by
  obtain ⟨d, hd, hdelimiter⟩ := h
  exact hc d hdelimiter (Option.mem_some.mp hd)

theorem MakesWay.stops (h : MakesWay rest rest') : Stops rest' := by
  rcases h with h | ⟨_, h⟩
  · exact h.stops
  · intro c hc
    rw [h] at hc
    cases hc
    exact List.mem_cons_self

theorem Stops.any_head? (hp : NoSeparator p) (h : Stops rest) : rest.head?.any p = false := by
  cases rest with
  | nil => rfl
  | cons c rest => exact hp c (h c rfl)

/-- What comes next is of a class or not as before, if it was not or if it was taken. -/
theorem any_head?_same (hp : NoSeparator p) (h : front = [] → rest.head?.any p = false)
    (hends : Stops rest') : (front ++ rest').head?.any p = (front ++ rest).head?.any p := by
  cases front with
  | nil => rw [List.nil_append, List.nil_append, h rfl, hends.any_head? hp]
  | cons => rfl

/-! ## How many characters are taken -/

/-- A number of characters at the front of a text that does not depend on the others, if they make
    way for others that are not of any class. -/
structure Steady (f : List Char → Nat) : Prop where
  le_length : ∀ cs, f cs ≤ cs.length
  same : ∀ {front rest rest'}, f (front ++ rest) ≤ front.length → Stops rest' →
    f (front ++ rest') = f (front ++ rest)

theorem run_cons (p : Char → Bool) (c : Char) (cs : List Char) :
    run p (c :: cs) = if p c then run p cs + 1 else 0 := by
  unfold run
  rw [List.takeWhile_cons]
  split
  · rfl
  · rfl

theorem run_pos {cs : List Char} (h : cs.head?.any p = true) : 0 < run p cs := by
  cases cs with
  | nil => cases h
  | cons c cs =>
    have hc : p c = true := h
    rw [run_cons, hc, if_pos rfl]
    exact Nat.succ_pos _

theorem steady_run (hp : NoSeparator p) : Steady (run p) where
  le_length cs := (List.takeWhile_prefix p).length_le
  same {front rest rest'} hlen hends := by
    induction front with
    | nil =>
      rw [Nat.le_zero.mp hlen, List.nil_append]
      cases rest' with
      | nil => rfl
      | cons c rest' => rw [run_cons, hp c (hends c rfl), if_neg Bool.false_ne_true]
    | cons c front ih =>
      rw [List.cons_append, run_cons, List.length_cons] at hlen
      rw [List.cons_append, List.cons_append, run_cons, run_cons]
      cases hc : p c with
      | false => rfl
      | true =>
        rw [hc, if_pos rfl] at hlen
        rw [ih (Nat.le_of_succ_le_succ hlen)]

/-- One number of characters behind another. -/
def followedBy (f g : List Char → Nat) (cs : List Char) : Nat := f cs + g (cs.drop (f cs))

theorem Steady.followedBy (hf : Steady f) (hg : Steady g) : Steady (followedBy f g) where
  le_length cs := by
    have h := hg.le_length (cs.drop (f cs))
    have hle := hf.le_length cs
    rw [List.length_drop] at h
    unfold Lexer.followedBy
    omega
  same {front rest rest'} hlen hends := by
    unfold Lexer.followedBy at hlen ⊢
    have hfirst : f (front ++ rest) ≤ front.length := by omega
    rw [List.drop_append_of_le_length hfirst] at hlen
    have hsecond : g (front.drop (f (front ++ rest)) ++ rest)
        ≤ (front.drop (f (front ++ rest))).length := by
      rw [List.length_drop]
      omega
    rw [hf.same hfirst hends, List.drop_append_of_le_length hfirst,
      List.drop_append_of_le_length hfirst, hg.same hsecond hends]

theorem steady_zero : Steady fun _ => 0 := ⟨fun _ => Nat.zero_le _, fun _ _ => rfl⟩

/-- A character of a class and a number of characters behind it. `more` says what is taken for that
    number: one more, or nothing at all. -/
theorem steady_behind (more : Nat → Nat) (hp : NoSeparator p) (hg : Steady g)
    (hmore : ∀ n, more n = 0 ∧ n = 0 ∨ more n = n + 1) (hnil : f [] = 0)
    (hcons : ∀ c cs, f (c :: cs) = if p c then more (g cs) else 0) : Steady f where
  le_length cs := by
    cases cs with
    | nil => exact Nat.le_of_eq hnil
    | cons c cs =>
      have hle := hg.le_length cs
      rw [hcons, List.length_cons]
      split
      · rcases hmore (g cs) with ⟨h, _⟩ | h <;> omega
      · exact Nat.zero_le _
  same {front rest rest'} hlen hends := by
    cases front with
    | nil =>
      rw [Nat.le_zero.mp hlen, List.nil_append]
      cases rest' with
      | nil => exact hnil
      | cons c rest' => rw [hcons, hp c (hends c rfl), if_neg Bool.false_ne_true]
    | cons c front =>
      rw [List.cons_append, hcons, List.length_cons] at hlen
      rw [List.cons_append, List.cons_append, hcons, hcons]
      cases hc : p c with
      | false => rfl
      | true =>
        rw [hc, if_pos rfl] at hlen
        have hbehind : g (front ++ rest) ≤ front.length := by
          rcases hmore (g (front ++ rest)) with ⟨h, _⟩ | h <;> omega
        rw [hg.same hbehind hends]

/-! ## Numbers -/

theorem steady_digits : Steady (run Char.isDigit) := steady_run noSeparator_isDigit

theorem steady_intSuffix : Steady (run isIntSuffix) := steady_run (by decide)

theorem steady_floatSuffix : Steady floatSuffix :=
  steady_behind (p := fun c => isFloatMark c || c == 'l' || c == 'L') (· + 1) (by decide)
    steady_zero (fun _ => .inr rfl) rfl fun _ _ => rfl

theorem steady_sign : Steady sign :=
  steady_behind (p := fun c => c == '+' || c == '-') (· + 1) (by decide) steady_zero
    (fun _ => .inr rfl) rfl fun _ _ => rfl

theorem exponent_cons (c : Char) (cs : List Char) : exponent (c :: cs) =
    if c == 'e' || c == 'E' then followedBy sign (run Char.isDigit) cs + 1 else 0 := by
  change (if c == 'e' || c == 'E' then 1 + sign cs + run Char.isDigit (cs.drop (sign cs)) else 0) = _
  rw [Nat.add_assoc, Nat.add_comm 1]
  rfl

theorem steady_exponent : Steady exponent :=
  steady_behind (p := fun c => c == 'e' || c == 'E') (· + 1) (by decide)
    (steady_sign.followedBy steady_digits) (fun _ => .inr rfl) rfl exponent_cons

theorem fraction_cons (c : Char) (cs : List Char) : fraction (c :: cs) =
    if c == '.' then (if run Char.isDigit cs = 0 then 0 else run Char.isDigit cs + 1) else 0 := by
  by_cases hc : c = '.'
  · subst hc
    cases cs with
    | nil => rfl
    | cons d cs =>
      rw [if_pos (beq_self_eq_true '.'), run_cons]
      change (if d.isDigit then 2 + run Char.isDigit cs else 0) = _
      cases d.isDigit with
      | false => rfl
      | true =>
        rw [if_pos rfl, if_pos rfl, if_neg (Nat.succ_ne_zero _)]
        omega
  · rw [if_neg (by simpa using hc)]
    unfold fraction
    split
    · next h => exact absurd (List.cons.inj h).1 hc
    · rfl

theorem steady_fraction : Steady fraction := by
  refine steady_behind (p := (· == '.')) (fun n => if n = 0 then 0 else n + 1) (by decide)
    steady_digits (fun n => ?_) rfl fraction_cons
  split
  · exact .inl ⟨rfl, ‹_›⟩
  · exact .inr rfl

/-- The digits of a decimal number behind the first one, with its fraction and its exponent. -/
def decimalDigits : List Char → Nat := followedBy (followedBy (run Char.isDigit) fraction) exponent

theorem steady_decimalDigits : Steady decimalDigits :=
  (steady_digits.followedBy steady_fraction).followedBy steady_exponent

/-! ## Kinds -/

/-- A scan that takes no more than there is, and that finds the same token when the characters that
    are not taken make way. What is no token is found again where it ends in front of a closing
    delimiter. -/
structure SteadyScan (f : List Char → Scan) : Prop where
  further_le : ∀ cs, (f cs).further ≤ cs.length
  same : ∀ {front rest rest'}, (f (front ++ rest)).kind ≠ .invalid ∨ Closes rest →
    (f (front ++ rest)).further ≤ front.length → MakesWay rest rest' →
    f (front ++ rest') = f (front ++ rest)

theorem basedNumber_eq (isDigit : Char → Bool) (cs : List Char) : basedNumber isDigit cs =
    ⟨.intLiteral, followedBy (run isDigit) (run isIntSuffix) cs + 1⟩ := by
  unfold followedBy
  rw [Nat.add_comm, ← Nat.add_assoc]
  rfl

theorem basedNumber_same {isDigit : Char → Bool} (hp : NoSeparator isDigit)
    (hlen : (basedNumber isDigit (front ++ rest)).further ≤ front.length + 1) (hends : Stops rest') :
    basedNumber isDigit (front ++ rest') = basedNumber isDigit (front ++ rest) := by
  have hsteady := (steady_run hp).followedBy steady_intSuffix
  rw [basedNumber_eq] at hlen
  rw [basedNumber_eq, basedNumber_eq, hsteady.same (Nat.le_of_succ_le_succ hlen) hends]

theorem decimalNumber_eq (cs : List Char) : decimalNumber cs =
    if decimalDigits cs ≠ run Char.isDigit cs ∨ (cs.drop (decimalDigits cs)).head?.any isFloatMark then
      ⟨.floatLiteral, followedBy decimalDigits floatSuffix cs⟩
    else ⟨.intLiteral, followedBy decimalDigits (run isIntSuffix) cs⟩ := by
  let whole := run Char.isDigit cs
  let part := fraction (cs.drop whole)
  let power := exponent (cs.drop (whole + part))
  have hdigits : whole + part + power = decimalDigits cs := rfl
  have hiff : (part + power != 0 || (cs.drop (whole + part + power)).head?.any isFloatMark) = true ↔
      decimalDigits cs ≠ whole ∨ (cs.drop (decimalDigits cs)).head?.any isFloatMark = true := by
    rw [Bool.or_eq_true, bne_iff_ne, hdigits]
    refine or_congr_left (not_congr ?_)
    omega
  by_cases h : decimalDigits cs ≠ whole ∨ (cs.drop (decimalDigits cs)).head?.any isFloatMark = true
  · rw [if_pos h]
    exact if_pos (hiff.mpr h)
  · rw [if_neg h]
    exact if_neg fun h' => h (hiff.mp h')

theorem floatSuffix_of_mark (h : rest.head?.any isFloatMark = true) : floatSuffix rest = 1 := by
  cases rest with
  | nil => cases h
  | cons c rest =>
    have hc : isFloatMark c = true := h
    change (if isFloatMark c || c == 'l' || c == 'L' then 1 else 0) = 1
    rw [hc]
    rfl

theorem decimalNumber_same (hlen : (decimalNumber (front ++ rest)).further ≤ front.length)
    (hends : Stops rest') : decimalNumber (front ++ rest') = decimalNumber (front ++ rest) := by
  rw [decimalNumber_eq] at hlen
  have hdigits : decimalDigits (front ++ rest) ≤ front.length := by
    unfold followedBy at hlen
    split at hlen
    · exact Nat.le_of_add_right_le hlen
    · exact Nat.le_of_add_right_le hlen
  have hwhole : run Char.isDigit (front ++ rest) ≤ front.length := by
    refine Nat.le_trans ?_ hdigits
    unfold decimalDigits followedBy
    omega
  have hmark : ((front ++ rest').drop (decimalDigits (front ++ rest))).head?.any isFloatMark =
      ((front ++ rest).drop (decimalDigits (front ++ rest))).head?.any isFloatMark := by
    rw [List.drop_append_of_le_length hdigits, List.drop_append_of_le_length hdigits]
    refine any_head?_same (by decide) (fun hfront => ?_) hends
    -- A mark behind the digits would have been taken.
    rw [Bool.eq_false_iff]
    intro hmark
    rw [List.drop_append_of_le_length hdigits, hfront, List.nil_append, if_pos (.inr hmark)] at hlen
    unfold followedBy at hlen
    rw [List.drop_append_of_le_length hdigits, hfront, List.nil_append,
      floatSuffix_of_mark hmark] at hlen
    exact absurd (List.drop_eq_nil_iff.mp hfront) (Nat.not_le.mpr hlen)
  rw [decimalNumber_eq, decimalNumber_eq, steady_decimalDigits.same hdigits hends,
    steady_digits.same hwhole hends, hmark]
  split at hlen
  · next h =>
    rw [if_pos h, if_pos h, (steady_decimalDigits.followedBy steady_floatSuffix).same hlen hends]
  · next h =>
    rw [if_neg h, if_neg h, (steady_decimalDigits.followedBy steady_intSuffix).same hlen hends]

theorem further_decimalNumber_le (cs : List Char) :
    (decimalNumber cs).further ≤ cs.length := by
  rw [decimalNumber_eq]
  split
  · exact (steady_decimalDigits.followedBy steady_floatSuffix).le_length cs
  · exact (steady_decimalDigits.followedBy steady_intSuffix).le_length cs

/-- A binary digit. -/
def isBit (c : Char) : Bool := c == '0' || c == '1'

theorem number_zero (mark : Char) (cs : List Char) : number '0' (mark :: cs) =
    if mark == 'x' || mark == 'X' then basedNumber isHexDigit cs
    else if (mark == 'b' || mark == 'B') && cs.head?.any isBit then basedNumber isBit cs
    else decimalNumber (mark :: cs) := rfl

theorem number_of_ne (hc : c ≠ '0') (cs : List Char) : number c cs = decimalNumber cs := by
  unfold number
  split
  · exact absurd rfl hc
  · rfl

/-- Without a character behind the zero there is no mark. -/
theorem number_zero_of_further_eq_zero {cs : List Char} (h : (number '0' cs).further = 0) :
    number '0' cs = decimalNumber cs := by
  cases cs with
  | nil => rfl
  | cons mark cs =>
    rw [number_zero, basedNumber_eq, basedNumber_eq] at h
    rw [number_zero]
    split
    · next hx => rw [if_pos hx] at h; cases h
    · next hx =>
      rw [if_neg hx] at h
      split
      · next hb => rw [if_pos hb] at h; cases h
      · rfl

theorem number_zero_of_ends (h : Stops rest) : number '0' rest = decimalNumber rest := by
  cases rest with
  | nil => rfl
  | cons mark rest =>
    have hnox : NoSeparator fun c => c == 'x' || c == 'X' := by decide
    have hnob : NoSeparator fun c => c == 'b' || c == 'B' := by decide
    have hx : (mark == 'x' || mark == 'X') = false := hnox mark (h mark rfl)
    have hb : (mark == 'b' || mark == 'B') = false := hnob mark (h mark rfl)
    rw [number_zero, hx, hb]
    rfl

theorem number_mark_same {mark : Char} (hlen : (number '0' (mark :: (front ++ rest))).further ≤
    front.length + 1) (hends : Stops rest') :
    number '0' (mark :: (front ++ rest')) = number '0' (mark :: (front ++ rest)) := by
  have hdecimal (h : (decimalNumber (mark :: (front ++ rest))).further ≤ front.length + 1) :
      decimalNumber (mark :: (front ++ rest')) = decimalNumber (mark :: (front ++ rest)) := by
    rw [← List.cons_append] at h ⊢
    rw [← List.cons_append]
    exact decimalNumber_same h hends
  rw [number_zero] at hlen
  rw [number_zero, number_zero]
  by_cases hx : (mark == 'x' || mark == 'X') = true
  · rw [if_pos hx] at hlen
    rw [if_pos hx, if_pos hx, basedNumber_same (by decide) hlen hends]
  · rw [if_neg hx] at hlen
    rw [if_neg hx, if_neg hx]
    cases hb : (mark == 'b' || mark == 'B') with
    | false =>
      rw [hb, Bool.false_and, if_neg Bool.false_ne_true] at hlen
      exact hdecimal hlen
    | true =>
      rw [hb, Bool.true_and] at hlen
      have hbit : (front ++ rest').head?.any isBit = (front ++ rest).head?.any isBit := by
        refine any_head?_same (by decide) (fun hfront => ?_) hends
        -- A digit behind the mark would have been taken.
        rw [Bool.eq_false_iff]
        intro hbit
        have hpos := run_pos hbit
        rw [hfront, List.nil_append, if_pos hbit, basedNumber_eq] at hlen
        unfold followedBy at hlen
        exact absurd (Nat.le_of_add_right_le (Nat.le_of_succ_le_succ hlen)) (Nat.not_le.mpr hpos)
      rw [Bool.true_and, Bool.true_and, hbit]
      split at hlen
      · next h => rw [if_pos h, if_pos h, basedNumber_same (by decide) hlen hends]
      · next h =>
        rw [if_neg h, if_neg h]
        exact hdecimal hlen

theorem further_number_zero_le (mark : Char) (cs : List Char) :
    (number '0' (mark :: cs)).further ≤ cs.length + 1 := by
  have hbased {isDigit : Char → Bool} (hp : NoSeparator isDigit) :
      (basedNumber isDigit cs).further ≤ cs.length + 1 := by
    rw [basedNumber_eq]
    exact Nat.succ_le_succ (((steady_run hp).followedBy steady_intSuffix).le_length cs)
  rw [number_zero]
  split
  · exact hbased (by decide)
  · split
    · exact hbased (by decide)
    · exact further_decimalNumber_le (mark :: cs)

theorem number_same (hlen : (number c (front ++ rest)).further ≤ front.length)
    (hends : Stops rest') : number c (front ++ rest') = number c (front ++ rest) := by
  by_cases hc : c = '0'
  · subst hc
    cases front with
    | cons mark front => exact number_mark_same hlen hends
    | nil =>
      have hzero := number_zero_of_further_eq_zero (Nat.le_zero.mp hlen)
      rw [hzero] at hlen
      rw [hzero, List.nil_append, number_zero_of_ends hends]
      exact decimalNumber_same hlen hends
  · rw [number_of_ne hc] at hlen
    rw [number_of_ne hc, number_of_ne hc, decimalNumber_same hlen hends]

theorem further_number_le (c : Char) (cs : List Char) : (number c cs).further ≤ cs.length := by
  by_cases hc : c = '0'
  · subst hc
    cases cs with
    | nil => exact further_decimalNumber_le []
    | cons mark cs => exact further_number_zero_le mark cs
  · rw [number_of_ne hc]
    exact further_decimalNumber_le cs

/-! ## Quotes, words and operators -/

/-- A text that is closed ends at its quote, whatever stands behind it, and one that is not ends at
    the end of its line. -/
theorem quoted_same {quote : Char} {kind : TokenKind} {cs : List Char} (hcs : front ++ rest = cs)
    (hlen : (quoted quote kind cs).further ≤ front.length)
    (hkind : (quoted quote kind cs).kind ≠ .invalid ∨ Closes rest) :
    quoted quote kind (front ++ rest') = quoted quote kind cs := by
  fun_induction quoted quote kind cs generalizing front with
  | case1 =>
    rcases hkind with hkind | hcloses
    · exact absurd rfl hkind
    · exact absurd (List.append_eq_nil_iff.mp hcs).2 hcloses.ne_nil
  | case2 c cs hfeed =>
    rcases hkind with hkind | hcloses
    · exact absurd rfl hkind
    cases front with
    | nil =>
      rw [List.nil_append] at hcs
      subst hcs
      refine (hcloses.ne fun d hd hcd => ?_).elim
      rw [beq_iff_eq.mp hfeed] at hcd
      rcases hd with rfl | rfl <;> cases hcd
    | cons d front =>
      obtain ⟨rfl, -⟩ := List.cons.inj hcs
      rw [List.cons_append, quoted.eq_def]
      dsimp only
      rw [if_pos hfeed]
  | case3 c cs hfeed hquote =>
    cases front with
    | nil => exact absurd hlen (Nat.not_succ_le_zero 0)
    | cons d front =>
      obtain ⟨rfl, -⟩ := List.cons.inj hcs
      rw [List.cons_append, quoted.eq_def]
      dsimp only
      rw [if_neg hfeed, if_pos hquote]
  | case4 c hfeed hquote hslash =>
    rcases hkind with hkind | hcloses
    · exact absurd rfl hkind
    cases front with
    | nil => exact absurd hlen (Nat.not_succ_le_zero 0)
    | cons d front =>
      obtain ⟨-, hmore⟩ := List.cons.inj hcs
      exact absurd (List.append_eq_nil_iff.mp hmore).2 hcloses.ne_nil
  | case5 c hfeed hquote hslash d cs =>
    rename_i ih
    cases front with
    | nil => exact absurd hlen (Nat.not_succ_le_zero _)
    | cons c' front =>
      cases front with
      | nil => exact absurd (Nat.le_of_succ_le_succ hlen) (Nat.not_succ_le_zero _)
      | cons d' front =>
        obtain ⟨rfl, htail⟩ := List.cons.inj hcs
        obtain ⟨rfl, hmore⟩ := List.cons.inj htail
        have hsame := ih hmore (Nat.le_of_succ_le_succ (Nat.le_of_succ_le_succ hlen)) hkind
        rw [List.cons_append, List.cons_append, quoted.eq_def]
        dsimp only
        rw [if_neg hfeed, if_neg hquote, if_pos hslash, hsame]
  | case6 c cs hfeed hquote hslash =>
    rename_i ih
    cases front with
    | nil => exact absurd hlen (Nat.not_succ_le_zero _)
    | cons d front =>
      obtain ⟨rfl, hmore⟩ := List.cons.inj hcs
      have hsame := ih hmore (Nat.le_of_succ_le_succ hlen) hkind
      rw [List.cons_append, quoted.eq_def]
      dsimp only
      rw [if_neg hfeed, if_neg hquote, if_neg hslash, hsame]

theorem steadyScan_quoted (quote : Char) (kind : TokenKind) : SteadyScan (quoted quote kind) where
  further_le cs := by
    fun_induction quoted quote kind cs with
    | case1 => exact Nat.le_refl 0
    | case2 => exact Nat.zero_le _
    | case3 => exact Nat.succ_le_succ (Nat.zero_le _)
    | case4 => exact Nat.le_refl 1
    | case5 _ _ _ _ _ _ rest ih => exact Nat.succ_le_succ (Nat.succ_le_succ ih)
    | case6 _ _ _ _ _ rest ih => exact Nat.succ_le_succ ih
  same hkind hlen _ := quoted_same rfl hlen hkind

theorem steady_word : Steady (run isWordPart) := steady_run noSeparator_isWordPart

/-- An at sign alone is no token. -/
theorem atSign_of_stops (h : Stops rest) : atSign rest = ⟨.invalid, 0⟩ := by
  cases rest with
  | nil => rfl
  | cons c rest =>
    have hnoquote : NoSeparator (· == '"') := by decide
    have hnoword : NoSeparator isWordStart := by decide +kernel
    have hquote : (c == '"') = false := hnoquote c (h c rfl)
    unfold atSign
    dsimp only
    rw [hquote, hnoword c (h c rfl)]
    rfl

theorem atSign_same (hkind : (atSign (front ++ rest)).kind ≠ .invalid ∨ Closes rest)
    (hlen : (atSign (front ++ rest)).further ≤ front.length) (hends : MakesWay rest rest') :
    atSign (front ++ rest') = atSign (front ++ rest) := by
  cases front with
  | nil =>
    rw [List.nil_append, List.nil_append, atSign_of_stops hends.stops]
    rw [List.nil_append] at hlen
    unfold atSign at hlen ⊢
    split at hlen
    · rfl
    · split at hlen
      · exact absurd hlen (Nat.not_succ_le_zero _)
      · split at hlen
        · exact absurd hlen (Nat.not_succ_le_zero _)
        · next hquote hword =>
          dsimp only
          rw [if_neg hquote, if_neg hword]
  | cons d front =>
    rw [List.cons_append] at hkind hlen
    rw [List.cons_append, List.cons_append]
    unfold atSign at hkind hlen ⊢
    dsimp only at hkind hlen ⊢
    split at hlen
    · next hquote =>
      rw [if_pos hquote] at hkind ⊢
      rw [if_pos hquote, quoted_same rfl (Nat.le_of_succ_le_succ hlen) hkind]
    · next hquote =>
      rw [if_neg hquote, if_neg hquote]
      split
      · next hword =>
        rw [if_pos hword] at hlen
        have hlen : run isWordPart (front ++ rest) ≤ front.length := Nat.le_of_succ_le_succ hlen
        rw [steady_word.same hlen hends.stops, List.take_append_of_le_length hlen,
          List.take_append_of_le_length hlen]
      · rfl

theorem steadyScan_atSign : SteadyScan atSign where
  further_le cs := by
    unfold atSign
    split
    · exact Nat.le_refl 0
    · split
      · exact Nat.succ_le_succ ((steadyScan_quoted _ _).further_le _)
      · split
        · exact Nat.succ_le_succ (steady_word.le_length _)
        · exact Nat.zero_le _
  same := atSign_same

theorem operator_same (hlen : ∀ found ∈ operator c (front ++ rest), found.further ≤ front.length)
    (hends : MakesWay rest rest') : operator c (front ++ rest') = operator c (front ++ rest) := by
  have hpair : (front ++ rest').head?.bind (operatorPair c) =
      (front ++ rest).head?.bind (operatorPair c) := by
    cases front with
    | cons d front => rfl
    | nil =>
      rw [List.nil_append, List.nil_append]
      rcases hends with hends | ⟨hhead, hhead'⟩
      rotate_left
      · rw [hhead, hhead']
      have hnone : rest'.head?.bind (operatorPair c) = none := by
        cases rest' with
        | nil => rfl
        | cons d rest' => exact operatorPair_of_mem (hends d rfl)
      rw [hnone]
      -- The second character of a pair would have been taken.
      cases hp : rest.head?.bind (operatorPair c) with
      | none => rfl
      | some kind =>
        have hle := hlen ⟨kind, 1⟩ (by rw [List.nil_append, operator, hp]; rfl)
        exact absurd hle (Nat.not_succ_le_zero 0)
  unfold operator
  rw [hpair]

theorem further_operator_le {cs : List Char} {found : Scan} (h : operator c cs = some found) :
    found.further ≤ cs.length := by
  unfold operator at h
  split at h
  · next hp =>
    cases h
    cases cs with
    | nil => cases hp
    | cons => exact Nat.succ_le_succ (Nat.zero_le _)
  · obtain ⟨kind, -, rfl⟩ := Option.map_eq_some_iff.mp h
    exact Nat.zero_le _

/-! ## One token -/

/-- A number, an operator or a word. -/
def plainScan (c : Char) (cs : List Char) : Scan :=
  if c.isDigit then number c cs
  else if c == '.' && cs.head?.any Char.isDigit then
    ⟨.floatLiteral, followedBy (followedBy (run Char.isDigit) exponent) floatSuffix cs⟩
  else
    match operator c cs with
    | some found => found
    | none => if isWordStart c then ⟨.identifier, run isWordPart cs⟩ else ⟨.invalid, 0⟩

/-- What follows a point, if that makes a number of it. -/
theorem steady_pointNumber :
    Steady (followedBy (followedBy (run Char.isDigit) exponent) floatSuffix) :=
  (steady_digits.followedBy steady_exponent).followedBy steady_floatSuffix

theorem plainScan_same (hlen : (plainScan c (front ++ rest)).further ≤ front.length)
    (hends : MakesWay rest rest') : plainScan c (front ++ rest') = plainScan c (front ++ rest) := by
  unfold plainScan at hlen ⊢
  by_cases hdigit : c.isDigit = true
  · rw [if_pos hdigit] at hlen
    rw [if_pos hdigit, if_pos hdigit, number_same hlen hends.stops]
  · rw [if_neg hdigit] at hlen
    rw [if_neg hdigit, if_neg hdigit]
    have hpoint : (c == '.' && (front ++ rest').head?.any Char.isDigit) =
        (c == '.' && (front ++ rest).head?.any Char.isDigit) := by
      cases hc : c == '.' with
      | false => rfl
      | true =>
        refine any_head?_same noSeparator_isDigit (fun hfront => ?_) hends.stops
        -- A digit behind the point would have been taken.
        rw [Bool.eq_false_iff]
        intro hdigits
        have hpos := run_pos hdigits
        rw [hfront, List.nil_append, hc, Bool.true_and, if_pos hdigits] at hlen
        unfold followedBy at hlen
        exact absurd (Nat.le_of_add_right_le (Nat.le_of_add_right_le hlen)) (Nat.not_le.mpr hpos)
    rw [hpoint]
    split at hlen
    · next h =>
      rw [if_pos h, if_pos h, steady_pointNumber.same hlen hends.stops]
    · next h =>
      rw [if_neg h, if_neg h]
      have hoperator : operator c (front ++ rest') = operator c (front ++ rest) := by
        refine operator_same (fun found hfound => ?_) hends
        rw [Option.mem_def.mp hfound] at hlen
        exact hlen
      rw [hoperator]
      cases ho : operator c (front ++ rest) with
      | some found => rfl
      | none =>
        rw [ho] at hlen
        dsimp only at hlen ⊢
        split
        · next hword =>
          rw [if_pos hword] at hlen
          rw [steady_word.same hlen hends.stops]
        · rfl

theorem steadyScan_plainScan (c : Char) : SteadyScan (plainScan c) where
  further_le cs := by
    unfold plainScan
    split
    · exact further_number_le c cs
    · split
      · exact steady_pointNumber.le_length cs
      · split
        · next h => exact further_operator_le h
        · split
          · exact steady_word.le_length cs
          · exact Nat.zero_le _
  same _ := plainScan_same

/-- How a token goes on behind its first character if it is neither a comment nor a directive. -/
def scanner (c : Char) : List Char → Scan :=
  if c = '@' then atSign
  else if c = '"' then quoted '"' .stringLiteral
  else if c = '\'' then quoted '\'' .charLiteral
  else plainScan c

theorem steadyScan_scanner (c : Char) : SteadyScan (scanner c) := by
  unfold scanner
  split
  · exact steadyScan_atSign
  · split
    · exact steadyScan_quoted _ _
    · split
      · exact steadyScan_quoted _ _
      · exact steadyScan_plainScan c

/-- The kinds of what the grammar does not read, and of what is no token at all. -/
def isScrap (kind : TokenKind) : Prop := kind = .comment ∨ kind = .directive ∨ kind = .invalid

/-- A number sign opens a directive, and a slash opens a comment in front of some characters. -/
def Opens (c : Char) (cs : List Char) : Prop :=
  c = '#' ∨ c = '/' ∧ ∃ d ∈ cs.head?, d = '/' ∨ d = '*'

theorem isScrap_of_opens {cs : List Char} (h : Opens c cs) : isScrap (scan c cs).kind := by
  rcases h with rfl | ⟨rfl, d, hd, h⟩
  · exact .inr (.inl rfl)
  · cases cs with
    | nil => cases hd
    | cons e cs =>
      cases Option.mem_some.mp hd
      rcases h with rfl | rfl
      · exact .inl rfl
      · rcases kind_blockComment cs with h | h
        · exact .inl h
        · exact .inr (.inr h)

theorem scan_eq_scanner {cs : List Char} (h : ¬ Opens c cs) : scan c cs = scanner c cs := by
  unfold scan
  split
  · exact absurd (.inr ⟨rfl, '/', rfl, .inl rfl⟩) h
  · exact absurd (.inr ⟨rfl, '*', rfl, .inr rfl⟩) h
  · exact absurd (.inl rfl) h
  · rfl
  · rfl
  · rfl
  · next hat hquote hchar _ _ =>
    have hplain : scanner c = plainScan c := by
      unfold scanner
      rw [if_neg hat, if_neg hquote, if_neg hchar]
    rw [hplain]
    rfl

theorem not_opens_of_ends (hc : ¬ Opens c (front ++ rest)) (h : Stops rest') :
    ¬ Opens c (front ++ rest') := by
  rintro (rfl | ⟨rfl, d, hd, hopen⟩)
  · exact hc (.inl rfl)
  · cases front with
    | cons e front => exact hc (.inr ⟨rfl, d, hd, hopen⟩)
    | nil =>
      have hnone : NoSeparator fun d => d == '/' || d == '*' := by decide
      have hfalse := hnone d (h d hd)
      rcases hopen with rfl | rfl
      · cases hfalse
      · cases hfalse

/-- A scan that finds a token takes no more than there is. -/
theorem further_scan_le {cs : List Char} (hkind : ¬ isScrap (scan c cs).kind) :
    (scan c cs).further ≤ cs.length := by
  rw [scan_eq_scanner fun h => hkind (isScrap_of_opens h)]
  exact (steadyScan_scanner c).further_le cs

/-- A scan that finds a token finds the same one when what stands behind it makes way. -/
theorem scan_same (hkind : ¬ isScrap (scan c (front ++ rest)).kind)
    (hlen : (scan c (front ++ rest)).further ≤ front.length) (hends : MakesWay rest rest') :
    scan c (front ++ rest') = scan c (front ++ rest) := by
  have hopens : ¬ Opens c (front ++ rest) := fun h => hkind (isScrap_of_opens h)
  have hvalid : (scan c (front ++ rest)).kind ≠ .invalid := fun h => hkind (.inr (.inr h))
  rw [scan_eq_scanner hopens] at hlen hvalid
  rw [scan_eq_scanner hopens, scan_eq_scanner (not_opens_of_ends hopens hends.stops),
    (steadyScan_scanner c).same (.inl hvalid) hlen hends]

/-! ## From token to token -/

/-- A token never starts with a blank. -/
theorem tokensFrom_blanks {gap : List Char} (hgap : ∀ c ∈ gap, isBlank c = true) (offset : Nat)
    (cs : List Char) : tokensFrom offset (gap ++ cs) = tokensFrom (offset + byteLength gap) cs := by
  induction gap generalizing offset with
  | nil => rfl
  | cons c gap ih =>
    rw [List.cons_append, tokensFrom, if_pos (hgap c List.mem_cons_self),
      ih (fun d hd => hgap d (List.mem_cons_of_mem c hd)), byteLength_cons, Nat.add_assoc]

end Lexer

/-! ## All tokens -/

/-- Texts in their order, with blanks behind each of them. Only the last one may have none. -/
inductive Spaced : List String → List Char → Prop where
  | nil : Spaced [] []
  | cons {text gap texts cs} (blank : ∀ c ∈ gap, isBlank c = true) (apart : texts ≠ [] → gap ≠ [])
      (more : Spaced texts cs) : Spaced (text :: texts) (text.toList ++ (gap ++ cs))

theorem Spaced.ends {texts : List String} {gap cs : List Char} (h : Spaced texts cs)
    (hblank : ∀ c ∈ gap, isBlank c = true) (hapart : texts ≠ [] → gap ≠ []) : Lexer.Ends (gap ++ cs) := by
  cases gap with
  | cons c gap =>
    intro d hd
    cases Option.mem_some.mp hd
    exact Lexer.mem_separators_of_isBlank (hblank c List.mem_cons_self)
  | nil =>
    cases h with
    | nil => exact fun _ hc => nomatch hc
    | cons => exact absurd rfl (hapart (List.cons_ne_nil _ _))

namespace Lexer

theorem tokensFrom_ne_nil (offset : Nat) (cs : List Char) : tokensFrom offset cs ≠ [] := by
  obtain ⟨ts, h, -⟩ := tokensFrom_eq_append offset cs
  rw [h]
  exact List.append_ne_nil_of_right_ne_nil _ (List.cons_ne_nil _ _)

/-- A token that takes a text is the first one, and the others come behind the text. -/
theorem tokensFrom_cons (hc : ¬ isBlank c = true)
    (hlen : (scan c (front ++ rest)).further = front.length) (offset : Nat) :
    (tokensFrom offset (c :: (front ++ rest))).map Token.face =
      ((scan c (front ++ rest)).kind, String.ofList (c :: front)) ::
        (tokensFrom (offset + byteLength (c :: front)) rest).map Token.face := by
  rw [tokensFrom, if_neg hc]
  simp only [hlen, List.take_left, List.drop_left, List.map_cons]
  rfl

theorem tokensFrom_spaced (offset : Nat) (cs : List Char)
    (hkinds : ∀ t ∈ tokensFrom offset cs, ¬ isScrap t.kind) :
    ∀ offset' lead cs', (∀ c ∈ lead, isBlank c = true) →
      Spaced ((tokensFrom offset cs).dropLast.map Token.text) cs' →
      (tokensFrom offset' (lead ++ cs')).map Token.face = (tokensFrom offset cs).map Token.face := by
  fun_induction tokensFrom offset cs with
  | case1 offset =>
    intro offset' lead cs' hlead hcs'
    cases hcs'
    rw [tokensFrom_blanks hlead, tokensFrom]
    rfl
  | case2 offset c cs _ ih => exact ih hkinds
  | case3 offset c cs hblank found text stop token ih =>
    intro offset' lead cs' hlead hcs'
    obtain ⟨hkind, hkinds⟩ := List.forall_mem_cons.mp hkinds
    rw [List.dropLast_cons_of_ne_nil (tokensFrom_ne_nil _ _), List.map_cons] at hcs'
    cases hcs' with
    | @cons _ gap _ cs' hgap hapart hcs' =>
      -- What was taken stands in front of a blank, or of nothing.
      let front := cs.take found.further
      let rest := cs.drop found.further
      have hcut : front ++ rest = cs := List.take_append_drop _ _
      have hlength : front.length = found.further :=
        List.length_take_of_le (further_scan_le hkind)
      have hfound : scan c (front ++ rest) = found := by rw [hcut]
      have hsame : scan c (front ++ (gap ++ cs')) = found := by
        rw [← hfound]
        refine scan_same ?_ ?_ (.inl (hcs'.ends hgap hapart))
        · rw [hfound]
          exact hkind
        · exact Nat.le_of_eq (by rw [hfound, hlength])
      have htext : token.text.toList = c :: front := String.toList_ofList
      rw [tokensFrom_blanks hlead, htext, List.cons_append,
        tokensFrom_cons hblank (by rw [hsame, hlength]), hsame,
        ih hkinds _ gap cs' hgap hcs', List.map_cons]
      rfl

end Lexer

/-- Spacing does not matter to the tokens of a source that has only tokens the grammar reads: their
    texts in order, with any blanks at both ends and at least one between two of them, have tokens of
    the same kinds and texts. The end of the file, which has no text, stands behind all of them. -/
theorem tokenize_spaced (source : String)
    (hkinds : ∀ t ∈ tokenize source,
      t.kind ≠ .comment ∧ t.kind ≠ .directive ∧ t.kind ≠ .invalid)
    (lead spaced : List Char) (hlead : ∀ c ∈ lead, isBlank c = true)
    (hspaced : Spaced ((tokenize source).dropLast.map Token.text) spaced) :
    (tokenize (String.ofList (lead ++ spaced))).map (fun t => (t.kind, t.text)) =
      (tokenize source).map (fun t => (t.kind, t.text)) := by
  unfold tokenize at hkinds hspaced ⊢
  rw [String.toList_ofList]
  refine Lexer.tokensFrom_spaced 0 source.toList (fun t ht => ?_) 0 lead spaced hlead hspaced
  obtain ⟨hcomment, hdirective, hinvalid⟩ := hkinds t ht
  rintro (h | h | h)
  · exact hcomment h
  · exact hdirective h
  · exact hinvalid h

/-- Blanks between `0` and `b2`, which make no binary number, and in front of the number `.5`. -/
theorem tokenize_spaced_numbers :
    (tokenize "a->0b2.5").dropLast.map Token.text = ["a", "->", "0", "b2", ".5"] ∧
    (tokenize " a\t-> 0\n b2 .5").map (fun t => (t.kind, t.text)) =
      (tokenize "a->0b2.5").map (fun t => (t.kind, t.text)) := by
  have htokens : tokenize "a->0b2.5" = [⟨.identifier, "a", ⟨0, 1, by decide⟩⟩,
      ⟨.arrow, "->", ⟨1, 3, by decide⟩⟩, ⟨.intLiteral, "0", ⟨3, 4, by decide⟩⟩,
      ⟨.identifier, "b2", ⟨4, 6, by decide⟩⟩, ⟨.floatLiteral, ".5", ⟨6, 8, by decide⟩⟩,
      ⟨.endOfFile, "", ⟨8, 8, by decide⟩⟩] := by
    cbv
  have hkinds : ∀ t ∈ tokenize "a->0b2.5",
      t.kind ≠ .comment ∧ t.kind ≠ .directive ∧ t.kind ≠ .invalid := by
    rw [htokens]
    decide
  have blanks : ∀ {gap : List Char}, gap.all isBlank = true → ∀ c ∈ gap, isBlank c = true :=
    List.all_eq_true.mp
  have hspaced : Spaced ["a", "->", "0", "b2", ".5"] _ :=
    @Spaced.cons "a" ['\t'] _ _ (blanks rfl) (by decide) <|
    @Spaced.cons "->" [' '] _ _ (blanks rfl) (by decide) <|
    @Spaced.cons "0" ['\n', ' '] _ _ (blanks rfl) (by decide) <|
    @Spaced.cons "b2" [' '] _ _ (blanks rfl) (by decide) <|
    @Spaced.cons ".5" [] _ _ (blanks rfl) (by decide) .nil
  have htexts : (tokenize "a->0b2.5").dropLast.map Token.text = ["a", "->", "0", "b2", ".5"] := by
    rw [htokens]
    rfl
  refine ⟨htexts, ?_⟩
  exact tokenize_spaced "a->0b2.5" hkinds [' '] _ (blanks rfl) (htexts ▸ hspaced)

end HeaderBridge
