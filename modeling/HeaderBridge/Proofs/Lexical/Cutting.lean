/-
  A comma in front of a closing delimiter. Where a token begins with a closing bracket, the tokens in
  front of it are the same when a separator is put there, comments and text that is no token included
  (`tokensFrom_cut`), and the tokens behind it move by one byte. Inside a double angle bracket only the
  angle brackets and the sign of equality that touch it are put together in another way (`Regroups`).
-/
import HeaderBridge.Proofs.Lexical.Joining
import HeaderBridge.Proofs.Reading.Finding

namespace HeaderBridge

open Unicode
open ReadState (kindOf)

namespace Lexer

variable {p : Char → Bool} {c : Char} {front rest rest' : List Char}

/-! ## One token -/

theorem Closes.exists_cons (h : Closes rest) :
    ∃ d more, rest = d :: more ∧ (d = '>' ∨ d = ')') := by
  obtain ⟨d, hd, hdelimiter⟩ := h
  obtain ⟨more, rfl⟩ := List.head?_eq_some_iff.mp hd
  exact ⟨d, more, rfl, hdelimiter⟩

/-- What takes all of a text takes more of it in front of a character of the class. -/
theorem lt_run_append (h : front.length ≤ run p front) (hd : rest.head?.any p = true) :
    front.length < run p (front ++ rest) := by
  induction front with
  | nil => exact run_pos hd
  | cons c front ih =>
    rw [run_cons, List.length_cons] at h
    rw [List.cons_append, run_cons, List.length_cons]
    cases hc : p c with
    | false => rw [hc] at h; exact absurd h (Nat.not_succ_le_zero _)
    | true =>
      rw [hc, if_pos rfl] at h
      rw [if_pos rfl]
      exact Nat.succ_lt_succ (ih (Nat.le_of_succ_le_succ h))

/-- A line that takes all of a text takes more of it in front of a closing delimiter. -/
theorem lt_directiveLine_append (h : front.length ≤ directiveLine front) (hcloses : Closes rest) :
    front.length < directiveLine (front ++ rest) := by
  obtain ⟨d, more, rfl, hd⟩ := hcloses.exists_cons
  fun_induction directiveLine front with
  | case1 =>
    rcases hd with rfl | rfl
    · exact Nat.succ_pos _
    · exact Nat.succ_pos _
  | case2 cs ih =>
    have hmore := ih (Nat.le_of_succ_le_succ (Nat.le_of_succ_le_succ h))
    rw [List.cons_append, List.cons_append, directiveLine]
    exact Nat.succ_lt_succ (Nat.succ_lt_succ hmore)
  | case3 cs => exact absurd h (Nat.not_succ_le_zero _)
  | case4 c cs hslash hfeed ih =>
    have hmore := ih (Nat.le_of_succ_le_succ h)
    rw [List.cons_append, directiveLine]
    · exact Nat.succ_lt_succ hmore
    · rintro es rfl hes
      cases cs with
      | nil =>
        obtain ⟨rfl, -⟩ := List.cons.inj hes
        rcases hd with hd | hd <;> cases hd
      | cons e cs =>
        obtain ⟨rfl, -⟩ := List.cons.inj hes
        exact hslash cs rfl rfl
    · exact hfeed

/-- A block comment that ends in a text is closed there. -/
theorem kind_blockComment_of_le (hcloses : Closes rest)
    (h : (blockComment (front ++ rest)).further ≤ front.length) :
    (blockComment front).kind ≠ .invalid := by
  obtain ⟨d, more, rfl, hd⟩ := hcloses.exists_cons
  fun_induction blockComment front with
  | case1 =>
    rcases hd with rfl | rfl
    · exact absurd h (Nat.not_succ_le_zero _)
    · exact absurd h (Nat.not_succ_le_zero _)
  | case2 cs => exact TokenKind.noConfusion
  | case3 c cs hclose rest ih =>
    refine ih ?_
    rw [List.cons_append, blockComment] at h
    · exact Nat.le_of_succ_le_succ h
    · rintro es rfl hes
      cases cs with
      | nil =>
        obtain ⟨rfl, -⟩ := List.cons.inj hes
        rcases hd with hd | hd <;> cases hd
      | cons e cs =>
        obtain ⟨rfl, -⟩ := List.cons.inj hes
        exact hclose cs rfl rfl

/-- What ends in front of a closing delimiter ends there in front of others that make way for it, be it
    a token or not. -/
theorem scan_cut (hcloses : Closes rest) (hlen : (scan c (front ++ rest)).further ≤ front.length)
    (hends : MakesWay rest rest') : scan c (front ++ rest') = scan c (front ++ rest) := by
  by_cases hopens : Opens c (front ++ rest)
  · rcases hopens with rfl | ⟨rfl, d, hd, hopen⟩
    · have hlength : directiveLine front < front.length :=
        Nat.lt_of_not_le fun h => absurd hlen (Nat.not_le.mpr (lt_directiveLine_append h hcloses))
      show (⟨.directive, directiveLine (front ++ rest')⟩ : Scan) =
        ⟨.directive, directiveLine (front ++ rest)⟩
      rw [directiveLine_append hlength, directiveLine_append hlength]
    · cases front with
      | nil =>
        obtain ⟨d', more, rfl, hd'⟩ := hcloses.exists_cons
        obtain rfl : d' = d := Option.some.inj hd
        rcases hd' with rfl | rfl
        · rcases hopen with h | h <;> cases h
        · rcases hopen with h | h <;> cases h
      | cons d' front =>
        obtain rfl : d' = d := Option.some.inj hd
        rcases hopen with rfl | rfl
        · have hfeed : rest.head?.any (· != '\n') = true := by
            obtain ⟨d, more, rfl, rfl | rfl⟩ := hcloses.exists_cons
            · rfl
            · rfl
          have hlength : run (· != '\n') ('/' :: front) < ('/' :: front).length :=
            Nat.lt_of_not_le fun h => absurd hlen (Nat.not_le.mpr (lt_run_append h hfeed))
          show (⟨.comment, run (· != '\n') ('/' :: front ++ rest')⟩ : Scan) =
            ⟨.comment, run (· != '\n') ('/' :: front ++ rest)⟩
          rw [run_append hlength, run_append hlength]
        · have hkind := kind_blockComment_of_le hcloses (Nat.le_of_succ_le_succ hlen)
          show (⟨(blockComment (front ++ rest')).kind, (blockComment (front ++ rest')).further + 1⟩ :
            Scan) = ⟨(blockComment (front ++ rest)).kind, (blockComment (front ++ rest)).further + 1⟩
          rw [(blockComment_append hkind).1, (blockComment_append hkind).1]
  · rw [scan_eq_scanner hopens] at hlen
    rw [scan_eq_scanner hopens, scan_eq_scanner (not_opens_of_ends hopens hends.stops),
      (steadyScan_scanner c).same (.inr hcloses) hlen hends]

/-! ## The tokens in front -/

/-- The first token of a text and those behind it. -/
theorem tokensFrom_token (hc : ¬ isBlank c = true) {front rest : List Char}
    (hlen : (scan c (front ++ rest)).further ≤ front.length) (offset : Nat) :
    ∃ span : Span, span.start = offset ∧
      span.stop = offset + byteLength (c :: front.take (scan c (front ++ rest)).further) ∧
      tokensFrom offset (c :: front ++ rest) =
        ⟨(scan c (front ++ rest)).kind, String.ofList (c :: front.take (scan c (front ++ rest)).further),
          span⟩ :: tokensFrom span.stop (front.drop (scan c (front ++ rest)).further ++ rest) := by
  refine ⟨⟨offset, _, Nat.le_add_right _ _⟩, rfl, rfl, ?_⟩
  rw [List.cons_append, tokensFrom, if_neg hc]
  simp only [List.take_append_of_le_length hlen, List.drop_append_of_le_length hlen]

/-- A token that goes on behind some characters leaves no room for one that begins there. -/
theorem further_le_of_start (hc : ¬ isBlank c = true) (hrest : rest ≠ []) {offset : Nat}
    {t : Token} (ht : t ∈ tokensFrom offset (c :: front ++ rest)) (hkind : t.kind ≠ .endOfFile)
    (hstart : t.span.start = offset + byteLength (c :: front)) :
    (scan c (front ++ rest)).further ≤ front.length := by
  by_contra hgt
  have hpos := c.utf8Size_pos
  obtain ⟨d, more, rfl⟩ := List.exists_cons_of_ne_nil hrest
  have hlong : byteLength (c :: front) <
      byteLength (c :: (front ++ d :: more).take (scan c (front ++ d :: more)).further) := by
    obtain ⟨n, hn⟩ : ∃ n, (scan c (front ++ d :: more)).further = front.length + (n + 1) :=
      ⟨(scan c (front ++ d :: more)).further - front.length - 1, by omega⟩
    have hd := d.utf8Size_pos
    rw [hn, List.take_length_add_append, List.take_succ_cons, byteLength_cons, byteLength_cons,
      byteLength_append, byteLength_cons]
    omega
  rw [List.cons_append, tokensFrom, if_neg hc] at ht
  rcases List.mem_cons.mp ht with rfl | hbehind
  · have hbegins : offset = offset + byteLength (c :: front) := hstart
    rw [byteLength_cons] at hbegins
    omega
  · have hle := (tokensFrom_inOrder _ _).le_start t
      (List.mem_filter.mpr ⟨hbehind, bne_iff_ne.mpr hkind⟩)
    omega

/-- Where a token begins with a closing delimiter, the tokens in front of it are the same when what
    stands there makes way. -/
theorem tokensFrom_cut (hcloses : Closes rest) (offset : Nat) (front : List Char)
    (h : ∃ t ∈ tokensFrom offset (front ++ rest), t.kind ≠ .endOfFile ∧
      t.span.start = offset + byteLength front) :
    ∃ before, tokensFrom offset (front ++ rest) =
        before ++ tokensFrom (offset + byteLength front) rest ∧
      ∀ rest', MakesWay rest rest' → tokensFrom offset (front ++ rest') =
        before ++ tokensFrom (offset + byteLength front) rest' := by
  cases front with
  | nil => exact ⟨[], rfl, fun _ _ => rfl⟩
  | cons c front =>
    obtain ⟨t, ht, hkind, hstart⟩ := h
    have hpos := c.utf8Size_pos
    have hsize := byteLength_cons c front
    by_cases hblank : isBlank c = true
    · have hstep : ∀ cs, tokensFrom offset (c :: front ++ cs) =
          tokensFrom (offset + c.utf8Size) (front ++ cs) := fun cs => by
        rw [List.cons_append, tokensFrom, if_pos hblank]
      have hend : offset + c.utf8Size + byteLength front = offset + byteLength (c :: front) := by
        omega
      rw [hstep] at ht
      obtain ⟨before, heq, hsame⟩ :=
        tokensFrom_cut hcloses _ front ⟨t, ht, hkind, by rw [hstart, hend]⟩
      rw [hend] at heq hsame
      exact ⟨before, by rw [hstep, heq], fun rest' hends => by rw [hstep, hsame rest' hends]⟩
    · have hle := further_le_of_start hblank hcloses.ne_nil ht hkind hstart
      obtain ⟨span, hfrom, hto, hstep⟩ := tokensFrom_token hblank hle offset
      have hcut : byteLength (c :: front.take (scan c (front ++ rest)).further) +
          byteLength (front.drop (scan c (front ++ rest)).further) = byteLength (c :: front) := by
        rw [← byteLength_append, List.cons_append, List.take_append_drop]
      have hend : span.stop + byteLength (front.drop (scan c (front ++ rest)).further) =
          offset + byteLength (c :: front) := by
        omega
      rw [hstep] at ht
      -- The token begins with the text, so the other one stands behind it.
      have hbehind : t ∈ tokensFrom span.stop (front.drop (scan c (front ++ rest)).further ++ rest) :=
        (List.mem_cons.mp ht).resolve_left fun h => by
          have hbegins : t.span.start = span.start := by rw [h]
          omega
      obtain ⟨before, heq, hsame⟩ := tokensFrom_cut hcloses span.stop
        (front.drop (scan c (front ++ rest)).further) ⟨t, hbehind, hkind, by rw [hstart, hend]⟩
      rw [hend] at heq hsame
      refine ⟨_ :: before, by rw [hstep, heq, List.cons_append], fun rest' hends => ?_⟩
      have hscan := scan_cut hcloses hle hends
      obtain ⟨span', hfrom', hto', hstep'⟩ :=
        tokensFrom_token (c := c) hblank (by rwa [hscan]) offset
      have hspan : span' = span := by
        rw [hscan] at hto'
        obtain ⟨_, _, _⟩ := span
        obtain ⟨_, _, _⟩ := span'
        cases hfrom.trans hfrom'.symm
        cases hto.trans hto'.symm
        rfl
      rw [hstep', hscan, hspan, hsame rest' hends, List.cons_append]
termination_by front.length

end Lexer

/-! ## The tokens behind -/

/-- The token one byte further. -/
def Token.later (t : Token) : Token :=
  { t with span := ⟨t.span.start + 1, t.span.stop + 1, Nat.succ_le_succ t.span.start_le_stop⟩ }

namespace Lexer

variable {c : Char} {rest : List Char}

theorem tokensFrom_later (offset : Nat) (cs : List Char) :
    tokensFrom (offset + 1) cs = (tokensFrom offset cs).map Token.later := by
  fun_induction tokensFrom offset cs with
  | case1 offset =>
    rw [tokensFrom]
    rfl
  | case2 offset c cs hblank ih => rw [tokensFrom, if_pos hblank, Nat.add_right_comm, ih]
  | case3 offset c cs hblank found text stop token ih =>
    have hstop : offset + 1 + byteLength text = stop + 1 := Nat.add_right_comm _ _ _
    rw [tokensFrom, if_neg hblank, List.map_cons, ← ih]
    simp only [token, Token.later]
    congr 1
    · congr 2
    · exact congrArg (tokensFrom · _) hstop

/-- The tokens that the grammar sees from a place on. -/
def seenFrom (offset : Nat) (cs : List Char) : List Token := significant (tokensFrom offset cs)

theorem seenFrom_later (offset : Nat) (cs : List Char) :
    seenFrom (offset + 1) cs = (seenFrom offset cs).map Token.later := by
  unfold seenFrom significant
  rw [tokensFrom_later, List.filter_map]
  rfl

/-- A token of one character. -/
theorem seenFrom_single {kind : TokenKind} (hc : isBlank c = false) (hsize : c.utf8Size = 1)
    (hscan : scan c rest = ⟨kind, 0⟩) (hseen : kind.isSeen = true) (offset : Nat) :
    seenFrom offset (c :: rest) = ⟨kind, String.ofList [c], ⟨offset, offset + 1, Nat.le_succ _⟩⟩ ::
      seenFrom (offset + 1) rest := by
  have hlength : byteLength [c] = 1 := by rw [byteLength_cons, hsize]; rfl
  unfold seenFrom significant
  rw [tokensFrom, if_neg (by rw [hc]; exact Bool.false_ne_true)]
  simp only [hscan, List.take_zero, List.drop_zero, hlength]
  rw [List.filter_cons_of_pos (by exact hseen)]

/-- An angle bracket in front of neither another one nor a sign of equality stands alone. -/
theorem scan_greater (h : ∀ d ∈ rest.head?, d ≠ '>' ∧ d ≠ '=') :
    scan '>' rest = ⟨.greater, 0⟩ := by
  have hpair : rest.head?.bind (operatorPair '>') = none := by
    cases rest with
    | nil => rfl
    | cons d rest =>
      obtain ⟨hdouble, hequality⟩ := h d rfl
      show operatorPair '>' d = none
      unfold operatorPair
      split <;> first | rfl | contradiction
  have hoperator : operator '>' rest = some ⟨.greater, 0⟩ := by
    unfold operator
    rw [hpair]
    rfl
  rw [scan_eq_scanner (by rintro (h | ⟨h, _⟩) <;> cases h)]
  show plainScan '>' rest = _
  unfold plainScan
  rw [if_neg (by decide), if_neg (by exact Bool.false_ne_true), hoperator]

/-- A sign of equality is read alone or with another one. -/
theorem kind_scan_equality (rest : List Char) :
    (scan '=' rest).kind = .eq ∨ (scan '=' rest).kind = .eqEq := by
  rw [scan_eq_scanner (by rintro (h | ⟨h, _⟩) <;> cases h)]
  show (plainScan '=' rest).kind = _ ∨ (plainScan '=' rest).kind = _
  have hplain : ∀ found, operator '=' rest = some found → plainScan '=' rest = found := by
    intro found hfound
    unfold plainScan
    rw [if_neg (by decide), if_neg (by exact Bool.false_ne_true), hfound]
  cases rest with
  | nil => exact .inl (congrArg Scan.kind (hplain ⟨.eq, 0⟩ rfl))
  | cons d rest =>
    by_cases hd : d = '='
    · subst hd
      exact .inr (congrArg Scan.kind (hplain ⟨.eqEq, 1⟩ rfl))
    · have hpair : operatorPair '=' d = none := by
        unfold operatorPair
        split <;> first | rfl | contradiction
      have hfound : operator '=' (d :: rest) = some ⟨.eq, 0⟩ := by
        unfold operator
        rw [List.head?_cons, Option.bind_some, hpair]
        rfl
      exact .inl (congrArg Scan.kind (hplain _ hfound))

/-- The first token of a text that does not begin with a blank. -/
theorem exists_seenFrom (hc : isBlank c = false) (hseen : (scan c rest).kind.isSeen = true)
    (offset : Nat) : ∃ x ts, seenFrom offset (c :: rest) = x :: ts ∧ x.span.start = offset ∧
      x.kind = (scan c rest).kind := by
  unfold seenFrom significant
  rw [tokensFrom, if_neg (by rw [hc]; exact Bool.false_ne_true),
    List.filter_cons_of_pos (by exact hseen)]
  exact ⟨_, _, rfl, rfl, rfl⟩

end Lexer

/-! ## Double angle brackets -/

/-- The operators that a sign of equality may be put into. -/
def equalities : List TokenKind := [.eq, .eqEq, .greaterEq]

/-- Closing angle brackets are read in pairs. With one more in front of them, which is the token `c`,
    the other rows of tokens come of it, down to a sign of equality that the last of them may touch. -/
inductive Regroups : Token → List Token → List Token → Prop where
  | apart (c : Token) (ts : List Token) : Regroups c ts (c :: ts)
  | equality (c : Token) {ts us : List Token} (old : kindOf ts ∈ equalities)
      (new : kindOf us ∈ equalities) : Regroups c ts us
  | pair {c c' d : Token} {ts us : List Token} (halves : Halves d c c')
      (behind : Regroups c' ts us) : Regroups c us (d :: ts)

namespace Lexer

/-- A single closing angle bracket. -/
def bracket (offset : Nat) : Token := ⟨.greater, ">", ⟨offset, offset + 1, Nat.le_succ _⟩⟩

/-- Two closing angle brackets that are read as one token. -/
def double (offset : Nat) : Token :=
  ⟨.shiftRight, ">>", ⟨offset, offset + 2, Nat.le_add_right _ _⟩⟩

theorem halves_bracket (offset : Nat) :
    Halves (double offset) (bracket offset) (bracket (offset + 1)) :=
  ⟨rfl, rfl, rfl, rfl, rfl, rfl, rfl, rfl, rfl⟩

theorem seenFrom_double (offset : Nat) (rest : List Char) :
    seenFrom offset ('>' :: '>' :: rest) = double offset :: seenFrom (offset + 2) rest := by
  unfold seenFrom significant
  rw [tokensFrom, if_neg (by decide)]
  rfl

theorem regroups_seenFrom (rest : List Char) : ∀ offset,
    Regroups (bracket offset) (seenFrom (offset + 1) rest) (seenFrom offset ('>' :: rest)) := by
  have alone : ∀ {rest : List Char} offset, (∀ d ∈ rest.head?, d ≠ '>' ∧ d ≠ '=') →
      Regroups (bracket offset) (seenFrom (offset + 1) rest) (seenFrom offset ('>' :: rest)) := by
    intro rest offset h
    rw [seenFrom_single rfl rfl (scan_greater h) rfl]
    exact .apart (bracket offset) _
  induction rest with
  | nil => exact fun offset => alone offset fun d hd => by cases hd
  | cons d rest ih =>
    intro offset
    by_cases hdouble : d = '>'
    · subst hdouble
      rw [seenFrom_double]
      exact .pair (halves_bracket offset) (ih (offset + 1))
    by_cases hequality : d = '='
    · subst hequality
      have hkind := kind_scan_equality rest
      obtain ⟨x, ts, hx, _, hxkind⟩ := exists_seenFrom (c := '=') rfl
        (by rcases hkind with h | h <;> rw [h] <;> rfl) (offset + 1)
      obtain ⟨y, us, hy, _, hykind⟩ : ∃ y us, seenFrom offset ('>' :: '=' :: rest) = y :: us ∧
          y.span.start = offset ∧ y.kind = (scan '>' ('=' :: rest)).kind :=
        exists_seenFrom rfl rfl offset
      refine .equality _ ?_ ?_
      · rw [hx, ReadState.kindOf_cons, hxkind]
        rcases hkind with h | h <;> rw [h] <;> decide
      · rw [hy, ReadState.kindOf_cons, hykind]
        exact List.mem_of_getLast? rfl
    · exact alone offset fun e he => by
        cases Option.mem_some.mp he
        exact ⟨hdouble, hequality⟩

end Lexer

/-! ## A comma in front of a closing delimiter -/

/-- The row begins with a token that begins at the place, or with a double angle bracket of which the
    second half does. -/
def StartsAt (place : Nat) (row : List Token) : Prop :=
  ∃ x ts, row = x :: ts ∧
    (x.span.start = place ∨ x.kind = .shiftRight ∧ x.span.start + 1 = place)

/-- The second row is the first one with a comma at the place, in front of a token or between the halves
    of a double angle bracket. What follows stands one byte further. -/
inductive Parted (place : Nat) : List Token → List Token → Prop where
  | whole {x comma : Token} {ts : List Token} (start : x.span.start = place)
      (face : comma.face = (.comma, ",")) : Parted place (x :: ts) (comma :: (x :: ts).map Token.later)
  | half {d a c comma : Token} {ts us : List Token} (halves : Halves d a c)
      (start : c.span.start = place) (face : comma.face = (.comma, ","))
      (regroups : Regroups c ts us) : Parted place (d :: ts) (a :: comma :: us.map Token.later)

theorem Parted.startsAt {place : Nat} {row row' : List Token} (h : Parted place row row') :
    StartsAt place row := by
  cases h with
  | whole start => exact ⟨_, _, rfl, .inl start⟩
  | half halves start =>
    exact ⟨_, _, rfl, .inr ⟨halves.kind, halves.second_start.symm.trans start⟩⟩

/-- A closing delimiter of a list begins at the place, and the list is not empty. It may be the second
    half of a double angle bracket. -/
def CloserAt (place : Nat) (row : List Token) : Prop :=
  ∃ before x after, row = before ++ x :: after ∧
    (x.span.start = place ∧ x.kind ∈ [.greater, .shiftRight, .rightParen] ∧
        (∀ y ∈ before.getLast?, y.kind ≠ .less ∧ y.kind ≠ .leftParen) ∨
      x.kind = .shiftRight ∧ x.span.start + 1 = place)

namespace Lexer

variable {front back : List Char}

/-- A text has one front of so many bytes. -/
theorem eq_of_byteLength {front' back' : List Char} (h : front ++ back = front' ++ back')
    (hlength : byteLength front = byteLength front') : front = front' ∧ back = back' := by
  have hsplit := Span.splitAtByte_append front back
  rw [h, hlength, Span.splitAtByte_append] at hsplit
  obtain ⟨hfront, hback⟩ := Prod.mk.inj (Option.some.inj hsplit)
  exact ⟨hfront.symm, hback.symm⟩

theorem seenFrom_comma (offset : Nat) (rest : List Char) : ∃ comma : Token,
    comma.face = (.comma, ",") ∧
      seenFrom offset (',' :: rest) = comma :: (seenFrom offset rest).map Token.later := by
  have hscan : scan ',' rest = ⟨.comma, 0⟩ := by cases rest <;> rfl
  rw [seenFrom_single rfl rfl hscan rfl, seenFrom_later]
  exact ⟨_, rfl, rfl⟩

/-- A closing delimiter begins a token that the grammar sees. -/
theorem isSeen_of_closes {c : Char} {rest : List Char} (h : Closes (c :: rest)) :
    isBlank c = false ∧ (scan c rest).kind.isSeen = true := by
  obtain ⟨d, _, hcons, hd⟩ := h.exists_cons
  obtain ⟨rfl, _⟩ := List.cons.inj hcons
  rcases hd with rfl | rfl
  · refine ⟨rfl, ?_⟩
    cases rest with
    | nil => rfl
    | cons e rest =>
      by_cases hdouble : e = '>'
      · subst hdouble
        rfl
      by_cases hequality : e = '='
      · subst hequality
        rfl
      · rw [scan_greater fun e' he => by cases he; exact ⟨hdouble, hequality⟩]
        rfl
  · refine ⟨rfl, ?_⟩
    cases rest <;> rfl

/-- Where a token begins with a closing delimiter, the tokens that the grammar sees in front of it are
    the same when what stands there makes way. -/
theorem exists_significant {rest : List Char} {t : Token}
    (ht : t ∈ tokenize (String.ofList (front ++ rest))) (hkind : t.kind ≠ .endOfFile)
    (hstart : t.span.start = byteLength front) (hcloses : Closes rest) :
    ∃ before, significant (tokenize (String.ofList (front ++ rest))) =
        before ++ seenFrom (byteLength front) rest ∧
      ∀ rest', MakesWay rest rest' → significant (tokenize (String.ofList (front ++ rest'))) =
        before ++ seenFrom (byteLength front) rest' := by
  unfold tokenize at ht ⊢
  rw [String.toList_ofList] at ht ⊢
  obtain ⟨before, heq, hsame⟩ :=
    tokensFrom_cut hcloses 0 front ⟨t, ht, hkind, by rw [hstart, Nat.zero_add]⟩
  rw [Nat.zero_add] at heq hsame
  refine ⟨significant before, by rw [heq]; exact List.filter_append _ _, fun rest' hends => ?_⟩
  rw [String.toList_ofList, hsame rest' hends]
  exact List.filter_append _ _

/-- A comma in front of a token. -/
theorem exists_parted_whole {t : Token} (ht : t ∈ tokenize (String.ofList (front ++ back)))
    (hkind : t.kind ≠ .endOfFile) (hstart : t.span.start = byteLength front)
    (hcloses : Closes back) : ∃ before w w',
      significant (tokenize (String.ofList (front ++ back))) = before ++ w ∧
      Parted (byteLength front) w w' ∧
      significant (tokenize (String.ofList (front ++ ',' :: back))) = before ++ w' := by
  obtain ⟨before, heq, hsame⟩ := exists_significant ht hkind hstart hcloses
  obtain ⟨d, more, rfl, _⟩ := hcloses.exists_cons
  obtain ⟨hblank, hseen⟩ := isSeen_of_closes hcloses
  obtain ⟨x, ts, hx, hxstart, _⟩ := exists_seenFrom hblank hseen (byteLength front)
  obtain ⟨comma, hface, hcomma⟩ := seenFrom_comma (byteLength front) (d :: more)
  have hends : MakesWay (d :: more) (',' :: d :: more) :=
    .inl fun c hc => by cases hc; decide
  refine ⟨before, _, _, heq, ?_, hsame _ hends⟩
  rw [hcomma, hx]
  exact .whole hxstart hface

/-- A comma between the halves of a double angle bracket. -/
theorem exists_parted_half {t : Token}
    (ht : t ∈ tokenize (String.ofList (front ++ '>' :: '>' :: back)))
    (hkind : t.kind ≠ .endOfFile) (hstart : t.span.start = byteLength front) : ∃ before w w',
      significant (tokenize (String.ofList (front ++ '>' :: '>' :: back))) = before ++ w ∧
      Parted (byteLength front + 1) w w' ∧
      significant (tokenize (String.ofList (front ++ '>' :: ',' :: '>' :: back))) =
        before ++ w' := by
  have hcloses : Closes ('>' :: '>' :: back) := ⟨'>', rfl, .inl rfl⟩
  obtain ⟨before, heq, hsame⟩ := exists_significant ht hkind hstart hcloses
  obtain ⟨comma, hface, hcomma⟩ := seenFrom_comma (byteLength front + 1) ('>' :: back)
  have hsingle : scan '>' (',' :: '>' :: back) = ⟨.greater, 0⟩ :=
    scan_greater fun d hd => by cases hd; decide
  refine ⟨before, _, _, heq, ?_, hsame _ (.inr ⟨rfl, rfl⟩)⟩
  rw [seenFrom_double, seenFrom_single rfl rfl hsingle rfl, hcomma]
  exact .half (halves_bracket _) rfl hface (regroups_seenFrom back _)

end Lexer

/-- A comma in front of the closing delimiter of a list moves the tokens behind it by one byte, and it
    changes no other token. -/
theorem exists_parted {front back : List Char}
    (h : CloserAt (byteLength front) (significant (tokenize (String.ofList (front ++ back))))) :
    ∃ before w w', significant (tokenize (String.ofList (front ++ back))) = before ++ w ∧
      Parted (byteLength front) w w' ∧
      significant (tokenize (String.ofList (front ++ ',' :: back))) = before ++ w' := by
  obtain ⟨before, x, after, hrow, hcloser⟩ := h
  have hx : x ∈ significant (tokenize (String.ofList (front ++ back))) := by
    rw [hrow]
    exact List.mem_append_right _ List.mem_cons_self
  obtain ⟨ht, hseen⟩ := List.mem_filter.mp hx
  have hkind : x.kind ≠ .endOfFile := by
    intro hk
    rw [hk] at hseen
    exact absurd hseen (by decide)
  have hspelt := (spelt_of_mem ht).resolve_left hkind
  obtain ⟨front', back', hplace, hstart', _⟩ :=
    (Lexer.tokensFrom_atPlace _ 0 _ [] rfl rfl x ht).1
  rw [String.toList_ofList] at hplace
  rcases hcloser with ⟨hstart, hcloser, _⟩ | ⟨hdouble, hsecond⟩
  · obtain ⟨-, rfl⟩ := Lexer.eq_of_byteLength hplace (hstart.symm.trans hstart')
    refine Lexer.exists_parted_whole ht hkind hstart ?_
    simp only [List.mem_cons, List.not_mem_nil, or_false] at hcloser
    rcases hcloser with hk | hk | hk
    · rw [hk] at hspelt
      rw [show x.text.toList = ['>'] from hspelt]
      exact ⟨'>', rfl, .inl rfl⟩
    · rw [hk] at hspelt
      rw [show x.text.toList = ['>', '>'] from hspelt]
      exact ⟨'>', rfl, .inl rfl⟩
    · rw [hk] at hspelt
      rw [show x.text.toList = [')'] from hspelt]
      exact ⟨')', rfl, .inr rfl⟩
  · rw [hdouble] at hspelt
    rw [show x.text.toList = ['>', '>'] from hspelt] at hplace
    have hlength : byteLength front = byteLength (front' ++ ['>']) := by
      rw [byteLength_append, ← hsecond, hstart']
      rfl
    obtain ⟨rfl, rfl⟩ := Lexer.eq_of_byteLength
      (hplace.trans (List.append_assoc front' ['>'] ('>' :: back')).symm) hlength
    rw [List.append_assoc] at ht ⊢
    rw [List.append_assoc, hlength, byteLength_append]
    exact Lexer.exists_parted_half ht hkind hstart'

/-! ## Rows whose brackets are taken apart -/

section Rows

variable {row front back p q ts us v : List Token} {c d a : Token} {place : Nat}

theorem Token.face_later (t : Token) : t.later.face = t.face := rfl

theorem Halves.later (h : Halves d a c) : Halves d.later a.later c.later :=
  ⟨h.kind, h.first_kind, h.second_kind, h.first_text, h.second_text,
    congrArg Nat.succ h.first_start, congrArg Nat.succ h.first_stop,
    congrArg Nat.succ h.second_start, congrArg Nat.succ h.second_stop⟩

theorem Halved.map_later (h : Halved ts us) : Halved (ts.map Token.later) (us.map Token.later) := by
  induction h with
  | nil => exact .nil
  | keep t _ ih => exact .keep t.later ih
  | halve hv _ ih => exact .halve hv.later ih

/-- A token of a halved row stands in the row itself, or it is the second or the first half of a double
    angle bracket there. -/
theorem Halved.cut (h : Halved row (front ++ c :: back)) :
    (∃ before after, row = before ++ c :: after ∧ Halved before front ∧ Halved after back) ∨
    (∃ before a d after front', row = before ++ d :: after ∧ Halves d a c ∧ front = front' ++ [a] ∧
      Halved before front' ∧ Halved after back) ∨
    ∃ before b d after back', row = before ++ d :: after ∧ Halves d c b ∧ back = b :: back' ∧
      Halved before front ∧ Halved after back' := by
  generalize hus : front ++ c :: back = us at h
  induction h generalizing front with
  | nil => exact absurd (List.append_eq_nil_iff.mp hus).2 (List.cons_ne_nil _ _)
  | @keep ts us t hrest ih =>
    cases front with
    | nil =>
      obtain ⟨rfl, rfl⟩ := List.cons.inj hus
      exact .inl ⟨[], ts, rfl, .nil, hrest⟩
    | cons t' front =>
      obtain ⟨rfl, htail⟩ := List.cons.inj hus
      rcases ih htail with ⟨before, after, rfl, hfront, hback⟩ |
        ⟨before, a, d, after, front', rfl, hv, rfl, hfront, hback⟩ |
        ⟨before, b, d, after, back', rfl, hv, rfl, hfront, hback⟩
      · exact .inl ⟨t' :: before, after, rfl, .keep t' hfront, hback⟩
      · exact .inr (.inl ⟨t' :: before, a, d, after, t' :: front', rfl, hv, rfl, .keep t' hfront, hback⟩)
      · exact .inr (.inr ⟨t' :: before, b, d, after, back', rfl, hv, rfl, .keep t' hfront, hback⟩)
  | @halve ts us t a b hv hrest ih =>
    cases front with
    | nil =>
      obtain ⟨rfl, rfl⟩ := List.cons.inj hus
      exact .inr (.inr ⟨[], b, t, ts, us, rfl, hv, rfl, .nil, hrest⟩)
    | cons a' front =>
      obtain ⟨rfl, htail⟩ := List.cons.inj hus
      cases front with
      | nil =>
        obtain ⟨rfl, rfl⟩ := List.cons.inj htail
        exact .inr (.inl ⟨[], a', t, ts, [], rfl, hv, rfl, .nil, hrest⟩)
      | cons b' front =>
        obtain ⟨rfl, hmore⟩ := List.cons.inj htail
        rcases ih hmore with ⟨before, after, rfl, hfront, hback⟩ |
          ⟨before, a, d, after, front', rfl, hv', rfl, hfront, hback⟩ |
          ⟨before, b, d, after, back', rfl, hv', rfl, hfront, hback⟩
        · exact .inl ⟨t :: before, after, rfl, .halve hv hfront, hback⟩
        · exact .inr (.inl ⟨t :: before, a, d, after, a' :: b' :: front', rfl, hv', rfl,
            .halve hv hfront, hback⟩)
        · exact .inr (.inr ⟨t :: before, b, d, after, back', rfl, hv', rfl, .halve hv hfront, hback⟩)

/-- Neither a double angle bracket nor a sign of equality. -/
def Token.IsLoose (t : Token) : Prop := t.kind ∉ .shiftRight :: equalities

/-- What does not begin with a closing angle bracket or a sign of equality. -/
def StandsApart (row : List Token) : Prop := kindOf row ∉ .greater :: .shiftRight :: equalities

theorem StandsApart.not_equality (hv : StandsApart v) (hq : ∀ t ∈ q, t.IsLoose) (h : Halved p q) :
    kindOf (p ++ v) ∉ equalities := by
  intro hkind
  cases h with
  | nil => exact hv (List.mem_cons_of_mem _ (List.mem_cons_of_mem _ hkind))
  | keep t _ => exact hq t List.mem_cons_self (List.mem_cons_of_mem _ hkind)
  | halve halves _ =>
    rw [List.cons_append, ReadState.kindOf_cons, halves.kind] at hkind
    exact absurd hkind (by decide)

/-- Where all closing angle brackets in front of other tokens are taken apart, it does not matter
    which pairs they were read in. -/
theorem Regroups.halved (h : Regroups c ts us) (hc : c.kind = .greater) (hv : StandsApart v) :
    (∀ p q, ts = p ++ v → Halved p q → (∀ t ∈ q, t.IsLoose) →
      ∃ p', us = p' ++ v ∧ Halved p' (c :: q)) ∧
    ∀ p q, us = p ++ v → Halved p q → (∀ t ∈ q, t.IsLoose) →
      ∃ p' q', ts = p' ++ v ∧ q = c :: q' ∧ Halved p' q' := by
  induction h with
  | apart c ts =>
    refine ⟨fun p q hts hp _ => ⟨c :: p, congrArg _ hts, .keep c hp⟩, fun p q hus hp _ => ?_⟩
    cases p with
    | nil =>
      refine absurd ?_ hv
      rw [← show c :: ts = v from hus, ReadState.kindOf_cons, hc]
      decide
    | cons c' p =>
      obtain ⟨rfl, rfl⟩ := List.cons.inj hus
      cases hp with
      | keep _ hp => exact ⟨p, _, rfl, rfl, hp⟩
      | halve halves _ => exact absurd (hc.symm.trans halves.kind) (by decide)
  | equality c old new =>
    refine ⟨fun p q hts hp hq => ?_, fun p q hus hp hq => ?_⟩
    · rw [hts] at old
      exact absurd old (hv.not_equality hq hp)
    · rw [hus] at new
      exact absurd new (hv.not_equality hq hp)
  | @pair c c' d ts us halves behind ih =>
    obtain ⟨further, nearer⟩ := ih halves.second_kind
    refine ⟨fun p q hus hp hq => ?_, fun p q hdts hp hq => ?_⟩
    · obtain ⟨p', q', rfl, rfl, hp'⟩ := nearer p q hus hp hq
      exact ⟨d :: p', rfl, .halve halves hp'⟩
    · cases p with
      | nil =>
        refine absurd ?_ hv
        rw [← show d :: ts = v from hdts, ReadState.kindOf_cons, halves.kind]
        decide
      | cons d' p =>
        obtain ⟨rfl, hts⟩ := List.cons.inj hdts
        cases hp with
        | keep _ hp =>
          exact absurd (hq d List.mem_cons_self) fun hloose => hloose (by rw [halves.kind]; decide)
        | @halve _ q _ a b halves' hp =>
          obtain ⟨rfl, rfl⟩ := halves.unique halves'
          obtain ⟨p', hus, hp'⟩ := further p q hts hp fun t ht =>
            hq t (List.mem_cons_of_mem _ (List.mem_cons_of_mem _ ht))
          exact ⟨p', _, hus, rfl, hp'⟩

/-- Where a closing angle bracket begins at the place in a row whose double brackets are all taken
    apart, the row with a comma at the place comes to the same with the comma in front of it. -/
theorem Halved.parted (h : Halved p (front ++ c :: back)) (hc : c.kind = .greater)
    (hstart : c.span.start = place) (hloose : ∀ t ∈ front ++ c :: back, t.IsLoose)
    (hv : StandsApart v) :
    ∃ before w, p ++ v = before ++ w ∧ StartsAt place w ∧
      (∀ t ∈ front, t.kind ≠ .greater → t ∈ before) ∧
      ∀ w', Parted place w w' → ∃ comma front' back', comma.face = (.comma, ",") ∧
        before ++ w' = front' ++ comma :: (back' ++ v.map Token.later) ∧ Halved front' front ∧
        Halved back' ((c :: back).map Token.later) := by
  have hloose_front : ∀ t ∈ front, t.IsLoose := fun t ht => hloose t (List.mem_append_left _ ht)
  have hloose_back : ∀ t ∈ back, t.IsLoose := fun t ht =>
    hloose t (List.mem_append_right _ (List.mem_cons_of_mem c ht))
  have stays : ∀ {before front : List Token}, Halved before front → (∀ t ∈ front, t.IsLoose) →
      ∀ t ∈ front, t.kind ≠ .greater → t ∈ before := fun hbefore hloose t ht hne =>
    (hbefore.mem_iff (fun hk => hloose t ht (by rw [hk]; decide)) hne).mp ht
  rcases h.cut with ⟨before, after, rfl, hfront, hafter⟩ |
    ⟨before, a, d, after, front', rfl, halves, rfl, hfront, hafter⟩ |
    ⟨before, b, d, after, back', rfl, halves, rfl, hfront, hafter⟩
  · refine ⟨before, c :: (after ++ v), by simp, ⟨c, _, rfl, .inl hstart⟩,
      stays hfront hloose_front, fun w' hw' => ?_⟩
    cases hw' with
    | whole start face =>
      exact ⟨_, before, (c :: after).map Token.later, face, by simp, hfront,
        (Halved.keep c hafter).map_later⟩
    | half halves => exact absurd (hc.symm.trans halves.kind) (by decide)
  · have hsecond : d.span.start + 1 = place := halves.second_start.symm.trans hstart
    refine ⟨before, d :: (after ++ v), by simp, ⟨d, _, rfl, .inr ⟨halves.kind, hsecond⟩⟩,
      fun t ht hne => ?_, fun w' hw' => ?_⟩
    · rcases List.mem_append.mp ht with ht | ht
      · exact stays hfront (fun t ht => hloose_front t (List.mem_append_left _ ht)) t ht hne
      · exact absurd (List.mem_singleton.mp ht ▸ halves.first_kind) hne
    · cases hw' with
      | whole start => exact absurd (start.trans hsecond.symm) (Nat.ne_of_lt (Nat.lt_succ_self _))
      | half halves' start face regroups =>
        obtain ⟨rfl, rfl⟩ := halves.unique halves'
        obtain ⟨more, rfl, hmore⟩ := (regroups.halved hc hv).1 after back rfl hafter hloose_back
        refine ⟨_, before ++ [a], more.map Token.later, face, by simp, ?_, hmore.map_later⟩
        exact hfront.append (.refl [a])
  · have hfirst : d.span.start = place := halves.first_start.symm.trans hstart
    refine ⟨before, d :: (after ++ v), by simp, ⟨d, _, rfl, .inl hfirst⟩,
      stays hfront hloose_front, fun w' hw' => ?_⟩
    cases hw' with
    | whole start face =>
      exact ⟨_, before, (d :: after).map Token.later, face, by simp, hfront,
        (Halved.halve halves hafter).map_later⟩
    | half halves' start =>
      have hsecond := halves'.second_start
      omega

end Rows

/-! ## The delimiter in a row that is in order -/

section Closer

variable {row us before after p q v w w' : List Token} {x : Token} {place lower upper : Nat}

/-- The last token of a row whose brackets are taken apart is the last one of the row, or a half. -/
theorem Halved.getLast?_cases (h : Halved row us) :
    ∀ y ∈ us.getLast?, y.kind = .greater ∨ y ∈ row.getLast? := by
  induction h with
  | nil => exact fun y hy => by cases hy
  | @keep ts us t rest ih =>
    intro y hy
    cases us with
    | nil =>
      rw [rest.of_nil]
      exact .inr hy
    | cons u us =>
      rw [List.getLast?_cons_cons] at hy
      refine (ih y hy).imp_right fun hy => ?_
      cases ts with
      | nil => cases hy
      | cons t' ts => rwa [List.getLast?_cons_cons]
  | @halve ts us t a b halves rest ih =>
    intro y hy
    cases us with
    | nil => exact .inl (Option.mem_some.mp hy ▸ halves.second_kind)
    | cons u us =>
      rw [List.getLast?_cons_cons, List.getLast?_cons_cons] at hy
      refine (ih y hy).imp_right fun hy => ?_
      cases ts with
      | nil => cases hy
      | cons t' ts => rwa [List.getLast?_cons_cons]

theorem Halved.exists_append (h : Halved (before ++ after) us) :
    ∃ before' after', us = before' ++ after' ∧ Halved before before' ∧ Halved after after' := by
  induction before generalizing us with
  | nil => exact ⟨[], us, rfl, .nil, h⟩
  | cons t before ih =>
    cases h with
    | keep _ rest =>
      obtain ⟨before', after', rfl, hbefore, hafter⟩ := ih rest
      exact ⟨t :: before', after', rfl, .keep t hbefore, hafter⟩
    | @halve _ _ _ a b halves rest =>
      obtain ⟨before', after', rfl, hbefore, hafter⟩ := ih rest
      exact ⟨a :: b :: before', after', rfl, .halve halves hbefore, hafter⟩

/-- Taking brackets apart leaves the delimiter where it is. -/
theorem CloserAt.halved (h : CloserAt place row) (hrow : Halved row us) : CloserAt place us := by
  obtain ⟨before, x, after, rfl, hx⟩ := h
  obtain ⟨before', rest, rfl, hbefore, hrest⟩ := hrow.exists_append
  have behind : (∀ y ∈ before.getLast?, y.kind ≠ .less ∧ y.kind ≠ .leftParen) →
      ∀ y ∈ before'.getLast?, y.kind ≠ .less ∧ y.kind ≠ .leftParen := by
    intro hlast y hy
    rcases hbefore.getLast?_cases y hy with hy | hy
    · rw [hy]
      decide
    · exact hlast y hy
  cases hrest with
  | keep _ rest => exact ⟨before', x, _, rfl, hx.imp_left fun h => ⟨h.1, h.2.1, behind h.2.2⟩⟩
  | @halve _ us _ a b halves rest =>
    rcases hx with ⟨hstart, -, hlast⟩ | ⟨-, hstart⟩
    · exact ⟨before', a, b :: us, rfl, .inl ⟨halves.first_start.trans hstart,
        by rw [halves.first_kind]; decide, behind hlast⟩⟩
    · refine ⟨before' ++ [a], b, us, by simp, .inl ⟨halves.second_start.trans hstart,
        by rw [halves.second_kind]; decide, fun y hy => ?_⟩⟩
      rw [List.getLast?_append, List.getLast?_singleton, Option.some_or, Option.mem_some] at hy
      rw [← hy, halves.first_kind]
      decide

theorem InOrder.stop_eq (ho : InOrder lower upper row) :
    ∀ t ∈ row, t.kind = .shiftRight → t.span.stop = t.span.start + 2 := by
  induction row generalizing lower with
  | nil => exact List.forall_mem_nil _
  | cons u row ih => exact List.forall_mem_cons.mpr ⟨ho.2.2.1, ih ho.2.2.2⟩

/-- What begins at a place, perhaps as the second half of a token, lies over it. -/
theorem InOrder.over_place (ho : InOrder lower upper row) (hx : x ∈ row)
    (h : x.span.start = place ∨ x.kind = .shiftRight ∧ x.span.start + 1 = place) :
    x.span.start ≤ place ∧ place < x.span.stop := by
  have hlt := ho.start_lt x hx
  have hdouble := ho.stop_eq x hx
  rcases h with h | ⟨hk, h⟩
  · omega
  · have hstop := hdouble hk
    omega

theorem InOrder.stop_le_start (ho : InOrder lower upper (before ++ x :: after)) :
    (∀ t ∈ before, t.span.stop ≤ x.span.start) ∧ ∀ t ∈ after, x.span.stop ≤ t.span.start := by
  obtain ⟨-, hafter, hacross⟩ := List.pairwise_append.mp ho.disjoint
  exact ⟨fun t ht => hacross t ht x List.mem_cons_self, (List.pairwise_cons.mp hafter).1⟩

/-- Over one place lies one token. -/
theorem InOrder.not_mem_of_over {t : Token} (ho : InOrder lower upper (before ++ x :: after))
    (hx : x.span.start ≤ place ∧ place < x.span.stop)
    (hover : t.span.start ≤ place ∧ place < t.span.stop) : t ∉ before ∧ t ∉ after := by
  obtain ⟨hbefore, hafter⟩ := ho.stop_le_start
  refine ⟨fun h => ?_, fun h => ?_⟩
  · have hle := hbefore t h
    omega
  · have hle := hafter t h
    omega

theorem over_of_closer {x : Token} (ho : InOrder lower upper (before ++ x :: after))
    (h : (x.span.start = place ∧ x.kind ∈ [.greater, .shiftRight, .rightParen] ∧
        (∀ y ∈ before.getLast?, y.kind ≠ .less ∧ y.kind ≠ .leftParen) ∨
      x.kind = .shiftRight ∧ x.span.start + 1 = place)) :
    x.span.start ≤ place ∧ place < x.span.stop :=
  ho.over_place (List.mem_append_right _ List.mem_cons_self) (h.imp_left And.left)

/-- The delimiter is among the tokens that lie around its place. -/
theorem CloserAt.inside (h : CloserAt place (p ++ (q ++ v)))
    (ho : InOrder lower upper (p ++ (q ++ v))) (hne : q ≠ [])
    (hfrom : (q.head hne).span.start ≤ place) (hto : place < (q.getLast hne).span.stop) :
    CloserAt place q := by
  obtain ⟨before, x, after, hrow, hx⟩ := h
  rw [hrow] at ho
  have hover := over_of_closer ho hx
  obtain ⟨hbefore, hafter⟩ := ho.stop_le_start
  rcases cons_of_append_eq hrow with ⟨more, rfl⟩ | ⟨more, rfl, hmore⟩
  · -- The delimiter would end in front of the tokens.
    rw [List.append_assoc] at hrow
    obtain ⟨-, rfl⟩ := List.cons.inj (List.append_cancel_left hrow)
    have hle := hafter (q.head hne)
      (List.mem_append_right _ (List.mem_append_left _ (List.head_mem hne)))
    omega
  · rcases cons_of_append_eq hmore with ⟨right, rfl⟩ | ⟨left, rfl, -⟩
    · refine ⟨more, x, right, rfl, hx.imp_left fun ⟨hstart, hkind, hlast⟩ => ⟨hstart, hkind, ?_⟩⟩
      intro y hy
      refine hlast y ?_
      rw [List.getLast?_append, show more.getLast? = some y from hy]
      rfl
    · have hle := hbefore (q.getLast hne)
        (List.mem_append_right _ (List.mem_append_left _ (List.getLast_mem hne)))
      omega

/-- No list opens in front of a token that begins at the place of the delimiter. -/
theorem CloserAt.behind (h : CloserAt place (before ++ x :: after))
    (ho : InOrder lower upper (before ++ x :: after)) (hstart : x.span.start = place) :
    ∀ y ∈ before.getLast?, y.kind ≠ .less ∧ y.kind ≠ .leftParen := by
  obtain ⟨before', x', after', hrow, hx⟩ := h
  have hx' : x'.span.start ≤ place ∧ place < x'.span.stop := by
    rw [hrow] at ho
    exact over_of_closer ho hx
  have hover := ho.over_place (List.mem_append_right _ List.mem_cons_self) (.inl hstart)
  obtain ⟨hbefore, hafter⟩ := ho.not_mem_of_over hover hx'
  rcases cons_of_append_eq hrow with ⟨more, rfl⟩ | ⟨more, rfl, hmore⟩
  · exact absurd (List.mem_append_right _ List.mem_cons_self) hbefore
  · cases more with
    | nil =>
      obtain ⟨rfl, rfl⟩ := List.cons.inj hmore
      rcases hx with ⟨-, -, hlast⟩ | ⟨-, hsecond⟩
      · rwa [List.append_nil] at hlast
      · omega
    | cons y more =>
      obtain ⟨rfl, rfl⟩ := List.cons.inj hmore
      exact absurd (List.mem_append_right _ List.mem_cons_self) hafter

/-- A row begins at a place behind one number of its tokens. -/
theorem StartsAt.unique (h : StartsAt place w) (h' : StartsAt place w') (hrow : p ++ w = q ++ w')
    (ho : InOrder lower upper (p ++ w)) : p = q ∧ w = w' := by
  obtain ⟨x, ts, rfl, hx⟩ := h
  obtain ⟨y, us, rfl, hy⟩ := h'
  have hover := ho.over_place (List.mem_append_right _ List.mem_cons_self) hx
  have hover' : y.span.start ≤ place ∧ place < y.span.stop := by
    rw [hrow] at ho
    exact ho.over_place (List.mem_append_right _ List.mem_cons_self) hy
  obtain ⟨hbefore, hafter⟩ := ho.not_mem_of_over hover hover'
  rcases cons_of_append_eq hrow with ⟨more, rfl⟩ | ⟨more, rfl, hmore⟩
  · exact absurd (List.mem_append_right _ List.mem_cons_self) hbefore
  · cases more with
    | nil => exact ⟨(List.append_nil p).symm, hmore⟩
    | cons z more =>
      obtain ⟨rfl, rfl⟩ := List.cons.inj hmore
      exact absurd (List.mem_append_right _ List.mem_cons_self) hafter

end Closer

end HeaderBridge
