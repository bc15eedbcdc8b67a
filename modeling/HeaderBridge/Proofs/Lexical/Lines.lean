/-
  The line index counts exactly: behind some characters of a source one stands on the line after
  as many lines as these characters have line feeds, in the column after as many bytes as stand
  behind the last of them (`position_of_append`). The table of line starts is cut where the
  characters end, since every start in front of that place is at most it and every later one lies
  behind it.

  It does so at every byte offset, also at one inside a character. The bytes in front of an offset
  are those of some characters and a part of the next one, in which there is no line feed
  (`exists_part`), so the table is passed as far as these characters go. The line of an offset counts
  the line feeds in front of it and its column the bytes since the last of them (`locate_exact`). Only
  the last offset of all can be without a place. In a source of one line its column has no number
  (`exists_wide_column`), and in one of nothing but line feeds its line has none
  (`exists_wide_line`).
-/
import HeaderBridge.Proofs.Lexical.Places
import HeaderBridge.Source.LineIndex
import Mathlib.Data.List.DropRight
import Mathlib.Data.Prod.Lex

namespace HeaderBridge

/-- The line on which one stands behind some characters of a source. -/
def lineBehind (front : List Char) : Nat := front.count '\n' + 1

/-- The column in which one stands behind some characters of a source. -/
def columnBehind (front : List Char) : Nat := byteLength (front.rtakeWhile (· ≠ '\n')) + 1

namespace LineIndex

/-! ## The table of line starts -/

theorem lineStartsAfter_append (offset : Nat) (cs ds : List Char) :
    lineStartsAfter offset (cs ++ ds) =
      lineStartsAfter offset cs ++ lineStartsAfter (offset + byteLength cs) ds := by
  induction cs generalizing offset with
  | nil => rfl
  | cons c cs ih =>
    have hbytes : offset + c.utf8Size + byteLength cs = offset + byteLength (c :: cs) := by
      rw [byteLength_cons, Nat.add_assoc]
    rw [List.cons_append]
    simp only [lineStartsAfter]
    rw [ih, hbytes]
    split <;> rfl

theorem length_lineStartsAfter (offset : Nat) (cs : List Char) :
    (lineStartsAfter offset cs).length = cs.count '\n' := by
  induction cs generalizing offset with
  | nil => rfl
  | cons c cs ih =>
    rw [List.count_cons]
    simp only [lineStartsAfter]
    split
    · rw [List.length_cons, ih]
    · rw [ih, Nat.add_zero]

/-- The lines of some characters start behind where these do, and not behind where they end. -/
theorem mem_lineStartsAfter {offset start : Nat} {cs : List Char}
    (h : start ∈ lineStartsAfter offset cs) :
    offset < start ∧ start ≤ offset + byteLength cs := by
  induction cs generalizing offset with
  | nil => cases h
  | cons c cs ih =>
    have hpos := c.utf8Size_pos
    rw [byteLength_cons]
    simp only [lineStartsAfter] at h
    split at h
    · rcases List.mem_cons.mp h with rfl | h
      · omega
      · have := ih h
        omega
    · have := ih h
      omega

/-- The last line that some characters start has behind it what stands behind their last line
    feed. -/
theorem getLastD_lineStartsAfter (offset : Nat) (cs : List Char) :
    (lineStartsAfter offset cs).getLastD offset + byteLength (cs.rtakeWhile (· ≠ '\n')) =
      offset + byteLength cs := by
  induction cs using List.reverseRecOn with
  | nil => rfl
  | append_singleton cs c ih =>
    rw [lineStartsAfter_append, byteLength_append]
    by_cases hc : c = '\n'
    · subst hc
      rw [List.rtakeWhile_concat_neg _ _ _ (by simp)]
      simp [lineStartsAfter, byteLength]
      omega
    · rw [List.rtakeWhile_concat_pos _ _ _ (by simpa using hc), byteLength_append]
      simp only [lineStartsAfter, beq_iff_eq, hc, if_false, List.append_nil]
      omega

/-! ## Positions -/

/-- The lines that start at or before an offset behind some characters are those that these
    characters start, if the other ones start behind the offset. -/
theorem takeWhile_later {source : String} {front back : List Char} {offset : Nat}
    (h : source.toList = front ++ back) (hle : byteLength front ≤ offset)
    (hnext : ∀ start ∈ lineStartsAfter (byteLength front) back, offset < start) :
    (ofSource source).later.takeWhile (· ≤ offset) = lineStartsAfter 0 front := by
  have hpassed : ∀ start ∈ lineStartsAfter 0 front, (start ≤ offset : Bool) := by
    intro start hstart
    have := (mem_lineStartsAfter hstart).2
    simp only [decide_eq_true_eq]
    omega
  have hrest : (lineStartsAfter (0 + byteLength front) back).takeWhile (· ≤ offset) = [] := by
    rw [Nat.zero_add, List.takeWhile_eq_nil_iff]
    intro hpos
    have := hnext _ (List.get_mem _ ⟨0, hpos⟩)
    simp only [decide_eq_true_eq]
    omega
  unfold ofSource
  rw [h, lineStartsAfter_append, List.takeWhile_append_of_pos hpassed, hrest, List.append_nil]

/-- The position behind some characters of a source is found by counting their line feeds and the
    bytes behind the last one. -/
theorem position_of_append {source : String} {front back : List Char}
    (h : source.toList = front ++ back) :
    (ofSource source).position (byteLength front) = (lineBehind front, columnBehind front) := by
  have hpassed := takeWhile_later h (Nat.le_refl _) fun _ hstart => (mem_lineStartsAfter hstart).1
  have hlast := getLastD_lineStartsAfter 0 front
  unfold position
  simp only [hpassed]
  rw [length_lineStartsAfter]
  refine Prod.ext rfl ?_
  simp only [columnBehind]
  omega

end LineIndex

/-! ## Bytes -/

/-- The byte of a line feed. -/
def lineFeed : UInt8 := 10

/-- The bytes of some characters. -/
def bytesOf (cs : List Char) : List UInt8 := cs.flatMap String.utf8EncodeChar

/-- The bytes of a source in front of an offset. -/
def bytesBefore (source : String) (offset : Nat) : List UInt8 :=
  source.toByteArray.data.toList.take offset

/-- How many line feeds a source has in front of an offset. -/
def feedsBefore (source : String) (offset : Nat) : Nat :=
  (bytesBefore source offset).count lineFeed

/-- How many bytes of a source stand between the last line feed in front of an offset and this offset.
    Without a line feed all bytes in front of it count. -/
def sinceFeed (source : String) (offset : Nat) : Nat :=
  ((bytesBefore source offset).rtakeWhile (· ≠ lineFeed)).length

theorem toList_data_toByteArray (source : String) :
    source.toByteArray.data.toList = bytesOf source.toList := by
  rw [← String.utf8Encode_toList]
  exact List.toList_data_toByteArray

theorem bytesOf_cons (c : Char) (cs : List Char) :
    bytesOf (c :: cs) = String.utf8EncodeChar c ++ bytesOf cs := rfl

theorem bytesOf_append (cs ds : List Char) : bytesOf (cs ++ ds) = bytesOf cs ++ bytesOf ds :=
  List.flatMap_append

theorem length_bytesOf (cs : List Char) : (bytesOf cs).length = byteLength cs := by
  induction cs with
  | nil => rfl
  | cons c cs ih =>
    rw [bytesOf_cons, List.length_append, String.length_utf8EncodeChar, ih, byteLength_cons]

theorem lineFeed_eq_ofNat_iff (n : Nat) : lineFeed = UInt8.ofNat n ↔ n % 256 = 10 := by
  rw [← UInt8.toNat_inj, UInt8.toNat_ofNat']
  exact eq_comm

/-- Only the line feed has the byte of a line feed. -/
theorem lineFeed_notMem_utf8EncodeChar {c : Char} (h : c ≠ '\n') :
    lineFeed ∉ String.utf8EncodeChar c := by
  have hval : c.val.toNat ≠ 10 := fun hval => h (Char.ext (UInt32.toNat_inj.mp hval))
  intro hmem
  -- A longer code has the bytes of no character below 128.
  unfold String.utf8EncodeChar at hmem
  simp only at hmem
  split_ifs at hmem <;>
    simp only [List.mem_cons, List.not_mem_nil, or_false, lineFeed_eq_ofNat_iff] at hmem <;> omega

theorem count_bytesOf (cs : List Char) : (bytesOf cs).count lineFeed = cs.count '\n' := by
  induction cs with
  | nil => rfl
  | cons c cs ih =>
    rw [bytesOf_cons, List.count_append, ih, List.count_cons]
    by_cases hc : c = '\n'
    · subst hc
      exact Nat.add_comm _ _
    · rw [List.count_eq_zero.mpr (lineFeed_notMem_utf8EncodeChar hc), Nat.zero_add,
        if_neg (by simpa using hc), Nat.add_zero]

theorem rtakeWhile_append_of_notMem {as bs : List UInt8} (h : lineFeed ∉ bs) :
    (as ++ bs).rtakeWhile (· ≠ lineFeed) = as.rtakeWhile (· ≠ lineFeed) ++ bs := by
  have hall : ∀ b ∈ bs.reverse, (b ≠ lineFeed : Bool) := by
    intro b hb
    rw [List.mem_reverse] at hb
    rw [decide_eq_true_eq]
    rintro rfl
    exact h hb
  unfold List.rtakeWhile
  rw [List.reverse_append, List.takeWhile_append_of_pos hall, List.reverse_append,
    List.reverse_reverse]

theorem length_rtakeWhile_bytesOf (cs : List Char) :
    ((bytesOf cs).rtakeWhile (· ≠ lineFeed)).length =
      byteLength (cs.rtakeWhile (· ≠ '\n')) := by
  induction cs using List.reverseRecOn with
  | nil => rfl
  | append_singleton cs c ih =>
    rw [bytesOf_append]
    by_cases hc : c = '\n'
    · subst hc
      rw [List.rtakeWhile_concat_neg _ _ _ (by simp)]
      exact congrArg List.length (List.rtakeWhile_concat_neg _ (bytesOf cs) lineFeed (by simp))
    · have hbytes : bytesOf [c] = String.utf8EncodeChar c := List.append_nil _
      rw [List.rtakeWhile_concat_pos _ _ _ (by simpa using hc), hbytes,
        rtakeWhile_append_of_notMem (lineFeed_notMem_utf8EncodeChar hc), List.length_append, ih,
        String.length_utf8EncodeChar, byteLength_append]
      rfl

/-! ## Offsets -/

namespace LineIndex

/-- In front of an offset stand some characters and a part of the next one. No line feed is in that
    part, and the lines that start with what follows start behind it. -/
theorem exists_part (cs : List Char) : ∀ {offset : Nat}, offset ≤ byteLength cs →
    ∃ front back part, cs = front ++ back ∧ (bytesOf cs).take offset = bytesOf front ++ part ∧
      lineFeed ∉ part ∧
      ∀ base, ∀ start ∈ lineStartsAfter base back, base + part.length < start := by
  induction cs with
  | nil =>
    intro offset h
    exact ⟨[], [], [], rfl, List.take_nil, List.not_mem_nil, fun _ _ hstart => nomatch hstart⟩
  | cons c cs ih =>
    intro offset h
    have hsize := String.length_utf8EncodeChar c
    rw [byteLength_cons] at h
    by_cases hc : c.utf8Size ≤ offset
    · have hrest : offset - c.utf8Size ≤ byteLength cs := by omega
      obtain ⟨front, back, part, rfl, htake, hpart, hstarts⟩ := ih hrest
      refine ⟨c :: front, back, part, rfl, ?_, hpart, hstarts⟩
      rw [bytesOf_cons, List.take_append, List.take_of_length_le (by omega), hsize, htake,
        bytesOf_cons, List.append_assoc]
    · refine ⟨[], c :: cs, (String.utf8EncodeChar c).take offset, rfl, ?_, fun hmem => ?_,
        fun base start hstart => ?_⟩
      · rw [bytesOf_cons, List.take_append_of_le_length (by omega)]
        rfl
      · -- Inside a character no line feed stands, since a line feed has one byte.
        by_cases hfeed : c = '\n'
        · subst hfeed
          have hzero : offset = 0 := Nat.lt_one_iff.mp (Nat.lt_of_not_le hc)
          rw [hzero, List.take_zero] at hmem
          cases hmem
        · exact lineFeed_notMem_utf8EncodeChar hfeed (List.mem_of_mem_take hmem)
      · have hlength := List.length_take_le offset (String.utf8EncodeChar c)
        have hbehind : base + c.utf8Size ≤ start := by
          simp only [lineStartsAfter] at hstart
          split at hstart
          · rcases List.mem_cons.mp hstart with rfl | hstart
            · exact Nat.le_refl _
            · exact (mem_lineStartsAfter hstart).1.le
          · exact (mem_lineStartsAfter hstart).1.le
        omega

/-- The line starts that an offset has passed are as many as the line feeds in front of it, and the
    last of them has behind it what stands behind the last line feed. -/
theorem passed_exact {source : String} {offset : Nat} (h : offset ≤ source.utf8ByteSize) :
    ((ofSource source).later.takeWhile (· ≤ offset)).length = feedsBefore source offset ∧
      ((ofSource source).later.takeWhile (· ≤ offset)).getLastD 0 + sinceFeed source offset =
        offset := by
  have hle : offset ≤ byteLength source.toList := by rwa [← utf8ByteSize_eq]
  obtain ⟨front, back, part, hsource, htake, hpart, hstarts⟩ := exists_part source.toList hle
  have hbefore : bytesBefore source offset = bytesOf front ++ part := by
    rw [bytesBefore, toList_data_toByteArray, htake]
  have hoffset : byteLength front + part.length = offset := by
    rw [← length_bytesOf, ← List.length_append, ← htake, List.length_take, length_bytesOf,
      Nat.min_eq_left hle]
  have hpassed := takeWhile_later hsource (by omega) fun start hstart =>
    hoffset ▸ hstarts (byteLength front) start hstart
  have hfeeds : feedsBefore source offset = front.count '\n' := by
    rw [feedsBefore, hbefore, List.count_append, List.count_eq_zero.mpr hpart, count_bytesOf,
      Nat.add_zero]
  have hsince : sinceFeed source offset =
      byteLength (front.rtakeWhile (· ≠ '\n')) + part.length := by
    rw [sinceFeed, hbefore, rtakeWhile_append_of_notMem hpart, List.length_append,
      length_rtakeWhile_bytesOf]
  have hlast := getLastD_lineStartsAfter 0 front
  rw [hpassed]
  refine ⟨by rw [length_lineStartsAfter, hfeeds], ?_⟩
  rw [hsince]
  omega

theorem position_exact {source : String} {offset : Nat} (h : offset ≤ source.utf8ByteSize) :
    (ofSource source).position offset =
      (feedsBefore source offset + 1, sinceFeed source offset + 1) := by
  obtain ⟨hlength, hlast⟩ := passed_exact h
  unfold position
  refine Prod.ext (congrArg (· + 1) hlength) ?_
  simp only
  omega

theorem pos_of_mem_later {source : String} {start : Nat} (h : start ∈ (ofSource source).later) :
    0 < start :=
  (mem_lineStartsAfter h).1

theorem lineStartsAfter_pairwise (offset : Nat) (cs : List Char) :
    (lineStartsAfter offset cs).Pairwise (· < ·) := by
  induction cs generalizing offset with
  | nil => exact .nil
  | cons c cs ih =>
    simp only [lineStartsAfter]
    split
    · exact .cons (fun _ hstart => (mem_lineStartsAfter hstart).1) (ih _)
    · exact ih _

theorem starts_pairwise (source : String) : (ofSource source).starts.Pairwise (· < ·) :=
  .cons (fun _ hstart => pos_of_mem_later hstart) (lineStartsAfter_pairwise 0 _)

theorem lineCount_exact (source : String) :
    (ofSource source).lineCount = source.toList.count '\n' + 1 := by
  unfold lineCount starts ofSource
  rw [List.length_cons, length_lineStartsAfter]

/-- Behind another offset stands more on its line, or a later line. -/
theorem position_lt {source : String} {earlier offset : Nat} (hlt : earlier < offset)
    (h : offset ≤ source.utf8ByteSize) :
    toLex ((ofSource source).position earlier) < toLex ((ofSource source).position offset) := by
  let between := (source.toByteArray.data.toList.drop earlier).take (offset - earlier)
  have hbefore : bytesBefore source offset = bytesBefore source earlier ++ between := by
    unfold bytesBefore
    rw [← List.take_add, Nat.add_sub_cancel' hlt.le]
  have hlength : between.length = offset - earlier := by
    rw [List.length_take, List.length_drop, toList_data_toByteArray, length_bytesOf,
      ← utf8ByteSize_eq]
    omega
  have hfeeds : feedsBefore source offset = feedsBefore source earlier + between.count lineFeed := by
    rw [feedsBefore, hbefore, List.count_append]
    rfl
  rw [position_exact (hlt.le.trans h), position_exact h, Prod.Lex.toLex_lt_toLex]
  by_cases hfeed : lineFeed ∈ between
  · have hpos := List.count_pos_iff.mpr hfeed
    exact .inl (by simp only; omega)
  · rw [List.count_eq_zero.mpr hfeed] at hfeeds
    have hsince : sinceFeed source offset = sinceFeed source earlier + between.length := by
      rw [sinceFeed, hbefore, rtakeWhile_append_of_notMem hfeed, List.length_append]
      rfl
    exact .inr ⟨by simp only; omega, by simp only; omega⟩

/-- The table holds the start of the line of an offset at the number of line feeds in front of it. -/
theorem starts_getElem? {source : String} {offset : Nat} (h : offset ≤ source.utf8ByteSize) :
    ∃ start, (ofSource source).starts[feedsBefore source offset]? = some start ∧
      start + sinceFeed source offset = offset := by
  obtain ⟨hlength, hlast⟩ := passed_exact h
  refine ⟨_, ?_, hlast⟩
  rw [← hlength]
  generalize hpassed : (ofSource source).later.takeWhile (· ≤ offset) = passed
  have hparted := List.takeWhile_append_dropWhile (p := (· ≤ offset)) (l := (ofSource source).later)
  unfold starts
  rw [← hparted, hpassed]
  cases passed using List.reverseRecOn with
  | nil => rfl
  | append_singleton passed start => simp

theorem feedsBefore_le (source : String) (offset : Nat) : feedsBefore source offset ≤ offset :=
  List.count_le_length.trans (List.length_take_le _ _)

/-- No line feed stands in front of an offset exactly if all bytes there count for its column. -/
theorem sinceFeed_eq_iff {source : String} {offset : Nat} (h : offset ≤ source.utf8ByteSize) :
    sinceFeed source offset = offset ↔ feedsBefore source offset = 0 := by
  obtain ⟨hlength, hlast⟩ := passed_exact h
  rw [← hlength, List.length_eq_zero_iff]
  generalize hpassed : (ofSource source).later.takeWhile (· ≤ offset) = passed at hlast ⊢
  cases passed with
  | nil =>
    rw [List.getLastD_nil, Nat.zero_add] at hlast
    exact iff_of_true hlast rfl
  | cons first passed =>
    rw [List.getLastD_cons] at hlast
    have hmem : passed.getLastD first ∈ (ofSource source).later.takeWhile (· ≤ offset) :=
      hpassed ▸ List.getLastD_mem_cons
    have hpos := pos_of_mem_later (List.takeWhile_subset _ hmem)
    exact iff_of_false (by omega) (List.cons_ne_nil _ _)

theorem sinceFeed_le {source : String} {offset : Nat} (h : offset ≤ source.utf8ByteSize) :
    sinceFeed source offset ≤ offset := by
  have hlast := (passed_exact h).2
  omega

/-- Only the last offset that 32 bits hold can be without a place. It is if its line is the first,
    which makes it too far from the start of that line, or if line feeds alone stand in front of
    it, which makes the lines too many. -/
theorem locate_eq {source : String} (hsize : source.utf8ByteSize < 0x100000000) {offset : Nat}
    (h : offset ≤ source.utf8ByteSize) : (ofSource source).locate offset =
      if offset = 0xffffffff ∧
          (feedsBefore source offset = 0 ∨ feedsBefore source offset = offset) then
        .error .widePlace
      else .ok (feedsBefore source offset + 1, sinceFeed source offset + 1) := by
  have hfeeds := feedsBefore_le source offset
  have hsince := sinceFeed_le h
  have hfirst := sinceFeed_eq_iff h
  have hwide : (feedsBefore source offset + 1 ≤ maxNumber ∧ sinceFeed source offset + 1 ≤ maxNumber) ↔
      ¬ (offset = 0xffffffff ∧
        (feedsBefore source offset = 0 ∨ feedsBefore source offset = offset)) := by
    simp only [maxNumber]
    omega
  unfold locate
  rw [position_exact h]
  simp only [hwide]
  split_ifs <;> rfl

/-- The table of line starts is in order and has one start more than the source has line feeds. Of
    every offset, the line counts the line feeds in front of it and the column the bytes since the
    last of them, which the table holds the start of; only the last offset of all has no place, in a
    source of one line and in one of line feeds alone. So a later offset has a later place. -/
theorem locate_exact (source : String) (hsize : source.utf8ByteSize < 0x100000000) :
    (ofSource source).starts.Pairwise (· < ·) ∧
      (ofSource source).lineCount = source.toList.count '\n' + 1 ∧
      ∀ offset ≤ source.utf8ByteSize,
        (∃ start, (ofSource source).starts[feedsBefore source offset]? = some start ∧
          start + sinceFeed source offset = offset) ∧
        (ofSource source).locate offset = (if offset = 0xffffffff ∧
            (feedsBefore source offset = 0 ∨ feedsBefore source offset = offset)
          then .error .widePlace
          else .ok (feedsBefore source offset + 1, sinceFeed source offset + 1)) ∧
        ∀ earlier < offset, ∀ place place', (ofSource source).locate earlier = .ok place →
          (ofSource source).locate offset = .ok place' → toLex place < toLex place' := by
  refine ⟨starts_pairwise source, lineCount_exact source, fun offset h =>
    ⟨starts_getElem? h, locate_eq hsize h, fun earlier hlt place place' hplace hplace' => ?_⟩⟩
  obtain ⟨rfl, _⟩ := locate_eq_ok_iff.mp hplace
  obtain ⟨rfl, _⟩ := locate_eq_ok_iff.mp hplace'
  exact position_lt hlt h

/-- A place inside the last character of the second line. -/
theorem locate_exact_inside_character :
    (ofSource "é\nbé").lineCount = 2 ∧ (ofSource "é\nbé").locate 5 = .ok (2, 3) := by
  obtain ⟨_, hcount, hplaces⟩ := locate_exact "é\nbé" (by decide)
  obtain ⟨_, hlocate, _⟩ := hplaces 5 (by decide)
  rw [hlocate]
  exact ⟨hcount, by decide +kernel⟩

theorem feedsBefore_utf8ByteSize (source : String) :
    feedsBefore source source.utf8ByteSize = source.toList.count '\n' := by
  rw [feedsBefore, bytesBefore, toList_data_toByteArray, List.take_of_length_le, count_bytesOf]
  rw [length_bytesOf, utf8ByteSize_eq]

/-- A source as large as 32 bits allow that repeats a character of one byte. -/
def largest (c : Char) : String := .ofList (.replicate 0xffffffff c)

theorem byteLength_replicate (n : Nat) (c : Char) :
    byteLength (.replicate n c) = n * c.utf8Size := by
  induction n with
  | zero => rw [Nat.zero_mul]; rfl
  | succ n ih => rw [List.replicate_succ, byteLength_cons, ih, Nat.succ_mul, Nat.add_comm]

theorem utf8ByteSize_largest {c : Char} (h : c.utf8Size = 1) :
    (largest c).utf8ByteSize = 0xffffffff := by
  rw [largest, utf8ByteSize_ofList, byteLength_replicate, h]

theorem feedsBefore_largest {c : Char} (h : c.utf8Size = 1) :
    feedsBefore (largest c) 0xffffffff = if c = '\n' then 0xffffffff else 0 := by
  have hfeeds := feedsBefore_utf8ByteSize (largest c)
  rw [utf8ByteSize_largest h] at hfeeds
  rw [hfeeds, largest, String.toList_ofList, List.count_replicate]
  simp only [beq_iff_eq]

/-- The end of such a source has no place, whatever the character. -/
theorem locate_largest {c : Char} (h : c.utf8Size = 1) :
    (ofSource (largest c)).locate 0xffffffff = .error .widePlace := by
  have hsize := utf8ByteSize_largest h
  have hfeeds : feedsBefore (largest c) 0xffffffff = 0 ∨
      feedsBefore (largest c) 0xffffffff = 0xffffffff := by
    rw [feedsBefore_largest h]
    split
    · exact .inr rfl
    · exact .inl rfl
  rw [locate_eq (by rw [hsize]; decide) hsize.ge, if_pos ⟨rfl, hfeeds⟩]

/-- A source of line feeds alone and as large as 32 bits allow has an offset without a line. -/
theorem exists_wide_line : ∃ (source : String) (offset : Nat), source.utf8ByteSize < 0x100000000 ∧
    offset ≤ source.utf8ByteSize ∧ ((ofSource source).position offset).1 = 0x100000000 ∧
      (ofSource source).locate offset = .error .widePlace := by
  have hsize := utf8ByteSize_largest (c := '\n') rfl
  refine ⟨largest '\n', 0xffffffff, by rw [hsize]; decide, hsize.ge, ?_, locate_largest rfl⟩
  rw [position_exact hsize.ge, feedsBefore_largest rfl]
  rfl

/-- A source that is one long line and as large as 32 bits allow has an offset without a column. -/
theorem exists_wide_column : ∃ (source : String) (offset : Nat), source.utf8ByteSize < 0x100000000 ∧
    offset ≤ source.utf8ByteSize ∧ (ofSource source).locate offset ≠
      .ok (feedsBefore source offset + 1, sinceFeed source offset + 1) := by
  have hsize := utf8ByteSize_largest (c := 'a') rfl
  refine ⟨largest 'a', 0xffffffff, by rw [hsize]; decide, hsize.ge, ?_⟩
  rw [locate_largest rfl]
  exact fun heq => nomatch heq

end LineIndex

end HeaderBridge
