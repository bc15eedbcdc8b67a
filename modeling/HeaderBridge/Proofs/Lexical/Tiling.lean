/-
  The tokens of a source tile it. They stand one behind the other, each over whole characters and
  none over no byte, and only the white space of ASCII lies between them. The last one is the end of
  the file, behind all bytes, and no other token is (`tokenize_tiles`).
-/
import HeaderBridge.Proofs.Lexical.Places

namespace HeaderBridge

/-- The bytes of the white space of ASCII: tab, line feed, form feed, carriage return and space. -/
def IsBlankByte (b : UInt8) : Prop := b = 9 ∨ b = 10 ∨ b = 12 ∨ b = 13 ∨ b = 32

/-! ## Bytes and characters -/

variable {source : String}

/-- Between two characters lies a boundary of characters. -/
theorem isValid_of_append {front back : List Char} (h : source.toList = front ++ back) :
    String.Pos.Raw.IsValid source ⟨byteLength front⟩ := by
  refine String.Pos.Raw.isValid_iff_exists_append.mpr ⟨String.ofList front, String.ofList back, ?_, ?_⟩
  · rw [← String.ofList_append, ← h, String.ofList_toList]
  · rw [← utf8ByteSize_ofList]
    rfl

theorem size_utf8Encode (cs : List Char) : cs.utf8Encode.size = byteLength cs := by
  rw [← String.toByteArray_ofList, String.size_toByteArray, utf8ByteSize_ofList]

/-- A character of one byte is the byte at its place. -/
theorem getElem_toByteArray {front back : List Char} {c : Char}
    (h : source.toList = front ++ c :: back) (hc : c.utf8Size = 1)
    (hi : byteLength front < source.toByteArray.size) :
    source.toByteArray[byteLength front] = c.val.toUInt8 := by
  have hbytes : source.toByteArray = front.utf8Encode ++ ([c].utf8Encode ++ back.utf8Encode) := by
    rw [← String.utf8Encode_toList, h, List.utf8Encode_append, List.utf8Encode_cons]
  have hone : [c].utf8Encode = [c.val.toUInt8].toByteArray := by
    rw [List.utf8Encode_singleton, String.utf8EncodeChar_eq_singleton hc]
  have hsize : [c.val.toUInt8].toByteArray.size = 1 := rfl
  have hfront := size_utf8Encode front
  simp only [hbytes, hone]
  rw [ByteArray.getElem_append_right (by omega), ByteArray.getElem_append_left (by omega)]
  simp only [size_utf8Encode, Nat.sub_self]
  rfl

/-- The blanks between tokens are the white space of ASCII. -/
theorem isBlankByte_of_isBlank {c : Char} (h : Unicode.isBlank c = true) :
    c.utf8Size = 1 ∧ IsBlankByte c.val.toUInt8 := by
  unfold Unicode.isBlank at h
  simp only [Bool.or_eq_true, beq_iff_eq] at h
  rcases h with (((rfl | rfl) | rfl) | rfl) | rfl
  all_goals exact ⟨rfl, by unfold IsBlankByte; decide⟩

/-! ## Rows of tokens -/

theorem InOrder.le_start {lower upper : Nat} {ts : List Token} (h : InOrder lower upper ts) :
    ∀ t ∈ ts, lower ≤ t.span.start := by
  induction ts generalizing lower with
  | nil =>
    intro t ht
    cases ht
  | cons u ts ih =>
    intro t ht
    rcases List.mem_cons.mp ht with rfl | ht
    · exact h.1
    · have hbehind := ih h.2.2.2 t ht
      have hfirst := h.1
      have hread := h.2.1
      omega

/-- Tokens in order do not overlap. -/
theorem InOrder.disjoint {lower upper : Nat} {ts : List Token} (h : InOrder lower upper ts) :
    ts.Pairwise fun t u => t.span.stop ≤ u.span.start := by
  induction ts generalizing lower with
  | nil => exact .nil
  | cons t ts ih => exact .cons h.2.2.2.le_start (ih h.2.2.2)

theorem InOrder.start_lt {lower upper : Nat} {ts : List Token} (h : InOrder lower upper ts) :
    ∀ t ∈ ts, t.span.start < t.span.stop := by
  induction ts generalizing lower with
  | nil =>
    intro t ht
    cases ht
  | cons u ts ih => exact List.forall_mem_cons.mpr ⟨h.2.1, ih h.2.2.2⟩

namespace Lexer

/-- The end of the file comes last, and only there. -/
theorem tokensFrom_eq_append (offset : Nat) (cs : List Char) :
    ∃ ts, tokensFrom offset cs = ts ++ [⟨.endOfFile, "", Span.point (offset + byteLength cs)⟩] ∧
      ∀ t ∈ ts, t.kind ≠ .endOfFile := by
  fun_induction tokensFrom offset cs with
  | case1 offset => exact ⟨[], rfl, fun t ht => by cases ht⟩
  | case2 offset c cs _ ih =>
    obtain ⟨ts, he, hts⟩ := ih
    exact ⟨ts, by rw [he, byteLength_cons, Nat.add_assoc], hts⟩
  | case3 offset c cs _ found text stop token ih =>
    obtain ⟨ts, he, hts⟩ := ih
    have hlength : byteLength (c :: cs) = byteLength text + byteLength (cs.drop found.further) := by
      rw [← byteLength_append]
      simp only [text, List.cons_append, List.take_append_drop]
    refine ⟨token :: ts, ?_, List.forall_mem_cons.mpr ⟨fun hkind => ?_, hts⟩⟩
    · rw [he, hlength, ← Nat.add_assoc]
      rfl
    · have hspelt := spelt_scan c cs
      rw [show (scan c cs).kind = .endOfFile from hkind] at hspelt
      exact hspelt

/-- A byte from `offset` on lies in a token or is a blank. -/
theorem tokensFrom_covers (source : String) (offset : Nat) (cs : List Char) :
    ∀ front, source.toList = front ++ cs → offset = byteLength front →
      ∀ i, offset ≤ i → i < offset + byteLength cs →
        (∃ t ∈ tokensFrom offset cs, t.span.start ≤ i ∧ i < t.span.stop) ∨
        ∃ before c after, source.toList = before ++ c :: after ∧ Unicode.isBlank c = true ∧
          i = byteLength before := by
  fun_induction tokensFrom offset cs with
  | case1 offset =>
    intro front _ _ i hi hlt
    exact absurd hlt (Nat.not_lt.mpr hi)
  | case2 offset c cs hblank ih =>
    intro front h ho i hi hlt
    by_cases heq : i = offset
    · exact Or.inr ⟨front, c, cs, h, hblank, heq.trans ho⟩
    · have hone := (isBlankByte_of_isBlank hblank).1
      rw [byteLength_cons] at hlt
      refine ih (front ++ [c]) (by rw [h]; simp) ?_ i (by omega) (by omega)
      rw [byteLength_append, ho]
      simp [byteLength]
  | case3 offset c cs _ found text stop token ih =>
    intro front h ho i hi hlt
    have hcs : text ++ cs.drop found.further = c :: cs := by
      simp only [text, List.cons_append, List.take_append_drop]
    by_cases hin : i < stop
    · exact Or.inl ⟨token, List.mem_cons_self, hi, hin⟩
    · have hlength : byteLength (c :: cs) = byteLength text + byteLength (cs.drop found.further) := by
        rw [← byteLength_append, hcs]
      have hrest := ih (front ++ text) (by rw [h, List.append_assoc, hcs])
        (by rw [byteLength_append, ← ho]) i (Nat.le_of_not_lt hin) (by omega)
      refine hrest.imp_left fun hcovered => ?_
      obtain ⟨t, ht, hspan⟩ := hcovered
      exact ⟨t, List.mem_cons_of_mem token ht, hspan⟩

end Lexer

/-! ## Tiling -/

/-- The tokens of a source are its end of file, which lies behind all of its bytes, and in front of
    that tokens which cover some bytes each, from one boundary of characters to another. They stand
    in the order of the source and do not overlap, and every byte that none of them covers is white
    space of ASCII. No offset is greater than the number of bytes, so that offsets of 32 bits hold
    for every source that is shorter than 2^32. -/
theorem tokenize_tiles (source : String) :
    ∃ tokens, tokenize source = tokens ++ [⟨.endOfFile, "", Span.point source.utf8ByteSize⟩] ∧
      (∀ t ∈ tokens, t.kind ≠ .endOfFile ∧ t.span.start < t.span.stop ∧
        String.Pos.Raw.IsValid source ⟨t.span.start⟩ ∧
        String.Pos.Raw.IsValid source ⟨t.span.stop⟩ ∧ t.span.stop ≤ source.utf8ByteSize) ∧
      tokens.Pairwise (fun t u => t.span.stop ≤ u.span.start) ∧
      ∀ (i : Nat) (hi : i < source.toByteArray.size),
        (∃ t ∈ tokens, t.span.start ≤ i ∧ i < t.span.stop) ∨ IsBlankByte source.toByteArray[i] := by
  obtain ⟨tokens, htokens, hkinds⟩ := Lexer.tokensFrom_eq_append 0 source.toList
  rw [Nat.zero_add, ← utf8ByteSize_eq] at htokens
  have hplaces := Lexer.tokensFrom_atPlace source 0 source.toList [] rfl rfl
  have horder := Lexer.tokensFrom_inOrder 0 source.toList
  -- Without the end of the file these are the tokens in front of it.
  have hfilter : (Lexer.tokensFrom 0 source.toList).filter (·.kind != .endOfFile) = tokens := by
    rw [htokens, List.filter_append, List.filter_eq_self.mpr fun t ht => bne_iff_ne.mpr (hkinds t ht)]
    simp
  rw [hfilter] at horder
  rw [htokens] at hplaces
  refine ⟨tokens, htokens, fun t ht => ?_, horder.disjoint, fun i hi => ?_⟩
  · have hplace := (hplaces t (List.mem_append_left _ ht)).1
    have hle := hplace.stop_le
    obtain ⟨front, back, h, hstart, hstop⟩ := hplace
    refine ⟨hkinds t ht, horder.start_lt t ht, ?_, ?_, hle⟩
    · rw [hstart]
      exact isValid_of_append h
    · rw [hstop, ← byteLength_append]
      exact isValid_of_append (by rw [h, List.append_assoc])
  · rw [String.size_toByteArray, utf8ByteSize_eq] at hi
    rcases Lexer.tokensFrom_covers source 0 source.toList [] rfl rfl i (Nat.zero_le i)
      (by rwa [Nat.zero_add]) with ⟨t, ht, hspan⟩ | ⟨before, c, after, h, hblank, rfl⟩
    · rw [htokens] at ht
      rcases List.mem_append.mp ht with ht | ht
      · exact Or.inl ⟨t, ht, hspan⟩
      · -- The end of the file covers no byte.
        rw [List.mem_singleton.mp ht] at hspan
        exact absurd (Nat.lt_of_le_of_lt hspan.1 hspan.2) (Nat.lt_irrefl _)
    · obtain ⟨hone, hbyte⟩ := isBlankByte_of_isBlank hblank
      rw [getElem_toByteArray h hone]
      exact Or.inr hbyte

end HeaderBridge
