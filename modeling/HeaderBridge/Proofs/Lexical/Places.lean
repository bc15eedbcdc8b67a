/-
  Where the tokens of a source lie. They stand in order and none is empty, each one is the text of
  its own bytes (`atPlace_of_mem`), and so is each half of a double angle bracket. What stands
  between the quotes of a literal is cut out at whole characters (`slice_insideQuotes`).
-/
import HeaderBridge.Objc.Parse
import HeaderBridge.Proofs.Lexical.Spelling
import HeaderBridge.Proofs.Reading.Passage

namespace HeaderBridge

/-! ## Counting bytes -/

theorem byteLength_append (cs ds : List Char) :
    byteLength (cs ++ ds) = byteLength cs + byteLength ds := by
  unfold byteLength
  rw [List.map_append, List.sum_append_nat]

theorem byteLength_cons (c : Char) (cs : List Char) :
    byteLength (c :: cs) = c.utf8Size + byteLength cs := rfl

theorem utf8ByteSize_ofList (cs : List Char) :
    (String.ofList cs).utf8ByteSize = byteLength cs := by
  induction cs with
  | nil => rfl
  | cons c cs ih =>
    rw [← List.singleton_append, String.ofList_append, String.utf8ByteSize_append, ih]
    simp [byteLength]

theorem utf8ByteSize_eq (s : String) : s.utf8ByteSize = byteLength s.toList := by
  rw [← utf8ByteSize_ofList, String.ofList_toList]

namespace Span

theorem splitAtByte_append (front back : List Char) :
    splitAtByte (byteLength front) (front ++ back) = some (front, back) := by
  induction front with
  | nil =>
    rw [show byteLength [] = 0 from rfl]
    unfold splitAtByte
    rfl
  | cons c front ih =>
    have hc := c.utf8Size_pos
    obtain ⟨n, hn⟩ : ∃ n, byteLength (c :: front) = n + 1 :=
      ⟨byteLength (c :: front) - 1, by rw [byteLength_cons]; omega⟩
    have he : n + 1 - c.utf8Size = byteLength front := by
      rw [← hn, byteLength_cons]
      omega
    have hle : c.utf8Size ≤ n + 1 := by
      rw [← hn, byteLength_cons]
      omega
    rw [hn, List.cons_append]
    unfold splitAtByte
    rw [if_pos hle, he, ih]
    rfl

/-- A span from the end of some characters to the end of the next ones cuts the latter out. -/
theorem slice_of_append {source : String} {front part back : List Char} {span : Span}
    (h : source.toList = front ++ (part ++ back)) (hstart : span.start = byteLength front)
    (hstop : span.stop = byteLength front + byteLength part) :
    span.slice source = .ok (String.ofList part) := by
  have hlen : span.length = byteLength part := by
    unfold length
    omega
  unfold slice
  rw [hstart, h, splitAtByte_append]
  simp only []
  rw [hlen, splitAtByte_append]

end Span

/-! ## Tokens at their places -/

/-- The text of the token is the text of its bytes in the source. -/
def Token.AtPlace (source : String) (t : Token) : Prop :=
  ∃ front back, source.toList = front ++ (t.text.toList ++ back) ∧
    t.span.start = byteLength front ∧ t.span.stop = byteLength front + byteLength t.text.toList

namespace Token.AtPlace

variable {source : String} {t a b : Token}

theorem slice (h : t.AtPlace source) : t.span.slice source = .ok t.text := by
  obtain ⟨front, back, he, hstart, hstop⟩ := h
  rw [Span.slice_of_append he hstart hstop, String.ofList_toList]

theorem stop_le (h : t.AtPlace source) : t.span.stop ≤ source.utf8ByteSize := by
  obtain ⟨front, back, he, _, hstop⟩ := h
  rw [utf8ByteSize_eq, he, byteLength_append, byteLength_append]
  omega

/-- The halves of a double bracket are at their places if it is. -/
theorem halves (h : t.AtPlace source) (ht : t.text = ">>") (hv : Halves t a b) :
    a.AtPlace source ∧ b.AtPlace source := by
  obtain ⟨front, back, he, hstart, hstop⟩ := h
  rw [ht] at he hstop
  have e₁ := hv.first_start
  have e₂ := hv.first_stop
  have e₃ := hv.second_start
  have e₄ := hv.second_stop
  have hone : byteLength ">".toList = 1 := rfl
  have htwo : byteLength ">>".toList = 2 := rfl
  refine ⟨⟨front, '>' :: back, ?_, ?_, ?_⟩, ⟨front ++ ['>'], back, ?_, ?_, ?_⟩⟩
  · rw [he, hv.first_text]
    rfl
  · omega
  · rw [hv.first_text]
    omega
  · rw [he, hv.second_text, List.append_assoc]
    rfl
  · rw [byteLength_append, show byteLength ['>'] = 1 from rfl]
    omega
  · rw [byteLength_append, hv.second_text, show byteLength ['>'] = 1 from rfl]
    omega

end Token.AtPlace

namespace Lexer

/-- The tokens of the end of a source whose first character lies at `offset`. -/
theorem tokensFrom_atPlace (source : String) (offset : Nat) (cs : List Char) :
    ∀ front, source.toList = front ++ cs → offset = byteLength front →
      ∀ t ∈ tokensFrom offset cs, t.AtPlace source ∧
        (t.kind = .endOfFile ∨ Spelt t.kind t.text.toList) := by
  fun_induction tokensFrom offset cs with
  | case1 offset =>
    intro front h ho t ht
    rw [List.mem_singleton.mp ht]
    refine ⟨⟨front, [], by simpa using h, ho, ?_⟩, Or.inl rfl⟩
    rw [← ho]
    rfl
  | case2 offset c cs _ ih =>
    intro front h ho
    refine ih (front ++ [c]) (by rw [h]; simp) ?_
    rw [byteLength_append, ho]
    simp [byteLength]
  | case3 offset c cs _ found text stop token ih =>
    intro front h ho t ht
    have hcs : text ++ cs.drop found.further = c :: cs := by
      simp only [text, List.cons_append, List.take_append_drop]
    rcases List.mem_cons.mp ht with rfl | ht
    · refine ⟨⟨front, cs.drop found.further, ?_, ho, ?_⟩, Or.inr ?_⟩
      · simp only [token, String.toList_ofList]
        rw [h, hcs]
      · simp only [token, String.toList_ofList, stop]
        rw [ho]
      · simp only [token, String.toList_ofList]
        exact spelt_scan c cs
    · refine ih (front ++ text) (by rw [h, List.append_assoc, hcs]) ?_ t ht
      rw [byteLength_append, ← ho]

theorem tokensFrom_inOrder (offset : Nat) (cs : List Char) :
    InOrder offset (offset + byteLength cs)
      ((tokensFrom offset cs).filter (·.kind != .endOfFile)) := by
  fun_induction tokensFrom offset cs with
  | case1 offset => exact Nat.le_refl _
  | case2 offset c cs _ ih =>
    rw [byteLength_cons, ← Nat.add_assoc]
    exact ih.of_le (Nat.le_add_right _ _)
  | case3 offset c cs _ found text stop token ih =>
    have hlen : byteLength text + byteLength (cs.drop found.further) = byteLength (c :: cs) := by
      rw [← byteLength_append]
      simp only [text, List.cons_append, List.take_append_drop]
    have hpos : 0 < byteLength text := by
      have := c.utf8Size_pos
      rw [byteLength_cons]
      omega
    have hspelt := spelt_scan c cs
    have hkind : (token.kind != .endOfFile) = true := by
      rw [bne_iff_ne]
      intro h
      change Spelt token.kind _ at hspelt
      rw [h] at hspelt
      exact hspelt
    rw [List.filter_cons, if_pos hkind]
    refine ⟨Nat.le_refl offset, Nat.lt_add_of_pos_right hpos, fun h => ?_, ?_⟩
    · change Spelt token.kind text at hspelt
      rw [h] at hspelt
      change offset + byteLength text = offset + 2
      rw [show text = ['>', '>'] from hspelt]
      rfl
    · rw [← hlen, ← Nat.add_assoc]
      exact ih

end Lexer

/-! ## The tokens of a source -/

variable {source : String}

theorem spelt_of_mem {t : Token} (h : t ∈ tokenize source) :
    t.kind = .endOfFile ∨ Spelt t.kind t.text.toList :=
  (Lexer.tokensFrom_atPlace source 0 source.toList [] rfl rfl t h).2

/-- Tokens of a source are at their places, and so is every half of one. -/
theorem Halved.atPlace {ts us : List Token} (h : Halved ts us)
    (hts : ∀ t ∈ ts, t ∈ tokenize source) : ∀ t ∈ us, t.AtPlace source := by
  induction h with
  | nil =>
    intro t ht
    cases ht
  | keep u _ ih =>
    obtain ⟨hu, hts⟩ := List.forall_mem_cons.mp hts
    have hplace := (Lexer.tokensFrom_atPlace source 0 source.toList [] rfl rfl u hu).1
    exact List.forall_mem_cons.mpr ⟨hplace, ih hts⟩
  | @halve _ _ u a b hv _ ih =>
    obtain ⟨hu, hts⟩ := List.forall_mem_cons.mp hts
    have hplace := (Lexer.tokensFrom_atPlace source 0 source.toList [] rfl rfl u hu).1
    have htext : u.text = ">>" := by
      rcases spelt_of_mem hu with hk | hk
      · rw [hv.kind] at hk
        cases hk
      · rw [hv.kind] at hk
        rw [← String.ofList_toList (s := u.text), show u.text.toList = ['>', '>'] from hk]
    obtain ⟨ha, hb⟩ := hplace.halves htext hv
    exact List.forall_mem_cons.mpr ⟨ha, List.forall_mem_cons.mpr ⟨hb, ih hts⟩⟩

theorem atPlace_of_halved {us : List Token} (h : Halved (tokenize source) us) :
    ∀ t ∈ us, t.AtPlace source :=
  h.atPlace fun _ ht => ht

/-- The tokens of a source that the grammar sees lie in order inside the source. -/
theorem within_start (source : String) (log : DiagnosticLog) (origin : Option String) :
    (ReadState.start source (tokenize source) log origin).Within := by
  have hall := Lexer.tokensFrom_inOrder 0 source.toList
  rw [Nat.zero_add, ← utf8ByteSize_eq] at hall
  have hsig := hall.filter fun t => t.kind != .comment && t.kind != .directive
  rw [List.filter_filter] at hsig
  change InOrder 0 source.utf8ByteSize (significant (tokenize source))
  unfold significant
  exact hsig

/-- In front of a source a parser is in a sound state. -/
theorem sound_start (source : String) (log : DiagnosticLog) (origin : Option String) :
    (ReadState.start source (tokenize source) log origin).Sound :=
  ⟨⟨_, within_start source log origin⟩, Nat.one_pos⟩

/-! ## Inside quotes -/

/-- The bytes of a literal between its quotes. -/
def insideQuotes (text : String) : Except Fault Span :=
  Span.between (if text.toList.head? = some '@' then 2 else 1) (text.utf8ByteSize - 1)

/-- The bytes between the quotes of a literal are whole characters, those that count. -/
theorem slice_insideQuotes {quote : Char} {text : String} (h : InQuotes quote text.toList)
    (hq : quote.utf8Size = 1) (ha : quote ≠ '@') :
    ∃ span, insideQuotes text = .ok span ∧ span.slice text = .ok (Grammar.unquoted text) := by
  obtain ⟨sign, body, hsign, htext⟩ := h
  have hquote : byteLength [quote] = 1 := by simp [byteLength, hq]
  have hsize : text.utf8ByteSize = byteLength sign + 1 + byteLength body + 1 := by
    rw [utf8ByteSize_eq, htext, byteLength_append, byteLength_cons, byteLength_append, hquote, hq]
    omega
  have hbody : Grammar.unquoted text = String.ofList body := by
    rw [← Grammar.toList_unquoted ha hsign htext, String.ofList_toList]
  have hfirst : (if text.toList.head? = some '@' then 2 else 1) = byteLength sign + 1 := by
    rw [htext]
    rcases hsign with rfl | rfl
    · simp [ha, byteLength]
    · rfl
  have hle : byteLength sign + 1 ≤ byteLength sign + 1 + byteLength body + 1 - 1 := by omega
  refine ⟨⟨byteLength sign + 1, byteLength sign + 1 + byteLength body + 1 - 1, hle⟩, ?_, ?_⟩
  · unfold insideQuotes Span.between
    rw [hfirst, hsize, dif_pos hle]
  · rw [hbody]
    have hfront : byteLength (sign ++ [quote]) = byteLength sign + 1 := by
      rw [byteLength_append, hquote]
    have he : text.toList = (sign ++ [quote]) ++ (body ++ [quote]) := by
      rw [htext, List.append_assoc]
      rfl
    refine Span.slice_of_append he hfront.symm ?_
    rw [hfront]
    rfl

end HeaderBridge
