/-
  Declarations that are spelt in the documented grammar, piece by piece: each of them is read without
  an error, and up to what stands behind it. So the places that the theorems on broken members speak
  of are there wherever the grammar has a place between members (`LeadsInto.of_spelling`), and what
  the grammar has for a declaration is a whole one (`WholeDeclaration.ofSpelling`).
-/
import HeaderBridge.Proofs.Header.Declarations
import HeaderBridge.Proofs.Recovery.MissingEnd

namespace HeaderBridge.Grammar

open Rule

variable {s : ReadState} {ts us : List Token} {d : Declaration} {ds : List Declaration}

/-! ## One declaration -/

theorem declaration_isProtocol (d : Declaration) : declaration d.isProtocol =
    if d.isProtocol then protocolDeclaration else classInterface := by
  cases d <;> rfl

theorem declaration_safeAt {inProtocol : Bool} (hs : s.Sound)
    (hc : s.current = if inProtocol then .atProtocol else .atInterface) :
    SafeAt (declaration inProtocol) s := by
  cases inProtocol with
  | false => exact (classInterface_onwardAt hs hc).safeAt
  | true => exact (protocolDeclaration_onwardAt hs hc).safeAt

/-- A parser that may start on a declaration. -/
structure Starts (s : ReadState) : Prop where
  sound : s.Sound
  section_done : s.inOptional = false

/-- A declaration is read without an error and up to what stands behind it. -/
theorem DeclarationSpelling.exists_done (h : DeclarationSpelling ts d) (hs : Starts s)
    (hrow : Halved s.rest (ts ++ us)) :
    ∃ t, declaration d.isProtocol s = .done () t ∧ Starts t ∧ Halved t.rest us ∧
      t.errors = s.errors := by
  have hbuilds := builds_declaration h hs.section_done hrow
  rw [← declaration_isProtocol] at hbuilds
  rcases (declaration_safeAt hs.sound (h.starts hrow).1).cases with
    ⟨_, t, hdone, hpassage⟩ | ⟨_, _, hfailed, _⟩
  · obtain ⟨_, _, hgrown, _⟩ := hbuilds.of_done hdone
    exact ⟨t, hdone, ⟨hpassage.sound hs.sound, hgrown.inOptional.trans hs.section_done⟩,
      hgrown.rest, hgrown.errors⟩
  · exact (hbuilds.of_failed hfailed).elim

/-- A declaration opens a body. -/
theorem Opens.of_spelling (h : DeclarationSpelling ts d) (hs : Starts s)
    (hrow : Halved s.rest ts) : Opens d.isProtocol s := by
  rw [← List.append_nil ts] at hrow
  obtain ⟨hdirective, hname, hthird⟩ := h.starts hrow
  obtain ⟨t, hdone, _, hrest, herrors⟩ := h.exists_done hs hrow
  exact ⟨hdirective, hname, fun _ => hthird, t, hdone, hrest.of_nil, herrors⟩

/-! ## Headers -/

/-- The loop over declarations comes to what stands behind a header. -/
theorem HeaderSpelling.exists_comesTo (h : HeaderSpelling ts ds) (hs : Starts s)
    (hrow : Halved s.rest (ts ++ us)) : ∃ t, ComesTo s t ∧ Starts t ∧ Halved t.rest us := by
  induction h generalizing s with
  | done => exact ⟨s, .refl s, hs, hrow⟩
  | @declaration ts rest d ds hfirst _ ih =>
    rw [List.append_assoc] at hrow
    obtain ⟨hdirective, _, hthird⟩ := hfirst.starts hrow
    obtain ⟨t, hdone, ht, hrest, _⟩ := hfirst.exists_done hs hrow
    obtain ⟨u, hcomes, hu⟩ := ih ht hrest
    refine ⟨u, .round (by rw [hdirective]; cases d.isProtocol <;> decide) ?_ hcomes, hu⟩
    rw [declarationRound_of_directive hdirective fun _ => isForwardProtocol_eq_false hthird]
    unfold recoverDeclaration
    rw [hdone]

/-! ## Rows of tokens -/

variable {upper : Nat}

theorem starts_before (h : InOrder 0 upper ts) : Starts (before ts) :=
  ⟨⟨⟨upper, h⟩, Nat.one_pos⟩, rfl⟩

/-- Behind some declarations, and behind some members of one more, a row leads into the body of this
    one. -/
theorem LeadsInto.of_spelling {front body : List Token} {last close : Token}
    (hfront : HeaderSpelling front ds) (h : DeclarationSpelling (body ++ [close]) d)
    (hlast : last.kind = .atEnd) (hrow : Halved (ts ++ [last]) (front ++ (body ++ [close])))
    (hts : InOrder 0 upper (ts ++ [last])) : LeadsInto d.isProtocol ts := by
  obtain ⟨s, hcomes, hs, hrest⟩ := hfront.exists_comesTo (starts_before hts) hrow
  exact ⟨last, s, hlast, hcomes, .of_spelling h hs hrest⟩

/-- A declaration that is spelt, as a whole one. -/
def WholeDeclaration.ofSpelling {front : List Token} {close : Token} (hclose : close.kind = .atEnd)
    (h : DeclarationSpelling us d) (hrow : Halved (front ++ [close]) us)
    (hts : InOrder 0 upper (front ++ [close])) : WholeDeclaration :=
  ⟨d.isProtocol, front, close, hclose, .of_spelling h (starts_before hts) hrow⟩

end HeaderBridge.Grammar
