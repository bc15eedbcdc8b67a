/-
  A header that is spelt in the documented grammar is read without errors, and the tree reproduces
  what is spelt: its declarations in order, with their members. The rules build this tree unless
  they break, and reading is total.
-/
import HeaderBridge.Proofs.Header.Declarations
import HeaderBridge.Proofs.Totality.Reading

namespace HeaderBridge

open Rule

theorem isDeclaration_of_isMark {n : Node} (h : n.isMark = true) : n.isDeclaration = false := by
  unfold Node.isMark at h
  unfold Node.isDeclaration
  split
  · next hk => rw [hk] at h; cases h
  · next hk => rw [hk] at h; cases h
  · rfl

/-- The whole of a header is built as it is spelt. -/
theorem Grammar.builds_header {s : ReadState} {ts : List Token} {ds : List Declaration}
    (h : HeaderSpelling ts ds) (hsection : s.inOptional = false) (hs : Halved s.rest ts) :
    Builds header [] (AddsDeclarations ds) s := by
  unfold header
  exact .state (builds_declarations h _ s hsection hs)

/-- The state that the rule of a header ends in becomes the tree of what is spelt. -/
theorem exists_read_of_header_done {source : String} {ts : List Token} {ds : List Declaration}
    {log : DiagnosticLog} {origin : Option String} {s : ReadState}
    (hts : Halved (significant (tokenize source)) ts) (h : Grammar.HeaderSpelling ts ds)
    (hdone : Grammar.header (.start source (tokenize source) log origin) = .done () s) :
    ∃ read, Header.read source log origin = .ok read ∧ read.errors = [] ∧ read.log = log ∧
      read.root.declarations? = some ds := by
  have hbuilds := Grammar.builds_header (s := .start source (tokenize source) log origin) h rfl hts
  obtain ⟨_, cs, hgrown, rfl, hcs⟩ := hbuilds.of_done hdone
  obtain ⟨all, rfl, hopened⟩ := hgrown.opened _ _ rfl
  rw [filter_unmarked fun n hn => isDeclaration_of_isMark hn] at hcs
  let root : Node := ⟨0, .header, some ⟨0, s.sourceLength, Nat.zero_le _⟩, all⟩
  have hread : Header.read source log origin =
      .ok ⟨root, s.errors.toList, directivesOf (tokenize source), s.log⟩ := by
    unfold Header.read ReadState.finish NodeStack.update NodeStack.close
    simp only [hdone, hopened]
    rfl
  have herrors : s.errors.toList = [] := by
    rw [hgrown.errors]
    rfl
  exact ⟨_, hread, herrors, hgrown.log, mapM_eq_some_of_map hcs⟩

/-- A header that is spelt in the grammar has no errors, and its tree holds the declarations that
    are spelt, and no others. Double brackets of the source may close two lists each. -/
theorem read_header_of_spelling {source : String} {ts : List Token} {ds : List Declaration}
    (hts : Halved (significant (tokenize source)) ts) (h : Grammar.HeaderSpelling ts ds)
    (log : DiagnosticLog) (origin : Option String) :
    ∃ read, Header.read source log origin = .ok read ∧ read.errors = [] ∧ read.log = log ∧
      read.root.declarations? = some ds := by
  obtain ⟨_, hdone, _⟩ := exists_header_done source log origin
  exact exists_read_of_header_done hts h hdone

/-- A word that is a type. -/
theorem Grammar.Spelling.ofWord {t : Token} (hkind : t.kind = .identifier) (hid : t.text ≠ "id") :
    Spelling [t] (.named t.text) none := by
  have hplain : plainType t.text = .named t.text := if_neg hid
  have hwords : NameSpelling [t] t.text := .single hkind
  have hspelt := Spelling.plain hwords (.none _ _)
  rwa [hplain] at hspelt

/-- A word with one argument. -/
theorem Grammar.Spelling.ofArgument {t less greater : Token} {ts : List Token} {type : ObjcType}
    (hkind : t.kind = .identifier) (hid : t.text ≠ "id") (hless : less.kind = .less)
    (hfree : startsWithQualifier ts = false) (h : Spelling ts type none)
    (hgreater : greater.kind = .greater) :
    Spelling (t :: less :: (ts ++ [greater])) (.generic t.text [type]) none := by
  have hwords : NameSpelling [t] t.text := .single hkind
  have hled : ∀ a ∈ [(⟨[], ts, type, none⟩ : Argument)], a.Led :=
    List.forall_mem_singleton.mpr ⟨List.forall_mem_nil _, hfree⟩
  exact .generic hwords hid hless hled (List.forall_mem_singleton.mpr h) (.one _) hgreater
    (.none _ _)

/-- A protocol with an optional method, and a class with a superclass and a property whose type
    ends in a double bracket. -/
theorem read_header_of_spelling_double_bracket :
    ∃ read, Header.read
        "@protocol P<Q> @optional -f:(int)x; @end @interface A:B @property C<D<E>>p; @end" =
          .ok read ∧ read.errors = [] ∧ read.log = .empty ∧ read.root.declarations? = some [
        .protocolDeclaration "P" ["Q"] [.method
          ⟨false, none, .keywords [⟨some "f", some ⟨.named "int", none⟩, "x"⟩], true⟩],
        .classInterface "A" (some "B") [] [.property
          ⟨[], ⟨.generic "C" [.generic "D" [.named "E"]], none⟩, "p", false⟩]] := by
  let protocol : List Token := [⟨.atProtocol, "@protocol", ⟨0, 9, by decide⟩⟩,
    ⟨.identifier, "P", ⟨10, 11, by decide⟩⟩, ⟨.less, "<", ⟨11, 12, by decide⟩⟩,
    ⟨.identifier, "Q", ⟨12, 13, by decide⟩⟩, ⟨.greater, ">", ⟨13, 14, by decide⟩⟩,
    ⟨.atOptional, "@optional", ⟨15, 24, by decide⟩⟩, ⟨.minus, "-", ⟨25, 26, by decide⟩⟩,
    ⟨.identifier, "f", ⟨26, 27, by decide⟩⟩, ⟨.colon, ":", ⟨27, 28, by decide⟩⟩,
    ⟨.leftParen, "(", ⟨28, 29, by decide⟩⟩, ⟨.identifier, "int", ⟨29, 32, by decide⟩⟩,
    ⟨.rightParen, ")", ⟨32, 33, by decide⟩⟩, ⟨.identifier, "x", ⟨33, 34, by decide⟩⟩,
    ⟨.semicolon, ";", ⟨34, 35, by decide⟩⟩, ⟨.atEnd, "@end", ⟨36, 40, by decide⟩⟩]
  let front : List Token := [⟨.atInterface, "@interface", ⟨41, 51, by decide⟩⟩,
    ⟨.identifier, "A", ⟨52, 53, by decide⟩⟩, ⟨.colon, ":", ⟨53, 54, by decide⟩⟩,
    ⟨.identifier, "B", ⟨54, 55, by decide⟩⟩, ⟨.atProperty, "@property", ⟨56, 65, by decide⟩⟩,
    ⟨.identifier, "C", ⟨66, 67, by decide⟩⟩, ⟨.less, "<", ⟨67, 68, by decide⟩⟩,
    ⟨.identifier, "D", ⟨68, 69, by decide⟩⟩, ⟨.less, "<", ⟨69, 70, by decide⟩⟩,
    ⟨.identifier, "E", ⟨70, 71, by decide⟩⟩]
  let back : List Token := [⟨.identifier, "p", ⟨73, 74, by decide⟩⟩,
    ⟨.semicolon, ";", ⟨74, 75, by decide⟩⟩, ⟨.atEnd, "@end", ⟨76, 80, by decide⟩⟩]
  let double : Token := ⟨.shiftRight, ">>", ⟨71, 73, by decide⟩⟩
  let first : Token := ⟨.greater, ">", ⟨71, 72, by decide⟩⟩
  let second : Token := ⟨.greater, ">", ⟨72, 73, by decide⟩⟩
  have hhalves : Halves double first second := ⟨rfl, rfl, rfl, rfl, rfl, rfl, rfl, rfl, rfl⟩
  have htokens : significant (tokenize
      "@protocol P<Q> @optional -f:(int)x; @end @interface A:B @property C<D<E>>p; @end") =
        protocol ++ (front ++ double :: back) := by
    cbv
  have hhalved : Halved (protocol ++ (front ++ double :: back))
      (protocol ++ (front ++ first :: second :: back)) :=
    (Halved.refl protocol).append ((Halved.refl front).append (.halve hhalves (.refl back)))
  have hpiece : Grammar.PieceSpelling ((protocol.drop 7).take 6)
      ⟨some "f", some ⟨.named "int", none⟩, "x"⟩ :=
    .labelled (by rfl) (by rfl) (.some (by rfl) (.stated (List.forall_mem_nil _) (by rfl)
      (.ofWord (by rfl) (by decide))) (by rfl)) (by rfl)
  have hprotocol : Grammar.DeclarationSpelling protocol (.protocolDeclaration "P" ["Q"] [.method
      ⟨false, none, .keywords [⟨some "f", some ⟨.named "int", none⟩, "x"⟩], true⟩]) :=
    .protocolDeclaration (by rfl) (by rfl)
      (.list (by rfl) (List.forall_mem_singleton.mpr (by rfl)) (.one _) (by rfl))
      (.optional rfl (by rfl) (.member (.method (.method true (Or.inr (by rfl)) .none
        (.keywords (List.cons_ne_nil _ _) ((List.forall_mem_singleton (a := (_, _))).mpr hpiece))
        (by rfl))) (.done true))) (by rfl)
  have hclass : Grammar.DeclarationSpelling (front ++ first :: second :: back)
      (.classInterface "A" (some "B") [] [.property
        ⟨[], ⟨.generic "C" [.generic "D" [.named "E"]], none⟩, "p", false⟩]) :=
    .classInterface (by rfl) (by rfl) (.some (by rfl) (by rfl)) .none
      (.member (.property (.property false (by rfl) .none (.stated (List.forall_mem_nil _) (by rfl)
        (.ofArgument (by rfl) (by decide) (by rfl) (by rfl) (.ofArgument (by rfl) (by decide)
          (by rfl) (by rfl) (.ofWord (by rfl) (by decide)) (by rfl)) (by rfl)))
        ⟨by rfl, by rfl, by decide⟩ (by rfl))) (.done false)) (by rfl)
  have hlast := Grammar.HeaderSpelling.declaration hclass .done
  rw [List.append_nil] at hlast
  rw [← htokens] at hhalved
  exact read_header_of_spelling hhalved (.declaration hprotocol hlast) .empty none

end HeaderBridge
