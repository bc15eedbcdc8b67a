/-
  A group in front of a subscript, and a group as the receiver of a message. In both places a
  parenthesis is tried as a cast first, since an opening bracket and a name may start the operand of
  one. If what stands in the parentheses is no type, the try comes to nothing, and the group is
  found. If it is a type, the try is never undone: the bracket is read as a message that has no
  selector, and the name as the operand, behind which the message has none.
-/
import HeaderBridge.Proofs.Enclosing.Sources
import HeaderBridge.Proofs.Lexical.Joining

namespace HeaderBridge

open ReadState (kindOf Shuts)

/-- A row of the source between two tokens of certain kinds. -/
structure Delimited (first last : TokenKind) (source : String) (opening : Token) (row : List Token)
    (closing : Token) : Prop where
  opening_kind : opening.kind = first
  row_of : IsRowOf source row
  closing_kind : closing.kind = last

namespace Grammar

open Rule

section Groups

variable {s : ReadState} {source : String} {e : ObjcExpr} {row more : List Token}
  {opening closing : Token}

/-- The rule for operands, where the kind of the next token is known. -/
theorem ends_operand {B : Prop} {expr : Nat → Rule ObjcExpr} {kind : TokenKind}
    {Q : ObjcExpr → ReadState → Prop} {E : SyntaxError → ReadState → Prop} (hc : s.current = kind)
    (h : Ends B (operandOf expr kind s.currentText) s Q E) : Ends B (operand expr) s Q E := by
  rw [operand_eq]
  refine ends_bind.mpr (ends_state.mpr ?_)
  rwa [hc]

/-! ## Trying a cast -/

/-- Whether a type in parentheses is taken for a cast in front of a token of a kind. -/
def TakesCast (type : ObjcType) (kind : TokenKind) : Prop :=
  startsOperand kind = true ∨ (kind = .plus ∨ kind = .minus) ∧ castsSigned type = true

theorem takesCast_iff {type : ObjcType} {kind : TokenKind} :
    (startsOperand kind || ((kind == .plus || kind == .minus) && castsSigned type)) = true ↔
      TakesCast type kind := by
  simp [TakesCast]

/-- The token behind a type in parentheses decides whether it is a cast. -/
theorem exists_castType {type : ObjcType} (htype : ReadsAs source type)
    (hgroup : Delimited .leftParen .rightParen source opening row closing) (hs : s.Ready)
    (hr : s.rest = opening :: (row ++ closing :: more)) :
    ∃ front, Halved row front ∧
      (TakesCast type (kindOf more) → Yields castType type (opening :: (front ++ [closing])) more
        { s with speculating := true }) ∧
      (¬ TakesCast type (kindOf more) → Fails castType { s with speculating := true }) := by
  have hs₁ : (s.past [opening] (row ++ closing :: more)).Ready := hs.past_cons hr
  obtain ⟨name, front, rfl, hhalved, _, hname⟩ :=
    typeName_yields htype hgroup.row_of hs₁ rfl (.inl hgroup.closing_kind)
  have hopen := Yields.advance (s := { s with speculating := true }) hr
  refine ⟨front, hhalved, fun htakes => ?_, fun hno => ?_⟩ <;> unfold castType <;>
    refine ends_bind.mpr (hopen.ends (ends_bind.mpr (Yields.ends hname (ends_bind.mpr ?_)))) <;>
    refine (Yields.expect _ hgroup.closing_kind rfl).ends (ends_bind.mpr (ends_state.mpr ?_)) <;>
    rw [ReadState.past_current]
  · refine ends_ite.mpr ⟨fun _ => ⟨rfl, ?_⟩, fun h => absurd (takesCast_iff.mpr htakes) h⟩
    simp [ReadState.past]
  · exact ends_ite.mpr ⟨fun h => absurd (takesCast_iff.mp h) hno, fun _ => trivial⟩

/-- A type in parentheses is taken for a cast if something follows that starts an operand. -/
theorem attempt_castType_yields {type : ObjcType} (htype : ReadsAs source type)
    (hgroup : Delimited .leftParen .rightParen source opening row closing) (hs : s.Ready)
    (hmore : TakesCast type (kindOf more)) (hr : s.rest = opening :: (row ++ closing :: more)) :
    ∃ front, Halved row front ∧
      Yields (attempt castType) (some type) (opening :: (front ++ [closing])) more s := by
  obtain ⟨front, hhalved, hcast, -⟩ := exists_castType htype hgroup hs hr
  exact ⟨front, hhalved, attempt_leadsTo (hcast hmore)⟩

/-- What is no type in parentheses is given back as it was. -/
theorem attempt_castType_none (htype : ¬ ReadsAsType source)
    (hdouble : ¬ MeetsDouble (significant (tokenize source)))
    (hgroup : Delimited .leftParen .rightParen source opening row closing)
    {halves : List Token} (hhalved : Halved row halves) (hbalanced : Balanced halves)
    (hs : s.Ready) (hr : s.rest = opening :: (row ++ closing :: more)) :
    LeadsTo (attempt castType) none s s := by
  have hs₁ : (s.past [opening] (row ++ closing :: more)).Ready := hs.past_cons hr
  obtain ⟨front, rest, rfl, hstop⟩ :=
    typeName_stops htype hdouble hgroup.row_of hs₁ rfl (.inl hgroup.closing_kind)
  have hrefuses : Refuses castType ((ReadState.past { s with speculating := true } [opening]
      (front ++ rest ++ closing :: more)).past front (rest ++ closing :: more))
      { s with speculating := true } := by
    have hopen := Yields.advance (s := { s with speculating := true }) hr
    unfold castType
    refine ends_bind.mpr (hopen.ends ?_)
    rcases hstop with hstop | ⟨hne, hfront, name, hname⟩
    · exact Refuses.bind hstop _
    · obtain ⟨u, rest, rfl⟩ := List.exists_cons_of_ne_nil hne
      -- A parenthesis behind the type would be closed without being opened.
      have hu : u.kind ≠ .rightParen := by
        intro hu
        obtain ⟨front', rest', rfl, hfront'⟩ := hhalved.of_append_left (by rw [hu]; decide)
        refine Balanced.not_append_closing (fun t ht hk => ?_) hu hbalanced
        have hmem := (hfront'.mem_iff_of_kind hk (by decide)).mp ht
        exact hfront.kind_ne t hmem (by rw [hk]; decide)
      refine ends_bind.mpr (Yields.ends hname (ends_bind.mpr ?_))
      exact ends_expect.mpr ⟨fun h => absurd h hu, fun _ => rfl⟩
  rw [ReadState.past_past] at hrefuses
  have hnone := attempt_leadsTo_none hrefuses
  rwa [show { s with rest := [opening] ++ front ++ (rest ++ closing :: more) } = s by
    rw [List.append_assoc, ← List.append_assoc front, List.singleton_append, ← hr]] at hnone

/-! ## Groups -/

/-- An expression in parentheses that is no type is a group, whatever follows. -/
theorem operand_yields_group (hread : ObjcExpr.read source = .ok (.ok e))
    (htype : ¬ ReadsAsType source) (hdouble : ¬ MeetsDouble (significant (tokenize source)))
    (hgroup : Delimited .leftParen .rightParen source opening row closing) (hs : s.Ready)
    (hr : s.rest = opening :: (row ++ closing :: more)) :
    ∃ front, Halved row front ∧ ∀ fuel, Yields (operand (expressionFrom fuel)) (.paren e)
      (opening :: (front ++ [closing])) more s := by
  have hs₁ : (s.past [opening] (row ++ closing :: more)).Ready := hs.past_cons hr
  obtain ⟨front, hhalved, hfront, hinner⟩ :=
    expressionFrom_yields hread hgroup.row_of hs₁ rfl (.inl hgroup.closing_kind)
  refine ⟨front, hhalved, fun fuel => ?_⟩
  have hnone := attempt_castType_none htype hdouble hgroup hhalved hfront.1 hs hr
  refine ends_operand ((ReadState.current_of_cons hr).trans hgroup.opening_kind) ?_
  refine ends_bind.mpr (hnone.ends (ends_bind.mpr ((Yields.advance hr).ends (ends_bind.mpr ?_))))
  refine (hinner fuel).ends (ends_bind.mpr ?_)
  refine (Yields.expect _ hgroup.closing_kind rfl).ends ⟨rfl, ?_⟩
  simp [ReadState.past]

/-! ## Around the group -/

variable {i : ObjcExpr} {index : String} {inner : List Token} {bracket name closer : Token}

/-- Where the loop stops, it leaves the operand as it is. -/
theorem extended_leadsTo {expr : Nat → Rule ObjcExpr} {power : Nat} (fuel : Nat)
    (hstops : Stops power s.rest) : LeadsTo (extended expr power fuel e) e s s := by
  cases fuel with
  | zero => trivial
  | succ fuel =>
    refine ends_extended.mpr ?_
    rw [round_eq_none_iff.mpr hstops]
    exact ⟨rfl, rfl⟩

/-- An operand behind which the loop stops is the whole expression. -/
theorem expressionFrom_yields_of_operand {power : Nat} {front us : List Token}
    (hoperand : ∀ fuel, Yields (operand (expressionFrom fuel)) e front us s)
    (hstops : Stops power us) (fuel : Nat) : Yields (expressionFrom fuel power) e front us s := by
  cases fuel with
  | zero => trivial
  | succ fuel =>
    unfold expressionFrom
    refine ends_bind.mpr ((hoperand fuel).ends (ends_bind.mpr (ends_state.mpr ?_)))
    exact extended_leadsTo _ hstops

/-- The index behind a group or a type in parentheses is found. -/
theorem index_yields {group : List Token} (hindex : ObjcExpr.read index = .ok (.ok i))
    (hinner : Delimited .leftBracket .rightBracket index bracket inner closer) (hs : s.Ready)
    (hhalved : Halved row group)
    (hr : s.rest = opening :: (row ++ closing :: bracket :: (inner ++ [closer]))) :
    ∃ front, ∀ fuel, Yields (expressionFrom fuel 0) i front [closer]
      ((s.past (opening :: (group ++ [closing])) (bracket :: (inner ++ [closer]))).past [bracket]
        (inner ++ [closer])) := by
  have hrow : Halved s.rest
      (opening :: (group ++ [closing]) ++ bracket :: (inner ++ [closer])) := by
    rw [hr, List.cons_append, List.append_assoc]
    exact .keep opening (hhalved.append (.refl _))
  obtain ⟨front, _, _, hvalue⟩ := expressionFrom_yields hindex hinner.row_of
    ((hs.past hrow).past_cons rfl) rfl (.inr hinner.closing_kind)
  exact ⟨front, hvalue⟩

/-- A group with a subscript. -/
theorem subscript_yields (hread : ObjcExpr.read source = .ok (.ok e))
    (hindex : ObjcExpr.read index = .ok (.ok i)) (htype : ¬ ReadsAsType source)
    (hdouble : ¬ MeetsDouble (significant (tokenize source)))
    (hgroup : Delimited .leftParen .rightParen source opening row closing)
    (hinner : Delimited .leftBracket .rightBracket index bracket inner closer) (hs : s.Ready)
    (hr : s.rest = opening :: (row ++ closing :: bracket :: (inner ++ [closer]))) :
    ∃ front, ∀ fuel, Yields (expressionFrom fuel 0) (.subscript (.paren e) i) front [] s := by
  obtain ⟨group, hhalved, hparen⟩ := operand_yields_group hread htype hdouble hgroup hs hr
  obtain ⟨front, hvalue⟩ := index_yields hindex hinner hs hhalved hr
  refine ⟨opening :: (group ++ [closing]) ++ bracket :: (front ++ [closer]), fun fuel => ?_⟩
  cases fuel with
  | zero => trivial
  | succ fuel =>
    have hround : Yields (do
        let _ ← Rule.advance
        let index ← expressionFrom fuel 0
        let _ ← Rule.expect .rightBracket .subscriptEnd
        return ObjcExpr.subscript (.paren e) index) (.subscript (.paren e) i)
        (bracket :: (front ++ [closer])) []
        (s.past (opening :: (group ++ [closing])) (bracket :: (inner ++ [closer]))) := by
      refine ends_bind.mpr ((Yields.advance rfl).ends (ends_bind.mpr ((hvalue fuel).ends ?_)))
      refine ends_bind.mpr ((Yields.expect _ hinner.closing_kind rfl).ends ⟨rfl, ?_⟩)
      simp
    unfold expressionFrom
    refine ends_bind.mpr ((hparen fuel).ends (ends_bind.mpr (ends_state.mpr ?_)))
    refine ends_extended.mpr ?_
    rw [ReadState.past_current, ReadState.kindOf_cons, hinner.opening_kind]
    refine hround.ends ?_
    rw [ReadState.past_past]
    exact extended_leadsTo _ (.of_none rfl rfl)

/-- A group that a message is sent to. -/
theorem message_yields_group (hread : ObjcExpr.read source = .ok (.ok e))
    (htype : ¬ ReadsAsType source) (hdouble : ¬ MeetsDouble (significant (tokenize source)))
    (hgroup : Delimited .leftParen .rightParen source opening row closing) (hs : s.Ready)
    (hbracket : bracket.kind = .leftBracket) (hname : name.kind = .identifier)
    (hcloser : closer.kind = .rightBracket)
    (hr : s.rest = bracket :: opening :: (row ++ closing :: name :: [closer])) :
    ∃ front, ∀ fuel,
      Yields (expressionFrom fuel 0) (.message (.paren e) name.text []) front [] s := by
  have hbehind : (s.past [bracket] (opening :: (row ++ closing :: name :: [closer]))).Ready :=
    hs.past_cons hr
  obtain ⟨group, _, hparen⟩ := operand_yields_group hread htype hdouble hgroup hbehind rfl
  have hstops : Stops 0 [name, closer] :=
    (Closes.of_cons (by rw [hname]; decide) [closer]).spec.1 0
  have hreceiver := expressionFrom_yields_of_operand hparen hstops
  have hmessage : ∀ fuel, Yields (operand (expressionFrom fuel)) (.message (.paren e) name.text [])
      (bracket :: (opening :: (group ++ [closing]) ++ [name, closer])) [] s := fun fuel =>
    operand_yields_message hbracket hr (message_yields_plain hr (hreceiver fuel) hname hcloser)
  exact ⟨_, expressionFrom_yields_of_operand hmessage (.of_none rfl rfl)⟩

/-! ## A type instead of the group -/

/-- Behind a receiver a closing bracket is no selector. -/
theorem message_fails {expr : Nat → Rule ObjcExpr}
    (hreceiver : Ends True (expr 0) s.advance (fun _ t => t.current = .rightBracket)
      fun _ _ => True) : Fails (message expr) s := by
  unfold message
  refine ends_bind.mpr (ends_advance.mpr (ends_bind.mpr ?_))
  refine hreceiver.mono (fun _ t ht => ends_bind.mpr ?_) fun _ _ _ => trivial
  refine ends_identifier.mpr ⟨fun h => ?_, fun _ => trivial⟩
  rw [ht] at h
  cases h

/-- In front of a closing bracket an expression stops, and so does the one around its operand. -/
theorem ends_expressionFrom_closer {fuel power : Nat} {Q : ReadState → Prop}
    (hQ : ∀ t, Q t → t.current = .rightBracket)
    (hoperand : Ends True (operand (expressionFrom fuel)) s (fun _ t => Q t) fun _ _ => True) :
    Ends True (expressionFrom (fuel + 1) power) s (fun _ t => Q t) fun _ _ => True := by
  unfold expressionFrom
  refine ends_bind.mpr (hoperand.mono (fun e t ht => ?_) fun _ _ _ => trivial)
  refine ends_bind.mpr (ends_state.mpr ((extended_leadsTo _ ?_).ends ht))
  refine .of_none ?_ ?_ <;> rw [show kindOf t.rest = .rightBracket from hQ t ht] <;> rfl

/-- A cast goes as far as its operand. -/
theorem ends_expressionFrom_cast {type : ObjcType} {front us : List Token} {Q : ReadState → Prop}
    (hQ : ∀ t, Q t → t.current = .rightBracket) (hc : s.current = .leftParen)
    (hcast : Yields (attempt castType) (some type) front us s)
    (hoperand : ∀ fuel, Ends True (expressionFrom fuel unaryPower) (s.past front us)
      (fun _ t => Q t) fun _ _ => True) (fuel power : Nat) :
    Ends True (expressionFrom fuel power) s (fun _ t => Q t) fun _ _ => True := by
  cases fuel with
  | zero => trivial
  | succ fuel =>
    refine ends_expressionFrom_closer hQ (ends_operand hc ?_)
    refine ends_bind.mpr (hcast.ends (ends_bind.mpr ?_))
    exact (hoperand fuel).mono (fun _ _ h => h) fun _ _ _ => trivial

/-- A word in front of a closing bracket is an operand, or `sizeof` without one. -/
theorem ends_expressionFrom_word (hname : name.kind = .identifier)
    (hcloser : closer.kind = .rightBracket) (hr : s.rest = [name, closer]) (fuel power : Nat) :
    Ends True (expressionFrom fuel power) s (fun _ t => t.current = .rightBracket)
      fun _ _ => True := by
  cases fuel with
  | zero => trivial
  | succ fuel =>
    refine ends_expressionFrom_closer (fun _ h => h) ?_
    have hbehind : ∀ value : ObjcExpr, Ends True (do
        let _ ← Rule.advance
        return value) s (fun _ t => t.current = .rightBracket) fun _ _ => True := fun value =>
      ends_bind.mpr ((Yields.advance hr).ends hcloser)
    have hsizeOf : Fails (sizeOf (expressionFrom fuel)) s := by
      unfold sizeOf
      refine ends_bind.mpr ((Yields.advance hr).ends (ends_bind.mpr (ends_state.mpr ?_)))
      rw [ReadState.past_current, ReadState.kindOf_cons, hcloser]
      refine ends_bind.mpr (ends_bind.mpr ?_)
      cases fuel with
      | zero => trivial
      | succ fuel =>
        unfold expressionFrom
        exact ends_bind.mpr (ends_operand hcloser trivial)
    refine ends_operand ((ReadState.current_of_cons hr).trans hname) ?_
    show Ends True (word (expressionFrom fuel)) s _ _
    rw [word_eq]
    refine ends_bind.mpr (ends_state.mpr ?_)
    unfold wordOf
    split
    · exact hbehind _
    · exact ends_ite.mpr ⟨fun _ => hsizeOf.ends, fun _ => hbehind _⟩

/-- A type in parentheses has no subscript: the brackets are a message without a selector. -/
theorem subscript_fails (hindex : ObjcExpr.read index = .ok (.ok i)) (htype : ReadsAsType source)
    (hgroup : Delimited .leftParen .rightParen source opening row closing)
    (hinner : Delimited .leftBracket .rightBracket index bracket inner closer) (hs : s.Ready)
    (hr : s.rest = opening :: (row ++ closing :: bracket :: (inner ++ [closer]))) (fuel : Nat) :
    Fails (expressionFrom fuel 0) s := by
  have hstarts : startsOperand (kindOf (bracket :: (inner ++ [closer]))) = true := by
    rw [ReadState.kindOf_cons, hinner.opening_kind]
    rfl
  obtain ⟨type, htype⟩ := readsAsType_iff.mp htype
  obtain ⟨group, hhalved, hcast⟩ := attempt_castType_yields htype hgroup hs (.inl hstarts) hr
  obtain ⟨front, hvalue⟩ := index_yields hindex hinner hs hhalved hr
  have hc : s.current = .leftParen := (ReadState.current_of_cons hr).trans hgroup.opening_kind
  refine ends_expressionFrom_cast (Q := fun _ => False) (fun _ h => h.elim) hc hcast ?_ fuel 0
  intro fuel
  cases fuel with
  | zero => trivial
  | succ fuel =>
    refine ends_expressionFrom_closer (fun _ h => h.elim) (ends_operand hinner.opening_kind ?_)
    refine message_fails ?_
    rw [ReadState.advance_of_cons rfl]
    exact (hvalue fuel).ends hinner.closing_kind

/-- A type in parentheses is no receiver: the selector is the operand of a cast, and the message has
    none. -/
theorem message_fails_of_type (htype : ReadsAsType source)
    (hgroup : Delimited .leftParen .rightParen source opening row closing) (hs : s.Ready)
    (hbracket : bracket.kind = .leftBracket) (hname : name.kind = .identifier)
    (hcloser : closer.kind = .rightBracket)
    (hr : s.rest = bracket :: opening :: (row ++ closing :: name :: [closer])) (fuel : Nat) :
    Fails (expressionFrom fuel 0) s := by
  have hbehind : (s.past [bracket] (opening :: (row ++ closing :: name :: [closer]))).Ready :=
    hs.past_cons hr
  have hstarts : startsOperand (kindOf [name, closer]) = true := by
    rw [ReadState.kindOf_cons, hname]
    rfl
  obtain ⟨type, htype⟩ := readsAsType_iff.mp htype
  obtain ⟨group, _, hcast⟩ := attempt_castType_yields htype hgroup hbehind (.inl hstarts) rfl
  have hreceiver := ends_expressionFrom_cast
    (s := s.past [bracket] (opening :: (row ++ closing :: name :: [closer])))
    (Q := fun t => t.current = .rightBracket) (fun _ h => h) hgroup.opening_kind hcast fun fuel =>
      ends_expressionFrom_word hname hcloser rfl fuel _
  cases fuel with
  | zero => trivial
  | succ fuel =>
    have hc : s.current = .leftBracket := (ReadState.current_of_cons hr).trans hbracket
    refine ends_expressionFrom_closer (Q := fun _ => False) (fun _ h => h.elim) ?_
    refine ends_operand hc (message_fails ?_)
    rw [ReadState.advance_of_cons hr]
    exact hreceiver fuel 0

end Groups

end Grammar

/-! ## Texts -/

/-- The text is one identifier. -/
def IsIdentifier (source : String) : Prop :=
  (tokenize source).map Token.face = [(.identifier, source), (.endOfFile, "")]

instance (source : String) : Decidable (IsIdentifier source) :=
  inferInstanceAs (Decidable (_ = _))

namespace IsIdentifier

variable {name : String}

theorem significant_eq (h : IsIdentifier name) :
    (significant (tokenize name)).map Token.face = [(.identifier, name)] := by
  rw [map_face_significant, show (tokenize name).map Token.face = _ from h]
  rfl

theorem kind_of_mem (h : IsIdentifier name) {t : Token} (ht : t ∈ tokenize name) :
    t.kind = .identifier ∨ t.kind = .endOfFile := by
  have hface : t.face ∈ (tokenize name).map Token.face := List.mem_map_of_mem ht
  rw [show (tokenize name).map Token.face = _ from h] at hface
  rcases List.mem_pair.mp hface with hface | hface
  · exact .inl (congrArg Prod.fst hface)
  · exact .inr (congrArg Prod.fst hface)

theorem not_endsInLine (h : IsIdentifier name) : ¬ EndsInLine name := by
  rintro ⟨t, ht, htakes | ⟨hcomment, _⟩, _⟩
  · rcases h.kind_of_mem ht with hk | hk <;> rw [hk] at htakes <;> cases htakes
  · rcases h.kind_of_mem ht with hk | hk <;> rw [hk] at hcomment <;> cases hcomment

theorem kind_ne_invalid (h : IsIdentifier name) :
    ∀ t ∈ significant (tokenize name), t.kind ≠ .invalid := by
  intro t ht hk
  rcases h.kind_of_mem (List.mem_of_mem_filter ht) with hk' | hk' <;> rw [hk'] at hk <;> cases hk

end IsIdentifier

section Texts

variable {base index name : String} {b i : ObjcExpr}

theorem ends_of_mem {c : Char} (hc : c ∈ Lexer.separators) (cs : List Char) :
    Lexer.Ends (c :: cs) := by
  rintro d ⟨⟩
  exact hc

/-- What the grammar sees of an expression in front of a closing delimiter. -/
theorem seenFaces_append_of_read (hread : ObjcExpr.read base = .ok (.ok b))
    (hline : ¬ EndsInLine base) {c : Char} (hc : c ∈ Lexer.separators) (cs : List Char) :
    seenFaces (base.toList ++ c :: cs) =
      (significant (tokenize base)).map Token.face ++ seenFaces (c :: cs) :=
  seenFaces_append (ends_of_mem hc cs) (Grammar.kind_ne_invalid_of_read hread) hline

/-- The row of a group with a subscript. -/
theorem exists_row_subscript (hbase : ObjcExpr.read base = .ok (.ok b))
    (hindex : ObjcExpr.read index = .ok (.ok i)) (hbaseLine : ¬ EndsInLine base)
    (hindexLine : ¬ EndsInLine index) :
    ∃ opening closing bracket closer row inner,
      significant (tokenize ("(" ++ base ++ ")[" ++ index ++ "]")) =
        opening :: (row ++ closing :: bracket :: (inner ++ [closer])) ∧
      Delimited .leftParen .rightParen base opening row closing ∧
      Delimited .leftBracket .rightBracket index bracket inner closer := by
  have htext : ("(" ++ base ++ ")[" ++ index ++ "]").toList =
      '(' :: (base.toList ++ ')' :: '[' :: (index.toList ++ [']'])) := by
    simp [String.toList_append]
  have hfaces : (significant (tokenize ("(" ++ base ++ ")[" ++ index ++ "]"))).map Token.face =
      (.leftParen, String.ofList ['(']) :: ((significant (tokenize base)).map Token.face ++
        (.rightParen, String.ofList [')']) :: (.leftBracket, String.ofList ['[']) ::
          ((significant (tokenize index)).map Token.face ++
            [(.rightBracket, String.ofList [']'])])) := by
    show seenFaces _ = _
    rw [htext, Lexer.seenFaces_delimiter '(' .leftParen (by decide),
      seenFaces_append_of_read hbase hbaseLine (by decide),
      Lexer.seenFaces_delimiter ')' .rightParen (by decide),
      Lexer.seenFaces_delimiter '[' .leftBracket (by decide),
      seenFaces_append_of_read hindex hindexLine (by decide),
      Lexer.seenFaces_delimiter ']' .rightBracket (by decide), Lexer.seenFaces_nil]
  obtain ⟨opening, ts, hrow, hopening, hts⟩ := List.map_eq_cons_iff.mp hfaces
  obtain ⟨row, us, rfl, hbaseRow, hus⟩ := List.map_eq_append_iff.mp hts
  obtain ⟨closing, vs, rfl, hclosing, hvs⟩ := List.map_eq_cons_iff.mp hus
  obtain ⟨bracket, ws, rfl, hbracket, hws⟩ := List.map_eq_cons_iff.mp hvs
  obtain ⟨inner, xs, rfl, hinner, hxs⟩ := List.map_eq_append_iff.mp hws
  obtain ⟨closer, ys, rfl, hcloser, hys⟩ := List.map_eq_cons_iff.mp hxs
  obtain rfl := List.map_eq_nil_iff.mp hys
  exact ⟨opening, closing, bracket, closer, row, inner, hrow,
    ⟨congrArg Prod.fst hopening, hbaseRow, congrArg Prod.fst hclosing⟩,
    ⟨congrArg Prod.fst hbracket, hinner, congrArg Prod.fst hcloser⟩⟩

/-- The row of a message to a group. -/
theorem exists_row_message (hbase : ObjcExpr.read base = .ok (.ok b)) (hname : IsIdentifier name)
    (hbaseLine : ¬ EndsInLine base) :
    ∃ opening closing bracket closer word row,
      significant (tokenize ("[(" ++ base ++ ") " ++ name ++ "]")) =
        bracket :: opening :: (row ++ closing :: word :: [closer]) ∧
      Delimited .leftParen .rightParen base opening row closing ∧
      bracket.kind = .leftBracket ∧ word.face = (.identifier, name) ∧
      closer.kind = .rightBracket := by
  have htext : ("[(" ++ base ++ ") " ++ name ++ "]").toList =
      '[' :: '(' :: (base.toList ++ ')' :: ' ' :: (name.toList ++ [']'])) := by
    simp [String.toList_append]
  have hfaces : (significant (tokenize ("[(" ++ base ++ ") " ++ name ++ "]"))).map Token.face =
      (.leftBracket, String.ofList ['[']) :: (.leftParen, String.ofList ['(']) ::
        ((significant (tokenize base)).map Token.face ++ (.rightParen, String.ofList [')']) ::
          (.identifier, name) :: [(.rightBracket, String.ofList [']'])]) := by
    show seenFaces _ = _
    rw [htext, Lexer.seenFaces_delimiter '[' .leftBracket (by decide),
      Lexer.seenFaces_delimiter '(' .leftParen (by decide),
      seenFaces_append_of_read hbase hbaseLine (by decide),
      Lexer.seenFaces_delimiter ')' .rightParen (by decide), Lexer.seenFaces_blank (by decide),
      seenFaces_append (ends_of_mem (by decide) _) hname.kind_ne_invalid hname.not_endsInLine,
      hname.significant_eq, Lexer.seenFaces_delimiter ']' .rightBracket (by decide),
      Lexer.seenFaces_nil]
    rfl
  obtain ⟨bracket, ts, hrow, hbracket, hts⟩ := List.map_eq_cons_iff.mp hfaces
  obtain ⟨opening, us, rfl, hopening, hus⟩ := List.map_eq_cons_iff.mp hts
  obtain ⟨row, vs, rfl, hbaseRow, hvs⟩ := List.map_eq_append_iff.mp hus
  obtain ⟨closing, ws, rfl, hclosing, hws⟩ := List.map_eq_cons_iff.mp hvs
  obtain ⟨word, xs, rfl, hword, hxs⟩ := List.map_eq_cons_iff.mp hws
  obtain ⟨closer, ys, rfl, hcloser, hys⟩ := List.map_eq_cons_iff.mp hxs
  obtain rfl := List.map_eq_nil_iff.mp hys
  exact ⟨opening, closing, bracket, closer, word, row, hrow,
    ⟨congrArg Prod.fst hopening, hbaseRow, congrArg Prod.fst hclosing⟩,
    congrArg Prod.fst hbracket, hword, congrArg Prod.fst hcloser⟩

/-! ## Reading -/

/-- A source that the rule for expressions reads to its end is read as the expression. -/
theorem read_eq_of_ends {source : String} {e : ObjcExpr}
    (hcurrent : (ReadState.start source (tokenize source) .empty none).current ≠ .endOfFile)
    (h : ∀ fuel, Rule.Ends True (Grammar.expressionFrom fuel 0)
      (.start source (tokenize source) .empty none) (fun b t => b = e ∧ t.rest = [])
      fun _ _ => False) : ObjcExpr.read source = .ok (.ok e) := by
  have hshuts : ReadState.Shuts [⟨.rightParen, ")", Span.point 0⟩] := .inl rfl
  have hconsumes := Grammar.expression_enclosed hshuts
    (ReadState.start source (tokenize source) .empty none)
  have hends : Rule.Ends True Grammar.wholeExpression
      (.start source (tokenize source) .empty none) (fun b _ => b = e) fun _ _ => False := by
    unfold Grammar.wholeExpression
    refine Rule.ends_bind.mpr (Rule.ends_state.mpr (Rule.ends_ite.mpr
      ⟨fun hend => absurd hend hcurrent, fun _ => Rule.ends_bind.mpr ?_⟩))
    have hexpr : Rule.Ends True Grammar.expression (.start source (tokenize source) .empty none)
        (fun b t => b = e ∧ t.rest = []) fun _ _ => False :=
      Rule.ends_bind.mpr (Rule.ends_state.mpr (h _))
    refine (hexpr.and hconsumes).mono (fun b t hb => ?_) fun _ _ h => h.1.elim
    obtain ⟨⟨rfl, hnil⟩, ⟨_, _, _, _, rfl⟩, _⟩ := hb
    refine Rule.ends_bind.mpr (Rule.ends_state.mpr (Rule.ends_ite.mpr ⟨fun hend => ?_, fun _ => rfl⟩))
    exact absurd (ReadState.current_of_nil hnil) hend
  rcases (wholeExpression_safeAt (sound_start source .empty none)).cases with
    ⟨b, t, hrun, -⟩ | ⟨error, t, hrun, -⟩
  · obtain rfl := hends.of_done hrun
    exact read_eq_ok_iff_done.mpr ⟨t, hrun⟩
  · exact (hends.of_failed hrun).elim

theorem read_eq_of_yields {source : String} {e : ObjcExpr} {front : List Token}
    (hcurrent : (ReadState.start source (tokenize source) .empty none).current ≠ .endOfFile)
    (h : ∀ fuel, Rule.Yields (Grammar.expressionFrom fuel 0) e front []
      (.start source (tokenize source) .empty none)) : ObjcExpr.read source = .ok (.ok e) :=
  read_eq_of_ends hcurrent fun fuel => (h fuel).ends ⟨rfl, rfl⟩

/-- A source on which the rule for expressions fails is refused. -/
theorem exists_error_of_fails {source : String}
    (h : ∀ fuel, Rule.Fails (Grammar.expressionFrom fuel 0)
      (.start source (tokenize source) .empty none)) :
    ∃ error, ObjcExpr.read source = .ok (.error error) := by
  obtain ⟨answer, hread⟩ := exists_read_expr source
  cases answer with
  | error error => exact ⟨error, hread⟩
  | ok e =>
    obtain ⟨t, hrun, -⟩ := Grammar.exists_expression_of_read hread
    exact ((h _).of_done hrun).elim

/-- A group with a subscript and a message to a group are read if what stands in the parentheses is
    read, unless it reads as a type: then it is taken for a cast, and both are refused. -/
theorem read_group (hbase : ObjcExpr.read base = .ok (.ok b))
    (hindex : ObjcExpr.read index = .ok (.ok i)) (hname : IsIdentifier name)
    (hbaseLine : ¬ EndsInLine base) (hindexLine : ¬ EndsInLine index) :
    (ReadsAsType base →
      (∃ error, ObjcExpr.read ("(" ++ base ++ ")[" ++ index ++ "]") = .ok (.error error)) ∧
      ∃ error, ObjcExpr.read ("[(" ++ base ++ ") " ++ name ++ "]") = .ok (.error error)) ∧
    (¬ ReadsAsType base → ¬ Grammar.MeetsDouble (significant (tokenize base)) →
      ObjcExpr.read ("(" ++ base ++ ")[" ++ index ++ "]") = .ok (.ok (.subscript (.paren b) i)) ∧
      ObjcExpr.read ("[(" ++ base ++ ") " ++ name ++ "]") =
        .ok (.ok (.message (.paren b) name []))) := by
  obtain ⟨_, _, _, _, _, _, hsubscript, hgroup, hinner⟩ :=
    exists_row_subscript hbase hindex hbaseLine hindexLine
  obtain ⟨_, _, _, _, word, _, hmessage, hgroup', hbracket, hword, hcloser⟩ :=
    exists_row_message hbase hname hbaseLine
  have hs := ReadState.ready_start ("(" ++ base ++ ")[" ++ index ++ "]")
  have hs' := ReadState.ready_start ("[(" ++ base ++ ") " ++ name ++ "]")
  have hkind : word.kind = .identifier := congrArg Prod.fst hword
  have htext : word.text = name := congrArg Prod.snd hword
  refine ⟨fun htype => ⟨?_, ?_⟩, fun htype hdouble => ⟨?_, ?_⟩⟩
  · exact exists_error_of_fails
      (Grammar.subscript_fails hindex htype hgroup hinner hs hsubscript)
  · exact exists_error_of_fails
      (Grammar.message_fails_of_type htype hgroup' hs' hbracket hkind hcloser hmessage)
  · obtain ⟨front, hread⟩ :=
      Grammar.subscript_yields hbase hindex htype hdouble hgroup hinner hs hsubscript
    refine read_eq_of_yields ?_ hread
    rw [ReadState.current_of_cons hsubscript, hgroup.opening_kind]
    decide
  · obtain ⟨front, hread⟩ := Grammar.message_yields_group hbase htype hdouble hgroup' hs' hbracket
      hkind hcloser hmessage
    rw [htext] at hread
    refine read_eq_of_yields ?_ hread
    rw [ReadState.current_of_cons hmessage, hbracket]
    decide

end Texts

/-- Where there is no double bracket, a type meets none. -/
theorem Grammar.not_meetsDouble {ts : List Token} (h : ∀ t ∈ ts, t.kind ≠ .shiftRight) :
    ¬ MeetsDouble ts := by
  rintro ⟨front, inner, double, rest, rfl, -, -, -, hkind⟩
  exact h double (by simp) hkind

/-! ### A name and a sum -/

theorem tokenize_name : tokenize "a" = [⟨.identifier, "a", ⟨0, 1, by decide⟩⟩,
    ⟨.endOfFile, "", Span.point 1⟩] := by
  cbv

theorem tokenize_sum : tokenize "a + 1" = [⟨.identifier, "a", ⟨0, 1, by decide⟩⟩,
    ⟨.plus, "+", ⟨2, 3, by decide⟩⟩, ⟨.intLiteral, "1", ⟨4, 5, by decide⟩⟩,
    ⟨.endOfFile, "", Span.point 5⟩] := by
  cbv

theorem tokenize_zero : tokenize "0" = [⟨.intLiteral, "0", ⟨0, 1, by decide⟩⟩,
    ⟨.endOfFile, "", Span.point 1⟩] := by
  cbv

theorem read_name : ObjcExpr.read "a" = .ok (.ok (.ident "a")) := by
  unfold ObjcExpr.read
  rw [tokenize_name]
  rfl

theorem read_sum : ObjcExpr.read "a + 1" =
    .ok (.ok (.binary .add (.ident "a") (.literal (.int "1")))) := by
  unfold ObjcExpr.read
  rw [tokenize_sum]
  rfl

theorem read_zero : ObjcExpr.read "0" = .ok (.ok (.literal (.int "0"))) := by
  unfold ObjcExpr.read
  rw [tokenize_zero]
  rfl

theorem isIdentifier_s : IsIdentifier "s" := by
  unfold IsIdentifier
  cbv

theorem not_endsInLine_of_tokenize {source : String} {tokens : List Token}
    (h : tokenize source = tokens) (hkinds : ∀ t ∈ tokens, t.kind ∉ [.directive, .comment]) :
    ¬ EndsInLine source := by
  rintro ⟨t, ht, htakes, _⟩
  rw [h] at ht
  rcases htakes with hk | ⟨hk, _⟩ <;> exact hkinds t ht (by rw [hk]; decide)

theorem readsAsType_name : ReadsAsType "a" := by
  refine ⟨⟨.named "a", none, ⟨0, 1, by decide⟩⟩, { ReadState.start "a" [] .empty none with
    speculating := true, passed := [⟨.identifier, "a", ⟨0, 1, by decide⟩⟩] }, ?_, rfl⟩
  rw [tokenize_name]
  rfl

theorem not_readsAsType_sum : ¬ ReadsAsType "a + 1" := by
  intro h
  have hkinds := h.kind_of_mem
  rw [tokenize_sum] at hkinds
  revert hkinds
  decide

theorem not_meetsDouble_sum : ¬ Grammar.MeetsDouble (significant (tokenize "a + 1")) := by
  refine Grammar.not_meetsDouble fun t ht => ?_
  rw [tokenize_sum] at ht
  revert t
  decide

/-- The name is a type, so that neither form around it is read; the sum is none. -/
theorem read_group_name_sum :
    (ReadsAsType "a" ∧ (∃ error, ObjcExpr.read "(a)[0]" = .ok (.error error)) ∧
      ∃ error, ObjcExpr.read "[(a) s]" = .ok (.error error)) ∧
    ¬ ReadsAsType "a + 1" ∧ ¬ Grammar.MeetsDouble (significant (tokenize "a + 1")) ∧
      ObjcExpr.read "(a + 1)[0]" = .ok (.ok (.subscript
        (.paren (.binary .add (.ident "a") (.literal (.int "1")))) (.literal (.int "0")))) ∧
      ObjcExpr.read "[(a + 1) s]" = .ok (.ok (.message
        (.paren (.binary .add (.ident "a") (.literal (.int "1")))) "s" [])) := by
  have hnameLine : ¬ EndsInLine "a" := not_endsInLine_of_tokenize tokenize_name (by decide)
  have hsumLine : ¬ EndsInLine "a + 1" := not_endsInLine_of_tokenize tokenize_sum (by decide)
  have hzeroLine : ¬ EndsInLine "0" := not_endsInLine_of_tokenize tokenize_zero (by decide)
  obtain ⟨hrefused, -⟩ := read_group read_name read_zero isIdentifier_s hnameLine hzeroLine
  obtain ⟨-, hread⟩ := read_group read_sum read_zero isIdentifier_s hsumLine hzeroLine
  exact ⟨⟨readsAsType_name, hrefused readsAsType_name⟩, not_readsAsType_sum, not_meetsDouble_sum,
    hread not_readsAsType_sum not_meetsDouble_sum⟩

/-- A group with a subscript, of which the parts are read and which is refused. -/
theorem exists_group_refused : ObjcExpr.read "a" = .ok (.ok (.ident "a")) ∧
    ObjcExpr.read "0" = .ok (.ok (.literal (.int "0"))) ∧
    ObjcExpr.read "(a)[0]" = .ok (.error ⟨.messageSelector, ⟨5, 6, by decide⟩, false⟩) := by
  have hsubscript : tokenize "(a)[0]" = [⟨.leftParen, "(", ⟨0, 1, by decide⟩⟩,
      ⟨.identifier, "a", ⟨1, 2, by decide⟩⟩, ⟨.rightParen, ")", ⟨2, 3, by decide⟩⟩,
      ⟨.leftBracket, "[", ⟨3, 4, by decide⟩⟩, ⟨.intLiteral, "0", ⟨4, 5, by decide⟩⟩,
      ⟨.rightBracket, "]", ⟨5, 6, by decide⟩⟩, ⟨.endOfFile, "", Span.point 6⟩] := by
    cbv
  refine ⟨read_name, read_zero, ?_⟩
  unfold ObjcExpr.read
  rw [hsubscript]
  rfl

end HeaderBridge
