/-
  The text of an expression as a row of lexemes. A lexeme is a piece of text with the tokens that
  stand for it in the grammar without groups. Where an operand is expected, and where one has ended,
  the characters say which lexeme comes next and how far it goes, so a text is the text of one row
  at most.
-/
import HeaderBridge.Bridge.ExprReading
import HeaderBridge.Proofs.Expr.Stratified
import HeaderBridge.Proofs.Rendering.Atoms

namespace HeaderBridge

open Lexer (isWordPart)
open Grammar (Rung)

/-! ## Lexemes -/

/-- A piece of the text of an expression, and the kinds and texts of the tokens that stand for
    it. -/
structure Lexeme where
  text : List Char
  faces : List (TokenKind × String)
  deriving DecidableEq

namespace Lexeme

/-- A mark for which one token stands. -/
def mark (kind : TokenKind) (text : List Char) : Lexeme := ⟨text, [(kind, "")]⟩

theorem faces_mark (kind : TokenKind) (text : List Char) :
    (mark kind text).faces = [(kind, "")] := rfl

/-- An operand of one word, as a name that starts with a point. -/
def atom (x : Expr) : Lexeme := ⟨x.text.toList, [(.identifier, "." ++ x.text)]⟩

/-- The label of an argument, as an argument of its own: a name that starts with a colon. -/
def label (name : String) : Lexeme :=
  ⟨name.toList ++ [':', ' '], [(.identifier, ":" ++ name), (.comma, "")]⟩

/-- The parenthesis of a group, as that of a call. -/
def group : Lexeme := ⟨['('], [(.identifier, "("), (.leftParen, "")]⟩

def member (name : String) : Lexeme := ⟨'.' :: name.toList, [(.dot, ""), (.identifier, name)]⟩

/-- A cast, as an access by an arrow. -/
def cast (type : SwiftType) : Lexeme :=
  ⟨' ' :: 'a' :: 's' :: '?' :: ' ' :: type.text.toList, [(.arrow, ""), (.identifier, type.text)]⟩

/-- An operator between two operands. -/
def joint (kind : TokenKind) (symbol : String) : Lexeme :=
  mark kind (' ' :: (symbol.toList ++ [' ']))

/-- The text of a row. -/
def texts (row : List Lexeme) : List Char := row.flatMap text

@[simp] theorem texts_nil : texts [] = [] := rfl

@[simp] theorem texts_cons (l : Lexeme) (row : List Lexeme) :
    texts (l :: row) = l.text ++ texts row := List.flatMap_cons

@[simp] theorem texts_append (row row' : List Lexeme) :
    texts (row ++ row') = texts row ++ texts row' := List.flatMap_append

/-- The tokens that stand for a row. -/
def allFaces (row : List Lexeme) : List (TokenKind × String) := row.flatMap faces

@[simp] theorem allFaces_nil : allFaces [] = [] := rfl

@[simp] theorem allFaces_cons (l : Lexeme) (row : List Lexeme) :
    allFaces (l :: row) = l.faces ++ allFaces row := List.flatMap_cons

@[simp] theorem allFaces_append (row row' : List Lexeme) :
    allFaces (row ++ row') = allFaces row ++ allFaces row' := List.flatMap_append

end Lexeme

/-! ## Places -/

/-- Where a lexeme stands: where an operand is expected, or where one has ended. -/
inductive Place where
  | operand
  | operator
  deriving DecidableEq

/-- Every rung with operators between two operands. -/
def binaryRungs : List Rung := [
  .or, .and, .bitOr, .bitXor, .bitAnd, .equality, .relational, .shift, .additive, .multiplicative]

/-- What stands between two operands, with its text. -/
def joints : List (TokenKind × String) :=
  binaryRungs.flatMap (fun rung => rung.operators.map fun p => (p.1, p.2.swift.symbol)) ++
    Grammar.assignments.map (fun p => (p.1, p.2.swift.symbol)) ++ [(.question, "?"), (.colon, ":")]

/-- The marks that may stand at a place, and the places behind them. A parenthesis closes where an
    operand is expected only behind the one that opens a call without arguments. -/
def marksAt : Place → List (Lexeme × Place)
  | .operand => [(.group, .operand), (.mark .rightParen [')'], .operator)] ++
      Grammar.signs.map fun p => (.mark p.1 p.2.swift.symbol.toList, .operand)
  | .operator => [
      (.mark .leftParen ['('], .operand), (.mark .leftBracket ['['], .operand),
      (.mark .rightParen [')'], .operator), (.mark .rightBracket [']'], .operator),
      (.mark .comma [',', ' '], .operand)] ++
      joints.map fun p => (.joint p.1 p.2, .operand)

/-- A lexeme leads from a place to another one. -/
inductive Lead : Place → Lexeme → Place → Prop where
  | mark {p q : Place} {l : Lexeme} (mem : (l, q) ∈ marksAt p) : Lead p l q
  | atom {x : Expr} (isAtom : x.IsAtom) : Lead .operand (.atom x) .operator
  | label {name : String} (isRun : IsRun name.toList) : Lead .operand (.label name) .operand
  | member {name : String} (isRun : IsRun name.toList) : Lead .operator (.member name) .operator
  | cast {type : SwiftType} (legible : type.Legible) (single : type.isComposition = false) :
      Lead .operator (.cast type) .operator

theorem label_append (name : String) (us : List Char) :
    (Lexeme.label name).text ++ us = name.toList ++ ':' :: ' ' :: us := by
  rw [Lexeme.label, List.append_assoc]
  rfl

/-- A row of lexemes leads from a place to another one. -/
inductive Flow : Place → List Lexeme → Place → Prop where
  | nil (p : Place) : Flow p [] p
  | cons {p q r : Place} {l : Lexeme} {row : List Lexeme} (lead : Lead p l q)
      (more : Flow q row r) : Flow p (l :: row) r

namespace Flow

variable {p q r : Place} {l : Lexeme} {row row' : List Lexeme}

theorem one (h : Lead p l q) : Flow p [l] q := .cons h (.nil q)

theorem append (h : Flow p row q) (h' : Flow q row' r) : Flow p (row ++ row') r := by
  induction h with
  | nil => exact h'
  | cons lead _ ih => exact .cons lead (ih h')

end Flow

theorem mem_joints_of_operators {rung : Rung} {kind : TokenKind} {op : ObjcBinary}
    (h : (kind, op) ∈ rung.operators) : (kind, op.swift.symbol) ∈ joints := by
  have hrung : rung ∈ binaryRungs := by
    cases rung <;> first | decide | cases h
  refine List.mem_append_left _ (List.mem_append_left _ (List.mem_flatMap.mpr ⟨rung, hrung, ?_⟩))
  exact List.mem_map_of_mem (f := fun p => (p.1, p.2.swift.symbol)) h

theorem mem_joints_of_assignments {kind : TokenKind} {op : ObjcAssign}
    (h : (kind, op) ∈ Grammar.assignments) : (kind, op.swift.symbol) ∈ joints :=
  List.mem_append_left _ (List.mem_append_right _
    (List.mem_map_of_mem (f := fun p => (p.1, p.2.swift.symbol)) h))

theorem Lead.joint {kind : TokenKind} {symbol : String} (h : (kind, symbol) ∈ joints) :
    Lead .operator (.joint kind symbol) .operand :=
  .mark (List.mem_append_right _
    (List.mem_map_of_mem (f := fun p => (Lexeme.joint p.1 p.2, Place.operand)) h))

theorem Lead.sign {kind : TokenKind} {op : ObjcUnary} (h : (kind, op) ∈ Grammar.signs) :
    Lead .operand (.mark kind op.swift.symbol.toList) .operand :=
  .mark (List.mem_append_right _ (List.mem_map_of_mem
    (f := fun p => (Lexeme.mark p.1 p.2.swift.symbol.toList, Place.operand)) h))

/-! ## What follows an operand -/

/-- How a mark behind an operand may start: with a blank and an operator, a comma or a bracket. -/
def opensBehind : List Char → Bool
  | ' ' :: d :: _ => d ∈ marks
  | c :: _ => c ∈ [',', '(', ')', '[', ']']
  | [] => false

theorem opensBehind_of_mem : ∀ a ∈ marksAt .operator, opensBehind a.1.text = true := by
  decide

theorem endsOperand_of_opensBehind {text : List Char} (h : opensBehind text = true)
    (us : List Char) : EndsOperand (text ++ us) := by
  unfold opensBehind at h
  split at h
  · next d text =>
    refine ⟨fun c hc => ?_, fun behind hbehind => ?_⟩
    · obtain rfl : ' ' = c := Option.some.inj hc
      exact List.mem_cons_self
    · obtain rfl : d :: (text ++ us) = behind := (List.cons.inj hbehind).2
      rw [List.takeWhile_cons, isWordPart_of_mark (of_decide_eq_true h), if_neg (by decide)]
      decide
  · next c text _ =>
    have hc := of_decide_eq_true h
    refine ⟨fun d hd => ?_, fun behind hbehind => ?_⟩
    · obtain rfl : c = d := Option.some.inj hd
      have hsub : [',', '(', ')', '[', ']'] ⊆ [' ', '.', ',', '(', ')', '[', ']'] := by decide
      exact hsub hc
    · obtain rfl : c = ' ' := (List.cons.inj hbehind).1
      exact absurd hc (by decide)
  · cases h

theorem endsOperand_member (us : List Char) : EndsOperand ('.' :: us) where
  mark := by
    intro c hc
    obtain rfl : '.' = c := Option.some.inj hc
    decide
  noWord := fun _ h => absurd (List.cons.inj h).1 (by decide)

theorem endsOperand_cast (us : List Char) : EndsOperand (' ' :: 'a' :: 's' :: '?' :: us) where
  mark := by
    intro c hc
    obtain rfl : ' ' = c := Option.some.inj hc
    decide
  noWord := by
    intro behind h
    obtain rfl := (List.cons.inj h).2
    have ha : isWordPart 'a' = true := by decide
    have hs : isWordPart 's' = true := by decide
    have hq : isWordPart '?' = false := isWordPart_of_mark (by decide)
    have hword : ('a' :: 's' :: '?' :: us).takeWhile isWordPart = ['a', 's'] := by
      simp [ha, hs, hq]
    rw [hword]
    decide

/-- What follows an operand goes on no word and no type. -/
theorem Flow.endsOperand {row : List Lexeme} {q : Place} (h : Flow .operator row q) :
    EndsOperand (Lexeme.texts row) := by
  cases h with
  | nil => exact ⟨nofun, nofun⟩
  | cons lead =>
    rw [Lexeme.texts_cons]
    cases lead with
    | mark mem => exact endsOperand_of_opensBehind (opensBehind_of_mem _ mem) _
    | member => exact endsOperand_member _
    | cast => exact endsOperand_cast _

/-! ## The next lexeme -/

/-- What may stand at a place. -/
def StandsAt : Place → List Char → Prop
  | .operand, _ => True
  | .operator, text => EndsOperand text

theorem Flow.standsAt {p q : Place} {row : List Lexeme} (h : Flow p row q) :
    StandsAt p (Lexeme.texts row) := by
  cases p with
  | operand => exact trivial
  | operator => exact h.endsOperand

section Next

variable {q q' : Place} {l : Lexeme} {us vs : List Char}

/-- No mark at a place starts with another one. -/
theorem marksAt_prefixFree (p : Place) : ∀ a ∈ marksAt p, ∀ b ∈ marksAt p,
    a.1.text <+: b.1.text → a = b := by
  cases p <;> decide

theorem marksAt_unique {p : Place} {l' : Lexeme} (h : (l, q) ∈ marksAt p)
    (h' : (l', q') ∈ marksAt p) (heq : l.text ++ us = l'.text ++ vs) : l = l' ∧ q = q' := by
  have hprefix : l.text <+: l'.text ++ vs := ⟨us, heq⟩
  rcases List.prefix_or_prefix_of_prefix hprefix (List.prefix_append _ vs) with hle | hle
  · exact Prod.mk.inj (marksAt_prefixFree p _ h _ h' hle)
  · exact Prod.mk.inj (marksAt_prefixFree p _ h' _ h hle).symm

/-- A mark in front of an operand starts with no character of a word, and with no quote. -/
theorem exists_mark_of_mem (h : (l, q) ∈ marksAt .operand) :
    ∃ c cs, l.text = c :: cs ∧ c ∈ marks ∧ c ≠ '"' := by
  have hall : (marksAt .operand).all
      (fun a => a.1.text.head?.any fun c => c ∈ marks ∧ c ≠ '"') = true := by decide
  obtain ⟨c, hc, hmark⟩ := (Option.any_eq_true _ _).mp (List.all_eq_true.mp hall _ h)
  obtain ⟨cs, hl⟩ := List.head?_eq_some_iff.mp hc
  obtain ⟨hmark, hquote⟩ := of_decide_eq_true hmark
  exact ⟨c, cs, hl, hmark, hquote⟩

theorem mark_ne_atom {x : Expr} (h : (l, q) ∈ marksAt .operand) (hx : x.IsAtom) :
    l.text ++ us ≠ x.text.toList ++ vs := by
  obtain ⟨c, cs, hl, hc, hquote⟩ := exists_mark_of_mem h
  rw [hl]
  exact (hx.ne_mark hc hquote).symm

theorem mark_ne_run {run : List Char} (h : (l, q) ∈ marksAt .operand) (hrun : IsRun run) :
    l.text ++ us ≠ run ++ vs := by
  obtain ⟨c, cs, hl, hc, -⟩ := exists_mark_of_mem h
  rw [hl]
  exact (hrun.ne_mark hc).symm

theorem opensBehind_ne_member {text : List Char} (h : opensBehind text = true) :
    text ++ us ≠ '.' :: vs := by
  unfold opensBehind at h
  split at h
  · exact fun heq => absurd (List.cons.inj heq).1 (by decide)
  · intro heq
    obtain rfl := (List.cons.inj heq).1
    exact absurd (of_decide_eq_true h) (by decide)
  · cases h

theorem opensBehind_ne_cast {text : List Char} (h : opensBehind text = true) :
    text ++ us ≠ ' ' :: 'a' :: vs := by
  unfold opensBehind at h
  split at h
  · intro heq
    obtain rfl := (List.cons.inj (List.cons.inj heq).2).1
    exact absurd (of_decide_eq_true h) (by decide)
  · intro heq
    obtain rfl := (List.cons.inj heq).1
    exact absurd (of_decide_eq_true h) (by decide)
  · cases h

end Next

/-- The text says which lexeme comes next, and how far it goes. -/
theorem Lead.unique {p q q' : Place} {l l' : Lexeme} {us vs : List Char} (h : Lead p l q)
    (h' : Lead p l' q') (hu : StandsAt q us) (hv : StandsAt q' vs)
    (heq : l.text ++ us = l'.text ++ vs) : l = l' ∧ q = q' := by
  cases h with
  | mark mem =>
    cases h' with
    | mark mem' => exact marksAt_unique mem mem' heq
    | atom isAtom => exact absurd heq (mark_ne_atom mem isAtom)
    | label isRun => exact absurd (heq.trans (label_append _ vs)) (mark_ne_run mem isRun)
    | member => exact absurd heq (opensBehind_ne_member (opensBehind_of_mem _ mem))
    | cast => exact absurd heq (opensBehind_ne_cast (opensBehind_of_mem _ mem))
  | atom isAtom =>
    cases h' with
    | mark mem => exact absurd heq.symm (mark_ne_atom mem isAtom)
    | atom isAtom' =>
      obtain ⟨rfl, -⟩ := isAtom.append_inj isAtom' hu hv heq
      exact ⟨rfl, rfl⟩
    | label isRun => exact absurd (heq.trans (label_append _ vs)) (isAtom.ne_label isRun hu)
  | label isRun =>
    rw [label_append] at heq
    cases h' with
    | mark mem => exact absurd heq.symm (mark_ne_run mem isRun)
    | atom isAtom => exact absurd heq.symm (isAtom.ne_label isRun hv)
    | label isRun' =>
      rw [label_append] at heq
      obtain ⟨hname, -⟩ := isRun.append_inj isRun' (endsRun_of_mark (by decide))
        (endsRun_of_mark (by decide)) heq
      rw [String.toList_injective hname]
      exact ⟨rfl, rfl⟩
  | member isRun =>
    cases h' with
    | mark mem => exact absurd heq.symm (opensBehind_ne_member (opensBehind_of_mem _ mem))
    | member isRun' =>
      obtain ⟨hname, -⟩ := isRun.append_inj isRun' hu.endsName.endsRun hv.endsName.endsRun
        (List.cons.inj heq).2
      rw [String.toList_injective hname]
      exact ⟨rfl, rfl⟩
    | cast => exact absurd (List.cons.inj heq).1 (by decide)
  | cast legible single =>
    cases h' with
    | mark mem => exact absurd heq.symm (opensBehind_ne_cast (opensBehind_of_mem _ mem))
    | member => exact absurd (List.cons.inj heq).1 (by decide)
    | cast legible' single' =>
      simp only [Lexeme.cast, List.cons_append, List.cons.injEq, true_and] at heq
      obtain ⟨rfl, -⟩ := legible.told legible' (hu.endsType single) (hv.endsType single') heq
      exact ⟨rfl, rfl⟩

theorem Lead.text_ne_nil {p q : Place} {l : Lexeme} (h : Lead p l q) : l.text ≠ [] := by
  intro hnil
  cases h with
  | mark mem =>
    cases p with
    | operand =>
      obtain ⟨c, cs, hl, -⟩ := exists_mark_of_mem mem
      rw [hl] at hnil
      cases hnil
    | operator =>
      have hopens := opensBehind_of_mem _ mem
      rw [hnil] at hopens
      cases hopens
  | @atom x isAtom =>
    have htext : x.text.toList = [] := hnil
    have hmark : x.text.toList ++ ['.'] = '.' :: [] := by rw [htext, List.nil_append]
    exact isAtom.ne_mark (by decide) (by decide) hmark
  | label => exact absurd (List.append_eq_nil_iff.mp hnil).2 (List.cons_ne_nil _ _)
  | member => cases hnil
  | cast => cases hnil

/-- A text is the text of one row at most. -/
theorem Flow.unique {p : Place} {row row' : List Lexeme} (h : Flow p row .operator)
    (h' : Flow p row' .operator) (heq : Lexeme.texts row = Lexeme.texts row') : row = row' := by
  generalize hq : Place.operator = q at h
  induction h generalizing row' with
  | nil p =>
    subst hq
    cases h' with
    | nil => rfl
    | cons lead more =>
      rw [Lexeme.texts_cons] at heq
      exact absurd (List.append_eq_nil_iff.mp heq.symm).1 lead.text_ne_nil
  | cons lead more ih =>
    subst hq
    cases h' with
    | nil =>
      rw [Lexeme.texts_cons] at heq
      exact absurd (List.append_eq_nil_iff.mp heq).1 lead.text_ne_nil
    | cons lead' more' =>
      rw [Lexeme.texts_cons, Lexeme.texts_cons] at heq
      obtain ⟨rfl, rfl⟩ := lead.unique lead' more.standsAt more'.standsAt heq
      rw [ih more' (List.append_cancel_left heq) rfl]

end HeaderBridge
