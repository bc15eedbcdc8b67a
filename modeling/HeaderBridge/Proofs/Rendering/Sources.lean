/-
  The texts of the Swift expressions that sources are turned into. An expression that tokens spell
  can be laid out once it is settled, rung by rung, if no operator between two operands stands under
  a member and no cast is one to a composition. So two sources are turned into expressions with the
  same text exactly if these are the same once they are settled. The printer writes no parentheses
  of its own, so expressions that differ in what a sign holds have the same text.
-/
import HeaderBridge.Proofs.Enclosing.Casts
import HeaderBridge.Proofs.Lexical.Places
import HeaderBridge.Proofs.Rendering.Mapping
import HeaderBridge.Proofs.Rendering.Settling

namespace HeaderBridge

open Grammar (Rung Spells literalWord? literalWords literalWord?_eq_none_iff)

variable {m : TypeMap} {ts : List Token} {e : ObjcExpr} {x : Expr}

/-! ## Operands -/

theorem Expr.isAtom_boolean (value : Bool) : (Expr.constant (.boolean value)).IsAtom := by
  cases value with
  | false =>
    have hword : IsWord "false".toList := by decide
    exact .word hword
  | true =>
    have hword : IsWord "true".toList := by decide
    exact .word hword

theorem Expr.isAtom_nil : (Expr.constant .nil).IsAtom := by
  have hword : IsWord "nil".toList := by decide
  exact .word hword

/-- Every literal but a floating number is one word or number in the text. -/
theorem Literal.isAtom_of_constant? {literal : ObjcLiteral} {c : Constant}
    (h : constant? literal = some c) (hfloat : ∀ spelling, literal ≠ .float spelling) :
    (Expr.constant c).IsAtom := by
  cases literal with
  | int spelling =>
    obtain ⟨value, -, rfl⟩ := Option.map_eq_some_iff.mp h
    exact .integer _ value
  | float spelling => exact absurd rfl (hfloat spelling)
  | bool value =>
    cases h
    exact Expr.isAtom_boolean value
  | string contents =>
    cases h
    exact .string contents
  | char contents =>
    obtain ⟨c, -, rfl⟩ := Option.map_eq_some_iff.mp h
    exact .integer _ _
  | nil =>
    cases h
    exact Expr.isAtom_nil

theorem Grammar.literalWord?_ne_float {word spelling : String} :
    literalWord? word ≠ some (.float spelling) := by
  intro h
  have hmem := literalWord?_eq_some_iff.mp h
  simp [literalWords] at hmem

/-- A word that is no literal is a name in the text as well. -/
theorem Expr.ofWord_eq_identifier {word : String} (h : literalWord? word = none) :
    Expr.ofWord word = .identifier word := by
  have hne : ∀ p ∈ literalWords, word ≠ p.1 := fun p hp heq =>
    literalWord?_eq_none_iff.mp h p.2 (heq ▸ hp)
  simp only [literalWords, List.forall_mem_cons] at hne
  obtain ⟨htrue, _, hfalse, _, hnil, _⟩ := hne
  unfold ofWord
  rw [if_neg htrue, if_neg hfalse, if_neg hnil]

/-! ## Messages -/

/-- A selector calls the method that its first word names. -/
theorem ObjcExpr.methodName?_of_isRun {name selector : String} {rest : List Char}
    (hname : IsRun name.toList) (hselector : selector.toList = name.toList ++ rest)
    (hrest : ∀ c ∈ rest.head?, c = ':') : methodName? selector = some name := by
  have hne : ∀ c ∈ name.toList, (c != ':') = true := by
    intro c hc
    refine bne_iff_ne.mpr fun heq => ?_
    have hpart := hname.2 c hc
    rw [heq] at hpart
    revert hpart
    decide
  have htake : selector.toList.takeWhile (· != ':') = name.toList := by
    rw [hselector, List.takeWhile_append_of_pos hne]
    cases rest with
    | nil => simp
    | cons c cs => simp [hrest c rfl]
  unfold methodName?
  simp only [htake, String.ofList_toList]
  exact if_neg (mt List.isEmpty_iff.mp hname.1)

theorem ObjcExpr.swiftAll?_eq (es : List ObjcExpr) :
    swiftAll? m es = swiftLabelled? m (es.map fun e => ⟨none, e⟩) := by
  induction es with
  | nil => rfl
  | cons e es ih => rw [swiftAll?, List.map_cons, swiftLabelled?, ih]

/-- Arguments are turned into ones with the same labels, which settle if they do one by one. -/
theorem ObjcExpr.settles_of_swiftLabelled? {as : List (Labelled ObjcExpr)}
    {bs : List (Labelled Expr)} (h : swiftLabelled? m as = some bs)
    (hclear : Expr.clearArguments bs = true)
    (each : ∀ a ∈ as, ∀ x : Expr, a.value.swift? m = some x → x.clear = true →
      x.Settles .assignment) :
    bs.map (·.label) = as.map (·.label) ∧ ∀ b ∈ bs, b.value.Settles .assignment := by
  induction as generalizing bs with
  | nil =>
    cases h
    exact ⟨rfl, List.forall_mem_nil _⟩
  | cons a as ih =>
    obtain ⟨value, hvalue, h⟩ := Option.bind_eq_some_iff.mp h
    obtain ⟨more, hmore, h⟩ := Option.bind_eq_some_iff.mp h
    cases h
    obtain ⟨hcv, hcmore⟩ := (Bool.and_eq_true _ _).mp hclear
    obtain ⟨ha, has⟩ := List.forall_mem_cons.mp each
    obtain ⟨hlabels, hsettles⟩ := ih hmore hcmore has
    refine ⟨?_, List.forall_mem_cons.mpr ⟨ha value hvalue hcv, hsettles⟩⟩
    rw [List.map_cons, List.map_cons, hlabels]

/-- A call of a function has no labels, and settles if the function and its arguments do. -/
theorem ObjcExpr.settles_call {callee : ObjcExpr} {es : List ObjcExpr}
    (hcallee : ∀ x : Expr, callee.swift? m = some x → x.clear = true → x.Settles .suffixed)
    (each : ∀ e ∈ es, ∀ x : Expr, e.swift? m = some x → x.clear = true → x.Settles .assignment)
    (hx : (ObjcExpr.call callee es).swift? m = some x) (hclear : x.clear = true) :
    x.Settles .suffixed := by
  obtain ⟨bs, hbs, hx⟩ := Option.bind_eq_some_iff.mp hx
  obtain ⟨v, hv, hx⟩ := Option.bind_eq_some_iff.mp hx
  cases hx
  obtain ⟨hcv, hcb⟩ := (Bool.and_eq_true _ _).mp hclear
  rw [swiftAll?_eq] at hbs
  obtain ⟨hlabels, hsettles⟩ := settles_of_swiftLabelled? hbs hcb (List.forall_mem_map.mpr each)
  have hnone : ∀ label ∈ bs.map (·.label), label = none := by
    rw [hlabels]
    exact List.forall_mem_map.mpr (List.forall_mem_map.mpr fun _ _ => rfl)
  refine .call (hcallee v hv hcv) hsettles (fun label hlabel word hword => ?_)
    fun label hlabel => hnone label (List.mem_of_mem_head? hlabel)
  rw [hnone label hlabel] at hword
  cases hword

/-- A message is turned into a call that settles if its receiver and its arguments do. -/
theorem ObjcExpr.settles_message {receiver : ObjcExpr} {name selector : String}
    {rest : List Char} {as : List (Labelled ObjcExpr)} (hname : IsRun name.toList)
    (hselector : selector.toList = name.toList ++ rest) (hrest : ∀ c ∈ rest.head?, c = ':')
    (hreceiver : ∀ x : Expr, receiver.swift? m = some x → x.clear = true →
      x.Settles .assignment)
    (each : ∀ a ∈ as, ∀ x : Expr, a.value.swift? m = some x → x.clear = true →
      x.Settles .assignment)
    (labels : ∀ label ∈ as.map (·.label), ∀ word ∈ label, IsRun word.toList)
    (first : ∀ label ∈ (as.map (·.label)).head?, label = none)
    (hx : (ObjcExpr.message receiver selector as).swift? m = some x) (hclear : x.clear = true) :
    x.Settles .suffixed := by
  obtain ⟨own, hown, hx⟩ := Option.bind_eq_some_iff.mp hx
  obtain ⟨bs, hbs, hx⟩ := Option.bind_eq_some_iff.mp hx
  obtain ⟨v, hv, hx⟩ := Option.bind_eq_some_iff.mp hx
  cases hx
  rw [methodName?_of_isRun hname hselector hrest] at hown
  cases hown
  obtain ⟨hcv, hcb⟩ := (Bool.and_eq_true _ _).mp hclear
  obtain ⟨hjoint, hcv⟩ := (Bool.and_eq_true _ _).mp hcv
  obtain ⟨hlabels, hsettles⟩ := settles_of_swiftLabelled? hbs hcb each
  exact .call (.member (hreceiver v hv hcv) ((Bool.not_eq_true' _).mp hjoint) hname) hsettles
    (hlabels ▸ labels) (hlabels ▸ first)

/-! ## Expressions that tokens spell -/

/-- A token that is no floating number, and a word if it is an identifier. -/
def Token.Plain (t : Token) : Prop :=
  t.kind ≠ .floatLiteral ∧ (t.kind = .identifier → IsWord t.text.toList)

namespace Grammar

/-- The labels of further arguments are words. -/
theorem Mark.WellFormed.isRun_label {mark : Mark} (h : mark.WellFormed)
    (hplain : ∀ t ∈ mark.tokens, t.Plain) : ∀ label ∈ mark.label, IsRun label.toList := by
  cases mark with
  | keyword name colon =>
    intro label hlabel
    cases hlabel
    exact ((hplain name List.mem_cons_self).2 h.1).1
  | comma token => exact nofun

/-- What tokens spell can be laid out once it is turned into a Swift expression and settled. -/
theorem Spells.settles {rung : Rung} (hm : m.IsNamed) (h : Spells rung ts e) :
    ∀ {x : Expr}, (∀ t ∈ ts, t.Plain) → e.swift? m = some x → x.clear = true →
      x.Settles rung := by
  induction h with
  | climb _ ih =>
    intro x hts hx hclear
    exact (ih hts hx hclear).loosen (Rung.left_le_tighter _)
  | assign _ mem _ ihl ihr =>
    intro x hts hx hclear
    obtain ⟨hls, hrs⟩ := List.forall_mem_append.mp hts
    obtain ⟨l, hl, hx⟩ := Option.bind_eq_some_iff.mp hx
    obtain ⟨r, hr, hx⟩ := Option.bind_eq_some_iff.mp hx
    cases hx
    obtain ⟨hcl, hcr⟩ := (Bool.and_eq_true _ _).mp hclear
    exact .assign (ihl hls hl hcl) mem (ihr (List.forall_mem_cons.mp hrs).2 hr hcr)
  | ternary _ _ _ _ _ ihc ihy ihn =>
    intro x hts hx hclear
    obtain ⟨hcs, hrest⟩ := List.forall_mem_append.mp hts
    obtain ⟨hys, hns⟩ := List.forall_mem_append.mp (List.forall_mem_cons.mp hrest).2
    obtain ⟨c, hc, hx⟩ := Option.bind_eq_some_iff.mp hx
    obtain ⟨y, hy, hx⟩ := Option.bind_eq_some_iff.mp hx
    obtain ⟨n, hn, hx⟩ := Option.bind_eq_some_iff.mp hx
    cases hx
    obtain ⟨hcy, hcn⟩ := (Bool.and_eq_true _ _).mp hclear
    obtain ⟨hcc, hcy⟩ := (Bool.and_eq_true _ _).mp hcy
    exact .ternary (ihc hcs hc hcc) (ihy hys hy hcy) (ihn (List.forall_mem_cons.mp hns).2 hn hcn)
  | binary _ mem _ ihl ihr =>
    intro x hts hx hclear
    obtain ⟨hls, hrs⟩ := List.forall_mem_append.mp hts
    obtain ⟨l, hl, hx⟩ := Option.bind_eq_some_iff.mp hx
    obtain ⟨r, hr, hx⟩ := Option.bind_eq_some_iff.mp hx
    cases hx
    obtain ⟨hcl, hcr⟩ := (Bool.and_eq_true _ _).mp hclear
    exact .binary (ihl hls hl hcl) mem (ihr (List.forall_mem_cons.mp hrs).2 hr hcr)
  | unary mem _ ih =>
    intro x hts hx hclear
    obtain ⟨v, hv, hx⟩ := Option.bind_eq_some_iff.mp hx
    cases hx
    exact .unary mem (ih (List.forall_mem_cons.mp hts).2 hv hclear)
  | cast _ spelt _ _ ih =>
    intro x hts hx hclear
    obtain ⟨hparens, hoperand⟩ := List.forall_mem_append.mp hts
    have hfront := (List.forall_mem_append.mp (List.forall_mem_cons.mp hparens).2).1
    obtain ⟨v, hv, hx⟩ := Option.bind_eq_some_iff.mp hx
    cases hx
    obtain ⟨hsingle, hcv⟩ := (Bool.and_eq_true _ _).mp hclear
    have hcast : Expr.Settles .suffixed (.cast v (m.unwrapped _)) :=
      .cast (ih hoperand hv hcv) (legible_of_spelling hm spelt fun t ht => (hfront t ht).2)
        ((Bool.not_eq_true' _).mp hsingle)
    exact hcast.loosen (by decide)
  | sizeOfValue _ _ _ ih =>
    intro x hts hx hclear
    obtain ⟨v, hv, hx⟩ := Option.bind_eq_some_iff.mp hx
    cases hx
    exact (Expr.Settles.sizeOfValue (ih (List.forall_mem_cons.mp hts).2 hv hclear)).loosen
      (by decide)
  | sizeOfType _ _ _ spelt _ =>
    intro x hts hx _
    cases hx
    have hinner := (List.forall_mem_cons.mp (List.forall_mem_cons.mp hts).2).2
    have hfront := (List.forall_mem_append.mp hinner).1
    exact .atom (.sizeOfType (legible_of_spelling hm spelt fun t ht => (hfront t ht).2))
  | paren _ _ _ ih =>
    intro x hts hx hclear
    obtain ⟨hinner, -⟩ := List.forall_mem_append.mp (List.forall_mem_cons.mp hts).2
    obtain ⟨v, hv, hx⟩ := Option.bind_eq_some_iff.mp hx
    cases hx
    exact .parens (ih hinner hv hclear)
  | member _ _ name_kind ih =>
    intro x hts hx hclear
    obtain ⟨hbase, hname⟩ := List.forall_mem_append.mp hts
    obtain ⟨v, hv, hx⟩ := Option.bind_eq_some_iff.mp hx
    cases hx
    obtain ⟨hjoint, hcv⟩ := (Bool.and_eq_true _ _).mp hclear
    have hword := (List.forall_mem_cons.mp (List.forall_mem_cons.mp hname).2).1.2 name_kind
    exact .member (ih hbase hv hcv) ((Bool.not_eq_true' _).mp hjoint) hword.1
  | call _ _ _ commas _ ihe iha =>
    intro x hts hx hclear
    obtain ⟨hcallee, hrest⟩ := List.forall_mem_append.mp hts
    obtain ⟨hinner, -⟩ := List.forall_mem_append.mp (List.forall_mem_cons.mp hrest).2
    exact ObjcExpr.settles_call (fun y => ihe hcallee)
      (List.forall_mem_map.mpr fun a ha y =>
        iha a ha (commas.forall_mem hinner a.1 (List.mem_map_of_mem ha))) hx hclear
  | subscript _ _ _ _ ihe ihi =>
    intro x hts hx hclear
    obtain ⟨hbase, hrest⟩ := List.forall_mem_append.mp hts
    obtain ⟨hinner, -⟩ := List.forall_mem_append.mp (List.forall_mem_cons.mp hrest).2
    obtain ⟨v, hv, hx⟩ := Option.bind_eq_some_iff.mp hx
    obtain ⟨i, hi, hx⟩ := Option.bind_eq_some_iff.mp hx
    cases hx
    obtain ⟨hcv, hci⟩ := (Bool.and_eq_true _ _).mp hclear
    exact .subscript (ihe hbase hv hcv) (ihi hinner hi hci)
  | @plainMessage _ _ _ name _ _ _ name_kind _ ih =>
    intro x hts hx hclear
    obtain ⟨hreceiver, hname⟩ := List.forall_mem_append.mp (List.forall_mem_cons.mp hts).2
    have hword := (List.forall_mem_cons.mp hname).1.2 name_kind
    exact ObjcExpr.settles_message hword.1 (List.append_nil _).symm nofun (fun y => ih hreceiver)
      (List.forall_mem_nil _) (List.forall_mem_nil _) nofun hx hclear
  | @message _ _ _ value _ name _ _ pieces _ _ name_kind _ _ marks _ _ ihe ihv ihp =>
    intro x hts hx hclear
    obtain ⟨hreceiver, hrest⟩ := List.forall_mem_append.mp (List.forall_mem_cons.mp hts).2
    obtain ⟨hname, hrest⟩ := List.forall_mem_cons.mp hrest
    have hrest := (List.forall_mem_append.mp (List.forall_mem_cons.mp hrest).2).1
    obtain ⟨hfirst, hpieces⟩ := List.forall_mem_append.mp hrest
    rw [List.forall_mem_flatMap] at hpieces
    have hword := hname.2 name_kind
    have hselector : (name.text ++ ":" ++ selectorOf pieces).toList =
        name.text.toList ++ ':' :: (selectorOf pieces).toList := by
      rw [String.toList_append, String.toList_append, List.append_assoc]
      rfl
    -- The first argument has no label; the others have those of their marks.
    refine ObjcExpr.settles_message hword.1 hselector (fun c hc => (Option.some.inj hc).symm)
      (fun y => ihe hreceiver)
      (List.forall_mem_cons.mpr ⟨fun y => ihv hfirst, List.forall_mem_map.mpr fun p hp y => ?_⟩)
      (List.forall_mem_cons.mpr ⟨fun word hword => (Option.not_mem_none word hword).elim,
        List.forall_mem_map.mpr (List.forall_mem_map.mpr fun p hp => ?_)⟩)
      (fun label hlabel => (Option.some.inj hlabel).symm) hx hclear
    · exact ihp p hp (List.forall_mem_append.mp (hpieces p hp)).2
    · exact (marks p hp).isRun_label (List.forall_mem_append.mp (hpieces p hp)).1
  | int _ | char _ | strings _ _ =>
    intro x _ hx _
    obtain ⟨c, hc, rfl⟩ := Option.map_eq_some_iff.mp hx
    exact .atom (Literal.isAtom_of_constant? hc nofun)
  | float kind =>
    intro x hts
    exact absurd kind (hts _ List.mem_cons_self).1
  | word _ text =>
    intro x _ hx _
    obtain ⟨c, hc, rfl⟩ := Option.map_eq_some_iff.mp hx
    refine .atom (Literal.isAtom_of_constant? hc fun spelling heq => ?_)
    exact literalWord?_ne_float (heq ▸ text)
  | name kind text _ =>
    intro x hts hx _
    cases hx
    rw [← Expr.ofWord_eq_identifier text]
    exact .atom (.word ((hts _ List.mem_cons_self).2 kind))

end Grammar

/-! ## Sources -/

/-- What a source without floating numbers is turned into can be laid out once it is settled. -/
theorem ObjcExpr.settles_of_read {source : String} (hm : m.IsNamed)
    (hfloat : ∀ t ∈ tokenize source, t.kind ≠ .floatLiteral)
    (hread : ObjcExpr.read source = .ok (.ok e)) (hx : e.swift? m = some x)
    (hclear : x.clear = true) : x.Settles .assignment := by
  obtain ⟨ts, hhalved, hspells⟩ := exists_spells_of_read hread
  have hmem : ∀ t ∈ ts, t.kind ∉ [.shiftRight, .greater] → t ∈ tokenize source := by
    intro t ht hk
    exact List.mem_of_mem_filter ((hhalved.mem_iff_of_kind rfl hk).mp ht)
  refine hspells.settles hm (fun t ht => ⟨fun hk => ?_, fun hk => ?_⟩) hx hclear
  · exact hfloat t (hmem t ht (hk ▸ by decide)) hk
  · have hspelt := spelt_of_mem (hmem t ht (hk ▸ by decide))
    rw [hk] at hspelt
    exact hspelt.resolve_left (by decide)

/-- Two sources without floating numbers are turned into expressions with the same text exactly if
    these are the same once they are settled, if no operator between two operands stands under a
    member and no cast is one to a composition. So different ones that are settled already, with no
    sign under a suffix or a cast, have different texts. -/
theorem text_eq_iff_settle_eq {source source' : String} {e' : ObjcExpr} {x' : Expr}
    (hm : m.IsNamed) (hfloat : ∀ t ∈ tokenize source, t.kind ≠ .floatLiteral)
    (hfloat' : ∀ t ∈ tokenize source', t.kind ≠ .floatLiteral)
    (hread : ObjcExpr.read source = .ok (.ok e)) (hread' : ObjcExpr.read source' = .ok (.ok e'))
    (hx : e.swift? m = some x) (hx' : e'.swift? m = some x')
    (hclear : x.clear = true) (hclear' : x'.clear = true) :
    x.text = x'.text ↔ x.settle = x'.settle := by
  obtain ⟨_, _, hlaid⟩ := (ObjcExpr.settles_of_read hm hfloat hread hx hclear).exists_laid_assignment
  obtain ⟨_, _, hlaid'⟩ :=
    (ObjcExpr.settles_of_read hm hfloat' hread' hx' hclear').exists_laid_assignment
  constructor
  · intro htext
    refine hlaid.text_inj hlaid' ?_
    rw [Expr.text_settle, Expr.text_settle, htext]
  · intro hsettle
    rw [← Expr.text_settle x, hsettle, Expr.text_settle]

theorem tokenize_signed : tokenize "-a" = [⟨.minus, "-", ⟨0, 1, by decide⟩⟩,
    ⟨.identifier, "a", ⟨1, 2, by decide⟩⟩, ⟨.endOfFile, "", Span.point 2⟩] := by
  cbv

theorem tokenize_group : tokenize "(-a)" = [⟨.leftParen, "(", ⟨0, 1, by decide⟩⟩,
    ⟨.minus, "-", ⟨1, 2, by decide⟩⟩, ⟨.identifier, "a", ⟨2, 3, by decide⟩⟩,
    ⟨.rightParen, ")", ⟨3, 4, by decide⟩⟩, ⟨.endOfFile, "", Span.point 4⟩] := by
  cbv

theorem tokenize_signed_cast : tokenize "-(int)a" = [⟨.minus, "-", ⟨0, 1, by decide⟩⟩,
    ⟨.leftParen, "(", ⟨1, 2, by decide⟩⟩, ⟨.identifier, "int", ⟨2, 5, by decide⟩⟩,
    ⟨.rightParen, ")", ⟨5, 6, by decide⟩⟩, ⟨.identifier, "a", ⟨6, 7, by decide⟩⟩,
    ⟨.endOfFile, "", Span.point 7⟩] := by
  cbv

theorem tokenize_cast_group : tokenize "(int)(-a)" = [⟨.leftParen, "(", ⟨0, 1, by decide⟩⟩,
    ⟨.identifier, "int", ⟨1, 4, by decide⟩⟩, ⟨.rightParen, ")", ⟨4, 5, by decide⟩⟩,
    ⟨.leftParen, "(", ⟨5, 6, by decide⟩⟩, ⟨.minus, "-", ⟨6, 7, by decide⟩⟩,
    ⟨.identifier, "a", ⟨7, 8, by decide⟩⟩, ⟨.rightParen, ")", ⟨8, 9, by decide⟩⟩,
    ⟨.endOfFile, "", Span.point 9⟩] := by
  cbv

theorem read_signed_cast : ObjcExpr.read "-(int)a" =
    .ok (.ok (.unary .neg (.cast (.named "int") (.ident "a")))) := by
  unfold ObjcExpr.read
  rw [tokenize_signed_cast]
  rfl

/-- A cast of an operand without suffixes to `int` is read, with a sign in front of it as well. -/
theorem read_cast_int {operandText : String} {e : ObjcExpr}
    (hread : ObjcExpr.read operandText = .ok (.ok e)) (he : e.isOperand = true) :
    ObjcExpr.read ("(" ++ "int" ++ ")" ++ operandText) =
      .ok (.ok (.cast (.named "int") e)) := by
  have hline : ¬ EndsInLine "int" := not_endsInLine_of_tokenize tokenize_int (by decide)
  exact (read_eq_cast_iff readsAs_int hline hread he).mpr fun _ => by cbv

/-- With parentheses around the sign, the text says what the cast holds. -/
theorem text_ne_of_group :
    ObjcExpr.read "-(int)a" = .ok (.ok (.unary .neg (.cast (.named "int") (.ident "a")))) ∧
    ObjcExpr.read "(int)(-a)" =
      .ok (.ok (.cast (.named "int") (.paren (.unary .neg (.ident "a"))))) ∧
    (Expr.unary .subtract (.cast (.identifier "a") (.named "CInt"))).text ≠
      (Expr.cast (.parens (.unary .subtract (.identifier "a"))) (.named "CInt")).text := by
  have hgroup : ObjcExpr.read "(-a)" = .ok (.ok (.paren (.unary .neg (.ident "a")))) := by
    unfold ObjcExpr.read
    rw [tokenize_group]
    rfl
  have hfloat : ∀ t ∈ tokenize "-(int)a", t.kind ≠ .floatLiteral := by
    rw [tokenize_signed_cast]
    decide
  have hfloat' : ∀ t ∈ tokenize "(int)(-a)", t.kind ≠ .floatLiteral := by
    rw [tokenize_cast_group]
    decide
  have hread := read_cast_int hgroup rfl
  refine ⟨read_signed_cast, hread, fun htext => ?_⟩
  have hsettle := (text_eq_iff_settle_eq (m := {}) nofun hfloat hfloat' read_signed_cast hread
    (by cbv) (by cbv) rfl rfl).mp htext
  cases hsettle

/-- A cast under a sign and a sign under a cast have the same text. -/
theorem exists_text_of_two :
    ObjcExpr.read "-(int)a" = .ok (.ok (.unary .neg (.cast (.named "int") (.ident "a")))) ∧
    ObjcExpr.read "(int)-a" = .ok (.ok (.cast (.named "int") (.unary .neg (.ident "a")))) ∧
    (ObjcExpr.unary .neg (.cast (.named "int") (.ident "a"))).swift? {} =
      some (.unary .subtract (.cast (.identifier "a") (.named "CInt"))) ∧
    (ObjcExpr.cast (.named "int") (.unary .neg (.ident "a"))).swift? {} =
      some (.cast (.unary .subtract (.identifier "a")) (.named "CInt")) ∧
    Expr.unary .subtract (.cast (.identifier "a") (.named "CInt")) ≠
      .cast (.unary .subtract (.identifier "a")) (.named "CInt") ∧
    (Expr.unary .subtract (.cast (.identifier "a") (.named "CInt"))).text =
      (Expr.cast (.unary .subtract (.identifier "a")) (.named "CInt")).text := by
  have hsigned : ObjcExpr.read "-a" = .ok (.ok (.unary .neg (.ident "a"))) := by
    unfold ObjcExpr.read
    rw [tokenize_signed]
    rfl
  have hread := read_cast_int hsigned rfl
  refine ⟨read_signed_cast, hread, by cbv, by cbv, nofun, ?_⟩
  exact Expr.text_settle (.cast (.unary .subtract (.identifier "a")) (.named "CInt"))

end HeaderBridge
