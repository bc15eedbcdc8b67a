/-
  The texts of types tell the types apart, optional types included. Outside of brackets the text of
  a type is a row of members with ampersands between them: the members of a composition, else the
  type itself. A member is its core with the marks of its optionality behind it, and a core is a
  name, a name with arguments, a collection in brackets or a composition in parentheses. So a core
  is told by its first character and by what closes it, a member by the marks behind its core, and
  a type by the members of its row.
-/
import HeaderBridge.Proofs.Rendering.Types

namespace HeaderBridge.SwiftType

variable {a b c d : SwiftType} {name name' : String} {us vs : List Char}

/-! ## Types with clear names -/

/-- The characters of a type's text that are no part of a name. -/
def delimiters : List Char := ['<', '>', '[', ']', '(', ')', ',', ':', '&', '?', '!', ' ']

def IsNominal (name : String) : Prop :=
  name.toList ≠ [] ∧ ∀ c ∈ name.toList, c ∉ delimiters

/-- Every name inside is free of delimiters, and every composition has several members none of which
    is a composition. -/
inductive Regular : SwiftType → Prop where
  | named {name : String} (isName : IsNominal name) : Regular (.named name)
  | generic {name : String} {arguments : List SwiftType} (isName : IsNominal name)
      (each : ∀ a ∈ arguments, Regular a) : Regular (.generic name arguments)
  | optional {wrapped : SwiftType} (regular : Regular wrapped) : Regular (.optional wrapped)
  | implicit {wrapped : SwiftType} (regular : Regular wrapped) : Regular (.implicit wrapped)
  | array {element : SwiftType} (regular : Regular element) : Regular (.array element)
  | dictionary {key value : SwiftType} (keys : Regular key) (values : Regular value) :
      Regular (.dictionary key value)
  | composition {members : List SwiftType} (several : 2 ≤ members.length)
      (each : ∀ a ∈ members, Regular a) (single : ∀ a ∈ members, a.isComposition = false) :
      Regular (.composition members)

namespace IsNominal

theorem append_inj (h : IsNominal name) (h' : IsNominal name') (hu : ∀ c ∈ us.head?, c ∈ delimiters)
    (hv : ∀ c ∈ vs.head?, c ∈ delimiters) (heq : name.toList ++ us = name'.toList ++ vs) :
    name = name' ∧ us = vs := by
  obtain ⟨hnames, hrest⟩ := append_inj_of_class (p := (· ∉ delimiters)) h.2 h'.2
    (fun c hc => not_not_intro (hu c hc)) (fun c hc => not_not_intro (hv c hc)) heq
  exact ⟨String.toList_injective hnames, hrest⟩

theorem ne_delimiter {c : Char} (h : IsNominal name) (hc : c ∈ delimiters) :
    name.toList ++ us ≠ c :: vs := by
  intro heq
  cases hlist : name.toList with
  | nil => exact h.1 hlist
  | cons d ds =>
    rw [hlist] at heq
    obtain rfl := (List.cons.inj heq).1
    exact h.2 d (hlist ▸ List.mem_cons_self) hc

end IsNominal

/-! ## Cores and marks -/

/-- The marks of optionality at the end of a type. -/
def optionality : SwiftType → List Char
  | .optional t => t.optionality ++ ['?']
  | .implicit t => t.optionality ++ ['!']
  | _ => []

/-- The text of a type in front of marks of optionality. -/
def coreText : SwiftType → List Char
  | .composition members => '(' :: ((composition members).text.toList ++ [')'])
  | t => t.text.toList

/-- The type that a mark of optionality makes. -/
def marked (t : SwiftType) (mark : Char) : SwiftType :=
  if mark = '?' then .optional t else .implicit t

/-- A type is what the marks at its end make of its core. -/
theorem foldl_marked : ∀ t : SwiftType, t.optionality.foldl marked t.unwrapped = t
  | .optional t => by
    rw [optionality, List.foldl_append, unwrapped, foldl_marked t]
    rfl
  | .implicit t => by
    rw [optionality, List.foldl_append, unwrapped, foldl_marked t]
    rfl
  | .named _ | .generic _ _ | .array _ | .dictionary _ _ | .composition _ => rfl

theorem mem_optionality : ∀ {t : SwiftType}, ∀ c ∈ t.optionality, c = '?' ∨ c = '!'
  | .optional t, c, h => by
    obtain h | h := List.mem_append.mp h
    · exact mem_optionality c h
    · exact .inl (List.mem_singleton.mp h)
  | .implicit t, c, h => by
    obtain h | h := List.mem_append.mp h
    · exact mem_optionality c h
    · exact .inr (List.mem_singleton.mp h)

theorem toList_guarded (t : SwiftType)
    (h : t.isComposition = false → t.text.toList = t.unwrapped.coreText ++ t.optionality) :
    (guarded t (text t)).toList = t.unwrapped.coreText ++ t.optionality := by
  cases t with
  | composition members =>
    simp [guarded, unwrapped, coreText, optionality, String.toList_append]
  | _ => exact h rfl

/-- The text of a type that is no composition is its core with the marks behind it. -/
theorem toList_text : ∀ {t : SwiftType}, t.isComposition = false →
    t.text.toList = t.unwrapped.coreText ++ t.optionality
  | .optional t, _ => by
    rw [text, String.toList_append, toList_guarded t toList_text, List.append_assoc]
    rfl
  | .implicit t, _ => by
    rw [text, String.toList_append, toList_guarded t toList_text, List.append_assoc]
    rfl
  | .named _, _ | .generic _ _, _ | .array _, _ | .dictionary _ _, _ => (List.append_nil _).symm

theorem isOptional_unwrapped : ∀ t : SwiftType, t.unwrapped.isOptional = false
  | .optional t | .implicit t => isOptional_unwrapped t
  | .named _ | .generic _ _ | .array _ | .dictionary _ _ | .composition _ => rfl

theorem Regular.unwrapped (h : Regular a) : Regular a.unwrapped := by
  induction h with
  | optional _ ih | implicit _ ih => exact ih
  | named isName => exact .named isName
  | generic isName each => exact .generic isName each
  | array regular => exact .array regular
  | dictionary keys values => exact .dictionary keys values
  | composition several each single => exact .composition several each single

/-! ## Members -/

/-- The members of a composition, or the type itself. -/
def members : SwiftType → List SwiftType
  | .composition members => members
  | t => [t]

theorem members_single (h : a.isComposition = false) : a.members = [a] := by
  cases a with
  | composition => cases h
  | _ => rfl

theorem Regular.several_members (h : Regular a) (hs : a.isComposition = true) :
    2 ≤ a.members.length := by
  cases h with
  | composition several => exact several
  | _ => cases hs

theorem Regular.forall_members (h : Regular a) :
    ∀ m ∈ a.members, Regular m ∧ m.isComposition = false := by
  cases hs : a.isComposition with
  | false =>
    rw [members_single hs, List.forall_mem_singleton]
    exact ⟨h, hs⟩
  | true =>
    cases h with
    | composition several each single => exact fun m hm => ⟨each m hm, single m hm⟩
    | _ => cases hs

theorem Regular.members_inj (ha : Regular a) (hb : Regular b) (h : a.members = b.members) :
    a = b := by
  cases hsa : a.isComposition with
  | false =>
    cases hsb : b.isComposition with
    | false =>
      rw [members_single hsa, members_single hsb] at h
      exact List.singleton_inj.mp h
    | true =>
      have hlength := hb.several_members hsb
      rw [← h, members_single hsa] at hlength
      cases Nat.not_succ_le_self 1 hlength
  | true =>
    cases hsb : b.isComposition with
    | false =>
      have hlength := ha.several_members hsa
      rw [h, members_single hsb] at hlength
      cases Nat.not_succ_le_self 1 hlength
    | true =>
      cases ha with
      | composition =>
        cases hb with
        | composition => exact congrArg _ h
        | _ => cases hsb
      | _ => cases hsa

/-- The text of a type is the row of its members. -/
theorem Regular.exists_members (h : Regular a) : ∃ first more, a.members = first :: more ∧
    a.text.toList = first.text.toList ++ behindEach " & " more := by
  cases h with
  | @composition members several =>
    cases members with
    | nil => exact absurd several (by decide)
    | cons first more => exact ⟨first, more, rfl, by rw [text_composition, toList_items]⟩
  | _ => exact ⟨_, [], rfl, (List.append_nil _).symm⟩

/-! ## Rows with text behind them -/

/-- The text starts with one of the characters, if it starts with any. -/
def Opens (cs : List Char) (rest : List Char) : Prop := ∀ c ∈ rest.head?, c ∈ cs

theorem Opens.mono {cs ds : List Char} (h : Opens cs us) (hsub : cs ⊆ ds) : Opens ds us :=
  fun c hc => hsub (h c hc)

theorem opens_cons {cs : List Char} {c : Char} (hc : c ∈ cs) : Opens cs (c :: us) := by
  rintro _ ⟨⟩
  exact hc

/-- What may stand behind a type: the character that closes its brackets, or a separator. -/
def closers : List Char := [',', '>', ']', ':', ')']

/-- What may stand behind a core: everything that neither goes on a name nor opens its arguments. -/
def behindCore : List Char := [' ', '?', '!'] ++ closers

/-- The type is told from every type of a class by what is written of them, with text behind both. -/
def ToldFrom (P : SwiftType → Prop) (behind : List Char) (write : SwiftType → List Char)
    (a : SwiftType) : Prop :=
  ∀ {b : SwiftType} {us vs : List Char}, P b → Opens behind us → Opens behind vs →
    write a ++ us = write b ++ vs → a = b ∧ us = vs

def ToldCore : SwiftType → Prop :=
  ToldFrom (fun t => Regular t ∧ t.isOptional = false) behindCore coreText

def ToldMember : SwiftType → Prop :=
  ToldFrom (fun t => Regular t ∧ t.isComposition = false) (' ' :: closers) (·.text.toList)

def ToldWhole : SwiftType → Prop :=
  ToldFrom Regular closers (·.text.toList)

theorem behindEach_cons (separator : String) (t : SwiftType) (types : List SwiftType)
    (us : List Char) : behindEach separator (t :: types) ++ us =
      separator.toList ++ (t.text.toList ++ (behindEach separator types ++ us)) := by
  rw [behindEach, List.flatMap_cons, List.append_assoc, List.append_assoc]
  rfl

theorem opens_behindEach {behind : List Char} {separator : String} {mark : Char} {rest : List Char}
    (hseparator : separator.toList = mark :: rest) (hmark : mark ∈ behind) (hu : Opens behind us)
    (types : List SwiftType) : Opens behind (behindEach separator types ++ us) := by
  cases types with
  | nil => exact hu
  | cons t types =>
    rw [behindEach_cons, hseparator]
    exact opens_cons hmark

/-- Rows of types behind separators are told apart if their types are, and if no separator stands
    behind the rows. -/
theorem behindEach_inj {P : SwiftType → Prop} {behind : List Char} {separator : String} {mark : Char}
    {rest : List Char} {as bs : List SwiftType} (hseparator : separator.toList = mark :: rest)
    (hmark : mark ∈ behind) (has : ∀ a ∈ as, ToldFrom P behind (·.text.toList) a)
    (hbs : ∀ b ∈ bs, P b) (hu : Opens behind us) (hv : Opens behind vs)
    (hnu : us.head? ≠ some mark) (hnv : vs.head? ≠ some mark)
    (heq : behindEach separator as ++ us = behindEach separator bs ++ vs) : as = bs ∧ us = vs := by
  induction as generalizing bs with
  | nil =>
    cases bs with
    | nil => exact ⟨rfl, heq⟩
    | cons b bs =>
      obtain rfl : us = _ := heq
      rw [behindEach_cons, hseparator] at hnu
      exact absurd rfl hnu
  | cons a as ih =>
    cases bs with
    | nil =>
      obtain rfl : _ = vs := heq
      rw [behindEach_cons, hseparator] at hnv
      exact absurd rfl hnv
    | cons b bs =>
      obtain ⟨hfirst, hmore⟩ := List.forall_mem_cons.mp has
      obtain ⟨hfirst', hmore'⟩ := List.forall_mem_cons.mp hbs
      rw [behindEach_cons, behindEach_cons] at heq
      obtain ⟨rfl, hbehind⟩ := hfirst hfirst' (opens_behindEach hseparator hmark hu as)
        (opens_behindEach hseparator hmark hv bs) (List.append_cancel_left heq)
      obtain ⟨rfl, rfl⟩ := ih hmore hmore' hbehind
      exact ⟨rfl, rfl⟩

/-! ## From cores to types -/

theorem ToldCore.member (hsingle : a.isComposition = false) (h : ToldCore a.unwrapped) :
    ToldMember a := by
  rintro b us vs ⟨hb, hsingle'⟩ hu hv heq
  have hbehind : ∀ {t : SwiftType} {ws : List Char}, Opens (' ' :: closers) ws →
      Opens behindCore (t.optionality ++ ws) := by
    intro t ws hws
    cases hmarks : t.optionality with
    | nil => exact hws.mono (by decide)
    | cons c cs =>
      have hc : c = '?' ∨ c = '!' := mem_optionality c (hmarks ▸ List.mem_cons_self)
      refine opens_cons ?_
      obtain rfl | rfl := hc <;> decide
  have hmark : ∀ {ws : List Char}, Opens (' ' :: closers) ws →
      ∀ c ∈ ws.head?, ¬ (c = '?' ∨ c = '!') := by
    intro ws hws c hc hmark
    have hmem := hws c hc
    obtain rfl | rfl := hmark <;> revert hmem <;> decide
  simp only [toList_text hsingle, toList_text hsingle', List.append_assoc] at heq
  obtain ⟨hcore, hrest⟩ := h ⟨hb.unwrapped, isOptional_unwrapped b⟩ (hbehind hu) (hbehind hv) heq
  obtain ⟨hmarks, rfl⟩ := append_inj_of_class mem_optionality mem_optionality (hmark hu) (hmark hv)
    hrest
  refine ⟨?_, rfl⟩
  rw [← foldl_marked a, ← foldl_marked b, hcore, hmarks]

/-- A type is told if the cores of its members are. -/
theorem Regular.toldWhole (ha : Regular a) (h : ∀ m ∈ a.members, ToldCore m.unwrapped) :
    ToldWhole a := by
  intro b us vs hb hu hv heq
  have hseparator : (" & " : String).toList = ' ' :: ['&', ' '] := rfl
  have hblank : ∀ {ws : List Char}, Opens closers ws → ws.head? ≠ some ' ' :=
    fun hws hhead => absurd (hws ' ' hhead) (by decide)
  obtain ⟨first, more, hmembers, htext⟩ := ha.exists_members
  obtain ⟨first', more', hmembers', htext'⟩ := hb.exists_members
  have htold : ∀ m ∈ first :: more, ToldMember m := fun m hm =>
    ToldCore.member (ha.forall_members m (hmembers ▸ hm)).2 (h m (hmembers ▸ hm))
  have hregular := hb.forall_members
  rw [hmembers'] at hregular
  obtain ⟨hfirst, hmore⟩ := List.forall_mem_cons.mp htold
  obtain ⟨hfirst', hmore'⟩ := List.forall_mem_cons.mp hregular
  replace hu : Opens (' ' :: closers) us ∧ us.head? ≠ some ' ' :=
    ⟨hu.mono (List.subset_cons_self _ _), hblank hu⟩
  replace hv : Opens (' ' :: closers) vs ∧ vs.head? ≠ some ' ' :=
    ⟨hv.mono (List.subset_cons_self _ _), hblank hv⟩
  simp only [htext, htext', List.append_assoc] at heq
  obtain ⟨rfl, hrest⟩ := hfirst hfirst' (opens_behindEach hseparator List.mem_cons_self hu.1 more)
    (opens_behindEach hseparator List.mem_cons_self hv.1 more') heq
  obtain ⟨rfl, rfl⟩ := behindEach_inj hseparator List.mem_cons_self hmore hmore' hu.1 hv.1 hu.2 hv.2
    hrest
  exact ⟨ha.members_inj hb (hmembers.trans hmembers'.symm), rfl⟩

/-! ## Cores -/

theorem generic_core (name : String) (arguments : List SwiftType) (us : List Char) :
    (generic name arguments).coreText ++ us =
      name.toList ++ '<' :: ((", ".intercalate (texts arguments)).toList ++ '>' :: us) :=
  generic_append name arguments us

theorem array_core (element : SwiftType) (us : List Char) :
    (array element).coreText ++ us = '[' :: (element.text.toList ++ ']' :: us) :=
  array_append element us

theorem dictionary_core (key value : SwiftType) (us : List Char) :
    (dictionary key value).coreText ++ us =
      '[' :: (key.text.toList ++ ':' :: ' ' :: (value.text.toList ++ ']' :: us)) :=
  dictionary_append key value us

theorem composition_core (members : List SwiftType) (us : List Char) :
    (composition members).coreText ++ us =
      '(' :: ((composition members).text.toList ++ ')' :: us) := by
  rw [coreText, List.cons_append, List.append_assoc]
  rfl

theorem named_core (name : String) (us : List Char) :
    (named name).coreText ++ us = name.toList ++ us := by
  rw [coreText, text_named]
  nofun

/-- Behind a core no list of arguments opens. -/
theorem delimiter_of_opens (hu : Opens behindCore us) : ∀ c ∈ us.head?, c ∈ delimiters :=
  hu.mono (by decide)

theorem ne_list_of_opens (hu : Opens behindCore us) : us.head? ≠ some '<' :=
  fun h => absurd (hu '<' h) (by decide)

/-- The forms of a core. -/
inductive CoreForm where
  | named
  | generic
  | bracketed
  | grouped

/-- The form that the front of a text shows, by its first character or by the one behind the name. -/
def CoreForm.shownBy (text : List Char) : CoreForm :=
  if text.head? = some '[' then .bracketed
  else if text.head? = some '(' then .grouped
  else if (text.dropWhile (· ∉ delimiters)).head? = some '<' then .generic
  else .named

theorem CoreForm.shownBy_append (hname : IsNominal name) (hu : ∀ c ∈ us.head?, c ∈ delimiters) :
    shownBy (name.toList ++ us) = if us.head? = some '<' then .generic else .named := by
  have hfirst : ∀ c ∈ delimiters, (name.toList ++ us).head? ≠ some c := by
    intro c hc hhead
    obtain ⟨cs, hcs⟩ := List.head?_eq_some_iff.mp hhead
    exact hname.ne_delimiter hc hcs
  have hdrop : (name.toList ++ us).dropWhile (· ∉ delimiters) = us := by
    rw [List.dropWhile_append_of_pos fun c hc => decide_eq_true (hname.2 c hc)]
    cases us with
    | nil => rfl
    | cons c us =>
      have hc : decide (c ∉ delimiters) = false := decide_eq_false (not_not_intro (hu c rfl))
      rw [List.dropWhile_cons, hc, if_neg Bool.false_ne_true]
  unfold shownBy
  rw [if_neg (hfirst '[' (by decide)), if_neg (hfirst '(' (by decide)), hdrop]

/-- The regular types of a form. -/
inductive HasCoreForm : CoreForm → SwiftType → Prop where
  | named {name : String} (isName : IsNominal name) : HasCoreForm .named (.named name)
  | generic {name : String} {arguments : List SwiftType} (isName : IsNominal name)
      (each : ∀ a ∈ arguments, Regular a) : HasCoreForm .generic (.generic name arguments)
  | array {element : SwiftType} (regular : Regular element) : HasCoreForm .bracketed (.array element)
  | dictionary {key value : SwiftType} (keys : Regular key) (values : Regular value) :
      HasCoreForm .bracketed (.dictionary key value)
  | composition {members : List SwiftType} (regular : Regular (.composition members)) :
      HasCoreForm .grouped (.composition members)

/-- A core has the form that its text shows. -/
theorem Regular.hasCoreForm (h : Regular a) (hcore : a.isOptional = false)
    (hu : Opens behindCore us) : HasCoreForm (CoreForm.shownBy (a.coreText ++ us)) a := by
  cases h with
  | named isName =>
    rw [named_core, CoreForm.shownBy_append isName (delimiter_of_opens hu),
      if_neg (ne_list_of_opens hu)]
    exact .named isName
  | generic isName each =>
    rw [generic_core, CoreForm.shownBy_append isName (opens_cons (by decide)), List.head?_cons,
      if_pos rfl]
    exact .generic isName each
  | array regular =>
    rw [array_core]
    exact .array regular
  | dictionary keys values =>
    rw [dictionary_core]
    exact .dictionary keys values
  | composition several each single =>
    rw [composition_core]
    exact .composition (.composition several each single)
  | optional => cases hcore
  | implicit => cases hcore

theorem toldCore_named (hname : IsNominal name) : ToldCore (named name) := by
  rintro d us vs ⟨hd, hcore⟩ hu hv heq
  have hform := hd.hasCoreForm hcore hv
  rw [← heq, named_core, CoreForm.shownBy_append hname (delimiter_of_opens hu),
    if_neg (ne_list_of_opens hu)] at hform
  cases hform with
  | named hname' =>
    simp only [named_core] at heq
    obtain ⟨rfl, rfl⟩ := hname.append_inj hname' (delimiter_of_opens hu) (delimiter_of_opens hv) heq
    exact ⟨rfl, rfl⟩

theorem Regular.core_ne_closing (h : Regular a) (hcore : a.isOptional = false) :
    a.coreText ++ us ≠ '>' :: vs := by
  intro heq
  cases h with
  | named hname =>
    rw [named_core] at heq
    exact hname.ne_delimiter (by decide) heq
  | generic hname =>
    rw [generic_core] at heq
    exact hname.ne_delimiter (by decide) heq
  | array =>
    rw [array_core] at heq
    exact absurd (List.cons.inj heq).1 (by decide)
  | dictionary =>
    rw [dictionary_core] at heq
    exact absurd (List.cons.inj heq).1 (by decide)
  | composition =>
    rw [composition_core] at heq
    exact absurd (List.cons.inj heq).1 (by decide)
  | optional => cases hcore
  | implicit => cases hcore

/-- No type starts with the bracket that closes a list of arguments. -/
theorem Regular.ne_closing (h : Regular a) : a.text.toList ++ us ≠ '>' :: vs := by
  obtain ⟨first, more, hmembers, htext⟩ := h.exists_members
  obtain ⟨hfirst, hsingle⟩ := h.forall_members first (hmembers ▸ List.mem_cons_self)
  rw [htext, toList_text hsingle, List.append_assoc, List.append_assoc]
  exact hfirst.unwrapped.core_ne_closing (isOptional_unwrapped first)

theorem arguments_inj {as bs : List SwiftType} (has : ∀ a ∈ as, Regular a ∧ ToldWhole a)
    (hbs : ∀ b ∈ bs, Regular b)
    (heq : (", ".intercalate (texts as)).toList ++ '>' :: us =
      (", ".intercalate (texts bs)).toList ++ '>' :: vs) : as = bs ∧ us = vs := by
  have hseparator : (", " : String).toList = ',' :: [' '] := rfl
  cases as with
  | nil =>
    cases bs with
    | nil => exact ⟨rfl, (List.cons.inj heq).2⟩
    | cons b bs =>
      rw [toList_items, List.append_assoc] at heq
      exact absurd heq.symm (List.forall_mem_cons.mp hbs).1.ne_closing
  | cons a as =>
    obtain ⟨⟨hregular, hfirst⟩, hmore⟩ := List.forall_mem_cons.mp has
    rw [toList_items, List.append_assoc] at heq
    cases bs with
    | nil => exact absurd heq hregular.ne_closing
    | cons b bs =>
      obtain ⟨hfirst', hmore'⟩ := List.forall_mem_cons.mp hbs
      have hclosing : ∀ ws, Opens closers ('>' :: ws) := fun ws => opens_cons (by decide)
      rw [toList_items, List.append_assoc] at heq
      obtain ⟨rfl, hrest⟩ := hfirst hfirst'
        (opens_behindEach hseparator (by decide) (hclosing us) as)
        (opens_behindEach hseparator (by decide) (hclosing vs) bs) heq
      obtain ⟨rfl, hbehind⟩ := behindEach_inj hseparator (by decide) (fun a ha => (hmore a ha).2)
        hmore' (hclosing us) (hclosing vs) (by simp) (by simp) hrest
      exact ⟨rfl, (List.cons.inj hbehind).2⟩

theorem toldCore_generic {arguments : List SwiftType} (hname : IsNominal name)
    (each : ∀ a ∈ arguments, Regular a ∧ ToldWhole a) : ToldCore (generic name arguments) := by
  rintro d us vs ⟨hd, hcore⟩ - hv heq
  have hlist : ∀ ws, ∀ c ∈ ('<' :: ws).head?, c ∈ delimiters := fun ws => opens_cons (by decide)
  have hform := hd.hasCoreForm hcore hv
  rw [← heq, generic_core, CoreForm.shownBy_append hname (hlist _), List.head?_cons, if_pos rfl]
    at hform
  cases hform with
  | generic hname' each' =>
    simp only [generic_core] at heq
    obtain ⟨rfl, hrest⟩ := hname.append_inj hname' (hlist _) (hlist _) heq
    obtain ⟨rfl, rfl⟩ := arguments_inj each each' (List.cons.inj hrest).2
    exact ⟨rfl, rfl⟩

theorem toldCore_array (h : ToldWhole a) : ToldCore (array a) := by
  rintro d us vs ⟨hd, hcore⟩ - hv heq
  have hform : HasCoreForm .bracketed d := by
    have hform := hd.hasCoreForm hcore hv
    rwa [← heq, array_core] at hform
  simp only [array_core] at heq
  cases hform with
  | array regular' =>
    rw [array_core] at heq
    obtain ⟨rfl, hrest⟩ := h regular' (opens_cons (by decide)) (opens_cons (by decide))
      (List.cons.inj heq).2
    exact ⟨rfl, (List.cons.inj hrest).2⟩
  | dictionary keys' =>
    rw [dictionary_core] at heq
    obtain ⟨-, hrest⟩ := h keys' (opens_cons (by decide)) (opens_cons (by decide))
      (List.cons.inj heq).2
    exact absurd (List.cons.inj hrest).1 (by decide)

theorem toldCore_dictionary (hk : ToldWhole a) (hv : ToldWhole b) :
    ToldCore (dictionary a b) := by
  rintro d us vs ⟨hd, hcore⟩ - hbehind heq
  have hform : HasCoreForm .bracketed d := by
    have hform := hd.hasCoreForm hcore hbehind
    rwa [← heq, dictionary_core] at hform
  simp only [dictionary_core] at heq
  cases hform with
  | array regular' =>
    rw [array_core] at heq
    obtain ⟨-, hrest⟩ := hk regular' (opens_cons (by decide)) (opens_cons (by decide))
      (List.cons.inj heq).2
    exact absurd (List.cons.inj hrest).1 (by decide)
  | dictionary keys' values' =>
    rw [dictionary_core] at heq
    obtain ⟨rfl, hrest⟩ := hk keys' (opens_cons (by decide)) (opens_cons (by decide))
      (List.cons.inj heq).2
    obtain ⟨rfl, hbehind⟩ := hv values' (opens_cons (by decide)) (opens_cons (by decide))
      (List.cons.inj (List.cons.inj hrest).2).2
    exact ⟨rfl, (List.cons.inj hbehind).2⟩

theorem toldCore_composition {members : List SwiftType} (h : ToldWhole (composition members)) :
    ToldCore (composition members) := by
  rintro d us vs ⟨hd, hcore⟩ - hv heq
  have hform : HasCoreForm .grouped d := by
    have hform := hd.hasCoreForm hcore hv
    rwa [← heq, composition_core] at hform
  simp only [composition_core] at heq
  cases hform with
  | composition regular' =>
    rw [composition_core] at heq
    obtain ⟨hsame, hrest⟩ := h regular' (opens_cons (by decide)) (opens_cons (by decide))
      (List.cons.inj heq).2
    exact ⟨hsame, (List.cons.inj hrest).2⟩

/-! ## Types -/

/-- Under marks of optionality a type is a core of its own. -/
theorem Regular.toldCore_unwrapped (ha : Regular a) (h : ∀ m ∈ a.members, ToldCore m.unwrapped) :
    ToldCore a.unwrapped := by
  cases hs : a.isComposition with
  | false => exact h a (members_single hs ▸ List.mem_singleton_self a)
  | true =>
    cases ha with
    | composition several each single =>
      exact toldCore_composition ((Regular.composition several each single).toldWhole h)
    | _ => cases hs

/-- The cores of the members of a regular type are told. -/
theorem Regular.toldCore (ha : Regular a) : ∀ m ∈ a.members, ToldCore m.unwrapped := by
  induction ha with
  | named isName =>
    rw [members_single rfl, List.forall_mem_singleton]
    exact toldCore_named isName
  | generic isName each ih =>
    rw [members_single rfl, List.forall_mem_singleton]
    exact toldCore_generic isName fun a ha => ⟨each a ha, (each a ha).toldWhole (ih a ha)⟩
  | optional regular ih =>
    rw [members_single rfl, List.forall_mem_singleton]
    exact regular.toldCore_unwrapped ih
  | implicit regular ih =>
    rw [members_single rfl, List.forall_mem_singleton]
    exact regular.toldCore_unwrapped ih
  | array regular ih =>
    rw [members_single rfl, List.forall_mem_singleton]
    exact toldCore_array (regular.toldWhole ih)
  | dictionary keys values ihk ihv =>
    rw [members_single rfl, List.forall_mem_singleton]
    exact toldCore_dictionary (keys.toldWhole ihk) (values.toldWhole ihv)
  | composition several each single ih =>
    -- No member is a composition, so a member is the only member of its own.
    intro m hm
    exact ih m hm m (members_single (single m hm) ▸ List.mem_singleton_self m)

/-- Two regular types have the same text if and only if they are the same type. -/
theorem text_eq_iff_eq (ha : Regular a) (hb : Regular b) : a.text = b.text ↔ a = b := by
  constructor
  · intro h
    have hnil : Opens closers [] := nofun
    have heq : a.text.toList ++ [] = b.text.toList ++ [] := by rw [h]
    exact (ha.toldWhole ha.toldCore hb hnil hnil heq).1
  · rintro rfl
    rfl

/-- `[(A & B)?: Set<C!>]?` and `[(A & B)?: Set<C>]!` have different texts. -/
theorem text_eq_iff_eq_dictionary :
    let composition := optional (.composition [.named "A", .named "B"])
    let a := optional (.dictionary composition (.generic "Set" [.implicit (.named "C")]))
    let b := implicit (.dictionary composition (.generic "Set" [.named "C"]))
    Regular a ∧ Regular b ∧ a.text ≠ b.text := by
  have hname : ∀ name ∈ ["A", "B", "C", "Set"], IsNominal name := by simp [IsNominal, delimiters]
  have hcomposition : Regular (.composition [.named "A", .named "B"]) := by
    refine .composition (by decide) (List.forall_mem_cons.mpr ⟨?_, ?_⟩) (by decide)
    · exact .named (hname _ (by decide))
    · exact List.forall_mem_singleton.mpr (.named (hname _ (by decide)))
  have hset : ∀ t, Regular t → Regular (.generic "Set" [t]) := fun t ht =>
    .generic (hname _ (by decide)) (List.forall_mem_singleton.mpr ht)
  have hc : Regular (.named "C") := .named (hname _ (by decide))
  have ha := Regular.optional (.dictionary (.optional hcomposition) (hset _ (.implicit hc)))
  have hb := Regular.implicit (.dictionary (.optional hcomposition) (hset _ hc))
  exact ⟨ha, hb, (text_eq_iff_eq ha hb).not.mpr (by decide)⟩

end HeaderBridge.SwiftType
