/-
  Known types that are put together step by step. A step states the supertype or adds a protocol, a
  property, an initializer or a method, and the steps of each kind work on a list of their own
  (`build_eq`).

  Methods are told apart by their selectors, which are texts. Where no name and no label has one of
  the marks in it that a selector is punctuated with, a selector has one reading (`selector_inj`),
  so methods are told apart by all that a declaration shows of them, and by nothing else. What is
  built then has the first entry of each key, in the order in which the keys came first, and a
  method is passed over only for an earlier one with the same face (`build_firstEntries`).
-/
import HeaderBridge.Typing.KnownType
import HeaderBridge.Proofs.Quoting.Denotation
import HeaderBridge.Proofs.Typing.Keys

namespace HeaderBridge

/-! ## Selectors -/

/-- Where a row ends that is closed by a mark and does not have the mark in it. -/
theorem append_inj_of_mark {mark : Char} {xs ys us vs : List Char} (hxs : mark ∉ xs)
    (hys : mark ∉ ys) (h : xs ++ mark :: us = ys ++ mark :: vs) : xs = ys ∧ us = vs := by
  have hfree : ∀ {cs : List Char}, mark ∉ cs → ∀ c ∈ cs, c ≠ mark :=
    fun hcs c hc hmark => hcs (hmark ▸ hc)
  have hclosed : ∀ cs : List Char, ∀ c ∈ (mark :: cs).head?, ¬ c ≠ mark := by
    rintro cs _ ⟨⟩ hmark
    exact hmark rfl
  obtain ⟨hrow, hbehind⟩ := append_inj_of_class (hfree hxs) (hfree hys) (hclosed us) (hclosed vs) h
  exact ⟨hrow, (List.cons.inj hbehind).2⟩

/-- Texts that are each closed by a mark are told apart by their row. -/
theorem flatMap_closed_inj {mark : Char} {ls ms : List String} (hls : ∀ l ∈ ls, mark ∉ l.toList)
    (hms : ∀ m ∈ ms, mark ∉ m.toList)
    (h : ls.flatMap (fun l => l.toList ++ [mark]) = ms.flatMap (fun m => m.toList ++ [mark])) :
    ls = ms := by
  induction ls generalizing ms with
  | nil =>
    cases ms with
    | nil => rfl
    | cons m ms => simp at h
  | cons l ls ih =>
    cases ms with
    | nil => simp at h
    | cons m ms =>
      -- In both rows the first mark closes the first text.
      rw [List.forall_mem_cons] at hls hms
      simp only [List.flatMap_cons, List.append_assoc, List.singleton_append] at h
      obtain ⟨hl, hrest⟩ := append_inj_of_mark hls.1 hms.1 h
      rw [String.toList_inj.mp hl, ih hls.2 hms.2 hrest]

namespace Signature

variable {a b : Signature}

def labels (m : Signature) : List String := m.parameters.map (·.label)

@[simp] theorem length_labels (m : Signature) : m.labels.length = m.arity := List.length_map _

/-- What a declaration shows of a method: whether it is static, its name and all its labels. -/
def face (m : Signature) : Bool × String × List String := (m.isStatic, m.name, m.labels)

/-- Neither the name nor a label has one of the marks in it that a selector is punctuated with. -/
def Unmarked (m : Signature) : Prop :=
  ∀ word ∈ m.name :: m.labels, '(' ∉ word.toList ∧ ')' ∉ word.toList ∧ ':' ∉ word.toList

instance (m : Signature) : Decidable m.Unmarked :=
  inferInstanceAs (Decidable (∀ word ∈ m.name :: m.labels, _))

theorem selector_eq (m : Signature) :
    m.selector = m.name ++ "(" ++ String.join (m.labels.map (· ++ ":")) ++ ")" := by
  unfold selector labels
  rw [List.map_map]
  rfl

theorem toList_selector (m : Signature) : m.selector.toList =
    m.name.toList ++ '(' :: (m.labels.flatMap (fun l => l.toList ++ [':']) ++ [')']) := by
  rw [selector_eq]
  simp [String.toList_join, List.flatMap_map]

/-- A selector has one name and one row of labels if the name has no parenthesis in it and the
    labels have no colon. -/
theorem selector_inj (ha : '(' ∉ a.name.toList) (hb : '(' ∉ b.name.toList)
    (hla : ∀ l ∈ a.labels, ':' ∉ l.toList) (hlb : ∀ l ∈ b.labels, ':' ∉ l.toList)
    (h : a.selector = b.selector) : a.name = b.name ∧ a.labels = b.labels := by
  have hlists := congrArg String.toList h
  rw [toList_selector, toList_selector] at hlists
  obtain ⟨hname, hbehind⟩ := append_inj_of_mark ha hb hlists
  exact ⟨String.toList_inj.mp hname, flatMap_closed_inj hla hlb (List.append_cancel_right hbehind)⟩

/-- A colon in a label makes one selector of two rows of labels. -/
example : selector ⟨"f", [⟨"a:b", "x", .int⟩], .void, false⟩ =
    selector ⟨"f", [⟨"a", "x", .int⟩, ⟨"b", "y", .int⟩], .void, false⟩ := by decide

/-- Without marks in their words, selectors tell apart what declarations show. -/
theorem key_eq_iff (ha : a.Unmarked) (hb : b.Unmarked) : a.key = b.key ↔ a.face = b.face := by
  obtain ⟨hname, hlabels⟩ := List.forall_mem_cons.mp ha
  obtain ⟨hname', hlabels'⟩ := List.forall_mem_cons.mp hb
  simp only [key, face, Prod.mk.injEq]
  refine and_congr_right fun _ => ⟨?_, fun h => ?_⟩
  · exact selector_inj hname.1 hname'.1 (fun l hl => (hlabels l hl).2.2)
      fun l hl => (hlabels' l hl).2.2
  · rw [selector_eq, selector_eq, h.1, h.2]

end Signature

/-! ## Steps -/

/-- One step of putting a known type together. -/
inductive BuildStep where
  | setSupertype (s : Supertype KnownType)
  | addProtocol (name : String)
  | addProperty (name : String) (storage : Storage)
  | addInitializer (parameters : List Parameter)
  | addMethod (m : Signature)

namespace BuildStep

/-! What a step of each kind brings. -/

@[simp] def supertype? : BuildStep → Option (Supertype KnownType)
  | setSupertype s => some s
  | _ => none

@[simp] def protocol? : BuildStep → Option String
  | addProtocol name => some name
  | _ => none

@[simp] def property? : BuildStep → Option KnownProperty
  | addProperty name storage => some ⟨name, storage⟩
  | _ => none

@[simp] def initializer? : BuildStep → Option (List Parameter)
  | addInitializer parameters => some parameters
  | _ => none

@[simp] def method? : BuildStep → Option Signature
  | addMethod m => some m
  | _ => none

end BuildStep

namespace KnownType

def perform (t : KnownType) : BuildStep → KnownType
  | .setSupertype s => { t with supertype := some s }
  | .addProtocol name => t.addProtocol name
  | .addProperty name storage => t.addProperty name storage
  | .addInitializer parameters => t.addInitializer parameters
  | .addMethod m => t.addMethod m

/-- The type of a name after some steps. -/
def build (name : String) (steps : List BuildStep) : KnownType := steps.foldl perform { name }

/-- Each step works on the list of its kind, and the last supertype counts. -/
theorem foldl_perform (steps : List BuildStep) (t : KnownType) : steps.foldl perform t = { t with
    supertype := (steps.filterMap (·.supertype?)).getLast?.or t.supertype
    protocols := (steps.filterMap (·.protocol?)).foldl (keepFirst id) t.protocols
    properties := (steps.filterMap (·.property?)).foldl (keepFirst KnownProperty.name) t.properties
    initializers := t.initializers ++ steps.filterMap (·.initializer?)
    methods := (steps.filterMap (·.method?)).foldl (keepFirst Signature.key) t.methods } := by
  -- A step leaves all but one of the lists to those behind it, so the type they start from is free.
  induction steps generalizing t with
  | nil => cases t; simp
  | cons step steps ih =>
    rw [List.foldl_cons, ih]
    cases step with
    | setSupertype s => simp [perform, List.getLast?_cons]
    | addProtocol name => rw [perform, addProtocol_eq]; rfl
    | addProperty name storage => rw [perform, addProperty_eq]; rfl
    | addInitializer parameters => simp [perform, addInitializer]
    | addMethod m => rw [perform, addMethod_eq]; rfl

/-- Of what is added to each list, the first entry of each key is in what is built. -/
theorem build_eq (name : String) (steps : List BuildStep) : build name steps =
    { name
      supertype := (steps.filterMap (·.supertype?)).getLast?
      protocols := firstOfEach id (steps.filterMap (·.protocol?))
      properties := firstOfEach KnownProperty.name (steps.filterMap (·.property?))
      initializers := steps.filterMap (·.initializer?)
      methods := firstOfEach Signature.key (steps.filterMap (·.method?)) } := by
  unfold build
  rw [foldl_perform, Option.or_none, List.nil_append]
  rfl

/-- Without marks in their words, methods are kept by their faces. -/
theorem methods_build {name : String} {steps : List BuildStep}
    (h : ∀ m ∈ steps.filterMap (·.method?), m.Unmarked) :
    (build name steps).methods = firstOfEach Signature.face (steps.filterMap (·.method?)) := by
  rw [build_eq]
  exact firstOfEach_congr _ fun a ha b hb => Signature.key_eq_iff (h a ha) (h b hb)

/-! ## Lookups -/

section

variable {name : String} {steps before after : List BuildStep} {m : Signature}

theorem conformsTo_build (p : String) :
    (build name steps).conformsTo p = (steps.filterMap (·.protocol?)).contains p := by
  have hmem := mem_map_firstOfEach id (steps.filterMap (·.protocol?)) p
  rw [List.map_id, List.map_id] at hmem
  rw [build_eq, conformsTo, Bool.eq_iff_iff, List.contains_iff_mem, List.contains_iff_mem, hmem]

theorem property?_build (p : String) :
    (build name steps).property? p = (steps.filterMap (·.property?)).find? (·.name == p) := by
  rw [build_eq]
  exact find?_key_firstOfEach KnownProperty.name _ (· == p)

/-- A name and a number of parameters are asked of the face. -/
theorem method?_build (h : ∀ m ∈ steps.filterMap (·.method?), m.Unmarked) (called : String)
    (arity : Nat) : (build name steps).method? called arity =
      (steps.filterMap (·.method?)).find? fun m => m.name == called && m.arity == arity := by
  unfold method?
  rw [methods_build h]
  simp only [← Signature.length_labels]
  exact find?_key_firstOfEach Signature.face _ fun face =>
    face.2.1 == called && face.2.2.length == arity

/-- A method with a new face is kept behind the methods before it. -/
theorem methods_build_append_cons
    (h : ∀ m' ∈ (before ++ .addMethod m :: after).filterMap (·.method?), m'.Unmarked)
    (hface : m.face ∉ (before.filterMap (·.method?)).map Signature.face) :
    (build name before).methods ++ [m] <+:
      (build name (before ++ .addMethod m :: after)).methods := by
  have hadded : (before ++ .addMethod m :: after).filterMap (·.method?) =
      before.filterMap (·.method?) ++ m :: after.filterMap (·.method?) := List.filterMap_append
  have hbefore : ∀ m' ∈ before.filterMap (·.method?), m'.Unmarked := fun m' hm' =>
    h m' (hadded ▸ List.mem_append_left _ hm')
  rw [methods_build hbefore, methods_build h, hadded]
  exact firstOfEach_append_cons Signature.face hface _

end

/-- Whatever the steps: if no method that is added has a name or a label with a parenthesis or a
    colon in it, what is built has the first entry of each name among the protocols and the
    properties, and of each face among the methods. Every lookup finds what was added first, and a
    method is kept behind the methods before it unless one that was added earlier has its face. -/
theorem build_firstEntries (name : String) (steps : List BuildStep)
    (h : ∀ m ∈ steps.filterMap (·.method?), m.Unmarked) :
    FirstEntries id (steps.filterMap (·.protocol?)) (build name steps).protocols ∧
    FirstEntries KnownProperty.name (steps.filterMap (·.property?)) (build name steps).properties ∧
    FirstEntries Signature.face (steps.filterMap (·.method?)) (build name steps).methods ∧
    (∀ p, (build name steps).conformsTo p = (steps.filterMap (·.protocol?)).contains p) ∧
    (∀ p, (build name steps).property? p = (steps.filterMap (·.property?)).find? (·.name == p)) ∧
    (∀ called arity, (build name steps).method? called arity =
      (steps.filterMap (·.method?)).find? fun m => m.name == called && m.arity == arity) ∧
    ∀ before m after, steps = before ++ .addMethod m :: after →
      (∃ m' ∈ before.filterMap (·.method?), m'.face = m.face) ∨
        (build name before).methods ++ [m] <+: (build name steps).methods := by
  refine ⟨?_, ?_, ?_, conformsTo_build, property?_build, method?_build h, ?_⟩
  · rw [build_eq]
    exact firstEntries_firstOfEach id _
  · rw [build_eq]
    exact firstEntries_firstOfEach KnownProperty.name _
  · rw [methods_build h]
    exact firstEntries_firstOfEach Signature.face _
  · rintro before m after rfl
    by_cases hface : m.face ∈ (before.filterMap (·.method?)).map Signature.face
    · exact .inl (List.mem_map.mp hface)
    · exact .inr (methods_build_append_cons h hface)

/-- A method `set` of one value. -/
def setter (label : String) (type : SwiftType) (isStatic : Bool) : Signature :=
  ⟨"set", [⟨label, "value", type⟩], .void, isStatic⟩

/-- A property and a protocol are added twice, and the second setter has the face of the first. -/
def setterSteps : List BuildStep := [
  .addProperty "p" (.var .int), .addMethod (setter "value" .int false), .addProtocol "NSCopying",
  .addMethod (setter "value" .string false), .addMethod (setter "value" .int true),
  .addProperty "p" (.var .string), .addMethod (setter "other" .int false), .addProtocol "NSCopying"]

theorem build_firstEntries_setters :
    (build "A" setterSteps).protocols = ["NSCopying"] ∧
    (build "A" setterSteps).methods.map Signature.face =
      [(false, "set", ["value"]), (true, "set", ["value"]), (false, "set", ["other"])] ∧
    (build "A" setterSteps).property? "p" = some ⟨"p", .var .int⟩ ∧
    (build "A" setterSteps).method? "set" 1 = some (setter "value" .int false) := by
  have hunmarked : ∀ m ∈ setterSteps.filterMap (·.method?), m.Unmarked := by decide
  obtain ⟨hprotocols, -, hmethods, -, hproperty, hmethod, -⟩ :=
    build_firstEntries "A" setterSteps hunmarked
  have hnames := hprotocols.order
  rw [List.map_id, List.map_id] at hnames
  exact ⟨hnames.trans (by decide), hmethods.order.trans (by decide),
    (hproperty "p").trans (by decide), (hmethod "set" 1).trans (by decide)⟩

end KnownType

end HeaderBridge
