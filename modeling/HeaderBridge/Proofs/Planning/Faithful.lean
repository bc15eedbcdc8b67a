/-
  The plan of a file says what the tree of its header says. Of the declarations and members that
  the tree holds, exactly those are planned whose names, types and selectors were read, in the
  order of the source; and what is planned leads back to its node, which is found by the number
  that the plan has of it, and knows the line and the column where this node begins.

  One lemma relates any list that is picked out of the children of a node to the children it is
  picked from (`forall₂_filterMap`); it is used once for each kind of declaration. That the node is
  found, and that it begins where some character of the source does, is known of well-formed trees.
-/
import HeaderBridge.Plan.OfHeader
import HeaderBridge.Proofs.Lexical.Lines
import HeaderBridge.Proofs.Tree.WellFormed

namespace HeaderBridge

/-! ## What the nodes declare -/

namespace Node

/-- The name of the class or protocol that a node declares, if it was read. -/
def typeName? (kind : TypeKind) (n : Node) : Option String :=
  match kind, n.kind with
  | .classType, .classInterface (.valid name) => some name.name
  | .protocolType, .protocolDeclaration (.valid name) => some name.name
  | _, _ => none

/-- The name of the property that a node declares, if its type and its name were read. -/
def propertyName? (n : Node) : Option String :=
  match n.kind with
  | .property ⟨.valid _, .valid name, _⟩ => some name.name
  | _ => none

/-- The method that a node declares, if its selector was read. -/
def readMethod? (n : Node) : Option (MethodData × Selector) :=
  match n.kind with
  | .method data => data.selector.value?.map fun selector => (data, selector)
  | _ => none

/-- Whether a node declares a method that makes a value of its class. -/
def declaresInitializer (n : Node) : Bool :=
  n.readMethod?.any fun (data, selector) => data.isInitializer selector

end Node

/-- The names of the arguments that a selector takes. -/
def Selector.argumentNames : Selector → List String
  | .simple _ => []
  | .keywords parts => parts.map (·.name.name)

/-! ## What is planned of them -/

section

variable (path source : String) (root : Node)

/-- What was planned from a node leads back to it: by the number of the node the tree finds the
    node itself, and a single entry tells where the text before it ends. -/
structure LeadsBack (provenance : Option Provenance) (history : History) (n : Node) : Prop where
  noted : provenance = some ⟨n.id, n.range⟩
  found : root.find? n.id = some n
  entered : ∃ span front back, n.range = some span ∧
    source.toList = front ++ back ∧ span.start = byteLength front ∧
    history.entries =
      [⟨"Creation", s!"{path} line {lineBehind front} column {columnBehind front}"⟩]

structure PropertyPlan.PlannedFrom (p : PropertyPlan) (n : Node) : Prop where
  name : n.propertyName? = some p.name
  leads : LeadsBack path source root p.source p.history n

structure MethodPlan.PlannedFrom (m : MethodPlan) (n : Node) : Prop where
  read : ∃ data selector, n.readMethod? = some (data, selector) ∧
    m.signature.name = selector.methodName ∧
    m.signature.parameters.map Parameter.name = selector.argumentNames
  leads : LeadsBack path source root m.source m.history n

structure InitializerPlan.PlannedFrom (i : InitializerPlan) (n : Node) : Prop where
  read : ∃ data selector, n.readMethod? = some (data, selector) ∧
    i.parameters.map Parameter.name = selector.argumentNames
  leads : LeadsBack path source root i.source i.history n

/-- The members of a type, in order, are those that the children of its node declare; a method
    stands in one of two lists. -/
structure TypePlan.PlannedFrom (t : TypePlan) (n : Node) : Prop where
  name : n.typeName? t.kind = some t.name
  leads : LeadsBack path source root t.source t.history n
  properties : List.Forall₂ (PropertyPlan.PlannedFrom path source root) t.properties
    (n.children.filter (·.propertyName?.isSome))
  methods : List.Forall₂ (MethodPlan.PlannedFrom path source root) t.methods
    (n.children.filter fun child => child.readMethod?.isSome && !child.declaresInitializer)
  initializers : List.Forall₂ (InitializerPlan.PlannedFrom path source root) t.initializers
    (n.children.filter fun child => child.readMethod?.isSome && child.declaresInitializer)
  inOrder : n.children.Pairwise Node.Precedes

/-- The types of a file are those that the children of the root declare, first the classes and
    then the protocols, each in the order of the source. -/
structure FilePlan.PlannedFrom (f : FilePlan) : Prop where
  types : List.Forall₂ (TypePlan.PlannedFrom path source root) f.types
    (root.children.filter (fun child => (child.typeName? .classType).isSome) ++
      root.children.filter fun child => (child.typeName? .protocolType).isSome)
  inOrder : root.children.Pairwise Node.Precedes

end

/-! ## The lists -/

/-- What is planned of what is picked out of a list is related, one by one, to what it comes from,
    if that is told by a test. -/
theorem forall₂_filterMap {α β γ : Type} {pick : α → Option β} {plan : β → Option γ}
    {test : α → Bool} {R : γ → α → Prop} {as : List α}
    (h : ∀ a ∈ as, ((pick a).bind plan = none ∧ test a = false) ∨
      ∃ c, (pick a).bind plan = some c ∧ test a = true ∧ R c a) :
    List.Forall₂ R ((as.filterMap pick).filterMap plan) (as.filter test) := by
  rw [List.filterMap_filterMap]
  induction as with
  | nil => exact .nil
  | cons a as ih =>
    obtain ⟨ha, has⟩ := List.forall_mem_cons.mp h
    rw [List.filterMap_cons, List.filter_cons]
    rcases ha with ⟨hnone, htest⟩ | ⟨c, hc, htest, hrelated⟩
    · rw [hnone, htest]
      exact ih has
    · rw [hc, htest]
      exact .cons hrelated (ih has)

/-! ## Leading back -/

variable {path source : String} {root : Node} {row : List Token}

/-- A node below the root begins behind some characters of the source. -/
theorem Node.WellFormed.exists_front (hroot : root.WellFormed row)
    (hrow : Halved (significant (tokenize source)) row) {n : Node}
    (hn : n ∈ sequenceAll root.children) :
    ∃ span front back, n.range = some span ∧ source.toList = front ++ back ∧
      span.start = byteLength front := by
  obtain ⟨span, own, hrange, hown, hcovers⟩ := hroot.covered n hn
  have hmem : own.head hcovers.ne_nil ∈ row := hown.subset (List.head_mem _)
  obtain ⟨front, back, hsource, hstart, _⟩ :=
    hrow.atPlace (fun _ ht => List.mem_of_mem_filter ht) _ hmem
  exact ⟨span, front, _, hrange, hsource, hcovers.start.trans hstart⟩

theorem Node.WellFormed.leadsBack (hroot : root.WellFormed row)
    (hrow : Halved (significant (tokenize source)) row) {n : Node}
    (hn : n ∈ sequenceAll root.children) :
    LeadsBack path source root (some n.provenance) (n.creation path (LineIndex.ofSource source))
      n := by
  obtain ⟨span, front, back, hrange, hsource, hstart⟩ := hroot.exists_front hrow hn
  have hmem : n ∈ root.sequence := by
    rw [sequence_eq]
    exact List.mem_cons_of_mem _ hn
  refine ⟨rfl, (hroot.found n.id n).mpr ⟨hmem, rfl⟩, span, front, back, hrange, hsource, hstart, ?_⟩
  unfold creation
  rw [hrange]
  simp only [hstart, LineIndex.position_of_append hsource]
  rfl

/-! ## Members -/

theorem Selector.map_name_parameters (m : TypeMap) (selector : Selector) :
    (selector.parameters m).map Parameter.name = selector.argumentNames := by
  cases selector with
  | simple name => rfl
  | keywords parts =>
    cases parts with
    | nil => rfl
    | cons first others =>
      simp only [parameters, argumentNames, List.map_cons, List.map_map]
      rfl

/-- The label that an initializer has from its name changes no name of a parameter. -/
theorem Selector.map_name_initializerParameters (m : TypeMap) (selector : Selector) :
    (selector.initializerParameters m).map Parameter.name = selector.argumentNames := by
  rw [← map_name_parameters m]
  unfold initializerParameters
  split
  next first others label hparameters _ => rw [hparameters]; rfl
  next => rfl

section

variable {m : TypeMap} {n : Node} (hroot : root.WellFormed row)
  (hrow : Halved (significant (tokenize source)) row) (hn : n ∈ root.children)

include hroot hrow hn

/-- Children of a declaration of the root lead back to their nodes. -/
theorem leadsBack_of_child (path : String) {child : Node} (hchild : child ∈ n.children) :
    LeadsBack path source root (some child.provenance)
      (child.creation path (LineIndex.ofSource source)) child := by
  refine hroot.leadsBack hrow (Node.sequence_subset_sequenceAll hn ?_)
  exact Node.mem_sequence_of_mem_children hchild

theorem properties_plannedFrom :
    List.Forall₂ (PropertyPlan.PlannedFrom path source root)
      (n.properties.filterMap fun (child, data) =>
        PropertyPlan.ofNode? m path (LineIndex.ofSource source) child data)
      (n.children.filter (·.propertyName?.isSome)) := by
  refine forall₂_filterMap fun child hchild => ?_
  have hleads := leadsBack_of_child hroot hrow hn path hchild
  obtain ⟨id, kind, range, children⟩ := child
  cases kind with
  | property data =>
    obtain ⟨_ | type | _, _ | name | _, _⟩ := data
    case valid.valid => exact .inr ⟨_, rfl, rfl, rfl, hleads⟩
    all_goals exact .inl ⟨rfl, rfl⟩
  | _ => exact .inl ⟨rfl, rfl⟩

theorem methods_plannedFrom :
    List.Forall₂ (MethodPlan.PlannedFrom path source root)
      (n.methods.filterMap fun (child, data) =>
        MethodPlan.ofNode? m path (LineIndex.ofSource source) child data)
      (n.children.filter fun child => child.readMethod?.isSome && !child.declaresInitializer) := by
  refine forall₂_filterMap fun child hchild => ?_
  have hleads := leadsBack_of_child hroot hrow hn path hchild
  obtain ⟨id, kind, range, children⟩ := child
  cases kind with
  | method data =>
    obtain ⟨isClassMethod, returns, _ | selector | _, isOptional⟩ := data
    case valid =>
      by_cases hinit : MethodData.isInitializer
        ⟨isClassMethod, returns, .valid selector, isOptional⟩ selector
      · exact .inl ⟨if_pos hinit, congrArg (!·) hinit⟩
      · refine .inr ⟨_, if_neg hinit, congrArg (!·) (eq_false_of_ne_true hinit), ?_, hleads⟩
        exact ⟨_, selector, rfl, rfl, selector.map_name_parameters m⟩
    all_goals exact .inl ⟨rfl, rfl⟩
  | _ => exact .inl ⟨rfl, rfl⟩

theorem initializers_plannedFrom :
    List.Forall₂ (InitializerPlan.PlannedFrom path source root)
      (n.methods.filterMap fun (child, data) =>
        InitializerPlan.ofNode? m path (LineIndex.ofSource source) child data)
      (n.children.filter fun child => child.readMethod?.isSome && child.declaresInitializer) := by
  refine forall₂_filterMap fun child hchild => ?_
  have hleads := leadsBack_of_child hroot hrow hn path hchild
  obtain ⟨id, kind, range, children⟩ := child
  cases kind with
  | method data =>
    obtain ⟨isClassMethod, returns, _ | selector | _, isOptional⟩ := data
    case valid =>
      by_cases hinit : MethodData.isInitializer
        ⟨isClassMethod, returns, .valid selector, isOptional⟩ selector
      · refine .inr ⟨_, if_pos hinit, hinit, ?_, hleads⟩
        exact ⟨_, selector, rfl, selector.map_name_initializerParameters m⟩
      · exact .inl ⟨if_neg hinit, eq_false_of_ne_true hinit⟩
    all_goals exact .inl ⟨rfl, rfl⟩
  | _ => exact .inl ⟨rfl, rfl⟩

/-! ## Types -/

/-- The plan of a class or protocol is planned from the child of the root that declares it. -/
theorem TypePlan.ofNode_plannedFrom {kind : TypeKind} {name : String} {supertype : Option String}
    (hname : n.typeName? kind = some name) :
    TypePlan.PlannedFrom path source root
      (TypePlan.ofNode path (LineIndex.ofSource source) kind name supertype n) n where
  name := hname
  leads := hroot.leadsBack hrow (Node.mem_sequenceAll_of_mem hn)
  properties := properties_plannedFrom hroot hrow hn
  methods := methods_plannedFrom hroot hrow hn
  initializers := initializers_plannedFrom hroot hrow hn
  inOrder := hroot.ordered n (Node.mem_sequence_of_mem_children hn)

omit hn

theorem classes_plannedFrom :
    List.Forall₂ (TypePlan.PlannedFrom path source root)
      (root.classInterfaces.filterMap fun (n, name) =>
        TypePlan.ofClass? path (LineIndex.ofSource source) n name)
      (root.children.filter fun child => (child.typeName? .classType).isSome) := by
  refine forall₂_filterMap fun child hchild => ?_
  obtain ⟨id, kind, range, children⟩ := child
  cases kind with
  | classInterface name =>
    cases name with
    | valid name => exact .inr ⟨_, rfl, rfl, TypePlan.ofNode_plannedFrom hroot hrow hchild rfl⟩
    | _ => exact .inl ⟨rfl, rfl⟩
  | _ => exact .inl ⟨rfl, rfl⟩

theorem protocols_plannedFrom :
    List.Forall₂ (TypePlan.PlannedFrom path source root)
      (root.protocolDeclarations.filterMap fun (n, name) =>
        TypePlan.ofProtocol? path (LineIndex.ofSource source) n name)
      (root.children.filter fun child => (child.typeName? .protocolType).isSome) := by
  refine forall₂_filterMap fun child hchild => ?_
  obtain ⟨id, kind, range, children⟩ := child
  cases kind with
  | protocolDeclaration name =>
    cases name with
    | valid name => exact .inr ⟨_, rfl, rfl, TypePlan.ofNode_plannedFrom hroot hrow hchild rfl⟩
    | _ => exact .inl ⟨rfl, rfl⟩
  | _ => exact .inl ⟨rfl, rfl⟩

end

/-! ## Files -/

/-- Every source is read into a tree from which the plan of its file comes: of each declaration and
    member that was read, and of nothing else, in the order of the source, and leading back to the
    node and to the place that it comes from. -/
theorem FilePlan.plannedFrom_of_read (path source : String) (log : DiagnosticLog)
    (origin : Option String) :
    ∃ h, Header.read source log origin = .ok h ∧
      (FilePlan.ofHeader path source h.root).PlannedFrom path source h.root := by
  obtain ⟨_, hdone, _⟩ := exists_header_done source log origin
  obtain ⟨_, row, _, hrow, hread, hroot⟩ := exists_read_of_header hdone
  refine ⟨_, hread, ?_, hroot.ordered _ ?_⟩
  · exact List.rel_append (classes_plannedFrom hroot hrow) (protocols_plannedFrom hroot hrow)
  · rw [Node.sequence_eq]
    exact List.mem_cons_self

end HeaderBridge
