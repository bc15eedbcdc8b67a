/-
  What folding does to a session, step by step. Every step adds at most the constant of one
  directive, to the file of its header, and changes the type of no other name. Behind all steps the
  types of all values are worked out, each in its own place.
-/
import HeaderBridge.Proofs.Folding.Meaning
import Mathlib

namespace HeaderBridge

/-! ## Changing the first entry -/

theorem updateFirst_eq_modify {α : Type} (p : α → Bool) (g : α → α) (as : List α) :
    updateFirst p g as = as.modify (as.findIdx p) g := by
  induction as with
  | nil => rfl
  | cons a as ih =>
    unfold updateFirst
    rw [List.findIdx_cons]
    cases p a with
    | true => rfl
    | false => simp [ih]

namespace Plan

/-- The position of the file for a header, or the number of files. -/
def home (p : Plan) (path : String) : Nat := p.files.findIdx (·.sourcePath == path)

theorem file?_eq_getElem? (p : Plan) (path : String) : p.file? path = p.files[p.home path]? := by
  unfold file? home
  induction p.files with
  | nil => rfl
  | cons f fs ih =>
    rw [List.find?_cons, List.findIdx_cons]
    cases f.sourcePath == path with
    | true => rfl
    | false => simpa using ih

theorem home_withoutValues (p : Plan) (path : String) : p.withoutValues.home path = p.home path := by
  unfold home withoutValues
  rw [List.findIdx_map]
  rfl

theorem updateFile_files (p : Plan) (path : String) (g : FilePlan → FilePlan) :
    (p.updateFile path g).files = p.files.modify (p.home path) g :=
  updateFirst_eq_modify ..

theorem withoutValues_addValue (p : Plan) (path : String) (v : ValuePlan) :
    (p.updateFile path (·.addValue v)).withoutValues = p.withoutValues := by
  unfold withoutValues
  rw [updateFile_files]
  congr 1
  apply List.ext_getElem?
  intro i
  simp only [List.getElem?_map, List.getElem?_modify]
  cases p.files[i]? with
  | none => rfl
  | some f => by_cases hi : p.home path = i <;> simp [hi, FilePlan.addValue, FilePlan.withoutValues]

end Plan

/-! ## One directive -/

/-- A constant among other definitions gives a type to no name but its own. -/
theorem FilePlan.findSome?_addValue {name : String} {v : ValuePlan} (hv : v.name ≠ name)
    (f : FilePlan) : (f.addValue v).definitions.findSome? (Definition.typeFor? name) =
      f.definitions.findSome? (Definition.typeFor? name) := by
  unfold definitions addValue
  simp only [List.map_append, List.findSome?_append, List.map_cons, List.map_nil,
    List.findSome?_cons, List.findSome?_nil, Definition.typeFor?, if_neg hv, Option.or_none]

theorem Plan.findSome?_addValue {name : String} {v : ValuePlan} (hv : v.name ≠ name) (p : Plan)
    (path : String) : (p.updateFile path (·.addValue v)).globalIndex.findSome?
        (Definition.typeFor? name) = p.globalIndex.findSome? (Definition.typeFor? name) := by
  unfold globalIndex definitions updateFile
  rw [findSome?_distinctValues, findSome?_distinctValues]
  induction p.files with
  | nil => rfl
  | cons f fs ih =>
    unfold updateFirst
    split
    · simp only [List.flatMap_cons, List.findSome?_append, FilePlan.findSome?_addValue hv]
    · simp only [List.flatMap_cons, List.findSome?_append, ih]

theorem Surroundings.typeOf?_scope (w : Surroundings) (f : FilePlan) (name : String) :
    (w.scope f).typeOf? name = (f.definitions.findSome? (Definition.typeFor? name)).or
      ((w.index.findSome? (Definition.typeFor? name)).or
        (w.globals.findSome? (Definition.typeFor? name))) := by
  simp [scope, Scope.layers, Scope.orElse, Scope.ofDefinitions, Scope.empty]

/-- The name that a directive defines. -/
def PendingDirective.name? (d : PendingDirective) : Option String :=
  (MacroDefinition.ofDirective? d.text).map (·.name)

/-- The value that a directive gives to its name. -/
def PendingDirective.value? (d : PendingDirective) : Option Expr := do
  let m ← MacroDefinition.ofDirective? d.text
  (← m.expression?).swift? {}

namespace Session

/-- The constant that a directive is folded to at this point. -/
def constant? (s : Session) (d : PendingDirective) : Option MacroConstant :=
  (s.plan.file? d.path).bind fun f => MacroConstant.ofDirective? s.surroundings s.plan f d.text

/-- The session with a constant for a directive in its file. -/
def withConstant (s : Session) (d : PendingDirective) (c : MacroConstant) : Session :=
  { s with plan := s.plan.updateFile d.path (·.addValue (constantPlan d c)) }.refresh

theorem convert_of_none {s : Session} {d : PendingDirective} (h : s.constant? d = none) :
    (s.convert d).1 = s := by
  unfold constant? at h
  unfold convert
  rw [h]

theorem convert_of_some {s : Session} {d : PendingDirective} {c : MacroConstant}
    (h : s.constant? d = some c) : (s.convert d).1 = s.withConstant d c := by
  unfold constant? at h
  unfold convert
  rw [h]
  rfl

/-- A constant has the name and the value that its directive gives, and the type of the value at
    this point. -/
theorem constant?_spec {s : Session} {d : PendingDirective} {c : MacroConstant}
    (h : s.constant? d = some c) :
    d.name? = some c.name ∧ d.value? = some c.value ∧ s.typeOf d.path c.value = some c.type := by
  unfold constant? at h
  obtain ⟨f, hf, hc⟩ := Option.bind_eq_some_iff.mp h
  unfold MacroConstant.ofDirective? at hc
  obtain ⟨m, hm, hc⟩ := Option.bind_eq_some_iff.mp hc
  obtain ⟨e, he, hc⟩ := Option.bind_eq_some_iff.mp hc
  split at hc
  · obtain ⟨value, hvalue, hc⟩ := Option.bind_eq_some_iff.mp hc
    obtain ⟨type, htype, hc⟩ := Option.bind_eq_some_iff.mp hc
    cases hc
    refine ⟨by simp [PendingDirective.name?, hm], by simp [PendingDirective.value?, hm, he, hvalue],
      ?_⟩
    unfold typeOf
    rw [hf]
    exact htype
  · cases hc

/-- The index of globals is up to date. -/
def Indexed (s : Session) : Prop := s.surroundings.index = s.plan.globalIndex

variable {s : Session} {d : PendingDirective} {c : MacroConstant}

theorem Indexed.alike_withConstant (h : s.Indexed) : s.Alike (s.withConstant d c) :=
  ⟨(Plan.withoutValues_addValue ..).symm, rfl, rfl, h, rfl⟩

/-- A constant gives a type to no name but its own, in whatever file. -/
theorem Indexed.typeIn_withConstant (h : s.Indexed) {name : String} (hname : c.name ≠ name)
    (path : String) : (s.withConstant d c).typeIn path name = s.typeIn path name := by
  have hv : (constantPlan d c).name ≠ name := hname
  have hindex := Plan.findSome?_addValue hv s.plan d.path
  unfold typeIn
  rw [Plan.file?_eq_getElem?, Plan.file?_eq_getElem?]
  have hhome : (s.withConstant d c).plan.home path = s.plan.home path := by
    rw [← Plan.home_withoutValues, ← h.alike_withConstant.plan, Plan.home_withoutValues]
  rw [hhome]
  have hfiles : (s.withConstant d c).plan.files[s.plan.home path]? =
      s.plan.files[s.plan.home path]?.map fun f =>
        if s.plan.home d.path = s.plan.home path then f.addValue (constantPlan d c) else f := by
    show (s.plan.updateFile d.path _).files[_]? = _
    rw [Plan.updateFile_files, List.getElem?_modify]
    rfl
  rw [hfiles, Option.bind_map]
  congr 1
  funext f
  have hdefinitions : (if s.plan.home d.path = s.plan.home path then
      f.addValue (constantPlan d c) else f).definitions.findSome? (Definition.typeFor? name) =
        f.definitions.findSome? (Definition.typeFor? name) := by
    split
    · exact FilePlan.findSome?_addValue hv f
    · rfl
  show ((s.withConstant d c).surroundings.scope _).typeOf? name = _
  rw [Surroundings.typeOf?_scope, Surroundings.typeOf?_scope, hdefinitions, h]
  show _ = (f.definitions.findSome? _).or ((s.plan.globalIndex.findSome? _).or _)
  rw [← hindex]
  rfl

/-- Dealing with a directive leaves the plan as it was but for values. -/
theorem Indexed.alike_convert (h : s.Indexed) (d : PendingDirective) : s.Alike (s.convert d).1 := by
  cases hc : s.constant? d with
  | none => rw [convert_of_none hc]; exact ⟨rfl, rfl, rfl, h, h⟩
  | some c => rw [convert_of_some hc]; exact h.alike_withConstant

/-- A name keeps its type over a directive that does not define it. -/
theorem Indexed.typeIn_convert (h : s.Indexed) {name : String} (hname : d.name? ≠ some name)
    (path : String) :
    (s.convert d).1.typeIn path name = s.typeIn path name := by
  cases hc : s.constant? d with
  | none => rw [convert_of_none hc]
  | some c =>
    rw [(constant?_spec hc).1] at hname
    rw [convert_of_some hc]
    exact h.typeIn_withConstant (fun heq => hname (congrArg some heq)) path

/-! ## All directives -/

theorem convertAll_append (s : Session) (ds es : List PendingDirective) :
    (s.convertAll (ds ++ es)).1 = ((s.convertAll ds).1.convertAll es).1 := by
  induction ds generalizing s with
  | nil => rfl
  | cons d ds ih => exact ih (s.convert d).1

/-- A run in front of its first directive. -/
def ready (s : Session) : Session :=
  { s with plan := (simplify s.settings s.plan).1, pending := [] }.refresh

/-- A run when some directives at the front are dealt with. -/
def foldedUpTo (s : Session) (front : List PendingDirective) : Session :=
  (s.ready.convertAll front).1

theorem foldedUpTo_concat (s : Session) (front : List PendingDirective) (d : PendingDirective) :
    s.foldedUpTo (front ++ [d]) = ((s.foldedUpTo front).convert d).1 :=
  convertAll_append s.ready front [d]

theorem alike_foldedUpTo (s : Session) (front : List PendingDirective) :
    s.ready.Alike (s.foldedUpTo front) := by
  induction front using List.reverseRecOn with
  | nil => exact ⟨rfl, rfl, rfl, rfl, rfl⟩
  | append_singleton front d ih =>
    rw [foldedUpTo_concat]
    exact ih.trans (Indexed.alike_convert ih.index' d)

theorem indexed_foldedUpTo (s : Session) (front : List PendingDirective) :
    (s.foldedUpTo front).Indexed := (s.alike_foldedUpTo front).index'

/-- A name keeps its type over directives that do not define it. -/
theorem typeIn_foldedUpTo_append (s : Session) {name : String} (front back : List PendingDirective)
    (hname : ∀ d ∈ back, d.name? ≠ some name) (path : String) :
    (s.foldedUpTo (front ++ back)).typeIn path name = (s.foldedUpTo front).typeIn path name := by
  induction back using List.reverseRecOn with
  | nil => rw [List.append_nil]
  | append_singleton back d ih =>
    rw [List.forall_mem_append, List.forall_mem_singleton] at hname
    rw [← List.append_assoc, foldedUpTo_concat, ← ih hname.1]
    exact (s.indexed_foldedUpTo _).typeIn_convert hname.2 path

end Session

/-! ## The types of values -/

/-- The value with the type of what it starts with. -/
def ValuePlan.typed (known : Registry) (scope : Scope) (v : ValuePlan) : ValuePlan :=
  match v.value with
  | some e => { v with valueType := e.type? known scope }
  | none => v

/-- The file with the types of its values. -/
def FilePlan.typed (w : Surroundings) (known : Registry) (f : FilePlan) : FilePlan :=
  { f with values := f.values.map (ValuePlan.typed known (w.scope f)) }

theorem modify_length_append {α : Type} (front : List α) (a : α) (as : List α) (g : α → α) :
    (front ++ a :: as).modify front.length g = front ++ g a :: as := by
  induction front with
  | nil => rfl
  | cons b front ih => rw [List.cons_append, List.length_cons, List.modify_succ_cons, ih]; rfl

/-- Writing to each entry what was found for it, by position, changes every entry by itself. -/
theorem foldl_modify_zipIdx {α β : Type} (look : α → Option β) (write : β → α → α) (as : List α) :
    (as.zipIdx.filterMap fun (a, i) => (look a).map fun b => (i, b)).foldl
      (fun as (i, b) => as.modify i (write b)) as =
        as.map fun a => (look a).elim a fun b => write b a := by
  -- The entries at the front have what was found for them already.
  suffices h : ∀ front, ((as.zipIdx front.length).filterMap fun (a, i) =>
      (look a).map fun b => (i, b)).foldl (fun as (i, b) => as.modify i (write b)) (front ++ as) =
        front ++ as.map fun a => (look a).elim a fun b => write b a from h []
  induction as with
  | nil => intro front; rfl
  | cons a as ih =>
    intro front
    cases hlook : look a with
    | none =>
      have hnext := ih (front ++ [a])
      simp only [List.length_append, List.length_singleton, List.append_assoc,
        List.singleton_append] at hnext
      simp only [List.zipIdx_cons, List.filterMap_cons, List.map_cons, hlook, Option.map_none,
        Option.elim_none]
      exact hnext
    | some b =>
      have hnext := ih (front ++ [write b a])
      simp only [List.length_append, List.length_singleton, List.append_assoc,
        List.singleton_append] at hnext
      simp only [List.zipIdx_cons, List.filterMap_cons, List.map_cons, hlook, Option.map_some,
        Option.elim_some, List.foldl_cons, modify_length_append]
      exact hnext

/-- Going through the positions of a list is going through its entries. -/
theorem filterMap_range_getElem? {α β : Type} (g : Nat → α → β) (as : List α) :
    (List.range as.length).filterMap (fun i => as[i]?.map (g i)) =
      as.zipIdx.map fun (a, i) => g i a := by
  suffices h : ∀ front, (List.range' front.length as.length).filterMap
      (fun i => (front ++ as)[i]?.map (g i)) = (as.zipIdx front.length).map fun (a, i) => g i a by
    rw [List.range_eq_range']
    exact h []
  induction as with
  | nil => intro front; rfl
  | cons a as ih =>
    intro front
    have hnext := ih (front ++ [a])
    simp only [List.length_append, List.length_singleton, List.append_assoc,
      List.singleton_append] at hnext
    have hhere : (front ++ a :: as)[front.length]? = some a := by
      rw [List.getElem?_append_right (Nat.le_refl _), Nat.sub_self]
      rfl
    rw [List.length_cons, List.range'_succ, List.filterMap_cons, hhere, hnext]
    rfl

theorem FilePlan.setValueTypes_fileTypes (w : Surroundings) (known : Registry) (position : Nat)
    (f : FilePlan) : f.setValueTypes (w.fileTypes known position f).types = f.typed w known := by
  have hfold := foldl_modify_zipIdx
    (fun v : ValuePlan => v.value.map fun e => e.type? known (w.scope f))
    (fun type v => { v with valueType := type }) f.values
  simp only [Option.map_map] at hfold
  unfold setValueTypes Surroundings.fileTypes typed
  congr 1
  refine hfold.trans ?_
  congr 1
  funext v
  unfold ValuePlan.typed
  cases v.value <;> rfl

/-- Working out all types gives each value its own. -/
theorem Surroundings.typeAll_files (w : Surroundings) (p : Plan) :
    (w.typeAll p).1.files = p.files.map (FilePlan.typed w (p.registry w.builtIns)) := by
  unfold typeAll typeAllIn typesIn
  generalize p.registry w.builtIns = known
  have hfiles : ∀ found : List FileTypes, (found.foldl Plan.setTypes p).files =
      found.foldl (fun files found => files.modify found.file (·.setValueTypes found.types))
        p.files := fun found => (List.foldl_hom Plan.files (fun _ _ => rfl)).symm
  have hfold := foldl_modify_zipIdx (fun f => some (w.fileTypes known 0 f).types)
    (fun types f => f.setValueTypes types) p.files
  simp only [Option.map_some, Option.elim_some, List.filterMap_eq_map'] at hfold
  rw [List.foldl_map] at hfold
  refine (hfiles _).trans ?_
  rw [filterMap_range_getElem?, List.foldl_map]
  refine hfold.trans ?_
  congr 1
  funext f
  exact FilePlan.setValueTypes_fileTypes w known 0 f

/-- As many types are found in a file as values of it have one. -/
theorem Surroundings.size_fileTypes (w : Surroundings) (known : Registry) (position : Nat)
    (f : FilePlan) : (w.fileTypes known position f).size =
      f.values.countP fun v => (v.value.bind (Expr.type? known (w.scope f))).isSome := by
  unfold FileTypes.size fileTypes
  dsimp only
  -- Both sides count over the values together with their positions.
  rw [List.countP_filterMap]
  nth_rewrite 2 [← List.zipIdx_map_fst 0 f.values]
  rw [List.countP_map]
  congr 1
  funext ⟨v, i⟩
  cases hvalue : v.value <;> simp [hvalue]

/-- Working out all types finds as many as there are in all files. -/
theorem Surroundings.typeAll_count (w : Surroundings) (p : Plan) :
    (w.typeAll p).2 = (p.files.map fun f => f.values.countP fun v =>
      (v.value.bind (Expr.type? (p.registry w.builtIns) (w.scope f))).isSome).sum := by
  unfold typeAll typeAllIn typesIn
  dsimp only
  rw [filterMap_range_getElem?, List.map_map]
  nth_rewrite 2 [← List.zipIdx_map_fst 0 p.files]
  rw [List.map_map]
  congr 2
  funext ⟨f, i⟩
  exact size_fileTypes ..

end HeaderBridge
