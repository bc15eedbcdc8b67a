/-
  Bridging without an index of globals. Here every name is looked up in the plan as it stands when it
  is met, directives are dealt with in the file at the position of their header, and the values are
  typed in place. For headers with distinct paths a run comes to the same plan and the same counts:
  the index is made anew whenever the plan gets another value, so that at each point it knows what
  the plan knows.
-/
import HeaderBridge.Proofs.Folding.WellTyped

namespace HeaderBridge

/-! ## Names in a plan -/

/-- What names mean in a file of a plan as it stands: what the globals of the file say, or else those
    of all files, or else the ones from outside. -/
def Plan.scope (p : Plan) (globals : List Definition) (f : FilePlan) : Scope where
  typeOf? name :=
    ((f.value? name).map (·.storage.type)).or
      (((p.files.findSome? (·.value? name)).map (·.storage.type)).or
        (globals.findSome? (Definition.typeFor? name)))
  functions name :=
    let own := (f.functions.map (·.signature)).filter (·.name == name)
    let all := (p.files.flatMap fun g => g.functions.map (·.signature)).filter (·.name == name)
    if !own.isEmpty then own
    else if !all.isEmpty then all
    else globals.filterMap (Definition.functionFor? name)

theorem FilePlan.findSome?_definitions (f : FilePlan) (name : String) :
    f.definitions.findSome? (Definition.typeFor? name) =
      (f.value? name).map (·.storage.type) := by
  have hfunctions : (f.functions.map fun g => Definition.function g.signature).findSome?
      (Definition.typeFor? name) = none := by
    rw [List.findSome?_map, List.findSome?_eq_none_iff]
    exact fun _ _ => rfl
  unfold definitions value?
  rw [List.findSome?_append, hfunctions, Option.or_none]
  induction f.values with
  | nil => rfl
  | cons v vs ih =>
    rw [List.map_cons, List.findSome?_cons, List.find?_cons, Definition.typeFor?]
    by_cases hname : v.name = name
    · rw [if_pos hname, beq_iff_eq.mpr hname]
      rfl
    · rw [if_neg hname, beq_eq_false_iff_ne.mpr hname]
      exact ih

theorem FilePlan.filterMap_definitions (f : FilePlan) (name : String) :
    f.definitions.filterMap (Definition.functionFor? name) =
      (f.functions.map (·.signature)).filter (·.name == name) := by
  have hvalues : (f.values.map fun v => Definition.value v.name v.storage).filterMap
      (Definition.functionFor? name) = [] := by
    rw [List.filterMap_map]
    exact List.filterMap_eq_nil_iff.mpr fun _ _ => rfl
  unfold definitions
  rw [List.filterMap_append, hvalues, List.nil_append]
  induction f.functions with
  | nil => rfl
  | cons g gs ih =>
    rw [List.map_cons, List.filterMap_cons, List.map_cons, List.filter_cons, ih,
      Definition.functionFor?]
    by_cases hname : g.signature.name = name
    · rw [if_pos hname, if_pos (beq_iff_eq.mpr hname)]
    · rw [if_neg hname, if_neg (mt beq_iff_eq.mp hname)]

theorem Plan.findSome?_globalIndex (p : Plan) (name : String) :
    p.globalIndex.findSome? (Definition.typeFor? name) =
      (p.files.findSome? (·.value? name)).map (·.storage.type) := by
  unfold globalIndex definitions
  rw [findSome?_distinctValues]
  induction p.files with
  | nil => rfl
  | cons f fs ih =>
    rw [List.flatMap_cons, List.findSome?_append, ih, FilePlan.findSome?_definitions,
      List.findSome?_cons]
    cases f.value? name <;> rfl

theorem Plan.filterMap_globalIndex (p : Plan) (name : String) :
    p.globalIndex.filterMap (Definition.functionFor? name) =
      (p.files.flatMap fun f => f.functions.map (·.signature)).filter (·.name == name) := by
  unfold globalIndex definitions
  rw [filterMap_distinctValues, List.filterMap_flatMap, List.filter_flatMap]
  simp only [FilePlan.filterMap_definitions]

/-- With an index that is up to date names mean what the plan says. -/
theorem Surroundings.scope_eq {w : Surroundings} {p : Plan} (h : w.index = p.globalIndex)
    (f : FilePlan) : w.scope f = p.scope w.globals f := by
  have htypes : (w.scope f).typeOf? = (p.scope w.globals f).typeOf? := by
    funext name
    rw [typeOf?_scope, h, Plan.findSome?_globalIndex, FilePlan.findSome?_definitions]
    rfl
  have hfunctions : (w.scope f).functions = (p.scope w.globals f).functions := by
    funext name
    have hlayers : (w.scope f).functions name =
        let own := f.definitions.filterMap (Definition.functionFor? name)
        let all := w.index.filterMap (Definition.functionFor? name)
        let outer := w.globals.filterMap (Definition.functionFor? name)
        if own.isEmpty then if all.isEmpty then if outer.isEmpty then [] else outer else all
        else own := rfl
    rw [hlayers, h, FilePlan.filterMap_definitions, Plan.filterMap_globalIndex]
    unfold Plan.scope
    dsimp only
    generalize (f.functions.map (·.signature)).filter (·.name == name) = own
    generalize (p.files.flatMap fun g => g.functions.map (·.signature)).filter
      (·.name == name) = all
    generalize w.globals.filterMap (Definition.functionFor? name) = outer
    cases own <;> cases all <;> cases outer <;> rfl
  exact (Scope.mk.injEq ..).mpr ⟨htypes, hfunctions⟩

/-! ## A run without an index -/

/-- A file as it is planned for a header, with the directives of the header. -/
structure PlannedHeader where
  file : FilePlan
  directives : List PendingDirective
  path_eq : ∀ d ∈ directives, d.path = file.sourcePath

/-- What a header gives when it is read. -/
def PlannedHeader.ofHeader (path source : String) (h : Header) : PlannedHeader where
  file := FilePlan.ofHeader path source h.root
  directives := Session.directives path source h
  path_eq := by
    intro d hd
    obtain ⟨_, _, rfl⟩ := List.mem_map.mp hd
    rfl

/-- Reads headers, each a path and a text, one by one. -/
def plannedHeaders (log : DiagnosticLog) :
    List (String × String) → Except Fault (List PlannedHeader)
  | [] => .ok []
  | (path, source) :: headers => do
    let h ← Header.read source log (some path)
    return PlannedHeader.ofHeader path source h :: (← plannedHeaders h.log headers)

namespace Direct

/-- The directives of some headers, each with the position of its header. -/
def positioned (headers : List PlannedHeader) : List (Nat × PendingDirective) :=
  headers.zipIdx.flatMap fun (h, position) => h.directives.map (position, ·)

variable (builtIns : Registry) (globals : List Definition)

/-- The constant for a directive in a file of a plan. -/
def constant? (p : Plan) (f : FilePlan) (directive : String) : Option MacroConstant := do
  let m ← MacroDefinition.ofDirective? directive
  let e ← m.expression?
  if e.isScalarOnly then
    let value ← e.swift? {}
    let type ← value.type? (p.registry builtIns) (p.scope globals f)
    return ⟨m.name, type, value⟩
  else none

/-- The plan when a directive of the file at a position is dealt with, and whether a constant came
    of it. -/
def fold (p : Plan) (position : Nat) (d : PendingDirective) : Plan × Bool :=
  match p.files[position]?.bind fun f => constant? builtIns globals p f d.text with
  | some c => (⟨p.files.modify position (·.addValue (Session.constantPlan d c))⟩, true)
  | none => (p, false)

/-- The plan when some directives, each with the position of its file, are dealt with in order, and
    how many constants came of them. -/
def foldAll (p : Plan) : List (Nat × PendingDirective) → Plan × Nat
  | [] => (p, 0)
  | (position, d) :: ds =>
    let (p, made) := fold builtIns globals p position d
    let (p, count) := foldAll p ds
    (p, count + if made then 1 else 0)

/-- The plan with the types of its values. -/
def typed (p : Plan) : Plan :=
  ⟨p.files.map fun f => { f with
    values := f.values.map (ValuePlan.typed (p.registry builtIns) (p.scope globals f)) }⟩

/-- How many values have a type. -/
def typedCount (p : Plan) : Nat :=
  (p.files.flatMap (·.values)).countP fun v => v.value.isSome && v.valueType.isSome

/-- Bridges headers that were read: the steps on types, the directives of all headers in their order,
    then the types of the values. -/
def run (settings : Settings) (headers : List PlannedHeader) : Plan × Summary :=
  let (simple, merged, removed) := Session.simplify settings ⟨headers.map (·.file)⟩
  let (folded, converted) := foldAll builtIns globals simple (positioned headers)
  let plan := typed builtIns globals folded
  (plan, {
    files := headers.length
    merged, removed, converted
    typed := typedCount plan
    history := if settings.reportHistory then some plan.report else none })

end Direct

/-! ## Directives -/

theorem MacroConstant.ofDirective?_eq {w : Surroundings} {p : Plan}
    (h : w.index = p.globalIndex) (f : FilePlan) (directive : String) :
    MacroConstant.ofDirective? w p f directive =
      Direct.constant? w.builtIns w.globals p f directive := by
  unfold ofDirective? Direct.constant? Surroundings.type?
  rw [Surroundings.scope_eq h]

namespace Session

variable {s : Session}

/-- Dealing with one directive comes to the same without the index, if its header has the file at
    the position. -/
theorem Indexed.convert_eq (h : s.Indexed) {d : PendingDirective} {position : Nat}
    (hhome : s.plan.home d.path = position) : ((s.convert d).1.plan, (s.convert d).2) =
      Direct.fold s.surroundings.builtIns s.surroundings.globals s.plan position d := by
  have hfound : s.constant? d = s.plan.files[position]?.bind fun f =>
      Direct.constant? s.surroundings.builtIns s.surroundings.globals s.plan f d.text := by
    unfold constant?
    rw [Plan.file?_eq_getElem?, hhome]
    congr 1
    funext f
    exact MacroConstant.ofDirective?_eq h f d.text
  have hconvert : s.convert d = match s.constant? d with
      | some c => (s.withConstant d c, true)
      | none => (s, false) := rfl
  unfold Direct.fold
  rw [hconvert, ← hfound]
  cases s.constant? d with
  | none => rfl
  | some c =>
    have hfiles := Plan.updateFile_files s.plan d.path (·.addValue (constantPlan d c))
    rw [hhome] at hfiles
    exact Prod.ext (congrArg Plan.mk hfiles) rfl

/-- Dealing with some directives comes to the same without the index, if each header has its file at
    the position that stands with its directives. -/
theorem Indexed.convertAll_eq (h : s.Indexed) (ds : List (Nat × PendingDirective))
    (hhome : ∀ d ∈ ds, s.plan.home d.2.path = d.1) :
    ((s.convertAll (ds.map (·.2))).1.plan, (s.convertAll (ds.map (·.2))).2) =
      Direct.foldAll s.surroundings.builtIns s.surroundings.globals s.plan ds := by
  -- A step leaves the index up to date and every file in its place.
  induction ds generalizing s with
  | nil => rfl
  | cons d ds ih =>
    have halike := h.alike_convert d.2
    have hstep := h.convert_eq (hhome d List.mem_cons_self)
    have hrest := ih halike.index' fun e he => by
      rw [← Plan.home_withoutValues, ← halike.plan, Plan.home_withoutValues]
      exact hhome e (List.mem_cons_of_mem _ he)
    rw [← halike.builtIns, ← halike.globals] at hrest
    unfold Direct.foldAll
    rw [← hstep]
    dsimp only
    rw [← hrest]
    rfl

end Session

/-! ## Types of values -/

/-- Working out all types, with an index that is up to date, comes to the same without it. -/
theorem Surroundings.typeAll_eq {w : Surroundings} {p : Plan} (h : w.index = p.globalIndex) :
    w.typeAll p = (Direct.typed w.builtIns w.globals p,
      Direct.typedCount (Direct.typed w.builtIns w.globals p)) := by
  have hfile : FilePlan.typed w (p.registry w.builtIns) = fun f => { f with
      values := f.values.map (ValuePlan.typed (p.registry w.builtIns) (p.scope w.globals f)) } := by
    funext f
    unfold FilePlan.typed
    rw [scope_eq h]
  have hfiles := w.typeAll_files p
  rw [hfile] at hfiles
  have hplan : (w.typeAll p).1 = Direct.typed w.builtIns w.globals p := congrArg Plan.mk hfiles
  refine Prod.ext hplan ?_
  rw [← hplan]
  unfold Direct.typedCount
  rw [typeAll_files, typeAll_count, List.flatMap_map, List.countP_flatMap]
  congr 2
  funext f
  rw [Function.comp_apply, FilePlan.typed, List.countP_map]
  congr 1
  funext v
  rw [Function.comp, ValuePlan.typed]
  cases hvalue : v.value <;> simp [hvalue]

namespace Session

/-! ## Headers and their files -/

/-- One session comes of another when headers are added that give some files and directives. -/
structure AddedTo (s : Session) (parts : List PlannedHeader) (s' : Session) : Prop where
  settings : s'.settings = s.settings
  surroundings : s'.surroundings = s.surroundings
  files : s'.plan.files = s.plan.files ++ parts.map (·.file)
  pending : s'.pending = s.pending ++ parts.flatMap (·.directives)

/-- Adding headers is reading them, whatever was read before. -/
theorem exists_addedTo (s : Session) (headers : List (String × String)) :
    ∃ s' parts, s.addHeaders headers = .ok s' ∧ plannedHeaders s.log headers = .ok parts ∧
      s.AddedTo parts s' ∧ parts.map (·.file.sourcePath) = headers.map (·.1) := by
  induction headers generalizing s with
  | nil =>
    refine ⟨s, [], rfl, rfl, ⟨rfl, rfl, ?_, ?_⟩, rfl⟩
    · rw [List.map_nil, List.append_nil]
    · rw [List.flatMap_nil, List.append_nil]
  | cons header headers ih =>
    obtain ⟨path, source⟩ := header
    obtain ⟨read, hread⟩ := exists_read_header source s.log (some path)
    obtain ⟨s', parts, hs', hparts, hadded, hpaths⟩ := ih { s with
      plan := s.plan.addFile (FilePlan.ofHeader path source read.root)
      log := read.log
      pending := s.pending ++ directives path source read }
    refine ⟨s', .ofHeader path source read :: parts, ?_, ?_,
      ⟨hadded.settings, hadded.surroundings, ?_, ?_⟩, ?_⟩
    · unfold addHeaders addHeader
      rw [hread]
      exact hs'
    · unfold plannedHeaders
      rw [hread]
      show (do return _ :: (← plannedHeaders read.log headers)) = _
      rw [hparts]
      rfl
    · rw [hadded.files]
      exact List.append_assoc ..
    · rw [hadded.pending]
      exact List.append_assoc ..
    · rw [List.map_cons, List.map_cons, hpaths]
      rfl

theorem sourcePaths_simplify (settings : Settings) (p : Plan) :
    (simplify settings p).1.files.map (·.sourcePath) = p.files.map (·.sourcePath) := by
  have hmerge : ∀ p : Plan, p.mergeAccessors.files.map (·.sourcePath) =
      p.files.map (·.sourcePath) := fun p => List.map_map
  have hdrop : ∀ p : Plan, p.dropEmptyExtensions.files.map (·.sourcePath) =
      p.files.map (·.sourcePath) := fun p => List.map_map
  unfold simplify
  cases settings.mergeAccessors <;> cases settings.dropEmptyExtensions
  · rfl
  · exact hdrop p
  · exact hmerge p
  · exact (hdrop _).trans (hmerge p)

end Session

/-- Where the paths of the files are distinct, each file is the one for its path. -/
theorem Plan.home_of_nodup {p : Plan} (hnodup : (p.files.map (·.sourcePath)).Nodup) {i : Nat}
    {path : String} (hi : (p.files.map (·.sourcePath))[i]? = some path) : p.home path = i := by
  obtain ⟨hlt, rfl⟩ := List.getElem?_eq_some_iff.mp hi
  have hhome : p.home (p.files.map (·.sourcePath))[i] =
      (p.files.map (·.sourcePath)).idxOf (p.files.map (·.sourcePath))[i] := by
    unfold home List.idxOf
    rw [List.findIdx_map]
    rfl
  rw [hhome, hnodup.idxOf_getElem]

namespace Direct

theorem positioned_map_snd (headers : List PlannedHeader) :
    (positioned headers).map (·.2) = headers.flatMap (·.directives) := by
  unfold positioned
  nth_rewrite 2 [← List.zipIdx_map_fst 0 headers]
  rw [List.map_flatMap, List.flatMap_map]
  congr 1
  funext ⟨h, i⟩
  exact List.map_map.trans (List.map_id _)

theorem path_of_mem_positioned {headers : List PlannedHeader} {d : Nat × PendingDirective}
    (h : d ∈ positioned headers) : (headers.map (·.file.sourcePath))[d.1]? = some d.2.path := by
  obtain ⟨⟨header, i⟩, hheader, hd⟩ := List.mem_flatMap.mp h
  obtain ⟨e, he, rfl⟩ := List.mem_map.mp hd
  rw [List.getElem?_map, List.mk_mem_zipIdx_iff_getElem?.mp hheader, header.path_eq e he]
  rfl

end Direct

/-! ## The run -/

namespace Session

variable {settings : Settings} {globals : List Definition} {s : Session}
  {parts : List PlannedHeader}

/-- The end of a run: the types of all values. -/
theorem run_typeAll (s : Session) : (s.run.1.plan, s.run.2) =
    let (plan, typed) := s.folded.surroundings.typeAll s.folded.plan
    (plan, {
      files := s.plan.files.length
      merged := (simplify s.settings s.plan).2.1
      removed := (simplify s.settings s.plan).2.2
      converted := (s.ready.convertAll s.pending).2
      typed
      history := if s.settings.reportHistory then some plan.report else none }) := by
  have hrun : (s.run.1.plan, s.run.2) =
      let (plan, typed) := s.folded.refresh.surroundings.typeAll s.folded.refresh.plan
      (plan, {
        files := s.plan.files.length
        merged := (simplify s.settings s.plan).2.1
        removed := (simplify s.settings s.plan).2.2
        converted := (s.ready.convertAll s.pending).2
        typed
        history := if s.settings.reportHistory then some plan.report else none }) := rfl
  rw [hrun, refresh_folded]

theorem AddedTo.plan (h : (begin settings globals).AddedTo parts s) :
    s.plan = ⟨parts.map (·.file)⟩ :=
  congrArg Plan.mk h.files

/-- In front of its first directive a run stands where it does without the index. -/
theorem AddedTo.ready_plan (h : (begin settings globals).AddedTo parts s) :
    s.ready.plan = (simplify settings ⟨parts.map (·.file)⟩).1 := by
  unfold ready refresh
  rw [h.settings, h.plan]
  rfl

/-- So it does behind its last one. -/
theorem AddedTo.folded_eq (h : (begin settings globals).AddedTo parts s)
    (hpaths : (parts.map (·.file.sourcePath)).Nodup) :
    (s.folded.plan, (s.ready.convertAll s.pending).2) =
      Direct.foldAll Foundation.registry globals (simplify settings ⟨parts.map (·.file)⟩).1
        (Direct.positioned parts) := by
  have hpending : s.pending = (Direct.positioned parts).map (·.2) :=
    h.pending.trans (Direct.positioned_map_snd parts).symm
  have hsource : s.ready.plan.files.map (·.sourcePath) = parts.map (·.file.sourcePath) := by
    rw [h.ready_plan, sourcePaths_simplify, List.map_map]
    rfl
  have hfold := Indexed.convertAll_eq (s.indexed_foldedUpTo []) (Direct.positioned parts)
    fun d hd => Plan.home_of_nodup (hsource.symm ▸ hpaths)
      (hsource.symm ▸ Direct.path_of_mem_positioned hd)
  rw [← hpending] at hfold
  refine hfold.trans ?_
  show Direct.foldAll s.surroundings.builtIns s.surroundings.globals s.ready.plan _ = _
  rw [h.surroundings, h.ready_plan]
  rfl

/-- A session that headers with distinct paths were added to runs as it would without the index. -/
theorem AddedTo.run_eq (h : (begin settings globals).AddedTo parts s)
    (hpaths : (parts.map (·.file.sourcePath)).Nodup) :
    (s.run.1.plan, s.run.2) = Direct.run Foundation.registry globals settings parts := by
  obtain ⟨hplan, hconverted⟩ := Prod.ext_iff.mp (h.folded_eq hpaths)
  dsimp only at hplan hconverted
  have halike := s.alike_foldedUpTo s.pending
  have hbuiltIns : s.folded.surroundings.builtIns = Foundation.registry :=
    halike.builtIns.symm.trans (congrArg (·.builtIns) h.surroundings)
  have hglobals : s.folded.surroundings.globals = globals :=
    halike.globals.symm.trans (congrArg (·.globals) h.surroundings)
  have hindexed : s.folded.Indexed := s.indexed_foldedUpTo s.pending
  have hlength : s.plan.files.length = parts.length := by
    rw [h.plan]
    exact List.length_map _
  rw [run_typeAll, Surroundings.typeAll_eq hindexed, hbuiltIns, hglobals, hplan, hconverted,
    hlength, h.settings, h.plan]
  rfl

/-- Whatever headers with distinct paths are added, and whatever the settings and the globals from
    outside are, a run comes to the plan and the counts that it would come to if it looked every
    name up in the plan at hand. -/
theorem run_eq_direct (settings : Settings) (globals : List Definition)
    (headers : List (String × String)) (hpaths : (headers.map (·.1)).Nodup) :
    ∃ s parts, (begin settings globals).addHeaders headers = .ok s ∧
      plannedHeaders .empty headers = .ok parts ∧
      (s.run.1.plan, s.run.2) = Direct.run Foundation.registry globals settings parts := by
  obtain ⟨s, parts, hs, hparts, hadded, hsource⟩ :=
    (begin settings globals).exists_addedTo headers
  exact ⟨s, parts, hs, hparts, hadded.run_eq (hsource ▸ hpaths)⟩

/-- A constant that is named in another file. The one from outside that has its name is not asked. -/
theorem run_eq_direct_chain :
    ∃ s parts, (begin {} [.value "X" (.const (.named "String"))]).addHeaders
        [("P.h", "#define X 1"), ("Q.h", "#define A X")] = .ok s ∧
      plannedHeaders .empty [("P.h", "#define X 1"), ("Q.h", "#define A X")] = .ok parts ∧
      (s.run.1.plan, s.run.2) =
        Direct.run Foundation.registry [.value "X" (.const (.named "String"))] {} parts ∧
      s.run.1.plan.files.map (fun f => f.values.map fun v => (v.name, v.valueType)) =
        [[("X", some (.named "Int"))], [("A", some (.named "Int"))]] := by
  obtain ⟨s, parts, hs, hparts, hrun⟩ := run_eq_direct {} [.value "X" (.const (.named "String"))]
    [("P.h", "#define X 1"), ("Q.h", "#define A X")] (by decide)
  have hshown : ((begin {} [.value "X" (.const (.named "String"))]).addHeaders
      [("P.h", "#define X 1"), ("Q.h", "#define A X")]).map (fun s =>
        s.run.1.plan.files.map fun f => f.values.map fun v => (v.name, v.valueType)) =
          .ok [[("X", some (.named "Int"))], [("A", some (.named "Int"))]] := by
    cbv
  rw [hs] at hshown
  exact ⟨s, parts, hs, hparts, hrun, Except.ok.inj hshown⟩

end Session

end HeaderBridge
