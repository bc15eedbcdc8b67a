/-
  The constants that a run makes of macros. Each has the type of its value where its directive was
  folded, and is given the type of its value where the run ends. These are the same type if the
  names in the value mean the same at both places; a macro that is folded later may change what a
  name means.
-/
import HeaderBridge.Proofs.Folding.Constants
import HeaderBridge.Proofs.Totality.Reading
import Mathlib

namespace HeaderBridge

namespace Session

/-! ## Sessions fed with headers -/

/-- Adds headers, each a path and a text, one by one. -/
def addHeaders (s : Session) : List (String × String) → Except Fault Session
  | [] => .ok s
  | (path, source) :: headers => do
    let (s, _) ← s.addHeader path source
    s.addHeaders headers

/-- No file of the plan has a value. -/
def Valueless (s : Session) : Prop := ∀ f ∈ s.plan.files, f.values = []

/-- Headers can always be added, and none brings a value with it. -/
theorem Valueless.exists_addHeaders {s : Session} (h : s.Valueless)
    (headers : List (String × String)) :
    ∃ s', s.addHeaders headers = .ok s' ∧ s'.Valueless := by
  induction headers generalizing s with
  | nil => exact ⟨s, rfl, h⟩
  | cons header headers ih =>
    obtain ⟨path, source⟩ := header
    obtain ⟨read, hread⟩ := exists_read_header source s.log (some path)
    have hnext : Valueless { s with
        plan := s.plan.addFile (FilePlan.ofHeader path source read.root)
        log := read.log
        pending := s.pending ++ directives path source read } := by
      intro f hf
      rcases List.mem_append.mp hf with hf | hf
      · exact h f hf
      · rw [List.mem_singleton.mp hf]
        rfl
    obtain ⟨s', hs', hvalueless⟩ := ih hnext
    refine ⟨s', ?_, hvalueless⟩
    unfold addHeaders addHeader
    rw [hread]
    exact hs'

/-- The steps on types add no value. -/
theorem Valueless.ready {s : Session} (h : s.Valueless) : s.ready.Valueless := by
  have hmerge : ∀ p : Plan, (∀ f ∈ p.files, f.values = []) →
      ∀ f ∈ p.mergeAccessors.files, f.values = [] := by
    intro p hp f hf
    obtain ⟨g, hg, rfl⟩ := List.mem_map.mp hf
    exact hp g hg
  have hdrop : ∀ p : Plan, (∀ f ∈ p.files, f.values = []) →
      ∀ f ∈ p.dropEmptyExtensions.files, f.values = [] := by
    intro p hp f hf
    obtain ⟨g, hg, rfl⟩ := List.mem_map.mp hf
    exact hp g hg
  show ∀ f ∈ (simplify s.settings s.plan).1.files, f.values = []
  unfold simplify
  cases s.settings.mergeAccessors <;> cases s.settings.dropEmptyExtensions
  · exact h
  · exact hdrop _ h
  · exact hmerge _ h
  · exact hdrop _ (hmerge _ h)

/-! ## Where values come from -/

/-- A value of a file was made from a directive, the last one of a row in front of which the
    program stood as it does after folding the others. -/
structure FoldedFrom (s : Session) (f : FilePlan) (v : ValuePlan) (front : List PendingDirective)
    (d : PendingDirective) (c : MacroConstant) : Prop where
  /-- The directive is one of those that the headers have, behind the ones at the front. -/
  pending : front ++ [d] <+: s.pending
  /-- There it is folded to the constant. -/
  constant : (s.foldedUpTo front).constant? d = some c
  /-- The file is the one for the header that the directive stands in. -/
  file : s.run.1.plan.file? d.path = some f
  name : v.name = c.name
  storage : v.storage = .const c.type
  value : v.value = some c.value
  /-- The type of the constant is that of its value where the directive is folded. -/
  type : (s.foldedUpTo front).typeOf d.path c.value = some c.type
  /-- The type that was worked out is that of its value where the run ends. -/
  valueType : v.valueType = s.run.1.typeOf d.path c.value

/-- The names in the value of a constant have the same types where the run ends as where the
    directive is folded. -/
def Settled (s : Session) (front : List PendingDirective) (d : PendingDirective)
    (c : MacroConstant) : Prop :=
  ∀ name ∈ c.value.names, (s.foldedUpTo front).typeIn d.path name = s.run.1.typeIn d.path name

variable {s : Session}

/-- Every value in front of the last step comes from a directive that was folded. -/
theorem Valueless.exists_constant (h : s.Valueless) (done : List PendingDirective) :
    ∀ i f, (s.foldedUpTo done).plan.files[i]? = some f → ∀ v ∈ f.values, ∃ front d c,
      front ++ [d] <+: done ∧ (s.foldedUpTo front).constant? d = some c ∧
        s.ready.plan.home d.path = i ∧ v = constantPlan d c := by
  induction done using List.reverseRecOn with
  | nil =>
    intro i f hf v hv
    rw [h.ready f (List.mem_of_getElem? hf)] at hv
    cases hv
  | append_singleton done d ih =>
    intro i f hf v hv
    have older : ∀ g, (s.foldedUpTo done).plan.files[i]? = some g → v ∈ g.values →
        ∃ front d' c, front ++ [d'] <+: done ++ [d] ∧ (s.foldedUpTo front).constant? d' = some c ∧
          s.ready.plan.home d'.path = i ∧ v = constantPlan d' c := by
      intro g hg hv
      obtain ⟨front, d', c, hprefix, hrest⟩ := ih i g hg v hv
      exact ⟨front, d', c, hprefix.trans (List.prefix_append done [d]), hrest⟩
    rw [foldedUpTo_concat] at hf
    cases hc : (s.foldedUpTo done).constant? d with
    | none =>
      rw [convert_of_none hc] at hf
      exact older f hf hv
    | some c =>
      rw [convert_of_some hc] at hf
      have hhome : (s.foldedUpTo done).plan.home d.path = s.ready.plan.home d.path := by
        rw [← Plan.home_withoutValues, ← (s.alike_foldedUpTo done).plan, Plan.home_withoutValues]
      have hfiles : (((s.foldedUpTo done).plan.updateFile d.path
        (·.addValue (constantPlan d c))).files)[i]? = some f := hf
      rw [Plan.updateFile_files, List.getElem?_modify, hhome] at hfiles
      obtain ⟨g, hg, rfl⟩ := Option.map_eq_some_iff.mp hfiles
      by_cases hi : s.ready.plan.home d.path = i
      · rw [if_pos hi] at hv
        rcases List.mem_append.mp hv with hv | hv
        · exact older g hg hv
        · exact ⟨done, d, c, List.prefix_refl _, hc, hi, List.mem_singleton.mp hv⟩
      · rw [if_neg hi] at hv
        exact older g hg hv

/-! ## The end of a run -/

theorem definitions_typed (w : Surroundings) (known : Registry) (f : FilePlan) :
    (f.typed w known).definitions = f.definitions := by
  unfold FilePlan.definitions FilePlan.typed
  simp only [List.map_map]
  congr 2
  funext v
  unfold Function.comp ValuePlan.typed
  cases v.value <;> rfl

theorem scope_typed (w w' : Surroundings) (known : Registry) (f : FilePlan) :
    w.scope (f.typed w' known) = w.scope f := by
  unfold Surroundings.scope
  rw [definitions_typed]

/-- A run behind its last directive. -/
def folded (s : Session) : Session := s.foldedUpTo s.pending

theorem refresh_folded (s : Session) : s.folded.refresh = s.folded := by
  have hindexed : s.folded.plan.globalIndex = s.folded.surroundings.index :=
    (s.indexed_foldedUpTo s.pending).symm
  unfold refresh Surroundings.refresh
  rw [hindexed]

theorem run_eq (s : Session) : s.run.1 =
    { s.folded with plan := (s.folded.surroundings.typeAll s.folded.plan).1 } := by
  have hrun : s.run.1 = { s.folded.refresh with
    plan := (s.folded.refresh.surroundings.typeAll s.folded.refresh.plan).1 } := rfl
  rw [hrun, refresh_folded]

theorem run_files (s : Session) : s.run.1.plan.files = s.folded.plan.files.map
    (FilePlan.typed s.folded.surroundings
      (s.folded.plan.registry s.folded.surroundings.builtIns)) := by
  rw [run_eq]
  exact Surroundings.typeAll_files ..

theorem run_surroundings (s : Session) : s.run.1.surroundings = s.folded.surroundings := by
  rw [run_eq]

/-- Working out the types of values changes nothing else. -/
theorem alike_run (s : Session) : s.folded.Alike s.run.1 := by
  have hindexed : s.folded.Indexed := s.indexed_foldedUpTo s.pending
  refine ⟨?_, by rw [run_surroundings], by rw [run_surroundings], hindexed, ?_⟩
  · unfold Plan.withoutValues
    rw [run_files, List.map_map]
    rfl
  · unfold Plan.globalIndex Plan.definitions
    rw [run_surroundings, run_files, List.flatMap_map]
    simp only [definitions_typed]
    exact hindexed

theorem alike_foldedUpTo_run (s : Session) (front : List PendingDirective) :
    (s.foldedUpTo front).Alike s.run.1 := by
  have hfront := s.alike_foldedUpTo front
  have hall : s.ready.Alike s.run.1 := (s.alike_foldedUpTo s.pending).trans s.alike_run
  exact ⟨hfront.plan.symm.trans hall.plan, hfront.builtIns.symm.trans hall.builtIns,
    hfront.globals.symm.trans hall.globals, hfront.index', hall.index'⟩

theorem home_run (s : Session) (path : String) : s.run.1.plan.home path = s.ready.plan.home path := by
  rw [← Plan.home_withoutValues, ← (s.alike_foldedUpTo_run []).plan, Plan.home_withoutValues]
  rfl

/-- A name has the same type before and after the types of values are worked out. -/
theorem typeIn_run (s : Session) (path name : String) :
    s.run.1.typeIn path name = s.folded.typeIn path name := by
  unfold typeIn
  rw [Plan.file?_eq_getElem?, Plan.file?_eq_getElem?, ← Plan.home_withoutValues,
    ← s.alike_run.plan, Plan.home_withoutValues, run_files, List.getElem?_map, Option.bind_map,
    run_surroundings]
  congr 1
  funext f
  simp only [Function.comp, scope_typed]

/-- Every value of a run comes from a directive. -/
theorem Valueless.exists_foldedFrom (h : s.Valueless) {f : FilePlan} (hf : f ∈ s.run.1.plan.files)
    {v : ValuePlan} (hv : v ∈ f.values) : ∃ front d c, s.FoldedFrom f v front d c := by
  obtain ⟨i, hi⟩ := List.mem_iff_getElem?.mp hf
  have hfile := hi
  rw [run_files, List.getElem?_map] at hi
  obtain ⟨g, hg, rfl⟩ := Option.map_eq_some_iff.mp hi
  obtain ⟨made, hmade, rfl⟩ := List.mem_map.mp hv
  obtain ⟨front, d, c, hprefix, hc, hhome, rfl⟩ := h.exists_constant s.pending i g hg made hmade
  rw [← hhome, ← home_run, ← Plan.file?_eq_getElem?] at hfile
  refine ⟨front, d, c, hprefix, hc, hfile, rfl, rfl, rfl, (constant?_spec hc).2.2, ?_⟩
  have hregistry : s.run.1.plan.registry s.run.1.surroundings.builtIns =
      s.folded.plan.registry s.folded.surroundings.builtIns := by
    rw [← Plan.registry_withoutValues, ← s.alike_run.plan, Plan.registry_withoutValues,
      run_surroundings]
  unfold typeOf Surroundings.type?
  rw [hfile, Option.bind_some, hregistry, run_surroundings, scope_typed]
  rfl

/-- A constant whose names are settled is given the type that it has. -/
theorem FoldedFrom.valueType_eq {f : FilePlan} {v : ValuePlan} {front : List PendingDirective}
    {d : PendingDirective} {c : MacroConstant} (h : s.FoldedFrom f v front d c)
    (hsettled : s.Settled front d c) : v.valueType = some v.storage.type := by
  rw [h.valueType, ← (s.alike_foldedUpTo_run front).typeOf_eq hsettled, h.type, h.storage]
  rfl

/-- No directive of a row defines a name that is mentioned in its own value or in that of one in
    front of it. -/
def noneRedefined : List PendingDirective → Bool
  | [] => true
  | d :: ds =>
    (d :: ds).all (fun d' => d'.name?.all fun name =>
      d.value?.all fun value => !value.names.contains name) && noneRedefined ds

/-- Where nothing is redefined, the names of every constant are settled. -/
theorem FoldedFrom.settled {f : FilePlan} {v : ValuePlan} {front : List PendingDirective}
    {d : PendingDirective} {c : MacroConstant} (h : s.FoldedFrom f v front d c)
    (hnone : noneRedefined s.pending = true) : s.Settled front d c := by
  obtain ⟨back, hpending⟩ := h.pending
  rw [List.append_assoc, List.singleton_append] at hpending
  have hvalue := (constant?_spec h.constant).2.1
  -- The directives at the front have no say in what lies behind them.
  have hbehind : noneRedefined (d :: back) = true := by
    rw [← hpending] at hnone
    clear hpending h
    induction front with
    | nil => exact hnone
    | cons d' front ih => exact ih (Bool.and_eq_true_iff.mp hnone).2
  intro name hname
  rw [typeIn_run, folded, ← hpending]
  refine (s.typeIn_foldedUpTo_append front (d :: back) (fun d' hd' heq => ?_) d.path).symm
  have hd := List.all_eq_true.mp (Bool.and_eq_true_iff.mp hbehind).1 d' hd'
  simp [heq, hvalue, hname] at hd

/-! ## Whole runs -/

/-- Whatever headers are added and whatever the settings and the globals from outside are, every
    value that a run makes comes from a directive, and its type is that of the constant if the
    names in it are settled. -/
theorem run_values_typed (settings : Settings) (globals : List Definition)
    (headers : List (String × String)) :
    ∃ s, (Session.begin settings globals).addHeaders headers = .ok s ∧
      ∀ f ∈ s.run.1.plan.files, ∀ v ∈ f.values, ∃ front d c, s.FoldedFrom f v front d c ∧
        (s.Settled front d c → v.valueType = some v.storage.type) := by
  have hbegin : (Session.begin settings globals).Valueless := fun f hf => by cases hf
  obtain ⟨s, hs, hvalueless⟩ := hbegin.exists_addHeaders headers
  refine ⟨s, hs, fun f hf v hv => ?_⟩
  obtain ⟨front, d, c, hfolded⟩ := hvalueless.exists_foldedFrom hf hv
  exact ⟨front, d, c, hfolded, hfolded.valueType_eq⟩

/-- A constant that is named by one in another file. -/
theorem run_values_typed_chain :
    ∃ s, (Session.begin {}).addHeaders [("P.h", "#define X 1"), ("Q.h", "#define A X")] = .ok s ∧
      s.run.1.plan.files.map (fun f => f.values.map (·.name)) = [["X"], ["A"]] ∧
      ∀ f ∈ s.run.1.plan.files, ∀ v ∈ f.values, v.valueType = some v.storage.type := by
  obtain ⟨s, hs, hvalues⟩ :=
    run_values_typed {} [] [("P.h", "#define X 1"), ("Q.h", "#define A X")]
  have hshown : ((Session.begin {}).addHeaders [("P.h", "#define X 1"), ("Q.h", "#define A X")]).map
      (fun s => (s.run.1.plan.files.map fun f => f.values.map (·.name), noneRedefined s.pending)) =
        .ok ([["X"], ["A"]], true) := by
    cbv
  rw [hs] at hshown
  obtain ⟨hnames, hnone⟩ := Prod.mk.inj (Except.ok.inj hshown)
  refine ⟨s, hs, hnames, fun f hf v hv => ?_⟩
  obtain ⟨front, d, c, hfolded, htyped⟩ := hvalues f hf v hv
  exact htyped (hfolded.settled hnone)

/-- A name that a later macro gives another type: `A` is a number where it is folded, and its
    value is a text at the end. -/
theorem exists_valueType_ne :
    ∃ s, (Session.begin {}).addHeaders
        [("P.h", "#define X 1"), ("Q.h", "#define A X\n#define X @\"s\"")] = .ok s ∧
      ∃ f ∈ s.run.1.plan.files, ∃ v ∈ f.values, v.valueType ≠ some v.storage.type := by
  have hbegin : (Session.begin {}).Valueless := fun f hf => by cases hf
  obtain ⟨s, hs, _⟩ := hbegin.exists_addHeaders
    [("P.h", "#define X 1"), ("Q.h", "#define A X\n#define X @\"s\"")]
  have hshown : ((Session.begin {}).addHeaders
      [("P.h", "#define X 1"), ("Q.h", "#define A X\n#define X @\"s\"")]).map (fun s =>
        s.run.1.plan.files.any fun f => f.values.any fun v => v.valueType != some v.storage.type) =
          .ok true := by
    cbv
  rw [hs] at hshown
  obtain ⟨f, hf, hv⟩ := List.any_eq_true.mp (Except.ok.inj hshown)
  obtain ⟨v, hv, hne⟩ := List.any_eq_true.mp hv
  exact ⟨s, hs, f, hf, v, hv, bne_iff_ne.mp hne⟩

end Session

end HeaderBridge
