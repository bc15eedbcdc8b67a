/-
  Typing with several workers does not depend on the schedule. Each piece that a crew sends is about
  one file, and writing two of them commutes: pieces for different files change different files, and
  two pieces for one file would be equal. Nothing that typing reads is among what is written. So
  whichever worker takes which file, and in whatever order the pieces come in, the plan becomes the
  one in which each value was typed in turn (`types_of_any_schedule`).
-/
import HeaderBridge.Proofs.Folding.WellTyped
import HeaderBridge.Proofs.Workers.Account

namespace HeaderBridge

/-! ## Typing in turn -/

/-- The plan with the type of each value as the plan stands now, and how many values have one. -/
def Surroundings.inTurn (w : Surroundings) (p : Plan) : Plan × Nat :=
  let known := p.registry w.builtIns
  (⟨p.files.map (FilePlan.typed w known)⟩,
    (p.files.flatMap fun f => f.values.filterMap fun v =>
      v.value.bind fun e => e.type? known (w.scope f)).length)

/-- The global without the type of its value, if it has a value. -/
def ValuePlan.untyped (v : ValuePlan) : ValuePlan :=
  if v.value.isSome then { v with valueType := none } else v

namespace ValuePlan

theorem value_typed (known : Registry) (scope : Scope) (v : ValuePlan) :
    (v.typed known scope).value = v.value := by
  unfold typed
  cases hvalue : v.value <;> simp [hvalue]

theorem typed_typed (known : Registry) (scope : Scope) (v : ValuePlan) :
    (v.typed known scope).typed known scope = v.typed known scope := by
  unfold typed
  cases hvalue : v.value <;> simp [hvalue]

theorem untyped_typed (known : Registry) (scope : Scope) (v : ValuePlan) :
    (v.typed known scope).untyped = v.untyped := by
  unfold untyped typed
  cases hvalue : v.value <;> simp [hvalue]

end ValuePlan

/-- The plan without the types of the values that its globals start with. -/
def Plan.untyped (p : Plan) : Plan :=
  ⟨p.files.map fun f => { f with values := f.values.map ValuePlan.untyped }⟩

/-- Typing a plan with workers, one for each thread, may come to a result: they may all leave, and
    what they sent may come in in an order that gives it. -/
def Surroundings.MayYield (w : Surroundings) (p : Plan) (threads : Nat) (result : Plan × Nat) :
    Prop :=
  ∃ c received, Relation.ReflTransGen (Crew.Step w p) (.start threads p.files.length) c ∧
    c.Done ∧ received.Perm c.sent ∧ p.receive received = result

section Receiving

variable {w : Surroundings} {p : Plan} {received : List FileTypes}

/-! ## What is received finds its place -/

/-- How many values each file has. -/
def Plan.shape (p : Plan) : List Nat := p.files.map (·.values.length)

theorem FilePlan.length_setValueTypes (f : FilePlan) (types : List (Nat × Option SwiftType)) :
    (f.setValueTypes types).values.length = f.values.length := by
  unfold setValueTypes
  dsimp only
  induction types generalizing f with
  | nil => rfl
  | cons found types ih =>
    have hrest := ih { f with values := f.values.modify found.1 fun v =>
      { v with valueType := found.2 } }
    rw [List.length_modify] at hrest
    exact hrest

theorem Plan.shape_setTypes (p : Plan) (found : FileTypes) :
    (p.setTypes found).shape = p.shape := by
  unfold shape setTypes
  apply List.ext_getElem?
  intro i
  rw [List.getElem?_map, List.getElem?_map, List.getElem?_modify]
  cases p.files[i]? with
  | none => rfl
  | some f => by_cases hi : found.file = i <;> simp [hi, FilePlan.length_setValueTypes]

/-- Each type that was found in a plan has its place in every plan of the same shape. -/
theorem FoundIn.placed_eq {found : FileTypes} (h : FoundIn w p found) {q : Plan}
    (hshape : q.shape = p.shape) : q.placed found = found.size := by
  obtain ⟨f, hf, hfound⟩ := h
  have hlength : q.shape[found.file]? = some f.values.length := by
    rw [hshape, Plan.shape, List.getElem?_map, hf]
    rfl
  rw [Plan.shape, List.getElem?_map] at hlength
  obtain ⟨g, hg, hlength⟩ := Option.map_eq_some_iff.mp hlength
  unfold Plan.placed FileTypes.size
  rw [hg]
  refine List.countP_congr fun entry hentry => ?_
  -- The positions of a file's types are positions of its values.
  have hlt : entry.1 < g.values.length := by
    rw [hfound] at hentry
    obtain ⟨⟨v, i⟩, hv, hentry⟩ := List.mem_filterMap.mp hentry
    obtain ⟨e, -, rfl⟩ := Option.map_eq_some_iff.mp hentry
    rw [hlength]
    exact (List.getElem?_eq_some_iff.mp (List.mk_mem_zipIdx_iff_getElem?.mp hv)).1
  simp [hlt]

theorem Plan.receive_eq (h : ∀ found ∈ received, FoundIn w p found) :
    p.receive received =
      (received.foldl Plan.setTypes p, (received.map FileTypes.size).sum) := by
  -- What was written before changes neither the shape of the plan nor what is still to come in.
  suffices hall : ∀ (q : Plan) (count : Nat), q.shape = p.shape →
      received.foldl Plan.receiveOne (q, count) =
        (received.foldl Plan.setTypes q, count + (received.map FileTypes.size).sum) by
    rw [Plan.receive, hall p 0 rfl, Nat.zero_add]
  induction received with
  | nil => intro q count _; rfl
  | cons found received ih =>
    intro q count hshape
    rw [List.forall_mem_cons] at h
    have hrest := ih h.2 (q.setTypes found) (count + q.placed found)
      ((Plan.shape_setTypes q found).trans hshape)
    rw [List.foldl_cons, List.foldl_cons, List.map_cons, List.sum_cons, ← Nat.add_assoc,
      ← h.1.placed_eq hshape]
    exact hrest

/-! ## The order of what is received -/

/-- What was found in a file depends on the file alone. -/
theorem FoundIn.eq_of_file_eq {found found' : FileTypes} (h : FoundIn w p found)
    (h' : FoundIn w p found') (hfile : found.file = found'.file) : found = found' := by
  obtain ⟨f, hf, hfound⟩ := h
  obtain ⟨f', hf', hfound'⟩ := h'
  rw [hfile, hf'] at hf
  cases hf
  rw [hfound, hfound', hfile]

theorem Plan.setTypes_comm (q : Plan) {found found' : FileTypes}
    (h : found.file ≠ found'.file) :
    (q.setTypes found).setTypes found' = (q.setTypes found').setTypes found :=
  congrArg Plan.mk (List.modify_modify_ne _ _ q.files h)

theorem foldl_setTypes_perm {sent : List FileTypes} (h : ∀ found ∈ received, FoundIn w p found)
    (hperm : received.Perm sent) (q : Plan) :
    received.foldl Plan.setTypes q = sent.foldl Plan.setTypes q := by
  refine hperm.foldl_eq' (fun found hfound found' hfound' q => ?_) q
  by_cases hfile : found.file = found'.file
  · rw [(h found hfound).eq_of_file_eq (h found' hfound') hfile]
  · exact Plan.setTypes_comm q hfile

/-- One piece for each file is what working through the files in order finds. -/
theorem perm_typesIn (h : ∀ found ∈ received, FoundIn w p found)
    (hfiles : (received.map (·.file)).Perm (List.range p.files.length)) :
    received.Perm (w.typesIn p (List.range p.files.length)) := by
  have hself : w.typesIn p (received.map (·.file)) = received := by
    unfold Surroundings.typesIn
    rw [List.filterMap_map]
    refine (List.filterMap_congr (g := some) fun found hfound => ?_).trans List.filterMap_some
    obtain ⟨f, hf, hfound⟩ := h found hfound
    rw [Function.comp, hf, Option.map_some, ← hfound]
  rw [← hself]
  exact hfiles.filterMap _

/-- One piece for each file, in whatever order, gives what `typeAll` gives. -/
theorem receive_of_files (h : ∀ found ∈ received, FoundIn w p found)
    (hfiles : (received.map (·.file)).Perm (List.range p.files.length)) :
    p.receive received = w.typeAll p := by
  have hperm := perm_typesIn h hfiles
  rw [Plan.receive_eq h, foldl_setTypes_perm h hperm p, (hperm.map _).sum_nat]
  rfl

end Receiving

namespace Surroundings

/-! ## Typing all values -/

theorem typeAll_eq_inTurn (w : Surroundings) (p : Plan) : w.typeAll p = w.inTurn p := by
  refine Prod.ext (congrArg Plan.mk (w.typeAll_files p)) ?_
  rw [typeAll_count, inTurn, ← List.countP_true, List.countP_flatMap]
  congr 2
  funext f
  rw [Function.comp_apply, List.countP_true, List.length_filterMap_eq_countP]

/-! ## Typing once more -/

theorem values_typed (w : Surroundings) (known : Registry) (f : FilePlan) :
    (f.typed w known).values = f.values.map (ValuePlan.typed known (w.scope f)) := rfl

theorem typed_typed (w : Surroundings) (known : Registry) (f : FilePlan) :
    (f.typed w known).typed w known = f.typed w known := by
  have hvalues : (f.typed w known).values.map (ValuePlan.typed known (w.scope f)) =
      (f.typed w known).values := by
    rw [values_typed, List.map_map]
    congr 1
    funext v
    exact ValuePlan.typed_typed ..
  have htyped : (f.typed w known).typed w known = { f.typed w known with
      values := (f.typed w known).values.map
        (ValuePlan.typed known (w.scope (f.typed w known))) } := rfl
  rw [htyped, Session.scope_typed, hvalues]

/-- What a plan makes known of types does not change when its values are typed. -/
theorem registry_inTurn (w : Surroundings) (p : Plan) (builtIns : Registry) :
    (w.inTurn p).1.registry builtIns = p.registry builtIns := by
  have hwithout : (w.inTurn p).1.withoutValues = p.withoutValues :=
    congrArg Plan.mk (List.map_map ..)
  rw [← Plan.registry_withoutValues, hwithout, Plan.registry_withoutValues]

theorem inTurn_inTurn (w : Surroundings) (p : Plan) : w.inTurn (w.inTurn p).1 = w.inTurn p := by
  have hregistry := w.registry_inTurn p w.builtIns
  refine Prod.ext (congrArg Plan.mk ?_) (congrArg List.length ?_)
  · rw [hregistry]
    show (p.files.map _).map _ = p.files.map _
    rw [List.map_map]
    congr 1
    funext f
    exact typed_typed ..
  · rw [hregistry]
    show (p.files.map _).flatMap _ = p.files.flatMap _
    rw [List.flatMap_map]
    congr 1
    funext f
    rw [Session.scope_typed, values_typed, List.filterMap_map]
    congr 1
    funext v
    rw [Function.comp, ValuePlan.value_typed]

/-- Only the types of values are written. -/
theorem untyped_inTurn (w : Surroundings) (p : Plan) : (w.inTurn p).1.untyped = p.untyped := by
  refine congrArg Plan.mk ?_
  show (p.files.map _).map _ = p.files.map _
  rw [List.map_map]
  congr 1
  funext f
  have hvalues : (f.typed w (p.registry w.builtIns)).values.map ValuePlan.untyped =
      f.values.map ValuePlan.untyped := by
    rw [values_typed, List.map_map]
    congr 1
    funext v
    exact ValuePlan.untyped_typed ..
  rw [Function.comp, hvalues]
  rfl

/-! ## Schedules -/

variable {w : Surroundings} {p : Plan} {threads : Nat}

theorem MayYield.eq_typeAll {result : Plan × Nat} (h : w.MayYield p threads result) :
    result = w.typeAll p := by
  obtain ⟨c, received, hsteps, hdone, hperm, rfl⟩ := h
  have hkept := (Crew.kept_start w p threads).steps hsteps
  refine receive_of_files (fun found hfound => hkept.sent found (hperm.subset hfound)) ?_
  exact (hperm.map _).trans (hkept.files_of_done hdone)

theorem mayYield_typeAll (w : Surroundings) (p : Plan) (threads : Nat) :
    w.MayYield p threads (w.typeAll p) := by
  obtain ⟨c, hsteps, hdone⟩ := (Crew.kept_start w p threads).exists_done
  have hyield : w.MayYield p threads (p.receive c.sent) :=
    ⟨c, c.sent, hsteps, hdone, List.Perm.refl _, rfl⟩
  rwa [hyield.eq_typeAll] at hyield

theorem mayYield_iff {result : Plan × Nat} :
    w.MayYield p threads result ↔ result = w.inTurn p := by
  rw [← typeAll_eq_inTurn]
  exact ⟨MayYield.eq_typeAll, fun h => h ▸ mayYield_typeAll w p threads⟩

/-- Whatever the plan, the globals, the index and the number of threads are: the workers come to an
    end, none gets stuck on the way, and whichever files they took and in whatever order the pieces
    came in, plan and count are those of typing each value in turn against the plan as it was.
    Nothing but the types of values is written, and doing it again, on any schedule, changes nothing
    and counts the same. -/
theorem types_of_any_schedule (w : Surroundings) (p : Plan) (threads : Nat) :
    WellFounded (fun c' c => Crew.Step w p c c') ∧
      (∀ c, Relation.ReflTransGen (Crew.Step w p) (.start threads p.files.length) c →
        c.Done ∨ ∃ c', Crew.Step w p c c') ∧
      (∀ result, w.MayYield p threads result ↔ result = w.inTurn p) ∧
      w.typeAll p = w.inTurn p ∧
      (w.inTurn p).1.untyped = p.untyped ∧
      ∀ again result, w.MayYield (w.inTurn p).1 again result ↔ result = w.inTurn p := by
  refine ⟨Crew.wellFounded_step w p, fun c hsteps => ?_, fun result => mayYield_iff,
    typeAll_eq_inTurn w p, untyped_inTurn w p, fun again result => ?_⟩
  · exact ((Crew.kept_start w p threads).steps hsteps).done_or_step
  · rw [mayYield_iff, inTurn_inTurn]

end Surroundings

end HeaderBridge
