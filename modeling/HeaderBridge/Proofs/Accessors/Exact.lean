/-
  What merging the accessors of a type does, exactly. The properties are gone through in order, and
  each takes what it can of the methods that are left. So a method goes to the first property that
  it reads or writes (`share`), and it goes whatever the others take. From one step
  (`step_eq_settled`) and the whole run (`foldl_eq_settled`) follows what happens to a type
  (`TypePlan.mergeAccessors_exact`): which methods are dropped and how many, one entry in the
  history of the type for each, which properties are marked, and that nothing else changes.
-/
import HeaderBridge.Proofs.Rerun.Simplified

namespace HeaderBridge

namespace PropertyPlan

/-! ## Accessors -/

/-- A method of a value reads the property: it has the name of the getter, no parameters, and gives
    what the property holds. -/
def ReadBy (p : PropertyPlan) (m : MethodPlan) : Prop :=
  m.signature.isStatic = false ∧ m.signature.name = p.getterName ∧
    m.signature.parameters = [] ∧ m.signature.returns = p.storage.type

/-- A method of a value writes the property: it has the name of the setter, takes what the property
    holds, and gives nothing. -/
def WrittenBy (p : PropertyPlan) (m : MethodPlan) : Prop :=
  m.signature.isStatic = false ∧ m.signature.name = p.setterName ∧
    (∃ q, m.signature.parameters = [q] ∧ q.type = p.storage.type) ∧ m.signature.returns = .void

/-- The property belongs to values, and a method reads it or, where that is allowed, writes it. -/
def AccessedBy (p : PropertyPlan) (m : MethodPlan) : Prop :=
  p.isClassProperty = false ∧ (p.ReadBy m ∨ (p.isReadonly = false ∧ p.WrittenBy m))

variable {p : PropertyPlan} {m : MethodPlan}

theorem isGetter_iff : p.isGetter m = true ↔ p.ReadBy m := by
  simp [isGetter, ReadBy, and_assoc]

theorem isSetter_iff : p.isSetter m = true ↔ p.isReadonly = false ∧ p.WrittenBy m := by
  simp only [isSetter, WrittenBy, Bool.and_eq_true, Bool.not_eq_true', beq_iff_eq,
    List.map_eq_singleton_iff, and_assoc]

theorem absorbs_iff : p.absorbs m = true ↔ p.AccessedBy m := by
  simp only [absorbs, AccessedBy, Bool.and_eq_true, Bool.or_eq_true, Bool.not_eq_true',
    isGetter_iff, isSetter_iff]

instance : Decidable (p.ReadBy m) := decidable_of_iff _ isGetter_iff

instance : Decidable (p.AccessedBy m) := decidable_of_iff _ absorbs_iff

/-- A getter has no parameter and a setter has one. -/
theorem isSetter_eq_not_isGetter (h : p.absorbs m = true) : p.isSetter m = !p.isGetter m := by
  simp only [absorbs, Bool.and_eq_true, Bool.or_eq_true] at h
  cases hg : p.isGetter m with
  | false => simpa [hg] using h.2
  | true =>
    obtain ⟨-, -, hnone, -⟩ := isGetter_iff.mp hg
    simp [isSetter, hnone]

end PropertyPlan

namespace Accessors

variable {owner : String}

/-! ## What a property takes -/

/-- Methods in the order in which a property names them, getters first. -/
def gettersFirst (p : PropertyPlan) (ms : List MethodPlan) : List MethodPlan :=
  ms.filter p.isGetter ++ ms.filter fun m => !p.isGetter m

theorem gettersFirst_perm (p : PropertyPlan) (ms : List MethodPlan) :
    (gettersFirst p ms).Perm ms :=
  List.filter_append_perm ..

/-- The methods that the property at a place takes: no property before it takes them. -/
def share (ps : List PropertyPlan) (ms : List MethodPlan) (i : Nat) (p : PropertyPlan) :
    List MethodPlan :=
  gettersFirst p (ms.filter fun m => p.absorbs m && !(ps.take i).any (·.absorbs m))

theorem share_zero (ps : List PropertyPlan) (ms : List MethodPlan) (p : PropertyPlan) :
    share ps ms 0 p = gettersFirst p (ms.filter p.absorbs) := by
  simp [share]

/-- What the first property leaves is shared among the others. -/
theorem share_succ (p q : PropertyPlan) (ps : List PropertyPlan) (ms : List MethodPlan) (i : Nat) :
    share (q :: ps) ms (i + 1) p = share ps (ms.filter fun m => !q.absorbs m) i p := by
  unfold share
  rw [List.filter_filter]
  refine congrArg (gettersFirst p) (List.filter_congr fun m _ => ?_)
  simp [Bool.and_comm, Bool.and_left_comm]

theorem mem_share {ps : List PropertyPlan} {ms : List MethodPlan} {i : Nat} {p : PropertyPlan}
    {m : MethodPlan} : m ∈ share ps ms i p ↔
      m ∈ ms ∧ p.AccessedBy m ∧ ∀ q ∈ ps.take i, ¬ q.AccessedBy m := by
  unfold share
  rw [(gettersFirst_perm p _).mem_iff]
  simp [PropertyPlan.absorbs_iff, ← Bool.not_eq_true]

/-- The methods that properties take, each with the property that takes it. -/
def taken (ps : List PropertyPlan) (ms : List MethodPlan) : List (PropertyPlan × MethodPlan) :=
  (ps.mapIdx fun i p => (share ps ms i p).map (p, ·)).flatten

theorem taken_cons (p : PropertyPlan) (ps : List PropertyPlan) (ms : List MethodPlan) :
    taken (p :: ps) ms =
      (gettersFirst p (ms.filter p.absorbs)).map (p, ·) ++
        taken ps (ms.filter fun m => !p.absorbs m) := by
  simp only [taken, List.mapIdx_cons, share_zero, share_succ, List.flatten_cons]

/-- What is taken belongs to a property at some place, and no property before it can take it. -/
theorem exists_of_mem_taken {ps : List PropertyPlan} {ms : List MethodPlan}
    {d : PropertyPlan × MethodPlan} (h : d ∈ taken ps ms) :
    ∃ i, ps[i]? = some d.1 ∧ d.1.AccessedBy d.2 ∧ ∀ q ∈ ps.take i, ¬ q.AccessedBy d.2 := by
  obtain ⟨own, hown, hd⟩ := List.mem_flatten.mp h
  obtain ⟨i, hi, rfl⟩ := List.mem_mapIdx.mp hown
  obtain ⟨m, hm, rfl⟩ := List.mem_map.mp hd
  exact ⟨i, List.getElem?_eq_getElem hi, (mem_share.mp hm).2⟩

/-- What is taken are the methods that some property can take. -/
theorem map_taken_perm (ps : List PropertyPlan) (ms : List MethodPlan) :
    ((taken ps ms).map Prod.snd).Perm (ms.filter fun m => ps.any (·.absorbs m)) := by
  induction ps generalizing ms with
  | nil => simp [taken]
  | cons p ps ih =>
    have hsplit := List.filter_append_perm p.absorbs
      (ms.filter fun m => p.absorbs m || ps.any (·.absorbs m))
    have hfirst : (ms.filter fun m => p.absorbs m || ps.any (·.absorbs m)).filter p.absorbs =
        ms.filter p.absorbs := by
      rw [List.filter_filter]
      refine List.filter_congr fun m _ => ?_
      cases p.absorbs m <;> rfl
    have hothers : (ms.filter fun m => p.absorbs m || ps.any (·.absorbs m)).filter
        (fun m => !p.absorbs m) =
          (ms.filter fun m => !p.absorbs m).filter fun m => ps.any (·.absorbs m) := by
      rw [List.filter_filter, List.filter_filter]
      refine List.filter_congr fun m _ => ?_
      cases p.absorbs m <;> simp
    rw [hfirst, hothers] at hsplit
    have hown : ((gettersFirst p (ms.filter p.absorbs)).map (p, ·)).map Prod.snd =
        gettersFirst p (ms.filter p.absorbs) := by
      simp [Function.comp_def]
    rw [taken_cons, List.map_append, hown]
    exact ((gettersFirst_perm p _).append (ih _)).trans hsplit

/-- The entry for a method that a property takes. -/
def entry (owner : String) (p : PropertyPlan) (m : MethodPlan) : HistoryEntry :=
  removal (if p.isGetter m then "getter" else "setter") (p.describe owner) (m.describe owner)

/-- The entry names the method, what it is, and the property. -/
theorem entry_eq (owner : String) (p : PropertyPlan) (m : MethodPlan) :
    entry owner p m = ⟨"PropertyMergePass",
      "Removed method " ++ (owner ++ "." ++ m.signature.text) ++ " since deduced it is a " ++
        (if p.ReadBy m then "getter" else "setter") ++
        " for property " ++ (owner ++ "." ++ p.name ++ ": " ++ p.storage.type.text)⟩ := by
  simp only [entry, ← PropertyPlan.isGetter_iff]
  rfl

/-- The property behind its step: if it took methods, it is marked and says so in its history. -/
def settled (owner : String) (p : PropertyPlan) (own : List MethodPlan) : PropertyPlan :=
  if own.isEmpty then p else absorbed p (p.describe owner) (own.map (·.describe owner))

/-! ## One step -/

theorem map_entry_getters (owner : String) (p : PropertyPlan) (ms : List MethodPlan) :
    (ms.filter p.isGetter).map (entry owner p) =
      ((ms.filter p.isGetter).map (·.describe owner)).map
        (removal "getter" (p.describe owner)) := by
  rw [List.map_map]
  refine List.map_congr_left fun m hm => ?_
  simp [entry, (List.mem_filter.mp hm).2]

section OfValues

variable {p : PropertyPlan} (hclass : p.isClassProperty = false)
include hclass

theorem map_entry_setters (owner : String) (ms : List MethodPlan) :
    (ms.filter p.isSetter).map (entry owner p) =
      ((ms.filter p.isSetter).map (·.describe owner)).map
        (removal "setter" (p.describe owner)) := by
  rw [List.map_map]
  refine List.map_congr_left fun m hm => ?_
  have hsetter := (List.mem_filter.mp hm).2
  have habsorbs : p.absorbs m = true := by simp [PropertyPlan.absorbs, hclass, hsetter]
  have hgetter : p.isGetter m = false := by
    simpa [hsetter] using PropertyPlan.isSetter_eq_not_isGetter habsorbs
  simp [entry, hgetter]

/-- A property takes the methods that read it and those that write it. -/
theorem gettersFirst_filter_absorbs (ms : List MethodPlan) :
    gettersFirst p (ms.filter p.absorbs) = ms.filter p.isGetter ++ ms.filter p.isSetter := by
  have hgetters : (ms.filter p.absorbs).filter p.isGetter = ms.filter p.isGetter := by
    rw [List.filter_filter]
    refine List.filter_congr fun m _ => ?_
    cases hg : p.isGetter m <;> simp [PropertyPlan.absorbs, hclass, hg]
  have hsetters : ((ms.filter p.absorbs).filter fun m => !p.isGetter m) =
      ms.filter p.isSetter := by
    rw [List.filter_filter]
    refine List.filter_congr fun m _ => ?_
    cases habsorbs : p.absorbs m with
    | true => simp [PropertyPlan.isSetter_eq_not_isGetter habsorbs]
    | false =>
      simp only [PropertyPlan.absorbs, hclass, Bool.not_false, Bool.true_and,
        Bool.or_eq_false_iff] at habsorbs
      simp [habsorbs]
  rw [gettersFirst, hgetters, hsetters]

end OfValues

/-- One step, in terms of what the property takes of the methods that are left. -/
theorem step_eq_settled (s : Progress) (p : PropertyPlan) :
    step owner s p =
      { properties := s.properties ++ [settled owner p (share [] s.methods 0 p)]
        methods := s.methods.filter fun m => !p.absorbs m
        history := s.history.append ⟨(share [] s.methods 0 p).map (entry owner p)⟩
        removed := s.removed + (share [] s.methods 0 p).length } := by
  rw [← @step_methods owner, share_zero]
  by_cases hnone : ∀ m ∈ s.methods, p.absorbs m = false
  · have hown : s.methods.filter p.absorbs = [] := by simpa using hnone
    rw [step_of_forall hnone, hown]
    simp [settled, gettersFirst, History.append]
  · have hclass : p.isClassProperty = false := by
      refine Bool.eq_false_iff.mpr fun hclass => hnone fun m _ => ?_
      simp [PropertyPlan.absorbs, hclass]
    have hfound := mt (@found_isEmpty_iff owner p hclass s.methods).mp hnone
    rw [gettersFirst_filter_absorbs hclass, List.map_append, map_entry_getters,
      map_entry_setters hclass, settled, List.map_append]
    unfold step
    rw [hclass, if_neg Bool.false_ne_true]
    dsimp only
    rw [if_neg hfound, if_neg (by simpa using hfound)]
    simp

/-! ## The run -/

/-- Going through some properties, in terms of what each takes. -/
theorem foldl_eq_settled (ps : List PropertyPlan) (s : Progress) :
    ps.foldl (step owner) s =
      { properties := s.properties ++
          ps.mapIdx fun i p => settled owner p (share ps s.methods i p)
        methods := s.methods.filter fun m => !ps.any (·.absorbs m)
        history := s.history.append ⟨(taken ps s.methods).map fun d => entry owner d.1 d.2⟩
        removed := s.removed + (taken ps s.methods).length } := by
  induction ps generalizing s with
  | nil =>
    have hkept : s.methods.filter (fun _ => true) = s.methods := List.filter_eq_self.mpr (by simp)
    simp [History.append, hkept, taken]
  | cons p ps ih =>
    rw [List.foldl_cons, ih, step_eq_settled, taken_cons]
    simp [List.mapIdx_cons, share_zero, share_succ, History.append, List.filter_filter,
      Nat.add_assoc, Bool.and_comm, Function.comp_def]

end Accessors

namespace TypePlan

/-- Some property of the type is read or written by the method. -/
def IsAccessor (t : TypePlan) (m : MethodPlan) : Prop := ∃ p ∈ t.properties, p.AccessedBy m

instance (t : TypePlan) (m : MethodPlan) : Decidable (t.IsAccessor m) :=
  inferInstanceAs (Decidable (∃ p ∈ t.properties, p.AccessedBy m))

/-- The property at a place takes the method: it is an accessor of this property and of none before
    it. -/
def TakesAt (t : TypePlan) (i : Nat) (p : PropertyPlan) (m : MethodPlan) : Prop :=
  p.AccessedBy m ∧ ∀ q ∈ t.properties.take i, ¬ q.AccessedBy m

instance (t : TypePlan) (i : Nat) (p : PropertyPlan) (m : MethodPlan) :
    Decidable (t.TakesAt i p m) :=
  inferInstanceAs (Decidable (p.AccessedBy m ∧ ∀ q ∈ t.properties.take i, ¬ q.AccessedBy m))

theorem any_absorbs_eq (t : TypePlan) :
    (fun m => t.properties.any (·.absorbs m)) = fun m => decide (t.IsAccessor m) := by
  funext m
  rw [Bool.eq_iff_iff, List.any_eq_true, decide_eq_true_iff]
  simp only [PropertyPlan.absorbs_iff, IsAccessor]

theorem run_eq_settled (t : TypePlan) :
    Accessors.run t =
      { properties := t.properties.mapIdx fun i p =>
          Accessors.settled t.name p (Accessors.share t.properties t.methods i p)
        methods := t.methods.filter fun m => !decide (t.IsAccessor m)
        history := t.history.append ⟨(Accessors.taken t.properties t.methods).map fun d =>
          Accessors.entry t.name d.1 d.2⟩
        removed := (Accessors.taken t.properties t.methods).length } := by
  have hkept : (fun m => !t.properties.any (·.absorbs m)) = fun m => !decide (t.IsAccessor m) :=
    funext fun m => congrArg (!·) (congrFun t.any_absorbs_eq m)
  unfold Accessors.run
  rw [Accessors.foldl_eq_settled, hkept]
  simp

theorem map_taken_perm (t : TypePlan) :
    ((Accessors.taken t.properties t.methods).map Prod.snd).Perm
      (t.methods.filter fun m => t.IsAccessor m) := by
  rw [← t.any_absorbs_eq]
  exact Accessors.map_taken_perm t.properties t.methods

theorem share_perm (t : TypePlan) (i : Nat) (p : PropertyPlan) :
    (Accessors.share t.properties t.methods i p).Perm
      (t.methods.filter fun m => t.TakesAt i p m) := by
  have htakes : (fun m => p.absorbs m && !(t.properties.take i).any (·.absorbs m)) =
      fun m => decide (t.TakesAt i p m) := by
    funext m
    rw [Bool.eq_iff_iff, decide_eq_true_iff]
    simp [TakesAt, PropertyPlan.absorbs_iff, ← Bool.not_eq_true]
  rw [← htakes]
  exact Accessors.gettersFirst_perm p _

/-- A property is marked if it took a method. -/
theorem settled_eq (t : TypePlan) (i : Nat) (p : PropertyPlan) {own : List MethodPlan}
    (h : own.Perm (t.methods.filter fun m => t.TakesAt i p m)) :
    Accessors.settled t.name p own =
      if ∃ m ∈ t.methods, t.TakesAt i p m then
        { p with
          hasMergedAccessors := true
          history := p.history.record "PropertyMergePass"
            ("Merged " ++ " and ".intercalate (own.map fun m => t.name ++ "." ++ m.signature.text) ++
              " into property " ++ (t.name ++ "." ++ p.name ++ ": " ++ p.storage.type.text)) }
      else p := by
  have hempty : own.isEmpty = true ↔ ¬ ∃ m ∈ t.methods, t.TakesAt i p m := by
    simp [List.isEmpty_iff, List.eq_nil_iff_forall_not_mem, h.mem_iff]
  unfold Accessors.settled
  by_cases htaken : ∃ m ∈ t.methods, t.TakesAt i p m
  · rw [if_neg (mt hempty.mp (not_not_intro htaken)), if_pos htaken]
    rfl
  · rw [if_pos (hempty.mpr htaken), if_neg htaken]

/-- Merging the accessors of a type drops the methods that are accessors of some property, and
    keeps the others in their order. The count is that of the dropped methods, and the history of
    the type has one new entry for each of them, which names the method and the first property that
    it reads or writes. A property that took methods in its own step is marked and has one new
    entry, which names these; every other one is as it was, and so is all the rest of the type. -/
theorem mergeAccessors_exact (t : TypePlan) :
    t.mergeAccessors.methods = t.methods.filter (fun m => ¬ t.IsAccessor m) ∧
    t.accessorCount = (t.methods.filter fun m => t.IsAccessor m).length ∧
    (∃ dropped : List (PropertyPlan × MethodPlan),
      (dropped.map Prod.snd).Perm (t.methods.filter fun m => t.IsAccessor m) ∧
      (∀ d ∈ dropped, ∃ i, t.properties[i]? = some d.1 ∧ t.TakesAt i d.1 d.2) ∧
      t.mergeAccessors.history.entries = t.history.entries ++ dropped.map fun d =>
        ⟨"PropertyMergePass",
          "Removed method " ++ (t.name ++ "." ++ d.2.signature.text) ++ " since deduced it is a " ++
            (if d.1.ReadBy d.2 then "getter" else "setter") ++
            " for property " ++ (t.name ++ "." ++ d.1.name ++ ": " ++ d.1.storage.type.text)⟩) ∧
    t.mergeAccessors.properties.length = t.properties.length ∧
    (∀ i p, t.properties[i]? = some p → ∃ own : List MethodPlan,
      own.Perm (t.methods.filter fun m => t.TakesAt i p m) ∧
      t.mergeAccessors.properties[i]? = some
        (if ∃ m ∈ t.methods, t.TakesAt i p m then
          { p with
            hasMergedAccessors := true
            history := p.history.record "PropertyMergePass"
              ("Merged " ++ " and ".intercalate (own.map fun m => t.name ++ "." ++ m.signature.text) ++
                " into property " ++ (t.name ++ "." ++ p.name ++ ": " ++ p.storage.type.text)) }
        else p)) ∧
    t.mergeAccessors = { t with
      properties := t.mergeAccessors.properties
      methods := t.mergeAccessors.methods
      history := t.mergeAccessors.history } := by
  have hproperties : t.mergeAccessors.properties = t.properties.mapIdx fun i p =>
      Accessors.settled t.name p (Accessors.share t.properties t.methods i p) :=
    congrArg Accessors.Progress.properties t.run_eq_settled
  refine ⟨?_, ?_, ⟨Accessors.taken t.properties t.methods, t.map_taken_perm, fun d hd =>
    Accessors.exists_of_mem_taken hd, ?_⟩, ?_, fun i p hp => ?_, rfl⟩
  · refine (congrArg Accessors.Progress.methods t.run_eq_settled).trans ?_
    simp only [decide_not]
  · refine (congrArg Accessors.Progress.removed t.run_eq_settled).trans ?_
    rw [← t.map_taken_perm.length_eq, List.length_map]
  · refine (congrArg (History.entries ∘ Accessors.Progress.history) t.run_eq_settled).trans ?_
    simp only [← Accessors.entry_eq]
    rfl
  · rw [hproperties, List.length_mapIdx]
  · refine ⟨_, t.share_perm i p, ?_⟩
    rw [hproperties, List.getElem?_mapIdx, hp, Option.map_some, t.settled_eq i p (t.share_perm i p)]

/-- Two properties that go by one getter, this getter, and a method that is none. -/
def sharedGetter : TypePlan where
  kind := .classType
  name := "A"
  properties :=
    [{ name := "x", storage := .var .int },
      { name := "y", storage := .var .int, attributes := [.getter "x"] }]
  methods := [{ signature := ⟨"x", [], .int, false⟩ }, { signature := ⟨"run", [], .void, false⟩ }]

/-- The first of two properties takes the getter that they share, and the second one is left as it
    is. -/
theorem mergeAccessors_exact_sharedGetter :
    sharedGetter.mergeAccessors.methods = [{ signature := ⟨"run", [], .void, false⟩ }] ∧
    sharedGetter.accessorCount = 1 ∧
    sharedGetter.mergeAccessors.history.entries = [⟨"PropertyMergePass",
      "Removed method A.x() -> Int since deduced it is a getter for property A.x: Int"⟩] ∧
    sharedGetter.mergeAccessors.properties[0]?.map (·.hasMergedAccessors) = some true ∧
    sharedGetter.mergeAccessors.properties[1]? = sharedGetter.properties[1]? := by
  obtain ⟨hmethods, hcount, ⟨dropped, hperm, htaken, hhistory⟩, -, hproperties, -⟩ :=
    mergeAccessors_exact sharedGetter
  refine ⟨hmethods.trans (by decide +kernel), hcount.trans (by decide +kernel), ?_, ?_, ?_⟩
  · have hgetter : sharedGetter.methods.filter (fun m => sharedGetter.IsAccessor m) =
        [{ signature := ⟨"x", [], .int, false⟩ }] := by decide +kernel
    rw [hgetter, List.perm_singleton, List.map_eq_singleton_iff] at hperm
    obtain ⟨⟨p, _⟩, rfl, rfl⟩ := hperm
    obtain ⟨i, hp, htakes⟩ := htaken _ (List.mem_singleton_self _)
    -- The getter is taken at the first place only.
    match i with
    | 0 =>
      obtain rfl := Option.some.inj hp
      exact hhistory.trans (by decide +kernel)
    | 1 =>
      obtain rfl := Option.some.inj hp
      exact absurd htakes (by decide +kernel)
    | i + 2 => cases hp
  · obtain ⟨own, -, hfirst⟩ := hproperties 0 _ rfl
    rw [hfirst, if_pos (by decide +kernel)]
    rfl
  · obtain ⟨own, -, hsecond⟩ := hproperties 1 _ rfl
    rw [hsecond, if_neg (by decide +kernel)]
    rfl

end TypePlan

end HeaderBridge
