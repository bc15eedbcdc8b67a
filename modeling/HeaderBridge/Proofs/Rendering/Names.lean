/-
  Which Swift types have names that Swift can read. A plain name of one word stays one word or has
  a name of one word put in its place. A plain name of several words, a scalar of C, becomes one
  word only where the table of scalars spells it so, and a name with arguments is never looked up
  there. So the scalars that the table leaves out go through with their blanks.
-/
import HeaderBridge.Bridge.TypeMap
import HeaderBridge.Proofs.Directives.Headers
import HeaderBridge.Proofs.Printing.Rules
import HeaderBridge.Proofs.Rendering.Mapping

namespace HeaderBridge

open Grammar (IsBaseName header)

variable {source name : String} {type : ObjcType} {m : TypeMap}

/-! ## Names in a Swift type -/

namespace SwiftType

mutual

/-- The names in a type, those of arguments and members included. -/
def names : SwiftType → List String
  | .named name => [name]
  | .generic name arguments => name :: namesAll arguments
  | .optional t | .implicit t | .array t => names t
  | .dictionary key value => names key ++ names value
  | .composition members => namesAll members

def namesAll : List SwiftType → List String
  | [] => []
  | t :: ts => names t ++ namesAll ts

end

/-- Every name in the type is one word. -/
def Writable (t : SwiftType) : Prop := ∀ name ∈ t.names, IsWord name.toList

theorem forall_mem_namesAll {p : String → Prop} {types : List SwiftType} :
    (∀ name ∈ namesAll types, p name) ↔ ∀ t ∈ types, ∀ name ∈ t.names, p name := by
  induction types with
  | nil => simp [namesAll]
  | cons t types ih => rw [namesAll, List.forall_mem_append, ih, List.forall_mem_cons]

theorem writable_named : (named name).Writable ↔ IsWord name.toList := by
  rw [Writable, names, List.forall_mem_singleton]

theorem writable_generic {arguments : List SwiftType} :
    (generic name arguments).Writable ↔ IsWord name.toList ∧ ∀ a ∈ arguments, a.Writable := by
  rw [Writable, names, List.forall_mem_cons, forall_mem_namesAll]
  rfl

theorem writable_dictionary {key value : SwiftType} :
    (dictionary key value).Writable ↔ key.Writable ∧ value.Writable := by
  rw [Writable, names, List.forall_mem_append]
  rfl

theorem writable_composition {members : List SwiftType} :
    (composition members).Writable ↔ ∀ t ∈ members, t.Writable := by
  rw [Writable, names, forall_mem_namesAll]
  rfl

theorem writable_own (h : name ∈ ownNames) : (named name).Writable :=
  writable_named.mpr (isWord_own h)

end SwiftType

/-! ## Names in an Objective-C type -/

/-- A name is one word if it has no blank. -/
def IsSingle (name : String) : Prop := ' ' ∉ name.toList

instance : DecidablePred IsSingle := fun name => inferInstanceAs (Decidable (' ' ∉ name.toList))

/-- Every name of several words in the type is plain and a spelling in the table of scalars. -/
inductive ObjcType.Tabled : ObjcType → Prop where
  | named {name : String} (listed : IsSingle name ∨ (scalarName? name).isSome = true) :
      Tabled (.named name)
  | id (protocols : List String) : Tabled (.id protocols)
  | generic {name : String} {arguments : List ObjcType} (single : IsSingle name)
      (each : ∀ a ∈ arguments, Tabled a) : Tabled (.generic name arguments)
  | pointer {target : ObjcType} (tabled : Tabled target) : Tabled (.pointer target)

namespace ObjcType

theorem tabled_named :
    (named name).Tabled ↔ IsSingle name ∨ (scalarName? name).isSome = true := by
  refine ⟨fun h => ?_, .named⟩
  cases h with
  | named listed => exact listed

theorem tabled_generic {arguments : List ObjcType} :
    (generic name arguments).Tabled ↔ IsSingle name ∧ ∀ a ∈ arguments, a.Tabled := by
  refine ⟨fun h => ?_, fun h => .generic h.1 h.2⟩
  cases h with
  | generic single each => exact ⟨single, each⟩

theorem tabled_pointer : (pointer type).Tabled ↔ type.Tabled := by
  refine ⟨fun h => ?_, .pointer⟩
  cases h with
  | pointer tabled => exact tabled

end ObjcType

/-- The name of a type is one word unless it has a blank. -/
theorem Grammar.IsBaseName.isWord_iff (h : IsBaseName name) :
    IsWord name.toList ↔ IsSingle name := by
  constructor
  · intro hword hblank
    have hpart := hword.1.2 ' ' hblank
    rw [isWordPart_of_mark (by decide)] at hpart
    cases hpart
  · obtain ⟨first, more, hfirst, -, -, rfl⟩ := h
    intro hsingle
    cases more with
    | nil =>
      rw [String.intercalate_singleton]
      exact hfirst
    | cons second more =>
      refine absurd ?_ hsingle
      rw [toList_intercalate]
      exact List.mem_append_right _ (List.mem_flatMap.mpr ⟨second, List.mem_cons_self, by simp⟩)

/-! ## The mapping of types -/

/-- The type that `instancetype` stands for, where there is one, is one word. -/
def TypeMap.IsWritable (m : TypeMap) : Prop := ∀ name ∈ m.instanceType, IsWord name.toList

theorem named_writable_iff (hm : m.IsWritable) (h : IsBaseName name) :
    (m.named name).Writable ↔ IsSingle name ∨ (scalarName? name).isSome = true := by
  unfold TypeMap.named
  split
  · next scalar hscalar =>
    rw [hscalar]
    exact iff_of_true (SwiftType.writable_named.mpr (isWord_scalar hscalar)) (.inr rfl)
  · next hscalar =>
    rw [hscalar]
    split_ifs with hvoid hinstance hstring hsel
    · exact iff_of_true (SwiftType.writable_own (by decide)) (.inl (hvoid ▸ by decide))
    · refine iff_of_true ?_ (.inl (hinstance ▸ by decide))
      cases hown : m.instanceType with
      | none => exact SwiftType.writable_own (by decide)
      | some name => exact SwiftType.writable_named.mpr (hm name hown)
    · refine iff_of_true (SwiftType.writable_own (by decide)) (.inl ?_)
      rcases hstring with rfl | rfl <;> decide
    · exact iff_of_true (SwiftType.writable_own (by decide)) (.inl (hsel ▸ by decide))
    · rw [SwiftType.writable_named, h.isWord_iff]
      simp

theorem generic_writable_iff {arguments : List SwiftType} (h : IsBaseName name) :
    (TypeMap.generic name arguments).Writable ↔
      IsSingle name ∧ ∀ a ∈ arguments, a.Writable := by
  unfold TypeMap.generic
  split
  · next element =>
    rw [List.forall_mem_singleton]
    exact (and_iff_right (by decide : IsSingle "NSArray")).symm
  · next key value =>
    rw [SwiftType.writable_dictionary, List.forall_mem_cons, List.forall_mem_singleton]
    exact (and_iff_right (by decide : IsSingle "NSDictionary")).symm
  · rw [SwiftType.writable_generic, h.isWord_iff]

/-- The mapping of a readable type has names of one word if and only if the type is tabled. -/
theorem ObjcType.Readable.unwrapped_writable_iff (hm : m.IsWritable) (h : type.Readable) :
    (m.unwrapped type).Writable ↔ type.Tabled := by
  induction h with
  | named isName => rw [TypeMap.unwrapped, named_writable_iff hm isName, tabled_named]
  | @id protocols words =>
    refine iff_of_true ?_ (.id protocols)
    cases protocols with
    | nil => exact SwiftType.writable_own (by decide)
    | cons first more =>
      cases more with
      | nil => exact SwiftType.writable_named.mpr (words first List.mem_cons_self)
      | cons second more =>
        refine SwiftType.writable_composition.mpr (List.forall_mem_map.mpr fun p hp => ?_)
        exact SwiftType.writable_named.mpr (words p hp)
  | generic isName _ _ ih =>
    rw [TypeMap.unwrapped, unwrappedAll_eq, generic_writable_iff isName, List.forall_mem_map,
      tabled_generic]
    exact and_congr_right fun _ => forall₂_congr ih
  | @pointer target readable ih =>
    rw [tabled_pointer, ← ih]
    cases readable with
    | @named name isName =>
      rw [TypeMap.unwrapped, TypeMap.unwrapped]
      split_ifs with hscalar hvoid
      · rw [SwiftType.writable_generic, List.forall_mem_singleton]
        exact and_iff_right (SwiftType.writable_named.mp (SwiftType.writable_own (by decide)))
      · refine iff_of_true (SwiftType.writable_own (by decide)) ?_
        exact (named_writable_iff hm isName).mpr (.inl (hvoid ▸ by decide))
      · rfl
    | id | generic | pointer => rfl

/-- Marks of optionality add no name. -/
theorem names_swiftType (m : TypeMap) (type : ObjcType) (nullability : Option Nullability) :
    (m.swiftType type nullability).names = (m.unwrapped type).names := by
  unfold TypeMap.swiftType
  split
  · split <;> rfl
  · rfl

/-- Whatever the source, the Swift types for the types in its tree have names of one word, but for
    the types with a name of several words that has arguments or that the table of scalars
    lacks. -/
theorem isWord_names_iff (source : String) (log : DiagnosticLog) (origin : Option String) :
    ∃ h, Header.read source log origin = .ok h ∧ ∀ t ∈ h.typeNames, ∀ m : TypeMap, m.IsWritable →
      ((∀ name ∈ (m.swiftType t.type t.nullability).names, IsWord name.toList) ↔
        t.type.Tabled) := by
  obtain ⟨h, hread⟩ := exists_read_header source log origin
  refine ⟨h, hread, fun t ht m hm => ?_⟩
  rw [names_swiftType]
  exact (Header.readable_of_read hread t ht).unwrapped_writable_iff hm

/-- `NSDictionary<instancetype, Set<long int*>>*` has only names of one word in Swift. -/
theorem isWord_names_iff_dictionary :
    ∃ h, Header.read "@interface A @property NSDictionary<instancetype, Set<long int*>>* x; @end" =
      .ok h ∧ ∃ t ∈ h.typeNames, t.text = "NSDictionary<instancetype, Set<long int*>>*" ∧
        t.type.Tabled ∧
        ∀ name ∈ (TypeMap.swiftType ⟨some "A"⟩ t.type t.nullability).names, IsWord name.toList := by
  let row : List Token := [⟨.atInterface, "@interface", ⟨0, 10, by decide⟩⟩,
    ⟨.identifier, "A", ⟨11, 12, by decide⟩⟩, ⟨.atProperty, "@property", ⟨13, 22, by decide⟩⟩,
    ⟨.identifier, "NSDictionary", ⟨23, 35, by decide⟩⟩, ⟨.less, "<", ⟨35, 36, by decide⟩⟩,
    ⟨.identifier, "instancetype", ⟨36, 48, by decide⟩⟩, ⟨.comma, ",", ⟨48, 49, by decide⟩⟩,
    ⟨.identifier, "Set", ⟨50, 53, by decide⟩⟩, ⟨.less, "<", ⟨53, 54, by decide⟩⟩,
    ⟨.identifier, "long", ⟨54, 58, by decide⟩⟩, ⟨.identifier, "int", ⟨59, 62, by decide⟩⟩,
    ⟨.star, "*", ⟨62, 63, by decide⟩⟩, ⟨.shiftRight, ">>", ⟨63, 65, by decide⟩⟩,
    ⟨.star, "*", ⟨65, 66, by decide⟩⟩, ⟨.identifier, "x", ⟨67, 68, by decide⟩⟩,
    ⟨.semicolon, ";", ⟨68, 69, by decide⟩⟩, ⟨.atEnd, "@end", ⟨70, 74, by decide⟩⟩]
  have hrow : significant (tokenize
      "@interface A @property NSDictionary<instancetype, Set<long int*>>* x; @end") = row := by cbv
  obtain ⟨h, hread, -, htest⟩ := exists_read_of_typeNames hrow (fun types => types.any fun t =>
    t.text == "NSDictionary<instancetype, Set<long int*>>*" &&
      (TypeMap.swiftType ⟨some "A"⟩ t.type t.nullability).names ==
        ["A", "Set", "UnsafeMutablePointer", "CLong"])
    (by decide +kernel)
  obtain ⟨t, ht, htest⟩ := List.any_eq_true.mp htest
  obtain ⟨htext, hnames⟩ := Bool.and_eq_true_iff.mp htest
  obtain ⟨_, hread', hiff⟩ := isWord_names_iff
    "@interface A @property NSDictionary<instancetype, Set<long int*>>* x; @end" .empty none
  obtain rfl := Except.ok.inj (hread.symm.trans hread')
  have hinstance : TypeMap.IsWritable ⟨some "A"⟩ := by
    rintro _ ⟨⟩
    decide
  have hwords : ∀ name ∈ (TypeMap.swiftType ⟨some "A"⟩ t.type t.nullability).names,
      IsWord name.toList := by
    rw [beq_iff_eq.mp hnames]
    decide
  exact ⟨h, hread, t, ht, beq_iff_eq.mp htext, (hiff t ht _ hinstance).mp hwords, hwords⟩

/-- The table of scalars lacks `long long int`, which keeps its blanks. -/
theorem exists_name_of_words :
    ∃ h, Header.read "@interface A\n@property long long int x;\n@end" = .ok h ∧ h.errors = [] ∧
      ∃ t ∈ h.typeNames,
        ¬ ∀ name ∈ (TypeMap.swiftType {} t.type t.nullability).names, IsWord name.toList := by
  let row : List Token := [⟨.atInterface, "@interface", ⟨0, 10, by decide⟩⟩,
    ⟨.identifier, "A", ⟨11, 12, by decide⟩⟩, ⟨.atProperty, "@property", ⟨13, 22, by decide⟩⟩,
    ⟨.identifier, "long", ⟨23, 27, by decide⟩⟩, ⟨.identifier, "long", ⟨28, 32, by decide⟩⟩,
    ⟨.identifier, "int", ⟨33, 36, by decide⟩⟩, ⟨.identifier, "x", ⟨37, 38, by decide⟩⟩,
    ⟨.semicolon, ";", ⟨38, 39, by decide⟩⟩, ⟨.atEnd, "@end", ⟨40, 44, by decide⟩⟩]
  have hrow : significant (tokenize "@interface A\n@property long long int x;\n@end") = row := by
    cbv
  obtain ⟨h, hread, hnone, htest⟩ := exists_read_of_typeNames hrow (fun types => types.any fun t =>
    !decide (∀ name ∈ (TypeMap.swiftType {} t.type t.nullability).names, IsWord name.toList))
    (by decide +kernel)
  obtain ⟨t, ht, hfalse⟩ := List.any_eq_true.mp htest
  exact ⟨h, hread, hnone, t, ht, by simpa using hfalse⟩

end HeaderBridge
