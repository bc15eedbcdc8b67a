/-
  Which names the types of a source have. A type that tokens spell has names of their words, and
  the mapping of types keeps such names or puts its own in their place, so that it makes a type
  whose text can be told from every other one.
-/
import HeaderBridge.Bridge.TypeMap
import HeaderBridge.Proofs.Rendering.Types
import HeaderBridge.Proofs.Types.Exact

namespace HeaderBridge

open Grammar (NameSpelling NameTail Stars Spelling ArgumentSpelling plainType)

variable {ts : List Token} {name : String} {type last : ObjcType} {m : TypeMap}

/-- Every identifier among the tokens is a word. -/
def HasWords (ts : List Token) : Prop :=
  ∀ t ∈ ts, t.kind = .identifier → IsWord t.text.toList

theorem isTypeName_of_isRun (h : IsRun name.toList) : IsTypeName name :=
  ⟨name, [], h, List.forall_mem_nil _, String.intercalate_singleton.symm⟩

/-! ## Types of a source -/

/-- The names in a type are names of types. -/
inductive ObjcType.Named : ObjcType → Prop where
  | named {name : String} (isName : IsTypeName name) : Named (.named name)
  | id {protocols : List String} (each : ∀ name ∈ protocols, IsTypeName name) :
      Named (.id protocols)
  | generic {name : String} {arguments : List ObjcType} (isName : IsTypeName name)
      (each : ∀ a ∈ arguments, Named a) : Named (.generic name arguments)
  | pointer {target : ObjcType} (each : Named target) : Named (.pointer target)

theorem Grammar.NameTail.mem_followingWords {first : String} (h : NameTail first ts) :
    ∀ t ∈ ts, t.text ∈ followingWords := by
  induction ts generalizing first with
  | nil => exact List.forall_mem_nil _
  | cons t ts ih =>
    obtain ⟨_, _, hfollows, htail⟩ := h
    exact List.forall_mem_cons.mpr ⟨hfollows, ih htail⟩

theorem Grammar.NameSpelling.isTypeName (h : NameSpelling ts name) (hwords : HasWords ts) :
    IsTypeName name := by
  cases h with
  | @words first more word tail =>
    refine ⟨first.text, more.map (·.text), (hwords first List.mem_cons_self word).1, ?_, rfl⟩
    exact List.forall_mem_map.mpr tail.mem_followingWords

theorem Grammar.Stars.named {found total : Option Nullability} (h : Stars type found ts last total)
    (htype : type.Named) : last.Named := by
  induction h with
  | none => exact htype
  | star _ _ _ ih => exact ih (.pointer htype)

theorem plainType_named (h : IsTypeName name) : (plainType name).Named := by
  unfold plainType
  split
  · exact .id (List.forall_mem_nil _)
  · exact .named h

theorem Grammar.Spelling.named {found : Option Nullability} (h : Spelling ts type found)
    (hwords : HasWords ts) : type.Named := by
  induction h with
  | plain spelt behind =>
    obtain ⟨hname, _⟩ := List.forall_mem_append.mp hwords
    exact behind.named (plainType_named (spelt.isTypeName hname))
  | protocols id _ items commas _ behind =>
    have hinner := (List.forall_mem_append.mp
      (List.forall_mem_cons.mp (List.forall_mem_cons.mp hwords).2).2).1
    refine behind.named (.id (List.forall_mem_map.mpr fun t ht => isTypeName_of_isRun ?_))
    have hpiece := commas.forall_mem hinner [t] (List.mem_map_of_mem ht)
    exact (hpiece t List.mem_cons_self (items t ht)).1
  | generic spelt _ _ _ _ commas _ behind ih =>
    obtain ⟨hname, hlist⟩ := List.forall_mem_append.mp hwords
    have hinner := (List.forall_mem_append.mp (List.forall_mem_cons.mp hlist).2).1
    refine behind.named (.generic (spelt.isTypeName hname) (List.forall_mem_map.mpr fun a ha => ?_))
    have hpiece := commas.forall_mem hinner a.tokens (List.mem_map_of_mem ha)
    exact ih a ha (List.forall_mem_append.mp hpiece).2

/-! ## Types of the mapping -/

/-- The type that `instancetype` stands for, where there is one, has the name of a type. -/
def TypeMap.IsNamed (m : TypeMap) : Prop := ∀ name ∈ m.instanceType, IsTypeName name

/-- The Swift names of the scalars are words. -/
theorem isWord_scalar {scalar : String} (h : scalarName? name = some scalar) :
    IsWord scalar.toList := by
  have hall : ∀ entry ∈ scalarTable, IsWord entry.2.toList := by decide
  unfold scalarName? at h
  obtain ⟨entry, hentry, rfl⟩ := Option.map_eq_some_iff.mp h
  exact hall entry (List.mem_of_find?_eq_some hentry)

/-- The names that the mapping puts in the place of others, beside those of the scalars. -/
def ownNames : List String :=
  ["Void", "AnyObject", "String", "Selector", "UnsafeMutablePointer", "UnsafeMutableRawPointer"]

theorem isWord_own (h : name ∈ ownNames) : IsWord name.toList := by
  have hall : ∀ name ∈ ownNames, IsWord name.toList := by decide
  exact hall name h

theorem isTypeName_own (h : name ∈ ownNames) : IsTypeName name :=
  isTypeName_of_isRun (isWord_own h).1

theorem named_legible (hm : m.IsNamed) (h : IsTypeName name) : (m.named name).Legible := by
  unfold TypeMap.named
  split
  · next scalar hscalar => exact .named (isTypeName_of_isRun (isWord_scalar hscalar).1)
  · split_ifs
    · exact .named (isTypeName_own (by decide))
    · cases hinstance : m.instanceType with
      | none => exact .named (isTypeName_own (by decide))
      | some name => exact .named (hm name hinstance)
    · exact .named (isTypeName_own (by decide))
    · exact .named (isTypeName_own (by decide))
    · exact .named h

theorem generic_legible {arguments : List SwiftType} (h : IsTypeName name)
    (each : ∀ a ∈ arguments, a.Legible) : (TypeMap.generic name arguments).Legible := by
  unfold TypeMap.generic
  split
  · exact .array (each _ (by simp))
  · exact .dictionary (each _ (by simp)) (each _ (by simp))
  · exact .generic h each

theorem unwrappedAll_eq (types : List ObjcType) :
    m.unwrappedAll types = types.map m.unwrapped := by
  induction types with
  | nil => rfl
  | cons t types ih => rw [TypeMap.unwrappedAll, ih, List.map_cons]

/-- The mapping makes types that can be told apart. -/
theorem ObjcType.Named.legible (hm : m.IsNamed) (h : type.Named) : (m.unwrapped type).Legible := by
  induction h with
  | named isName => exact named_legible hm isName
  | @id protocols each =>
    match protocols, each with
    | [], _ => exact .named (isTypeName_own (by decide))
    | [only], each => exact .named (each only List.mem_cons_self)
    | first :: second :: more, each =>
      obtain ⟨hfirst, hmore⟩ := List.forall_mem_cons.mp each
      exact .composition hfirst hmore
  | generic isName _ ih =>
    rw [TypeMap.unwrapped, unwrappedAll_eq]
    exact generic_legible isName (List.forall_mem_map.mpr ih)
  | @pointer target each ih =>
    cases each with
    | @named name isName =>
      rw [TypeMap.unwrapped]
      split_ifs
      · exact .generic (isTypeName_own (by decide))
          (List.forall_mem_singleton.mpr (named_legible hm isName))
      · exact .named (isTypeName_own (by decide))
      · exact named_legible hm isName
    | id | generic | pointer => exact ih

/-- A type that tokens with words spell is mapped to one that can be told from every other. -/
theorem legible_of_spelling (hm : m.IsNamed) (h : ArgumentSpelling ts type)
    (hwords : HasWords ts) : (m.unwrapped type).Legible := by
  obtain ⟨a, rfl, rfl, _, hspelt⟩ := h
  exact (hspelt.named (List.forall_mem_append.mp hwords).2).legible hm

end HeaderBridge
