/-
  Entries with keys, of which the first one of each key is kept, as the protocols, properties and
  methods of a known type are. One entry at a time or a whole list at once, a key has its first
  entry, no key has two, none is lost, and the keys stay in the order in which they came first.
-/
import HeaderBridge.Typing.KnownType
import Mathlib.Data.List.Induction

namespace HeaderBridge

section

variable {α κ : Type} [DecidableEq κ] (key : α → κ)

/-- Keeps an entry if its key is new. -/
def keepFirst (kept : List α) (a : α) : List α :=
  if key a ∈ kept.map key then kept else kept ++ [a]

/-- The entries without the later ones of each key. -/
def firstOfEach (as : List α) : List α := as.foldl (keepFirst key) []

/-- What is looked for by its key is found where it was found before, or it is the new entry. -/
theorem find?_keepFirst (kept : List α) (a : α) (p : κ → Bool) :
    (keepFirst key kept a).find? (p ∘ key) = (kept ++ [a]).find? (p ∘ key) := by
  unfold keepFirst
  split
  · next hmem =>
    rw [List.find?_append, List.find?_singleton]
    by_cases hp : p (key a) = true
    · -- The key has an entry among those that were kept.
      obtain ⟨b, hb, hkey⟩ := List.mem_map.mp hmem
      have hsome : (kept.find? (p ∘ key)).isSome = true :=
        List.find?_isSome.mpr ⟨b, hb, (congrArg p hkey).trans hp⟩
      obtain ⟨c, hc⟩ := Option.isSome_iff_exists.mp hsome
      rw [hc, Option.some_or]
    · rw [Function.comp_apply, if_neg hp, Option.or_none]
  · rfl

theorem nodup_keepFirst {kept : List α} (h : (kept.map key).Nodup) (a : α) :
    ((keepFirst key kept a).map key).Nodup := by
  unfold keepFirst
  split
  · exact h
  · next hnew =>
    rw [List.map_append, List.map_singleton, List.nodup_append]
    refine ⟨h, by simp, ?_⟩
    rintro k hk _ ha rfl
    exact hnew (List.mem_singleton.mp ha ▸ hk)

theorem keepFirst_sublist (kept : List α) (a : α) :
    (keepFirst key kept a).Sublist (kept ++ [a]) := by
  unfold keepFirst
  split
  · exact List.sublist_append_left kept [a]
  · exact .refl _

theorem firstOfEach_concat (as : List α) (a : α) :
    firstOfEach key (as ++ [a]) = keepFirst key (firstOfEach key as) a := by
  unfold firstOfEach
  rw [List.foldl_append, List.foldl_cons, List.foldl_nil]

/-- Whatever is looked for by its key, the first entry with such a key is found. -/
theorem find?_key_firstOfEach (as : List α) (p : κ → Bool) :
    (firstOfEach key as).find? (p ∘ key) = as.find? (p ∘ key) := by
  suffices h : ∀ kept, (as.foldl (keepFirst key) kept).find? (p ∘ key) =
      (kept ++ as).find? (p ∘ key) from h []
  induction as with
  | nil => intro kept; rw [List.foldl_nil, List.append_nil]
  | cons a as ih =>
    intro kept
    rw [List.foldl_cons, ih, List.find?_append, find?_keepFirst, ← List.find?_append,
      List.append_assoc, List.singleton_append]

/-- Each key has its first entry. -/
theorem find?_firstOfEach (as : List α) (k : κ) :
    (firstOfEach key as).find? (key · = k) = as.find? (key · = k) :=
  find?_key_firstOfEach key as (· = k)

/-- No key has two entries. -/
theorem nodup_firstOfEach (as : List α) : ((firstOfEach key as).map key).Nodup := by
  suffices h : ∀ kept : List α, (kept.map key).Nodup →
      ((as.foldl (keepFirst key) kept).map key).Nodup from h [] List.nodup_nil
  induction as with
  | nil => exact fun _ hkept => hkept
  | cons a as ih => exact fun kept hkept => ih _ (nodup_keepFirst key hkept a)

/-- The entries stay in their order. -/
theorem firstOfEach_sublist (as : List α) : (firstOfEach key as).Sublist as := by
  suffices h : ∀ kept : List α, (as.foldl (keepFirst key) kept).Sublist (kept ++ as) from h []
  induction as with
  | nil => intro kept; simp
  | cons a as ih =>
    intro kept
    have hstep := (keepFirst_sublist key kept a).append_right as
    rw [List.append_assoc, List.singleton_append] at hstep
    exact (ih _).trans hstep

/-- No key is lost. -/
theorem mem_map_firstOfEach (as : List α) (k : κ) :
    k ∈ (firstOfEach key as).map key ↔ k ∈ as.map key := by
  have hsome := congrArg Option.isSome (find?_firstOfEach key as k)
  rw [Bool.eq_iff_iff, List.find?_isSome, List.find?_isSome] at hsome
  simpa [List.mem_map] using hsome

/-- The keys stand in the order in which each of them came first. -/
theorem map_firstOfEach (as : List α) : (firstOfEach key as).map key = (as.map key).eraseDups := by
  induction as using List.reverseRecOn with
  | nil => rfl
  | append_singleton as a ih =>
    rw [firstOfEach_concat, List.map_append, List.map_singleton, List.eraseDups_append, ← ih,
      List.cons_removeAll, List.nil_removeAll]
    unfold keepFirst
    by_cases hmem : key a ∈ as.map key
    · have hkept := (mem_map_firstOfEach key as (key a)).mpr hmem
      rw [if_pos hkept, if_neg (by simpa using hmem), List.eraseDups_nil, List.append_nil]
    · have hkept := mt (mem_map_firstOfEach key as (key a)).mp hmem
      rw [if_neg hkept, if_pos (by simpa using hmem), List.map_append, List.map_singleton,
        List.eraseDups_cons, List.filter_nil, List.eraseDups_nil]

/-- What is kept stays. -/
theorem prefix_foldl_keepFirst (kept as : List α) : kept <+: as.foldl (keepFirst key) kept := by
  induction as generalizing kept with
  | nil => exact List.prefix_rfl
  | cons a as ih =>
    have hstep : kept <+: keepFirst key kept a := by
      unfold keepFirst
      split
      · exact List.prefix_rfl
      · exact List.prefix_append kept [a]
    exact hstep.trans (ih _)

/-- An entry whose key is new comes behind what was kept of those in front of it. -/
theorem firstOfEach_append_cons {before : List α} {a : α} (h : key a ∉ before.map key)
    (after : List α) :
    firstOfEach key before ++ [a] <+: firstOfEach key (before ++ a :: after) := by
  have hnew : keepFirst key (firstOfEach key before) a = firstOfEach key before ++ [a] :=
    if_neg (mt (mem_map_firstOfEach key before (key a)).mp h)
  calc firstOfEach key before ++ [a]
      = firstOfEach key (before ++ [a]) := by rw [firstOfEach_concat, hnew]
    _ <+: after.foldl (keepFirst key) (firstOfEach key (before ++ [a])) :=
      prefix_foldl_keepFirst key _ after
    _ = firstOfEach key (before ++ a :: after) := by
      unfold firstOfEach
      rw [← List.foldl_append, List.append_assoc, List.singleton_append]

/-- Keys that tell the same entries apart keep the same ones. -/
theorem firstOfEach_congr {κ' : Type} [DecidableEq κ'] {key' : α → κ'} {as : List α}
    (h : ∀ a ∈ as, ∀ b ∈ as, key a = key b ↔ key' a = key' b) :
    firstOfEach key as = firstOfEach key' as := by
  induction as using List.reverseRecOn with
  | nil => rfl
  | append_singleton as a ih =>
    have hfront : firstOfEach key as = firstOfEach key' as := ih fun b hb c hc =>
      h b (List.mem_append_left _ hb) c (List.mem_append_left _ hc)
    have hnew : key a ∈ (firstOfEach key' as).map key ↔
        key' a ∈ (firstOfEach key' as).map key' := by
      simp only [List.mem_map]
      refine exists_congr fun b => and_congr_right fun hb => ?_
      exact h b (List.mem_append_left _ ((firstOfEach_sublist key' as).subset hb)) a (by simp)
    rw [firstOfEach_concat, firstOfEach_concat, hfront]
    unfold keepFirst
    simp only [hnew]

/-- What is kept of the entries that were added: no key twice, the keys in the order in which each
    of them came first, and with each key the first entry that was added with it. -/
structure FirstEntries (added kept : List α) : Prop where
  nodup : (kept.map key).Nodup
  order : kept.map key = (added.map key).eraseDups
  first : ∀ k, kept.find? (key · = k) = added.find? (key · = k)

theorem firstEntries_firstOfEach (as : List α) : FirstEntries key as (firstOfEach key as) :=
  ⟨nodup_firstOfEach key as, map_firstOfEach key as, find?_firstOfEach key as⟩

end

/-! ## Known types -/

/-- What tells the methods of a type apart. -/
def Signature.key (m : Signature) : Bool × String := (m.isStatic, m.selector)

namespace KnownType

theorem addProtocol_eq (t : KnownType) (name : String) :
    t.addProtocol name = { t with protocols := keepFirst id t.protocols name } := by
  cases t with
  | mk own supertype protocols properties initializers methods =>
    unfold addProtocol conformsTo keepFirst
    simp only [List.contains_iff_mem, List.map_id, id]
    split <;> rfl

theorem addProperty_eq (t : KnownType) (name : String) (storage : Storage) :
    t.addProperty name storage =
      { t with properties := keepFirst KnownProperty.name t.properties ⟨name, storage⟩ } := by
  cases t with
  | mk own supertype protocols properties initializers methods =>
    unfold addProperty property? keepFirst
    simp only [List.find?_isSome, List.mem_map, beq_iff_eq]
    split <;> rfl

theorem sameKey_iff (a b : Signature) : sameKey a b = true ↔ a.key = b.key := by
  unfold sameKey Signature.key
  rw [Bool.and_eq_true, beq_iff_eq, beq_iff_eq, Prod.mk.injEq]

theorem addMethod_eq (t : KnownType) (m : Signature) :
    t.addMethod m = { t with methods := keepFirst Signature.key t.methods m } := by
  cases t with
  | mk own supertype protocols properties initializers methods =>
    unfold addMethod keepFirst
    simp only [List.any_eq_true, sameKey_iff, List.mem_map, @eq_comm _ m.key]
    split <;> rfl

/-! Many additions to one list are a fold over that list alone. -/

theorem foldl_addProtocol (names : List String) (t : KnownType) : names.foldl addProtocol t =
    { t with protocols := names.foldl (keepFirst id) t.protocols } := by
  cases t with
  | mk own supertype protocols properties initializers methods =>
    exact List.foldl_hom (mk own supertype · properties initializers methods)
      fun _ _ => addProtocol_eq ..

theorem foldl_addProperty (ps : List KnownProperty) (t : KnownType) :
    ps.foldl (fun t p => t.addProperty p.name p.storage) t =
      { t with properties := ps.foldl (keepFirst KnownProperty.name) t.properties } := by
  cases t with
  | mk own supertype protocols properties initializers methods =>
    exact List.foldl_hom (mk own supertype protocols · initializers methods)
      fun _ _ => addProperty_eq ..

theorem foldl_addInitializer (is : List (List Parameter)) (t : KnownType) :
    is.foldl addInitializer t = { t with initializers := t.initializers ++ is } := by
  induction is generalizing t with
  | nil => cases t; simp
  | cons i is ih => rw [List.foldl_cons, ih]; simp [addInitializer]

theorem foldl_addMethod (ms : List Signature) (t : KnownType) : ms.foldl addMethod t =
    { t with methods := ms.foldl (keepFirst Signature.key) t.methods } := by
  cases t with
  | mk own supertype protocols properties initializers methods =>
    exact List.foldl_hom (mk own supertype protocols properties initializers)
      fun _ _ => addMethod_eq ..

end KnownType

end HeaderBridge
