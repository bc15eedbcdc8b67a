/-
  What the children of a declaration show, put together from the parts that add them: a superclass,
  a list of protocols, members. Punctuation and directives show nothing.
-/
import HeaderBridge.Proofs.Header.Building
import HeaderBridge.Proofs.Header.Declared

namespace HeaderBridge

/-! ## What children show -/

theorem mapM_eq_some_of_map {α β : Type} {f : α → Option β} {as : List α} {bs : List β}
    (h : as.map f = bs.map some) : as.mapM f = some bs := by
  induction as generalizing bs with
  | nil =>
    obtain rfl : bs = [] := List.map_eq_nil_iff.mp h.symm
    rfl
  | cons a as ih =>
    cases bs with
    | nil => cases h
    | cons b bs =>
      obtain ⟨hfirst, hmore⟩ := List.cons.inj h
      rw [List.mapM_cons, hfirst, ih hmore]
      rfl

/-- What the children of a declaration show: superclasses, lists of protocols, and members. -/
structure Shows (cs : List Node) (superclasses : List String) (lists : List (List String))
    (members : List Member) : Prop where
  superclasses : (cs.filterMap Node.superclassName?).map Ident.name = superclasses
  lists : (cs.filterMap Node.protocolNames?).map (·.map Ident.name) = lists
  members : (cs.filter Node.isMember).map Node.member? = members.map some

namespace Shows

variable {cs cs' : List Node} {superclasses superclasses' : List String}
  {lists lists' : List (List String)} {members members' : List Member}

theorem nil : Shows [] [] [] [] := ⟨rfl, rfl, rfl⟩

theorem append (h : Shows cs superclasses lists members)
    (h' : Shows cs' superclasses' lists' members') :
    Shows (cs ++ cs') (superclasses ++ superclasses') (lists ++ lists') (members ++ members') := by
  refine ⟨?_, ?_, ?_⟩
  · rw [List.filterMap_append, List.map_append, h.superclasses, h'.superclasses]
  · rw [List.filterMap_append, List.map_append, h.lists, h'.lists]
  · rw [List.filter_append, List.map_append, h.members, h'.members, List.map_append]

/-- A node that shows a member shows nothing else. -/
theorem of_member? {n : Node} {m : Member} (h : n.member? = some m) : Shows [n] [] [] [m] := by
  obtain ⟨id, kind, range, children⟩ := n
  cases kind with
  | property data => exact ⟨rfl, rfl, congrArg (fun o => [o]) h⟩
  | method data => exact ⟨rfl, rfl, congrArg (fun o => [o]) h⟩
  | _ => cases h

theorem of_members (h : cs.map Node.member? = members.map some) : Shows cs [] [] members := by
  induction cs generalizing members with
  | nil =>
    obtain rfl : members = [] := List.map_eq_nil_iff.mp h.symm
    exact nil
  | cons n cs ih =>
    cases members with
    | nil => cases h
    | cons m members =>
      obtain ⟨hfirst, hmore⟩ := List.cons.inj h
      exact (of_member? hfirst).append (ih hmore)

/-- Punctuation and directives show nothing. -/
theorem of_unmarked (h : Shows (unmarked cs) superclasses lists members) :
    Shows cs superclasses lists members := by
  refine ⟨?_, ?_, ?_⟩
  · rw [← filterMap_unmarked fun n hn => ?_]
    · exact h.superclasses
    · unfold Node.isMark at hn
      unfold Node.superclassName?
      split
      · next hk => rw [hk] at hn; cases hn
      · rfl
  · rw [← filterMap_unmarked fun n hn => ?_]
    · exact h.lists
    · unfold Node.isMark at hn
      unfold Node.protocolNames?
      split
      · next hk => rw [hk] at hn; cases hn
      · rfl
  · rw [← filter_unmarked fun n hn => ?_]
    · exact h.members
    · unfold Node.isMark at hn
      unfold Node.isMember
      split
      · next hk => rw [hk] at hn; cases hn
      · next hk => rw [hk] at hn; cases hn
      · rfl

end Shows

/-! ## What declarations show -/

section

variable {id : Nat} {range : Option Span} {kind : NodeKind} {all : List Node}
  {superclasses : List String} {lists : List (List String)} {members : List Member}

theorem Shows.superclass?_eq (h : Shows all superclasses lists members) :
    (Node.superclass? ⟨id, kind, range, all⟩).map Ident.name = superclasses.head? := by
  rw [Node.superclass?_eq, ← h.superclasses, List.head?_map]

theorem Shows.protocols_eq (h : Shows all superclasses lists members) :
    Node.protocols ⟨id, kind, range, all⟩ = lists.head?.getD [] := by
  rw [Node.protocols_eq, ← h.lists, List.head?_map]
  cases (all.filterMap Node.protocolNames?).head? <;> rfl

theorem Shows.members?_eq (h : Shows all superclasses lists members) :
    Node.members? ⟨id, kind, range, all⟩ = some members :=
  mapM_eq_some_of_map h.members

theorem Shows.classInterface {superclass : Option String}
    (h : Shows all superclass.toList lists members) (name : Ident) :
    Node.declared? ⟨id, .classInterface (.valid name), range, all⟩ =
      some (.classInterface name.name superclass (lists.head?.getD []) members) := by
  unfold Node.declared?
  simp only []
  rw [h.members?_eq, h.superclass?_eq, h.protocols_eq, Option.head?_toList]
  rfl

theorem Shows.protocolDeclaration (h : Shows all superclasses lists members) (name : Ident) :
    Node.declared? ⟨id, .protocolDeclaration (.valid name), range, all⟩ =
      some (.protocolDeclaration name.name (lists.head?.getD []) members) := by
  unfold Node.declared?
  simp only []
  rw [h.members?_eq, h.protocols_eq]
  rfl

end

end HeaderBridge
