import Brooklyn.Acyclicity
import Brooklyn.LinkedCollections

/-!
Hierarchies that are put together from single links. A link that is there already changes
nothing, so what comes out is settled by the links that were asked for, and the children of
an owner come in the order in which each was asked for first.
-/

namespace Brooklyn
namespace LinkedSet
variable {Element : Type*} [DecidableEq Element] (set : LinkedSet Element)

theorem addAll_append (elements others : List Element) :
    set.addAll (elements ++ others) = (set.addAll elements).addAll others :=
  List.foldl_append

end LinkedSet

namespace Relinking
open Acyclicity Relation

universe u
variable {Node : Type u}

structure Link (Node : Type u) where
  child : Node
  owner : Node

/-- The same link, seen from the owner. -/
def Link.flip (link : Link Node) : Link Node := ⟨link.owner, link.child⟩

/-- The link from one node to its owner is among those that were asked for. -/
def Asked (links : List (Link Node)) (child owner : Node) : Prop :=
  ⟨child, owner⟩ ∈ links

/-- Nobody has two owners, and nobody is its own ancestor. -/
structure Consistent (links : List (Link Node)) : Prop where
  single : ∀ child owner other, Asked links child owner → Asked links child other → owner = other
  acyclic : Acyclic (Asked links)

theorem asked_snoc (links : List (Link Node)) (child owner : Node) :
    Asked (links ++ [⟨child, owner⟩]) = withLink (Asked links) child owner := by
  funext node next
  simp [Asked, withLink]

theorem Consistent.before {links rest : List (Link Node)} (consistent : Consistent (links ++ rest)) :
    Consistent links where
  single child owner other first second :=
    consistent.single child owner other (List.mem_append_left rest first)
      (List.mem_append_left rest second)
  acyclic := consistent.acyclic.mono fun _ _ asked => List.mem_append_left rest asked

/-- The next link is there already, or it gives an owner that is not below its child to a
node that has none. -/
theorem Consistent.next {links : List (Link Node)} {child owner : Node}
    (consistent : Consistent (links ++ [⟨child, owner⟩])) :
    Asked links child owner ∨
      (∀ other, ¬ Asked links child other) ∧ ¬ ReflTransGen (Asked links) owner child := by
  have last : Asked (links ++ [⟨child, owner⟩]) child owner :=
    List.mem_append_right links (List.mem_singleton_self _)
  by_cases there : Asked links child owner
  · exact Or.inl there
  · refine Or.inr ⟨fun other asked => there ?_, ?_⟩
    · rw [consistent.single child owner other last (List.mem_append_left _ asked)]
      exact asked
    · have acyclic := consistent.acyclic
      rw [asked_snoc, acyclic_withLink_iff] at acyclic
      exact acyclic.2

/-! Nodes that name their relatives: what is known under an id, if anything, is looked up. -/
section Naming
variable {Id Naming : Type*} (get : Id → Option Node)

/-- The link to the parent that a node names. -/
def linkUp (node : Node) (parent : Option Id) : List (Link Node) :=
  (parent.bind get).toList.map fun owner => ⟨node, owner⟩

def linksTo (owner : Node) (ids : List Id) : List (Link Node) :=
  ids.flatMap fun id => (get id).toList.map fun child => ⟨child, owner⟩

variable (id : Naming → Id) (parent : Naming → Option Id) (children : Naming → List Id)

/-- What is asked for when each in turn names its parent and its children. -/
def links (namings : List Naming) : List (Link Node) :=
  namings.flatMap fun naming => (get (id naming)).toList.flatMap fun node =>
    linkUp get node (parent naming) ++ linksTo get node (children naming)

/-- Some node names the two as a child and its owner. -/
def Names (namings : List Naming) (child owner : Node) : Prop :=
  ∃ naming ∈ namings,
    (get (id naming) = some child ∧ (parent naming).bind get = some owner) ∨
    (get (id naming) = some owner ∧ ∃ id ∈ children naming, get id = some child)

variable {get id parent children}

theorem linksTo_cons (owner : Node) (first : Id) (rest : List Id) :
    linksTo get owner (first :: rest) =
      ((get first).toList.map fun child => ⟨child, owner⟩) ++ linksTo get owner rest :=
  List.flatMap_cons

theorem links_append (done rest : List Naming) :
    links get id parent children (done ++ rest) =
      links get id parent children done ++ links get id parent children rest :=
  List.flatMap_append

theorem links_one {naming : Naming} {node : Node} (known : get (id naming) = some node) :
    links get id parent children [naming] =
      linkUp get node (parent naming) ++ linksTo get node (children naming) := by
  simp [links, known]

theorem asked_linkUp {node child owner : Node} {up : Option Id} :
    Asked (linkUp get node up) child owner ↔ node = child ∧ up.bind get = some owner := by
  simp only [Asked, linkUp, List.mem_map, Option.mem_toList, Link.mk.injEq]
  constructor
  · rintro ⟨other, named, rfl, rfl⟩
    exact ⟨rfl, named⟩
  · rintro ⟨rfl, named⟩
    exact ⟨owner, named, rfl, rfl⟩

theorem asked_linksTo {node child owner : Node} {ids : List Id} :
    Asked (linksTo get node ids) child owner ↔ node = owner ∧ ∃ id ∈ ids, get id = some child := by
  simp only [Asked, linksTo, List.mem_flatMap, List.mem_map, Option.mem_toList, Link.mk.injEq]
  constructor
  · rintro ⟨id, member, other, known, rfl, rfl⟩
    exact ⟨rfl, id, member, known⟩
  · rintro ⟨rfl, id, member, known⟩
    exact ⟨id, member, child, known, rfl, rfl⟩

theorem asked_links (namings : List Naming) :
    Asked (links get id parent children namings) = Names get id parent children namings := by
  funext child owner
  rw [eq_iff_iff]
  constructor
  · intro asked
    obtain ⟨naming, member, within⟩ := List.mem_flatMap.mp asked
    obtain ⟨node, known, listed⟩ := List.mem_flatMap.mp within
    rw [Option.mem_toList] at known
    rcases List.mem_append.mp listed with up | down
    · obtain ⟨rfl, named⟩ := asked_linkUp.mp up
      exact ⟨naming, member, Or.inl ⟨known, named⟩⟩
    · obtain ⟨rfl, named⟩ := asked_linksTo.mp down
      exact ⟨naming, member, Or.inr ⟨known, named⟩⟩
  · rintro ⟨naming, member, ⟨known, named⟩ | ⟨known, named⟩⟩
    · exact List.mem_flatMap.mpr ⟨naming, member, List.mem_flatMap.mpr ⟨child,
        Option.mem_toList.mpr known, List.mem_append_left _ (asked_linkUp.mpr ⟨rfl, named⟩)⟩⟩
    · exact List.mem_flatMap.mpr ⟨naming, member, List.mem_flatMap.mpr ⟨owner,
        Option.mem_toList.mpr known, List.mem_append_right _ (asked_linksTo.mpr ⟨rfl, named⟩)⟩⟩

end Naming
variable [DecidableEq Node]

/-- Those who ask to be below the owner, in order. -/
def asking (links : List (Link Node)) (owner : Node) : List Node :=
  links.filterMap fun link => if link.owner = owner then some link.child else none

def members (links : List (Link Node)) (owner : Node) : LinkedSet Node :=
  LinkedSet.empty.addAll (asking links owner)

theorem mem_asking {links : List (Link Node)} {child owner : Node} :
    child ∈ asking links owner ↔ Asked links child owner := by
  constructor
  · intro member
    obtain ⟨⟨one, other⟩, listed, taken⟩ := List.mem_filterMap.mp member
    split at taken
    · next same =>
      cases taken
      cases same
      exact listed
    · cases taken
  · intro asked
    exact List.mem_filterMap.mpr ⟨⟨child, owner⟩, asked, if_pos rfl⟩

theorem mem_members {links : List (Link Node)} {child owner : Node} :
    child ∈ members links owner ↔ Asked links child owner := by
  rw [members, LinkedSet.mem_addAll, mem_asking]
  exact or_iff_right (LinkedSet.not_mem_empty child)

theorem asking_append (links rest : List (Link Node)) (owner : Node) :
    asking (links ++ rest) owner = asking links owner ++ asking rest owner :=
  List.filterMap_append

theorem members_snoc (links : List (Link Node)) (child owner : Node) :
    members (links ++ [⟨child, owner⟩]) =
      Function.update (members links) owner ((members links owner).add child) := by
  funext other
  by_cases same : other = owner
  · subst same
    rw [Function.update_self, members, asking_append, LinkedSet.addAll_append]
    simp [asking, members, LinkedSet.addAll]
  · rw [Function.update_of_ne same, members, asking_append]
    simp [asking, members, Ne.symm same]

end Relinking
end Brooklyn
