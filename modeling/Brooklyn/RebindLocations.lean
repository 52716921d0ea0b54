import Brooklyn.LocationOutcomes
import Brooklyn.RebindManagerImpl
import Brooklyn.Relinking

/-!
What rebinding makes of the mementos of locations. A flag that is bound late replaces the
machines of a location, also those that came with children that were visited before it; its
own children bring back theirs. So the machines, in their order, are those of the flag.
-/

namespace Brooklyn
open Acyclicity Relation Relinking Mementos

variable {Ref Place Id Rest : Type} {kinds : LocationKinds Place Id}

/-- Both sides of the tree are the links that were asked for. -/
structure Located [DecidableEq Place] (links : List (Link Place)) (tree : LocationWorld kinds) :
    Prop where
  parent : ∀ child owner, tree.parentLocation child = some owner ↔ Asked links child owner
  children : ∀ owner, tree.childLocations owner = (members links owner).elements

/-- A machine may have come to the owner, and to no other location. -/
structure Stocked [DecidableEq Id] (before after : LocationWorld kinds) (child owner : Place) :
    Prop where
  inUse : after.inUse = before.inUse
  machines : ∀ location, after.machines location = before.machines location ∨
    location = owner ∧ kinds.isFixedList owner ∧
      after.machines location = (before.machines location).add child

section Linking
variable {links : List (Link Place)} {tree after : LocationWorld kinds} {child owner : Place}

/-- A machine that comes twice is there once. -/
theorem Stocked.again [DecidableEq Id] {middle : LocationWorld kinds}
    (first : Stocked tree middle child owner)
    (second : Stocked middle after child owner) : Stocked tree after child owner where
  inUse := second.inUse.trans first.inUse
  machines location := by
    rcases first.machines location with same | ⟨here, isFixedList, added⟩
    · rw [← same]
      exact second.machines location
    · refine Or.inr ⟨here, isFixedList, ?_⟩
      rcases second.machines location with same | ⟨_, _, twice⟩
      · rw [same, added]
      · rw [twice, added]
        exact KeyedSet.add_of_contains ((KeyedSet.contains_add _ _ _).mpr (Or.inr rfl))

variable [DecidableEq Place]

theorem Located.listed (located : Located links tree) :
    child ∈ tree.childLocations owner ↔ Asked links child owner := by
  rw [located.children]
  exact mem_members

theorem Located.orphan (located : Located links tree) (free : ∀ other, ¬ Asked links child other) :
    tree.parentLocation child = none := by
  rw [Option.eq_none_iff_forall_not_mem]
  exact fun other up => free other ((located.parent child other).mp up)

theorem Located.again (located : Located links tree) (asked : Asked links child owner) :
    Located (links ++ [⟨child, owner⟩]) tree where
  parent one other := by
    rw [located.parent, asked_snoc]
    refine (or_iff_left_of_imp ?_).symm
    rintro ⟨rfl, rfl⟩
    exact asked
  children other := by
    rw [located.children, members_snoc, LinkedSet.add_of_mem (mem_members.mpr asked),
      Function.update_eq_self]

theorem Located.congr (located : Located links tree)
    (parents : after.parentLocation = tree.parentLocation)
    (children : after.childLocations = tree.childLocations) : Located links after where
  parent child owner := by rw [parents, located.parent]
  children owner := by rw [children, located.children]

variable [DecidableEq Id]

section Calls
variable (located : Located links tree)
  (suitable : kinds.isFixedList owner → kinds.isMachineLocation child)
  (next : Asked links child owner ∨
    (∀ other, ¬ Asked links child other) ∧ ¬ ReflTransGen (Asked links) owner child)
include located suitable next

end Calls
end Linking

namespace RebindContextImpl
variable (context : RebindContextImpl Ref Place Id)

/-- What a flag is bound to; a flag that is not bound late is of no locations. -/
def flagged [DecidableEq Id] (kinds : LocationKinds Place Id) (ids : Option (List Id)) :
    KeyedSet kinds.id :=
  .ofList ((ids.getD []).filterMap context.getLocation)

end RebindContextImpl

/-- What was restored, by links and by the flags of the mementos that were visited. A location
whose own memento is still to be visited has no machines but the children it was given. -/
structure Relocated [DecidableEq Place] [DecidableEq Id] (context : RebindContextImpl Ref Place Id)
    (flags : Mementos.LocationMemento Id Rest → LocationReferenceFlags Id)
    (visited : List (Mementos.LocationMemento Id Rest)) (links : List (Link Place))
    (tree : LocationWorld kinds) : Prop where
  located : Located links tree
  flagged : ∀ memento ∈ visited, ∀ location, context.getLocation memento.id = some location →
    tree.machines location = context.flagged kinds (flags memento).machines ∧
      tree.inUse location = context.flagged kinds (flags memento).inUse
  ahead : ∀ location, (∀ memento ∈ visited, context.getLocation memento.id ≠ some location) →
    tree.inUse location = .empty ∧ ∀ machine ∈ (tree.machines location).elements,
      kinds.isFixedList location ∧ Asked links machine location

section Restoring
variable [DecidableEq Place] [DecidableEq Id] {context : RebindContextImpl Ref Place Id}
  {flags : Mementos.LocationMemento Id Rest → LocationReferenceFlags Id}
  {mementos visited : List (Mementos.LocationMemento Id Rest)}
  {memento : Mementos.LocationMemento Id Rest}
  {links : List (Link Place)} {tree after : LocationWorld kinds} {child owner location : Place}
  (bound : Nat)

theorem Relocated.next (relocated : Relocated context flags visited links tree)
    (located : Located (links ++ [⟨child, owner⟩]) after) (stocked : Stocked tree after child owner)
    (held : kinds.isFixedList owner → ∀ memento ∈ visited,
      context.getLocation memento.id = some owner →
        (context.flagged kinds (flags memento).machines).contains child) :
    Relocated context flags visited (links ++ [⟨child, owner⟩]) after where
  located := located
  flagged memento member location known := by
    obtain ⟨machines, inUse⟩ := relocated.flagged memento member location known
    refine ⟨?_, by rw [stocked.inUse, inUse]⟩
    rcases stocked.machines location with same | ⟨rfl, isFixedList, added⟩
    · rw [same, machines]
    · rw [added, machines]
      exact KeyedSet.add_of_contains (held isFixedList memento member known)
  ahead location unvisited := by
    obtain ⟨unused, children⟩ := relocated.ahead location unvisited
    refine ⟨by rw [stocked.inUse, unused], fun machine member => ?_⟩
    rcases stocked.machines location with same | ⟨rfl, isFixedList, added⟩
    · obtain ⟨isFixedList, asked⟩ := children machine (same ▸ member)
      exact ⟨isFixedList, List.mem_append_left _ asked⟩
    · refine ⟨isFixedList, ?_⟩
      rcases KeyedSet.mem_add (added ▸ member) with before | rfl
      · exact List.mem_append_left _ (children machine before).2
      · exact List.mem_append_right _ (List.mem_singleton_self _)

end Restoring
end Brooklyn
