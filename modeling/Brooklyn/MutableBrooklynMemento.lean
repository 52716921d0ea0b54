import Brooklyn.LinkedCollections

/-!
Mementos, the memento of a whole management context, the delta between two of them, and
`MutableBrooklynMemento`. Of a memento its id and what the indexes look at are fields;
`rest` is everything else it holds. `BrooklynMemento` is the interface as both
implementations keep it: every memento is found under its own id.
-/

namespace Brooklyn

structure EntityMemento (Id Rest : Type) where
  id : Id
  isTopLevelApp : Bool
  rest : Rest
deriving DecidableEq

structure LocationMemento (Id Rest : Type) where
  id : Id
  parent : Option Id
  rest : Rest
deriving DecidableEq

structure PolicyMemento (Id Rest : Type) where
  id : Id
  rest : Rest
deriving DecidableEq

structure BrooklynMemento (Id Rest : Type) where
  applicationIds : List Id
  topLevelLocationIds : List Id
  entities : LinkedMap Id (EntityMemento Id Rest)
  locations : LinkedMap Id (LocationMemento Id Rest)
  policies : LinkedMap Id (PolicyMemento Id Rest)
  entitiesKeyed : ∀ id memento, entities.get id = some memento → memento.id = id
  locationsKeyed : ∀ id memento, locations.get id = some memento → memento.id = id
  policiesKeyed : ∀ id memento, policies.get id = some memento → memento.id = id

/-- `BrooklynMementoPersister.Delta`, as `PersisterDeltaImpl` implements it. -/
structure Delta (Id Rest : Type) where
  locations : List (LocationMemento Id Rest)
  entities : List (EntityMemento Id Rest)
  policies : List (PolicyMemento Id Rest)
  removedLocationIds : List Id
  removedEntityIds : List Id
  removedPolicyIds : List Id
deriving DecidableEq

structure MutableBrooklynMemento (Id Rest : Type) where
  applicationIds : LinkedSet Id
  topLevelLocationIds : LinkedSet Id
  entities : LinkedMap Id (EntityMemento Id Rest)
  locations : LinkedMap Id (LocationMemento Id Rest)
  policies : LinkedMap Id (PolicyMemento Id Rest)

namespace MutableBrooklynMemento
variable {Id Rest : Type}

def empty : MutableBrooklynMemento Id Rest where
  applicationIds := .empty
  topLevelLocationIds := .empty
  entities := .empty
  locations := .empty
  policies := .empty

variable [DecidableEq Id]

def putAll {Value : Type} (map : LinkedMap Id Value) (entries : List (Id × Value)) :
    LinkedMap Id Value :=
  entries.foldl (fun map entry => map.put entry.1 entry.2) map

/-- Despite its name it only adds, and it leaves the policies as they are. -/
def reset (mutable : MutableBrooklynMemento Id Rest) (memento : BrooklynMemento Id Rest) :
    MutableBrooklynMemento Id Rest where
  applicationIds := mutable.applicationIds.addAll memento.applicationIds
  topLevelLocationIds := mutable.topLevelLocationIds.addAll memento.topLevelLocationIds
  entities := putAll mutable.entities memento.entities.entries
  locations := putAll mutable.locations memento.locations.entries
  policies := mutable.policies

def updateEntityMementos (mutable : MutableBrooklynMemento Id Rest)
    (mementos : List (EntityMemento Id Rest)) : MutableBrooklynMemento Id Rest :=
  mementos.foldl (fun mutable memento =>
    { mutable with
      entities := mutable.entities.put memento.id memento
      applicationIds :=
        if memento.isTopLevelApp then mutable.applicationIds.add memento.id
        else mutable.applicationIds }) mutable

def updateLocationMementos (mutable : MutableBrooklynMemento Id Rest)
    (mementos : List (LocationMemento Id Rest)) : MutableBrooklynMemento Id Rest :=
  mementos.foldl (fun mutable locationMemento =>
    { mutable with
      locations := mutable.locations.put locationMemento.id locationMemento
      topLevelLocationIds :=
        if locationMemento.parent.isNone then
          mutable.topLevelLocationIds.add locationMemento.id
        else mutable.topLevelLocationIds }) mutable

def updatePolicyMementos (mutable : MutableBrooklynMemento Id Rest)
    (mementos : List (PolicyMemento Id Rest)) : MutableBrooklynMemento Id Rest :=
  mementos.foldl (fun mutable memento =>
    { mutable with policies := mutable.policies.put memento.id memento }) mutable

def removeEntities (mutable : MutableBrooklynMemento Id Rest) (ids : List Id) :
    MutableBrooklynMemento Id Rest :=
  { mutable with
    entities := mutable.entities.removeAll ids
    applicationIds := mutable.applicationIds.removeAll ids }

def removeLocations (mutable : MutableBrooklynMemento Id Rest) (ids : List Id) :
    MutableBrooklynMemento Id Rest :=
  { mutable with
    locations := mutable.locations.removeAll ids
    topLevelLocationIds := mutable.topLevelLocationIds.removeAll ids }

def removePolicies (mutable : MutableBrooklynMemento Id Rest) (ids : List Id) :
    MutableBrooklynMemento Id Rest :=
  { mutable with policies := mutable.policies.removeAll ids }

inductive Call (Id Rest : Type) where
  | updateEntityMementos (mementos : List (EntityMemento Id Rest))
  | updateLocationMementos (mementos : List (LocationMemento Id Rest))
  | updatePolicyMementos (mementos : List (PolicyMemento Id Rest))
  | removeEntities (ids : List Id)
  | removeLocations (ids : List Id)
  | removePolicies (ids : List Id)

def perform (mutable : MutableBrooklynMemento Id Rest) :
    Call Id Rest → MutableBrooklynMemento Id Rest
  | .updateEntityMementos mementos => mutable.updateEntityMementos mementos
  | .updateLocationMementos mementos => mutable.updateLocationMementos mementos
  | .updatePolicyMementos mementos => mutable.updatePolicyMementos mementos
  | .removeEntities ids => mutable.removeEntities ids
  | .removeLocations ids => mutable.removeLocations ids
  | .removePolicies ids => mutable.removePolicies ids

def performAll (mutable : MutableBrooklynMemento Id Rest) (calls : List (Call Id Rest)) :
    MutableBrooklynMemento Id Rest :=
  calls.foldl perform mutable

end MutableBrooklynMemento
end Brooklyn

/-!
`MutableBrooklynMemento.reset` against what a checkpoint expects of it. It adds to four of
the five collections and clears none, so what was there before stays; the policies are
neither cleared nor copied.
-/

namespace Brooklyn

/-- The memento of a context without anything in it. -/
def BrooklynMemento.empty {Id Rest : Type} : BrooklynMemento Id Rest where
  applicationIds := []
  topLevelLocationIds := []
  entities := .empty
  locations := .empty
  policies := .empty
  entitiesKeyed := fun _ _ found => by cases found
  locationsKeyed := fun _ _ found => by cases found
  policiesKeyed := fun _ _ found => by cases found

namespace MutableBrooklynMemento
variable {Id Rest : Type} [DecidableEq Id]

/-- The object holds what the memento holds, and nothing else. -/
structure Same (mutable : MutableBrooklynMemento Id Rest) (memento : BrooklynMemento Id Rest) :
    Prop where
  entities : ∀ id, mutable.entities.get id = memento.entities.get id
  locations : ∀ id, mutable.locations.get id = memento.locations.get id
  policies : ∀ id, mutable.policies.get id = memento.policies.get id
  applications : ∀ id, id ∈ mutable.applicationIds ↔ id ∈ memento.applicationIds
  topLevelLocations : ∀ id, id ∈ mutable.topLevelLocationIds ↔ id ∈ memento.topLevelLocationIds

/-- Nothing but the policies has to be forgotten, and those are right already. -/
structure Kept (mutable : MutableBrooklynMemento Id Rest) (memento : BrooklynMemento Id Rest) :
    Prop where
  entities : ∀ id ∈ mutable.entities.keys, id ∈ memento.entities.keys
  locations : ∀ id ∈ mutable.locations.keys, id ∈ memento.locations.keys
  policies : ∀ id, mutable.policies.get id = memento.policies.get id
  applications : ∀ id ∈ mutable.applicationIds, id ∈ memento.applicationIds
  topLevelLocations : ∀ id ∈ mutable.topLevelLocationIds, id ∈ memento.topLevelLocationIds

theorem get_putAll {Value : Type} (map other : LinkedMap Id Value) (id : Id) :
    (putAll map other.entries).get id = (other.get id).or (map.get id) :=
  LinkedMap.get_putAll_entries map other id

/-- Putting all of another map makes a map agree with it when no other key is there. -/
theorem putAll_agrees_iff {Value : Type} (map other : LinkedMap Id Value) :
    (∀ id, (putAll map other.entries).get id = other.get id) ↔
      ∀ id ∈ map.keys, id ∈ other.keys := by
  simp only [get_putAll]
  refine forall_congr' fun id => ?_
  rw [map.defined, other.defined]
  cases other.get id with
  | some value => simp
  | none => cases map.get id <;> simp

theorem addAll_agrees_iff (set : LinkedSet Id) (elements : List Id) :
    (∀ id, id ∈ set.addAll elements ↔ id ∈ elements) ↔ ∀ id ∈ set, id ∈ elements := by
  refine forall_congr' fun id => ?_
  rw [LinkedSet.mem_addAll]
  exact or_iff_right_iff_imp

theorem reset_same_iff (mutable : MutableBrooklynMemento Id Rest)
    (memento : BrooklynMemento Id Rest) :
    Same (mutable.reset memento) memento ↔ Kept mutable memento := by
  constructor
  · intro same
    exact {
      entities := (putAll_agrees_iff _ _).mp same.entities
      locations := (putAll_agrees_iff _ _).mp same.locations
      policies := same.policies
      applications := (addAll_agrees_iff _ _).mp same.applications
      topLevelLocations := (addAll_agrees_iff _ _).mp same.topLevelLocations }
  · intro kept
    exact {
      entities := (putAll_agrees_iff _ _).mpr kept.entities
      locations := (putAll_agrees_iff _ _).mpr kept.locations
      policies := kept.policies
      applications := (addAll_agrees_iff _ _).mpr kept.applications
      topLevelLocations := (addAll_agrees_iff _ _).mpr kept.topLevelLocations }

-- One application was persisted; the checkpoint that follows its removal still has it.
theorem reset_keeps_vanished_entity :
    ¬ Same
      (reset
        (updateEntityMementos empty [({ id := "app", isTopLevelApp := true, rest := () } :
          EntityMemento String Unit)])
        BrooklynMemento.empty)
      BrooklynMemento.empty := by
  intro same
  have left := (same.applications "app").mp (by decide)
  exact absurd left (List.not_mem_nil)

end MutableBrooklynMemento
end Brooklyn
