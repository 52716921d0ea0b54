import Brooklyn.MementoIndexes
import Brooklyn.SingleUseFiles

/-!
The two persisters. `AbstractBrooklynMementoPersister` keeps a mutable memento;
`BrooklynMementoPersisterToMultiFile` writes and deletes one file for each memento, in the
directory of its kind and under its id. What the calls of the latter do is here a list of
operations in the order of the source; what a file then holds is that of
`SingleUseFiles`. Logging and the calls after a `stop` are left out.
-/

namespace Brooklyn
open SingleUseFiles (FileOperation Slot)

inductive Directory where
  | entities
  | locations
  | policies
deriving DecidableEq

/-- The path of a file below the directory of the persister. -/
abbrev FileName (Id : Type) := Directory × Id

/-- What a file holds: the mementos have the marker interface in common. -/
inductive Memento (Id Rest : Type) where
  | entity (memento : EntityMemento Id Rest)
  | location (memento : LocationMemento Id Rest)
  | policy (memento : PolicyMemento Id Rest)
deriving DecidableEq

variable {Id Rest : Type}

namespace Memento

/-- `getFileFor` -/
def fileFor : Memento Id Rest → FileName Id
  | .entity memento => (.entities, memento.id)
  | .location memento => (.locations, memento.id)
  | .policy memento => (.policies, memento.id)

end Memento

namespace BrooklynMementoPersisterToMultiFile

def persist (memento : Memento Id Rest) : FileOperation (FileName Id) (Memento Id Rest) :=
  .write memento.fileFor memento

def checkpoint (newMemento : BrooklynMemento Id Rest) :
    List (FileOperation (FileName Id) (Memento Id Rest)) :=
  newMemento.entities.values.map (fun memento => persist (.entity memento)) ++
    newMemento.locations.values.map (fun memento => persist (.location memento)) ++
    newMemento.policies.values.map (fun memento => persist (.policy memento))

def deleteEntity (id : Id) : FileOperation (FileName Id) (Memento Id Rest) :=
  .delete (.entities, id)

def deleteLocation (id : Id) : FileOperation (FileName Id) (Memento Id Rest) :=
  .delete (.locations, id)

def deletePolicy (id : Id) : FileOperation (FileName Id) (Memento Id Rest) :=
  .delete (.policies, id)

def delta (delta : Delta Id Rest) : List (FileOperation (FileName Id) (Memento Id Rest)) :=
  delta.entities.map (fun memento => persist (.entity memento)) ++
    delta.locations.map (fun memento => persist (.location memento)) ++
    delta.policies.map (fun memento => persist (.policy memento)) ++
    delta.removedEntityIds.map deleteEntity ++
    delta.removedLocationIds.map deleteLocation ++
    delta.removedPolicyIds.map deletePolicy

end BrooklynMementoPersisterToMultiFile

/-- The mementos of a checkpoint, in the order in which they are persisted. -/
def BrooklynMemento.mementos (memento : BrooklynMemento Id Rest) : List (Memento Id Rest) :=
  memento.entities.values.map .entity ++ memento.locations.values.map .location ++
    memento.policies.values.map .policy

namespace Delta

def mementos (delta : Delta Id Rest) : List (Memento Id Rest) :=
  delta.entities.map .entity ++ delta.locations.map .location ++ delta.policies.map .policy

def removedFiles (delta : Delta Id Rest) : List (FileName Id) :=
  delta.removedEntityIds.map (Prod.mk .entities) ++
    delta.removedLocationIds.map (Prod.mk .locations) ++
    delta.removedPolicyIds.map (Prod.mk .policies)

end Delta

variable [DecidableEq Id]

namespace AbstractBrooklynMementoPersister

def checkpoint (memento : MutableBrooklynMemento Id Rest) (newMemento : BrooklynMemento Id Rest) :
    MutableBrooklynMemento Id Rest :=
  memento.reset newMemento

def delta (memento : MutableBrooklynMemento Id Rest) (delta : Delta Id Rest) :
    MutableBrooklynMemento Id Rest :=
  (((((memento.removeEntities delta.removedEntityIds).removeLocations
    delta.removedLocationIds).removePolicies
    delta.removedPolicyIds).updateEntityMementos
    delta.entities).updateLocationMementos
    delta.locations).updatePolicyMementos
    delta.policies

end AbstractBrooklynMementoPersister

/-! What a call leaves under one name. -/
section Calls
open KeyIndex MutableBrooklynMemento

theorem run_delta (slots : FileName Id → Slot (Memento Id Rest)) (delta : Delta Id Rest)
    (name : FileName Id) :
    SingleUseFiles.run slots (BrooklynMementoPersisterToMultiFile.delta delta) name =
      (slots name).replace (delta.mementos.filter fun memento => memento.fileFor = name)
        (decide (name ∈ delta.removedFiles)) := by
  have operations : BrooklynMementoPersisterToMultiFile.delta delta =
      delta.mementos.map BrooklynMementoPersisterToMultiFile.persist ++
        delta.removedFiles.map .delete := by
    simp only [BrooklynMementoPersisterToMultiFile.delta, Delta.mementos, Delta.removedFiles,
      List.map_append, List.map_map, List.append_assoc]
    rfl
  rw [operations]
  convert SingleUseFiles.run_replace Memento.fileFor slots delta.mementos delta.removedFiles name
    using 3
  rfl

theorem run_checkpoint (slots : FileName Id → Slot (Memento Id Rest))
    (newMemento : BrooklynMemento Id Rest) (name : FileName Id) :
    SingleUseFiles.run slots (BrooklynMementoPersisterToMultiFile.checkpoint newMemento) name =
      (slots name).writeAll (newMemento.mementos.filter fun memento => memento.fileFor = name) := by
  have operations : BrooklynMementoPersisterToMultiFile.checkpoint newMemento =
      newMemento.mementos.map BrooklynMementoPersisterToMultiFile.persist := by
    simp only [BrooklynMementoPersisterToMultiFile.checkpoint, BrooklynMemento.mementos,
      List.map_append, List.map_map]
    rfl
  rw [operations]
  exact SingleUseFiles.run_writes Memento.fileFor slots newMemento.mementos name

variable (memento : MutableBrooklynMemento Id Rest) (delta : Delta Id Rest) (id : Id)

theorem delta_calls : AbstractBrooklynMementoPersister.delta memento delta =
    memento.performAll [.removeEntities delta.removedEntityIds,
      .removeLocations delta.removedLocationIds, .removePolicies delta.removedPolicyIds,
      .updateEntityMementos delta.entities, .updateLocationMementos delta.locations,
      .updatePolicyMementos delta.policies] := rfl

theorem delta_applications : (AbstractBrooklynMementoPersister.delta memento delta).applications =
    memento.applications.run EntityMemento.id EntityMemento.isTopLevelApp
      (replace delta.removedEntityIds delta.entities) := by
  rw [delta_calls, applications_performAll]
  simp [Call.entityChanges, replace]

theorem delta_topLevelLocations :
    (AbstractBrooklynMementoPersister.delta memento delta).topLevelLocations =
      memento.topLevelLocations.run LocationMemento.id LocationMemento.isTopLevel
        (replace delta.removedLocationIds delta.locations) := by
  rw [delta_calls, topLevelLocations_performAll]
  simp [Call.locationChanges, replace]

/-- The policies have no index. -/
def policyMap (memento : MutableBrooklynMemento Id Rest) : Indexed Id (PolicyMemento Id Rest) :=
  ⟨memento.policies, .empty⟩

theorem policyMap_updatePolicyMementos (mementos : List (PolicyMemento Id Rest)) :
    policyMap (memento.updatePolicyMementos mementos) =
      (policyMap memento).run PolicyMemento.id (fun _ => false) (mementos.map .put) := by
  induction mementos generalizing memento with
  | nil => rfl
  | cons first rest ih => exact ih _

theorem updatePolicyMementos_policy (mementos : List (PolicyMemento Id Rest)) :
    (memento.updatePolicyMementos mementos).policies.get id =
      (mementos.filter (fun policy => policy.id = id)).getLast?.or (memento.policies.get id) := by
  have put := get_puts PolicyMemento.id (fun _ => false) (policyMap memento) id mementos
  rw [← policyMap_updatePolicyMementos] at put
  exact put

theorem updateEntityMementos_policies (mementos : List (EntityMemento Id Rest)) :
    (memento.updateEntityMementos mementos).policies = memento.policies :=
  view_unchanged MutableBrooklynMemento.policies (by intros; rfl) memento mementos

theorem updateLocationMementos_policies (mementos : List (LocationMemento Id Rest)) :
    (memento.updateLocationMementos mementos).policies = memento.policies :=
  view_unchanged MutableBrooklynMemento.policies (by intros; rfl) memento mementos

theorem delta_policy : (AbstractBrooklynMementoPersister.delta memento delta).policies.get id =
    (delta.policies.filter (fun policy => policy.id = id)).getLast?.or
      (if id ∈ delta.removedPolicyIds then none else memento.policies.get id) := by
  rw [AbstractBrooklynMementoPersister.delta, updatePolicyMementos_policy,
    updateLocationMementos_policies, updateEntityMementos_policies]
  exact congrArg _ (LinkedMap.get_removeAll memento.policies delta.removedPolicyIds id)

theorem delta_entity : (AbstractBrooklynMementoPersister.delta memento delta).entities.get id =
    (delta.entities.filter (fun entity => entity.id = id)).getLast?.or
      (if id ∈ delta.removedEntityIds then none else memento.entities.get id) := by
  have replaced := get_replace EntityMemento.id EntityMemento.isTopLevelApp memento.applications id
    delta.removedEntityIds delta.entities
  rw [← delta_applications] at replaced
  exact replaced

theorem delta_location : (AbstractBrooklynMementoPersister.delta memento delta).locations.get id =
    (delta.locations.filter (fun location => location.id = id)).getLast?.or
      (if id ∈ delta.removedLocationIds then none else memento.locations.get id) := by
  have replaced := get_replace LocationMemento.id LocationMemento.isTopLevel
    memento.topLevelLocations id delta.removedLocationIds delta.locations
  rw [← delta_topLevelLocations] at replaced
  exact replaced

theorem mem_delta_applicationIds :
    id ∈ (AbstractBrooklynMementoPersister.delta memento delta).applicationIds ↔
      (id ∈ memento.applicationIds ∧ id ∉ delta.removedEntityIds) ∨
        ∃ entity ∈ delta.entities, entity.id = id ∧ entity.isTopLevelApp = true := by
  have replaced := mem_replace EntityMemento.id EntityMemento.isTopLevelApp memento.applications id
    delta.removedEntityIds delta.entities
  rw [← delta_applications] at replaced
  exact replaced

theorem mem_delta_topLevelLocationIds :
    id ∈ (AbstractBrooklynMementoPersister.delta memento delta).topLevelLocationIds ↔
      (id ∈ memento.topLevelLocationIds ∧ id ∉ delta.removedLocationIds) ∨
        ∃ location ∈ delta.locations, location.id = id ∧ location.isTopLevel = true := by
  have replaced := mem_replace LocationMemento.id LocationMemento.isTopLevel
    memento.topLevelLocations id delta.removedLocationIds delta.locations
  rw [← delta_topLevelLocations] at replaced
  exact replaced

end Calls
end Brooklyn
