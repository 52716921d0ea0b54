import Brooklyn.LinkedCollections

/-!
`DynamicCluster`: `resize` and `replaceMember`. What the cluster asks of others is given: the
factory, the removal strategy, how the START and STOP of an entity end, and which members others
take out meanwhile. `unmanage` returns. `left`, `stopInvoked`, `unmanaged` and `quarantined`
record what a call has done to entities.
-/

namespace Brooklyn

variable {Ref : Type}

/-- What a factory or a strategy says. -/
inductive Answer (Ref : Type) where
  | throws
  | null
  | entity (e : Ref)

inductive ClusterFault (Ref : Type) where
  | membersEmpty
  | strategyThrew
  | noEntityChosen
  | notStoppable (choice : Ref)
  | noFactory
  | factoryThrew
  | noEntityReturned
  | startInterrupted
  | noQuarantineGroup
  | stopFailed
  | notResolved
  | notMember
  | failedToGrow

/-- The faults of a choice of a member to remove. -/
def ClusterFault.ofChoice : ClusterFault Ref → Bool
  | .membersEmpty | .strategyThrew | .noEntityChosen | .notStoppable _ => true
  | _ => false

structure DynamicCluster (Ref : Type) where
  members : LinkedSet Ref
  left : List Ref
  stopInvoked : List Ref
  unmanaged : List Ref
  quarantined : List Ref

/-- `removedBefore` are the members that others take out before a pick, `invokedInTime` the
entities whose STOP is invoked although the STOP of another one has failed. -/
structure ClusterSurroundings (Ref : Type) where
  startable : Ref → Bool
  removalStrategy : Option (Nat → List Ref → Answer Ref)
  removedBefore : Nat → List Ref
  stopFails : Ref → Bool
  invokedInTime : Ref → Bool
  factory : Option (Nat → Answer Ref)
  startFails : Ref → Bool
  startInterrupted : Bool
  removedWhileStarting : List Ref
  quarantineEnabled : Bool
  quarantineGroup : Bool

namespace DynamicCluster
variable [DecidableEq Ref] (surroundings : ClusterSurroundings Ref)

/-- A cluster of which a call has done nothing yet. -/
def ofMembers (members : LinkedSet Ref) : DynamicCluster Ref := ⟨members, [], [], [], []⟩

section Nodes

def addMember (entity : Ref) (cluster : DynamicCluster Ref) : DynamicCluster Ref :=
  { cluster with members := cluster.members.add entity }

def removeMember (entity : Ref) (cluster : DynamicCluster Ref) : DynamicCluster Ref :=
  { cluster with
    members := cluster.members.remove entity
    left := if entity ∈ cluster.members then cluster.left ++ [entity] else cluster.left }

def removedByOthers (entities : List Ref) (cluster : DynamicCluster Ref) : DynamicCluster Ref :=
  { cluster with members := cluster.members.removeAll entities }

def unmanage (entity : Ref) (cluster : DynamicCluster Ref) : DynamicCluster Ref :=
  { cluster with unmanaged := cluster.unmanaged ++ [entity] }

def discardNode (cluster : DynamicCluster Ref) (entity : Ref) : DynamicCluster Ref :=
  (cluster.removeMember entity).unmanage entity

def addNode (index : Nat) (cluster : DynamicCluster Ref) :
    Except (ClusterFault Ref) Ref × DynamicCluster Ref :=
  match surroundings.factory with
  | none => (.error .noFactory, cluster)
  | some newEntity =>
      match newEntity index with
      | .throws => (.error .factoryThrew, cluster)
      | .null => (.error .noEntityReturned, cluster)
      | .entity entity => (.ok entity, cluster.addMember entity)

/-- The last contender that can be stopped. -/
def defaultRemovalStrategy (contenders : List Ref) : Answer Ref :=
  match (contenders.filter surroundings.startable).getLast? with
  | some result => .entity result
  | none => .null

def getRemovalStrategy : Nat → List Ref → Answer Ref :=
  match surroundings.removalStrategy with
  | some strategy => strategy
  | none => fun _ => defaultRemovalStrategy surroundings

def pickAndRemoveMember (index : Nat) (cluster : DynamicCluster Ref) :
    Except (ClusterFault Ref) Ref × DynamicCluster Ref :=
  if cluster.members.elements.length = 0 then (.error .membersEmpty, cluster)
  else
    match getRemovalStrategy surroundings index cluster.members.elements with
    | .throws => (.error .strategyThrew, cluster)
    | .null => (.error .noEntityChosen, cluster)
    | .entity entity =>
        if surroundings.startable entity then (.ok entity, cluster.removeMember entity)
        else (.error (.notStoppable entity), cluster)

def stopAndRemoveNode (member : Ref) (cluster : DynamicCluster Ref) :
    Except (ClusterFault Ref) PUnit × DynamicCluster Ref :=
  let cluster := cluster.removeMember member
  if surroundings.startable member then
    let cluster := { cluster with stopInvoked := cluster.stopInvoked ++ [member] }
    if surroundings.stopFails member then (.error .stopFailed, cluster)
    else (.ok ⟨⟩, cluster.unmanage member)
  else (.ok ⟨⟩, cluster.unmanage member)

end Nodes

section Growing

def addNodes : Nat → Nat → List Ref → DynamicCluster Ref →
    Except (ClusterFault Ref) (List Ref) × DynamicCluster Ref
  | 0, _, addedEntities, cluster => (.ok addedEntities, cluster)
  | more + 1, index, addedEntities, cluster =>
      match addNode surroundings index cluster with
      | (.error fault, cluster) => (.error fault, cluster)
      | (.ok entity, cluster) => addNodes more (index + 1) (addedEntities ++ [entity]) cluster

def quarantineNode (cluster : DynamicCluster Ref) (entity : Ref) : DynamicCluster Ref :=
  { cluster with quarantined := cluster.quarantined ++ [entity] }.removeMember entity

/-- The nodes that were added and have started. -/
def grow (delta : Nat) (cluster : DynamicCluster Ref) :
    Except (ClusterFault Ref) (List Ref) × DynamicCluster Ref :=
  match addNodes surroundings delta 0 [] cluster with
  | (.error fault, cluster) => (.error fault, cluster)
  | (.ok addedEntities, cluster) =>
      let cluster := cluster.removedByOthers surroundings.removedWhileStarting
      if surroundings.startInterrupted then (.error .startInterrupted, cluster)
      else
        let errors := addedEntities.filter surroundings.startFails
        let started := addedEntities.filter fun entity => !surroundings.startFails entity
        if errors = [] then (.ok started, cluster)
        else if surroundings.quarantineEnabled then
          if surroundings.quarantineGroup then (.ok started, errors.foldl quarantineNode cluster)
          else (.error .noQuarantineGroup, cluster)
        else (.ok started, errors.foldl discardNode cluster)

end Growing

section Shrinking

def pickMembers : Nat → Nat → List Ref → DynamicCluster Ref →
    Except (ClusterFault Ref) (List Ref) × DynamicCluster Ref
  | 0, _, removedEntities, cluster => (.ok removedEntities, cluster)
  | more + 1, index, removedEntities, cluster =>
      match pickAndRemoveMember surroundings index
          (cluster.removedByOthers (surroundings.removedBefore index)) with
      | (.error fault, cluster) => (.error fault, cluster)
      | (.ok entity, cluster) => pickMembers more (index + 1) (removedEntities ++ [entity]) cluster

/-- The entities on which STOP is invoked by the tasks of `invokeEffectorList`. The caller waits
for the tasks in order and discards all entities when one has failed. -/
def stopsInvoked : List Ref → List Ref
  | [] => []
  | entity :: rest =>
      entity ::
        if surroundings.stopFails entity then rest.filter surroundings.invokedInTime
        else stopsInvoked rest

def shrink (count : Nat) (cluster : DynamicCluster Ref) :
    Except (ClusterFault Ref) PUnit × DynamicCluster Ref :=
  match pickMembers surroundings count 0 [] cluster with
  | (.error fault, cluster) => (.error fault, cluster)
  | (.ok removedEntities, cluster) =>
      let cluster := { cluster with
        stopInvoked := cluster.stopInvoked ++ stopsInvoked surroundings removedEntities }
      (if removedEntities.any surroundings.stopFails then .error .stopFailed else .ok ⟨⟩,
        removedEntities.foldl discardNode cluster)

end Shrinking

section Calls

def resize (desiredSize : Int32) (cluster : DynamicCluster Ref) :
    Except (ClusterFault Ref) PUnit × DynamicCluster Ref :=
  let delta := desiredSize - Int32.ofNat cluster.members.elements.length
  if 0 < delta then
    match grow surroundings delta.toInt.toNat cluster with
    | (.error fault, cluster) => (.error fault, cluster)
    | (.ok _, cluster) => (.ok ⟨⟩, cluster)
  else if delta < 0 then shrink surroundings (delta * -1).toInt.toNat cluster
  else (.ok ⟨⟩, cluster)

/-- `member` is what the id of the member resolves to. -/
def replaceMember (member : Option Ref) (cluster : DynamicCluster Ref) :
    Except (ClusterFault Ref) PUnit × DynamicCluster Ref :=
  match member with
  | none => (.error .notResolved, cluster)
  | some member =>
      if member ∉ cluster.members then (.error .notMember, cluster)
      else
        match grow surroundings 1 cluster with
        | (.error fault, cluster) => (.error fault, cluster)
        | (.ok [], cluster) => (.error .failedToGrow, cluster)
        | (.ok (_ :: _), cluster) => stopAndRemoveNode surroundings member cluster

inductive Call (Ref : Type) where
  | resize (desiredSize : Int32)
  | replaceMember (member : Option Ref)

def perform (cluster : DynamicCluster Ref) : Call Ref →
    Except (ClusterFault Ref) PUnit × DynamicCluster Ref
  | .resize desiredSize => resize surroundings desiredSize cluster
  | .replaceMember member => replaceMember surroundings member cluster

end Calls

end DynamicCluster
end Brooklyn
