import Brooklyn.AbstractGroup
import Brooklyn.EntityManagement
import Brooklyn.MementosGenerators

/-!
`RebindManagerImpl.rebind`, with `BasicEntityRebindSupport`, `BasicLocationRebindSupport` and
`RebindContextImpl`: locations and entities are made anew under the ids of their mementos, then
each is told what its memento says of the others, and last the applications are managed.

`newEntity` and `newLocation` are the constructors, whose objects have the id they are given
and no relatives yet. A reference to what has no memento is passed over, with a warning. Left
out are names, flags, configuration and attributes, policies, which no memento lists, and what
a subclass adds to `doReconstruct`.
-/

namespace Brooklyn

variable {Ref Place Id Rest : Type} {kinds : LocationKinds Place Id}

/-- The ids in the flags of a location that stand for other locations; a flag without any is
not bound late. -/
structure LocationReferenceFlags (Id : Type) where
  machines : Option (List Id)
  inUse : Option (List Id)

structure RebindContextImpl (Ref Place Id : Type) where
  entities : LinkedMap Id Ref
  locations : LinkedMap Id Place

/-- `getLocations` of an entity is a set without an order. -/
structure Rebinding (Ref Id : Type) (kinds : LocationKinds Place Id) where
  tree : LocationWorld kinds
  ownership : World Ref Id
  groups : GroupWorld Ref Id
  getLocations : Ref → LinkedSet Place

inductive RebindFault (Ref Place : Type) where
  | location (fault : LocationFault Place)
  | ownership (fault : Fault Ref)
  | group (fault : GroupFault)
  | shouldBeGroup (entity : Ref)
  | nullPointer

abbrev RebindOperation (Ref Id : Type) (kinds : LocationKinds Place Id) (Value : Type) : Type :=
  Effect (Rebinding Ref Id kinds) (RebindFault Ref Place) Value

namespace Rebinding

def initial : Rebinding Ref Id kinds where
  tree := .initial fun _ => .empty
  ownership := .initial
  groups := ⟨fun _ => .create, fun _ => 0, fun _ => .create, []⟩
  getLocations _ := .empty

def onOwnership {Value : Type} (operation : Operation Ref Id Value) :
    RebindOperation Ref Id kinds Value :=
  operation.embed (·.ownership) (fun state ownership => { state with ownership }) .ownership

def onGroups {Value : Type} (operation : GroupOperation Ref Id Value) :
    RebindOperation Ref Id kinds Value :=
  operation.embed (·.groups) (fun state groups => { state with groups }) .group

end Rebinding

namespace RebindContextImpl

def getEntity (context : RebindContextImpl Ref Place Id) (id : Id) : Option Ref :=
  context.entities.get id

def getLocation (context : RebindContextImpl Ref Place Id) (id : Id) : Option Place :=
  context.locations.get id

end RebindContextImpl

open Mementos Rebinding

namespace BasicLocationRebindSupport
variable [DecidableEq Place] [DecidableEq Id]
  (flags : Mementos.LocationMemento Id Rest → LocationReferenceFlags Id) (bound : Nat)
  (context : RebindContextImpl Ref Place Id) (location : Place)
  (memento : Mementos.LocationMemento Id Rest)

def bindFlags : LocationOperation kinds Unit := do
  match (flags memento).machines with
  | none => pure ()
  | some ids =>
    Effect.modify fun tree => tree.setMachines location (.ofList (ids.filterMap context.getLocation))
  match (flags memento).inUse with
  | none => pure ()
  | some ids =>
    Effect.modify fun tree => tree.setInUse location (.ofList (ids.filterMap context.getLocation))

def setParent : LocationOperation kinds Unit :=
  match memento.parent.bind context.getLocation with
  | some parent => setParentLocation bound location (some parent)
  | none => pure ()

def addChildren : LocationOperation kinds Unit :=
  Effect.forEach memento.children fun childId =>
    match context.getLocation childId with
    | some child => addChildLocation bound location child
    | none => pure ()

def reconstruct : LocationOperation kinds Unit := do
  bindFlags flags context location memento
  setParent bound context location memento
  addChildren bound context location memento

end BasicLocationRebindSupport

namespace BasicEntityRebindSupport
variable [DecidableEq Ref] [DecidableEq Place] [DecidableEq Id] (who : Identity Ref Id)
  (isGroup : Ref → Bool) (bound : Nat) (context : RebindContextImpl Ref Place Id) (entity : Ref)
  (memento : Mementos.EntityMemento Id Rest)

def setParent : Operation Ref Id Unit :=
  match memento.parent.bind context.getEntity with
  | some parent => setOwner who bound entity (some parent)
  | none => pure ()

def addChildren : Operation Ref Id Unit :=
  Effect.forEach memento.children fun childId =>
    match context.getEntity childId with
    | some child => addOwnedChild who bound entity child
    | none => pure ()

def addMembers : RebindOperation Ref Id kinds Unit :=
  if memento.members = [] then pure ()
  else if isGroup entity then
    onGroups (Effect.forEach memento.members fun memberId =>
      match context.getEntity memberId with
      | some member => do
        let _ ← AbstractGroup.addMember who entity (some member)
      | none => pure ())
  else Effect.throw (.shouldBeGroup entity)

def addLocations : RebindOperation Ref Id kinds Unit :=
  Effect.modify fun state =>
    { state with
      getLocations := Function.update state.getLocations entity
        ((state.getLocations entity).addAll (memento.locations.filterMap context.getLocation)) }

def reconstruct : RebindOperation Ref Id kinds Unit := do
  onOwnership (setParent who bound context entity memento)
  onOwnership (addChildren who bound context entity memento)
  addMembers who isGroup context entity memento
  addLocations context entity memento

end BasicEntityRebindSupport

namespace RebindManagerImpl
variable [DecidableEq Ref] [DecidableEq Place] [DecidableEq Id] (who : Identity Ref Id)
  (isGroup : Ref → Bool) (flags : Mementos.LocationMemento Id Rest → LocationReferenceFlags Id)
  (newEntity : Mementos.EntityMemento Id Rest → Ref)
  (newLocation : Mementos.LocationMemento Id Rest → Place)
  (bound : Nat)

omit [DecidableEq Ref] [DecidableEq Place] in
/-- The context once everything is instantiated. -/
def register (memento : BrooklynMementoImpl Id Rest) : RebindContextImpl Ref Place Id where
  entities := LinkedMap.empty.putAll
    (memento.entities.values.map fun memento => (memento.id, newEntity memento))
  locations := LinkedMap.empty.putAll
    (memento.locations.values.map fun memento => (memento.id, newLocation memento))

def reconstructEntities (context : RebindContextImpl Ref Place Id)
    (mementos : List (Mementos.EntityMemento Id Rest)) : RebindOperation Ref Id kinds Unit :=
  Effect.forEach mementos fun memento =>
    match context.getEntity memento.id with
    | some entity =>
      BasicEntityRebindSupport.reconstruct who isGroup bound context entity memento
    | none => Effect.throw .nullPointer

omit [DecidableEq Place] in
def manageApplications (context : RebindContextImpl Ref Place Id) (applicationIds : List Id) :
    RebindOperation Ref Id kinds Unit :=
  Effect.forEach applicationIds fun appId =>
    match context.getEntity appId with
    | some app => onOwnership (manage who bound app)
    | none => Effect.throw .nullPointer

end RebindManagerImpl
end Brooklyn
