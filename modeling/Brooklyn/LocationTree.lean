import Brooklyn.Effect
import Brooklyn.KeyedSets
import Mathlib.Logic.Function.Basic

/-!
The location tree: `AbstractLocation`, with the overrides and the machines of
`FixedListMachineProvisioningLocation`. Locations are objects, told apart by `==`; equality
is that of their ids, and it is what lists remove by and what sets go by.

What a location is never changes and is `LocationKinds`. Every location is an
`AbstractLocation`, and a `FixedListMachineProvisioningLocation` keeps only what is a
`MachineLocation` as a machine. Left out is closing the child that is removed, which does
not throw and changes no location.
-/

namespace Brooklyn

variable {Ref Id : Type}

structure LocationKinds (Ref Id : Type) where
  id : Ref → Id
  isMachineLocation : Ref → Bool
  isFixedList : Ref → Bool

structure LocationWorld (kinds : LocationKinds Ref Id) where
  parentLocation : Ref → Option Ref
  childLocations : Ref → List Ref
  machines : Ref → KeyedSet kinds.id
  inUse : Ref → KeyedSet kinds.id

inductive LocationFault (Ref : Type) where
  | cannotBeItsOwnParent (location : Ref)
  | childInUse (child location : Ref)
  | classCast (child : Ref)
  | notAllocated (machine : Ref)
  | noMachinesAvailable (location : Ref)
  | moreNotPermitted
deriving DecidableEq

variable {kinds : LocationKinds Ref Id}

abbrev LocationOperation (kinds : LocationKinds Ref Id) (Value : Type) : Type :=
  Effect (LocationWorld kinds) (LocationFault Ref) Value

namespace LocationWorld

/-- New locations, with the machines that they were given. -/
def initial (machines : Ref → KeyedSet kinds.id) : LocationWorld kinds where
  parentLocation _ := none
  childLocations _ := []
  machines := machines
  inUse _ := .empty

variable [DecidableEq Ref] (world : LocationWorld kinds)

def setParent (location : Ref) (parent : Option Ref) : LocationWorld kinds :=
  { world with parentLocation := Function.update world.parentLocation location parent }

def setChildren (location : Ref) (children : List Ref) : LocationWorld kinds :=
  { world with childLocations := Function.update world.childLocations location children }

def setMachines (location : Ref) (machines : KeyedSet kinds.id) : LocationWorld kinds :=
  { world with machines := Function.update world.machines location machines }

def setInUse (location : Ref) (machines : KeyedSet kinds.id) : LocationWorld kinds :=
  { world with inUse := Function.update world.inUse location machines }

/-- `childLocations.add(child)` -/
def addChild (location child : Ref) : LocationWorld kinds :=
  world.setChildren location (world.childLocations location ++ [child])

variable [DecidableEq Id]

/-- Whether a child equals `child`. -/
def hasEqual (location child : Ref) : Bool :=
  (world.childLocations location).any fun other => kinds.id other = kinds.id child

/-- `childLocations.remove(child)`: the first that equals `child` goes. -/
def removeChild (location child : Ref) : LocationWorld kinds :=
  world.setChildren location
    ((world.childLocations location).eraseP fun other => kinds.id other = kinds.id child)

end LocationWorld

section Tree
variable [DecidableEq Ref] [DecidableEq Id]

mutual

def setParentLocation : Nat → Ref → Option Ref → LocationOperation kinds Unit
  | 0, _, _ => .diverge
  | bound + 1, location, parent => do
    let parentLocation ← Effect.read (·.parentLocation location)
    if parent = some location then Effect.throw (.cannotBeItsOwnParent location)
    else if parent = parentLocation then pure ()
    else
      match parentLocation with
      | none => pure ()
      | some oldParent =>
        -- The parent is forgotten before `removeChildLocation`, which may throw.
        Effect.modify (·.setParent location none)
        let _ ← removeChildLocation bound oldParent location
      match parent with
      | none => pure ()
      | some newParent =>
        Effect.modify (·.setParent location (some newParent))
        addChildLocation bound newParent location

def AbstractLocation.addChildLocation : Nat → Ref → Ref → LocationOperation kinds Unit
  | 0, _, _ => .diverge
  | bound + 1, location, child => do
    let childLocations ← Effect.read (·.childLocations location)
    if child ∈ childLocations then pure ()
    else
      Effect.modify (·.addChild location child)
      setParentLocation bound child (some location)

def AbstractLocation.removeChildLocation : Nat → Ref → Ref → LocationOperation kinds Bool
  | 0, _, _ => .diverge
  | bound + 1, location, child => do
    let removed ← Effect.read (·.hasEqual location child)
    Effect.modify (·.removeChild location child)
    if removed then setParentLocation bound child none
    pure removed

/-- With the override of `FixedListMachineProvisioningLocation`; `(T)child` is a cast to
`MachineLocation`. -/
def addChildLocation : Nat → Ref → Ref → LocationOperation kinds Unit
  | 0, _, _ => .diverge
  | bound + 1, location, child => do
    AbstractLocation.addChildLocation bound location child
    if kinds.isFixedList location then
      if kinds.isMachineLocation child then
        Effect.modify fun world =>
          world.setMachines location ((world.machines location).add child)
      else Effect.throw (.classCast child)

/-- With the override of `FixedListMachineProvisioningLocation`. -/
def removeChildLocation : Nat → Ref → Ref → LocationOperation kinds Bool
  | 0, _, _ => .diverge
  | bound + 1, location, child => do
    if kinds.isFixedList location then
      let inUse ← Effect.read (·.inUse location)
      if inUse.contains child then Effect.throw (.childInUse child location)
      else
        Effect.modify fun world =>
          world.setMachines location ((world.machines location).remove child)
        AbstractLocation.removeChildLocation bound location child
    else AbstractLocation.removeChildLocation bound location child

end

end Tree

namespace FixedListMachineProvisioningLocation
variable [DecidableEq Ref] [DecidableEq Id]

def getAvailable (location : Ref) (world : LocationWorld kinds) : KeyedSet kinds.id :=
  (world.machines location).removeAll (world.inUse location)

def canProvisionMore : Bool := false

def provisionMore (_size : Nat) : LocationOperation kinds Unit :=
  Effect.throw .moreNotPermitted

def obtain (location : Ref) : LocationOperation kinds Ref := do
  let available ← Effect.read (getAvailable location)
  let available ←
    if available.elements = [] ∧ canProvisionMore then do
      provisionMore 1
      Effect.read (getAvailable location)
    else pure available
  match available.elements with
  | [] => Effect.throw (.noMachinesAvailable location)
  | machine :: _ =>
    Effect.modify fun world => world.setInUse location ((world.inUse location).add machine)
    pure machine

def release (location machine : Ref) : LocationOperation kinds Unit := do
  let inUse ← Effect.read (·.inUse location)
  if inUse.contains machine then
    Effect.modify fun world =>
      world.setInUse location ((world.inUse location).remove machine)
  else Effect.throw (.notAllocated machine)

end FixedListMachineProvisioningLocation

/-- A call on a location; `obtain` and `release` are those of a
`FixedListMachineProvisioningLocation`. -/
inductive LocationCall (Ref : Type) where
  | setParentLocation (location : Ref) (parent : Option Ref)
  | addChildLocation (location child : Ref)
  | removeChildLocation (location child : Ref)
  | obtain (location : Ref)
  | release (location machine : Ref)
deriving DecidableEq

inductive LocationAnswer (Ref : Type) where
  | nothing
  | removed (removed : Bool)
  | machine (machine : Ref)
deriving DecidableEq

namespace LocationCall
variable [DecidableEq Ref] [DecidableEq Id]

def performWithin (bound : Nat) : LocationCall Ref → LocationOperation kinds (LocationAnswer Ref)
  | .setParentLocation location parent => do
      Brooklyn.setParentLocation bound location parent
      pure .nothing
  | .addChildLocation location child => do
      Brooklyn.addChildLocation bound location child
      pure .nothing
  | .removeChildLocation location child => do
      pure (.removed (← Brooklyn.removeChildLocation bound location child))
  | .obtain location => do
      pure (.machine (← FixedListMachineProvisioningLocation.obtain location))
  | .release location machine => do
      FixedListMachineProvisioningLocation.release location machine
      pure .nothing

/-- No call goes deeper than this: see `performWithin_deeper`. -/
def perform (call : LocationCall Ref) : LocationOperation kinds (LocationAnswer Ref) :=
  call.performWithin 6

end LocationCall
end Brooklyn
