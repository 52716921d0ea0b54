import Brooklyn.Effect
import Brooklyn.LinkedCollections

/-!
The ownership tree: `AbstractEntity`, `EntityCollectionReference` and the tree
searches of `Entities`, in the world of one `LocalManagementContext`. References
to owned children are held by id, with the entities known for them beside.

Identity, application flag and id of an entity never change and are `Identity`.
An owner reference is only invalidated after it was cleared, so it is the owner
itself. Every recursion and loop has a bound, and one that exceeds it does not
return. Left out are what nothing here reads (configuration, groups, the cached
application), the listener that persists changes, and assertions, which a JVM
does not check by default.
-/

namespace Brooklyn

variable {Ref Id : Type}

structure Identity (Ref Id : Type) where
  id : Ref → Id
  isApplication : Ref → Bool

/-- `entities` is `none` before the first entity is added and after `invalidate`. -/
structure EntityCollectionReference (Ref Id : Type) where
  entityRefs : LinkedSet Id
  entities : Option (LinkedMap Id Ref)

inductive NonDeploymentMode where
  | preManagement | rebinding | starting | started | stopping | stopped
deriving DecidableEq

/-- `nonDeploymentManagementContext` is the mode of that context, if there is one. -/
structure EntityManagementSupport where
  nonDeploymentManagementContext : Option NonDeploymentMode
  managementContextUsable : Bool

def EntityManagementSupport.setContext (mode : Option NonDeploymentMode)
    (support : EntityManagementSupport) : EntityManagementSupport :=
  { support with nonDeploymentManagementContext := mode }

def EntityManagementSupport.setUsable (usable : Bool) (support : EntityManagementSupport) :
    EntityManagementSupport :=
  { support with managementContextUsable := usable }

structure AbstractEntity (Ref Id : Type) where
  owner : Option Ref
  previouslyOwned : Bool
  ownedChildren : EntityCollectionReference Ref Id
  managementSupport : EntityManagementSupport

structure LocalManagementContext (Ref Id : Type) where
  running : Bool
  entitiesById : LinkedMap Id Ref
  entities : List Ref
  applications : LinkedSet Ref

inductive ManagementStep where
  | onManagementStarting | onManagementStarted | onManagementStopping | onManagementStopped
deriving DecidableEq

/-- `steps` records the management steps of the entities, in order. -/
structure World (Ref Id : Type) where
  entity : Ref → AbstractEntity Ref Id
  management : LocalManagementContext Ref Id
  steps : List (ManagementStep × Ref)

inductive Fault (Ref : Type) where
  | ownerChangeNotSupported (child owner entity : Ref)
  | previouslyHadOwner (child : Ref)
  | cannotOwnItself (child : Ref)
  | alreadyDescendant (child entity : Ref)
  | alreadyAncestor (owner child : Ref)
  | differentEntityKnown (entity old : Ref)
  | nullPointer
deriving DecidableEq

abbrev Operation (Ref Id Value : Type) : Type := Effect (World Ref Id) (Fault Ref) Value

namespace EntityCollectionReference
variable [DecidableEq Id] (who : Identity Ref Id)

def create : EntityCollectionReference Ref Id := ⟨.empty, none⟩

def add (reference : EntityCollectionReference Ref Id) (e : Ref) : EntityCollectionReference Ref Id :=
  if who.id e ∈ reference.entityRefs then reference else
    { entityRefs := reference.entityRefs.add (who.id e)
      entities := some ((reference.entities.getD .empty).put (who.id e) e) }

/-- Without known entities the id goes all the same, and the answer is `false`. -/
def remove (reference : EntityCollectionReference Ref Id) (e : Ref) :
    Bool × EntityCollectionReference Ref Id :=
  if who.id e ∈ reference.entityRefs then
    (reference.entities.isSome,
      { entityRefs := reference.entityRefs.remove (who.id e)
        entities := reference.entities.map (·.remove (who.id e)) })
  else (false, reference)

def invalidate (reference : EntityCollectionReference Ref Id) : EntityCollectionReference Ref Id :=
  { reference with entities := none }

def peek (reference : EntityCollectionReference Ref Id) (entityId : Id) : Option Ref :=
  reference.entities.bind (·.get entityId)

end EntityCollectionReference

namespace World
variable [DecidableEq Ref]

def setEntity (world : World Ref Id) (e : Ref) (entity : AbstractEntity Ref Id) : World Ref Id :=
  { world with entity := Function.update world.entity e entity }

def setOwner (world : World Ref Id) (e : Ref) (owner : Option Ref) : World Ref Id :=
  world.setEntity e { world.entity e with owner := owner }

def setPreviouslyOwned (world : World Ref Id) (e : Ref) : World Ref Id :=
  world.setEntity e { world.entity e with previouslyOwned := true }

def setOwnedChildren (world : World Ref Id) (e : Ref)
    (ownedChildren : EntityCollectionReference Ref Id) : World Ref Id :=
  world.setEntity e { world.entity e with ownedChildren := ownedChildren }

def changeSupport (world : World Ref Id) (e : Ref)
    (change : EntityManagementSupport → EntityManagementSupport) : World Ref Id :=
  world.setEntity e
    { world.entity e with managementSupport := change (world.entity e).managementSupport }

end World

section Ownership
variable [DecidableEq Ref] [DecidableEq Id] (who : Identity Ref Id)

def getOwner (e : Ref) : Operation Ref Id (Option Ref) :=
  .read fun world => (world.entity e).owner

/-- `getManagementContext(true).getEntity(id)` at the referrer: a context that is not
for deployed entities knows none. -/
def resolve (referrer : Ref) (id : Id) : Operation Ref Id (Option Ref) := do
  let support ← Effect.read fun world => (world.entity referrer).managementSupport
  if support.managementContextUsable then
    Effect.read fun world => world.management.entitiesById.get id
  else
    match support.nonDeploymentManagementContext with
    | none => Effect.throw .nullPointer
    | some _ => pure none

def resolveAll (referrer : Ref) (result : LinkedMap Id Ref) :
    List Id → Operation Ref Id (LinkedMap Id Ref)
  | [] => pure result
  | id :: rest => do
    match ← resolve referrer id with
    | none => resolveAll referrer result rest
    | some e => resolveAll referrer (result.put (who.id e) e) rest

def find (referrer : Ref) : Operation Ref Id (List Ref) := do
  let reference ← Effect.read fun world => (world.entity referrer).ownedChildren
  let result ← resolveAll who referrer .empty reference.entityRefs.elements
  Effect.modify fun world =>
    world.setOwnedChildren referrer { reference with entities := some result }
  pure result.values

def getOwnedChildren (e : Ref) : Operation Ref Id (List Ref) := do
  match (← Effect.read fun world => (world.entity e).ownedChildren).entities with
  | some entities => pure entities.values
  | none => find who e

def isAncestor : Nat → Ref → Ref → Operation Ref Id Bool
  | 0, _, _ => .diverge
  | bound + 1, descendant, potentialAncestor => do
    match ← getOwner descendant with
    | none => pure false
    | some ancestor =>
      if ancestor = potentialAncestor then pure true
      else isAncestor bound ancestor potentialAncestor

/-- The loop of `isDescendant`; the stack has its top at the end. -/
def inspect (potentialDescendant : Option Ref) :
    Nat → List Ref → List Ref → Operation Ref Id Bool
  | 0, _, _ => .diverge
  | bound + 1, inspected, toinspect => do
    match toinspect.getLast? with
    | none => pure false
    | some e => do
      let children ← getOwnedChildren who e
      if potentialDescendant ∈ children.map some then pure true
      else
        let toinspect := toinspect.dropLast ++ (← getOwnedChildren who e)
        inspect potentialDescendant bound (e :: inspected)
          (toinspect.filter (· ∉ e :: inspected))

def isDescendant (bound : Nat) (ancestor : Ref) (potentialDescendant : Option Ref) :
    Operation Ref Id Bool :=
  inspect who potentialDescendant bound [] [ancestor]

mutual

def clearOwner : Nat → Ref → Operation Ref Id Unit
  | 0, _ => .diverge
  | bound + 1, child => do
    match ← getOwner child with
    | none => pure ()
    | some oldOwner =>
      Effect.modify (·.setOwner child none)
      let _ ← removeOwnedChild bound oldOwner child

def removeOwnedChild : Nat → Ref → Ref → Operation Ref Id Bool
  | 0, _, _ => .diverge
  | bound + 1, owner, child => do
    let removed ← Effect.read fun world => (world.entity owner).ownedChildren.remove who child
    Effect.modify (·.setOwnedChildren owner removed.2)
    clearOwner bound child
    pure removed.1

end

mutual

def setOwner : Nat → Ref → Option Ref → Operation Ref Id Unit
  | 0, _, _ => .diverge
  | bound + 1, child, entity => do
    match ← getOwner child with
    | some owner =>
      if entity = some owner then pure ()
      else
        match entity with
        | none => clearOwner who bound child
        | some other => Effect.throw (.ownerChangeNotSupported child owner other)
    | none =>
      let previouslyOwned ← Effect.read fun world => (world.entity child).previouslyOwned
      if previouslyOwned ∧ entity.isSome then Effect.throw (.previouslyHadOwner child)
      else if entity = some child then Effect.throw (.cannotOwnItself child)
      else
        let loop ← isDescendant who bound child entity
        match entity with
        | none => Effect.throw .nullPointer
        | some owner =>
          if loop then Effect.throw (.alreadyDescendant child owner)
          else
            -- `owner` is set before `addOwnedChild`, which may still throw and leave it set.
            Effect.modify (·.setOwner child (some owner))
            addOwnedChild bound owner child
            Effect.modify (·.setPreviouslyOwned child)

def addOwnedChild : Nat → Ref → Ref → Operation Ref Id Unit
  | 0, _, _ => .diverge
  | bound + 1, owner, child => do
    let loop ← isAncestor bound owner child
    if loop then Effect.throw (.alreadyAncestor owner child)
    else
      setOwner bound child (some owner)
      Effect.modify fun world =>
        world.setOwnedChildren owner ((world.entity owner).ownedChildren.add who child)

end

end Ownership
end Brooklyn
