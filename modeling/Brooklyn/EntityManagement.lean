import Brooklyn.EntityOwnership
import Brooklyn.Transition

/-!
`AbstractManagementContext` with `LocalManagementContext`, and the steps of
`EntityManagementSupport` it takes each entity through. The calls of a run follow
each other; `onManagementStopping` of an entity that another call left in
`MANAGEMENT_STARTING` waits for ever. Subscriptions, executions, rebind listeners
and the callbacks that `AbstractEntity` leaves empty are left out.
-/

namespace Brooklyn

variable {Ref Id : Type}

namespace World

def getEntity (world : World Ref Id) (id : Id) : Option Ref :=
  world.management.entitiesById.get id

def isManaged (who : Identity Ref Id) (world : World Ref Id) (e : Ref) : Bool :=
  world.management.running && (world.getEntity (who.id e)).isSome

def record (world : World Ref Id) (step : ManagementStep) (e : Ref) : World Ref Id :=
  { world with steps := world.steps ++ [(step, e)] }

def setManagement (world : World Ref Id) (management : LocalManagementContext Ref Id) :
    World Ref Id :=
  { world with management := management }

def initial : World Ref Id where
  entity := fun _ =>
    { owner := none
      previouslyOwned := false
      ownedChildren := .create
      managementSupport := ⟨some .preManagement, false⟩ }
  management := { running := true, entitiesById := .empty, entities := [], applications := .empty }
  steps := []

end World

section Management
variable [DecidableEq Ref] [DecidableEq Id] (who : Identity Ref Id)

def manageNonRecursive (e : Ref) : Operation Ref Id Bool := do
  let old ← Effect.read (·.getEntity (who.id e))
  Effect.modify fun world => world.setManagement
    { world.management with entitiesById := world.management.entitiesById.put (who.id e) e }
  -- The map has the new entity by now, also when the clash is reported.
  match old with
  | some other => if other = e then pure false else Effect.throw (.differentEntityKnown e other)
  | none =>
    Effect.modify fun world => world.setManagement
      { world.management with
        applications :=
          if who.isApplication e then world.management.applications.add e
          else world.management.applications
        entities := world.management.entities ++ [e] }
    pure true

def unmanageNonRecursive (bound : Nat) (e : Ref) : Operation Ref Id Bool := do
  clearOwner who bound e
  let old ← Effect.read (·.getEntity (who.id e))
  Effect.modify fun world => world.setManagement
    { world.management with
      applications :=
        if who.isApplication e then world.management.applications.remove e
        else world.management.applications
      entities := world.management.entities.erase e
      entitiesById := world.management.entitiesById.remove (who.id e) }
  pure old.isSome

/-- `nonDeploymentManagementContext.setMode(mode)`. -/
def setMode (e : Ref) (mode : NonDeploymentMode) : Operation Ref Id Unit := do
  let support ← Effect.read fun world => (world.entity e).managementSupport
  match support.nonDeploymentManagementContext with
  | none => Effect.throw .nullPointer
  | some _ => Effect.modify (·.changeSupport e (.setContext (some mode)))

def onManagementStarting (e : Ref) : Operation Ref Id Unit := do
  Effect.modify (·.record .onManagementStarting e)
  setMode e .starting
  Effect.modify (·.changeSupport e (.setUsable true))

def onManagementStarted (e : Ref) : Operation Ref Id Unit := do
  Effect.modify (·.record .onManagementStarted e)
  setMode e .started
  Effect.modify (·.changeSupport e (.setContext none))

def onManagementStopping (bound : Nat) (e : Ref) : Operation Ref Id Unit := do
  Effect.modify (·.record .onManagementStopping e)
  let support ← Effect.read fun world => (world.entity e).managementSupport
  -- The source waits here until another thread has started the entity.
  if support.nonDeploymentManagementContext = some .starting then Effect.diverge
  else
    Effect.modify (·.changeSupport e (.setContext (some .stopping)))
    match ← getOwner e with
    | none => pure ()
    | some owner =>
      let _ ← removeOwnedChild who bound owner e

def onManagementStopped (e : Ref) : Operation Ref Id Unit := do
  Effect.modify (·.record .onManagementStopped e)
  Effect.modify (·.changeSupport e (.setUsable false))
  Effect.modify fun world => world.setOwnedChildren e (world.entity e).ownedChildren.invalidate
  setMode e .stopped

/-- The body of the loop of `recursively`: `ref.peek(id)`, or else `getEntity(id)`. -/
def visit (recurse : Ref → Operation Ref Id Unit) (e : Ref) (id : Id) : Operation Ref Id Unit := do
  match ← Effect.read fun world =>
      ((world.entity e).ownedChildren.peek id).or (world.getEntity id) with
  | none => pure ()
  | some entity => recurse entity

/-- The ids are those of the moment after `action`; each is looked up when its turn comes. -/
def recursively (action : Ref → Operation Ref Id Bool) : Nat → Ref → Operation Ref Id Unit
  | 0, _ => .diverge
  | bound + 1, e => do
    let _ ← action e
    let ids ← Effect.read fun world => (world.entity e).ownedChildren.entityRefs.elements
    Effect.forEach ids (visit (recursively action bound) e)

def manage (bound : Nat) (e : Ref) : Operation Ref Id Unit := do
  if ← Effect.read (·.isManaged who e) then pure ()
  else
    recursively
      (fun it => do
        onManagementStarting it
        manageNonRecursive who it)
      bound e
    recursively
      (fun it => do
        onManagementStarted it
        pure true)
      bound e

def stopping (bound : Nat) (it : Ref) : Operation Ref Id Bool := do
  if ← Effect.read (·.isManaged who it) then
    onManagementStopping who bound it
    pure true
  else pure false

def stopped (bound : Nat) (it : Ref) : Operation Ref Id Bool := do
  if ← Effect.read (·.isManaged who it) then
    let result ← unmanageNonRecursive who bound it
    onManagementStopped it
    pure result
  else pure false

def unmanage (bound : Nat) (e : Ref) : Operation Ref Id Unit := do
  if ← Effect.read (·.isManaged who e) then
    recursively (stopping who bound) bound e
    recursively (stopped who bound) bound e
  else pure ()

def terminate : Operation Ref Id Unit :=
  Effect.modify fun world => world.setManagement { world.management with running := false }

inductive Call (Ref : Type) where
  | setOwner (child : Ref) (owner : Option Ref)
  | clearOwner (child : Ref)
  | addOwnedChild (owner child : Ref)
  | removeOwnedChild (owner child : Ref)
  | getOwnedChildren (e : Ref)
  | manage (e : Ref)
  | unmanage (e : Ref)
  | terminate

def Call.perform (bound : Nat) : Call Ref → Operation Ref Id Unit
  | .setOwner child owner => Brooklyn.setOwner who bound child owner
  | .clearOwner child => Brooklyn.clearOwner who bound child
  | .addOwnedChild owner child => Brooklyn.addOwnedChild who bound owner child
  | .removeOwnedChild owner child => do let _ ← Brooklyn.removeOwnedChild who bound owner child
  | .getOwnedChildren e => do let _ ← Brooklyn.getOwnedChildren who e
  | .manage e => Brooklyn.manage who bound e
  | .unmanage e => Brooklyn.unmanage who bound e
  | .terminate => Brooklyn.terminate

/-- A step is a call that returns or throws within some bound. -/
def entitySystem : Transition.System (World Ref Id) (Nat × Call Ref) where
  initial := .initial
  step world action := (action.2.perform who action.1 world).map Prod.snd

end Management
end Brooklyn
