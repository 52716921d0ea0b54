import Brooklyn.ConfigKeys
import Brooklyn.EntityManagement

/-!
The configuration of entities: `EntityConfigMap`, and the calls of `AbstractEntity` that write it.
An entity keeps the full configuration of its owner as inherited, and hands its own on to its
owned children when it changes. `newUid` names the items of lists.
-/

namespace Brooklyn

variable {Ref Id Object Value : Type}

structure EntityConfigMap (Object : Type) where
  ownConfig : ConfigMap Object
  inheritedConfig : ConfigMap Object

namespace EntityConfigMap

def getAllConfig (config : EntityConfigMap Object) : ConfigMap Object :=
  ConfigMap.putAll (ConfigMap.putAll .empty config.inheritedConfig) config.ownConfig

def setOwnConfig (ownConfig : ConfigMap Object) (config : EntityConfigMap Object) :
    EntityConfigMap Object :=
  { config with ownConfig := ownConfig }

def setInheritedConfig (vals : ConfigMap Object) (config : EntityConfigMap Object) :
    EntityConfigMap Object :=
  { config with inheritedConfig := ConfigMap.putAll config.inheritedConfig vals }

def clearInheritedConfig (config : EntityConfigMap Object) : EntityConfigMap Object :=
  { config with inheritedConfig := .empty }

end EntityConfigMap

/-- `deferred` are the futures and suppliers, and `coerce` is `none` where it throws. -/
structure ConfigSurroundings (Object : Type) where
  deferred : ConfigValue Object → Bool
  coerce : ConfigKey → ConfigValue Object → Option (ConfigValue Object)
  newUid : Nat → String

inductive ConfigFault (Ref : Type) where
  | ownership (fault : Fault Ref)
  | value (fault : ValueFault)

structure Configured (Ref Id Object : Type) where
  world : World Ref Id
  config : Ref → EntityConfigMap Object
  drawn : Nat

abbrev ConfigOperation (Ref Id Object Value : Type) : Type :=
  Effect (Configured Ref Id Object) (ConfigFault Ref) Value

namespace Configured
variable [DecidableEq Ref]

/-- An operation that leaves the configuration alone. -/
def ownership (operation : Operation Ref Id Value) : ConfigOperation Ref Id Object Value :=
  fun state =>
    match operation state.world with
    | none => none
    | some (.error fault, world) => some (.error (.ownership fault), { state with world := world })
    | some (.ok value, world) => some (.ok value, { state with world := world })

def changeConfig (e : Ref) (change : EntityConfigMap Object → EntityConfigMap Object)
    (state : Configured Ref Id Object) : Configured Ref Id Object :=
  { state with config := Function.update state.config e (change (state.config e)) }

def setDrawn (drawn : Nat) (state : Configured Ref Id Object) : Configured Ref Id Object :=
  { state with drawn := drawn }

variable [DecidableEq Id] (who : Identity Ref Id) (surroundings : ConfigSurroundings Object)

/-- `setInheritedConfig(owner.getAllConfig())`. -/
def inheritFrom (owner e : Ref) : ConfigOperation Ref Id Object Unit := do
  let vals ← Effect.read fun state => (state.config owner).getAllConfig
  Effect.modify (changeConfig e (·.setInheritedConfig vals))

mutual

def refreshInheritedConfig : Nat → Ref → ConfigOperation Ref Id Object Unit
  | 0, _ => .diverge
  | bound + 1, e => do
    match ← ownership (getOwner e) with
    | some owner => inheritFrom owner e
    | none => Effect.modify (changeConfig e (·.clearInheritedConfig))
    refreshInheritedConfigOfChildren bound e

def refreshInheritedConfigOfChildren : Nat → Ref → ConfigOperation Ref Id Object Unit
  | 0, _ => .diverge
  | bound + 1, e => do
    let children ← ownership (getOwnedChildren who e)
    Effect.forEach children (refreshInheritedConfig bound)

end

/-- The part of `setConfig` that writes the own configuration. -/
def applyValue (key : ConfigKey) (value : ConfigValue Object) (target : ListTarget Object) :
    Except ValueFault Unit × ListTarget Object :=
  match key.kind with
  | .map =>
      match key.applyMapValue value target.map with
      | .error fault => (.error fault, target)
      | .ok map => (.ok ⟨⟩, { target with map := map })
  | .list => key.applyListValue surroundings.newUid value target
  | .plain | .subElement _ =>
      if surroundings.deferred value then
        (.ok ⟨⟩, { target with map := target.map.put key value })
      else
        match surroundings.coerce key value with
        | none => (.error .cannotCoerce, target)
        | some value => (.ok ⟨⟩, { target with map := target.map.put key value })

def setConfig (bound : Nat) (e : Ref) (key : ConfigKey) (value : ConfigValue Object) :
    ConfigOperation Ref Id Object Unit := do
  let target ← Effect.read fun state => ListTarget.mk (state.config e).ownConfig state.drawn
  let applied := applyValue surroundings key value target
  Effect.modify fun state =>
    (changeConfig e (·.setOwnConfig applied.2.map) state).setDrawn applied.2.drawn
  match applied.1 with
  | .error fault => Effect.throw (.value fault)
  | .ok _ => refreshInheritedConfigOfChildren who bound e

mutual

def setOwner : Nat → Ref → Option Ref → ConfigOperation Ref Id Object Unit
  | 0, _, _ => .diverge
  | bound + 1, child, entity => do
    match ← ownership (getOwner child) with
    | some owner =>
      if entity = some owner then pure ⟨⟩
      else
        match entity with
        | none => ownership (clearOwner who bound child)
        | some other =>
            ownership (Effect.throw (.ownerChangeNotSupported child owner other))
    | none =>
      let previouslyOwned ← Effect.read fun state =>
        (state.world.entity child).previouslyOwned
      if previouslyOwned ∧ entity.isSome then
        ownership (Effect.throw (.previouslyHadOwner child))
      else if entity = some child then ownership (Effect.throw (.cannotOwnItself child))
      else
        let loop ← ownership (isDescendant who bound child entity)
        match entity with
        | none => ownership (Effect.throw .nullPointer)
        | some owner =>
          if loop then ownership (Effect.throw (.alreadyDescendant child owner))
          else
            ownership (Effect.modify (·.setOwner child (some owner)))
            addOwnedChild bound owner child
            inheritFrom owner child
            ownership (Effect.modify (·.setPreviouslyOwned child))

def addOwnedChild : Nat → Ref → Ref → ConfigOperation Ref Id Object Unit
  | 0, _, _ => .diverge
  | bound + 1, owner, child => do
    let loop ← ownership (isAncestor bound owner child)
    if loop then ownership (Effect.throw (.alreadyAncestor owner child))
    else
      setOwner bound child (some owner)
      ownership (Effect.modify fun world =>
        world.setOwnedChildren owner ((world.entity owner).ownedChildren.add who child))

end

inductive Call (Ref Object : Type) where
  | setOwner (child : Ref) (entity : Option Ref)
  | addOwnedChild (owner child : Ref)
  | setConfig (e : Ref) (key : ConfigKey) (value : ConfigValue Object)

def perform (bound : Nat) : Call Ref Object → ConfigOperation Ref Id Object Unit
  | .setOwner child entity => setOwner who bound child entity
  | .addOwnedChild owner child => addOwnedChild who bound owner child
  | .setConfig e key value => setConfig who surroundings bound e key value

/-- Entities without owners and configuration. -/
def initial : Configured Ref Id Object := ⟨.initial, fun _ => ⟨.empty, .empty⟩, 0⟩

/-- The states that calls lead to, where each is allowed in the state that it is made in. -/
inductive Reached (allowed : Configured Ref Id Object → Call Ref Object → Prop) :
    Configured Ref Id Object → Prop where
  | start : Reached allowed initial
  | call {before after : Configured Ref Id Object} {bound : Nat} {call : Call Ref Object}
      {out : Except (ConfigFault Ref) Unit} (reached : Reached allowed before)
      (fits : allowed before call)
      (ran : perform who surroundings bound call before = some (out, after)) :
      Reached allowed after

end Configured
end Brooklyn
