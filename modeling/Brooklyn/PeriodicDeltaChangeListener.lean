import Brooklyn.MutableBrooklynMemento
import Brooklyn.Transition

/-!
`PeriodicDeltaChangeListener`: the delta collector, the notifications that fill it and the
attempts to persist it. A notification is a synchronized method and one step; an attempt
takes the collector in one step, then asks one instance after another for its memento and
last calls the persister. `memento` is what an instance answers, `throws` an exception of
`getMemento` or of `persister.delta`. A notification about an entity comes with the
locations found in the hierarchies of its locations.

`notified` and `accepted` are history: the changes notified while the listener was active,
in order, and the deltas that the persister has taken. `since` is how many changes had been
notified when an attempt took the collector. Logging is left out.
-/

namespace Brooklyn

/-- The ids of the instances. No two have one id; locations are equal when their ids are. -/
structure Identities (Entity Location Policy Id : Type) where
  entity : Entity → Id
  location : Location → Id
  policy : Policy → Id
  entityUnique : Function.Injective entity
  locationUnique : Function.Injective location
  policyUnique : Function.Injective policy

structure DeltaCollector (Entity Location Policy Id : Type) where
  locations : LinkedSet Location
  entities : LinkedSet Entity
  policies : LinkedSet Policy
  removedLocationIds : LinkedSet Id
  removedEntityIds : LinkedSet Id
  removedPolicyIds : LinkedSet Id

inductive Notification (Entity Location Policy : Type) where
  | onManagedEntity (entity : Entity) (hierarchies : List Location)
  | onManagedLocation (location : Location)
  | onChangedEntity (entity : Entity) (hierarchies : List Location)
  | onChangedLocation (location : Location)
  | onChangedPolicy (policy : Policy)
  | onUnmanagedEntity (entity : Entity)
  | onUnmanagedLocation (location : Location)

/-- What a notification says about one instance. -/
inductive Change (Entity Location Policy : Type) where
  | entityChanged (entity : Entity)
  | locationChanged (location : Location)
  | policyChanged (policy : Policy)
  | entityRemoved (entity : Entity)
  | locationRemoved (location : Location)
deriving DecidableEq

inductive Instance (Entity Location Policy : Type) where
  | location (location : Location)
  | entity (entity : Entity)
  | policy (policy : Policy)

/-- What the memento of an instance has besides its id. -/
structure MementoState (Id Rest : Type) where
  parent : Option Id
  isTopLevelApp : Bool
  rest : Rest

variable {Entity Location Policy Id Rest Thread : Type}

namespace DeltaCollector

def empty : DeltaCollector Entity Location Policy Id where
  locations := .empty
  entities := .empty
  policies := .empty
  removedLocationIds := .empty
  removedEntityIds := .empty
  removedPolicyIds := .empty

def isEmpty (collector : DeltaCollector Entity Location Policy Id) : Bool :=
  collector.locations.elements.isEmpty && collector.entities.elements.isEmpty &&
    collector.policies.elements.isEmpty && collector.removedEntityIds.elements.isEmpty &&
    collector.removedLocationIds.elements.isEmpty && collector.removedPolicyIds.elements.isEmpty

/-- In the order in which their mementos are built. -/
def instances (collector : DeltaCollector Entity Location Policy Id) :
    List (Instance Entity Location Policy) :=
  collector.locations.elements.map .location ++ collector.entities.elements.map .entity ++
    collector.policies.elements.map .policy

variable [DecidableEq Entity] [DecidableEq Location] [DecidableEq Policy] [DecidableEq Id]

def onChangedEntity (collector : DeltaCollector Entity Location Policy Id) (entity : Entity)
    (hierarchies : List Location) : DeltaCollector Entity Location Policy Id :=
  { collector with
    entities := collector.entities.add entity
    locations := collector.locations.addAll hierarchies }

def onChangedLocation (collector : DeltaCollector Entity Location Policy Id)
    (location : Location) : DeltaCollector Entity Location Policy Id :=
  { collector with locations := collector.locations.add location }

def onChangedPolicy (collector : DeltaCollector Entity Location Policy Id) (policy : Policy) :
    DeltaCollector Entity Location Policy Id :=
  { collector with policies := collector.policies.add policy }

def onUnmanagedEntity (who : Identities Entity Location Policy Id)
    (collector : DeltaCollector Entity Location Policy Id) (entity : Entity) :
    DeltaCollector Entity Location Policy Id :=
  { collector with
    removedEntityIds := collector.removedEntityIds.add (who.entity entity)
    entities := collector.entities.remove entity }

def onUnmanagedLocation (who : Identities Entity Location Policy Id)
    (collector : DeltaCollector Entity Location Policy Id) (location : Location) :
    DeltaCollector Entity Location Policy Id :=
  { collector with
    removedLocationIds := collector.removedLocationIds.add (who.location location)
    locations := collector.locations.remove location }

/-- `onManaged` only passes on to `onChanged`. -/
def notify (who : Identities Entity Location Policy Id)
    (collector : DeltaCollector Entity Location Policy Id) :
    Notification Entity Location Policy → DeltaCollector Entity Location Policy Id
  | .onManagedEntity entity hierarchies => collector.onChangedEntity entity hierarchies
  | .onManagedLocation location => collector.onChangedLocation location
  | .onChangedEntity entity hierarchies => collector.onChangedEntity entity hierarchies
  | .onChangedLocation location => collector.onChangedLocation location
  | .onChangedPolicy policy => collector.onChangedPolicy policy
  | .onUnmanagedEntity entity => collector.onUnmanagedEntity who entity
  | .onUnmanagedLocation location => collector.onUnmanagedLocation who location

end DeltaCollector

def Notification.changes :
    Notification Entity Location Policy → List (Change Entity Location Policy)
  | .onManagedEntity entity hierarchies | .onChangedEntity entity hierarchies =>
      .entityChanged entity :: hierarchies.map .locationChanged
  | .onManagedLocation location | .onChangedLocation location => [.locationChanged location]
  | .onChangedPolicy policy => [.policyChanged policy]
  | .onUnmanagedEntity entity => [.entityRemoved entity]
  | .onUnmanagedLocation location => [.locationRemoved location]

namespace Delta

def empty : Delta Id Rest := ⟨[], [], [], [], [], []⟩

/-- `getMemento` of the instance, added to the delta. -/
def addMemento (who : Identities Entity Location Policy Id) (delta : Delta Id Rest)
    (state : MementoState Id Rest) : Instance Entity Location Policy → Delta Id Rest
  | .location location =>
      { delta with
        locations := delta.locations ++ [⟨who.location location, state.parent, state.rest⟩] }
  | .entity entity =>
      { delta with
        entities := delta.entities ++ [⟨who.entity entity, state.isTopLevelApp, state.rest⟩] }
  | .policy policy =>
      { delta with policies := delta.policies ++ [⟨who.policy policy, state.rest⟩] }

def setRemoved (delta : Delta Id Rest) (collector : DeltaCollector Entity Location Policy Id) :
    Delta Id Rest :=
  { delta with
    removedLocationIds := collector.removedLocationIds.elements
    removedEntityIds := collector.removedEntityIds.elements
    removedPolicyIds := collector.removedPolicyIds.elements }

end Delta

namespace PeriodicDeltaChangeListener
open Transition

/-- An attempt with the collector it took and the delta it has so far. -/
structure Attempt (Entity Location Policy Id Rest : Type) where
  since : Nat
  prevDeltaCollector : DeltaCollector Entity Location Policy Id
  persisterDelta : Delta Id Rest

inductive Pc (Entity Location Policy Id Rest : Type) where
  | idle
  | switchDelta
  | generate (attempt : Attempt Entity Location Policy Id Rest)
      (instances : List (Instance Entity Location Policy))
  | delta (attempt : Attempt Entity Location Policy Id Rest)
  | countWrite

structure Shared (Entity Location Policy Id Rest : Type) where
  running : Bool
  deltaCollector : DeltaCollector Entity Location Policy Id
  writeCount : Nat
  notified : List (Change Entity Location Policy)
  accepted : List (Attempt Entity Location Policy Id Rest)

structure State (Entity Location Policy Id Rest Thread : Type) where
  shared : Shared Entity Location Policy Id Rest
  pc : Thread → Pc Entity Location Policy Id Rest

inductive Action (Entity Location Policy Id Rest Thread : Type) where
  | notify (notification : Notification Entity Location Policy)
  | stop
  | persistNow (thread : Thread)
  | next (thread : Thread)
  | memento (thread : Thread) (state : MementoState Id Rest)
  | throws (thread : Thread)

variable [DecidableEq Entity] [DecidableEq Location] [DecidableEq Policy] [DecidableEq Id]

/-- A notification to a listener that is not active is not taken. -/
def Shared.notify (who : Identities Entity Location Policy Id)
    (shared : Shared Entity Location Policy Id Rest)
    (notification : Notification Entity Location Policy) :
    Shared Entity Location Policy Id Rest :=
  if shared.running then
    { shared with
      deltaCollector := shared.deltaCollector.notify who notification
      notified := shared.notified ++ notification.changes }
  else shared

omit [DecidableEq Entity] [DecidableEq Location] [DecidableEq Policy] [DecidableEq Id] in
def exec (shared : Shared Entity Location Policy Id Rest) :
    Pc Entity Location Policy Id Rest →
      Option (Shared Entity Location Policy Id Rest × Pc Entity Location Policy Id Rest)
  | .switchDelta =>
      some ({ shared with deltaCollector := .empty },
        if shared.deltaCollector.isEmpty then .countWrite
        else .generate ⟨shared.notified.length, shared.deltaCollector, .empty⟩
          shared.deltaCollector.instances)
  | .generate attempt [] =>
      some (shared, .delta
        { attempt with
          persisterDelta := attempt.persisterDelta.setRemoved attempt.prevDeltaCollector })
  -- The persister takes the delta.
  | .delta attempt => some ({ shared with accepted := shared.accepted ++ [attempt] }, .countWrite)
  | .countWrite => some ({ shared with writeCount := shared.writeCount + 1 }, .idle)
  | _ => none

def memento (who : Identities Entity Location Policy Id) (state : MementoState Id Rest) :
    Pc Entity Location Policy Id Rest → Option (Pc Entity Location Policy Id Rest)
  | .generate attempt (next :: rest) =>
      some (.generate
        { attempt with persisterDelta := attempt.persisterDelta.addMemento who state next } rest)
  | _ => none

/-- The attempts that call something that may throw. -/
def Pc.throwing : Pc Entity Location Policy Id Rest →
    Option (Attempt Entity Location Policy Id Rest)
  | .generate attempt (_ :: _) => some attempt
  | .delta attempt => some attempt
  | _ => none

variable [DecidableEq Thread]

def State.goto (state : State Entity Location Policy Id Rest Thread) (thread : Thread)
    (shared : Shared Entity Location Policy Id Rest) (next : Pc Entity Location Policy Id Rest) :
    State Entity Location Policy Id Rest Thread :=
  { shared := shared, pc := Function.update state.pc thread next }

def step (who : Identities Entity Location Policy Id)
    (state : State Entity Location Policy Id Rest Thread) :
    Action Entity Location Policy Id Rest Thread →
      Option (State Entity Location Policy Id Rest Thread)
  | .notify notification =>
      some { state with shared := state.shared.notify who notification }
  | .stop => some { state with shared := { state.shared with running := false } }
  | .persistNow thread =>
      match state.pc thread with
      | .idle =>
          some (state.goto thread state.shared
            (if state.shared.running then .switchDelta else .idle))
      | _ => none
  | .next thread =>
      (exec state.shared (state.pc thread)).map fun moved => state.goto thread moved.1 moved.2
  | .memento thread answer =>
      (memento who answer (state.pc thread)).map (state.goto thread state.shared)
  -- The exception leaves `persistNow`, and the local variables go with it.
  | .throws thread =>
      (state.pc thread).throwing.map fun _ => state.goto thread state.shared .idle

/-- `isActive` asks for a persister too; the listener is constructed with one. -/
def listener (who : Identities Entity Location Policy Id) :
    System (State Entity Location Policy Id Rest Thread)
      (Action Entity Location Policy Id Rest Thread) where
  initial :=
    { shared :=
        { running := true
          deltaCollector := .empty
          writeCount := 0
          notified := []
          accepted := [] }
      pc := fun _ => .idle }
  step := step who

end PeriodicDeltaChangeListener
end Brooklyn
