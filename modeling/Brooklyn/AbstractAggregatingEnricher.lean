import Brooklyn.LinkedCollections
import Brooklyn.Transition

/-!
`AbstractAggregatingEnricher` over all members: the thread of `setEntity`, the thread that
delivers the events of the enricher in order, members that join and leave the group, and
updates of the source sensor, which may overlap. `addProducer` and `removeProducer` first change
the subscriptions and then, holding the lock of the values, the map. Events that are queued are
delivered also after the enricher has unsubscribed. There are no hard-coded producers.
-/

namespace Brooklyn.AbstractAggregatingEnricher
open Transition

/-- `entity` is the group that the enricher is set to. -/
structure Enricher (Entity Value : Type) where
  entity : Entity
  filter : Entity → Bool
  defaultValue : Option Value

inductive Event (Entity Value : Type) where
  | memberAdded (member : Entity)
  | memberRemoved (member : Entity)
  | updated (source : Entity) (value : Value)
deriving DecidableEq

/-- A call that has changed the subscriptions and not yet the map. -/
inductive Handler (Entity : Type) where
  | addProducer (producer : Entity)
  | removeProducer (producer : Entity)
deriving DecidableEq

/-- `scanning` loops over the members that it found; `addProducer` is in the call of one. -/
inductive SetEntity (Entity : Type) where
  | beginning
  | subscribedToAdded
  | subscribedToRemoved
  | scanning (rest : List Entity)
  | addProducer (producer : Entity) (rest : List Entity)
deriving DecidableEq

/-- `publishing` has the updates that are put and not yet published; `subscriptions` counts those
to the source sensor of a producer. A value of the map can be null. -/
structure State (Entity Value : Type) where
  members : LinkedSet Entity
  sensorValue : Entity → Option Value
  publishing : Entity → List Value
  inFlight : List (Event Entity Value)
  hearsAdded : Bool
  hearsRemoved : Bool
  subscriptions : Entity → Nat
  values : LinkedMap Entity (Option Value)
  setEntity : SetEntity Entity
  delivering : Option (Handler Entity)

inductive Action (Entity Value : Type) where
  | join (member : Entity)
  | leave (member : Entity)
  | put (producer : Entity) (value : Value)
  | publish (producer : Entity) (which : Nat)
  | deliver
  | handle
  | setEntity

variable {Entity Value : Type} [DecidableEq Entity] (enricher : Enricher Entity Value)

/-- What a producer counts with. -/
def current (state : State Entity Value) (producer : Entity) : Option Value :=
  (state.sensorValue producer).or enricher.defaultValue

section Handlers

def subscribe (producer : Entity) (state : State Entity Value) : State Entity Value :=
  { state with
    subscriptions :=
      Function.update state.subscriptions producer (state.subscriptions producer + 1) }

/-- The subscriptions to the group are among those to a producer that is the group itself. -/
def unsubscribe (producer : Entity) (state : State Entity Value) : State Entity Value :=
  { state with
    subscriptions := Function.update state.subscriptions producer 0
    hearsAdded := state.hearsAdded && producer ≠ enricher.entity
    hearsRemoved := state.hearsRemoved && producer ≠ enricher.entity }

/-- The second half of `addProducer`; a value that is there and not null stays. -/
def initialValue (producer : Entity) (state : State Entity Value) : State Entity Value :=
  if (state.values.get producer).join.isNone then
    { state with values := state.values.put producer (current enricher state producer) }
  else state

def removeValue (producer : Entity) (state : State Entity Value) : State Entity Value :=
  { state with values := state.values.remove producer }

def onEvent (e : Entity) (value : Value) (state : State Entity Value) : State Entity Value :=
  if (state.values.get e).isSome then { state with values := state.values.put e (some value) }
  else state

end Handlers

/-- An event of the head of the queue is handled, or its handler begins. -/
def deliver (state : State Entity Value) : Event Entity Value → State Entity Value
  | .memberAdded member =>
      if enricher.filter member then
        { subscribe member state with delivering := some (.addProducer member) }
      else state
  | .memberRemoved member =>
      { unsubscribe enricher member state with delivering := some (.removeProducer member) }
  | .updated source value => onEvent source value state

def handle (state : State Entity Value) : Handler Entity → State Entity Value
  | .addProducer producer => { initialValue enricher producer state with delivering := none }
  | .removeProducer producer => { removeValue producer state with delivering := none }

def setEntityStep (state : State Entity Value) : Option (State Entity Value) :=
  match state.setEntity with
  | .beginning => some { state with hearsAdded := true, setEntity := .subscribedToAdded }
  | .subscribedToAdded =>
      some { state with hearsRemoved := true, setEntity := .subscribedToRemoved }
  | .subscribedToRemoved => some { state with setEntity := .scanning state.members.elements }
  | .scanning [] => none
  | .scanning (member :: rest) =>
      some (if enricher.filter member then
        { subscribe member state with setEntity := .addProducer member rest }
      else { state with setEntity := .scanning rest })
  | .addProducer producer rest =>
      some { initialValue enricher producer state with setEntity := .scanning rest }

def step (state : State Entity Value) : Action Entity Value → Option (State Entity Value)
  | .join member =>
      if member ∈ state.members then none
      else some { state with
        members := state.members.add member
        inFlight :=
          if state.hearsAdded then state.inFlight ++ [.memberAdded member] else state.inFlight }
  | .leave member =>
      if member ∈ state.members then some { state with
        members := state.members.remove member
        inFlight :=
          if state.hearsRemoved then state.inFlight ++ [.memberRemoved member]
          else state.inFlight }
      else none
  | .put producer value =>
      some { state with
        sensorValue := Function.update state.sensorValue producer (some value)
        publishing :=
          Function.update state.publishing producer (state.publishing producer ++ [value]) }
  | .publish producer which =>
      (state.publishing producer)[which]?.map fun value =>
        { state with
          publishing := Function.update state.publishing producer
            ((state.publishing producer).eraseIdx which)
          inFlight := state.inFlight ++
            List.replicate (state.subscriptions producer) (.updated producer value) }
  | .deliver =>
      match state.delivering, state.inFlight with
      | none, event :: rest => some (deliver enricher { state with inFlight := rest } event)
      | _, _ => none
  | .handle => state.delivering.map (handle enricher state)
  | .setEntity => setEntityStep enricher state

def aggregating : System (State Entity Value) (Action Entity Value) where
  initial :=
    { members := .empty, sensorValue := fun _ => none, publishing := fun _ => [], inFlight := [],
      hearsAdded := false, hearsRemoved := false, subscriptions := fun _ => 0, values := .empty,
      setEntity := .beginning, delivering := none }
  step := step enricher

structure Quiescent (state : State Entity Value) : Prop where
  ended : state.setEntity = .scanning []
  updated : ∀ producer, state.publishing producer = []
  delivered : state.inFlight = []
  handled : state.delivering = none

/-- The values are those of the members that the filter accepts. -/
def Aggregates (state : State Entity Value) : Prop :=
  ∀ producer, state.values.get producer =
    if producer ∈ state.members ∧ enricher.filter producer = true then
      some (current enricher state producer)
    else none

/-- The event sets or removes the value of the producer. -/
def corrects (producer : Entity) : Event Entity Value → Bool
  | .memberAdded _ => false
  | .memberRemoved member => member = producer
  | .updated source _ => source = producer

/-- The value of the producer is still to be set or removed. -/
def corrected (state : State Entity Value) (rest : List (Event Entity Value)) (producer : Entity) :
    Bool :=
  rest.any (corrects producer) || !(state.publishing producer).isEmpty ||
    decide (state.delivering = some (.removeProducer producer))

variable [DecidableEq Value]

/-- An update that the enricher does not hear of is of no producer that it has a value of, or is
nothing new, or is not the last thing to come. -/
def mayPublish (state : State Entity Value) (producer : Entity) (which : Nat) : Bool :=
  0 < state.subscriptions producer ||
    (state.values.get producer).all (· = current enricher state producer) ||
    corrected { state with
      publishing := Function.update state.publishing producer
        ((state.publishing producer).eraseIdx which) } state.inFlight producer

def orderly (state : State Entity Value) : Action Entity Value → Bool
  | .leave member =>
      member ≠ enricher.entity &&
        (!enricher.filter member || state.setEntity ≠ .subscribedToAdded ||
          decide (.memberAdded member ∉ state.inFlight ∧
            state.delivering ≠ some (.addProducer member) ∧ state.values.get member = none))
  | .publish producer which => mayPublish enricher state producer which
  | .deliver =>
      match state.inFlight with
      | .updated source value :: rest =>
          (state.values.get source).isNone || decide (state.sensorValue source = some value) ||
            corrected state rest source
      | _ => true
  | .setEntity =>
      match state.setEntity with
      | .addProducer producer _ =>
          producer ∈ state.members || decide (.memberRemoved producer ∈ state.inFlight) ||
            decide (state.delivering = some (.removeProducer producer))
      | _ => true
  | _ => true

end Brooklyn.AbstractAggregatingEnricher
