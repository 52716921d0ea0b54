import Brooklyn.DynamicGroup
import Brooklyn.Transition

/-!
`ItemsInContainersGroup`: the dynamic group of the items whose container is a member of a group
of containers. The group is managed and running; its listener of the entity set is called while
an entity is added or taken out, and the events of its subscriptions are handled one at a time
in the order of their publication. Updates of `CONTAINER` may overlap; what an entity publishes
before it is managed, and after it has stopped, waits in a queue.
-/

namespace Brooklyn
namespace ItemsInContainersGroup
open Transition

structure ItemKinds (Entity : Type) where
  isMovable : Entity → Bool
  itemFilter : Entity → Bool

/-- Where the management support of an entity is: the entity is one of the managed ones in
`managed` and `started`, and its own queue takes what it publishes in `nonDeployment` only. -/
inductive Stage where
  | nonDeployment
  | starting
  | managed
  | started
  | stopping
deriving DecidableEq

inductive SetContainers where
  | beginning
  | containerGroup
  | subscribedToAdded
  | subscribedToRemoved
  | subscribedToContainer
  | finished
deriving DecidableEq

inductive Event (Entity : Type) where
  | memberAdded (member : Entity)
  | memberRemoved (member : Entity)
  | container (source : Entity) (value : Option Entity)
deriving DecidableEq

/-- `containers` are the members of the container group. `publishing` has the updates of
`CONTAINER` that are put and not yet published, `queued` what waits for an entity to start. -/
structure State (Entity : Type) where
  containers : LinkedSet Entity
  entities : LinkedSet Entity
  stage : Entity → Stage
  container : Entity → Option Entity
  publishing : Entity → List (Option Entity)
  queued : Entity → List (Option Entity)
  inFlight : List (Event Entity)
  group : DynamicGroup Entity Unit Unit Unit
  setContainers : SetContainers

/-- `publish` is of one of the updates that are put. -/
inductive Action (Entity : Type) where
  | addContainer (member : Entity)
  | removeContainer (member : Entity)
  | put (item : Entity) (value : Option Entity)
  | publish (item : Entity) (which : Nat)
  | onManagementStarting (entity : Entity)
  | manage (entity : Entity)
  | onManagementStarted (entity : Entity)
  | unmanage (entity : Entity)
  | onManagementStopped (entity : Entity)
  | deliver
  | setContainers

variable {Entity : Type} [DecidableEq Entity] (kinds : ItemKinds Entity) (self : Entity)

def acceptsItem (state : State Entity) (e : Entity) (c : Option Entity) : Bool :=
  state.setContainers ≠ .beginning &&
    c.any fun c => kinds.itemFilter e && decide (c ∈ state.containers)

def acceptsEntity (state : State Entity) (e : Entity) : Bool :=
  kinds.isMovable e && acceptsItem kinds state e (state.container e)

def rescanEntities (state : State Entity) : State Entity :=
  { state with
    group := state.group.rescanEntities self
      ⟨true, true, state.entities.elements, fun _ => acceptsEntity kinds state⟩ }

def onItemMoved (state : State Entity) (item : Entity) (container : Option Entity) :
    State Entity :=
  if state.group.hasMember self item then
    if acceptsItem kinds state item container then state
    else { state with group := state.group.removeMember self item }
  else if acceptsItem kinds state item container then
    { state with group := state.group.addMember self item }
  else state

/-- The cast of a source that is not `Movable` throws. -/
def onEvent (state : State Entity) : Event Entity → State Entity
  | .memberAdded _ => rescanEntities kinds self state
  | .memberRemoved _ => rescanEntities kinds self state
  | .container source value =>
      if kinds.isMovable source then onItemMoved kinds self state source value else state

def hearsAdded : SetContainers → Bool
  | .beginning | .containerGroup => false
  | _ => true

def hearsRemoved : SetContainers → Bool
  | .beginning | .containerGroup | .subscribedToAdded => false
  | _ => true

def hearsContainer : SetContainers → Bool
  | .subscribedToContainer | .finished => true
  | _ => false

/-- The events that reach the group of what an entity publishes. -/
def heard (state : State Entity) (item : Entity) (values : List (Option Entity)) :
    List (Event Entity) :=
  if hearsContainer state.setContainers then values.map (.container item) else []

def setContainersStep (state : State Entity) : Option (State Entity) :=
  match state.setContainers with
  | .beginning => some { state with setContainers := .containerGroup }
  | .containerGroup => some { state with setContainers := .subscribedToAdded }
  | .subscribedToAdded => some { state with setContainers := .subscribedToRemoved }
  | .subscribedToRemoved => some { state with setContainers := .subscribedToContainer }
  | .subscribedToContainer =>
      some { rescanEntities kinds self state with setContainers := .finished }
  | .finished => none

def step (state : State Entity) : Action Entity → Option (State Entity)
  | .addContainer member =>
      if member ∈ state.containers then none
      else some { state with
        containers := state.containers.add member
        inFlight :=
          if hearsAdded state.setContainers then state.inFlight ++ [.memberAdded member]
          else state.inFlight }
  | .removeContainer member =>
      if member ∈ state.containers then some { state with
        containers := state.containers.remove member
        inFlight :=
          if hearsRemoved state.setContainers then state.inFlight ++ [.memberRemoved member]
          else state.inFlight }
      else none
  | .put item value =>
      some { state with
        container := Function.update state.container item value
        publishing := Function.update state.publishing item (state.publishing item ++ [value]) }
  | .publish item which =>
      (state.publishing item)[which]?.map fun value =>
        let taken := { state with
          publishing :=
            Function.update state.publishing item ((state.publishing item).eraseIdx which) }
        if state.stage item = .nonDeployment then { taken with
          queued := Function.update state.queued item (state.queued item ++ [value]) }
        else { taken with inFlight := state.inFlight ++ heard state item [value] }
  | .onManagementStarting entity =>
      if state.stage entity = .nonDeployment then
        some { state with stage := Function.update state.stage entity .starting }
      else none
  | .manage entity =>
      if state.stage entity = .starting then some { state with
        stage := Function.update state.stage entity .managed
        entities := state.entities.add entity
        group := state.group.notify self (.itemAdded entity fun _ => acceptsEntity kinds state) }
      else none
  | .onManagementStarted entity =>
      if state.stage entity = .managed then some { state with
        stage := Function.update state.stage entity .started
        queued := Function.update state.queued entity []
        inFlight := state.inFlight ++ heard state entity (state.queued entity) }
      else none
  | .unmanage entity =>
      if state.stage entity = .started then some { state with
        stage := Function.update state.stage entity .stopping
        entities := state.entities.remove entity
        group := state.group.notify self (.itemRemoved entity) }
      else none
  | .onManagementStopped entity =>
      if state.stage entity = .stopping then
        some { state with stage := Function.update state.stage entity .nonDeployment }
      else none
  | .deliver =>
      match state.inFlight with
      | [] => none
      | event :: rest => some (onEvent kinds self { state with inFlight := rest } event)
  | .setContainers => setContainersStep kinds self state

/-- The group when its management has started; there is no container group yet. -/
def managedGroup : DynamicGroup Entity Unit Unit Unit :=
  (DynamicGroup.created ⟨fun _ => .empty, fun _ => .empty, []⟩ (some ())
    ).onManagementBecomingMaster self ⟨true, true, [], fun _ _ => false⟩

def following : System (State Entity) (Action Entity) where
  initial :=
    { containers := .empty, entities := .empty, stage := fun _ => .nonDeployment,
      container := fun _ => none, publishing := fun _ => [], queued := fun _ => [],
      inFlight := [], group := managedGroup self, setContainers := .beginning }
  step := step kinds self

structure Quiescent (state : State Entity) : Prop where
  ended : state.setContainers = .finished
  settled : ∀ entity, state.stage entity = .nonDeployment ∨ state.stage entity = .started
  updated : ∀ item, state.publishing item = []
  delivered : state.inFlight = []

/-- The members are the managed items that are in a container of the container group. -/
def Exact (state : State Entity) : Prop :=
  ∀ item, item ∈ state.group.members self ↔
    item ∈ state.entities ∧ kinds.isMovable item = true ∧ kinds.itemFilter item = true ∧
      ∃ container ∈ state.containers, state.container item = some container

/-- The event is about the item, or has all the entities scanned. -/
def concerns (item : Entity) : Event Entity → Bool
  | .memberAdded _ => true
  | .memberRemoved _ => true
  | .container source _ => source = item

/-- Something is still to come that has the item looked at again: a later event, an update or a
queue that will be published while the item is managed, or the scan of `setContainers`. -/
def due (state : State Entity) (rest : List (Event Entity)) (item : Entity) : Bool :=
  rest.any (concerns item) ||
    (!(state.publishing item).isEmpty &&
      decide (state.stage item ∈ [Stage.starting, .managed, .started])) ||
    (!(state.queued item).isEmpty && decide (state.stage item ∈ [Stage.starting, .managed])) ||
    decide (state.setContainers ≠ .finished)

/-- A `CONTAINER` event that is the last for now puts an item into the group only if the item is
managed, and says of an item that is managed whether its present container is a member. -/
def orderly (state : State Entity) : Action Entity → Bool
  | .deliver =>
      match state.inFlight with
      | .container source value :: rest =>
          !kinds.isMovable source || due state rest source ||
            acceptsItem kinds state source value ==
              (decide (source ∈ state.entities) &&
                acceptsItem kinds state source (state.container source))
      | _ => true
  | _ => true

end ItemsInContainersGroup
end Brooklyn
