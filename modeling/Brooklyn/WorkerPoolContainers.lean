import Brooklyn.LinkedCollections
import Brooklyn.Transition

/-!
The containers of `BalanceableWorkerPool` and of `FollowTheSunPool`, whose handlers differ only
in that the first casts a container: `setContents` on its thread, the thread that delivers the
events of the pool in order, members that join and leave the container group, and updates of
`SERVICE_UP`, one at a time for each entity. Events that are queued are delivered also after
the pool has unsubscribed. The items are left out, and so is what resizes.
-/

namespace Brooklyn

inductive PoolClass where
  | balanceableWorkerPool
  | followTheSunPool
deriving DecidableEq

structure ContainerKinds (Entity : Type) where
  isStartable : Entity → Bool
  isBalanceableContainer : Entity → Bool

variable {Entity : Type}

/-- Whether the cast of a container succeeds. -/
def PoolClass.accepts (kinds : ContainerKinds Entity) (container : Entity) : PoolClass → Bool
  | .balanceableWorkerPool => kinds.isBalanceableContainer container
  | .followTheSunPool => true

namespace WorkerPool
open Transition

inductive PoolEvent (Entity : Type) where
  | memberAdded (member : Entity)
  | memberRemoved (member : Entity)
  | serviceUp (source : Entity) (value : Option Bool)
deriving DecidableEq

inductive ContainerNews (Entity : Type) where
  | containerAdded (container : Entity)
  | containerRemoved (container : Entity)
deriving DecidableEq

/-- `subscriptions` counts those to `SERVICE_UP` of an entity; `emitted` is what the pool has
emitted of containers. -/
structure Pool (Entity : Type) where
  containers : LinkedSet Entity
  subscriptions : Entity → Nat
  emitted : List (ContainerNews Entity)

/-- Where `setContents` is; `processing` loops over the members that it found. -/
inductive SetContents (Entity : Type) where
  | beginning
  | subscribedToAdded
  | subscribedToRemoved
  | processing (rest : List Entity)
  | finished
  | classCast
deriving DecidableEq

/-- `publishing` has the updates of `SERVICE_UP` that are put and not yet published. -/
structure State (Entity : Type) where
  members : LinkedSet Entity
  serviceUp : Entity → Option Bool
  publishing : Entity → Option (Option Bool)
  inFlight : List (PoolEvent Entity)
  pool : Pool Entity
  setContents : SetContents Entity

inductive Action (Entity : Type) where
  | join (member : Entity)
  | leave (member : Entity)
  | put (entity : Entity) (value : Option Bool)
  | publish (entity : Entity)
  | deliver
  | setContents

variable [DecidableEq Entity]

namespace Pool

def empty : Pool Entity := ⟨.empty, fun _ => 0, []⟩

def onContainerUp (newContainer : Entity) (pool : Pool Entity) : Pool Entity :=
  if newContainer ∈ pool.containers then pool
  else { pool with
    containers := pool.containers.add newContainer
    emitted := pool.emitted ++ [.containerAdded newContainer] }

def onContainerDown (oldContainer : Entity) (pool : Pool Entity) : Pool Entity :=
  if oldContainer ∈ pool.containers then { pool with
    containers := pool.containers.remove oldContainer
    emitted := pool.emitted ++ [.containerRemoved oldContainer] }
  else pool

/-- The container should be in the set while it is a member. -/
def wanted (kinds : ContainerKinds Entity) (serviceUp : Option Bool) (container : Entity) : Bool :=
  !kinds.isStartable container || serviceUp = some true

def onContainerAdded (kinds : ContainerKinds Entity) (serviceUp : Entity → Option Bool)
    (newContainer : Entity) (pool : Pool Entity) : Pool Entity :=
  let pool := { pool with
    subscriptions :=
      Function.update pool.subscriptions newContainer (pool.subscriptions newContainer + 1) }
  if wanted kinds (serviceUp newContainer) newContainer then pool.onContainerUp newContainer
  else pool

def onContainerRemoved (oldContainer : Entity) (pool : Pool Entity) : Pool Entity :=
  { pool with subscriptions := Function.update pool.subscriptions oldContainer 0
  }.onContainerDown oldContainer

/-- A value that is null throws where it is unboxed. -/
def onEvent (kinds : ContainerKinds Entity) (poolClass : PoolClass)
    (serviceUp : Entity → Option Bool) (pool : Pool Entity) : PoolEvent Entity → Pool Entity
  | .memberAdded member =>
      if poolClass.accepts kinds member then pool.onContainerAdded kinds serviceUp member else pool
  | .memberRemoved member =>
      if poolClass.accepts kinds member then pool.onContainerRemoved member else pool
  | .serviceUp _ none => pool
  | .serviceUp source (some true) => pool.onContainerUp source
  | .serviceUp source (some false) => pool.onContainerDown source

end Pool

variable (kinds : ContainerKinds Entity) (poolClass : PoolClass)

def hearsAdded : SetContents Entity → Bool
  | .beginning => false
  | _ => true

def hearsRemoved : SetContents Entity → Bool
  | .beginning | .subscribedToAdded => false
  | _ => true

def setContentsStep (state : State Entity) : Option (State Entity) :=
  match state.setContents with
  | .beginning => some { state with setContents := .subscribedToAdded }
  | .subscribedToAdded => some { state with setContents := .subscribedToRemoved }
  | .subscribedToRemoved => some { state with setContents := .processing state.members.elements }
  | .processing [] => some { state with setContents := .finished }
  | .processing (existing :: rest) =>
      some (if poolClass.accepts kinds existing then
        { state with
          pool := state.pool.onContainerAdded kinds state.serviceUp existing
          setContents := .processing rest }
      else { state with setContents := .classCast })
  | .finished | .classCast => none

def step (state : State Entity) : Action Entity → Option (State Entity)
  | .join member =>
      if member ∈ state.members then none
      else some { state with
        members := state.members.add member
        inFlight :=
          if hearsAdded state.setContents then state.inFlight ++ [.memberAdded member]
          else state.inFlight }
  | .leave member =>
      if member ∈ state.members then some { state with
        members := state.members.remove member
        inFlight :=
          if hearsRemoved state.setContents then state.inFlight ++ [.memberRemoved member]
          else state.inFlight }
      else none
  | .put entity value =>
      match state.publishing entity with
      | some _ => none
      | none =>
          some { state with
            serviceUp := Function.update state.serviceUp entity value
            publishing := Function.update state.publishing entity (some value) }
  | .publish entity =>
      (state.publishing entity).map fun value =>
        { state with
          publishing := Function.update state.publishing entity none
          inFlight := state.inFlight ++
            List.replicate (state.pool.subscriptions entity) (.serviceUp entity value) }
  | .deliver =>
      match state.inFlight with
      | [] => none
      | event :: rest =>
          some { state with
            inFlight := rest
            pool := state.pool.onEvent kinds poolClass state.serviceUp event }
  | .setContents => setContentsStep kinds poolClass state

def tracking (serviceUp : Entity → Option Bool) : System (State Entity) (Action Entity) where
  initial :=
    { members := .empty, serviceUp := serviceUp, publishing := fun _ => none, inFlight := [],
      pool := .empty, setContents := .beginning }
  step := step kinds poolClass

structure Quiescent (state : State Entity) : Prop where
  ended : state.setContents = .finished ∨ state.setContents = .classCast
  updated : ∀ entity, state.publishing entity = none
  delivered : state.inFlight = []

/-- One event after those that alternate; the flag says whether the container is there. -/
def follow (container : Entity) (there : Bool) : ContainerNews Entity → Option Bool
  | .containerAdded other =>
      if other = container then (if there then none else some true) else some there
  | .containerRemoved other =>
      if other = container then (if there then some false else none) else some there

/-- The events of a container alternate, and leave it in the set exactly if it should be. -/
def Tracks (state : State Entity) : Prop :=
  ∀ container,
    (container ∈ state.pool.containers ↔ container ∈ state.members ∧
      Pool.wanted kinds (state.serviceUp container) container = true) ∧
    state.pool.emitted.foldlM (follow container) false =
      some (decide (container ∈ state.pool.containers))

/-- The event sets, by itself, whether the entity is a container. -/
def decides (entity : Entity) : PoolEvent Entity → Bool
  | .memberAdded _ => false
  | .memberRemoved member => member = entity
  | .serviceUp source _ => source = entity

/-- A `SERVICE_UP` event that is applied says what holds now of an entity that the pool is
subscribed to, or does not put the entity into the set; or a later event decides. -/
def mayApply (state : State Entity) (rest : List (PoolEvent Entity)) (source : Entity)
    (value : Option Bool) : Bool :=
  rest.any (decides source) ||
    ((state.publishing source).isSome && 0 < state.pool.subscriptions source) ||
      (value.isSome || source ∉ state.pool.containers) &&
        if 0 < state.pool.subscriptions source then
          (decide (value = some true) == decide (state.serviceUp source = some true)) &&
            (kinds.isStartable source || value = some true)
        else decide (value ≠ some true)

def orderly (state : State Entity) : Action Entity → Bool
  | .join member => poolClass.accepts kinds member
  | .leave member =>
      decide (state.setContents = .subscribedToAdded →
        .memberAdded member ∉ state.inFlight ∧ state.pool.subscriptions member = 0)
  | .deliver =>
      match state.inFlight with
      | .serviceUp source value :: rest => mayApply kinds state rest source value
      | _ => true
  | .setContents =>
      match state.setContents with
      | .processing (existing :: _) =>
          existing ∈ state.members || decide (.memberRemoved existing ∈ state.inFlight)
      | _ => true
  | _ => true

end WorkerPool
end Brooklyn
