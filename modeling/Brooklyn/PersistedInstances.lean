import Brooklyn.MementoPersisters
import Brooklyn.PersistAttempts

/-!
Notifications and flushes, and what the persisters then hold. A flush is a `persistNow` whose
calls succeed, taken as one step: what is notified while it builds the mementos goes to the
collector of the next period. Both persisters get the emitted delta. The listener is active
throughout.

`managed` is what the notifications say: an instance is managed from `onManaged` to
`onUnmanaged`. `period` has the changes notified since the last flush and `flushed` the
instances that were managed then.
-/

namespace Brooklyn
open SingleUseFiles (Slot)

variable {Entity Location Policy Id Rest Thread : Type}

/-- The instances that are managed. -/
inductive Item (Entity Location : Type) where
  | entity (entity : Entity)
  | location (location : Location)
deriving DecidableEq

namespace Item

def changed : Item Entity Location → Change Entity Location Policy
  | .entity self => .entityChanged self
  | .location self => .locationChanged self

def removed : Item Entity Location → Change Entity Location Policy
  | .entity self => .entityRemoved self
  | .location self => .locationRemoved self

def fileName (who : Identities Entity Location Policy Id) : Item Entity Location → FileName Id
  | .entity self => (.entities, who.entity self)
  | .location self => (.locations, who.location self)

theorem fileName_injective (who : Identities Entity Location Policy Id) :
    Function.Injective (fileName who) := by
  intro item other same
  cases item with
  | entity self =>
    cases other with
    | entity other => exact congrArg _ (who.entityUnique (Prod.mk.inj same).2)
    | location other => cases (Prod.mk.inj same).1
  | location self =>
    cases other with
    | entity other => cases (Prod.mk.inj same).1
    | location other => exact congrArg _ (who.locationUnique (Prod.mk.inj same).2)

end Item

/-- The instance that a change is about. -/
def Change.item : Change Entity Location Policy → Option (Item Entity Location)
  | .entityChanged entity | .entityRemoved entity => some (.entity entity)
  | .locationChanged location | .locationRemoved location => some (.location location)
  | .policyChanged _ => none

def Instance.fileName (who : Identities Entity Location Policy Id) :
    Instance Entity Location Policy → FileName Id
  | .location self => (.locations, who.location self)
  | .entity self => (.entities, who.entity self)
  | .policy self => (.policies, who.policy self)

namespace DeltaCollector

/-- The delta that `persistNow` emits, given what the instances answer to `getMemento`. -/
def delta (who : Identities Entity Location Policy Id)
    (answer : Instance Entity Location Policy → MementoState Id Rest)
    (collector : DeltaCollector Entity Location Policy Id) : Delta Id Rest :=
  let asked := collector.instances.foldl
    (fun delta one => Delta.addMemento who delta (answer one) one) (Delta.empty : Delta Id Rest)
  asked.setRemoved collector

end DeltaCollector

namespace PersistedInstances
open Transition

structure State (Entity Location Policy Id Rest : Type) where
  deltaCollector : DeltaCollector Entity Location Policy Id
  managed : LinkedSet (Item Entity Location)
  period : List (Change Entity Location Policy)
  flushed : LinkedSet (Item Entity Location)
  memory : MutableBrooklynMemento Id Rest
  files : FileName Id → Slot (Memento Id Rest)

inductive Action (Entity Location Policy Id Rest : Type) where
  | notify (notification : Notification Entity Location Policy)
  | flush (answer : Instance Entity Location Policy → MementoState Id Rest)

/-- The in-memory persister and the one that writes files. -/
inductive Persister where
  | abstract
  | toMultiFile

def contains (memory : MutableBrooklynMemento Id Rest) : FileName Id → Bool
  | (.entities, id) => (memory.entities.get id).isSome
  | (.locations, id) => (memory.locations.get id).isSome
  | (.policies, id) => (memory.policies.get id).isSome

/-- What is in the store of a persister. -/
def State.holds (state : State Entity Location Policy Id Rest) (persister : Persister)
    (name : FileName Id) : Bool :=
  match persister with
  | .abstract => contains state.memory name
  | .toMultiFile => (state.files name).file.isSome

/-- The store contains exactly the entities and locations that were managed at the last
flush. -/
def Follows (who : Identities Entity Location Policy Id) (persister : Persister)
    (state : State Entity Location Policy Id Rest) : Prop :=
  ∀ name : FileName Id, name.1 ≠ .policies →
    (state.holds persister name = true ↔ ∃ item ∈ state.flushed, item.fileName who = name)

variable [DecidableEq Entity] [DecidableEq Location] [DecidableEq Policy] [DecidableEq Id]

def manage (managed : LinkedSet (Item Entity Location)) :
    Notification Entity Location Policy → LinkedSet (Item Entity Location)
  | .onManagedEntity entity _ => managed.add (.entity entity)
  | .onManagedLocation location => managed.add (.location location)
  | .onUnmanagedEntity entity => managed.remove (.entity entity)
  | .onUnmanagedLocation location => managed.remove (.location location)
  | _ => managed

def persistNow (who : Identities Entity Location Policy Id)
    (answer : Instance Entity Location Policy → MementoState Id Rest)
    (state : State Entity Location Policy Id Rest) : State Entity Location Policy Id Rest :=
  let flushed := { state with deltaCollector := .empty, period := [], flushed := state.managed }
  if state.deltaCollector.isEmpty then flushed
  else
    let delta := state.deltaCollector.delta who answer
    { flushed with
      memory := AbstractBrooklynMementoPersister.delta state.memory delta
      files := SingleUseFiles.run state.files (BrooklynMementoPersisterToMultiFile.delta delta) }

def step (who : Identities Entity Location Policy Id)
    (state : State Entity Location Policy Id Rest) :
    Action Entity Location Policy Id Rest → Option (State Entity Location Policy Id Rest)
  | .notify notification =>
      some { state with
        deltaCollector := state.deltaCollector.notify who notification
        managed := manage state.managed notification
        period := state.period ++ notification.changes }
  | .flush answer => some (persistNow who answer state)

omit [DecidableEq Entity] [DecidableEq Location] [DecidableEq Policy] [DecidableEq Id] in
/-- No file has a writer yet. -/
def started (managed : LinkedSet (Item Entity Location)) (memory : MutableBrooklynMemento Id Rest)
    (existing : FileName Id → Option (Memento Id Rest)) :
    State Entity Location Policy Id Rest where
  deltaCollector := .empty
  managed := managed
  period := []
  flushed := managed
  memory := memory
  files := fun name => .unopened (existing name)

/-- What an earlier run left: the instances that are managed, and both stores with exactly
these. -/
structure Restored (Rest : Type) (who : Identities Entity Location Policy Id) where
  managed : LinkedSet (Item Entity Location)
  memory : MutableBrooklynMemento Id Rest
  existing : FileName Id → Option (Memento Id Rest)
  follows : ∀ persister, Follows who persister (started managed memory existing)

def system {who : Identities Entity Location Policy Id} (restored : Restored Rest who) :
    System (State Entity Location Policy Id Rest) (Action Entity Location Policy Id Rest) where
  initial := started restored.managed restored.memory restored.existing
  step := step who

/-- The last change of the period that is about the instance. -/
def lastSaid (item : Item Entity Location) (period : List (Change Entity Location Policy)) :
    Option (Change Entity Location Policy) :=
  (period.filter fun change => change.item = some item).getLast?

def keepsMemento (state : State Entity Location Policy Id Rest) (item : Item Entity Location) :
    Bool :=
  decide (lastSaid item state.period = some item.changed → item ∈ state.managed)

/-- A managed instance was not unmanaged in the period, nor its file ever deleted. One that
is not managed and was changed last was unmanaged earlier in the period, or its file is
deleted already; if it was unmanaged last, then its file has a writer or is not there. -/
def keepsFile (who : Identities Entity Location Policy Id)
    (state : State Entity Location Policy Id Rest) (item : Item Entity Location) : Bool :=
  let slot := state.files (item.fileName who)
  if item ∈ state.managed then
    !slot.isDeleted && !decide (item.removed ∈ state.period)
  else if lastSaid item state.period = some item.changed then
    slot.isDeleted || decide (item.removed ∈ state.period)
  else slot.writer || slot.file.isNone

/-- A flush keeps what it is told about. -/
def keeps (who : Identities Entity Location Policy Id) (persister : Persister)
    (state : State Entity Location Policy Id Rest) :
    Action Entity Location Policy Id Rest → Bool
  | .flush _ => (state.period.filterMap Change.item).all fun item =>
      match persister with
      | .abstract => keepsMemento state item
      | .toMultiFile => keepsFile who state item
  | .notify _ => true

end PersistedInstances
end Brooklyn
