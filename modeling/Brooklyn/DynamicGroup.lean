import Brooklyn.AbstractGroup
import Brooklyn.LocalSubscriptionManager

/-!
`DynamicGroup`: a group whose members are the entities that a filter accepts. It hears of
entities from the management context, which tells its listeners what appears and disappears, and
from the events of its subscriptions. Calls and notifications come one at a time. `apply` is what
a filter says of an entity at the time of a notification. Memberships change as the calls of
`AbstractGroup` do.
-/

namespace Brooklyn

variable {Ref Sensor Value Filter : Type}

structure GroupSubscription (Ref Sensor Value : Type) where
  producer : Option Ref
  sensor : Option Sensor
  filter : SensorEvent Ref Sensor Value → Bool

/-- `entitySetListeners` are those of the management context that this group has made. -/
structure DynamicGroup (Ref Sensor Value Filter : Type) where
  memberships : Memberships Ref
  entityFilter : Option Filter
  running : Bool
  setChangeListener : Option Nat
  listenersMade : Nat
  entitySetListeners : List Nat
  subscriptions : List (GroupSubscription Ref Sensor Value)

/-- What a scan finds. -/
structure ManagedEntities (Ref Filter : Type) where
  deployed : Bool
  inApplication : Bool
  entities : List Ref
  apply : Filter → Ref → Bool

namespace DynamicGroup
variable [DecidableEq Ref] [DecidableEq Sensor] (self : Ref)

def created (memberships : Memberships Ref) (entityFilter : Option Filter) :
    DynamicGroup Ref Sensor Value Filter :=
  ⟨memberships, entityFilter, true, none, 0, [], []⟩

section Members

def members (group : DynamicGroup Ref Sensor Value Filter) : LinkedSet Ref :=
  group.memberships.members self

def hasMember (e : Ref) (group : DynamicGroup Ref Sensor Value Filter) : Bool :=
  decide (e ∈ group.members self)

def addMember (member : Ref) (group : DynamicGroup Ref Sensor Value Filter) :
    DynamicGroup Ref Sensor Value Filter :=
  { group with memberships := group.memberships.change (.add self member) }

def removeMember (member : Ref) (group : DynamicGroup Ref Sensor Value Filter) :
    DynamicGroup Ref Sensor Value Filter :=
  { group with memberships := group.memberships.change (.remove self member) }

variable (apply : Filter → Ref → Bool)

def acceptsEntity (e : Ref) (group : DynamicGroup Ref Sensor Value Filter) : Bool :=
  group.entityFilter.any fun entityFilter => apply entityFilter e

def onEntityAdded (item : Ref) (group : DynamicGroup Ref Sensor Value Filter) :
    DynamicGroup Ref Sensor Value Filter :=
  if group.acceptsEntity apply item then group.addMember self item else group

def onEntityRemoved (item : Ref) (group : DynamicGroup Ref Sensor Value Filter) :
    DynamicGroup Ref Sensor Value Filter :=
  group.removeMember self item

def onEntityChanged (item : Ref) (group : DynamicGroup Ref Sensor Value Filter) :
    DynamicGroup Ref Sensor Value Filter :=
  let accepts := group.acceptsEntity apply item
  let has := group.hasMember self item
  if has && !accepts then group.removeMember self item
  else if !has && accepts then group.addMember self item
  else group

end Members

section Notifications

/-- The events that reach the listener of a subscription. -/
def reaches (subscription : GroupSubscription Ref Sensor Value)
    (event : SensorEvent Ref Sensor Value) : Bool :=
  (subscription.producer.isNone || subscription.producer == event.source) &&
    (subscription.sensor.isNone || subscription.sensor == event.sensor)

/-- `onEvent` of a listener. For an event without a source there is nothing to add or remove. -/
def onEvent (apply : Filter → Ref → Bool) (subscription : GroupSubscription Ref Sensor Value)
    (event : SensorEvent Ref Sensor Value) (group : DynamicGroup Ref Sensor Value Filter) :
    DynamicGroup Ref Sensor Value Filter :=
  if subscription.filter event then
    match event.source with
    | some source => group.onEntityChanged self apply source
    | none => group
  else group

inductive Notification (Ref Sensor Value Filter : Type) where
  | itemAdded (item : Ref) (apply : Filter → Ref → Bool)
  | itemRemoved (item : Ref)
  | event (subscription : Nat) (event : SensorEvent Ref Sensor Value)
      (apply : Filter → Ref → Bool)

def notify (group : DynamicGroup Ref Sensor Value Filter) :
    Notification Ref Sensor Value Filter → DynamicGroup Ref Sensor Value Filter
  | .itemAdded item apply =>
      group.entitySetListeners.foldl (fun group _ => group.onEntityAdded self apply item) group
  | .itemRemoved item =>
      group.entitySetListeners.foldl (fun group _ => group.onEntityRemoved self item) group
  | .event number event apply =>
      match group.subscriptions[number]? with
      | some subscription =>
          if reaches subscription event then group.onEvent self apply subscription event else group
      | none => group

end Notifications

section Calls

def rescanEntities (found : ManagedEntities Ref Filter)
    (group : DynamicGroup Ref Sensor Value Filter) : DynamicGroup Ref Sensor Value Filter :=
  if !group.running || !found.deployed then group
  else if group.entityFilter.isNone then group
  else if !found.inApplication then group
  else
    let currentMembers := (group.members self).elements
    let accepted := found.entities.filter fun it => group.acceptsEntity found.apply it
    let toRemove := currentMembers.filter fun it => !accepted.contains it
    let added := accepted.foldl (fun group it =>
      if currentMembers.contains it then group else group.addMember self it) group
    toRemove.foldl (fun group it => group.removeMember self it) added

def setEntityFilter (filter : Option Filter) (found : ManagedEntities Ref Filter)
    (group : DynamicGroup Ref Sensor Value Filter) : DynamicGroup Ref Sensor Value Filter :=
  { group with entityFilter := filter }.rescanEntities self found

def addSubscription (subscription : GroupSubscription Ref Sensor Value)
    (group : DynamicGroup Ref Sensor Value Filter) : DynamicGroup Ref Sensor Value Filter :=
  { group with subscriptions := group.subscriptions ++ [subscription] }

def onManagementBecomingMaster (found : ManagedEntities Ref Filter)
    (group : DynamicGroup Ref Sensor Value Filter) : DynamicGroup Ref Sensor Value Filter :=
  if group.setChangeListener.isSome then group
  else
    { group with
      setChangeListener := some group.listenersMade
      listenersMade := group.listenersMade + 1
      entitySetListeners := group.entitySetListeners ++ [group.listenersMade]
      }.rescanEntities self found

def onManagementNoLongerMaster (group : DynamicGroup Ref Sensor Value Filter) :
    DynamicGroup Ref Sensor Value Filter :=
  match group.setChangeListener with
  | none => group
  | some listener =>
      { group with
        setChangeListener := none
        entitySetListeners := group.entitySetListeners.erase listener }

/-- The listener of the entity set is taken out, the subscriptions stay. -/
def stop (group : DynamicGroup Ref Sensor Value Filter) : DynamicGroup Ref Sensor Value Filter :=
  { group with
    running := false
    entitySetListeners :=
      match group.setChangeListener with
      | some listener => group.entitySetListeners.erase listener
      | none => group.entitySetListeners }

inductive Call (Ref Sensor Value Filter : Type) where
  | notify (notification : Notification Ref Sensor Value Filter)
  | addSubscription (subscription : GroupSubscription Ref Sensor Value)
  | setEntityFilter (filter : Option Filter) (found : ManagedEntities Ref Filter)
  | rescanEntities (found : ManagedEntities Ref Filter)
  | onManagementBecomingMaster (found : ManagedEntities Ref Filter)
  | onManagementNoLongerMaster
  | stop

def perform (group : DynamicGroup Ref Sensor Value Filter) :
    Call Ref Sensor Value Filter → DynamicGroup Ref Sensor Value Filter
  | .notify notification => group.notify self notification
  | .addSubscription subscription => group.addSubscription subscription
  | .setEntityFilter filter found => group.setEntityFilter self filter found
  | .rescanEntities found => group.rescanEntities self found
  | .onManagementBecomingMaster found => group.onManagementBecomingMaster self found
  | .onManagementNoLongerMaster => group.onManagementNoLongerMaster
  | .stop => group.stop

def run (calls : List (Call Ref Sensor Value Filter))
    (group : DynamicGroup Ref Sensor Value Filter) : DynamicGroup Ref Sensor Value Filter :=
  calls.foldl (perform self) group

/-- What happens after a call of `stop`. -/
def runNotifications (notifications : List (Notification Ref Sensor Value Filter))
    (group : DynamicGroup Ref Sensor Value Filter) : DynamicGroup Ref Sensor Value Filter :=
  notifications.foldl (notify self) group

end Calls

end DynamicGroup
end Brooklyn
