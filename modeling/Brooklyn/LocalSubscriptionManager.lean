import Brooklyn.MapOfSets

/-!
`LocalSubscriptionManager`. A `Subscription` is an object whose equality is that of its
unique id, so objects are numbered as they are made and the collections hold the numbers; an
object of another manager has a number too. Filters are predicates: they return, and what they
look at is given to `publish`. After they have changed the indexes, `subscribe` and
`unsubscribe` look after the scheduler of the tag, which may throw and changes no index; that
is left out, and so are the counters and the flags that nothing reads.
-/

namespace Brooklyn

variable {Entity Sensor Object Predicate : Type}

structure SensorEvent (Entity Sensor Object : Type) where
  source : Option Entity
  sensor : Option Sensor
  value : Object

/-- Those of `subscribeToChildren` and `subscribeToMembers`, and any other predicate. -/
inductive EventFilter (Entity Predicate : Type) where
  | childrenOf (parent : Entity)
  | membersOf (parent : Entity)
  | supplied (predicate : Predicate)

/-- A key that is there may have a null value. -/
structure SubscriptionFlags (Entity Object Predicate : Type) where
  subscriber : Option (Option Object)
  subscriberExecutionManagerTag : Option (Option Object)
  eventFilter : Option (EventFilter Entity Predicate)

inductive DeliveryTag (Object : Type) where
  | supplied (tag : Object)
  | delivery (subscriber : Option Object)
deriving DecidableEq

structure Subscription (Entity Sensor Object Predicate : Type) where
  subscriber : Option Object
  subscriberExecutionManagerTag : Option (DeliveryTag Object)
  subscriberExecutionManagerTagSupplied : Bool
  producer : Option Entity
  sensor : Option Sensor
  listener : Option Object
  eventFilter : Option (EventFilter Entity Predicate)

/-- A task for the execution manager: `onEvent(event)` of the subscription's listener. -/
structure Submission (Entity Sensor Object : Type) where
  tag : Option (DeliveryTag Object)
  subscription : Nat
  event : SensorEvent Entity Sensor Object

structure LocalSubscriptionManager (Entity Sensor Object : Type) where
  allSubscriptions : LinkedSet Nat
  subscriptionsBySubscriber : LinkedMap Object (LinkedSet Nat)
  subscriptionsByToken : LinkedMap (Option Entity × Option Sensor) (LinkedSet Nat)

/-- `made` subscriptions have been made; `submitted` are the tasks given to the execution
manager so far. -/
structure SubscriptionWorld (Entity Sensor Object Predicate : Type) where
  made : Nat
  subscription : Nat → Subscription Entity Sensor Object Predicate
  manager : LocalSubscriptionManager Entity Sensor Object
  submitted : List (Submission Entity Sensor Object)

/-- What the filters find when an event is published. -/
structure Surroundings (Entity Sensor Object Predicate : Type) where
  ownedChildren : Entity → List Entity
  members : Entity → List Entity
  apply : Predicate → SensorEvent Entity Sensor Object → Bool

inductive SubscriptionFault where
  | illegalArgument
  | unsupportedOperation

def SubscriptionFlags.empty : SubscriptionFlags Entity Object Predicate := ⟨none, none, none⟩

namespace Subscription

def create (producer : Option Entity) (sensor : Option Sensor) (listener : Option Object) :
    Subscription Entity Sensor Object Predicate :=
  ⟨none, none, false, producer, sensor, listener, none⟩

def token (s : Subscription Entity Sensor Object Predicate) : Option Entity × Option Sensor :=
  (s.producer, s.sensor)

/-- The subscriber, and the flags without it. -/
def getSubscriber (flags : SubscriptionFlags Entity Object Predicate)
    (s : Subscription Entity Sensor Object Predicate) :
    Option Object × SubscriptionFlags Entity Object Predicate :=
  match s.subscriber with
  | some subscriber => (some subscriber, flags)
  | none =>
      match flags.subscriber with
      | some subscriber => (subscriber, { flags with subscriber := none })
      | none => (s.listener, flags)

/-- The fields that `subscribe` sets. -/
def subscribed (flags : SubscriptionFlags Entity Object Predicate)
    (s : Subscription Entity Sensor Object Predicate) :
    Subscription Entity Sensor Object Predicate :=
  let subscriber := (s.getSubscriber flags).1
  { s with
    subscriber := subscriber
    subscriberExecutionManagerTag :=
      match flags.subscriberExecutionManagerTag with
      | some tag => tag.map .supplied
      | none => some (.delivery subscriber)
    subscriberExecutionManagerTagSupplied := flags.subscriberExecutionManagerTag.isSome
    eventFilter := flags.eventFilter }

end Subscription

namespace EventFilter
variable [DecidableEq Entity]

def accepts (surroundings : Surroundings Entity Sensor Object Predicate)
    (event : SensorEvent Entity Sensor Object) : EventFilter Entity Predicate → Bool
  | .childrenOf parent => event.source.any (· ∈ surroundings.ownedChildren parent)
  | .membersOf parent => event.source.any (· ∈ surroundings.members parent)
  | .supplied predicate => surroundings.apply predicate event

end EventFilter

namespace LocalSubscriptionManager
open MapOfSets
variable [DecidableEq Entity] [DecidableEq Sensor] [DecidableEq Object]

def create : LocalSubscriptionManager Entity Sensor Object := ⟨.empty, .empty, .empty⟩

/-- `subscribe(flags, s)` of a subscription that was made before. -/
def subscribe (flags : SubscriptionFlags Entity Object Predicate) (id : Nat)
    (world : SubscriptionWorld Entity Sensor Object Predicate) :
    SubscriptionWorld Entity Sensor Object Predicate :=
  let s := (world.subscription id).subscribed flags
  { world with
    subscription := Function.update world.subscription id s
    manager :=
      { allSubscriptions := world.manager.allSubscriptions.add id
        subscriptionsByToken := addToMapOfSets world.manager.subscriptionsByToken s.token id
        subscriptionsBySubscriber :=
          match s.subscriber with
          | none => world.manager.subscriptionsBySubscriber
          | some subscriber =>
              addToMapOfSets world.manager.subscriptionsBySubscriber subscriber id } }

def getSubscriptionsForEntitySensor (manager : LocalSubscriptionManager Entity Sensor Object)
    (source : Option Entity) (sensor : Option Sensor) : LinkedSet Nat :=
  (((LinkedSet.empty.addAll (bucket manager.subscriptionsByToken (source, sensor)).elements).addAll
    (bucket manager.subscriptionsByToken (none, sensor)).elements).addAll
    (bucket manager.subscriptionsByToken (source, none)).elements).addAll
    (bucket manager.subscriptionsByToken (none, none)).elements

def getSubscriptionsForSubscriber (manager : LocalSubscriptionManager Entity Sensor Object)
    (subscriber : Object) : LinkedSet Nat :=
  bucket manager.subscriptionsBySubscriber subscriber

def unsubscribe (id : Nat) (world : SubscriptionWorld Entity Sensor Object Predicate) :
    Bool × SubscriptionWorld Entity Sensor Object Predicate :=
  let s := world.subscription id
  (decide (id ∈ world.manager.allSubscriptions),
    { world with
      manager :=
        { allSubscriptions := world.manager.allSubscriptions.remove id
          subscriptionsByToken :=
            (removeFromMapOfCollections world.manager.subscriptionsByToken s.token id).2
          subscriptionsBySubscriber :=
            match s.subscriber with
            | none => world.manager.subscriptionsBySubscriber
            | some subscriber =>
                (removeFromMapOfCollections world.manager.subscriptionsBySubscriber
                  subscriber id).2 } })

def publish (surroundings : Surroundings Entity Sensor Object Predicate)
    (event : SensorEvent Entity Sensor Object)
    (world : SubscriptionWorld Entity Sensor Object Predicate) :
    SubscriptionWorld Entity Sensor Object Predicate :=
  let subs := (world.manager.getSubscriptionsForEntitySensor event.source event.sensor).elements
  let accepting := subs.filter fun id =>
    (world.subscription id).eventFilter.all (EventFilter.accepts surroundings event)
  { world with
    submitted := world.submitted ++ accepting.map fun id =>
      ⟨(world.subscription id).subscriberExecutionManagerTag, id, event⟩ }

end LocalSubscriptionManager

namespace SubscriptionWorld
variable [DecidableEq Entity] [DecidableEq Sensor] [DecidableEq Object]

/-- `new Subscription(producer, sensor, listener)`, numbered `made`. -/
def make (producer : Option Entity) (sensor : Option Sensor) (listener : Option Object)
    (world : SubscriptionWorld Entity Sensor Object Predicate) :
    SubscriptionWorld Entity Sensor Object Predicate :=
  { world with
    made := world.made + 1
    subscription :=
      Function.update world.subscription world.made (.create producer sensor listener) }

def start : SubscriptionWorld Entity Sensor Object Predicate :=
  ⟨0, fun _ => .create none none none, .create, []⟩

end SubscriptionWorld

/-- The methods of `AbstractSubscriptionManager` that subscribe. `flags` is `none` where the caller
gives none: `Collections.emptyMap()`, which cannot be changed. -/
inductive SubscribeCall (Entity Sensor Object Predicate : Type) where
  | subscribe (flags : Option (SubscriptionFlags Entity Object Predicate))
      (producer : Option Entity) (sensor : Option Sensor) (listener : Option Object)
  | subscribeToChildren (flags : Option (SubscriptionFlags Entity Object Predicate))
      (parent : Entity) (sensor : Option Sensor) (listener : Option Object)
  | subscribeToMembers (flags : Option (SubscriptionFlags Entity Object Predicate))
      (parent : Entity) (sensor : Option Sensor) (listener : Option Object)

/-- The arguments of `subscribe(flags, new Subscription(producer, sensor, listener))`. -/
structure SubscribeArguments (Entity Sensor Object Predicate : Type) where
  flags : SubscriptionFlags Entity Object Predicate
  producer : Option Entity
  sensor : Option Sensor
  listener : Option Object

namespace SubscribeCall

/-- `flags.put("eventFilter", eventFilter)` and `subscribe` to any producer. -/
def filtered (flags : Option (SubscriptionFlags Entity Object Predicate))
    (eventFilter : EventFilter Entity Predicate) (sensor : Option Sensor)
    (listener : Option Object) :
    Except SubscriptionFault (SubscribeArguments Entity Sensor Object Predicate) :=
  match flags with
  | none => .error .unsupportedOperation
  | some flags => .ok ⟨{ flags with eventFilter := some eventFilter }, none, sensor, listener⟩

def arguments : SubscribeCall Entity Sensor Object Predicate →
    Except SubscriptionFault (SubscribeArguments Entity Sensor Object Predicate)
  | .subscribe flags producer sensor listener =>
      .ok ⟨flags.getD .empty, producer, sensor, listener⟩
  | .subscribeToChildren flags parent sensor listener =>
      filtered flags (.childrenOf parent) sensor listener
  | .subscribeToMembers flags parent sensor listener =>
      filtered flags (.membersOf parent) sensor listener

end SubscribeCall

namespace LocalSubscriptionManager

/-- A handle is the number of an object, and one that no object has is no `Subscription`. In
`elsewhere` another manager makes a subscription. -/
inductive Call (Entity Sensor Object Predicate : Type) where
  | subscribe (call : SubscribeCall Entity Sensor Object Predicate)
  | unsubscribe (handle : Nat)
  | publish (surroundings : Surroundings Entity Sensor Object Predicate)
      (event : SensorEvent Entity Sensor Object)
  | elsewhere (producer : Option Entity) (sensor : Option Sensor) (listener : Option Object)

variable [DecidableEq Entity] [DecidableEq Sensor] [DecidableEq Object]

def subscribeNew (arguments : SubscribeArguments Entity Sensor Object Predicate)
    (world : SubscriptionWorld Entity Sensor Object Predicate) :
    SubscriptionWorld Entity Sensor Object Predicate :=
  subscribe arguments.flags world.made
    (world.make arguments.producer arguments.sensor arguments.listener)

def perform (world : SubscriptionWorld Entity Sensor Object Predicate) :
    Call Entity Sensor Object Predicate →
      Except SubscriptionFault (SubscriptionWorld Entity Sensor Object Predicate)
  | .subscribe call => call.arguments.map (subscribeNew · world)
  | .unsubscribe handle =>
      if handle < world.made then .ok (unsubscribe handle world).2 else .error .illegalArgument
  | .publish surroundings event => .ok (publish surroundings event world)
  | .elsewhere producer sensor listener => .ok (world.make producer sensor listener)

/-- A call that throws has changed nothing. -/
def next (world : SubscriptionWorld Entity Sensor Object Predicate)
    (call : Call Entity Sensor Object Predicate) :
    SubscriptionWorld Entity Sensor Object Predicate :=
  match perform world call with
  | .ok after => after
  | .error _ => world

end LocalSubscriptionManager
end Brooklyn
