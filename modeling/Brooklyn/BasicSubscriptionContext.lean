import Brooklyn.FailFastIteration
import Brooklyn.SubscriptionRouting

/-!
`BasicSubscriptionContext.unsubscribeAll` over a `LocalSubscriptionManager`. What
`getSubscriptions` gives is the manager's own set of the subscriber, and `unsubscribe` takes
elements out of it; how often each subscriber's set was changed is counted. `unsubscribe`
also sets the scheduler of the tag, which may throw, so the schedulers are part of the state;
clearing a preprocessor throws nothing and nothing here reads it. `tagObject` is the object
that a tag is.
-/

namespace Brooklyn

variable {Entity Sensor Object Predicate Tag : Type}

/-- A `SingleThreadedScheduler`, or a scheduler of a class that is none. -/
inductive SchedulerKind where
  | singleThreaded
  | other
deriving DecidableEq

inductive ContextFault where
  | nullPointer
  | illegalArgument
  | illegalState
  | concurrentModification
deriving DecidableEq

structure ContextWorld (Entity Sensor Object Predicate Tag : Type) where
  subscriptions : SubscriptionWorld Entity Sensor Object Predicate
  changes : Object → Nat
  schedulerByTag : Tag → Option SchedulerKind

abbrev ContextEffect (Entity Sensor Object Predicate Tag Value : Type) : Type :=
  Effect (ContextWorld Entity Sensor Object Predicate Tag) ContextFault Value

/-- `setTaskSchedulerForTag(tag, SingleThreadedScheduler.class)` -/
def setTaskSchedulerForTag [DecidableEq Tag] :
    Option Tag → ContextEffect Entity Sensor Object Predicate Tag Unit
  | none => .throw .nullPointer
  | some tag => do
      match ← Effect.read fun world => world.schedulerByTag tag with
      | some .singleThreaded => pure ()
      | some .other => .throw .illegalState
      | none =>
          Effect.modify fun world =>
            { world with
              schedulerByTag := Function.update world.schedulerByTag tag (some .singleThreaded) }

namespace ContextWorld
open MapOfSets
variable [DecidableEq Entity] [DecidableEq Sensor] [DecidableEq Object]

/-- The indexes as `unsubscribe` leaves them. -/
def unsubscribed (id : Nat) (world : ContextWorld Entity Sensor Object Predicate Tag) :
    ContextWorld Entity Sensor Object Predicate Tag :=
  { world with
    subscriptions := (LocalSubscriptionManager.unsubscribe id world.subscriptions).2
    changes :=
      match (world.subscriptions.subscription id).subscriber with
      | none => world.changes
      | some subscriber =>
          if (removeFromMapOfCollections world.subscriptions.manager.subscriptionsBySubscriber
            subscriber id).1 then
            Function.update world.changes subscriber (world.changes subscriber + 1)
          else world.changes }

end ContextWorld

namespace LocalSubscriptionManager
open ContextWorld
variable [DecidableEq Entity] [DecidableEq Sensor] [DecidableEq Object] [DecidableEq Tag]

/-- `unsubscribe` with what it does for the scheduler of the tag. Without a subscriber it asks a
`ConcurrentHashMap` for null, unless there is no set at all. -/
def unsubscribeFully (tagObject : DeliveryTag Object → Tag) (id : Nat) :
    ContextEffect Entity Sensor Object Predicate Tag Bool := do
  let result ← Effect.read fun world => decide (id ∈ world.subscriptions.manager.allSubscriptions)
  Effect.modify (unsubscribed id)
  let s ← Effect.read fun world => world.subscriptions.subscription id
  let sets ← Effect.read fun world =>
    world.subscriptions.manager.subscriptionsBySubscriber.keys.elements.length
  if s.subscriber = none ∧ sets ≠ 0 then Effect.throw .nullPointer
  else do
    setTaskSchedulerForTag (s.subscriberExecutionManagerTag.map tagObject)
    pure result

end LocalSubscriptionManager

namespace BasicSubscriptionContext
open LocalSubscriptionManager ContextWorld MapOfSets
variable [DecidableEq Entity] [DecidableEq Sensor] [DecidableEq Object] [DecidableEq Tag]

/-- For a null subscriber the manager asks a `ConcurrentHashMap` for null. -/
def getSubscriptions :
    Option Object → ContextEffect Entity Sensor Object Predicate Tag (LinkedSet Nat)
  | none => .throw .nullPointer
  | some subscriber => Effect.read fun world =>
      world.subscriptions.manager.getSubscriptionsForSubscriber subscriber

def unsubscribe (tagObject : DeliveryTag Object → Tag) (subscriber : Option Object) (id : Nat) :
    ContextEffect Entity Sensor Object Predicate Tag Bool := do
  let s ← Effect.read fun world => world.subscriptions.subscription id
  if subscriber = s.subscriber then unsubscribeFully tagObject id
  else Effect.throw .illegalArgument

/-- One round of the loop. -/
def unsubscribeCounted (tagObject : DeliveryTag Object → Tag) (subscriber : Option Object)
    (count id : Nat) : ContextEffect Entity Sensor Object Predicate Tag Nat := do
  let _ ← unsubscribe tagObject subscriber id
  pure (count + 1)

def unsubscribeAll (tagObject : DeliveryTag Object → Tag) (subscriber : Option Object) :
    ContextEffect Entity Sensor Object Predicate Tag Nat := do
  let subscriptions ← getSubscriptions subscriber
  Effect.iterate (fun world => (subscriber.map world.changes).getD 0) .concurrentModification
    (unsubscribeCounted tagObject subscriber) subscriptions.elements 0

section Rounds
variable {tagObject : DeliveryTag Object → Tag}
  {world : ContextWorld Entity Sensor Object Predicate Tag}

omit [DecidableEq Entity] [DecidableEq Sensor] [DecidableEq Object] in
theorem setTaskSchedulerForTag_returns_iff
    (world : ContextWorld Entity Sensor Object Predicate Tag) (tag : Option Tag) :
    (∃ after, setTaskSchedulerForTag tag world = some (.ok (), after)) ↔
      ∃ present, tag = some present ∧ world.schedulerByTag present ≠ some .other := by
  cases tag with
  | none =>
    refine ⟨?_, ?_⟩
    · rintro ⟨after, ran⟩
      cases ran
    · rintro ⟨_, same, _⟩
      cases same
  | some tag =>
    rw [setTaskSchedulerForTag, Effect.read_bind]
    cases kind : world.schedulerByTag tag with
    | none => exact iff_of_true ⟨_, rfl⟩ ⟨tag, rfl, by simp [kind]⟩
    | some scheduler =>
      cases scheduler with
      | singleThreaded => exact iff_of_true ⟨_, rfl⟩ ⟨tag, rfl, by simp [kind]⟩
      | other =>
        refine iff_of_false ?_ ?_
        · rintro ⟨after, ran⟩
          cases ran
        · rintro ⟨_, same, allowed⟩
          cases same
          exact allowed kind

omit [DecidableEq Entity] [DecidableEq Sensor] [DecidableEq Object] in
theorem setTaskSchedulerForTag_leaves {tag : Option Tag}
    {after : ContextWorld Entity Sensor Object Predicate Tag}
    (ran : setTaskSchedulerForTag tag world = some (.ok (), after)) :
    after.subscriptions = world.subscriptions ∧ after.changes = world.changes := by
  cases tag with
  | none => cases ran
  | some tag =>
    rw [setTaskSchedulerForTag, Effect.read_bind] at ran
    cases kind : world.schedulerByTag tag with
    | none =>
      rw [kind] at ran
      cases ran
      exact ⟨rfl, rfl⟩
    | some scheduler =>
      rw [kind] at ran
      cases scheduler with
      | singleThreaded =>
        cases ran
        exact ⟨rfl, rfl⟩
      | other => cases ran

/-- A round on a subscription of the context's subscriber is left to the schedulers. -/
theorem unsubscribeCounted_owned {subscriber : Object} {id : Nat}
    (owned : (world.subscriptions.subscription id).subscriber = some subscriber) (count : Nat) :
    unsubscribeCounted tagObject (some subscriber) count id world =
      (setTaskSchedulerForTag
        ((world.subscriptions.subscription id).subscriberExecutionManagerTag.map tagObject) >>=
          fun _ => pure (count + 1)) (world.unsubscribed id) := by
  have named : ((world.unsubscribed id).subscriptions.subscription id).subscriber =
      some subscriber := owned
  have fully : unsubscribe tagObject (some subscriber) id world =
      (setTaskSchedulerForTag
        ((world.subscriptions.subscription id).subscriberExecutionManagerTag.map tagObject) >>=
          fun _ => pure (decide (id ∈ world.subscriptions.manager.allSubscriptions)))
        (world.unsubscribed id) := by
    unfold unsubscribe
    rw [Effect.read_bind, if_pos owned.symm]
    unfold unsubscribeFully
    rw [Effect.read_bind, Effect.modify_bind, Effect.read_bind, Effect.read_bind, if_neg]
    · rfl
    · rintro ⟨absent, _⟩
      rw [named] at absent
      cases absent
  unfold unsubscribeCounted
  change Effect.andThen _ _ _ = _
  rw [Effect.andThen, fully]
  exact Effect.bind_assoc _ _ _ _

end Rounds

section All
variable {tagObject : DeliveryTag Object → Tag} {subscriber : Option Object}
  {live : LiveSubscriptions Entity Sensor Object Predicate}
  {world : ContextWorld Entity Sensor Object Predicate Tag}

/-- The live subscriptions of a subscriber. -/
def own (subscriber : Option Object) (live : LiveSubscriptions Entity Sensor Object Predicate) :
    LiveSubscriptions Entity Sensor Object Predicate :=
  live.filter fun entry => entry.2.subscriber = subscriber

def others (subscriber : Option Object) (live : LiveSubscriptions Entity Sensor Object Predicate) :
    LiveSubscriptions Entity Sensor Object Predicate :=
  live.filter fun entry => entry.2.subscriber ≠ subscriber

/-- The call returns the number of the subscriber's subscriptions, and every index has lost
these and no other. -/
def UnsubscribesAll (tagObject : DeliveryTag Object → Tag) (subscriber : Option Object)
    (live : LiveSubscriptions Entity Sensor Object Predicate)
    (world : ContextWorld Entity Sensor Object Predicate Tag) : Prop :=
  ∃ after, unsubscribeAll tagObject subscriber world =
      some (.ok (own subscriber live).length, after) ∧
    Describes after.subscriptions (others subscriber live)

/-- Setting the scheduler of the subscription's tag throws nothing. -/
def Schedulable (tagObject : DeliveryTag Object → Tag)
    (world : ContextWorld Entity Sensor Object Predicate Tag)
    (s : Subscription Entity Sensor Object Predicate) : Prop :=
  ∃ tag, s.subscriberExecutionManagerTag = some tag ∧
    world.schedulerByTag (tagObject tag) ≠ some .other

structure Undisturbed (tagObject : DeliveryTag Object → Tag) (subscriber : Option Object)
    (live : LiveSubscriptions Entity Sensor Object Predicate)
    (world : ContextWorld Entity Sensor Object Predicate Tag) : Prop where
  named : subscriber ≠ none
  single : (own subscriber live).length ≤ 1
  schedulable : ∀ entry ∈ own subscriber live, Schedulable tagObject world entry.2

omit [DecidableEq Entity] [DecidableEq Sensor] [DecidableEq Tag] in
theorem mem_own {id : Nat} {s : Subscription Entity Sensor Object Predicate} :
    (id, s) ∈ own subscriber live ↔ (id, s) ∈ live ∧ s.subscriber = subscriber := by
  simp [own]

omit [DecidableEq Entity] [DecidableEq Sensor] [DecidableEq Tag] in
/-- The manager's set has the subscriber's subscriptions, each once. -/
theorem set_perm_own (subscriber : Object) (describes : Describes world.subscriptions live)
    (distinct : (live.map Prod.fst).Nodup) :
    (world.subscriptions.manager.getSubscriptionsForSubscriber subscriber).elements.Perm
      ((own (some subscriber) live).map Prod.fst) := by
  refine (List.perm_ext_iff_of_nodup (LinkedSet.distinct _)
    (distinct.sublist (List.filter_sublist.map _))).mpr fun id => ?_
  refine (describes.bySubscriber.mem subscriber id).trans ?_
  rw [List.mem_map]
  constructor
  · rintro ⟨s, member, named⟩
    exact ⟨(id, s), mem_own.mpr ⟨member, named⟩, rfl⟩
  · rintro ⟨⟨_, s⟩, member, rfl⟩
    exact ⟨s, mem_own.mp member⟩

/-- The only subscription of a subscriber is taken out, unless its tag's scheduler throws. -/
theorem unsubscribe_single {subscriber : Object} {id : Nat}
    {s : Subscription Entity Sensor Object Predicate}
    (describes : Describes world.subscriptions live)
    (single : own (some subscriber) live = [(id, s)]) :
    (∃ after, unsubscribeCounted tagObject (some subscriber) 0 id world = some (.ok 1, after) ∧
      Describes after.subscriptions (others (some subscriber) live)) ↔
      Schedulable tagObject world s := by
  obtain ⟨member, named⟩ := mem_own.mp (single ▸ List.mem_singleton_self (id, s))
  have fields := describes.fields id s member
  have same : others (some subscriber) live = live.filter fun entry => entry.1 ≠ id := by
    refine List.filter_congr fun ⟨other, t⟩ there => decide_eq_decide.mpr (not_congr ⟨?_, ?_⟩)
    · intro owned
      have listed := single ▸ mem_own.mpr ⟨there, owned⟩
      exact congrArg Prod.fst (List.mem_singleton.mp listed)
    · rintro rfl
      rw [← describes.fields _ t there, fields]
      exact named
  have scheduled := setTaskSchedulerForTag_returns_iff (world.unsubscribed id)
    (s.subscriberExecutionManagerTag.map tagObject)
  rw [unsubscribeCounted_owned (fields.symm ▸ named), fields]
  constructor
  · rintro ⟨after, ran, _⟩
    obtain ⟨_, middle, set, _⟩ := Effect.bind_returned ran
    obtain ⟨present, some, allowed⟩ := scheduled.mp ⟨middle, set⟩
    obtain ⟨tag, tagged, rfl⟩ := Option.map_eq_some_iff.mp some
    exact ⟨tag, tagged, allowed⟩
  · rintro ⟨tag, tagged, allowed⟩
    obtain ⟨after, set⟩ := scheduled.mpr ⟨tagObject tag, by rw [tagged]; rfl, allowed⟩
    refine ⟨after, Effect.bind_apply _ set, ?_⟩
    rw [(setTaskSchedulerForTag_leaves set).1, same]
    exact (unsubscribe_describes describes id).2

/-- A round that returns has changed the set that the loop is over. -/
theorem unsubscribeCounted_changes {subscriber : Object} {id count value : Nat}
    {after : ContextWorld Entity Sensor Object Predicate Tag}
    (member : id ∈ world.subscriptions.manager.getSubscriptionsForSubscriber subscriber)
    (owned : (world.subscriptions.subscription id).subscriber = some subscriber)
    (ran : unsubscribeCounted tagObject (some subscriber) count id world =
      some (.ok value, after)) :
    after.changes subscriber ≠ world.changes subscriber := by
  rw [unsubscribeCounted_owned owned] at ran
  obtain ⟨_, middle, set, last⟩ := Effect.bind_returned ran
  cases last
  have removed : (removeFromMapOfCollections world.subscriptions.manager.subscriptionsBySubscriber
      subscriber id).1 = true := by
    unfold removeFromMapOfCollections
    cases found : world.subscriptions.manager.subscriptionsBySubscriber.get subscriber with
    | none => simp [getSubscriptionsForSubscriber, bucket, found] at member
    | some ids => simpa [getSubscriptionsForSubscriber, bucket, found] using member
  have counted : after.changes subscriber = world.changes subscriber + 1 := by
    rw [(setTaskSchedulerForTag_leaves set).2]
    simp [unsubscribed, owned, removed]
  rw [counted]
  exact Nat.succ_ne_self _

/-- In every state that the indexes describe. -/
theorem unsubscribesAll_iff_undisturbed (describes : Describes world.subscriptions live)
    (distinct : (live.map Prod.fst).Nodup) :
    UnsubscribesAll tagObject subscriber live world ↔
      Undisturbed tagObject subscriber live world := by
  cases subscriber with
  | none =>
    refine iff_of_false ?_ fun undisturbed => undisturbed.named rfl
    rintro ⟨after, ran, _⟩
    cases ran
  | some subscriber =>
    have listed := set_perm_own subscriber describes distinct
    have called : unsubscribeAll tagObject (some subscriber) world =
        Effect.iterate (fun world => world.changes subscriber) .concurrentModification
          (unsubscribeCounted tagObject (some subscriber))
          (world.subscriptions.manager.getSubscriptionsForSubscriber subscriber).elements 0
          world := rfl
    unfold UnsubscribesAll
    rw [called]
    match owned : own (some subscriber) live with
    | [] =>
      rw [owned] at listed
      rw [listed.eq_nil]
      have all : others (some subscriber) live = live := List.filter_eq_self.mpr
        fun entry member => decide_eq_true fun same =>
          List.not_mem_nil (owned ▸ mem_own.mpr ⟨member, same⟩)
      refine iff_of_true ⟨world, rfl, all.symm ▸ describes⟩
        ⟨Option.some_ne_none _, by simp [owned], fun entry member => ?_⟩
      rw [owned] at member
      exact absurd member List.not_mem_nil
    | [(id, s)] =>
      rw [owned] at listed
      rw [List.perm_singleton.mp listed, Effect.iterate_one]
      refine (unsubscribe_single describes owned).trans ⟨fun schedulable => ?_, fun undisturbed => ?_⟩
      · refine ⟨Option.some_ne_none _, by simp [owned], fun entry member => ?_⟩
        rw [owned] at member
        cases List.mem_singleton.mp member
        exact schedulable
      · exact undisturbed.schedulable (id, s) (owned ▸ List.mem_singleton_self _)
    | first :: second :: rest =>
      refine iff_of_false ?_ fun undisturbed => ?_
      · rintro ⟨after, ran, _⟩
        rw [owned] at listed
        match ids : (world.subscriptions.manager.getSubscriptionsForSubscriber
            subscriber).elements with
        | [] | [_] =>
          have lengths := ids ▸ listed.length_eq
          simp at lengths
        | id :: next :: later =>
          rw [ids] at ran
          have member : id ∈
              (world.subscriptions.manager.getSubscriptionsForSubscriber subscriber).elements :=
            ids ▸ List.mem_cons_self
          obtain ⟨s, there, named⟩ := (describes.bySubscriber.mem subscriber id).mp member
          refine Effect.iterate_changing (fun value middle round => ?_) _ _ ran
          exact unsubscribeCounted_changes member (describes.fields id s there ▸ named) round
      · have short := undisturbed.single
        rw [owned] at short
        simp at short

end All

omit [DecidableEq Entity] [DecidableEq Sensor] [DecidableEq Object] [DecidableEq Tag] in
theorem history_distinct {history : History Entity Sensor Object Predicate}
    (calls : List (Call Entity Sensor Object Predicate))
    (made : ∀ entry ∈ history.live, entry.1 < history.made)
    (distinct : (history.live.map Prod.fst).Nodup) :
    ((calls.foldl History.next history).live.map Prod.fst).Nodup := by
  induction calls generalizing history with
  | nil => exact distinct
  | cons call rest ih =>
    refine ih ?_ ?_
    · cases call with
      | subscribe call =>
        rw [History.next]
        cases call.arguments with
        | error fault => exact made
        | ok arguments =>
          intro entry member
          rcases List.mem_append.mp member with before | last
          · exact Nat.lt_succ_of_lt (made entry before)
          · rw [List.mem_singleton.mp last]
            exact Nat.lt_succ_self _
      | unsubscribe handle => exact fun entry member => made entry (List.mem_of_mem_filter member)
      | publish surroundings event => exact made
      | elsewhere producer sensor listener =>
        exact fun entry member => Nat.lt_succ_of_lt (made entry member)
    · cases call with
      | subscribe call =>
        rw [History.next]
        cases call.arguments with
        | error fault => exact distinct
        | ok arguments =>
          dsimp only
          rw [List.map_append]
          refine distinct.append (List.nodup_singleton _) fun id member last => ?_
          obtain ⟨entry, there, rfl⟩ := List.mem_map.mp member
          exact absurd (List.mem_singleton.mp last) (Nat.ne_of_lt (made entry there))
      | unsubscribe handle => exact distinct.sublist (List.filter_sublist.map _)
      | publish surroundings event => exact distinct
      | elsewhere producer sensor listener => exact distinct

/-- The manager after any calls, with any schedulers. -/
def reached (calls : List (Call Entity Sensor Object Predicate)) (changes : Object → Nat)
    (schedulerByTag : Tag → Option SchedulerKind) :
    ContextWorld Entity Sensor Object Predicate Tag :=
  ⟨calls.foldl next .start, changes, schedulerByTag⟩

def liveAfter (calls : List (Call Entity Sensor Object Predicate)) :
    LiveSubscriptions Entity Sensor Object Predicate :=
  (calls.foldl History.next ⟨0, []⟩).live

/-- The call does its work when the subscriber has at most one subscription; with more, the
second round finds the set changed by the first. -/
theorem unsubscribeAll_iff (calls : List (Call Entity Sensor Object Predicate))
    (changes : Object → Nat) (schedulerByTag : Tag → Option SchedulerKind)
    (tagObject : DeliveryTag Object → Tag) (subscriber : Option Object) :
    UnsubscribesAll tagObject subscriber (liveAfter calls) (reached calls changes schedulerByTag) ↔
      Undisturbed tagObject subscriber (liveAfter calls)
        (reached calls changes schedulerByTag) := by
  refine unsubscribesAll_iff_undisturbed (run_follows ⟨rfl, start_describes⟩ calls).describes ?_
  exact history_distinct calls (fun entry member => absurd member List.not_mem_nil) List.nodup_nil

-- An entity that listens to two sensors of itself.
theorem two_subscriptions_throw :
    ¬ UnsubscribesAll (fun tag => tag) (some 7)
      (liveAfter
        [.subscribe (.subscribe (some ⟨some (some 7), none, none⟩) (some 7) (some 1) (some 9)),
          .subscribe (.subscribe (some ⟨some (some 7), none, none⟩) (some 7) (some 2) (some 9))])
      (reached
        ([.subscribe (.subscribe (some ⟨some (some 7), none, none⟩) (some 7) (some 1) (some 9)),
          .subscribe (.subscribe (some ⟨some (some 7), none, none⟩) (some 7) (some 2) (some 9))] :
          List (Call Nat Nat Nat Nat))
        (fun _ => 1) fun _ => some .singleThreaded) := by
  rintro ⟨after, ran, _⟩
  cases ran

end BasicSubscriptionContext
end Brooklyn
