import Brooklyn.LocalSubscriptionManager

/-!
Routing by tokens. The subscriptions that are live are listed by the calls that made them;
every index describes that list, and the four look-ups of an event find those of the list
whose producer and sensor it has.
-/

namespace Brooklyn

variable {Entity Sensor Object Predicate : Type}
  [DecidableEq Entity] [DecidableEq Sensor] [DecidableEq Object]

/-- Subscriptions with their numbers. -/
abbrev LiveSubscriptions (Entity Sensor Object Predicate : Type) : Type :=
  List (Nat × Subscription Entity Sensor Object Predicate)

/-- What the producer, the sensor and the filter of a subscription ask of an event. -/
structure Subscription.Receives (surroundings : Surroundings Entity Sensor Object Predicate)
    (event : SensorEvent Entity Sensor Object)
    (s : Subscription Entity Sensor Object Predicate) : Prop where
  producer : s.producer = none ∨ s.producer = event.source
  sensor : s.sensor = none ∨ s.sensor = event.sensor
  filter : ∀ filter, s.eventFilter = some filter → filter.accepts surroundings event

namespace LocalSubscriptionManager
open MapOfSets

/-- All indexes describe the live subscriptions; that by subscriber, those with a subscriber. -/
structure Describes (world : SubscriptionWorld Entity Sensor Object Predicate)
    (live : LiveSubscriptions Entity Sensor Object Predicate) : Prop where
  made : ∀ id s, (id, s) ∈ live → id < world.made
  fields : ∀ id s, (id, s) ∈ live → world.subscription id = s
  byId : ∀ id, id ∈ world.manager.allSubscriptions ↔ ∃ s, (id, s) ∈ live
  byToken : Indexes world.manager.subscriptionsByToken
    fun token id => ∃ s, (id, s) ∈ live ∧ s.token = token
  bySubscriber : Indexes world.manager.subscriptionsBySubscriber
    fun subscriber id => ∃ s, (id, s) ∈ live ∧ s.subscriber = some subscriber

section Calls
variable {world : SubscriptionWorld Entity Sensor Object Predicate}
  {live : LiveSubscriptions Entity Sensor Object Predicate}

omit [DecidableEq Entity] [DecidableEq Sensor] [DecidableEq Object] in
theorem start_describes : Describes (.start : SubscriptionWorld Entity Sensor Object Predicate) [] :=
  ⟨fun _ _ member => absurd member List.not_mem_nil,
    fun _ _ member => absurd member List.not_mem_nil, fun _ => by simp [SubscriptionWorld.start, create],
    indexes_empty.congr fun _ _ => by simp, indexes_empty.congr fun _ _ => by simp⟩

omit [DecidableEq Entity] [DecidableEq Sensor] [DecidableEq Object] in
/-- The fields of a subscription that is not live are free. -/
theorem Describes.update (describes : Describes world live) {id : Nat}
    (fresh : ∀ s, (id, s) ∉ live) (s : Subscription Entity Sensor Object Predicate) :
    Describes { world with subscription := Function.update world.subscription id s } live := by
  refine ⟨describes.made, fun other t member => ?_, describes.byId, describes.byToken,
    describes.bySubscriber⟩
  have different : other ≠ id := by
    rintro rfl
    exact fresh t member
  exact (Function.update_of_ne different _ _).trans (describes.fields other t member)

omit [DecidableEq Entity] [DecidableEq Sensor] [DecidableEq Object] in
theorem make_describes (describes : Describes world live) (producer : Option Entity)
    (sensor : Option Sensor) (listener : Option Object) :
    Describes (world.make producer sensor listener) live := by
  have updated := describes.update
    (fun s member => Nat.lt_irrefl _ (describes.made world.made s member))
    (.create producer sensor listener)
  exact ⟨fun id s member => Nat.lt_succ_of_lt (describes.made id s member), updated.fields,
    updated.byId, updated.byToken, updated.bySubscriber⟩

omit [DecidableEq Entity] [DecidableEq Sensor] [DecidableEq Object] in
theorem mem_live_append {live : LiveSubscriptions Entity Sensor Object Predicate} {id new : Nat}
    {s : Subscription Entity Sensor Object Predicate}
    (holds : Subscription Entity Sensor Object Predicate → Prop) :
    (∃ other, (id, other) ∈ live ++ [(new, s)] ∧ holds other) ↔
      (∃ other, (id, other) ∈ live ∧ holds other) ∨ (id = new ∧ holds s) := by
  constructor
  · rintro ⟨other, member, held⟩
    rcases List.mem_append.mp member with there | last
    · exact Or.inl ⟨other, there, held⟩
    · cases List.mem_singleton.mp last
      exact Or.inr ⟨rfl, held⟩
  · rintro (⟨other, there, held⟩ | ⟨rfl, held⟩)
    · exact ⟨other, List.mem_append_left _ there, held⟩
    · exact ⟨s, List.mem_append_right _ (List.mem_singleton_self _), held⟩

theorem subscribe_describes (describes : Describes world live)
    (flags : SubscriptionFlags Entity Object Predicate) {id : Nat} (here : id < world.made)
    (fresh : ∀ s, (id, s) ∉ live) :
    Describes (subscribe flags id world)
      (live ++ [(id, (world.subscription id).subscribed flags)]) := by
  have other (older : Nat) (s) (member : (older, s) ∈ live) : older ≠ id := by
    rintro rfl
    exact fresh s member
  refine ⟨fun older s member => ?_, fun older s member => ?_, fun older => ?_, ?_, ?_⟩
  · rcases List.mem_append.mp member with there | last
    · exact describes.made older s there
    · cases List.mem_singleton.mp last
      exact here
  · rcases List.mem_append.mp member with there | last
    · exact (Function.update_of_ne (other older s there) _ _).trans (describes.fields older s there)
    · cases List.mem_singleton.mp last
      exact Function.update_self ..
  · have split : (∃ s, (older, s) ∈ live ++ [(id, (world.subscription id).subscribed flags)]) ↔
        (∃ s, (older, s) ∈ live) ∨ older = id := by
      simpa only [and_true] using mem_live_append fun _ => True
    rw [split, ← describes.byId]
    simp [subscribe]
  · refine (describes.byToken.add _ id).congr fun token older => ?_
    rw [mem_live_append]
    exact or_congr_right (and_comm.trans (and_congr_right fun _ => eq_comm))
  · cases named : ((world.subscription id).subscribed flags).subscriber with
    | none =>
      simp only [subscribe, named]
      refine describes.bySubscriber.congr fun subscriber older => ?_
      rw [mem_live_append]
      simp [named]
    | some subscriber =>
      simp only [subscribe, named]
      refine (describes.bySubscriber.add subscriber id).congr fun other older => ?_
      rw [mem_live_append, named, Option.some.injEq]
      exact or_congr_right (and_comm.trans (and_congr_right fun _ => eq_comm))

omit [DecidableEq Entity] [DecidableEq Sensor] [DecidableEq Object] in
theorem mem_live_filter {live : LiveSubscriptions Entity Sensor Object Predicate} {id gone : Nat}
    (holds : Subscription Entity Sensor Object Predicate → Prop) :
    (∃ s, (id, s) ∈ live.filter (fun entry => entry.1 ≠ gone) ∧ holds s) ↔
      (∃ s, (id, s) ∈ live ∧ holds s) ∧ id ≠ gone := by
  simp only [List.mem_filter, decide_eq_true_eq]
  constructor
  · rintro ⟨s, ⟨member, different⟩, held⟩
    exact ⟨⟨s, member, held⟩, different⟩
  · rintro ⟨⟨s, member, held⟩, different⟩
    exact ⟨s, ⟨member, different⟩, held⟩

theorem unsubscribe_describes (describes : Describes world live) (gone : Nat) :
    ((unsubscribe gone world).1 = true ↔ ∃ s, (gone, s) ∈ live) ∧
      Describes (unsubscribe gone world).2 (live.filter fun entry => entry.1 ≠ gone) := by
  refine ⟨?_, fun id s member => describes.made id s (List.mem_of_mem_filter member),
    fun id s member => describes.fields id s (List.mem_of_mem_filter member), fun id => ?_, ?_, ?_⟩
  · rw [unsubscribe, decide_eq_true_iff, describes.byId]
  · have split : (∃ s, (id, s) ∈ live.filter (fun entry => entry.1 ≠ gone)) ↔
        (∃ s, (id, s) ∈ live) ∧ id ≠ gone := by
      simpa only [and_true] using mem_live_filter fun _ => True
    rw [split, ← describes.byId]
    exact LinkedSet.mem_remove _ gone id
  · refine (describes.byToken.remove _ gone).congr fun token id => ?_
    rw [mem_live_filter]
    -- The subscription that goes is only under the token of its own fields.
    refine and_congr_right fun ⟨s, member, keyed⟩ => not_congr ⟨And.right, fun same => ⟨?_, same⟩⟩
    rw [← keyed, ← describes.fields id s member, same]
  · cases named : (world.subscription gone).subscriber with
    | none =>
      simp only [unsubscribe, named]
      refine describes.bySubscriber.congr fun subscriber id => ?_
      rw [mem_live_filter]
      refine (and_iff_left_of_imp fun ⟨s, member, keyed⟩ same => ?_).symm
      rw [← describes.fields id s member, same, named] at keyed
      cases keyed
    | some subscriber =>
      simp only [unsubscribe, named]
      refine (describes.bySubscriber.remove subscriber gone).congr fun other id => ?_
      rw [mem_live_filter]
      refine and_congr_right fun ⟨s, member, keyed⟩ =>
        not_congr ⟨And.right, fun same => ⟨?_, same⟩⟩
      rw [← describes.fields id s member, same, named] at keyed
      exact (Option.some.inj keyed).symm

omit [DecidableEq Entity] [DecidableEq Sensor] [DecidableEq Object] in
theorem mem_getSubscriptionsForEntitySensor (describes : Describes world live)
    (source : Option Entity) (sensor : Option Sensor) (id : Nat) :
    id ∈ world.manager.getSubscriptionsForEntitySensor source sensor ↔
      ∃ s, (id, s) ∈ live ∧ (s.producer = none ∨ s.producer = source) ∧
        (s.sensor = none ∨ s.sensor = sensor) := by
  have bucketed (token : Option Entity × Option Sensor) :
      id ∈ (bucket world.manager.subscriptionsByToken token).elements ↔
        ∃ s, (id, s) ∈ live ∧ s.token = token := describes.byToken.mem token id
  simp only [getSubscriptionsForEntitySensor, LinkedSet.mem_addAll, bucketed,
    LinkedSet.not_mem_empty, false_or, Subscription.token, Prod.mk.injEq]
  constructor
  · rintro (((⟨s, member, producer, sensor⟩ | ⟨s, member, producer, sensor⟩) |
      ⟨s, member, producer, sensor⟩) | ⟨s, member, producer, sensor⟩)
    · exact ⟨s, member, Or.inr producer, Or.inr sensor⟩
    · exact ⟨s, member, Or.inl producer, Or.inr sensor⟩
    · exact ⟨s, member, Or.inr producer, Or.inl sensor⟩
    · exact ⟨s, member, Or.inl producer, Or.inl sensor⟩
  · rintro ⟨s, member, producer | producer, sensor | sensor⟩
    · exact Or.inr ⟨s, member, producer, sensor⟩
    · exact Or.inl (Or.inl (Or.inr ⟨s, member, producer, sensor⟩))
    · exact Or.inl (Or.inr ⟨s, member, producer, sensor⟩)
    · exact Or.inl (Or.inl (Or.inl ⟨s, member, producer, sensor⟩))

omit [DecidableEq Sensor] [DecidableEq Object] in
theorem publish_describes (describes : Describes world live)
    (surroundings : Surroundings Entity Sensor Object Predicate)
    (event : SensorEvent Entity Sensor Object) :
    Describes (publish surroundings event world) live :=
  ⟨describes.made, describes.fields, describes.byId, describes.byToken, describes.bySubscriber⟩

omit [DecidableEq Sensor] [DecidableEq Object] in
/-- `publish` submits one task for each live subscription that receives the event. -/
theorem publish_submits (describes : Describes world live)
    (surroundings : Surroundings Entity Sensor Object Predicate)
    (event : SensorEvent Entity Sensor Object) :
    ∃ submissions : List (Submission Entity Sensor Object),
      (publish surroundings event world).submitted = world.submitted ++ submissions ∧
      (submissions.map Submission.subscription).Nodup ∧
      (∀ submission ∈ submissions, submission.event = event ∧
        ∀ s, (submission.subscription, s) ∈ live →
          submission.tag = s.subscriberExecutionManagerTag) ∧
      ∀ id, id ∈ submissions.map Submission.subscription ↔
        ∃ s, (id, s) ∈ live ∧ s.Receives surroundings event := by
  have ids (accepting : List Nat) : (accepting.map fun id =>
      (⟨(world.subscription id).subscriberExecutionManagerTag, id, event⟩ :
        Submission Entity Sensor Object)).map Submission.subscription = accepting := by
    rw [List.map_map]
    exact List.map_id _
  refine ⟨_, rfl, ?_, ?_, fun id => ?_⟩
  · rw [ids]
    exact (LinkedSet.distinct _).filter _
  · intro submission member
    obtain ⟨id, _, rfl⟩ := List.mem_map.mp member
    refine ⟨rfl, fun s live => ?_⟩
    rw [← describes.fields id s live]
  · rw [ids, List.mem_filter]
    refine (and_congr_left' (mem_getSubscriptionsForEntitySensor describes _ _ id)).trans ?_
    constructor
    · rintro ⟨⟨s, member, producer, sensor⟩, accepted⟩
      rw [describes.fields id s member, Option.all_eq_true] at accepted
      exact ⟨s, member, producer, sensor, accepted⟩
    · rintro ⟨s, member, producer, sensor, accepted⟩
      refine ⟨⟨s, member, producer, sensor⟩, ?_⟩
      rw [describes.fields id s member, Option.all_eq_true]
      exact accepted

end Calls

/-- The subscription that is made of the arguments. -/
def subscriptionOf (arguments : SubscribeArguments Entity Sensor Object Predicate) :
    Subscription Entity Sensor Object Predicate :=
  (Subscription.create arguments.producer arguments.sensor arguments.listener).subscribed
    arguments.flags

/-- How many subscriptions were made anywhere, and which of those made here are live. -/
structure History (Entity Sensor Object Predicate : Type) where
  made : Nat
  live : LiveSubscriptions Entity Sensor Object Predicate

def History.next (history : History Entity Sensor Object Predicate) :
    Call Entity Sensor Object Predicate → History Entity Sensor Object Predicate
  | .subscribe call =>
      match call.arguments with
      | .error _ => history
      | .ok arguments =>
          ⟨history.made + 1, history.live ++ [(history.made, subscriptionOf arguments)]⟩
  | .unsubscribe handle =>
      { history with live := history.live.filter fun entry => entry.1 ≠ handle }
  | .publish _ _ => history
  | .elsewhere _ _ _ => { history with made := history.made + 1 }

section Runs
variable {world : SubscriptionWorld Entity Sensor Object Predicate}
  {history : History Entity Sensor Object Predicate}

structure Follows (world : SubscriptionWorld Entity Sensor Object Predicate)
    (history : History Entity Sensor Object Predicate) : Prop where
  made : world.made = history.made
  describes : Describes world history.live

theorem subscribeNew_follows (follows : Follows world history)
    (arguments : SubscribeArguments Entity Sensor Object Predicate) :
    Follows (subscribeNew arguments world)
      ⟨history.made + 1, history.live ++ [(history.made, subscriptionOf arguments)]⟩ := by
  have describes := make_describes follows.describes arguments.producer arguments.sensor
    arguments.listener
  have subscribed := subscribe_describes describes arguments.flags (Nat.lt_succ_self world.made)
    fun s member => Nat.lt_irrefl _ (follows.describes.made _ s member)
  have new : (world.make arguments.producer arguments.sensor arguments.listener).subscription
      world.made = .create arguments.producer arguments.sensor arguments.listener :=
    Function.update_self ..
  rw [new] at subscribed
  rw [← follows.made]
  exact ⟨rfl, subscribed⟩

theorem next_follows (follows : Follows world history)
    (call : Call Entity Sensor Object Predicate) :
    Follows (next world call) (history.next call) := by
  cases call with
  | subscribe call =>
    cases asked : call.arguments with
    | error fault => simpa only [next, perform, History.next, asked, Except.map] using follows
    | ok arguments =>
      simpa only [next, perform, History.next, asked, Except.map] using subscribeNew_follows follows arguments
  | unsubscribe handle =>
    by_cases known : handle < world.made
    · simp only [next, perform, if_pos known]
      exact ⟨follows.made, (unsubscribe_describes follows.describes handle).2⟩
    · simp only [next, perform, if_neg known]
      have all : history.live.filter (fun entry => entry.1 ≠ handle) = history.live := by
        refine List.filter_eq_self.mpr fun entry member => decide_eq_true fun same => known ?_
        rw [← same]
        exact follows.describes.made entry.1 entry.2 member
      exact ⟨follows.made, by rw [History.next, all]; exact follows.describes⟩
  | publish surroundings event =>
    exact ⟨follows.made, publish_describes follows.describes surroundings event⟩
  | elsewhere producer sensor listener =>
    exact ⟨congrArg Nat.succ follows.made, make_describes follows.describes producer sensor listener⟩

theorem run_follows (follows : Follows world history)
    (calls : List (Call Entity Sensor Object Predicate)) :
    Follows (calls.foldl next world) (calls.foldl History.next history) := by
  induction calls generalizing world history with
  | nil => exact follows
  | cons call rest ih => exact ih (next_follows follows call)

end Runs

/-- After any calls the indexes describe the live subscriptions, and `publish` submits one task
for each of them that receives the event, and no other. -/
theorem publish_routes (calls : List (Call Entity Sensor Object Predicate)) :
    Describes (calls.foldl next .start) (calls.foldl History.next ⟨0, []⟩).live ∧
      ∀ surroundings event, ∃ submissions : List (Submission Entity Sensor Object),
        (publish surroundings event (calls.foldl next .start)).submitted =
          (calls.foldl next .start).submitted ++ submissions ∧
        (submissions.map Submission.subscription).Nodup ∧
        (∀ submission ∈ submissions, submission.event = event ∧
          ∀ s, (submission.subscription, s) ∈ (calls.foldl History.next ⟨0, []⟩).live →
            submission.tag = s.subscriberExecutionManagerTag) ∧
        ∀ id, id ∈ submissions.map Submission.subscription ↔
          ∃ s, (id, s) ∈ (calls.foldl History.next ⟨0, []⟩).live ∧
            s.Receives surroundings event := by
  have follows : Follows (calls.foldl next .start) (calls.foldl History.next ⟨0, []⟩) :=
    run_follows ⟨rfl, start_describes⟩ calls
  exact ⟨follows.describes, publish_submits follows.describes⟩

/-- A subscription whose subscriber is null is in the other two indexes alone. -/
theorem null_subscriber_not_indexed :
    ∃ (calls : List (Call Nat Nat Nat Nat)) (id : Nat),
      id ∈ (calls.foldl next .start).manager.allSubscriptions ∧
      id ∈ bucket (calls.foldl next .start).manager.subscriptionsByToken (none, none) ∧
      ∀ subscriber, id ∉ bucket (calls.foldl next .start).manager.subscriptionsBySubscriber
        subscriber :=
  ⟨[.subscribe (.subscribe (some ⟨some none, none, none⟩) none none (some 7))], 0, by decide, by decide,
    fun _ => List.not_mem_nil⟩

end LocalSubscriptionManager
end Brooklyn
