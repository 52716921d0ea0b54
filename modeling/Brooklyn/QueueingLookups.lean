import Brooklyn.QueueingSubscriptionManager

/-!
`QueueingSubscriptionManager.getSubscriptionsForEntitySensor`. While it does not delegate the
manager filters its queue, and compares the producer of a subscription with the sensor it is
asked about, where the delegate compares it with the entity. An entity equals no sensor, so
only subscriptions to every producer are found.
-/

namespace Brooklyn.QueueingSubscriptionManager
open LocalSubscriptionManager (Describes)

variable {Entity Sensor Object Predicate : Type}
  [DecidableEq Entity] [DecidableEq Sensor] [DecidableEq Object]

section Lookup

/-- `Objects.equal(producer, sensor)` -/
def producerEqualsSensor : Option Entity → Option Sensor → Bool
  | none, none => true
  | _, _ => false

/-- The test of a queued subscription. -/
def isListed (s : Subscription Entity Sensor Object Predicate) (sensor : Option Sensor) : Bool :=
  (s.sensor.isNone || decide (s.sensor = sensor)) &&
    (s.producer.isNone || producerEqualsSensor s.producer sensor)

def getSubscriptionsForEntitySensor (source : Option Entity) (sensor : Option Sensor)
    (manager : QueueingSubscriptionManager Entity Sensor Object Predicate) : LinkedSet Nat :=
  if manager.useDelegateForSubscribing then
    manager.delegate.manager.getSubscriptionsForEntitySensor source sensor
  else
    LinkedSet.empty.addAll ((manager.queuedSubscriptions.map Prod.snd).filter fun id =>
      isListed (manager.delegate.subscription id) sensor)

/-- A subscription to the events of one entity, for this sensor among others. -/
structure NamesSource (s : Subscription Entity Sensor Object Predicate) (source : Option Entity)
    (sensor : Option Sensor) : Prop where
  producer : s.producer = source
  named : s.producer ≠ none
  sensor : s.sensor = none ∨ s.sensor = sensor

/-- The delegate would answer alike, once it has the queue. -/
def AnswersAlike (source : Option Entity) (sensor : Option Sensor)
    (manager : QueueingSubscriptionManager Entity Sensor Object Predicate) : Prop :=
  ∀ id, id ∈ manager.getSubscriptionsForEntitySensor source sensor ↔
    id ∈ manager.startDelegatingForSubscribing.delegate.manager.getSubscriptionsForEntitySensor
      source sensor

omit [DecidableEq Entity] [DecidableEq Object] in
theorem isListed_iff (s : Subscription Entity Sensor Object Predicate) (sensor : Option Sensor) :
    isListed s sensor = true ↔ s.producer = none ∧ (s.sensor = none ∨ s.sensor = sensor) := by
  have foreign : producerEqualsSensor s.producer sensor = true → s.producer = none := by
    cases s.producer <;> simp [producerEqualsSensor]
  simp only [isListed, Bool.and_eq_true, Bool.or_eq_true, Option.isNone_iff_eq_none,
    decide_eq_true_eq]
  constructor
  · rintro ⟨onSensor, producer | equal⟩
    · exact ⟨producer, onSensor⟩
    · exact ⟨foreign equal, onSensor⟩
  · exact fun ⟨producer, onSensor⟩ => ⟨onSensor, Or.inl producer⟩

end Lookup

section Reached
variable {manager : QueueingSubscriptionManager Entity Sensor Object Predicate}
  {history : History Entity Sensor Object Predicate}
  {live : LiveSubscriptions Entity Sensor Object Predicate}

/-- A call that does not fit changes nothing: the delegate's subscriptions are not queued. -/
theorem Placed.next_unfit (placed : Placed manager history live)
    {call : Call Entity Sensor Object Predicate} (unfit : ¬ manager.Fits call) :
    manager.next call = manager := by
  cases call with
  | unsubscribe handle =>
    obtain ⟨idle, there⟩ := not_or.mp unfit
    obtain ⟨s, member⟩ := (placed.describes.byId handle).mp (not_not.mp there)
    have unqueued : handle ∉ manager.queuedSubscriptions.map Prod.snd := by
      intro queued
      obtain ⟨entry, listed, rfl⟩ := List.mem_map.mp queued
      exact placed.waiting entry listed s member
    simp only [next, perform, unsubscribe, if_neg idle, if_neg unqueued, Except.map]
  | _ => exact absurd trivial unfit

theorem run_placed (placed : Placed manager history live)
    (calls : List (Call Entity Sensor Object Predicate)) :
    ∃ history live, Placed (calls.foldl next manager) history live := by
  induction calls generalizing manager history live with
  | nil => exact ⟨history, live, placed⟩
  | cons call rest ih =>
    rw [List.foldl_cons]
    by_cases fits : manager.Fits call
    · obtain ⟨live, after⟩ := next_placed placed fits
      exact ih after
    · rw [placed.next_unfit fits]
      exact ih placed

/-- What the delegate finds once it has the queue. -/
theorem Placed.mem_started (placed : Placed manager history live) (source : Option Entity)
    (sensor : Option Sensor) (id : Nat) :
    id ∈ manager.startDelegatingForSubscribing.delegate.manager.getSubscriptionsForEntitySensor
        source sensor ↔
      id ∈ manager.delegate.manager.getSubscriptionsForEntitySensor source sensor ∨
      ∃ queued ∈ manager.queuedSubscriptions, queued.2 = id ∧
        ((manager.delegate.subscription id).producer = none ∨
          (manager.delegate.subscription id).producer = source) ∧
        ((manager.delegate.subscription id).sensor = none ∨
          (manager.delegate.subscription id).sensor = sensor) := by
  have started := (foldl_describes placed.describes placed.known placed.waiting placed.distinct).2
  have found :=
    LocalSubscriptionManager.mem_getSubscriptionsForEntitySensor started source sensor id
  rw [LocalSubscriptionManager.mem_getSubscriptionsForEntitySensor placed.describes source sensor
    id]
  refine found.trans ?_
  constructor
  · rintro ⟨s, member, asked⟩
    rcases List.mem_append.mp member with there | moved
    · exact Or.inl ⟨s, there, asked⟩
    · obtain ⟨queued, listed, same⟩ := List.mem_map.mp moved
      obtain ⟨rfl, rfl⟩ := Prod.mk.inj same
      exact Or.inr ⟨queued, listed, rfl, asked⟩
  · rintro (⟨s, there, asked⟩ | ⟨queued, listed, rfl, asked⟩)
    · exact ⟨s, List.mem_append_left _ there, asked⟩
    · exact ⟨_, List.mem_append_right _ (List.mem_map_of_mem listed), asked⟩

omit [DecidableEq Entity] [DecidableEq Object] in
theorem mem_queued_lookup (idle : ¬ manager.useDelegateForSubscribing) (source : Option Entity)
    (sensor : Option Sensor) (id : Nat) :
    id ∈ manager.getSubscriptionsForEntitySensor source sensor ↔
      ∃ queued ∈ manager.queuedSubscriptions, queued.2 = id ∧
        (manager.delegate.subscription id).producer = none ∧
        ((manager.delegate.subscription id).sensor = none ∨
          (manager.delegate.subscription id).sensor = sensor) := by
  rw [getSubscriptionsForEntitySensor, if_neg idle, LinkedSet.mem_addAll, List.mem_filter,
    isListed_iff, List.mem_map]
  simp only [LinkedSet.not_mem_empty, false_or]
  constructor
  · rintro ⟨⟨queued, listed, same⟩, asked⟩
    exact ⟨queued, listed, same, asked⟩
  · rintro ⟨queued, listed, same, asked⟩
    exact ⟨⟨queued, listed, same⟩, asked⟩

theorem Placed.answersAlike_iff (placed : Placed manager history live) (source : Option Entity)
    (sensor : Option Sensor) :
    manager.AnswersAlike source sensor ↔ manager.useDelegateForSubscribing ∨
      ((∀ queued ∈ manager.queuedSubscriptions,
          ¬ NamesSource (manager.delegate.subscription queued.2) source sensor) ∧
        ∀ id, id ∉ manager.delegate.manager.getSubscriptionsForEntitySensor source sensor) := by
  by_cases delegating : manager.useDelegateForSubscribing
  · refine iff_of_true (fun id => ?_) (Or.inl delegating)
    rw [placed.mem_started, placed.delegating delegating, getSubscriptionsForEntitySensor,
      if_pos delegating]
    simp
  · rw [or_iff_right delegating]
    constructor
    · intro alike
      -- What names the entity is found after the start only, and so is what the delegate has.
      refine ⟨fun queued listed names => ?_, fun id there => ?_⟩
      · have after := (placed.mem_started source sensor queued.2).mpr
          (Or.inr ⟨queued, listed, rfl, Or.inr names.producer, names.sensor⟩)
        obtain ⟨_, _, _, every, _⟩ :=
          (mem_queued_lookup delegating source sensor queued.2).mp ((alike queued.2).mpr after)
        exact names.named every
      · have after := (placed.mem_started source sensor id).mpr (Or.inl there)
        obtain ⟨queued, listed, rfl, _⟩ :=
          (mem_queued_lookup delegating source sensor id).mp ((alike id).mpr after)
        obtain ⟨s, member, _⟩ := (LocalSubscriptionManager.mem_getSubscriptionsForEntitySensor
          placed.describes source sensor queued.2).mp there
        exact placed.waiting queued listed s member
    · rintro ⟨nobody, empty⟩ id
      rw [mem_queued_lookup delegating, placed.mem_started, or_iff_right (empty id)]
      refine exists_congr fun queued => and_congr_right fun listed => and_congr_right ?_
      rintro rfl
      refine and_congr_left fun onSensor => ⟨Or.inl, fun producer => ?_⟩
      rcases producer with every | same
      · exact every
      · by_contra named
        exact nobody queued listed ⟨same, named, onSensor⟩

/-- In every state that is reached: the answers are alike exactly if the manager delegates, or no
queued subscription names the entity as its producer and the delegate has none to add. -/
theorem queued_lookup_iff (calls : List (Call Entity Sensor Object Predicate))
    (source : Option Entity) (sensor : Option Sensor) :
    let manager := calls.foldl next start
    manager.AnswersAlike source sensor ↔ manager.useDelegateForSubscribing ∨
      ((∀ queued ∈ manager.queuedSubscriptions,
          ¬ NamesSource (manager.delegate.subscription queued.2) source sensor) ∧
        ∀ id, id ∉ manager.delegate.manager.getSubscriptionsForEntitySensor source sensor) := by
  obtain ⟨history, live, placed⟩ := run_placed start_placed calls
  exact placed.answersAlike_iff source sensor

/-- A subscription to sensor 2 of entity 1 waits, and is not found for them. -/
theorem queued_subscription_not_found :
    ∃ manager : QueueingSubscriptionManager Nat Nat Nat Nat,
      manager = [.subscribe (.subscribe none (some 1) (some 2) (some 7))].foldl next start ∧
      0 ∈ manager.queuedSubscriptions.map Prod.snd ∧
      ¬ manager.AnswersAlike (some 1) (some 2) := by
  refine ⟨_, rfl, by decide, fun alike => ?_⟩
  exact absurd ((alike 0).mpr (by decide)) (by decide)

end Reached
end Brooklyn.QueueingSubscriptionManager
