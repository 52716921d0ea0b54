import Brooklyn.PersistedInstances

/-!
What a flush does to the stores, instance by instance. An instance is written if the last
change of the period says that it changed, and its removal is in the delta if it was
unmanaged at any time of the period. Where both are, the persisters differ: one removes
first, the other writes first and never writes again what it has deleted.
-/

namespace Brooklyn
namespace PersistedInstances
open Transition
open PeriodicDeltaChangeListener (Attempt Records Shared exec memento records_empty)
open SingleUseFiles (Slot)

variable {Entity Location Policy Id Rest : Type}
variable [DecidableEq Entity] [DecidableEq Location] [DecidableEq Policy] [DecidableEq Id]

/-! The collector of a period. -/
section Collectors
variable {who : Identities Entity Location Policy Id}

/-- One change at a time. -/
def take (who : Identities Entity Location Policy Id)
    (collector : DeltaCollector Entity Location Policy Id) :
    Change Entity Location Policy → DeltaCollector Entity Location Policy Id
  | .entityChanged entity => { collector with entities := collector.entities.add entity }
  | .locationChanged location => collector.onChangedLocation location
  | .policyChanged policy => collector.onChangedPolicy policy
  | .entityRemoved entity => collector.onUnmanagedEntity who entity
  | .locationRemoved location => collector.onUnmanagedLocation who location

theorem take_locations (collector : DeltaCollector Entity Location Policy Id)
    (locations : List Location) :
    (locations.map .locationChanged).foldl (take who) collector =
      { collector with locations := collector.locations.addAll locations } := by
  induction locations generalizing collector with
  | nil => rfl
  | cons location rest ih => exact ih _

theorem notify_take (collector : DeltaCollector Entity Location Policy Id)
    (notification : Notification Entity Location Policy) :
    collector.notify who notification = notification.changes.foldl (take who) collector := by
  cases notification with
  | onManagedEntity entity hierarchies | onChangedEntity entity hierarchies =>
      exact (take_locations (take who collector (.entityChanged entity)) hierarchies).symm
  | _ => rfl

theorem records_take_changed (collector : DeltaCollector Entity Location Policy Id)
    (change : Change Entity Location Policy) (item : Item Entity Location) :
    Records who (take who collector change) item.changed ↔
      change = item.changed ∨ (Records who collector item.changed ∧ change ≠ item.removed) := by
  cases item with
  | entity self =>
    cases change with
    | entityChanged other =>
        simp [take, Records, Item.changed, Item.removed, or_comm, eq_comm]
    | entityRemoved other =>
        simp [take, Records, Item.changed, Item.removed, DeltaCollector.onUnmanagedEntity, eq_comm]
    | _ => simp [take, Records, Item.changed, Item.removed, DeltaCollector.onChangedLocation,
        DeltaCollector.onChangedPolicy, DeltaCollector.onUnmanagedLocation]
  | location self =>
    cases change with
    | locationChanged other =>
        simp [take, Records, Item.changed, Item.removed, DeltaCollector.onChangedLocation,
          or_comm, eq_comm]
    | locationRemoved other =>
        simp [take, Records, Item.changed, Item.removed, DeltaCollector.onUnmanagedLocation,
          eq_comm]
    | _ => simp [take, Records, Item.changed, Item.removed, DeltaCollector.onChangedPolicy,
        DeltaCollector.onUnmanagedEntity]

theorem records_take_removed (collector : DeltaCollector Entity Location Policy Id)
    (change : Change Entity Location Policy) (item : Item Entity Location) :
    Records who (take who collector change) item.removed ↔
      change = item.removed ∨ Records who collector item.removed := by
  cases item with
  | entity self =>
    cases change with
    | entityRemoved other =>
        simp [take, Records, Item.removed, DeltaCollector.onUnmanagedEntity, or_comm,
          who.entityUnique.eq_iff, eq_comm]
    | _ => simp [take, Records, Item.removed, DeltaCollector.onChangedLocation,
        DeltaCollector.onChangedPolicy, DeltaCollector.onUnmanagedLocation]
  | location self =>
    cases change with
    | locationRemoved other =>
        simp [take, Records, Item.removed, DeltaCollector.onUnmanagedLocation, or_comm,
          who.locationUnique.eq_iff, eq_comm]
    | _ => simp [take, Records, Item.removed, DeltaCollector.onChangedLocation,
        DeltaCollector.onChangedPolicy, DeltaCollector.onUnmanagedEntity]

omit [DecidableEq Entity] [DecidableEq Location] [DecidableEq Policy] [DecidableEq Id] in
theorem item_eq_some (change : Change Entity Location Policy) (item : Item Entity Location) :
    change.item = some item ↔ change = item.changed ∨ change = item.removed := by
  cases item <;> cases change <;> simp [Change.item, Item.changed, Item.removed]

omit [DecidableEq Entity] [DecidableEq Location] [DecidableEq Policy] [DecidableEq Id] in
theorem changed_ne_removed (item : Item Entity Location) :
    (item.changed : Change Entity Location Policy) ≠ item.removed := by
  cases item <;> exact fun same => by cases same

omit [DecidableEq Policy] [DecidableEq Id] in
theorem lastSaid_concat (item : Item Entity Location)
    (period : List (Change Entity Location Policy)) (change : Change Entity Location Policy) :
    lastSaid item (period ++ [change]) =
      if change.item = some item then some change else lastSaid item period := by
  by_cases about : change.item = some item
  · simp [lastSaid, about]
  · simp [lastSaid, about]

omit [DecidableEq Policy] [DecidableEq Id] in
/-- What is said last of an instance that something is said of. -/
theorem lastSaid_cases (item : Item Entity Location)
    (period : List (Change Entity Location Policy)) :
    (lastSaid item period = none ∧ item.changed ∉ period ∧ item.removed ∉ period) ∨
      lastSaid item period = some item.changed ∨
        (lastSaid item period = some item.removed ∧ item.removed ∈ period) := by
  induction period using List.reverseRecOn with
  | nil => simp [lastSaid]
  | append_singleton period change ih =>
    rw [lastSaid_concat]
    by_cases about : change.item = some item
    · rw [if_pos about]
      rcases (item_eq_some change item).mp about with rfl | rfl
      · exact Or.inr (Or.inl rfl)
      · exact Or.inr (Or.inr ⟨rfl, by simp⟩)
    · rw [if_neg about]
      have other := not_or.mp ((item_eq_some change item).not.mp about)
      simpa [Ne.symm other.1, Ne.symm other.2] using ih

variable (who) in
/-- The collector that took the changes of a period, and what they say. -/
theorem records_changed (item : Item Entity Location)
    (period : List (Change Entity Location Policy)) :
    Records who (period.foldl (take who) .empty) item.changed ↔
      lastSaid item period = some item.changed := by
  induction period using List.reverseRecOn with
  | nil => simp [lastSaid, records_empty]
  | append_singleton period change ih =>
    rw [List.foldl_concat, records_take_changed, ih, lastSaid_concat]
    by_cases about : change.item = some item
    · rw [if_pos about]
      rcases (item_eq_some change item).mp about with rfl | rfl
      · simp
      · simp [Ne.symm (changed_ne_removed item)]
    · have other := not_or.mp ((item_eq_some change item).not.mp about)
      simp [about, other.1, other.2]

variable (who) in
theorem records_removed (item : Item Entity Location)
    (period : List (Change Entity Location Policy)) :
    Records who (period.foldl (take who) .empty) item.removed ↔ item.removed ∈ period := by
  induction period using List.reverseRecOn with
  | nil => simp [records_empty]
  | append_singleton period change ih =>
    rw [List.foldl_concat, records_take_removed, ih, List.mem_append, List.mem_singleton, or_comm,
      eq_comm]

end Collectors

/-! The delta of a collector. -/
section Deltas
variable (who : Identities Entity Location Policy Id)
  (answer : Instance Entity Location Policy → MementoState Id Rest)
  (collector : DeltaCollector Entity Location Policy Id)

omit [DecidableEq Entity] [DecidableEq Location] [DecidableEq Policy] [DecidableEq Id] in
theorem mem_addMemento (delta : Delta Id Rest) (state : MementoState Id Rest)
    (one : Instance Entity Location Policy) (name : FileName Id) :
    name ∈ (delta.addMemento who state one).mementos.map Memento.fileFor ↔
      name ∈ delta.mementos.map Memento.fileFor ∨ one.fileName who = name := by
  cases one <;>
    simp only [Delta.mementos, Delta.addMemento, Instance.fileName, List.map_append, List.map_map,
      List.mem_append, List.map_cons, List.map_nil, List.mem_singleton, Memento.fileFor,
      @eq_comm _ name] <;>
    tauto

omit [DecidableEq Entity] [DecidableEq Location] [DecidableEq Policy] [DecidableEq Id] in
theorem mem_asked (delta : Delta Id Rest) (instances : List (Instance Entity Location Policy))
    (name : FileName Id) :
    name ∈ (instances.foldl (fun delta one => delta.addMemento who (answer one) one)
        delta).mementos.map Memento.fileFor ↔
      name ∈ delta.mementos.map Memento.fileFor ∨
        ∃ one ∈ instances, one.fileName who = name := by
  induction instances generalizing delta with
  | nil => simp
  | cons one rest ih =>
    refine (ih _).trans ?_
    rw [mem_addMemento]
    simp [or_assoc]

omit [DecidableEq Entity] [DecidableEq Location] [DecidableEq Policy] [DecidableEq Id] in
/-- The mementos of a delta are those of the instances of the collector. -/
theorem mem_delta (name : FileName Id) :
    name ∈ (collector.delta who answer).mementos.map Memento.fileFor ↔
      ∃ one ∈ collector.instances, one.fileName who = name := by
  have asked := mem_asked who answer .empty collector.instances name
  exact asked.trans (by simp [Delta.empty, Delta.mementos])

omit [DecidableEq Entity] [DecidableEq Location] [DecidableEq Policy] [DecidableEq Id] in
theorem mem_delta_item (item : Item Entity Location) :
    item.fileName who ∈ (collector.delta who answer).mementos.map Memento.fileFor ↔
      Records who collector item.changed := by
  rw [mem_delta]
  constructor
  · rintro ⟨one, member, same⟩
    simp only [DeltaCollector.instances, List.mem_append, List.mem_map] at member
    rcases member with (⟨location, listed, rfl⟩ | ⟨entity, listed, rfl⟩) | ⟨policy, listed, rfl⟩
    · cases Item.fileName_injective who (show (Item.location location).fileName who = _ from same)
      exact listed
    · cases Item.fileName_injective who (show (Item.entity entity).fileName who = _ from same)
      exact listed
    · cases item <;> cases (Prod.mk.inj same).1
  · intro records
    cases item with
    | entity self =>
      refine ⟨.entity self, ?_, rfl⟩
      exact List.mem_append_left _ (List.mem_append_right _ (List.mem_map_of_mem records))
    | location self =>
      refine ⟨.location self, ?_, rfl⟩
      exact List.mem_append_left _ (List.mem_append_left _ (List.mem_map_of_mem records))

omit [DecidableEq Entity] [DecidableEq Location] [DecidableEq Policy] [DecidableEq Id] in
theorem mem_removedFiles_item (item : Item Entity Location) :
    item.fileName who ∈ (collector.delta who answer).removedFiles ↔
      Records who collector item.removed := by
  cases item with
  | entity self => simp [Delta.removedFiles, DeltaCollector.delta, Delta.setRemoved,
      Item.fileName, Item.removed, Records]; rfl
  | location self => simp [Delta.removedFiles, DeltaCollector.delta, Delta.setRemoved,
      Item.fileName, Item.removed, Records]; rfl

/-- A removed id is the id of an instance. -/
theorem removed_known (period : List (Change Entity Location Policy)) :
    (∀ id ∈ (period.foldl (take who) .empty).removedEntityIds, ∃ entity, who.entity entity = id) ∧
      ∀ id ∈ (period.foldl (take who) .empty).removedLocationIds,
        ∃ location, who.location location = id := by
  induction period using List.reverseRecOn with
  | nil => exact ⟨fun _ member => absurd member (LinkedSet.not_mem_empty _),
      fun _ member => absurd member (LinkedSet.not_mem_empty _)⟩
  | append_singleton period change ih =>
    rw [List.foldl_concat]
    cases change with
    | entityRemoved entity =>
        refine ⟨fun id member => ?_, ih.2⟩
        rcases (LinkedSet.mem_add _ _ _).mp member with before | rfl
        · exact ih.1 id before
        · exact ⟨entity, rfl⟩
    | locationRemoved location =>
        refine ⟨ih.1, fun id member => ?_⟩
        rcases (LinkedSet.mem_add _ _ _).mp member with before | rfl
        · exact ih.2 id before
        · exact ⟨location, rfl⟩
    | _ => exact ih

theorem delta_known (period : List (Change Entity Location Policy)) {name : FileName Id}
    (kind : name.1 ≠ .policies) (unknown : ∀ item : Item Entity Location, item.fileName who ≠ name) :
    name ∉ ((period.foldl (take who) .empty).delta who answer).mementos.map Memento.fileFor ∧
      name ∉ ((period.foldl (take who) .empty).delta who answer).removedFiles := by
  obtain ⟨entities, locations⟩ := removed_known who period
  constructor
  · intro member
    obtain ⟨one, _, same⟩ := (mem_delta who answer _ name).mp member
    cases one with
    | entity self => exact unknown (.entity self) same
    | location self => exact unknown (.location self) same
    | policy self => exact kind (congrArg Prod.fst same).symm
  · intro member
    simp only [Delta.removedFiles, List.mem_append, List.mem_map] at member
    rcases member with (⟨id, listed, rfl⟩ | ⟨id, listed, rfl⟩) | ⟨id, _, rfl⟩
    · obtain ⟨entity, rfl⟩ := entities id listed
      exact unknown (.entity entity) rfl
    · obtain ⟨location, rfl⟩ := locations id listed
      exact unknown (.location location) rfl
    · exact kind rfl

omit [DecidableEq Entity] [DecidableEq Location] [DecidableEq Policy] [DecidableEq Id] in
theorem generate_asks (instances : List (Instance Entity Location Policy))
    (attempt : Attempt Entity Location Policy Id Rest) :
    instances.foldlM (fun pc one => memento who (answer one) pc) (.generate attempt instances) =
      some (.generate { attempt with
        persisterDelta := instances.foldl (fun delta one => delta.addMemento who (answer one) one)
          attempt.persisterDelta } []) := by
  induction instances generalizing attempt with
  | nil => rfl
  | cons one rest ih => exact ih _

omit [DecidableEq Entity] [DecidableEq Location] [DecidableEq Policy] [DecidableEq Id] in
/-- An attempt whose instances all answer calls the persister with the delta of the collector
that it took. -/
theorem attempt_calls_delta (shared : Shared Entity Location Policy Id Rest) (since : Nat) :
    (collector.instances.foldlM (fun pc one => memento who (answer one) pc)
        (.generate ⟨since, collector, .empty⟩ collector.instances)).bind (exec shared) =
      some (shared, .delta ⟨since, collector, collector.delta who answer⟩) := by
  rw [generate_asks]
  rfl

end Deltas

/-! What a flush does. -/
section Flushes
variable (who : Identities Entity Location Policy Id)
  (answer : Instance Entity Location Policy → MementoState Id Rest)
  (state : State Entity Location Policy Id Rest)

omit [DecidableEq Entity] [DecidableEq Location] [DecidableEq Policy] in
theorem contains_delta (memory : MutableBrooklynMemento Id Rest) (delta : Delta Id Rest)
    (name : FileName Id) :
    contains (AbstractBrooklynMementoPersister.delta memory delta) name = true ↔
      name ∈ delta.mementos.map Memento.fileFor ∨
        (name ∉ delta.removedFiles ∧ contains memory name = true) := by
  have found {Value : Type} (values : List Value) (named : Value → Prop) [DecidablePred named]
      (removed : Prop) [Decidable removed] (before : Option Value) :
      ((values.filter (fun value => named value)).getLast?.or
          (if removed then none else before)).isSome = true ↔
        (∃ value ∈ values, named value) ∨ (¬removed ∧ before.isSome = true) := by
    by_cases gone : removed <;> simp [gone]
  obtain ⟨kind, id⟩ := name
  cases kind with
  | entities =>
    rw [contains, delta_entity, found]
    simp [Delta.mementos, Delta.removedFiles, Memento.fileFor, contains]
  | locations =>
    rw [contains, delta_location, found]
    simp [Delta.mementos, Delta.removedFiles, Memento.fileFor, contains]
  | policies =>
    rw [contains, delta_policy, found]
    simp [Delta.mementos, Delta.removedFiles, Memento.fileFor, contains]

omit [DecidableEq Entity] [DecidableEq Location] [DecidableEq Policy] [DecidableEq Id] in
theorem delta_of_isEmpty (empty : state.deltaCollector.isEmpty = true) :
    (state.deltaCollector.delta who answer) = .empty := by
  simp only [DeltaCollector.isEmpty, Bool.and_eq_true, List.isEmpty_iff] at empty
  obtain ⟨⟨⟨⟨⟨locations, entities⟩, policies⟩, removedEntities⟩, removedLocations⟩,
    removedPolicies⟩ := empty
  simp [DeltaCollector.delta, DeltaCollector.instances, Delta.setRemoved, Delta.empty, locations,
    entities, policies, removedEntities, removedLocations, removedPolicies]

omit [DecidableEq Entity] [DecidableEq Location] [DecidableEq Policy] in
theorem contains_persistNow (name : FileName Id) :
    contains (persistNow who answer state).memory name = true ↔
      name ∈ (state.deltaCollector.delta who answer).mementos.map Memento.fileFor ∨
        (name ∉ (state.deltaCollector.delta who answer).removedFiles ∧
          contains state.memory name = true) := by
  unfold persistNow
  split
  · next empty =>
    rw [delta_of_isEmpty who answer state empty]
    simp [Delta.empty, Delta.mementos, Delta.removedFiles]
  · exact contains_delta state.memory _ name

omit [DecidableEq Entity] [DecidableEq Location] [DecidableEq Policy] in
theorem files_persistNow (name : FileName Id) :
    (persistNow who answer state).files name =
      (state.files name).replace
        ((state.deltaCollector.delta who answer).mementos.filter fun memento =>
          memento.fileFor = name)
        (decide (name ∈ (state.deltaCollector.delta who answer).removedFiles)) := by
  unfold persistNow
  split
  · next empty =>
    rw [delta_of_isEmpty who answer state empty]
    simp [Delta.empty, Delta.mementos, Delta.removedFiles, Slot.replace, Slot.writeAll]
  · exact run_delta state.files _ name

omit [DecidableEq Entity] [DecidableEq Location] [DecidableEq Policy] in
/-- What a flush leaves of the rest of the state. -/
theorem persistNow_rest :
    (persistNow who answer state).deltaCollector = .empty ∧
      (persistNow who answer state).period = [] ∧
      (persistNow who answer state).managed = state.managed ∧
      (persistNow who answer state).flushed = state.managed := by
  unfold persistNow
  split <;> exact ⟨rfl, rfl, rfl, rfl⟩

end Flushes

/-! Runs. -/
section Runs
variable {who : Identities Entity Location Policy Id} {persister : Persister}
  {state : State Entity Location Policy Id Rest}

/-- The period so far, as the collector and the managed instances tell it. -/
structure Tracked (who : Identities Entity Location Policy Id)
    (state : State Entity Location Policy Id Rest) : Prop where
  collected : state.deltaCollector = state.period.foldl (take who) .empty
  unsaid : ∀ item, lastSaid item state.period = none →
    (item ∈ state.managed ↔ item ∈ state.flushed)
  removed : ∀ item, lastSaid item state.period = some item.removed → item ∉ state.managed

omit [DecidableEq Policy] [DecidableEq Id] in
theorem lastSaid_append (item : Item Entity Location)
    (period more : List (Change Entity Location Policy)) :
    lastSaid item (period ++ more) = (lastSaid item more).or (lastSaid item period) := by
  rw [lastSaid, List.filter_append, List.getLast?_append]
  rfl

omit [DecidableEq Policy] [DecidableEq Id] in
/-- A notification that says nothing of an instance does not manage or unmanage it. -/
theorem manage_unsaid {item : Item Entity Location} {managed : LinkedSet (Item Entity Location)}
    {notification : Notification Entity Location Policy}
    (unsaid : lastSaid item notification.changes = none) :
    item ∈ manage managed notification ↔ item ∈ managed := by
  have silent (change : Change Entity Location Policy) (member : change ∈ notification.changes) :
      change.item ≠ some item := by
    simpa [lastSaid] using (List.filter_eq_nil_iff.mp (List.getLast?_eq_none_iff.mp unsaid)) _ member
  cases notification with
  | onManagedEntity entity hierarchies =>
      have other : item ≠ .entity entity := fun same =>
        silent _ List.mem_cons_self (congrArg some same.symm)
      simp [manage, other]
  | onManagedLocation location =>
      have other : item ≠ .location location := fun same =>
        silent _ (List.mem_singleton_self _) (congrArg some same.symm)
      simp [manage, other]
  | onUnmanagedEntity entity =>
      have other : item ≠ .entity entity := fun same =>
        silent _ (List.mem_singleton_self _) (congrArg some same.symm)
      simp [manage, other]
  | onUnmanagedLocation location =>
      have other : item ≠ .location location := fun same =>
        silent _ (List.mem_singleton_self _) (congrArg some same.symm)
      simp [manage, other]
  | _ => exact Iff.rfl

omit [DecidableEq Policy] [DecidableEq Id] in
theorem manage_removed {item : Item Entity Location} (managed : LinkedSet (Item Entity Location))
    {notification : Notification Entity Location Policy}
    (said : lastSaid item notification.changes = some item.removed) :
    item ∉ manage managed notification := by
  have member : item.removed ∈ notification.changes :=
    List.mem_of_mem_filter (List.mem_of_getLast? said)
  cases item with
  | entity self =>
    cases notification with
    | onUnmanagedEntity entity =>
        cases List.mem_singleton.mp member
        simp [manage]
    | _ => simp [Notification.changes, Item.removed] at member
  | location self =>
    cases notification with
    | onUnmanagedLocation location =>
        cases List.mem_singleton.mp member
        simp [manage]
    | _ => simp [Notification.changes, Item.removed] at member

theorem notify_tracked (tracked : Tracked who state)
    (notification : Notification Entity Location Policy) :
    Tracked who { state with
      deltaCollector := state.deltaCollector.notify who notification
      managed := manage state.managed notification
      period := state.period ++ notification.changes } := by
  refine ⟨?_, fun item said => ?_, fun item said => ?_⟩
  · change state.deltaCollector.notify who notification = _
    rw [notify_take, tracked.collected, List.foldl_append]
  · rw [lastSaid_append, Option.or_eq_none_iff] at said
    exact (manage_unsaid said.1).trans (tracked.unsaid item said.2)
  · rw [lastSaid_append] at said
    rcases lastSaid_cases item notification.changes with ⟨none, _⟩ | changed | ⟨removed, _⟩
    · rw [none, Option.none_or] at said
      exact fun member => tracked.removed item said ((manage_unsaid none).mp member)
    · rw [changed, Option.some_or] at said
      exact absurd (Option.some.inj said) (changed_ne_removed item)
    · exact manage_removed state.managed removed

theorem flush_tracked (answer : Instance Entity Location Policy → MementoState Id Rest) :
    Tracked who (persistNow who answer state) := by
  obtain ⟨collector, period, managed, flushed⟩ := persistNow_rest who answer state
  refine ⟨?_, fun item _ => ?_, fun item said => ?_⟩
  · rw [collector, period]
    rfl
  · rw [managed, flushed]
  · rw [period] at said
    cases said

omit [DecidableEq Id] in
/-- What the guard of a flush says of an instance that something was said of. -/
theorem keeps_said {answer : Instance Entity Location Policy → MementoState Id Rest}
    (allowed : keeps who persister state (.flush answer) = true) {item : Item Entity Location}
    {change : Change Entity Location Policy} (said : lastSaid item state.period = some change) :
    match persister with
    | .abstract => keepsMemento state item = true
    | .toMultiFile => keepsFile who state item = true := by
  have member := List.mem_filter.mp (List.mem_of_getLast? said)
  have listed : item ∈ state.period.filterMap Change.item :=
    List.mem_filterMap.mpr ⟨change, member.1, of_decide_eq_true member.2⟩
  have kept := List.all_eq_true.mp allowed item listed
  cases persister <;> exact kept

theorem memory_follows (tracked : Tracked who state)
    {answer : Instance Entity Location Policy → MementoState Id Rest}
    (allowed : keeps who .abstract state (.flush answer) = true) {item : Item Entity Location}
    (before : contains state.memory (item.fileName who) = true ↔ item ∈ state.flushed) :
    contains (persistNow who answer state).memory (item.fileName who) = true ↔
      item ∈ state.managed := by
  rw [contains_persistNow, mem_delta_item, mem_removedFiles_item, tracked.collected,
    records_changed, records_removed]
  rcases lastSaid_cases item state.period with ⟨none, _, unremoved⟩ | changed | ⟨removed, member⟩
  · simpa [none, unremoved, tracked.unsaid item none] using before
  · have managed := keeps_said allowed changed
    simp only [keepsMemento, decide_eq_true_eq] at managed
    simp [changed, managed changed]
  · have unmanaged := tracked.removed item removed
    simpa [removed, member, unmanaged] using (changed_ne_removed item).symm

theorem file_follows (tracked : Tracked who state)
    {answer : Instance Entity Location Policy → MementoState Id Rest}
    (allowed : keeps who .toMultiFile state (.flush answer) = true) {item : Item Entity Location}
    (before : (state.files (item.fileName who)).file.isSome = true ↔ item ∈ state.flushed) :
    ((persistNow who answer state).files (item.fileName who)).file.isSome = true ↔
      item ∈ state.managed := by
  rw [files_persistNow]
  have written : ((state.deltaCollector.delta who answer).mementos.filter fun memento =>
      memento.fileFor = item.fileName who) ≠ [] ↔ lastSaid item state.period = some item.changed := by
    rw [← records_changed who, ← tracked.collected, ← mem_delta_item who answer]
    simp [List.filter_eq_nil_iff]
  have deleted : item.fileName who ∈ (state.deltaCollector.delta who answer).removedFiles ↔
      item.removed ∈ state.period := by
    rw [mem_removedFiles_item, tracked.collected, records_removed]
  simp only [deleted]
  rcases lastSaid_cases item state.period with ⟨none, _, unremoved⟩ | changed | ⟨removed, member⟩
  · have unwritten := not_not.mp (written.not.mpr (by simp [none]))
    rw [unwritten, Slot.replace_nil]
    simpa [unremoved, tracked.unsaid item none] using before
  · have kept := keeps_said allowed changed
    rw [Slot.isSome_file_replace _ _ (written.mpr changed)]
    by_cases managed : item ∈ state.managed
    · simpa [keepsFile, managed] using kept
    · simpa [keepsFile, managed, changed, or_iff_not_imp_left] using kept
  · have kept := keeps_said allowed removed
    have unmanaged := tracked.removed item removed
    have last : (some item.removed : Option (Change Entity Location Policy)) ≠ some item.changed :=
      fun same => changed_ne_removed item (Option.some.inj same).symm
    have unwritten := not_not.mp (written.not.mpr (by rw [removed]; exact last))
    rw [unwritten, Slot.replace_nil]
    simp only [keepsFile, if_neg unmanaged, removed, if_neg last] at kept
    simp [member, unmanaged, Slot.file_delete kept]

theorem flush_follows (tracked : Tracked who state) (follows : Follows who persister state)
    {answer : Instance Entity Location Policy → MementoState Id Rest}
    (allowed : keeps who persister state (.flush answer) = true) :
    Follows who persister (persistNow who answer state) := by
  intro name kind
  obtain ⟨_, _, _, flushed⟩ := persistNow_rest who answer state
  rw [flushed]
  have named {items : LinkedSet (Item Entity Location)} {item : Item Entity Location} :
      (∃ other ∈ items, other.fileName who = item.fileName who) ↔ item ∈ items := by
    constructor
    · rintro ⟨other, member, same⟩
      rwa [← Item.fileName_injective who same]
    · exact fun member => ⟨item, member, rfl⟩
  by_cases known : ∃ item : Item Entity Location, item.fileName who = name
  · obtain ⟨item, rfl⟩ := known
    have before := (follows _ kind).trans named
    rw [named]
    cases persister with
    | abstract => exact memory_follows tracked allowed before
    | toMultiFile => exact file_follows tracked allowed before
  · -- No instance has that name: the delta does not mention it.
    have unknown (item : Item Entity Location) : item.fileName who ≠ name :=
      fun same => known ⟨item, same⟩
    obtain ⟨unwritten, unremoved⟩ := delta_known who answer state.period kind unknown
    rw [← tracked.collected] at unwritten unremoved
    have before := follows name kind
    have nobody {items : LinkedSet (Item Entity Location)} :
        ¬∃ item ∈ items, item.fileName who = name := fun ⟨item, _, same⟩ => unknown item same
    refine ⟨fun held => absurd (before.mp ?_) nobody, fun held => absurd held nobody⟩
    cases persister with
    | abstract =>
        rcases (contains_persistNow who answer state name).mp held with member | ⟨_, still⟩
        · exact absurd member unwritten
        · exact still
    | toMultiFile =>
        have nothing : ((state.deltaCollector.delta who answer).mementos.filter fun memento =>
            memento.fileFor = name) = [] := by
          simpa [List.filter_eq_nil_iff] using unwritten
        rw [State.holds, files_persistNow, nothing] at held
        simpa [unremoved, State.holds] using held

theorem reached_follows {restored : Restored Rest who}
    (run : Reached (system restored) (keeps who persister) state) :
    Tracked who state ∧ Follows who persister state := by
  refine reached_invariant (fun state => Tracked who state ∧ Follows who persister state) ?_ ?_ run
  · exact ⟨⟨rfl, fun _ _ => Iff.rfl, fun item said => by cases said⟩, restored.follows persister⟩
  · rintro before action after _ ⟨tracked, follows⟩ allowed moved
    cases action with
    | notify notification =>
        cases moved
        exact ⟨notify_tracked tracked notification, follows⟩
    | flush answer =>
        cases moved
        exact ⟨flush_tracked answer, flush_follows tracked follows allowed⟩

/-- In every run whose flushes keep what they are told about, the store of the persister
contains exactly the instances that were managed at the last flush. -/
theorem persistence_follows_management (persister : Persister) (restored : Restored Rest who)
    (state : State Entity Location Policy Id Rest)
    (run : Reached (system restored) (keeps who persister) state) :
    Follows who persister state :=
  (reached_follows run).2

end Runs

section Instances
open PeriodicDeltaChangeListener (pair)

abbrev PairAction := Action Bool Bool Unit Bool Unit

abbrev PairState := State Bool Bool Unit Bool Unit

def nothing : Restored Unit pair where
  managed := .empty
  memory := .empty
  existing := fun _ => none
  follows := by
    rintro (_ | _) ⟨kind, id⟩ _
    · cases kind <;> simp [State.holds, started, contains, MutableBrooklynMemento.empty]
    · simp [State.holds, started, Slot.file]

def flush : PairAction := .flush fun _ => ⟨none, false, ()⟩

def managedAndFlushed : List PairAction := [.notify (.onManagedEntity true []), flush]

/-- An unmanaged instance goes from both stores, and another one comes. -/
theorem unmanaged_instance_removed : ∃ state : PairState,
    state.flushed.elements = [.location false] ∧ Follows pair .toMultiFile state := by
  obtain ⟨state, run, shown⟩ := replay_shows (system nothing) (keeps pair .toMultiFile)
    (managedAndFlushed ++ [.notify (.onUnmanagedEntity true), .notify (.onManagedLocation false),
      flush])
    (fun state => state.flushed.elements == [.location false]) (by decide)
  exact ⟨state, by simpa using shown,
    persistence_follows_management .toMultiFile nothing state run⟩

/-- Unmanaged and managed again in one period, the instance has no file afterwards; and a
change notified after the unmanaging brings its memento back into memory. -/
theorem remanaged_file_deleted :
    (¬∀ state : PairState, Reached (system nothing) anyStep state →
      Follows pair .toMultiFile state) ∧
    ¬∀ state : PairState, Reached (system nothing) anyStep state →
      Follows pair .abstract state := by
  constructor
  · intro follows
    obtain ⟨state, run, shown⟩ := replay_shows (system nothing) anyStep
      (managedAndFlushed ++ [.notify (.onUnmanagedEntity true),
        .notify (.onManagedEntity true []), flush])
      (fun state => decide (.entity true ∈ state.flushed) &&
        !state.holds .toMultiFile (.entities, true)) (by decide)
    simp only [Bool.and_eq_true, decide_eq_true_eq, Bool.not_eq_true'] at shown
    have held := (follows state run (.entities, true) (by decide)).mpr ⟨_, shown.1, rfl⟩
    rw [shown.2] at held
    cases held
  · intro follows
    obtain ⟨state, run, shown⟩ := replay_shows (system nothing) anyStep
      (managedAndFlushed ++ [.notify (.onUnmanagedEntity true),
        .notify (.onChangedEntity true []), flush])
      (fun state => state.flushed.elements.isEmpty && state.holds .abstract (.entities, true))
      (by decide)
    simp only [Bool.and_eq_true, List.isEmpty_iff] at shown
    obtain ⟨item, member, _⟩ := (follows state run (.entities, true) (by decide)).mp shown.2
    have listed : item ∈ state.flushed.elements := member
    rw [shown.1] at listed
    cases listed

end Instances

end PersistedInstances
end Brooklyn
