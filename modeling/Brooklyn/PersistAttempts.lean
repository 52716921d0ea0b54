import Brooklyn.PeriodicDeltaChangeListener

/-!
What becomes of a notified change. It is recorded in the collector, goes with the
collector into an attempt, and with the attempt's delta to the persister. An attempt that
throws takes what it carries with it, so nothing is lost in the runs where everything such
an attempt carries has been recorded again since.
-/

namespace Brooklyn
namespace PeriodicDeltaChangeListener
open Transition

variable {Entity Location Policy Id Rest Thread : Type}

/-- The next attempt will see the change. -/
def Records (who : Identities Entity Location Policy Id)
    (collector : DeltaCollector Entity Location Policy Id) :
    Change Entity Location Policy → Prop
  | .entityChanged entity => entity ∈ collector.entities
  | .locationChanged location => location ∈ collector.locations
  | .policyChanged policy => policy ∈ collector.policies
  | .entityRemoved entity => who.entity entity ∈ collector.removedEntityIds
  | .locationRemoved location => who.location location ∈ collector.removedLocationIds

def HasMemento (who : Identities Entity Location Policy Id) (delta : Delta Id Rest) :
    Instance Entity Location Policy → Prop
  | .location location => who.location location ∈ delta.locations.map (·.id)
  | .entity entity => who.entity entity ∈ delta.entities.map (·.id)
  | .policy policy => who.policy policy ∈ delta.policies.map (·.id)

def Includes (who : Identities Entity Location Policy Id) (delta : Delta Id Rest) :
    Change Entity Location Policy → Prop
  | .entityChanged entity => HasMemento who delta (.entity entity)
  | .locationChanged location => HasMemento who delta (.location location)
  | .policyChanged policy => HasMemento who delta (.policy policy)
  | .entityRemoved entity => who.entity entity ∈ delta.removedEntityIds
  | .locationRemoved location => who.location location ∈ delta.removedLocationIds

def removalOf : Change Entity Location Policy → Option (Change Entity Location Policy)
  | .entityChanged entity => some (.entityRemoved entity)
  | .locationChanged location => some (.locationRemoved location)
  | _ => none

/-- The instance was unmanaged later, which is a change of its own. -/
def Superseded (notified : List (Change Entity Location Policy)) (time : Nat)
    (change : Change Entity Location Policy) : Prop :=
  ∃ later removal, time < later ∧ removalOf change = some removal ∧
    notified[later]? = some removal

def Pc.attempt : Pc Entity Location Policy Id Rest →
    Option (Attempt Entity Location Policy Id Rest)
  | .generate attempt _ => some attempt
  | .delta attempt => some attempt
  | _ => none

/-- The change is part of a delta that the persister has taken. -/
def Accepted (who : Identities Entity Location Policy Id)
    (shared : Shared Entity Location Policy Id Rest) (time : Nat)
    (change : Change Entity Location Policy) : Prop :=
  ∃ attempt ∈ shared.accepted, time < attempt.since ∧ Includes who attempt.persisterDelta change

def Pc.Carries (who : Identities Entity Location Policy Id)
    (pc : Pc Entity Location Policy Id Rest) (time : Nat)
    (change : Change Entity Location Policy) : Prop :=
  ∃ attempt, pc.attempt = some attempt ∧ time < attempt.since ∧
    Records who attempt.prevDeltaCollector change

/-- The change is with an attempt that is not over. -/
def Carried (who : Identities Entity Location Policy Id)
    (pc : Thread → Pc Entity Location Policy Id Rest) (time : Nat)
    (change : Change Entity Location Policy) : Prop :=
  ∃ thread, (pc thread).Carries who time change

/-- `atRest` is about the states in which no attempt is under way. -/
structure NothingLost (who : Identities Entity Location Policy Id)
    (state : State Entity Location Policy Id Rest Thread) : Prop where
  kept : ∀ time change, state.shared.notified[time]? = some change →
    Superseded state.shared.notified time change ∨ Accepted who state.shared time change ∨
      Records who state.shared.deltaCollector change ∨ Carried who state.pc time change
  atRest : (∀ thread, (state.pc thread).attempt = none) →
    ∀ time change, state.shared.notified[time]? = some change →
      ¬Superseded state.shared.notified time change → ¬Accepted who state.shared time change →
        Records who state.shared.deltaCollector change

section Collectors
variable {who : Identities Entity Location Policy Id}
  {collector : DeltaCollector Entity Location Policy Id} {change : Change Entity Location Policy}

theorem records_empty (change : Change Entity Location Policy) : ¬Records who .empty change := by
  cases change <;> exact LinkedSet.not_mem_empty _

theorem records_of_isEmpty (empty : collector.isEmpty = true) : ¬Records who collector change := by
  simp only [DeltaCollector.isEmpty, Bool.and_eq_true, List.isEmpty_iff] at empty
  obtain ⟨⟨⟨⟨⟨locations, entities⟩, policies⟩, removedEntities⟩, removedLocations⟩, _⟩ := empty
  have nothing {Element : Type} {set : LinkedSet Element} (none : set.elements = [])
      (element : Element) : element ∉ set := by
    change element ∉ set.elements
    rw [none]
    exact List.not_mem_nil
  cases change with
  | entityChanged entity => exact nothing entities entity
  | locationChanged location => exact nothing locations location
  | policyChanged policy => exact nothing policies policy
  | entityRemoved entity => exact nothing removedEntities _
  | locationRemoved location => exact nothing removedLocations _

variable [DecidableEq Entity] [DecidableEq Location] [DecidableEq Policy] [DecidableEq Id]

/-- A notification is recorded with all that it says. -/
theorem notify_taken (notification : Notification Entity Location Policy)
    (member : change ∈ notification.changes) :
    Records who (collector.notify who notification) change := by
  cases notification with
  | onManagedEntity entity hierarchies | onChangedEntity entity hierarchies =>
      rcases List.mem_cons.mp member with rfl | member
      · exact (LinkedSet.mem_add _ _ _).mpr (Or.inr rfl)
      · obtain ⟨location, listed, rfl⟩ := List.mem_map.mp member
        exact (LinkedSet.mem_addAll _ _ _).mpr (Or.inr listed)
  | onManagedLocation location | onChangedLocation location | onChangedPolicy policy
  | onUnmanagedEntity entity | onUnmanagedLocation location =>
      cases List.mem_singleton.mp member
      exact (LinkedSet.mem_add _ _ _).mpr (Or.inr rfl)

/-- What is recorded stays, or the notification says that its instance is unmanaged. -/
theorem notify_records (notification : Notification Entity Location Policy)
    (records : Records who collector change) :
    Records who (collector.notify who notification) change ∨
      ∃ removal ∈ notification.changes, removalOf change = some removal := by
  have added {Element : Type} [DecidableEq Element] {set : LinkedSet Element}
      {element other : Element} (member : element ∈ set) : element ∈ set.add other :=
    (LinkedSet.mem_add _ _ _).mpr (Or.inl member)
  cases notification with
  | onManagedEntity entity hierarchies | onChangedEntity entity hierarchies =>
      left
      cases change with
      | entityChanged other => exact added records
      | locationChanged location => exact (LinkedSet.mem_addAll _ _ _).mpr (Or.inl records)
      | _ => exact records
  | onManagedLocation location | onChangedLocation location =>
      left
      cases change with
      | locationChanged other => exact added records
      | _ => exact records
  | onChangedPolicy policy =>
      left
      cases change with
      | policyChanged other => exact added records
      | _ => exact records
  | onUnmanagedEntity entity =>
      cases change with
      | entityChanged other =>
          by_cases same : other = entity
          · subst same
            exact Or.inr ⟨_, List.mem_singleton_self _, rfl⟩
          · exact Or.inl ((LinkedSet.mem_remove _ _ _).mpr ⟨records, same⟩)
      | entityRemoved other => exact Or.inl (added records)
      | _ => exact Or.inl records
  | onUnmanagedLocation location =>
      cases change with
      | locationChanged other =>
          by_cases same : other = location
          · subst same
            exact Or.inr ⟨_, List.mem_singleton_self _, rfl⟩
          · exact Or.inl ((LinkedSet.mem_remove _ _ _).mpr ⟨records, same⟩)
      | locationRemoved other => exact Or.inl (added records)
      | _ => exact Or.inl records

end Collectors

/-- An id among the removed ones was put there by a notification not before `since`. -/
structure RemovedSince (who : Identities Entity Location Policy Id)
    (shared : Shared Entity Location Policy Id Rest) (since : Nat) : Prop where
  entities : ∀ id ∈ shared.deltaCollector.removedEntityIds, ∃ time entity, since ≤ time ∧
    shared.notified[time]? = some (.entityRemoved entity) ∧ who.entity entity = id
  locations : ∀ id ∈ shared.deltaCollector.removedLocationIds, ∃ time location, since ≤ time ∧
    shared.notified[time]? = some (.locationRemoved location) ∧ who.location location = id

/-- What an attempt has in its delta, and has still to ask for. -/
def Built (who : Identities Entity Location Policy Id) : Pc Entity Location Policy Id Rest → Prop
  | .generate attempt rest => ∀ one ∈ attempt.prevDeltaCollector.instances,
      HasMemento who attempt.persisterDelta one ∨ one ∈ rest
  | .delta attempt => ∀ change, Records who attempt.prevDeltaCollector change →
      Includes who attempt.persisterDelta change
  | _ => True

structure Collected (who : Identities Entity Location Policy Id)
    (state : State Entity Location Policy Id Rest Thread) : Prop where
  kept : ∀ time change, state.shared.notified[time]? = some change →
    Superseded state.shared.notified time change ∨ Accepted who state.shared time change ∨
      Records who state.shared.deltaCollector change ∨ Carried who state.pc time change
  since : ∀ thread attempt, (state.pc thread).attempt = some attempt →
    attempt.since ≤ state.shared.notified.length
  removed : ∀ thread attempt, (state.pc thread).attempt = some attempt →
    RemovedSince who state.shared attempt.since
  built : ∀ thread, Built who (state.pc thread)

section Guard
variable [DecidableEq Entity] [DecidableEq Location] [DecidableEq Policy] [DecidableEq Id]

/-- Everything recorded in the one collector is recorded in the other one, or its instance
is recorded there as removed. -/
def covers (who : Identities Entity Location Policy Id)
    (prev current : DeltaCollector Entity Location Policy Id) : Bool :=
  prev.entities.elements.all (fun entity =>
      decide (entity ∈ current.entities ∨ who.entity entity ∈ current.removedEntityIds)) &&
    prev.locations.elements.all (fun location =>
      decide (location ∈ current.locations ∨
        who.location location ∈ current.removedLocationIds)) &&
    prev.policies.elements.all (fun policy => decide (policy ∈ current.policies)) &&
    prev.removedEntityIds.elements.all (fun id => decide (id ∈ current.removedEntityIds)) &&
    prev.removedLocationIds.elements.all (fun id => decide (id ∈ current.removedLocationIds))

/-- An attempt throws only when what it carries has been recorded again. -/
def throwsCovered (who : Identities Entity Location Policy Id)
    (state : State Entity Location Policy Id Rest Thread) :
    Action Entity Location Policy Id Rest Thread → Bool
  | .throws thread =>
      match (state.pc thread).throwing with
      | some attempt => covers who attempt.prevDeltaCollector state.shared.deltaCollector
      | none => true
  | _ => true

theorem covers_records {who : Identities Entity Location Policy Id}
    {prev current : DeltaCollector Entity Location Policy Id}
    {change : Change Entity Location Policy} (covered : covers who prev current = true)
    (records : Records who prev change) :
    Records who current change ∨
      ∃ removal, removalOf change = some removal ∧ Records who current removal := by
  simp only [covers, Bool.and_eq_true, List.all_eq_true, decide_eq_true_eq] at covered
  obtain ⟨⟨⟨⟨entities, locations⟩, policies⟩, removedEntities⟩, removedLocations⟩ := covered
  cases change with
  | entityChanged entity =>
      rcases entities entity records with again | removed
      · exact Or.inl again
      · exact Or.inr ⟨_, rfl, removed⟩
  | locationChanged location =>
      rcases locations location records with again | removed
      · exact Or.inl again
      · exact Or.inr ⟨_, rfl, removed⟩
  | policyChanged policy => exact Or.inl (policies policy records)
  | entityRemoved entity => exact Or.inl (removedEntities _ records)
  | locationRemoved location => exact Or.inl (removedLocations _ records)

end Guard

section Notified
variable {who : Identities Entity Location Policy Id}
  {shared : Shared Entity Location Policy Id Rest} {time : Nat}
  {change : Change Entity Location Policy} {notified more : List (Change Entity Location Policy)}

theorem superseded_append (superseded : Superseded notified time change) :
    Superseded (notified ++ more) time change := by
  obtain ⟨later, removal, after, removes, said⟩ := superseded
  exact ⟨later, removal, after, removes, (List.getElem?_append_left
    (List.getElem?_eq_some_iff.mp said).choose).trans said⟩

/-- What is said after the change supersedes it. -/
theorem superseded_now {removal : Change Entity Location Policy} (before : time < notified.length)
    (removes : removalOf change = some removal) (member : removal ∈ more) :
    Superseded (notified ++ more) time change := by
  obtain ⟨place, said⟩ := List.mem_iff_getElem?.mp member
  refine ⟨notified.length + place, removal, by omega, removes, ?_⟩
  rw [List.getElem?_append_right (by omega), Nat.add_sub_cancel_left, said]

/-- A change is superseded by a removal that is recorded since. -/
theorem RemovedSince.superseded {since : Nat} (removed : RemovedSince who shared since)
    {removal : Change Entity Location Policy} (before : time < since)
    (removes : removalOf change = some removal)
    (records : Records who shared.deltaCollector removal) :
    Superseded shared.notified time change := by
  cases change with
  | entityChanged entity =>
      cases removes
      obtain ⟨later, other, after, said, same⟩ := removed.entities _ records
      cases who.entityUnique same
      exact ⟨later, _, by omega, rfl, said⟩
  | locationChanged location =>
      cases removes
      obtain ⟨later, other, after, said, same⟩ := removed.locations _ records
      cases who.locationUnique same
      exact ⟨later, _, by omega, rfl, said⟩
  | policyChanged policy | entityRemoved entity | locationRemoved location => cases removes

variable [DecidableEq Entity] [DecidableEq Location] [DecidableEq Policy] [DecidableEq Id]

variable (who) in
/-- What a notification adds to the removed ids. -/
theorem mem_removed_notify (collector : DeltaCollector Entity Location Policy Id)
    (notification : Notification Entity Location Policy) :
    (∀ id ∈ (collector.notify who notification).removedEntityIds,
      id ∈ collector.removedEntityIds ∨
        ∃ entity, .entityRemoved entity ∈ notification.changes ∧ who.entity entity = id) ∧
    ∀ id ∈ (collector.notify who notification).removedLocationIds,
      id ∈ collector.removedLocationIds ∨
        ∃ location, .locationRemoved location ∈ notification.changes ∧
          who.location location = id := by
  cases notification with
  | onUnmanagedEntity entity =>
      refine ⟨fun id member => ?_, fun id member => Or.inl member⟩
      rcases (LinkedSet.mem_add _ _ _).mp member with before | rfl
      · exact Or.inl before
      · exact Or.inr ⟨entity, List.mem_singleton_self _, rfl⟩
  | onUnmanagedLocation location =>
      refine ⟨fun id member => Or.inl member, fun id member => ?_⟩
      rcases (LinkedSet.mem_add _ _ _).mp member with before | rfl
      · exact Or.inl before
      · exact Or.inr ⟨location, List.mem_singleton_self _, rfl⟩
  | _ => exact ⟨fun id member => Or.inl member, fun id member => Or.inl member⟩

theorem removed_notify {since : Nat} (removed : RemovedSince who shared since)
    (bounded : since ≤ shared.notified.length)
    (notification : Notification Entity Location Policy) :
    RemovedSince who (shared.notify who notification) since := by
  unfold Shared.notify
  split
  · have before {time : Nat} {one : Change Entity Location Policy}
        (said : shared.notified[time]? = some one) :
        (shared.notified ++ notification.changes)[time]? = some one :=
      (List.getElem?_append_left (List.getElem?_eq_some_iff.mp said).choose).trans said
    have now {one : Change Entity Location Policy} (member : one ∈ notification.changes) :
        ∃ time, since ≤ time ∧ (shared.notified ++ notification.changes)[time]? = some one := by
      obtain ⟨place, said⟩ := List.mem_iff_getElem?.mp member
      refine ⟨shared.notified.length + place, by omega, ?_⟩
      rw [List.getElem?_append_right (by omega), Nat.add_sub_cancel_left, said]
    obtain ⟨entities, locations⟩ := mem_removed_notify who shared.deltaCollector notification
    constructor
    · intro id member
      rcases entities id member with earlier | ⟨entity, said, same⟩
      · obtain ⟨time, entity, after, said, same⟩ := removed.entities id earlier
        exact ⟨time, entity, after, before said, same⟩
      · obtain ⟨time, after, here⟩ := now said
        exact ⟨time, entity, after, here, same⟩
    · intro id member
      rcases locations id member with earlier | ⟨location, said, same⟩
      · obtain ⟨time, location, after, said, same⟩ := removed.locations id earlier
        exact ⟨time, location, after, before said, same⟩
      · obtain ⟨time, after, here⟩ := now said
        exact ⟨time, location, after, here, same⟩
  · exact removed

end Notified

section Steps
variable [DecidableEq Entity] [DecidableEq Location] [DecidableEq Policy] [DecidableEq Id]
  {who : Identities Entity Location Policy Id}
  {state : State Entity Location Policy Id Rest Thread}
  {after : Shared Entity Location Policy Id Rest}

/-- A notification is recorded; what it takes out of the collector it supersedes. -/
theorem notify_collected (collected : Collected who state)
    (notification : Notification Entity Location Policy) :
    Collected who { state with shared := state.shared.notify who notification } := by
  refine ⟨?_, ?_, ?_, collected.built⟩
  · unfold Shared.notify
    split
    · intro time change said
      dsimp only at said ⊢
      by_cases earlier : time < state.shared.notified.length
      · rw [List.getElem?_append_left earlier] at said
        rcases collected.kept time change said with superseded | accepted | records | carried
        · exact Or.inl (superseded_append superseded)
        · exact Or.inr (Or.inl accepted)
        · rcases notify_records notification records with still | ⟨removal, member, removes⟩
          · exact Or.inr (Or.inr (Or.inl still))
          · exact Or.inl (superseded_now earlier removes member)
        · exact Or.inr (Or.inr (Or.inr carried))
      · rw [List.getElem?_append_right (by omega)] at said
        exact Or.inr (Or.inr (Or.inl (notify_taken notification (List.mem_of_getElem? said))))
    · exact collected.kept
  · intro thread attempt has
    have bounded := collected.since thread attempt has
    unfold Shared.notify
    split
    · rw [List.length_append]
      omega
    · exact bounded
  · intro thread attempt has
    exact removed_notify (collected.removed thread attempt has) (collected.since thread attempt has)
      notification

variable [DecidableEq Thread]

omit [DecidableEq Entity] [DecidableEq Location] [DecidableEq Policy] [DecidableEq Id] in
/-- One step of one attempt. -/
theorem goto_collected (collected : Collected who state) (thread : Thread)
    {next : Pc Entity Location Policy Id Rest}
    (notified : after.notified = state.shared.notified)
    (accepted : ∀ attempt ∈ state.shared.accepted, attempt ∈ after.accepted)
    (recorded : ∀ time change, time < state.shared.notified.length →
      Records who state.shared.deltaCollector change →
        Records who after.deltaCollector change ∨ next.Carries who time change)
    (carried : ∀ time change, (state.pc thread).Carries who time change →
      Superseded after.notified time change ∨ Accepted who after time change ∨
        Records who after.deltaCollector change ∨ next.Carries who time change)
    (removed : ∀ since, RemovedSince who state.shared since → RemovedSince who after since)
    (attempts : ∀ attempt, next.attempt = some attempt →
      attempt.since ≤ state.shared.notified.length ∧ RemovedSince who after attempt.since)
    (built : Built who next) : Collected who (state.goto thread after next) := by
  refine ⟨?_, ?_, ?_, forall_after_update state.pc thread next _ collected.built built⟩
  · intro time change said
    change after.notified[time]? = some change at said
    have said := notified ▸ said
    have here (carries : next.Carries who time change) :
        Carried who (state.goto thread after next).pc time change :=
      ⟨thread, by simpa [State.goto] using carries⟩
    change Superseded after.notified time change ∨ Accepted who after time change ∨
      Records who after.deltaCollector change ∨ _
    rcases collected.kept time change said with superseded | ⟨attempt, member, includes⟩ |
      records | elsewhere
    · exact Or.inl (notified ▸ superseded)
    · exact Or.inr (Or.inl ⟨attempt, accepted attempt member, includes⟩)
    · rcases recorded time change (List.getElem?_eq_some_iff.mp said).choose records with
        still | carries
      · exact Or.inr (Or.inr (Or.inl still))
      · exact Or.inr (Or.inr (Or.inr (here carries)))
    · have stepped (carries : (state.pc thread).Carries who time change) :
          (Superseded after.notified time change ∨ Accepted who after time change ∨
            Records who after.deltaCollector change) ∨ next.Carries who time change := by
        rcases carried time change carries with superseded | accepted | records | still
        · exact Or.inl (Or.inl superseded)
        · exact Or.inl (Or.inr (Or.inl accepted))
        · exact Or.inl (Or.inr (Or.inr records))
        · exact Or.inr still
      rcases exists_after_update state.pc thread next (fun pc => pc.Carries who time change)
        elsewhere stepped with (superseded | accepted | records) | still
      · exact Or.inl superseded
      · exact Or.inr (Or.inl accepted)
      · exact Or.inr (Or.inr (Or.inl records))
      · exact Or.inr (Or.inr (Or.inr still))
  · refine forall_after_update state.pc thread next (fun pc => ∀ attempt, pc.attempt = some attempt →
      attempt.since ≤ after.notified.length) ?_ ?_
    · intro other attempt has
      rw [notified]
      exact collected.since other attempt has
    · intro attempt has
      rw [notified]
      exact (attempts attempt has).1
  · refine forall_after_update state.pc thread next (fun pc => ∀ attempt, pc.attempt = some attempt →
      RemovedSince who after attempt.since) ?_ ?_
    · exact fun other attempt has => removed _ (collected.removed other attempt has)
    · exact fun attempt has => (attempts attempt has).2

omit [DecidableEq Entity] [DecidableEq Location] [DecidableEq Policy] [DecidableEq Id] in
/-- A step of a thread that has no attempt, before and after it. -/
theorem idle_collected (collected : Collected who state) (thread : Thread)
    {next : Pc Entity Location Policy Id Rest} {writeCount : Nat}
    (without : (state.pc thread).attempt = none) (none : next.attempt = none)
    (built : Built who next) :
    Collected who (state.goto thread { state.shared with writeCount := writeCount } next) := by
  refine goto_collected collected thread rfl (fun _ => id) (fun _ _ _ => Or.inl) ?_
    (fun _ removed => ⟨removed.entities, removed.locations⟩) ?_ built
  · rintro time change ⟨attempt, has, _⟩
    rw [without] at has
    cases has
  · intro attempt has
    rw [none] at has
    cases has

omit [DecidableEq Entity] [DecidableEq Location] [DecidableEq Policy] [DecidableEq Id] in
theorem switch_collected (collected : Collected who state) (thread : Thread)
    (at_pc : state.pc thread = .switchDelta) :
    Collected who (state.goto thread { state.shared with deltaCollector := .empty }
      (if state.shared.deltaCollector.isEmpty then .countWrite
        else .generate ⟨state.shared.notified.length, state.shared.deltaCollector, .empty⟩
          state.shared.deltaCollector.instances)) := by
  have fresh (since : Nat) :
      RemovedSince who { state.shared with deltaCollector := .empty } since :=
    ⟨fun _ member => absurd member (LinkedSet.not_mem_empty _),
      fun _ member => absurd member (LinkedSet.not_mem_empty _)⟩
  refine goto_collected collected thread rfl (fun _ => id) ?_ ?_ (fun since _ => fresh since) ?_ ?_
  · intro time change before records
    right
    split
    · next empty => exact absurd records (records_of_isEmpty empty)
    · exact ⟨_, rfl, before, records⟩
  · rintro time change ⟨attempt, has, _⟩
    rw [at_pc] at has
    cases has
  · intro attempt has
    refine ⟨?_, fresh attempt.since⟩
    split at has
    · cases has
    · cases has
      exact Nat.le_refl _
  · split
    · trivial
    · exact fun one member => Or.inr member

omit [DecidableEq Entity] [DecidableEq Location] [DecidableEq Policy] [DecidableEq Id] in
/-- A step that keeps what the attempt took, and may add to its delta. -/
theorem attempt_collected (collected : Collected who state) (thread : Thread)
    {attempt : Attempt Entity Location Policy Id Rest}
    {next : Pc Entity Location Policy Id Rest} {delta : Delta Id Rest}
    (has : (state.pc thread).attempt = some attempt)
    (keeps : next.attempt = some { attempt with persisterDelta := delta })
    (built : Built who next) : Collected who (state.goto thread state.shared next) := by
  refine goto_collected collected thread rfl (fun _ => id) (fun _ _ _ => Or.inl) ?_
    (fun _ => id) ?_ built
  · rintro time change ⟨carrier, also, before, records⟩
    rw [has] at also
    cases also
    exact Or.inr (Or.inr (Or.inr ⟨_, keeps, before, records⟩))
  · intro kept also
    rw [keeps] at also
    cases also
    exact ⟨collected.since thread attempt has, collected.removed thread attempt has⟩

omit [DecidableEq Entity] [DecidableEq Location] [DecidableEq Policy] [DecidableEq Id] in
theorem accept_collected (collected : Collected who state) (thread : Thread)
    {attempt : Attempt Entity Location Policy Id Rest} (at_pc : state.pc thread = .delta attempt) :
    Collected who (state.goto thread
      { state.shared with accepted := state.shared.accepted ++ [attempt] } .countWrite) := by
  have built := collected.built thread
  rw [at_pc] at built
  refine goto_collected collected thread rfl (fun _ member => List.mem_append_left _ member)
    (fun _ _ _ => Or.inl) ?_ (fun _ removed => ⟨removed.entities, removed.locations⟩) nofun trivial
  rintro time change ⟨carrier, has, before, records⟩
  rw [at_pc] at has
  cases has
  exact Or.inr (Or.inl ⟨attempt, by simp, before, built change records⟩)

theorem throw_collected (collected : Collected who state) (thread : Thread)
    {attempt : Attempt Entity Location Policy Id Rest}
    (has : (state.pc thread).attempt = some attempt)
    (covered : covers who attempt.prevDeltaCollector state.shared.deltaCollector = true) :
    Collected who (state.goto thread state.shared .idle) := by
  refine goto_collected collected thread rfl (fun _ => id) (fun _ _ _ => Or.inl) ?_
    (fun _ => id) nofun trivial
  rintro time change ⟨carrier, also, before, records⟩
  rw [has] at also
  cases also
  rcases covers_records covered records with again | ⟨removal, removes, recorded⟩
  · exact Or.inr (Or.inr (Or.inl again))
  · exact Or.inl ((collected.removed thread attempt has).superseded before removes recorded)

end Steps

section Deltas
variable {who : Identities Entity Location Policy Id} {delta : Delta Id Rest}
  {state : MementoState Id Rest} {one other : Instance Entity Location Policy}

theorem hasMemento_added : HasMemento who (delta.addMemento who state one) one := by
  cases one with
  | location location => simp [HasMemento, Delta.addMemento]
  | entity entity => simp [HasMemento, Delta.addMemento]
  | policy policy => simp [HasMemento, Delta.addMemento]

theorem hasMemento_kept (has : HasMemento who delta other) :
    HasMemento who (delta.addMemento who state one) other := by
  have appended {Memento : Type} {mementos : List Memento} {id : Memento → Id} {name : Id}
      (last : Memento) (member : name ∈ mementos.map id) :
      name ∈ (mementos ++ [last]).map id := by
    rw [List.map_append]
    exact List.mem_append_left _ member
  cases one with
  | location location =>
      cases other with
      | location _ => exact appended _ has
      | _ => exact has
  | entity entity =>
      cases other with
      | entity _ => exact appended _ has
      | _ => exact has
  | policy policy =>
      cases other with
      | policy _ => exact appended _ has
      | _ => exact has

/-- The delta of an attempt that has asked every instance includes all it took. -/
theorem includes_of_instances {collector : DeltaCollector Entity Location Policy Id}
    (all : ∀ one ∈ collector.instances, HasMemento who delta one)
    {change : Change Entity Location Policy} (records : Records who collector change) :
    Includes who (delta.setRemoved collector) change := by
  cases change with
  | entityChanged entity =>
      refine all (.entity entity) (List.mem_append_left _ (List.mem_append_right _ ?_))
      exact List.mem_map_of_mem records
  | locationChanged location =>
      refine all (.location location) (List.mem_append_left _ (List.mem_append_left _ ?_))
      exact List.mem_map_of_mem records
  | policyChanged policy =>
      exact all (.policy policy) (List.mem_append_right _ (List.mem_map_of_mem records))
  | entityRemoved entity => exact records
  | locationRemoved location => exact records

end Deltas

section Runs
variable [DecidableEq Entity] [DecidableEq Location] [DecidableEq Policy] [DecidableEq Id]
  [DecidableEq Thread] {who : Identities Entity Location Policy Id}
  {state after : State Entity Location Policy Id Rest Thread}

theorem next_collected (collected : Collected who state) {thread : Thread}
    (moved : step who state (.next thread) = some after) : Collected who after := by
  obtain ⟨reached, ran, rfl⟩ := Option.map_eq_some_iff.mp moved
  have built := collected.built thread
  cases at_pc : state.pc thread with
  | idle => rw [at_pc] at ran; cases ran
  | switchDelta =>
      rw [at_pc] at ran
      cases ran
      exact switch_collected collected thread at_pc
  | generate attempt rest =>
      rw [at_pc] at ran built
      cases rest with
      | nil =>
          cases ran
          refine attempt_collected collected thread (by rw [at_pc]; rfl) rfl ?_
          exact fun change records => includes_of_instances
            (fun one member => (built one member).resolve_right List.not_mem_nil) records
      | cons one rest => cases ran
  | delta attempt =>
      rw [at_pc] at ran
      cases ran
      exact accept_collected collected thread at_pc
  | countWrite =>
      rw [at_pc] at ran
      cases ran
      exact idle_collected collected thread (by rw [at_pc]; rfl) rfl trivial

theorem memento_collected (collected : Collected who state) {thread : Thread}
    {answer : MementoState Id Rest}
    (moved : step who state (.memento thread answer) = some after) : Collected who after := by
  obtain ⟨next, ran, rfl⟩ := Option.map_eq_some_iff.mp moved
  have built := collected.built thread
  cases at_pc : state.pc thread with
  | generate attempt rest =>
      rw [at_pc] at ran built
      cases rest with
      | nil => cases ran
      | cons one rest =>
          cases ran
          refine attempt_collected collected thread (by rw [at_pc]; rfl) rfl ?_
          intro other member
          rcases built other member with has | waiting
          · exact Or.inl (hasMemento_kept has)
          · rcases List.mem_cons.mp waiting with rfl | later
            · exact Or.inl hasMemento_added
            · exact Or.inr later
  | _ => rw [at_pc] at ran; cases ran

omit [DecidableEq Entity] [DecidableEq Location] [DecidableEq Policy] [DecidableEq Id]
  [DecidableEq Thread] in
theorem throwing_attempt {pc : Pc Entity Location Policy Id Rest}
    {attempt : Attempt Entity Location Policy Id Rest} (throws : pc.throwing = some attempt) :
    pc.attempt = some attempt := by
  cases pc with
  | generate own rest =>
      cases rest with
      | nil => cases throws
      | cons one rest => exact throws
  | delta own => exact throws
  | _ => cases throws

theorem step_collected (collected : Collected who state)
    {action : Action Entity Location Policy Id Rest Thread}
    (allowed : throwsCovered who state action = true)
    (moved : step who state action = some after) : Collected who after := by
  cases action with
  | notify notification =>
      cases moved
      exact notify_collected collected notification
  | stop =>
      cases moved
      exact ⟨collected.kept, collected.since,
        fun thread attempt has => ⟨(collected.removed thread attempt has).entities,
          (collected.removed thread attempt has).locations⟩, collected.built⟩
  | persistNow thread =>
      simp only [step] at moved
      split at moved
      · next at_pc =>
        cases moved
        refine idle_collected collected thread (by rw [at_pc]; rfl) ?_ ?_
        · split <;> rfl
        · split <;> trivial
      · cases moved
  | next thread => exact next_collected collected moved
  | memento thread answer => exact memento_collected collected moved
  | throws thread =>
      obtain ⟨attempt, throws, rfl⟩ := Option.map_eq_some_iff.mp moved
      have covered : covers who attempt.prevDeltaCollector state.shared.deltaCollector = true := by
        simpa [throwsCovered, throws] using allowed
      exact throw_collected collected thread (throwing_attempt throws) covered

theorem reached_collected (run : Reached (listener who) (throwsCovered who) state) :
    Collected who state := by
  refine reached_invariant (Collected who) ?_ ?_ run
  · exact ⟨nofun, nofun, nofun, fun _ => trivial⟩
  · exact fun before action after _ collected allowed moved =>
      step_collected collected allowed moved

/-- In every run in which attempts throw only when what they carry has been recorded again,
no change is lost. -/
theorem no_change_lost (run : Reached (listener who) (throwsCovered who) state) :
    NothingLost who state := by
  have collected := reached_collected run
  refine ⟨collected.kept, fun idle time change said kept unaccepted => ?_⟩
  rcases collected.kept time change said with superseded | accepted | records | ⟨thread, attempt,
    has, _⟩
  · exact absurd superseded kept
  · exact absurd accepted unaccepted
  · exact records
  · rw [idle] at has
    cases has

end Runs

section Instances

def pair : Identities Bool Bool Unit Bool where
  entity := id
  location := id
  policy := fun _ => false
  entityUnique := Function.injective_id
  locationUnique := Function.injective_id
  policyUnique := fun _ _ _ => rfl

abbrev PairAction := Action Bool Bool Unit Bool Unit Unit

abbrev PairState := State Bool Bool Unit Bool Unit Unit

def changeTaken : List PairAction :=
  [.notify (.onChangedEntity true []), .persistNow (), .next ()]

theorem accepted_change_kept : ∃ state : PairState,
    (state.shared.accepted.map fun attempt => attempt.persisterDelta.entities) =
      [[⟨true, false, ()⟩]] ∧ NothingLost pair state := by
  obtain ⟨state, run, shown⟩ := replay_shows (listener pair) (throwsCovered pair)
    (changeTaken ++ [.memento () ⟨none, false, ()⟩, .next (), .next (), .next ()])
    (fun state => (state.shared.accepted.map fun attempt => attempt.persisterDelta.entities) ==
      [[⟨true, false, ()⟩]]) (by decide)
  exact ⟨state, by simpa using shown, no_change_lost run⟩

/-- The entity cannot build its memento, and the collector that held it is gone. -/
theorem throwing_attempt_loses_change :
    ¬ ∀ state : PairState, Reached (listener pair) anyStep state → NothingLost pair state := by
  intro kept
  obtain ⟨state, run, shown⟩ := replay_shows (listener pair) anyStep
    (changeTaken ++ [.throws ()])
    (fun state : PairState => state.shared.notified == [.entityChanged true] &&
      state.shared.accepted.isEmpty && !decide (true ∈ state.shared.deltaCollector.entities) &&
      (state.pc ()).attempt.isNone) (by decide)
  simp only [Bool.and_eq_true, beq_iff_eq, List.isEmpty_iff, Bool.not_eq_true',
    decide_eq_false_iff_not, Option.isNone_iff_eq_none] at shown
  obtain ⟨⟨⟨notified, accepted⟩, absent⟩, idle⟩ := shown
  refine absent ((kept state run).atRest (fun _ => idle) 0 (.entityChanged true) ?_ ?_ ?_)
  · rw [notified]
    rfl
  · rintro ⟨later, removal, after, _, said⟩
    rw [notified] at said
    have short := (List.getElem?_eq_some_iff.mp said).choose
    simp only [List.length_singleton] at short
    omega
  · rintro ⟨attempt, member, _⟩
    rw [accepted] at member
    cases member

end Instances

end PeriodicDeltaChangeListener
end Brooklyn
