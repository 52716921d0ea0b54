import Brooklyn.KeyIndex
import Brooklyn.MutableBrooklynMemento

/-!
`applicationIds` and `topLevelLocationIds` as indexes of the mementos. An update adds the
id of a top-level memento and never takes one out, so an id whose memento is replaced by
one of the other kind stays in the index until it is removed.
-/

namespace Brooklyn

def LocationMemento.isTopLevel {Id Rest : Type} (memento : LocationMemento Id Rest) : Bool :=
  memento.parent.isNone

namespace MutableBrooklynMemento
open KeyIndex

variable {Id Rest : Type}

structure IndexesRight (mutable : MutableBrooklynMemento Id Rest) : Prop where
  applicationIds : ∀ id, id ∈ mutable.applicationIds ↔
    ∃ memento, mutable.entities.get id = some memento ∧ memento.isTopLevelApp = true
  topLevelLocationIds : ∀ id, id ∈ mutable.topLevelLocationIds ↔
    ∃ memento, mutable.locations.get id = some memento ∧ memento.parent = none
  applicationsKnown : ∀ id ∈ mutable.applicationIds, (mutable.entities.get id).isSome
  locationsKnown : ∀ id ∈ mutable.topLevelLocationIds, (mutable.locations.get id).isSome

/-- The entities with their index. -/
def applications (mutable : MutableBrooklynMemento Id Rest) :
    Indexed Id (EntityMemento Id Rest) :=
  ⟨mutable.entities, mutable.applicationIds⟩

def topLevelLocations (mutable : MutableBrooklynMemento Id Rest) :
    Indexed Id (LocationMemento Id Rest) :=
  ⟨mutable.locations, mutable.topLevelLocationIds⟩

def Call.entityChanges : Call Id Rest → List (Change Id (EntityMemento Id Rest))
  | .updateEntityMementos mementos => mementos.map .put
  | .removeEntities ids => [.removeAll ids]
  | _ => []

def Call.locationChanges : Call Id Rest → List (Change Id (LocationMemento Id Rest))
  | .updateLocationMementos mementos => mementos.map .put
  | .removeLocations ids => [.removeAll ids]
  | _ => []

variable [DecidableEq Id]

/-- The mementos that the calls put for an entity since they last removed it. -/
def entityPuts (calls : List (Call Id Rest)) (id : Id) : List (EntityMemento Id Rest) :=
  puts EntityMemento.id id (calls.flatMap Call.entityChanges)

def locationPuts (calls : List (Call Id Rest)) (id : Id) : List (LocationMemento Id Rest) :=
  puts LocationMemento.id id (calls.flatMap Call.locationChanges)

section Refinement
variable (mutable : MutableBrooklynMemento Id Rest)

theorem applications_updateEntityMementos (mementos : List (EntityMemento Id Rest)) :
    (mutable.updateEntityMementos mementos).applications =
      mutable.applications.run EntityMemento.id EntityMemento.isTopLevelApp
        (mementos.map .put) := by
  induction mementos generalizing mutable with
  | nil => rfl
  | cons memento rest ih => exact ih _

theorem topLevelLocations_updateLocationMementos (mementos : List (LocationMemento Id Rest)) :
    (mutable.updateLocationMementos mementos).topLevelLocations =
      mutable.topLevelLocations.run LocationMemento.id LocationMemento.isTopLevel
        (mementos.map .put) := by
  induction mementos generalizing mutable with
  | nil => rfl
  | cons memento rest ih => exact ih _

/-- Updates of one kind of memento leave what belongs to another kind. -/
theorem view_unchanged {State Item View : Type} (view : State → View)
    {update : State → Item → State} (same : ∀ state item, view (update state item) = view state)
    (state : State) (items : List Item) : view (items.foldl update state) = view state := by
  induction items generalizing state with
  | nil => rfl
  | cons item rest ih => exact (ih _).trans (same state item)

theorem applications_perform (call : Call Id Rest) :
    (mutable.perform call).applications =
      mutable.applications.run EntityMemento.id EntityMemento.isTopLevelApp call.entityChanges := by
  cases call with
  | updateEntityMementos mementos => exact mutable.applications_updateEntityMementos mementos
  | updateLocationMementos mementos => exact view_unchanged applications (by intros; rfl) mutable mementos
  | updatePolicyMementos mementos => exact view_unchanged applications (by intros; rfl) mutable mementos
  | removeEntities ids | removeLocations ids | removePolicies ids => rfl

theorem topLevelLocations_perform (call : Call Id Rest) :
    (mutable.perform call).topLevelLocations =
      mutable.topLevelLocations.run LocationMemento.id LocationMemento.isTopLevel
        call.locationChanges := by
  cases call with
  | updateEntityMementos mementos =>
      exact view_unchanged topLevelLocations (by intros; rfl) mutable mementos
  | updateLocationMementos mementos =>
      exact mutable.topLevelLocations_updateLocationMementos mementos
  | updatePolicyMementos mementos =>
      exact view_unchanged topLevelLocations (by intros; rfl) mutable mementos
  | removeEntities ids | removeLocations ids | removePolicies ids => rfl

theorem applications_performAll (calls : List (Call Id Rest)) :
    (mutable.performAll calls).applications =
      mutable.applications.run EntityMemento.id EntityMemento.isTopLevelApp
        (calls.flatMap Call.entityChanges) := by
  induction calls generalizing mutable with
  | nil => rfl
  | cons call rest ih =>
    have performed := ih (mutable.perform call)
    rw [applications_perform] at performed
    refine performed.trans ?_
    rw [List.flatMap_cons, Indexed.run, Indexed.run, ← List.foldl_append]
    rfl

theorem topLevelLocations_performAll (calls : List (Call Id Rest)) :
    (mutable.performAll calls).topLevelLocations =
      mutable.topLevelLocations.run LocationMemento.id LocationMemento.isTopLevel
        (calls.flatMap Call.locationChanges) := by
  induction calls generalizing mutable with
  | nil => rfl
  | cons call rest ih =>
    have performed := ih (mutable.perform call)
    rw [topLevelLocations_perform] at performed
    refine performed.trans ?_
    rw [List.flatMap_cons, Indexed.run, Indexed.run, ← List.foldl_append]
    rfl

end Refinement

omit [DecidableEq Id] in
theorem indexes_right_of_indexed (mutable : MutableBrooklynMemento Id Rest) :
    mutable.IndexesRight ↔ Right EntityMemento.isTopLevelApp mutable.applications ∧
      Right LocationMemento.isTopLevel mutable.topLevelLocations := by
  have topLevel (memento : LocationMemento Id Rest) :
      memento.isTopLevel = true ↔ memento.parent = none := Option.isNone_iff_eq_none
  constructor
  · intro right
    refine ⟨⟨right.applicationsKnown, right.applicationIds⟩, right.locationsKnown, fun id => ?_⟩
    exact (right.topLevelLocationIds id).trans (by simp only [topLevel]; rfl)
  · rintro ⟨applications, locations⟩
    refine ⟨applications.exact, fun id => ?_, applications.named, locations.named⟩
    exact (locations.exact id).trans (by simp only [topLevel]; rfl)

/-- After a sequence of calls the indexes are right exactly if no memento of a kind that
is not indexed was put for an id after one that is, unless the id was removed in between. -/
theorem indexes_right_iff (calls : List (Call Id Rest)) :
    ((empty : MutableBrooklynMemento Id Rest).performAll calls).IndexesRight ↔
      (∀ id, Settled EntityMemento.isTopLevelApp (entityPuts calls id)) ∧
        ∀ id, Settled LocationMemento.isTopLevel (locationPuts calls id) := by
  rw [indexes_right_of_indexed, applications_performAll, topLevelLocations_performAll]
  exact and_congr (right_run_iff _) (right_run_iff _)

/-- A location that gets a parent stays in the index of those that have none. -/
theorem reparented_location_stays_top_level :
    ¬ ∀ calls : List (Call Nat Unit), (empty.performAll calls).IndexesRight := by
  intro right
  have indexed := (right [.updateLocationMementos [⟨0, none, ()⟩],
    .updateLocationMementos [⟨0, some 1, ()⟩]]).topLevelLocationIds 0
  obtain ⟨memento, found, top⟩ := indexed.mp (by decide)
  cases found
  cases top

end MutableBrooklynMemento
end Brooklyn
