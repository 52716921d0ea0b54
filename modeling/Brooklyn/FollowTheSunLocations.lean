import Brooklyn.FollowTheSunModel
import Mathlib.Data.List.Induction

/-!
The locations that `DefaultFollowTheSunModel` keeps for its items: where they
agree with the containers, and which updates keep them so. Removing a container
leaves the locations of its items behind.
-/

namespace Brooklyn.DefaultFollowTheSunModel
variable {Container Item : Type} [DecidableEq Container] [DecidableEq Item]

theorem built_append (containerOrder : SetOrder Container) (itemOrder : SetOrder Item)
    (updates more : List (Update Container Item)) :
    built containerOrder itemOrder (updates ++ more) =
      more.foldl (apply containerOrder itemOrder) (built containerOrder itemOrder updates) :=
  List.foldl_append

theorem built_concat (containerOrder : SetOrder Container) (itemOrder : SetOrder Item)
    (updates : List (Update Container Item)) (update : Update Container Item) :
    built containerOrder itemOrder (updates ++ [update]) =
      (built containerOrder itemOrder updates).apply containerOrder itemOrder update :=
  built_append containerOrder itemOrder updates [update]

section Pool

/-- Exactly the containers of the pool have a location recorded, if only `NULL_LOCATION`. -/
structure Pooled (model : DefaultFollowTheSunModel Container Item) : Prop where
  distinct : model.containers.Nodup
  recorded : ∀ container,
    container ∈ model.containers ↔ (model.containerToLocation.get container).isSome

theorem Pooled.relocateContainer {model : DefaultFollowTheSunModel Container Item}
    {containers : List Container} {container : Container} (order : SetOrder Container)
    (location : Option Location) (distinct : containers.Nodup)
    (members : ∀ other, other ∈ containers ↔ other = container ∨ other ∈ model.containers)
    (pooled : Pooled model) :
    Pooled ({ model with containers }.relocateContainer order container location) where
  distinct := distinct
  recorded other := by
    refine (members other).trans ?_
    simp only [DefaultFollowTheSunModel.relocateContainer, HashedMap.get_put, pooled.recorded]
    by_cases same : other = container <;> simp [same]

theorem apply_pooled (containerOrder : SetOrder Container) (itemOrder : SetOrder Item)
    {model : DefaultFollowTheSunModel Container Item} (pooled : Pooled model)
    (update : Update Container Item) : Pooled (model.apply containerOrder itemOrder update) := by
  cases update with
  | containerAdded container location =>
      exact pooled.relocateContainer containerOrder location
        (containerOrder.nodup_add pooled.distinct container)
        (containerOrder.mem_add model.containers container)
  | containerRemoved container =>
      refine ⟨pooled.distinct.erase container, fun other => ?_⟩
      simp only [apply, onContainerRemoved, pooled.distinct.mem_erase_iff, pooled.recorded,
        HashedMap.get_remove]
      by_cases same : other = container <;> simp [same]
  | containerLocationUpdated container location =>
      simp only [apply, onContainerLocationUpdated]
      split
      · next inPool =>
        refine pooled.relocateContainer containerOrder location pooled.distinct fun other =>
          ⟨Or.inr, ?_⟩
        rintro (rfl | member)
        · exact inPool
        · exact member
      · exact pooled
  | itemAdded item container immovable =>
      simp only [apply, onItemAdded]
      split <;> exact ⟨pooled.distinct, pooled.recorded⟩
  | itemRemoved item => exact ⟨pooled.distinct, pooled.recorded⟩
  | itemMoved item newContainer => exact ⟨pooled.distinct, pooled.recorded⟩
  | itemUsageUpdated item newValue =>
      simp only [apply, onItemUsageUpdated]
      split
      · exact ⟨pooled.distinct, pooled.recorded⟩
      · exact pooled

theorem built_pooled (containerOrder : SetOrder Container) (itemOrder : SetOrder Item)
    (updates : List (Update Container Item)) :
    Pooled (built containerOrder itemOrder updates) := by
  induction updates using List.reverseRecOn with
  | nil => exact ⟨List.nodup_nil, fun container => by simp [built, empty]⟩
  | append_singleton earlier update ih =>
      rw [built_concat]
      exact apply_pooled containerOrder itemOrder ih update

end Pool

/-- The location of every item is the one recorded for its container, and null
without a container of the pool. -/
structure LocationsCurrent (model : DefaultFollowTheSunModel Container Item) : Prop where
  inPool : ∀ item container, model.getItemContainer item = some container →
    container ∈ model.containers →
    model.getItemLocation item = model.getContainerLocation container
  noContainer : ∀ item, model.getItemContainer item = none → model.getItemLocation item = none
  notInPool : ∀ item container, model.getItemContainer item = some container →
    container ∉ model.containers → model.getItemLocation item = none

/-- Every item has the location that placing it again would record. -/
def Cached (model : DefaultFollowTheSunModel Container Item) : Prop :=
  ∀ item, model.getItemLocation item = model.locationOf (model.getItemContainer item)

omit [DecidableEq Container] [DecidableEq Item] in
theorem Pooled.location_eq_none {model : DefaultFollowTheSunModel Container Item}
    (pooled : Pooled model) {container : Container} (outside : container ∉ model.containers) :
    model.getContainerLocation container = none := by
  rw [pooled.recorded, Option.not_isSome_iff_eq_none] at outside
  rw [getContainerLocation, outside]
  rfl

omit [DecidableEq Container] [DecidableEq Item] in
theorem Pooled.locationsCurrent_iff {model : DefaultFollowTheSunModel Container Item}
    (pooled : Pooled model) : LocationsCurrent model ↔ Cached model := by
  constructor
  · intro current item
    cases placed : model.getItemContainer item with
    | none => exact current.noContainer item placed
    | some container =>
        by_cases member : container ∈ model.containers
        · exact current.inPool item container placed member
        · exact (current.notInPool item container placed member).trans
            (pooled.location_eq_none member).symm
  · intro cached
    refine ⟨fun item container placed _ => ?_, fun item placed => ?_,
      fun item container placed outside => ?_⟩
    · rw [cached item, placed]
      rfl
    · rw [cached item, placed]
      rfl
    · rw [cached item, placed]
      exact pooled.location_eq_none outside

section Housing

/-- Without a container an item has no location. -/
def Housed (model : DefaultFollowTheSunModel Container Item) : Prop :=
  ∀ item, model.getItemContainer item = none → model.getItemLocation item = none

theorem Housed.relocateContainer {model : DefaultFollowTheSunModel Container Item}
    (order : SetOrder Container) (container : Container) (location : Option Location)
    (housed : Housed model) : Housed (model.relocateContainer order container location) := by
  intro item homeless
  rw [getItemContainer_relocateContainer] at homeless
  rw [getItemLocation_relocateContainer, homeless]
  exact housed item homeless

omit [DecidableEq Container] in
theorem Housed.place {model : DefaultFollowTheSunModel Container Item} (order : SetOrder Item)
    (item : Item) (container : Option Container) (housed : Housed model) :
    Housed (model.place order item container) := by
  intro other homeless
  rw [getItemContainer_place] at homeless
  rw [getItemLocation_place]
  split at homeless
  · next same => simp [same, homeless, locationOf]
  · next apart =>
    rw [if_neg apart]
    exact housed other homeless

theorem apply_housed (containerOrder : SetOrder Container) (itemOrder : SetOrder Item)
    {model : DefaultFollowTheSunModel Container Item} (housed : Housed model)
    (update : Update Container Item) : Housed (model.apply containerOrder itemOrder update) := by
  cases update with
  | containerAdded container location =>
      exact Housed.relocateContainer containerOrder container location housed
  | containerRemoved container => exact housed
  | containerLocationUpdated container location =>
      simp only [apply, onContainerLocationUpdated]
      split
      · exact housed.relocateContainer containerOrder container location
      · exact housed
  | itemAdded item container immovable =>
      simp only [apply, onItemAdded]
      split <;> exact Housed.place itemOrder item container housed
  | itemRemoved item =>
      intro other homeless
      rw [apply, getItemContainer_onItemRemoved] at homeless
      rw [apply, getItemLocation_onItemRemoved]
      split
      · rfl
      · next apart =>
        rw [if_neg apart] at homeless
        exact housed other homeless
  | itemMoved item newContainer => exact housed.place itemOrder item newContainer
  | itemUsageUpdated item newValue =>
      simp only [apply, onItemUsageUpdated]
      split <;> exact housed

theorem built_housed (containerOrder : SetOrder Container) (itemOrder : SetOrder Item)
    (updates : List (Update Container Item)) :
    Housed (built containerOrder itemOrder updates) := by
  induction updates using List.reverseRecOn with
  | nil => exact fun item _ => rfl
  | append_singleton earlier update ih =>
      rw [built_concat]
      exact apply_housed containerOrder itemOrder ih update

end Housing

section Updates

/-- Only the removal of a container that has a location, and an item on it, leaves
a location behind. -/
def Harmless (model : DefaultFollowTheSunModel Container Item) : Update Container Item → Prop
  | .containerRemoved container => ∀ item, model.getItemContainer item = some container →
      model.getContainerLocation container = none
  | _ => True

theorem Cached.relocateContainer {model : DefaultFollowTheSunModel Container Item}
    (order : SetOrder Container) (container : Container) (location : Option Location)
    (cached : Cached model) : Cached (model.relocateContainer order container location) := by
  intro item
  have located := cached item
  rw [getItemLocation_relocateContainer, getItemContainer_relocateContainer, located]
  cases model.getItemContainer item with
  | none => rfl
  | some other =>
      by_cases same : other = container <;> simp [locationOf, same]

omit [DecidableEq Container] in
theorem Cached.place {model : DefaultFollowTheSunModel Container Item} (order : SetOrder Item)
    (item : Item) (container : Option Container) (cached : Cached model) :
    Cached (model.place order item container) := by
  intro other
  rw [getItemLocation_place, getItemContainer_place]
  split
  · rfl
  · exact cached other

/-- What an update does to the agreement of a state that has it. -/
theorem apply_cached (containerOrder : SetOrder Container) (itemOrder : SetOrder Item)
    {model : DefaultFollowTheSunModel Container Item} (cached : Cached model)
    (update : Update Container Item) :
    Cached (model.apply containerOrder itemOrder update) ↔ Harmless model update := by
  cases update with
  | containerAdded container location =>
      exact iff_of_true (Cached.relocateContainer containerOrder container location cached) trivial
  | containerRemoved container =>
      -- The container loses its location, and its items keep theirs.
      change (∀ item, model.getItemLocation item =
        (model.getItemContainer item).bind (model.onContainerRemoved container).getContainerLocation) ↔
          ∀ item, model.getItemContainer item = some container → _
      refine forall_congr' fun item => ?_
      rw [cached item]
      cases placed : model.getItemContainer item with
      | none => simp [locationOf]
      | some other =>
          by_cases same : other = container <;> simp [locationOf, same]
  | containerLocationUpdated container location =>
      refine iff_of_true ?_ trivial
      simp only [apply, onContainerLocationUpdated]
      split
      · exact cached.relocateContainer containerOrder container location
      · exact cached
  | itemAdded item container immovable =>
      refine iff_of_true ?_ trivial
      simp only [apply, onItemAdded]
      split <;> exact Cached.place itemOrder item container cached
  | itemRemoved item =>
      refine iff_of_true (fun other => ?_) trivial
      rw [apply, getItemLocation_onItemRemoved, getItemContainer_onItemRemoved]
      split
      · rfl
      · exact cached other
  | itemMoved item newContainer =>
      exact iff_of_true (Cached.place itemOrder item newContainer cached) trivial
  | itemUsageUpdated item newValue =>
      refine iff_of_true ?_ trivial
      simp only [apply, onItemUsageUpdated]
      split <;> exact cached

/-- The locations are current all along a run if and only if every removal of a
container is harmless. -/
theorem locations_current_iff (containerOrder : SetOrder Container) (itemOrder : SetOrder Item)
    (updates : List (Update Container Item)) :
    (∀ earlier, earlier <+: updates → LocationsCurrent (built containerOrder itemOrder earlier)) ↔
      ∀ earlier update, earlier ++ [update] <+: updates →
        Harmless (built containerOrder itemOrder earlier) update := by
  have current (earlier : List (Update Container Item)) :=
    (built_pooled containerOrder itemOrder earlier).locationsCurrent_iff
  constructor
  · intro always earlier update made
    have before := (current earlier).mp (always earlier ((List.prefix_append _ _).trans made))
    have after := (current _).mp (always _ made)
    rw [built_concat] at after
    exact (apply_cached containerOrder itemOrder before update).mp after
  · intro harmless earlier made
    rw [current]
    -- The agreement of each prefix is what the step lemma needs for the next update.
    induction earlier using List.reverseRecOn with
    | nil => exact fun item => rfl
    | append_singleton earlier update ih =>
        rw [built_concat]
        exact (apply_cached containerOrder itemOrder (ih ((List.prefix_append _ _).trans made))
          update).mpr (harmless earlier update made)

/-- The item stays in the location of the container it is left on. -/
theorem removed_location_stale :
    ∃ updates : List (Update Nat Nat),
      ¬LocationsCurrent (built (atEnd Nat) (atEnd Nat) updates) := by
  refine ⟨[.containerAdded 0 (some ⟨"london"⟩), .itemAdded 1 (some 0) false, .containerRemoved 0],
    fun current => ?_⟩
  have gone := current.notInPool 1 0 (by decide) (by decide)
  revert gone
  decide

end Updates
end Brooklyn.DefaultFollowTheSunModel
