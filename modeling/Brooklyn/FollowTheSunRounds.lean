import Brooklyn.FollowTheSunStrategy
import Mathlib.Data.List.Induction

/-!
What one round of `FollowTheSunStrategy` does. The decision on an item reads only
that item, and what no round changes, so all decisions of a round can be taken
before its first move.
-/

namespace Brooklyn.DefaultFollowTheSunModel
variable {Container Item : Type}

section Selection

theorem mem_locationsWtd {sendsByLocation : LinkedMap Location ℚ} {current : ℚ}
    {weighted : WeightedObject Location} :
    weighted ∈ locationsWtd sendsByLocation current ↔
      0 < sendsByLocation.values.sum ∧ current < weighted.weight ∧
        sendsByLocation.get weighted.object = some weighted.weight := by
  unfold locationsWtd
  rw [List.mem_reverse, List.mem_insertionSort]
  split
  · next busy =>
    simp only [List.mem_map, List.mem_filter, decide_eq_true_eq]
    constructor
    · rintro ⟨⟨location, rate⟩, ⟨listed, more⟩, rfl⟩
      exact ⟨busy, more, (sendsByLocation.mem_entries location rate).mp listed⟩
    · rintro ⟨_, more, sent⟩
      exact ⟨(weighted.object, weighted.weight),
        ⟨(sendsByLocation.mem_entries _ _).mpr sent, more⟩, rfl⟩
  · next idle =>
    exact iff_of_false List.not_mem_nil fun all => idle all.1

variable {model : DefaultFollowTheSunModel Container Item} {item : Item}

theorem findHighest_some {locations : List (WeightedObject Location)}
    {best : Container × WeightedObject Location}
    (found : (model.findHighest item locations).1 = some best) :
    best.2 ∈ locations ∧ model.getContainerLocation best.1 = some best.2.object := by
  induction locations with
  | nil => cases found
  | cons weightedObject rest ih =>
      unfold findHighest at found
      cases available : findOptimal (model.getAvailableContainersFor item weightedObject.object) with
      | none =>
          rw [available] at found
          obtain ⟨member, located⟩ := ih found
          exact ⟨List.mem_cons_of_mem _ member, located⟩
      | some container =>
          rw [available] at found
          cases found
          exact ⟨List.mem_cons_self,
            (mem_getContainersInLocation model _ container).mp (List.mem_of_head? available)⟩

theorem findHighest_isSome (model : DefaultFollowTheSunModel Container Item) (item : Item)
    {locations : List (WeightedObject Location)}
    {weighted : WeightedObject Location} (member : weighted ∈ locations) {container : Container}
    (located : model.getContainerLocation container = some weighted.object) :
    ((model.findHighest item locations).1).isSome := by
  induction locations with
  | nil => cases member
  | cons first rest ih =>
      unfold findHighest
      cases available : findOptimal (model.getAvailableContainersFor item first.object) with
      | some container => rfl
      | none =>
          rcases List.mem_cons.mp member with rfl | later
          · have listed := (mem_getContainersInLocation model _ container).mpr located
            simp only [findOptimal, List.head?_eq_none_iff] at available
            rw [getAvailableContainersFor] at available
            rw [available] at listed
            cases listed
          · exact ih later

end Selection

section Decisions
variable [DecidableEq Container] [DecidableEq Item]
variable {parameters : FollowTheSunParameters}
variable {model after : DefaultFollowTheSunModel Container Item}

theorem migration_some {sendsByLocation : LinkedMap Location ℚ} {activeLocation : Option Location}
    {activeContainer : Option Container} {optimal container : Container} {rate : ℚ}
    {nextHighest : Option ℚ}
    (moves : migration parameters sendsByLocation activeLocation activeContainer optimal rate
      nextHighest = some container) :
    container = optimal ∧ ∃ active, activeContainer = some active ∧ active ≠ container := by
  dsimp only [migration] at moves
  split at moves
  · obtain ⟨active, placed, moves⟩ := Option.bind_eq_some_iff.mp moves
    split at moves
    · cases moves
    · next apart =>
      cases moves
      exact ⟨rfl, active, placed, apart⟩
  · cases moves

/-- A move is for a movable item that has another container, and takes it where
more is sent from. -/
structure Improves (model : DefaultFollowTheSunModel Container Item)
    (sendsByLocation : LinkedMap Location ℚ) (item : Item) (container : Container) : Prop where
  moveable : model.isItemMoveable item = true
  leaves : ∃ active, model.getItemContainer item = some active ∧ active ≠ container
  rises : ∃ location rate, model.getContainerLocation container = some location ∧
    sendsByLocation.get location = some rate ∧
    currentRate sendsByLocation (model.getItemLocation item) < rate

theorem findMigration_improves {sendsByLocation : LinkedMap Location ℚ} {item : Item}
    {container : Container}
    (moves : model.findMigration parameters sendsByLocation item = some container) :
    Improves model sendsByLocation item container := by
  dsimp only [findMigration] at moves
  split at moves
  · next considered =>
    obtain ⟨best, found, moves⟩ := Option.bind_eq_some_iff.mp moves
    obtain ⟨rfl, leaves⟩ := migration_some moves
    obtain ⟨member, located⟩ := findHighest_some found
    obtain ⟨_, more, sent⟩ := mem_locationsWtd.mp member
    simp only [isConsidered, Bool.and_eq_true] at considered
    exact ⟨considered.1.2, leaves, _, _, located, sent, more⟩
  · cases moves

/-- What no round changes. -/
structure SamePool (model after : DefaultFollowTheSunModel Container Item) : Prop where
  containerToLocation : after.containerToLocation = model.containerToLocation
  itemUsage : after.itemUsage = model.itemUsage
  immovableItems : after.immovableItems = model.immovableItems
  items : after.getItems = model.getItems

omit [DecidableEq Container] [DecidableEq Item] in
theorem SamePool.trans {last : DefaultFollowTheSunModel Container Item}
    (first : SamePool model after) (second : SamePool after last) : SamePool model last where
  containerToLocation := second.containerToLocation.trans first.containerToLocation
  itemUsage := second.itemUsage.trans first.itemUsage
  immovableItems := second.immovableItems.trans first.immovableItems
  items := second.items.trans first.items

omit [DecidableEq Container] [DecidableEq Item] in
theorem SamePool.hasItem (same : SamePool model after) (item : Item) :
    after.hasItem item = model.hasItem item := by
  rw [Bool.eq_iff_iff, DefaultFollowTheSunModel.hasItem, DefaultFollowTheSunModel.hasItem,
    HashedMap.containsKey, HashedMap.containsKey, ← HashedMap.defined, ← HashedMap.defined]
  exact iff_of_eq (congrArg (item ∈ ·) same.items)

omit [DecidableEq Container] in
theorem SamePool.isItemMoveable (same : SamePool model after) (item : Item) :
    after.isItemMoveable item = model.isItemMoveable item := by
  rw [DefaultFollowTheSunModel.isItemMoveable, DefaultFollowTheSunModel.isItemMoveable,
    same.hasItem, same.immovableItems]

omit [DecidableEq Container] [DecidableEq Item] in
theorem SamePool.getContainerLocation (same : SamePool model after) (container : Container) :
    after.getContainerLocation container = model.getContainerLocation container := by
  rw [DefaultFollowTheSunModel.getContainerLocation, same.containerToLocation]
  rfl

omit [DecidableEq Container] [DecidableEq Item] in
theorem SamePool.findHighest (same : SamePool model after) (item : Item)
    (locations : List (WeightedObject Location)) :
    after.findHighest item locations = model.findHighest item locations := by
  have available : after.getAvailableContainersFor = model.getAvailableContainersFor := by
    funext item location
    rw [getAvailableContainersFor, getContainersInLocation, same.containerToLocation]
    simp only [same.getContainerLocation]
    rfl
  induction locations with
  | nil => rfl
  | cons weightedObject rest ih =>
      rw [DefaultFollowTheSunModel.findHighest, DefaultFollowTheSunModel.findHighest, available, ih]

/-- A decision reads only the item, and what no round changes. -/
theorem SamePool.findMigration (same : SamePool model after) {item : Item}
    (location : after.getItemLocation item = model.getItemLocation item)
    (container : after.getItemContainer item = model.getItemContainer item)
    (sendsByLocation : LinkedMap Location ℚ) :
    after.findMigration parameters sendsByLocation item =
      model.findMigration parameters sendsByLocation item := by
  simp only [DefaultFollowTheSunModel.findMigration, isConsidered, location, container,
    same.findHighest, same.isItemMoveable, hasActiveMigration]

end Decisions

section Rounds
variable [DecidableEq Container] [DecidableEq Item]
variable (parameters : FollowTheSunParameters) (order : SetOrder Item)
variable (model : DefaultFollowTheSunModel Container Item)

def sendsTo (item : Item) : LinkedMap Location ℚ :=
  (model.getDirectSendsToItemByLocation item).getD .empty

/-- What a round decides for an item. -/
def decision (item : Item) : Option Container :=
  model.findMigration parameters (model.sendsTo item) item

/-- The items that were given a container are there, the others where they were. -/
structure Moved (model : DefaultFollowTheSunModel Container Item)
    (given : Item → Option (Option Container)) (after : DefaultFollowTheSunModel Container Item) :
    Prop where
  pool : SamePool model after
  container : ∀ item, after.getItemContainer item = (given item).getD (model.getItemContainer item)
  location : ∀ item, after.getItemLocation item =
    ((given item).map model.locationOf).getD (model.getItemLocation item)

variable {parameters order model}

omit [DecidableEq Container] [DecidableEq Item] in
theorem moved_none : Moved model (fun _ => none) model :=
  ⟨⟨rfl, rfl, rfl, rfl⟩, fun _ => rfl, fun _ => rfl⟩

omit [DecidableEq Container] in
/-- One more item is visited. -/
theorem given_append {Given : Type} (visited : List Item) (item : Item)
    (given : Item → Option Given) :
    (fun other => if other ∈ visited ++ [item] then given other else none) =
      Function.update (fun other => if other ∈ visited then given other else none) item
        (given item) := by
  funext other
  by_cases equal : other = item <;> simp [equal]

omit [DecidableEq Container] in
/-- One more item is moved, which was where it had been. -/
theorem Moved.onItemMoved (order : SetOrder Item) {given : Item → Option (Option Container)}
    {before : DefaultFollowTheSunModel Container Item} (moved : Moved model given before)
    {item : Item} (container : Option Container) (known : model.hasItem item = true) :
    Moved model (Function.update given item (some container))
      (before.onItemMoved order item container) where
  pool := moved.pool.trans {
    containerToLocation := rfl
    itemUsage := rfl
    immovableItems := rfl
    items := HashedMap.keys_put_of_mem order _ (by rwa [← moved.pool.hasItem] at known) }
  container other := by
    rw [DefaultFollowTheSunModel.onItemMoved, getItemContainer_place]
    by_cases same : other = item
    · simp [same]
    · simpa [same] using moved.container other
  location other := by
    rw [DefaultFollowTheSunModel.onItemMoved, getItemLocation_place]
    by_cases same : other = item
    · simp [same, locationOf, moved.pool.getContainerLocation]
    · simpa [same] using moved.location other

theorem decision_hasItem {item : Item} {container : Container}
    (decided : model.decision parameters item = some container) : model.hasItem item = true := by
  have moveable := (findMigration_improves decided).moveable
  simp only [isItemMoveable, Bool.and_eq_true] at moveable
  exact moveable.1

theorem rebalanceItem_none {round : Round Container Item} {item : Item}
    (decided : round.1.findMigration parameters (model.sendsTo item) item = none) :
    rebalanceItem parameters order model.getDirectSendsToItemByLocation round item = round := by
  unfold sendsTo at decided
  simp only [rebalanceItem, decided]

theorem rebalanceItem_some {round : Round Container Item} {item : Item} {container : Container}
    (decided : round.1.findMigration parameters (model.sendsTo item) item = some container) :
    rebalanceItem parameters order model.getDirectSendsToItemByLocation round item =
      (round.1.onItemMoved order item (some container), round.2 ++ [(item, container)]) := by
  unfold sendsTo at decided
  simp only [rebalanceItem, decided]

/-- The visits to distinct items carry out the decisions on them. -/
theorem visits_moved {visited : List Item} (distinct : visited.Nodup) :
    let round := visited.foldl
      (rebalanceItem parameters order model.getDirectSendsToItemByLocation) (model, [])
    Moved model (fun item => if item ∈ visited then (model.decision parameters item).map some
        else none) round.1 ∧
    round.2 = visited.filterMap fun item =>
      (model.decision parameters item).map (Prod.mk item) := by
  induction visited using List.reverseRecOn with
  | nil => exact ⟨moved_none, rfl⟩
  | append_singleton earlier item ih =>
      obtain ⟨distinct, _, fresh⟩ := List.nodup_append.mp distinct
      have new : item ∉ earlier := fun member => fresh item member item List.mem_cons_self rfl
      obtain ⟨moved, moves⟩ := ih distinct
      rw [List.foldl_append, List.foldl_cons, List.foldl_nil]
      generalize earlier.foldl
        (rebalanceItem parameters order model.getDirectSendsToItemByLocation) (model, []) = before
        at moved moves ⊢
      have container := moved.container item
      have location := moved.location item
      simp only [new, if_false, Option.map_none, Option.getD_none] at container location
      -- The visits before it have left the item alone, so it is decided on as at the start.
      have decided : before.1.findMigration parameters (model.sendsTo item) item =
          model.decision parameters item :=
        moved.pool.findMigration location container (model.sendsTo item)
      rw [List.filterMap_append, given_append]
      cases choice : model.decision parameters item with
      | none =>
          rw [Function.update_eq_self_iff.mpr (by simp [new]),
            rebalanceItem_none (decided.trans choice)]
          exact ⟨moved, by simp [moves, choice]⟩
      | some container =>
          rw [rebalanceItem_some (decided.trans choice)]
          exact ⟨moved.onItemMoved order (some container) (decision_hasItem choice),
            by simp [moves, choice]⟩

variable (parameters order model)

/-- A round carries out all decisions. -/
theorem rebalance_moved :
    Moved model (fun item => (model.decision parameters item).map some)
      (model.rebalance parameters order).1 := by
  have moved : Moved model (fun item => if item ∈ model.getItems then
      (model.decision parameters item).map some else none) (model.rebalance parameters order).1 :=
    (visits_moved model.itemToContainer.distinct).1
  have every : (fun item => if item ∈ model.getItems then
      (model.decision parameters item).map some else none) =
      fun item => (model.decision parameters item).map some := by
    funext item
    cases decided : model.decision parameters item with
    | none => simp
    | some container =>
        exact if_pos ((model.itemToContainer.defined item).mpr (decision_hasItem decided))
  rwa [every] at moved

theorem rebalance_quiet_iff :
    (model.rebalance parameters order).2 = [] ↔
      ∀ item, model.decision parameters item = none := by
  have moves : (model.rebalance parameters order).2 = model.getItems.filterMap fun item =>
      (model.decision parameters item).map (Prod.mk item) :=
    (visits_moved model.itemToContainer.distinct).2
  rw [moves, List.filterMap_eq_nil_iff]
  constructor
  · intro quiet item
    cases decided : model.decision parameters item with
    | none => rfl
    | some container =>
        have listed := (model.itemToContainer.defined item).mpr (decision_hasItem decided)
        have kept := quiet item listed
        rw [decided] at kept
        cases kept
  · intro quiet item _
    rw [quiet item]
    rfl

end Rounds

/-- Item 0 in one location is used from item 1 in the other. -/
def oneSource : DefaultFollowTheSunModel Bool (Fin 2) :=
  built (atEnd Bool) (atEnd (Fin 2))
    [.containerAdded false (some ⟨"london"⟩), .containerAdded true (some ⟨"tokyo"⟩),
      .itemAdded 0 (some false) false, .itemAdded 1 (some true) false,
      .itemUsageUpdated 0 (LinkedMap.empty.put 1 10)]

/-- Two items in two locations, each used by the other at a rate of 10. -/
def twoItems : DefaultFollowTheSunModel Bool (Fin 2) :=
  built (atEnd Bool) (atEnd (Fin 2))
    [.containerAdded false (some ⟨"london"⟩), .containerAdded true (some ⟨"tokyo"⟩),
      .itemAdded 0 (some false) false, .itemAdded 1 (some true) false,
      .itemUsageUpdated 0 (LinkedMap.empty.put 1 10), .itemUsageUpdated 1 (LinkedMap.empty.put 0 10)]

end Brooklyn.DefaultFollowTheSunModel
