import Brooklyn.BalanceablePoolModel
import Brooklyn.RunningTotal

/-!
The redundant maps and the running totals of `DefaultBalanceablePoolModel`, after
every sequence of its updates: the totals are those of the maps beside them, and
nothing is recorded for a container outside the pool or for an unknown item.
-/

namespace Brooklyn.DefaultBalanceablePoolModel
open RunningTotal

variable {Container Item : Type}

def getParentContainer (model : DefaultBalanceablePoolModel Container Item) (item : Item) :
    Option Container :=
  (model.itemToContainer item).join

def hasItem (model : DefaultBalanceablePoolModel Container Item) (item : Item) : Bool :=
  (model.itemToContainer item).isSome

structure Tallied (model : DefaultBalanceablePoolModel Container Item) : Prop where
  workrate : Totals model.itemToWorkrate model.currentPoolWorkrate
  lowThreshold : Totals model.containerToLowThreshold model.poolLowThreshold
  highThreshold : Totals model.containerToHighThreshold model.poolHighThreshold
  lowKnown : ∀ container,
    (model.containerToLowThreshold container).isSome ↔ container ∈ model.containers
  highKnown : ∀ container,
    (model.containerToHighThreshold container).isSome ↔ container ∈ model.containers
  workrateKnown : ∀ item, (model.itemToWorkrate item).isSome → model.hasItem item = true
  immovable : model.immovableItems.Nodup
  immovableKnown : ∀ item ∈ model.immovableItems, model.hasItem item = true

theorem tallied_empty : Tallied (empty : DefaultBalanceablePoolModel Container Item) where
  workrate := totals_empty
  lowThreshold := totals_empty
  highThreshold := totals_empty
  lowKnown container := by simp [empty]
  highKnown container := by simp [empty]
  workrateKnown item recorded := by cases recorded
  immovable := List.nodup_nil
  immovableKnown item listed := by cases listed

section Updates
variable [DecidableEq Container] [DecidableEq Item]
    {model : DefaultBalanceablePoolModel Container Item}

theorem hasItem_place (order : SetOrder Item) (item other : Item) (newNode : Option Container) :
    (model.place order item newNode).hasItem other = (decide (other = item) || model.hasItem other) := by
  by_cases same : other = item
  · simp [hasItem, place, same]
  · simp [hasItem, place, same]

theorem tallied_place (tallied : Tallied model) (order : SetOrder Item) (item : Item)
    (newNode : Option Container) : Tallied (model.place order item newNode) where
  workrate := tallied.workrate
  lowThreshold := tallied.lowThreshold
  highThreshold := tallied.highThreshold
  lowKnown := tallied.lowKnown
  highKnown := tallied.highKnown
  workrateKnown other recorded := by
    rw [hasItem_place, tallied.workrateKnown other recorded, Bool.or_true]
  immovable := tallied.immovable
  immovableKnown other listed := by
    rw [hasItem_place, tallied.immovableKnown other listed, Bool.or_true]

theorem tallied_itemAdded (tallied : Tallied model) (order : SetOrder Item) (item : Item)
    (parentContainer : Option Container) (immovable : Bool) :
    Tallied (model.onItemAdded order item parentContainer immovable) := by
  unfold onItemAdded
  cases immovable with
  | false => exact tallied_place tallied order item parentContainer
  | true =>
      have placed := tallied_place tallied order item parentContainer
      refine { placed with
        immovable := order.nodup_add tallied.immovable item
        immovableKnown := fun other listed => ?_ }
      -- The flag is set before the item is known, and the same call makes it known.
      change (model.place order item parentContainer).hasItem other = true
      rw [hasItem_place]
      rcases (order.mem_add _ _ _).mp listed with same | before
      · simp [same]
      · rw [tallied.immovableKnown other before, Bool.or_true]

theorem tallied_itemRemoved (tallied : Tallied model) (order : SetOrder Item) (item : Item) :
    Tallied (model.onItemRemoved order item) where
  workrate := tallied.workrate.forget item
  lowThreshold := tallied.lowThreshold
  highThreshold := tallied.highThreshold
  lowKnown := tallied.lowKnown
  highKnown := tallied.highKnown
  workrateKnown other recorded := by
    by_cases same : other = item
    · simp [onItemRemoved, same] at recorded
    · simpa [onItemRemoved, hasItem, same] using
        tallied.workrateKnown other (by simpa [onItemRemoved, same] using recorded)
  immovable := tallied.immovable.erase item
  immovableKnown other listed := by
    obtain ⟨different, before⟩ := tallied.immovable.mem_erase_iff.mp listed
    simpa [onItemRemoved, hasItem, different] using tallied.immovableKnown other before

omit [DecidableEq Container] in
theorem tallied_workrateUpdated (tallied : Tallied model) (item : Item) (newValue : ℚ) :
    Tallied (model.onItemWorkrateUpdated item newValue) := by
  unfold onItemWorkrateUpdated
  split
  · next known =>
    refine { tallied with
      workrate := tallied.workrate.record item newValue
      workrateKnown := fun other recorded => ?_ }
    by_cases same : other = item
    · exact same ▸ known
    · exact tallied.workrateKnown other (by simpa [same] using recorded)
  · exact tallied

omit [DecidableEq Item] in
theorem tallied_containerAdded (tallied : Tallied model) (order : SetOrder Container)
    (newContainer : Container) (lowThreshold highThreshold : ℚ) :
    Tallied (model.onContainerAdded order newContainer lowThreshold highThreshold) := by
  unfold onContainerAdded
  split
  · exact tallied
  · next absent =>
    have noLow : model.containerToLowThreshold newContainer = none := by
      simpa using fun recorded => absent ((tallied.lowKnown newContainer).mp recorded)
    have noHigh : model.containerToHighThreshold newContainer = none := by
      simpa using fun recorded => absent ((tallied.highKnown newContainer).mp recorded)
    have known (map : Container → Option ℚ) (threshold : ℚ)
        (before : ∀ container, (map container).isSome ↔ container ∈ model.containers)
        (container : Container) :
        (Function.update map newContainer (some threshold) container).isSome ↔
          container ∈ order.add model.containers newContainer := by
      rw [order.mem_add]
      by_cases same : container = newContainer
      · simp [same]
      · simp [same, before]
    refine { tallied with
      lowThreshold := ?_
      highThreshold := ?_
      lowKnown := known _ _ tallied.lowKnown
      highKnown := known _ _ tallied.highKnown }
    · simpa [noLow] using tallied.lowThreshold.record newContainer lowThreshold
    · simpa [noHigh] using tallied.highThreshold.record newContainer highThreshold

omit [DecidableEq Item] in
theorem tallied_containerRemoved (tallied : Tallied model) (distinct : model.containers.Nodup)
    (oldContainer : Container) : Tallied (model.onContainerRemoved oldContainer) := by
  have known (map : Container → Option ℚ)
      (before : ∀ container, (map container).isSome ↔ container ∈ model.containers)
      (container : Container) : (Function.update map oldContainer none container).isSome ↔
        container ∈ model.containers.erase oldContainer := by
    rw [distinct.mem_erase_iff]
    by_cases same : container = oldContainer
    · simp [same]
    · simp [same, before]
  exact { tallied with
    lowThreshold := tallied.lowThreshold.forget oldContainer
    highThreshold := tallied.highThreshold.forget oldContainer
    lowKnown := known _ tallied.lowKnown
    highKnown := known _ tallied.highKnown }

theorem apply_tallied (containerOrder : SetOrder Container) (itemOrder : SetOrder Item)
    (tallied : Tallied model) (distinct : model.containers.Nodup)
    (update : Update Container Item) : Tallied (model.apply containerOrder itemOrder update) := by
  cases update with
  | containerAdded newContainer lowThreshold highThreshold =>
      exact tallied_containerAdded tallied containerOrder newContainer lowThreshold highThreshold
  | containerRemoved oldContainer => exact tallied_containerRemoved tallied distinct oldContainer
  | itemAdded item parentContainer immovable =>
      exact tallied_itemAdded tallied itemOrder item parentContainer immovable
  | itemRemoved item => exact tallied_itemRemoved tallied itemOrder item
  | itemMoved item newNode =>
      simp only [apply, onItemMoved]
      split
      · exact tallied
      · exact tallied_place tallied itemOrder item newNode
  | itemWorkrateUpdated item newValue => exact tallied_workrateUpdated tallied item newValue

theorem built_tallied (containerOrder : SetOrder Container) (itemOrder : SetOrder Item)
    (updates : List (Update Container Item)) :
    Tallied (built containerOrder itemOrder updates) := by
  induction updates using List.reverseRecOn with
  | nil => exact tallied_empty
  | append_singleton before update ih =>
      rw [built, List.foldl_append]
      exact apply_tallied containerOrder itemOrder ih
        (built_consistent containerOrder itemOrder before).containers update

end Updates

/-- Every redundant record agrees with the one it repeats. -/
structure Accurate (model : DefaultBalanceablePoolModel Container Item) : Prop where
  listed : ∀ container item,
    item ∈ model.getItemsForContainer container ↔ model.getParentContainer item = some container
  poolWorkrate : Totals model.itemToWorkrate model.currentPoolWorkrate
  poolLow : model.poolLowThreshold =
    (model.containers.map fun container => (model.containerToLowThreshold container).getD 0).sum
  poolHigh : model.poolHighThreshold =
    (model.containers.map fun container => (model.containerToHighThreshold container).getD 0).sum
  thresholds : ∀ container,
    ((model.containerToLowThreshold container).isSome ↔ container ∈ model.containers) ∧
    ((model.containerToHighThreshold container).isSome ↔ container ∈ model.containers)
  workrateKnown : ∀ item, (model.itemToWorkrate item).isSome → model.hasItem item = true
  immovableKnown : ∀ item ∈ model.immovableItems, model.hasItem item = true

theorem built_accurate [DecidableEq Container] [DecidableEq Item]
    (containerOrder : SetOrder Container) (itemOrder : SetOrder Item)
    (updates : List (Update Container Item)) :
    Accurate (built containerOrder itemOrder updates) := by
  have consistent := built_consistent containerOrder itemOrder updates
  have tallied := built_tallied containerOrder itemOrder updates
  exact
    { listed := consistent.located
      poolWorkrate := tallied.workrate
      poolLow := tallied.lowThreshold.sum_keys consistent.containers tallied.lowKnown
      poolHigh := tallied.highThreshold.sum_keys consistent.containers tallied.highKnown
      thresholds := fun container => ⟨tallied.lowKnown container, tallied.highKnown container⟩
      workrateKnown := tallied.workrateKnown
      immovableKnown := tallied.immovableKnown }

end Brooklyn.DefaultBalanceablePoolModel
