import Brooklyn.HashedCollections
import Mathlib.Algebra.Order.Ring.Abs
import Mathlib.Data.List.Basic
import Mathlib.Data.Rat.Cast.Order
import Mathlib.Logic.Function.Basic

/-!
`DefaultBalanceablePoolModel`, with exact rational workrates and thresholds. A
container that is recorded as absent for an item (`NULL_CONTAINER`) is `some none`
in `itemToContainer`; an unknown item is `none`. The sets are listed in their
iteration order, which is up to the hash tables. Names, logging and the printing
of distributions are left out.
-/

namespace Brooklyn

structure Location where
  id : String
deriving DecidableEq

structure DefaultBalanceablePoolModel (Container Item : Type) where
  containers : List Container
  containerToLowThreshold : Container → Option ℚ
  containerToHighThreshold : Container → Option ℚ
  itemToContainer : Item → Option (Option Container)
  containerToItems : Container → List Item
  itemToWorkrate : Item → Option ℚ
  immovableItems : List Item
  poolLowThreshold : ℚ
  poolHighThreshold : ℚ
  currentPoolWorkrate : ℚ

namespace DefaultBalanceablePoolModel
variable {Container Item : Type}

def empty : DefaultBalanceablePoolModel Container Item where
  containers := []
  containerToLowThreshold := fun _ => none
  containerToHighThreshold := fun _ => none
  itemToContainer := fun _ => none
  containerToItems := fun _ => []
  itemToWorkrate := fun _ => none
  immovableItems := []
  poolLowThreshold := 0
  poolHighThreshold := 0
  currentPoolWorkrate := 0

/-- Containers have no location yet, so items are allowed anywhere. -/
def getLocation (_model : DefaultBalanceablePoolModel Container Item) (_container : Container) :
    Option Location := none

def isItemAllowedIn (_model : DefaultBalanceablePoolModel Container Item) (_item : Item)
    (_location : Location) : Bool := true

section Provider
variable (model : DefaultBalanceablePoolModel Container Item)

def getPoolSize : Nat := model.containers.length

def getPoolContents : List Container := model.containers

def getItemsForContainer (node : Container) : List Item := model.containerToItems node

def getLowThreshold (container : Container) : ℚ :=
  (model.containerToLowThreshold container).getD (-1)

def getHighThreshold (container : Container) : ℚ :=
  (model.containerToHighThreshold container).getD (-1)

/-- What an item counts for in its container's total. -/
def weight (item : Item) : ℚ := ((model.itemToWorkrate item).map abs).getD 0

def getTotalWorkrate (container : Container) : ℚ :=
  ((model.getItemsForContainer container).map model.weight).sum

def getItemWorkrates (node : Container) : List (Item × Option ℚ) :=
  (model.getItemsForContainer node).map fun item => (item, model.itemToWorkrate item)

def isItemMoveable [DecidableEq Item] (item : Item) : Bool :=
  (model.itemToContainer item).isSome && !model.immovableItems.contains item

end Provider

section Mutators
variable [DecidableEq Container] [DecidableEq Item]

def remove (containerToItems : Container → List Item) (item : Item) :
    Option Container → Container → List Item
  | some node => Function.update containerToItems node ((containerToItems node).erase item)
  | none => containerToItems

/-- The sets of the multimap after an item changes its container. -/
def relocate (order : SetOrder Item) (containerToItems : Container → List Item) (item : Item)
    (oldNode newNode : Option Container) : Container → List Item :=
  let removed := remove containerToItems item oldNode
  match newNode with
  | some node => Function.update removed node (order.add (removed node) item)
  | none => removed

def place (order : SetOrder Item) (model : DefaultBalanceablePoolModel Container Item)
    (item : Item) (newNode : Option Container) : DefaultBalanceablePoolModel Container Item :=
  { model with
    itemToContainer := Function.update model.itemToContainer item (some newNode)
    containerToItems :=
      relocate order model.containerToItems item (model.itemToContainer item).join newNode }

def onItemMoved (order : SetOrder Item) (model : DefaultBalanceablePoolModel Container Item)
    (item : Item) (newNode : Option Container) : DefaultBalanceablePoolModel Container Item :=
  if (model.itemToContainer item).isNone then model else model.place order item newNode

def onContainerAdded (order : SetOrder Container) (model : DefaultBalanceablePoolModel Container Item)
    (newContainer : Container) (lowThreshold highThreshold : ℚ) :
    DefaultBalanceablePoolModel Container Item :=
  if newContainer ∈ model.containers then model
  else { model with
    containers := order.add model.containers newContainer
    containerToLowThreshold :=
      Function.update model.containerToLowThreshold newContainer (some lowThreshold)
    containerToHighThreshold :=
      Function.update model.containerToHighThreshold newContainer (some highThreshold)
    poolLowThreshold := model.poolLowThreshold + lowThreshold
    poolHighThreshold := model.poolHighThreshold + highThreshold }

def onContainerRemoved (model : DefaultBalanceablePoolModel Container Item)
    (oldContainer : Container) : DefaultBalanceablePoolModel Container Item :=
  { model with
    containers := model.containers.erase oldContainer
    containerToLowThreshold := Function.update model.containerToLowThreshold oldContainer none
    containerToHighThreshold := Function.update model.containerToHighThreshold oldContainer none
    poolLowThreshold :=
      model.poolLowThreshold - (model.containerToLowThreshold oldContainer).getD 0
    poolHighThreshold :=
      model.poolHighThreshold - (model.containerToHighThreshold oldContainer).getD 0 }

def onItemAdded (order : SetOrder Item) (model : DefaultBalanceablePoolModel Container Item)
    (item : Item) (parentContainer : Option Container) (immovable : Bool) :
    DefaultBalanceablePoolModel Container Item :=
  let flagged := if immovable then
    { model with immovableItems := order.add model.immovableItems item } else model
  flagged.place order item parentContainer

def onItemRemoved (order : SetOrder Item) (model : DefaultBalanceablePoolModel Container Item)
    (item : Item) : DefaultBalanceablePoolModel Container Item :=
  { model with
    itemToContainer := Function.update model.itemToContainer item none
    containerToItems :=
      relocate order model.containerToItems item (model.itemToContainer item).join none
    itemToWorkrate := Function.update model.itemToWorkrate item none
    currentPoolWorkrate := model.currentPoolWorkrate - (model.itemToWorkrate item).getD 0
    immovableItems := model.immovableItems.erase item }

def onItemWorkrateUpdated (model : DefaultBalanceablePoolModel Container Item) (item : Item)
    (newValue : ℚ) : DefaultBalanceablePoolModel Container Item :=
  if (model.itemToContainer item).isSome then
    { model with
      itemToWorkrate := Function.update model.itemToWorkrate item (some newValue)
      currentPoolWorkrate :=
        model.currentPoolWorkrate + (newValue - (model.itemToWorkrate item).getD 0) }
  else model

inductive Update (Container Item : Type) where
  | containerAdded (newContainer : Container) (lowThreshold highThreshold : ℚ)
  | containerRemoved (oldContainer : Container)
  | itemAdded (item : Item) (parentContainer : Option Container) (immovable : Bool)
  | itemRemoved (item : Item)
  | itemMoved (item : Item) (newNode : Option Container)
  | itemWorkrateUpdated (item : Item) (newValue : ℚ)

def apply (containerOrder : SetOrder Container) (itemOrder : SetOrder Item)
    (model : DefaultBalanceablePoolModel Container Item) :
    Update Container Item → DefaultBalanceablePoolModel Container Item
  | .containerAdded newContainer lowThreshold highThreshold =>
      model.onContainerAdded containerOrder newContainer lowThreshold highThreshold
  | .containerRemoved oldContainer => model.onContainerRemoved oldContainer
  | .itemAdded item parentContainer immovable =>
      model.onItemAdded itemOrder item parentContainer immovable
  | .itemRemoved item => model.onItemRemoved itemOrder item
  | .itemMoved item newNode => model.onItemMoved itemOrder item newNode
  | .itemWorkrateUpdated item newValue => model.onItemWorkrateUpdated item newValue

/-- The model after a sequence of updates. -/
def built (containerOrder : SetOrder Container) (itemOrder : SetOrder Item)
    (updates : List (Update Container Item)) : DefaultBalanceablePoolModel Container Item :=
  updates.foldl (apply containerOrder itemOrder) empty

end Mutators
section Consistency
variable [DecidableEq Container] [DecidableEq Item]

/-- An item is listed in a container exactly when that is its recorded container. -/
structure Consistent (model : DefaultBalanceablePoolModel Container Item) : Prop where
  containers : model.containers.Nodup
  items : ∀ node, (model.containerToItems node).Nodup
  located : ∀ node item,
    item ∈ model.containerToItems node ↔ (model.itemToContainer item).join = some node

theorem mem_remove {containerToItems : Container → List Item} {item : Item}
    {oldNode : Option Container} (distinct : ∀ node, (containerToItems node).Nodup)
    (located : ∀ node, item ∈ containerToItems node → oldNode = some node)
    (node : Container) (other : Item) :
    other ∈ remove containerToItems item oldNode node ↔
      other ≠ item ∧ other ∈ containerToItems node := by
  cases oldNode with
  | none =>
      refine ⟨fun member => ⟨?_, member⟩, And.right⟩
      rintro rfl
      cases located node member
  | some old =>
      by_cases same : node = old
      · subst same
        simp only [remove, Function.update_self]
        exact (distinct node).mem_erase_iff
      · simp only [remove, Function.update_of_ne same]
        refine ⟨fun member => ⟨?_, member⟩, And.right⟩
        rintro rfl
        exact same (Option.some.inj (located node member)).symm

theorem nodup_remove {containerToItems : Container → List Item} (item : Item)
    (oldNode : Option Container) (distinct : ∀ node, (containerToItems node).Nodup)
    (node : Container) : (remove containerToItems item oldNode node).Nodup := by
  cases oldNode with
  | none => exact distinct node
  | some old =>
      by_cases same : node = old
      · subst same
        simpa [remove] using (distinct node).erase item
      · simpa [remove, Function.update_of_ne same] using distinct node

theorem mem_relocate (order : SetOrder Item) {containerToItems : Container → List Item}
    {item : Item} {oldNode : Option Container} (newNode : Option Container)
    (distinct : ∀ node, (containerToItems node).Nodup)
    (located : ∀ node, item ∈ containerToItems node → oldNode = some node)
    (node : Container) (other : Item) :
    other ∈ relocate order containerToItems item oldNode newNode node ↔
      (other = item ∧ newNode = some node) ∨ (other ≠ item ∧ other ∈ containerToItems node) := by
  have removed := mem_remove distinct located
  cases newNode with
  | none =>
      simp only [relocate, removed]
      exact ⟨Or.inr, fun either => either.resolve_left fun both => by cases both.2⟩
  | some new =>
      by_cases same : node = new
      · subst same
        simp only [relocate, Function.update_self, SetOrder.mem_add, removed]
        simp
      · have apart : some new ≠ some node := fun equal => same (Option.some.inj equal).symm
        simp only [relocate, Function.update_of_ne same, removed, apart, and_false, false_or]

theorem nodup_relocate (order : SetOrder Item) {containerToItems : Container → List Item}
    (item : Item) (oldNode newNode : Option Container)
    (distinct : ∀ node, (containerToItems node).Nodup) (node : Container) :
    (relocate order containerToItems item oldNode newNode node).Nodup := by
  have removed := nodup_remove item oldNode distinct
  cases newNode with
  | none => exact removed node
  | some new =>
      by_cases same : node = new
      · subst same
        simpa [relocate] using order.nodup_add (removed node) item
      · simpa [relocate, Function.update_of_ne same] using removed node

/-- Recording `newNode` for an item and relocating it keeps the model consistent. -/
theorem relocated_consistent {model after : DefaultBalanceablePoolModel Container Item}
    (consistent : Consistent model) (order : SetOrder Item) (item : Item)
    (recorded : Option (Option Container)) (containers : after.containers = model.containers)
    (itemToContainer : after.itemToContainer = Function.update model.itemToContainer item recorded)
    (containerToItems : after.containerToItems = relocate order model.containerToItems item
      (model.itemToContainer item).join recorded.join) : Consistent after where
  containers := containers ▸ consistent.containers
  items node := containerToItems ▸ nodup_relocate order item _ _ consistent.items node
  located node other := by
    rw [containerToItems, itemToContainer, mem_relocate order _ consistent.items
      (fun node member => (consistent.located node item).mp member)]
    by_cases same : other = item
    · subst same
      simp
    · simp [same, consistent.located]

theorem onItemAdded_consistent (order : SetOrder Item)
    {model : DefaultBalanceablePoolModel Container Item} (consistent : Consistent model)
    (item : Item) (parentContainer : Option Container) (immovable : Bool) :
    Consistent (model.onItemAdded order item parentContainer immovable) := by
  refine relocated_consistent consistent order item (some parentContainer) ?_ ?_ ?_ <;>
    (simp only [onItemAdded, place]; split <;> rfl)

theorem apply_consistent (containerOrder : SetOrder Container) (itemOrder : SetOrder Item)
    {model : DefaultBalanceablePoolModel Container Item} (consistent : Consistent model)
    (update : Update Container Item) :
    Consistent (model.apply containerOrder itemOrder update) := by
  cases update with
  | containerAdded newContainer lowThreshold highThreshold =>
      simp only [apply, onContainerAdded]
      split
      · exact consistent
      · exact ⟨containerOrder.nodup_add consistent.containers newContainer, consistent.items,
          consistent.located⟩
  | containerRemoved oldContainer =>
      exact ⟨consistent.containers.erase oldContainer, consistent.items, consistent.located⟩
  | itemAdded item parentContainer immovable =>
      exact onItemAdded_consistent itemOrder consistent item parentContainer immovable
  | itemRemoved item => exact relocated_consistent consistent itemOrder item none rfl rfl rfl
  | itemMoved item newNode =>
      simp only [apply, onItemMoved]
      split
      · exact consistent
      · exact relocated_consistent consistent itemOrder item (some newNode) rfl rfl rfl
  | itemWorkrateUpdated item newValue =>
      simp only [apply, onItemWorkrateUpdated]
      split
      · exact ⟨consistent.containers, consistent.items, consistent.located⟩
      · exact consistent

theorem built_consistent (containerOrder : SetOrder Container) (itemOrder : SetOrder Item)
    (updates : List (Update Container Item)) :
    Consistent (built containerOrder itemOrder updates) := by
  have fold (updates : List (Update Container Item))
      (model : DefaultBalanceablePoolModel Container Item) (consistent : Consistent model) :
      Consistent (updates.foldl (apply containerOrder itemOrder) model) := by
    induction updates generalizing model with
    | nil => exact consistent
    | cons update rest ih =>
        exact ih _ (apply_consistent containerOrder itemOrder consistent update)
  exact fold updates empty ⟨List.nodup_nil, fun _ => List.nodup_nil, fun _ _ => by simp [empty]⟩

end Consistency
end DefaultBalanceablePoolModel
end Brooklyn
