import Brooklyn.BalanceablePoolModel
import Brooklyn.LinkedCollections

/-!
`DefaultFollowTheSunModel`, with exact rational usage rates. The maps cannot hold
a null value: an item whose container or location is recorded as absent (`NULL`,
`NULL_LOCATION`) has `some none` in them, an unknown item has `none`. Maps whose
order of iteration nothing depends on are lookup functions. Names and the printing
of distributions are left out.
-/

namespace Brooklyn

structure DefaultFollowTheSunModel (Container Item : Type) where
  containers : List Container
  itemToContainer : HashedMap Item (Option Container)
  containerToLocation : HashedMap Container (Option Location)
  itemToLocation : Item → Option (Option Location)
  itemUsage : Item → Option (LinkedMap Item ℚ)
  immovableItems : List Item

namespace DefaultFollowTheSunModel
variable {Container Item : Type}

def empty : DefaultFollowTheSunModel Container Item where
  containers := []
  itemToContainer := .empty
  containerToLocation := .empty
  itemToLocation := fun _ => none
  itemUsage := fun _ => none
  immovableItems := []

def hasActiveMigration (_model : DefaultFollowTheSunModel Container Item) (_item : Item) : Bool :=
  false

section Provider
variable (model : DefaultFollowTheSunModel Container Item)

def getItems : List Item := model.itemToContainer.keys

def hasItem (item : Item) : Bool := model.itemToContainer.containsKey item

def getItemContainer (item : Item) : Option Container := (model.itemToContainer.get item).join

def getItemLocation (item : Item) : Option Location := (model.itemToLocation item).join

def getContainerLocation (container : Container) : Option Location :=
  (model.containerToLocation.get container).join

def isItemMoveable [DecidableEq Item] (item : Item) : Bool :=
  model.hasItem item && !model.immovableItems.contains item

/-- Adds what one source sends. An item that is sent to by itself, or by an item
whose location is not known, gets nothing from it. -/
def addUsage [DecidableEq Item] (targetItem : Item) (targetUsageByLocation : LinkedMap Location ℚ)
    (entry : Item × ℚ) : LinkedMap Location ℚ :=
  match model.getItemLocation entry.1 with
  | none => targetUsageByLocation
  | some sourceLocation =>
      if entry.1 = targetItem then targetUsageByLocation
      else targetUsageByLocation.put sourceLocation
        ((targetUsageByLocation.get sourceLocation).getD 0 + entry.2)

def getDirectSendsToItemByLocation [DecidableEq Item] (targetItem : Item) :
    Option (LinkedMap Location ℚ) :=
  match model.itemUsage targetItem with
  | none => none
  | some sources =>
      if sources.entries.isEmpty then none
      else some (sources.entries.foldl (model.addUsage targetItem) .empty)

def getContainersInLocation (location : Location) : List Container :=
  model.containerToLocation.keys.filter fun container =>
    model.getContainerLocation container = some location

def getAvailableContainersFor (_item : Item) (location : Location) : List Container :=
  model.getContainersInLocation location

def getItemsOnContainer [DecidableEq Container] (container : Container) : List Item :=
  model.itemToContainer.keys.filter fun item => model.getItemContainer item = some container

end Provider

section Mutators
variable [DecidableEq Container] [DecidableEq Item]

/-- The location to record for an item that is put in a container. -/
def locationOf (model : DefaultFollowTheSunModel Container Item) (container : Option Container) :
    Option Location :=
  container.bind model.getContainerLocation

def place (order : SetOrder Item) (model : DefaultFollowTheSunModel Container Item) (item : Item)
    (container : Option Container) : DefaultFollowTheSunModel Container Item :=
  { model with
    itemToContainer := model.itemToContainer.put order item container
    itemToLocation :=
      Function.update model.itemToLocation item (some (model.locationOf container)) }

def onItemMoved (order : SetOrder Item) (model : DefaultFollowTheSunModel Container Item)
    (item : Item) (newContainer : Option Container) : DefaultFollowTheSunModel Container Item :=
  model.place order item newContainer

def putLocation (itemToLocation : Item → Option (Option Location)) (items : List Item)
    (location : Option Location) : Item → Option (Option Location) :=
  items.foldl (fun locations item => Function.update locations item (some location))
    itemToLocation

/-- Records the location of a container, and of the items on it. -/
def relocateContainer (order : SetOrder Container) (model : DefaultFollowTheSunModel Container Item)
    (container : Container) (location : Option Location) :
    DefaultFollowTheSunModel Container Item :=
  { model with
    containerToLocation := model.containerToLocation.put order container location
    itemToLocation :=
      putLocation model.itemToLocation (model.getItemsOnContainer container) location }

def onContainerAdded (order : SetOrder Container) (model : DefaultFollowTheSunModel Container Item)
    (container : Container) (location : Option Location) : DefaultFollowTheSunModel Container Item :=
  { model with containers := order.add model.containers container }.relocateContainer order
    container location

def onContainerRemoved (model : DefaultFollowTheSunModel Container Item) (container : Container) :
    DefaultFollowTheSunModel Container Item :=
  { model with
    containers := model.containers.erase container
    containerToLocation := model.containerToLocation.remove container }

def onContainerLocationUpdated (order : SetOrder Container)
    (model : DefaultFollowTheSunModel Container Item) (container : Container)
    (location : Option Location) : DefaultFollowTheSunModel Container Item :=
  if container ∈ model.containers then model.relocateContainer order container location else model

def onItemAdded (order : SetOrder Item) (model : DefaultFollowTheSunModel Container Item)
    (item : Item) (container : Option Container) (immovable : Bool) :
    DefaultFollowTheSunModel Container Item :=
  let flagged := if immovable then
    { model with immovableItems := order.add model.immovableItems item } else model
  flagged.place order item container

def onItemRemoved (model : DefaultFollowTheSunModel Container Item) (item : Item) :
    DefaultFollowTheSunModel Container Item :=
  { model with
    itemToContainer := model.itemToContainer.remove item
    itemToLocation := Function.update model.itemToLocation item none
    itemUsage := Function.update model.itemUsage item none
    immovableItems := model.immovableItems.erase item }

def onItemUsageUpdated (model : DefaultFollowTheSunModel Container Item) (item : Item)
    (newValue : LinkedMap Item ℚ) : DefaultFollowTheSunModel Container Item :=
  if model.hasItem item then
    { model with itemUsage := Function.update model.itemUsage item (some newValue) }
  else model

inductive Update (Container Item : Type) where
  | containerAdded (container : Container) (location : Option Location)
  | containerRemoved (container : Container)
  | containerLocationUpdated (container : Container) (location : Option Location)
  | itemAdded (item : Item) (container : Option Container) (immovable : Bool)
  | itemRemoved (item : Item)
  | itemMoved (item : Item) (newContainer : Option Container)
  | itemUsageUpdated (item : Item) (newValue : LinkedMap Item ℚ)

def apply (containerOrder : SetOrder Container) (itemOrder : SetOrder Item)
    (model : DefaultFollowTheSunModel Container Item) :
    Update Container Item → DefaultFollowTheSunModel Container Item
  | .containerAdded container location => model.onContainerAdded containerOrder container location
  | .containerRemoved container => model.onContainerRemoved container
  | .containerLocationUpdated container location =>
      model.onContainerLocationUpdated containerOrder container location
  | .itemAdded item container immovable => model.onItemAdded itemOrder item container immovable
  | .itemRemoved item => model.onItemRemoved item
  | .itemMoved item newContainer => model.onItemMoved itemOrder item newContainer
  | .itemUsageUpdated item newValue => model.onItemUsageUpdated item newValue

/-- The model after a sequence of updates. -/
def built (containerOrder : SetOrder Container) (itemOrder : SetOrder Item)
    (updates : List (Update Container Item)) : DefaultFollowTheSunModel Container Item :=
  updates.foldl (apply containerOrder itemOrder) empty

end Mutators

section Lookups

theorem mem_getItemsOnContainer [DecidableEq Container] (model : DefaultFollowTheSunModel Container Item)
    (container : Container) (item : Item) :
    item ∈ model.getItemsOnContainer container ↔ model.getItemContainer item = some container := by
  simp only [getItemsOnContainer, List.mem_filter, decide_eq_true_eq]
  refine ⟨And.right, fun located => ⟨?_, located⟩⟩
  rw [model.itemToContainer.defined]
  cases recorded : model.itemToContainer.get item with
  | none => simp [getItemContainer, recorded] at located
  | some container => rfl

theorem mem_getContainersInLocation (model : DefaultFollowTheSunModel Container Item)
    (location : Location) (container : Container) :
    container ∈ model.getContainersInLocation location ↔
      model.getContainerLocation container = some location := by
  simp only [getContainersInLocation, List.mem_filter, decide_eq_true_eq]
  refine ⟨And.right, fun located => ⟨?_, located⟩⟩
  rw [model.containerToLocation.defined]
  cases recorded : model.containerToLocation.get container with
  | none => simp [getContainerLocation, recorded] at located
  | some location => rfl

theorem putLocation_apply [DecidableEq Item] (itemToLocation : Item → Option (Option Location)) (items : List Item)
    (location : Option Location) (item : Item) :
    putLocation itemToLocation items location item =
      if item ∈ items then some location else itemToLocation item := by
  induction items generalizing itemToLocation with
  | nil => simp [putLocation]
  | cons first rest ih =>
      rw [putLocation, List.foldl_cons]
      refine (ih _).trans ?_
      by_cases later : item ∈ rest
      · simp [later]
      · by_cases same : item = first <;> simp [later, same]

@[simp] theorem getItemContainer_place [DecidableEq Item] (order : SetOrder Item)
    (model : DefaultFollowTheSunModel Container Item) (item other : Item)
    (container : Option Container) :
    (model.place order item container).getItemContainer other =
      if other = item then container else model.getItemContainer other := by
  by_cases same : other = item <;> simp [getItemContainer, place, same]

@[simp] theorem getItemLocation_place [DecidableEq Item] (order : SetOrder Item)
    (model : DefaultFollowTheSunModel Container Item) (item other : Item)
    (container : Option Container) :
    (model.place order item container).getItemLocation other =
      if other = item then model.locationOf container else model.getItemLocation other := by
  by_cases same : other = item <;> simp [getItemLocation, place, same]

@[simp] theorem getItemContainer_relocateContainer [DecidableEq Container] [DecidableEq Item]
    (order : SetOrder Container) (model : DefaultFollowTheSunModel Container Item)
    (container : Container) (location : Option Location) (item : Item) :
    (model.relocateContainer order container location).getItemContainer item =
      model.getItemContainer item := rfl

@[simp] theorem getContainerLocation_relocateContainer [DecidableEq Container]
    [DecidableEq Item] (order : SetOrder Container) (model : DefaultFollowTheSunModel Container Item)
    (container other : Container) (location : Option Location) :
    (model.relocateContainer order container location).getContainerLocation other =
      if other = container then location else model.getContainerLocation other := by
  by_cases same : other = container <;> simp [getContainerLocation, relocateContainer, same]

@[simp] theorem getItemLocation_relocateContainer [DecidableEq Container] [DecidableEq Item]
    (order : SetOrder Container) (model : DefaultFollowTheSunModel Container Item)
    (container : Container) (location : Option Location) (item : Item) :
    (model.relocateContainer order container location).getItemLocation item =
      if model.getItemContainer item = some container then location
      else model.getItemLocation item := by
  simp only [getItemLocation, relocateContainer, putLocation_apply, mem_getItemsOnContainer]
  split <;> rfl

@[simp] theorem getContainerLocation_onContainerAdded [DecidableEq Container] [DecidableEq Item]
    (order : SetOrder Container) (model : DefaultFollowTheSunModel Container Item)
    (container other : Container) (location : Option Location) :
    (model.onContainerAdded order container location).getContainerLocation other =
      if other = container then location else model.getContainerLocation other :=
  getContainerLocation_relocateContainer order _ container other location

@[simp] theorem getContainerLocation_onContainerRemoved [DecidableEq Container]
    (model : DefaultFollowTheSunModel Container Item) (container other : Container) :
    (model.onContainerRemoved container).getContainerLocation other =
      if other = container then none else model.getContainerLocation other := by
  by_cases same : other = container <;> simp [getContainerLocation, onContainerRemoved, same]

@[simp] theorem getItemContainer_onItemRemoved [DecidableEq Item]
    (model : DefaultFollowTheSunModel Container Item) (item other : Item) :
    (model.onItemRemoved item).getItemContainer other =
      if other = item then none else model.getItemContainer other := by
  by_cases same : other = item <;> simp [getItemContainer, onItemRemoved, same]

@[simp] theorem getItemLocation_onItemRemoved [DecidableEq Item]
    (model : DefaultFollowTheSunModel Container Item) (item other : Item) :
    (model.onItemRemoved item).getItemLocation other =
      if other = item then none else model.getItemLocation other := by
  by_cases same : other = item <;> simp [getItemLocation, onItemRemoved, same]

end Lookups
end DefaultFollowTheSunModel
end Brooklyn
