import Brooklyn.FollowTheSunModel
import Mathlib.Data.List.Sort

/-!
`FollowTheSunStrategy.rebalance` over `DefaultFollowTheSunModel`, with exact
rational arithmetic. Every requested move succeeds at once. A round returns the
model after it and the moves it made. Moving an item without a container throws,
and the round goes on with the next item.
-/

namespace Brooklyn

structure FollowTheSunParameters where
  triggerPercentTotal : ℚ
  triggerDeltaAbovePercentTotal : ℚ
  triggerAbsoluteTotal : ℚ
  triggerPercentMajority : ℚ
  triggerDeltaAbovePercentMajority : ℚ
  triggerAbsoluteMajority : ℚ
  excludedLocations : List Location

namespace FollowTheSunParameters

def newDefault : FollowTheSunParameters where
  triggerPercentTotal := 3 / 10
  triggerDeltaAbovePercentTotal := 0
  triggerAbsoluteTotal := 2
  triggerPercentMajority := 2 / 10
  triggerDeltaAbovePercentMajority := 1
  triggerAbsoluteMajority := 4
  excludedLocations := []

variable (parameters : FollowTheSunParameters)

def isTriggered (highest total _nextHighest current : ℚ) : Bool :=
  if highest ≤ current then false
  else if highest < total * parameters.triggerPercentTotal +
      parameters.triggerDeltaAbovePercentTotal then false
  else if highest < parameters.triggerAbsoluteTotal then false
  else if highest - current < total * parameters.triggerPercentMajority +
      parameters.triggerDeltaAbovePercentMajority then false
  else if highest - current < parameters.triggerAbsoluteMajority then false
  else true

def isExcluded (activeLocation : Option Location) : Bool :=
  activeLocation.any parameters.excludedLocations.contains

end FollowTheSunParameters

structure WeightedObject (Object : Type) where
  object : Object
  weight : ℚ

def WeightedObject.compareTo {Object : Type} (weighted other : WeightedObject Object) : Int :=
  let diff := other.weight - weighted.weight
  if diff > 1 / 10 ^ 16 then -1
  else if diff < -(1 / 10 ^ 16) then 1
  else 0

namespace DefaultFollowTheSunModel
variable {Container Item : Type}

/-- The locations that send more than the active one does, the busiest first. -/
def locationsWtd (sendsByLocation : LinkedMap Location ℚ) (current : ℚ) :
    List (WeightedObject Location) :=
  let locations := if sendsByLocation.values.sum > 0 then
    (sendsByLocation.entries.filter fun entry => entry.2 > current).map fun entry =>
      ⟨entry.1, entry.2⟩ else []
  (locations.insertionSort fun first second => first.compareTo second ≤ 0).reverse

def currentRate (sendsByLocation : LinkedMap Location ℚ) (activeLocation : Option Location) : ℚ :=
  (activeLocation.bind sendsByLocation.get).getD 0

def findOptimal (contenders : List Container) : Option Container := contenders.head?

/-- A container in the first location that has one, with that location; and the
locations after it. -/
def findHighest (model : DefaultFollowTheSunModel Container Item) (item : Item) :
    List (WeightedObject Location) →
      Option (Container × WeightedObject Location) × List (WeightedObject Location)
  | [] => (none, [])
  | weightedObject :: rest =>
      match findOptimal (model.getAvailableContainersFor item weightedObject.object) with
      | some container => (some (container, weightedObject), rest)
      | none => model.findHighest item rest

section Rounds
variable [DecidableEq Container] [DecidableEq Item]
variable (parameters : FollowTheSunParameters) (order : SetOrder Item)

/-- The container to move to, once the best and the second best location are known. -/
def migration (sendsByLocation : LinkedMap Location ℚ) (activeLocation : Option Location)
    (activeContainer : Option Container) (optimalContainerInHighest : Container)
    (highestMsgRate : ℚ) (nextHighest : Option ℚ) : Option Container :=
  let current := currentRate sendsByLocation activeLocation
  if parameters.isTriggered highestMsgRate sendsByLocation.values.sum (nextHighest.getD current)
      current then
    activeContainer.bind fun container =>
      if container = optimalContainerInHighest then none else some optimalContainerInHighest
  else none

def isConsidered (model : DefaultFollowTheSunModel Container Item) (item : Item)
    (activeLocation : Option Location) : Bool :=
  !parameters.isExcluded activeLocation && model.isItemMoveable item &&
    !model.hasActiveMigration item

def findMigration (model : DefaultFollowTheSunModel Container Item)
    (sendsByLocation : LinkedMap Location ℚ) (item : Item) : Option Container :=
  let activeLocation := model.getItemLocation item
  if model.isConsidered parameters item activeLocation then
    let highest := model.findHighest item
      (locationsWtd sendsByLocation (currentRate sendsByLocation activeLocation))
    highest.1.bind fun best =>
      let nextHighest := (model.findHighest item highest.2).1.map fun next => next.2.weight
      migration parameters sendsByLocation activeLocation (model.getItemContainer item) best.1
        best.2.weight nextHighest
  else none

abbrev Round (Container Item : Type) :=
  DefaultFollowTheSunModel Container Item × List (Item × Container)

def rebalanceItem (directSendsToItemByLocation : Item → Option (LinkedMap Location ℚ))
    (round : Round Container Item) (item : Item) : Round Container Item :=
  let sendsByLocation := (directSendsToItemByLocation item).getD .empty
  match round.1.findMigration parameters sendsByLocation item with
  | some container =>
      (round.1.onItemMoved order item (some container), round.2 ++ [(item, container)])
  | none => round

def rebalance (model : DefaultFollowTheSunModel Container Item) : Round Container Item :=
  model.getItems.foldl (rebalanceItem parameters order model.getDirectSendsToItemByLocation)
    (model, [])

end Rounds
end DefaultFollowTheSunModel
end Brooklyn
