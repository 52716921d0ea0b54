import Brooklyn.BalanceablePoolModel

/-!
`BalancingStrategy.rebalance` and `PolicyUtilForPool` over
`DefaultBalanceablePoolModel`, with exact rational arithmetic. Every requested move
succeeds at once. A pass returns the model after it and the moves it made; a move
keeps the workrates of the two containers from before it, and whether
`findBestItemToMove` fell back on the smallest item. `gonnaGrow` is always false
and is left out with the branches it guards, like the second tests of a condition
that the source marks as already tested. The loop over a cold node carries a fuel,
which is shown to suffice.
-/

namespace Brooklyn

structure Move (Container Item : Type) where
  item : Item
  oldNode : Container
  newNode : Container
  workrate : ℚ
  oldNodeWorkrate : ℚ
  newNodeWorkrate : ℚ
  fallback : Bool

/-- The best candidates met by the loop of `findBestItemToMove`, each with the
number it is compared by. -/
structure Search (Item : Type) where
  closestMatch : Option (Item × ℚ)
  smallestMoveable : Option (Item × ℚ)
  largest : Option (Item × ℚ)
  exclusions : Bool

namespace DefaultBalanceablePoolModel
variable {Container Item : Type} [DecidableEq Container] [DecidableEq Item]

def maxMigrationsPerBalancingNode : Nat := 20

section PolicyUtilForPool
variable (model : DefaultBalanceablePoolModel Container Item)

def considerContainer (capacity : Container → ℚ) (excludedContainers : List Container)
    (best : Option Container × ℚ) (node : Container) : Option Container × ℚ :=
  if node ∈ excludedContainers then best
  else if model.getHighThreshold node = -1 ∨ model.getTotalWorkrate node = -1 then best
  else if capacity node > best.2 then (some node, capacity node)
  else best

/-- The container with the largest positive `capacity`, the first one if several. -/
def findContainer (capacity : Container → ℚ) (excludedContainers : List Container) :
    Option Container :=
  (model.getPoolContents.foldl (model.considerContainer capacity excludedContainers) (none, 0)).1

def findColdestContainer (excludedContainers : List Container) : Option Container :=
  model.findContainer (fun node => model.getHighThreshold node - model.getTotalWorkrate node)
    excludedContainers

def findHottestContainer (excludedContainers : List Container) : Option Container :=
  model.findContainer (fun node => model.getTotalWorkrate node - model.getHighThreshold node)
    excludedContainers

end PolicyUtilForPool

section Selection
variable (model : DefaultBalanceablePoolModel Container Item)

/-- Keeps the candidate that is better than the best one before it, or the first. -/
def improve (better : ℚ → ℚ → Bool) (best : Option (Item × ℚ)) (item : Item) (amount : ℚ) :
    Option (Item × ℚ) :=
  match best with
  | none => some (item, amount)
  | some (_, bound) => if better amount bound then some (item, amount) else best

def isItemBlocked (item : Item) : Option Location → Bool
  | none => false
  | some location => !model.isItemAllowedIn item location

def considerItem (targetCost maxCost : ℚ) (excludedItems : List Item)
    (locationIfKnown : Option Location) (found : Search Item) (entry : Item × Option ℚ) :
    Search Item :=
  let item := entry.1
  match entry.2 with
  | none => found
  | some cost =>
      if !model.isItemMoveable item then found
      else if cost < 0 then found
      else if item ∈ excludedItems then { found with exclusions := true }
      else if cost ≤ 0 then found
      else
        let found := { found with
          largest := improve (fun cost bound => decide (cost > bound)) found.largest item cost }
        if model.isItemBlocked item locationIfKnown then found
        else
          let found := { found with
            smallestMoveable := improve (fun cost bound => decide (cost < bound))
              found.smallestMoveable item cost }
          if cost > maxCost then found
          else { found with
            closestMatch := improve (fun diff bound => decide (diff < bound))
              found.closestMatch item |targetCost - cost| }

def searchItems (costsPerItem : List (Item × Option ℚ)) (targetCost maxCost : ℚ)
    (excludedItems : List Item) (locationIfKnown : Option Location) : Search Item :=
  costsPerItem.foldl (model.considerItem targetCost maxCost excludedItems locationIfKnown)
    ⟨none, none, none, false⟩

/-- The smallest item, when nothing fits: it has to stay below the limit and
below the largest one. -/
def Search.fallback (found : Search Item) (maxCostIfNothingSmallerButLarger : ℚ) : Option Item :=
  match found.smallestMoveable, found.largest with
  | some (item, smallestC), some (_, largestC) =>
      if smallestC < maxCostIfNothingSmallerButLarger ∧ smallestC < largestC ∧ !found.exclusions
      then some item else none
  | _, _ => none

def findBestItemToMove (costsPerItem : List (Item × Option ℚ))
    (targetCost maxCost maxCostIfNothingSmallerButLarger : ℚ) (excludedItems : List Item)
    (locationIfKnown : Option Location) : Option Item :=
  let found := model.searchItems costsPerItem targetCost maxCost excludedItems locationIfKnown
  match found.closestMatch with
  | some (item, _) => some item
  | none => Search.fallback found maxCostIfNothingSmallerButLarger

/-- Half the difference, or less if that would make the receiver too hot. -/
def idealSizeToMove (oldNodeWorkrate newNodeWorkrate newNodeHighThreshold : ℚ) : ℚ :=
  let ideal := (oldNodeWorkrate - newNodeWorkrate) / 2
  if ideal + newNodeWorkrate > newNodeHighThreshold then newNodeHighThreshold - newNodeWorkrate
  else ideal

/-- The item to move between two containers, as both passes look for it. -/
def selectMove (oldNode newNode : Container) (oldNodeWorkrate newNodeWorkrate
    maxSizeToMoveIdeally maxSizeToMoveIfNoSmallButLarger : ℚ) (itemsMoved : List Item) :
    Option (Move Container Item) := do
  let costsPerItem := model.getItemWorkrates oldNode
  let targetCost := idealSizeToMove oldNodeWorkrate newNodeWorkrate (model.getHighThreshold newNode)
  let item ← model.findBestItemToMove costsPerItem targetCost maxSizeToMoveIdeally
    maxSizeToMoveIfNoSmallButLarger itemsMoved (model.getLocation newNode)
  let workrate ← model.itemToWorkrate item
  let found := model.searchItems costsPerItem targetCost maxSizeToMoveIdeally itemsMoved
    (model.getLocation newNode)
  return ⟨item, oldNode, newNode, workrate, oldNodeWorkrate, newNodeWorkrate,
    found.closestMatch.isNone⟩

end Selection

section Passes
variable (order : SetOrder Item)

abbrev Pass (Container Item : Type) :=
  DefaultBalanceablePoolModel Container Item × List (Move Container Item)

def moveItem (model : DefaultBalanceablePoolModel Container Item) (move : Move Container Item) :
    DefaultBalanceablePoolModel Container Item :=
  model.onItemMoved order move.item (some move.newNode)

/-- One iteration over a hot node: the move it makes, or none when the loop ends. -/
def hotPush (model : DefaultBalanceablePoolModel Container Item) (node : Container)
    (nodeWorkrate : ℚ) (itemsMoved : List Item) : Option (Move Container Item) :=
  if nodeWorkrate > model.getHighThreshold node then
    match model.findColdestContainer [] with
    | none => none
    | some coldNode =>
        if coldNode = node then none
        else
          let coldNodeWorkrate := model.getTotalWorkrate coldNode
          let emergencyLoadBalancing := coldNodeWorkrate < nodeWorkrate * 2 / 3
          if coldNodeWorkrate ≥ model.getHighThreshold coldNode ∧ ¬emergencyLoadBalancing then none
          else model.selectMove node coldNode nodeWorkrate coldNodeWorkrate
            (min (nodeWorkrate / 2 + 1 / 100000) ((nodeWorkrate - coldNodeWorkrate) * (9 / 10)))
            (nodeWorkrate * 3 / 4) itemsMoved
  else none

def hotLoop : Nat → DefaultBalanceablePoolModel Container Item → Container → ℚ → List Item →
    Pass Container Item
  | 0, model, _, _, _ => (model, [])
  | migrations + 1, model, node, nodeWorkrate, itemsMoved =>
      match model.hotPush node nodeWorkrate itemsMoved with
      | none => (model, [])
      | some move =>
          let rest := hotLoop migrations (model.moveItem order move) node
            (nodeWorkrate - move.workrate) (itemsMoved ++ [move.item])
          (rest.1, move :: rest.2)

def balanceItemsOnHotNode (model : DefaultBalanceablePoolModel Container Item) (node : Container)
    (nodeWorkrate : ℚ) : Pass Container Item :=
  if model.getHighThreshold node = -1 then (model, [])
  else hotLoop order maxMigrationsPerBalancingNode model node nodeWorkrate []

/-- One iteration over a cold node. -/
inductive Pull (Container Item : Type) where
  | stop
  | exclude (hotNode : Container)
  | move (move : Move Container Item)

def coldPull (model : DefaultBalanceablePoolModel Container Item) (questionedNode : Container)
    (questionedNodeTotalWorkrate : ℚ) (itemsMoved : List Item) (nodesChecked : List Container) :
    Pull Container Item :=
  if questionedNodeTotalWorkrate < model.getLowThreshold questionedNode then
    match model.findHottestContainer nodesChecked with
    | none => .stop
    | some hotNode =>
        if hotNode = questionedNode then .stop
        else
          let hotNodeWorkrate := model.getTotalWorkrate hotNode
          if hotNodeWorkrate = -1 ∨ model.getLowThreshold hotNode = -1 ∨
              model.getHighThreshold hotNode = -1 then .stop
          else if hotNodeWorkrate ≤ model.getLowThreshold hotNode then .stop
          else
            match model.selectMove hotNode questionedNode hotNodeWorkrate
              questionedNodeTotalWorkrate
              (min (hotNodeWorkrate / 2) ((hotNodeWorkrate - questionedNodeTotalWorkrate) * (6 / 10)))
              (questionedNodeTotalWorkrate * 3 / 4) itemsMoved with
            | none => .exclude hotNode
            | some move => .move move
  else .stop

/-- `migrations` counts the ones still permitted; none is left without fuel. -/
def coldLoop : Nat → Nat → DefaultBalanceablePoolModel Container Item → Container → ℚ →
    List Item → List Container → Option (Pass Container Item)
  | 0, _, _, _, _, _, _ => none
  | fuel + 1, migrations, model, questionedNode, workrate, itemsMoved, nodesChecked =>
      match model.coldPull questionedNode workrate itemsMoved nodesChecked with
      | .stop => some (model, [])
      | .exclude hotNode =>
          coldLoop fuel migrations model questionedNode workrate itemsMoved
            (nodesChecked ++ [hotNode])
      | .move move =>
          let moved := model.moveItem order move
          if migrations ≤ 1 then some (moved, [move])
          else (coldLoop fuel (migrations - 1) moved questionedNode (workrate + move.workrate)
            (itemsMoved ++ [move.item]) nodesChecked).map fun rest => (rest.1, move :: rest.2)

def balanceItemsOnColdNode (model : DefaultBalanceablePoolModel Container Item)
    (questionedNode : Container) (questionedNodeTotalWorkrate : ℚ) :
    Option (Pass Container Item) :=
  if (model.getItemsForContainer questionedNode).any fun item => !model.isItemMoveable item then
    some (model, [])
  else coldLoop order (model.containers.length + maxMigrationsPerBalancingNode + 1)
    maxMigrationsPerBalancingNode model questionedNode questionedNodeTotalWorkrate [] []

def balanceItemsOnNodesInQuestion (model : DefaultBalanceablePoolModel Container Item)
    (questionedNode : Container) : Option (Pass Container Item) :=
  let questionedNodeTotalWorkrate := model.getTotalWorkrate questionedNode
  let hot := model.balanceItemsOnHotNode order questionedNode questionedNodeTotalWorkrate
  if hot.2.isEmpty then
    hot.1.balanceItemsOnColdNode order questionedNode questionedNodeTotalWorkrate
  else some hot

def balanceNodes : List Container → DefaultBalanceablePoolModel Container Item →
    Option (Pass Container Item)
  | [], model => some (model, [])
  | node :: rest, model => do
      let first ← model.balanceItemsOnNodesInQuestion order node
      let others ← balanceNodes rest first.1
      return (others.1, first.2 ++ others.2)

def checkAndApplyOn (model : DefaultBalanceablePoolModel Container Item)
    (dirtyNodes : List Container) : Option (Pass Container Item) :=
  if model.getPoolSize ≥ 2 then balanceNodes order dirtyNodes model else some (model, [])

def rebalance (model : DefaultBalanceablePoolModel Container Item) :
    Option (Pass Container Item) :=
  model.checkAndApplyOn order model.getPoolContents

end Passes
end DefaultBalanceablePoolModel
end Brooklyn
