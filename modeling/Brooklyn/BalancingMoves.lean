import Brooklyn.BalancingSelection

/-!
What the passes of `BalancingStrategy` do: every pass carries out a list of valid
moves, one after the other, and it ends. A valid move takes a movable item of
positive workrate from a container of the pool to another one. If
`findBestItemToMove` found an item within its maximum, the receiver ends below what
the donor had; for an item it fell back on, nothing of the kind holds. A pass over
one node moves no item twice and makes only so many moves.
-/

namespace Brooklyn
namespace DefaultBalanceablePoolModel
variable {Container Item : Type}

section Validity
variable [DecidableEq Container] [DecidableEq Item] {model : DefaultBalanceablePoolModel Container Item}

structure Valid (model : DefaultBalanceablePoolModel Container Item)
    (move : Move Container Item) : Prop where
  gives : move.oldNode ∈ model.containers
  takes : move.newNode ∈ model.containers
  apart : move.newNode ≠ move.oldNode
  listed : move.item ∈ model.containerToItems move.oldNode
  moveable : model.isItemMoveable move.item = true
  rated : model.itemToWorkrate move.item = some move.workrate
  positive : 0 < move.workrate
  donor : move.oldNodeWorkrate = model.getTotalWorkrate move.oldNode
  receiver : move.newNodeWorkrate = model.getTotalWorkrate move.newNode
  fits : move.fallback = false → Relieves move

/-- What `selectMove` found, before the totals are known to be the containers'. -/
structure Selected (model : DefaultBalanceablePoolModel Container Item) (oldNode newNode : Container)
    (oldNodeWorkrate newNodeWorkrate maxSizeToMoveIdeally : ℚ) (move : Move Container Item) :
    Prop where
  donor : move.oldNode = oldNode
  receiver : move.newNode = newNode
  donorWorkrate : move.oldNodeWorkrate = oldNodeWorkrate
  receiverWorkrate : move.newNodeWorkrate = newNodeWorkrate
  listed : move.item ∈ model.containerToItems oldNode
  moveable : model.isItemMoveable move.item = true
  rated : model.itemToWorkrate move.item = some move.workrate
  positive : 0 < move.workrate
  within : move.fallback = false → move.workrate ≤ maxSizeToMoveIdeally

omit [DecidableEq Container] in
theorem selectMove_some {oldNode newNode : Container}
    {oldNodeWorkrate newNodeWorkrate maxSizeToMoveIdeally limit : ℚ} {itemsMoved : List Item}
    {move : Move Container Item}
    (selected : model.selectMove oldNode newNode oldNodeWorkrate newNodeWorkrate
      maxSizeToMoveIdeally limit itemsMoved = some move) :
    Selected model oldNode newNode oldNodeWorkrate newNodeWorkrate maxSizeToMoveIdeally move := by
  simp only [selectMove, Option.bind_eq_bind, Option.bind_eq_some_iff, Option.pure_def,
    Option.some.injEq] at selected
  obtain ⟨item, chosen, workrate, rated, rfl⟩ := selected
  obtain ⟨cost, ⟨entry, moveable, positive⟩, within⟩ := findBestItemToMove_some chosen
  obtain ⟨listed, known⟩ := mem_getItemWorkrates.mp entry
  obtain rfl : workrate = cost := Option.some.inj (rated.symm.trans known)
  exact ⟨rfl, rfl, rfl, rfl, listed, moveable, rated, positive, within⟩

/-- A move as both passes choose it when they have moved some items already. An item
fallen back on is the lightest that the donor could give. -/
structure Chosen (model : DefaultBalanceablePoolModel Container Item) (itemsMoved : List Item)
    (move : Move Container Item) : Prop where
  valid : Valid model move
  fresh : move.item ∉ itemsMoved
  lightest : move.fallback = true → ∀ item ∈ model.containerToItems move.oldNode,
    model.isItemMoveable item = true → ∀ workrate, model.itemToWorkrate item = some workrate →
      0 < workrate → move.workrate ≤ workrate

omit [DecidableEq Container] in
theorem selectMove_lightest {oldNode newNode : Container}
    {oldNodeWorkrate newNodeWorkrate maxSizeToMoveIdeally limit : ℚ} {itemsMoved : List Item}
    {move : Move Container Item}
    (selected : model.selectMove oldNode newNode oldNodeWorkrate newNodeWorkrate
      maxSizeToMoveIdeally limit itemsMoved = some move) :
    move.item ∉ itemsMoved ∧ (move.fallback = true → ∀ item ∈ model.containerToItems oldNode,
      model.isItemMoveable item = true → ∀ workrate, model.itemToWorkrate item = some workrate →
        0 < workrate → move.workrate ≤ workrate) := by
  simp only [selectMove, Option.bind_eq_bind, Option.bind_eq_some_iff, Option.pure_def,
    Option.some.injEq] at selected
  obtain ⟨item, chosen, workrate, rated, rfl⟩ := selected
  refine ⟨findBestItemToMove_permitted chosen, fun nothing => ?_⟩
  obtain ⟨cost, ⟨entry, _, _⟩, least⟩ := findBestItemToMove_least chosen nothing
  obtain ⟨_, known⟩ := mem_getItemWorkrates.mp entry
  obtain rfl : workrate = cost := Option.some.inj (rated.symm.trans known)
  intro other listed moveable amount recorded positive
  exact least other amount ⟨mem_getItemWorkrates.mpr ⟨listed, recorded⟩, moveable, positive⟩

omit [DecidableEq Container] in
/-- Both passes bound the item by a fraction of the difference, among others. -/
theorem selectMove_chosen {oldNode newNode : Container} {oldNodeWorkrate newNodeWorkrate most
    fraction limit : ℚ} {itemsMoved : List Item} {move : Move Container Item}
    (gives : oldNode ∈ model.containers) (takes : newNode ∈ model.containers)
    (apart : newNode ≠ oldNode) (donor : oldNodeWorkrate = model.getTotalWorkrate oldNode)
    (receiver : newNodeWorkrate = model.getTotalWorkrate newNode) (possible : 0 < fraction)
    (below : fraction < 1)
    (selected : model.selectMove oldNode newNode oldNodeWorkrate newNodeWorkrate
      (min most ((oldNodeWorkrate - newNodeWorkrate) * fraction)) limit itemsMoved = some move) :
    Chosen model itemsMoved move ∧ move.oldNode = oldNode ∧ move.newNode = newNode := by
  obtain ⟨fresh, lightest⟩ := selectMove_lightest selected
  obtain ⟨rfl, rfl, rfl, rfl, listed, moveable, rated, positive, within⟩ :=
    selectMove_some selected
  have fits (closest : move.fallback = false) : Relieves move :=
    relieves_of_fraction below positive possible ((within closest).trans (min_le_right _ _))
  exact ⟨⟨⟨gives, takes, apart, listed, moveable, rated, positive, donor, receiver, fits⟩,
    fresh, lightest⟩, rfl, rfl⟩

theorem hotPush_chosen {node : Container} {nodeWorkrate : ℚ} {itemsMoved : List Item}
    {move : Move Container Item} (inPool : node ∈ model.containers)
    (total : nodeWorkrate = model.getTotalWorkrate node)
    (pushed : model.hotPush node nodeWorkrate itemsMoved = some move) :
    Chosen model itemsMoved move ∧ move.oldNode = node := by
  unfold hotPush at pushed
  split at pushed
  · split at pushed
    · cases pushed
    · next coldNode coldest =>
      split at pushed
      · cases pushed
      · next apart =>
        dsimp only at pushed
        split at pushed
        · cases pushed
        · obtain ⟨chosen, same, _⟩ := selectMove_chosen inPool (findContainer_some coldest).1 apart
            total rfl (by norm_num) (by norm_num) pushed
          exact ⟨chosen, same⟩
  · cases pushed

theorem coldPull_chosen {questionedNode : Container} {workrate : ℚ} {itemsMoved : List Item}
    {nodesChecked : List Container} {move : Move Container Item}
    (inPool : questionedNode ∈ model.containers)
    (total : workrate = model.getTotalWorkrate questionedNode)
    (pulled : model.coldPull questionedNode workrate itemsMoved nodesChecked = .move move) :
    Chosen model itemsMoved move ∧ move.newNode = questionedNode := by
  unfold coldPull at pulled
  split at pulled
  · split at pulled
    · cases pulled
    · next hotNode hottest =>
      split at pulled
      · cases pulled
      · next apart =>
        dsimp only at pulled
        split at pulled
        · cases pulled
        · split at pulled
          · cases pulled
          · split at pulled
            · cases pulled
            · next _ selection =>
              cases pulled
              obtain ⟨chosen, _, same⟩ := selectMove_chosen (findContainer_some hottest).1 inPool
                (fun same => apart same.symm) rfl total (by norm_num) (by norm_num) selection
              exact ⟨chosen, same⟩
  · cases pulled

theorem coldPull_exclude {questionedNode hotNode : Container} {workrate : ℚ}
    {itemsMoved : List Item} {nodesChecked : List Container}
    (excluded : model.coldPull questionedNode workrate itemsMoved nodesChecked =
      .exclude hotNode) : hotNode ∈ model.containers ∧ hotNode ∉ nodesChecked := by
  unfold coldPull at excluded
  split at excluded
  · split at excluded
    · cases excluded
    · next hottest =>
      split at excluded
      · cases excluded
      · dsimp only at excluded
        split at excluded
        · cases excluded
        · split at excluded
          · cases excluded
          · split at excluded
            · cases excluded
              exact findContainer_some hottest
            · cases excluded
  · cases excluded

end Validity

section Effects
variable [DecidableEq Container] [DecidableEq Item] (order : SetOrder Item)
    {model : DefaultBalanceablePoolModel Container Item} {move : Move Container Item}

omit [DecidableEq Container] [DecidableEq Item] in
theorem recorded_of_listed (consistent : Consistent model) {node : Container} {item : Item}
    (listed : item ∈ model.containerToItems node) :
    model.itemToContainer item = some (some node) := by
  have located := (consistent.located node item).mp listed
  cases recorded : model.itemToContainer item with
  | none => simp [recorded] at located
  | some parent => simpa [recorded] using located

theorem moveItem_eq (consistent : Consistent model) (valid : Valid model move) :
    model.moveItem order move = model.place order move.item (some move.newNode) := by
  have recorded := recorded_of_listed consistent valid.listed
  simp [moveItem, onItemMoved, recorded]

theorem moveItem_consistent (consistent : Consistent model) (valid : Valid model move) :
    Consistent (model.moveItem order move) := by
  rw [moveItem_eq order consistent valid]
  exact relocated_consistent consistent order move.item (some (some move.newNode)) rfl rfl rfl

@[simp] theorem onItemMoved_containers (item : Item) (newNode : Option Container) :
    (model.onItemMoved order item newNode).containers = model.containers := by
  unfold onItemMoved; split <;> rfl

@[simp] theorem onItemMoved_itemToWorkrate (item : Item) (newNode : Option Container) :
    (model.onItemMoved order item newNode).itemToWorkrate = model.itemToWorkrate := by
  unfold onItemMoved; split <;> rfl

theorem moveItem_containers : (model.moveItem order move).containers = model.containers :=
  onItemMoved_containers order move.item (some move.newNode)

theorem moveItem_weight : (model.moveItem order move).weight = model.weight := by
  funext item
  simp [weight, moveItem]

omit [DecidableEq Container] in
theorem weight_of_valid (valid : Valid model move) : model.weight move.item = move.workrate := by
  simp [weight, valid.rated, abs_of_pos valid.positive]

/-- The items listed after a valid move: gone from the old container, added to the
new one, the same elsewhere. -/
theorem moveItem_items (consistent : Consistent model) (valid : Valid model move) :
    (model.moveItem order move).containerToItems move.oldNode =
        (model.containerToItems move.oldNode).erase move.item ∧
      ((model.moveItem order move).containerToItems move.newNode).Perm
        (move.item :: model.containerToItems move.newNode) ∧
      ∀ node, node ≠ move.oldNode → node ≠ move.newNode →
        (model.moveItem order move).containerToItems node = model.containerToItems node := by
  have recorded := recorded_of_listed consistent valid.listed
  have absent : move.item ∉ model.containerToItems move.newNode := by
    intro listed
    have located := recorded_of_listed consistent listed
    rw [recorded] at located
    exact valid.apart (Option.some.inj (Option.some.inj located)).symm
  rw [moveItem_eq order consistent valid]
  simp only [place, relocate, recorded, Option.join_some, remove]
  refine ⟨?_, ?_, ?_⟩
  · rw [Function.update_of_ne valid.apart.symm, Function.update_self]
  · rw [Function.update_self, Function.update_of_ne valid.apart]
    exact order.perm_add absent
  · intro node notOld notNew
    rw [Function.update_of_ne notNew, Function.update_of_ne notOld]

/-- A valid move transfers its workrate between the totals. -/
theorem moveItem_total (consistent : Consistent model) (valid : Valid model move) :
    (model.moveItem order move).getTotalWorkrate =
      LoadEnergy.transfer model.getTotalWorkrate move.oldNode move.newNode move.workrate := by
  obtain ⟨atOld, atNew, elsewhere⟩ := moveItem_items order consistent valid
  have weight := weight_of_valid valid
  funext node
  simp only [getTotalWorkrate, getItemsForContainer, moveItem_weight, LoadEnergy.transfer]
  by_cases new : node = move.newNode
  · subst new
    rw [Function.update_self, (atNew.map model.weight).sum_eq, List.map_cons, List.sum_cons,
      weight, add_comm]
  · rw [Function.update_of_ne new]
    by_cases old : node = move.oldNode
    · subst old
      have split := ((List.perm_cons_erase valid.listed).map model.weight).sum_eq
      rw [List.map_cons, List.sum_cons, weight] at split
      rw [Function.update_self, atOld, split]
      ring
    · rw [Function.update_of_ne old, elsewhere node old new]
      rfl

theorem total_oldNode (consistent : Consistent model) (valid : Valid model move) :
    (model.moveItem order move).getTotalWorkrate move.oldNode =
      model.getTotalWorkrate move.oldNode - move.workrate := by
  rw [moveItem_total order consistent valid]
  simp [LoadEnergy.transfer, Function.update_of_ne valid.apart.symm]

theorem total_newNode (consistent : Consistent model) (valid : Valid model move) :
    (model.moveItem order move).getTotalWorkrate move.newNode =
      model.getTotalWorkrate move.newNode + move.workrate := by
  rw [moveItem_total order consistent valid]
  simp [LoadEnergy.transfer]

end Effects

section Runs
variable [DecidableEq Container] [DecidableEq Item] (order : SetOrder Item)

/-- `moves` are valid one after the other and lead from one model to the other. -/
inductive Carries : DefaultBalanceablePoolModel Container Item → List (Move Container Item) →
    DefaultBalanceablePoolModel Container Item → Prop where
  | nil (model : DefaultBalanceablePoolModel Container Item) : Carries model [] model
  | cons {model after : DefaultBalanceablePoolModel Container Item} {move : Move Container Item}
      {moves : List (Move Container Item)} (valid : Valid model move)
      (rest : Carries (model.moveItem order move) moves after) : Carries model (move :: moves) after

/-- The moves of a loop, each chosen with the items of the moves before it excluded. -/
inductive Picks : DefaultBalanceablePoolModel Container Item → List Item →
    List (Move Container Item) → DefaultBalanceablePoolModel Container Item → Prop where
  | nil (model : DefaultBalanceablePoolModel Container Item) (itemsMoved : List Item) :
      Picks model itemsMoved [] model
  | cons {model after : DefaultBalanceablePoolModel Container Item} {itemsMoved : List Item}
      {move : Move Container Item} {moves : List (Move Container Item)}
      (chosen : Chosen model itemsMoved move)
      (rest : Picks (model.moveItem order move) (itemsMoved ++ [move.item]) moves after) :
      Picks model itemsMoved (move :: moves) after

/-- The passes over the nodes in question, one after the other. -/
inductive Balances : List Container → DefaultBalanceablePoolModel Container Item →
    List (List (Move Container Item)) → DefaultBalanceablePoolModel Container Item → Prop where
  | nil (model : DefaultBalanceablePoolModel Container Item) : Balances [] model [] model
  | cons {node : Container} {nodes : List Container}
      {model middle after : DefaultBalanceablePoolModel Container Item}
      {moves : List (Move Container Item)} {passes : List (List (Move Container Item))}
      (balanced : model.balanceItemsOnNodesInQuestion order node = some (middle, moves))
      (rest : Balances nodes middle passes after) :
      Balances (node :: nodes) model (moves :: passes) after

variable {order} {model middle after : DefaultBalanceablePoolModel Container Item}
    {moves more : List (Move Container Item)}

theorem Carries.append (first : Carries order model moves middle)
    (second : Carries order middle more after) : Carries order model (moves ++ more) after := by
  induction first with
  | nil => exact second
  | cons valid _ ih => exact .cons valid (ih second)

theorem Carries.unchanged (carries : Carries order model [] after) : after = model := by
  cases carries
  rfl

theorem Carries.containers (carries : Carries order model moves after) :
    after.containers = model.containers := by
  induction carries with
  | nil => rfl
  | cons _ _ ih => rw [ih, moveItem_containers]

theorem Carries.consistent (carries : Carries order model moves after)
    (consistent : Consistent model) : Consistent after := by
  induction carries with
  | nil => exact consistent
  | cons valid _ ih => exact ih (moveItem_consistent order consistent valid)

variable {itemsMoved : List Item}

theorem Picks.carries (picks : Picks order model itemsMoved moves after) :
    Carries order model moves after := by
  induction picks with
  | nil model _ => exact .nil model
  | cons chosen _ ih => exact .cons chosen.valid ih

theorem Picks.fresh (picks : Picks order model itemsMoved moves after) :
    (∀ move ∈ moves, move.item ∉ itemsMoved) ∧ (moves.map Move.item).Nodup := by
  induction picks with
  | nil => exact ⟨fun _ member => (List.not_mem_nil member).elim, List.nodup_nil⟩
  | cons chosen _ ih =>
      obtain ⟨others, distinct⟩ := ih
      constructor
      · intro move member
        rcases List.mem_cons.mp member with rfl | later
        · exact chosen.fresh
        · exact fun moved => others move later (List.mem_append_left _ moved)
      · refine List.nodup_cons.mpr ⟨fun listed => ?_, distinct⟩
        obtain ⟨move, later, same⟩ := List.mem_map.mp listed
        exact others move later (same ▸ List.mem_append_right _ (List.mem_singleton_self _))

theorem hotLoop_picks (migrations : Nat) (consistent : Consistent model) {node : Container}
    (inPool : node ∈ model.containers) {nodeWorkrate : ℚ}
    (total : nodeWorkrate = model.getTotalWorkrate node) (itemsMoved : List Item) :
    Picks order model itemsMoved (hotLoop order migrations model node nodeWorkrate itemsMoved).2
      (hotLoop order migrations model node nodeWorkrate itemsMoved).1 := by
  induction migrations generalizing model nodeWorkrate itemsMoved with
  | zero => exact .nil model itemsMoved
  | succ migrations ih =>
      unfold hotLoop
      split
      · exact .nil model itemsMoved
      · next move pushed =>
        obtain ⟨chosen, same⟩ := hotPush_chosen inPool total pushed
        refine .cons chosen (ih (moveItem_consistent order consistent chosen.valid) ?_ ?_ _)
        · rw [moveItem_containers]
          exact inPool
        · rw [← same, total_oldNode order consistent chosen.valid, same, total]

theorem hotLoop_length (migrations : Nat) (model : DefaultBalanceablePoolModel Container Item)
    (node : Container) (nodeWorkrate : ℚ) (itemsMoved : List Item) :
    (hotLoop order migrations model node nodeWorkrate itemsMoved).2.length ≤ migrations := by
  induction migrations generalizing model nodeWorkrate itemsMoved with
  | zero => exact le_rfl
  | succ migrations ih =>
      unfold hotLoop
      split
      · exact Nat.zero_le _
      · exact Nat.succ_le_succ (ih _ _ _)

theorem coldLoop_picks {fuel migrations : Nat} (consistent : Consistent model)
    {questionedNode : Container} (inPool : questionedNode ∈ model.containers) {workrate : ℚ}
    (total : workrate = model.getTotalWorkrate questionedNode) {itemsMoved : List Item}
    {nodesChecked : List Container} {pass : Pass Container Item}
    (finished : coldLoop order fuel migrations model questionedNode workrate itemsMoved
      nodesChecked = some pass) : Picks order model itemsMoved pass.2 pass.1 := by
  induction fuel generalizing model migrations workrate itemsMoved nodesChecked pass with
  | zero => cases finished
  | succ fuel ih =>
      unfold coldLoop at finished
      split at finished
      · cases finished
        exact .nil model itemsMoved
      · exact ih consistent inPool total finished
      · next move pulled =>
        obtain ⟨chosen, same⟩ := coldPull_chosen inPool total pulled
        dsimp only at finished
        split at finished
        · cases finished
          exact .cons chosen (.nil _ _)
        · obtain ⟨rest, ended, rfl⟩ := Option.map_eq_some_iff.mp finished
          refine .cons chosen (ih (moveItem_consistent order consistent chosen.valid) ?_ ?_ ended)
          · rw [moveItem_containers]
            exact inPool
          · rw [← same, total_newNode order consistent chosen.valid, same, total]

theorem coldLoop_length {fuel migrations : Nat} (some_left : 0 < migrations)
    {questionedNode : Container} {workrate : ℚ} {nodesChecked : List Container}
    {pass : Pass Container Item}
    (finished : coldLoop order fuel migrations model questionedNode workrate itemsMoved
      nodesChecked = some pass) : pass.2.length ≤ migrations := by
  induction fuel generalizing model migrations workrate itemsMoved nodesChecked pass with
  | zero => cases finished
  | succ fuel ih =>
      unfold coldLoop at finished
      split at finished
      · cases finished
        exact Nat.zero_le _
      · exact ih some_left finished
      · dsimp only at finished
        split at finished
        · cases finished
          exact some_left
        · next several =>
          obtain ⟨rest, ended, rfl⟩ := Option.map_eq_some_iff.mp finished
          have fewer := ih (by omega) ended
          simp only [List.length_cons]
          omega

/-- The containers of the pool that `nodesChecked` does not exclude yet. -/
def unchecked (model : DefaultBalanceablePoolModel Container Item)
    (nodesChecked : List Container) : Nat :=
  (model.containers.filter fun node => decide (node ∉ nodesChecked)).length

omit [DecidableEq Item] in
theorem unchecked_lt {nodesChecked : List Container} {node : Container}
    (inPool : node ∈ model.containers) (fresh : node ∉ nodesChecked) :
    unchecked model (nodesChecked ++ [node]) < unchecked model nodesChecked := by
  have narrowed : (model.containers.filter fun other => decide (other ∉ nodesChecked ++ [node])) =
      (model.containers.filter fun other => decide (other ∉ nodesChecked)).filter
        fun other => decide (other ≠ node) := by
    rw [List.filter_filter]
    refine List.filter_congr fun other _ => ?_
    simp [not_or, and_comm]
  rw [unchecked, unchecked, narrowed]
  refine List.length_filter_lt_length_iff_exists.mpr ⟨node, ?_, by simp⟩
  exact List.mem_filter.mpr ⟨inPool, decide_eq_true fresh⟩

/-- The loop over a cold node ends: an iteration that moves nothing excludes a
container, and only so many may move. -/
theorem coldLoop_ends (order : SetOrder Item) {fuel migrations : Nat}
    (questionedNode : Container) (workrate : ℚ) (itemsMoved : List Item) (nodesChecked : List Container)
    (enough : unchecked model nodesChecked + migrations < fuel) :
    ∃ pass, coldLoop order fuel migrations model questionedNode workrate itemsMoved
      nodesChecked = some pass := by
  induction fuel generalizing model migrations workrate itemsMoved nodesChecked with
  | zero => cases enough
  | succ fuel ih =>
      unfold coldLoop
      split
      · exact ⟨_, rfl⟩
      · next hotNode excluded =>
        obtain ⟨inPool, fresh⟩ := coldPull_exclude excluded
        have fewer := unchecked_lt inPool fresh
        exact ih _ _ _ (by omega)
      · next move _ =>
        dsimp only
        split
        · exact ⟨_, rfl⟩
        · next several =>
          have same : unchecked (model.moveItem order move) nodesChecked =
              unchecked model nodesChecked := by simp [unchecked, moveItem_containers]
          have fewer : unchecked (model.moveItem order move) nodesChecked + (migrations - 1) <
              fuel := by omega
          obtain ⟨rest, ended⟩ :=
            ih (workrate + move.workrate) (itemsMoved ++ [move.item]) nodesChecked fewer
          exact ⟨_, by rw [ended]; rfl⟩

/-- The pass over one node ends. -/
theorem balanceItemsOnNodesInQuestion_picks (order : SetOrder Item)
    (consistent : Consistent model) {node : Container} (inPool : node ∈ model.containers) :
    ∃ pass, model.balanceItemsOnNodesInQuestion order node = some pass ∧
      Picks order model [] pass.2 pass.1 ∧ pass.2.length ≤ maxMigrationsPerBalancingNode := by
  have hot : Picks order model []
      (model.balanceItemsOnHotNode order node (model.getTotalWorkrate node)).2
      (model.balanceItemsOnHotNode order node (model.getTotalWorkrate node)).1 ∧
      (model.balanceItemsOnHotNode order node (model.getTotalWorkrate node)).2.length ≤
        maxMigrationsPerBalancingNode := by
    unfold balanceItemsOnHotNode
    split
    · exact ⟨.nil model [], Nat.zero_le _⟩
    · exact ⟨hotLoop_picks _ consistent inPool rfl [], hotLoop_length _ model node _ []⟩
  unfold balanceItemsOnNodesInQuestion
  dsimp only
  generalize model.balanceItemsOnHotNode order node (model.getTotalWorkrate node) = pass at hot
  obtain ⟨pushed, moves⟩ := pass
  cases moves with
  | cons move rest => exact ⟨_, rfl, hot⟩
  | nil =>
      obtain rfl : pushed = model := hot.1.carries.unchanged
      simp only [List.isEmpty_nil, if_true]
      unfold balanceItemsOnColdNode
      split
      · exact ⟨_, rfl, .nil pushed [], Nat.zero_le _⟩
      · have bound : unchecked pushed [] ≤ pushed.containers.length := List.length_filter_le _ _
        have enough : unchecked pushed [] + maxMigrationsPerBalancingNode <
            pushed.containers.length + maxMigrationsPerBalancingNode + 1 := by omega
        obtain ⟨pass, ended⟩ :=
          coldLoop_ends order node (pushed.getTotalWorkrate node) [] [] enough
        exact ⟨pass, ended, coldLoop_picks consistent inPool rfl ended,
          coldLoop_length (by decide) ended⟩

theorem balanceNodes_balances (nodes : List Container) (consistent : Consistent model)
    (inPool : ∀ node ∈ nodes, node ∈ model.containers) :
    ∃ pass passes, balanceNodes order nodes model = some pass ∧ pass.2 = passes.flatten ∧
      Balances order nodes model passes pass.1 := by
  induction nodes generalizing model with
  | nil => exact ⟨_, [], rfl, rfl, .nil model⟩
  | cons node rest ih =>
      obtain ⟨first, balanced, picks, _⟩ :=
        balanceItemsOnNodesInQuestion_picks order consistent (inPool node List.mem_cons_self)
      obtain ⟨others, passes, finished, flat, continued⟩ := ih (picks.carries.consistent consistent)
        fun other member => picks.carries.containers ▸ inPool other (List.mem_cons_of_mem _ member)
      refine ⟨(others.1, first.2 ++ others.2), first.2 :: passes, ?_, ?_, .cons balanced continued⟩
      · simp [balanceNodes, balanced, finished]
      · rw [flat, List.flatten_cons]

theorem Balances.picks {nodes : List Container} {passes : List (List (Move Container Item))}
    (balances : Balances order nodes model passes after) (consistent : Consistent model)
    (inPool : ∀ node ∈ nodes, node ∈ model.containers) :
    Carries order model passes.flatten after ∧ ∀ pass ∈ passes,
      pass.length ≤ maxMigrationsPerBalancingNode ∧ (pass.map Move.item).Nodup := by
  induction balances with
  | nil model => exact ⟨.nil model, fun _ member => (List.not_mem_nil member).elim⟩
  | cons balanced _ ih =>
      obtain ⟨pass, same, picks, short⟩ :=
        balanceItemsOnNodesInQuestion_picks order consistent (inPool _ List.mem_cons_self)
      rw [balanced] at same
      cases same
      obtain ⟨carries, each⟩ := ih (picks.carries.consistent consistent)
        fun other member => picks.carries.containers ▸ inPool other (List.mem_cons_of_mem _ member)
      refine ⟨picks.carries.append carries, fun pass member => ?_⟩
      rcases List.mem_cons.mp member with rfl | later
      · exact ⟨short, picks.fresh.2⟩
      · exact each pass later

/-- A call of `rebalance` ends, and carries out the moves it reports. -/
theorem rebalance_carries (order : SetOrder Item) (consistent : Consistent model) :
    ∃ pass, model.rebalance order = some pass ∧ Carries order model pass.2 pass.1 := by
  unfold rebalance checkAndApplyOn
  split
  · obtain ⟨pass, passes, finished, flat, balances⟩ :=
      balanceNodes_balances model.getPoolContents consistent fun _ => id
    exact ⟨pass, finished, flat ▸ (balances.picks consistent fun _ => id).1⟩
  · exact ⟨_, rfl, .nil model⟩

end Runs
end DefaultBalanceablePoolModel
end Brooklyn
