import Brooklyn.BalanceablePoolTotals
import Brooklyn.BalancingQuiescence

/-!
What a call of `rebalance` leaves alone. Every move keeps the items, their workrates
and which of them are immovable; it gives one movable item another container of the
pool. A call is one pass over each container, and no pass moves an item twice.
-/

namespace Brooklyn
namespace DefaultBalanceablePoolModel
variable {Container Item : Type} [DecidableEq Container] [DecidableEq Item]

structure Kept (model after : DefaultBalanceablePoolModel Container Item) : Prop where
  known : ∀ item, after.hasItem item = model.hasItem item
  workrates : after.itemToWorkrate = model.itemToWorkrate
  immovable : after.immovableItems = model.immovableItems
  placed : ∀ item, (model.getParentContainer item).isSome →
    (after.getParentContainer item).isSome
  moved : ∀ item, after.getParentContainer item = model.getParentContainer item ∨
    (model.isItemMoveable item = true ∧
      ∃ container ∈ model.containers, after.getParentContainer item = some container)

variable {order : SetOrder Item} {model after : DefaultBalanceablePoolModel Container Item}
    {moves : List (Move Container Item)}

theorem moveItem_kept (order : SetOrder Item) (consistent : Consistent model) {move : Move Container Item}
    (valid : Valid model move) : Kept model (model.moveItem order move) := by
  rw [moveItem_eq order consistent valid]
  have recorded := recorded_of_listed consistent valid.listed
  refine ⟨fun item => ?_, rfl, rfl, fun item placed => ?_, fun item => ?_⟩
  · rw [hasItem_place]
    by_cases same : item = move.item
    · simp [same, hasItem, recorded]
    · simp [same]
  · by_cases same : item = move.item
    · simp [getParentContainer, place, same]
    · simpa [getParentContainer, place, same] using placed
  · by_cases same : item = move.item
    · subst same
      exact Or.inr ⟨valid.moveable, move.newNode, valid.takes, by simp [getParentContainer, place]⟩
    · exact Or.inl (by simp [getParentContainer, place, same])

omit [DecidableEq Container] in
theorem Kept.isItemMoveable (kept : Kept model after) (item : Item) :
    after.isItemMoveable item = model.isItemMoveable item := by
  have known := kept.known item
  unfold hasItem at known
  rw [DefaultBalanceablePoolModel.isItemMoveable, known, kept.immovable]
  rfl

omit [DecidableEq Container] in
theorem Kept.trans {middle : DefaultBalanceablePoolModel Container Item}
    (first : Kept model middle) (same : middle.containers = model.containers)
    (second : Kept middle after) : Kept model after where
  known item := (second.known item).trans (first.known item)
  workrates := second.workrates.trans first.workrates
  immovable := second.immovable.trans first.immovable
  placed item placed := second.placed item (first.placed item placed)
  moved item := by
    rcases second.moved item with kept | ⟨moveable, container, inPool, parent⟩
    · rw [kept]
      exact first.moved item
    · exact Or.inr ⟨(first.isItemMoveable item).symm.trans moveable, container, same ▸ inPool,
        parent⟩

theorem Carries.kept (carries : Carries order model moves after) (consistent : Consistent model) :
    Kept model after := by
  induction carries with
  | nil => exact ⟨fun _ => rfl, rfl, rfl, fun _ => id, fun _ => Or.inl rfl⟩
  | cons valid _ ih =>
      exact (moveItem_kept order consistent valid).trans (moveItem_containers order)
        (ih (moveItem_consistent order consistent valid))

/-- Where the moves take the items they move. -/
structure Allowed (model : DefaultBalanceablePoolModel Container Item)
    (move : Move Container Item) : Prop where
  movable : move.item ∉ model.immovableItems
  inPool : move.newNode ∈ model.containers
  located : ∀ location, model.getLocation move.newNode = some location →
    model.isItemAllowedIn move.item location = true

omit [DecidableEq Container] in
theorem not_immovable {item : Item} (moveable : model.isItemMoveable item = true) :
    item ∉ model.immovableItems := by
  simp only [isItemMoveable, Bool.and_eq_true, Bool.not_eq_true', List.contains_eq_mem,
    decide_eq_false_iff_not] at moveable
  exact moveable.2

theorem Carries.allowed (carries : Carries order model moves after) (consistent : Consistent model) :
    ∀ move ∈ moves, Allowed model move := by
  induction carries with
  | nil => exact fun _ member => (List.not_mem_nil member).elim
  | cons valid _ ih =>
      intro move member
      rcases List.mem_cons.mp member with rfl | later
      · exact ⟨not_immovable valid.moveable, valid.takes, fun _ _ => rfl⟩
      · have allowed := ih (moveItem_consistent order consistent valid) move later
        have movable := allowed.movable
        have inPool := allowed.inPool
        rw [(moveItem_kept order consistent valid).immovable] at movable
        rw [moveItem_containers] at inPool
        exact ⟨movable, inPool, fun _ _ => rfl⟩

/-- The whole frame of a call: what stays, which moves are made, and the passes
that make them. -/
structure Framed (order : SetOrder Item) (model after : DefaultBalanceablePoolModel Container Item)
    (moves : List (Move Container Item)) : Prop where
  items : ∀ item, after.hasItem item = model.hasItem item
  workrates : after.itemToWorkrate = model.itemToWorkrate
  placedOnce : ∀ item, (model.getParentContainer item).isSome →
    ∃! container, item ∈ after.getItemsForContainer container
  movedOnly : ∀ item, after.getParentContainer item ≠ model.getParentContainer item →
    item ∉ model.immovableItems ∧
      ∃ container ∈ model.containers, after.getParentContainer item = some container
  allowed : ∀ move ∈ moves, Allowed model move
  passes : ∃ passes : List (List (Move Container Item)),
    Balances order model.getPoolContents model passes after ∧
    passes.flatten = moves ∧ ∀ pass ∈ passes,
      (pass.map Move.item).Nodup ∧ pass.length ≤ maxMigrationsPerBalancingNode

/-- With at least two containers, a call of `rebalance` ends within its frame. -/
theorem rebalance_framed (containerOrder : SetOrder Container) (order : SetOrder Item)
    (updates : List (Update Container Item))
    (several : 2 ≤ (built containerOrder order updates).getPoolSize) :
    ∃ after moves, (built containerOrder order updates).rebalance order = some (after, moves) ∧
      Framed order (built containerOrder order updates) after moves := by
  have consistent := built_consistent containerOrder order updates
  generalize built containerOrder order updates = model at several consistent
  obtain ⟨⟨after, moves⟩, passes, finished, flat, balances⟩ : ∃ pass passes,
      balanceNodes order model.getPoolContents model = some pass ∧ pass.2 = passes.flatten ∧
        Balances order model.getPoolContents model passes pass.1 :=
    balanceNodes_balances model.getPoolContents consistent fun _ => id
  obtain ⟨carries, each⟩ := balances.picks consistent fun _ => id
  change moves = passes.flatten at flat
  have kept := carries.kept consistent
  refine ⟨after, moves, ?_, kept.known, kept.workrates, fun item placed => ?_, fun item differs => ?_,
    flat ▸ carries.allowed consistent, passes, balances, flat.symm,
    fun pass member => (each pass member).symm⟩
  · simpa [rebalance, checkAndApplyOn, several] using finished
  · obtain ⟨container, parent⟩ := Option.isSome_iff_exists.mp (kept.placed item placed)
    have located := (carries.consistent consistent).located
    refine ⟨container, (located container item).mpr parent, fun other listed => ?_⟩
    exact Option.some.inj (((located other item).mp listed).symm.trans parent)
  · rcases kept.moved item with same | ⟨moveable, container, inPool, parent⟩
    · exact absurd same differs
    · exact ⟨not_immovable moveable, container, inPool, parent⟩

theorem twoContainers_framed :
    ∃ after moves, twoContainers.rebalance (atEnd (Fin 3)) = some (after, moves) ∧
      Framed (atEnd (Fin 3)) twoContainers after moves :=
  rebalance_framed (atEnd Bool) (atEnd (Fin 3)) _ (by decide)

end DefaultBalanceablePoolModel
end Brooklyn
