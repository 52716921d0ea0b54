import Brooklyn.BalancingMoves
import Mathlib.Data.Fintype.Basic
import Mathlib.Tactic.Tauto

/-!
Iterated rebalancing. The energy of the pool is the sum of its squared totals. A
move that relieves its donor lowers it, and with a common denominator of the
workrates it falls only finitely often. Moves within the maximum of
`findBestItemToMove` relieve; the item it falls back on need not, and two
containers can hand such an item back and forth for ever. So the iteration comes
to rest exactly when it takes such a fallback only finitely often.
-/

namespace Brooklyn
namespace DefaultBalanceablePoolModel
open LoadEnergy
variable {Container Item : Type} [DecidableEq Container] [DecidableEq Item]

section Energy
variable {order : SetOrder Item} {model after : DefaultBalanceablePoolModel Container Item}
    {move : Move Container Item} {moves : List (Move Container Item)} {scale : Nat}

def poolEnergy (model : DefaultBalanceablePoolModel Container Item) : ℚ :=
  energy model.containers.toFinset model.getTotalWorkrate

/-- `scale` clears the denominators of all workrates in the pool. -/
def Cleared (scale : Nat) (model : DefaultBalanceablePoolModel Container Item) : Prop :=
  ∀ node ∈ model.containers, ∀ item ∈ model.containerToItems node, Clears scale (model.weight item)

omit [DecidableEq Container] [DecidableEq Item] in
theorem exists_cleared (model : DefaultBalanceablePoolModel Container Item) :
    ∃ scale, 0 < scale ∧ Cleared scale model := by
  have nonneg (item : Item) : 0 ≤ model.weight item := by
    unfold weight
    cases model.itemToWorkrate item with
    | none => exact le_rfl
    | some workrate => exact abs_nonneg workrate
  obtain ⟨scale, positive, cleared⟩ := exists_clears model.weight nonneg
    (model.containers.flatMap model.containerToItems)
  refine ⟨scale, positive, fun node inPool item listed => cleared item ?_⟩
  exact List.mem_flatMap.mpr ⟨node, inPool, listed⟩

theorem moveItem_cleared (consistent : Consistent model) (valid : Valid model move)
    (cleared : Cleared scale model) : Cleared scale (model.moveItem order move) := by
  obtain ⟨atOld, atNew, elsewhere⟩ := moveItem_items order consistent valid
  intro node inPool item listed
  rw [moveItem_containers] at inPool
  rw [moveItem_weight]
  by_cases new : node = move.newNode
  · subst new
    rcases List.mem_cons.mp (atNew.mem_iff.mp listed) with rfl | before
    · exact cleared move.oldNode valid.gives move.item valid.listed
    · exact cleared move.newNode inPool item before
  · by_cases old : node = move.oldNode
    · subst old
      rw [atOld] at listed
      exact cleared move.oldNode inPool item (List.mem_of_mem_erase listed)
    · rw [elsewhere node old new] at listed
      exact cleared node inPool item listed

theorem Carries.cleared (carries : Carries order model moves after)
    (consistent : Consistent model) (cleared : Cleared scale model) : Cleared scale after := by
  induction carries with
  | nil => exact cleared
  | cons valid _ ih =>
      exact ih (moveItem_consistent order consistent valid) (moveItem_cleared consistent valid cleared)

omit [DecidableEq Item] in
theorem clears_poolEnergy (cleared : Cleared scale model) :
    Clears (scale * scale) model.poolEnergy := by
  refine clears_energy _ fun node member => clears_list_sum ?_
  intro load listed
  obtain ⟨item, inNode, rfl⟩ := List.mem_map.mp listed
  exact cleared node (List.mem_toFinset.mp member) item inNode

/-- A valid move that relieves its donor lowers the energy. -/
theorem moveItem_energy (order : SetOrder Item) (consistent : Consistent model)
    (valid : Valid model move)
    (relieves : Relieves move) : (model.moveItem order move).poolEnergy < model.poolEnergy := by
  unfold poolEnergy
  rw [moveItem_containers, moveItem_total order consistent valid]
  refine energy_transfer_lt _ _ (List.mem_toFinset.mpr valid.gives)
    (List.mem_toFinset.mpr valid.takes) valid.apart valid.positive ?_
  rw [← valid.donor, ← valid.receiver]
  exact relieves

theorem Carries.energy_le (carries : Carries order model moves after)
    (consistent : Consistent model) (relieves : ∀ move ∈ moves, Relieves move) :
    after.poolEnergy ≤ model.poolEnergy := by
  induction carries with
  | nil => exact le_rfl
  | cons valid _ ih =>
      have lowered := moveItem_energy order consistent valid
        (relieves _ List.mem_cons_self)
      have rest := ih (moveItem_consistent order consistent valid)
        fun move member => relieves move (List.mem_cons_of_mem _ member)
      exact rest.trans lowered.le

theorem Carries.energy_lt (carries : Carries order model (move :: moves) after)
    (consistent : Consistent model) (relieves : ∀ other ∈ move :: moves, Relieves other) :
    after.poolEnergy < model.poolEnergy := by
  cases carries with
  | cons valid rest =>
      have lowered := moveItem_energy order consistent valid
        (relieves _ List.mem_cons_self)
      have later := rest.energy_le (moveItem_consistent order consistent valid)
        fun other member => relieves other (List.mem_cons_of_mem _ member)
      exact lt_of_le_of_lt later lowered

theorem Carries.valid (carries : Carries order model moves after)
    (fallbacks : ∀ move ∈ moves, move.fallback = true → Relieves move) :
    ∀ move ∈ moves, Relieves move := by
  induction carries with
  | nil => simp
  | cons valid _ ih =>
      intro move member
      rcases List.mem_cons.mp member with rfl | later
      · cases fell : move.fallback with
        | true => exact fallbacks move member fell
        | false => exact valid.fits fell
      · exact ih (fun other inside => fallbacks other (List.mem_cons_of_mem _ inside)) move later

end Energy

section Iteration
variable (order : SetOrder Item)

def rebalanced (model : DefaultBalanceablePoolModel Container Item) :
    Option (DefaultBalanceablePoolModel Container Item) :=
  (model.rebalance order).map Prod.fst

def Quiet (model : DefaultBalanceablePoolModel Container Item) : Prop :=
  model.rebalance order = some (model, [])

/-- No call moves an item that `findBestItemToMove` fell back on and that leaves
the receiver at or above what the donor had. -/
def FallbacksRelieve (model : DefaultBalanceablePoolModel Container Item) : Prop :=
  ∀ pass, model.rebalance order = some pass →
    ∀ move ∈ pass.2, move.fallback = true → Relieves move

variable {order} {model : DefaultBalanceablePoolModel Container Item}

theorem rebalanced_consistent (order : SetOrder Item) (consistent : Consistent model) :
    ∃ after, model.rebalanced order = some after ∧ Consistent after := by
  obtain ⟨pass, finished, carries⟩ := rebalance_carries order consistent
  exact ⟨pass.1, by rw [rebalanced, finished]; rfl, carries.consistent consistent⟩

/-- Every call of an iteration whose fallbacks relieve is quiet or lowers the energy. -/
theorem rebalanced_lowers {scale : Nat} (positive : 0 < scale) (consistent : Consistent model)
    (cleared : Cleared scale model) (relieve : FallbacksRelieve order model) :
    Quiet order model ∨ ∃ after, model.rebalanced order = some after ∧
      (Consistent after ∧ Cleared scale after) ∧
      ⌊((scale * scale : Nat) : ℚ) * after.poolEnergy⌋₊ <
        ⌊((scale * scale : Nat) : ℚ) * model.poolEnergy⌋₊ := by
  obtain ⟨⟨after, moves⟩, finished, carries⟩ := rebalance_carries order consistent
  cases moves with
  | nil =>
      obtain rfl : after = model := carries.unchanged
      exact Or.inl finished
  | cons move rest =>
      have all : ∀ other ∈ move :: rest, Relieves other := carries.valid (relieve _ finished)
      have kept : Cleared scale after := carries.cleared consistent cleared
      refine Or.inr ⟨after, by rw [rebalanced, finished]; rfl,
        ⟨carries.consistent consistent, kept⟩, ?_⟩
      exact floor_lt_of_clears (Nat.mul_pos positive positive) (clears_poolEnergy kept)
        (clears_poolEnergy cleared) (carries.energy_lt consistent all)

theorem settles_of_fallbacks (order : SetOrder Item) (consistent : Consistent model)
    (relieve : ∀ count before, iterate (rebalanced order) count model = some before →
      FallbacksRelieve order before) :
    ∃ count after, iterate (rebalanced order) count model = some after ∧ Quiet order after := by
  obtain ⟨scale, positive, cleared⟩ := exists_cleared model
  refine settles (fun state => (Consistent state ∧ Cleared scale state) ∧
    ∀ count before, iterate (rebalanced order) count state = some before →
      FallbacksRelieve order before)
    (fun state => ⌊((scale * scale : Nat) : ℚ) * state.poolEnergy⌋₊) ?_ model
    ⟨⟨consistent, cleared⟩, relieve⟩
  rintro state ⟨⟨consistent, cleared⟩, relieve⟩
  rcases rebalanced_lowers positive consistent cleared (relieve 0 state rfl) with
    quiet | ⟨after, finished, kept, lower⟩
  · exact Or.inl quiet
  · refine Or.inr ⟨after, finished, ⟨kept, fun count before reached => ?_⟩, lower⟩
    exact relieve (count + 1) before (by simpa [iterate, finished] using reached)

/-- Iterated rebalancing comes to rest exactly when, from some call on, no call
moves a fallback item that leaves the receiver at or above what the donor had. -/
theorem rebalancing_settles_iff (containerOrder : SetOrder Container) (order : SetOrder Item)
    (updates : List (Update Container Item)) :
    let model := built containerOrder order updates
    (∃ count after, iterate (rebalanced order) count model = some after ∧ Quiet order after) ↔
      ∃ start, ∀ count before, start ≤ count →
        iterate (rebalanced order) count model = some before → FallbacksRelieve order before := by
  intro model
  have consistent : Consistent model := built_consistent containerOrder order updates
  constructor
  · rintro ⟨count, after, reached, quiet⟩
    refine ⟨count, fun later before late arrived pass finished => ?_⟩
    obtain ⟨extra, rfl⟩ := Nat.exists_eq_add_of_le late
    have fixed : after.rebalanced order = some after := by rw [rebalanced, quiet]; rfl
    rw [iterate_add, reached, Option.bind_some, iterate_fixed fixed] at arrived
    cases arrived
    rw [quiet] at finished
    cases finished
    simp
  · rintro ⟨start, relieve⟩
    obtain ⟨middle, reached, kept⟩ := iterate_total Consistent
      (fun state holds => rebalanced_consistent order holds) start consistent
    obtain ⟨count, after, settled, quiet⟩ := settles_of_fallbacks order kept
      fun count before arrived => relieve (start + count) before (Nat.le_add_right _ _)
        (by rw [iterate_add, reached]; exact arrived)
    exact ⟨start + count, after, by rw [iterate_add, reached]; exact settled, quiet⟩

end Iteration

section Swap

/-- Two containers with threshold 10: items of 6 and 5 on the first, one of 9 on
the second. -/
def twoContainers : DefaultBalanceablePoolModel Bool (Fin 3) :=
  built (atEnd Bool) (atEnd (Fin 3))
    [.containerAdded false 0 10, .containerAdded true 0 10,
      .itemAdded 0 (some false) false, .itemAdded 1 (some false) false,
      .itemAdded 2 (some true) false,
      .itemWorkrateUpdated 0 6, .itemWorkrateUpdated 1 5, .itemWorkrateUpdated 2 9]

instance : DecidableEq (DefaultBalanceablePoolModel Bool (Fin 3)) := fun first second =>
  decidable_of_iff
    ((first.containers = second.containers ∧ first.immovableItems = second.immovableItems ∧
      first.containerToLowThreshold = second.containerToLowThreshold ∧
      first.containerToHighThreshold = second.containerToHighThreshold) ∧
      (first.itemToContainer = second.itemToContainer ∧
      first.containerToItems = second.containerToItems ∧
      first.itemToWorkrate = second.itemToWorkrate) ∧
      first.poolLowThreshold = second.poolLowThreshold ∧
      first.poolHighThreshold = second.poolHighThreshold ∧
      first.currentPoolWorkrate = second.currentPoolWorkrate)
    (by cases first; cases second; simp only [mk.injEq]; tauto)

/-- The first container pushes the item of 5 as a fallback, and the second one
pushes it back. -/
theorem twoContainers_rebalance :
    ∃ move moves, twoContainers.rebalance (atEnd (Fin 3)) = some (twoContainers, move :: moves) := by
  have played : (twoContainers.rebalance (atEnd (Fin 3))).map (fun pass =>
      decide (pass.1 = twoContainers) && !pass.2.isEmpty) = some true := by decide +kernel
  obtain ⟨⟨after, moves⟩, finished, shown⟩ := Option.map_eq_some_iff.mp played
  obtain ⟨same, moved⟩ := Bool.and_eq_true_iff.mp shown
  obtain rfl : after = twoContainers := of_decide_eq_true same
  cases moves with
  | nil => cases moved
  | cons move rest => exact ⟨move, rest, finished⟩

theorem twoContainers_never_quiet :
    ¬∃ count after, iterate (rebalanced (atEnd (Fin 3))) count twoContainers = some after ∧
      Quiet (atEnd (Fin 3)) after := by
  obtain ⟨move, moves, finished⟩ := twoContainers_rebalance
  have fixed : twoContainers.rebalanced (atEnd (Fin 3)) = some twoContainers := by
    rw [rebalanced, finished]
    rfl
  rintro ⟨count, after, reached, quiet⟩
  rw [iterate_fixed fixed] at reached
  cases reached
  rw [Quiet, finished] at quiet
  cases quiet

end Swap
end DefaultBalanceablePoolModel
end Brooklyn
