import Brooklyn.FollowTheSunLocations
import Brooklyn.FollowTheSunQuiescence

/-!
Rounds of `FollowTheSunStrategy` that never settle. On a shortest cycle of movable
items, with every other item without a container, each item follows its one source:
all of them decide before the first one moves, so the locations go around the cycle
for ever. Whether the rounds settle for every placement and all parameters is
therefore a matter of cycles only.
-/

namespace Brooklyn.DefaultFollowTheSunModel
open Propagation
variable {Container Item : Type} [DecidableEq Container] [DecidableEq Item]

section Rates
variable {model : DefaultFollowTheSunModel Container Item} {item : Item}

omit [DecidableEq Container] in
theorem contribution_nonneg (nonneg : ∀ source ∈ model.sources item, 0 ≤ source.2)
    (location : Location) :
    ∀ rate ∈ (model.sources item).map (model.contribution item location), 0 ≤ rate := by
  intro rate member
  obtain ⟨source, listed, rfl⟩ := List.mem_map.mp member
  unfold contribution
  split
  · exact nonneg source listed
  · exact le_rfl

omit [DecidableEq Container] in
theorem rateFrom_nonneg (nonneg : ∀ source ∈ model.sources item, 0 ≤ source.2)
    (location : Location) : 0 ≤ model.rateFrom item location :=
  List.sum_nonneg (contribution_nonneg nonneg location)

omit [DecidableEq Container] in
theorem rateFrom_pos_iff (nonneg : ∀ source ∈ model.sources item, 0 ≤ source.2)
    (location : Location) :
    0 < model.rateFrom item location ↔ ∃ source ∈ model.sources item, source.1 ≠ item ∧
      model.getItemLocation source.1 = some location ∧ source.2 ≠ 0 := by
  constructor
  · intro positive
    by_contra silent
    refine positive.ne' (List.sum_eq_zero fun rate member => ?_)
    obtain ⟨source, listed, rfl⟩ := List.mem_map.mp member
    unfold contribution
    split
    · next counts =>
      by_contra sends
      exact silent ⟨source, listed, counts.1, counts.2, sends⟩
    · rfl
  · rintro ⟨source, listed, apart, located, sends⟩
    have counts : model.contribution item location source = source.2 := if_pos ⟨apart, located⟩
    have positive : 0 < source.2 := lt_of_le_of_ne (nonneg source listed) (Ne.symm sends)
    refine lt_of_lt_of_le positive (counts ▸ ?_)
    exact List.single_le_sum (contribution_nonneg nonneg location) _ (List.mem_map_of_mem listed)

end Rates

/-- Moves an item wherever more is sent from. -/
def eager : FollowTheSunParameters where
  triggerPercentTotal := 0
  triggerDeltaAbovePercentTotal := 0
  triggerAbsoluteTotal := 0
  triggerPercentMajority := 0
  triggerDeltaAbovePercentMajority := 0
  triggerAbsoluteMajority := 0
  excludedLocations := []

theorem eager_triggered {highest total nextHighest current : ℚ} (nonneg : 0 ≤ current)
    (rises : current < highest) : eager.isTriggered highest total nextHighest current = true := by
  have positive : 0 ≤ highest := nonneg.trans rises.le
  simp [FollowTheSunParameters.isTriggered, eager, not_le.mpr rises, not_lt.mpr positive,
    not_lt.mpr rises.le]

section Single
variable {model : DefaultFollowTheSunModel Container Item} {item : Item}

/-- All that is sent to an item comes from one location. -/
structure SendsOnlyFrom (model : DefaultFollowTheSunModel Container Item) (item : Item)
    (location : Location) : Prop where
  sends : 0 < model.rateFrom item location
  only : ∀ other, other ≠ location → model.rateFrom item other = 0

namespace SendsOnlyFrom
variable {location : Location}

omit [DecidableEq Container] in
theorem source (single : SendsOnlyFrom model item location) {other : Location} {rate : ℚ}
    (got : (model.sendsTo item).get other = some rate) :
    (other = location ∧ rate = model.rateFrom item location) ∨ rate = 0 := by
  have sum := get_sendsTo model item other
  rw [got, Option.getD_some] at sum
  by_cases same : other = location
  · exact Or.inl ⟨same, same ▸ sum⟩
  · exact Or.inr (sum.trans (single.only other same))

omit [DecidableEq Container] in
theorem offered (single : SendsOnlyFrom model item location) :
    (⟨location, model.rateFrom item location⟩ : WeightedObject Location) ∈
      locationsWtd (model.sendsTo item) 0 := by
  have got : (model.sendsTo item).get location = some (model.rateFrom item location) := by
    have sum := get_sendsTo model item location
    cases sent : (model.sendsTo item).get location with
    | none =>
        rw [sent, Option.getD_none] at sum
        exact absurd sum single.sends.ne
    | some rate => rw [← sum, sent, Option.getD_some]
  have nonneg : ∀ rate ∈ (model.sendsTo item).values, 0 ≤ rate := by
    intro rate member
    obtain ⟨other, sent⟩ := ((model.sendsTo item).mem_values rate).mp member
    rcases single.source sent with ⟨_, same⟩ | zero
    · exact same ▸ single.sends.le
    · exact zero.ge
  have busy := List.single_le_sum nonneg _ (((model.sendsTo item).mem_values _).mpr ⟨_, got⟩)
  exact mem_locationsWtd.mpr ⟨single.sends.trans_le busy, single.sends, got⟩

theorem stays (single : SendsOnlyFrom model item location)
    (located : model.getItemLocation item = some location) :
    model.decision eager item = none := by
  cases decided : model.decision eager item with
  | none => rfl
  | some container =>
      obtain ⟨other, sent, _, got, rises⟩ := (findMigration_improves decided).rises
      rw [located, currentRate_sendsTo, Option.map_some, Option.getD_some] at rises
      rcases single.source got with ⟨_, same⟩ | zero
      · exact absurd same rises.ne'
      · rw [zero] at rises
        exact absurd (single.sends.trans rises) (lt_irrefl 0)

theorem follows (single : SendsOnlyFrom model item location) {place : Location}
    {active : Container}
    (moveable : model.isItemMoveable item = true)
    (available : ∃ container, model.getContainerLocation container = some location)
    (placed : model.getItemContainer item = some active)
    (recorded : model.getContainerLocation active = some place)
    (located : model.getItemLocation item = some place) (elsewhere : place ≠ location) :
    ∃ container, model.decision eager item = some container ∧
      model.getContainerLocation container = some location := by
  have current : currentRate (model.sendsTo item) (some place) = 0 :=
    (currentRate_sendsTo model item (some place)).trans (single.only place elsewhere)
  obtain ⟨container, inLocation⟩ := available
  obtain ⟨best, found⟩ :=
    Option.isSome_iff_exists.mp (findHighest_isSome model item single.offered inLocation)
  obtain ⟨member, there⟩ := findHighest_some found
  obtain ⟨_, positive, sent⟩ := mem_locationsWtd.mp member
  have same : best.2.object = location :=
    (single.source sent).elim And.left fun zero => absurd zero positive.ne'
  have apart : active ≠ best.1 := by
    rintro rfl
    rw [recorded] at there
    exact elsewhere ((Option.some.inj there).trans same)
  refine ⟨best.1, ?_, same ▸ there⟩
  have considered : model.isConsidered eager item (some place) = true := by
    simp [isConsidered, moveable, hasActiveMigration, FollowTheSunParameters.isExcluded, eager]
  have triggered (total next : ℚ) : eager.isTriggered best.2.weight total next 0 = true :=
    eager_triggered le_rfl positive
  simp only [decision, findMigration, located, considered, current, found, migration, triggered,
    placed, if_true, Option.bind_some, if_neg apart]

end SendsOnlyFrom
end Single

section Rotation
variable {model after : DefaultFollowTheSunModel Container Item}

/-- After `round` rounds the locations of the items on a walk have gone round by as many
steps, and no other item has a container. -/
structure Rotated (model : DefaultFollowTheSunModel Container Item)
    (walk : ClosedWalk (Draws model)) (home : Item → Location) (round : ℕ)
    (after : DefaultFollowTheSunModel Container Item) : Prop where
  pool : SamePool model after
  placed : ∀ index, ∃ container,
    after.getItemContainer (walk.point (index + round)) = some container ∧
      after.getContainerLocation container = some (home (walk.point index))
  located : ∀ index,
    after.getItemLocation (walk.point (index + round)) = some (home (walk.point index))
  homeless : ∀ item, (∀ index, walk.point index ≠ item) →
    after.getItemContainer item = none ∧ after.getItemLocation item = none

omit [DecidableEq Container] [DecidableEq Item] in
theorem SamePool.sources (same : SamePool model after) (item : Item) :
    after.sources item = model.sources item := by
  rw [DefaultFollowTheSunModel.sources, same.itemUsage, DefaultFollowTheSunModel.sources]

variable {walk : ClosedWalk (Draws model)} {home : Item → Location} {round : ℕ}

/-- A walk with no shorter one, in a usage without negative rates. -/
structure Shortest (model : DefaultFollowTheSunModel Container Item)
    (walk : ClosedWalk (Draws model)) : Prop where
  least : ∀ other : ClosedWalk (Draws model), walk.period ≤ other.period
  nonneg : ∀ item, ∀ source ∈ model.sources item, 0 ≤ source.2

omit [DecidableEq Container] in
/-- An item on the walk has one source with a location: the item before it. -/
theorem Rotated.sends (shortest : Shortest model walk)
    (rotated : Rotated model walk home round after) (index : ℕ) :
    SendsOnlyFrom after (walk.point (index + round + 1)) (home (walk.point index)) := by
  have edge := walk.edge (index + round)
  have rates : ∀ source ∈ after.sources (walk.point (index + round + 1)), 0 ≤ source.2 :=
    fun source member => shortest.nonneg _ source (rotated.pool.sources _ ▸ member)
  constructor
  · obtain ⟨rate, listed, counts⟩ := edge.sends
    exact (rateFrom_pos_iff rates _).mpr ⟨_, (rotated.pool.sources _).symm ▸ listed, edge.apart,
      rotated.located index, counts⟩
  · intro other elsewhere
    by_contra some_rate
    have positive := lt_of_le_of_ne (rateFrom_nonneg rates other) (Ne.symm some_rate)
    obtain ⟨⟨source, rate⟩, listed, apart, there, counts⟩ := (rateFrom_pos_iff rates other).mp positive
    have onWalk : ∃ other, walk.point other = source := by
      by_contra off
      have nowhere := (rotated.homeless source fun other same => off ⟨other, same⟩).2
      rw [nowhere] at there
      cases there
    obtain ⟨first, rfl⟩ := onWalk
    have chord : Draws model (walk.point first) (walk.point (index + round + 1)) :=
      ⟨apart, (walk.edge first).sourceMoves, edge.itemMoves, rate,
        rotated.pool.sources _ ▸ listed, counts⟩
    -- A source elsewhere on the walk would be a chord of it.
    rw [ClosedWalk.chordless shortest.least chord, rotated.located index] at there
    exact elsewhere (Option.some.inj there).symm

/-- Each item on the walk takes the location of the item before it, moving if
that is another one. -/
theorem Rotated.decision (shortest : Shortest model walk)
    (rotated : Rotated model walk home round after) (index : ℕ) :
    (home (walk.point (index + 1)) = home (walk.point index) ∧
      after.decision eager (walk.point (index + 1 + round)) = none) ∨
    ∃ container, after.decision eager (walk.point (index + 1 + round)) = some container ∧
      after.getContainerLocation container = some (home (walk.point index)) := by
  have single := rotated.sends shortest index
  obtain ⟨active, placed, recorded⟩ := rotated.placed (index + 1)
  have located := rotated.located (index + 1)
  rw [Nat.add_right_comm] at placed located ⊢
  by_cases same : home (walk.point (index + 1)) = home (walk.point index)
  · exact Or.inl ⟨same, single.stays (same ▸ located)⟩
  · obtain ⟨before, _, available⟩ := rotated.placed index
    have moveable := (walk.edge (index + round)).itemMoves
    rw [← rotated.pool.isItemMoveable] at moveable
    exact Or.inr (single.follows moveable ⟨before, available⟩ placed recorded located same)

theorem Rotated.rebalance (shortest : Shortest model walk) (order : SetOrder Item)
    (rotated : Rotated model walk home round after) :
    Rotated model walk home (round + 1) (after.rebalance eager order).1 := by
  have moved := rebalance_moved eager order after
  have next (index : ℕ) : index + (round + 1) = index + 1 + round := by omega
  refine ⟨rotated.pool.trans moved.pool, fun index => ?_, fun index => ?_, fun item off => ?_⟩
  -- The item decides before any other item of the round moves.
  · rw [next, moved.container]
    simp only [moved.pool.getContainerLocation]
    rcases rotated.decision shortest index with ⟨same, stays⟩ | ⟨container, follows, there⟩
    · rw [stays, ← same]
      exact rotated.placed (index + 1)
    · rw [follows]
      exact ⟨container, rfl, there⟩
  · rw [next, moved.location]
    rcases rotated.decision shortest index with ⟨same, stays⟩ | ⟨container, follows, there⟩
    · rw [stays, ← same]
      exact rotated.located (index + 1)
    · rw [follows]
      exact there
  · obtain ⟨container, location⟩ := rotated.homeless item off
    have stays : after.decision eager item = none := by
      cases decided : after.decision eager item with
      | none => rfl
      | some target =>
          obtain ⟨active, placed, _⟩ := (findMigration_improves decided).leaves
          rw [container] at placed
          cases placed
    rw [moved.container, moved.location, stays]
    exact ⟨container, location⟩

theorem Rotated.rounds (shortest : Shortest model walk) (order : SetOrder Item)
    (rotated : Rotated model walk home 0 model) (count : ℕ) :
    Rotated model walk home count (model.rounds eager order count) := by
  induction count with
  | zero => exact rotated
  | succ count ih =>
      rw [rounds_succ]
      exact ih.rebalance shortest order

/-- Items of the walk in different locations go round for ever. -/
theorem Rotated.never_settles (shortest : Shortest model walk) (order : SetOrder Item)
    (rotated : Rotated model walk home 0 model)
    (apart : home (walk.point 1) ≠ home (walk.point 0)) : ¬Settles eager order model := by
  rintro ⟨count, quiet⟩
  have still := (rebalance_quiet_iff eager order _).mp quiet (walk.point (1 + count))
  rcases (rotated.rounds shortest order count).decision shortest 0 with
    ⟨same, _⟩ | ⟨container, follows, _⟩
  · exact apart same
  · rw [Nat.zero_add] at follows
    rw [still] at follows
    cases follows

end Rotation
section Usage

/-- The same items use each other at the same rates, and the same ones are movable. -/
structure SameUsage (model other : DefaultFollowTheSunModel Container Item) : Prop where
  itemUsage : other.itemUsage = model.itemUsage
  immovableItems : other.immovableItems = model.immovableItems
  items : ∀ item, other.hasItem item = model.hasItem item

variable {model other : DefaultFollowTheSunModel Container Item}

omit [DecidableEq Container] [DecidableEq Item] in
theorem SameUsage.sources (same : SameUsage model other) (item : Item) :
    other.sources item = model.sources item := by
  rw [DefaultFollowTheSunModel.sources, same.itemUsage, DefaultFollowTheSunModel.sources]

omit [DecidableEq Container] in
theorem SameUsage.isItemMoveable (same : SameUsage model other) (item : Item) :
    other.isItemMoveable item = model.isItemMoveable item := by
  rw [DefaultFollowTheSunModel.isItemMoveable, same.items, same.immovableItems,
    DefaultFollowTheSunModel.isItemMoveable]

omit [DecidableEq Container] in
theorem SameUsage.draws_iff (same : SameUsage model other) (source item : Item) :
    Draws other source item ↔ Draws model source item := by
  constructor
  · rintro ⟨apart, sourceMoves, itemMoves, sends⟩
    rw [same.isItemMoveable] at sourceMoves itemMoves
    rw [same.sources] at sends
    exact ⟨apart, sourceMoves, itemMoves, sends⟩
  · rintro ⟨apart, sourceMoves, itemMoves, sends⟩
    rw [← same.isItemMoveable] at sourceMoves itemMoves
    rw [← same.sources] at sends
    exact ⟨apart, sourceMoves, itemMoves, sends⟩

omit [DecidableEq Container] in
theorem SameUsage.acyclic (same : SameUsage model other) (acyclic : Acyclic model) :
    Acyclic other := fun item cycle =>
  acyclic item
    (Relation.TransGen.mono (fun source item => (same.draws_iff source item).mp) _ _ cycle)

end Usage

section Placement

def arrange (items : List Item) (target : Item → Option Container) : List (Update Container Item) :=
  items.map fun item => .itemMoved item (target item)

/-- Moving the listed items to their targets. -/
theorem arrange_moved (containerOrder : SetOrder Container) (order : SetOrder Item)
    (model : DefaultFollowTheSunModel Container Item) (items : List Item)
    (target : Item → Option Container) (known : ∀ item ∈ items, model.hasItem item = true) :
    Moved model (fun item => if item ∈ items then some (target item) else none)
      ((arrange items target).foldl (apply containerOrder order) model) := by
  induction items using List.reverseRecOn with
  | nil => exact moved_none
  | append_singleton earlier item ih =>
      have before := ih fun other member => known other (List.mem_append_left _ member)
      have next := before.onItemMoved order (target item)
        (known item (List.mem_append_right _ List.mem_cons_self))
      rw [given_append earlier item fun other => some (target other), arrange, List.map_append, List.foldl_append]
      exact next

omit [DecidableEq Container] in
theorem rotated_of_moved {pool after : DefaultFollowTheSunModel Container Item}
    {target : Item → Option Container} {walk : ClosedWalk (Draws after)} {home : Item → Location}
    (housed : Housed pool)
    (moved : Moved pool (fun item => if item ∈ pool.getItems then some (target item) else none) after)
    (seated : ∀ index, ∃ container, target (walk.point index) = some container ∧
      pool.getContainerLocation container = some (home (walk.point index)))
    (unseated : ∀ item, (∀ index, walk.point index ≠ item) → target item = none) :
    Rotated after walk home 0 after := by
  have listed (index : ℕ) : walk.point index ∈ pool.getItems := by
    rw [← moved.pool.items]
    exact listed_of_moveable (walk.edge index).sourceMoves
  refine ⟨⟨rfl, rfl, rfl, rfl⟩, fun index => ?_, fun index => ?_, fun item off => ?_⟩
  · obtain ⟨container, seat, there⟩ := seated index
    refine ⟨container, ?_, (moved.pool.getContainerLocation container).trans there⟩
    rw [Nat.add_zero, moved.container, if_pos (listed index), seat]
    rfl
  · obtain ⟨container, seat, there⟩ := seated index
    rw [Nat.add_zero, moved.location, if_pos (listed index), seat]
    exact there
  · rw [moved.container, moved.location, unseated item off]
    by_cases known : item ∈ pool.getItems
    · simp [known, locationOf]
    -- An item that was never added is nowhere, and so is its location.
    · have absent : pool.getItemContainer item = none := by
        rw [getItems, pool.itemToContainer.defined, Option.not_isSome_iff_eq_none] at known
        rw [getItemContainer, known]
        rfl
      simp [known, absent, housed item absent]

/-- Two containers in two locations, the first item of a walk in the second one, the
rest of the walk in the first one, and no other item in any. -/
theorem exists_rotated (containerOrder : SetOrder Container) (order : SetOrder Item)
    (updates : List (Update Container Item)) {first second : Container} (apart : first ≠ second)
    (walk : ClosedWalk (Draws (built containerOrder order updates))) :
    ∃ others, ∃ same : SameUsage (built containerOrder order updates)
        (built containerOrder order others),
      ∃ home : Item → Location, home (walk.point 1) ≠ home (walk.point 0) ∧
        Rotated (built containerOrder order others)
          (walk.mono fun source item => (same.draws_iff source item).mpr) home 0
          (built containerOrder order others) := by
  classical
  generalize from_here : built containerOrder order updates = model at walk ⊢
  let home (item : Item) : Location := if item = walk.point 0 then ⟨"second"⟩ else ⟨"first"⟩
  let target (item : Item) : Option Container :=
    if ∃ index, walk.point index = item then
      some (if item = walk.point 0 then second else first) else none
  let added : List (Update Container Item) :=
    updates ++ [.containerAdded first (some ⟨"first"⟩), .containerAdded second (some ⟨"second"⟩)]
  have extended : built containerOrder order added =
      (model.onContainerAdded containerOrder first (some ⟨"first"⟩)).onContainerAdded containerOrder
        second (some ⟨"second"⟩) := by
    rw [built_append, from_here]
    rfl
  have there (item : Item) : (built containerOrder order added).getContainerLocation
      (if item = walk.point 0 then second else first) = some (home item) := by
    rw [extended]
    by_cases start : item = walk.point 0 <;> simp [home, start, apart]
  have housed := built_housed containerOrder order added
  have moved := arrange_moved containerOrder order (built containerOrder order added)
    (built containerOrder order added).getItems target fun item listed =>
      ((built containerOrder order added).itemToContainer.defined item).mp listed
  rw [← built_append] at moved
  generalize built containerOrder order added = pool at extended there housed moved
  have same : SameUsage model
      (built containerOrder order (added ++ arrange pool.getItems target)) := by
    refine ⟨moved.pool.itemUsage.trans ?_, moved.pool.immovableItems.trans ?_, fun item =>
      (moved.pool.hasItem item).trans ?_⟩ <;> (rw [extended]; rfl)
  refine ⟨added ++ arrange pool.getItems target, same, home, ?_, rotated_of_moved housed moved
    (fun index => ?_) fun item off => ?_⟩
  · have away : walk.point 1 ≠ walk.point 0 := (walk.edge 0).apart.symm
    simp [home, away]
  · exact ⟨_, if_pos ⟨index, rfl⟩, there (walk.point index)⟩
  · exact if_neg fun ⟨index, on⟩ => off index on

end Placement

section Criterion

theorem not_settles_of_cycle (containerOrder : SetOrder Container) (order : SetOrder Item)
    (updates : List (Update Container Item)) {first second : Container} (apart : first ≠ second)
    (nonneg : ∀ item, ∀ source ∈ (built containerOrder order updates).sources item, 0 ≤ source.2)
    {item : Item}
    (cycle : Relation.TransGen (Draws (built containerOrder order updates)) item item) :
    ∃ others, SameUsage (built containerOrder order updates) (built containerOrder order others) ∧
      ¬Settles eager order (built containerOrder order others) := by
  obtain ⟨walk, least⟩ := ClosedWalk.exists_shortest (ClosedWalk.nonempty_of_cycle cycle)
  obtain ⟨others, same, home, moving, rotated⟩ :=
    exists_rotated containerOrder order updates apart walk
  refine ⟨others, same, rotated.never_settles ⟨fun other => ?_, fun item source listed => ?_⟩
    order moving⟩
  · exact least (other.mono fun source item => (same.draws_iff source item).mp)
  · exact nonneg item source (same.sources item ▸ listed)

/-- Without a cycle of movable items, each a source of the next, every state settles.
With rates that are not negative this is exact: for a usage with such a cycle there is
a placement that never settles under some parameters. -/
theorem settles_iff_acyclic (containerOrder : SetOrder Container) (order : SetOrder Item)
    (updates : List (Update Container Item)) {first second : Container} (apart : first ≠ second) :
    let model := built containerOrder order updates
    (Acyclic model → ∀ parameters, Settles parameters order model) ∧
    ((∀ item, ∀ source ∈ model.sources item, 0 ≤ source.2) →
      ((∀ others, SameUsage model (built containerOrder order others) →
          ∀ parameters, Settles parameters order (built containerOrder order others)) ↔
        Acyclic model)) := by
  intro model
  refine ⟨fun acyclic parameters => settles_of_acyclic acyclic, fun nonneg => ⟨?_, ?_⟩⟩
  · intro settles item cycle
    obtain ⟨others, same, forever⟩ :=
      not_settles_of_cycle containerOrder order updates apart nonneg cycle
    exact forever (settles others same eager)
  · exact fun acyclic others same parameters => settles_of_acyclic (same.acyclic acyclic)

end Criterion

section TwoItems

theorem oneSource_acyclic : Acyclic oneSource := by
  have only {source item : Fin 2} (draws : Draws oneSource source item) : item = 0 ∧ source = 1 := by
    obtain ⟨rate, listed, _⟩ := draws.sends
    have used : item = 0 := by
      by_contra other
      have unused : oneSource.sources item = [] := by
        obtain rfl : item = 1 := by omega
        rfl
      rw [unused] at listed
      cases listed
    have apart := draws.apart
    omega
  intro item cycle
  obtain ⟨next, first, _⟩ := Relation.TransGen.head'_iff.mp cycle
  obtain ⟨previous, _, last⟩ := Relation.TransGen.tail'_iff.mp cycle
  exact absurd ((only first).2.symm.trans (only last).1) (by decide)

theorem oneSource_settles : Settles .newDefault (atEnd (Fin 2)) oneSource :=
  (settles_iff_acyclic (atEnd Bool) (atEnd (Fin 2)) _ Bool.false_ne_true).1 oneSource_acyclic
    .newDefault

instance : DecidableEq (DefaultFollowTheSunModel Bool (Fin 2)) := fun first second =>
  decidable_of_iff
    (first.containers = second.containers ∧ first.itemToContainer = second.itemToContainer ∧
      first.containerToLocation = second.containerToLocation ∧
      first.itemToLocation = second.itemToLocation ∧ first.itemUsage = second.itemUsage ∧
      first.immovableItems = second.immovableItems)
    (by cases first; cases second; simp only [mk.injEq])

/-- Both items move in every round, to where the other one has just left. -/
theorem twoItems_never_settle : ¬Settles .newDefault (atEnd (Fin 2)) twoItems := by
  have returns : ((twoItems.rebalance .newDefault (atEnd (Fin 2))).1.rebalance .newDefault
      (atEnd (Fin 2))).1 = twoItems := by decide +kernel
  have moves (count : ℕ) : ((twoItems.rounds .newDefault (atEnd (Fin 2)) count).rebalance
      .newDefault (atEnd (Fin 2))).2.isEmpty = false := by
    -- Two rounds bring every item back.
    induction count using Nat.twoStepInduction with
    | zero => decide +kernel
    | one => decide +kernel
    | more count ih _ =>
        rw [rounds, Function.iterate_succ_apply, Function.iterate_succ_apply, returns]
        exact ih
  rintro ⟨count, quiet⟩
  have moved := moves count
  rw [quiet] at moved
  cases moved

end TwoItems
end Brooklyn.DefaultFollowTheSunModel
