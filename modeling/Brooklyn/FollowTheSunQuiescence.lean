import Brooklyn.FollowTheSunSends
import Brooklyn.Propagation

/-!
When repeated rounds of `FollowTheSunStrategy` settle. An item whose sources stay
where they are moves only to where more is sent from, and so finitely often.
Without a cycle of movable items, each a source of the next, every item comes to
rest.
-/

namespace Brooklyn.DefaultFollowTheSunModel
open Propagation
variable {Container Item : Type} [DecidableEq Container] [DecidableEq Item]

section Runs
variable (parameters : FollowTheSunParameters) (order : SetOrder Item)
variable (model : DefaultFollowTheSunModel Container Item)

/-- The model after a number of rounds. -/
def rounds (count : ℕ) : DefaultFollowTheSunModel Container Item :=
  (fun model => (model.rebalance parameters order).1)^[count] model

/-- Some round moves no item. -/
def Settles : Prop := ∃ count, ((model.rounds parameters order count).rebalance parameters order).2 = []

def MovesIn (round : ℕ) (item : Item) : Prop :=
  ∃ container, (model.rounds parameters order round).decision parameters item = some container

theorem rounds_succ (count : ℕ) : model.rounds parameters order (count + 1) =
    ((model.rounds parameters order count).rebalance parameters order).1 :=
  Function.iterate_succ_apply' ..

theorem rounds_pool (count : ℕ) : SamePool model (model.rounds parameters order count) := by
  induction count with
  | zero => exact ⟨rfl, rfl, rfl, rfl⟩
  | succ count ih =>
      rw [rounds_succ]
      exact ih.trans (rebalance_moved parameters order _).pool

variable {parameters order model}

theorem not_movesIn_iff {round : ℕ} {item : Item} :
    ¬MovesIn parameters order model round item ↔
      (model.rounds parameters order round).decision parameters item = none := by
  rw [MovesIn, ← Option.isSome_iff_exists, Option.not_isSome_iff_eq_none]

theorem location_of_moved {round : ℕ} {item : Item} {container : Container}
    (decided : (model.rounds parameters order round).decision parameters item = some container) :
    (model.rounds parameters order (round + 1)).getItemLocation item =
      model.getContainerLocation container := by
  have moved := (rebalance_moved parameters order (model.rounds parameters order round)).location item
  rw [decided] at moved
  rw [rounds_succ, ← (rounds_pool parameters order model round).getContainerLocation]
  exact moved

theorem location_of_rests {round : ℕ} {item : Item}
    (rests : ¬MovesIn parameters order model round item) :
    (model.rounds parameters order (round + 1)).getItemLocation item =
      (model.rounds parameters order round).getItemLocation item := by
  have moved := (rebalance_moved parameters order (model.rounds parameters order round)).location item
  rw [not_movesIn_iff.mp rests] at moved
  rw [rounds_succ]
  exact moved

theorem moveable_of_moves {round : ℕ} {item : Item}
    (moves : MovesIn parameters order model round item) : model.isItemMoveable item = true := by
  obtain ⟨container, decided⟩ := moves
  rw [← (rounds_pool parameters order model round).isItemMoveable]
  exact (findMigration_improves decided).moveable

theorem rests_of_immovable {item : Item} (stuck : model.isItemMoveable item = false) :
    Rests (MovesIn parameters order model) item := by
  refine ⟨0, fun round _ moved => ?_⟩
  rw [moveable_of_moves moved] at stuck
  cases stuck

omit [DecidableEq Container] in
theorem listed_of_moveable {item : Item} (moveable : model.isItemMoveable item = true) :
    item ∈ model.getItems := by
  simp only [isItemMoveable, Bool.and_eq_true] at moveable
  exact (model.itemToContainer.defined item).mpr moveable.1

end Runs

section Drivers

/-- One movable item is a source of another. -/
structure Draws (model : DefaultFollowTheSunModel Container Item) (source item : Item) : Prop where
  apart : source ≠ item
  sourceMoves : model.isItemMoveable source = true
  itemMoves : model.isItemMoveable item = true
  sends : ∃ rate, (source, rate) ∈ model.sources item ∧ rate ≠ 0

/-- No cycle of movable items, each a source of the next. -/
def Acyclic (model : DefaultFollowTheSunModel Container Item) : Prop :=
  ∀ item, ¬Relation.TransGen (Draws model) item item

variable {parameters : FollowTheSunParameters} {order : SetOrder Item}
variable {model : DefaultFollowTheSunModel Container Item}

theorem sources_rest {item : Item} (moveable : model.isItemMoveable item = true)
    (rest : ∀ source, Draws model source item → Rests (MovesIn parameters order model) source) :
    ∃ start, ∀ round, start ≤ round →
      (model.rounds parameters order (round + 1)).rateFrom item =
        (model.rounds parameters order round).rateFrom item := by
  let counted := ((model.sources item).filter fun source => source.2 ≠ 0 ∧ source.1 ≠ item).map Prod.fst
  have resting : ∀ source ∈ counted, Rests (MovesIn parameters order model) source := by
    intro other member
    obtain ⟨⟨source, rate⟩, listed, rfl⟩ := List.mem_map.mp member
    simp only [List.mem_filter, decide_eq_true_eq] at listed
    obtain ⟨listed, counts, apart⟩ := listed
    cases moves : model.isItemMoveable source with
    | true => exact rest source ⟨apart, moves, moveable, rate, listed, counts⟩
    | false => exact rests_of_immovable moves
  obtain ⟨start, rested⟩ := rests_together counted resting
  refine ⟨start, fun round later => rateFrom_congr ?_ fun source listed counts apart => ?_⟩
  · rw [(rounds_pool ..).itemUsage, (rounds_pool ..).itemUsage]
  -- Only sources that count can change the sums, and those have come to rest.
  · have same : (model.rounds parameters order round).sources item = model.sources item := by
      rw [sources, (rounds_pool ..).itemUsage, sources]
    rw [same] at listed
    refine location_of_rests (rested round later source.1 (List.mem_map_of_mem ?_))
    exact List.mem_filter.mpr ⟨listed, by simpa using ⟨counts, apart⟩⟩

/-- The locations a container can be moved to. -/
def locations (model : DefaultFollowTheSunModel Container Item) : Finset Location :=
  (model.containerToLocation.keys.filterMap model.getContainerLocation).toFinset

omit [DecidableEq Container] [DecidableEq Item] in
theorem mem_locations {container : Container} {location : Location}
    (located : model.getContainerLocation container = some location) :
    location ∈ model.locations := by
  rw [locations, List.mem_toFinset, List.mem_filterMap]
  refine ⟨container, (model.containerToLocation.defined container).mpr ?_, located⟩
  cases recorded : model.containerToLocation.get container with
  | none => simp [getContainerLocation, recorded] at located
  | some location => rfl

/-- Once the rates are settled each move takes the item to a higher one. -/
theorem rests_of_settled {item : Item} {start : ℕ}
    (settled : ∀ round, start ≤ round →
      (model.rounds parameters order (round + 1)).rateFrom item =
        (model.rounds parameters order round).rateFrom item) :
    Rests (MovesIn parameters order model) item := by
  let rate (round : ℕ) : Location → ℚ := (model.rounds parameters order round).rateFrom item
  let current (round : ℕ) : ℚ :=
    (((model.rounds parameters order round).getItemLocation item).map (rate round)).getD 0
  let better (round : ℕ) : Finset Location := {place ∈ model.locations | current round < rate round place}
  refine rests_of_falling (fun round => (better round).card) start ?_ ?_
  · rintro round later ⟨container, decided⟩
    obtain ⟨location, sent, located, got, rises⟩ := (findMigration_improves decided).rises
    rw [currentRate_sendsTo] at rises
    have known : model.getContainerLocation container = some location := by
      rw [← (rounds_pool parameters order model round).getContainerLocation]
      exact located
    have higher : rate round location = sent := by
      have sum := get_sendsTo (model.rounds parameters order round) item location
      rw [got] at sum
      exact sum.symm
    have now : current (round + 1) = sent := by
      simp only [current]
      rw [location_of_moved decided, known, ← higher]
      exact congrFun (settled round later) location
    -- What is better than the new rate was better than the old one; the location it
    -- moved to no longer is.
    refine Finset.card_lt_card ⟨fun place member => ?_, fun back => ?_⟩
    · obtain ⟨listed, above⟩ := Finset.mem_filter.mp member
      rw [now, show rate (round + 1) = rate round from settled round later] at above
      exact Finset.mem_filter.mpr ⟨listed, rises.trans above⟩
    · have target : location ∈ better round :=
        Finset.mem_filter.mpr ⟨mem_locations known, higher ▸ rises⟩
      have above := (Finset.mem_filter.mp (back target)).2
      rw [now, show rate (round + 1) = rate round from settled round later, higher] at above
      exact lt_irrefl sent above
  · intro round later rests
    have same : better (round + 1) = better round := by
      simp only [better, current, rate, location_of_rests rests, settled round later]
    exact congrArg Finset.card same

omit [DecidableEq Container] in
theorem draws_finite (model : DefaultFollowTheSunModel Container Item) :
    {source | ∃ item, Draws model source item}.Finite := by
  refine Set.Finite.subset (List.finite_toSet model.getItems) ?_
  rintro source ⟨item, draws⟩
  exact listed_of_moveable draws.sourceMoves

theorem settles_of_acyclic (acyclic : Acyclic model) : Settles parameters order model := by
  have rests (item : Item) : Rests (MovesIn parameters order model) item := by
    induction item using (wellFounded_of_acyclic (draws_finite model) acyclic).induction with
    | _ item ih =>
        cases moveable : model.isItemMoveable item with
        | true =>
            obtain ⟨start, settled⟩ := sources_rest moveable ih
            exact rests_of_settled settled
        | false => exact rests_of_immovable moveable
  -- From the latest of the rounds in which the items come to rest, none moves.
  obtain ⟨start, quiet⟩ := rests_together model.getItems fun item _ => rests item
  refine ⟨start, (rebalance_quiet_iff parameters order _).mpr fun item => ?_⟩
  refine not_movesIn_iff.mp fun moved => ?_
  exact quiet start le_rfl item (listed_of_moveable (moveable_of_moves moved)) moved

end Drivers
end Brooklyn.DefaultFollowTheSunModel
