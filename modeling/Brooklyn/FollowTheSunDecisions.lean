import Brooklyn.FollowTheSunRounds
import Mathlib.Tactic.Linarith

/-!
What the moves of a round are for. `WeightedObject.compareTo` tells weights apart that differ
by more than `10 ^ -16`; among weights that are equal or that far apart it is the usual order,
so the locations are searched from the busiest one down. A requested move may throw; the model
is then left as it was and the round goes on.
-/

namespace Brooklyn.DefaultFollowTheSunModel
variable {Container Item : Type}

section Order

/-- Weights that the comparison does not mistake for each other. -/
def Apart (weight other : ℚ) : Prop := weight = other ∨ 1 / 10 ^ 16 < |weight - other|

theorem compareTo_nonpos_iff {Object : Type} {first second : WeightedObject Object}
    (apart : Apart first.weight second.weight) :
    first.compareTo second ≤ 0 ↔ first.weight ≤ second.weight := by
  have tolerance : (0 : ℚ) < 1 / 10 ^ 16 := by positivity
  dsimp only [WeightedObject.compareTo]
  rcases apart with equal | apart
  · rw [equal, sub_self, if_neg (by linarith), if_neg (by linarith)]
    exact iff_of_true le_rfl le_rfl
  · rcases lt_abs.mp apart with above | below
    · have larger : second.weight - first.weight < -(1 / 10 ^ 16) := by linarith
      have notLess : ¬ second.weight - first.weight > 1 / 10 ^ 16 := by linarith
      rw [if_neg notLess, if_pos larger]
      exact iff_of_false (by decide) (by linarith)
    · have smaller : second.weight - first.weight > 1 / 10 ^ 16 := by linarith
      rw [if_pos smaller]
      exact iff_of_true (by decide) (by linarith)

/-- The rates that the locations send at can be told apart. -/
def RatesApart (sendsByLocation : LinkedMap Location ℚ) : Prop :=
  ∀ first second rate other, sendsByLocation.get first = some rate →
    sendsByLocation.get second = some other → Apart rate other

/-- The busiest location is searched first. -/
theorem locationsWtd_descending {sendsByLocation : LinkedMap Location ℚ}
    (apart : RatesApart sendsByLocation) (current : ℚ) :
    (locationsWtd sendsByLocation current).Pairwise fun first second =>
      second.weight ≤ first.weight := by
  have sent : ∀ weighted ∈ locationsWtd sendsByLocation current,
      sendsByLocation.get weighted.object = some weighted.weight := fun weighted member =>
    (mem_locationsWtd.mp member).2.2
  unfold locationsWtd at sent ⊢
  dsimp only at sent ⊢
  generalize (if sendsByLocation.values.sum > 0 then _ else _ : List (WeightedObject Location)) =
    locations at sent ⊢
  simp only [List.mem_reverse, List.mem_insertionSort] at sent
  have usual := List.map_insertionSort (s := fun first second : WeightedObject Location =>
    first.weight ≤ second.weight) (r := fun first second => first.compareTo second ≤ 0) id locations
    fun first listed second other => compareTo_nonpos_iff
      (apart first.object second.object _ _ (sent first listed) (sent second other))
  rw [List.map_id, List.map_id] at usual
  have total : Std.Total fun first second : WeightedObject Location =>
      first.weight ≤ second.weight := ⟨fun _ _ => le_total _ _⟩
  have trans : IsTrans (WeightedObject Location) fun first second =>
      first.weight ≤ second.weight := ⟨fun _ _ _ => le_trans⟩
  rw [usual, List.pairwise_reverse]
  exact List.pairwise_insertionSort _ locations

end Order

section Search
variable {model : DefaultFollowTheSunModel Container Item} {item : Item}
  {locations : List (WeightedObject Location)}

theorem findHighest_highest {best : Container × WeightedObject Location}
    (descending : locations.Pairwise fun first second => second.weight ≤ first.weight)
    (found : (model.findHighest item locations).1 = some best) :
    ∀ weighted ∈ locations, model.getAvailableContainersFor item weighted.object ≠ [] →
      weighted.weight ≤ best.2.weight := by
  induction locations with
  | nil => cases found
  | cons first rest ih =>
    obtain ⟨busiest, descending⟩ := List.pairwise_cons.mp descending
    intro weighted member contenders
    unfold findHighest at found
    cases available : findOptimal (model.getAvailableContainersFor item first.object) with
    | none =>
      rw [available] at found
      rcases List.mem_cons.mp member with rfl | later
      · exact absurd (List.head?_eq_none_iff.mp available) contenders
      · exact ih descending found weighted later contenders
    | some container =>
      rw [available] at found
      cases found
      rcases List.mem_cons.mp member with rfl | later
      · exact le_rfl
      · exact busiest weighted later

end Search

section Triggers
variable {parameters : FollowTheSunParameters} {highest total current : ℚ}

/-- The thresholds that a rate has to reach, against all that is sent and against the rate
of the current location. -/
structure Triggered (parameters : FollowTheSunParameters) (highest total current : ℚ) :
    Prop where
  higher : current < highest
  percentTotal : total * parameters.triggerPercentTotal +
    parameters.triggerDeltaAbovePercentTotal ≤ highest
  absoluteTotal : parameters.triggerAbsoluteTotal ≤ highest
  percentMajority : total * parameters.triggerPercentMajority +
    parameters.triggerDeltaAbovePercentMajority ≤ highest - current
  absoluteMajority : parameters.triggerAbsoluteMajority ≤ highest - current

theorem isTriggered_iff (nextHighest : ℚ) :
    parameters.isTriggered highest total nextHighest current = true ↔
      Triggered parameters highest total current := by
  simp only [FollowTheSunParameters.isTriggered, Bool.if_false_left, Bool.and_eq_true,
    Bool.not_eq_true', decide_eq_false_iff_not, not_le, not_lt, and_true]
  constructor
  · rintro ⟨higher, percentTotal, absoluteTotal, percentMajority, absoluteMajority⟩
    exact ⟨higher, percentTotal, absoluteTotal, percentMajority, absoluteMajority⟩
  · intro triggered
    exact ⟨triggered.higher, triggered.percentTotal, triggered.absoluteTotal,
      triggered.percentMajority, triggered.absoluteMajority⟩

end Triggers

section Decisions
variable [DecidableEq Container] [DecidableEq Item]
variable {parameters : FollowTheSunParameters} {model : DefaultFollowTheSunModel Container Item}
  {item : Item}

/-- What makes a container of a location, that sends at a rate, the place for an item. -/
structure Justified (parameters : FollowTheSunParameters)
    (model : DefaultFollowTheSunModel Container Item) (item : Item) (container : Container)
    (location : Location) (rate : ℚ) : Prop where
  moveable : model.isItemMoveable item = true
  permitted : parameters.isExcluded (model.getItemLocation item) = false
  located : model.getContainerLocation container = some location
  sent : (model.sendsTo item).get location = some rate
  rises : currentRate (model.sendsTo item) (model.getItemLocation item) < rate
  highest : ∀ other otherRate, (model.sendsTo item).get other = some otherRate →
    model.getAvailableContainersFor item other ≠ [] → otherRate ≤ rate
  triggered : Triggered parameters rate (model.sendsTo item).values.sum
    (currentRate (model.sendsTo item) (model.getItemLocation item))

theorem migration_triggered {sendsByLocation : LinkedMap Location ℚ}
    {activeLocation : Option Location} {activeContainer : Option Container}
    {optimal container : Container} {rate : ℚ} {nextHighest : Option ℚ}
    (moves : migration parameters sendsByLocation activeLocation activeContainer optimal rate
      nextHighest = some container) :
    Triggered parameters rate sendsByLocation.values.sum
      (currentRate sendsByLocation activeLocation) := by
  dsimp only [migration] at moves
  split at moves
  · next triggered => exact (isTriggered_iff _).mp triggered
  · cases moves

theorem decision_justified (apart : RatesApart (model.sendsTo item)) {container : Container}
    (decided : model.decision parameters item = some container) :
    ∃ location rate, Justified parameters model item container location rate := by
  dsimp only [decision, findMigration] at decided
  split at decided
  · next considered =>
    obtain ⟨best, found, moves⟩ := Option.bind_eq_some_iff.mp decided
    have triggered := migration_triggered moves
    obtain ⟨rfl, _⟩ := migration_some moves
    obtain ⟨member, located⟩ := findHighest_some found
    obtain ⟨busy, rises, sent⟩ := mem_locationsWtd.mp member
    simp only [isConsidered, Bool.and_eq_true, Bool.not_eq_true'] at considered
    refine ⟨best.2.object, best.2.weight, considered.1.2, considered.1.1, located, sent, rises,
      fun other otherRate sends contenders => ?_, triggered⟩
    -- A location that is not searched sends no more than the current one.
    by_cases higher : currentRate (model.sendsTo item) (model.getItemLocation item) < otherRate
    · exact findHighest_highest (locationsWtd_descending apart _) found ⟨other, otherRate⟩
        (mem_locationsWtd.mpr ⟨busy, higher, sends⟩) contenders
    · exact (not_lt.mp higher).trans rises.le
  · cases decided

/-- An item with a place to go to goes to one that is as good, unless it is there. -/
theorem decision_of_justified (apart : RatesApart (model.sendsTo item)) {container : Container}
    {location : Location} {rate : ℚ}
    (justified : Justified parameters model item container location rate)
    (busy : 0 < (model.sendsTo item).values.sum) {active : Container}
    (placed : model.getItemContainer item = some active)
    (elsewhere : ∀ there, model.getContainerLocation active = some there →
      (model.sendsTo item).get there ≠ some rate) :
    ∃ destination, model.decision parameters item = some destination := by
  have member : (⟨location, rate⟩ : WeightedObject Location) ∈
      locationsWtd (model.sendsTo item)
        (currentRate (model.sendsTo item) (model.getItemLocation item)) :=
    mem_locationsWtd.mpr ⟨busy, justified.rises, justified.sent⟩
  have contenders : model.getAvailableContainersFor item location ≠ [] :=
    List.ne_nil_of_mem ((mem_getContainersInLocation model location container).mpr
      justified.located)
  obtain ⟨best, found⟩ :=
    Option.isSome_iff_exists.mp (findHighest_isSome model item member justified.located)
  obtain ⟨searched, there⟩ := findHighest_some found
  obtain ⟨_, _, sent⟩ := mem_locationsWtd.mp searched
  have atLeast : rate ≤ best.2.weight :=
    findHighest_highest (locationsWtd_descending apart _) found _ member contenders
  have atMost : best.2.weight ≤ rate := by
    have listed := (mem_getContainersInLocation model best.2.object best.1).mpr there
    exact justified.highest best.2.object _ sent (List.ne_nil_of_mem listed)
  have same : best.2.weight = rate := le_antisymm atMost atLeast
  have different : active ≠ best.1 := by
    rintro rfl
    exact elsewhere _ there (by rw [sent, same])
  have considered : model.isConsidered parameters item (model.getItemLocation item) = true := by
    simp [isConsidered, justified.permitted, justified.moveable, hasActiveMigration]
  refine ⟨best.1, ?_⟩
  have triggered (nextHighest : ℚ) := (isTriggered_iff nextHighest).mpr justified.triggered
  simp [decision, findMigration, considered, found, migration, same, triggered, placed, different]

end Decisions

section Requests
variable [DecidableEq Container] [DecidableEq Item]
variable (parameters : FollowTheSunParameters) (order : SetOrder Item)
  (throws : Item → Container → Bool)

/-- A visit whose move may throw. The moves of the round are those that were asked for. -/
def visitItem (directSendsToItemByLocation : Item → Option (LinkedMap Location ℚ))
    (round : Round Container Item) (item : Item) : Round Container Item :=
  let sendsByLocation := (directSendsToItemByLocation item).getD .empty
  match round.1.findMigration parameters sendsByLocation item with
  | some container =>
      (if throws item container then round.1 else round.1.onItemMoved order item (some container),
        round.2 ++ [(item, container)])
  | none => round

def requestMoves (model : DefaultFollowTheSunModel Container Item) : Round Container Item :=
  model.getItems.foldl
    (visitItem parameters order throws model.getDirectSendsToItemByLocation) (model, [])

/-- Without a move that throws this is the round. -/
theorem rebalance_eq_requestMoves (model : DefaultFollowTheSunModel Container Item) :
    model.rebalance parameters order =
      model.requestMoves parameters order fun _ _ => false := rfl

variable {parameters order throws} {model : DefaultFollowTheSunModel Container Item}

theorem visits_requested {visited : List Item} (distinct : visited.Nodup) :
    let round := visited.foldl
      (visitItem parameters order throws model.getDirectSendsToItemByLocation) (model, [])
    (∃ given, Moved model given round.1 ∧ ∀ item, item ∉ visited → given item = none) ∧
    round.2 = visited.filterMap fun item =>
      (model.decision parameters item).map (Prod.mk item) := by
  induction visited using List.reverseRecOn with
  | nil => exact ⟨⟨_, moved_none, fun _ _ => rfl⟩, rfl⟩
  | append_singleton earlier item ih =>
    obtain ⟨distinct, _, fresh⟩ := List.nodup_append.mp distinct
    have new : item ∉ earlier := fun member => fresh item member item List.mem_cons_self rfl
    obtain ⟨⟨given, moved, unvisited⟩, moves⟩ := ih distinct
    rw [List.foldl_append, List.foldl_cons, List.foldl_nil, List.filterMap_append]
    generalize earlier.foldl
      (visitItem parameters order throws model.getDirectSendsToItemByLocation) (model, []) = before
      at moved moves ⊢
    have container := moved.container item
    have location := moved.location item
    rw [unvisited item new] at container location
    have decided : before.1.findMigration parameters (model.sendsTo item) item =
        model.decision parameters item :=
      moved.pool.findMigration location container (model.sendsTo item)
    have still : ∀ other, other ∉ earlier ++ [item] → given other = none := fun other member =>
      unvisited other fun visited => member (List.mem_append_left _ visited)
    cases choice : model.decision parameters item with
    | none =>
      have unmoved : visitItem parameters order throws model.getDirectSendsToItemByLocation before
          item = before := by
        have none := decided.trans choice
        unfold sendsTo at none
        simp only [visitItem, none]
      rw [unmoved]
      exact ⟨⟨given, moved, still⟩, by simp [moves, choice]⟩
    | some destination =>
      have asked : visitItem parameters order throws model.getDirectSendsToItemByLocation before
          item = (if throws item destination then before.1
            else before.1.onItemMoved order item (some destination),
            before.2 ++ [(item, destination)]) := by
        have some := decided.trans choice
        unfold sendsTo at some
        simp only [visitItem, some]
      rw [asked]
      refine ⟨?_, by simp [moves, choice]⟩
      by_cases failed : throws item destination = true
      · rw [if_pos failed]
        exact ⟨given, moved, still⟩
      · rw [if_neg failed]
        refine ⟨_, moved.onItemMoved order (some destination) (decision_hasItem choice), ?_⟩
        intro other member
        have different : other ≠ item := fun same => member (by simp [same])
        rw [Function.update_of_ne different]
        exact still other member

theorem mem_requestMoves {item : Item} {container : Container} :
    (item, container) ∈ (model.requestMoves parameters order throws).2 ↔
      model.decision parameters item = some container := by
  have moves : (model.requestMoves parameters order throws).2 = model.getItems.filterMap fun item =>
      (model.decision parameters item).map (Prod.mk item) :=
    (visits_requested model.itemToContainer.distinct).2
  rw [moves, List.mem_filterMap]
  constructor
  · rintro ⟨visited, _, asked⟩
    obtain ⟨destination, decided, same⟩ := Option.map_eq_some_iff.mp asked
    cases same
    exact decided
  · intro decided
    have listed := (model.itemToContainer.defined item).mpr (decision_hasItem decided)
    exact ⟨item, listed, by rw [decided]; rfl⟩

/-- Moves are justified; without a justified place an item is not moved, and with one it is,
unless its container is such a place already. -/
theorem moves_justified (parameters : FollowTheSunParameters) (order : SetOrder Item)
    (throws : Item → Container → Bool) (model : DefaultFollowTheSunModel Container Item)
    (item : Item) (apart : RatesApart (model.sendsTo item)) :
    (∀ container, (item, container) ∈ (model.requestMoves parameters order throws).2 →
      ∃ location rate, Justified parameters model item container location rate) ∧
    ((¬ ∃ container location rate, Justified parameters model item container location rate) →
      ∀ container, (item, container) ∉ (model.requestMoves parameters order throws).2) ∧
    (∀ container location rate active,
      Justified parameters model item container location rate →
      0 < (model.sendsTo item).values.sum → model.getItemContainer item = some active →
      (∀ there, model.getContainerLocation active = some there →
        (model.sendsTo item).get there ≠ some rate) →
      ∃ destination, (item, destination) ∈ (model.requestMoves parameters order throws).2) := by
  have sound : ∀ container,
      (item, container) ∈ (model.requestMoves parameters order throws).2 →
      ∃ location rate, Justified parameters model item container location rate :=
    fun container moved => decision_justified apart (mem_requestMoves.mp moved)
  refine ⟨sound, fun nowhere container moved => nowhere ⟨container, sound container moved⟩, ?_⟩
  intro container location rate active justified busy placed elsewhere
  obtain ⟨destination, decided⟩ := decision_of_justified apart justified busy placed elsewhere
  exact ⟨destination, mem_requestMoves.mpr decided⟩

theorem oneSource_justified :
    (0, true) ∈ (oneSource.requestMoves .newDefault (atEnd (Fin 2)) fun _ _ => true).2 ∧
    ∃ location rate, Justified .newDefault oneSource 0 true location rate := by
  have sends : oneSource.sendsTo 0 = LinkedMap.empty.put ⟨"tokyo"⟩ (0 + 10) := rfl
  have only : ∀ location rate, (oneSource.sendsTo 0).get location = some rate →
      rate = 0 + 10 := by
    intro location rate sent
    rw [sends, LinkedMap.get_put, LinkedMap.get_empty] at sent
    split at sent <;> cases sent
    rfl
  have apart : RatesApart (oneSource.sendsTo 0) := by
    intro first second rate other sent sentOther
    exact Or.inl ((only first rate sent).trans (only second other sentOther).symm)
  have moved :
      (0, true) ∈ (oneSource.requestMoves .newDefault (atEnd (Fin 2)) fun _ _ => true).2 := by
    decide +kernel
  exact ⟨moved, (moves_justified .newDefault (atEnd (Fin 2)) (fun _ _ => true) oneSource 0
    apart).1 true moved⟩

end Requests
end Brooklyn.DefaultFollowTheSunModel
