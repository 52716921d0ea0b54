import Brooklyn.BalancingStrategy
import Brooklyn.LoadEnergy
import Mathlib.Tactic.Linarith

/-!
What `findBestItemToMove` and `findContainer` answer. One entry of the search is
either a candidate, and then the candidates met so far include it, or it leaves
them alone. So the item found within the maximum is a candidate within it, and the
item fallen back on weighs no more than any item that may be moved.
-/

namespace Brooklyn
namespace DefaultBalanceablePoolModel
variable {Container Item : Type}

section Containers
variable [DecidableEq Container] {model : DefaultBalanceablePoolModel Container Item}
    {capacity : Container → ℚ} {excludedContainers : List Container}

theorem considerContainer_some {best : Option Container × ℚ} {node chosen : Container}
    (found : (model.considerContainer capacity excludedContainers best node).1 = some chosen) :
    best.1 = some chosen ∨ (chosen = node ∧ node ∉ excludedContainers) := by
  unfold considerContainer at found
  split at found
  · exact Or.inl found
  · next permitted =>
    split at found
    · exact Or.inl found
    · split at found
      · exact Or.inr ⟨(Option.some.inj found).symm, permitted⟩
      · exact Or.inl found

theorem findContainer_some {chosen : Container}
    (found : model.findContainer capacity excludedContainers = some chosen) :
    chosen ∈ model.containers ∧ chosen ∉ excludedContainers := by
  have fold (nodes : List Container) (best : Option Container × ℚ)
      (last : (nodes.foldl (model.considerContainer capacity excludedContainers) best).1 =
        some chosen) : best.1 = some chosen ∨ (chosen ∈ nodes ∧ chosen ∉ excludedContainers) := by
    induction nodes generalizing best with
    | nil => exact Or.inl last
    | cons node rest ih =>
        rcases ih _ last with before | ⟨member, permitted⟩
        · rcases considerContainer_some before with earlier | ⟨rfl, permitted⟩
          · exact Or.inl earlier
          · exact Or.inr ⟨List.mem_cons_self, permitted⟩
        · exact Or.inr ⟨List.mem_cons_of_mem _ member, permitted⟩
  rcases fold model.containers (none, 0) found with none | chosen
  · cases none
  · exact chosen

end Containers

section Entries

theorem improve_some {better : ℚ → ℚ → Bool} {best : Option (Item × ℚ)} {item chosen : Item}
    {amount bound : ℚ} (improved : improve better best item amount = some (chosen, bound)) :
    best = some (chosen, bound) ∨ (chosen = item ∧ bound = amount) := by
  unfold improve at improved
  split at improved
  · cases improved
    exact Or.inr ⟨rfl, rfl⟩
  · split at improved
    · cases improved
      exact Or.inr ⟨rfl, rfl⟩
    · exact Or.inl improved

theorem fallback_some {found : Search Item} {limit : ℚ} {item : Item}
    (chosen : Search.fallback found limit = some item) :
    ∃ cost, found.smallestMoveable = some (item, cost) ∧ found.exclusions = false := by
  unfold Search.fallback at chosen
  split at chosen
  · next smallest _ largest _ =>
    split at chosen
    · next allowed =>
      cases chosen
      exact ⟨_, ‹_›, by simpa using allowed.2.2⟩
    · cases chosen
  · cases chosen

theorem mem_getItemWorkrates {model : DefaultBalanceablePoolModel Container Item}
    {node : Container} {item : Item} {workrate : Option ℚ} :
    (item, workrate) ∈ model.getItemWorkrates node ↔
      item ∈ model.containerToItems node ∧ model.itemToWorkrate item = workrate := by
  simp only [getItemWorkrates, getItemsForContainer, List.mem_map, Prod.mk.injEq]
  constructor
  · rintro ⟨other, member, rfl, rfl⟩
    exact ⟨member, rfl⟩
  · rintro ⟨member, rfl⟩
    exact ⟨item, member, rfl, rfl⟩

/-- The receiver ends below what the donor had. -/
def Relieves (move : Move Container Item) : Prop :=
  move.newNodeWorkrate + move.workrate < move.oldNodeWorkrate

/-- An item within a fraction of the difference leaves the receiver below the
donor. -/
theorem relieves_of_fraction {move : Move Container Item} {fraction : ℚ} (below : fraction < 1)
    (positive : 0 < move.workrate) (possible : 0 < fraction)
    (within : move.workrate ≤ (move.oldNodeWorkrate - move.newNodeWorkrate) * fraction) :
    Relieves move := by
  have gap : 0 < move.oldNodeWorkrate - move.newNodeWorkrate := by
    by_contra none
    have lost := mul_nonpos_of_nonpos_of_nonneg (not_lt.mp none) possible.le
    linarith
  have shrunk := mul_lt_mul_of_pos_left below gap
  rw [mul_one] at shrunk
  unfold Relieves
  linarith

end Entries

section Candidates
variable [DecidableEq Item] (model : DefaultBalanceablePoolModel Container Item)

/-- An item of the map that may be moved and has a positive cost. -/
def Candidate (costsPerItem : List (Item × Option ℚ)) (item : Item) (cost : ℚ) : Prop :=
  (item, some cost) ∈ costsPerItem ∧ model.isItemMoveable item = true ∧ 0 < cost

structure Found (costsPerItem : List (Item × Option ℚ)) (maxCost : ℚ) (found : Search Item) :
    Prop where
  closest : ∀ item diff, found.closestMatch = some (item, diff) →
    ∃ cost, model.Candidate costsPerItem item cost ∧ cost ≤ maxCost
  smallest : ∀ item cost, found.smallestMoveable = some (item, cost) →
    model.Candidate costsPerItem item cost

/-- What excluded items the search met and how small the candidates were. -/
structure Surveyed (entries : List (Item × Option ℚ)) (excludedItems : List Item)
    (found : Search Item) : Prop where
  closest : ∀ item diff, found.closestMatch = some (item, diff) → item ∉ excludedItems
  smallest : ∀ item cost, found.smallestMoveable = some (item, cost) → item ∉ excludedItems
  complete : found.exclusions = false → ∀ item cost, model.Candidate entries item cost →
    item ∉ excludedItems
  least : ∀ item cost, model.Candidate entries item cost → item ∉ excludedItems →
    ∃ smallest amount, found.smallestMoveable = some (smallest, amount) ∧ amount ≤ cost

variable {model}

omit [DecidableEq Item] in
theorem not_blocked (item : Item) (location : Option Location) :
    model.isItemBlocked item location = false := by
  cases location <;> rfl

/-- An entry that is a candidate and not excluded is taken into account. -/
structure Taken (targetCost maxCost : ℚ) (found after : Search Item) (item : Item) (cost : ℚ) :
    Prop where
  smallest : after.smallestMoveable =
    improve (fun cost bound => decide (cost < bound)) found.smallestMoveable item cost
  closest : after.closestMatch = found.closestMatch ∨ cost ≤ maxCost ∧ after.closestMatch =
    improve (fun diff bound => decide (diff < bound)) found.closestMatch item |targetCost - cost|
  exclusions : after.exclusions = found.exclusions

/-- Any other entry changes no candidate, and `exclusions` tells an excluded one. -/
structure Passed (found after : Search Item) (candidate : Prop) : Prop where
  smallest : after.smallestMoveable = found.smallestMoveable
  closest : after.closestMatch = found.closestMatch
  exclusions : after.exclusions = false → found.exclusions = false ∧ ¬candidate

omit [DecidableEq Item] in
theorem passed_unchanged {found : Search Item} {candidate : Prop} (not : ¬candidate) :
    Passed found found candidate :=
  ⟨rfl, rfl, fun same => ⟨same, not⟩⟩

theorem considerItem_cases (targetCost maxCost : ℚ) (excludedItems : List Item)
    (locationIfKnown : Option Location) (found : Search Item) (item : Item) (known : Option ℚ) :
    let after :=
      model.considerItem targetCost maxCost excludedItems locationIfKnown found (item, known)
    let candidate := ∃ cost, known = some cost ∧ model.isItemMoveable item = true ∧ 0 < cost
    (item ∉ excludedItems ∧ ∃ cost, known = some cost ∧ model.isItemMoveable item = true ∧
      0 < cost ∧ Taken targetCost maxCost found after item cost) ∨
    ((item ∈ excludedItems ∨ ¬candidate) ∧ Passed found after candidate) := by
  intro after candidate
  have unchanged (not : ¬candidate) (same : after = found) :
      (item ∈ excludedItems ∨ ¬candidate) ∧ Passed found after candidate :=
    ⟨Or.inr not, same ▸ passed_unchanged not⟩
  cases known with
  | none => exact Or.inr (unchanged (by rintro ⟨_, none, _⟩; cases none) rfl)
  | some cost =>
    have positive (holds : candidate) : 0 < cost := by
      obtain ⟨_, same, _, positive⟩ := holds
      cases same
      exact positive
    have computed : after = model.considerItem targetCost maxCost excludedItems locationIfKnown
      found (item, some cost) := rfl
    clear_value after
    unfold considerItem at computed
    dsimp only at computed
    split at computed
    · next fixed =>
      refine Or.inr (unchanged ?_ computed)
      rintro ⟨_, _, moveable, _⟩
      simp [moveable] at fixed
    · next moveable =>
      split at computed
      · next negative =>
        exact Or.inr (unchanged (fun holds => (positive holds).not_gt negative) computed)
      · split at computed
        · next excluded =>
          subst computed
          exact Or.inr ⟨Or.inl excluded, rfl, rfl, fun met => by cases met⟩
        · next permitted =>
          split at computed
          · next nothing =>
            exact Or.inr (unchanged (fun holds => (positive holds).not_ge nothing) computed)
          · next more =>
            refine Or.inl ⟨permitted, cost, rfl, by simpa using moveable, not_le.mp more, ?_⟩
            rw [not_blocked] at computed
            simp only [Bool.false_eq_true, if_false] at computed
            split at computed
            · subst computed
              exact ⟨rfl, Or.inl rfl, rfl⟩
            · next within =>
              subst computed
              exact ⟨rfl, Or.inr ⟨not_lt.mp within, rfl⟩, rfl⟩

theorem considerItem_found {costsPerItem : List (Item × Option ℚ)} {targetCost maxCost : ℚ}
    {excludedItems : List Item} {locationIfKnown : Option Location} {found : Search Item}
    (before : model.Found costsPerItem maxCost found) {entry : Item × Option ℚ}
    (listed : entry ∈ costsPerItem) :
    model.Found costsPerItem maxCost
      (model.considerItem targetCost maxCost excludedItems locationIfKnown found entry) := by
  obtain ⟨item, known⟩ := entry
  rcases considerItem_cases targetCost maxCost excludedItems locationIfKnown found item known with
    ⟨_, cost, rfl, moveable, positive, taken⟩ | ⟨_, passed⟩
  · have candidate : model.Candidate costsPerItem item cost := ⟨listed, moveable, positive⟩
    constructor
    · intro other diff best
      rcases taken.closest with same | ⟨within, improved⟩
      · exact before.closest other diff (same ▸ best)
      · rcases improve_some (improved ▸ best) with kept | ⟨rfl, _⟩
        · exact before.closest other diff kept
        · exact ⟨cost, candidate, within⟩
    · intro other amount best
      rcases improve_some (taken.smallest ▸ best) with kept | ⟨rfl, rfl⟩
      · exact before.smallest other amount kept
      · exact candidate
  · exact ⟨fun other diff best => before.closest other diff (passed.closest ▸ best),
      fun other amount best => before.smallest other amount (passed.smallest ▸ best)⟩

omit [DecidableEq Item] in
/-- The smaller of two amounts stays, whichever item it belongs to. -/
theorem improve_least (best : Option (Item × ℚ)) (item : Item) (cost : ℚ) :
    ∃ smallest amount,
      improve (fun cost bound => decide (cost < bound)) best item cost = some (smallest, amount) ∧
      amount ≤ cost ∧ ∀ other bound, best = some (other, bound) → amount ≤ bound := by
  unfold improve
  cases best with
  | none => exact ⟨item, cost, rfl, le_rfl, fun _ _ none => by cases none⟩
  | some held =>
    obtain ⟨other, bound⟩ := held
    by_cases smaller : cost < bound
    · refine ⟨item, cost, by simp [smaller], le_rfl, fun _ _ same => ?_⟩
      cases same
      exact smaller.le
    · refine ⟨other, bound, by simp [smaller], not_lt.mp smaller, fun _ _ same => ?_⟩
      cases same
      exact le_rfl

/-- A candidate is one of the earlier entries or the last one. -/
theorem candidate_append {entries : List (Item × Option ℚ)} {item other : Item} {known : Option ℚ}
    {cost : ℚ} (candidate : model.Candidate (entries ++ [(item, known)]) other cost) :
    model.Candidate entries other cost ∨
      (other = item ∧ known = some cost ∧ model.isItemMoveable item = true ∧ 0 < cost) := by
  obtain ⟨listed, moveable, positive⟩ := candidate
  rcases List.mem_append.mp listed with member | last
  · exact Or.inl ⟨member, moveable, positive⟩
  · cases List.mem_singleton.mp last
    exact Or.inr ⟨rfl, rfl, moveable, positive⟩

theorem considerItem_surveyed {entries : List (Item × Option ℚ)} {targetCost maxCost : ℚ}
    {excludedItems : List Item} {locationIfKnown : Option Location} {found : Search Item}
    (before : model.Surveyed entries excludedItems found) (entry : Item × Option ℚ) :
    model.Surveyed (entries ++ [entry]) excludedItems
      (model.considerItem targetCost maxCost excludedItems locationIfKnown found entry) := by
  obtain ⟨item, known⟩ := entry
  rcases considerItem_cases targetCost maxCost excludedItems locationIfKnown found item known with
    ⟨permitted, cost, rfl, moveable, positive, taken⟩ | ⟨reason, passed⟩
  · obtain ⟨smallest, amount, improved, below, kept⟩ :=
      improve_least found.smallestMoveable item cost
    constructor
    · intro other diff best
      rcases taken.closest with same | ⟨_, improved⟩
      · exact before.closest other diff (same ▸ best)
      · rcases improve_some (improved ▸ best) with kept | ⟨rfl, _⟩
        · exact before.closest other diff kept
        · exact permitted
    · intro other bound best
      rcases improve_some (taken.smallest ▸ best) with kept | ⟨rfl, _⟩
      · exact before.smallest other bound kept
      · exact permitted
    · intro none other bound candidate
      rcases candidate_append candidate with member | ⟨rfl, _⟩
      · exact before.complete (taken.exclusions ▸ none) other bound member
      · exact permitted
    · intro other bound candidate allowed
      refine ⟨smallest, amount, taken.smallest.trans improved, ?_⟩
      rcases candidate_append candidate with member | ⟨rfl, same, _⟩
      · obtain ⟨least, lower, held, within⟩ := before.least other bound member allowed
        exact (kept least lower held).trans within
      · cases same
        exact below
  · constructor
    · exact fun other diff best => before.closest other diff (passed.closest ▸ best)
    · exact fun other bound best => before.smallest other bound (passed.smallest ▸ best)
    · intro none other bound candidate
      obtain ⟨earlierNone, not⟩ := passed.exclusions none
      rcases candidate_append candidate with member | ⟨rfl, same, holds⟩
      · exact before.complete earlierNone other bound member
      · exact absurd ⟨bound, same, holds⟩ not
    · intro other bound candidate allowed
      rw [passed.smallest]
      rcases candidate_append candidate with member | ⟨rfl, same, holds⟩
      · exact before.least other bound member allowed
      · exact (reason.elim allowed fun not => not ⟨bound, same, holds⟩).elim

theorem searchItems_found (costsPerItem : List (Item × Option ℚ)) (targetCost maxCost : ℚ)
    (excludedItems : List Item) (locationIfKnown : Option Location) :
    model.Found costsPerItem maxCost
      (model.searchItems costsPerItem targetCost maxCost excludedItems locationIfKnown) := by
  have fold (entries : List (Item × Option ℚ)) (listed : ∀ entry ∈ entries, entry ∈ costsPerItem)
      (found : Search Item) (before : model.Found costsPerItem maxCost found) :
      model.Found costsPerItem maxCost (entries.foldl
        (model.considerItem targetCost maxCost excludedItems locationIfKnown) found) := by
    induction entries generalizing found with
    | nil => exact before
    | cons entry rest ih =>
        refine ih (fun other member => listed other (List.mem_cons_of_mem _ member)) _ ?_
        exact considerItem_found before (listed entry List.mem_cons_self)
  refine fold costsPerItem (fun _ => id) _ ⟨?_, ?_⟩
  · intro item diff none
    cases none
  · intro item cost none
    cases none

theorem searchItems_surveyed (costsPerItem : List (Item × Option ℚ)) (targetCost maxCost : ℚ)
    (excludedItems : List Item) (locationIfKnown : Option Location) :
    model.Surveyed costsPerItem excludedItems
      (model.searchItems costsPerItem targetCost maxCost excludedItems locationIfKnown) := by
  induction costsPerItem using List.reverseRecOn with
  | nil =>
      constructor
      · intro item diff none
        cases none
      · intro item cost none
        cases none
      · intro _ item cost candidate
        cases candidate.1
      · intro item cost candidate
        cases candidate.1
  | append_singleton entries entry ih =>
      rw [searchItems, List.foldl_append]
      exact considerItem_surveyed ih entry

theorem findBestItemToMove_some {costsPerItem : List (Item × Option ℚ)}
    {targetCost maxCost limit : ℚ} {excludedItems : List Item}
    {locationIfKnown : Option Location} {item : Item}
    (chosen : model.findBestItemToMove costsPerItem targetCost maxCost limit excludedItems
      locationIfKnown = some item) :
    ∃ cost, model.Candidate costsPerItem item cost ∧
      ((model.searchItems costsPerItem targetCost maxCost excludedItems
        locationIfKnown).closestMatch.isNone = false → cost ≤ maxCost) := by
  have found := model.searchItems_found costsPerItem targetCost maxCost excludedItems
    locationIfKnown
  unfold findBestItemToMove at chosen
  dsimp only at chosen
  split at chosen
  · next closest diff best =>
    cases chosen
    obtain ⟨cost, candidate, within⟩ := found.closest _ diff best
    exact ⟨cost, candidate, fun _ => within⟩
  · next nothing =>
    obtain ⟨cost, smallest, _⟩ := fallback_some chosen
    refine ⟨cost, found.smallest item cost smallest, fun closest => ?_⟩
    rw [nothing] at closest
    cases closest

theorem findBestItemToMove_permitted {costsPerItem : List (Item × Option ℚ)}
    {targetCost maxCost limit : ℚ} {excludedItems : List Item}
    {locationIfKnown : Option Location} {item : Item}
    (chosen : model.findBestItemToMove costsPerItem targetCost maxCost limit excludedItems
      locationIfKnown = some item) : item ∉ excludedItems := by
  have surveyed := model.searchItems_surveyed costsPerItem targetCost maxCost excludedItems
    locationIfKnown
  unfold findBestItemToMove at chosen
  dsimp only at chosen
  split at chosen
  · next closest diff best =>
    cases chosen
    exact surveyed.closest _ diff best
  · obtain ⟨cost, smallest, _⟩ := fallback_some chosen
    exact surveyed.smallest item cost smallest

/-- The search falls back only if it met no excluded item, so no item that may be
moved weighs less than the one it falls back on. -/
theorem findBestItemToMove_least {costsPerItem : List (Item × Option ℚ)}
    {targetCost maxCost limit : ℚ} {excludedItems : List Item}
    {locationIfKnown : Option Location} {item : Item}
    (chosen : model.findBestItemToMove costsPerItem targetCost maxCost limit excludedItems
      locationIfKnown = some item)
    (nothing : (model.searchItems costsPerItem targetCost maxCost excludedItems
      locationIfKnown).closestMatch.isNone = true) :
    ∃ cost, model.Candidate costsPerItem item cost ∧
      ∀ other amount, model.Candidate costsPerItem other amount → cost ≤ amount := by
  have found := model.searchItems_found costsPerItem targetCost maxCost excludedItems
    locationIfKnown
  have surveyed := model.searchItems_surveyed costsPerItem targetCost maxCost excludedItems
    locationIfKnown
  unfold findBestItemToMove at chosen
  dsimp only at chosen
  rw [Option.isNone_iff_eq_none.mp nothing] at chosen
  obtain ⟨cost, smallest, unexcluded⟩ := fallback_some chosen
  refine ⟨cost, found.smallest item cost smallest, fun other amount candidate => ?_⟩
  obtain ⟨least, lower, held, below⟩ := surveyed.least other amount candidate
    (surveyed.complete unexcluded other amount candidate)
  rw [smallest] at held
  cases held
  exact below

end Candidates
end DefaultBalanceablePoolModel
end Brooklyn
