import Brooklyn.BalancingStrategy
import Mathlib.Data.List.Induction

/-!
`BalancingStrategy.findBestItemToMove` over any model: which items may be moved, and where to, are
two predicates. One pass keeps the best item met so far in three respects, and an entry that is
read adds at most one to what each of them is chosen from.
-/

namespace Brooklyn.BalancingStrategy
open DefaultBalanceablePoolModel (improve Search.fallback)

variable {Item : Type}

section Chosen

/-- The best of the items that are eligible, each at an amount, if there is any. -/
def Chosen (better : ℚ → ℚ → Bool) (eligible : Item → ℚ → Prop) : Option (Item × ℚ) → Prop
  | none => ∀ item amount, ¬ eligible item amount
  | some (item, amount) =>
      eligible item amount ∧ ∀ other bound, eligible other bound → better bound amount = false

variable {better : ℚ → ℚ → Bool} {eligible : Item → ℚ → Prop} {best : Option (Item × ℚ)}

theorem Chosen.congr (chosen : Chosen better eligible best) {same : Item → ℚ → Prop}
    (iff : ∀ item amount, same item amount ↔ eligible item amount) : Chosen better same best := by
  obtain rfl : same = eligible := funext fun item => funext fun amount =>
    propext (iff item amount)
  exact chosen

theorem Chosen.improve (chosen : Chosen better eligible best) (item : Item) (amount : ℚ)
    (irrefl : ∀ bound, better bound bound = false)
    (trans : ∀ first second third, better first second = true → better second third = true →
      better first third = true) :
    Chosen better (fun other bound => eligible other bound ∨ other = item ∧ bound = amount)
      (improve better best item amount) := by
  cases best with
  | none =>
    refine ⟨Or.inr ⟨rfl, rfl⟩, fun other bound met => ?_⟩
    rcases met with before | ⟨-, rfl⟩
    · exact absurd before (chosen other bound)
    · exact irrefl bound
  | some held =>
    obtain ⟨other, least⟩ := held
    obtain ⟨there, best⟩ := chosen
    rw [DefaultBalanceablePoolModel.improve]
    by_cases improves : better amount least = true
    · rw [if_pos improves]
      refine ⟨Or.inr ⟨rfl, rfl⟩, fun third bound met => ?_⟩
      rcases met with before | ⟨-, rfl⟩
      · refine Bool.eq_false_iff.mpr fun lower => ?_
        exact Bool.noConfusion ((best third bound before).symm.trans
          (trans _ _ _ lower improves))
      · exact irrefl bound
    · rw [if_neg improves]
      refine ⟨Or.inl there, fun third bound met => ?_⟩
      rcases met with before | ⟨-, rfl⟩
      · exact best third bound before
      · exact Bool.eq_false_iff.mpr improves

theorem decide_lt_trans (first second third : ℚ) (below : decide (first < second) = true)
    (again : decide (second < third) = true) : decide (first < third) = true :=
  decide_eq_true ((of_decide_eq_true below).trans (of_decide_eq_true again))

theorem decide_gt_trans (first second third : ℚ) (above : decide (first > second) = true)
    (again : decide (second > third) = true) : decide (first > third) = true :=
  decide_lt_trans third second first again above

end Chosen

section Search
variable [DecidableEq Item] (isItemMoveable : Item → Bool)
    (isItemAllowedIn : Item → Location → Bool) (targetCost maxCost : ℚ)
    (excludedItems : List Item) (locationIfKnown : Option Location)

def isItemBlocked (item : Item) : Bool :=
  match locationIfKnown with
  | none => false
  | some location => !isItemAllowedIn item location

def considerItem (found : Search Item) (entry : Item × Option ℚ) : Search Item :=
  let item := entry.1
  match entry.2 with
  | none => found
  | some cost =>
      if !isItemMoveable item then found
      else if cost < 0 then found
      else if item ∈ excludedItems then { found with exclusions := true }
      else if cost ≤ 0 then found
      else
        let found := { found with
          largest := improve (fun cost bound => decide (cost > bound)) found.largest item cost }
        -- The location is asked for only now, so a blocked item may be the largest.
        if isItemBlocked isItemAllowedIn locationIfKnown item then found
        else
          let found := { found with
            smallestMoveable := improve (fun cost bound => decide (cost < bound))
              found.smallestMoveable item cost }
          if cost > maxCost then found
          else { found with
            closestMatch := improve (fun diff bound => decide (diff < bound))
              found.closestMatch item |targetCost - cost| }

def searchItems (costsPerItem : List (Item × Option ℚ)) : Search Item :=
  costsPerItem.foldl
    (considerItem isItemMoveable isItemAllowedIn targetCost maxCost excludedItems locationIfKnown)
    ⟨none, none, none, false⟩

def findBestItemToMove (costsPerItem : List (Item × Option ℚ))
    (maxCostIfNothingSmallerButLarger : ℚ) : Option Item :=
  let found := searchItems isItemMoveable isItemAllowedIn targetCost maxCost excludedItems
    locationIfKnown costsPerItem
  match found.closestMatch with
  | some (item, _) => some item
  | none => Search.fallback found maxCostIfNothingSmallerButLarger

/-- In the model of the pool the predicates are its own. -/
theorem findBestItemToMove_model {Container : Type} [DecidableEq Container]
    (model : DefaultBalanceablePoolModel Container Item) (costsPerItem : List (Item × Option ℚ))
    (maxCostIfNothingSmallerButLarger : ℚ) :
    model.findBestItemToMove costsPerItem targetCost maxCost maxCostIfNothingSmallerButLarger
        excludedItems locationIfKnown =
      findBestItemToMove model.isItemMoveable model.isItemAllowedIn targetCost maxCost excludedItems
        locationIfKnown costsPerItem maxCostIfNothingSmallerButLarger := by
  have blocked : ∀ item, model.isItemBlocked item locationIfKnown =
      isItemBlocked model.isItemAllowedIn locationIfKnown item := fun item => by
    cases locationIfKnown <;> rfl
  have same : model.considerItem targetCost maxCost excludedItems locationIfKnown =
      considerItem model.isItemMoveable model.isItemAllowedIn targetCost maxCost excludedItems
        locationIfKnown := by
    funext found entry
    rw [DefaultBalanceablePoolModel.considerItem]
    simp only [blocked]
    rfl
  rw [DefaultBalanceablePoolModel.findBestItemToMove, DefaultBalanceablePoolModel.searchItems, same]
  rfl

/-- A moveable item that is not excluded, at a positive cost. -/
def Weighed (entries : List (Item × Option ℚ)) (item : Item) (cost : ℚ) : Prop :=
  (item, some cost) ∈ entries ∧ 0 < cost ∧ isItemMoveable item = true ∧ item ∉ excludedItems

/-- An item that may be moved: it is also allowed in the location, if that is known. -/
def Candidate (entries : List (Item × Option ℚ)) (item : Item) (cost : ℚ) : Prop :=
  Weighed isItemMoveable excludedItems entries item cost ∧
    ∀ location, locationIfKnown = some location → isItemAllowedIn item location = true

def Excluded (entries : List (Item × Option ℚ)) : Prop :=
  ∃ item cost, (item, some cost) ∈ entries ∧ 0 ≤ cost ∧ isItemMoveable item = true ∧
    item ∈ excludedItems

/-- A candidate within the maximum, at its distance from the target. -/
def Within (entries : List (Item × Option ℚ)) (item : Item) (diff : ℚ) : Prop :=
  ∃ cost, Candidate isItemMoveable isItemAllowedIn excludedItems locationIfKnown entries item cost ∧
    cost ≤ maxCost ∧ diff = |targetCost - cost|

/-- What the search knows of the entries it has read. -/
structure Scanned (entries : List (Item × Option ℚ)) (found : Search Item) : Prop where
  closest : Chosen (fun diff bound => decide (diff < bound))
    (Within isItemMoveable isItemAllowedIn targetCost maxCost excludedItems locationIfKnown entries)
    found.closestMatch
  smallest : Chosen (fun cost bound => decide (cost < bound))
    (Candidate isItemMoveable isItemAllowedIn excludedItems locationIfKnown entries)
    found.smallestMoveable
  largest : Chosen (fun cost bound => decide (cost > bound))
    (Weighed isItemMoveable excludedItems entries) found.largest
  exclusions : found.exclusions = true ↔ Excluded isItemMoveable excludedItems entries

variable {isItemMoveable isItemAllowedIn targetCost maxCost excludedItems locationIfKnown}
    {entries : List (Item × Option ℚ)} {found : Search Item} {item : Item} {known : Option ℚ}

omit [DecidableEq Item] in
theorem mem_append_entry {other : Item} {bound : ℚ} :
    (other, some bound) ∈ entries ++ [(item, known)] ↔
      (other, some bound) ∈ entries ∨ other = item ∧ known = some bound := by
  rw [List.mem_append, List.mem_singleton, Prod.mk.injEq, eq_comm (a := some bound)]

omit [DecidableEq Item] in
theorem weighed_append {other : Item} {bound : ℚ} :
    Weighed isItemMoveable excludedItems (entries ++ [(item, known)]) other bound ↔
      Weighed isItemMoveable excludedItems entries other bound ∨
        (other = item ∧ known = some bound) ∧
          0 < bound ∧ isItemMoveable other = true ∧ other ∉ excludedItems := by
  rw [Weighed, mem_append_entry, or_and_right]
  rfl

omit [DecidableEq Item] in
theorem excluded_append :
    Excluded isItemMoveable excludedItems (entries ++ [(item, known)]) ↔
      Excluded isItemMoveable excludedItems entries ∨
        ∃ cost, known = some cost ∧ 0 ≤ cost ∧ isItemMoveable item = true ∧
          item ∈ excludedItems := by
  constructor
  · rintro ⟨other, cost, member, rest⟩
    rcases mem_append_entry.mp member with before | ⟨rfl, same⟩
    · exact Or.inl ⟨other, cost, before, rest⟩
    · exact Or.inr ⟨cost, same, rest⟩
  · rintro (⟨other, cost, before, rest⟩ | ⟨cost, same, rest⟩)
    · exact ⟨other, cost, mem_append_entry.mpr (Or.inl before), rest⟩
    · exact ⟨item, cost, mem_append_entry.mpr (Or.inr ⟨rfl, same⟩), rest⟩

omit [DecidableEq Item] in
/-- An entry that is not weighed adds no candidate. -/
theorem Scanned.skip
    (scanned : Scanned isItemMoveable isItemAllowedIn targetCost maxCost excludedItems
      locationIfKnown entries found)
    (unweighed : ∀ cost, known = some cost →
      ¬ (0 < cost ∧ isItemMoveable item = true ∧ item ∉ excludedItems)) {exclusions : Bool}
    (flag : exclusions = true ↔
      Excluded isItemMoveable excludedItems (entries ++ [(item, known)])) :
    Scanned isItemMoveable isItemAllowedIn targetCost maxCost excludedItems locationIfKnown
      (entries ++ [(item, known)]) { found with exclusions := exclusions } := by
  have weighed : ∀ other bound,
      Weighed isItemMoveable excludedItems (entries ++ [(item, known)]) other bound ↔
        Weighed isItemMoveable excludedItems entries other bound := by
    intro other bound
    rw [weighed_append, or_iff_left]
    rintro ⟨⟨rfl, same⟩, weighs⟩
    exact unweighed bound same weighs
  have candidate : ∀ other bound,
      Candidate isItemMoveable isItemAllowedIn excludedItems locationIfKnown
          (entries ++ [(item, known)]) other bound ↔
        Candidate isItemMoveable isItemAllowedIn excludedItems locationIfKnown entries other
          bound :=
    fun other bound => and_congr_left' (weighed other bound)
  refine ⟨scanned.closest.congr fun other diff => ?_, scanned.smallest.congr candidate,
    scanned.largest.congr weighed, flag⟩
  exact exists_congr fun cost => and_congr_left' (candidate other cost)

section Weigh
variable {cost : ℚ} (weighs : 0 < cost ∧ isItemMoveable item = true ∧ item ∉ excludedItems)
include weighs

omit [DecidableEq Item] in
theorem weighed_weigh (other : Item) (bound : ℚ) :
    Weighed isItemMoveable excludedItems (entries ++ [(item, some cost)]) other bound ↔
      Weighed isItemMoveable excludedItems entries other bound ∨ other = item ∧ bound = cost := by
  rw [weighed_append]
  refine or_congr_right ⟨fun ⟨⟨same, known⟩, _⟩ => ⟨same, (Option.some.inj known).symm⟩, ?_⟩
  rintro ⟨rfl, rfl⟩
  exact ⟨⟨rfl, rfl⟩, weighs⟩

omit [DecidableEq Item] in
theorem candidate_weigh (other : Item) (bound : ℚ) :
    Candidate isItemMoveable isItemAllowedIn excludedItems locationIfKnown
        (entries ++ [(item, some cost)]) other bound ↔
      Candidate isItemMoveable isItemAllowedIn excludedItems locationIfKnown entries other bound ∨
        (other = item ∧ bound = cost) ∧
          isItemBlocked isItemAllowedIn locationIfKnown item = false := by
  have allowed_iff : isItemBlocked isItemAllowedIn locationIfKnown item = false ↔
      ∀ location, locationIfKnown = some location → isItemAllowedIn item location = true := by
    cases locationIfKnown <;> simp [isItemBlocked]
  rw [Candidate, weighed_weigh weighs, or_and_right]
  refine or_congr_right (and_congr_right ?_)
  rintro ⟨rfl, -⟩
  exact allowed_iff.symm

omit [DecidableEq Item] in
theorem within_weigh (other : Item) (diff : ℚ) :
    Within isItemMoveable isItemAllowedIn targetCost maxCost excludedItems locationIfKnown
        (entries ++ [(item, some cost)]) other diff ↔
      Within isItemMoveable isItemAllowedIn targetCost maxCost excludedItems locationIfKnown
          entries other diff ∨
        (other = item ∧ diff = |targetCost - cost|) ∧
          isItemBlocked isItemAllowedIn locationIfKnown item = false ∧ cost ≤ maxCost := by
  constructor
  · rintro ⟨bound, met, below, far⟩
    rcases (candidate_weigh weighs other bound).mp met with before | ⟨⟨rfl, rfl⟩, free⟩
    · exact Or.inl ⟨bound, before, below, far⟩
    · exact Or.inr ⟨⟨rfl, far⟩, free, below⟩
  · rintro (⟨bound, before, below, far⟩ | ⟨⟨rfl, far⟩, free, below⟩)
    · exact ⟨bound, (candidate_weigh weighs other bound).mpr (Or.inl before), below, far⟩
    · exact ⟨cost, (candidate_weigh weighs other cost).mpr (Or.inr ⟨⟨rfl, rfl⟩, free⟩), below, far⟩

omit [DecidableEq Item] in
/-- An item that is weighed counts for the largest, if it is allowed in the location also for the
smallest, and within the maximum also for the closest. -/
theorem Scanned.weigh
    (scanned : Scanned isItemMoveable isItemAllowedIn targetCost maxCost excludedItems
      locationIfKnown entries found) :
    Scanned isItemMoveable isItemAllowedIn targetCost maxCost excludedItems locationIfKnown
      (entries ++ [(item, some cost)])
      { found with
        largest := improve (fun cost bound => decide (cost > bound)) found.largest item cost
        smallestMoveable :=
          if isItemBlocked isItemAllowedIn locationIfKnown item then found.smallestMoveable
          else improve (fun cost bound => decide (cost < bound)) found.smallestMoveable item cost
        closestMatch :=
          if isItemBlocked isItemAllowedIn locationIfKnown item ∨ cost > maxCost then
            found.closestMatch
          else improve (fun diff bound => decide (diff < bound)) found.closestMatch item
            |targetCost - cost| } := by
  constructor
  · dsimp only
    split
    next missed =>
      refine scanned.closest.congr fun other diff =>
        (within_weigh weighs other diff).trans (or_iff_left ?_)
      rintro ⟨-, free, below⟩
      rcases missed with blocked | above
      · exact Bool.noConfusion (free.symm.trans blocked)
      · exact absurd below (not_le.mpr above)
    next met =>
      obtain ⟨free, below⟩ := not_or.mp met
      refine (scanned.closest.improve item _ (by simp) decide_lt_trans).congr fun other diff =>
        (within_weigh weighs other diff).trans (or_congr_right (and_iff_left ?_))
      exact ⟨Bool.eq_false_iff.mpr free, not_lt.mp below⟩
  · dsimp only
    split
    next blocked =>
      refine scanned.smallest.congr fun other bound =>
        (candidate_weigh weighs other bound).trans (or_iff_left ?_)
      rintro ⟨-, free⟩
      exact Bool.noConfusion (free.symm.trans blocked)
    next free =>
      exact (scanned.smallest.improve item cost (by simp) decide_lt_trans).congr fun other bound =>
        (candidate_weigh weighs other bound).trans
          (or_congr_right (and_iff_left (Bool.eq_false_iff.mpr free)))
  · exact (scanned.largest.improve item cost (by simp) decide_gt_trans).congr
      (weighed_weigh weighs)
  · refine scanned.exclusions.trans ((or_iff_left ?_).symm.trans excluded_append.symm)
    rintro ⟨_, -, -, -, excluded⟩
    exact weighs.2.2 excluded

end Weigh

/-- One entry more is read. -/
theorem considerItem_scanned
    (scanned : Scanned isItemMoveable isItemAllowedIn targetCost maxCost excludedItems
      locationIfKnown entries found) (entry : Item × Option ℚ) :
    Scanned isItemMoveable isItemAllowedIn targetCost maxCost excludedItems locationIfKnown
      (entries ++ [entry])
      (considerItem isItemMoveable isItemAllowedIn targetCost maxCost excludedItems locationIfKnown
        found entry) := by
  obtain ⟨item, known⟩ := entry
  cases known with
  | none =>
    refine scanned.skip (fun _ same => by cases same) (scanned.exclusions.trans ?_)
    rw [excluded_append, or_iff_left]
    rintro ⟨_, same, -⟩
    cases same
  | some cost =>
    have still (unweighed : ¬ (0 < cost ∧ isItemMoveable item = true ∧ item ∉ excludedItems))
        (unexcluded : ¬ (0 ≤ cost ∧ isItemMoveable item = true ∧ item ∈ excludedItems)) :
        Scanned isItemMoveable isItemAllowedIn targetCost maxCost excludedItems locationIfKnown
          (entries ++ [(item, some cost)]) found := by
      refine scanned.skip (fun _ same => by cases same; exact unweighed)
        (scanned.exclusions.trans ?_)
      rw [excluded_append, or_iff_left]
      rintro ⟨_, same, met⟩
      cases same
      exact unexcluded met
    rw [considerItem]
    dsimp only
    split
    next fixed =>
      rw [Bool.not_eq_true', ← Bool.not_eq_true] at fixed
      exact still (fun met => fixed met.2.1) fun met => fixed met.2.1
    next moveable =>
      split
      next negative =>
        exact still (fun met => met.1.not_gt negative) fun met => met.1.not_gt negative
      next known =>
        split
        next excluded =>
          -- Only the flag is set, and it stays set.
          refine scanned.skip (fun _ same => ?_) (iff_of_true rfl ?_)
          · cases same
            exact fun met => met.2.2 excluded
          · refine excluded_append.mpr (Or.inr ⟨cost, rfl, not_lt.mp known, ?_, excluded⟩)
            simpa using moveable
        next permitted =>
          split
          next nothing =>
            exact still (fun met => met.1.not_ge nothing) fun met => permitted met.2.2
          next positive =>
            have taken := scanned.weigh ⟨not_le.mp positive, by simpa using moveable, permitted⟩
            split
            next blocked => simpa [blocked] using taken
            next free =>
              split
              next above => simpa [free, above] using taken
              next below => simpa [free, below] using taken

/-- The whole map is read. -/
theorem searchItems_scanned (costsPerItem : List (Item × Option ℚ)) :
    Scanned isItemMoveable isItemAllowedIn targetCost maxCost excludedItems locationIfKnown
      costsPerItem
      (searchItems isItemMoveable isItemAllowedIn targetCost maxCost excludedItems locationIfKnown
        costsPerItem) := by
  -- The fold reads from the front, so an entry is added at the end.
  induction costsPerItem using List.reverseRecOn with
  | nil =>
    refine ⟨?_, ?_, ?_, iff_of_false Bool.false_ne_true ?_⟩
    · rintro item diff ⟨cost, candidate, -⟩
      cases candidate.1.1
    · rintro item cost candidate
      cases candidate.1.1
    · rintro item cost weighed
      cases weighed.1
    · rintro ⟨item, cost, member, -⟩
      cases member
  | append_singleton entries entry ih =>
    rw [searchItems, List.foldl_append]
    exact considerItem_scanned ih entry

section Best
variable (isItemMoveable isItemAllowedIn targetCost maxCost excludedItems locationIfKnown entries)
    (maxCostIfNothingSmallerButLarger : ℚ)

/-- A cost at which the cheapest candidate is taken although it exceeds the maximum. -/
def FallsBack (cost : ℚ) : Prop :=
  cost < maxCostIfNothingSmallerButLarger ∧
    (∃ other amount, (other, some amount) ∈ entries ∧ isItemMoveable other = true ∧
      other ∉ excludedItems ∧ cost < amount) ∧
    ¬ Excluded isItemMoveable excludedItems entries

/-- The answers that are best: a candidate within the maximum that is nearest the target, else the
cheapest candidate where that is taken, else none. -/
inductive Best : Option Item → Prop
  | closest {item : Item} {cost : ℚ}
      (candidate : Candidate isItemMoveable isItemAllowedIn excludedItems locationIfKnown entries
        item cost)
      (within : cost ≤ maxCost)
      (nearest : ∀ other amount, Candidate isItemMoveable isItemAllowedIn excludedItems
        locationIfKnown entries other amount → amount ≤ maxCost →
        |targetCost - cost| ≤ |targetCost - amount|) : Best (some item)
  | smallest {item : Item} {cost : ℚ}
      (exceeds : ∀ other amount, Candidate isItemMoveable isItemAllowedIn excludedItems
        locationIfKnown entries other amount → maxCost < amount)
      (candidate : Candidate isItemMoveable isItemAllowedIn excludedItems locationIfKnown entries
        item cost)
      (cheapest : ∀ other amount, Candidate isItemMoveable isItemAllowedIn excludedItems
        locationIfKnown entries other amount → cost ≤ amount)
      (taken : FallsBack isItemMoveable excludedItems entries maxCostIfNothingSmallerButLarger
        cost) : Best (some item)
  | nothing
      (exceeds : ∀ other amount, Candidate isItemMoveable isItemAllowedIn excludedItems
        locationIfKnown entries other amount → maxCost < amount)
      (refused : ∀ item cost, Candidate isItemMoveable isItemAllowedIn excludedItems
        locationIfKnown entries item cost →
        (∀ other amount, Candidate isItemMoveable isItemAllowedIn excludedItems
          locationIfKnown entries other amount → cost ≤ amount) →
        ¬ FallsBack isItemMoveable excludedItems entries maxCostIfNothingSmallerButLarger cost) :
      Best none

variable {isItemMoveable isItemAllowedIn targetCost maxCost excludedItems locationIfKnown entries}
    {maxCostIfNothingSmallerButLarger}

omit [DecidableEq Item] in
/-- What the search knows decides whether the cheapest candidate is taken. -/
theorem Scanned.fallsBack_iff
    (scanned : Scanned isItemMoveable isItemAllowedIn targetCost maxCost excludedItems
      locationIfKnown entries found) {cost : ℚ} (positive : 0 < cost) {largest : Item}
    {largestC : ℚ} (held : found.largest = some (largest, largestC)) :
    FallsBack isItemMoveable excludedItems entries maxCostIfNothingSmallerButLarger cost ↔
      cost < maxCostIfNothingSmallerButLarger ∧ cost < largestC ∧ !found.exclusions := by
  have greatest := scanned.largest
  rw [held] at greatest
  obtain ⟨weighed, most⟩ := greatest
  refine and_congr_right' (and_congr ⟨?_, fun below => ?_⟩ ?_)
  · rintro ⟨other, amount, member, moveable, permitted, below⟩
    have atMost := most other amount ⟨member, positive.trans below, moveable, permitted⟩
    exact below.trans_le (not_lt.mp (of_decide_eq_false atMost))
  · exact ⟨largest, largestC, weighed.1, weighed.2.2.1, weighed.2.2.2, below⟩
  · rw [← scanned.exclusions, Bool.not_eq_true']
    exact Bool.eq_false_iff.symm

omit [DecidableEq Item] in
theorem Scanned.fallback_best
    (scanned : Scanned isItemMoveable isItemAllowedIn targetCost maxCost excludedItems
      locationIfKnown entries found) (unmatched : found.closestMatch = none) :
    Best isItemMoveable isItemAllowedIn targetCost maxCost excludedItems locationIfKnown entries
      maxCostIfNothingSmallerButLarger
      (Search.fallback found maxCostIfNothingSmallerButLarger) := by
  have none_within := scanned.closest
  rw [unmatched] at none_within
  have exceeds : ∀ other amount, Candidate isItemMoveable isItemAllowedIn excludedItems
      locationIfKnown entries other amount → maxCost < amount := fun other amount candidate =>
    not_le.mp fun below => none_within other _ ⟨amount, candidate, below, rfl⟩
  have smallest := scanned.smallest
  have largest := scanned.largest
  rw [Search.fallback]
  cases least : found.smallestMoveable with
  | none =>
    rw [least] at smallest
    exact .nothing exceeds fun item cost candidate => absurd candidate (smallest item cost)
  | some held =>
    obtain ⟨item, smallestC⟩ := held
    rw [least] at smallest
    obtain ⟨candidate, lowest⟩ := smallest
    cases most : found.largest with
    | none =>
      -- A candidate is weighed, so there is a largest item where there is a cheapest.
      rw [most] at largest
      exact absurd candidate.1 (largest item smallestC)
    | some held =>
      obtain ⟨other, largestC⟩ := held
      have cheapest : ∀ other amount, Candidate isItemMoveable isItemAllowedIn excludedItems
          locationIfKnown entries other amount → smallestC ≤ amount := fun other amount met =>
        not_lt.mp (of_decide_eq_false (lowest other amount met))
      have falls : FallsBack isItemMoveable excludedItems entries
          maxCostIfNothingSmallerButLarger smallestC ↔ _ :=
        scanned.fallsBack_iff candidate.1.2.1 most
      dsimp only
      split
      next taken => exact .smallest exceeds candidate cheapest (falls.mpr taken)
      next refused =>
        refine .nothing exceeds fun item cost another least => ?_
        rw [le_antisymm (least _ _ candidate) (cheapest _ _ another)]
        exact fun taken => refused (falls.mp taken)

/-- The item that is found is the best one. -/
theorem findBestItemToMove_best (costsPerItem : List (Item × Option ℚ)) :
    Best isItemMoveable isItemAllowedIn targetCost maxCost excludedItems locationIfKnown
      costsPerItem maxCostIfNothingSmallerButLarger
      (findBestItemToMove isItemMoveable isItemAllowedIn targetCost maxCost excludedItems
        locationIfKnown costsPerItem maxCostIfNothingSmallerButLarger) := by
  have scanned : Scanned isItemMoveable isItemAllowedIn targetCost maxCost excludedItems
      locationIfKnown costsPerItem _ := searchItems_scanned costsPerItem
  rw [findBestItemToMove]
  split
  next item diff matched =>
    have nearest := scanned.closest
    rw [matched] at nearest
    obtain ⟨⟨cost, candidate, within, rfl⟩, least⟩ := nearest
    refine .closest candidate within fun other amount another below => ?_
    exact not_lt.mp (of_decide_eq_false (least other _ ⟨amount, another, below, rfl⟩))
  next unmatched => exact scanned.fallback_best unmatched

end Best
end Search
end Brooklyn.BalancingStrategy
