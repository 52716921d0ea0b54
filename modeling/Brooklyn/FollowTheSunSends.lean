import Brooklyn.FollowTheSunRounds
import Mathlib.Algebra.BigOperators.Group.List.Basic
import Mathlib.Algebra.Order.BigOperators.Group.List

/-!
The usage by location that a round starts from, as sums over the sources of an
item. Sources with a rate of zero do not count, and the sources that do count
matter only through where they are.
-/

namespace Brooklyn.DefaultFollowTheSunModel
variable {Container Item : Type} [DecidableEq Item]

def sources (model : DefaultFollowTheSunModel Container Item) (item : Item) : List (Item × ℚ) :=
  ((model.itemUsage item).map LinkedMap.entries).getD []

/-- What a source sends to an item from a location. -/
def contribution (model : DefaultFollowTheSunModel Container Item) (item : Item)
    (location : Location) (source : Item × ℚ) : ℚ :=
  if source.1 ≠ item ∧ model.getItemLocation source.1 = some location then source.2 else 0

def rateFrom (model : DefaultFollowTheSunModel Container Item) (item : Item)
    (location : Location) : ℚ :=
  ((model.sources item).map (model.contribution item location)).sum

/-- A source that counts adds to the entry of its location. -/
theorem addUsage_get (model : DefaultFollowTheSunModel Container Item) (item : Item)
    (sends : LinkedMap Location ℚ) (source : Item × ℚ) (location : Location) :
    (model.addUsage item sends source).get location =
      if source.1 ≠ item ∧ model.getItemLocation source.1 = some location then
        some ((sends.get location).getD 0 + source.2)
      else sends.get location := by
  unfold addUsage
  cases known : model.getItemLocation source.1 with
  | none => simp
  | some sourceLocation =>
      by_cases self : source.1 = item
      · simp [self]
      · by_cases same : location = sourceLocation
        · simp [self, same]
        · simp [self, same, Ne.symm same]

theorem get_addUsage (model : DefaultFollowTheSunModel Container Item) (item : Item)
    (sends : LinkedMap Location ℚ) (source : Item × ℚ) (location : Location) :
    ((model.addUsage item sends source).get location).getD 0 =
      (sends.get location).getD 0 + model.contribution item location source := by
  rw [addUsage_get, contribution]
  split
  · rfl
  · rw [add_zero]

theorem get_foldl_addUsage (model : DefaultFollowTheSunModel Container Item) (item : Item)
    (sends : LinkedMap Location ℚ) (sources : List (Item × ℚ)) (location : Location) :
    ((sources.foldl (model.addUsage item) sends).get location).getD 0 =
      (sends.get location).getD 0 + (sources.map (model.contribution item location)).sum := by
  induction sources generalizing sends with
  | nil => simp
  | cons source rest ih =>
      rw [List.foldl_cons, ih, get_addUsage, List.map_cons, List.sum_cons, add_assoc]

/-- A location has an entry once a source that counts is there. -/
theorem isSome_addUsage (model : DefaultFollowTheSunModel Container Item) (item : Item)
    (sends : LinkedMap Location ℚ) (source : Item × ℚ) (location : Location) :
    ((model.addUsage item sends source).get location).isSome ↔
      (sends.get location).isSome ∨
        (source.1 ≠ item ∧ model.getItemLocation source.1 = some location) := by
  rw [addUsage_get]
  split
  · next counts => exact iff_of_true rfl (Or.inr counts)
  · next silent => rw [or_iff_left silent]

theorem isSome_foldl_addUsage (model : DefaultFollowTheSunModel Container Item) (item : Item)
    (sends : LinkedMap Location ℚ) (sources : List (Item × ℚ)) (location : Location) :
    ((sources.foldl (model.addUsage item) sends).get location).isSome ↔
      (sends.get location).isSome ∨ ∃ source ∈ sources,
        source.1 ≠ item ∧ model.getItemLocation source.1 = some location := by
  induction sources generalizing sends with
  | nil => simp
  | cons source rest ih =>
      rw [List.foldl_cons, ih, isSome_addUsage, or_assoc]
      simp only [List.mem_cons, exists_eq_or_imp]

theorem get_sendsTo (model : DefaultFollowTheSunModel Container Item) (item : Item)
    (location : Location) :
    ((model.sendsTo item).get location).getD 0 = model.rateFrom item location := by
  unfold sendsTo getDirectSendsToItemByLocation rateFrom sources
  cases model.itemUsage item with
  | none => rfl
  | some used =>
      cases empty : used.entries.isEmpty with
      | true => simp [List.isEmpty_iff.mp empty]
      | false => simpa [empty] using get_foldl_addUsage model item .empty used.entries location

theorem currentRate_sendsTo (model : DefaultFollowTheSunModel Container Item) (item : Item)
    (activeLocation : Option Location) :
    currentRate (model.sendsTo item) activeLocation =
      (activeLocation.map (model.rateFrom item)).getD 0 := by
  cases activeLocation with
  | none => rfl
  | some location => exact get_sendsTo model item location

/-- The sources that count stay where they are: so do the rates. -/
theorem rateFrom_congr {model after : DefaultFollowTheSunModel Container Item} {item : Item}
    (usage : after.itemUsage = model.itemUsage)
    (stay : ∀ source ∈ model.sources item, source.2 ≠ 0 → source.1 ≠ item →
      after.getItemLocation source.1 = model.getItemLocation source.1) :
    after.rateFrom item = model.rateFrom item := by
  funext location
  have listed : after.sources item = model.sources item := by rw [sources, usage, sources]
  rw [rateFrom, rateFrom, listed]
  refine congrArg List.sum (List.map_congr_left fun source member => ?_)
  by_cases silent : source.2 = 0
  · simp [contribution, silent]
  · by_cases self : source.1 = item
    · simp [contribution, self]
    · rw [contribution, contribution, stay source member silent self]

end Brooklyn.DefaultFollowTheSunModel
