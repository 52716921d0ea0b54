import Brooklyn.FollowTheSunModel
import Mathlib.Algebra.BigOperators.Group.List.Basic
import Mathlib.Data.List.Induction

/-!
Repeated `onItemAdded` events for one item, in both models. The container of the
last event counts, but an item that one of the events flags as immovable stays
flagged.
-/

namespace Brooklyn

structure ItemAdded (Container : Type) where
  container : Option Container
  immovable : Bool

section Flags
variable {Container Item : Type} [DecidableEq Item] (order : SetOrder Item) (item : Item)

/-- The immovable items after a sequence of events for one item. -/
def flags (immovableItems : List Item) (events : List (ItemAdded Container)) : List Item :=
  events.foldl (fun flagged event =>
    if event.immovable then order.add flagged item else flagged) immovableItems

/-- The last event flags the item, or none before it changes whether it is flagged. -/
def FlagLasts (immovableItems : List Item) (events : List (ItemAdded Container))
    (last : ItemAdded Container) : Prop :=
  last.immovable = true ∨ item ∈ immovableItems ∨ ∀ event ∈ events, event.immovable = false

theorem flags_append (immovableItems : List Item) (events later : List (ItemAdded Container)) :
    flags order item immovableItems (events ++ later) =
      flags order item (flags order item immovableItems events) later :=
  List.foldl_append

theorem flags_concat (immovableItems : List Item) (events : List (ItemAdded Container))
    (last : ItemAdded Container) :
    flags order item immovableItems (events ++ [last]) =
      if last.immovable then order.add (flags order item immovableItems events) item
      else flags order item immovableItems events :=
  flags_append order item immovableItems events [last]

theorem mem_flags (immovableItems : List Item) (events : List (ItemAdded Container)) :
    item ∈ flags order item immovableItems events ↔
      item ∈ immovableItems ∨ ∃ event ∈ events, event.immovable = true := by
  induction events using List.reverseRecOn with
  | nil => simp [flags]
  | append_singleton earlier event ih =>
      rw [flags_concat]
      split
      · next flagged =>
        simp only [SetOrder.mem_add, true_or, true_iff]
        exact Or.inr ⟨event, List.mem_append_right _ List.mem_cons_self, flagged⟩
      · next unflagged =>
        rw [ih]
        simp [or_and_right, exists_or, unflagged]

/-- The flagged items are the old ones, with the item if an event flags it. -/
theorem flags_eq (immovableItems : List Item) (events : List (ItemAdded Container)) :
    flags order item immovableItems events =
      if events.any ItemAdded.immovable then order.add immovableItems item else immovableItems := by
  induction events using List.reverseRecOn with
  | nil => rfl
  | append_singleton earlier event ih =>
      have twice : order.add (order.add immovableItems item) item =
          order.add immovableItems item :=
        order.add_of_mem ((order.mem_add _ _ _).mpr (Or.inl rfl))
      rw [flags_concat, ih, List.any_append]
      cases earlier.any ItemAdded.immovable <;> cases found : event.immovable <;>
        simp [found, twice]

theorem flags_last_of_lasts {immovableItems : List Item} {events : List (ItemAdded Container)}
    {last : ItemAdded Container} (lasts : FlagLasts item immovableItems events last) :
    flags order item immovableItems (events ++ [last]) =
      flags order item immovableItems [last] := by
  simp only [flags_eq, List.any_append, List.any_cons, List.any_nil, Bool.or_false]
  rcases lasts with flagged | known | unflagged
  · simp [flagged]
  · simp [order.add_of_mem known]
  · have none : events.any ItemAdded.immovable = false :=
      List.any_eq_false.mpr fun event member => by simp [unflagged event member]
    simp [none]

theorem lasts_of_flags {immovableItems : List Item} {events : List (ItemAdded Container)}
    {last : ItemAdded Container}
    (same : item ∈ flags order item immovableItems (events ++ [last]) →
      item ∈ flags order item immovableItems [last]) :
    FlagLasts item immovableItems events last := by
  simp only [mem_flags, List.mem_append, List.mem_singleton, exists_eq_left] at same
  by_cases found : ∃ event ∈ events, event.immovable = true
  · obtain ⟨event, member, flagged⟩ := found
    rcases same (Or.inr ⟨event, Or.inl member, flagged⟩) with known | again
    · exact Or.inr (Or.inl known)
    · exact Or.inl again
  · exact Or.inr (Or.inr fun event member =>
      Bool.eq_false_iff.mpr fun flagged => found ⟨event, member, flagged⟩)

end Flags

namespace DefaultBalanceablePoolModel
variable {Container Item : Type} [DecidableEq Container] [DecidableEq Item]

def addAll (order : SetOrder Item) (model : DefaultBalanceablePoolModel Container Item)
    (item : Item) (events : List (ItemAdded Container)) :
    DefaultBalanceablePoolModel Container Item :=
  events.foldl (fun model event =>
    model.onItemAdded order item event.container event.immovable) model

/-- Equal states, whatever the order of iteration of the sets. -/
structure SameState (model other : DefaultBalanceablePoolModel Container Item) : Prop where
  containers : model.containers.Perm other.containers
  lowThresholds : model.containerToLowThreshold = other.containerToLowThreshold
  highThresholds : model.containerToHighThreshold = other.containerToHighThreshold
  itemToContainer : model.itemToContainer = other.itemToContainer
  containerToItems : ∀ node, (model.containerToItems node).Perm (other.containerToItems node)
  itemToWorkrate : model.itemToWorkrate = other.itemToWorkrate
  immovableItems : model.immovableItems.Perm other.immovableItems
  poolLowThreshold : model.poolLowThreshold = other.poolLowThreshold
  poolHighThreshold : model.poolHighThreshold = other.poolHighThreshold
  currentPoolWorkrate : model.currentPoolWorkrate = other.currentPoolWorkrate
  totals : ∀ node, model.getTotalWorkrate node = other.getTotalWorkrate node

theorem addAll_concat (order : SetOrder Item) (model : DefaultBalanceablePoolModel Container Item)
    (item : Item) (events : List (ItemAdded Container)) (last : ItemAdded Container) :
    model.addAll order item (events ++ [last]) =
      (model.addAll order item events).onItemAdded order item last.container last.immovable := by
  rw [addAll, List.foldl_append]
  rfl

theorem addAll_frame (order : SetOrder Item) (model : DefaultBalanceablePoolModel Container Item)
    (item : Item) (events : List (ItemAdded Container)) :
    model.addAll order item events = { model with
      itemToContainer := (model.addAll order item events).itemToContainer
      containerToItems := (model.addAll order item events).containerToItems
      immovableItems := flags order item model.immovableItems events } := by
  induction events using List.reverseRecOn with
  | nil => rfl
  | append_singleton earlier event ih =>
      rw [addAll_concat, flags_concat, ih]
      unfold onItemAdded place
      split <;> rfl

theorem addAll_itemToContainer (order : SetOrder Item)
    (model : DefaultBalanceablePoolModel Container Item) (item : Item)
    (events : List (ItemAdded Container)) (last : ItemAdded Container) :
    (model.addAll order item (events ++ [last])).itemToContainer =
      Function.update model.itemToContainer item (some last.container) := by
  have added (model : DefaultBalanceablePoolModel Container Item) (event : ItemAdded Container) :
      (model.onItemAdded order item event.container event.immovable).itemToContainer =
        Function.update model.itemToContainer item (some event.container) := by
    unfold onItemAdded place
    split <;> rfl
  rw [addAll_concat, added]
  induction events using List.reverseRecOn with
  | nil => rfl
  | append_singleton earlier event ih => rw [addAll_concat, added, Function.update_idem, ih]

theorem addAll_consistent (order : SetOrder Item)
    {model : DefaultBalanceablePoolModel Container Item} (consistent : Consistent model)
    (item : Item) (events : List (ItemAdded Container)) :
    Consistent (model.addAll order item events) := by
  induction events using List.reverseRecOn with
  | nil => exact consistent
  | append_singleton earlier event ih =>
      rw [addAll_concat]
      exact onItemAdded_consistent order ih item event.container event.immovable

omit [DecidableEq Container] [DecidableEq Item] in
/-- The recorded containers determine the item sets. -/
theorem Consistent.items_perm {model other : DefaultBalanceablePoolModel Container Item}
    (consistent : Consistent model) (also : Consistent other)
    (same : model.itemToContainer = other.itemToContainer) (node : Container) :
    (model.containerToItems node).Perm (other.containerToItems node) := by
  rw [List.perm_ext_iff_of_nodup (consistent.items node) (also.items node)]
  intro item
  rw [consistent.located, also.located, same]

theorem addAll_sameState_iff (order : SetOrder Item)
    {model : DefaultBalanceablePoolModel Container Item} (consistent : Consistent model)
    (item : Item) (events : List (ItemAdded Container)) (last : ItemAdded Container) :
    SameState (model.addAll order item (events ++ [last])) (model.addAll order item [last]) ↔
      FlagLasts item model.immovableItems events last := by
  have long := addAll_frame order model item (events ++ [last])
  have short := addAll_frame order model item [last]
  constructor
  · intro same
    have immovable := same.immovableItems
    rw [long, short] at immovable
    exact lasts_of_flags order item immovable.mem_iff.mp
  · intro lasts
    have recorded : (model.addAll order item (events ++ [last])).itemToContainer =
        (model.addAll order item [last]).itemToContainer :=
      (addAll_itemToContainer order model item events last).trans
        (addAll_itemToContainer order model item [] last).symm
    have items := (addAll_consistent order consistent item (events ++ [last])).items_perm
      (addAll_consistent order consistent item [last]) recorded
    -- The totals are sums of the same weights over permuted items.
    have weights : (model.addAll order item (events ++ [last])).weight =
        (model.addAll order item [last]).weight := by
      rw [long, short]
      rfl
    exact {
      containers := by rw [long, short]
      lowThresholds := by rw [long, short]
      highThresholds := by rw [long, short]
      itemToContainer := recorded
      containerToItems := items
      itemToWorkrate := by rw [long, short]
      immovableItems := by
        rw [long, short]
        exact List.Perm.of_eq (flags_last_of_lasts order item lasts)
      poolLowThreshold := by rw [long, short]
      poolHighThreshold := by rw [long, short]
      currentPoolWorkrate := by rw [long, short]
      totals := fun node => by
        rw [getTotalWorkrate, getTotalWorkrate, weights]
        exact ((items node).map _).sum_eq }

end DefaultBalanceablePoolModel

namespace DefaultFollowTheSunModel
variable {Container Item : Type} [DecidableEq Item]

def addAll (order : SetOrder Item) (model : DefaultFollowTheSunModel Container Item)
    (item : Item) (events : List (ItemAdded Container)) :
    DefaultFollowTheSunModel Container Item :=
  events.foldl (fun model event =>
    model.onItemAdded order item event.container event.immovable) model

theorem addAll_concat (order : SetOrder Item) (model : DefaultFollowTheSunModel Container Item)
    (item : Item) (events : List (ItemAdded Container)) (last : ItemAdded Container) :
    model.addAll order item (events ++ [last]) =
      (model.addAll order item events).onItemAdded order item last.container last.immovable := by
  rw [addAll, List.foldl_append]
  rfl

/-- Placing an item again is as if it had not been placed before, also when
the immovable items change in between. -/
theorem place_place (order : SetOrder Item) (model : DefaultFollowTheSunModel Container Item)
    (item : Item) (container other : Option Container) (immovableItems : List Item) :
    { model.place order item container with immovableItems }.place order item other =
      { model with immovableItems }.place order item other := by
  simp only [place, HashedMap.put_put, Function.update_idem]
  rfl

theorem addAll_eq (order : SetOrder Item) (model : DefaultFollowTheSunModel Container Item)
    (item : Item) (events : List (ItemAdded Container)) (last : ItemAdded Container) :
    model.addAll order item (events ++ [last]) =
      { model with immovableItems := flags order item model.immovableItems (events ++ [last]) }.place
        order item last.container := by
  have added (model : DefaultFollowTheSunModel Container Item) (event : ItemAdded Container) :
      model.onItemAdded order item event.container event.immovable =
        { model with immovableItems := flags order item model.immovableItems [event] }.place
          order item event.container := by
    unfold onItemAdded
    cases found : event.immovable <;> simp [flags, found]
  -- By induction on the earlier events, each of which the next one overwrites.
  induction events using List.reverseRecOn generalizing last with
  | nil => exact added model last
  | append_singleton earlier event ih =>
      have again := added (({ model with
        immovableItems := flags order item model.immovableItems (earlier ++ [event]) }).place order
          item event.container) last
      rw [addAll_concat, ih event, again, flags_append order item _ (earlier ++ [event]) [last]]
      exact place_place order _ item event.container last.container _

theorem addAll_eq_iff (order : SetOrder Item) (model : DefaultFollowTheSunModel Container Item)
    (item : Item) (events : List (ItemAdded Container)) (last : ItemAdded Container) :
    model.addAll order item (events ++ [last]) = model.addAll order item [last] ↔
      FlagLasts item model.immovableItems events last := by
  rw [addAll_eq, ← List.nil_append [last], addAll_eq, List.nil_append]
  constructor
  · intro same
    have immovable : flags order item model.immovableItems (events ++ [last]) =
        flags order item model.immovableItems [last] :=
      congrArg DefaultFollowTheSunModel.immovableItems same
    exact lasts_of_flags order item fun member => immovable ▸ member
  · intro lasts
    rw [flags_last_of_lasts order item lasts]

end DefaultFollowTheSunModel

section BothModels
variable {Container Item : Type} [DecidableEq Container] [DecidableEq Item]

/-- In both models the events before the last one leave no trace if and only if
none of them newly flags the item, or the last one flags it too. -/
theorem itemAdded_repeats_iff (containerOrder : SetOrder Container) (order : SetOrder Item)
    (updates : List (DefaultBalanceablePoolModel.Update Container Item))
    (changes : List (DefaultFollowTheSunModel.Update Container Item)) (item : Item)
    (events : List (ItemAdded Container)) (last : ItemAdded Container) :
    let pool := DefaultBalanceablePoolModel.built containerOrder order updates
    let sun := DefaultFollowTheSunModel.built containerOrder order changes
    (DefaultBalanceablePoolModel.SameState (pool.addAll order item (events ++ [last]))
        (pool.addAll order item [last]) ↔
      FlagLasts item pool.immovableItems events last) ∧
    (sun.addAll order item (events ++ [last]) = sun.addAll order item [last] ↔
      FlagLasts item sun.immovableItems events last) :=
  ⟨DefaultBalanceablePoolModel.addAll_sameState_iff order
      (DefaultBalanceablePoolModel.built_consistent containerOrder order updates) item events last,
    DefaultFollowTheSunModel.addAll_eq_iff order _ item events last⟩

/-- An item announced as immovable and then as movable stays immovable. -/
theorem immovable_sticks :
    ¬DefaultBalanceablePoolModel.SameState
      ((DefaultBalanceablePoolModel.empty : DefaultBalanceablePoolModel Nat Nat).addAll
        (atEnd Nat) 1 [⟨some 0, true⟩, ⟨some 0, false⟩])
      (DefaultBalanceablePoolModel.empty.addAll (atEnd Nat) 1 [⟨some 0, false⟩]) ∧
    (DefaultFollowTheSunModel.empty : DefaultFollowTheSunModel Nat Nat).addAll
        (atEnd Nat) 1 [⟨some 0, true⟩, ⟨some 0, false⟩] ≠
      DefaultFollowTheSunModel.empty.addAll (atEnd Nat) 1 [⟨some 0, false⟩] := by
  constructor
  · intro same
    have immovable := same.immovableItems
    revert immovable
    decide
  · intro same
    have immovable := congrArg DefaultFollowTheSunModel.immovableItems same
    revert immovable
    decide

end BothModels
end Brooklyn
