import Brooklyn.FollowTheSunRuns

/-!
What stays in `DefaultFollowTheSunModel` of a removed item, when events and rounds
interleave: nothing, as long as no move of it is recorded. A round that has taken
its decision records the move of an item that is gone.
-/

namespace Brooklyn.FollowTheSunRuns
open DefaultFollowTheSunModel Transition

variable {Thread Container Item : Type}

/-- An item is in none of the maps of a model. -/
structure Unknown (model : DefaultFollowTheSunModel Container Item) (item : Item) : Prop where
  container : model.itemToContainer.get item = none
  location : model.itemToLocation item = none
  usage : model.itemUsage item = none
  immovable : item ∉ model.immovableItems

/-- An update that records a container for an item, known or not. -/
def Places (item : Item) : Update Container Item → Prop
  | .itemAdded other _ _ => other = item
  | .itemMoved other _ => other = item
  | _ => False

section Updates
variable [DecidableEq Container] [DecidableEq Item]
variable {containerOrder : SetOrder Container} {itemOrder : SetOrder Item}
variable {model : DefaultFollowTheSunModel Container Item} {item : Item}

omit [DecidableEq Container] in
theorem Unknown.place {other : Item} (order : SetOrder Item) (container : Option Container)
    (unknown : Unknown model item) (apart : item ≠ other) :
    Unknown (model.place order other container) item where
  container := by simp [DefaultFollowTheSunModel.place, apart, unknown.container]
  location := by simp [DefaultFollowTheSunModel.place, apart, unknown.location]
  usage := unknown.usage
  immovable := unknown.immovable

theorem Unknown.relocateContainer (order : SetOrder Container) (container : Container)
    (location : Option Location) (unknown : Unknown model item) :
    Unknown (model.relocateContainer order container location) item where
  container := unknown.container
  location := by
    have elsewhere : item ∉ model.getItemsOnContainer container := by
      rw [mem_getItemsOnContainer, getItemContainer, unknown.container]
      simp
    have kept := putLocation_apply model.itemToLocation (model.getItemsOnContainer container)
      location item
    rw [if_neg elsewhere] at kept
    exact kept.trans unknown.location
  usage := unknown.usage
  immovable := unknown.immovable

omit [DecidableEq Container] in
theorem known_of_place (order : SetOrder Item) (container : Option Container) :
    ¬Unknown (model.place order item container) item := by
  intro unknown
  have recorded := unknown.container
  simp [DefaultFollowTheSunModel.place] at recorded

theorem apply_unknown_iff (unknown : Unknown model item) (update : Update Container Item) :
    Unknown (model.apply containerOrder itemOrder update) item ↔ ¬Places item update := by
  cases update with
  | containerAdded container location =>
      exact iff_of_true (Unknown.relocateContainer containerOrder container location
        ⟨unknown.container, unknown.location, unknown.usage, unknown.immovable⟩) id
  | containerRemoved container =>
      exact iff_of_true ⟨unknown.container, unknown.location, unknown.usage, unknown.immovable⟩ id
  | containerLocationUpdated container location =>
      refine iff_of_true ?_ id
      simp only [apply, onContainerLocationUpdated]
      split
      · exact unknown.relocateContainer containerOrder container location
      · exact unknown
  | itemAdded other container immovable =>
      by_cases same : other = item
      · subst same
        exact iff_of_false (known_of_place itemOrder container) fun places => places rfl
      · have apart : item ≠ other := Ne.symm same
        refine iff_of_true (Unknown.place itemOrder container ?_ apart) same
        split
        · refine ⟨unknown.container, unknown.location, unknown.usage, fun member => ?_⟩
          rcases (itemOrder.mem_add _ _ _).mp member with equal | old
          · exact apart equal
          · exact unknown.immovable old
        · exact unknown
  | itemRemoved other =>
      refine iff_of_true ⟨?_, ?_, ?_, fun member => unknown.immovable ?_⟩ id
      · simp [apply, onItemRemoved, unknown.container]
      · simp [apply, onItemRemoved, Function.update_apply, unknown.location]
      · simp [apply, onItemRemoved, Function.update_apply, unknown.usage]
      · exact List.mem_of_mem_erase member
  | itemMoved other newContainer =>
      by_cases same : other = item
      · subst same
        exact iff_of_false (known_of_place itemOrder newContainer) fun places => places rfl
      · exact iff_of_true (unknown.place itemOrder newContainer (Ne.symm same)) same
  | itemUsageUpdated other newValue =>
      refine iff_of_true ?_ id
      simp only [apply, onItemUsageUpdated]
      split
      · next known =>
        have apart : item ≠ other := by
          rintro rfl
          simp [hasItem, HashedMap.containsKey, unknown.container] at known
        refine ⟨unknown.container, unknown.location, ?_, unknown.immovable⟩
        simp [Function.update_of_ne apart, unknown.usage]
      · exact unknown

omit [DecidableEq Container] in
theorem onItemRemoved_unknown (distinct : model.immovableItems.Nodup) :
    Unknown (model.onItemRemoved item) item where
  container := by simp [onItemRemoved]
  location := by simp [onItemRemoved]
  usage := by simp [onItemRemoved]
  immovable := fun member => (distinct.mem_erase_iff.mp member).1 rfl

theorem apply_immovable_nodup (distinct : model.immovableItems.Nodup)
    (update : Update Container Item) :
    (model.apply containerOrder itemOrder update).immovableItems.Nodup := by
  cases update with
  | itemAdded item container immovable =>
      simp only [apply, onItemAdded, DefaultFollowTheSunModel.place]
      split
      · exact itemOrder.nodup_add distinct item
      · exact distinct
  | itemRemoved item => exact distinct.erase item
  | containerLocationUpdated container location =>
      simp only [apply, onContainerLocationUpdated]
      split <;> exact distinct
  | itemUsageUpdated item newValue =>
      simp only [apply, onItemUsageUpdated]
      split <;> exact distinct
  | containerAdded | containerRemoved | itemMoved => exact distinct

end Updates

section Removal
variable [DecidableEq Thread] [DecidableEq Container] [DecidableEq Item]
variable {parameters : FollowTheSunParameters} {containerOrder : SetOrder Container}
variable {itemOrder : SetOrder Item}

/-- Every item that was removed, and not added since, is gone from the model. -/
def Absent (removed : Item → Bool) (model : DefaultFollowTheSunModel Container Item) : Prop :=
  ∀ item, removed item = true → Unknown model item

/-- No move of a removed item. -/
def spares (removed : Item → Bool) : Update Container Item → Bool
  | .itemMoved item _ => !removed item
  | _ => true

theorem apply_absent_iff {removed : Item → Bool} {model : DefaultFollowTheSunModel Container Item}
    (distinct : model.immovableItems.Nodup) (absent : Absent removed model)
    (update : Update Container Item) :
    Absent (recordRemoval removed update) (model.apply containerOrder itemOrder update) ↔
      spares removed update = true := by
  have stays (item : Item) (gone : removed item = true) :
      Unknown (model.apply containerOrder itemOrder update) item ↔ ¬Places item update :=
    apply_unknown_iff (absent item gone) update
  cases update with
  | itemMoved item newContainer =>
      simp only [spares, Bool.not_eq_true', Bool.eq_false_iff]
      constructor
      · exact fun after gone => (stays item gone).mp (after item gone) rfl
      · intro kept other gone
        refine (stays other gone).mpr ?_
        rintro rfl
        exact kept gone
  | itemAdded item container immovable =>
      refine iff_of_true (fun other gone => ?_) rfl
      by_cases same : other = item
      · simp [recordRemoval, same] at gone
      · simp only [recordRemoval, Function.update_of_ne same] at gone
        exact (stays other gone).mpr (Ne.symm same)
  | itemRemoved item =>
      refine iff_of_true (fun other gone => ?_) rfl
      by_cases same : other = item
      · subst same
        exact onItemRemoved_unknown distinct
      · simp only [recordRemoval, Function.update_of_ne same] at gone
        exact (stays other gone).mpr id
  | containerAdded | containerRemoved | containerLocationUpdated | itemUsageUpdated =>
      exact iff_of_true (fun other gone => (stays other gone).mpr id) rfl

/-- An action that records no move of a removed item. -/
def sparing (state : State Thread Container Item) (action : Action Thread Container Item) : Bool :=
  (updateOf state action).all (spares state.removed)

/-- In the states of a sparing run removed items are absent, and each next step
keeps them so exactly if it is sparing. -/
theorem removed_absent {state : State Thread Container Item}
    (run : Reached (runs parameters containerOrder itemOrder) sparing state) :
    Absent state.removed state.model ∧ ∀ action after,
      step parameters containerOrder itemOrder state action = some after →
        (Absent after.removed after.model ↔ sparing state action = true) := by
  have preserved {before after : State Thread Container Item}
      {action : Action Thread Container Item}
      (good : before.model.immovableItems.Nodup ∧ Absent before.removed before.model)
      (moved : step parameters containerOrder itemOrder before action = some after) :
      after.model.immovableItems.Nodup ∧
        (Absent after.removed after.model ↔ sparing before action = true) := by
    obtain ⟨model, removed⟩ := step_update moved
    rw [model, removed, sparing]
    cases updateOf before action with
    | none => exact ⟨good.1, iff_of_true good.2 rfl⟩
    | some update =>
        exact ⟨apply_immovable_nodup good.1 update, apply_absent_iff good.1 good.2 update⟩
  have good : state.model.immovableItems.Nodup ∧ Absent state.removed state.model := by
    refine reached_invariant (fun state => state.model.immovableItems.Nodup ∧
      Absent state.removed state.model) ⟨List.nodup_nil, fun item gone => by cases gone⟩ ?_ run
    intro before action after _ good allowed moved
    obtain ⟨distinct, equivalent⟩ := preserved good moved
    exact ⟨distinct, equivalent.mpr allowed⟩
  exact ⟨good.2, fun action after moved => (preserved good moved).2⟩

end Removal

section Resurrection

def rate (item : Fin 2) (value : ℚ) : LinkedMap (Fin 2) ℚ := LinkedMap.empty.put item value

abbrev oneThread : System (State Unit Bool (Fin 2)) (Action Unit Bool (Fin 2)) :=
  runs .newDefault (atEnd Bool) (atEnd (Fin 2))

/-- The item in one location is used from the source in the other, and a round
decides to move it there. -/
def decides (item source : Fin 2) : List (Action Unit Bool (Fin 2)) :=
  [.event (.containerAdded false (some ⟨"london"⟩)), .event (.containerAdded true (some ⟨"tokyo"⟩)),
    .event (.itemAdded item (some false) false), .event (.itemAdded source (some true) false),
    .event (.itemUsageUpdated item (rate source 10)),
    .strategy () .proceed, .strategy () (.fetch (some item)), .strategy () (.fetch (some source)),
    .strategy () .proceed, .strategy () .proceed, .strategy () .proceed, .strategy () .proceed,
    .strategy () .proceed, .strategy () (.move true)]

theorem removed_absent_midround :
    ∃ state : State Unit Bool (Fin 2), state.removed 0 = true ∧
      Absent state.removed state.model ∧ ∀ action after,
        step .newDefault (atEnd Bool) (atEnd (Fin 2)) state action = some after →
          (Absent after.removed after.model ↔ sparing state action = true) := by
  obtain ⟨state, reached, gone⟩ := replay_shows oneThread sparing
    (decides 0 1 ++ [.event (.itemRemoved 0)]) (fun state => state.removed 0) (by decide +kernel)
  exact ⟨state, gone, removed_absent reached⟩

/-- The removal comes before the move is recorded. -/
theorem removed_item_returns :
    ∃ state, Reached oneThread anyStep state ∧ ¬Absent state.removed state.model := by
  obtain ⟨state, reached, shown⟩ := replay_shows oneThread anyStep
    (decides 0 1 ++ [.event (.itemRemoved 0), .strategy () .proceed])
    (fun state => state.removed 0 && (state.model.itemToContainer.get 0).isSome)
    (by decide +kernel)
  obtain ⟨gone, known⟩ := Bool.and_eq_true_iff.mp shown
  refine ⟨state, reached, fun absent => ?_⟩
  rw [(absent 0 gone).container] at known
  cases known

end Resurrection
end Brooklyn.FollowTheSunRuns
