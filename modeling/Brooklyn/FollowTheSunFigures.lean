import Brooklyn.FollowTheSunSends

/-!
The usage maps of `DefaultFollowTheSunModel` as they are recorded: a figure in them may be null.
`model` holds all but the usage. `getDirectSendsToItemByLocation` means to count a null figure as
zero, but tests the map for null in the place of the figure, and unboxing the figure throws.
Where it does not throw it computes what the model without null figures does.
-/

namespace Brooklyn

structure UsageFigures (Container Item : Type) where
  model : DefaultFollowTheSunModel Container Item
  itemUsage : HashedMap Item (LinkedMap Item (Option ℚ))

inductive FigureFault where
  | nullPointer
deriving DecidableEq

namespace UsageFigures
open DefaultFollowTheSunModel
variable {Container Item : Type}

section Operations
variable [DecidableEq Item]

/-- One source of a target. The figure is unboxed before it is known to count. -/
def addFigure (state : UsageFigures Container Item) (targetItem : Item)
    (targetUsageByLocation : LinkedMap Location ℚ) (entry2 : Item × Option ℚ) :
    Except FigureFault (LinkedMap Location ℚ) :=
  match entry2.2 with
  | none => .error .nullPointer
  | some usageVal =>
      .ok (state.model.addUsage targetItem targetUsageByLocation (entry2.1, usageVal))

def addTarget (state : UsageFigures Container Item)
    (result : LinkedMap Item (LinkedMap Location ℚ)) (targetItem : Item) :
    Except FigureFault (LinkedMap Item (LinkedMap Location ℚ)) :=
  match state.itemUsage.get targetItem with
  | none => .ok result
  | some sources =>
      if sources.entries.isEmpty then .ok result
      else (sources.entries.foldlM (state.addFigure targetItem) .empty).map (result.put targetItem)

def getDirectSendsToItemByLocation (state : UsageFigures Container Item) :
    Except FigureFault (LinkedMap Item (LinkedMap Location ℚ)) :=
  state.itemUsage.keys.foldlM state.addTarget .empty

variable [DecidableEq Container]

inductive Update (Container Item : Type) where
  | containerAdded (container : Container) (location : Option Location)
  | containerRemoved (container : Container)
  | containerLocationUpdated (container : Container) (location : Option Location)
  | itemAdded (item : Item) (container : Option Container) (immovable : Bool)
  | itemRemoved (item : Item)
  | itemMoved (item : Item) (newContainer : Option Container)
  | itemUsageUpdated (item : Item) (newValue : LinkedMap Item (Option ℚ))

def empty : UsageFigures Container Item := ⟨.empty, .empty⟩

def onItemRemoved (state : UsageFigures Container Item) (item : Item) :
    UsageFigures Container Item :=
  { model := state.model.onItemRemoved item, itemUsage := state.itemUsage.remove item }

def onItemUsageUpdated (order : SetOrder Item) (state : UsageFigures Container Item) (item : Item)
    (newValue : LinkedMap Item (Option ℚ)) : UsageFigures Container Item :=
  if state.model.hasItem item then
    { state with itemUsage := state.itemUsage.put order item newValue }
  else state

def apply (containerOrder : SetOrder Container) (itemOrder : SetOrder Item)
    (state : UsageFigures Container Item) :
    Update Container Item → UsageFigures Container Item
  | .containerAdded container location =>
      { state with model := state.model.onContainerAdded containerOrder container location }
  | .containerRemoved container =>
      { state with model := state.model.onContainerRemoved container }
  | .containerLocationUpdated container location =>
      { state with
        model := state.model.onContainerLocationUpdated containerOrder container location }
  | .itemAdded item container immovable =>
      { state with model := state.model.onItemAdded itemOrder item container immovable }
  | .itemRemoved item => state.onItemRemoved item
  | .itemMoved item newContainer =>
      { state with model := state.model.onItemMoved itemOrder item newContainer }
  | .itemUsageUpdated item newValue => state.onItemUsageUpdated itemOrder item newValue

def built (containerOrder : SetOrder Container) (itemOrder : SetOrder Item)
    (updates : List (Update Container Item)) : UsageFigures Container Item :=
  updates.foldl (apply containerOrder itemOrder) empty

end Operations

section Sums
variable [DecidableEq Item]

def sources (state : UsageFigures Container Item) (target : Item) : List (Item × Option ℚ) :=
  ((state.itemUsage.get target).map LinkedMap.entries).getD []

/-- The source is another item than the target, and known to be at the location. -/
def Counts (state : UsageFigures Container Item) (target : Item) (location : Location)
    (source : Item) : Prop :=
  source ≠ target ∧ state.model.getItemLocation source = some location

instance (state : UsageFigures Container Item) (target : Item) (location : Location)
    (source : Item) : Decidable (state.Counts target location source) :=
  inferInstanceAs (Decidable (_ ∧ _))

/-- The sum of what the sources at a location send to a target, a null figure being zero. -/
def usageFrom (state : UsageFigures Container Item) (target : Item) (location : Location) : ℚ :=
  ((state.sources target).map fun entry =>
    if state.Counts target location entry.1 then entry.2.getD 0 else 0).sum

def RightSums (state : UsageFigures Container Item)
    (result : LinkedMap Item (LinkedMap Location ℚ)) : Prop :=
  ∀ target location total, (result.get target).bind (·.get location) = some total ↔
    (∃ entry ∈ state.sources target, state.Counts target location entry.1) ∧
      total = state.usageFrom target location

/-- No usage map that is recorded has a null figure. -/
def AllFigures (state : UsageFigures Container Item) : Prop :=
  ∀ target, ∀ entry ∈ state.sources target, entry.2 ≠ none

end Sums

section Reading

/-- The model without null figures: they are read as zero. -/
def readZero (state : UsageFigures Container Item) : DefaultFollowTheSunModel Container Item :=
  { state.model with
    itemUsage := fun item =>
      (state.itemUsage.get item).map (LinkedMap.mapValues fun figure => figure.getD 0) }

variable {state : UsageFigures Container Item}

theorem itemUsage_readZero (state : UsageFigures Container Item) (target : Item) :
    state.readZero.itemUsage target =
      (state.itemUsage.get target).map (LinkedMap.mapValues fun figure => figure.getD 0) := rfl

theorem sources_readZero (state : UsageFigures Container Item) (target : Item) :
    state.readZero.sources target =
      (state.sources target).map fun entry => (entry.1, entry.2.getD 0) := by
  rw [DefaultFollowTheSunModel.sources, itemUsage_readZero, sources]
  cases state.itemUsage.get target with
  | none => rfl
  | some recorded => exact LinkedMap.entries_mapValues _ recorded

variable [DecidableEq Item]

theorem directSends_readZero (state : UsageFigures Container Item) (target : Item) :
    state.readZero.getDirectSendsToItemByLocation target =
      (state.itemUsage.get target).bind fun figures =>
        if figures.entries.isEmpty then none
        else some ((figures.entries.map fun entry => (entry.1, entry.2.getD 0)).foldl
          (state.readZero.addUsage target) .empty) := by
  rw [DefaultFollowTheSunModel.getDirectSendsToItemByLocation, itemUsage_readZero]
  cases state.itemUsage.get target with
  | none => rfl
  | some figures =>
    simp only [Option.map_some, LinkedMap.entries_mapValues, List.isEmpty_map, Option.bind_some]

theorem usageFrom_readZero (state : UsageFigures Container Item) (target : Item)
    (location : Location) :
    state.usageFrom target location = state.readZero.rateFrom target location := by
  rw [usageFrom, rateFrom, sources_readZero, List.map_map]
  rfl

theorem addFigures_ok {target : Item} {entries : List (Item × Option ℚ)}
    (complete : ∀ entry ∈ entries, entry.2 ≠ none) (sends : LinkedMap Location ℚ) :
    entries.foldlM (state.addFigure target) sends =
      .ok ((entries.map fun entry => (entry.1, entry.2.getD 0)).foldl
        (state.readZero.addUsage target) sends) := by
  induction entries generalizing sends with
  | nil => rfl
  | cons entry rest ih =>
    obtain ⟨source, figure⟩ := entry
    cases figure with
    | none => exact absurd rfl (complete (source, none) List.mem_cons_self)
    | some usageVal =>
      exact ih (fun other member => complete other (List.mem_cons_of_mem _ member)) _

theorem addFigures_null {target : Item} {entries : List (Item × Option ℚ)}
    {entry : Item × Option ℚ} (member : entry ∈ entries) (null : entry.2 = none)
    (sends : LinkedMap Location ℚ) :
    entries.foldlM (state.addFigure target) sends = .error .nullPointer := by
  induction entries generalizing sends with
  | nil => cases member
  | cons first rest ih =>
    obtain ⟨source, figure⟩ := first
    cases figure with
    | none => rfl
    | some usageVal =>
      rcases List.mem_cons.mp member with rfl | later
      · cases null
      · exact ih later _

theorem addTarget_ok {target : Item} (complete : ∀ entry ∈ state.sources target, entry.2 ≠ none)
    (result : LinkedMap Item (LinkedMap Location ℚ)) :
    ∃ next, state.addTarget result target = .ok next ∧ ∀ other, next.get other =
      if other = target then
        (state.readZero.getDirectSendsToItemByLocation target).or (result.get target)
      else result.get other := by
  rw [directSends_readZero]
  unfold addTarget
  unfold sources at complete
  cases recorded : state.itemUsage.get target with
  | none =>
    refine ⟨result, rfl, fun other => ?_⟩
    by_cases same : other = target <;> simp [same]
  | some figures =>
    simp only [recorded, Option.map_some, Option.getD_some] at complete
    cases unused : figures.entries.isEmpty with
    | true =>
      -- A target without figures gets no entry.
      refine ⟨result, by simp only [unused, if_true], fun other => ?_⟩
      simp only [Option.bind_some, unused, if_true, Option.none_or]
      split
      · next same => rw [same]
      · rfl
    | false =>
      simp only [unused, Bool.false_eq_true, if_false, addFigures_ok complete]
      refine ⟨_, rfl, fun other => ?_⟩
      simp only [LinkedMap.get_put, Option.bind_some, unused, Bool.false_eq_true, if_false,
        Option.some_or]

theorem addTarget_null {target : Item} {entry : Item × Option ℚ}
    (member : entry ∈ state.sources target) (null : entry.2 = none)
    (result : LinkedMap Item (LinkedMap Location ℚ)) :
    state.addTarget result target = .error .nullPointer := by
  unfold sources at member
  unfold addTarget
  cases recorded : state.itemUsage.get target with
  | none =>
    rw [recorded] at member
    cases member
  | some figures =>
    simp only [recorded, Option.map_some, Option.getD_some] at member
    have some : figures.entries.isEmpty = false :=
      List.isEmpty_eq_false_iff.mpr (List.ne_nil_of_mem member)
    simp only [some, Bool.false_eq_true, if_false, addFigures_null member null]
    rfl

theorem addTargets_ok {targets : List Item}
    (complete : ∀ target ∈ targets, ∀ entry ∈ state.sources target, entry.2 ≠ none)
    (result : LinkedMap Item (LinkedMap Location ℚ)) :
    ∃ last, targets.foldlM state.addTarget result = .ok last ∧ ∀ target, last.get target =
      if target ∈ targets then
        (state.readZero.getDirectSendsToItemByLocation target).or (result.get target)
      else result.get target := by
  induction targets generalizing result with
  | nil => exact ⟨result, rfl, fun _ => rfl⟩
  | cons first rest ih =>
    obtain ⟨next, added, found⟩ := addTarget_ok (complete first List.mem_cons_self) result
    obtain ⟨last, run, ended⟩ :=
      ih (fun target member => complete target (List.mem_cons_of_mem _ member)) next
    refine ⟨last, by rw [List.foldlM_cons, added]; exact run, fun target => ?_⟩
    rw [ended target, found target]
    by_cases same : target = first
    · subst same
      cases state.readZero.getDirectSendsToItemByLocation target <;> simp
    · simp [same]

theorem addTargets_null {targets : List Item} {target : Item} {entry : Item × Option ℚ}
    (listed : target ∈ targets) (member : entry ∈ state.sources target) (null : entry.2 = none)
    (result : LinkedMap Item (LinkedMap Location ℚ)) :
    targets.foldlM state.addTarget result = .error .nullPointer := by
  induction targets generalizing result with
  | nil => cases listed
  | cons first rest ih =>
    rw [List.foldlM_cons]
    cases added : state.addTarget result first with
    | error fault =>
      cases fault
      rfl
    | ok next =>
      rcases List.mem_cons.mp listed with rfl | later
      · rw [addTarget_null member null] at added
        cases added
      · exact ih later next

/-- Without null figures the call returns what the model without null figures does. -/
theorem sends_readZero (complete : state.AllFigures) :
    ∃ result, state.getDirectSendsToItemByLocation = .ok result ∧
      result.get = state.readZero.getDirectSendsToItemByLocation := by
  obtain ⟨result, run, found⟩ :=
    addTargets_ok (fun target (_ : target ∈ state.itemUsage.keys) => complete target) .empty
  refine ⟨result, run, funext fun target => ?_⟩
  rw [found target]
  split
  · exact Option.or_none
  · next absent =>
    have unused : state.itemUsage.get target = none := by
      rw [state.itemUsage.defined] at absent
      simpa using absent
    rw [directSends_readZero, unused]
    rfl

/-- An entry is there when a source counts, and it is the sum over the sources. -/
theorem readZero_right {result : LinkedMap Item (LinkedMap Location ℚ)}
    (same : result.get = state.readZero.getDirectSendsToItemByLocation) :
    state.RightSums result := by
  intro target location total
  have summed : ((result.get target).bind (·.get location)).getD 0 =
      state.usageFrom target location := by
    rw [usageFrom_readZero, ← get_sendsTo, sendsTo, same]
    cases state.readZero.getDirectSendsToItemByLocation target <;> rfl
  have present : ((result.get target).bind (·.get location)).isSome ↔
      ∃ entry ∈ state.sources target, state.Counts target location entry.1 := by
    rw [same, directSends_readZero, sources]
    cases state.itemUsage.get target with
    | none => simp
    | some figures =>
      cases unused : figures.entries with
      | nil => simp [unused]
      | cons first rest =>
        rw [Option.bind_some, unused, List.isEmpty_cons, if_neg Bool.false_ne_true,
          Option.bind_some, isSome_foldl_addUsage]
        simp only [LinkedMap.get_empty, Option.isSome_none, Bool.false_eq_true, false_or,
          List.mem_map, Option.map_some, Option.getD_some, unused, Counts]
        constructor
        · rintro ⟨_, ⟨entry, member, rfl⟩, counts⟩
          exact ⟨entry, member, counts⟩
        · rintro ⟨entry, member, counts⟩
          exact ⟨_, ⟨entry, member, rfl⟩, counts⟩
  rw [← present, ← summed]
  cases (result.get target).bind (·.get location) <;> simp [eq_comm]

theorem readZero_update (order : SetOrder Item) (state : UsageFigures Container Item) (item : Item)
    (newValue : LinkedMap Item (Option ℚ)) :
    (state.onItemUsageUpdated order item newValue).readZero =
      state.readZero.onItemUsageUpdated item
        (newValue.mapValues fun figure => figure.getD 0) := by
  have known : state.readZero.hasItem item = state.model.hasItem item := rfl
  unfold onItemUsageUpdated DefaultFollowTheSunModel.onItemUsageUpdated
  rw [known]
  split
  · simp only [readZero, HashedMap.get_put]
    refine congrArg (fun usage => ({ state.model with itemUsage := usage } :
      DefaultFollowTheSunModel Container Item)) (funext fun other => ?_)
    by_cases same : other = item <;> simp [same]
  · rfl

theorem readZero_removed (state : UsageFigures Container Item) (item : Item) :
    (state.onItemRemoved item).readZero = state.readZero.onItemRemoved item := by
  simp only [readZero, onItemRemoved, DefaultFollowTheSunModel.onItemRemoved, HashedMap.get_remove]
  congr 1
  funext other
  by_cases same : other = item <;> simp [same]

end Reading

section Reached
variable [DecidableEq Container] [DecidableEq Item]

def Update.readZero : Update Container Item → DefaultFollowTheSunModel.Update Container Item
  | .containerAdded container location => .containerAdded container location
  | .containerRemoved container => .containerRemoved container
  | .containerLocationUpdated container location => .containerLocationUpdated container location
  | .itemAdded item container immovable => .itemAdded item container immovable
  | .itemRemoved item => .itemRemoved item
  | .itemMoved item newContainer => .itemMoved item newContainer
  | .itemUsageUpdated item newValue =>
      .itemUsageUpdated item (newValue.mapValues fun figure => figure.getD 0)

/-- Reading null as zero commutes with every update. -/
theorem readZero_apply (containerOrder : SetOrder Container) (itemOrder : SetOrder Item)
    (state : UsageFigures Container Item) (update : Update Container Item) :
    (state.apply containerOrder itemOrder update).readZero =
      state.readZero.apply containerOrder itemOrder update.readZero := by
  cases update with
  | containerAdded container location => rfl
  | containerRemoved container => rfl
  | containerLocationUpdated container location =>
    simp only [apply, Update.readZero, DefaultFollowTheSunModel.apply, onContainerLocationUpdated,
      readZero]
    by_cases known : container ∈ state.model.containers
    · simp only [known, if_true]
      rfl
    · simp only [known, if_false]
  | itemAdded item container immovable => cases immovable <;> rfl
  | itemRemoved item => exact readZero_removed state item
  | itemMoved item newContainer => rfl
  | itemUsageUpdated item newValue => exact readZero_update itemOrder state item newValue

theorem readZero_built (containerOrder : SetOrder Container) (itemOrder : SetOrder Item)
    (updates : List (Update Container Item)) :
    (built containerOrder itemOrder updates).readZero =
      DefaultFollowTheSunModel.built containerOrder itemOrder (updates.map Update.readZero) := by
  induction updates using List.reverseRecOn with
  | nil => rfl
  | append_singleton updates update ih =>
    simp only [built, DefaultFollowTheSunModel.built, List.map_append, List.map_cons, List.map_nil,
      List.foldl_append, List.foldl_cons, List.foldl_nil] at ih ⊢
    rw [readZero_apply, ih]

theorem direct_sends_right_iff (containerOrder : SetOrder Container) (itemOrder : SetOrder Item)
    (updates : List (Update Container Item)) :
    let state := built containerOrder itemOrder updates
    (∃ result, state.getDirectSendsToItemByLocation = .ok result ∧ state.RightSums result) ↔
      state.AllFigures := by
  intro state
  constructor
  · rintro ⟨result, run, _⟩ target entry member null
    -- The loop comes to the target, or has thrown before.
    have listed : target ∈ state.itemUsage.keys := by
      rw [state.itemUsage.defined]
      unfold sources at member
      cases recorded : state.itemUsage.get target with
      | none =>
        rw [recorded] at member
        cases member
      | some figures => rfl
    rw [getDirectSendsToItemByLocation, addTargets_null listed member null] at run
    cases run
  · intro complete
    obtain ⟨result, run, same⟩ := sends_readZero complete
    exact ⟨result, run, readZero_right same⟩

/-- Item 0 is used by item 1, at a rate that is not known. -/
theorem null_figure_throws :
    let state := built (atEnd Bool) (atEnd (Fin 2))
      [.containerAdded true (some ⟨"tokyo"⟩), .itemAdded 0 none false, .itemAdded 1 (some true) false,
        .itemUsageUpdated 0 (LinkedMap.empty.put 1 none)]
    state.getDirectSendsToItemByLocation = .error .nullPointer ∧
    ¬ ∃ result, state.getDirectSendsToItemByLocation = .ok result ∧ state.RightSums result := by
  intro state
  have throws : state.getDirectSendsToItemByLocation = .error .nullPointer := rfl
  refine ⟨throws, ?_⟩
  rintro ⟨result, run, _⟩
  rw [throws] at run
  cases run

end Reached
end UsageFigures
end Brooklyn
