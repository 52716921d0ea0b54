import Brooklyn.FollowTheSunStrategy
import Brooklyn.Transition

/-!
`FollowTheSunStrategy.rebalance` among the events of `FollowTheSunPolicy`. Every
operation of the model is atomic. A round reads the usage by location once, and
then visits the items one by one while events change the model; the iterator over
the live key set has already fetched the item it visits next, and which one it
fetches is up to the map. After a suspend and a resume two executors may be in a
round, so there are any number of threads.

`removed` is a ghost: the items whose removal ran, and that were not added since.
-/

namespace Brooklyn.FollowTheSunRuns
open DefaultFollowTheSunModel Transition

variable {Thread Container Item : Type}

structure Visit (Item : Type) where
  directSends : Item → Option (LinkedMap Location ℚ)
  following : Option Item
  item : Item

def Visit.sendsByLocation (visit : Visit Item) : LinkedMap Location ℚ :=
  (visit.directSends visit.item).getD .empty

inductive Phase (Container Item : Type) where
  | idle
  | snapshot (directSends : Item → Option (LinkedMap Location ℚ))
  | iterating (directSends : Item → Option (LinkedMap Location ℚ)) (upcoming : Option Item)
  | visiting (visit : Visit Item)
  | located (visit : Visit Item) (activeLocation : Option Location)
  | placed (visit : Visit Item) (activeLocation : Option Location)
      (activeContainer : Option Container)
  | searching (visit : Visit Item) (activeLocation : Option Location)
      (activeContainer : Option Container) (locationsWtd : List (WeightedObject Location))
  | comparing (visit : Visit Item) (activeLocation : Option Location)
      (activeContainer : Option Container) (optimalContainerInHighest : Container)
      (highestMsgRate : ℚ) (locationsWtd : List (WeightedObject Location))
  | moving (visit : Visit Item) (container : Container)
  | recording (visit : Visit Item) (container : Container)

/-- What a thread does next: go on, fetch the next item, or see a move return or throw. -/
inductive Choice (Item : Type) where
  | proceed
  | fetch (following : Option Item)
  | move (succeeds : Bool)

inductive Action (Thread Container Item : Type) where
  | event (update : Update Container Item)
  | strategy (thread : Thread) (choice : Choice Item)

structure State (Thread Container Item : Type) where
  model : DefaultFollowTheSunModel Container Item
  removed : Item → Bool
  phase : Thread → Phase Container Item

def Phase.next (visit : Visit Item) : Phase Container Item :=
  .iterating visit.directSends visit.following

section Steps
variable [DecidableEq Thread] [DecidableEq Container] [DecidableEq Item]
variable (parameters : FollowTheSunParameters) (containerOrder : SetOrder Container)
variable (itemOrder : SetOrder Item)

/-- Both locations are known, as far as they are there: move, or leave the item. -/
def Phase.decided (visit : Visit Item) (activeLocation : Option Location)
    (activeContainer : Option Container) (optimalContainerInHighest : Container)
    (highestMsgRate : ℚ) (nextHighest : Option ℚ) : Phase Container Item :=
  match migration parameters visit.sendsByLocation activeLocation activeContainer
      optimalContainerInHighest highestMsgRate nextHighest with
  | some container => .moving visit container
  | none => .next visit

def fetched (model : DefaultFollowTheSunModel Container Item) (following : Option Item) : Bool :=
  following.all fun item => decide (item ∈ model.getItems)

/-- One step of a round. Only the last one of a visit changes the model. -/
def advance (model : DefaultFollowTheSunModel Container Item) :
    Phase Container Item → Choice Item →
      Option (DefaultFollowTheSunModel Container Item × Phase Container Item)
  | .idle, .proceed => some (model, .snapshot model.getDirectSendsToItemByLocation)
  | .snapshot directSends, .fetch first =>
      if fetched model first then some (model, .iterating directSends first) else none
  | .iterating _ none, .proceed => some (model, .idle)
  | .iterating directSends (some item), .fetch following =>
      if fetched model following then some (model, .visiting ⟨directSends, following, item⟩)
      else none
  | .visiting visit, .proceed => some (model, .located visit (model.getItemLocation visit.item))
  | .located visit activeLocation, .proceed =>
      some (model, .placed visit activeLocation (model.getItemContainer visit.item))
  | .placed visit activeLocation activeContainer, .proceed =>
      if model.isConsidered parameters visit.item activeLocation then
        some (model, .searching visit activeLocation activeContainer
          (locationsWtd visit.sendsByLocation (currentRate visit.sendsByLocation activeLocation)))
      else some (model, .next visit)
  | .searching visit _ _ [], .proceed => some (model, .next visit)
  | .searching visit activeLocation activeContainer (weightedObject :: rest), .proceed =>
      match findOptimal (model.getAvailableContainersFor visit.item weightedObject.object) with
      | some container => some (model, .comparing visit activeLocation activeContainer container
          weightedObject.weight rest)
      | none => some (model, .searching visit activeLocation activeContainer rest)
  | .comparing visit activeLocation activeContainer container rate [], .proceed =>
      some (model, .decided parameters visit activeLocation activeContainer container rate none)
  | .comparing visit activeLocation activeContainer container rate (weightedObject :: rest),
      .proceed =>
      match findOptimal (model.getAvailableContainersFor visit.item weightedObject.object) with
      | some _ => some (model, .decided parameters visit activeLocation activeContainer container
          rate (some weightedObject.weight))
      | none => some (model, .comparing visit activeLocation activeContainer container rate rest)
  | .moving visit container, .move succeeds =>
      some (model, if succeeds then .recording visit container else .next visit)
  | .recording visit container, .proceed =>
      some (model.onItemMoved itemOrder visit.item (some container), .next visit)
  | _, _ => none

def recordRemoval (removed : Item → Bool) : Update Container Item → Item → Bool
  | .itemRemoved item => Function.update removed item true
  | .itemAdded item _ _ => Function.update removed item false
  | _ => removed

def step (state : State Thread Container Item) :
    Action Thread Container Item → Option (State Thread Container Item)
  | .event update => some { state with
      model := state.model.apply containerOrder itemOrder update
      removed := recordRemoval state.removed update }
  | .strategy thread choice =>
      (advance parameters itemOrder state.model (state.phase thread) choice).map fun next =>
        { state with
          model := next.1
          phase := Function.update state.phase thread next.2 }

def runs : System (State Thread Container Item) (Action Thread Container Item) where
  initial := ⟨.empty, fun _ => false, fun _ => .idle⟩
  step := step parameters containerOrder itemOrder

end Steps

section Updates
variable [DecidableEq Thread] [DecidableEq Container] [DecidableEq Item]
variable {parameters : FollowTheSunParameters} {containerOrder : SetOrder Container}
variable {itemOrder : SetOrder Item}

/-- The move that a thread records when it goes on. -/
def Phase.record : Phase Container Item → Choice Item → Option (Update Container Item)
  | .recording visit container, .proceed => some (.itemMoved visit.item (some container))
  | _, _ => none

/-- The update of the model that an action makes. -/
def updateOf (state : State Thread Container Item) :
    Action Thread Container Item → Option (Update Container Item)
  | .event update => some update
  | .strategy thread choice => (state.phase thread).record choice

theorem advance_model {model : DefaultFollowTheSunModel Container Item}
    {phase : Phase Container Item} {choice : Choice Item}
    {next : DefaultFollowTheSunModel Container Item × Phase Container Item}
    (advanced : advance parameters itemOrder model phase choice = some next) :
    next.1 = (phase.record choice).elim model (model.apply containerOrder itemOrder) := by
  unfold advance at advanced
  split at advanced
  -- Five steps look something up and branch on it; the last case is no step.
  case h_2 | h_4 | h_7 | h_9 | h_11 => split at advanced <;> cases advanced <;> rfl
  all_goals
    cases advanced
  all_goals rfl

theorem step_update {state after : State Thread Container Item}
    {action : Action Thread Container Item}
    (moved : step parameters containerOrder itemOrder state action = some after) :
    after.model = (updateOf state action).elim state.model
        (state.model.apply containerOrder itemOrder) ∧
      after.removed = (updateOf state action).elim state.removed (recordRemoval state.removed) := by
  cases action with
  | event update =>
      cases moved
      exact ⟨rfl, rfl⟩
  | strategy thread choice =>
      obtain ⟨next, advanced, rfl⟩ := Option.map_eq_some_iff.mp moved
      refine ⟨advance_model advanced, ?_⟩
      simp only [updateOf]
      unfold Phase.record
      split <;> rfl

end Updates
end Brooklyn.FollowTheSunRuns
