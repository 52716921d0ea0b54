import Brooklyn.BalanceablePoolModel
import Brooklyn.FollowTheSunModel
import Brooklyn.Transition

/-!
How `LoadBalancingPolicy` and `FollowTheSunPolicy` schedule their rebalances, at
the grain of single accesses. The two share the code of `suspend`, `resume`,
`scheduleRebalance` (`scheduleLatencyReductionJig`) and of the task up to the call
of the strategy; they differ in the model and in what a handler does to it. A
program counter stands before each update of the model and each read or write of
the flags, of the `executor` field or of the executor itself, and every
interleaving is a run. Executors are numbered in the order of their creation; each
is single-threaded. `shutdownNow` drops the tasks that wait in an executor, and a
shut down executor rejects new ones with an exception that ends the handler. While
a rebalance runs it may update the model any number of times. The interruption of
a running task, the events a task emits after its rebalance, and `destroy` are left
out.

`changed` is a ghost: a handler has updated the model since the last rebalance began.
-/

namespace Brooklyn.RebalanceScheduling
open Transition

/-- A policy as its scheduling sees it. A handler updates the model step by step
and then schedules a rebalance, or returns early. -/
structure RebalancingPolicy (Model Update Event : Type) where
  initial : Model
  apply : Model → Update → Model
  handle : Event → Option (List Update)
  minPeriodBetweenExecs : Int

structure RebalanceTask where
  executor : Nat
  due : Int
deriving DecidableEq

inductive Pc (Update : Type) where
  | idle
  | handling (updates : List Update)
  | scheduleIsRunning
  | scheduleCompareAndSet
  | scheduleDelay
  | scheduleGetExecutor (delay : Int)
  | scheduleSubmit (delay : Int) (executor : Nat)
  | suspendSetSuspended
  | suspendGetExecutor
  | suspendShutdownNow (executor : Nat)
  | suspendClearQueued
  | resumeClearSuspended
  | resumeNewExecutor
  | resumeClearTime
  | resumeClearQueued
  | runExecutorTime
  | runClearQueued
  | runRebalance
  | rebalancing

inductive ThreadId (Thread : Type) where
  | caller (thread : Thread)
  | worker (executor : Nat)
deriving DecidableEq

structure Shared (Model : Type) where
  model : Model
  changed : Bool
  clock : Int
  suspended : Bool
  executorQueued : Bool
  executorTime : Int
  executor : Nat
  shutdown : Nat → Bool
  queue : List RebalanceTask

structure State (Model Update Thread : Type) where
  shared : Shared Model
  pc : ThreadId Thread → Pc Update

inductive Action (Update Event Thread : Type) where
  | event (thread : Thread) (event : Event)
  | suspend (thread : Thread)
  | resume (thread : Thread)
  | tick (elapsed : Nat)
  | start (task : RebalanceTask)
  | next (id : ThreadId Thread)
  | rebalance (executor : Nat) (update : Update)

section Execution
variable {Model Update Event Thread : Type} [DecidableEq Thread]
variable (policy : RebalancingPolicy Model Update Event)

def delay (shared : Shared Model) : Int :=
  max 0 (shared.executorTime + policy.minPeriodBetweenExecs - shared.clock)

/-- One access of a thread. -/
def exec (shared : Shared Model) : Pc Update → Option (Shared Model × Pc Update)
  | .idle => none
  | .handling [] => some (shared, .scheduleIsRunning)
  | .handling (update :: rest) =>
      some ({ shared with model := policy.apply shared.model update, changed := true },
        .handling rest)
  | .scheduleIsRunning => some (shared, if shared.suspended then .idle else .scheduleCompareAndSet)
  | .scheduleCompareAndSet =>
      if shared.executorQueued then some (shared, .idle)
      else some ({ shared with executorQueued := true }, .scheduleDelay)
  | .scheduleDelay => some (shared, .scheduleGetExecutor (delay policy shared))
  | .scheduleGetExecutor delay => some (shared, .scheduleSubmit delay shared.executor)
  | .scheduleSubmit delay executor =>
      if shared.shutdown executor then some (shared, .idle)
      else some ({ shared with queue := shared.queue ++ [⟨executor, shared.clock + delay⟩] }, .idle)
  | .suspendSetSuspended => some ({ shared with suspended := true }, .suspendGetExecutor)
  | .suspendGetExecutor => some (shared, .suspendShutdownNow shared.executor)
  | .suspendShutdownNow executor =>
      some ({ shared with
        shutdown := Function.update shared.shutdown executor true
        queue := shared.queue.filter fun task => task.executor != executor }, .suspendClearQueued)
  | .suspendClearQueued => some ({ shared with executorQueued := false }, .idle)
  -- Nothing schedules a rebalance for what changed while the policy was suspended.
  | .resumeClearSuspended => some ({ shared with suspended := false }, .resumeNewExecutor)
  | .resumeNewExecutor => some ({ shared with executor := shared.executor + 1 }, .resumeClearTime)
  | .resumeClearTime => some ({ shared with executorTime := 0 }, .resumeClearQueued)
  | .resumeClearQueued => some ({ shared with executorQueued := false }, .idle)
  | .runExecutorTime => some ({ shared with executorTime := shared.clock }, .runClearQueued)
  | .runClearQueued => some ({ shared with executorQueued := false }, .runRebalance)
  | .runRebalance => some ({ shared with changed := false }, .rebalancing)
  | .rebalancing => some (shared, .idle)

def State.goto (state : State Model Update Thread) (id : ThreadId Thread)
    (moved : Shared Model × Pc Update) : State Model Update Thread :=
  { shared := moved.1, pc := Function.update state.pc id moved.2 }

def enters (state : State Model Update Thread) (id : ThreadId Thread) (entry : Pc Update) :
    Option (State Model Update Thread) :=
  match state.pc id with
  | .idle => some (state.goto id (state.shared, entry))
  | _ => none

def step (state : State Model Update Thread) :
    Action Update Event Thread → Option (State Model Update Thread)
  | .event thread event =>
      enters state (.caller thread) (((policy.handle event).map .handling).getD .idle)
  | .suspend thread => enters state (.caller thread) .suspendSetSuspended
  | .resume thread => enters state (.caller thread) .resumeClearSuspended
  | .tick elapsed =>
      some { state with shared := { state.shared with clock := state.shared.clock + elapsed } }
  | .start task =>
      if task ∈ state.shared.queue ∧ task.due ≤ state.shared.clock then
        enters { state with shared :=
          { state.shared with queue := state.shared.queue.erase task } }
          (.worker task.executor) .runExecutorTime
      else none
  | .next id => (exec policy state.shared (state.pc id)).map (state.goto id)
  | .rebalance executor update =>
      match state.pc (.worker executor) with
      | .rebalancing => some { state with shared :=
          { state.shared with model := policy.apply state.shared.model update } }
      | _ => none

def scheduling (clock : Int) : System (State Model Update Thread) (Action Update Event Thread) where
  initial :=
    { shared := ⟨policy.initial, false, clock, false, false, 0, 0, fun _ => false, []⟩
      pc := fun _ => .idle }
  step := step policy

end Execution

section Inversion
variable {Model Update Event Thread : Type} [DecidableEq Thread]
variable {policy : RebalancingPolicy Model Update Event}
variable {state after : State Model Update Thread}

theorem enters_some {id : ThreadId Thread} {entry : Pc Update}
    (entered : enters state id entry = some after) :
    state.pc id = .idle ∧ after = state.goto id (state.shared, entry) := by
  unfold enters at entered
  split at entered
  · next idle => exact ⟨idle, (Option.some.inj entered).symm⟩
  · cases entered

theorem step_start {task : RebalanceTask}
    (moved : step policy state (.start task) = some after) :
    state.pc (.worker task.executor) = .idle ∧
      after = state.goto (.worker task.executor)
        ({ state.shared with queue := state.shared.queue.erase task }, .runExecutorTime) := by
  simp only [step] at moved
  split at moved
  · exact enters_some moved
  · cases moved

theorem step_next {id : ThreadId Thread} (moved : step policy state (.next id) = some after) :
    ∃ result, exec policy state.shared (state.pc id) = some result ∧ after = state.goto id result := by
  obtain ⟨result, ran, same⟩ := Option.map_eq_some_iff.mp moved
  exact ⟨result, ran, same.symm⟩

theorem step_rebalance {executor : Nat} {update : Update}
    (moved : step policy state (.rebalance executor update) = some after) :
    after = { state with shared :=
      { state.shared with model := policy.apply state.shared.model update } } := by
  simp only [step] at moved
  split at moved
  · exact (Option.some.inj moved).symm
  · cases moved

end Inversion

namespace LoadBalancingPolicy
variable {Container Item : Type}

/-- `thresholds` are the configured ones of a container, `currentValue` the metric
of an item. -/
inductive Event (Container Item : Type) where
  | setEntity (containers : List (Container × Option (ℚ × ℚ)))
      (items : List (Item × Option Container × Bool × Option ℚ))
  | itemMetricUpdate (item : Item) (newValue : ℚ)
  | containerAdded (newContainer : Container) (thresholds : Option (ℚ × ℚ))
  | containerRemoved (oldContainer : Container)
  | itemAdded (item : Item) (parentContainer : Option Container) (immovable : Bool)
      (currentValue : Option ℚ)
  | itemRemoved (item : Item)
  | itemMoved (item : Item) (parentContainer : Option Container)

open DefaultBalanceablePoolModel (Update)

def onContainerAdded (newContainer : Container) :
    Option (ℚ × ℚ) → Option (List (Update Container Item))
  | none => none
  | some (lowThreshold, highThreshold) =>
      some [.containerAdded newContainer lowThreshold highThreshold]

def onItemAdded (item : Item) (parentContainer : Option Container) (immovable : Bool)
    (currentValue : Option ℚ) : List (Update Container Item) :=
  .itemAdded item parentContainer immovable ::
    (currentValue.map (.itemWorkrateUpdated item)).toList

def handle : Event Container Item → Option (List (Update Container Item))
  | .setEntity containers items => some
      (containers.flatMap (fun entry => (onContainerAdded entry.1 entry.2).getD []) ++
        items.flatMap fun entry => onItemAdded entry.1 entry.2.1 entry.2.2.1 entry.2.2.2)
  | .itemMetricUpdate item newValue => some [.itemWorkrateUpdated item newValue]
  | .containerAdded newContainer thresholds => onContainerAdded newContainer thresholds
  | .containerRemoved oldContainer => some [.containerRemoved oldContainer]
  | .itemAdded item parentContainer immovable currentValue =>
      some (onItemAdded item parentContainer immovable currentValue)
  | .itemRemoved item => some [.itemRemoved item]
  | .itemMoved item parentContainer => some [.itemMoved item parentContainer]

variable [DecidableEq Container] [DecidableEq Item]

def policy (containerOrder : SetOrder Container) (itemOrder : SetOrder Item)
    (minPeriodBetweenExecs : Int) :
    RebalancingPolicy (DefaultBalanceablePoolModel Container Item) (Update Container Item)
      (Event Container Item) where
  initial := .empty
  apply := DefaultBalanceablePoolModel.apply containerOrder itemOrder
  handle := handle
  minPeriodBetweenExecs := minPeriodBetweenExecs

end LoadBalancingPolicy

namespace FollowTheSunPolicy
variable {Container Item : Type}

/-- `location` is what the location finder answers, `currentValue` the usage of an item. -/
inductive Event (Container Item : Type) where
  | setEntity (containers : List (Container × Option Location))
      (items : List (Item × Option Container × Bool × Option (LinkedMap Item ℚ)))
  | itemMetricUpdated (item : Item) (newValues : LinkedMap Item ℚ)
  | containerLocationUpdated (container : Container) (location : Option Location)
  | containerAdded (container : Container) (location : Option Location)
  | containerRemoved (container : Container)
  | itemAdded (item : Item) (parentContainer : Option Container) (immovable : Bool)
      (currentValue : Option (LinkedMap Item ℚ))
  | itemRemoved (item : Item)
  | itemMoved (item : Item) (parentContainer : Option Container)

open DefaultFollowTheSunModel (Update)

def onItemAdded (item : Item) (parentContainer : Option Container) (immovable : Bool)
    (currentValue : Option (LinkedMap Item ℚ)) : List (Update Container Item) :=
  .itemAdded item parentContainer immovable :: (currentValue.map (.itemUsageUpdated item)).toList

def handle : Event Container Item → List (Update Container Item)
  | .setEntity containers items =>
      containers.map (fun entry => .containerAdded entry.1 entry.2) ++
        items.flatMap fun entry => onItemAdded entry.1 entry.2.1 entry.2.2.1 entry.2.2.2
  | .itemMetricUpdated item newValues => [.itemUsageUpdated item newValues]
  | .containerLocationUpdated container location => [.containerLocationUpdated container location]
  | .containerAdded container location => [.containerAdded container location]
  | .containerRemoved container => [.containerRemoved container]
  | .itemAdded item parentContainer immovable currentValue =>
      onItemAdded item parentContainer immovable currentValue
  | .itemRemoved item => [.itemRemoved item]
  | .itemMoved item parentContainer => [.itemMoved item parentContainer]

variable [DecidableEq Container] [DecidableEq Item]

def policy (containerOrder : SetOrder Container) (itemOrder : SetOrder Item)
    (minPeriodBetweenExecs : Int) :
    RebalancingPolicy (DefaultFollowTheSunModel Container Item) (Update Container Item)
      (Event Container Item) where
  initial := .empty
  apply := DefaultFollowTheSunModel.apply containerOrder itemOrder
  handle event := some (handle event)
  minPeriodBetweenExecs := minPeriodBetweenExecs

end FollowTheSunPolicy
end Brooklyn.RebalanceScheduling
