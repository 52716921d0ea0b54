import Brooklyn.AutoScalerRuns

/-!
`AutoScalerPolicy.scheduleResize`, `suspend` and `resume` at the grain of single
accesses. A program counter stands before each read or write of the flags, of the
`executor` field or of the executor itself, and every interleaving of the callers
and of the executors' workers is a run. Executors are numbered in the order of
their creation; each is single-threaded, so its tasks run on its one worker.
`shutdownNow` drops the tasks that wait in an executor, and a shut down executor
rejects new ones with an exception that ends the handler, or the task, that
called. The clock only moves forward, and a task waits until it is due. An event
records its answer in one step; the interruption of a running task and `destroy`
are left out.
-/

namespace Brooklyn.AutoScalerPolicy
open Transition

structure PoolEntity where
  hasServiceUp : Bool
  serviceUp : Option Bool
deriving DecidableEq

structure ResizeTask where
  executor : Nat
  due : Int
deriving DecidableEq

/-- What a call of `scheduleResize` returns to. -/
inductive Caller where
  | handler
  | task (currentPoolSize desiredPoolSize : JavaInt)
deriving DecidableEq

inductive Pc (Double : Type) where
  | idle
  | onEvent (event : Event Double)
  | scheduleIsRunning (caller : Caller)
  | scheduleCompareAndSet (caller : Caller)
  | scheduleIsEntityUp (caller : Caller)
  | scheduleDelay (caller : Caller)
  | scheduleGetExecutor (caller : Caller) (delay : Int)
  | scheduleSubmit (caller : Caller) (delay : Int) (executor : Nat)
  | suspendSetSuspended
  | suspendGetExecutor
  | suspendShutdownNow (executor : Nat)
  | resumeClearSuspended
  | resumeNewExecutor
  | runExecutorTime
  | runClearQueued
  | runCalculate (currentPoolSize : JavaInt)
  | runCompare (currentPoolSize desiredPoolSize : JavaInt)
  | runResize (desiredPoolSize : JavaInt)

inductive ThreadId (Thread : Type) where
  | caller (thread : Thread)
  | worker (executor : Nat)
deriving DecidableEq

structure Shared (Double : Type) where
  policy : AutoScalerPolicy Double
  clock : Int
  entity : Option PoolEntity
  suspended : Bool
  executorQueued : Bool
  executorTime : Int
  executor : Nat
  shutdown : Nat → Bool
  queue : List ResizeTask

structure SchedulingState (Double Thread : Type) where
  shared : Shared Double
  pc : ThreadId Thread → Pc Double

inductive SchedulingAction (Double Thread : Type) where
  | event (thread : Thread) (event : Event Double)
  | suspend (thread : Thread)
  | resume (thread : Thread)
  | setEntity (entity : Option PoolEntity)
  | tick (elapsed : Nat)
  | start (task : ResizeTask)
  | next (id : ThreadId Thread) (currentPoolSize : JavaInt)

def isEntityUp : Option PoolEntity → Bool
  | none => false
  | some entity => if entity.hasServiceUp then entity.serviceUp == some true else true

def Caller.returns {Double : Type} : Caller → Pc Double
  | .handler => .idle
  | .task currentPoolSize desiredPoolSize => .runCompare currentPoolSize desiredPoolSize

def Shared.delay {Double : Type} (shared : Shared Double) : Int :=
  max 0 (shared.executorTime + shared.policy.minPeriodBetweenExecs - shared.clock)

section Execution
variable {Double Thread : Type} [JavaDouble Double] [DecidableEq Thread]

/-- One access of a thread. `currentPoolSize` is what the size operator reports. -/
def exec (shared : Shared Double) (currentPoolSize : JavaInt) :
    Pc Double → Option (Shared Double × Pc Double)
  | .idle => none
  | .onEvent event =>
      match shared.policy.respond event with
      | none => some (shared, .idle)
      | some response =>
          some ({ shared with policy := shared.policy.record response shared.clock },
            match response with
            | .scheduleResize _ => .scheduleIsRunning .handler
            | _ => .idle)
  | .scheduleIsRunning caller =>
      some (shared, if shared.suspended then caller.returns else .scheduleCompareAndSet caller)
  | .scheduleCompareAndSet caller =>
      if shared.executorQueued then some (shared, caller.returns)
      else some ({ shared with executorQueued := true }, .scheduleIsEntityUp caller)
  -- The flag is set by now, and nothing clears it when the entity is down.
  | .scheduleIsEntityUp caller =>
      some (shared, if isEntityUp shared.entity then .scheduleDelay caller else caller.returns)
  | .scheduleDelay caller => some (shared, .scheduleGetExecutor caller shared.delay)
  | .scheduleGetExecutor caller delay =>
      some (shared, .scheduleSubmit caller delay shared.executor)
  | .scheduleSubmit caller delay executor =>
      if shared.shutdown executor then some (shared, .idle)
      else some ({ shared with queue := shared.queue ++ [⟨executor, shared.clock + delay⟩] },
        caller.returns)
  | .suspendSetSuspended => some ({ shared with suspended := true }, .suspendGetExecutor)
  | .suspendGetExecutor => some (shared, .suspendShutdownNow shared.executor)
  | .suspendShutdownNow executor =>
      some ({ shared with
        shutdown := Function.update shared.shutdown executor true
        queue := shared.queue.filter fun task => task.executor != executor }, .idle)
  | .resumeClearSuspended => some ({ shared with suspended := false }, .resumeNewExecutor)
  -- The flag survives the executor that it was set for.
  | .resumeNewExecutor => some ({ shared with executor := shared.executor + 1 }, .idle)
  | .runExecutorTime => some ({ shared with executorTime := shared.clock }, .runClearQueued)
  | .runClearQueued => some ({ shared with executorQueued := false }, .runCalculate currentPoolSize)
  | .runCalculate size =>
      let calculated := shared.policy.calculateDesiredPoolSize shared.clock size
      some (shared, if calculated.stable then .runCompare size calculated.size
        else .scheduleIsRunning (.task size calculated.size))
  | .runCompare size desiredPoolSize =>
      some (shared, if size = desiredPoolSize then .idle else .runResize desiredPoolSize)
  | .runResize _ => some (shared, .idle)

def SchedulingState.goto (state : SchedulingState Double Thread) (id : ThreadId Thread)
    (moved : Shared Double × Pc Double) : SchedulingState Double Thread :=
  { shared := moved.1, pc := Function.update state.pc id moved.2 }

def enters (state : SchedulingState Double Thread) (id : ThreadId Thread) (entry : Pc Double) :
    Option (SchedulingState Double Thread) :=
  match state.pc id with
  | .idle => some (state.goto id (state.shared, entry))
  | _ => none

def schedulingStep (state : SchedulingState Double Thread) :
    SchedulingAction Double Thread → Option (SchedulingState Double Thread)
  | .event thread event => enters state (.caller thread) (.onEvent event)
  | .suspend thread => enters state (.caller thread) .suspendSetSuspended
  | .resume thread => enters state (.caller thread) .resumeClearSuspended
  | .setEntity entity => some { state with shared := { state.shared with entity := entity } }
  | .tick elapsed =>
      some { state with shared := { state.shared with clock := state.shared.clock + elapsed } }
  | .start task =>
      if task ∈ state.shared.queue ∧ task.due ≤ state.shared.clock then
        enters { state with shared :=
          { state.shared with queue := state.shared.queue.erase task } }
          (.worker task.executor) .runExecutorTime
      else none
  | .next id currentPoolSize =>
      (exec state.shared currentPoolSize (state.pc id)).map (state.goto id)

/-- A policy before its first event, added to an entity at time `clock`. -/
def schedulingSystem (policy : AutoScalerPolicy Double) (entity : Option PoolEntity)
    (clock : Int) : System (SchedulingState Double Thread) (SchedulingAction Double Thread) where
  initial :=
    { shared := ⟨policy, clock, entity, false, false, 0, 0, fun _ => false, []⟩
      pc := fun _ => .idle }
  step := schedulingStep

end Execution

section StepInversion
variable {Double Thread : Type} [JavaDouble Double] [DecidableEq Thread]
    {state after : SchedulingState Double Thread}

omit [JavaDouble Double] in
theorem enters_some {id : ThreadId Thread} {entry : Pc Double}
    (entered : enters state id entry = some after) :
    state.pc id = .idle ∧ after = state.goto id (state.shared, entry) := by
  unfold enters at entered
  split at entered
  · next idle => exact ⟨idle, (Option.some.inj entered).symm⟩
  · cases entered

theorem step_start {task : ResizeTask} (moved : schedulingStep state (.start task) = some after) :
    state.pc (.worker task.executor) = .idle ∧ task ∈ state.shared.queue ∧
      after = state.goto (.worker task.executor)
        ({ state.shared with queue := state.shared.queue.erase task }, .runExecutorTime) := by
  simp only [schedulingStep] at moved
  split at moved
  · next waiting =>
    obtain ⟨idle, entered⟩ := enters_some moved
    exact ⟨idle, waiting.1, entered⟩
  · cases moved

theorem step_next {id : ThreadId Thread} {currentPoolSize : JavaInt}
    (moved : schedulingStep state (.next id currentPoolSize) = some after) :
    ∃ result, exec state.shared currentPoolSize (state.pc id) = some result ∧
      after = state.goto id result := by
  obtain ⟨result, ran, same⟩ := Option.map_eq_some_iff.mp moved
  exact ⟨result, ran, same.symm⟩

/-- The thread whose counter an action moves. -/
def SchedulingAction.thread : SchedulingAction Double Thread → Option (ThreadId Thread)
  | .event thread _ => some (.caller thread)
  | .suspend thread => some (.caller thread)
  | .resume thread => some (.caller thread)
  | .setEntity _ => none
  | .tick _ => none
  | .start task => some (.worker task.executor)
  | .next id _ => some id

theorem step_pc_other {action : SchedulingAction Double Thread} {id : ThreadId Thread}
    (moved : schedulingStep state action = some after) (other : action.thread ≠ some id) :
    after.pc id = state.pc id := by
  have entry {thread : ThreadId Thread} {entry : Pc Double} (apart : some thread ≠ some id)
      (entered : enters state thread entry = some after) : after.pc id = state.pc id := by
    obtain ⟨_, rfl⟩ := enters_some entered
    exact Function.update_of_ne (fun same => apart (congrArg some same.symm)) _ _
  cases action with
  | event thread event => exact entry other moved
  | suspend thread => exact entry other moved
  | resume thread => exact entry other moved
  | setEntity entity =>
      cases moved
      rfl
  | tick elapsed =>
      cases moved
      rfl
  | start task =>
      obtain ⟨_, _, rfl⟩ := step_start moved
      exact Function.update_of_ne (fun same => other (congrArg some same.symm)) _ _
  | next thread currentPoolSize =>
      obtain ⟨result, _, rfl⟩ := step_next moved
      exact Function.update_of_ne (fun same => other (congrArg some same.symm)) _ _

theorem replay_pc_other {policy : AutoScalerPolicy Double} {entity : Option PoolEntity}
    {clock : Int} {guard : SchedulingState Double Thread → SchedulingAction Double Thread → Bool}
    {id : ThreadId Thread} (schedule : List (SchedulingAction Double Thread))
    (played : replay (schedulingSystem policy entity clock) guard state schedule = some after)
    (others : ∀ action ∈ schedule, action.thread ≠ some id) : after.pc id = state.pc id := by
  induction schedule generalizing state with
  | nil =>
      cases played
      rfl
  | cons action rest ih =>
      simp only [replay] at played
      split at played
      · split at played
        · next middle moved =>
          rw [ih played fun later member => others later (List.mem_cons_of_mem _ member)]
          exact step_pc_other moved (others action List.mem_cons_self)
        · cases played
      · cases played

end StepInversion
end Brooklyn.AutoScalerPolicy
