import Brooklyn.ScheduledChain

/-!
Runs of a scheduled task. The chain goes on from run to run in the runs where every run
gets to the point where it schedules the next one: the factory gives a new task, that
task is not kept from its job, and the job returns. What is left to exclude is a
`cancel` in progress that ends the chain while an earlier future is still to be
assigned to `result`.
-/

namespace Brooklyn.ScheduledTask
open Transition
open SingleThreadedScheduler (FutureTask)

variable {Thread : Type}

section Steps
variable [DecidableEq Thread] {flags : Flags} {state : State Thread} {phase : Phase Thread}
  {thread : Thread} {moved : Shared Thread × Pc}

end Steps

section Claims
variable [DecidableEq Thread] {flags : Flags} {state : State Thread} {phase : Phase Thread}

/-- Nothing is left to do but new calls. -/
def AtRest (state : State Thread) : Prop :=
  (∀ thread, state.pc thread = .idle) ∧
    (∀ delayed ∈ state.shared.delayedQueue, state.shared.future delayed ≠ some .new) ∧
    state.shared.runQueue = []

def Action.isCall : Action Thread → Bool
  | .submit _ | .cancel _ => true
  | _ => false

omit [DecidableEq Thread] in
theorem exec_moves {shared : Shared Thread} {thread : Thread} {pc : Pc} (busy : pc ≠ .idle)
    (unasked : ∀ delayed, pc ≠ .newTask delayed)
    (free : shared.monitor = none ∨ pc.inMonitor = true) :
    (exec flags thread shared pc).isSome := by
  cases pc with
  | idle => exact absurd rfl busy
  | newTask delayed => exact absurd rfl (unasked delayed)
  | submit | cancel =>
      rcases free with free | inside
      · simp only [exec, free]
        split <;> rfl
      · cases inside
  | isDone caller =>
      simp only [exec]
      split
      · cases caller <;> rfl
      · rfl
  | setResult caller delayed => cases caller <;> rfl
  | submitRun | delayedSet =>
      simp only [exec]
      split <;> rfl
  | cancelResult =>
      simp only [exec]
      split
      · split <;> rfl
      · rfl
  | _ => rfl

end Claims

/-- A task that repeats, at most twice. -/
def twice : Flags :=
  { period := some 1000, maxIterations := some 2 }

def submits : List (Action Bool) :=
  .submit false :: List.replicate 4 (.next false)

/-- The delayed callable with its number makes and submits the run of the same number. -/
def delivers (run : Nat) : List (Action Bool) :=
  [.beginDelayed true run, .newTask true .fresh, .next true, .next true]

end Brooklyn.ScheduledTask
