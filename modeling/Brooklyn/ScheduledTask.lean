import Brooklyn.SingleThreadedScheduler

/-!
A `ScheduledTask` and the chain of its runs: `submitNewScheduledTask` schedules a
delayed callable, which makes a new task and submits it; the job of that task runs the
caller's job, counts it, and calls `submitNewScheduledTask` again while there is a
period. The grain is that of single accesses. Times are left out: the executor may
begin a delayed callable, or a run, at any point after it was handed over, and before
the future of it is assigned to `task.result`.

The factory's answer, the end of the job and the period that a job sets are inputs of
a step. Runs are numbered in the order the factory makes them, delayed callables in
the order they are scheduled. `runs` is history: how often the caller's job was begun.
-/

namespace Brooklyn.ScheduledTask
open Transition
open SingleThreadedScheduler (FutureTask)

/-- What the constructor takes from its flags; no period is not to repeat. -/
structure Flags where
  period : Option Nat
  maxIterations : Option Int

/-- What `newTask` does: a task that is new, one given before, or an exception. -/
inductive Factory where
  | fresh
  | used (run : Nat)
  | throws

/-- A call of `submitNewScheduledTask` comes from `submit`, in the monitor of the task,
or from a run. -/
inductive Pc where
  | idle
  | submit
  | isDone (caller : Option Nat)
  | schedule (caller : Option Nat)
  | setResult (caller : Option Nat) (delayed : Nat)
  | newTask (delayed : Nat)
  | submitRun (delayed run : Nat)
  | delayedSet (delayed : Nat)
  | recentRun (run : Nat)
  | job (run : Nat)
  | countRun (run : Nat)
  | checkPeriod (run : Nat)
  | runSet (run : Nat)
  | cancel
  | cancelResult
  | cancelSet
deriving DecidableEq

/-- `scheduled` is the number of delayed callables so far and `newTasks` that of the
runs; `delayedQueue` and `runQueue` have those that the executors have not begun.
`assigning` has the delayed callables whose future is still to be assigned to `result`. -/
structure Shared (Thread : Type) where
  monitor : Option Thread
  period : Option Nat
  runCount : Nat
  cancelled : Bool
  submitted : Bool
  result : Option Nat
  scheduled : Nat
  assigning : List Nat
  delayedQueue : List Nat
  future : Nat → Option FutureTask
  newTasks : Nat
  nextRun : Option Nat
  recentRun : Option Nat
  submittedRuns : List Nat
  runQueue : List Nat
  runDone : Nat → Bool
  runs : Nat

structure State (Thread : Type) where
  shared : Shared Thread
  pc : Thread → Pc

inductive Action (Thread : Type) where
  | submit (thread : Thread)
  | cancel (thread : Thread)
  | beginDelayed (thread : Thread) (delayed : Nat)
  | newTask (thread : Thread) (factory : Factory)
  | beginRun (thread : Thread) (run : Nat)
  | skipRun (thread : Thread) (run : Nat)
  | setPeriod (thread : Thread) (period : Option Nat)
  | jobThrows (thread : Thread)
  | next (thread : Thread)

variable {Thread : Type}

namespace Shared

def resultIs (shared : Shared Thread) (value : FutureTask) : Bool :=
  match shared.result with
  | some delayed => decide (shared.future delayed = some value)
  | none => false

def isCancelled (shared : Shared Thread) : Bool :=
  shared.cancelled || shared.resultIs .cancelled

def iterated (flags : Flags) (shared : Shared Thread) : Bool :=
  match flags.maxIterations with
  | some maxIterations => decide (maxIterations ≤ shared.runCount)
  | none => false

def isDone (flags : Flags) (shared : Shared Thread) : Bool :=
  shared.isCancelled || shared.iterated flags ||
    (shared.period.isNone && match shared.nextRun with
      | some run => shared.runDone run
      | none => false)

end Shared

/-- The accesses of a thread that is inside a call; `none` while it waits. -/
def exec (flags : Flags) (thread : Thread) (shared : Shared Thread) :
    Pc → Option (Shared Thread × Pc)
  | .idle | .newTask _ => none
  | .submit =>
      match shared.monitor with
      | some _ => none
      | none =>
        if shared.result.isSome then some (shared, .idle)
        else some ({ shared with monitor := some thread, submitted := true }, .isDone none)
  | .isDone caller =>
      if shared.isDone flags then
        match caller with
        | none => some ({ shared with monitor := none }, .idle)
        | some run => some (shared, .runSet run)
      else some (shared, .schedule caller)
  | .schedule caller =>
      some ({ shared with
          scheduled := shared.scheduled + 1
          assigning := shared.assigning ++ [shared.scheduled]
          delayedQueue := shared.delayedQueue ++ [shared.scheduled]
          future := Function.update shared.future shared.scheduled (some .new) },
        .setResult caller shared.scheduled)
  | .setResult caller delayed =>
      let assigned :=
        { shared with
          result := some delayed
          assigning := shared.assigning.filter fun other => decide (other ≠ delayed) }
      match caller with
      | none => some ({ assigned with monitor := none }, .idle)
      | some run => some (assigned, .runSet run)
  | .submitRun delayed run =>
      if run ∈ shared.submittedRuns then some ({ shared with nextRun := some run }, .delayedSet delayed)
      else
        some ({ shared with
            nextRun := some run
            submittedRuns := shared.submittedRuns ++ [run]
            runQueue := shared.runQueue ++ [run] },
          .delayedSet delayed)
  | .delayedSet delayed =>
      if shared.future delayed = some .new then
        some ({ shared with future := Function.update shared.future delayed (some .ran) }, .idle)
      else some (shared, .idle)
  | .recentRun run =>
      some ({ shared with recentRun := some run, runs := shared.runs + 1 }, .job run)
  | .job run => some (shared, .countRun run)
  | .countRun run => some ({ shared with runCount := shared.runCount + 1 }, .checkPeriod run)
  | .checkPeriod run =>
      some (shared, if shared.period.isSome then .isDone (some run) else .runSet run)
  | .runSet run =>
      some ({ shared with runDone := Function.update shared.runDone run true }, .idle)
  | .cancel =>
      match shared.monitor with
      | some _ => none
      | none =>
        if shared.isDone flags then some (shared, .idle)
        else some ({ shared with monitor := some thread }, .cancelResult)
  | .cancelResult =>
      match shared.result with
      | some delayed =>
          if shared.future delayed = some .new then
            some ({ shared with
                future := Function.update shared.future delayed (some .cancelled) }, .cancelSet)
          else some (shared, .cancelSet)
      | none => some (shared, .cancelSet)
  | .cancelSet => some ({ shared with cancelled := true, monitor := none }, .idle)

/-- The delayed callable asks the factory for the task of the next run. -/
def newTask (shared : Shared Thread) (factory : Factory) : Pc → Option (Shared Thread × Pc)
  | .newTask delayed =>
      match factory with
      | .fresh =>
          some ({ shared with newTasks := shared.newTasks + 1 }, .submitRun delayed shared.newTasks)
      | .used run =>
          if run < shared.newTasks then some (shared, .submitRun delayed run) else none
      | .throws => some (shared, .delayedSet delayed)
  | _ => none

def beginDelayed (shared : Shared Thread) (delayed : Nat) : Pc → Option (Shared Thread × Pc)
  | .idle =>
      if delayed ∈ shared.delayedQueue ∧ shared.future delayed = some .new then
        some ({ shared with
            delayedQueue := shared.delayedQueue.filter fun other => decide (other ≠ delayed) },
          .newTask delayed)
      else none
  | _ => none

def beginRun (shared : Shared Thread) (run : Nat) : Pc → Option (Shared Thread × Pc)
  | .idle =>
      if run ∈ shared.runQueue then
        some ({ shared with runQueue := shared.runQueue.erase run }, .recentRun run)
      else none
  | _ => none

/-- The run ends without its job: its task was cancelled, or a hook before the job threw. -/
def skipRun (shared : Shared Thread) (run : Nat) : Pc → Option (Shared Thread × Pc)
  | .idle =>
      if run ∈ shared.runQueue then
        some ({ shared with runQueue := shared.runQueue.erase run }, .runSet run)
      else none
  | _ => none

def setPeriod (shared : Shared Thread) (period : Option Nat) : Pc → Option (Shared Thread × Pc)
  | .job run => some ({ shared with period := period }, .job run)
  | _ => none

def jobThrows (shared : Shared Thread) : Pc → Option (Shared Thread × Pc)
  | .job run => some (shared, .runSet run)
  | _ => none

def calls (shared : Shared Thread) (entry : Pc) : Pc → Option (Shared Thread × Pc)
  | .idle => some (shared, entry)
  | _ => none

def Action.thread : Action Thread → Thread
  | .submit thread | .cancel thread | .beginDelayed thread _ | .newTask thread _
  | .beginRun thread _ | .skipRun thread _ | .setPeriod thread _ | .jobThrows thread
  | .next thread => thread

def perform (flags : Flags) (shared : Shared Thread) (pc : Pc) :
    Action Thread → Option (Shared Thread × Pc)
  | .submit _ => calls shared .submit pc
  | .cancel _ => calls shared .cancel pc
  | .beginDelayed _ delayed => beginDelayed shared delayed pc
  | .newTask _ factory => newTask shared factory pc
  | .beginRun _ run => beginRun shared run pc
  | .skipRun _ run => skipRun shared run pc
  | .setPeriod _ period => setPeriod shared period pc
  | .jobThrows _ => jobThrows shared pc
  | .next thread => exec flags thread shared pc

section System
variable [DecidableEq Thread]

def State.goto (state : State Thread) (thread : Thread) (moved : Shared Thread × Pc) :
    State Thread :=
  { shared := moved.1, pc := Function.update state.pc thread moved.2 }

def step (flags : Flags) (state : State Thread) (action : Action Thread) :
    Option (State Thread) :=
  (perform flags state.shared (state.pc action.thread) action).map (state.goto action.thread)

end System
end Brooklyn.ScheduledTask
