import Brooklyn.LinkedCollections
import Brooklyn.SingleThreadedScheduler

/-!
`BasicExecutionManager` and the tasks it runs: `submit` and `cancel` of a `BasicTask`,
both synchronized on the task, and the wrapper around its job with the hooks
`beforeSubmit`, `beforeStart` and `afterEnd`. Each access of shared data is a step;
fields of a task that nothing here reads are left out, and so is the renaming of
threads, which is off. The counters do not wrap around.

The executor begins an accepted task later, on a worker thread, unless its future was
cancelled before; a scheduler of a tag that holds the task back is such a delay. The
callbacks, the preprocessors and the job are the caller's code: they return (`next`)
or throw (`throws`), and so does the executor when it accepts a task. A scheduled task
is here as the tasks of its runs, which come through `submit` one by one.

`ended` is history: the tasks that `afterEnd` has counted down.
-/

namespace Brooklyn.BasicExecutionManager
open Transition
open SingleThreadedScheduler (FutureTask)

inductive ExpirationPolicy where
  | IMMEDIATE
  | NEVER
deriving DecidableEq

/-- A task as its constructor makes it. -/
structure BasicTask (Tag : Type) where
  hasJob : Bool
  tags : LinkedSet Tag

structure Flags (Tag : Type) where
  tags : List Tag
  expirationPolicy : Option ExpirationPolicy
deriving DecidableEq

inductive Pc (Task Tag : Type) where
  | idle
  | submit (task : Task) (flags : Flags Tag)
  | beforeSubmit (task : Task) (flags : Flags Tag)
  | addTags (task : Task) (rest : List Tag)
  | onSubmit (task : Task)
  | checkJob (task : Task)
  | runnerSubmit (task : Task)
  | initResult (task : Task)
  | beforeStart (task : Task)
  | onStart (task : Task)
  | checkCancelled (task : Task)
  | job (task : Task)
  | afterEnd (task : Task)
  | onEnd (task : Task)
  | notifyAll (task : Task)
  | expire (task : Task) (rest : List Tag)
  | set (task : Task)
  | cancel (task : Task)
  | cancelResult (task : Task)
  | cancelSet (task : Task)
deriving DecidableEq

/-- `submitted` has the tasks with a submit time, `queue` those that the executor has
accepted and not begun, and `result` says whether a task has been given its future. -/
structure Shared (Task Tag Thread : Type) where
  monitor : Task → Option Thread
  totalTaskCount : Nat
  activeTaskCount : Int
  incompleteTaskCount : Int
  submitted : LinkedSet Task
  tags : Task → LinkedSet Tag
  expirationPolicy : Task → ExpirationPolicy
  tasksByTag : Tag → LinkedSet Task
  queue : List Task
  future : Task → Option FutureTask
  result : Task → Bool
  cancelled : Task → Bool
  ended : LinkedSet Task

structure State (Task Tag Thread : Type) where
  shared : Shared Task Tag Thread
  pc : Thread → Pc Task Tag

inductive Action (Task Tag Thread : Type) where
  | submit (thread : Thread) (task : Task) (flags : Flags Tag)
  | cancel (thread : Thread) (task : Task)
  | start (thread : Thread) (task : Task)
  | next (thread : Thread)
  | throws (thread : Thread)

variable {Task Tag Thread : Type}

namespace Shared

def isCancelled (shared : Shared Task Tag Thread) (task : Task) : Bool :=
  shared.cancelled task ||
    (shared.result task && decide (shared.future task = some .cancelled))

def isDone (shared : Shared Task Tag Thread) (task : Task) : Bool :=
  shared.cancelled task ||
    (shared.result task &&
      decide (shared.future task = some .cancelled ∨ shared.future task = some .ran))

end Shared

section Steps
variable [DecidableEq Task] [DecidableEq Tag] [DecidableEq Thread]

namespace Shared

def enter (shared : Shared Task Tag Thread) (thread : Thread) (task : Task) :
    Shared Task Tag Thread :=
  { shared with monitor := Function.update shared.monitor task (some thread) }

def leave (shared : Shared Task Tag Thread) (task : Task) : Shared Task Tag Thread :=
  { shared with monitor := Function.update shared.monitor task none }

/-- The fields of the task that `beforeSubmit` sets, with the count. -/
def beforeSubmit (shared : Shared Task Tag Thread) (task : Task) (flags : Flags Tag) :
    Shared Task Tag Thread :=
  { shared with
    incompleteTaskCount := shared.incompleteTaskCount + 1
    submitted := shared.submitted.add task
    tags := Function.update shared.tags task (flags.tags.foldl LinkedSet.add (shared.tags task))
    expirationPolicy := Function.update shared.expirationPolicy task
      (flags.expirationPolicy.getD .IMMEDIATE) }

end Shared

/-- The accesses of a thread that is inside a call or a wrapper; `none` while it waits. -/
def exec (basicTask : Task → BasicTask Tag) (thread : Thread) (shared : Shared Task Tag Thread) :
    Pc Task Tag → Option (Shared Task Tag Thread × Pc Task Tag)
  | .idle => none
  | .submit task flags =>
      match shared.monitor task with
      | some _ => none
      | none =>
        if shared.result task then some (shared, .idle)
        else
          some ({ shared.enter thread task with totalTaskCount := shared.totalTaskCount + 1 },
            .beforeSubmit task flags)
  | .beforeSubmit task flags =>
      some (shared.beforeSubmit task flags,
        .addTags task ((shared.beforeSubmit task flags).tags task).elements)
  | .addTags task [] => some (shared, .onSubmit task)
  | .addTags task (tag :: rest) =>
      some ({ shared with
          tasksByTag :=
            Function.update shared.tasksByTag tag ((shared.tasksByTag tag).add task) },
        .addTags task rest)
  | .onSubmit task => some (shared, .checkJob task)
  | .checkJob task =>
      -- `submitNewTask` throws when there is no job.
      if (basicTask task).hasJob then some (shared, .runnerSubmit task)
      else some (shared.leave task, .idle)
  | .runnerSubmit task =>
      some ({ shared with
          queue := shared.queue ++ [task]
          future := Function.update shared.future task (some .new) },
        .initResult task)
  | .initResult task =>
      some ({ shared.leave task with result := Function.update shared.result task true }, .idle)
  | .beforeStart task =>
      some ({ shared with activeTaskCount := shared.activeTaskCount + 1 }, .onStart task)
  | .onStart task => some (shared, .checkCancelled task)
  | .checkCancelled task =>
      some (shared, if shared.isCancelled task then .afterEnd task else .job task)
  | .job task => some (shared, .afterEnd task)
  | .afterEnd task =>
      some ({ shared with
          activeTaskCount := shared.activeTaskCount - 1
          incompleteTaskCount := shared.incompleteTaskCount - 1
          ended := shared.ended.add task },
        .onEnd task)
  | .onEnd task => some (shared, .notifyAll task)
  | .notifyAll task =>
      match shared.monitor task with
      | some _ => none
      | none =>
        match shared.expirationPolicy task with
        | .IMMEDIATE => some (shared, .expire task (shared.tags task).elements)
        | .NEVER => some (shared, .set task)
  | .expire task [] => some (shared, .set task)
  | .expire task (tag :: rest) =>
      some ({ shared with
          tasksByTag :=
            Function.update shared.tasksByTag tag ((shared.tasksByTag tag).remove task) },
        .expire task rest)
  | .set task =>
      if shared.future task = some .new then
        some ({ shared with future := Function.update shared.future task (some .ran) }, .idle)
      else some (shared, .idle)
  | .cancel task =>
      match shared.monitor task with
      | some _ => none
      | none =>
        if shared.isDone task then some (shared, .idle)
        else some (shared.enter thread task, .cancelResult task)
  | .cancelResult task =>
      if shared.result task ∧ shared.future task = some .new then
        some ({ shared with future := Function.update shared.future task (some .cancelled) },
          .cancelSet task)
      else some (shared, .cancelSet task)
  | .cancelSet task =>
      some ({ shared.leave task with cancelled := Function.update shared.cancelled task true },
        .idle)

/-- The caller's code throws, or the executor does not accept the task. -/
def throws (shared : Shared Task Tag Thread) :
    Pc Task Tag → Option (Shared Task Tag Thread × Pc Task Tag)
  | .onSubmit task | .runnerSubmit task => some (shared.leave task, .idle)
  | .onStart task | .job task => some (shared, .afterEnd task)
  -- The rest of `afterEnd` is left out, the tags of the task included.
  | .onEnd task => some (shared, .set task)
  | _ => none

/-- A worker of the executor begins a task. -/
def start (shared : Shared Task Tag Thread) (task : Task) :
    Pc Task Tag → Option (Shared Task Tag Thread × Pc Task Tag)
  | .idle =>
      if task ∈ shared.queue ∧ shared.future task = some .new then
        some ({ shared with queue := shared.queue.erase task }, .beforeStart task)
      else none
  | _ => none

def calls (shared : Shared Task Tag Thread) (entry : Pc Task Tag) :
    Pc Task Tag → Option (Shared Task Tag Thread × Pc Task Tag)
  | .idle => some (shared, entry)
  | _ => none

def Action.thread : Action Task Tag Thread → Thread
  | .submit thread _ _ | .cancel thread _ | .start thread _ | .next thread | .throws thread =>
      thread

def perform (basicTask : Task → BasicTask Tag) (shared : Shared Task Tag Thread)
    (pc : Pc Task Tag) : Action Task Tag Thread → Option (Shared Task Tag Thread × Pc Task Tag)
  | .submit _ task flags => calls shared (.submit task flags) pc
  | .cancel _ task => calls shared (.cancel task) pc
  | .start _ task => start shared task pc
  | .next thread => exec basicTask thread shared pc
  | .throws _ => throws shared pc

def State.goto (state : State Task Tag Thread) (thread : Thread)
    (moved : Shared Task Tag Thread × Pc Task Tag) : State Task Tag Thread :=
  { shared := moved.1, pc := Function.update state.pc thread moved.2 }

def step (basicTask : Task → BasicTask Tag) (state : State Task Tag Thread)
    (action : Action Task Tag Thread) : Option (State Task Tag Thread) :=
  (perform basicTask state.shared (state.pc action.thread) action).map
    (state.goto action.thread)

def basicExecutionManager (basicTask : Task → BasicTask Tag) (Thread : Type)
    [DecidableEq Thread] : System (State Task Tag Thread) (Action Task Tag Thread) where
  initial :=
    { shared :=
        { monitor := fun _ => none, totalTaskCount := 0, activeTaskCount := 0
          incompleteTaskCount := 0, submitted := LinkedSet.empty
          tags := fun task => (basicTask task).tags
          expirationPolicy := fun _ => .IMMEDIATE, tasksByTag := fun _ => LinkedSet.empty
          queue := [], future := fun _ => none, result := fun _ => false
          cancelled := fun _ => false, ended := LinkedSet.empty }
      pc := fun _ => .idle }
  step := step basicTask

end Steps
end Brooklyn.BasicExecutionManager
