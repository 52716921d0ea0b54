import Brooklyn.ScheduledTask

/-!
The chain of a scheduled task. Between its first submission and its end the chain is at
one place: with a thread, delayed, or as a run that is queued. It ends when the task is
done or has no period any more, as long as every run comes to the point where it
schedules the next one.

A `cancel` between `result.cancel` and `cancelled = true` is a delicate point: the
task is done only by what `result` refers to, and an assignment to `result` that is
late may take that back.
-/

namespace Brooklyn.ScheduledTask
open Transition
open SingleThreadedScheduler (FutureTask)

variable {Thread : Type}

inductive Phase (Thread : Type) where
  | fresh
  | held (thread : Thread)
  | delayed (delayed : Nat)
  | queued (run : Nat)
  | ended

namespace Pc

def carries : Pc → Bool
  | .isDone _ | .schedule _ | .newTask _ | .submitRun _ _ | .recentRun _ | .job _ | .countRun _
  | .checkPeriod _ => true
  | _ => false

/-- The call of `submit` that submits the task. -/
def first : Pc → Bool
  | .isDone none | .schedule none | .setResult none _ => true
  | _ => false

def inMonitor : Pc → Bool
  | .isDone none | .schedule none | .setResult none _ | .cancelResult | .cancelSet => true
  | _ => false

/-- The next run is certain. -/
def due : Pc → Bool
  | .schedule _ | .newTask _ | .submitRun _ _ | .recentRun _ | .job _ | .countRun _ => true
  | _ => false

/-- The job was begun and the run is not counted yet. -/
def uncounted : Pc → Bool
  | .job _ | .countRun _ => true
  | _ => false

def Asserts (shared : Shared Thread) : Pc → Prop
  | .setResult _ delayed => delayed ∈ shared.assigning ∧ delayed < shared.scheduled
  | .newTask delayed | .delayedSet delayed =>
      delayed < shared.scheduled ∧ delayed ∉ shared.delayedQueue
  | .submitRun delayed run =>
      (delayed < shared.scheduled ∧ delayed ∉ shared.delayedQueue) ∧
        run ∉ shared.submittedRuns ∧ run < shared.newTasks
  | _ => True

end Pc

namespace Phase

def runQueue : Phase Thread → List Nat
  | .queued run => [run]
  | _ => []

def due (pc : Thread → Pc) : Phase Thread → Bool
  | .held thread => (pc thread).due
  | .delayed _ | .queued _ => true
  | _ => false

def uncounted (pc : Thread → Pc) : Phase Thread → Bool
  | .held thread => (pc thread).uncounted
  | _ => false

end Phase

structure Chain (shared : Shared Thread) (pc : Thread → Pc) (phase : Phase Thread) : Prop where
  delayed : ∀ delayed ∈ shared.delayedQueue, shared.future delayed = some .new →
    phase = .delayed delayed
  pending : ∀ delayed, phase = .delayed delayed →
    delayed ∈ shared.delayedQueue ∧ shared.future delayed = some .new
  queued : shared.runQueue = phase.runQueue
  carries : ∀ thread, (pc thread).carries = true ↔ phase = .held thread

structure Counts (flags : Flags) (shared : Shared Thread) (due uncounted : Bool) : Prop where
  runs : shared.runs = shared.runCount + uncounted.toNat
  due : due = true → ∀ limit, flags.maxIterations = some limit → (shared.runCount : Int) < limit
  bounded : ∀ limit, flags.maxIterations = some limit → shared.runCount ≤ limit.toNat

/-- Why a chain ends. -/
def Over (flags : Flags) (shared : Shared Thread) (pc : Thread → Pc) : Prop :=
  shared.cancelled = true ∨ shared.iterated flags = true ∨ shared.period = none ∨
    (shared.resultIs .cancelled = true ∧ shared.assigning = [] ∧
      ∃ thread, pc thread = .cancelSet)

structure Stages (flags : Flags) (shared : Shared Thread) (pc : Thread → Pc)
    (phase : Phase Thread) : Prop where
  fresh : phase = .fresh → shared.submitted = false
  ended : phase = .ended → Over flags shared pc
  started : shared.result = none → phase = .fresh ∨ phase = .ended ∨
    ∃ thread, (pc thread).first = true
  cancels : ∀ delayed, shared.future delayed = some .cancelled →
    shared.cancelled = true ∨ ∃ thread, pc thread = .cancelSet

structure Assertions (shared : Shared Thread) (pc : Thread → Pc) : Prop where
  asserts : ∀ thread, (pc thread).Asserts shared
  apart : ∀ left right leftCaller rightCaller delayed, pc left = .setResult leftCaller delayed →
    pc right = .setResult rightCaller delayed → left = right
  runs : ∀ run ∈ shared.submittedRuns, run < shared.newTasks
  queued : ∀ delayed ∈ shared.delayedQueue, delayed < shared.scheduled
  unscheduled : ∀ delayed, shared.scheduled ≤ delayed → shared.future delayed = none

structure Linked (flags : Flags) (state : State Thread) (phase : Phase Thread) : Prop where
  chain : Chain state.shared state.pc phase
  monitored : Monitored Pc.inMonitor state.shared.monitor state.pc
  counts : Counts flags state.shared (phase.due state.pc) (phase.uncounted state.pc)
  stages : Stages flags state.shared state.pc phase
  assertions : Assertions state.shared state.pc

section Updates
variable [DecidableEq Thread] {flags : Flags} {before after : Shared Thread} {pc : Thread → Pc}
  {thread : Thread} {next : Pc} {phase : Phase Thread}

/-- What a step does to the things that a chain can end by. -/
structure Settles (before after : Shared Thread) (point next : Pc) : Prop where
  cancelled : before.cancelled = true → after.cancelled = true
  runCount : before.runCount ≤ after.runCount
  future : ∀ delayed, before.future delayed = some .cancelled →
    after.future delayed = some .cancelled
  cancels : ∀ delayed, after.future delayed = some .cancelled →
    before.future delayed = some .cancelled ∨ next = .cancelSet
  window : point = .cancelSet → after.cancelled = true

end Updates

section Steps
variable [DecidableEq Thread] {flags : Flags} {state : State Thread} {phase : Phase Thread}
  {thread : Thread} {after : Shared Thread} {next : Pc}

omit [DecidableEq Thread] in
theorem asserted_at (linked : Linked flags state phase) {point : Pc}
    (at_pc : state.pc thread = point) : point.Asserts state.shared :=
  at_pc ▸ linked.assertions.asserts thread

end Steps
end Brooklyn.ScheduledTask
