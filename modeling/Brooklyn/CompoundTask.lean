import Brooklyn.Transition
import Mathlib.Algebra.BigOperators.Group.Finset.Basic
import Mathlib.Algebra.Order.BigOperators.Group.Finset
import Mathlib.Data.Fintype.Basic
import Mathlib.Logic.Relation

/-!
`SequentialTask` and `ParallelTask` on the threads of `BasicExecutionManager`. A child may be
shared by several tasks, and anybody may submit or cancel any task at any time.

`submit` is one step, at `submitTimeUtc`: who asks for the future then waits for the monitor of
the task. A `cancel` holds it too, but the future can end before that reaches it. No tag has a
scheduler, so each accepted task gets a thread. A plain job is the caller's code, which ends;
what it does once its task has been cancelled is not seen. A running task has its manager, so
that `submitIfNecessary` has one to submit to without an execution context.
-/

namespace Brooklyn.CompoundTask
open Transition Relation

variable {Task Object Fault : Type}

inductive Throwable (Fault : Type) where
  | thrown (checked : Bool) (fault : Fault)
  | runtimeException (cause : Throwable Fault)
  | executionException (cause : Throwable Fault)
  | cancellationException
  | interruptedException

/-- `Throwables.propagate` wraps what is checked. -/
def Throwable.propagate : Throwable Fault → Throwable Fault
  | .thrown true fault => .runtimeException (.thrown true fault)
  | .executionException cause => .runtimeException (.executionException cause)
  | .interruptedException => .runtimeException .interruptedException
  | unchecked => unchecked

inductive Value (Object : Type) where
  | object (object : Object)
  | list (values : List (Value Object))

abbrev Outcome (Object Fault : Type) := Except (Throwable Fault) (Value Object)

inductive Kind where
  | sequential
  | parallel

inductive Job (Task Object Fault : Type) where
  | plain (outcome : Outcome Object Fault)
  | compound (kind : Kind) (children : List Task)

def Job.children : Job Task Object Fault → List Task
  | .plain _ => []
  | .compound _ children => children

/-- The children of a task are made before it. -/
structure Tasks (Task Object Fault : Type) where
  job : Task → Job Task Object Fault
  made : WellFounded fun child task => child ∈ (job task).children

/-- Where `runJobs` is in a loop over the children. -/
structure Loop (Task Object : Type) where
  child : Task
  rest : List Task
  result : List (Value Object)

inductive Pc (Task Object Fault : Type) where
  | idle
  | isCancelled
  | job (outcome : Outcome Object Fault)
  | isSubmitted (loop : Loop Task Object)
  | submit (loop : Loop Task Object)
  | blockUntilStarted (loop : Loop Task Object)
  | get (loop : Loop Task Object)
  | set (outcome : Outcome Object Fault)
  | ended

inductive FutureTask (Object Fault : Type) where
  | new
  | cancelled
  | ran (outcome : Outcome Object Fault)

structure State (Task Object Fault : Type) where
  future : Task → Option (FutureTask Object Fault)
  cancelled : Task → Bool
  pc : Task → Pc Task Object Fault

def State.isCancelled (state : State Task Object Fault) (task : Task) : Bool :=
  state.cancelled task || match state.future task with
    | some .cancelled => true
    | _ => false

def State.isDone (state : State Task Object Fault) (task : Task) : Bool :=
  state.cancelled task || match state.future task with
    | some .cancelled | some (.ran _) => true
    | _ => false

inductive Action (Task : Type) where
  | submit (task : Task)
  | cancel (task : Task)
  | cancelLate (task : Task)
  | begin (task : Task)
  | next (task : Task)
  | interrupt (task : Task)

def sequentialLoop : List Task → List (Value Object) → Pc Task Object Fault
  | [], result => .set (.ok (.list result))
  | child :: rest, result => .isSubmitted ⟨child, rest, result⟩

/-- The second loop of `ParallelTask`. -/
def getLoop : List Task → List (Value Object) → Pc Task Object Fault
  | [], result => .set (.ok (.list result))
  | child :: rest, result => .blockUntilStarted ⟨child, rest, result⟩

def submitLoop (children : List Task) : List Task → Pc Task Object Fault
  | [] => getLoop children []
  | child :: rest => .isSubmitted ⟨child, rest, []⟩

def Job.runJobs : Job Task Object Fault → Pc Task Object Fault
  | .plain outcome => .job outcome
  | .compound .sequential children => sequentialLoop children []
  | .compound .parallel children => submitLoop children children

/-- Where `runJobs` goes on when `submitIfNecessary` returns. -/
def Job.afterSubmit (loop : Loop Task Object) : Job Task Object Fault → Pc Task Object Fault
  | .compound .parallel children => submitLoop children loop.rest
  | _ => .blockUntilStarted loop

def Job.afterGet (loop : Loop Task Object) (value : Value Object) :
    Job Task Object Fault → Pc Task Object Fault
  | .compound .parallel _ => getLoop loop.rest (loop.result ++ [value])
  | _ => sequentialLoop loop.rest (loop.result ++ [value])

section Steps
variable [DecidableEq Task] (tasks : Tasks Task Object Fault) (state : State Task Object Fault)

namespace State

def goto (task : Task) (pc : Pc Task Object Fault) : State Task Object Fault :=
  { state with pc := Function.update state.pc task pc }

/-- A task that has its future already is not submitted again. -/
def submit (task : Task) : State Task Object Fault :=
  match state.future task with
  | some _ => state
  | none => { state with future := Function.update state.future task (some .new) }

def cancel (task : Task) : State Task Object Fault :=
  if state.isDone task then state
  else
    { state with
      cancelled := Function.update state.cancelled task true
      future := Function.update state.future task
        ((state.future task).map fun _ => .cancelled) }

/-- A task whose future ended while it was being cancelled. -/
def cancelLate (task : Task) : State Task Object Fault :=
  { state with cancelled := Function.update state.cancelled task true }

/-- A future that was cancelled stays so. -/
def set (task : Task) (outcome : Outcome Object Fault) : State Task Object Fault :=
  match state.future task with
  | some .new => { state with future := Function.update state.future task (some (.ran outcome)) }
  | _ => state

/-- The thread of a task that has begun; `none` while it waits. -/
def next (task : Task) : Option (State Task Object Fault) :=
  match state.pc task with
  | .idle | .ended => none
  | .isCancelled =>
      some (state.goto task (if state.isCancelled task then .set (.error .cancellationException)
        else (tasks.job task).runJobs))
  | .job outcome => some (state.goto task (.set outcome))
  | .isSubmitted loop =>
      match state.future loop.child with
      | some _ => some (state.goto task ((tasks.job task).afterSubmit loop))
      | none => some (state.goto task (.submit loop))
  | .submit loop =>
      some ((state.submit loop.child).goto task ((tasks.job task).afterSubmit loop))
  | .blockUntilStarted loop =>
      match state.cancelled loop.child, state.future loop.child with
      | true, _ => some (state.goto task (.set (.error .cancellationException)))
      | false, some _ => some (state.goto task (.get loop))
      | false, none => none
  | .get loop =>
      match state.future loop.child with
      | some (.ran (.ok value)) => some (state.goto task ((tasks.job task).afterGet loop value))
      | some (.ran (.error cause)) =>
          some (state.goto task (.set (.error (.executionException cause))))
      | some .cancelled => some (state.goto task (.set (.error .cancellationException)))
      | _ => none
  | .set outcome => some ((state.set task (outcome.mapError Throwable.propagate)).goto task .ended)

end State

def step : Action Task → Option (State Task Object Fault)
  | .submit task => some (state.submit task)
  | .cancel task => some (state.cancel task)
  | .cancelLate task =>
      match state.future task with
      | some (.ran _) => some (state.cancelLate task)
      | _ => none
  | .begin task =>
      match state.pc task, state.future task with
      | .idle, some .new => some (state.goto task .isCancelled)
      | _, _ => none
  | .next task => state.next tasks task
  | .interrupt task =>
      -- `cancel` interrupts the thread, which finds out where it waits.
      match state.future task, state.pc task with
      | some .cancelled, .blockUntilStarted _ =>
        some (state.goto task (.set (.error (.runtimeException .interruptedException))))
      | some .cancelled, .get _ =>
        some (state.goto task (.set (.error .interruptedException)))
      | _, _ => none

def system : System (State Task Object Fault) (Action Task) where
  initial := ⟨fun _ => none, fun _ => false, fun _ => .idle⟩
  step := step tasks

end Steps

/-! What a task comes to if its children run one after the other. -/
section Evaluation
variable (tasks : Tasks Task Object Fault)

def gather : List (Outcome Object Fault) → List (Value Object) → Outcome Object Fault
  | [], result => .ok (.list result)
  | .ok value :: rest, result => gather rest (result ++ [value])
  | .error cause :: _, _ => .error (.runtimeException (.executionException cause))

def Tasks.evaluate (task : Task) : Outcome Object Fault :=
  match _job : tasks.job task with
  | .plain outcome => outcome.mapError Throwable.propagate
  | .compound _ children => gather (children.attach.map fun child => Tasks.evaluate child.1) []
termination_by tasks.made.wrap task
decreasing_by
  show child.1 ∈ (tasks.job task).children
  rw [_job]
  exact child.2

variable {tasks} {task : Task}

theorem evaluate_plain {outcome : Outcome Object Fault} (job : tasks.job task = .plain outcome) :
    tasks.evaluate task = outcome.mapError Throwable.propagate := by
  rw [Tasks.evaluate]
  split
  next is =>
    cases job.symm.trans is
    rfl
  next is => cases job.symm.trans is

theorem evaluate_compound {kind : Kind} {children : List Task}
    (job : tasks.job task = .compound kind children) :
    tasks.evaluate task = gather (children.map tasks.evaluate) [] := by
  rw [Tasks.evaluate]
  split
  next is => cases job.symm.trans is
  next is =>
    cases job.symm.trans is
    rw [List.attach_map_val]

/-- Values go to the result, until a child fails. -/
theorem gather_values (values : List (Value Object)) (rest : List (Outcome Object Fault))
    (result : List (Value Object)) :
    gather (values.map .ok ++ rest) result = gather rest (result ++ values) := by
  induction values generalizing result with
  | nil => rw [List.append_nil]; rfl
  | cons value values ih =>
    refine (ih (result ++ [value])).trans ?_
    rw [List.append_assoc]
    rfl

end Evaluation

section Invariants
variable {tasks : Tasks Task Object Fault} {state before after : State Task Object Fault}
  {task : Task} {loop : Loop Task Object} {kind : Kind} {front rest children : List Task}
  {values result : List (Value Object)}

def Tasks.Child (tasks : Tasks Task Object Fault) (child task : Task) : Prop :=
  child ∈ (tasks.job task).children

namespace State
variable (state : State Task Object Fault)

def Submitted (task : Task) : Prop := state.future task ≠ none

def Over (task : Task) : Prop :=
  state.future task = some .cancelled ∨ ∃ outcome, state.future task = some (.ran outcome)

/-- Each child has ended with the value at its place. -/
def Ran (children : List Task) (values : List (Value Object)) : Prop :=
  List.Forall₂ (fun child value => state.future child = some (.ran (.ok value))) children values

end State

/-- The outcome is that of the children one after the other, and a value has come after theirs.
Only where a task at or below this one is cancelled, there can be another outcome, an error. -/
def Explained (tasks : Tasks Task Object Fault) (state : State Task Object Fault) (task : Task) :
    Outcome Object Fault → Prop
  | .ok value => tasks.evaluate task = .ok value ∧ ∀ kind children,
      tasks.job task = .compound kind children → ∃ values, value = .list values ∧
        state.Ran children values
  | .error cause => tasks.evaluate task = .error cause ∨
      ∃ below, ReflTransGen tasks.Child below task ∧ state.cancelled below = true

/-- A sequential task submits a child when the earlier ones have ended. -/
def Submits (tasks : Tasks Task Object Fault) (state : State Task Object Fault) (task : Task)
    (loop : Loop Task Object) : Prop :=
  ∃ front, (tasks.job task = .compound .sequential (front ++ loop.child :: loop.rest) ∧
      state.Ran front loop.result) ∨
    (tasks.job task = .compound .parallel (front ++ loop.child :: loop.rest) ∧
      ∀ child ∈ front, state.Submitted child)

/-- A parallel task waits for a child when the later ones are submitted. -/
def Collects (tasks : Tasks Task Object Fault) (state : State Task Object Fault) (task : Task)
    (loop : Loop Task Object) : Prop :=
  ∃ kind front, tasks.job task = .compound kind (front ++ loop.child :: loop.rest) ∧
    state.Ran front loop.result ∧ state.Submitted loop.child ∧
      (kind = .parallel → ∀ child ∈ loop.rest, state.Submitted child)

def Asserts (tasks : Tasks Task Object Fault) (state : State Task Object Fault) (task : Task) :
    Pc Task Object Fault → Prop
  | .idle | .isCancelled => True
  | .job outcome => tasks.job task = .plain outcome
  | .isSubmitted loop | .submit loop => Submits tasks state task loop
  | .blockUntilStarted loop | .get loop => Collects tasks state task loop
  | .set outcome => state.future task = some .cancelled ∨
      Explained tasks state task (outcome.mapError Throwable.propagate)
  | .ended => state.Over task

def Begun (state : State Task Object Fault) (task : Task) (pc : Pc Task Object Fault) : Prop :=
  pc = .idle ∨ state.Submitted task

structure Sound (tasks : Tasks Task Object Fault) (state : State Task Object Fault) : Prop where
  explained : ∀ task outcome, state.future task = some (.ran outcome) →
    Explained tasks state task outcome
  stopped : ∀ task, state.future task = some .cancelled → state.cancelled task = true
  begun : ∀ task, Begun state task (state.pc task)
  asserts : ∀ task, Asserts tasks state task (state.pc task)

/-- No step takes these back. -/
structure Grows (before after : State Task Object Fault) : Prop where
  submitted : ∀ task, before.Submitted task → after.Submitted task
  cancelled : ∀ task, before.cancelled task = true → after.cancelled task = true
  stays : ∀ task, before.Over task → after.future task = before.future task

section Growing
variable (grows : Grows before after)
include grows

theorem Grows.ran (ran : before.Ran children values) : after.Ran children values :=
  List.Forall₂.imp (fun child value ended =>
    (grows.stays child (Or.inr ⟨.ok value, ended⟩)).trans ended) ran

theorem Grows.explained {outcome : Outcome Object Fault}
    (explained : Explained tasks before task outcome) : Explained tasks after task outcome := by
  cases outcome with
  | ok value =>
    refine ⟨explained.1, fun kind children job => ?_⟩
    obtain ⟨values, same, ran⟩ := explained.2 kind children job
    exact ⟨values, same, grows.ran ran⟩
  | error cause =>
    exact explained.imp_right fun ⟨below, under, stopped⟩ =>
      ⟨below, under, grows.cancelled below stopped⟩

theorem Grows.submits (submits : Submits tasks before task loop) :
    Submits tasks after task loop := by
  obtain ⟨front, ⟨job, ran⟩ | ⟨job, submitted⟩⟩ := submits
  · exact ⟨front, Or.inl ⟨job, grows.ran ran⟩⟩
  · exact ⟨front, Or.inr ⟨job, fun child member => grows.submitted _ (submitted child member)⟩⟩

theorem Grows.collects (collects : Collects tasks before task loop) :
    Collects tasks after task loop := by
  obtain ⟨kind, front, job, ran, submitted, later⟩ := collects
  exact ⟨kind, front, job, grows.ran ran, grows.submitted _ submitted,
    fun parallel child member => grows.submitted _ (later parallel child member)⟩

theorem Grows.asserts {pc : Pc Task Object Fault} (asserts : Asserts tasks before task pc) :
    Asserts tasks after task pc := by
  cases pc with
  | idle | isCancelled => trivial
  | job outcome => exact asserts
  | isSubmitted loop | submit loop => exact grows.submits asserts
  | blockUntilStarted loop | get loop => exact grows.collects asserts
  | set outcome =>
    refine asserts.imp (fun stopped => ?_) grows.explained
    exact (grows.stays task (Or.inl stopped)).trans stopped
  | ended =>
    change after.Over task
    rw [State.Over, grows.stays task asserts]
    exact asserts

end Growing

/-! What `runJobs` asserts as it goes on. -/
section Loops
variable (sound : Sound tasks state)
include sound

theorem Sound.evaluated (ran : state.Ran children values) :
    children.map tasks.evaluate = values.map .ok := by
  induction ran with
  | nil => rfl
  | cons ended _ ih => exact congrArg₂ List.cons (sound.explained _ _ ended).1 ih

theorem explained_values (job : tasks.job task = .compound kind children)
    (ran : state.Ran children values) : Explained tasks state task (.ok (.list values)) := by
  refine ⟨?_, fun kind children' job' => ?_⟩
  · rw [evaluate_compound job, sound.evaluated ran]
    simpa [gather] using gather_values values [] []
  · cases job.symm.trans job'
    exact ⟨values, rfl, ran⟩

/-- A child that fails is the first to do so, and a task below it that is cancelled is below. -/
theorem explained_failure (collects : Collects tasks state task loop) {cause : Throwable Fault}
    (ended : state.future loop.child = some (.ran (.error cause))) :
    Explained tasks state task (.error (.runtimeException (.executionException cause))) := by
  obtain ⟨kind, front, job, ran, -, -⟩ := collects
  rcases sound.explained _ _ ended with failed | ⟨below, under, cancelled⟩
  · left
    rw [evaluate_compound job, List.map_append, sound.evaluated ran, gather_values, List.map_cons,
      failed]
    rfl
  · refine Or.inr ⟨below, under.tail ?_, cancelled⟩
    rw [Tasks.Child, job]
    exact List.mem_append_right front List.mem_cons_self

omit sound in
theorem explained_cancelled (collects : Collects tasks state task loop) {cause : Throwable Fault}
    (cancelled : state.cancelled loop.child = true) :
    Explained tasks state task (.error cause) := by
  obtain ⟨kind, front, job, -⟩ := collects
  refine Or.inr ⟨loop.child, .single ?_, cancelled⟩
  rw [Tasks.Child, job]
  exact List.mem_append_right front List.mem_cons_self

theorem sequentialLoop_asserts (front : List Task)
    (job : tasks.job task = .compound .sequential (front ++ rest))
    (ran : state.Ran front result) : Asserts tasks state task (sequentialLoop rest result) := by
  cases rest with
  | nil => exact Or.inr (explained_values sound job (by rwa [List.append_nil]))
  | cons child rest => exact ⟨front, Or.inl ⟨job, ran⟩⟩

theorem getLoop_asserts (front : List Task)
    (job : tasks.job task = .compound .parallel (front ++ rest))
    (ran : state.Ran front result) (submitted : ∀ child ∈ rest, state.Submitted child) :
    Asserts tasks state task (getLoop rest result) := by
  cases rest with
  | nil => exact Or.inr (explained_values sound job (by rwa [List.append_nil]))
  | cons child rest => exact ⟨.parallel, front, job, ran, submitted child List.mem_cons_self,
      fun _ later member => submitted later (List.mem_cons_of_mem child member)⟩

theorem submitLoop_asserts (front : List Task)
    (job : tasks.job task = .compound .parallel (front ++ rest))
    (submitted : ∀ child ∈ front, state.Submitted child) :
    Asserts tasks state task (submitLoop (front ++ rest) rest) := by
  cases rest with
  | nil =>
    rw [List.append_nil] at job ⊢
    exact getLoop_asserts sound [] job .nil submitted
  | cons child rest => exact ⟨front, Or.inr ⟨job, submitted⟩⟩

theorem runJobs_asserts : Asserts tasks state task (tasks.job task).runJobs := by
  cases job : tasks.job task with
  | plain outcome => exact job
  | compound kind children =>
    cases kind with
    | sequential => exact sequentialLoop_asserts sound [] job .nil
    | parallel => exact submitLoop_asserts sound [] job nofun

theorem afterSubmit_asserts (submits : Submits tasks state task loop)
    (submitted : state.Submitted loop.child) :
    Asserts tasks state task ((tasks.job task).afterSubmit loop) := by
  obtain ⟨front, ⟨job, ran⟩ | ⟨job, earlier⟩⟩ := submits
  · rw [job]
    exact ⟨.sequential, front, job, ran, submitted, nofun⟩
  · rw [job]
    rw [List.append_cons] at job ⊢
    refine submitLoop_asserts sound _ job fun child member => ?_
    rcases List.mem_append.mp member with before | last
    · exact earlier child before
    · rwa [List.mem_singleton.mp last]

theorem afterGet_asserts (collects : Collects tasks state task loop) {value : Value Object}
    (ended : state.future loop.child = some (.ran (.ok value))) :
    Asserts tasks state task ((tasks.job task).afterGet loop value) := by
  obtain ⟨kind, front, job, ran, -, later⟩ := collects
  have further : state.Ran (front ++ [loop.child]) (loop.result ++ [value]) :=
    List.rel_append ran (.cons ended .nil)
  rw [job]
  rw [List.append_cons] at job
  cases kind with
  | sequential => exact sequentialLoop_asserts sound _ job further
  | parallel => exact getLoop_asserts sound _ job further (later rfl)

end Loops

section Stepping
variable {entry : Option (FutureTask Object Fault)}

theorem not_over_of (free : state.future task = none ∨ state.future task = some .new) :
    ¬ state.Over task := by
  rcases free with free | free <;> simp [State.Over, free]

theorem Sound.isCancelled (sound : Sound tasks state) (cancelled : state.isCancelled task = true) :
    state.cancelled task = true := by
  unfold State.isCancelled at cancelled
  split at cancelled
  next stopped => exact sound.stopped task stopped
  next => simpa using cancelled

variable [DecidableEq Task]

/-- The future of a task that is not over changes. -/
theorem grows_update (free : ¬ state.Over task) (given : entry = none → state.future task = none) :
    Grows state { state with future := Function.update state.future task entry } where
  submitted other submitted := by
    change Function.update state.future task entry other ≠ none
    by_cases same : other = task
    · subst same
      rw [Function.update_self]
      exact mt given submitted
    · rwa [Function.update_of_ne same]
  cancelled _ := id
  stays other final := by
    refine Function.update_of_ne ?_ _ _
    rintro rfl
    exact free final

theorem Sound.update (sound : Sound tasks state) (free : ¬ state.Over task)
    (given : entry = none → state.future task = none)
    (ran : ∀ outcome, entry = some (.ran outcome) → Explained tasks state task outcome)
    (stopped : entry = some .cancelled → state.cancelled task = true) :
    Sound tasks { state with future := Function.update state.future task entry } := by
  have grows := grows_update free given
  refine ⟨fun other outcome ended => grows.explained ?_, fun other ended => ?_,
    fun other => (sound.begun other).imp_right (grows.submitted other),
    fun other => grows.asserts (sound.asserts other)⟩
  all_goals
    change Function.update state.future task entry other = _ at ended
    by_cases same : other = task
    · subst same
      rw [Function.update_self] at ended
      first | exact ran outcome ended | exact stopped ended
    · rw [Function.update_of_ne same] at ended
      first | exact sound.explained other outcome ended | exact sound.stopped other ended

theorem Sound.submit (sound : Sound tasks state) (task : Task) :
    Sound tasks (state.submit task) ∧ Grows state (state.submit task) ∧
      (state.submit task).Submitted task := by
  unfold State.submit
  cases known : state.future task with
  | some future =>
    refine ⟨sound, ⟨fun _ => id, fun _ => id, fun _ _ => rfl⟩, ?_⟩
    rw [State.Submitted, known]
    nofun
  | none =>
    have free := not_over_of (Or.inl known)
    refine ⟨sound.update free nofun nofun nofun, grows_update free nofun, ?_⟩
    simp [State.Submitted]

theorem Sound.set (sound : Sound tasks state) (submitted : state.Submitted task)
    {outcome : Outcome Object Fault}
    (explained : state.future task = some .cancelled ∨ Explained tasks state task outcome) :
    Sound tasks (state.set task outcome) ∧ (state.set task outcome).Over task := by
  unfold State.set
  split
  next running =>
    refine ⟨sound.update (not_over_of (Or.inr running)) nofun ?_ nofun,
      Or.inr ⟨outcome, Function.update_self _ _ _⟩⟩
    rintro _ ⟨⟩
    exact explained.resolve_left (by simp [running])
  next stopped =>
    refine ⟨sound, ?_⟩
    cases known : state.future task with
    | none => exact absurd known submitted
    | some future =>
      cases future with
      | new => exact absurd known stopped
      | cancelled => exact Or.inl known
      | ran outcome => exact Or.inr ⟨outcome, known⟩

theorem Sound.cancelLate (sound : Sound tasks state) (task : Task) :
    Sound tasks (state.cancelLate task) := by
  have kept (other : Task) (cancelled : state.cancelled other = true) :
      (state.cancelLate task).cancelled other = true := by
    by_cases same : other = task <;> simp_all [State.cancelLate]
  have grows : Grows state (state.cancelLate task) := ⟨fun _ => id, kept, fun _ _ => rfl⟩
  exact ⟨fun other outcome ended => grows.explained (sound.explained other outcome ended),
    fun other ended => kept other (sound.stopped other ended), sound.begun,
    fun other => grows.asserts (sound.asserts other)⟩

theorem Sound.cancel (sound : Sound tasks state) (task : Task) : Sound tasks (state.cancel task) := by
  unfold State.cancel
  split
  next => exact sound
  next running =>
    refine (sound.cancelLate task).update ?_ (by simp [State.cancelLate]) (by simp)
      (by simp [State.cancelLate])
    rintro (ended | ⟨outcome, ended⟩) <;> simp_all [State.isDone, State.cancelLate]

theorem Sound.goto (sound : Sound tasks state) {pc : Pc Task Object Fault}
    (submitted : state.Submitted task) (asserts : Asserts tasks state task pc) :
    Sound tasks (state.goto task pc) := by
  have grows : Grows state (state.goto task pc) := ⟨fun _ => id, fun _ => id, fun _ _ => rfl⟩
  exact ⟨sound.explained, sound.stopped,
    forall_after_step state.pc task pc sound.begun (Or.inr submitted) fun _ _ begun => begun,
    forall_after_step state.pc task pc sound.asserts (grows.asserts asserts) fun _ _ kept =>
      grows.asserts kept⟩

theorem Sound.next (sound : Sound tasks before) (ran : before.next tasks task = some after) :
    Sound tasks after := by
  have asserts := sound.asserts task
  have begun := sound.begun task
  unfold State.next at ran
  generalize before.pc task = pc at ran begun asserts
  have goes {next : Pc Task Object Fault} (here : pc ≠ .idle)
      (asserts : Asserts tasks before task next) : Sound tasks (before.goto task next) :=
    sound.goto (begun.resolve_left here) asserts
  have cancels {loop : Loop Task Object} (collects : Collects tasks before task loop)
      (cancelled : before.cancelled loop.child = true) :
      Asserts tasks before task (.set (.error .cancellationException)) :=
    Or.inr (explained_cancelled collects cancelled)
  cases pc with
  | idle | ended => cases ran
  | isCancelled =>
    cases ran
    refine goes nofun ?_
    split
    next cancelled => exact Or.inr (Or.inr ⟨task, .refl, sound.isCancelled cancelled⟩)
    next => exact runJobs_asserts sound
  | job outcome =>
    cases ran
    refine goes nofun (Or.inr ?_)
    cases outcome with
    | ok value => exact ⟨evaluate_plain asserts, fun _ _ job => by cases asserts.symm.trans job⟩
    | error cause => exact Or.inl (evaluate_plain asserts)
  | isSubmitted loop =>
    dsimp only at ran
    split at ran <;> cases ran
    next known =>
      exact goes nofun (afterSubmit_asserts sound asserts (by simp [State.Submitted, known]))
    next => exact goes nofun asserts
  | submit loop =>
    cases ran
    obtain ⟨after, grows, submitted⟩ := sound.submit loop.child
    exact after.goto (grows.submitted task (begun.resolve_left nofun))
      (afterSubmit_asserts after (grows.submits asserts) submitted)
  | blockUntilStarted loop =>
    dsimp only at ran
    split at ran <;> cases ran
    next cancelled => exact goes nofun (cancels asserts cancelled)
    next => exact goes nofun asserts
  | get loop =>
    dsimp only at ran
    split at ran <;> cases ran
    next ended => exact goes nofun (afterGet_asserts sound asserts ended)
    next ended => exact goes nofun (Or.inr (explained_failure sound asserts ended))
    next stopped => exact goes nofun (cancels asserts (sound.stopped _ stopped))
  | set outcome =>
    cases ran
    obtain ⟨after, final⟩ := sound.set (begun.resolve_left nofun) asserts
    refine after.goto ?_ final
    rcases final with ended | ⟨outcome, ended⟩ <;> simp [State.Submitted, ended]

theorem Sound.step (sound : Sound tasks before) {action : Action Task}
    (ran : step tasks before action = some after) : Sound tasks after := by
  cases action with
  | submit task =>
    cases ran
    exact (sound.submit task).1
  | cancel task =>
    cases ran
    exact sound.cancel task
  | cancelLate task =>
    unfold CompoundTask.step at ran
    dsimp only at ran
    split at ran <;> cases ran
    exact sound.cancelLate task
  | begin task =>
    unfold CompoundTask.step at ran
    dsimp only at ran
    split at ran <;> cases ran
    next known => exact sound.goto (by simp [State.Submitted, known]) trivial
  | next task => exact sound.next ran
  | interrupt task =>
    unfold CompoundTask.step at ran
    dsimp only at ran
    split at ran <;> cases ran
    all_goals
      next stopped _ =>
      exact sound.goto (by simp [State.Submitted, stopped]) (Or.inl stopped)

theorem sound_reached (run : Reached (system tasks) anyStep state) : Sound tasks state := by
  induction run with
  | initial => exact ⟨nofun, nofun, fun _ => Or.inl rfl, fun _ => trivial⟩
  | next action _ _ ran sound => exact sound.step ran

end Stepping
end Invariants

/-- A task and its only child. -/
def pair : Tasks Bool Nat Unit where
  job task := if task then .compound .parallel [false, false] else .plain (.ok (.object 7))
  made := Subrelation.wf (r := (· < ·)) (fun {child task} member => by
    cases task <;> simp_all [Job.children]) wellFounded_lt

def pair_schedule : List (Action Bool) :=
  [.submit true, .begin true, .next true, .next true, .next true, .next true, .begin false,
    .next false, .next false, .next false, .next true, .next true, .next true, .next true, .next true]

section Order
variable [DecidableEq Task] {tasks : Tasks Task Object Fault} {state : State Task Object Fault}
  {task : Task}

/-- A child is submitted, and waited for, when what it comes after is. -/
theorem children_in_order (run : Reached (system tasks) anyStep state) :
    (∀ loop, state.pc task = .submit loop → Submits tasks state task loop) ∧
      ∀ loop, state.pc task = .get loop → Collects tasks state task loop := by
  have asserts := (sound_reached run).asserts task
  constructor
  all_goals
    intro loop here
    rwa [here] at asserts

theorem pair_in_order : ∃ state,
    (∀ loop, state.pc true = .get loop → Collects pair state true loop) ∧
    state.pc true = .get ⟨false, [false], []⟩ := by
  obtain ⟨state, played, here⟩ : ∃ state, replay (system pair) anyStep (system pair).initial
      (pair_schedule.take 11) = some state ∧ state.pc true = .get ⟨false, [false], []⟩ := ⟨_, rfl, rfl⟩
  exact ⟨state, (children_in_order (replay_reached _ .initial played)).2, here⟩

end Order
end Brooklyn.CompoundTask
