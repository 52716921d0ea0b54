import Brooklyn.ExclusiveSlot
import Brooklyn.Transition

/-!
`MementoFileWriter`: callers, the tasks they submit and the post-execution
listener of each task, over the atomics `executing`, `requireWrite`,
`requireDelete`, `deleted` and `modCount`. A program counter stands before each
access to a shared object, so every interleaving of the source's atomic accesses
is a run. The executor is a pool: any queued task may be started by any idle
thread, which includes the sequential executor the constructor asks for. A
listener runs on the thread that completed its task, or on the thread that adds
it when the task was done already.

`serialize` is `MementoSerializer.toString`; a file is present with its text or
absent. `writes`, `moved`, `deleteCalled` and `outstanding` are history: the
values set by `write`, whether `file` was written, whether `delete` was called,
and the submitted tasks whose listener has not released `executing`. Logging, the
rejection of tasks after a shutdown and `waitForWriteCompleted` are left out.
-/

namespace Brooklyn.MementoFileWriter
open Transition
open ExclusiveSlot (FutureState)

inductive Kind where
  | write
  | delete
deriving DecidableEq

abbrev Task := ExclusiveSlot.Task Kind

inductive Pc (Value : Type) where
  | idle
  | writeSetRequireWrite (val : Value)
  | writeGetRequireDelete
  | writeGetDeleted
  | writeCompareAndSet
  | deleteGetDeleted
  | deleteGetRequireDelete
  | deleteSetRequireDelete
  | deleteCompareAndSet
  | submit (kind : Kind)
  | addListener (id : Nat)
  | writeNowGetAndSet (id : Nat)
  | writeNowTmpFile (id : Nat) (val : Option Value)
  | writeNowMove (id : Nat)
  | writeNowModCount (id : Nat)
  | deleteNowSetDeleted (id : Nat)
  | deleteNowClearRequireDelete (id : Nat)
  | deleteNowFile (id : Nat)
  | deleteNowTmpFile (id : Nat)
  | deleteNowModCount (id : Nat)
  | complete (task : Task)
  | listenerRelease (id : Nat)
  | listenerGetRequireDelete
  | listenerDeleteCompareAndSet
  | listenerGetRequireWrite
  | listenerWriteCompareAndSet
deriving DecidableEq

structure Shared (Value : Type) where
  executing : Bool
  requireWrite : Option Value
  requireDelete : Bool
  deleted : Bool
  modCount : Nat
  file : Option String
  tmpFile : Option String
  queue : List Task
  submitted : Nat
  future : Nat → FutureState
  outstanding : List Nat
  writes : List Value
  moved : Bool
  deleteCalled : Bool

variable {Value Thread : Type}

/-- The text of a file written from a value; a task that found no value writes
the serialization of null. -/
def content (serialize : Option Value → String) (val : Option Value) : String :=
  serialize val ++ "\n"

def startOf (task : Task) : Pc Value :=
  match task.job with
  | .write => .writeNowGetAndSet task.id
  | .delete => .deleteNowSetDeleted task.id

/-- One access of a thread: the shared state after it and the next counter. -/
def exec (serialize : Option Value → String) (shared : Shared Value) :
    Pc Value → Option (Shared Value × Pc Value)
  | .idle => none
  -- `write` keeps its value before it looks at either flag.
  | .writeSetRequireWrite val =>
      some ({ shared with requireWrite := some val, writes := shared.writes ++ [val] },
        .writeGetRequireDelete)
  | .writeGetRequireDelete =>
      some (shared, if shared.requireDelete then .idle else .writeGetDeleted)
  | .writeGetDeleted =>
      some (shared, if shared.deleted then .idle else .writeCompareAndSet)
  | .writeCompareAndSet =>
      if shared.executing then some (shared, .idle)
      else some ({ shared with executing := true }, .submit .write)
  | .deleteGetDeleted =>
      some (shared, if shared.deleted then .idle else .deleteGetRequireDelete)
  | .deleteGetRequireDelete =>
      some (shared, if shared.requireDelete then .idle else .deleteSetRequireDelete)
  | .deleteSetRequireDelete =>
      some ({ shared with requireDelete := true }, .deleteCompareAndSet)
  | .deleteCompareAndSet =>
      if shared.executing then some (shared, .idle)
      else some ({ shared with executing := true }, .submit .delete)
  | .submit kind =>
      some ({ shared with
          queue := shared.queue ++ [⟨shared.submitted, kind⟩]
          submitted := shared.submitted + 1
          outstanding := shared.submitted :: shared.outstanding },
        .addListener shared.submitted)
  | .addListener id =>
      match shared.future id with
      | .done => some (shared, .listenerRelease id)
      | _ => some ({ shared with future := Function.update shared.future id .listening }, .idle)
  | .writeNowGetAndSet id =>
      some ({ shared with requireWrite := none }, .writeNowTmpFile id shared.requireWrite)
  | .writeNowTmpFile id val =>
      some ({ shared with tmpFile := some (content serialize val) }, .writeNowMove id)
  | .writeNowMove id =>
      match shared.tmpFile with
      | some text =>
          some ({ shared with file := some text, tmpFile := none, moved := true },
            .writeNowModCount id)
      | none => some (shared, .complete ⟨id, .write⟩)
  | .writeNowModCount id =>
      some ({ shared with modCount := shared.modCount + 1 }, .complete ⟨id, .write⟩)
  | .deleteNowSetDeleted id =>
      some ({ shared with deleted := true }, .deleteNowClearRequireDelete id)
  | .deleteNowClearRequireDelete id =>
      some ({ shared with requireDelete := false }, .deleteNowFile id)
  | .deleteNowFile id =>
      some ({ shared with file := none }, .deleteNowTmpFile id)
  | .deleteNowTmpFile id =>
      some ({ shared with tmpFile := none }, .deleteNowModCount id)
  | .deleteNowModCount id =>
      some ({ shared with modCount := shared.modCount + 1 }, .complete ⟨id, .delete⟩)
  | .complete task =>
      match shared.future task.id with
      | .listening =>
          some ({ shared with future := Function.update shared.future task.id .done },
            .listenerRelease task.id)
      | _ => some ({ shared with future := Function.update shared.future task.id .done }, .idle)
  | .listenerRelease id =>
      some ({ shared with executing := false, outstanding := shared.outstanding.erase id },
        .listenerGetRequireDelete)
  | .listenerGetRequireDelete =>
      some (shared, if shared.requireDelete then .listenerDeleteCompareAndSet
        else .listenerGetRequireWrite)
  | .listenerDeleteCompareAndSet =>
      if shared.executing then some (shared, .idle)
      else some ({ shared with executing := true }, .submit .delete)
  -- `deleted` is not looked at again here.
  | .listenerGetRequireWrite =>
      some (shared, if shared.requireWrite.isSome then .listenerWriteCompareAndSet else .idle)
  | .listenerWriteCompareAndSet =>
      if shared.executing then some (shared, .idle)
      else some ({ shared with executing := true }, .submit .write)

/-- An I/O failure at an access: an exception of a write ends the task, a
`File.delete` that returns false is ignored. `left` is what a failed
`Files.write` leaves in the temporary file. -/
def ioFailure (shared : Shared Value) (left : Option String) :
    Pc Value → Option (Shared Value × Pc Value)
  | .writeNowTmpFile id _ => some ({ shared with tmpFile := left }, .complete ⟨id, .write⟩)
  | .writeNowMove id => some (shared, .complete ⟨id, .write⟩)
  | .deleteNowFile id => some (shared, .deleteNowTmpFile id)
  | .deleteNowTmpFile id => some (shared, .deleteNowModCount id)
  | _ => none

structure State (Value Thread : Type) where
  shared : Shared Value
  pc : Thread → Pc Value

inductive Action (Value Thread : Type) where
  | write (thread : Thread) (val : Value)
  | delete (thread : Thread)
  | start (thread : Thread) (task : Task)
  | next (thread : Thread)
  | fail (thread : Thread) (left : Option String)

variable [DecidableEq Thread]

def State.goto (state : State Value Thread) (thread : Thread)
    (moved : Shared Value × Pc Value) : State Value Thread :=
  { shared := moved.1, pc := Function.update state.pc thread moved.2 }

def calls (shared : Shared Value) : Pc Value → Pc Value → Option (Shared Value × Pc Value)
  | .idle, entry => some (shared, entry)
  | _, _ => none

def step (serialize : Option Value → String) (state : State Value Thread) :
    Action Value Thread → Option (State Value Thread)
  | .write thread val =>
      (calls state.shared (state.pc thread) (.writeSetRequireWrite val)).map (state.goto thread)
  | .delete thread =>
      (calls { state.shared with deleteCalled := true } (state.pc thread)
        .deleteGetDeleted).map (state.goto thread)
  | .start thread task =>
      if task ∈ state.shared.queue then
        (calls { state.shared with queue := state.shared.queue.erase task } (state.pc thread)
          (startOf task)).map (state.goto thread)
      else none
  | .next thread => (exec serialize state.shared (state.pc thread)).map (state.goto thread)
  | .fail thread left => (ioFailure state.shared left (state.pc thread)).map (state.goto thread)

section StepInversion
variable {serialize : Option Value → String} {state after : State Value Thread}

omit [DecidableEq Thread] in
theorem calls_some {shared : Shared Value} {pc entry : Pc Value} {moved : Shared Value × Pc Value}
    (called : calls shared pc entry = some moved) : pc = .idle ∧ moved = (shared, entry) := by
  cases pc <;> cases called
  exact ⟨rfl, rfl⟩

theorem step_write {thread : Thread} {val : Value}
    (moved : step serialize state (.write thread val) = some after) :
    state.pc thread = .idle ∧
      after = state.goto thread (state.shared, .writeSetRequireWrite val) := by
  obtain ⟨entry, called, same⟩ := Option.map_eq_some_iff.mp moved
  obtain ⟨idle, entered⟩ := calls_some called
  exact ⟨idle, by rw [← same, entered]⟩

theorem step_delete {thread : Thread} (moved : step serialize state (.delete thread) = some after) :
    state.pc thread = .idle ∧
      after = state.goto thread
        ({ state.shared with deleteCalled := true }, .deleteGetDeleted) := by
  obtain ⟨entry, called, same⟩ := Option.map_eq_some_iff.mp moved
  obtain ⟨idle, entered⟩ := calls_some called
  exact ⟨idle, by rw [← same, entered]⟩

theorem step_start {thread : Thread} {task : Task}
    (moved : step serialize state (.start thread task) = some after) :
    state.pc thread = .idle ∧ task ∈ state.shared.queue ∧
      after = state.goto thread
        ({ state.shared with queue := state.shared.queue.erase task }, startOf task) := by
  simp only [step] at moved
  split at moved
  · next waiting =>
    obtain ⟨entry, called, same⟩ := Option.map_eq_some_iff.mp moved
    obtain ⟨idle, entered⟩ := calls_some called
    exact ⟨idle, waiting, by rw [← same, entered]⟩
  · cases moved

theorem step_next {thread : Thread} (moved : step serialize state (.next thread) = some after) :
    ∃ result, exec serialize state.shared (state.pc thread) = some result ∧
      after = state.goto thread result := by
  obtain ⟨result, ran, same⟩ := Option.map_eq_some_iff.mp moved
  exact ⟨result, ran, same.symm⟩

theorem step_fail {thread : Thread} {left : Option String}
    (moved : step serialize state (.fail thread left) = some after) :
    ∃ result, ioFailure state.shared left (state.pc thread) = some result ∧
      after = state.goto thread result := by
  obtain ⟨result, ran, same⟩ := Option.map_eq_some_iff.mp moved
  exact ⟨result, ran, same.symm⟩

end StepInversion

/-- `existing` is what an earlier process left in the file. -/
def initialShared (existing : Option String) : Shared Value where
  executing := false
  requireWrite := none
  requireDelete := false
  deleted := false
  modCount := 0
  file := existing
  tmpFile := none
  queue := []
  submitted := 0
  future := fun _ => .pending
  outstanding := []
  writes := []
  moved := false
  deleteCalled := false

def system (serialize : Option Value → String) (existing : Option String) :
    System (State Value Thread) (Action Value Thread) where
  initial := { shared := initialShared existing, pc := fun _ => .idle }
  step := step serialize

def Quiescent (state : State Value Thread) : Prop :=
  state.shared.outstanding = [] ∧ ∀ thread, state.pc thread = .idle

end Brooklyn.MementoFileWriter
