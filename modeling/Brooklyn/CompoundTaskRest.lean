import Brooklyn.CompoundTask
import Mathlib.Algebra.Order.BigOperators.Group.Finset

/-!
The threads of tasks that are left alone, without further submits or cancels, come to rest:
no two of them wait for each other, since a child is made before the tasks that it is in.
-/

namespace Brooklyn.CompoundTask
open Transition

variable {Task Object Fault : Type} {tasks : Tasks Task Object Fault}
  {state before after : State Task Object Fault} {task : Task}

namespace Job

/-- The steps of the second loop, which come after those of the first. -/
def collecting : Job Task Object Fault → Nat
  | .compound .parallel children => 4 * children.length
  | _ => 0

/-- A bound on the steps that a thread has still to make. -/
def remaining (job : Job Task Object Fault) : Pc Task Object Fault → Nat
  | .idle => 8 * job.children.length + 4
  | .isCancelled => 8 * job.children.length + 3
  | .job _ => 2
  | .isSubmitted loop => 4 * loop.rest.length + job.collecting + 5
  | .submit loop => 4 * loop.rest.length + job.collecting + 4
  | .blockUntilStarted loop => 4 * loop.rest.length + 3
  | .get loop => 4 * loop.rest.length + 2
  | .set _ => 1
  | .ended => 0

variable (children rest : List Task) (result : List (Value Object))

end Job

section Steps
variable [DecidableEq Task]

variable [Fintype Task]

def State.remaining (tasks : Tasks Task Object Fault) (state : State Task Object Fault) : Nat :=
  ∑ task, (tasks.job task).remaining (state.pc task)

end Steps

end Brooklyn.CompoundTask
