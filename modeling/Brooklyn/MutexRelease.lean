import Brooklyn.MutexExclusion

/-!
Calls of `releaseMutex` by threads that do not own the mutex. Such a call throws in
the end, but the inherited `release` gives a permit back before the owners are
asked, so it leaves everything as it was only where there was nothing to give back.
-/

namespace Brooklyn.MutexSupport
open Transition OwnedPermit

section Calls
variable {Thread : Type} [DecidableEq Thread]
variable {shared : Shared Thread} {thread : Thread}

/-- The accesses of one thread while no other thread makes any. -/
def alone (thread : Thread) : Nat → Shared Thread × Pc → Option (Shared Thread × Pc)
  | 0, now => some now
  | turns + 1, now => (exec now.1 thread now.2).bind (alone thread turns)

section Found
variable {mutexId : String} {semaphore : Nat}

end Found

end Calls

section Runs
variable {Thread : Type} [DecidableEq Thread]

end Runs

section Schedules

end Schedules
end Brooklyn.MutexSupport
