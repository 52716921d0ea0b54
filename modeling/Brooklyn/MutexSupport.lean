import Brooklyn.LinkedCollections
import Brooklyn.Transition

/-!
`MutexSupport` and `SemaphoreWithOwners` at the grain of single accesses. A program
counter stands before each access to the map of semaphores, to the permits and to
the two collections of a semaphore, and every interleaving is a run. Semaphores are
numbered in the order of their creation. `monitor` is the thread inside a
`synchronized` method of the `MutexSupport`; entering such a method is one step with
its first access, leaving it one with its last. The `synchronized` methods of a
semaphore are one access each, and `indicateCallingThreadWillRequest`, which is not
synchronized, is taken as one access too. A thread blocked in `acquire` may get any
permit, which covers the fair order. A permit count is an `int`: giving back one more
than the maximum is refused. The blocking details of the current task are left out.
-/

namespace Brooklyn.MutexSupport
open Transition

structure SemaphoreWithOwners (Thread : Type) where
  name : String
  permits : Nat
  owningThreads : List Thread
  requestingThreads : LinkedSet Thread
  description : Option String

def maxPermits : Nat := 2147483647

namespace SemaphoreWithOwners
variable {Thread : Type}

def create (name : String) : SemaphoreWithOwners Thread where
  name := name
  permits := 1
  owningThreads := []
  requestingThreads := .empty
  description := none

/-- The inherited `acquire` and `tryAcquire`, when a permit is there. -/
def superAcquire (semaphore : SemaphoreWithOwners Thread) : SemaphoreWithOwners Thread :=
  { semaphore with permits := semaphore.permits - 1 }

/-- The inherited `release`. -/
def superRelease (semaphore : SemaphoreWithOwners Thread) : SemaphoreWithOwners Thread :=
  { semaphore with permits := semaphore.permits + 1 }

def onAcquired (thread : Thread) (semaphore : SemaphoreWithOwners Thread) :
    SemaphoreWithOwners Thread :=
  { semaphore with owningThreads := semaphore.owningThreads ++ [thread] }

def setDescription (description : Option String) (semaphore : SemaphoreWithOwners Thread) :
    SemaphoreWithOwners Thread :=
  { semaphore with description := description }

/-- There are any owners or any requesters. -/
def isInUse (semaphore : SemaphoreWithOwners Thread) : Bool :=
  !semaphore.owningThreads.isEmpty || !semaphore.requestingThreads.elements.isEmpty

variable [DecidableEq Thread]

def onRequesting (thread : Thread) (semaphore : SemaphoreWithOwners Thread) :
    SemaphoreWithOwners Thread :=
  { semaphore with requestingThreads := semaphore.requestingThreads.add thread }

def indicateCallingThreadWillRequest (thread : Thread) (semaphore : SemaphoreWithOwners Thread) :
    SemaphoreWithOwners Thread :=
  { semaphore with requestingThreads := semaphore.requestingThreads.add thread }

def onRequestFinished (thread : Thread) (semaphore : SemaphoreWithOwners Thread) :
    SemaphoreWithOwners Thread :=
  { semaphore with requestingThreads := semaphore.requestingThreads.remove thread }

/-- What the removal leaves; `onReleased` throws if the thread was not there. -/
def onReleased (thread : Thread) (semaphore : SemaphoreWithOwners Thread) :
    SemaphoreWithOwners Thread :=
  { semaphore with owningThreads := semaphore.owningThreads.erase thread }

end SemaphoreWithOwners

inductive Request where
  | acquire
  | tryAcquire

/-- A call of `acquireMutex` or `tryAcquireMutex` that has its semaphore to come. -/
structure Acquisition where
  request : Request
  description : Option String

inductive RequestResult where
  | acquired
  | unavailable
  | interrupted

inductive Exception where
  | noMutexKnown (mutexId : String)
  | didNotOwn
  | maximumPermitCountExceeded
  | interrupted
  | nullPointer

inductive Outcome where
  | returned
  | answered (answer : Bool)
  | throws (exception : Exception)

/-- An idle thread has the outcome of its last call. -/
inductive Pc where
  | idle (outcome : Outcome)
  | getSemaphore (call : Acquisition) (mutexId : String)
  | newSemaphore (call : Acquisition) (mutexId : String)
  | indicate (call : Acquisition) (semaphore : Nat)
  | onRequesting (call : Acquisition) (semaphore : Nat)
  | superAcquire (call : Acquisition) (semaphore : Nat)
  | onAcquired (call : Acquisition) (semaphore : Nat)
  | onRequestFinished (call : Acquisition) (semaphore : Nat) (result : RequestResult)
  | setDescription (call : Acquisition) (semaphore : Nat)
  | releaseMutex (mutexId : String)
  | superRelease (mutexId : String) (semaphore : Nat)
  | onReleased (mutexId : String) (semaphore : Nat)
  | cleanupMutex (mutexId : String)
  | cleanupMutexIsInUse (mutexId : String) (semaphore : Nat)
  | cleanupMutexRemove (mutexId : String)
  | cleanup
  | cleanupNext (rest : List (String × Nat))
  | cleanupRemove (mutexId : String) (rest : List (String × Nat))
  | hasMutex (mutexId : String)
  | isCallingThreadAnOwner (semaphore : Nat)

inductive Call where
  | acquireMutex (mutexId : String) (description : Option String)
  | tryAcquireMutex (mutexId : String) (description : Option String)
  | releaseMutex (mutexId : String)
  | cleanupMutex (mutexId : String)
  | cleanup
  | hasMutex (mutexId : String)

def Call.entry : Call → Pc
  | .acquireMutex mutexId description => .getSemaphore ⟨.acquire, description⟩ mutexId
  | .tryAcquireMutex mutexId description => .getSemaphore ⟨.tryAcquire, description⟩ mutexId
  | .releaseMutex mutexId => .releaseMutex mutexId
  | .cleanupMutex mutexId => .cleanupMutex mutexId
  | .cleanup => .cleanup
  | .hasMutex mutexId => .hasMutex mutexId

structure Shared (Thread : Type) where
  semaphores : LinkedMap String Nat
  heap : Nat → SemaphoreWithOwners Thread
  created : Nat
  monitor : Option Thread

structure State (Thread : Type) where
  shared : Shared Thread
  pc : Thread → Pc

inductive Action (Thread : Type) where
  | call (thread : Thread) (call : Call)
  | next (thread : Thread)
  | interrupt (thread : Thread)

section Execution
variable {Thread : Type} [DecidableEq Thread]

namespace Shared

/-- Nobody else is inside a synchronized method. -/
def admits (shared : Shared Thread) (thread : Thread) : Bool :=
  shared.monitor = none || shared.monitor = some thread

def lock (shared : Shared Thread) (thread : Thread) : Shared Thread :=
  { shared with monitor := some thread }

def unlock (shared : Shared Thread) : Shared Thread :=
  { shared with monitor := none }

def modify (shared : Shared Thread) (semaphore : Nat)
    (change : SemaphoreWithOwners Thread → SemaphoreWithOwners Thread) : Shared Thread :=
  { shared with heap := Function.update shared.heap semaphore (change (shared.heap semaphore)) }

def newSemaphore (shared : Shared Thread) (mutexId : String) : Shared Thread :=
  { shared with
    semaphores := shared.semaphores.put mutexId shared.created
    heap := Function.update shared.heap shared.created (.create mutexId)
    created := shared.created + 1 }

def remove (shared : Shared Thread) (mutexId : String) : Shared Thread :=
  { shared with semaphores := shared.semaphores.remove mutexId }

end Shared

/-- The rest of `acquireMutex` or `tryAcquireMutex` after the permit is taken or not. -/
def afterRequest (call : Acquisition) (semaphore : Nat) : RequestResult → Pc
  | .acquired => .setDescription call semaphore
  | .unavailable => .idle (.answered false)
  | .interrupted => .idle (.throws .interrupted)

def afterAcquisition : Request → Outcome
  | .acquire => .returned
  | .tryAcquire => .answered true

/-- Enters a synchronized method and looks the mutex up. -/
def lookUp (shared : Shared Thread) (thread : Thread) (mutexId : String)
    (absent : Shared Thread × Pc) (present : Nat → Pc) : Option (Shared Thread × Pc) :=
  if shared.admits thread then
    match shared.semaphores.get mutexId with
    | none => some absent
    | some semaphore => some (shared.lock thread, present semaphore)
  else none

/-- One access of a thread. -/
def exec (shared : Shared Thread) (thread : Thread) : Pc → Option (Shared Thread × Pc)
  | .idle _ => none
  | .getSemaphore call mutexId =>
      lookUp shared thread mutexId (shared.lock thread, .newSemaphore call mutexId)
        (.indicate call)
  | .newSemaphore call mutexId =>
      some (shared.newSemaphore mutexId, .indicate call shared.created)
  | .indicate call semaphore =>
      some ((shared.modify semaphore (.indicateCallingThreadWillRequest thread)).unlock,
        .onRequesting call semaphore)
  | .onRequesting call semaphore =>
      some (shared.modify semaphore (.onRequesting thread), .superAcquire call semaphore)
  | .superAcquire call semaphore =>
      if 0 < (shared.heap semaphore).permits then
        some (shared.modify semaphore .superAcquire, .onAcquired call semaphore)
      else
        match call.request with
        | .acquire => none
        | .tryAcquire => some (shared, .onRequestFinished call semaphore .unavailable)
  | .onAcquired call semaphore =>
      some (shared.modify semaphore (.onAcquired thread),
        .onRequestFinished call semaphore .acquired)
  | .onRequestFinished call semaphore result =>
      some (shared.modify semaphore (.onRequestFinished thread), afterRequest call semaphore result)
  | .setDescription call semaphore =>
      some (shared.modify semaphore (.setDescription call.description),
        .idle (afterAcquisition call.request))
  | .releaseMutex mutexId =>
      lookUp shared thread mutexId (shared.unlock, .idle (.throws (.noMutexKnown mutexId)))
        (.superRelease mutexId)
  -- The permit is given back before anything asks who owns it.
  | .superRelease mutexId semaphore =>
      if (shared.heap semaphore).permits < maxPermits then
        some (shared.modify semaphore .superRelease, .onReleased mutexId semaphore)
      else some (shared.unlock, .idle (.throws .maximumPermitCountExceeded))
  | .onReleased mutexId semaphore =>
      if thread ∈ (shared.heap semaphore).owningThreads then
        some (shared.modify semaphore (.onReleased thread), .cleanupMutex mutexId)
      else some (shared.unlock, .idle (.throws .didNotOwn))
  | .cleanupMutex mutexId =>
      lookUp shared thread mutexId (shared.unlock, .idle (.throws .nullPointer))
        (.cleanupMutexIsInUse mutexId)
  | .cleanupMutexIsInUse mutexId semaphore =>
      if (shared.heap semaphore).isInUse then some (shared.unlock, .idle .returned)
      else some (shared, .cleanupMutexRemove mutexId)
  | .cleanupMutexRemove mutexId => some ((shared.remove mutexId).unlock, .idle .returned)
  | .cleanup =>
      if shared.admits thread then
        some (shared.lock thread, .cleanupNext shared.semaphores.entries)
      else none
  | .cleanupNext [] => some (shared.unlock, .idle .returned)
  | .cleanupNext ((mutexId, semaphore) :: rest) =>
      if (shared.heap semaphore).isInUse then some (shared, .cleanupNext rest)
      else some (shared, .cleanupRemove mutexId rest)
  | .cleanupRemove mutexId rest => some (shared.remove mutexId, .cleanupNext rest)
  | .hasMutex mutexId =>
      lookUp shared thread mutexId (shared.unlock, .idle (.answered false))
        .isCallingThreadAnOwner
  | .isCallingThreadAnOwner semaphore =>
      some (shared.unlock,
        .idle (.answered (decide (thread ∈ (shared.heap semaphore).owningThreads))))

def State.goto (state : State Thread) (thread : Thread) (moved : Shared Thread × Pc) :
    State Thread :=
  { shared := moved.1, pc := Function.update state.pc thread moved.2 }

def step (state : State Thread) : Action Thread → Option (State Thread)
  | .call thread call =>
      match state.pc thread with
      | .idle _ => some (state.goto thread (state.shared, call.entry))
      | _ => none
  | .next thread => (exec state.shared thread (state.pc thread)).map (state.goto thread)
  | .interrupt thread =>
      match state.pc thread with
      | .superAcquire ⟨.acquire, description⟩ semaphore =>
          some (state.goto thread (state.shared,
            .onRequestFinished ⟨.acquire, description⟩ semaphore .interrupted))
      | _ => none

end Execution
end Brooklyn.MutexSupport
