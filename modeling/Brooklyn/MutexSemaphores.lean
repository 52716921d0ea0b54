import Brooklyn.MutexSupport

/-!
The semaphores in the map of a `MutexSupport`, in every run, misplaced releases
included. A semaphore that anybody owns or requests is the one in the map under its
name: it is entered under the monitor together with its first requester, and only a
semaphore without owners and requesters is removed. `Knows` is what a thread can
tell of the shared state from where it stands, and `Spares` is what a step of
another thread leaves it.
-/

namespace Brooklyn.MutexSupport
open Transition

section Semaphores
variable {Thread : Type}

namespace Shared

/-- The semaphore is the one in the map under its name. -/
def Current (shared : Shared Thread) (semaphore : Nat) : Prop :=
  shared.semaphores.get (shared.heap semaphore).name = some semaphore

/-- Entries that were in the map and of which some may have been removed. -/
def Listed (shared : Shared Thread) (entries : List (String × Nat)) : Prop :=
  ∀ entry ∈ entries, ∀ semaphore, shared.semaphores.get entry.1 = some semaphore →
    semaphore = entry.2

structure WellMapped (shared : Shared Thread) : Prop where
  named : ∀ mutexId semaphore, shared.semaphores.get mutexId = some semaphore →
    semaphore < shared.created ∧ (shared.heap semaphore).name = mutexId
  fresh : ∀ semaphore, shared.created ≤ semaphore →
    (shared.heap semaphore).permits = 1 ∧ (shared.heap semaphore).isInUse = false
  inUse : ∀ semaphore, (shared.heap semaphore).isInUse = true → shared.Current semaphore

def Owning (shared : Shared Thread) (thread : Thread) (semaphore : Nat) : Prop :=
  thread ∈ (shared.heap semaphore).owningThreads

end Shared

open Shared

section Knowledge
variable {shared after : Shared Thread} {thread other : Thread}

end Knowledge
end Semaphores

section Accesses
variable {Thread : Type} {shared after : Shared Thread} {thread other : Thread}

open Shared

theorem modify_heap (semaphore another : Nat)
    (change : SemaphoreWithOwners Thread → SemaphoreWithOwners Thread) :
    (shared.modify semaphore change).heap another =
      if another = semaphore then change (shared.heap another) else shared.heap another := by
  by_cases same : another = semaphore
  · subst another
    simp [Shared.modify]
  · simp [Shared.modify, same]

/-- Accesses that enter or leave the monitor, or only look. -/
def Pc.looks : Pc → Bool
  | .getSemaphore _ _ => true
  | .releaseMutex _ => true
  | .cleanupMutex _ => true
  | .cleanupMutexIsInUse _ _ => true
  | .cleanup => true
  | .cleanupNext _ => true
  | .hasMutex _ => true
  | .isCallingThreadAnOwner _ => true
  | _ => false

variable [DecidableEq Thread]

theorem lookUp_some {mutexId : String} {absent moved : Shared Thread × Pc} {present : Nat → Pc}
    (ran : lookUp shared thread mutexId absent present = some moved) :
    shared.admits thread = true ∧
      ((shared.semaphores.get mutexId = none ∧ moved = absent) ∨
        ∃ semaphore, shared.semaphores.get mutexId = some semaphore ∧
          moved = (shared.lock thread, present semaphore)) := by
  unfold lookUp at ran
  split at ran
  · next admitted =>
    split at ran
    · next absent =>
      cases ran
      exact ⟨admitted, Or.inl ⟨absent, rfl⟩⟩
    · next semaphore found =>
      cases ran
      exact ⟨admitted, Or.inr ⟨semaphore, found, rfl⟩⟩
  · cases ran

section Inversion
variable {mutexId : String} {semaphore : Nat} {moved : Shared Thread × Pc}

attribute [local simp] exec

theorem superAcquire_some {call : Acquisition}
    (ran : exec shared thread (.superAcquire call semaphore) = some moved) :
    (0 < (shared.heap semaphore).permits ∧
        moved = (shared.modify semaphore .superAcquire, .onAcquired call semaphore)) ∨
      (¬0 < (shared.heap semaphore).permits ∧
        moved = (shared, .onRequestFinished call semaphore .unavailable)) := by
  simp only [exec] at ran
  split at ran
  · next available =>
    cases ran
    exact Or.inl ⟨available, rfl⟩
  -- Only `tryAcquire` goes on without a permit.
  · next exhausted =>
    split at ran <;> cases ran
    exact Or.inr ⟨exhausted, rfl⟩

theorem superRelease_some
    (ran : exec shared thread (.superRelease mutexId semaphore) = some moved) :
    ((shared.heap semaphore).permits < maxPermits ∧
        moved = (shared.modify semaphore .superRelease, .onReleased mutexId semaphore)) ∨
      (¬(shared.heap semaphore).permits < maxPermits ∧
        moved = (shared.unlock, .idle (.throws .maximumPermitCountExceeded))) := by
  simp only [exec] at ran
  split at ran
  · next accepted =>
    cases ran
    exact Or.inl ⟨accepted, rfl⟩
  · next refused =>
    cases ran
    exact Or.inr ⟨refused, rfl⟩

theorem onReleased_some
    (ran : exec shared thread (.onReleased mutexId semaphore) = some moved) :
    (shared.Owning thread semaphore ∧
        moved = (shared.modify semaphore (.onReleased thread), .cleanupMutex mutexId)) ∨
      (¬shared.Owning thread semaphore ∧
        moved = (shared.unlock, .idle (.throws .didNotOwn))) := by
  simp only [exec] at ran
  split at ran
  · next owner =>
    cases ran
    exact Or.inl ⟨owner, rfl⟩
  · next stranger =>
    cases ran
    exact Or.inr ⟨stranger, rfl⟩

theorem cleanupMutexIsInUse_some
    (ran : exec shared thread (.cleanupMutexIsInUse mutexId semaphore) = some moved) :
    ((shared.heap semaphore).isInUse = true ∧ moved = (shared.unlock, .idle .returned)) ∨
      (¬(shared.heap semaphore).isInUse = true ∧
        moved = (shared, .cleanupMutexRemove mutexId)) := by
  simp only [exec] at ran
  split at ran
  · next used =>
    cases ran
    exact Or.inl ⟨used, rfl⟩
  · next unused =>
    cases ran
    exact Or.inr ⟨unused, rfl⟩

theorem cleanup_some (ran : exec shared thread .cleanup = some moved) :
    shared.admits thread = true ∧
      moved = (shared.lock thread, .cleanupNext shared.semaphores.entries) := by
  simp at ran
  exact ⟨ran.1, ran.2.symm⟩

theorem cleanupNext_some {rest : List (String × Nat)}
    (ran : exec shared thread (.cleanupNext ((mutexId, semaphore) :: rest)) = some moved) :
    ((shared.heap semaphore).isInUse = true ∧ moved = (shared, .cleanupNext rest)) ∨
      (¬(shared.heap semaphore).isInUse = true ∧
        moved = (shared, .cleanupRemove mutexId rest)) := by
  simp only [exec] at ran
  split at ran
  · next used =>
    cases ran
    exact Or.inl ⟨used, rfl⟩
  · next unused =>
    cases ran
    exact Or.inr ⟨unused, rfl⟩

end Inversion

theorem exec_looks {pc next : Pc} (looks : pc.looks = true)
    (ran : exec shared thread pc = some (after, next)) :
    ∃ monitor, after = { shared with monitor := monitor } := by
  cases pc with
  | cleanupMutexIsInUse mutexId semaphore =>
      obtain ⟨_, moved⟩ | ⟨_, moved⟩ := cleanupMutexIsInUse_some ran <;> cases moved <;>
        exact ⟨_, rfl⟩
  | cleanup =>
      cases (cleanup_some ran).2
      exact ⟨_, rfl⟩
  | cleanupNext rest =>
      cases rest with
      | nil =>
          cases ran
          exact ⟨_, rfl⟩
      | cons entry rest =>
          obtain ⟨_, moved⟩ | ⟨_, moved⟩ := cleanupNext_some ran <;> cases moved <;> exact ⟨_, rfl⟩
  | isCallingThreadAnOwner semaphore =>
      cases ran
      exact ⟨_, rfl⟩
  | getSemaphore | releaseMutex | cleanupMutex | hasMutex =>
      obtain ⟨_, ⟨_, moved⟩ | ⟨_, _, moved⟩⟩ := lookUp_some ran <;> cases moved <;> exact ⟨_, rfl⟩
  | _ => cases looks

/-- The accesses of an acquisition that has left `getSemaphore`. -/
def Pc.outside : Pc → Bool
  | .onRequesting _ _ => true
  | .superAcquire _ _ => true
  | .onAcquired _ _ => true
  | .onRequestFinished _ _ _ => true
  | .setDescription _ _ => true
  | _ => false

end Accesses

section Runs
variable {Thread : Type} [DecidableEq Thread]
variable {guard : State Thread → Action Thread → Bool} {state after : State Thread}

theorem step_next {thread : Thread} (moved : step state (.next thread) = some after) :
    ∃ result, exec state.shared thread (state.pc thread) = some result ∧
      after = state.goto thread result := by
  obtain ⟨result, ran, same⟩ := Option.map_eq_some_iff.mp moved
  exact ⟨result, ran, same.symm⟩

end Runs
end Brooklyn.MutexSupport
