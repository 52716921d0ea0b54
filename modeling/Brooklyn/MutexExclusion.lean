import Brooklyn.MutexSemaphores
import Brooklyn.OwnedPermit

/-!
Mutual exclusion. A thread owns a mutex from the moment it takes the permit of the
semaphore to the moment it gives it back; between the two accesses of a release it
is still listed, though another thread may already own the mutex. The semaphores of
the heap are instances of the one-permit semaphore with owners, as long as a thread
that enters `releaseMutex` is an owner, or finds nothing to give back.
-/

namespace Brooklyn.MutexSupport
open Transition OwnedPermit

section Roles
variable {Thread : Type}

def SemaphoreWithOwners.permit (semaphore : SemaphoreWithOwners Thread) :
    OwnedPermit.Semaphore Thread where
  permits := semaphore.permits
  owners := semaphore.owningThreads

def Pc.role (semaphore : Nat) : Pc → Role
  | .onAcquired _ other => if other = semaphore then .taken else .bystander
  | .onReleased _ other => if other = semaphore then .given else .bystander
  | _ => .bystander

def State.role (state : State Thread) (semaphore : Nat) (thread : Thread) : Role :=
  (state.pc thread).role semaphore

def State.Holds (state : State Thread) (thread : Thread) (semaphore : Nat) : Prop :=
  OwnedPermit.Holds (state.shared.heap semaphore).permit (state.role semaphore) thread

def State.Owns (state : State Thread) (thread : Thread) (mutexId : String) : Prop :=
  ∃ semaphore, (state.shared.heap semaphore).name = mutexId ∧ state.Holds thread semaphore

def Exclusive (state : State Thread) : Prop :=
  ∀ semaphore, ∃ holder,
    Held (state.shared.heap semaphore).permit (state.role semaphore) holder

/-- Who gives a permit back is an owner. -/
def Shared.Rightful (shared : Shared Thread) (thread : Thread) : Pc → Prop
  | .superRelease _ semaphore => shared.Owning thread semaphore
  | .onReleased _ semaphore => shared.Owning thread semaphore
  | _ => True

variable {state : State Thread}

end Roles

section Moves
variable {Thread : Type} [DecidableEq Thread]
variable {shared after : Shared Thread} {thread : Thread}

/-- What an access of `thread` does to one semaphore. -/
def Moves (shared after : Shared Thread) (thread : Thread) (pc next : Pc) (semaphore : Nat) :
    Prop :=
  OwnedPermit.Move thread (shared.heap semaphore).permit (pc.role semaphore)
    (after.heap semaphore).permit (next.role semaphore)

theorem stay_moves {pc next : Pc} {semaphore : Nat}
    (permit : (after.heap semaphore).permit = (shared.heap semaphore).permit)
    (role : next.role semaphore = pc.role semaphore) : Moves shared after thread pc next semaphore := by
  unfold Moves
  rw [permit, role]
  exact .stay _ _

theorem modify_moves {pc next : Pc} {semaphore : Nat}
    {change : SemaphoreWithOwners Thread → SemaphoreWithOwners Thread}
    (here : OwnedPermit.Move thread (shared.heap semaphore).permit (pc.role semaphore)
      (change (shared.heap semaphore)).permit (next.role semaphore))
    (elsewhere : ∀ another, another ≠ semaphore → next.role another = pc.role another)
    (another : Nat) : Moves shared (shared.modify semaphore change) thread pc next another := by
  by_cases same : another = semaphore
  · subst another
    unfold Moves
    rw [modify_heap, if_pos rfl]
    exact here
  · refine stay_moves ?_ (elsewhere another same)
    rw [modify_heap, if_neg same]

/-- A change that touches neither the permits nor the owners. -/
theorem modify_stays {pc next : Pc} {semaphore : Nat}
    {change : SemaphoreWithOwners Thread → SemaphoreWithOwners Thread}
    (permit : (change (shared.heap semaphore)).permit = (shared.heap semaphore).permit)
    (role : ∀ another, next.role another = pc.role another) (another : Nat) :
    Moves shared (shared.modify semaphore change) thread pc next another := by
  refine stay_moves ?_ (role another)
  rw [modify_heap]
  split
  · next same => rw [same, permit]
  · rfl

theorem role_onAcquired (call : Acquisition) (semaphore : Nat) :
    (Pc.onAcquired call semaphore).role semaphore = .taken :=
  if_pos rfl

theorem role_onReleased (mutexId : String) (semaphore : Nat) :
    (Pc.onReleased mutexId semaphore).role semaphore = .given :=
  if_pos rfl

theorem role_afterRequest (call : Acquisition) (known semaphore : Nat) (result : RequestResult) :
    (afterRequest call known result).role semaphore = .bystander := by
  cases result <;> rfl

/-- Counters of a thread that neither plays a role nor releases. -/
def Pc.plain : Pc → Bool
  | .onAcquired _ _ => false
  | .releaseMutex _ => false
  | .superRelease _ _ => false
  | .onReleased _ _ => false
  | _ => true

/-- Counters from which a thread goes on to take or to give back a permit. -/
def Pc.leads : Pc → Bool
  | .superAcquire _ _ => true
  | .releaseMutex _ => true
  | .superRelease _ _ => true
  | _ => false

theorem role_of_plain {pc : Pc} (plain : pc.plain = true) (semaphore : Nat) :
    pc.role semaphore = .bystander := by
  cases pc <;> first | rfl | cases plain

theorem exec_plain {pc next : Pc} (aside : pc.leads = false)
    (ran : exec shared thread pc = some (after, next)) : next.plain = true := by
  cases pc with
  | idle outcome => cases ran
  | onRequestFinished call semaphore result =>
      cases ran
      cases result <;> rfl
  | onReleased mutexId semaphore =>
      obtain ⟨_, moved⟩ | ⟨_, moved⟩ := onReleased_some ran <;> cases moved <;> rfl
  | cleanup =>
      cases (cleanup_some ran).2
      rfl
  | cleanupMutexIsInUse mutexId semaphore =>
      obtain ⟨_, moved⟩ | ⟨_, moved⟩ := cleanupMutexIsInUse_some ran <;> cases moved <;> rfl
  | cleanupNext rest =>
      cases rest with
      | nil =>
          cases ran
          rfl
      | cons entry rest =>
          obtain ⟨_, moved⟩ | ⟨_, moved⟩ := cleanupNext_some ran <;> cases moved <;> rfl
  | getSemaphore | cleanupMutex | hasMutex =>
      obtain ⟨_, ⟨_, moved⟩ | ⟨_, _, moved⟩⟩ := lookUp_some ran <;> cases moved <;> rfl
  | superAcquire | releaseMutex | superRelease => cases aside
  | _ =>
      cases ran
      rfl

theorem exec_moves (mapped : shared.WellMapped) {pc next : Pc} (rightful : shared.Rightful thread pc)
    (ran : exec shared thread pc = some (after, next)) (semaphore : Nat) :
    Moves shared after thread pc next semaphore := by
  cases pc with
  | idle outcome => cases ran
  | newSemaphore call mutexId =>
      cases ran
      refine stay_moves ?_ rfl
      by_cases fresh : semaphore = shared.created
      · subst semaphore
        -- A semaphore that was not there is as it was created.
        obtain ⟨permits, unused⟩ := mapped.fresh shared.created (Nat.le_refl _)
        have owners : (shared.heap shared.created).owningThreads = [] := by
          simp only [SemaphoreWithOwners.isInUse, Bool.or_eq_false_iff, Bool.not_eq_false',
            List.isEmpty_iff] at unused
          exact unused.1
        simp [Shared.newSemaphore, SemaphoreWithOwners.permit, SemaphoreWithOwners.create,
          permits, owners]
      · simp [Shared.newSemaphore, fresh]
  | indicate call known =>
      cases ran
      exact modify_stays rfl (fun _ => rfl) semaphore
  | onRequesting call known =>
      cases ran
      exact modify_stays rfl (fun _ => rfl) semaphore
  | superAcquire call known =>
      obtain ⟨available, moved⟩ | ⟨_, moved⟩ := superAcquire_some ran <;> cases moved
      · refine modify_moves ?_ (fun another different => ?_) semaphore
        · rw [role_onAcquired]
          exact .take (shared.heap known).permit available
        · simp [Pc.role, different.symm]
      · exact stay_moves rfl rfl
  | onAcquired call known =>
      cases ran
      refine modify_moves ?_ (fun another different => ?_) semaphore
      · rw [role_onAcquired]
        exact .enlist (shared.heap known).permit
      · simp [Pc.role, different.symm]
  | onRequestFinished call known result =>
      cases ran
      exact modify_stays rfl (fun another => role_afterRequest call known another result) semaphore
  | setDescription call known =>
      cases ran
      exact modify_stays rfl (fun _ => rfl) semaphore
  | superRelease mutexId known =>
      obtain ⟨_, moved⟩ | ⟨_, moved⟩ := superRelease_some ran <;> cases moved
      · refine modify_moves ?_ (fun another different => ?_) semaphore
        · rw [role_onReleased]
          exact .give (shared.heap known).permit rightful
        · simp [Pc.role, different.symm]
      · exact stay_moves rfl rfl
  | onReleased mutexId known =>
      obtain ⟨_, moved⟩ | ⟨stranger, _⟩ := onReleased_some ran
      · cases moved
        refine modify_moves ?_ (fun another different => ?_) semaphore
        · rw [role_onReleased]
          exact .delist (shared.heap known).permit
        · simp [Pc.role, different.symm]
      · exact absurd rightful stranger
  | cleanupMutexRemove mutexId =>
      cases ran
      exact stay_moves rfl rfl
  | cleanupRemove mutexId rest =>
      cases ran
      exact stay_moves rfl rfl
  | releaseMutex mutexId =>
      obtain ⟨_, ⟨_, moved⟩ | ⟨_, _, moved⟩⟩ := lookUp_some ran <;> cases moved <;>
        exact stay_moves rfl rfl
  | _ =>
      have role := role_of_plain (exec_plain rfl ran) semaphore
      obtain ⟨monitor, rfl⟩ := exec_looks rfl ran
      exact stay_moves rfl role

end Moves

section Releases
variable {Thread : Type}

/-- A release that nobody but the owner makes finds nothing to give back: there is
no semaphore, or the permits are at their maximum. -/
def Shared.harmless (shared : Shared Thread) (mutexId : String) : Bool :=
  match shared.semaphores.get mutexId with
  | none => true
  | some semaphore => decide (maxPermits ≤ (shared.heap semaphore).permits)

variable {shared after : Shared Thread} {thread other : Thread}

variable [DecidableEq Thread]

/-- The answer of `hasMutex`. -/
def Shared.hasMutex (shared : Shared Thread) (thread : Thread) (mutexId : String) : Bool :=
  match shared.semaphores.get mutexId with
  | none => false
  | some semaphore => decide (thread ∈ (shared.heap semaphore).owningThreads)

end Releases

section Runs
variable {Thread : Type} [DecidableEq Thread]
variable {state after : State Thread}

end Runs

section Schedules

def turns (thread : Bool) (count : Nat) : List (Action Bool) :=
  List.replicate count (.next thread)

end Schedules
end Brooklyn.MutexSupport
