import Brooklyn.AutoScalerExecutor

/-!
The flag `executorQueued` against the tasks it stands for. While it is set, either
a call of `scheduleResize` is on its way to submit a task, or a task waits in the
executor in use, or its worker has not yet cleared the flag for the task it runs.
The flag outlives its task when the entity is down after the compare-and-set, when
a shut down or replaced executor gets the submission, and when `suspend` or
`resume` takes the executor away from a task that has not cleared it.
-/

namespace Brooklyn.AutoScalerPolicy
open Transition

section Counters
variable {Double : Type}

/-- Within a call of `scheduleResize`. -/
def Pc.schedules : Pc Double → Bool
  | .scheduleIsRunning _ => true
  | .scheduleCompareAndSet _ => true
  | .scheduleIsEntityUp _ => true
  | .scheduleDelay _ => true
  | .scheduleGetExecutor _ _ => true
  | .scheduleSubmit _ _ _ => true
  | _ => false

/-- Within a call that has set the flag. -/
def Pc.claimed : Pc Double → Bool
  | .scheduleIsEntityUp _ => true
  | .scheduleDelay _ => true
  | .scheduleGetExecutor _ _ => true
  | .scheduleSubmit _ _ _ => true
  | _ => false

/-- Within a task that has not cleared the flag. -/
def Pc.starting : Pc Double → Bool
  | .runExecutorTime => true
  | .runClearQueued => true
  | _ => false

theorem Pc.claimed_schedules {pc : Pc Double} (claimed : pc.claimed = true) :
    pc.schedules = true := by
  cases pc <;> first | rfl | cases claimed

theorem Pc.starting_busy {pc : Pc Double} (starting : pc.starting = true) : pc ≠ .idle := by
  rintro rfl
  cases starting

def Shared.pendingIn (shared : Shared Double) (executor : Nat) : Bool :=
  shared.queue.any fun task => task.executor == executor

theorem pendingIn_iff {shared : Shared Double} {executor : Nat} :
    shared.pendingIn executor = true ↔ ∃ task ∈ shared.queue, task.executor = executor := by
  simp [Shared.pendingIn]

end Counters

section Guard
variable {Double Thread : Type}

/-- The flag is set for a task that will reach the executor in use, and
`suspend` drops no task that waits there. -/
def Shared.keepsTask (shared : Shared Double) : Pc Double → Bool
  | .scheduleIsEntityUp _ => isEntityUp shared.entity
  | .scheduleSubmit _ _ executor => executor == shared.executor && !shared.shutdown executor
  | .suspendShutdownNow executor =>
      !shared.executorQueued || executor != shared.executor || !shared.pendingIn executor
  | _ => true

/-- `resume` replaces no executor that the flag's task waits in or starts on. -/
def SchedulingState.keepsExecutor (state : SchedulingState Double Thread) : Pc Double → Bool
  | .resumeNewExecutor =>
      !state.shared.executorQueued ||
        (!state.shared.pendingIn state.shared.executor &&
          !(state.pc (.worker state.shared.executor)).starting)
  | _ => true

def keepsTask (state : SchedulingState Double Thread) : SchedulingAction Double Thread → Bool
  | .next id _ => state.shared.keepsTask (state.pc id) && state.keepsExecutor (state.pc id)
  | _ => true

def QueuedForTask (state : SchedulingState Double Thread) : Prop :=
  state.shared.executorQueued = true →
    (∃ id, (state.pc id).claimed = true) ∨
    state.shared.pendingIn state.shared.executor = true ∨
    (state.pc (.worker state.shared.executor)).starting = true

/-- What an access owes the flag when it leaves the executor in use alone: the
flag stays accounted for by the tasks that wait, or by the thread itself. -/
structure Accounts (shared : Shared Double) (pc : Pc Double) (moved : Shared Double × Pc Double) :
    Prop where
  executor : moved.1.executor = shared.executor
  set : moved.1.executorQueued = true → shared.executorQueued = true ∨ moved.2.claimed = true
  waiting : moved.1.executorQueued = true → shared.pendingIn shared.executor = true →
    moved.1.pendingIn shared.executor = true
  claimed : moved.1.executorQueued = true → pc.claimed = true →
    moved.1.pendingIn shared.executor = true ∨ moved.2.claimed = true
  starting : moved.1.executorQueued = true → pc.starting = true → moved.2.starting = true

/-- An access that touches neither the flag, the queue nor the executor. -/
theorem accounts_of_unchanged {shared after : Shared Double} {pc next : Pc Double}
    (executor : after.executor = shared.executor) (queue : after.queue = shared.queue)
    (flag : after.executorQueued = shared.executorQueued)
    (claimed : pc.claimed = true → next.claimed = true)
    (starting : pc.starting = true → next.starting = true) :
    Accounts shared pc (after, next) where
  executor := executor
  set flagged := Or.inl (flag ▸ flagged)
  waiting _ pending := by simpa [Shared.pendingIn, queue] using pending
  claimed _ call := Or.inr (claimed call)
  starting _ := starting

theorem submit_accounts {shared : Shared Double} {pc next : Pc Double} (due : Int)
    (idle : pc.starting = false) :
    Accounts shared pc
      ({ shared with queue := shared.queue ++ [⟨shared.executor, due⟩] }, next) where
  executor := rfl
  set := Or.inl
  waiting _ _ := by simp [Shared.pendingIn]
  claimed _ _ := Or.inl (by simp [Shared.pendingIn])
  starting _ starts := by rw [idle] at starts; cases starts

theorem shutdown_accounts {shared : Shared Double} {executor : Nat}
    (allowed : shared.keepsTask (.suspendShutdownNow executor) = true) :
    Accounts shared (.suspendShutdownNow executor)
      ({ shared with
        shutdown := Function.update shared.shutdown executor true
        queue := shared.queue.filter fun task => task.executor != executor }, .idle) where
  executor := rfl
  set := Or.inl
  waiting flagged pending := by
    obtain ⟨task, member, current⟩ := pendingIn_iff.mp pending
    refine pendingIn_iff.mpr ⟨task, List.mem_filter.mpr ⟨member, ?_⟩, current⟩
    change shared.executorQueued = true at flagged
    simp only [Shared.keepsTask, flagged, Bool.not_true, Bool.false_or, Bool.or_eq_true,
      bne_iff_ne, ne_eq, Bool.not_eq_true'] at allowed ⊢
    rcases allowed with other | none
    · rw [current]
      exact fun same => other same.symm
    · rintro rfl
      exact absurd (pendingIn_iff.mpr ⟨task, member, rfl⟩) (by simp [none])
  claimed _ call := by cases call
  starting _ starts := by cases starts

end Guard

section Invariant
variable {Double Thread : Type} [JavaDouble Double] [DecidableEq Thread]

theorem exec_accounts {shared : Shared Double} {currentPoolSize : JavaInt} {pc : Pc Double}
    {moved : Shared Double × Pc Double} (same : pc ≠ .resumeNewExecutor)
    (allowed : shared.keepsTask pc = true)
    (ran : exec shared currentPoolSize pc = some moved) : Accounts shared pc moved := by
  cases pc with
  | idle => cases ran
  | onEvent event =>
      simp only [exec] at ran
      split at ran <;> cases ran <;>
        exact accounts_of_unchanged rfl rfl rfl (fun call => by cases call)
          (fun starts => by cases starts)
  | scheduleCompareAndSet caller =>
      simp only [exec] at ran
      split at ran
      · cases ran
        exact accounts_of_unchanged rfl rfl rfl (fun call => by cases call)
          (fun starts => by cases starts)
      · cases ran
        -- Here the flag goes up; until the submission the caller itself accounts for it.
        exact ⟨rfl, fun _ => Or.inr rfl, fun _ => id, fun _ call => (by cases call),
          fun _ starts => (by cases starts)⟩
  | scheduleIsEntityUp caller =>
      simp only [Shared.keepsTask] at allowed
      simp only [exec, allowed, if_true, Option.some.injEq] at ran
      subst ran
      exact accounts_of_unchanged rfl rfl rfl (fun _ => rfl) (fun starts => by cases starts)
  | scheduleSubmit caller delay executor =>
      simp only [Shared.keepsTask, Bool.and_eq_true, beq_iff_eq, Bool.not_eq_true'] at allowed
      obtain ⟨rfl, accepting⟩ := allowed
      simp only [exec, accepting, Bool.false_eq_true, if_false, Option.some.injEq] at ran
      subst ran
      exact submit_accounts _ rfl
  | suspendShutdownNow executor =>
      cases ran
      exact shutdown_accounts allowed
  | resumeNewExecutor => exact absurd rfl same
  | runClearQueued =>
      cases ran
      refine ⟨rfl, ?_, ?_, ?_, ?_⟩ <;> (intro flagged; cases flagged)
  | _ =>
      cases ran
      exact accounts_of_unchanged rfl rfl rfl (fun call => by first | rfl | cases call)
        (fun starts => by first | rfl | cases starts)

omit [JavaDouble Double] in
theorem goto_queued {state : SchedulingState Double Thread} (queued : QueuedForTask state)
    (id : ThreadId Thread) {moved : Shared Double × Pc Double}
    (accounts : Accounts state.shared (state.pc id) moved) :
    QueuedForTask (state.goto id moved) := by
  intro flagged
  change moved.1.executorQueued = true at flagged
  simp only [SchedulingState.goto, accounts.executor]
  rcases accounts.set flagged with before | fresh
  · rcases queued before with caller | pending | running
    · have handed := exists_after_update state.pc id moved.2 (fun pc => pc.claimed = true) caller
        (accounts.claimed flagged)
      exact handed.elim (fun pending => Or.inr (Or.inl pending)) Or.inl
    · exact Or.inr (Or.inl (accounts.waiting flagged pending))
    · refine Or.inr (Or.inr ?_)
      by_cases itself : ThreadId.worker state.shared.executor = id
      · subst itself
        simpa using accounts.starting flagged running
      · rw [Function.update_of_ne itself]
        exact running
  · exact Or.inl ⟨id, by simpa using fresh⟩

omit [JavaDouble Double] in
theorem resume_queued {state : SchedulingState Double Thread} (queued : QueuedForTask state)
    (id : ThreadId Thread) (resuming : state.pc id = .resumeNewExecutor)
    (allowed : state.keepsExecutor .resumeNewExecutor = true) :
    QueuedForTask (state.goto id
      ({ state.shared with executor := state.shared.executor + 1 }, .idle)) := by
  intro flagged
  change state.shared.executorQueued = true at flagged
  simp only [SchedulingState.keepsExecutor, flagged, Bool.not_true, Bool.false_or,
    Bool.and_eq_true, Bool.not_eq_true'] at allowed
  rcases queued flagged with ⟨caller, call⟩ | pending | running
  · refine Or.inl ⟨caller, ?_⟩
    have other : caller ≠ id := by
      rintro rfl
      rw [resuming] at call
      cases call
    simpa [SchedulingState.goto, Function.update_of_ne other] using call
  · rw [allowed.1] at pending
    cases pending
  · rw [allowed.2] at running
    cases running

omit [JavaDouble Double] in
theorem start_queued {state : SchedulingState Double Thread} (queued : QueuedForTask state)
    (task : ResizeTask) (idle : state.pc (.worker task.executor) = .idle) :
    QueuedForTask (state.goto (.worker task.executor)
      ({ state.shared with queue := state.shared.queue.erase task }, .runExecutorTime)) := by
  intro flagged
  change state.shared.executorQueued = true at flagged
  by_cases current : task.executor = state.shared.executor
  · exact Or.inr (Or.inr (by simp [SchedulingState.goto, current, Pc.starting]))
  · have other : (.worker state.shared.executor : ThreadId Thread) ≠
        .worker task.executor := fun same => current (ThreadId.worker.inj same).symm
    rcases queued flagged with ⟨caller, call⟩ | pending | running
    · refine Or.inl ⟨caller, ?_⟩
      have elsewhere : caller ≠ .worker task.executor := by
        rintro rfl
        rw [idle] at call
        cases call
      simpa [SchedulingState.goto, Function.update_of_ne elsewhere] using call
    · obtain ⟨waiting, member, same⟩ := pendingIn_iff.mp pending
      refine Or.inr (Or.inl (pendingIn_iff.mpr ⟨waiting, ?_, same⟩))
      refine (List.mem_erase_of_ne ?_).mpr member
      rintro rfl
      exact current same
    · exact Or.inr (Or.inr (by simpa [SchedulingState.goto, Function.update_of_ne other] using running))

theorem step_queued {state after : SchedulingState Double Thread}
    {action : SchedulingAction Double Thread} (queued : QueuedForTask state)
    (allowed : keepsTask state action = true)
    (moved : schedulingStep state action = some after) : QueuedForTask after := by
  have entry (id : ThreadId Thread) (entry : Pc Double)
      (entered : enters state id entry = some after) : QueuedForTask after := by
    obtain ⟨idle, rfl⟩ := enters_some entered
    refine goto_queued queued id (accounts_of_unchanged rfl rfl rfl ?_ ?_)
    · rw [idle]
      intro call
      cases call
    · rw [idle]
      intro starts
      cases starts
  cases action with
  | event thread event => exact entry _ _ moved
  | suspend thread => exact entry _ _ moved
  | resume thread => exact entry _ _ moved
  | setEntity entity =>
      cases moved
      exact queued
  | tick elapsed =>
      cases moved
      exact queued
  | start task =>
      obtain ⟨idle, _, rfl⟩ := step_start moved
      exact start_queued queued task idle
  | next id currentPoolSize =>
      obtain ⟨result, ran, rfl⟩ := step_next moved
      obtain ⟨kept, executor⟩ := Bool.and_eq_true_iff.mp allowed
      by_cases resuming : state.pc id = .resumeNewExecutor
      · rw [resuming] at ran executor
        cases ran
        exact resume_queued queued id resuming executor
      · exact goto_queued queued id (exec_accounts resuming kept ran)

/-- While the flag is set and no call of `scheduleResize` is in progress, a task
waits in the executor in use or runs on its worker. -/
theorem queued_task_in_executor (policy : AutoScalerPolicy Double) (entity : Option PoolEntity)
    (clock : Int) {state : SchedulingState Double Thread}
    (reached : Reached (schedulingSystem policy entity clock) keepsTask state)
    (flagged : state.shared.executorQueued = true)
    (noCall : ∀ id, (state.pc id).schedules = false) :
    (∃ task ∈ state.shared.queue, task.executor = state.shared.executor) ∨
      state.pc (.worker state.shared.executor) ≠ .idle := by
  have queued : QueuedForTask state := by
    refine reached_invariant QueuedForTask ?_ ?_ reached
    · intro flagged
      cases flagged
    · intro before action after _ queued allowed moved
      exact step_queued queued allowed moved
  rcases queued flagged with ⟨id, call⟩ | pending | running
  · have scheduling := Pc.claimed_schedules call
    rw [noCall id] at scheduling
    cases scheduling
  · exact Or.inl (pendingIn_iff.mp pending)
  · exact Or.inr (Pc.starting_busy running)

end Invariant

section Schedules

/-- One hot event, and then `count` accesses of the thread that handles it. -/
def handleHotPool (count : Nat) : List (SchedulingAction ℚ Unit) :=
  .event () hotPool :: List.replicate count (.next (.caller ()) 2)

def reachesSchedule (entity : Option PoolEntity)
    (guard : SchedulingState ℚ Unit → SchedulingAction ℚ Unit → Bool) (count : Nat) :
    Option (SchedulingState ℚ Unit) :=
  let system := schedulingSystem emptyPool entity 1000
  replay system guard system.initial (handleHotPool count)

theorem handleHotPool_worker {entity : Option PoolEntity}
    {guard : SchedulingState ℚ Unit → SchedulingAction ℚ Unit → Bool} {count : Nat}
    {state : SchedulingState ℚ Unit} (played : reachesSchedule entity guard count = some state)
    (executor : Nat) : state.pc (.worker executor) = .idle := by
  refine replay_pc_other _ played ?_
  intro action member
  rcases List.mem_cons.mp member with rfl | turn
  · simp [SchedulingAction.thread]
  · rw [List.eq_of_mem_replicate turn]
    simp [SchedulingAction.thread]

theorem handleHotPool_returned {entity : Option PoolEntity}
    {guard : SchedulingState ℚ Unit → SchedulingAction ℚ Unit → Bool} {count : Nat}
    {state : SchedulingState ℚ Unit} (played : reachesSchedule entity guard count = some state)
    (returned : (state.pc (.caller ())).schedules = false) (id : ThreadId Unit) :
    (state.pc id).schedules = false := by
  cases id with
  | caller thread =>
      rw [Subsingleton.elim thread ()]
      exact returned
  | worker executor =>
      rw [handleHotPool_worker played executor]
      rfl

theorem hot_pool_task_in_executor :
    ∃ state : SchedulingState ℚ Unit, state.shared.executorQueued = true ∧
      ((∃ task ∈ state.shared.queue, task.executor = state.shared.executor) ∨
        state.pc (.worker state.shared.executor) ≠ .idle) := by
  have played : (reachesSchedule (some ⟨true, some true⟩) keepsTask 7).map (fun state =>
      state.shared.executorQueued && !(state.pc (.caller ())).schedules) = some true := by
    decide +kernel
  obtain ⟨state, finished, shown⟩ := Option.map_eq_some_iff.mp played
  simp only [Bool.and_eq_true, Bool.not_eq_true'] at shown
  exact ⟨state, shown.1, queued_task_in_executor emptyPool (some ⟨true, some true⟩) 1000
    (replay_reached _ .initial finished) shown.1 (handleHotPool_returned finished shown.2)⟩

/-- The first request finds the entity down and leaves the flag set for no task. -/
theorem flag_set_while_entity_down :
    ∃ state : SchedulingState ℚ Unit,
      Reached (schedulingSystem emptyPool (some ⟨true, some false⟩) 1000) anyStep state ∧
      state.shared.executorQueued = true ∧ (∀ id, (state.pc id).schedules = false) ∧
      ¬((∃ task ∈ state.shared.queue, task.executor = state.shared.executor) ∨
        state.pc (.worker state.shared.executor) ≠ .idle) := by
  have played : (reachesSchedule (some ⟨true, some false⟩) anyStep 4).map (fun state =>
      state.shared.executorQueued && !(state.pc (.caller ())).schedules &&
        state.shared.queue.isEmpty) = some true := by decide +kernel
  obtain ⟨state, finished, shown⟩ := Option.map_eq_some_iff.mp played
  simp only [Bool.and_eq_true, Bool.not_eq_true', List.isEmpty_iff] at shown
  obtain ⟨⟨flagged, returned⟩, empty⟩ := shown
  refine ⟨state, replay_reached _ .initial finished, flagged,
    handleHotPool_returned finished returned, ?_⟩
  rintro (⟨task, member, _⟩ | running)
  · rw [empty] at member
    cases member
  · exact running (handleHotPool_worker finished _)

end Schedules
end Brooklyn.AutoScalerPolicy
