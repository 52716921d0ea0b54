import Brooklyn.RebalanceScheduling

/-!
Which wake-ups the two policies lose. Two debts of a running policy are followed:
a changed model is owed a rebalance, and the set flag `executorQueued` is owed a
task that will clear it. Each is paid by a task that waits, or by a thread on its
way. A handler that finds the flag set leaves its own debt to the flag's task.

Debts fall due again when `resume` makes the policy run: a handler that found it
suspended has returned without a task, and `resume` schedules none. A task is also
lost to an executor that a concurrent `suspend` shuts down.
-/

namespace Brooklyn.RebalanceScheduling
open Transition

section Counters
variable {Update : Type}

/-- Within a handler. -/
def Pc.handles : Pc Update → Bool
  | .handling _ => true
  | .scheduleIsRunning => true
  | .scheduleCompareAndSet => true
  | .scheduleDelay => true
  | .scheduleGetExecutor _ => true
  | .scheduleSubmit _ _ => true
  | _ => false

/-- Within a rebalance task. -/
def Pc.runs : Pc Update → Bool
  | .runExecutorTime => true
  | .runClearQueued => true
  | .runRebalance => true
  | .rebalancing => true
  | _ => false

/-- On the way to submit a task or to call the strategy. -/
def Pc.wakes : Pc Update → Bool
  | .handling _ => true
  | .scheduleIsRunning => true
  | .scheduleCompareAndSet => true
  | .scheduleDelay => true
  | .scheduleGetExecutor _ => true
  | .scheduleSubmit _ _ => true
  | .runExecutorTime => true
  | .runClearQueued => true
  | .runRebalance => true
  | _ => false

/-- Within a handler that has set the flag, or a task that has not cleared it. -/
def Pc.holdsFlag : Pc Update → Bool
  | .scheduleDelay => true
  | .scheduleGetExecutor _ => true
  | .scheduleSubmit _ _ => true
  | .runExecutorTime => true
  | .runClearQueued => true
  | _ => false

theorem Pc.holdsFlag_wakes {pc : Pc Update} (holds : pc.holdsFlag = true) : pc.wakes = true := by
  cases pc <;> first | rfl | cases holds

theorem Pc.wakes_handles_or_runs {pc : Pc Update} (wakes : pc.wakes = true) :
    pc.handles = true ∨ pc.runs = true := by
  cases pc <;> first | exact Or.inl rfl | exact Or.inr rfl | cases wakes

end Counters

section Debts
variable {Model Update Event Thread : Type}

/-- A task waits, or some thread is at a counter that pays. -/
def Awake (pays : Pc Update → Bool) (state : State Model Update Thread) : Prop :=
  state.shared.queue ≠ [] ∨ ∃ id, pays (state.pc id) = true

def Owed (owes : Shared Model → Bool) (pays : Pc Update → Bool)
    (state : State Model Update Thread) : Prop :=
  state.shared.suspended = false → owes state.shared = true → Awake pays state

/-- The model has changed since the last rebalance began, the policy runs and no
handler does: a rebalance waits or runs. -/
def LosesNoWakeUp (state : State Model Update Thread) : Prop :=
  state.shared.suspended = false → (∀ id, (state.pc id).handles = false) →
    state.shared.changed = true →
    state.shared.queue ≠ [] ∨ ∃ id, (state.pc id).runs = true

structure WokenUp (state : State Model Update Thread) : Prop where
  changed : Owed Shared.changed Pc.wakes state
  flagged : Owed Shared.executorQueued Pc.holdsFlag state

theorem WokenUp.losesNoWakeUp {state : State Model Update Thread} (woken : WokenUp state) :
    LosesNoWakeUp state := by
  intro running noHandler changed
  rcases woken.changed running changed with waiting | ⟨id, wakes⟩
  · exact Or.inl waiting
  · rcases Pc.wakes_handles_or_runs wakes with handles | runs
    · rw [noHandler id] at handles
      cases handles
    · exact Or.inr ⟨id, runs⟩

/-- What an access does to a debt: it settles it, whatever was owed before, or it
leaves the debt as it was and still pays if it did. -/
inductive Keeps (owes : Shared Model → Bool) (pays : Pc Update → Bool) (shared : Shared Model)
    (pc : Pc Update) (moved : Shared Model × Pc Update) : Prop where
  | suspended (suspended : moved.1.suspended = true)
  | void (void : owes moved.1 = false)
  | waiting (waiting : moved.1.queue ≠ [])
  | paid (paid : pays moved.2 = true)
  | unchanged (suspended : moved.1.suspended = shared.suspended)
      (owes : owes moved.1 = owes shared) (queue : moved.1.queue = shared.queue)
      (paid : pays pc = true → pays moved.2 = true)

variable [DecidableEq Thread]

theorem goto_owed {owes : Shared Model → Bool} {pays : Pc Update → Bool}
    {state : State Model Update Thread} (owed : Owed owes pays state) (id : ThreadId Thread)
    {moved : Shared Model × Pc Update}
    (keeps : Keeps owes pays state.shared (state.pc id) moved) :
    Owed owes pays (state.goto id moved) := by
  intro running debt
  change moved.1.suspended = false at running
  change owes moved.1 = true at debt
  cases keeps with
  | suspended suspended => rw [suspended] at running; cases running
  | void void => rw [void] at debt; cases debt
  | waiting waiting => exact Or.inl waiting
  | paid paid => exact Or.inr ⟨id, by simpa [State.goto] using paid⟩
  | unchanged suspended same queue paid =>
      rcases owed (suspended ▸ running) (same ▸ debt) with waiting | payer
      · exact Or.inl (by simpa [State.goto, queue] using waiting)
      · exact exists_after_update state.pc id moved.2 (fun pc => pays pc = true) payer
          (fun awake => Or.inr (paid awake))

end Debts

section Guard
variable {Model Update Event Thread : Type}

/-- A submission meets a shut down executor only while the policy is suspended, and
`suspend` drops no task of a policy that runs again. -/
def Shared.keepsTask (shared : Shared Model) : Pc Update → Bool
  | .scheduleSubmit _ executor => !shared.shutdown executor || shared.suspended
  | .suspendShutdownNow executor =>
      shared.suspended || shared.queue.all fun task => task.executor != executor
  | _ => true

/-- The policy is not made to run while a debt is due that nothing will pay: a
changed model has a handler or a starting task that has yet to schedule or to call
the strategy, and a set flag has the handler or the task it stands for. -/
def State.ResumesAwake (state : State Model Update Thread) : Pc Update → Prop
  | .resumeClearSuspended =>
      (state.shared.changed = true → Awake Pc.wakes state) ∧
        (state.shared.executorQueued = true → Awake Pc.holdsFlag state)
  | _ => True

open Classical in
noncomputable def keepsWakeUps (state : State Model Update Thread) :
    Action Update Event Thread → Bool
  | .next id => state.shared.keepsTask (state.pc id) && decide (state.ResumesAwake (state.pc id))
  | _ => true

/-- A guard that a run can evaluate: `resume` finds nothing changed and the flag
down. -/
def resumesQuietly (state : State Model Update Thread) : Action Update Event Thread → Bool
  | .next id => state.shared.keepsTask (state.pc id) &&
      match state.pc id with
      | .resumeClearSuspended => !state.shared.changed && !state.shared.executorQueued
      | _ => true
  | _ => true

theorem keepsWakeUps_of_resumesQuietly {state : State Model Update Thread}
    {action : Action Update Event Thread} (quiet : resumesQuietly state action = true) :
    keepsWakeUps state action = true := by
  cases action with
  | next id =>
      simp only [resumesQuietly, Bool.and_eq_true] at quiet
      obtain ⟨kept, resumes⟩ := quiet
      simp only [keepsWakeUps, kept, Bool.true_and, decide_eq_true_eq]
      cases stands : state.pc id with
      | resumeClearSuspended =>
          simp only [stands, Bool.and_eq_true, Bool.not_eq_true'] at resumes
          simp [State.ResumesAwake, resumes]
      | _ => trivial
  | _ => rfl

end Guard

section Invariant
variable {Model Update Event Thread : Type}
variable {policy : RebalancingPolicy Model Update Event}

theorem shutdown_keeps {owes : Shared Model → Bool} {pays : Pc Update → Bool}
    {shared : Shared Model} {executor : Nat} {moved : Shared Model × Pc Update}
    (same : ∀ shutdown queue, owes { shared with shutdown, queue } = owes shared)
    (idle : pays (.suspendShutdownNow executor) = false)
    (allowed : shared.keepsTask (.suspendShutdownNow executor : Pc Update) = true)
    (ran : exec policy shared (.suspendShutdownNow executor) = some moved) :
    Keeps owes pays shared (.suspendShutdownNow executor) moved := by
  cases ran
  simp only [Shared.keepsTask, Bool.or_eq_true, List.all_eq_true] at allowed
  rcases allowed with suspended | others
  · exact .suspended suspended
  · refine .unchanged rfl (same _ _) (List.filter_eq_self.mpr others) ?_
    rw [idle]
    intro pays
    cases pays

theorem submit_keeps {owes : Shared Model → Bool} {pays : Pc Update → Bool}
    {shared : Shared Model} {delay : Int} {executor : Nat} {moved : Shared Model × Pc Update}
    (allowed : shared.keepsTask (.scheduleSubmit delay executor : Pc Update) = true)
    (ran : exec policy shared (.scheduleSubmit delay executor) = some moved) :
    Keeps owes pays shared (.scheduleSubmit delay executor) moved := by
  simp only [Shared.keepsTask, Bool.or_eq_true, Bool.not_eq_true'] at allowed
  simp only [exec] at ran
  split at ran
  · next refused =>
    cases ran
    rcases allowed with accepting | suspended
    · rw [accepting] at refused
      cases refused
    · exact .suspended suspended
  · cases ran
    exact .waiting (by simp)

/-- Every access keeps the debt of a changed model, but for a compare-and-set that
finds the flag set and the write with which `resume` makes the policy run. -/
theorem exec_keeps_changed {shared : Shared Model} {pc : Pc Update}
    {moved : Shared Model × Pc Update} (allowed : shared.keepsTask pc = true)
    (notResuming : pc ≠ .resumeClearSuspended)
    (unclaimed : pc = .scheduleCompareAndSet → shared.executorQueued = false)
    (ran : exec policy shared pc = some moved) :
    Keeps Shared.changed Pc.wakes shared pc moved := by
  cases pc with
  | idle => cases ran
  | handling updates =>
      cases updates <;> cases ran <;> exact .paid rfl
  | scheduleIsRunning =>
      cases ran
      cases suspended : shared.suspended with
      | true => exact .suspended suspended
      | false => exact .paid (by simp [Pc.wakes])
  -- With the flag down the handler takes it and goes on to submit a task.
  | scheduleCompareAndSet =>
      simp only [exec, unclaimed rfl, Bool.false_eq_true, if_false, Option.some.injEq] at ran
      subst ran
      exact .paid rfl
  | scheduleSubmit delay executor => exact submit_keeps allowed ran
  | suspendSetSuspended =>
      cases ran
      exact .suspended rfl
  | suspendShutdownNow executor => exact shutdown_keeps (fun _ _ => rfl) rfl allowed ran
  | resumeClearSuspended => exact absurd rfl notResuming
  | runRebalance =>
      cases ran
      exact .void rfl
  | _ =>
      cases ran
      exact .unchanged rfl rfl rfl (fun wakes => by first | rfl | cases wakes)

theorem exec_keeps_flag {shared : Shared Model} {pc : Pc Update}
    {moved : Shared Model × Pc Update} (allowed : shared.keepsTask pc = true)
    (notResuming : pc ≠ .resumeClearSuspended) (ran : exec policy shared pc = some moved) :
    Keeps Shared.executorQueued Pc.holdsFlag shared pc moved := by
  cases pc with
  | idle => cases ran
  | handling updates =>
      cases updates <;> cases ran <;>
        exact .unchanged rfl rfl rfl (fun holds => by cases holds)
  | scheduleCompareAndSet =>
      simp only [exec] at ran
      split at ran
      · cases ran
        exact .unchanged rfl rfl rfl (fun holds => by cases holds)
      · cases ran
        exact .paid rfl
  | scheduleSubmit delay executor => exact submit_keeps allowed ran
  | suspendSetSuspended =>
      cases ran
      exact .suspended rfl
  | suspendShutdownNow executor => exact shutdown_keeps (fun _ _ => rfl) rfl allowed ran
  | resumeClearSuspended => exact absurd rfl notResuming
  | suspendClearQueued =>
      cases ran
      exact .void rfl
  | resumeClearQueued =>
      cases ran
      exact .void rfl
  | runClearQueued =>
      cases ran
      exact .void rfl
  | _ =>
      cases ran
      exact .unchanged rfl rfl rfl (fun holds => by first | rfl | cases holds)

variable [DecidableEq Thread]
variable {state after : State Model Update Thread}

/-- The handler leaves its debt to the thread or the task that the flag stands for. -/
theorem flagged_changed (woken : WokenUp state) {id : ThreadId Thread}
    (stands : state.pc id = .scheduleCompareAndSet) (flagged : state.shared.executorQueued = true) :
    Owed Shared.changed Pc.wakes (state.goto id (state.shared, .idle)) := by
  intro running _
  rcases woken.flagged running flagged with waiting | ⟨other, holds⟩
  · exact Or.inl waiting
  · have elsewhere : other ≠ id := by
      rintro rfl
      rw [stands] at holds
      cases holds
    refine Or.inr ⟨other, ?_⟩
    simpa [State.goto, Function.update_of_ne elsewhere] using Pc.holdsFlag_wakes holds

theorem resumed_awake {pays : Pc Update → Bool} {id : ThreadId Thread}
    (awake : Awake pays state) (idle : pays (state.pc id) = false)
    (moved : Shared Model × Pc Update) (queue : moved.1.queue = state.shared.queue) :
    Awake pays (state.goto id moved) := by
  rcases awake with waiting | ⟨other, paid⟩
  · exact Or.inl (by simpa [State.goto, queue] using waiting)
  · have elsewhere : other ≠ id := by
      rintro rfl
      rw [idle] at paid
      cases paid
    exact Or.inr ⟨other, by simpa [State.goto, Function.update_of_ne elsewhere] using paid⟩

theorem next_woken (woken : WokenUp state) {id : ThreadId Thread}
    {moved : Shared Model × Pc Update}
    (allowed : keepsWakeUps state (.next id : Action Update Event Thread) = true)
    (ran : exec policy state.shared (state.pc id) = some moved) :
    WokenUp (state.goto id moved) := by
  simp only [keepsWakeUps, Bool.and_eq_true, decide_eq_true_eq] at allowed
  obtain ⟨kept, resumes⟩ := allowed
  by_cases resuming : state.pc id = .resumeClearSuspended
  · rw [resuming] at ran resumes
    cases ran
    -- From here the debts that were left while the policy was suspended are due.
    refine ⟨fun _ debt => ?_, fun _ debt => ?_⟩
    · exact resumed_awake (resumes.1 debt) (by rw [resuming]; rfl) _ rfl
    · exact resumed_awake (resumes.2 debt) (by rw [resuming]; rfl) _ rfl
  · refine ⟨?_, goto_owed woken.flagged id (exec_keeps_flag kept resuming ran)⟩
    -- The one access that pays a debt with somebody else's task.
    by_cases claimed : state.pc id = .scheduleCompareAndSet ∧ state.shared.executorQueued = true
    · obtain ⟨stands, flagged⟩ := claimed
      simp only [stands, exec, flagged, if_true, Option.some.injEq] at ran
      subst ran
      exact flagged_changed woken stands flagged
    · refine goto_owed woken.changed id (exec_keeps_changed kept resuming ?_ ran)
      intro stands
      exact Bool.eq_false_iff.mpr fun flagged => claimed ⟨stands, flagged⟩

theorem entered_woken (woken : WokenUp state) {id : ThreadId Thread} {entry : Pc Update}
    (entered : enters state id entry = some after) : WokenUp after := by
  obtain ⟨idle, rfl⟩ := enters_some entered
  have unpaid {owes : Shared Model → Bool} {pays : Pc Update → Bool} (none : pays .idle = false) :
      Keeps owes pays state.shared (state.pc id) (state.shared, entry) := by
    refine .unchanged rfl rfl rfl ?_
    rw [idle, none]
    intro pays
    cases pays
  exact ⟨goto_owed woken.changed id (unpaid rfl), goto_owed woken.flagged id (unpaid rfl)⟩

theorem step_woken (woken : WokenUp state) {action : Action Update Event Thread}
    (allowed : keepsWakeUps state action = true) (moved : step policy state action = some after) :
    WokenUp after := by
  cases action with
  | event thread event => exact entered_woken woken moved
  | suspend thread => exact entered_woken woken moved
  | resume thread => exact entered_woken woken moved
  | tick elapsed =>
      cases moved
      exact ⟨woken.changed, woken.flagged⟩
  | start task =>
      obtain ⟨_, rfl⟩ := step_start moved
      have started {pays : Pc Update → Bool} (paid : pays .runExecutorTime = true) :
          Awake pays (state.goto (.worker task.executor)
            ({ state.shared with queue := state.shared.queue.erase task }, .runExecutorTime)) :=
        Or.inr ⟨.worker task.executor, by simpa [State.goto] using paid⟩
      exact ⟨fun _ _ => started rfl, fun _ _ => started rfl⟩
  | next id =>
      obtain ⟨result, ran, rfl⟩ := step_next moved
      exact next_woken woken allowed ran
  | rebalance executor update =>
      obtain rfl := step_rebalance moved
      exact ⟨woken.changed, woken.flagged⟩

theorem reached_woken {clock : Int}
    (reached : Reached (scheduling policy clock) keepsWakeUps state) : WokenUp state := by
  refine reached_invariant WokenUp ?_ ?_ reached
  · exact ⟨fun _ debt => (by cases debt), fun _ debt => (by cases debt)⟩
  · intro before action after _ woken allowed moved
    exact step_woken woken allowed moved

end Invariant

section Policies
variable {Container Item Thread : Type}
variable [DecidableEq Container] [DecidableEq Item] [DecidableEq Thread]

/-- Both policies lose no wake-up in the runs that drop no task of a running policy
and resume with nothing left to schedule. -/
theorem policies_lose_no_wakeup (containerOrder : SetOrder Container) (itemOrder : SetOrder Item)
    (minPeriodBetweenExecs clock : Int) :
    (∀ state : State _ _ Thread,
      Reached (scheduling
        (LoadBalancingPolicy.policy containerOrder itemOrder minPeriodBetweenExecs) clock)
        keepsWakeUps state → LosesNoWakeUp state) ∧
    (∀ state : State _ _ Thread,
      Reached (scheduling
        (FollowTheSunPolicy.policy containerOrder itemOrder minPeriodBetweenExecs) clock)
        keepsWakeUps state → LosesNoWakeUp state) :=
  ⟨fun _ reached => (reached_woken reached).losesNoWakeUp,
    fun _ reached => (reached_woken reached).losesNoWakeUp⟩

end Policies

section Schedules
variable {Update Event : Type}

def turns (count : Nat) : List (Action Update Event Unit) :=
  List.replicate count (.next (.caller ()))

/-- `event` arrives while the policy is suspended; then the policy is resumed. -/
def suspendedEvent (event : Event) : List (Action Update Event Unit) :=
  .suspend () :: turns 4 ++ .event () event :: turns 3 ++ .resume () :: turns 4

/-- The policy is suspended and resumed before `event` arrives. -/
def resumedEvent (event : Event) : List (Action Update Event Unit) :=
  .suspend () :: turns 4 ++ .resume () :: turns 4 ++ .event () event :: turns 7

def loadBalancing :
    System (State (DefaultBalanceablePoolModel Unit Unit)
        (DefaultBalanceablePoolModel.Update Unit Unit) Unit)
      (Action (DefaultBalanceablePoolModel.Update Unit Unit)
        (LoadBalancingPolicy.Event Unit Unit) Unit) :=
  scheduling (LoadBalancingPolicy.policy (atEnd Unit) (atEnd Unit) 100) 1000

def followTheSun :
    System (State (DefaultFollowTheSunModel Unit Unit)
        (DefaultFollowTheSunModel.Update Unit Unit) Unit)
      (Action (DefaultFollowTheSunModel.Update Unit Unit)
        (FollowTheSunPolicy.Event Unit Unit) Unit) :=
  scheduling (FollowTheSunPolicy.policy (atEnd Unit) (atEnd Unit) 100) 1000

def showsChange {Model : Type} (state : State Model Update Unit) : Bool :=
  !state.shared.suspended && state.shared.changed && !(state.pc (.caller ())).handles &&
    !(state.pc (.caller ())).runs

/-- A running policy has a changed model, and no thread is in a handler or a task. -/
structure Unattended {Model : Type} (state : State Model Update Unit) : Prop where
  running : state.shared.suspended = false
  changed : state.shared.changed = true
  noHandler : ∀ id, (state.pc id).handles = false
  noRun : ∀ id, (state.pc id).runs = false

theorem played_unattended {Model : Type} {state : State Model Update Unit}
    {played : Option (State Model Update Unit)} (finished : played = some state)
    (shown : showsChange state = true)
    (workers : ∀ executor, played.map (fun state => state.pc (.worker executor)) = some .idle) :
    Unattended state := by
  simp only [showsChange, Bool.and_eq_true, Bool.not_eq_true'] at shown
  obtain ⟨⟨⟨running, changed⟩, noHandler⟩, noRun⟩ := shown
  have idle (executor : Nat) : state.pc (.worker executor) = .idle := by
    simpa [finished] using workers executor
  refine ⟨running, changed, ?_, ?_⟩ <;> rintro (thread | executor)
  · exact noHandler
  · rw [idle executor]
    rfl
  · exact noRun
  · rw [idle executor]
    rfl

theorem Unattended.queued {Model : Type} {state : State Model Update Unit}
    (unattended : Unattended state) (keeps : LosesNoWakeUp state) : state.shared.queue ≠ [] := by
  rcases keeps unattended.running unattended.noHandler unattended.changed with waiting | ⟨id, runs⟩
  · exact waiting
  · rw [unattended.noRun id] at runs
    cases runs

theorem resumed_policies_queue :
    (∃ state, Reached loadBalancing keepsWakeUps state ∧ state.shared.queue ≠ []) ∧
    (∃ state, Reached followTheSun keepsWakeUps state ∧ state.shared.queue ≠ []) := by
  have loads : (replay loadBalancing resumesQuietly loadBalancing.initial
      (resumedEvent (.containerAdded () (some (10, 20))))).map showsChange = some true := by
    decide +kernel
  have follows : (replay followTheSun resumesQuietly followTheSun.initial
      (resumedEvent (.containerAdded () none))).map showsChange = some true := by
    decide +kernel
  obtain ⟨loaded, finished, shown⟩ := Option.map_eq_some_iff.mp loads
  obtain ⟨followed, finished', shown'⟩ := Option.map_eq_some_iff.mp follows
  have reached := (replay_reached _ .initial finished).weaken
    fun _ _ => keepsWakeUps_of_resumesQuietly
  have reached' := (replay_reached _ .initial finished').weaken
    fun _ _ => keepsWakeUps_of_resumesQuietly
  refine ⟨⟨loaded, reached, ?_⟩, ⟨followed, reached', ?_⟩⟩
  · exact (played_unattended finished shown fun _ => rfl).queued
      ((policies_lose_no_wakeup (atEnd Unit) (atEnd Unit) 100 1000).1 loaded reached)
  · exact (played_unattended finished' shown' fun _ => rfl).queued
      ((policies_lose_no_wakeup (atEnd Unit) (atEnd Unit) 100 1000).2 followed reached')

/-- A container is added while the policy is suspended; after `resume` nothing waits
or runs. -/
theorem change_while_suspended_unnoticed :
    (∃ state, Reached loadBalancing anyStep state ∧ ¬LosesNoWakeUp state) ∧
    (∃ state, Reached followTheSun anyStep state ∧ ¬LosesNoWakeUp state) := by
  have loads : (replay loadBalancing anyStep loadBalancing.initial
      (suspendedEvent (.containerAdded () (some (10, 20))))).map
      (fun state => showsChange state && state.shared.queue.isEmpty) = some true := by
    decide +kernel
  have follows : (replay followTheSun anyStep followTheSun.initial
      (suspendedEvent (.containerAdded () none))).map
      (fun state => showsChange state && state.shared.queue.isEmpty) = some true := by
    decide +kernel
  obtain ⟨loaded, finished, shown⟩ := Option.map_eq_some_iff.mp loads
  obtain ⟨followed, finished', shown'⟩ := Option.map_eq_some_iff.mp follows
  simp only [Bool.and_eq_true, List.isEmpty_iff] at shown shown'
  refine ⟨⟨loaded, replay_reached _ .initial finished, fun keeps => ?_⟩,
    ⟨followed, replay_reached _ .initial finished', fun keeps => ?_⟩⟩
  · exact (played_unattended finished shown.1 fun _ => rfl).queued keeps shown.2
  · exact (played_unattended finished' shown'.1 fun _ => rfl).queued keeps shown'.2

end Schedules
end Brooklyn.RebalanceScheduling
