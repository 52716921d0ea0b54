import Brooklyn.SchedulerBaton

/-!
Runs of the scheduler. Without `cancel` the callables begin one after the other in
the order of their submissions, and none is left behind. With `cancel` the same line
is kept, less the submissions passed over, in the runs where every `cancel` is
heeded: it meets no callable that is pending in the executor, and is not noted after
`onEnd` has found the submission not cancelled.
-/

namespace Brooklyn.SingleThreadedScheduler
open Transition

variable {Thread : Type}

/-- The submissions that are to begin, whatever `cancel` notes from now on. -/
def State.window (state : State Thread) : List Nat :=
  state.shared.queue ++
    match state.shared.monitor with
    | some thread => (state.pc thread).checked
    | none => []

def heeded (state : State Thread) : Action Thread → Bool
  | .next thread =>
      match state.pc thread with
      | .cancelFuture id => decide (id ∉ state.shared.queue)
      | .cancelSetCancelled id => decide (id ∉ state.window)
      | _ => true
  | _ => true

def uncancelled (_ : State Thread) : Action Thread → Bool
  | .cancel _ _ => false
  | _ => true

/-- Nothing is left to do but new calls. -/
def AtRest (state : State Thread) : Prop :=
  (∀ thread, state.pc thread = .idle) ∧ state.shared.queue = []

def Action.isCall : Action Thread → Bool
  | .submit _ | .cancel _ _ => true
  | _ => false

section Steps
variable {state after : State Thread} {phase : Phase Thread} {thread : Thread}

theorem checked_window (ordered : Ordered state phase) (id : Nat)
    (checked : id ∈ phase.submission Pc.checked state.pc) : id ∈ state.window := by
  unfold State.window
  cases phase with
  | free => cases checked
  | pending other =>
      rw [ordered.baton.queue]
      exact List.mem_append_left _ checked
  | held holder =>
      have inMonitor : (state.pc holder).inMonitor = true := by
        change id ∈ (state.pc holder).checked at checked
        cases at_pc : state.pc holder <;> rw [at_pc] at checked <;> first | rfl | cases checked
      rw [(ordered.monitored holder).mp inMonitor]
      exact List.mem_append_right _ checked

variable [DecidableEq Thread]

/-- A step that leaves the submissions and the monitor alone; see `quiet_ordered`. -/
theorem still_ordered (ordered : Ordered state phase) {point next : Pc}
    (at_pc : state.pc thread = point) (carries : next.carries = point.carries)
    (inMonitor : next.inMonitor = point.inMonitor) (ahead : next.ahead = point.ahead)
    (checked : next.checked = point.checked) (behind : next.behind = point.behind)
    (asserts : next.Asserts state.shared) :
    Ordered (state.goto thread (state.shared, next)) phase := by
  subst at_pc
  exact quiet_ordered ordered carries inMonitor ahead checked behind ordered.cancels.pending
    ordered.cancels.recorded asserts

theorem submit_ordered (ordered : Ordered state phase) {moved : Shared Thread × Pc}
    (at_pc : state.pc thread = .submit) (ran : exec thread state.shared .submit = some moved) :
    ∃ phase, Ordered (state.goto thread moved) phase := by
  simp only [exec] at ran
  split at ran
  · cases ran
  · next free =>
    split at ran
    · next runs =>
      cases ran
      exact ⟨phase, submit_busy_ordered ordered at_pc free runs⟩
    · next stopped =>
      cases ran
      exact ⟨_, submit_free_ordered ordered free (Bool.eq_false_iff.mpr stopped)⟩

theorem onEnd_ordered (ordered : Ordered state phase) {id : Nat} {moved : Shared Thread × Pc}
    (at_pc : state.pc thread = .onEnd id)
    (ran : exec thread state.shared (.onEnd id) = some moved) :
    Ordered (state.goto thread moved) phase := by
  simp only [exec] at ran
  split at ran
  · cases ran
  · next free =>
    cases ran
    exact onEndIsEmpty_ordered ordered (by rw [at_pc]; rfl) (by rw [at_pc]; rfl)
      (by rw [at_pc]; rfl) (Or.inl free) (by rw [free]; rfl)

theorem onEndLoop_ordered (ordered : Ordered state phase) {id : Nat}
    (at_pc : state.pc thread = .onEndIsEmpty id) :
    Ordered (state.goto thread (state.shared, onEndIsEmpty state.shared id)) phase := by
  have monitor := monitor_held ordered at_pc rfl
  have same : state.shared = { state.shared with monitor := some thread } := by rw [← monitor]
  rw [congrArg (fun shared => (shared, onEndIsEmpty state.shared id)) same]
  exact onEndIsEmpty_ordered ordered (by rw [at_pc]; rfl) (by rw [at_pc]; rfl)
    (by rw [at_pc]; rfl) (Or.inr monitor) (by rw [monitor]; simp [behind, at_pc, Pc.behind])

/-- The callable that a thread has begun and not left. -/
def Pc.callable : Pc → Option Nat
  | .call id | .onEnd id | .onEndIsEmpty id | .onEndClear id | .onEndRemove id
  | .onEndIsCancelled id _ | .onEndExecuteNow id _ | .onEndSetDelegate id _ | .set id => some id
  | _ => none

def Begun (state : State Thread) : Prop :=
  ∀ thread id, (state.pc thread).callable = some id → id ∈ state.shared.started

omit [DecidableEq Thread] in
theorem exec_callable {shared : Shared Thread} {pc next : Pc} {later : Shared Thread}
    (ran : exec thread shared pc = some (later, next)) :
    later.started = shared.started ∧ ∀ id, next.callable = some id → pc.callable = some id := by
  cases pc <;> simp only [exec] at ran <;> (try split at ran) <;> (try split at ran) <;>
    cases ran <;> refine ⟨rfl, fun id has => ?_⟩ <;>
    first
      | exact has
      | cases has
      | (unfold onEndIsEmpty at has; split at has <;> exact has)

theorem goto_begun (begun : Begun state) {later : Shared Thread} {next : Pc}
    (grows : ∀ id ∈ state.shared.started, id ∈ later.started)
    (stepped : ∀ id, next.callable = some id → id ∈ later.started) :
    Begun (state.goto thread (later, next)) := by
  intro other id has
  by_cases same : other = thread
  · subst other
    simp only [State.goto, Function.update_self] at has
    exact stepped id has
  · simp only [State.goto, Function.update_of_ne same] at has
    exact grows id (begun other id has)

theorem step_begun (begun : Begun state) {action : Action Thread}
    (moved : step state action = some after) : Begun after := by
  obtain ⟨⟨later, next⟩, ran, rfl⟩ := Option.map_eq_some_iff.mp moved
  cases action with
  | next thread =>
      obtain ⟨started, callable⟩ := exec_callable ran
      refine goto_begun begun (fun id member => by rwa [started]) fun id has => ?_
      rw [started]
      exact begun thread id (callable id has)
  | submit thread =>
      change submit state.shared (state.pc thread) = _ at ran
      cases at_pc : state.pc thread <;> rw [at_pc] at ran <;> cases ran
      exact goto_begun begun (fun _ member => member) fun id has => by cases has
  | cancel thread id =>
      change cancel state.shared id (state.pc thread) = _ at ran
      cases at_pc : state.pc thread <;> rw [at_pc] at ran <;> simp only [cancel] at ran <;>
        (try split at ran) <;> (try split at ran) <;> cases ran
      · exact goto_begun begun (fun _ member => member) fun id has => by cases has
      · exact goto_begun begun (fun _ member => member) fun id has => by cases has
  | start thread id =>
      change start state.shared id (state.pc thread) = _ at ran
      cases at_pc : state.pc thread <;> rw [at_pc] at ran <;> simp only [start] at ran <;>
        (try split at ran) <;> cases ran
      refine goto_begun begun (fun _ member => List.mem_append_left _ member) fun other has => ?_
      cases has
      exact List.mem_append_right _ (by simp)

omit [DecidableEq Thread] in
/-- A callable that has begun is not pending. -/
theorem begun_not_queued (ordered : Ordered state phase) {id : Nat}
    (started : id ∈ state.shared.started) : id ∉ state.shared.queue := fun queued => by
  have line := ordered.line.line
  rw [ordered.baton.queue] at queued
  cases phase with
  | pending other =>
      rw [List.mem_singleton.mp queued] at started
      have distinct := unskipped_nodup state.shared.skipped state.shared.submitted
      simp only [Phase.submission] at line
      rw [← line, List.append_assoc, List.append_assoc] at distinct
      exact (List.nodup_append.mp distinct).2.2 other started other (by simp) rfl
  | _ => cases queued

omit [DecidableEq Thread] in
theorem future_kept (ordered : Ordered state phase) {id : Nat} (value : Option FutureTask)
    (unqueued : id ∉ state.shared.queue) :
    ∀ other ∈ state.shared.queue,
      Function.update state.shared.future id value other = some .new := by
  intro other member
  have different : other ≠ id := by
    rintro rfl
    exact unqueued member
  rw [Function.update_of_ne different]
  exact ordered.cancels.pending other member

theorem cancelReturn_ordered (ordered : Ordered state phase) {id : Nat}
    {moved : Shared Thread × Pc} (at_pc : state.pc thread = .cancelReturn id)
    (ran : exec thread state.shared (.cancelReturn id) = some moved) :
    Ordered (state.goto thread moved) phase := by
  have asserted : id ∈ state.shared.started ∨ state.shared.cancelled id = true :=
    asserted_at ordered at_pc
  simp only [exec] at ran
  split at ran
  · cases ran
    exact still_ordered ordered at_pc rfl rfl rfl rfl rfl trivial
  · next unstarted =>
    cases ran
    refine quiet_ordered ordered (by rw [at_pc]; rfl) (by rw [at_pc]; rfl) (by rw [at_pc]; rfl)
      (by rw [at_pc]; rfl) (by rw [at_pc]; rfl) ordered.cancels.pending ?_ trivial
    intro other member
    rcases List.mem_append.mp member with member | last
    · exact ordered.cancels.recorded other member
    · rw [List.mem_singleton.mp last]
      exact ⟨asserted.resolve_left unstarted, unstarted⟩

theorem exec_ordered (ordered : Ordered state phase) (begun : Begun state)
    {moved : Shared Thread × Pc} (allowed : heeded state (.next thread) = true)
    (ran : exec thread state.shared (state.pc thread) = some moved) :
    ∃ phase, Ordered (state.goto thread moved) phase := by
  cases at_pc : state.pc thread with
  | idle => rw [at_pc] at ran; cases ran
  | submit =>
      rw [at_pc] at ran
      exact submit_ordered ordered at_pc ran
  | submitExecuteNow id =>
      rw [at_pc] at ran
      cases ran
      have monitored := ordered.monitored
      rw [monitor_held ordered at_pc rfl] at monitored
      refine ⟨_, executeNow_ordered ordered (by rw [at_pc]; rfl) (by rw [at_pc]; rfl)
        (by rw [at_pc]; rfl) (by rw [at_pc]; rfl) (by rw [at_pc]; rfl) rfl
        (monitored_leave monitored rfl) rfl (fun other member => ?_) trivial⟩
      exact (List.mem_append.mp member).imp_right List.mem_singleton.mp
  | submitAdd id =>
      rw [at_pc] at ran
      cases ran
      exact ⟨phase, submitAdd_ordered ordered at_pc⟩
  | call id =>
      rw [at_pc] at ran
      cases ran
      exact ⟨phase, still_ordered ordered at_pc rfl rfl rfl rfl rfl trivial⟩
  | onEnd id =>
      rw [at_pc] at ran
      exact ⟨phase, onEnd_ordered ordered at_pc ran⟩
  | onEndIsEmpty id =>
      rw [at_pc] at ran
      cases ran
      exact ⟨phase, onEndLoop_ordered ordered at_pc⟩
  | onEndClear id =>
      rw [at_pc] at ran
      cases ran
      exact ⟨_, onEndClear_ordered ordered at_pc⟩
  | onEndRemove id =>
      rw [at_pc] at ran
      simp only [exec] at ran
      split at ran
      · next empty => exact absurd empty (asserted_at ordered at_pc)
      · next head rest order =>
        cases ran
        exact ⟨phase, onEndRemove_ordered ordered at_pc order⟩
  | onEndIsCancelled id head =>
      rw [at_pc] at ran
      simp only [exec, isCancelled_head ordered at_pc] at ran
      split at ran
      · next cancelled =>
        cases ran
        exact ⟨phase, skip_ordered ordered at_pc cancelled⟩
      · next uncancelled =>
        cases ran
        exact ⟨phase, uncancelled_ordered ordered at_pc (Bool.eq_false_iff.mpr uncancelled)⟩
  | onEndExecuteNow id head =>
      rw [at_pc] at ran
      cases ran
      have monitor := monitor_held ordered at_pc rfl
      refine ⟨_, executeNow_ordered ordered (by rw [at_pc]; rfl) (by rw [at_pc]; rfl)
        (by rw [at_pc]; rfl) (by rw [at_pc]; rfl) (by rw [at_pc]; rfl) rfl
        (monitored_same ordered.monitored (by rw [at_pc]; rfl)) ?_
        (fun other member => Or.inl member) (Or.inl (List.mem_append_right _ (by simp)))⟩
      rw [monitor, behind_holder]
      rfl
  | onEndSetDelegate id head =>
      rw [at_pc] at ran
      cases ran
      exact ⟨phase, setDelegate_ordered ordered at_pc⟩
  | set id =>
      rw [at_pc] at ran
      have unqueued := begun_not_queued ordered (begun thread id (by rw [at_pc]; rfl))
      simp only [exec] at ran
      split at ran
      · cases ran
        exact ⟨phase, quiet_ordered ordered (by rw [at_pc]; rfl) (by rw [at_pc]; rfl)
          (by rw [at_pc]; rfl) (by rw [at_pc]; rfl) (by rw [at_pc]; rfl)
          (future_kept ordered _ unqueued) ordered.cancels.recorded trivial⟩
      · cases ran
        exact ⟨phase, still_ordered ordered at_pc rfl rfl rfl rfl rfl trivial⟩
  | cancelGetDelegate id =>
      have below : id < state.shared.submitted := asserted_at ordered at_pc
      rw [at_pc] at ran
      cases ran
      refine ⟨phase, ?_⟩
      split
      · next delegate =>
        exact still_ordered ordered at_pc rfl rfl rfl rfl rfl
          (ordered.cancels.handed id (Or.inr delegate))
      · exact still_ordered ordered at_pc rfl rfl rfl rfl rfl below
  | cancelFuture id =>
      have unqueued : id ∉ state.shared.queue := by simpa [heeded, at_pc] using allowed
      have accepted : id ∈ state.shared.queue ∨ id ∈ state.shared.started :=
        asserted_at ordered at_pc
      rw [at_pc] at ran
      simp only [exec] at ran
      split at ran
      · cases ran
        exact ⟨phase, quiet_ordered ordered (by rw [at_pc]; rfl) (by rw [at_pc]; rfl)
          (by rw [at_pc]; rfl) (by rw [at_pc]; rfl) (by rw [at_pc]; rfl)
          (future_kept ordered _ unqueued) ordered.cancels.recorded
          (Or.inl (accepted.resolve_left unqueued))⟩
      · cases ran
        exact ⟨phase, still_ordered ordered at_pc rfl rfl rfl rfl rfl trivial⟩
  | cancelSetCancelled id =>
      have outside : id ∉ state.window := by simpa [heeded, at_pc] using allowed
      rw [at_pc] at ran
      cases ran
      exact ⟨phase, setCancelled_ordered ordered at_pc fun checked =>
        outside (checked_window ordered id checked)⟩
  | cancelReturn id =>
      rw [at_pc] at ran
      exact ⟨phase, cancelReturn_ordered ordered at_pc ran⟩

theorem step_ordered (ordered : Ordered state phase) (begun : Begun state)
    {action : Action Thread} (allowed : heeded state action = true)
    (moved : step state action = some after) : ∃ phase, Ordered after phase := by
  obtain ⟨⟨later, next⟩, ran, rfl⟩ := Option.map_eq_some_iff.mp moved
  cases action with
  | next thread => exact exec_ordered ordered begun allowed ran
  | submit thread =>
      change submit state.shared (state.pc thread) = _ at ran
      cases at_pc : state.pc thread <;> rw [at_pc] at ran <;> cases ran
      exact ⟨phase, still_ordered ordered at_pc rfl rfl rfl rfl rfl trivial⟩
  | cancel thread id =>
      change cancel state.shared id (state.pc thread) = _ at ran
      cases at_pc : state.pc thread <;> rw [at_pc] at ran <;> simp only [cancel] at ran <;>
        try cases ran
      refine ⟨phase, ?_⟩
      split at ran
      · next direct =>
        cases ran
        exact still_ordered ordered at_pc rfl rfl rfl rfl rfl
          (ordered.cancels.handed id (Or.inl direct))
      · split at ran
        · next wrapped =>
          cases ran
          exact still_ordered ordered at_pc rfl rfl rfl rfl rfl
            (ordered.cancels.wrapped id wrapped)
        · cases ran
  | start thread id =>
      change start state.shared id (state.pc thread) = _ at ran
      cases at_pc : state.pc thread <;> rw [at_pc] at ran <;> simp only [start] at ran <;>
        try cases ran
      split at ran
      · next queued =>
        cases ran
        exact ⟨_, start_ordered ordered at_pc queued.1⟩
      · cases ran

theorem reached_ordered
    (reached : Reached (singleThreadedScheduler Thread) heeded state) :
    Begun state ∧ ∃ phase, Ordered state phase := by
  refine reached_invariant (fun state => Begun state ∧ ∃ phase, Ordered state phase) ?_ ?_ reached
  · have idle : Begun (singleThreadedScheduler Thread).initial := by
      intro thread id has
      cases has
    refine ⟨idle, .free, ?_⟩
    exact {
      baton := ⟨rfl, rfl, fun _ => by simp [singleThreadedScheduler, Pc.carries]⟩
      monitored := fun _ => by simp [singleThreadedScheduler, Pc.inMonitor]
      line := ⟨rfl, fun _ => rfl⟩
      cancels := by
        refine ⟨?_, ?_, ?_, ?_, ?_, ?_⟩ <;> simp [singleThreadedScheduler]
      asserts := fun _ => trivial }
  · rintro before action after _ ⟨begun, phase, ordered⟩ allowed moved
    exact ⟨step_begun begun moved, step_ordered ordered begun allowed moved⟩

end Steps

section Claims
variable [DecidableEq Thread] {state : State Thread} {phase : Phase Thread}

/-- A callable that is pending or executing is one whose end calls `onEnd`. -/
structure Unstuck (state : State Thread) : Prop where
  carried : state.shared.running = true →
    (∃ id ∈ state.shared.queue, state.shared.future id = some .new) ∨
      ∃ thread, (state.pc thread).carries = true
  drained : state.shared.running = false → state.shared.order = []
  completed : AtRest state → ∀ id < state.shared.submitted,
    id ∈ state.shared.started ∨ state.shared.cancelled id = true
  progress : ¬AtRest state → ∃ action : Action Thread, action.isCall = false ∧
    (step state action).isSome
  cancelled : ∀ id ∈ state.shared.cancelledUnstarted, id ∉ state.shared.started

omit [DecidableEq Thread] in
theorem exec_moves {shared : Shared Thread} {thread : Thread} {pc : Pc} (busy : pc ≠ .idle)
    (free : shared.monitor = none ∨ pc.inMonitor = true) :
    (exec thread shared pc).isSome := by
  cases pc with
  | idle => exact absurd rfl busy
  | submit | onEnd =>
      rcases free with free | inside
      · simp only [exec, free]
        try split
        all_goals rfl
      · cases inside
  | onEndRemove id =>
      simp only [exec]
      split <;> rfl
  | onEndIsCancelled | set | cancelFuture | cancelReturn =>
      simp only [exec]
      split <;> rfl
  | _ => rfl

/-- Whoever has the monitor can go on, and if nobody has it everybody can. -/
theorem ordered_progress [Inhabited Thread] (ordered : Ordered state phase)
    (busy : ¬AtRest state) :
    ∃ action : Action Thread, action.isCall = false ∧ (step state action).isSome := by
  have goes {thread : Thread} (busy : state.pc thread ≠ .idle)
      (free : state.shared.monitor = none ∨ (state.pc thread).inMonitor = true) :
      ∃ action : Action Thread, action.isCall = false ∧ (step state action).isSome := by
    refine ⟨.next thread, rfl, ?_⟩
    rw [step, Option.isSome_map]
    exact exec_moves busy free
  cases monitor : state.shared.monitor with
  | some holder =>
      have inside := (ordered.monitored holder).mpr monitor
      refine goes (fun idle => ?_) (Or.inr inside)
      rw [idle] at inside
      cases inside
  | none =>
      by_cases idle : ∀ thread, state.pc thread = .idle
      · have queued : state.shared.queue ≠ [] := fun empty => busy ⟨idle, empty⟩
        obtain ⟨id, member⟩ := List.exists_mem_of_ne_nil _ queued
        refine ⟨.start default id, rfl, ?_⟩
        rw [step, Option.isSome_map]
        change (start state.shared id (state.pc default)).isSome = true
        rw [idle default, start, if_pos ⟨member, ordered.cancels.pending id member⟩]
        rfl
      · rw [not_forall] at idle
        obtain ⟨thread, awake⟩ := idle
        exact goes awake (Or.inl monitor)

omit [DecidableEq Thread] in
theorem ordered_rest (ordered : Ordered state phase) (rest : AtRest state) :
    state.shared.started = unskipped state.shared.skipped state.shared.submitted := by
  obtain ⟨idle, empty⟩ := rest
  have outside : state.shared.monitor = none := by
    cases monitor : state.shared.monitor with
    | none => rfl
    | some holder =>
        have inside := (ordered.monitored holder).mpr monitor
        rw [idle] at inside
        cases inside
  have free : phase = .free := by
    cases phase with
    | free => rfl
    | held holder =>
        have carries := (ordered.baton.carries holder).mpr rfl
        rw [idle] at carries
        cases carries
    | pending id =>
        have queue := ordered.baton.queue
        rw [empty] at queue
        cases queue
  subst free
  have line := ordered.line.line
  rw [outside, ordered.line.resting ordered.baton.running] at line
  simpa [Phase.submission, behind] using line

theorem ordered_unstuck [Inhabited Thread] (ordered : Ordered state phase) : Unstuck state where
  carried := fun runs => by
    cases phase with
    | free =>
        rw [ordered.baton.running] at runs
        cases runs
    | held holder => exact Or.inr ⟨holder, (ordered.baton.carries holder).mpr rfl⟩
    | pending id =>
        have member : id ∈ state.shared.queue := by
          rw [ordered.baton.queue]
          exact List.mem_singleton_self id
        exact Or.inl ⟨id, member, ordered.cancels.pending id member⟩
  drained := ordered.line.resting
  completed := fun rest id below => by
    rw [ordered_rest ordered rest]
    by_cases skipped : id ∈ state.shared.skipped
    · exact Or.inr (ordered.cancels.skipped id skipped)
    · exact Or.inl (List.mem_filter.mpr ⟨List.mem_range.mpr below, decide_eq_true skipped⟩)
  progress := ordered_progress ordered
  cancelled := fun id member => (ordered.cancels.recorded id member).2

def Pc.cancels : Pc → Bool
  | .cancelGetDelegate _ | .cancelFuture _ | .cancelSetCancelled _ | .cancelReturn _ => true
  | _ => false

theorem unstuck_if_heeded [Inhabited Thread]
    (reached : Reached (singleThreadedScheduler Thread) heeded state) : Unstuck state := by
  obtain ⟨_, phase, ordered⟩ := reached_ordered reached
  exact ordered_unstuck ordered

/-- The first submission is pending and the second one in the queue. -/
def oneQueued : List (Action Bool) :=
  [.submit false, .next false, .next false, .submit false, .next false, .next false]

/-- The queued submission is cancelled in time, and is passed over. -/
theorem unstuck_past_cancelled : ∃ state : State Bool,
    Reached (singleThreadedScheduler Bool) heeded state ∧
      state.shared.cancelledUnstarted = [1] ∧ state.shared.running = false ∧ Unstuck state := by
  obtain ⟨state, reached, shown⟩ := replay_shows (singleThreadedScheduler Bool) heeded
    (oneQueued ++ [.cancel false 1, .next false, .next false, .next false, .start true 0] ++
      List.replicate 6 (.next true))
    (fun state => decide (state.shared.cancelledUnstarted = [1]) &&
      decide (state.shared.running = false)) (by decide +kernel)
  simp only [Bool.and_eq_true, decide_eq_true_eq] at shown
  exact ⟨state, reached, shown.1, shown.2, unstuck_if_heeded reached⟩

/-- The pending callable is cancelled and takes the baton with it: the queue waits for
ever. And a `cancel` between `isCancelled` and `setDelegate` returns true for a
callable that begins afterwards. -/
theorem cancel_unheeded :
    (∃ state : State Bool, Reached (singleThreadedScheduler Bool) anyStep state ∧
      state.shared.order = [1] ∧ ¬Unstuck state) ∧
    (∃ state : State Bool, Reached (singleThreadedScheduler Bool) anyStep state ∧
      1 ∈ state.shared.cancelledUnstarted ∧ 1 ∈ state.shared.started) := by
  constructor
  · obtain ⟨state, reached, shown⟩ := replay_shows (singleThreadedScheduler Bool) anyStep
      (oneQueued ++ [.cancel false 0, .next false, .next false])
      (fun state => decide (state.shared.order = [1]) && decide (state.shared.running = true) &&
        decide (∀ id ∈ state.shared.queue, state.shared.future id ≠ some .new) &&
        decide (∀ thread, (state.pc thread).carries = false)) (by decide +kernel)
    simp only [Bool.and_eq_true, decide_eq_true_eq] at shown
    obtain ⟨⟨⟨waits, runs⟩, noneNew⟩, noneCarries⟩ := shown
    refine ⟨state, reached, waits, fun unstuck => ?_⟩
    rcases unstuck.carried runs with ⟨id, queued, pending⟩ | ⟨thread, carries⟩
    · exact noneNew id queued pending
    · exact Bool.false_ne_true ((noneCarries thread).symm.trans carries)
  · obtain ⟨state, reached, shown⟩ := replay_shows (singleThreadedScheduler Bool) anyStep
      (oneQueued ++ [.start true 0] ++ List.replicate 4 (.next true) ++
        [.cancel false 1, .next false, .next false, .next false, .next true, .start false 1])
      (fun state => decide (1 ∈ state.shared.cancelledUnstarted) &&
        decide (1 ∈ state.shared.started)) (by decide +kernel)
    simp only [Bool.and_eq_true, decide_eq_true_eq] at shown
    exact ⟨state, reached, shown.1, shown.2⟩

end Claims
end Brooklyn.SingleThreadedScheduler
