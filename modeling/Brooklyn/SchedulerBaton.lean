import Mathlib.Data.List.Nodup
import Mathlib.Data.List.Range
import Brooklyn.SingleThreadedScheduler

/-!
The baton of the scheduler. While `running` is set, one callable has the baton: it is
pending in the executor, or one thread carries it from the start of the callable to
the point of `onEnd` where the next callable goes to the executor or `running` is
cleared. The submissions stand in one line: the callables begun, the one with the
baton if it has not begun, the queue, and the one that `submit` is about to add.

This holds as long as no `cancel` takes a pending callable from the executor and none
is noted too late, after `onEnd` has asked whether the submission is cancelled.
-/

namespace Brooklyn.SingleThreadedScheduler
open Transition

variable {Thread : Type}

inductive Phase (Thread : Type) where
  | free
  | held (thread : Thread)
  | pending (id : Nat)

namespace Pc

def carries : Pc → Bool
  | .submitExecuteNow _ | .call _ | .onEnd _ | .onEndIsEmpty _ | .onEndClear _ | .onEndRemove _
  | .onEndIsCancelled _ _ | .onEndExecuteNow _ _ => true
  | _ => false

def inMonitor : Pc → Bool
  | .submitExecuteNow _ | .submitAdd _ | .onEndIsEmpty _ | .onEndClear _ | .onEndRemove _
  | .onEndIsCancelled _ _ | .onEndExecuteNow _ _ | .onEndSetDelegate _ _ => true
  | _ => false

/-- The submission that is next, and has left the queue or never was in it. -/
def ahead : Pc → List Nat
  | .submitExecuteNow id => [id]
  | .onEndIsCancelled _ head | .onEndExecuteNow _ head => [head]
  | _ => []

/-- The submission that is to go to the executor, whatever `cancel` notes from now on. -/
def checked : Pc → List Nat
  | .submitExecuteNow id => [id]
  | .onEndExecuteNow _ head => [head]
  | _ => []

def behind : Pc → List Nat
  | .submitAdd id => [id]
  | _ => []

/-- What a thread may rely on at its point of a call. -/
def Asserts (shared : Shared Thread) : Pc → Prop
  | .submitAdd _ => shared.running = true
  | .onEndClear _ => shared.order = []
  | .onEndRemove _ => shared.order ≠ []
  | .cancelGetDelegate id | .cancelSetCancelled id => id < shared.submitted
  | .cancelFuture id | .onEndSetDelegate _ id => id ∈ shared.queue ∨ id ∈ shared.started
  | .cancelReturn id => id ∈ shared.started ∨ shared.cancelled id = true
  | _ => True

end Pc

namespace Phase

def running : Phase Thread → Bool
  | .free => false
  | _ => true

def queue : Phase Thread → List Nat
  | .pending id => [id]
  | _ => []

def submission (has : Pc → List Nat) (pc : Thread → Pc) : Phase Thread → List Nat
  | .free => []
  | .held thread => has (pc thread)
  | .pending id => [id]

end Phase

def behind (monitor : Option Thread) (pc : Thread → Pc) : List Nat :=
  match monitor with
  | some thread => (pc thread).behind
  | none => []

structure Baton (shared : Shared Thread) (pc : Thread → Pc) (phase : Phase Thread) : Prop where
  running : shared.running = phase.running
  queue : shared.queue = phase.queue
  carries : ∀ thread, (pc thread).carries = true ↔ phase = .held thread

def unskipped (skipped : List Nat) (submitted : Nat) : List Nat :=
  (List.range submitted).filter fun id => decide (id ∉ skipped)

structure Line (shared : Shared Thread) (pc : Thread → Pc) (phase : Phase Thread) : Prop where
  line : shared.started ++ phase.submission Pc.ahead pc ++ shared.order ++
    behind shared.monitor pc = unskipped shared.skipped shared.submitted
  resting : shared.running = false → shared.order = []

structure Cancels (shared : Shared Thread) (checked : List Nat) : Prop where
  pending : ∀ id ∈ shared.queue, shared.future id = some .new
  handed : ∀ id, id ∈ shared.direct ∨ shared.delegate id = true →
    id ∈ shared.queue ∨ id ∈ shared.started
  wrapped : ∀ id ∈ shared.wrapped, id < shared.submitted
  noted : ∀ id, shared.cancelled id = true → id < shared.submitted ∧ id ∉ checked
  skipped : ∀ id ∈ shared.skipped, shared.cancelled id = true
  recorded : ∀ id ∈ shared.cancelledUnstarted, shared.cancelled id = true ∧ id ∉ shared.started

structure Ordered (state : State Thread) (phase : Phase Thread) : Prop where
  baton : Baton state.shared state.pc phase
  monitored : Monitored Pc.inMonitor state.shared.monitor state.pc
  line : Line state.shared state.pc phase
  cancels : Cancels state.shared (phase.submission Pc.checked state.pc)
  asserts : ∀ thread, (state.pc thread).Asserts state.shared

section Lists

theorem unskipped_nodup (skipped : List Nat) (submitted : Nat) :
    (unskipped skipped submitted).Nodup := List.nodup_range.filter _

theorem unskipped_succ {skipped : List Nat} {submitted : Nat} (fresh : submitted ∉ skipped) :
    unskipped skipped (submitted + 1) = unskipped skipped submitted ++ [submitted] := by
  simp [unskipped, List.range_succ, List.filter_append, fresh]

/-- A submission that is passed over leaves the line. -/
theorem unskipped_skip {skipped front back : List Nat} {submitted head : Nat}
    (line : front ++ [head] ++ back = unskipped skipped submitted) :
    front ++ back = unskipped (skipped ++ [head]) submitted := by
  have distinct := unskipped_nodup skipped submitted
  rw [← line, List.append_assoc] at distinct
  obtain ⟨_, tail, apart⟩ := List.nodup_append.mp distinct
  have notFront : ∀ id ∈ front, decide (id ≠ head) = true := by
    intro id member
    exact decide_eq_true (apart id member head (by simp))
  have notBack : ∀ id ∈ back, decide (id ≠ head) = true := by
    rintro id member
    refine decide_eq_true ?_
    rintro rfl
    exact (List.nodup_cons.mp tail).1 member
  have both : unskipped (skipped ++ [head]) submitted =
      (unskipped skipped submitted).filter fun id => decide (id ≠ head) := by
    unfold unskipped
    rw [List.filter_filter]
    refine List.filter_congr fun id _ => ?_
    simp [and_comm]
  rw [both, ← line, List.filter_append, List.filter_append, List.filter_eq_self.mpr notFront,
    List.filter_eq_self.mpr notBack]
  simp

end Lists

section Updates
variable [DecidableEq Thread] {pc : Thread → Pc} {thread : Thread} {next : Pc}
  {phase : Phase Thread} {has : Pc → List Nat}

theorem submission_same (same : has next = has (pc thread)) :
    phase.submission has (Function.update pc thread next) = phase.submission has pc := by
  cases phase with
  | held other =>
      by_cases equal : other = thread
      · subst other
        simpa [Phase.submission] using same
      · simp [Phase.submission, equal]
  | _ => rfl

@[simp] theorem submission_held :
    (Phase.held thread).submission has (Function.update pc thread next) = has next := by
  simp [Phase.submission]

theorem behind_same {monitor : Option Thread} (same : next.behind = (pc thread).behind) :
    behind monitor (Function.update pc thread next) = behind monitor pc := by
  cases monitor with
  | none => rfl
  | some holder =>
      by_cases equal : holder = thread
      · subst holder
        simpa [behind] using same
      · simp [behind, equal]

@[simp] theorem behind_holder :
    behind (some thread) (Function.update pc thread next) = next.behind := by
  simp [behind]

end Updates

section Assertions
variable {before after : Shared Thread} {thread : Thread}

/-- What the assertions outside the monitor speak of only grows. -/
structure Grows (before after : Shared Thread) : Prop where
  submitted : before.submitted ≤ after.submitted
  accepted : ∀ id, id ∈ before.queue ∨ id ∈ before.started → id ∈ after.queue ∨ id ∈ after.started
  started : ∀ id ∈ before.started, id ∈ after.started
  cancelled : ∀ id, before.cancelled id = true → after.cancelled id = true

theorem grows_only (submitted : before.submitted ≤ after.submitted)
    (queue : after.queue = before.queue) (started : after.started = before.started)
    (cancelled : after.cancelled = before.cancelled) : Grows before after where
  submitted := submitted
  accepted := fun _ accepted => by rwa [queue, started]
  started := fun _ begun => by rwa [started]
  cancelled := fun _ noted => by rwa [cancelled]

theorem asserts_grown (grows : Grows before after) {point : Pc}
    (inside : point.inMonitor = true →
      after.running = before.running ∧ after.order = before.order)
    (asserts : point.Asserts before) : point.Asserts after := by
  cases point with
  | submitAdd => exact (inside rfl).1.trans asserts
  | onEndClear => exact (inside rfl).2.trans asserts
  | onEndRemove =>
      change after.order ≠ []
      rw [(inside rfl).2]
      exact asserts
  | cancelGetDelegate | cancelSetCancelled => exact Nat.lt_of_lt_of_le asserts grows.submitted
  | cancelFuture id | onEndSetDelegate _ id => exact grows.accepted id asserts
  | cancelReturn id => exact asserts.imp (grows.started id) (grows.cancelled id)
  | _ => trivial

variable [DecidableEq Thread]

/-- A thread that is alone in the monitor spares the assertions of the others. -/
theorem asserts_alone {state : State Thread} {next : Pc}
    (asserts : ∀ other, (state.pc other).Asserts state.shared)
    (monitored : Monitored Pc.inMonitor state.shared.monitor state.pc)
    (alone : state.shared.monitor = none ∨ state.shared.monitor = some thread)
    (grows : Grows state.shared after) (stepped : next.Asserts after) (other : Thread) :
    ((state.goto thread (after, next)).pc other).Asserts
      (state.goto thread (after, next)).shared := by
  refine @forall_after_step _ _ _ state.pc thread next
    (fun _ point => point.Asserts state.shared) (fun _ point => point.Asserts after)
    asserts stepped ?_ other
  intro another different asserted
  refine asserts_grown grows (fun inside => ?_) asserted
  have holds := (monitored another).mp inside
  rcases alone with free | held
  · rw [free] at holds
    cases holds
  · rw [held] at holds
    exact absurd (Option.some.inj holds).symm different

theorem asserts_untouched {state : State Thread} {next : Pc}
    (asserts : ∀ other, (state.pc other).Asserts state.shared)
    (running : after.running = state.shared.running) (order : after.order = state.shared.order)
    (grows : Grows state.shared after) (stepped : next.Asserts after) (other : Thread) :
    ((state.goto thread (after, next)).pc other).Asserts
      (state.goto thread (after, next)).shared :=
  @forall_after_step _ _ _ state.pc thread next
    (fun _ point => point.Asserts state.shared) (fun _ point => point.Asserts after)
    asserts stepped (fun _ _ asserted => asserts_grown grows (fun _ => ⟨running, order⟩) asserted) other

end Assertions

section Steps
variable [DecidableEq Thread] {state : State Thread} {phase : Phase Thread} {thread : Thread}

/-- A step that moves no submission and takes or leaves nothing. -/
theorem quiet_ordered (ordered : Ordered state phase) {next : Pc}
    {future : Nat → Option FutureTask} {recorded : List Nat}
    (carries : next.carries = (state.pc thread).carries)
    (inMonitor : next.inMonitor = (state.pc thread).inMonitor)
    (ahead : next.ahead = (state.pc thread).ahead)
    (checked : next.checked = (state.pc thread).checked)
    (behind : next.behind = (state.pc thread).behind)
    (pending : ∀ id ∈ state.shared.queue, future id = some .new)
    (unstarted : ∀ id ∈ recorded, state.shared.cancelled id = true ∧ id ∉ state.shared.started)
    (asserts : next.Asserts state.shared) :
    Ordered (state.goto thread
      ({ state.shared with future := future, cancelledUnstarted := recorded }, next)) phase where
  baton :=
    { running := ordered.baton.running
      queue := ordered.baton.queue
      carries := marks_after_step _ _ _ _ ordered.baton.carries
        (by rw [carries, ordered.baton.carries]) fun _ _ => Iff.rfl }
  monitored := monitored_same ordered.monitored inMonitor
  line :=
    { line := by
        simp only [State.goto]
        rw [submission_same ahead, behind_same behind]
        exact ordered.line.line
      resting := ordered.line.resting }
  cancels := by
    simp only [State.goto]
    rw [submission_same checked]
    exact { ordered.cancels with pending := pending, recorded := unstarted }
  asserts := by
    have grows : Grows state.shared
        { state.shared with future := future, cancelledUnstarted := recorded } :=
      (grows_only (Nat.le_refl _) rfl rfl rfl)
    exact asserts_untouched ordered.asserts rfl rfl grows
      (asserts_grown grows (fun _ => ⟨rfl, rfl⟩) asserts)

omit [DecidableEq Thread] in
theorem fresh_unskipped (ordered : Ordered state phase) :
    state.shared.submitted ∉ state.shared.skipped := fun member =>
  Nat.lt_irrefl _ (ordered.cancels.noted _ (ordered.cancels.skipped _ member)).1

theorem submit_free_ordered (ordered : Ordered state phase)
    (free : state.shared.monitor = none) (stopped : state.shared.running = false) :
    Ordered (state.goto thread
      ({ state.shared with
          monitor := some thread, submitted := state.shared.submitted + 1, running := true },
        .submitExecuteNow state.shared.submitted)) (.held thread) := by
  have nobody : phase = .free := by
    have running := ordered.baton.running
    rw [stopped] at running
    cases phase <;> first | rfl | cases running
  subst nobody
  obtain ⟨_, queue, carries⟩ := ordered.baton
  have line := ordered.line.line
  rw [ordered.line.resting stopped, free] at line
  exact {
    baton :=
      { running := rfl
        queue := queue
        carries := marks_after_step _ _ _ _ carries (by simp [Pc.carries]) fun other different => by
          simp [Ne.symm different] }
    monitored := by
      have monitored := ordered.monitored
      rw [free] at monitored
      exact monitored_enter monitored rfl
    line :=
      { line := by
          simp only [State.goto, submission_held, behind_holder]
          rw [unskipped_succ (fresh_unskipped ordered), ← line, ordered.line.resting stopped]
          simp [Phase.submission, Pc.ahead, Pc.behind, behind]
        resting := fun stands => by cases stands }
    cancels :=
      { ordered.cancels with
        wrapped := fun id member => Nat.lt_succ_of_lt (ordered.cancels.wrapped id member)
        noted := fun id noted => by
          have below := (ordered.cancels.noted id noted).1
          refine ⟨Nat.lt_succ_of_lt below, ?_⟩
          simp only [State.goto, submission_held, Pc.checked, List.mem_singleton]
          exact Nat.ne_of_lt below }
    asserts := asserts_alone ordered.asserts ordered.monitored (Or.inl free)
      (grows_only (Nat.le_succ _) rfl rfl rfl) trivial }

theorem submit_busy_ordered (ordered : Ordered state phase) (at_pc : state.pc thread = .submit)
    (free : state.shared.monitor = none) (runs : state.shared.running = true) :
    Ordered (state.goto thread
      ({ state.shared with
          monitor := some thread, submitted := state.shared.submitted + 1, running := true },
        .submitAdd state.shared.submitted)) phase := by
  have line := ordered.line.line
  rw [free] at line
  exact {
    baton :=
      { running := runs.symm.trans ordered.baton.running
        queue := ordered.baton.queue
        carries := marks_after_step _ _ _ _ ordered.baton.carries
          (by rw [← ordered.baton.carries, at_pc]; simp [Pc.carries]) fun _ _ => Iff.rfl }
    monitored := by
      have monitored := ordered.monitored
      rw [free] at monitored
      exact monitored_enter monitored rfl
    line :=
      { line := by
          simp only [State.goto, behind_holder]
          rw [submission_same (by rw [at_pc]; rfl), unskipped_succ (fresh_unskipped ordered),
            ← line]
          simp [Pc.behind, behind]
        resting := fun stands => by cases stands }
    cancels := by
      simp only [State.goto]
      rw [submission_same (by rw [at_pc]; rfl)]
      exact { ordered.cancels with
        wrapped := fun id member => Nat.lt_succ_of_lt (ordered.cancels.wrapped id member)
        noted := fun id noted =>
          ⟨Nat.lt_succ_of_lt (ordered.cancels.noted id noted).1,
            (ordered.cancels.noted id noted).2⟩ }
    asserts := asserts_alone ordered.asserts ordered.monitored (Or.inl free)
      (grows_only (Nat.le_succ _) rfl rfl rfl) rfl }

omit [DecidableEq Thread] in
theorem phase_held (ordered : Ordered state phase) {point : Pc} (at_pc : state.pc thread = point)
    (carries : point.carries = true) : phase = .held thread :=
  (ordered.baton.carries thread).mp (at_pc ▸ carries)

omit [DecidableEq Thread] in
theorem monitor_held (ordered : Ordered state phase) {point : Pc}
    (at_pc : state.pc thread = point) (inMonitor : point.inMonitor = true) :
    state.shared.monitor = some thread :=
  (ordered.monitored thread).mp (at_pc ▸ inMonitor)

omit [DecidableEq Thread] in
theorem asserted_at (ordered : Ordered state phase) {point : Pc}
    (at_pc : state.pc thread = point) : point.Asserts state.shared := at_pc ▸ ordered.asserts thread

/-- The callable that is next goes to the executor, and the baton with it. -/
theorem executeNow_ordered (ordered : Ordered state phase) {id : Nat} {next : Pc}
    {monitor : Option Thread} {direct : List Nat} (carries : (state.pc thread).carries = true)
    (ahead : (state.pc thread).ahead = [id]) (checked : (state.pc thread).checked = [id])
    (inMonitor : (state.pc thread).inMonitor = true) (behindBefore : (state.pc thread).behind = [])
    (handsOver : next.carries = false)
    (monitored : Monitored Pc.inMonitor monitor (Function.update state.pc thread next))
    (behindAfter : behind monitor (Function.update state.pc thread next) = [])
    (handed : ∀ other ∈ direct, other ∈ state.shared.direct ∨ other = id)
    (asserts : next.Asserts (state.shared.executeNow id)) :
    Ordered (state.goto thread
      ({ state.shared.executeNow id with monitor := monitor, direct := direct }, next))
      (.pending id) := by
  have held := phase_held ordered rfl carries
  subst held
  have queue : state.shared.queue = [] := ordered.baton.queue
  have line := ordered.line.line
  rw [monitor_held ordered rfl inMonitor] at line
  simp only [Phase.submission, ahead, behind, behindBefore] at line
  have checkedBefore := ordered.cancels
  simp only [Phase.submission, checked] at checkedBefore
  have accepted (other : Nat)
      (before : other ∈ state.shared.queue ∨ other ∈ state.shared.started) :
      other ∈ state.shared.queue ++ [id] ∨ other ∈ state.shared.started :=
    before.imp (List.mem_append_left _) fun begun => begun
  exact {
    baton :=
      { running := ordered.baton.running
        queue := congrArg (· ++ [id]) queue
        carries := marks_after_step _ _ _ _ ordered.baton.carries (by simp [handsOver])
          fun other different => by simp [Ne.symm different] }
    monitored := monitored
    line :=
      { line := by
          simp only [State.goto]
          rw [behindAfter]
          exact line
        resting := ordered.line.resting }
    cancels :=
      { checkedBefore with
        pending := fun other member => by
          simp only [State.goto, Shared.executeNow, queue, List.nil_append,
            List.mem_singleton] at member ⊢
          subst other
          simp
        handed := fun other before => by
          rcases before with member | delegate
          · rcases handed other member with member | rfl
            · exact accepted other (ordered.cancels.handed other (Or.inl member))
            · exact Or.inl (List.mem_append_right _ (by simp))
          · exact accepted other (ordered.cancels.handed other (Or.inr delegate)) }
    asserts := by
      have grows : Grows state.shared
          { state.shared.executeNow id with monitor := monitor, direct := direct } :=
        ⟨Nat.le_refl _, accepted, fun _ begun => begun, fun _ noted => noted⟩
      have stepped : next.Asserts
          { state.shared.executeNow id with monitor := monitor, direct := direct } :=
        asserts_grown (grows_only (Nat.le_refl _) rfl rfl rfl) (fun _ => ⟨rfl, rfl⟩) asserts
      exact asserts_untouched ordered.asserts rfl rfl grows stepped }

theorem submitAdd_ordered (ordered : Ordered state phase) {id : Nat}
    (at_pc : state.pc thread = .submitAdd id) :
    Ordered (state.goto thread
      ({ state.shared with
          order := state.shared.order ++ [id], monitor := none
          wrapped := state.shared.wrapped ++ [id] }, .idle)) phase := by
  have monitor := monitor_held ordered at_pc rfl
  have runs : state.shared.running = true := asserted_at ordered at_pc
  have line := ordered.line.line
  rw [monitor] at line
  simp only [behind, at_pc, Pc.behind] at line
  have below : id < state.shared.submitted := by
    have member : id ∈ unskipped state.shared.skipped state.shared.submitted := by
      rw [← line]
      simp
    exact List.mem_range.mp (List.mem_of_mem_filter member)
  exact {
    baton :=
      { ordered.baton with
        carries := marks_after_step _ _ _ _ ordered.baton.carries
          (by rw [← ordered.baton.carries, at_pc]; simp [Pc.carries]) fun _ _ => Iff.rfl }
    monitored := by
      have monitored := ordered.monitored
      rw [monitor] at monitored
      exact monitored_leave monitored rfl
    line :=
      { line := by
          simp only [State.goto]
          rw [submission_same (by rw [at_pc]; rfl), ← line]
          simp [behind]
        resting := fun stands => absurd (runs.symm.trans stands) Bool.true_eq_false.mp }
    cancels := by
      simp only [State.goto]
      rw [submission_same (by rw [at_pc]; rfl)]
      exact { ordered.cancels with
        wrapped := fun other member => by
          rcases List.mem_append.mp member with member | last
          · exact ordered.cancels.wrapped other member
          · rw [List.mem_singleton.mp last]
            exact below }
    asserts := asserts_alone ordered.asserts ordered.monitored (Or.inr monitor)
      (grows_only (Nat.le_refl _) rfl rfl rfl) trivial }

theorem start_ordered (ordered : Ordered state phase) {id : Nat}
    (at_pc : state.pc thread = .idle) (queued : id ∈ state.shared.queue) :
    Ordered (state.goto thread
      ({ state.shared with
          queue := state.shared.queue.erase id, started := state.shared.started ++ [id] },
        .call id)) (.held thread) := by
  have pending : phase = .pending id := by
    rw [ordered.baton.queue] at queued
    cases phase with
    | pending other => rw [List.mem_singleton.mp queued]
    | _ => cases queued
  subst pending
  have queue : state.shared.queue = [id] := ordered.baton.queue
  have line := ordered.line.line
  simp only [Phase.submission] at line
  have uncancelled {other : Nat} (noted : state.shared.cancelled other = true) : other ≠ id := by
    have unchecked := (ordered.cancels.noted other noted).2
    simpa [Phase.submission] using unchecked
  have begun (other : Nat) (before : other ∈ state.shared.queue ∨ other ∈ state.shared.started) :
      other ∈ state.shared.queue.erase id ∨ other ∈ state.shared.started ++ [id] := by
    rcases before with member | member
    · rw [queue] at member
      exact Or.inr (List.mem_append_right _ member)
    · exact Or.inr (List.mem_append_left _ member)
  exact {
    baton :=
      { running := ordered.baton.running
        queue := by simp [State.goto, queue, Phase.queue]
        carries := marks_after_step _ _ _ _ ordered.baton.carries (by simp [Pc.carries])
          fun other different => by simp [Ne.symm different] }
    monitored := monitored_same ordered.monitored (by rw [at_pc]; rfl)
    line :=
      { line := by
          simp only [State.goto, submission_held]
          rw [behind_same (by rw [at_pc]; rfl)]
          simpa [Pc.ahead] using line
        resting := ordered.line.resting }
    cancels :=
      { ordered.cancels with
        pending := fun other member => ordered.cancels.pending other (List.mem_of_mem_erase member)
        handed := fun other before => begun other (ordered.cancels.handed other before)
        noted := fun other noted => by
          refine ⟨(ordered.cancels.noted other noted).1, ?_⟩
          simp [State.goto, Pc.checked]
        recorded := fun other member => by
          obtain ⟨noted, unstarted⟩ := ordered.cancels.recorded other member
          refine ⟨noted, fun after => ?_⟩
          rcases List.mem_append.mp after with member | last
          · exact unstarted member
          · exact uncancelled noted (List.mem_singleton.mp last) }
    asserts := asserts_untouched ordered.asserts rfl rfl
      ⟨Nat.le_refl _, begun, fun _ => List.mem_append_left _, fun _ noted => noted⟩ trivial }

/-- The condition of the loop, asked when the monitor is taken and again later. -/
theorem onEndIsEmpty_ordered (ordered : Ordered state phase) {id : Nat}
    (carries : (state.pc thread).carries = true) (ahead : (state.pc thread).ahead = [])
    (checked : (state.pc thread).checked = [])
    (alone : state.shared.monitor = none ∨ state.shared.monitor = some thread)
    (behindBefore : behind state.shared.monitor state.pc = []) :
    Ordered (state.goto thread
      ({ state.shared with monitor := some thread }, onEndIsEmpty state.shared id)) phase := by
  have held := phase_held ordered rfl carries
  subst held
  have next (has : Pc → List Nat) (clear : ∀ id, has (.onEndClear id) = [])
      (remove : ∀ id, has (.onEndRemove id) = []) : has (onEndIsEmpty state.shared id) = [] := by
    unfold onEndIsEmpty
    split
    · exact clear id
    · exact remove id
  have nextFlag (has : Pc → Bool) (clear : ∀ id, has (.onEndClear id) = true)
      (remove : ∀ id, has (.onEndRemove id) = true) :
      has (onEndIsEmpty state.shared id) = true := by
    unfold onEndIsEmpty
    split
    · exact clear id
    · exact remove id
  have line := ordered.line.line
  rw [behindBefore] at line
  simp only [Phase.submission, ahead] at line
  have cancels := ordered.cancels
  simp only [Phase.submission, checked] at cancels
  have inside := nextFlag Pc.inMonitor (fun _ => rfl) fun _ => rfl
  exact {
    baton :=
      { ordered.baton with
        carries := marks_after_step _ _ _ _ ordered.baton.carries
          (by simp [nextFlag Pc.carries (fun _ => rfl) fun _ => rfl]) fun _ _ => Iff.rfl }
    monitored := by
      have monitored := ordered.monitored
      rcases alone with free | held
      · rw [free] at monitored
        exact monitored_enter monitored inside
      · have holds := (monitored thread).mpr held
        rw [held] at monitored
        exact monitored_same monitored (inside.trans holds.symm)
    line :=
      { line := by
          simp only [State.goto, submission_held, behind_holder]
          rw [next Pc.ahead (fun _ => rfl) fun _ => rfl, next Pc.behind (fun _ => rfl) fun _ => rfl]
          exact line
        resting := ordered.line.resting }
    cancels := by
      simp only [State.goto, submission_held]
      rw [next Pc.checked (fun _ => rfl) fun _ => rfl]
      exact { cancels with }
    asserts := by
      refine asserts_alone ordered.asserts ordered.monitored alone
        (grows_only (Nat.le_refl _) rfl rfl rfl) ?_
      unfold onEndIsEmpty
      split
      · next empty => exact empty
      · next nonempty => exact nonempty }

theorem onEndClear_ordered (ordered : Ordered state phase) {id : Nat}
    (at_pc : state.pc thread = .onEndClear id) :
    Ordered (state.goto thread
      ({ state.shared with running := false, monitor := none }, .set id)) .free := by
  have held := phase_held ordered at_pc rfl
  subst held
  have monitor := monitor_held ordered at_pc rfl
  have empty : state.shared.order = [] := asserted_at ordered at_pc
  have line := ordered.line.line
  rw [monitor] at line
  simp only [Phase.submission, at_pc, Pc.ahead, behind, Pc.behind] at line
  have cancels := ordered.cancels
  simp only [Phase.submission, at_pc, Pc.checked] at cancels
  exact {
    baton :=
      { running := rfl
        queue := ordered.baton.queue
        carries := marks_after_step _ _ _ _ ordered.baton.carries (by simp [Pc.carries])
          fun other different => by simp [Ne.symm different] }
    monitored := by
      have monitored := ordered.monitored
      rw [monitor] at monitored
      exact monitored_leave monitored rfl
    line :=
      { line := line
        resting := fun _ => empty }
    cancels := { cancels with }
    asserts := asserts_alone ordered.asserts ordered.monitored (Or.inr monitor)
      (grows_only (Nat.le_refl _) rfl rfl rfl) trivial }

theorem onEndRemove_ordered (ordered : Ordered state phase) {id head : Nat} {rest : List Nat}
    (at_pc : state.pc thread = .onEndRemove id) (order : state.shared.order = head :: rest) :
    Ordered (state.goto thread
      ({ state.shared with order := rest }, .onEndIsCancelled id head)) phase := by
  have held := phase_held ordered at_pc rfl
  subst held
  have monitor := monitor_held ordered at_pc rfl
  have runs : state.shared.running = true := ordered.baton.running
  have line := ordered.line.line
  rw [monitor] at line
  simp only [Phase.submission, at_pc, Pc.ahead, behind, Pc.behind, order] at line
  have cancels := ordered.cancels
  simp only [Phase.submission, at_pc, Pc.checked] at cancels
  exact {
    baton :=
      { ordered.baton with
        carries := marks_after_step _ _ _ _ ordered.baton.carries (by simp [Pc.carries])
          fun _ _ => Iff.rfl }
    monitored := monitored_same ordered.monitored (by rw [at_pc]; rfl)
    line :=
      { line := by
          simp only [State.goto, submission_held, monitor, behind_holder]
          simpa [Pc.ahead, Pc.behind] using line
        resting := fun stands => absurd (runs.symm.trans stands) Bool.true_eq_false.mp }
    cancels := by
      simp only [State.goto, submission_held]
      exact { cancels with }
    asserts := asserts_alone ordered.asserts ordered.monitored (Or.inr monitor)
      (grows_only (Nat.le_refl _) rfl rfl rfl) trivial }

omit [DecidableEq Thread] in
/-- A submission just taken from the queue has no delegate yet. -/
theorem isCancelled_head (ordered : Ordered state phase) {id head : Nat}
    (at_pc : state.pc thread = .onEndIsCancelled id head) :
    state.shared.isCancelled head = state.shared.cancelled head := by
  have held := phase_held ordered at_pc rfl
  subst held
  have queue : state.shared.queue = [] := ordered.baton.queue
  have line := ordered.line.line
  simp only [Phase.submission, at_pc, Pc.ahead] at line
  have distinct := unskipped_nodup state.shared.skipped state.shared.submitted
  rw [← line, List.append_assoc, List.append_assoc] at distinct
  have undelegated : state.shared.delegate head ≠ true := fun delegate => by
    rcases ordered.cancels.handed head (Or.inr delegate) with pending | started
    · rw [queue] at pending
      cases pending
    · exact (List.nodup_append.mp distinct).2.2 head started head (by simp) rfl
  simp [Shared.isCancelled, undelegated]

theorem skip_ordered (ordered : Ordered state phase) {id head : Nat}
    (at_pc : state.pc thread = .onEndIsCancelled id head)
    (cancelled : state.shared.cancelled head = true) :
    Ordered (state.goto thread
      ({ state.shared with skipped := state.shared.skipped ++ [head] }, .onEndIsEmpty id))
      phase := by
  have held := phase_held ordered at_pc rfl
  subst held
  have monitor := monitor_held ordered at_pc rfl
  have line := ordered.line.line
  rw [monitor] at line
  simp only [Phase.submission, at_pc, Pc.ahead, behind, Pc.behind, List.append_nil] at line
  have cancels := ordered.cancels
  simp only [Phase.submission, at_pc, Pc.checked] at cancels
  exact {
    baton :=
      { ordered.baton with
        carries := marks_after_step _ _ _ _ ordered.baton.carries (by simp [Pc.carries])
          fun _ _ => Iff.rfl }
    monitored := monitored_same ordered.monitored (by rw [at_pc]; rfl)
    line :=
      { line := by
          simp only [State.goto, submission_held, monitor, behind_holder]
          simpa [Pc.ahead, Pc.behind] using unskipped_skip line
        resting := ordered.line.resting }
    cancels := by
      simp only [State.goto, submission_held]
      exact { cancels with
        skipped := fun other member => by
          rcases List.mem_append.mp member with member | last
          · exact cancels.skipped other member
          · rw [List.mem_singleton.mp last]
            exact cancelled }
    asserts := asserts_alone ordered.asserts ordered.monitored (Or.inr monitor)
      (grows_only (Nat.le_refl _) rfl rfl rfl) trivial }

theorem uncancelled_ordered (ordered : Ordered state phase) {id head : Nat}
    (at_pc : state.pc thread = .onEndIsCancelled id head)
    (uncancelled : state.shared.cancelled head = false) :
    Ordered (state.goto thread (state.shared, .onEndExecuteNow id head)) phase := by
  have held := phase_held ordered at_pc rfl
  subst held
  have monitor := monitor_held ordered at_pc rfl
  exact {
    baton :=
      { ordered.baton with
        carries := marks_after_step _ _ _ _ ordered.baton.carries (by simp [Pc.carries])
          fun _ _ => Iff.rfl }
    monitored := monitored_same ordered.monitored (by rw [at_pc]; rfl)
    line :=
      { line := by
          simp only [State.goto]
          rw [submission_same (by rw [at_pc]; rfl), behind_same (by rw [at_pc]; rfl)]
          exact ordered.line.line
        resting := ordered.line.resting }
    cancels :=
      { ordered.cancels with
        noted := fun other noted => by
          refine ⟨(ordered.cancels.noted other noted).1, ?_⟩
          simp only [State.goto, submission_held, Pc.checked, List.mem_singleton]
          rintro rfl
          exact Bool.false_ne_true (uncancelled.symm.trans noted) }
    asserts := asserts_alone ordered.asserts ordered.monitored (Or.inr monitor)
      (grows_only (Nat.le_refl _) rfl rfl rfl) trivial }

theorem setDelegate_ordered (ordered : Ordered state phase) {id head : Nat}
    (at_pc : state.pc thread = .onEndSetDelegate id head) :
    Ordered (state.goto thread
      ({ state.shared with
          delegate := Function.update state.shared.delegate head true, monitor := none },
        .set id)) phase := by
  have monitor := monitor_held ordered at_pc rfl
  have accepted : head ∈ state.shared.queue ∨ head ∈ state.shared.started :=
    asserted_at ordered at_pc
  have line := ordered.line.line
  rw [monitor] at line
  simp only [behind, at_pc, Pc.behind] at line
  exact {
    baton :=
      { ordered.baton with
        carries := marks_after_step _ _ _ _ ordered.baton.carries
          (by rw [← ordered.baton.carries, at_pc]; simp [Pc.carries]) fun _ _ => Iff.rfl }
    monitored := by
      have monitored := ordered.monitored
      rw [monitor] at monitored
      exact monitored_leave monitored rfl
    line :=
      { line := by
          simp only [State.goto]
          rw [submission_same (by rw [at_pc]; rfl)]
          exact line
        resting := ordered.line.resting }
    cancels := by
      simp only [State.goto]
      rw [submission_same (by rw [at_pc]; rfl)]
      exact { ordered.cancels with
        handed := fun other before => by
          rcases before with member | delegate
          · exact ordered.cancels.handed other (Or.inl member)
          · by_cases same : other = head
            · rw [same]
              exact accepted
            · have before := (Function.update_of_ne same ..).symm.trans delegate
              exact ordered.cancels.handed other (Or.inr before) }
    asserts := asserts_alone ordered.asserts ordered.monitored (Or.inr monitor)
      (grows_only (Nat.le_refl _) rfl rfl rfl) trivial }

theorem setCancelled_ordered (ordered : Ordered state phase) {id : Nat}
    (at_pc : state.pc thread = .cancelSetCancelled id)
    (unchecked : id ∉ phase.submission Pc.checked state.pc) :
    Ordered (state.goto thread
      ({ state.shared with cancelled := Function.update state.shared.cancelled id true },
        .cancelReturn id)) phase := by
  have below : id < state.shared.submitted := asserted_at ordered at_pc
  have noted (other : Nat) (before : state.shared.cancelled other = true) :
      Function.update state.shared.cancelled id true other = true := by
    by_cases same : other = id
    · rw [same, Function.update_self]
    · rw [Function.update_of_ne same, before]
  exact {
    baton :=
      { ordered.baton with
        carries := marks_after_step _ _ _ _ ordered.baton.carries
          (by rw [← ordered.baton.carries, at_pc]; simp [Pc.carries]) fun _ _ => Iff.rfl }
    monitored := monitored_same ordered.monitored (by rw [at_pc]; rfl)
    line :=
      { line := by
          simp only [State.goto]
          rw [submission_same (by rw [at_pc]; rfl), behind_same (by rw [at_pc]; rfl)]
          exact ordered.line.line
        resting := ordered.line.resting }
    cancels := by
      simp only [State.goto]
      rw [submission_same (by rw [at_pc]; rfl)]
      exact { ordered.cancels with
        noted := fun other after => by
          by_cases same : other = id
          · rw [same]
            exact ⟨below, unchecked⟩
          · have before := (Function.update_of_ne same ..).symm.trans after
            exact ordered.cancels.noted other before
        skipped := fun other member => noted other (ordered.cancels.skipped other member)
        recorded := fun other member =>
          ⟨noted other (ordered.cancels.recorded other member).1,
            (ordered.cancels.recorded other member).2⟩ }
    asserts := asserts_untouched ordered.asserts rfl rfl
      ⟨Nat.le_refl _, fun _ accepted => accepted, fun _ begun => begun, noted⟩
      (Or.inr (Function.update_self ..)) }

end Steps
end Brooklyn.SingleThreadedScheduler
