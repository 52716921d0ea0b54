import Mathlib.Logic.Function.Basic
import Mathlib.Tactic.SplitIfs

/-!
An asynchronous slot guarded by one busy flag. A thread that takes the flag
submits a job, adds a completion listener to its future and returns; a worker
runs the job; the listener, run by the worker or by the submitter that came too
late, gives the flag back. `Slot` and `Move` are the slot as a program keeps it:
a flag, a queue, the futures. A `Phase` says where the one token of the slot is,
and `Phase.role` what that makes each thread. `move_tracked` is the refinement:
every move of a tracked slot is again tracked by a phase.
-/

namespace Brooklyn.ExclusiveSlot

variable {Thread Job : Type}

inductive FutureState where
  | pending
  | listening
  | done
deriving DecidableEq

structure Task (Job : Type) where
  id : Nat
  job : Job
deriving DecidableEq

inductive Role (Job : Type) where
  | bystander
  | submitter (job : Job)
  | listener (id : Nat)
  | worker (id : Nat) (job : Job)
  | releaser (id : Nat)

/-- `outstanding` records the tasks submitted and not released yet. -/
structure Slot (Job : Type) where
  busy : Bool
  queue : List (Task Job)
  submitted : Nat
  future : Nat → FutureState
  outstanding : List Nat

inductive Move [DecidableEq Job] : Slot Job → Role Job → Slot Job → Role Job → Prop where
  | stay (slot : Slot Job) (role : Role Job) : Move slot role slot role
  | acquire (slot : Slot Job) (job : Job) (available : slot.busy = false) :
      Move slot .bystander { slot with busy := true } (.submitter job)
  | submit (slot : Slot Job) (job : Job) :
      Move slot (.submitter job)
        { slot with
          queue := slot.queue ++ [⟨slot.submitted, job⟩]
          submitted := slot.submitted + 1
          outstanding := slot.submitted :: slot.outstanding }
        (.listener slot.submitted)
  | attach (slot : Slot Job) (id : Nat) (early : slot.future id ≠ .done) :
      Move slot (.listener id)
        { slot with future := Function.update slot.future id .listening } .bystander
  | adopt (slot : Slot Job) (id : Nat) (late : slot.future id = .done) :
      Move slot (.listener id) slot (.releaser id)
  | start (slot : Slot Job) (task : Task Job) (waiting : task ∈ slot.queue) :
      Move slot .bystander { slot with queue := slot.queue.erase task }
        (.worker task.id task.job)
  | finish (slot : Slot Job) (id : Nat) (job : Job) (listened : slot.future id = .listening) :
      Move slot (.worker id job)
        { slot with future := Function.update slot.future id .done } (.releaser id)
  | finishEarly (slot : Slot Job) (id : Nat) (job : Job)
      (unheard : slot.future id ≠ .listening) :
      Move slot (.worker id job)
        { slot with future := Function.update slot.future id .done } .bystander
  | release (slot : Slot Job) (id : Nat) :
      Move slot (.releaser id)
        { slot with busy := false, outstanding := slot.outstanding.erase id } .bystander

inductive Phase (Thread Job : Type) where
  | free
  | submitting (thread : Thread) (job : Job)
  | queued (id : Nat) (job : Job) (awaited : Option Thread)
  | running (thread : Thread) (id : Nat) (job : Job) (awaited : Option Thread)
  | done (id : Nat) (awaited : Thread)
  | releasing (thread : Thread) (id : Nat)

def Phase.busy : Phase Thread Job → Bool
  | .free => false
  | _ => true

def Phase.outstanding : Phase Thread Job → List Nat
  | .free => []
  | .submitting _ _ => []
  | .queued id _ _ => [id]
  | .running _ id _ _ => [id]
  | .done id _ => [id]
  | .releasing _ id => [id]

def Phase.queue : Phase Thread Job → List (Task Job)
  | .queued id job _ => [⟨id, job⟩]
  | _ => []

def awaitedState : Option Thread → FutureState
  | none => .listening
  | some _ => .pending

def Phase.FutureIs (future : Nat → FutureState) : Phase Thread Job → Prop
  | .queued id _ awaited => future id = awaitedState awaited
  | .running _ id _ awaited => future id = awaitedState awaited
  | .done id _ => future id = .done
  | _ => True

/-- The submitter still on its way to add the listener is not the worker. -/
def Phase.Apart : Phase Thread Job → Prop
  | .running holder _ _ awaited => awaited ≠ some holder
  | _ => True

variable [DecidableEq Thread]

def Phase.role (phase : Phase Thread Job) (thread : Thread) : Role Job :=
  match phase with
  | .free => .bystander
  | .submitting holder job => if thread = holder then .submitter job else .bystander
  | .queued id _ awaited => if some thread = awaited then .listener id else .bystander
  | .running holder id job awaited =>
      if thread = holder then .worker id job
      else if some thread = awaited then .listener id else .bystander
  | .done id awaited => if thread = awaited then .listener id else .bystander
  | .releasing holder id => if thread = holder then .releaser id else .bystander

omit [DecidableEq Thread] in
theorem outstanding_at_most_one (phase : Phase Thread Job) : phase.outstanding.length ≤ 1 := by
  cases phase <;> simp [Phase.outstanding]

theorem role_submitter {phase : Phase Thread Job} {thread : Thread} {job : Job}
    (role : phase.role thread = .submitter job) : phase = .submitting thread job := by
  cases phase <;> simp only [Phase.role] at role <;> grind

theorem role_worker {phase : Phase Thread Job} {thread : Thread} {id : Nat} {job : Job}
    (role : phase.role thread = .worker id job) :
    ∃ awaited, phase = .running thread id job awaited := by
  cases phase with
  | running holder other task awaited =>
      simp only [Phase.role] at role
      split_ifs at role with held
      cases role
      exact ⟨awaited, by rw [held]⟩
  | _ =>
      simp only [Phase.role] at role
      grind

theorem role_releaser {phase : Phase Thread Job} {thread : Thread} {id : Nat}
    (role : phase.role thread = .releaser id) : phase = .releasing thread id := by
  cases phase <;> simp only [Phase.role] at role <;> grind

theorem role_listener {phase : Phase Thread Job} {thread : Thread} {id : Nat}
    (role : phase.role thread = .listener id) :
    (∃ job, phase = .queued id job (some thread)) ∨
      (∃ holder job, thread ≠ holder ∧ phase = .running holder id job (some thread)) ∨
      phase = .done id thread := by
  cases phase with
  | queued other job awaited =>
      simp only [Phase.role] at role
      split_ifs at role with awaits
      cases role
      exact Or.inl ⟨job, by rw [awaits]⟩
  | running holder other job awaited =>
      simp only [Phase.role] at role
      split_ifs at role with held awaits
      cases role
      exact Or.inr (Or.inl ⟨holder, job, held, by rw [awaits]⟩)
  | done other awaited =>
      simp only [Phase.role] at role
      split_ifs at role with awaits
      cases role
      exact Or.inr (Or.inr (by rw [awaits]))
  | _ =>
      simp only [Phase.role] at role
      grind

/-- Without a submitter, nothing outstanding means that the flag is free. -/
theorem free_of_idle {phase : Phase Thread Job}
    (idle : ∀ thread, phase.role thread = .bystander) (none_left : phase.outstanding = []) :
    phase = .free := by
  cases phase with
  | free => rfl
  | submitting thread job =>
      have held := idle thread
      simp [Phase.role] at held
  | queued => simp [Phase.outstanding] at none_left
  | running => simp [Phase.outstanding] at none_left
  | done => simp [Phase.outstanding] at none_left
  | releasing => simp [Phase.outstanding] at none_left

/-- Two threads never work on the slot at the same time. -/
theorem worker_unique {phase : Phase Thread Job} {left right : Thread} {id other : Nat}
    {job task : Job} (first : phase.role left = .worker id job)
    (second : phase.role right = .worker other task) : left = right := by
  obtain ⟨_, same⟩ := role_worker first
  obtain ⟨_, also⟩ := role_worker second
  rw [same] at also
  cases also
  rfl

section Moves

/-! Each move changes the role of the thread that makes it and of no other. -/

theorem acquire_roles (thread : Thread) (job : Job) :
    (Phase.submitting thread job : Phase Thread Job).role =
      Function.update (Phase.free : Phase Thread Job).role thread (.submitter job) := by
  funext other
  by_cases same : other = thread <;> simp [Phase.role, same]

theorem submit_roles (thread : Thread) (job : Job) (id : Nat) :
    (Phase.queued id job (some thread)).role =
      Function.update (Phase.submitting thread job : Phase Thread Job).role thread
        (.listener id) := by
  funext other
  by_cases same : other = thread <;> simp [Phase.role, same]

theorem attach_queued_roles (thread : Thread) (job : Job) (id : Nat) :
    (Phase.queued id job none).role =
      Function.update (Phase.queued id job (some thread)).role thread .bystander := by
  funext other
  by_cases same : other = thread <;> simp [Phase.role, same]

theorem attach_running_roles (thread holder : Thread) (job : Job) (id : Nat)
    (apart : thread ≠ holder) :
    (Phase.running holder id job none).role =
      Function.update (Phase.running holder id job (some thread)).role thread .bystander := by
  funext other
  by_cases same : other = thread
  · subst other
    simp [Phase.role, apart]
  · simp [Phase.role, same]

theorem start_roles (thread : Thread) (job : Job) (id : Nat) (awaited : Option Thread) :
    (Phase.running thread id job awaited).role =
      Function.update (Phase.queued id job awaited).role thread (.worker id job) := by
  funext other
  by_cases same : other = thread <;> simp [Phase.role, same]

theorem complete_roles (thread : Thread) (job : Job) (id : Nat) :
    (Phase.releasing thread id : Phase Thread Job).role =
      Function.update (Phase.running thread id job none).role thread (.releaser id) := by
  funext other
  by_cases same : other = thread <;> simp [Phase.role, same]

theorem complete_late_roles (thread awaited : Thread) (job : Job) (id : Nat)
    (apart : awaited ≠ thread) :
    (Phase.done id awaited : Phase Thread Job).role =
      Function.update (Phase.running thread id job (some awaited)).role thread .bystander := by
  funext other
  by_cases same : other = thread
  · subst other
    simp [Phase.role, apart.symm]
  · simp [Phase.role, same]

theorem adopt_roles (thread : Thread) (id : Nat) :
    (Phase.releasing thread id : Phase Thread Job).role =
      Function.update (Phase.done id thread : Phase Thread Job).role thread (.releaser id) := by
  funext other
  by_cases same : other = thread <;> simp [Phase.role, same]

theorem release_roles (thread : Thread) (id : Nat) :
    (Phase.free : Phase Thread Job).role =
      Function.update (Phase.releasing thread id : Phase Thread Job).role thread
        .bystander := by
  funext other
  by_cases same : other = thread <;> simp [Phase.role, same]

end Moves

structure Tracks (slot : Slot Job) (roles : Thread → Role Job) (phase : Phase Thread Job) :
    Prop where
  busy : slot.busy = phase.busy
  queue : slot.queue = phase.queue
  outstanding : slot.outstanding = phase.outstanding
  roles : roles = phase.role
  futures : phase.FutureIs slot.future
  apart : phase.Apart
  known : ∀ id ∈ slot.outstanding, id < slot.submitted
  fresh : ∀ id, slot.submitted ≤ id → slot.future id = .pending

theorem free_tracked (slot : Slot Job) (roles : Thread → Role Job) (idle : slot.busy = false)
    (empty : slot.queue = []) (none_left : slot.outstanding = [])
    (bystanders : ∀ thread, roles thread = .bystander)
    (fresh : ∀ id, slot.submitted ≤ id → slot.future id = .pending) :
    Tracks slot roles .free where
  busy := idle
  queue := empty
  outstanding := none_left
  roles := funext bystanders
  futures := trivial
  apart := trivial
  known := by simp [none_left]
  fresh := fresh

section Tracking
variable {slot : Slot Job} {roles : Thread → Role Job} {phase : Phase Thread Job}

/-- Settling the future of a known task leaves the futures of later ones alone. -/
theorem fresh_after_update (tracks : Tracks slot roles phase) {id : Nat}
    (member : id ∈ phase.outstanding) (state : FutureState) (later : Nat)
    (bound : slot.submitted ≤ later) : Function.update slot.future id state later = .pending := by
  have below := tracks.known id (tracks.outstanding ▸ member)
  rw [Function.update_of_ne (by omega)]
  exact tracks.fresh later bound

theorem acquire_tracked (tracks : Tracks slot roles phase) (thread : Thread) (job : Job)
    (available : slot.busy = false) :
    Tracks { slot with busy := true } (Function.update roles thread (.submitter job))
      (.submitting thread job) := by
  have free : phase = .free := by
    have idle := tracks.busy.symm.trans available
    cases phase <;> simp_all [Phase.busy]
  subst free
  refine { tracks with busy := rfl, roles := ?_, futures := trivial, apart := trivial }
  rw [tracks.roles, acquire_roles]

theorem submit_tracked (tracks : Tracks slot roles phase) (thread : Thread) (job : Job)
    (role : roles thread = .submitter job) :
    Tracks
      { slot with
        queue := slot.queue ++ [⟨slot.submitted, job⟩]
        submitted := slot.submitted + 1
        outstanding := slot.submitted :: slot.outstanding }
      (Function.update roles thread (.listener slot.submitted))
      (.queued slot.submitted job (some thread)) := by
  have held : phase = .submitting thread job := role_submitter (tracks.roles ▸ role)
  subst held
  have empty : slot.queue = [] := tracks.queue
  have none_left : slot.outstanding = [] := tracks.outstanding
  refine { busy := tracks.busy, queue := by simp [empty, Phase.queue],
           outstanding := by simp [none_left, Phase.outstanding], roles := ?_,
           futures := tracks.fresh _ (Nat.le_refl _), apart := trivial,
           known := by simp [none_left],
           fresh := fun id bound => tracks.fresh id (Nat.le_of_succ_le bound) }
  rw [tracks.roles, submit_roles]

theorem attach_tracked (tracks : Tracks slot roles phase) (thread : Thread) (id : Nat)
    (role : roles thread = .listener id) (early : slot.future id ≠ .done) :
    ∃ next, Tracks { slot with future := Function.update slot.future id .listening }
      (Function.update roles thread .bystander) next := by
  rcases role_listener (tracks.roles ▸ role) with
    ⟨job, held⟩ | ⟨holder, job, apart, held⟩ | held
  · subst held
    refine ⟨.queued id job none, { tracks with roles := ?_, futures := ?_, fresh := ?_ }⟩
    · rw [tracks.roles, attach_queued_roles]
    · simp [Phase.FutureIs, awaitedState]
    · exact fresh_after_update tracks (by simp [Phase.outstanding]) _
  · subst held
    refine ⟨.running holder id job none,
      { tracks with roles := ?_, futures := ?_, apart := nofun, fresh := ?_ }⟩
    · rw [tracks.roles, attach_running_roles thread holder job id apart]
    · simp [Phase.FutureIs, awaitedState]
    · exact fresh_after_update tracks (by simp [Phase.outstanding]) _
  · subst held
    exact absurd tracks.futures early

theorem adopt_tracked (tracks : Tracks slot roles phase) (thread : Thread) (id : Nat)
    (role : roles thread = .listener id) (late : slot.future id = .done) :
    Tracks slot (Function.update roles thread (.releaser id)) (.releasing thread id) := by
  rcases role_listener (tracks.roles ▸ role) with
    ⟨job, held⟩ | ⟨holder, job, apart, held⟩ | held
  · subst held
    have pending : slot.future id = .pending := tracks.futures
    rw [late] at pending
    cases pending
  · subst held
    have pending : slot.future id = .pending := tracks.futures
    rw [late] at pending
    cases pending
  · subst held
    refine { tracks with roles := ?_, futures := trivial, apart := trivial }
    rw [tracks.roles, adopt_roles]

theorem start_tracked [DecidableEq Job] (tracks : Tracks slot roles phase) (thread : Thread)
    (task : Task Job) (role : roles thread = .bystander) (waiting : task ∈ slot.queue) :
    ∃ awaited, Tracks { slot with queue := slot.queue.erase task }
      (Function.update roles thread (.worker task.id task.job))
      (.running thread task.id task.job awaited) := by
  rw [tracks.queue] at waiting
  cases phase with
  | queued id job awaited =>
      have same : task = ⟨id, job⟩ := by simpa [Phase.queue] using waiting
      subst same
      have apart : awaited ≠ some thread := by
        intro listening
        rw [tracks.roles] at role
        simp [Phase.role, listening] at role
      refine ⟨awaited, { tracks with queue := ?_, roles := ?_, apart := apart }⟩
      · simp [tracks.queue, Phase.queue]
      · rw [tracks.roles, start_roles]
  | _ => simp [Phase.queue] at waiting

theorem finish_tracked (tracks : Tracks slot roles phase) (thread : Thread) (id : Nat)
    (job : Job) (role : roles thread = .worker id job) (listened : slot.future id = .listening) :
    Tracks { slot with future := Function.update slot.future id .done }
      (Function.update roles thread (.releaser id)) (.releasing thread id) := by
  obtain ⟨awaited, held⟩ := role_worker (tracks.roles ▸ role)
  subst held
  have expected : slot.future id = awaitedState awaited := tracks.futures
  cases awaited with
  | some other =>
      rw [listened] at expected
      cases expected
  | none =>
      refine { tracks with roles := ?_, futures := trivial, apart := trivial, fresh := ?_ }
      · rw [tracks.roles, complete_roles thread job id]
      · exact fresh_after_update tracks (by simp [Phase.outstanding]) _

theorem finish_early_tracked (tracks : Tracks slot roles phase) (thread : Thread) (id : Nat)
    (job : Job) (role : roles thread = .worker id job) (unheard : slot.future id ≠ .listening) :
    ∃ next, Tracks { slot with future := Function.update slot.future id .done }
      (Function.update roles thread .bystander) next := by
  obtain ⟨awaited, held⟩ := role_worker (tracks.roles ▸ role)
  subst held
  cases awaited with
  | none => exact absurd tracks.futures unheard
  | some awaited =>
      have apart : awaited ≠ thread := fun same => tracks.apart (congrArg some same)
      refine ⟨.done id awaited,
        { tracks with roles := ?_, futures := ?_, apart := trivial, fresh := ?_ }⟩
      · rw [tracks.roles, complete_late_roles thread awaited job id apart]
      · simp [Phase.FutureIs]
      · exact fresh_after_update tracks (by simp [Phase.outstanding]) _

theorem release_tracked (tracks : Tracks slot roles phase) (thread : Thread) (id : Nat)
    (role : roles thread = .releaser id) :
    Tracks { slot with busy := false, outstanding := slot.outstanding.erase id }
      (Function.update roles thread .bystander) .free := by
  have held : phase = .releasing thread id := role_releaser (tracks.roles ▸ role)
  subst held
  have one : slot.outstanding = [id] := tracks.outstanding
  refine { tracks with busy := rfl, outstanding := by simp [one, Phase.outstanding],
                       roles := ?_, futures := trivial, apart := trivial,
                       known := by simp [one] }
  rw [tracks.roles, ← release_roles]

/-- The refinement step: a move of one thread of a tracked slot is tracked. -/
theorem move_tracked [DecidableEq Job] (tracks : Tracks slot roles phase) (thread : Thread)
    {after : Slot Job} {role : Role Job} (move : Move slot (roles thread) after role) :
    ∃ next, Tracks after (Function.update roles thread role) next := by
  generalize current : roles thread = now at move
  cases move with
  | stay =>
      refine ⟨phase, ?_⟩
      rw [← current, Function.update_eq_self]
      exact tracks
  | acquire job available => exact ⟨_, acquire_tracked tracks thread job available⟩
  | submit job => exact ⟨_, submit_tracked tracks thread job current⟩
  | attach id early => exact attach_tracked tracks thread id current early
  | adopt id late => exact ⟨_, adopt_tracked tracks thread id current late⟩
  | start task waiting =>
      obtain ⟨awaited, tracked⟩ := start_tracked tracks thread task current waiting
      exact ⟨_, tracked⟩
  | finish id job listened => exact ⟨_, finish_tracked tracks thread id job current listened⟩
  | finishEarly id job unheard => exact finish_early_tracked tracks thread id job current unheard
  | release id => exact ⟨_, release_tracked tracks thread id current⟩

end Tracking
end Brooklyn.ExclusiveSlot
