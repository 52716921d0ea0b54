import Brooklyn.MementoFileContent

/-!
The deletion. `delete` records a requirement, the delete task sets `deleted`
before it clears the requirement and deletes the file, and `write` looks at both
flags only after it has set `requireWrite`. The listener looks at `requireWrite`
without looking at `deleted`. In the runs in which no write takes `executing`
once `deleted` is set, a deleted file stays deleted.
-/

namespace Brooklyn.MementoFileWriter
open Transition
open ExclusiveSlot (Phase)

variable {Value Thread : Type}

def FileDeleted (state : State Value Thread) : Prop :=
  Quiescent state → state.shared.deleteCalled = true → state.shared.file = none

/-- `executing` is not taken for a write once the deletion has set `deleted`. -/
def writesBeforeDeleted (shared : Shared Value) : Pc Value → Bool
  | .writeCompareAndSet => shared.executing || !shared.deleted
  | .listenerWriteCompareAndSet => shared.executing || !shared.deleted
  | _ => true

def deletesFile : Pc Value → Bool
  | .deleteNowFile _ => true
  | _ => false

/-- `File.delete` succeeds: a refused deletion is ignored by the code. -/
def fileDeletable (state : State Value Thread) : Action Value Thread → Bool
  | .fail thread _ => !deletesFile (state.pc thread)
  | _ => true

def noLateWrite (state : State Value Thread) (action : Action Value Thread) : Bool :=
  fileDeletable state action &&
    match action with
    | .next thread => writesBeforeDeleted state.shared (state.pc thread)
    | _ => true

/-- The task is between setting `deleted` and deleting the file. -/
def Pc.removing : Pc Value → Bool
  | .deleteNowClearRequireDelete _ => true
  | .deleteNowFile _ => true
  | _ => false

def Pc.requesting : Pc Value → Bool
  | .deleteGetDeleted => true
  | .deleteGetRequireDelete => true
  | .deleteSetRequireDelete => true
  | _ => false

def Pc.writing : Pc Value → Bool
  | .submit .write => true
  | .writeNowGetAndSet _ => true
  | .writeNowTmpFile _ _ => true
  | .writeNowMove _ => true
  | .writeNowModCount _ => true
  | _ => false

theorem removing_not_writing (pc : Pc Value) (removing : pc.removing = true) :
    pc.writing = false := by
  cases pc <;> trivial

structure Removed (state : State Value Thread) : Prop where
  requested : state.shared.deleteCalled = true →
    (state.shared.deleted = true ∨ state.shared.requireDelete = true) ∨
      ∃ thread, (state.pc thread).requesting = true
  absent : state.shared.deleted = true →
    state.shared.file = none ∨ ∃ thread, (state.pc thread).removing = true
  removing : ∀ thread, (state.pc thread).removing = true → state.shared.deleted = true
  unqueued : state.shared.deleted = true → ∀ task ∈ state.shared.queue, task.job ≠ .write
  unwritten : state.shared.deleted = true → ∀ thread, (state.pc thread).writing = false

/-- What one access means for the deletion. Only the worker of a delete task sets
`deleted`. -/
structure Removes (shared : Shared Value) (pc : Pc Value) (after : Shared Value)
    (next : Pc Value) : Prop where
  called : after.deleteCalled = true →
    shared.deleteCalled = true ∨ next.requesting = true
  marked : shared.deleted = true ∨ shared.requireDelete = true →
    after.deleted = true ∨ after.requireDelete = true ∨ pc.removing = true
  requested : pc.requesting = true →
    (after.deleted = true ∨ after.requireDelete = true) ∨ next.requesting = true
  kept : shared.deleted = true → after.deleted = true
  deleted : after.deleted = true → shared.deleted = true ∨
    (next.removing = true ∧ ∃ id, pc.role = .worker id .delete)
  file : after.file = none ∨ after.file = shared.file ∨ pc.writing = true
  removing : pc.removing = true → after.file = none ∨ next.removing = true
  entered : next.removing = true → after.deleted = true ∨ pc.removing = true
  queued : ∀ task ∈ after.queue, task ∈ shared.queue ∨ pc.writing = true ∨ task.job ≠ .write
  writing : next.writing = true → pc.writing = true ∨ shared.deleted = false ∨
    ∃ task ∈ shared.queue, task.job = .write

section Accesses

attribute [local simp] Pc.removing Pc.requesting Pc.writing

theorem exec_removes (serialize : Option Value → String) (shared : Shared Value) (pc : Pc Value)
    (moved : Shared Value × Pc Value) (ran : exec serialize shared pc = some moved)
    (early : writesBeforeDeleted shared pc = true) : Removes shared pc moved.1 moved.2 := by
  cases pc with
  | idle => cases ran
  | submit kind =>
      cases ran
      cases kind <;> constructor <;> simp_all [Pc.role, or_imp]
  | writeGetRequireDelete | writeGetDeleted | writeCompareAndSet | deleteGetDeleted
  | deleteGetRequireDelete | deleteCompareAndSet | listenerGetRequireDelete
  | listenerDeleteCompareAndSet | listenerGetRequireWrite | listenerWriteCompareAndSet =>
      simp only [exec] at ran
      split_ifs at ran with found <;> cases ran <;> constructor <;>
        simp_all [writesBeforeDeleted, Pc.role]
  | addListener id | writeNowMove id | complete id =>
      simp only [exec] at ran
      split at ran <;> cases ran <;> constructor <;> simp_all [Pc.role]
  | _ =>
      cases ran
      constructor <;> simp_all [Pc.role]

theorem io_failure_removes (shared : Shared Value) (left : Option String) (pc : Pc Value)
    (moved : Shared Value × Pc Value) (failed : ioFailure shared left pc = some moved)
    (deletable : deletesFile pc = false) : Removes shared pc moved.1 moved.2 := by
  cases pc <;> cases failed <;> constructor <;> simp_all [deletesFile, Pc.role]

theorem write_call_removes (shared : Shared Value) (val : Value) :
    Removes shared .idle shared (.writeSetRequireWrite val) := by
  constructor <;> simp_all

theorem delete_call_removes (shared : Shared Value) :
    Removes shared .idle { shared with deleteCalled := true } .deleteGetDeleted := by
  constructor <;> simp_all

theorem start_removes (shared : Shared Value) (task : Task) (waiting : task ∈ shared.queue) :
    Removes shared .idle { shared with queue := shared.queue.erase task } (startOf task) := by
  have kept : ∀ other ∈ shared.queue.erase task, other ∈ shared.queue :=
    fun _ member => List.mem_of_mem_erase member
  rcases task with ⟨id, job⟩
  cases job with
  | write =>
      constructor <;> simp_all [startOf]
      exact Or.inr ⟨_, waiting, rfl⟩
  | delete => constructor <;> simp_all [startOf]

end Accesses

variable [DecidableEq Thread]

section Goto
variable {state : State Value Thread} {moved : Shared Value × Pc Value}

theorem goto_requested (removed : Removed state) (thread : Thread)
    (removes : Removes state.shared (state.pc thread) moved.1 moved.2)
    (called : moved.1.deleteCalled = true) :
    (moved.1.deleted = true ∨ moved.1.requireDelete = true) ∨
      ∃ other, ((state.goto thread moved).pc other).requesting = true := by
  rcases removes.called called with before | requesting
  · rcases removed.requested before with marked | requesting
    · rcases removes.marked marked with deleted | required | removing
      · exact Or.inl (Or.inl deleted)
      · exact Or.inl (Or.inr required)
      · exact Or.inl (Or.inl (removes.kept (removed.removing thread removing)))
    · exact exists_after_update state.pc thread moved.2 (fun pc => pc.requesting = true)
        requesting removes.requested
  · exact Or.inr ⟨thread, by simpa [State.goto] using requesting⟩

theorem goto_absent (removed : Removed state) (thread : Thread)
    (removes : Removes state.shared (state.pc thread) moved.1 moved.2)
    (deleted : moved.1.deleted = true) :
    moved.1.file = none ∨ ∃ other, ((state.goto thread moved).pc other).removing = true := by
  rcases removes.deleted deleted with before | ⟨removing, _⟩
  · rcases removed.absent before with absent | removing
    · rcases removes.file with gone | same | writing
      · exact Or.inl gone
      · exact Or.inl (same.trans absent)
      · rw [removed.unwritten before thread] at writing
        cases writing
    · exact exists_after_update state.pc thread moved.2 (fun pc => pc.removing = true)
        removing removes.removing
  · exact Or.inr ⟨thread, by simpa [State.goto] using removing⟩

omit [DecidableEq Thread] in
theorem goto_unwritten {thread : Thread}
    (removes : Removes state.shared (state.pc thread) moved.1 moved.2)
    (deleted : moved.1.deleted = true) (unqueued : ∀ task ∈ state.shared.queue, task.job ≠ .write)
    (unwritten : (state.pc thread).writing = false) : moved.2.writing = false := by
  cases writing : moved.2.writing with
  | false => rfl
  | true =>
      -- What writes was writing before, began while `deleted` was clear, or is a queued task.
      rcases removes.writing writing with before | early | ⟨task, member, writes⟩
      · rw [unwritten] at before
        cases before
      · rcases removes.deleted deleted with before | ⟨removing, _⟩
        · rw [early] at before
          cases before
        · rw [removing_not_writing moved.2 removing] at writing
          cases writing
      · exact absurd writes (unqueued task member)

/-- Whoever sets `deleted` holds the slot alone, so nobody is left to write. -/
theorem goto_removed (removed : Removed state) (thread : Thread)
    (moved : Shared Value × Pc Value)
    (removes : Removes state.shared (state.pc thread) moved.1 moved.2)
    (alone : ∀ id, (state.pc thread).role = .worker id .delete → state.shared.queue = [] ∧
      ∀ other, (state.pc other).writing = false) :
    Removed (state.goto thread moved) := by
  -- `deleted` was set before, or its only setter holds the slot: either way nobody writes.
  have clear : moved.1.deleted = true →
      (∀ task ∈ state.shared.queue, task.job ≠ .write) ∧
        ∀ other, (state.pc other).writing = false := by
    intro deleted
    rcases removes.deleted deleted with before | ⟨_, id, role⟩
    · exact ⟨removed.unqueued before, removed.unwritten before⟩
    · exact ⟨by simp [(alone id role).1], (alone id role).2⟩
  constructor
  · exact goto_requested removed thread removes
  · exact goto_absent removed thread removes
  · refine forall_after_update state.pc thread moved.2
      (fun pc => pc.removing = true → moved.1.deleted = true) ?_ ?_
    · exact fun other removing => removes.kept (removed.removing other removing)
    · intro removing
      rcases removes.entered removing with deleted | before
      · exact deleted
      · exact removes.kept (removed.removing thread before)
  · intro deleted task member
    rcases removes.queued task member with before | writing | other
    · exact (clear deleted).1 task before
    · rw [(clear deleted).2 thread] at writing
      cases writing
    · exact other
  · intro deleted
    exact forall_after_update state.pc thread moved.2 (fun pc => pc.writing = false)
      (clear deleted).2
      (goto_unwritten removes deleted (clear deleted).1 ((clear deleted).2 thread))

end Goto

theorem deleter_alone {state : State Value Thread} {phase : Phase Thread Kind}
    (tracks : state.Tracked phase) (thread : Thread) (id : Nat)
    (role : (state.pc thread).role = .worker id .delete) :
    state.shared.queue = [] ∧ ∀ other, (state.pc other).writing = false := by
  obtain ⟨awaited, same⟩ :=
    ExclusiveSlot.role_worker ((congrFun tracks.roles thread).symm.trans role)
  subst same
  refine ⟨tracks.queue, fun other => ?_⟩
  have placed : (state.pc other).role =
      (Phase.running thread id Kind.delete awaited).role other := congrFun tracks.roles other
  simp only [Phase.role] at placed
  cases at_pc : state.pc other with
  | submit kind =>
      rw [at_pc] at placed
      simp only [Pc.role] at placed
      split_ifs at placed
  | _ =>
      rw [at_pc] at placed
      first
        | rfl
        | (simp only [Pc.role] at placed
           split_ifs at placed
           simp at placed)

theorem step_removed {serialize : Option Value → String} {existing : Option String}
    {before after : State Value Thread} {action : Action Value Thread}
    (run : Reached (system serialize existing) noLateWrite before) (removed : Removed before)
    (allowed : noLateWrite before action = true)
    (moved : step serialize before action = some after) : Removed after := by
  obtain ⟨phase, tracks⟩ := reached_tracked run
  obtain ⟨deletable, early⟩ := (Bool.and_eq_true _ _).mp allowed
  cases action with
  | write thread val =>
      obtain ⟨idle, rfl⟩ := step_write moved
      exact goto_removed removed thread _ (idle ▸ write_call_removes _ val)
        (deleter_alone tracks thread)
  | delete thread =>
      obtain ⟨idle, rfl⟩ := step_delete moved
      exact goto_removed removed thread _ (idle ▸ delete_call_removes _)
        (deleter_alone tracks thread)
  | start thread task =>
      obtain ⟨idle, waiting, rfl⟩ := step_start moved
      exact goto_removed removed thread _ (idle ▸ start_removes _ task waiting)
        (deleter_alone tracks thread)
  | next thread =>
      obtain ⟨result, ran, rfl⟩ := step_next moved
      exact goto_removed removed thread _ (exec_removes serialize _ _ _ ran early)
        (deleter_alone tracks thread)
  | fail thread left =>
      obtain ⟨result, failed, rfl⟩ := step_fail moved
      exact goto_removed removed thread _
        (io_failure_removes _ left _ _ failed (by simpa [fileDeletable] using deletable))
        (deleter_alone tracks thread)

theorem reached_removed {serialize : Option Value → String} {existing : Option String}
    {state : State Value Thread} (run : Reached (system serialize existing) noLateWrite state) :
    Removed state := by
  refine reached_invariant Removed ?_ ?_ run
  · constructor <;> simp [system, initialShared, Pc.removing]
  · exact fun before action after prior removed allowed moved =>
      step_removed prior removed allowed moved

/-- In every run in which no write takes `executing` after `deleted` is set, the
file is absent in every quiescent state that follows a delete call. -/
theorem file_absent_after_delete (serialize : Option Value → String) (existing : Option String)
    (state : State Value Thread)
    (run : Reached (system serialize existing) noLateWrite state) : FileDeleted state := by
  intro quiet called
  have removed := reached_removed run
  have settled := (quiescent_requirements run quiet).1
  have deleted : state.shared.deleted = true := by
    rcases removed.requested called with (deleted | required) | ⟨thread, requesting⟩
    · exact deleted
    · rw [settled] at required
      cases required
    · rw [quiet.2 thread] at requesting
      cases requesting
  rcases removed.absent deleted with absent | ⟨thread, removing⟩
  · exact absent
  · rw [quiet.2 thread] at removing
    cases removing

/-- A write call while the delete task is on its way is refused, but leaves
`requireWrite` set for the listener of that task. -/
def writeDuringDelete : List (Action Bool Participant) :=
  [.delete .first] ++ turns .first 6 ++ [.write .second false] ++ turns .second 2 ++
    [.start .worker ⟨0, .delete⟩] ++ turns .worker 12 ++ [.start .second ⟨1, .write⟩] ++
    turns .second 8

theorem write_during_delete_restores_file :
    ¬ ∀ (state : State Bool Participant), Reached (system plainText none) fileDeletable state →
      FileDeleted state := by
  intro absent
  obtain ⟨state, run, shown⟩ := replay_shows (system plainText none) fileDeletable writeDuringDelete
    (fun state => state.shared.outstanding == [] && decide (∀ thread, state.pc thread = .idle) &&
      state.shared.deleteCalled && state.shared.file == some (content plainText (some false)))
    (by decide)
  simp only [Bool.and_eq_true, beq_iff_eq, decide_eq_true_eq] at shown
  obtain ⟨⟨quiet, called⟩, restored⟩ := shown
  rw [absent state run quiet called] at restored
  cases restored

theorem delete_after_write_kept : ∃ state : State Bool Participant,
    state.shared.moved = true ∧ state.shared.deleteCalled = true ∧ FileDeleted state := by
  obtain ⟨state, run, shown⟩ := replay_shows (system plainText none) noLateWrite
    ([.write .first false] ++ turns .first 6 ++ [.start .worker ⟨0, .write⟩] ++ turns .worker 8 ++
      [.delete .first] ++ turns .first 6 ++ [.start .worker ⟨1, .delete⟩] ++ turns .worker 9)
    (fun state => state.shared.moved && state.shared.deleteCalled &&
      state.shared.outstanding == [] && decide (∀ thread, state.pc thread = .idle)) (by decide)
  simp only [Bool.and_eq_true] at shown
  exact ⟨state, shown.1.1.1, shown.1.1.2, file_absent_after_delete plainText none state run⟩

end Brooklyn.MementoFileWriter
