import Brooklyn.MementoFileWriter
import Mathlib.Tactic.SplitIfs

/-!
The writer is an exclusive slot: `executing` is its busy flag, and every access
of a thread is a move of the slot. Mutual exclusion of the tasks is inherited
from the slot. The second invariant says who will look at a recorded requirement
while `executing` is free, so that none is stranded.
-/

namespace Brooklyn.MementoFileWriter
open Transition
open ExclusiveSlot (Slot Role Phase Tracks)

variable {Value Thread : Type}

def Shared.slot (shared : Shared Value) : Slot Kind where
  busy := shared.executing
  queue := shared.queue
  submitted := shared.submitted
  future := shared.future
  outstanding := shared.outstanding

def Pc.role : Pc Value → Role Kind
  | .submit kind => .submitter kind
  | .addListener id => .listener id
  | .writeNowGetAndSet id => .worker id .write
  | .writeNowTmpFile id _ => .worker id .write
  | .writeNowMove id => .worker id .write
  | .writeNowModCount id => .worker id .write
  | .deleteNowSetDeleted id => .worker id .delete
  | .deleteNowClearRequireDelete id => .worker id .delete
  | .deleteNowFile id => .worker id .delete
  | .deleteNowTmpFile id => .worker id .delete
  | .deleteNowModCount id => .worker id .delete
  | .complete task => .worker task.id task.job
  | .listenerRelease id => .releaser id
  | _ => .bystander

/-- What one access does to the slot. -/
theorem exec_move (serialize : Option Value → String) (shared : Shared Value) (pc : Pc Value)
    (moved : Shared Value × Pc Value) (ran : exec serialize shared pc = some moved) :
    ExclusiveSlot.Move shared.slot pc.role moved.1.slot moved.2.role := by
  cases pc with
  | writeCompareAndSet | deleteCompareAndSet | listenerDeleteCompareAndSet
  | listenerWriteCompareAndSet =>
      simp only [exec] at ran
      split_ifs at ran with held
      · cases ran
        exact .stay _ _
      · cases ran
        exact .acquire shared.slot _ (by simpa [Shared.slot] using held)
  | submit kind =>
      cases ran
      exact .submit shared.slot kind
  | addListener id =>
      simp only [exec] at ran
      split at ran
      · next late =>
        cases ran
        exact .adopt shared.slot id late
      · next early =>
        cases ran
        exact .attach shared.slot id early
  | complete task =>
      simp only [exec] at ran
      split at ran
      · next listened =>
        cases ran
        exact .finish shared.slot task.id task.job listened
      · next unheard =>
        cases ran
        exact .finishEarly shared.slot task.id task.job unheard
  | listenerRelease id =>
      cases ran
      exact .release shared.slot id
  | writeNowMove id =>
      simp only [exec] at ran
      split at ran <;> cases ran <;> exact .stay _ _
  | writeGetRequireDelete | writeGetDeleted | deleteGetDeleted | deleteGetRequireDelete
  | listenerGetRequireDelete | listenerGetRequireWrite =>
      simp only [exec] at ran
      split_ifs at ran <;> cases ran <;> exact .stay _ _
  | idle => cases ran
  | _ =>
      cases ran
      exact .stay _ _

theorem io_failure_move (shared : Shared Value) (left : Option String) (pc : Pc Value)
    (moved : Shared Value × Pc Value) (failed : ioFailure shared left pc = some moved) :
    ExclusiveSlot.Move shared.slot pc.role moved.1.slot moved.2.role := by
  cases pc <;> cases failed <;> exact .stay _ _

variable [DecidableEq Thread]

def State.Tracked (state : State Value Thread) (phase : Phase Thread Kind) : Prop :=
  Tracks state.shared.slot (fun thread => (state.pc thread).role) phase

theorem goto_tracked {state : State Value Thread} {phase : Phase Thread Kind}
    (tracks : state.Tracked phase) (thread : Thread) (moved : Shared Value × Pc Value)
    (move : ExclusiveSlot.Move state.shared.slot (state.pc thread).role moved.1.slot moved.2.role) :
    ∃ next, (state.goto thread moved).Tracked next := by
  obtain ⟨next, tracked⟩ := ExclusiveSlot.move_tracked tracks thread move
  refine ⟨next, ?_⟩
  have roles : (fun other => ((state.goto thread moved).pc other).role) =
      Function.update (fun other => (state.pc other).role) thread moved.2.role := by
    funext other
    exact Function.apply_update (fun _ => Pc.role) state.pc thread moved.2 other
  unfold State.Tracked
  rw [roles]
  exact tracked

theorem step_tracked {serialize : Option Value → String} {state after : State Value Thread}
    {phase : Phase Thread Kind} {action : Action Value Thread} (tracks : state.Tracked phase)
    (moved : step serialize state action = some after) : ∃ next, after.Tracked next := by
  cases action with
  | write thread val =>
      obtain ⟨idle, rfl⟩ := step_write moved
      exact goto_tracked tracks thread _ (by rw [idle]; exact .stay _ _)
  | delete thread =>
      obtain ⟨idle, rfl⟩ := step_delete moved
      exact goto_tracked tracks thread _ (by rw [idle]; exact .stay _ _)
  | start thread task =>
      obtain ⟨idle, waiting, rfl⟩ := step_start moved
      refine goto_tracked tracks thread _ ?_
      have started : (startOf task : Pc Value).role = .worker task.id task.job := by
        rcases task with ⟨id, job⟩
        cases job <;> rfl
      rw [idle, started]
      exact .start state.shared.slot task waiting
  | next thread =>
      obtain ⟨result, ran, rfl⟩ := step_next moved
      exact goto_tracked tracks thread _ (exec_move serialize _ _ _ ran)
  | fail thread left =>
      obtain ⟨result, failed, rfl⟩ := step_fail moved
      exact goto_tracked tracks thread _ (io_failure_move _ left _ _ failed)

/-- Every run of the writer is tracked by the token of its slot. -/
theorem reached_tracked {serialize : Option Value → String} {existing : Option String}
    {guard : State Value Thread → Action Value Thread → Bool} {state : State Value Thread}
    (run : Reached (system serialize existing) guard state) : ∃ phase, state.Tracked phase := by
  refine reached_invariant (fun state => ∃ phase, state.Tracked phase) ?_ ?_ run
  · exact ⟨.free, ExclusiveSlot.free_tracked _ _ rfl rfl rfl (fun _ => rfl) (fun _ _ => rfl)⟩
  · rintro before action after _ ⟨phase, tracks⟩ _ moved
    exact step_tracked tracks moved

/-! Who will still look at a requirement. A thread between a read of the
requirement and its compare-and-set on `executing`, or before that read in the
listener, notices it; so does the listener of any task while the flag is taken. -/
section Requirements

def Pc.noticesDelete : Pc Value → Bool
  | .deleteCompareAndSet => true
  | .listenerGetRequireDelete => true
  | .listenerDeleteCompareAndSet => true
  | _ => false

def Pc.noticesWrite : Pc Value → Bool
  | .writeGetRequireDelete => true
  | .writeGetDeleted => true
  | .writeCompareAndSet => true
  | .listenerGetRequireDelete => true
  | .listenerGetRequireWrite => true
  | .listenerWriteCompareAndSet => true
  | _ => false

/-- Counters that only a delete call leads to. -/
def Pc.deletes : Pc Value → Bool
  | .deleteGetDeleted => true
  | .deleteGetRequireDelete => true
  | .deleteSetRequireDelete => true
  | .deleteCompareAndSet => true
  | .submit .delete => true
  | .deleteNowSetDeleted _ => true
  | .deleteNowClearRequireDelete _ => true
  | .deleteNowFile _ => true
  | .deleteNowTmpFile _ => true
  | .deleteNowModCount _ => true
  | .listenerDeleteCompareAndSet => true
  | _ => false

def Shared.SignsDelete (shared : Shared Value) : Prop :=
  shared.requireDelete = true ∨ shared.deleted = true ∨
    ∃ task ∈ shared.queue, task.job = .delete

structure Attended (state : State Value Thread) : Prop where
  delete : state.shared.requireDelete = true →
    state.shared.executing = true ∨ ∃ thread, (state.pc thread).noticesDelete = true
  write : state.shared.requireWrite.isSome = true →
    (state.shared.executing = true ∨ state.shared.deleteCalled = true) ∨
      ∃ thread, (state.pc thread).noticesWrite = true
  signed : state.shared.SignsDelete → state.shared.deleteCalled = true
  deleting : ∀ thread, (state.pc thread).deletes = true → state.shared.deleteCalled = true

/-- What one access means for the two requirements and for the signs of a
delete call; each clause is about the stepping thread alone. -/
structure Notices (shared : Shared Value) (pc : Pc Value) (after : Shared Value)
    (next : Pc Value) : Prop where
  called : shared.deleteCalled = true → after.deleteCalled = true
  held : shared.executing = true → after.executing = true ∨
    (next.noticesDelete = true ∧ next.noticesWrite = true)
  delete : after.requireDelete = true → shared.requireDelete = true ∨ next.noticesDelete = true
  noticed : after.requireDelete = true → pc.noticesDelete = true →
    after.executing = true ∨ next.noticesDelete = true
  write : after.requireWrite.isSome = true →
    shared.requireWrite.isSome = true ∨ next.noticesWrite = true
  handled : after.requireWrite.isSome = true → pc.noticesWrite = true →
    (after.executing = true ∨ shared.SignsDelete) ∨ next.noticesWrite = true
  signed : after.SignsDelete ∨ next.deletes = true →
    after.deleteCalled = true ∨ shared.SignsDelete ∨ pc.deletes = true

attribute [local simp] Shared.SignsDelete Pc.noticesDelete Pc.noticesWrite Pc.deletes

omit [DecidableEq Thread] in
theorem exec_notices (serialize : Option Value → String) (shared : Shared Value) (pc : Pc Value)
    (moved : Shared Value × Pc Value) (ran : exec serialize shared pc = some moved) :
    Notices shared pc moved.1 moved.2 := by
  cases pc with
  | idle => cases ran
  | submit kind =>
      cases ran
      cases kind <;> constructor <;> simp_all
  | writeGetRequireDelete | writeGetDeleted | writeCompareAndSet | deleteGetDeleted
  | deleteGetRequireDelete | deleteCompareAndSet | listenerGetRequireDelete
  | listenerDeleteCompareAndSet | listenerGetRequireWrite | listenerWriteCompareAndSet =>
      simp only [exec] at ran
      split_ifs at ran with found <;> cases ran <;> constructor <;> simp_all
  | addListener id | writeNowMove id | complete id =>
      simp only [exec] at ran
      split at ran <;> cases ran <;> constructor <;> simp_all
  | _ =>
      cases ran
      constructor <;> simp_all

omit [DecidableEq Thread] in
theorem io_failure_notices (shared : Shared Value) (left : Option String) (pc : Pc Value)
    (moved : Shared Value × Pc Value) (failed : ioFailure shared left pc = some moved) :
    Notices shared pc moved.1 moved.2 := by
  cases pc <;> cases failed <;> constructor <;> simp_all

omit [DecidableEq Thread] in
theorem write_call_notices (shared : Shared Value) (val : Value) :
    Notices shared .idle shared (.writeSetRequireWrite val) := by
  constructor <;> simp_all

omit [DecidableEq Thread] in
theorem delete_call_notices (shared : Shared Value) :
    Notices shared .idle { shared with deleteCalled := true } .deleteGetDeleted := by
  constructor <;> simp_all

omit [DecidableEq Thread] in
theorem start_notices (shared : Shared Value) (task : Task) (waiting : task ∈ shared.queue) :
    Notices shared .idle { shared with queue := shared.queue.erase task } (startOf task) := by
  have kept : ∀ other, other ∈ shared.queue.erase task → other ∈ shared.queue :=
    fun _ member => List.mem_of_mem_erase member
  rcases task with ⟨id, job⟩
  cases job with
  | write =>
      constructor <;> simp_all [startOf]
      grind
  | delete =>
      constructor <;> simp_all [startOf]
      exact Or.inr (Or.inr (Or.inr ⟨_, waiting, rfl⟩))

theorem goto_attended {state : State Value Thread} (attended : Attended state) (thread : Thread)
    (moved : Shared Value × Pc Value)
    (notices : Notices state.shared (state.pc thread) moved.1 moved.2) :
    Attended (state.goto thread moved) := by
  have signed : moved.1.SignsDelete ∨ moved.2.deletes = true → moved.1.deleteCalled = true := by
    intro sign
    rcases notices.signed sign with called | signed | deleting
    · exact called
    · exact notices.called (attended.signed signed)
    · exact notices.called (attended.deleting thread deleting)
  constructor
  · intro required
    rcases notices.delete required with before | noticed
    · rcases attended.delete before with held | watched
      · exact (notices.held held).imp id fun notice =>
          ⟨thread, by simpa [State.goto] using notice.1⟩
      · exact exists_after_update state.pc thread moved.2 (fun pc => pc.noticesDelete = true)
          watched (notices.noticed required)
    · exact Or.inr ⟨thread, by simpa [State.goto] using noticed⟩
  · intro required
    rcases notices.write required with before | noticed
    · rcases attended.write before with (held | called) | watched
      · exact (notices.held held).imp Or.inl fun notice =>
          ⟨thread, by simpa [State.goto] using notice.2⟩
      · exact Or.inl (Or.inr (notices.called called))
      -- Who notices a write may pass it by only when a delete has been signed.
      · refine exists_after_update state.pc thread moved.2 (fun pc => pc.noticesWrite = true)
          watched fun notice => ?_
        exact (notices.handled required notice).imp
          (Or.imp_right fun sign => notices.called (attended.signed sign)) id
    · exact Or.inr ⟨thread, by simpa [State.goto] using noticed⟩
  · exact fun sign => signed (Or.inl sign)
  · refine forall_after_update state.pc thread moved.2
      (fun pc => pc.deletes = true → moved.1.deleteCalled = true) ?_
      fun deleting => signed (Or.inr deleting)
    exact fun other deleting => notices.called (attended.deleting other deleting)

theorem step_attended {serialize : Option Value → String} {state after : State Value Thread}
    {action : Action Value Thread} (attended : Attended state)
    (moved : step serialize state action = some after) : Attended after := by
  cases action with
  | write thread val =>
      obtain ⟨idle, rfl⟩ := step_write moved
      exact goto_attended attended thread _ (idle ▸ write_call_notices _ val)
  | delete thread =>
      obtain ⟨idle, rfl⟩ := step_delete moved
      exact goto_attended attended thread _ (idle ▸ delete_call_notices _)
  | start thread task =>
      obtain ⟨idle, waiting, rfl⟩ := step_start moved
      exact goto_attended attended thread _ (idle ▸ start_notices _ task waiting)
  | next thread =>
      obtain ⟨result, ran, rfl⟩ := step_next moved
      exact goto_attended attended thread _ (exec_notices serialize _ _ _ ran)
  | fail thread left =>
      obtain ⟨result, failed, rfl⟩ := step_fail moved
      exact goto_attended attended thread _ (io_failure_notices _ left _ _ failed)

theorem reached_attended {serialize : Option Value → String} {existing : Option String}
    {guard : State Value Thread → Action Value Thread → Bool} {state : State Value Thread}
    (run : Reached (system serialize existing) guard state) : Attended state := by
  refine reached_invariant Attended ?_ ?_ run
  · constructor <;> simp [system, initialShared]
  · intro before action after _ attended _ moved
    exact step_attended attended moved

end Requirements

theorem quiescent_released {serialize : Option Value → String} {existing : Option String}
    {guard : State Value Thread → Action Value Thread → Bool} {state : State Value Thread}
    (run : Reached (system serialize existing) guard state) (quiet : Quiescent state) :
    state.shared.executing = false := by
  obtain ⟨phase, tracks⟩ := reached_tracked run
  have free : phase = .free := by
    apply ExclusiveSlot.free_of_idle
    · intro thread
      rw [← congrFun tracks.roles thread, quiet.2 thread]
      rfl
    · exact tracks.outstanding.symm.trans quiet.1
  rw [free] at tracks
  exact tracks.busy

theorem quiescent_requirements {serialize : Option Value → String} {existing : Option String}
    {guard : State Value Thread → Action Value Thread → Bool} {state : State Value Thread}
    (run : Reached (system serialize existing) guard state) (quiet : Quiescent state) :
    state.shared.requireDelete = false ∧
      (state.shared.requireWrite = none ∨ state.shared.deleteCalled = true) := by
  have released := quiescent_released run quiet
  have attended := reached_attended run
  have watched : ∀ (notices : Pc Value → Bool), notices .idle = false →
      ¬ ∃ thread, notices (state.pc thread) = true := by
    rintro notices unaware ⟨thread, noticed⟩
    rw [quiet.2 thread, unaware] at noticed
    cases noticed
  constructor
  · cases required : state.shared.requireDelete with
    | false => rfl
    | true =>
        rcases attended.delete required with held | noticed
        · rw [released] at held
          cases held
        · exact absurd noticed (watched Pc.noticesDelete rfl)
  · cases required : state.shared.requireWrite with
    | none => exact Or.inl rfl
    | some val =>
        rcases attended.write (by simp [required]) with (held | called) | noticed
        · rw [released] at held
          cases held
        · exact Or.inr called
        · exact absurd noticed (watched Pc.noticesWrite rfl)

/-- Over every interleaving at most one task is outstanding, and where none is
and no thread is in a call, a task or a listener, no requirement is stranded. -/
theorem single_task_no_stranded_requirement (serialize : Option Value → String)
    (existing : Option String) (state : State Value Thread)
    (run : Reached (system serialize existing) anyStep state) :
    state.shared.outstanding.length ≤ 1 ∧
      (Quiescent state → state.shared.requireDelete = false ∧
        (state.shared.requireWrite = none ∨ state.shared.deleteCalled = true)) := by
  refine ⟨?_, quiescent_requirements run⟩
  obtain ⟨phase, tracks⟩ := reached_tracked run
  have same : state.shared.outstanding = phase.outstanding := tracks.outstanding
  rw [same]
  exact ExclusiveSlot.outstanding_at_most_one phase

def plainText : Option Bool → String
  | none => "<null/>"
  | some false => "<first/>"
  | some true => "<second/>"

/-- Two callers and the thread of a worker. -/
inductive Participant where
  | first | second | worker
deriving DecidableEq

instance {holds : Participant → Prop} [DecidablePred holds] : Decidable (∀ thread, holds thread) :=
  decidable_of_iff (holds .first ∧ holds .second ∧ holds .worker)
    ⟨fun every thread => by cases thread <;> simp [every], fun every => ⟨every _, every _, every _⟩⟩

def turns (thread : Participant) (count : Nat) : List (Action Bool Participant) :=
  List.replicate count (.next thread)

theorem single_task_of_overlapping_writes : ∃ state : State Bool Participant,
    state.shared.submitted = 1 ∧ state.shared.requireWrite = some true ∧
      state.shared.outstanding.length ≤ 1 := by
  obtain ⟨state, run, shown⟩ := replay_shows (system plainText none) anyStep
    ([.write .first false] ++ turns .first 6 ++ [.write .second true] ++ turns .second 4)
    (fun state => state.shared.submitted == 1 && state.shared.requireWrite == some true)
    (by decide)
  simp only [Bool.and_eq_true, beq_iff_eq] at shown
  exact ⟨state, shown.1, shown.2,
    (single_task_no_stranded_requirement plainText none state run).1⟩

end Brooklyn.MementoFileWriter
