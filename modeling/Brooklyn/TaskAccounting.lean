import Brooklyn.BasicExecutionManager
import Brooklyn.Custody

/-!
The incomplete tasks and the index of tasks by tag. Every submitted task is at one
place, from the thread that submits it to the end of its wrapper, and `afterEnd` takes
it from the places that are counted to those that are not. What a task can look like
to `isDone` depends on its place, as long as every task that becomes done has passed
`afterEnd` before.
-/

namespace Brooklyn.BasicExecutionManager
open Transition Custody
open SingleThreadedScheduler (FutureTask)

variable {Task Tag Thread : Type}

/-- `abandoned` are the tasks whose `submit` threw after it had counted them. -/
inductive Place (Thread : Type) where
  | submitting (thread : Thread)
  | abandoned
  | queued
  | running (thread : Thread)
  | ending (thread : Thread)
  | ended

namespace Place

def owner : Place Thread → Option Thread
  | .submitting thread | .running thread | .ending thread => some thread
  | _ => none

def hasEnded : Place Thread → Bool
  | .ending _ | .ended => true
  | _ => false

/-- What a task can be at a place: cancelled, and its future. -/
def Allows (cancelled : Bool) (future : Option FutureTask) : Place Thread → Prop
  | .submitting _ | .abandoned => cancelled = false ∧ future = none
  | .queued | .running _ => cancelled = false ∧ future = some .new
  | .ending _ => future = some .new ∨ future = some .cancelled
  | .ended => future = some .cancelled ∨ future = some .ran

end Place

namespace Pc

def hand (thread : Thread) : Pc Task Tag → Option (Task × Place Thread)
  | .addTags task _ | .onSubmit task | .checkJob task | .runnerSubmit task =>
      some (task, .submitting thread)
  | .beforeStart task | .onStart task | .checkCancelled task | .job task | .afterEnd task =>
      some (task, .running thread)
  | .onEnd task | .notifyAll task | .expire task _ | .set task => some (task, .ending thread)
  | _ => none

/-- How far a task has been put into the index, and how far taken out of it. -/
def Asserts (shared : Shared Task Tag Thread) : Pc Task Tag → Prop
  | .addTags task rest => ∀ tag ∈ rest, tag ∈ shared.tags task
  | .expire task rest => ∀ tag, task ∈ shared.tasksByTag tag → tag ∈ rest
  | .set task => shared.expirationPolicy task = .IMMEDIATE → ∀ tag, task ∉ shared.tasksByTag tag
  | _ => True

end Pc

structure Futures (cancelled : Task → Bool) (future : Task → Option FutureTask)
    (ledger : Ledger Task (Place Thread)) : Prop where
  placed : ∀ task ∈ ledger.tokens, (ledger.place task).Allows (cancelled task) (future task)
  unsubmitted : ∀ task, task ∉ ledger.tokens → future task = none

structure Indexed (shared : Shared Task Tag Thread) (ledger : Ledger Task (Place Thread)) :
    Prop where
  tagged : ∀ tag task, task ∈ shared.tasksByTag tag →
    task ∈ ledger.tokens ∧ tag ∈ shared.tags task
  expired : ∀ tag task, task ∈ shared.tasksByTag tag →
    shared.expirationPolicy task = .IMMEDIATE → ledger.place task ≠ .ended

/-- The tasks that `afterEnd` has counted down are at the places after it. -/
def Ended (ledger : Ledger Task (Place Thread)) (ended : LinkedSet Task) : Prop :=
  ∀ task, task ∈ ended ↔ task ∈ ledger.tokens ∧ (ledger.place task).hasEnded = true

structure Tracks (state : State Task Tag Thread) (ledger : Ledger Task (Place Thread)) :
    Prop where
  submitted : ledger.tokens = state.shared.submitted.elements
  queue : ledger.Lists .queued state.shared.queue
  ended : Ended ledger state.shared.ended
  carried : ledger.Carried Place.owner fun thread => (state.pc thread).hand thread
  counted : state.shared.incompleteTaskCount = ledger.count fun place => !place.hasEnded
  futures : Futures state.shared.cancelled state.shared.future ledger
  results : ∀ task, state.shared.future task ≠ none →
    state.shared.result task = true ∨ ∃ thread, state.pc thread = .initResult task
  indexed : Indexed state.shared ledger
  asserts : ∀ thread, (state.pc thread).Asserts state.shared

section Transfers
variable [DecidableEq Task] {ledger : Ledger Task (Place Thread)} {task : Task}
  {here there : Place Thread}

theorem ended_transfer {before after : LinkedSet Task} (listed : Ended ledger before)
    (stands : ledger.At task here) (others : ∀ other, other ≠ task → (other ∈ after ↔ other ∈ before))
    (own : task ∈ after ↔ there.hasEnded = true) : Ended (ledger.transfer task there) after := by
  intro other
  by_cases same : other = task
  · subst other
    rw [own]
    simp [Ledger.transfer, stands.1]
  · rw [others other same, listed other]
    simp [Ledger.transfer, same]

theorem ended_kept {ended : LinkedSet Task} (listed : Ended ledger ended)
    (stands : ledger.At task here) (same : there.hasEnded = here.hasEnded) :
    Ended (ledger.transfer task there) ended := by
  refine ended_transfer listed stands (fun _ _ => Iff.rfl) ?_
  rw [listed task, same, stands.2]
  exact and_iff_right stands.1

theorem futures_transfer {cancelled : Task → Bool} {before after : Task → Option FutureTask}
    (futures : Futures cancelled before ledger) (stands : ledger.At task here)
    (others : ∀ other, other ≠ task → after other = before other)
    (own : there.Allows (cancelled task) (after task)) :
    Futures cancelled after (ledger.transfer task there) where
  placed := fun other member => by
    by_cases same : other = task
    · subst other
      simpa [Ledger.transfer] using own
    · rw [others other same]
      simpa [Ledger.transfer, same] using futures.placed other member
  unsubmitted := fun other absent => by
    have different : other ≠ task := by
      rintro rfl
      exact absent stands.1
    rw [others other different]
    exact futures.unsubmitted other absent

theorem indexed_transfer {shared : Shared Task Tag Thread} (indexed : Indexed shared ledger)
    (own : there = .ended → shared.expirationPolicy task = .IMMEDIATE →
      ∀ tag, task ∉ shared.tasksByTag tag) :
    Indexed shared (ledger.transfer task there) where
  tagged := indexed.tagged
  expired := fun tag other member immediate => by
    by_cases same : other = task
    · subst other
      simp only [Ledger.transfer, Function.update_self]
      exact fun ended => own ended immediate tag member
    · simpa [Ledger.transfer, same] using indexed.expired tag other member immediate

/-- A task that passes `afterEnd` is not counted any more; no other transfer counts. -/
theorem counted_transfer {count next : Int}
    (counted : count = ledger.count fun place => !place.hasEnded) (stands : ledger.At task here)
    (change : next + (!here.hasEnded).toNat = count + (!there.hasEnded).toNat) :
    next = (ledger.transfer task there).count fun place => !place.hasEnded := by
  have moved := Ledger.count_transfer stands there fun place => !place.hasEnded
  omega

end Transfers

section Steps
variable [DecidableEq Task] [DecidableEq Tag] [DecidableEq Thread]
  {state : State Task Tag Thread} {ledger : Ledger Task (Place Thread)} {thread : Thread}

omit [DecidableEq Task] [DecidableEq Tag] [DecidableEq Thread] in
/-- A task in the hands of the stepping thread. -/
theorem in_hand (tracks : Tracks state ledger) {task : Task} (here : Place Thread)
    (hand : (state.pc thread).hand thread = some (task, here)) (owned : here.owner = some thread) :
    ledger.At task here ∧
      Ledger.Holds Place.owner thread task here ((state.pc thread).hand thread) :=
  ⟨(tracks.carried thread task here owned).mpr hand, Or.inr ⟨owned, hand⟩⟩

omit [DecidableEq Task] [DecidableEq Tag] in
theorem goto_hand (state : State Task Tag Thread) (thread : Thread)
    (moved : Shared Task Tag Thread × Pc Task Tag) :
    (fun other => ((state.goto thread moved).pc other).hand other) =
      Function.update (fun other => (state.pc other).hand other) thread (moved.2.hand thread) := by
  funext other
  by_cases same : other = thread
  · subst other
    simp [State.goto]
  · simp [State.goto, same]

omit [DecidableEq Tag] in
theorem goto_carried (tracks : Tracks state ledger) {task : Task} {here there : Place Thread}
    {shared : Shared Task Tag Thread} {next : Pc Task Tag} (stands : ledger.At task here)
    (before : Ledger.Holds Place.owner thread task here ((state.pc thread).hand thread))
    (after : Ledger.Holds Place.owner thread task there (next.hand thread)) :
    (ledger.transfer task there).Carried Place.owner
      fun other => ((state.goto thread (shared, next)).pc other).hand other := by
  rw [goto_hand]
  exact Ledger.transfer_carried tracks.carried stands before after

omit [DecidableEq Task] [DecidableEq Tag] in
theorem stay_carried (tracks : Tracks state ledger) {shared : Shared Task Tag Thread}
    {next : Pc Task Tag} (hand : next.hand thread = (state.pc thread).hand thread) :
    ledger.Carried Place.owner
      fun other => ((state.goto thread (shared, next)).pc other).hand other := by
  rw [goto_hand, hand, Function.update_eq_self]
  exact tracks.carried

omit [DecidableEq Task] [DecidableEq Tag] in
theorem results_goto (tracks : Tracks state ledger) {shared : Shared Task Tag Thread}
    {next : Pc Task Tag}
    (futures : ∀ task, shared.future task ≠ none →
      state.shared.future task ≠ none ∨ next = .initResult task)
    (results : ∀ task, state.shared.result task = true → shared.result task = true)
    (left : ∀ task, state.pc thread = .initResult task → shared.result task = true) :
    ∀ task, (state.goto thread (shared, next)).shared.future task ≠ none →
      (state.goto thread (shared, next)).shared.result task = true ∨
        ∃ other, (state.goto thread (shared, next)).pc other = .initResult task := by
  intro task given
  rcases futures task given with before | here
  · rcases tracks.results task before with done | waits
    · exact Or.inl (results task done)
    · exact exists_after_update state.pc thread next (fun pc => pc = .initResult task) waits
        fun leaves => Or.inl (left task leaves)
  · exact Or.inr ⟨thread, by simpa [State.goto] using here⟩

omit [DecidableEq Task] [DecidableEq Tag] in
/-- The other threads speak of tasks of their own: one that is being submitted, or one
at the end of its wrapper. -/
theorem asserts_goto (tracks : Tracks state ledger) {shared : Shared Task Tag Thread}
    {next : Pc Task Tag}
    (fewer : ∀ tag task other, ledger.At task (.ending other) → task ∈ shared.tasksByTag tag →
      task ∈ state.shared.tasksByTag tag)
    (kept : ∀ task ∈ ledger.tokens, shared.tags task = state.shared.tags task ∧
      shared.expirationPolicy task = state.shared.expirationPolicy task)
    (stepped : next.Asserts shared) :
    ∀ other, ((state.goto thread (shared, next)).pc other).Asserts
      (state.goto thread (shared, next)).shared := by
  refine @forall_after_step _ _ _ state.pc thread next (fun _ pc => pc.Asserts state.shared)
    (fun _ pc => pc.Asserts shared) tracks.asserts stepped ?_
  intro other _ asserts
  have stands (task : Task) (place : Place Thread) (owned : place.owner = some other)
      (hand : (state.pc other).hand other = some (task, place)) : ledger.At task place :=
    (tracks.carried other task place owned).mpr hand
  cases at_pc : state.pc other with
  | addTags task rest =>
      rw [at_pc] at asserts
      have place := stands task (.submitting other) rfl (by rw [at_pc]; rfl)
      intro tag member
      rw [(kept task place.1).1]
      exact asserts tag member
  | expire task rest =>
      rw [at_pc] at asserts
      have place := stands task (.ending other) rfl (by rw [at_pc]; rfl)
      intro tag member
      exact asserts tag (fewer tag task other place member)
  | set task =>
      rw [at_pc] at asserts
      have place := stands task (.ending other) rfl (by rw [at_pc]; rfl)
      intro immediate tag member
      rw [(kept task place.1).2] at immediate
      exact asserts immediate tag (fewer tag task other place member)
  | _ => trivial

omit [DecidableEq Task] [DecidableEq Tag] in
theorem stay_tracks (tracks : Tracks state ledger) {next : Pc Task Tag}
    {monitor : Task → Option Thread} {total : Nat} {active : Int}
    (hand : next.hand thread = (state.pc thread).hand thread)
    (elsewhere : ∀ task, state.pc thread ≠ .initResult task) (asserts : next.Asserts state.shared) :
    Tracks (state.goto thread
      ({ state.shared with
          monitor := monitor, totalTaskCount := total, activeTaskCount := active }, next))
      ledger where
  submitted := tracks.submitted
  queue := tracks.queue
  ended := tracks.ended
  carried := stay_carried tracks hand
  counted := tracks.counted
  futures := tracks.futures
  results := results_goto tracks (fun _ given => Or.inl given) (fun _ done => done)
    fun task here => absurd here (elsewhere task)
  indexed := { tracks.indexed with }
  asserts := asserts_goto tracks (fun _ _ _ _ member => member) (fun _ _ => ⟨rfl, rfl⟩) <| by
    cases next <;> exact asserts

theorem elements_add {set : LinkedSet Task} {task : Task} (absent : task ∉ set) :
    (set.add task).elements = set.elements ++ [task] := by
  unfold LinkedSet.add
  rw [dif_neg absent]
  exact List.concat_eq_append

/-- The task is counted for the first time, and nobody has cancelled it. -/
theorem beforeSubmit_tracks (tracks : Tracks state ledger) {task : Task} {flags : Flags Tag}
    (at_pc : state.pc thread = .beforeSubmit task flags) (fresh : task ∉ state.shared.submitted)
    (uncancelled : state.shared.cancelled task = false) {rest : List Tag}
    (asserts : (Pc.addTags task rest).Asserts (state.shared.beforeSubmit task flags)) :
    ∃ ledger, Tracks (state.goto thread
      (state.shared.beforeSubmit task flags, .addTags task rest)) ledger := by
  have absent : task ∉ ledger.tokens := by
    rw [tracks.submitted]
    exact fresh
  have known {other : Task} (member : other ∈ ledger.tokens) : other ≠ task := by
    rintro rfl
    exact absent member
  refine ⟨ledger.issue task (.submitting thread) absent, ?_⟩
  exact {
    submitted := by
      change ledger.tokens ++ [task] = (state.shared.submitted.add task).elements
      rw [elements_add fresh, tracks.submitted]
    queue := Ledger.lists_issued tracks.queue absent (by simp)
    ended := by
      intro other
      change other ∈ state.shared.ended ↔ _
      rw [tracks.ended other]
      by_cases same : other = task
      · subst other
        simp [Ledger.issue, absent, Place.hasEnded]
      · simp [Ledger.issue, same]
    carried := by
      rw [goto_hand]
      exact Ledger.issue_carried tracks.carried absent (by rw [at_pc]; rfl) (Or.inr ⟨rfl, rfl⟩)
    counted := by
      rw [Ledger.count_issue]
      change state.shared.incompleteTaskCount + 1 = _
      rw [tracks.counted]
      rfl
    futures := by
      refine ⟨fun other member => ?_, fun other absentAfter => ?_⟩
      · by_cases same : other = task
        · subst other
          simp only [Ledger.issue, Function.update_self]
          exact ⟨uncancelled, tracks.futures.unsubmitted _ absent⟩
        · have before : other ∈ ledger.tokens := by
            simpa [Ledger.issue, same] using member
          simp only [Ledger.issue, Function.update_of_ne same]
          exact tracks.futures.placed other before
      · exact tracks.futures.unsubmitted other fun member =>
          absentAfter (List.mem_append_left _ member)
    results := results_goto tracks (fun _ given => Or.inl given) (fun _ done => done)
      fun other here => by rw [at_pc] at here; cases here
    indexed := by
      refine ⟨fun tag other member => ?_, fun tag other member immediate => ?_⟩
      · obtain ⟨before, tagged⟩ := tracks.indexed.tagged tag other member
        refine ⟨List.mem_append_left _ before, ?_⟩
        simpa [State.goto, Shared.beforeSubmit, known before] using tagged
      · have before := (tracks.indexed.tagged tag other member).1
        have place := tracks.indexed.expired tag other member
          (by simpa [State.goto, Shared.beforeSubmit, known before] using immediate)
        simpa [Ledger.issue, known before] using place
    asserts := asserts_goto tracks (fun _ _ _ _ member => member)
      (fun other member => by simp [Shared.beforeSubmit, known member]) asserts }

theorem addTags_tracks (tracks : Tracks state ledger) {task : Task} {tag : Tag} {rest : List Tag}
    (at_pc : state.pc thread = .addTags task (tag :: rest)) :
    Tracks (state.goto thread
      ({ state.shared with
          tasksByTag := Function.update state.shared.tasksByTag tag
            ((state.shared.tasksByTag tag).add task) },
        .addTags task rest)) ledger := by
  obtain ⟨stands, _⟩ := in_hand tracks (.submitting thread) (by rw [at_pc]; rfl) rfl
  have own : ∀ found ∈ tag :: rest, found ∈ state.shared.tags task := by
    have asserts := tracks.asserts thread
    rw [at_pc] at asserts
    exact asserts
  -- A task in the index was there before, or is the one that is added.
  have added {found : Tag} {other : Task}
      (member : other ∈ Function.update state.shared.tasksByTag tag
        ((state.shared.tasksByTag tag).add task) found) :
      other ∈ state.shared.tasksByTag found ∨ (other = task ∧ found = tag) := by
    by_cases same : found = tag
    · subst found
      rw [Function.update_self, LinkedSet.mem_add] at member
      exact member.imp_right fun equal => ⟨equal, rfl⟩
    · rw [Function.update_of_ne same] at member
      exact Or.inl member
  exact {
    submitted := tracks.submitted
    queue := tracks.queue
    ended := tracks.ended
    carried := stay_carried tracks (by rw [at_pc]; rfl)
    counted := tracks.counted
    futures := tracks.futures
    results := results_goto tracks (fun _ given => Or.inl given) (fun _ done => done)
      fun other here => by rw [at_pc] at here; cases here
    indexed := by
      refine ⟨fun found other member => ?_, fun found other member immediate => ?_⟩
      · rcases added member with before | ⟨rfl, rfl⟩
        · exact tracks.indexed.tagged found other before
        · exact ⟨stands.1, own found (by simp)⟩
      · rcases added member with before | ⟨rfl, rfl⟩
        · exact tracks.indexed.expired found other before immediate
        · rw [stands.2]
          exact nofun
    asserts := asserts_goto tracks (fun found other ending place member => by
      rcases added member with before | ⟨rfl, rfl⟩
      · exact before
      · cases stands.unique place) (fun _ _ => ⟨rfl, rfl⟩)
      fun found member => own found (List.mem_cons_of_mem _ member) }

/-- The fields of a step that takes a task from one place to another one. -/
structure Moves (before after : Shared Task Tag Thread) : Prop where
  submitted : after.submitted = before.submitted
  cancelled : after.cancelled = before.cancelled
  result : after.result = before.result
  tags : after.tags = before.tags
  expirationPolicy : after.expirationPolicy = before.expirationPolicy
  tasksByTag : after.tasksByTag = before.tasksByTag

omit [DecidableEq Tag] in
theorem transfer_tracks (tracks : Tracks state ledger) {task : Task} {here there : Place Thread}
    {shared : Shared Task Tag Thread} {next : Pc Task Tag} (moves : Moves state.shared shared)
    (stands : ledger.At task here)
    (before : Ledger.Holds Place.owner thread task here ((state.pc thread).hand thread))
    (after : Ledger.Holds Place.owner thread task there (next.hand thread))
    (queue : (ledger.transfer task there).Lists .queued shared.queue)
    (ended : Ended (ledger.transfer task there) shared.ended)
    (counted : shared.incompleteTaskCount + (!here.hasEnded).toNat =
      state.shared.incompleteTaskCount + (!there.hasEnded).toNat)
    (futures : ∀ other, other ≠ task → shared.future other = state.shared.future other)
    (own : there.Allows (state.shared.cancelled task) (shared.future task))
    (given : ∀ other, shared.future other ≠ none →
      state.shared.future other ≠ none ∨ next = .initResult other)
    (elsewhere : ∀ other, state.pc thread ≠ .initResult other)
    (expired : there = .ended → state.shared.expirationPolicy task = .IMMEDIATE →
      ∀ tag, task ∉ state.shared.tasksByTag tag)
    (asserts : next.Asserts shared) :
    Tracks (state.goto thread (shared, next)) (ledger.transfer task there) where
  submitted := by
    change ledger.tokens = shared.submitted.elements
    rw [moves.submitted]
    exact tracks.submitted
  queue := queue
  ended := ended
  carried := goto_carried tracks stands before after
  counted := counted_transfer tracks.counted stands counted
  futures := by
    change Futures shared.cancelled shared.future _
    rw [moves.cancelled]
    exact futures_transfer tracks.futures stands futures own
  results := results_goto tracks given (fun _ done => by rwa [moves.result])
    fun other here => absurd here (elsewhere other)
  indexed := by
    have indexed := indexed_transfer tracks.indexed expired
    refine ⟨fun tag other member => ?_, fun tag other member immediate => ?_⟩
    · simp only [State.goto, moves.tasksByTag, moves.tags] at member ⊢
      exact indexed.tagged tag other member
    · simp only [State.goto, moves.tasksByTag, moves.expirationPolicy] at member immediate
      exact indexed.expired tag other member immediate
  asserts := asserts_goto tracks (fun _ _ _ _ member => by rwa [moves.tasksByTag] at member)
    (fun other _ => ⟨by rw [moves.tags], by rw [moves.expirationPolicy]⟩) asserts

theorem future_update {future : Task → Option FutureTask} {task : Task}
    {value : Option FutureTask} (other : Task) (different : other ≠ task) :
    Function.update future task value other = future other := Function.update_of_ne different ..

omit [DecidableEq Tag] in
theorem runnerSubmit_tracks (tracks : Tracks state ledger) {task : Task}
    (at_pc : state.pc thread = .runnerSubmit task) :
    Tracks (state.goto thread
      ({ state.shared with
          queue := state.shared.queue ++ [task]
          future := Function.update state.shared.future task (some .new) },
        .initResult task)) (ledger.transfer task .queued) := by
  obtain ⟨stands, holds⟩ := in_hand tracks (.submitting thread) (by rw [at_pc]; rfl) rfl
  have allows := tracks.futures.placed task stands.1
  rw [stands.2] at allows
  refine transfer_tracks tracks ⟨rfl, rfl, rfl, rfl, rfl, rfl⟩ stands holds (Or.inl ⟨rfl, rfl⟩)
    (Ledger.lists_gained tracks.queue stands (by simp)) (ended_kept tracks.ended stands rfl) rfl
    future_update ⟨allows.1, Function.update_self ..⟩ (fun other given => ?_)
    (fun other => by rw [at_pc]; exact nofun) nofun trivial
  by_cases same : other = task
  · exact Or.inr (by rw [same])
  · exact Or.inl (by simpa [same] using given)

omit [DecidableEq Tag] in
/-- A `submit` that throws leaves its task counted, and to nobody. -/
theorem abandon_tracks (tracks : Tracks state ledger) {task : Task}
    (hand : (state.pc thread).hand thread = some (task, .submitting thread))
    (elsewhere : ∀ other, state.pc thread ≠ .initResult other) :
    Tracks (state.goto thread (state.shared.leave task, .idle))
      (ledger.transfer task .abandoned) := by
  obtain ⟨stands, holds⟩ := in_hand tracks _ hand rfl
  have allows := tracks.futures.placed task stands.1
  rw [stands.2] at allows
  exact transfer_tracks tracks ⟨rfl, rfl, rfl, rfl, rfl, rfl⟩ stands holds (Or.inl ⟨rfl, rfl⟩)
    (Ledger.lists_kept tracks.queue stands (by simp) (by simp))
    (ended_kept tracks.ended stands rfl) rfl (fun _ _ => rfl) allows
    (fun _ given => Or.inl given) elsewhere nofun trivial

omit [DecidableEq Tag] in
theorem start_tracks (tracks : Tracks state ledger) {task : Task}
    (at_pc : state.pc thread = .idle) (queued : task ∈ state.shared.queue) :
    Tracks (state.goto thread
      ({ state.shared with queue := state.shared.queue.erase task }, .beforeStart task))
      (ledger.transfer task (.running thread)) := by
  have stands := (tracks.queue.listed task).mp queued
  have allows := tracks.futures.placed task stands.1
  rw [stands.2] at allows
  exact transfer_tracks tracks ⟨rfl, rfl, rfl, rfl, rfl, rfl⟩ stands
    (Or.inl ⟨rfl, by rw [at_pc]; rfl⟩) (Or.inr ⟨rfl, rfl⟩)
    (Ledger.lists_erased tracks.queue stands (by simp)) (ended_kept tracks.ended stands rfl) rfl
    (fun _ _ => rfl) allows (fun _ given => Or.inl given) (fun other => by rw [at_pc]; exact nofun)
    nofun trivial

omit [DecidableEq Tag] in
theorem afterEnd_tracks (tracks : Tracks state ledger) {task : Task}
    (at_pc : state.pc thread = .afterEnd task) :
    Tracks (state.goto thread
      ({ state.shared with
          activeTaskCount := state.shared.activeTaskCount - 1
          incompleteTaskCount := state.shared.incompleteTaskCount - 1
          ended := state.shared.ended.add task },
        .onEnd task)) (ledger.transfer task (.ending thread)) := by
  obtain ⟨stands, holds⟩ := in_hand tracks (.running thread) (by rw [at_pc]; rfl) rfl
  have allows := tracks.futures.placed task stands.1
  rw [stands.2] at allows
  refine transfer_tracks tracks ⟨rfl, rfl, rfl, rfl, rfl, rfl⟩ stands holds (Or.inr ⟨rfl, rfl⟩)
    (Ledger.lists_kept tracks.queue stands (by simp) (by simp))
    (ended_transfer tracks.ended stands (fun other different => by simp [different])
      (by simp [Place.hasEnded]))
    (by simp [Place.hasEnded]) (fun _ _ => rfl) (Or.inl allows.2) (fun _ given => Or.inl given)
    (fun other => by rw [at_pc]; exact nofun) nofun trivial

omit [DecidableEq Tag] in
theorem set_tracks (tracks : Tracks state ledger) {task : Task} (future : Option FutureTask)
    (at_pc : state.pc thread = .set task)
    (ends : future = some .cancelled ∨ future = some .ran) :
    Tracks (state.goto thread
      ({ state.shared with future := Function.update state.shared.future task future }, .idle))
      (ledger.transfer task .ended) := by
  obtain ⟨stands, holds⟩ := in_hand tracks (.ending thread) (by rw [at_pc]; rfl) rfl
  have allows := tracks.futures.placed task stands.1
  rw [stands.2] at allows
  have asserts := tracks.asserts thread
  rw [at_pc] at asserts
  refine transfer_tracks tracks ⟨rfl, rfl, rfl, rfl, rfl, rfl⟩ stands holds (Or.inl ⟨rfl, rfl⟩)
    (Ledger.lists_kept tracks.queue stands (by simp) (by simp)) (ended_kept tracks.ended stands rfl)
    rfl future_update (by simpa [Place.Allows] using ends) (fun other given => Or.inl ?_)
    (fun other => by rw [at_pc]; exact nofun) (fun _ immediate => asserts immediate) trivial
  by_cases same : other = task
  · rw [same]
    rcases allows with new | cancelled
    · rw [new]; exact nofun
    · rw [cancelled]; exact nofun
  · simpa [same] using given

omit [DecidableEq Tag] in
theorem initResult_tracks (tracks : Tracks state ledger) {task : Task}
    (at_pc : state.pc thread = .initResult task) :
    Tracks (state.goto thread
      ({ state.shared.leave task with
          result := Function.update state.shared.result task true }, .idle)) ledger where
  submitted := tracks.submitted
  queue := tracks.queue
  ended := tracks.ended
  carried := stay_carried tracks (by rw [at_pc]; rfl)
  counted := tracks.counted
  futures := tracks.futures
  results := by
    refine results_goto tracks (fun _ given => Or.inl given) (fun other done => ?_) fun other here => ?_
    · by_cases same : other = task
      · rw [same]
        exact Function.update_self ..
      · exact (Function.update_of_ne same ..).trans done
    · rw [at_pc] at here
      cases here
      exact Function.update_self ..
  indexed := { tracks.indexed with }
  asserts := asserts_goto tracks (fun _ _ _ _ member => member) (fun _ _ => ⟨rfl, rfl⟩) trivial

theorem expire_tracks (tracks : Tracks state ledger) {task : Task} {tag : Tag} {rest : List Tag}
    (at_pc : state.pc thread = .expire task (tag :: rest)) :
    Tracks (state.goto thread
      ({ state.shared with
          tasksByTag := Function.update state.shared.tasksByTag tag
            ((state.shared.tasksByTag tag).remove task) },
        .expire task rest)) ledger := by
  have asserts := tracks.asserts thread
  rw [at_pc] at asserts
  have left {found : Tag} {other : Task}
      (member : other ∈ Function.update state.shared.tasksByTag tag
        ((state.shared.tasksByTag tag).remove task) found) :
      other ∈ state.shared.tasksByTag found ∧ ¬(other = task ∧ found = tag) := by
    by_cases same : found = tag
    · subst found
      rw [Function.update_self, LinkedSet.mem_remove] at member
      exact ⟨member.1, fun both => member.2 both.1⟩
    · rw [Function.update_of_ne same] at member
      exact ⟨member, fun both => same both.2⟩
  exact {
    submitted := tracks.submitted
    queue := tracks.queue
    ended := tracks.ended
    carried := stay_carried tracks (by rw [at_pc]; rfl)
    counted := tracks.counted
    futures := tracks.futures
    results := results_goto tracks (fun _ given => Or.inl given) (fun _ done => done)
      fun other here => by rw [at_pc] at here; cases here
    indexed := ⟨fun found other member => tracks.indexed.tagged found other (left member).1,
      fun found other member => tracks.indexed.expired found other (left member).1⟩
    asserts := by
      refine asserts_goto tracks (fun _ _ _ _ member => (left member).1) (fun _ _ => ⟨rfl, rfl⟩) ?_
      intro found member
      obtain ⟨before, other⟩ := left member
      refine (List.mem_cons.mp (asserts found before)).resolve_left fun same => other ⟨rfl, same⟩ }

omit [DecidableEq Tag] in
/-- The task is not submitted, or `afterEnd` has counted it down. -/
theorem cancelResult_tracks (tracks : Tracks state ledger) {task : Task}
    (at_pc : state.pc thread = .cancelResult task)
    (uncounted : task ∉ state.shared.submitted ∨ task ∈ state.shared.ended)
    (new : state.shared.future task = some .new) :
    Tracks (state.goto thread
      ({ state.shared with future := Function.update state.shared.future task (some .cancelled) },
        .cancelSet task)) ledger where
  submitted := tracks.submitted
  queue := tracks.queue
  ended := tracks.ended
  carried := stay_carried tracks (by rw [at_pc]; rfl)
  counted := tracks.counted
  futures := by
    refine ⟨fun other member => ?_, fun other absent => ?_⟩
    · by_cases same : other = task
      · subst other
        have ended : (ledger.place task).hasEnded = true := by
          rcases uncounted with unsubmitted | ended
          · rw [tracks.submitted] at member
            exact absurd member unsubmitted
          · exact ((tracks.ended task).mp ended).2
        change (ledger.place task).Allows _ (Function.update state.shared.future task _ task)
        rw [Function.update_self]
        cases place : ledger.place task with
        | ending => exact Or.inr rfl
        | ended => exact Or.inl rfl
        | _ =>
            rw [place] at ended
            cases ended
      · change (ledger.place other).Allows _ (Function.update state.shared.future task _ other)
        rw [Function.update_of_ne same]
        exact tracks.futures.placed other member
    · have different : other ≠ task := by
        rintro rfl
        rw [tracks.futures.unsubmitted _ absent] at new
        cases new
      exact (future_update other different).trans (tracks.futures.unsubmitted other absent)
  results := by
    refine results_goto tracks (fun other given => Or.inl ?_) (fun _ done => done) fun other here => ?_
    · by_cases same : other = task
      · rw [same, new]
        exact nofun
      · simpa [same] using given
    · rw [at_pc] at here
      cases here
  indexed := { tracks.indexed with }
  asserts := asserts_goto tracks (fun _ _ _ _ member => member) (fun _ _ => ⟨rfl, rfl⟩) trivial

omit [DecidableEq Tag] in
theorem cancelSet_tracks (tracks : Tracks state ledger) {task : Task}
    (at_pc : state.pc thread = .cancelSet task)
    (uncounted : task ∉ state.shared.submitted ∨ task ∈ state.shared.ended) :
    Tracks (state.goto thread
      ({ state.shared.leave task with
          cancelled := Function.update state.shared.cancelled task true }, .idle)) ledger where
  submitted := tracks.submitted
  queue := tracks.queue
  ended := tracks.ended
  carried := stay_carried tracks (by rw [at_pc]; rfl)
  counted := tracks.counted
  futures := by
    refine ⟨fun other member => ?_, tracks.futures.unsubmitted⟩
    have placed := tracks.futures.placed other member
    change (ledger.place other).Allows (Function.update state.shared.cancelled task _ other) _
    by_cases same : other = task
    · subst other
      have ended : (ledger.place task).hasEnded = true := by
        rcases uncounted with unsubmitted | ended
        · rw [tracks.submitted] at member
          exact absurd member unsubmitted
        · exact ((tracks.ended task).mp ended).2
      cases place : ledger.place task with
      | ending | ended =>
          rw [place] at placed
          exact placed
      | _ =>
          rw [place] at ended
          cases ended
    · rw [Function.update_of_ne same]
      exact placed
  results := results_goto tracks (fun _ given => Or.inl given) (fun _ done => done)
    fun other here => by rw [at_pc] at here; cases here
  indexed := { tracks.indexed with }
  asserts := asserts_goto tracks (fun _ _ _ _ member => member) (fun _ _ => ⟨rfl, rfl⟩) trivial

/-- Every task that becomes done passes `afterEnd` first: a task is submitted once and
not after its `cancel`, a `cancel` comes to no task between its submission and the end
of its job, and no callback at the end of a task keeps it in the index. -/
def passesEnd (state : State Task Tag Thread) : Action Task Tag Thread → Bool
  | .next thread =>
      match state.pc thread with
      | .beforeSubmit task _ =>
          decide (task ∉ state.shared.submitted) && !state.shared.cancelled task
      | .cancelResult task | .cancelSet task =>
          decide (task ∉ state.shared.submitted ∨ task ∈ state.shared.ended)
      | _ => true
  | .throws thread =>
      match state.pc thread with
      | .onEnd task =>
          decide ((state.shared.tags task).elements = [] ∨
            state.shared.expirationPolicy task ≠ .IMMEDIATE)
      | _ => true
  | _ => true

variable {basicTask : Task → BasicTask Tag} {moved : Shared Task Tag Thread × Pc Task Tag}

omit [DecidableEq Task] [DecidableEq Tag] in
/-- A step that changes nothing but the point of the call; see `stay_tracks`. -/
theorem still_tracks (tracks : Tracks state ledger) {pc next : Pc Task Tag}
    (at_pc : state.pc thread = pc) (hand : next.hand thread = pc.hand thread)
    (elsewhere : ∀ task, pc ≠ .initResult task) (asserts : next.Asserts state.shared) :
    Tracks (state.goto thread (state.shared, next)) ledger := by
  subst at_pc
  exact stay_tracks tracks hand elsewhere asserts

theorem notifyAll_tracks (tracks : Tracks state ledger) {task : Task}
    (at_pc : state.pc thread = .notifyAll task)
    (ran : exec basicTask thread state.shared (.notifyAll task) = some moved) :
    Tracks (state.goto thread moved) ledger := by
  simp only [exec] at ran
  split at ran
  · cases ran
  · split at ran
    · cases ran
      refine still_tracks tracks at_pc rfl nofun fun tag member => ?_
      exact (tracks.indexed.tagged tag task member).2
    · next never =>
      cases ran
      refine still_tracks tracks at_pc rfl nofun fun immediate => ?_
      rw [never] at immediate
      cases immediate

omit [DecidableEq Thread] in
theorem submitted_tags (shared : Shared Task Tag Thread) (task : Task) (flags : Flags Tag) :
    (Pc.addTags task ((shared.beforeSubmit task flags).tags task).elements).Asserts
      (shared.beforeSubmit task flags) := fun _ member => member

theorem exec_tracks (tracks : Tracks state ledger)
    (allowed : passesEnd state (.next thread) = true)
    (ran : exec basicTask thread state.shared (state.pc thread) = some moved) :
    ∃ ledger, Tracks (state.goto thread moved) ledger := by
  cases at_pc : state.pc thread with
  | idle => rw [at_pc] at ran; cases ran
  | submit task flags =>
      rw [at_pc] at ran
      simp only [exec] at ran
      split at ran
      · cases ran
      · split at ran
        · cases ran
          exact ⟨ledger, still_tracks tracks at_pc rfl nofun trivial⟩
        · cases ran
          exact ⟨ledger, stay_tracks tracks (by rw [at_pc]; rfl)
            (fun task => by rw [at_pc]; exact nofun) trivial⟩
  | beforeSubmit task flags =>
      rw [at_pc] at ran
      cases ran
      have once : task ∉ state.shared.submitted ∧ state.shared.cancelled task = false := by
        simpa [passesEnd, at_pc] using allowed
      exact beforeSubmit_tracks tracks at_pc once.1 once.2 (submitted_tags _ _ _)
  | addTags task rest =>
      rw [at_pc] at ran
      cases rest with
      | nil =>
          cases ran
          exact ⟨ledger, still_tracks tracks at_pc rfl nofun trivial⟩
      | cons tag rest =>
          cases ran
          exact ⟨ledger, addTags_tracks tracks at_pc⟩
  | checkJob task =>
      rw [at_pc] at ran
      simp only [exec] at ran
      split at ran
      · cases ran
        exact ⟨ledger, still_tracks tracks at_pc rfl nofun trivial⟩
      · cases ran
        exact ⟨_, abandon_tracks tracks (by rw [at_pc]; rfl)
          fun other => by rw [at_pc]; exact nofun⟩
  | runnerSubmit task =>
      rw [at_pc] at ran
      cases ran
      exact ⟨_, runnerSubmit_tracks tracks at_pc⟩
  | initResult task =>
      rw [at_pc] at ran
      cases ran
      exact ⟨ledger, initResult_tracks tracks at_pc⟩
  | beforeStart task =>
      rw [at_pc] at ran
      cases ran
      exact ⟨ledger, stay_tracks tracks (by rw [at_pc]; rfl)
        (fun task => by rw [at_pc]; exact nofun) trivial⟩
  | checkCancelled task =>
      rw [at_pc] at ran
      cases ran
      refine ⟨ledger, still_tracks tracks at_pc ?_ nofun ?_⟩
      · split <;> rfl
      · split <;> trivial
  | afterEnd task =>
      rw [at_pc] at ran
      cases ran
      exact ⟨_, afterEnd_tracks tracks at_pc⟩
  | notifyAll task =>
      rw [at_pc] at ran
      exact ⟨ledger, notifyAll_tracks tracks at_pc ran⟩
  | expire task rest =>
      rw [at_pc] at ran
      cases rest with
      | nil =>
          cases ran
          have asserts := tracks.asserts thread
          rw [at_pc] at asserts
          refine ⟨ledger, still_tracks tracks at_pc rfl nofun fun _ tag member => ?_⟩
          cases asserts tag member
      | cons tag rest =>
          cases ran
          exact ⟨ledger, expire_tracks tracks at_pc⟩
  | set task =>
      rw [at_pc] at ran
      simp only [exec] at ran
      split at ran
      · cases ran
        exact ⟨_, set_tracks tracks _ at_pc (Or.inr rfl)⟩
      · next other =>
        cases ran
        have stands := (in_hand tracks (.ending thread) (by rw [at_pc]; rfl) rfl).1
        have allows := tracks.futures.placed task stands.1
        rw [stands.2] at allows
        have cancelled := allows.resolve_left other
        have kept := set_tracks tracks (state.shared.future task) at_pc (Or.inl cancelled)
        rw [Function.update_eq_self] at kept
        exact ⟨_, kept⟩
  | cancel task =>
      rw [at_pc] at ran
      simp only [exec] at ran
      split at ran
      · cases ran
      · split at ran
        · cases ran
          exact ⟨ledger, still_tracks tracks at_pc rfl nofun trivial⟩
        · cases ran
          exact ⟨ledger, stay_tracks tracks (by rw [at_pc]; rfl)
            (fun task => by rw [at_pc]; exact nofun) trivial⟩
  | cancelResult task =>
      have uncounted : task ∉ state.shared.submitted ∨ task ∈ state.shared.ended := by
        simpa [passesEnd, at_pc] using allowed
      rw [at_pc] at ran
      simp only [exec] at ran
      split at ran
      · next pending =>
        cases ran
        exact ⟨ledger, cancelResult_tracks tracks at_pc uncounted pending.2⟩
      · cases ran
        exact ⟨ledger, still_tracks tracks at_pc rfl nofun trivial⟩
  | cancelSet task =>
      have uncounted : task ∉ state.shared.submitted ∨ task ∈ state.shared.ended := by
        simpa [passesEnd, at_pc] using allowed
      rw [at_pc] at ran
      cases ran
      exact ⟨ledger, cancelSet_tracks tracks at_pc uncounted⟩
  | onSubmit task | onStart task | job task | onEnd task =>
      rw [at_pc] at ran
      cases ran
      exact ⟨ledger, still_tracks tracks at_pc rfl nofun trivial⟩

omit [DecidableEq Tag] in
theorem throws_tracks (tracks : Tracks state ledger)
    (allowed : passesEnd state (.throws thread) = true)
    (ran : throws state.shared (state.pc thread) = some moved) :
    ∃ ledger, Tracks (state.goto thread moved) ledger := by
  cases at_pc : state.pc thread with
  | onSubmit task | runnerSubmit task =>
      rw [at_pc] at ran
      cases ran
      exact ⟨_, abandon_tracks tracks (by rw [at_pc]; rfl) fun other => by rw [at_pc]; exact nofun⟩
  | onStart task | job task =>
      rw [at_pc] at ran
      cases ran
      exact ⟨ledger, still_tracks tracks at_pc rfl nofun trivial⟩
  | onEnd task =>
      have harmless : (state.shared.tags task).elements = [] ∨
          state.shared.expirationPolicy task ≠ .IMMEDIATE := by
        simpa [passesEnd, at_pc] using allowed
      rw [at_pc] at ran
      cases ran
      refine ⟨ledger, still_tracks tracks at_pc rfl nofun fun immediate tag member => ?_⟩
      have untagged := harmless.resolve_right fun other => other immediate
      have tagged : tag ∈ (state.shared.tags task).elements :=
        (tracks.indexed.tagged tag task member).2
      rw [untagged] at tagged
      cases tagged
  | _ =>
      rw [at_pc] at ran
      cases ran

omit [DecidableEq Task] [DecidableEq Tag] in
theorem calls_tracks (tracks : Tracks state ledger) (entry : Pc Task Tag)
    (empty : entry.hand thread = none) (asserts : entry.Asserts state.shared)
    (ran : calls state.shared entry (state.pc thread) = some moved) :
    Tracks (state.goto thread moved) ledger := by
  cases at_pc : state.pc thread with
  | idle =>
      rw [at_pc] at ran
      cases ran
      exact still_tracks tracks at_pc empty nofun asserts
  | _ =>
      rw [at_pc] at ran
      cases ran

theorem step_tracks (tracks : Tracks state ledger) {action : Action Task Tag Thread}
    {after : State Task Tag Thread} (allowed : passesEnd state action = true)
    (moved : step basicTask state action = some after) : ∃ ledger, Tracks after ledger := by
  obtain ⟨reached, ran, rfl⟩ := Option.map_eq_some_iff.mp moved
  cases action with
  | submit thread task flags =>
      exact ⟨ledger, calls_tracks tracks (.submit task flags) rfl trivial ran⟩
  | cancel thread task =>
      exact ⟨ledger, calls_tracks tracks (.cancel task) rfl trivial ran⟩
  | next thread => exact exec_tracks tracks allowed ran
  | throws thread => exact throws_tracks tracks allowed ran
  | start thread task =>
      change start state.shared task (state.pc thread) = _ at ran
      cases at_pc : state.pc thread with
      | idle =>
          rw [at_pc] at ran
          simp only [start] at ran
          split at ran
          · next queued =>
            cases ran
            exact ⟨_, start_tracks tracks at_pc queued.1⟩
          · cases ran
      | _ =>
          rw [at_pc] at ran
          cases ran

theorem reached_tracks
    (reached : Reached (basicExecutionManager basicTask Thread) passesEnd state) :
    ∃ ledger, Tracks state ledger := by
  refine reached_invariant (fun state => ∃ ledger, Tracks state ledger) ?_ ?_ reached
  · refine ⟨⟨[], List.nodup_nil, fun _ => .queued⟩, ?_⟩
    have nowhere {task : Task} {place : Place Thread} :
        ¬Ledger.At ⟨[], List.nodup_nil, fun _ => .queued⟩ task place := fun stands => by
      cases stands.1
    exact {
      submitted := rfl
      queue := ⟨List.nodup_nil, fun task => iff_of_false List.not_mem_nil nowhere⟩
      ended := fun task => iff_of_false List.not_mem_nil fun both => by cases both.1
      carried := fun _ _ _ _ => ⟨fun stands => absurd stands nowhere, fun held => by cases held⟩
      counted := rfl
      futures := ⟨fun _ member => absurd member List.not_mem_nil, fun _ _ => rfl⟩
      results := fun _ given => absurd rfl given
      indexed := ⟨fun _ _ member => absurd member (LinkedSet.not_mem_empty _),
        fun _ _ member => absurd member (LinkedSet.not_mem_empty _)⟩
      asserts := fun _ => trivial }
  · rintro before action after _ ⟨ledger, tracks⟩ allowed moved
    exact step_tracks tracks allowed moved

end Steps

section Claims
variable [DecidableEq Task] [DecidableEq Tag] [DecidableEq Thread]
  {state : State Task Tag Thread} {ledger : Ledger Task (Place Thread)}

/-- No call is in progress; jobs of tasks may be running. -/
def Quiescent (state : State Task Tag Thread) : Prop :=
  ∀ thread, state.pc thread = .idle ∨ ∃ task, state.pc thread = .job task

structure Balanced (state : State Task Tag Thread) : Prop where
  incomplete : state.shared.incompleteTaskCount =
    (state.shared.submitted.elements.filter fun task => !state.shared.isDone task).length
  tagged : ∀ tag, ∀ task ∈ state.shared.tasksByTag tag,
    state.shared.expirationPolicy task = .IMMEDIATE → state.shared.isDone task = false

omit [DecidableEq Task] [DecidableEq Tag] [DecidableEq Thread] in
theorem quiescent_outside (quiescent : Quiescent state) {thread : Thread} (pc : Pc Task Tag)
    (inside : pc ≠ .idle) (noJob : ∀ task, pc ≠ .job task) : state.pc thread ≠ pc := by
  rintro rfl
  rcases quiescent thread with idle | ⟨task, job⟩
  · exact inside idle
  · exact noJob task job

omit [DecidableEq Task] [DecidableEq Tag] [DecidableEq Thread] in
theorem quiescent_not_ending (tracks : Tracks state ledger) (quiescent : Quiescent state)
    {task : Task} (member : task ∈ ledger.tokens) (thread : Thread) :
    ledger.place task ≠ .ending thread := fun at_place => by
  have busy : (state.pc thread).hand thread = some (task, .ending thread) :=
    (tracks.carried thread task (.ending thread) rfl).mp ⟨member, at_place⟩
  rcases quiescent thread with idle | ⟨other, job⟩
  · rw [idle] at busy
    cases busy
  · rw [job] at busy
    cases busy

omit [DecidableEq Task] [DecidableEq Tag] [DecidableEq Thread] in
/-- When no call is in progress a task is done if it has passed `afterEnd`. -/
theorem done_iff_ended (tracks : Tracks state ledger) (quiescent : Quiescent state) {task : Task}
    (member : task ∈ ledger.tokens) :
    state.shared.isDone task = (ledger.place task).hasEnded := by
  have allows := tracks.futures.placed task member
  cases at_place : ledger.place task with
  | submitting | abandoned =>
      rw [at_place] at allows
      simp [Shared.isDone, allows.1, allows.2, Place.hasEnded]
  | queued | running =>
      rw [at_place] at allows
      simp [Shared.isDone, allows.1, allows.2, Place.hasEnded]
  | ending thread => exact absurd at_place (quiescent_not_ending tracks quiescent member thread)
  | ended =>
      rw [at_place] at allows
      have given : state.shared.future task ≠ none := by
        rcases allows with cancelled | ran
        · rw [cancelled]; exact nofun
        · rw [ran]; exact nofun
      have result : state.shared.result task = true :=
        (tracks.results task given).resolve_right fun ⟨_, waits⟩ =>
          quiescent_outside quiescent (.initResult task) nofun nofun waits
      change (_ || _) = true
      rw [result, Bool.true_and, Bool.or_eq_true]
      exact Or.inr (decide_eq_true allows)

omit [DecidableEq Task] [DecidableEq Tag] [DecidableEq Thread] in
theorem tracks_balanced (tracks : Tracks state ledger) (quiescent : Quiescent state) :
    Balanced state where
  incomplete := by
    rw [tracks.counted, Ledger.count, tracks.submitted, ← List.countP_eq_length_filter]
    congr 1
    refine List.countP_congr fun task member => ?_
    rw [← tracks.submitted] at member
    rw [done_iff_ended tracks quiescent member]
  tagged := fun tag task member immediate => by
    have known := (tracks.indexed.tagged tag task member).1
    have place := tracks.indexed.expired tag task member immediate
    rw [done_iff_ended tracks quiescent known]
    cases at_place : ledger.place task with
    | ended => exact absurd at_place place
    | ending thread => exact absurd at_place (quiescent_not_ending tracks quiescent known thread)
    | _ => rfl

theorem tasks_balanced_if_ended {basicTask : Task → BasicTask Tag}
    (reached : Reached (basicExecutionManager basicTask Thread) passesEnd state)
    (quiescent : Quiescent state) : Balanced state := by
  obtain ⟨ledger, tracks⟩ := reached_tracks reached
  exact tracks_balanced tracks quiescent

end Claims
/-- A task with a job and one tag, of the constructor. -/
def oneTag (_ : Nat) : BasicTask Bool :=
  { hasJob := true, tags := LinkedSet.empty.add true }

def submits (thread : Bool) (task : Nat) : List (Action Nat Bool Bool) :=
  .submit thread task ⟨[], none⟩ :: List.replicate 8 (.next thread)

def cancels (thread : Bool) (task : Nat) : List (Action Nat Bool Bool) :=
  .cancel thread task :: List.replicate 3 (.next thread)

/-- One task has ended by an exception and is gone from the index, one is running. -/
theorem tasks_balanced_one_running : ∃ state : State Nat Bool Bool,
    Reached (basicExecutionManager oneTag Bool) passesEnd state ∧
      state.shared.incompleteTaskCount = 1 ∧ 0 ∉ state.shared.tasksByTag true ∧
      1 ∈ state.shared.tasksByTag true ∧ Balanced state := by
  obtain ⟨state, reached, shown⟩ := replay_shows (basicExecutionManager oneTag Bool) passesEnd
    (submits false 0 ++ [.start true 0, .next true, .next true, .next true, .throws true] ++
      List.replicate 6 (.next true) ++ submits false 1 ++
      [.start true 1, .next true, .next true, .next true])
    (fun state => decide (state.shared.incompleteTaskCount = 1) &&
      decide (0 ∉ state.shared.tasksByTag true) && decide (1 ∈ state.shared.tasksByTag true) &&
      decide (∀ thread, state.pc thread = .idle ∨ state.pc thread = .job 1)) (by decide +kernel)
  simp only [Bool.and_eq_true, decide_eq_true_eq] at shown
  obtain ⟨⟨⟨one, gone⟩, there⟩, rests⟩ := shown
  refine ⟨state, reached, one, gone, there, tasks_balanced_if_ended reached fun thread => ?_⟩
  exact (rests thread).imp_right fun job => ⟨1, job⟩

/-- A task cancelled before it begins stays counted and in the index, with nothing left
to run; one cancelled while it runs is done, and counted until its job ends. -/
theorem cancelled_stays_counted :
    (∃ state : State Nat Bool Bool, Reached (basicExecutionManager oneTag Bool) anyStep state ∧
      (∀ thread, state.pc thread = .idle) ∧ state.shared.isDone 0 = true ∧
      0 ∈ state.shared.tasksByTag true ∧ state.shared.incompleteTaskCount = 1 ∧ ¬Balanced state) ∧
    (∃ state : State Nat Bool Bool, Reached (basicExecutionManager oneTag Bool) anyStep state ∧
      Quiescent state ∧ ¬Balanced state) := by
  have unbalanced {state : State Nat Bool Bool} (done : state.shared.isDone 0 = true)
      (indexed : 0 ∈ state.shared.tasksByTag true)
      (immediate : state.shared.expirationPolicy 0 = .IMMEDIATE) : ¬Balanced state := fun balanced =>
    Bool.true_eq_false.mp (done.symm.trans (balanced.tagged true 0 indexed immediate))
  constructor
  · obtain ⟨state, reached, shown⟩ := replay_shows (basicExecutionManager oneTag Bool) anyStep
      (submits false 0 ++ cancels false 0)
      (fun state => decide (∀ thread, state.pc thread = .idle) && state.shared.isDone 0 &&
        decide (0 ∈ state.shared.tasksByTag true) &&
        decide (state.shared.incompleteTaskCount = 1) &&
        decide (state.shared.expirationPolicy 0 = .IMMEDIATE)) (by decide +kernel)
    simp only [Bool.and_eq_true, decide_eq_true_eq] at shown
    obtain ⟨⟨⟨⟨rests, done⟩, indexed⟩, one⟩, immediate⟩ := shown
    exact ⟨state, reached, rests, done, indexed, one, unbalanced done indexed immediate⟩
  · obtain ⟨state, reached, shown⟩ := replay_shows (basicExecutionManager oneTag Bool) anyStep
      (submits false 0 ++ [.start true 0, .next true, .next true, .next true] ++ cancels false 0)
      (fun state => decide (∀ thread, state.pc thread = .idle ∨ state.pc thread = .job 0) &&
        state.shared.isDone 0 && decide (0 ∈ state.shared.tasksByTag true) &&
        decide (state.shared.expirationPolicy 0 = .IMMEDIATE)) (by decide +kernel)
    simp only [Bool.and_eq_true, decide_eq_true_eq] at shown
    obtain ⟨⟨⟨rests, done⟩, indexed⟩, immediate⟩ := shown
    refine ⟨state, reached, fun thread => ?_, unbalanced done indexed immediate⟩
    exact (rests thread).imp_right fun job => ⟨0, job⟩

end Brooklyn.BasicExecutionManager
