import Brooklyn.MementoFileSlot

/-!
What the file holds. A task takes the recorded value when it runs, not when it
is submitted, so a value may be written by an earlier task and leave a later one
with nothing; that task then writes the serialization of null. In the runs in which every task
finds a value, the file holds passed values only, and the last one at rest.
-/

namespace Brooklyn.MementoFileWriter
open Transition
open ExclusiveSlot (Phase)

variable {Value Thread : Type}

structure WritesKept (serialize : Option Value → String) (state : State Value Thread) : Prop where
  serialized : state.shared.moved = true →
    ∃ val ∈ state.shared.writes, state.shared.file = some (content serialize (some val))
  settled : Quiescent state → state.shared.writes ≠ [] →
    ∃ val, state.shared.writes.getLast? = some val ∧
      state.shared.file = some (content serialize (some val))

/-- Neither a delete call nor an I/O failure. -/
def writesOnly : State Value Thread → Action Value Thread → Bool
  | _, .delete _ => false
  | _, .fail _ _ => false
  | _, _ => true

def findsValue (shared : Shared Value) : Pc Value → Bool
  | .writeNowGetAndSet _ => shared.requireWrite.isSome
  | _ => true

/-- Moreover `writeNow` never takes the pending value when there is none. -/
def takesValue (state : State Value Thread) (action : Action Value Thread) : Bool :=
  writesOnly state action &&
    match action with
    | .next thread => findsValue state.shared (state.pc thread)
    | _ => true

/-- The part of the shared state that the content of the file depends on. -/
structure Store (Value : Type) where
  requireWrite : Option Value
  tmpFile : Option String
  file : Option String
  moved : Bool
  writes : List Value

def Shared.store (shared : Shared Value) : Store Value where
  requireWrite := shared.requireWrite
  tmpFile := shared.tmpFile
  file := shared.file
  moved := shared.moved
  writes := shared.writes

/-- The task has taken a value and has not put it into the file. -/
def Pc.carries : Pc Value → Bool
  | .writeNowTmpFile _ _ => true
  | .writeNowMove _ => true
  | _ => false

inductive StoreMove (serialize : Option Value → String) :
    Store Value → Pc Value → Store Value → Pc Value → Prop where
  | keep (store : Store Value) (pc next : Pc Value) (before : pc.carries = false)
      (after : next.carries = false) : StoreMove serialize store pc store next
  | require (store : Store Value) (val : Value) :
      StoreMove serialize store (.writeSetRequireWrite val)
        { store with requireWrite := some val, writes := store.writes ++ [val] }
        .writeGetRequireDelete
  | take (store : Store Value) (id : Nat) :
      StoreMove serialize store (.writeNowGetAndSet id)
        { store with requireWrite := none } (.writeNowTmpFile id store.requireWrite)
  | temporary (store : Store Value) (id : Nat) (val : Option Value) :
      StoreMove serialize store (.writeNowTmpFile id val)
        { store with tmpFile := some (content serialize val) } (.writeNowMove id)
  | move (store : Store Value) (id : Nat) (text : String) (written : store.tmpFile = some text) :
      StoreMove serialize store (.writeNowMove id)
        { store with file := some text, tmpFile := none, moved := true } (.writeNowModCount id)
  | lost (store : Store Value) (id : Nat) (missing : store.tmpFile = none) :
      StoreMove serialize store (.writeNowMove id) store (.complete ⟨id, .write⟩)

theorem exec_store (serialize : Option Value → String) (shared : Shared Value) (pc : Pc Value)
    (moved : Shared Value × Pc Value) (ran : exec serialize shared pc = some moved)
    (writing : pc.deletes = false) :
    StoreMove serialize shared.store pc moved.1.store moved.2 := by
  cases pc with
  | idle => cases ran
  | writeSetRequireWrite val =>
      cases ran
      exact .require shared.store val
  | writeNowGetAndSet id =>
      cases ran
      exact .take shared.store id
  | writeNowTmpFile id val =>
      cases ran
      exact .temporary shared.store id val
  | writeNowMove id =>
      simp only [exec] at ran
      split at ran
      · next text written =>
        cases ran
        exact .move shared.store id text written
      · next missing =>
        cases ran
        exact .lost shared.store id missing
  | writeGetRequireDelete | writeGetDeleted | writeCompareAndSet | listenerGetRequireDelete
  | listenerGetRequireWrite | listenerWriteCompareAndSet =>
      simp only [exec] at ran
      split_ifs at ran <;> cases ran <;> exact .keep shared.store _ _ rfl rfl
  | addListener id | complete task =>
      simp only [exec] at ran
      split at ran <;> cases ran <;> exact .keep shared.store _ _ rfl rfl
  | submit kind | writeNowModCount id | listenerRelease id =>
      cases ran
      exact .keep shared.store _ _ rfl rfl
  | _ => cases writing

/-- What a task on its way to the file has in hand: a value passed to `write`,
and the last one unless another has been recorded since. -/
def Carried (serialize : Option Value → String) (store : Store Value) : Pc Value → Prop
  | .writeNowTmpFile _ val => ∃ own ∈ store.writes, val = some own ∧
      (store.requireWrite = none → store.writes.getLast? = some own)
  | .writeNowMove _ => ∃ own ∈ store.writes,
      store.tmpFile = some (content serialize (some own)) ∧
      (store.requireWrite = none → store.writes.getLast? = some own)
  | _ => True

theorem carried_idle (serialize : Option Value → String) (store : Store Value) (pc : Pc Value)
    (idle : pc.carries = false) : Carried serialize store pc := by
  cases pc <;> trivial

structure Faithful (serialize : Option Value → String) (store : Store Value)
    (pc : Thread → Pc Value) : Prop where
  pending : ∀ val, store.requireWrite = some val → store.writes.getLast? = some val
  carried : ∀ thread, Carried serialize store (pc thread)
  file : store.moved = true →
    ∃ val ∈ store.writes, store.file = some (content serialize (some val))
  current : store.requireWrite = none → store.writes = [] ∨
    (∃ thread, (pc thread).carries = true) ∨
      ∃ val, store.writes.getLast? = some val ∧
        store.file = some (content serialize (some val))

variable [DecidableEq Thread]

theorem keep_faithful {serialize : Option Value → String} {store : Store Value}
    {pc : Thread → Pc Value} (faithful : Faithful serialize store pc) (thread : Thread)
    (next : Pc Value) (before : (pc thread).carries = false) (after : next.carries = false) :
    Faithful serialize store (Function.update pc thread next) := by
  refine { faithful with carried := ?_, current := ?_ }
  · exact forall_after_update pc thread next _ faithful.carried
      (carried_idle serialize store next after)
  · intro taken
    rcases faithful.current taken with untouched | carrier | written
    · exact Or.inl untouched
    · have kept : False ∨ ∃ other, (Function.update pc thread next other).carries = true :=
        exists_after_update pc thread next (fun pc => pc.carries = true) carrier (by simp [before])
      exact Or.inr (Or.inl (kept.resolve_left id))
    · exact Or.inr (Or.inr written)

omit [DecidableEq Thread] in
theorem require_faithful {serialize : Option Value → String} {store : Store Value}
    {pc : Thread → Pc Value} (faithful : Faithful serialize store pc) (val : Value) :
    Faithful serialize
      { store with requireWrite := some val, writes := store.writes ++ [val] } pc where
  pending := by simp
  carried := by
    intro thread
    have before := faithful.carried thread
    cases at_pc : pc thread <;> rw [at_pc] at before <;> try trivial
    · obtain ⟨own, member, same, _⟩ := before
      exact ⟨own, List.mem_append_left _ member, same, nofun⟩
    · obtain ⟨own, member, same, _⟩ := before
      exact ⟨own, List.mem_append_left _ member, same, nofun⟩
  file := by
    intro moved
    obtain ⟨own, member, same⟩ := faithful.file moved
    exact ⟨own, List.mem_append_left _ member, same⟩
  current := nofun

/-- A worker that takes the pending value carries it; no other worker is there. -/
theorem take_faithful {serialize : Option Value → String} {store : Store Value}
    {pc : Thread → Pc Value} (faithful : Faithful serialize store pc) (thread : Thread)
    (id : Nat) (val : Value) (found : store.requireWrite = some val)
    (alone : ∀ other, other ≠ thread → (pc other).carries = false) :
    Faithful serialize { store with requireWrite := none }
      (Function.update pc thread (.writeNowTmpFile id (some val))) where
  pending := nofun
  carried := by
    intro other
    by_cases same : other = thread
    · subst other
      rw [Function.update_self]
      have last := faithful.pending val found
      exact ⟨val, List.mem_of_getLast? last, rfl, fun _ => last⟩
    · rw [Function.update_of_ne same]
      exact carried_idle serialize _ _ (alone other same)
  file := faithful.file
  current := fun _ => Or.inr (Or.inl ⟨thread, by rw [Function.update_self]; rfl⟩)

theorem temporary_faithful {serialize : Option Value → String} {store : Store Value}
    {pc : Thread → Pc Value} (faithful : Faithful serialize store pc) (thread : Thread)
    (id : Nat) (val : Option Value) (at_pc : pc thread = .writeNowTmpFile id val)
    (alone : ∀ other, other ≠ thread → (pc other).carries = false) :
    Faithful serialize { store with tmpFile := some (content serialize val) }
      (Function.update pc thread (.writeNowMove id)) where
  pending := faithful.pending
  carried := by
    intro other
    by_cases same : other = thread
    · subst other
      rw [Function.update_self]
      have before := faithful.carried thread
      rw [at_pc] at before
      obtain ⟨own, member, held, last⟩ := before
      exact ⟨own, member, by rw [held], last⟩
    · rw [Function.update_of_ne same]
      exact carried_idle serialize _ _ (alone other same)
  file := faithful.file
  current := fun _ => Or.inr (Or.inl ⟨thread, by rw [Function.update_self]; rfl⟩)

theorem move_faithful {serialize : Option Value → String} {store : Store Value}
    {pc : Thread → Pc Value} (faithful : Faithful serialize store pc) (thread : Thread)
    (id : Nat) (text : String) (written : store.tmpFile = some text)
    (at_pc : pc thread = .writeNowMove id)
    (alone : ∀ other, other ≠ thread → (pc other).carries = false) :
    Faithful serialize { store with file := some text, tmpFile := none, moved := true }
      (Function.update pc thread (.writeNowModCount id)) := by
  have before := faithful.carried thread
  rw [at_pc] at before
  obtain ⟨own, member, held, last⟩ := before
  have same_text : text = content serialize (some own) := by
    rw [held] at written
    exact (Option.some.inj written).symm
  refine { pending := faithful.pending, carried := ?_, file := ?_, current := ?_ }
  · intro other
    by_cases same : other = thread
    · subst other
      rw [Function.update_self]
      trivial
    · rw [Function.update_of_ne same]
      exact carried_idle serialize _ _ (alone other same)
  · exact fun _ => ⟨own, member, by rw [same_text]⟩
  · exact fun taken => Or.inr (Or.inr ⟨own, last taken, by rw [same_text]⟩)

/-- The step lemma: `alone` is the mutual exclusion of the slot, `finds` the
condition on the run. -/
theorem store_move_faithful {serialize : Option Value → String} {store after : Store Value}
    {pc : Thread → Pc Value} {next : Pc Value} (faithful : Faithful serialize store pc)
    (thread : Thread) (move : StoreMove serialize store (pc thread) after next)
    (alone : ∀ id, (pc thread).role = .worker id .write →
      ∀ other, other ≠ thread → (pc other).carries = false)
    (finds : ∀ id, pc thread = .writeNowGetAndSet id → store.requireWrite.isSome = true) :
    Faithful serialize after (Function.update pc thread next) := by
  generalize at_pc : pc thread = now at move
  cases move with
  | keep pc next before idle => exact keep_faithful faithful thread _ (at_pc ▸ before) idle
  | require val =>
      exact keep_faithful (require_faithful faithful val) thread _ (by rw [at_pc]; rfl) rfl
  | take id =>
      obtain ⟨val, found⟩ := Option.isSome_iff_exists.mp (finds id at_pc)
      rw [found]
      exact take_faithful faithful thread id val found (alone id (by rw [at_pc]; rfl))
  | temporary id val =>
      exact temporary_faithful faithful thread id val at_pc (alone id (by rw [at_pc]; rfl))
  | move id text written =>
      exact move_faithful faithful thread id text written at_pc
        (alone id (by rw [at_pc]; rfl))
  | lost id missing =>
      have before := faithful.carried thread
      rw [at_pc] at before
      obtain ⟨own, _, held, _⟩ := before
      rw [missing] at held
      cases held

theorem worker_alone {state : State Value Thread} {phase : Phase Thread Kind}
    (tracks : state.Tracked phase) (thread : Thread) (id : Nat)
    (role : (state.pc thread).role = .worker id .write) (other : Thread)
    (apart : other ≠ thread) : (state.pc other).carries = false := by
  cases carrying : (state.pc other).carries with
  | false => rfl
  | true =>
      have works : ∃ own, (state.pc other).role = .worker own .write := by
        cases at_pc : state.pc other <;> rw [at_pc] at carrying <;> try cases carrying
        · exact ⟨_, rfl⟩
        · exact ⟨_, rfl⟩
      obtain ⟨own, works⟩ := works
      have same := ExclusiveSlot.worker_unique ((congrFun tracks.roles other).symm.trans works)
        ((congrFun tracks.roles thread).symm.trans role)
      exact absurd same apart

omit [DecidableEq Thread] in
theorem undeleted_pc {state : State Value Thread} (attended : Attended state)
    (uncalled : state.shared.deleteCalled = false) (thread : Thread) :
    (state.pc thread).deletes = false := by
  cases deleting : (state.pc thread).deletes with
  | false => rfl
  | true =>
      rw [attended.deleting thread deleting] at uncalled
      cases uncalled

/-- The run of a writer without delete calls and I/O failures. -/
def Undeleted (serialize : Option Value → String) (state : State Value Thread) : Prop :=
  state.shared.deleteCalled = false ∧ Faithful serialize state.shared.store state.pc

theorem exec_undeleted (serialize : Option Value → String) (shared : Shared Value) (pc : Pc Value)
    (moved : Shared Value × Pc Value) (ran : exec serialize shared pc = some moved) :
    moved.1.deleteCalled = shared.deleteCalled := by
  cases pc with
  | idle => cases ran
  | writeCompareAndSet | deleteCompareAndSet | listenerDeleteCompareAndSet
  | listenerWriteCompareAndSet | addListener id | complete task | writeNowMove id =>
      simp only [exec] at ran
      split at ran <;> cases ran <;> rfl
  | _ =>
      cases ran
      rfl

theorem start_idle (task : Task) : (startOf task : Pc Value).carries = false := by
  rcases task with ⟨id, job⟩
  cases job <;> rfl

theorem step_undeleted {serialize : Option Value → String} {existing : Option String}
    {before after : State Value Thread} {action : Action Value Thread}
    (run : Reached (system serialize existing) takesValue before)
    (undeleted : Undeleted serialize before) (allowed : takesValue before action = true)
    (moved : step serialize before action = some after) : Undeleted serialize after := by
  obtain ⟨uncalled, faithful⟩ := undeleted
  obtain ⟨phase, tracks⟩ := reached_tracked run
  cases action with
  | write thread val =>
      obtain ⟨idle, rfl⟩ := step_write moved
      exact ⟨uncalled, keep_faithful faithful thread _ (by rw [idle]; rfl) rfl⟩
  | delete thread => cases allowed
  | start thread task =>
      obtain ⟨idle, waiting, rfl⟩ := step_start moved
      exact ⟨uncalled, keep_faithful faithful thread _ (by rw [idle]; rfl) (start_idle task)⟩
  | next thread =>
      obtain ⟨result, ran, rfl⟩ := step_next moved
      have move := exec_store serialize _ _ _ ran
        (undeleted_pc (reached_attended run) uncalled thread)
      refine ⟨(exec_undeleted serialize _ _ _ ran).trans uncalled, ?_⟩
      exact store_move_faithful faithful thread move
        (fun id role other apart => worker_alone tracks thread id role other apart)
        (fun id at_pc => by
          have found : findsValue before.shared (before.pc thread) = true := allowed
          rw [at_pc] at found
          exact found)
  | fail thread left => cases allowed

theorem reached_undeleted {serialize : Option Value → String} {existing : Option String}
    {state : State Value Thread} (run : Reached (system serialize existing) takesValue state) :
    Undeleted serialize state := by
  refine reached_invariant (Undeleted serialize) ?_ ?_ run
  · refine ⟨rfl, ?_, fun _ => trivial, nofun, fun _ => Or.inl rfl⟩
    nofun
  · exact fun before action after prior undeleted allowed moved =>
      step_undeleted prior undeleted allowed moved

/-- In every run of write calls in which each task finds a value to take, the
file holds passed values only, and the last one in every quiescent state. -/
theorem file_holds_last_write (serialize : Option Value → String) (existing : Option String)
    (state : State Value Thread)
    (run : Reached (system serialize existing) takesValue state) :
    WritesKept serialize state := by
  obtain ⟨uncalled, faithful⟩ := reached_undeleted run
  refine ⟨faithful.file, fun quiet written => ?_⟩
  have taken : state.shared.requireWrite = none := by
    rcases (quiescent_requirements run quiet).2 with taken | called
    · exact taken
    · rw [uncalled] at called
      cases called
  rcases faithful.current taken with untouched | ⟨thread, carrying⟩ | last
  · exact absurd untouched written
  · rw [quiet.2 thread] at carrying
    cases carrying
  · exact last

/-- A call and the task it submits, from the call to the end of the listener. -/
theorem single_write_kept : ∃ state : State Bool Participant,
    state.shared.file = some (content plainText (some false)) ∧ WritesKept plainText state := by
  obtain ⟨state, run, shown⟩ := replay_shows (system plainText none) takesValue
    ([.write .first false] ++ turns .first 6 ++ [.start .worker ⟨0, .write⟩] ++ turns .worker 8)
    (fun state => state.shared.file == some (content plainText (some false))) (by decide)
  exact ⟨state, by simpa using shown, file_holds_last_write plainText none state run⟩

/-- The first task takes the value of the second call, which then submits a
task of its own once the first listener has found nothing to do. -/
def overtakenWrite : List (Action Bool Participant) :=
  [.write .first false] ++ turns .first 4 ++ [.write .second true] ++ turns .second 3 ++
    turns .first 2 ++ [.start .worker ⟨0, .write⟩] ++ turns .worker 8 ++ turns .second 3 ++
    [.start .worker ⟨1, .write⟩] ++ turns .worker 8

theorem overtaken_write_serializes_null :
    ¬ ∀ (state : State Bool Participant), Reached (system plainText none) writesOnly state →
      WritesKept plainText state := by
  intro kept
  obtain ⟨state, run, shown⟩ := replay_shows (system plainText none) writesOnly overtakenWrite
    (fun state => state.shared.moved && state.shared.file == some (content plainText none))
    (by decide)
  simp only [Bool.and_eq_true, beq_iff_eq] at shown
  obtain ⟨val, _, holds⟩ := (kept state run).serialized shown.1
  rw [shown.2] at holds
  revert holds
  cases val <;> decide

end Brooklyn.MementoFileWriter
