import Brooklyn.MapOfCollectionsPresence

/-!
Each action keeps what its thread and the others know, so that the collections are what the
log says in every run. When no call runs, the log has one addition for each `add` that
returned and one removal for each removal that returned true, and nothing else.
-/

namespace Brooklyn.MapOfCollections
open Transition

variable {Key Value Thread : Type} [DecidableEq Key] [DecidableEq Value]

def Pc.callId : Pc Key Value → Option Nat
  | .idle => none
  | .add call _ | .remove call _ => some call.id

/-- The call runs in a thread or has returned. -/
def Accounted (shared : Shared Key Value Thread) (pc : Pc Key Value) (id : Nat) : Prop :=
  pc.callId = some id ∨ ∃ returned ∈ shared.returned, returned.call.id = id

/-- Before an action of a thread. -/
structure Before (kind : Kind) (thread : Thread) (shared : Shared Key Value Thread)
    (pc : Pc Key Value) : Prop where
  sound : Sound kind shared
  asserts : Asserts kind shared thread pc
  inMap : pc.inMap = true → shared.mapMonitor = some thread
  inColl : ∀ c, pc.inColl c = true → shared.collMonitor c = some thread

/-- After it. -/
structure After (kind : Kind) (thread : Thread) (shared : Shared Key Value Thread)
    (pc : Pc Key Value) (moved : Moved Key Value Thread) : Prop where
  sound : Sound kind moved.1
  asserts : Asserts kind moved.1 thread moved.2
  leaves : Leaves thread shared moved.1
  inMap : Passes thread shared.mapMonitor moved.1.mapMonitor pc.inMap moved.2.inMap
  inColl : ∀ c, Passes thread (shared.collMonitor c) (moved.1.collMonitor c) (pc.inColl c)
    (moved.2.inColl c)
  accounted : ∀ id, pc.callId = some id ∨ (shared.calls ≤ id ∧ id < moved.1.calls) →
    Accounted moved.1 moved.2 id
  returned : shared.returned ⊆ moved.1.returned

section Steps
variable {kind : Kind} {thread : Thread} {shared after : Shared Key Value Thread}
  {call : Call Key Value} {pc next : Pc Key Value} {coll : Nat}

/-- An action after which the call still runs. -/
theorem Before.goes (sound : Sound kind after) (asserts : Asserts kind after thread next)
    (leaves : Leaves thread shared after)
    (inMap : Passes thread shared.mapMonitor after.mapMonitor pc.inMap next.inMap)
    (inColl : ∀ c, Passes thread (shared.collMonitor c) (after.collMonitor c) (pc.inColl c)
      (next.inColl c))
    (same_call : next.callId = pc.callId) (same_calls : after.calls = shared.calls)
    (same_returned : after.returned = shared.returned) :
    After kind thread shared pc (after, next) :=
  ⟨sound, asserts, leaves, inMap, inColl, fun id accounted => by
    rcases accounted with running | ⟨above, below⟩
    · exact Or.inl (same_call.trans running)
    · dsimp only at below
      omega, same_returned ▸ List.Subset.refl _⟩

theorem Before.reads (here : Before kind thread shared pc)
    (asserts : Asserts kind shared thread next) (inMap : next.inMap = pc.inMap)
    (inColl : ∀ c, next.inColl c = pc.inColl c) (same_call : next.callId = pc.callId) :
    After kind thread shared pc (shared, next) :=
  Before.goes here.sound asserts (leaves_monitors shared _ _) (.stays rfl inMap)
    (fun c => .stays rfl (inColl c)) same_call rfl rfl

omit [DecidableEq Key] [DecidableEq Value] in
theorem Mine.monitors (mine : Mine shared thread call) (mapMonitor : Option Thread)
    (collMonitor : Nat → Option Thread) :
    Mine { shared with mapMonitor := mapMonitor, collMonitor := collMonitor } thread call :=
  ⟨mine.caller, mine.begun, mine.started, mine.pending⟩

theorem Asserts.monitors (asserts : Asserts kind shared thread pc) (mapMonitor : Option Thread)
    (collMonitor : Nat → Option Thread) :
    Asserts kind { shared with mapMonitor := mapMonitor, collMonitor := collMonitor } thread pc := by
  cases pc with
  | idle => trivial
  | add call pc =>
    obtain ⟨mine, at_pc⟩ := asserts
    exact ⟨mine.monitors _ _, by cases pc <;> exact at_pc⟩
  | remove call pc =>
    obtain ⟨mine, at_pc⟩ := asserts
    refine ⟨mine.monitors _ _, ?_⟩
    cases pc with
    | returnAbsent => exact at_pc
    | getAgain coll result | removeKey coll result | exitColl coll result | isEmpty coll result
    | enterMapAgain coll result | enterCollAgain coll result | isEmptyAgain coll result
    | exitCollAgain coll result | exitMapAgain result => cases result <;> exact at_pc
    | _ => exact at_pc

theorem Before.enterMap (here : Before kind thread shared pc) (next : Pc Key Value)
    (asserts : Asserts kind shared thread next) (inMap : next.inMap = true)
    (inColl : ∀ c, next.inColl c = pc.inColl c) (same_call : next.callId = pc.callId)
    {moved : Moved Key Value Thread}
    (entered : (shared.enterMap thread).map (·, next) = some moved) :
    After kind thread shared pc moved := by
  obtain ⟨after, taken, rfl⟩ := Option.map_eq_some_iff.mp entered
  obtain ⟨free, same⟩ := Option.ite_none_right_eq_some.mp taken
  cases same
  exact Before.goes (here.sound.monitors _ _) (asserts.monitors _ _) (leaves_monitors shared _ _)
    (.enters (Option.isNone_iff_eq_none.mp free) rfl inMap) (fun c => .stays rfl (inColl c))
    same_call rfl rfl

theorem Before.exitMap (here : Before kind thread shared pc)
    (asserts : Asserts kind shared thread next) (inside : pc.inMap = true)
    (inMap : next.inMap = false) (inColl : ∀ c, next.inColl c = pc.inColl c)
    (same_call : next.callId = pc.callId) :
    After kind thread shared pc (shared.exitMap, next) :=
  Before.goes (here.sound.monitors _ _) (asserts.monitors _ _) (leaves_monitors shared _ _)
    (.leaves inside rfl inMap) (fun c => .stays rfl (inColl c)) same_call rfl rfl

theorem Before.enterColl (here : Before kind thread shared pc) (next : Pc Key Value)
    (asserts : Asserts kind shared thread next) (inMap : next.inMap = pc.inMap)
    (outside : ∀ c, pc.inColl c = false) (inColl : ∀ c, next.inColl c = (coll == c))
    (same_call : next.callId = pc.callId) {moved : Moved Key Value Thread}
    (entered : (shared.enterColl thread coll).map (·, next) = some moved) :
    After kind thread shared pc moved := by
  obtain ⟨after, taken, rfl⟩ := Option.map_eq_some_iff.mp entered
  obtain ⟨free, same⟩ := Option.ite_none_right_eq_some.mp taken
  cases same
  refine Before.goes (here.sound.monitors _ _) (asserts.monitors _ _) (leaves_monitors shared _ _)
    (.stays rfl inMap) (fun c => ?_) same_call rfl rfl
  by_cases same : c = coll
  · subst c
    exact .enters (Option.isNone_iff_eq_none.mp free) (Function.update_self ..)
      ((inColl coll).trans (beq_self_eq_true coll))
  · refine .stays (Function.update_of_ne same ..) ?_
    rw [inColl, outside, beq_eq_false_iff_ne]
    exact Ne.symm same

omit [DecidableEq Key] [DecidableEq Value] in
theorem passes_exitColl (c : Nat) (inside : ∀ c, pc.inColl c = (coll == c))
    (outside : ∀ c, next.inColl c = false) :
    Passes thread (shared.collMonitor c) ((shared.exitColl coll).collMonitor c) (pc.inColl c)
      (next.inColl c) := by
  by_cases same : c = coll
  · subst c
    exact .leaves ((inside coll).trans (beq_self_eq_true coll)) (Function.update_self ..)
      (outside coll)
  · refine .stays (Function.update_of_ne same ..) ?_
    rw [inside, outside, eq_comm, beq_eq_false_iff_ne]
    exact Ne.symm same

theorem Before.exitColl (here : Before kind thread shared pc)
    (asserts : Asserts kind shared thread next) (inMap : next.inMap = pc.inMap)
    (inside : ∀ c, pc.inColl c = (coll == c)) (outside : ∀ c, next.inColl c = false)
    (same_call : next.callId = pc.callId) :
    After kind thread shared pc (shared.exitColl coll, next) :=
  Before.goes (here.sound.monitors _ _) (asserts.monitors _ _) (leaves_monitors shared _ _)
    (.stays rfl inMap) (fun c => passes_exitColl c inside outside) same_call rfl rfl

/-- The call returns, and its thread has no monitor any more. -/
theorem Before.finishes (here : Before kind thread shared pc) (mine : Mine shared thread call)
    (outcome : Outcome) (answered : Answered kind shared.log ⟨call, outcome, shared.log.length⟩)
    (same_call : pc.callId = some call.id) (mapMonitor : Option Thread)
    (collMonitor : Nat → Option Thread)
    (inMap : Passes thread shared.mapMonitor mapMonitor pc.inMap false)
    (inColl : ∀ c, Passes thread (shared.collMonitor c) (collMonitor c) (pc.inColl c) false) :
    After kind thread shared pc
      ({ shared with mapMonitor := mapMonitor, collMonitor := collMonitor }.finish call outcome,
        .idle) where
  sound := (here.sound.monitors _ _).finish (mine.monitors _ _) answered
  asserts := trivial
  leaves :=
    have finished := leaves_finish mine outcome
    ⟨finished.map, finished.collections, finished.keyOf, finished.unmapped, finished.log,
      finished.returned, finished.caller, finished.calls⟩
  inMap := inMap
  inColl := inColl
  accounted id accounted := by
    rcases accounted with running | ⟨above, below⟩
    · refine Or.inr ⟨_, List.mem_append_right _ List.mem_cons_self, ?_⟩
      exact Option.some.inj (same_call.symm.trans running)
    · exact absurd (Nat.lt_of_le_of_lt above below) (Nat.lt_irrefl _)
  returned := List.subset_append_left _ _

omit [DecidableEq Key] [DecidableEq Value] in
theorem isEmpty_iff : shared.isEmpty coll = true ↔ shared.collections coll = [] :=
  List.isEmpty_iff

/-- A value is added to a collection under its key. -/
theorem Before.adds (here : Before kind thread shared pc) (mine : Mine shared thread call)
    (never : Never shared.log call) (mapped : shared.map call.key = some coll)
    (inside : shared.collMonitor coll = some thread)
    (guarded : shared.mapMonitor ≠ some thread → shared.collections coll ≠ [])
    (asserts : ∀ after, Mine after thread call → Once after.log call .added after.log.length →
      Asserts kind after thread next)
    (inMap : next.inMap = pc.inMap) (inColl : ∀ c, next.inColl c = pc.inColl c)
    (same_call : next.callId = pc.callId) :
    After kind thread shared pc (shared.add kind call coll, next) := by
  have logs : replayLog kind (shared.log ++ [⟨call.id, .added, call.key, call.value⟩]) = _ :=
    replayLog_added call.key call.value call.id
  rw [← here.sound.replayed, contents_of_map mapped] at logs
  have length : (shared.add kind call coll).log.length = shared.log.length + 1 :=
    List.length_append
  have started := mine.started
  exact Before.goes (here.sound.write mine mapped logs fun removed => by cases removed)
    (asserts _ ⟨mine.caller, mine.begun, by omega, mine.pending⟩ (never.once .added started))
    (leaves_write mine inside guarded _ _) (.stays rfl inMap) (fun c => .stays rfl (inColl c))
    same_call rfl rfl

theorem execAdd_after {pc : AddPc} {moved : Moved Key Value Thread}
    (here : Before kind thread shared (.add call pc))
    (ran : execAdd kind thread call shared pc = some moved) :
    After kind thread shared (.add call pc) moved := by
  obtain ⟨mine, at_pc⟩ := here.asserts
  cases pc with
  | enterMap => exact here.enterMap (.add call .get) ⟨mine, at_pc⟩ rfl (fun _ => rfl) rfl ran
  | get =>
    cases ran
    cases mapped : shared.map call.key with
    | none => exact here.reads ⟨mine, at_pc, mapped⟩ rfl (fun _ => rfl) rfl
    | some coll => exact here.reads ⟨mine, at_pc, mapped⟩ rfl (fun _ => rfl) rfl
  | put =>
    cases ran
    obtain ⟨never, unmapped⟩ := at_pc
    have unmade := here.sound.fresh shared.created (Nat.le_refl _)
    have mine_after : Mine (shared.put call.key) thread call :=
      ⟨mine.caller, mine.begun, mine.started, mine.pending⟩
    exact Before.goes (here.sound.put unmapped)
      ⟨mine_after, never, Function.update_self ..⟩
      (leaves_put unmapped unmade (here.inMap rfl)) (.stays rfl rfl) (fun _ => .stays rfl rfl)
      rfl rfl rfl
  | isEmptyInMap coll =>
    cases ran
    obtain ⟨never, mapped⟩ := at_pc
    split
    · next empty =>
      exact here.reads ⟨mine, never, mapped, isEmpty_iff.mp empty⟩ rfl (fun _ => rfl) rfl
    · exact here.reads ⟨mine, never, here.sound.mapped _ _ mapped⟩ rfl (fun _ => rfl) rfl
  | enterCollInMap coll =>
    exact here.enterColl (.add call (.addInMap coll)) ⟨mine, at_pc⟩ rfl (fun _ => rfl) (fun _ => rfl) rfl ran
  | addInMap coll =>
    cases ran
    obtain ⟨never, mapped, _⟩ := at_pc
    exact here.adds mine never mapped (here.inColl coll (beq_self_eq_true coll))
      (fun outside => absurd (here.inMap rfl) outside) (fun _ mine once => ⟨mine, once⟩) rfl
      (fun _ => rfl) rfl
  | exitCollInMap coll =>
    cases ran
    exact here.exitColl ⟨mine, at_pc⟩ rfl (fun _ => rfl) (fun _ => rfl) rfl
  | returnFromMap coll =>
    cases ran
    exact here.finishes mine (.added coll) at_pc rfl none shared.collMonitor (.leaves rfl rfl rfl)
      fun _ => .stays rfl rfl
  | exitMap coll =>
    cases ran
    exact here.exitMap ⟨mine, at_pc⟩ rfl rfl (fun _ => rfl) rfl
  | enterColl coll =>
    exact here.enterColl (.add call (.isEmpty coll)) ⟨mine, at_pc⟩ rfl (fun _ => rfl) (fun _ => rfl) rfl ran
  | isEmpty coll =>
    cases ran
    obtain ⟨never, made⟩ := at_pc
    split
    · exact here.reads ⟨mine, never⟩ rfl (fun _ => rfl) rfl
    · next filled =>
      exact here.reads ⟨mine, never, made, fun empty => filled (isEmpty_iff.mpr empty)⟩ rfl
        (fun _ => rfl) rfl
  | add coll =>
    cases ran
    obtain ⟨never, made, filled⟩ := at_pc
    obtain ⟨key, same, mapped⟩ := here.sound.filled coll filled
    rw [made] at same
    cases same
    exact here.adds mine never mapped (here.inColl coll (beq_self_eq_true coll))
      (fun _ => filled) (fun _ mine once => ⟨mine, once⟩) rfl (fun _ => rfl) rfl
  | returnFromColl coll =>
    cases ran
    have exits : ∀ c, Passes thread (shared.collMonitor c) ((shared.exitColl coll).collMonitor c)
        ((Pc.add call (.returnFromColl coll)).inColl c) ((.idle : Pc Key Value).inColl c) :=
      fun c => passes_exitColl c (fun _ => rfl) fun _ => rfl
    exact here.finishes mine (.added coll) at_pc rfl shared.mapMonitor
      (shared.exitColl coll).collMonitor (.stays rfl rfl) exits
  | recurse coll =>
    cases ran
    exact here.exitColl ⟨mine, at_pc⟩ rfl (fun _ => rfl) (fun _ => rfl) rfl

theorem Removed.answered {result : Bool} (removed : Removed kind shared call result) :
    Answered kind shared.log ⟨call, .removed result, shared.log.length⟩ := by
  cases result <;> exact removed

omit [DecidableEq Key] in
theorem Kind.equal_nil (kind : Kind) (elements : List Value) :
    kind.equal elements [] = true → elements = [] := by
  cases kind with
  | sets => simp +contextual [Kind.equal]
  | lists => simp [Kind.equal]

omit [DecidableEq Key] in
/-- Where the map's collection equals an empty one nothing is under the key. -/
theorem contents_of_equalsMapped {key : Key} (empty : shared.collections coll = [])
    (equal : shared.equalsMapped kind key coll = true) : contents shared key = [] := by
  unfold Shared.equalsMapped at equal
  cases there : shared.map key with
  | none => exact contents_of_none there
  | some mapped =>
    rw [there, Option.any_some, Bool.or_eq_true, empty] at equal
    rw [contents_of_map there]
    rcases equal with same | equal
    · rw [eq_of_beq same]
      exact empty
    · exact kind.equal_nil _ equal

/-- A value is removed from a collection, which is under its key or was at some moment. -/
theorem remove_after (here : Before kind thread shared (.remove call (.remove coll))) :
    After kind thread shared (.remove call (.remove coll))
      ((shared.remove call coll).2,
        .remove call (.exitColl coll (shared.remove call coll).1)) := by
  obtain ⟨mine, never, made, there⟩ := here.asserts
  unfold Shared.remove
  split
  · next member =>
    obtain ⟨key, same, mapped⟩ := here.sound.filled coll (List.ne_nil_of_mem member)
    rw [made] at same
    cases same
    have logs : replayLog kind (shared.log ++ [⟨call.id, .removed, call.key, call.value⟩]) = _ :=
      replayLog_removed call.key call.value call.id
    rw [← here.sound.replayed, contents_of_map mapped] at logs
    refine Before.goes (here.sound.write mine mapped logs fun _ => member) ⟨?_, ?_⟩
      (leaves_write mine (here.inColl coll (beq_self_eq_true coll))
        (fun _ => List.ne_nil_of_mem member) _ _) (.stays rfl rfl) (fun _ => .stays rfl rfl)
      rfl rfl rfl
    · have started := mine.started
      exact ⟨mine.caller, mine.begun, by simp only [Shared.write, List.length_append]; omega,
        mine.pending⟩
    · exact never.once .removed mine.started
  · next missing =>
    refine here.reads ⟨mine, never, ?_⟩ rfl (fun _ => rfl) rfl
    rcases there with mapped | absent
    · refine absent_now mine.started ?_
      rw [← here.sound.replayed, contents_of_map mapped]
      exact missing
    · exact absent

theorem execRemove_after {pc : RemovePc} {moved : Moved Key Value Thread}
    (here : Before kind thread shared (.remove call pc))
    (ran : execRemove kind thread call shared pc = some moved) :
    After kind thread shared (.remove call pc) moved := by
  obtain ⟨mine, at_pc⟩ := here.asserts
  cases pc with
  | enterMap => exact here.enterMap (.remove call .get) ⟨mine, at_pc⟩ rfl (fun _ => rfl) rfl ran
  | get =>
    cases ran
    cases mapped : shared.map call.key with
    | none =>
      refine here.reads ⟨mine, at_pc, absent_now mine.started ?_⟩ rfl (fun _ => rfl) rfl
      rw [← here.sound.replayed, contents_of_none mapped]
      exact List.not_mem_nil
    | some coll =>
      exact here.reads ⟨mine, at_pc, here.sound.mapped _ _ mapped, Or.inl mapped⟩ rfl
        (fun _ => rfl) rfl
  | returnAbsent =>
    cases ran
    exact here.finishes mine (.removed false) at_pc rfl none shared.collMonitor
      (.leaves rfl rfl rfl) fun _ => .stays rfl rfl
  | exitMap coll =>
    cases ran
    exact here.exitMap ⟨mine, at_pc⟩ rfl rfl (fun _ => rfl) rfl
  | enterColl coll =>
    exact here.enterColl (.remove call (.remove coll)) ⟨mine, at_pc⟩ rfl (fun _ => rfl)
      (fun _ => rfl) rfl ran
  | remove coll =>
    cases ran
    exact remove_after here
  | exitColl coll result =>
    cases ran
    exact here.exitColl ⟨mine, at_pc⟩ rfl (fun _ => rfl) (fun _ => rfl) rfl
  | isEmpty coll result =>
    cases ran
    have removed : Removed kind shared call result := at_pc
    split
    · exact here.reads ⟨mine, at_pc⟩ rfl (fun _ => rfl) rfl
    · exact here.finishes mine (.removed result) removed.answered rfl shared.mapMonitor
        shared.collMonitor (.stays rfl rfl) fun _ => .stays rfl rfl
  | enterMapAgain coll result =>
    exact here.enterMap (.remove call (.enterCollAgain coll result)) ⟨mine, at_pc⟩ rfl
      (fun _ => rfl) rfl ran
  | enterCollAgain coll result =>
    exact here.enterColl (.remove call (.isEmptyAgain coll result)) ⟨mine, at_pc⟩ rfl
      (fun _ => rfl) (fun _ => rfl) rfl ran
  | isEmptyAgain coll result =>
    cases ran
    split
    · next empty =>
      exact here.reads ⟨mine, at_pc, isEmpty_iff.mp empty⟩ rfl (fun _ => rfl) rfl
    · exact here.reads ⟨mine, at_pc⟩ rfl (fun _ => rfl) rfl
  | getAgain coll result =>
    cases ran
    obtain ⟨removed, empty⟩ := at_pc
    split
    · next equal =>
      exact here.reads ⟨mine, removed, contents_of_equalsMapped empty equal⟩ rfl (fun _ => rfl) rfl
    · exact here.reads ⟨mine, removed⟩ rfl (fun _ => rfl) rfl
  | removeKey coll result =>
    cases ran
    obtain ⟨removed, empty⟩ := at_pc
    have mine_after : Mine (shared.removeKey call.key) thread call :=
      ⟨mine.caller, mine.begun, mine.started, mine.pending⟩
    have removed_after : Removed kind (shared.removeKey call.key) call result := by
      cases result <;> exact removed
    exact Before.goes (here.sound.removeKey empty) ⟨mine_after, removed_after⟩
      (leaves_removeKey empty (here.inMap rfl)) (.stays rfl rfl) (fun _ => .stays rfl rfl)
      rfl rfl rfl
  | exitCollAgain coll result =>
    cases ran
    exact here.exitColl ⟨mine, at_pc⟩ rfl (fun _ => rfl) (fun _ => rfl) rfl
  | exitMapAgain result =>
    cases ran
    have removed : Removed kind shared call result := at_pc
    exact here.finishes mine (.removed result) removed.answered rfl none shared.collMonitor
      (.leaves rfl rfl rfl) fun _ => .stays rfl rfl

/-- A call begins; the pc has it at its first action. -/
theorem enter_after (here : Before kind thread shared .idle) (key : Key) (value : Value)
    (entry : Call Key Value → Pc Key Value)
    (asserts : ∀ after call, Mine after thread call → Never after.log call →
      Asserts kind after thread (entry call))
    (outside : ∀ call, (entry call).inMap = false ∧ ∀ c, (entry call).inColl c = false)
    (entered : ∀ call, (entry call).callId = some call.id) :
    After kind thread shared .idle (enter shared thread key value entry) where
  sound := by
    refine ⟨here.sound.mapped, here.sound.filled, here.sound.fresh, here.sound.replayed,
      here.sound.effective, fun effect member => ?_, fun returned member => ?_⟩
    · exact Nat.lt_succ_of_lt (here.sound.logged effect member)
    · obtain ⟨begun, answered⟩ := here.sound.answered returned member
      exact ⟨Nat.lt_succ_of_lt begun, answered⟩
  asserts := by
    refine asserts _ _ ⟨Function.update_self .., Nat.lt_succ_self _, Nat.le_refl _, ?_⟩ ?_
    · exact fun returned member => Nat.ne_of_lt (here.sound.answered returned member).1
    · exact fun effect member => Nat.ne_of_lt (here.sound.logged effect member)
  leaves :=
    ⟨fun _ => ⟨rfl, fun _ empty => empty⟩, fun _ _ => rfl, fun _ _ made => made,
      fun _ _ mapped => Or.inl mapped, ⟨[], (List.append_nil _).symm, by simp⟩,
      fun _ member => Or.inl member,
      fun _ begun => Function.update_of_ne (Nat.ne_of_lt begun) .., Nat.le_succ _⟩
  inMap := .stays rfl (outside _).1
  inColl c := .stays rfl ((outside _).2 c)
  accounted id accounted := by
    rcases accounted with running | ⟨above, below⟩
    · cases running
    · have below : id < shared.calls + 1 := below
      refine Or.inl ((entered _).trans (congrArg some ?_))
      exact Nat.le_antisymm above (Nat.le_of_lt_succ below)
  returned := List.Subset.refl _

theorem perform_after {action : Action Key Value Thread} {moved : Moved Key Value Thread}
    (here : Before kind action.thread shared pc)
    (performed : perform kind shared pc action = some moved) :
    After kind action.thread shared pc moved := by
  cases action with
  | add thread key value =>
    cases pc with
    | idle =>
      cases performed
      exact enter_after here key value _ (fun _ _ mine never => ⟨mine, never⟩)
        (fun _ => ⟨rfl, fun _ => rfl⟩) fun _ => rfl
    | _ => cases performed
  | remove thread key value =>
    cases pc with
    | idle =>
      cases performed
      exact enter_after here key value _ (fun _ _ mine never => ⟨mine, never⟩)
        (fun _ => ⟨rfl, fun _ => rfl⟩) fun _ => rfl
    | _ => cases performed
  | next thread =>
    cases pc with
    | idle => cases performed
    | add call pc => exact execAdd_after here performed
    | remove call pc => exact execRemove_after here performed

end Steps

section Runs
variable {kind : Kind} [DecidableEq Thread]

structure Invariant (kind : Kind) (state : State Key Value Thread) : Prop where
  sound : Sound kind state.shared
  asserts : ∀ thread, Asserts kind state.shared thread (state.pc thread)
  mapMonitored : Monitored Pc.inMap state.shared.mapMonitor state.pc
  collMonitored : ∀ c, Monitored (Pc.inColl c) (state.shared.collMonitor c) state.pc
  accounted : ∀ id, id < state.shared.calls → (∃ thread, (state.pc thread).callId = some id) ∨
    ∃ returned ∈ state.shared.returned, returned.call.id = id

theorem Invariant.step {state : State Key Value Thread} {action : Action Key Value Thread}
    {moved : Moved Key Value Thread} (invariant : Invariant kind state)
    (performed : perform kind state.shared (state.pc action.thread) action = some moved) :
    Invariant kind (state.goto action.thread moved) := by
  have before : Before kind action.thread state.shared (state.pc action.thread) :=
    ⟨invariant.sound, invariant.asserts _, (invariant.mapMonitored _).mp,
      fun c => (invariant.collMonitored c _).mp⟩
  have after := perform_after before performed
  refine ⟨after.sound, ?_, monitored_step invariant.mapMonitored after.inMap,
    fun c => monitored_step (invariant.collMonitored c) (after.inColl c), ?_⟩
  · refine forall_after_step state.pc action.thread moved.2 invariant.asserts after.asserts ?_
    intro other different asserts
    refine asserts.spared invariant.sound after.leaves different (fun inside => ?_)
      fun c inside => ?_
    · rw [(invariant.mapMonitored other).mp inside]
      exact fun same => different (Option.some.inj same)
    · rw [(invariant.collMonitored c other).mp inside]
      exact fun same => different (Option.some.inj same)
  · intro id begun
    have own : Accounted moved.1 moved.2 id →
        (∃ thread, ((state.goto action.thread moved).pc thread).callId = some id) ∨
          ∃ returned ∈ moved.1.returned, returned.call.id = id :=
      Or.imp_left fun running => by
        refine ⟨action.thread, ?_⟩
        dsimp only [State.goto]
        rwa [Function.update_self]
    rcases Nat.lt_or_ge id state.shared.calls with earlier | new
    · rcases invariant.accounted id earlier with ⟨thread, running⟩ | ⟨returned, member, same⟩
      · by_cases here : thread = action.thread
        · subst here
          exact own (after.accounted id (Or.inl running))
        · refine Or.inl ⟨thread, ?_⟩
          dsimp only [State.goto]
          rwa [Function.update_of_ne here]
      · exact Or.inr ⟨returned, after.returned member, same⟩
    · exact own (after.accounted id (Or.inr ⟨new, begun⟩))

theorem invariant_reached {state : State Key Value Thread}
    (run : Reached (mapOfCollections kind Key Value Thread) anyStep state) :
    Invariant kind state := by
  refine reached_invariant (Invariant kind) ?_ ?_ run
  · refine ⟨⟨by simp [mapOfCollections], fun _ filled => absurd rfl filled, fun _ _ => rfl,
      fun _ => rfl, ?_, by simp [mapOfCollections], by simp [mapOfCollections]⟩,
      fun _ => trivial, fun _ => by simp [mapOfCollections, Pc.inMap],
      fun _ _ => by simp [mapOfCollections, Pc.inColl], by simp [mapOfCollections]⟩
    intro before effect after split
    exact absurd split (by simp [mapOfCollections])
  · intro before action after _ invariant _ moved
    obtain ⟨moved, performed, rfl⟩ := Option.map_eq_some_iff.mp moved
    exact invariant.step performed

end Runs
end Brooklyn.MapOfCollections
