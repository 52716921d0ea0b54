import Brooklyn.MapOfCollections
import Mathlib.Data.List.Induction

/-!
The collections under the keys of the map are what the log says, at any time. A collection
that is not in the map is empty and stays so: a value is added to an empty collection only
inside the map's monitor, to the collection that the map has. A removal that removed nothing
had a moment when the value was not there.
-/

namespace Brooklyn.MapOfCollections
open Transition

variable {Key Value Thread : Type}

def Pc.inMap : Pc Key Value → Bool
  | .add _ pc =>
      match pc with
      | .get | .put | .isEmptyInMap _ | .enterCollInMap _ | .addInMap _ | .exitCollInMap _
      | .returnFromMap _ | .exitMap _ => true
      | _ => false
  | .remove _ pc =>
      match pc with
      | .get | .returnAbsent | .exitMap _ | .enterCollAgain _ _ | .isEmptyAgain _ _
      | .getAgain _ _ | .removeKey _ _ | .exitCollAgain _ _ | .exitMapAgain _ => true
      | _ => false
  | .idle => false

def Pc.inColl (c : Nat) : Pc Key Value → Bool
  | .add _ pc =>
      match pc with
      | .addInMap coll | .exitCollInMap coll | .isEmpty coll | .add coll | .returnFromColl coll
      | .recurse coll => coll == c
      | _ => false
  | .remove _ pc =>
      match pc with
      | .remove coll | .exitColl coll _ | .isEmptyAgain coll _ | .getAgain coll _
      | .removeKey coll _ | .exitCollAgain coll _ => coll == c
      | _ => false
  | .idle => false

def contents (shared : Shared Key Value Thread) (key : Key) : List Value :=
  match shared.map key with
  | none => []
  | some coll => shared.collections coll

section Log
variable [DecidableEq Key] [DecidableEq Value]

/-- What the log leaves under each key, if its effects happen one after another. -/
def replayLog (kind : Kind) (log : List (Effect Key Value)) : Key → List Value :=
  log.foldl (fun contents effect =>
    Function.update contents effect.key
      (match effect.change with
      | .added => kind.add (contents effect.key) effect.value
      | .removed => (contents effect.key).erase effect.value)) fun _ => []

/-- The call had this effect and no other, while it ran. -/
structure Once (log : List (Effect Key Value)) (call : Call Key Value) (change : Change)
    (finished : Nat) : Prop where
  only : log.filter (fun effect => effect.call = call.id) =
    [⟨call.id, change, call.key, call.value⟩]
  within : ∃ moment, call.started ≤ moment ∧ moment < finished ∧
    log[moment]? = some ⟨call.id, change, call.key, call.value⟩

def Never (log : List (Effect Key Value)) (call : Call Key Value) : Prop :=
  ∀ effect ∈ log, effect.call ≠ call.id

def times (change : Change) (log : List (Effect Key Value)) (key : Key) (value : Value) : Nat :=
  log.countP fun effect => effect.change = change ∧ effect.key = key ∧ effect.value = value

/-- Each removal of the log removes a value that is there. -/
def Effective (kind : Kind) (log : List (Effect Key Value)) : Prop :=
  ∀ before effect after, log = before ++ effect :: after → effect.change = .removed →
    effect.value ∈ replayLog kind before effect.key

/-- At some moment while the call ran its value was not under its key. -/
def Absent (kind : Kind) (log : List (Effect Key Value)) (call : Call Key Value)
    (finished : Nat) : Prop :=
  ∃ moment, call.started ≤ moment ∧ moment ≤ finished ∧
    call.value ∉ replayLog kind (log.take moment) call.key

def Answered (kind : Kind) (log : List (Effect Key Value)) (returned : Returned Key Value) :
    Prop :=
  match returned.outcome with
  | .added _ => Once log returned.call .added returned.finished
  | .removed true => Once log returned.call .removed returned.finished
  | .removed false => Never log returned.call ∧ Absent kind log returned.call returned.finished

variable {kind : Kind} {log effects : List (Effect Key Value)} {call : Call Key Value}

theorem replayLog_added (key : Key) (value : Value) (id : Nat) :
    replayLog kind (log ++ [⟨id, .added, key, value⟩]) =
      Function.update (replayLog kind log) key (kind.add (replayLog kind log key) value) := by
  rw [replayLog, List.foldl_append]
  rfl

theorem replayLog_removed (key : Key) (value : Value) (id : Nat) :
    replayLog kind (log ++ [⟨id, .removed, key, value⟩]) =
      Function.update (replayLog kind log) key ((replayLog kind log key).erase value) := by
  rw [replayLog, List.foldl_append]
  rfl

theorem Effective.concat (effective : Effective kind log) {effect : Effect Key Value}
    (removes : effect.change = .removed → effect.value ∈ replayLog kind log effect.key) :
    Effective kind (log ++ [effect]) := by
  intro before other after split removed
  rcases List.eq_nil_or_concat after with rfl | ⟨after, last, rfl⟩
  · obtain ⟨rfl, same⟩ := List.append_inj' split rfl
    obtain rfl := List.singleton_inj.mp same
    exact removes removed
  · refine effective before other after ?_ removed
    have parts : log ++ [effect] = (before ++ other :: after) ++ [last] := by
      rw [split]
      simp
    exact (List.append_inj' parts rfl).1

omit [DecidableEq Key] [DecidableEq Value] in
theorem Never.append (never : Never log call) (others : ∀ effect ∈ effects, effect.call ≠ call.id) :
    Never (log ++ effects) call := by
  intro effect member
  rcases List.mem_append.mp member with before | new
  · exact never effect before
  · exact others effect new

omit [DecidableEq Key] [DecidableEq Value] in
theorem Once.append {change : Change} {finished : Nat} (once : Once log call change finished)
    (others : ∀ effect ∈ effects, effect.call ≠ call.id) {later : Nat}
    (not_before : finished ≤ later) : Once (log ++ effects) call change later where
  only := by
    have none_other : effects.filter (fun effect => effect.call = call.id) = [] := by
      rw [List.filter_eq_nil_iff]
      intro effect member
      simpa using others effect member
    rw [List.filter_append, once.only, none_other, List.append_nil]
  within := by
    obtain ⟨moment, started, before, there⟩ := once.within
    refine ⟨moment, started, Nat.lt_of_lt_of_le before not_before, ?_⟩
    rw [List.getElem?_append_left (List.getElem?_eq_some_iff.mp there).1]
    exact there

omit [DecidableEq Key] [DecidableEq Value] in
/-- The effect that a call without one has now. -/
theorem Never.once (never : Never log call) (change : Change)
    (started : call.started ≤ log.length) :
    Once (log ++ [⟨call.id, change, call.key, call.value⟩]) call change
      (log ++ [(⟨call.id, change, call.key, call.value⟩ : Effect Key Value)]).length where
  only := by
    have none_before : log.filter (fun effect => effect.call = call.id) = [] := by
      rw [List.filter_eq_nil_iff]
      intro effect member
      simpa using never effect member
    rw [List.filter_append, none_before]
    simp
  within := ⟨log.length, started, by simp, by simp⟩

theorem Absent.append {finished later : Nat} (absent : Absent kind log call finished)
    (in_log : finished ≤ log.length) (not_before : finished ≤ later) :
    Absent kind (log ++ effects) call later := by
  obtain ⟨moment, started, before, missing⟩ := absent
  refine ⟨moment, started, Nat.le_trans before not_before, ?_⟩
  rw [List.take_append_of_le_length (Nat.le_trans before in_log)]
  exact missing

/-- The value is not there now. -/
theorem absent_now (started : call.started ≤ log.length)
    (missing : call.value ∉ replayLog kind log call.key) : Absent kind log call log.length :=
  ⟨log.length, started, Nat.le_refl _, by rwa [List.take_length]⟩

theorem Answered.append {returned : Returned Key Value} (answered : Answered kind log returned)
    (others : ∀ effect ∈ effects, effect.call ≠ returned.call.id)
    (in_log : returned.finished ≤ log.length) : Answered kind (log ++ effects) returned := by
  unfold Answered at answered ⊢
  split
  · next outcome =>
    rw [outcome] at answered
    exact answered.append others (Nat.le_refl _)
  · next outcome =>
    rw [outcome] at answered
    exact answered.append others (Nat.le_refl _)
  · next outcome =>
    rw [outcome] at answered
    exact ⟨answered.1.append others, answered.2.append in_log (Nat.le_refl _)⟩

end Log

section Invariant
variable [DecidableEq Key] [DecidableEq Value]

/-- A collection with elements is under its key, and the log says what is under each key. -/
structure Sound (kind : Kind) (shared : Shared Key Value Thread) : Prop where
  mapped : ∀ key coll, shared.map key = some coll → shared.keyOf coll = some key
  filled : ∀ coll, shared.collections coll ≠ [] →
    ∃ key, shared.keyOf coll = some key ∧ shared.map key = some coll
  fresh : ∀ coll, shared.created ≤ coll → shared.keyOf coll = none
  replayed : ∀ key, contents shared key = replayLog kind shared.log key
  effective : Effective kind shared.log
  logged : ∀ effect ∈ shared.log, effect.call < shared.calls
  answered : ∀ returned ∈ shared.returned, returned.call.id < shared.calls ∧
    returned.finished ≤ shared.log.length ∧ Answered kind shared.log returned

/-- What a thread knows of the call that it runs. -/
structure Mine (shared : Shared Key Value Thread) (thread : Thread) (call : Call Key Value) :
    Prop where
  caller : shared.caller call.id = some thread
  begun : call.id < shared.calls
  started : call.started ≤ shared.log.length
  pending : ∀ returned ∈ shared.returned, returned.call.id ≠ call.id

def AddAsserts (shared : Shared Key Value Thread) (call : Call Key Value) : AddPc → Prop
  | .enterMap | .get | .recurse _ => Never shared.log call
  | .put => Never shared.log call ∧ shared.map call.key = none
  | .isEmptyInMap coll => Never shared.log call ∧ shared.map call.key = some coll
  | .enterCollInMap coll | .addInMap coll =>
      Never shared.log call ∧ shared.map call.key = some coll ∧ shared.collections coll = []
  | .exitMap coll | .enterColl coll | .isEmpty coll =>
      Never shared.log call ∧ shared.keyOf coll = some call.key
  | .add coll =>
      Never shared.log call ∧ shared.keyOf coll = some call.key ∧ shared.collections coll ≠ []
  | .exitCollInMap _ | .returnFromMap _ | .returnFromColl _ =>
      Once shared.log call .added shared.log.length

/-- What the removal has done, with its result. -/
def Removed (kind : Kind) (shared : Shared Key Value Thread) (call : Call Key Value) :
    Bool → Prop
  | true => Once shared.log call .removed shared.log.length
  | false => Never shared.log call ∧ Absent kind shared.log call shared.log.length

def RemoveAsserts (kind : Kind) (shared : Shared Key Value Thread) (call : Call Key Value) :
    RemovePc → Prop
  | .enterMap | .get => Never shared.log call
  | .returnAbsent => Removed kind shared call false
  | .exitMap coll | .enterColl coll | .remove coll =>
      Never shared.log call ∧ shared.keyOf coll = some call.key ∧
        (shared.map call.key = some coll ∨ Absent kind shared.log call shared.log.length)
  | .getAgain coll result => Removed kind shared call result ∧ shared.collections coll = []
  | .removeKey _ result => Removed kind shared call result ∧ contents shared call.key = []
  | .exitColl _ result | .isEmpty _ result | .enterMapAgain _ result | .enterCollAgain _ result
  | .isEmptyAgain _ result | .exitCollAgain _ result | .exitMapAgain result =>
      Removed kind shared call result

def Asserts (kind : Kind) (shared : Shared Key Value Thread) (thread : Thread) :
    Pc Key Value → Prop
  | .idle => True
  | .add call pc => Mine shared thread call ∧ AddAsserts shared call pc
  | .remove call pc => Mine shared thread call ∧ RemoveAsserts kind shared call pc

/-- What a step of a thread leaves to the others. The map is its own inside the map's monitor,
and so are the empty collections; a collection's elements are its own inside that
collection's. A key leaves the map only when nothing is under it. -/
structure Leaves (thread : Thread) (before after : Shared Key Value Thread) : Prop where
  map : before.mapMonitor ≠ some thread → after.map = before.map ∧
    ∀ coll, before.collections coll = [] → after.collections coll = []
  collections : ∀ coll, before.collMonitor coll ≠ some thread →
    after.collections coll = before.collections coll
  keyOf : ∀ coll key, before.keyOf coll = some key → after.keyOf coll = some key
  unmapped : ∀ key coll, before.map key = some coll →
    after.map key = some coll ∨ contents before key = []
  log : ∃ effects, after.log = before.log ++ effects ∧
    ∀ effect ∈ effects, before.caller effect.call = some thread
  returned : ∀ returned ∈ after.returned, returned ∈ before.returned ∨
    before.caller returned.call.id = some thread
  caller : ∀ id, id < before.calls → after.caller id = before.caller id
  calls : before.calls ≤ after.calls

section Interference
variable {kind : Kind} {thread other : Thread} {before after : Shared Key Value Thread}
  {call : Call Key Value}

omit [DecidableEq Key] [DecidableEq Value] in
/-- The effects of a step are not those of another thread's call. -/
theorem Leaves.log_of_other (leaves : Leaves thread before after) (different : other ≠ thread)
    (mine : Mine before other call) :
    ∃ effects, after.log = before.log ++ effects ∧ ∀ effect ∈ effects, effect.call ≠ call.id := by
  obtain ⟨effects, log, callers⟩ := leaves.log
  refine ⟨effects, log, fun effect member same => different ?_⟩
  have theirs := callers effect member
  rw [same, mine.caller] at theirs
  exact Option.some.inj theirs

omit [DecidableEq Key] [DecidableEq Value] in
theorem Mine.spared (mine : Mine before other call) (leaves : Leaves thread before after)
    (different : other ≠ thread) : Mine after other call where
  caller := (leaves.caller _ mine.begun).trans mine.caller
  begun := Nat.lt_of_lt_of_le mine.begun leaves.calls
  started := by
    obtain ⟨effects, log, -⟩ := leaves.log
    rw [log, List.length_append]
    exact Nat.le_add_right_of_le mine.started
  pending := by
    intro returned member same
    rcases leaves.returned returned member with earlier | theirs
    · exact mine.pending returned earlier same
    · rw [same, mine.caller] at theirs
      exact different (Option.some.inj theirs)

omit [DecidableEq Key] [DecidableEq Value] in
theorem Never.spared (never : Never before.log call) (leaves : Leaves thread before after)
    (different : other ≠ thread) (mine : Mine before other call) : Never after.log call := by
  obtain ⟨effects, log, others⟩ := leaves.log_of_other different mine
  exact log ▸ never.append others

omit [DecidableEq Key] [DecidableEq Value] in
theorem Once.spared {change : Change} (once : Once before.log call change before.log.length)
    (leaves : Leaves thread before after) (different : other ≠ thread)
    (mine : Mine before other call) : Once after.log call change after.log.length := by
  obtain ⟨effects, log, others⟩ := leaves.log_of_other different mine
  rw [log]
  exact once.append others (by simp)

theorem Absent.spared (absent : Absent kind before.log call before.log.length)
    (leaves : Leaves thread before after) : Absent kind after.log call after.log.length := by
  obtain ⟨effects, log, -⟩ := leaves.log
  rw [log]
  exact absent.append (Nat.le_refl _) (by simp)

theorem Removed.spared {result : Bool} (removed : Removed kind before call result)
    (leaves : Leaves thread before after) (different : other ≠ thread)
    (mine : Mine before other call) : Removed kind after call result := by
  cases result with
  | true => exact Once.spared removed leaves different mine
  | false => exact ⟨removed.1.spared leaves different mine, removed.2.spared leaves⟩

omit [DecidableEq Key] [DecidableEq Value] in
theorem contents_of_map {shared : Shared Key Value Thread} {key : Key} {coll : Nat}
    (mapped : shared.map key = some coll) : contents shared key = shared.collections coll := by
  rw [contents, mapped]

omit [DecidableEq Key] [DecidableEq Value] in
theorem contents_of_none {shared : Shared Key Value Thread} {key : Key}
    (unmapped : shared.map key = none) : contents shared key = [] := by
  rw [contents, unmapped]

omit [DecidableEq Key] [DecidableEq Value] in
theorem contents_spared (leaves : Leaves thread before after)
    (outside : before.mapMonitor ≠ some thread) {key : Key} (empty : contents before key = []) :
    contents after key = [] := by
  obtain ⟨same, empties⟩ := leaves.map outside
  cases mapped : before.map key with
  | none => exact contents_of_none (same ▸ mapped)
  | some coll =>
    rw [contents_of_map (same ▸ mapped)]
    exact empties coll (contents_of_map mapped ▸ empty)

omit [DecidableEq Key] [DecidableEq Value] in
theorem AddAsserts.spared {pc : AddPc} (asserts : AddAsserts before call pc)
    (leaves : Leaves thread before after) (different : other ≠ thread)
    (mine : Mine before other call)
    (in_map : (Pc.add call pc).inMap = true → before.mapMonitor ≠ some thread)
    (in_coll : ∀ c, (Pc.add call pc).inColl c = true → before.collMonitor c ≠ some thread) :
    AddAsserts after call pc := by
  cases pc with
  | enterMap | get | recurse coll => exact Never.spared asserts leaves different mine
  | put =>
    obtain ⟨never, unmapped⟩ := asserts
    obtain ⟨same, -⟩ := leaves.map (in_map rfl)
    exact ⟨never.spared leaves different mine, same ▸ unmapped⟩
  | isEmptyInMap coll =>
    obtain ⟨never, mapped⟩ := asserts
    obtain ⟨same, -⟩ := leaves.map (in_map rfl)
    exact ⟨never.spared leaves different mine, same ▸ mapped⟩
  | enterCollInMap coll | addInMap coll =>
    obtain ⟨never, mapped, empty⟩ := asserts
    obtain ⟨same, empties⟩ := leaves.map (in_map rfl)
    exact ⟨never.spared leaves different mine, same ▸ mapped, empties coll empty⟩
  | exitMap coll | enterColl coll | isEmpty coll =>
    obtain ⟨never, made⟩ := asserts
    exact ⟨never.spared leaves different mine, leaves.keyOf coll _ made⟩
  | add coll =>
    obtain ⟨never, made, filled⟩ := asserts
    have same := leaves.collections coll (in_coll coll (beq_self_eq_true coll))
    exact ⟨never.spared leaves different mine, leaves.keyOf coll _ made, same ▸ filled⟩
  | exitCollInMap coll | returnFromMap coll | returnFromColl coll =>
    exact Once.spared asserts leaves different mine

theorem RemoveAsserts.spared {pc : RemovePc} (asserts : RemoveAsserts kind before call pc)
    (sound : Sound kind before) (leaves : Leaves thread before after) (different : other ≠ thread)
    (mine : Mine before other call)
    (in_map : (Pc.remove call pc).inMap = true → before.mapMonitor ≠ some thread) :
    RemoveAsserts kind after call pc := by
  cases pc with
  | enterMap | get => exact Never.spared asserts leaves different mine
  | returnAbsent =>
    have removed : Removed kind before call false := asserts
    exact removed.spared leaves different mine
  | exitMap coll | enterColl coll | remove coll =>
    obtain ⟨never, made, there⟩ := asserts
    refine ⟨never.spared leaves different mine, leaves.keyOf coll _ made, ?_⟩
    rcases there with mapped | absent
    · rcases leaves.unmapped _ _ mapped with still | empty
      · exact Or.inl still
      · -- The collection is dropped: at that moment nothing is under the key.
        have missing : call.value ∉ replayLog kind before.log call.key := by
          rw [← sound.replayed, empty]
          exact List.not_mem_nil
        exact Or.inr ((absent_now mine.started missing).spared leaves)
    · exact Or.inr (absent.spared leaves)
  | getAgain coll result =>
    obtain ⟨removed, empty⟩ := asserts
    obtain ⟨-, empties⟩ := leaves.map (in_map rfl)
    exact ⟨removed.spared leaves different mine, empties coll empty⟩
  | removeKey coll result =>
    obtain ⟨removed, empty⟩ := asserts
    exact ⟨removed.spared leaves different mine, contents_spared leaves (in_map rfl) empty⟩
  | exitColl coll result | isEmpty coll result | enterMapAgain coll result
  | enterCollAgain coll result | isEmptyAgain coll result | exitCollAgain coll result
  | exitMapAgain result =>
    exact Removed.spared asserts leaves different mine

theorem Asserts.spared {pc : Pc Key Value} (asserts : Asserts kind before other pc)
    (sound : Sound kind before) (leaves : Leaves thread before after) (different : other ≠ thread)
    (in_map : pc.inMap = true → before.mapMonitor ≠ some thread)
    (in_coll : ∀ c, pc.inColl c = true → before.collMonitor c ≠ some thread) :
    Asserts kind after other pc := by
  cases pc with
  | idle => trivial
  | add call pc =>
    obtain ⟨mine, at_pc⟩ := asserts
    exact ⟨mine.spared leaves different, at_pc.spared leaves different mine in_map in_coll⟩
  | remove call pc =>
    obtain ⟨mine, at_pc⟩ := asserts
    exact ⟨mine.spared leaves different, at_pc.spared sound leaves different mine in_map⟩

end Interference
section Primitives
variable {kind : Kind} {thread : Thread} {shared : Shared Key Value Thread}
  {call : Call Key Value} {key : Key} {coll : Nat}

theorem Sound.monitors (sound : Sound kind shared) (mapMonitor : Option Thread)
    (collMonitor : Nat → Option Thread) :
    Sound kind { shared with mapMonitor := mapMonitor, collMonitor := collMonitor } :=
  ⟨sound.mapped, sound.filled, sound.fresh, sound.replayed, sound.effective, sound.logged, sound.answered⟩

omit [DecidableEq Key] [DecidableEq Value] in
theorem leaves_monitors (shared : Shared Key Value Thread) (mapMonitor : Option Thread)
    (collMonitor : Nat → Option Thread) :
    Leaves thread shared { shared with mapMonitor := mapMonitor, collMonitor := collMonitor } :=
  ⟨fun _ => ⟨rfl, fun _ empty => empty⟩, fun _ _ => rfl, fun _ _ made => made,
    fun _ _ mapped => Or.inl mapped, ⟨[], (List.append_nil _).symm, by simp⟩,
    fun _ member => Or.inl member, fun _ _ => rfl, Nat.le_refl _⟩

/-- No collection is under two keys. -/
theorem Sound.unique (sound : Sound kind shared) {other : Key}
    (mapped : shared.map key = some coll) (same : shared.map other = some coll) : other = key :=
  Option.some.inj ((sound.mapped other coll same).symm.trans (sound.mapped key coll mapped))

theorem Sound.put (sound : Sound kind shared) (unmapped : shared.map key = none) :
    Sound kind (shared.put key) := by
  have unmade := sound.fresh shared.created (Nat.le_refl _)
  have empty : shared.collections shared.created = [] := by
    by_contra filled
    obtain ⟨other, made, -⟩ := sound.filled _ filled
    rw [unmade] at made
    cases made
  have old : ∀ {c other}, shared.keyOf c = some other → c ≠ shared.created := by
    rintro c other made rfl
    rw [unmade] at made
    cases made
  refine ⟨fun other c mapped => ?_, fun c filled => ?_, fun c above => ?_, fun other => ?_,
    sound.effective, sound.logged, sound.answered⟩
  · dsimp only [Shared.put] at mapped ⊢
    by_cases here : other = key
    · subst other
      rw [Function.update_self] at mapped
      cases mapped
      exact Function.update_self ..
    · rw [Function.update_of_ne here] at mapped
      have made := sound.mapped other c mapped
      rw [Function.update_of_ne (old made)]
      exact made
  · obtain ⟨other, made, mapped⟩ := sound.filled c filled
    have different : other ≠ key := by
      rintro rfl
      rw [unmapped] at mapped
      cases mapped
    refine ⟨other, ?_, ?_⟩
    · exact (Function.update_of_ne (old made) ..).trans made
    · exact (Function.update_of_ne different ..).trans mapped
  · have above : shared.created + 1 ≤ c := above
    have different : c ≠ shared.created := by omega
    exact (Function.update_of_ne different ..).trans (sound.fresh c (by omega))
  · rw [← show replayLog kind shared.log other = replayLog kind (shared.put key).log other from rfl,
      ← sound.replayed]
    by_cases here : other = key
    · subst other
      have mapped : (shared.put key).map key = some shared.created := Function.update_self ..
      rw [contents_of_none unmapped, contents_of_map mapped]
      exact empty
    · have same : (shared.put key).map other = shared.map other := Function.update_of_ne here ..
      rw [contents, same]
      rfl

omit [DecidableEq Value] in
theorem leaves_put (unmapped : shared.map key = none) (unmade : shared.keyOf shared.created = none)
    (inside : shared.mapMonitor = some thread) : Leaves thread shared (shared.put key) where
  map outside := absurd inside outside
  collections _ _ := rfl
  keyOf c other made := by
    have different : c ≠ shared.created := by
      rintro rfl
      rw [unmade] at made
      cases made
    exact (Function.update_of_ne different ..).trans made
  unmapped other c mapped := by
    have different : other ≠ key := by
      rintro rfl
      rw [unmapped] at mapped
      cases mapped
    exact Or.inl ((Function.update_of_ne different ..).trans mapped)
  log := ⟨[], (List.append_nil _).symm, by simp⟩
  returned _ member := Or.inl member
  caller _ _ := rfl
  calls := Nat.le_refl _

omit [DecidableEq Key] [DecidableEq Value] in
theorem contents_write {c : Nat} (mapped : shared.map key = some c) (elements : List Value)
    (effect : Effect Key Value) : contents (shared.write coll elements effect) key =
      Function.update shared.collections coll elements c := by
  have same : (shared.write coll elements effect).map key = some c := mapped
  rw [contents, same]
  rfl

/-- The elements of a collection that is under its key change as the log says. -/
theorem Sound.write (sound : Sound kind shared) (mine : Mine shared thread call)
    (mapped : shared.map call.key = some coll) {elements : List Value} {change : Change}
    (logs : replayLog kind (shared.log ++ [⟨call.id, change, call.key, call.value⟩]) =
      Function.update (replayLog kind shared.log) call.key elements)
    (removes : change = .removed → call.value ∈ shared.collections coll) :
    Sound kind (shared.write coll elements ⟨call.id, change, call.key, call.value⟩) where
  mapped := sound.mapped
  filled c filled := by
    by_cases here : c = coll
    · subst c
      exact ⟨call.key, sound.mapped _ _ mapped, mapped⟩
    · have same := Function.update_of_ne (β := fun _ => List Value) here elements shared.collections
      exact sound.filled c fun empty => filled (same.trans empty)
  fresh := sound.fresh
  replayed other := by
    refine Eq.trans ?_ (congrFun logs other).symm
    by_cases here : other = call.key
    · subst other
      rw [contents_write mapped, Function.update_self, Function.update_self]
    · rw [Function.update_of_ne here, ← sound.replayed]
      cases theirs : shared.map other with
      | none =>
        rw [contents_of_none theirs]
        exact contents_of_none theirs
      | some c =>
        have different : c ≠ coll := by
          rintro rfl
          exact here (sound.unique mapped theirs)
        rw [contents_of_map theirs, contents_write theirs, Function.update_of_ne different]
  effective := sound.effective.concat fun removed => by
    rw [← sound.replayed, contents_of_map mapped]
    exact removes removed
  logged effect member := by
    rcases List.mem_append.mp member with before | new
    · exact sound.logged effect before
    · rw [List.mem_singleton.mp new]
      exact mine.begun
  answered returned member := by
    obtain ⟨begun, in_log, answered⟩ := sound.answered returned member
    refine ⟨begun, by simp only [Shared.write, List.length_append]; omega, ?_⟩
    refine answered.append ?_ in_log
    rintro effect new same
    rw [List.mem_singleton.mp new] at same
    exact mine.pending returned member same.symm

omit [DecidableEq Key] [DecidableEq Value] in
theorem leaves_write (mine : Mine shared thread call)
    (inside : shared.collMonitor coll = some thread)
    (guarded : shared.mapMonitor ≠ some thread → shared.collections coll ≠ [])
    (elements : List Value) (change : Change) :
    Leaves thread shared (shared.write coll elements ⟨call.id, change, call.key, call.value⟩) where
  map outside := ⟨rfl, fun c empty => by
    have different : c ≠ coll := fun same => guarded outside (same ▸ empty)
    exact (Function.update_of_ne different ..).trans empty⟩
  collections c outside := by
    have different : c ≠ coll := fun same => outside (same ▸ inside)
    exact Function.update_of_ne different ..
  keyOf _ _ made := made
  unmapped _ _ mapped := Or.inl mapped
  log := ⟨_, rfl, fun effect member => by
    rw [List.mem_singleton.mp member]
    exact mine.caller⟩
  returned _ member := Or.inl member
  caller _ _ := rfl
  calls := Nat.le_refl _

theorem Sound.removeKey (sound : Sound kind shared) (empty : contents shared key = []) :
    Sound kind (shared.removeKey key) where
  mapped other c mapped := by
    by_cases here : other = key
    · subst other
      exact absurd ((Function.update_self ..).symm.trans mapped) (by simp)
    · exact sound.mapped other c ((Function.update_of_ne here ..).symm.trans mapped)
  filled c filled := by
    obtain ⟨other, made, mapped⟩ := sound.filled c filled
    have different : other ≠ key := by
      rintro rfl
      exact filled (contents_of_map mapped ▸ empty)
    exact ⟨other, made, (Function.update_of_ne different ..).trans mapped⟩
  fresh := sound.fresh
  replayed other := by
    refine Eq.trans ?_ (sound.replayed other)
    by_cases here : other = key
    · subst other
      rw [empty, contents_of_none]
      exact Function.update_self ..
    · have same : (shared.removeKey key).map other = shared.map other :=
        Function.update_of_ne here ..
      rw [contents, same]
      rfl
  effective := sound.effective
  logged := sound.logged
  answered := sound.answered

omit [DecidableEq Value] in
theorem leaves_removeKey (empty : contents shared key = [])
    (inside : shared.mapMonitor = some thread) : Leaves thread shared (shared.removeKey key) where
  map outside := absurd inside outside
  collections _ _ := rfl
  keyOf _ _ made := made
  unmapped other c mapped := by
    by_cases here : other = key
    · exact Or.inr (here ▸ empty)
    · exact Or.inl ((Function.update_of_ne here ..).trans mapped)
  log := ⟨[], (List.append_nil _).symm, by simp⟩
  returned _ member := Or.inl member
  caller _ _ := rfl
  calls := Nat.le_refl _

theorem Sound.finish (sound : Sound kind shared) (mine : Mine shared thread call)
    {outcome : Outcome} (answered : Answered kind shared.log ⟨call, outcome, shared.log.length⟩) :
    Sound kind (shared.finish call outcome) := by
  refine ⟨sound.mapped, sound.filled, sound.fresh, sound.replayed, sound.effective, sound.logged, ?_⟩
  intro returned member
  rcases List.mem_append.mp member with before | new
  · exact sound.answered returned before
  · rw [List.mem_singleton.mp new]
    exact ⟨mine.begun, Nat.le_refl _, answered⟩

omit [DecidableEq Key] [DecidableEq Value] in
theorem leaves_finish (mine : Mine shared thread call) (outcome : Outcome) :
    Leaves thread shared (shared.finish call outcome) :=
  ⟨fun _ => ⟨rfl, fun _ empty => empty⟩, fun _ _ => rfl, fun _ _ made => made,
    fun _ _ mapped => Or.inl mapped, ⟨[], (List.append_nil _).symm, by simp⟩,
    fun _ member => (List.mem_append.mp member).imp id fun new => by
      rw [List.mem_singleton.mp new]
      exact mine.caller,
    fun _ _ => rfl, Nat.le_refl _⟩

end Primitives
end Invariant
end Brooklyn.MapOfCollections
