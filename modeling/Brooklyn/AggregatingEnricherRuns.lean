import Brooklyn.AggregatingEnricherViews

/-!
The runs of an aggregating enricher. Each step is a change of the view of each producer, so the
invariant of the views holds in every run whose steps are orderly, and where nothing is in
progress it says that the values are those of the members.
-/

namespace Brooklyn.AbstractAggregatingEnricher
open Transition Mailbox

variable {Entity Value : Type} [DecidableEq Entity] {enricher : Enricher Entity Value}
  {state : State Entity Value}

section Views

def letter (producer : Entity) : Event Entity Value → Option (Mail Value)
  | .memberAdded member => if member = producer then some .added else none
  | .memberRemoved member => if member = producer then some .removed else none
  | .updated source value => if source = producer then some (.updated value) else none

def handling (producer : Entity) : Handler Entity → Option Handling
  | .addProducer other => if other = producer then some .adding else none
  | .removeProducer other => if other = producer then some .removing else none

def SetEntity.stage (producer : Entity) : SetEntity Entity → Stage
  | .beginning => .beginning
  | .subscribedToAdded => .subscribedToAdded
  | .subscribedToRemoved => .subscribedToRemoved
  | .scanning rest => if producer ∈ rest then .ahead else .behind
  | .addProducer other rest =>
      if other = producer then .adding else if producer ∈ rest then .ahead else .behind

def viewOf (enricher : Enricher Entity Value) (state : State Entity Value) (producer : Entity) :
    View Value where
  stage := state.setEntity.stage producer
  member := decide (producer ∈ state.members)
  current := current enricher state producer
  updating := !(state.publishing producer).isEmpty
  mail := state.inFlight.filterMap (letter producer)
  delivering := state.delivering.bind (handling producer)
  value := state.values.get producer

theorem stage_beginning_iff (producer : Entity) (setEntity : SetEntity Entity) :
    setEntity.stage producer = .beginning ↔ setEntity = .beginning := by
  cases setEntity with
  | beginning => simp [SetEntity.stage]
  | subscribedToAdded => simp [SetEntity.stage]
  | subscribedToRemoved => simp [SetEntity.stage]
  | scanning rest =>
    rw [SetEntity.stage]
    split_ifs <;> simp
  | addProducer other rest =>
    rw [SetEntity.stage]
    split_ifs <;> simp

theorem stage_window_iff (producer : Entity) (setEntity : SetEntity Entity) :
    setEntity.stage producer = .subscribedToAdded ↔ setEntity = .subscribedToAdded := by
  cases setEntity with
  | beginning => simp [SetEntity.stage]
  | subscribedToAdded => simp [SetEntity.stage]
  | subscribedToRemoved => simp [SetEntity.stage]
  | scanning rest =>
    rw [SetEntity.stage]
    split_ifs <;> simp
  | addProducer other rest =>
    rw [SetEntity.stage]
    split_ifs <;> simp

theorem added_mem_iff (producer : Entity) (inFlight : List (Event Entity Value)) :
    .added ∈ inFlight.filterMap (letter producer) ↔ .memberAdded producer ∈ inFlight := by
  rw [List.mem_filterMap]
  constructor
  · rintro ⟨event, there, is⟩
    cases event with
    | memberAdded member =>
      rw [letter] at is
      split at is
      · next same => exact same ▸ there
      · cases is
    | memberRemoved member =>
      rw [letter] at is
      split at is <;> cases is
    | updated source value =>
      rw [letter] at is
      split at is <;> cases is
  · exact fun there => ⟨_, there, if_pos rfl⟩

theorem removed_mem_iff (producer : Entity) (inFlight : List (Event Entity Value)) :
    .removed ∈ inFlight.filterMap (letter producer) ↔ .memberRemoved producer ∈ inFlight := by
  rw [List.mem_filterMap]
  constructor
  · rintro ⟨event, there, is⟩
    cases event with
    | memberAdded member =>
      rw [letter] at is
      split at is <;> cases is
    | memberRemoved member =>
      rw [letter] at is
      split at is
      · next same => exact same ▸ there
      · cases is
    | updated source value =>
      rw [letter] at is
      split at is <;> cases is
  · exact fun there => ⟨_, there, if_pos rfl⟩

theorem handling_add (producer : Entity) :
    handling producer (.addProducer producer) = some .adding := if_pos rfl

theorem handling_remove (producer : Entity) :
    handling producer (.removeProducer producer) = some .removing := if_pos rfl

theorem adding_iff (producer : Entity) (delivering : Option (Handler Entity)) :
    delivering.bind (handling producer) = some .adding ↔
      delivering = some (.addProducer producer) := by
  cases delivering with
  | none => simp
  | some handler =>
    cases handler with
    | addProducer other => simp [handling]
    | removeProducer other => simp [handling]

theorem removing_iff (producer : Entity) (delivering : Option (Handler Entity)) :
    delivering.bind (handling producer) = some .removing ↔
      delivering = some (.removeProducer producer) := by
  cases delivering with
  | none => simp
  | some handler =>
    cases handler with
    | addProducer other => simp [handling]
    | removeProducer other => simp [handling]

theorem any_corrects (producer : Entity) (inFlight : List (Event Entity Value)) :
    (inFlight.filterMap (letter producer)).any Mail.corrects =
      inFlight.any (corrects producer) := by
  induction inFlight with
  | nil => rfl
  | cons event rest ih =>
    rw [List.any_cons, ← ih]
    cases event with
    | memberAdded member =>
      by_cases same : member = producer <;>
        simp [letter, same, corrects, Mail.corrects]
    | memberRemoved member =>
      by_cases same : member = producer <;>
        simp [letter, same, corrects, Mail.corrects]
    | updated source value =>
      by_cases same : source = producer <;>
        simp [letter, same, corrects, Mail.corrects]

variable (enricher) in
theorem corrected_iff (rest : List (Event Entity Value)) (producer : Entity) :
    corrected state rest producer = true ↔
      View.Corrected { viewOf enricher state producer with
        mail := rest.filterMap (letter producer) } := by
  rw [corrected, Bool.or_eq_true, Bool.or_eq_true, decide_eq_true_iff, or_assoc]
  unfold View.Corrected
  dsimp only [viewOf]
  rw [any_corrects, removing_iff]

/-- The views where nothing of the producer changes. -/
theorem Right.elsewhere {before after : State Entity Value} {producer : Entity}
    (right : Right (viewOf enricher before producer))
    (stage : after.setEntity.stage producer = before.setEntity.stage producer)
    (member : producer ∈ after.members ↔ producer ∈ before.members)
    (sensorValue : after.sensorValue producer = before.sensorValue producer)
    (publishing : after.publishing producer = before.publishing producer)
    (mail : after.inFlight.filterMap (letter producer) =
      before.inFlight.filterMap (letter producer))
    (delivering : after.delivering.bind (handling producer) =
      before.delivering.bind (handling producer))
    (value : after.values.get producer = before.values.get producer) :
    Right (viewOf enricher after producer) := by
  have same : viewOf enricher after producer = viewOf enricher before producer := by
    simp only [viewOf, stage, member, publishing, mail, delivering, value, current, sensorValue]
  exact same ▸ right

variable (enricher state) in
theorem viewOf_initialValue (producer : Entity) :
    viewOf enricher (initialValue enricher producer state) producer =
      (viewOf enricher state producer).initial := by
  have value : (viewOf enricher state producer).value = state.values.get producer := rfl
  unfold initialValue View.initial
  rw [value]
  by_cases absent : (state.values.get producer).join.isNone = true
  · rw [if_pos absent, if_pos absent]
    simp [viewOf, current]
  · rw [if_neg absent, if_neg absent]

theorem initialValue_elsewhere {producer other : Entity} (apart : producer ≠ other) :
    (initialValue enricher other state).values.get producer = state.values.get producer := by
  unfold initialValue
  split
  · exact (LinkedMap.get_put ..).trans (if_neg apart)
  · rfl

/-- What `initialValue` leaves. -/
theorem initialValue_same (producer : Entity) :
    initialValue enricher producer state =
      { state with values := (initialValue enricher producer state).values } := by
  unfold initialValue
  split <;> rfl

end Views

/-- The enricher hears of the group since it has subscribed, nothing is done for who is not
accepted, and each view of who is accepted is right. -/
structure Sound (enricher : Enricher Entity Value) (state : State Entity Value) : Prop where
  hearsAdded : state.hearsAdded = decide (state.setEntity ≠ .beginning)
  hearsRemoved : state.hearsRemoved =
    decide (state.setEntity ≠ .beginning ∧ state.setEntity ≠ .subscribedToAdded)
  outside : .memberRemoved enricher.entity ∉ state.inFlight
  refused : ∀ producer, enricher.filter producer = false → state.values.get producer = none ∧
    state.delivering ≠ some (.addProducer producer) ∧
      ∀ rest, state.setEntity ≠ .addProducer producer rest
  right : ∀ producer, enricher.filter producer = true → Right (viewOf enricher state producer)

section Steps

theorem Sound.join (sound : Sound enricher state) (member : Entity) :
    Sound enricher { state with
      members := state.members.add member
      inFlight :=
        if state.hearsAdded then state.inFlight ++ [.memberAdded member]
        else state.inFlight } := by
  refine ⟨sound.hearsAdded, sound.hearsRemoved, ?_, sound.refused, fun producer accepted => ?_⟩
  · dsimp only
    split
    · simpa using sound.outside
    · exact sound.outside
  have right := sound.right producer accepted
  by_cases same : producer = member
  · subst same
    convert right.join using 1
    simp only [viewOf, LinkedSet.mem_add, or_true, decide_true, stage_beginning_iff,
      sound.hearsAdded, View.mk.injEq, true_and, and_true]
    refine ⟨rfl, ?_⟩
    by_cases begins : state.setEntity = .beginning
    · simp [begins]
    · simp [begins, letter]
  · refine right.elsewhere rfl (by simp [same]) rfl rfl ?_ rfl rfl
    dsimp only
    split
    · simp [letter, Ne.symm same]
    · rfl

theorem Sound.leave (sound : Sound enricher state) {member : Entity}
    (apart : member ≠ enricher.entity)
    (quiet : enricher.filter member = true → state.setEntity = .subscribedToAdded →
      .memberAdded member ∉ state.inFlight ∧ state.delivering ≠ some (.addProducer member) ∧
        state.values.get member = none) :
    Sound enricher { state with
      members := state.members.remove member
      inFlight :=
        if state.hearsRemoved then state.inFlight ++ [.memberRemoved member]
        else state.inFlight } := by
  refine ⟨sound.hearsAdded, sound.hearsRemoved, ?_, sound.refused, fun producer accepted => ?_⟩
  · dsimp only
    split
    · simpa [Ne.symm apart] using sound.outside
    · exact sound.outside
  have right := sound.right producer accepted
  by_cases same : producer = member
  · subst same
    convert right.leave ?_ using 1
    · simp only [viewOf, LinkedSet.mem_remove, ne_eq, not_true, and_false, decide_false,
        stage_beginning_iff, stage_window_iff, sound.hearsRemoved, View.mk.injEq, true_and,
        and_true]
      refine ⟨rfl, ?_⟩
      by_cases early : state.setEntity = .beginning ∨ state.setEntity = .subscribedToAdded
      · rw [if_pos early, if_neg (by simpa [or_iff_not_imp_left] using early)]
      · obtain ⟨begun, heard⟩ := not_or.mp early
        simp [begun, heard, letter]
    · intro window
      obtain ⟨unheard, idle, absent⟩ := quiet accepted ((stage_window_iff ..).mp window)
      exact ⟨(added_mem_iff ..).not.mpr unheard, (adding_iff ..).not.mpr idle, absent⟩
  · refine right.elsewhere rfl (by simp [same]) rfl rfl ?_ rfl rfl
    dsimp only
    split
    · simp [letter, Ne.symm same]
    · rfl

theorem Sound.put (sound : Sound enricher state) (producer : Entity) (value : Value) :
    Sound enricher { state with
      sensorValue := Function.update state.sensorValue producer (some value)
      publishing :=
        Function.update state.publishing producer (state.publishing producer ++ [value]) } := by
  refine ⟨sound.hearsAdded, sound.hearsRemoved, sound.outside, sound.refused,
    fun other accepted => ?_⟩
  have right := sound.right other accepted
  by_cases same : other = producer
  · subst same
    convert right.put (some value) using 1
    simp [viewOf, current]
  · exact right.elsewhere rfl Iff.rfl (Function.update_of_ne same ..)
      (Function.update_of_ne same ..) rfl rfl rfl

theorem Sound.publish (sound : Sound enricher state) {producer : Entity} {which : Nat}
    {value : Value}
    (may : 0 < state.subscriptions producer ∨
      (∀ old, state.values.get producer = some old → old = current enricher state producer) ∨
      corrected { state with
        publishing := Function.update state.publishing producer
          ((state.publishing producer).eraseIdx which) } state.inFlight producer = true) :
    Sound enricher { state with
      publishing := Function.update state.publishing producer
        ((state.publishing producer).eraseIdx which)
      inFlight := state.inFlight ++
        List.replicate (state.subscriptions producer) (.updated producer value) } := by
  refine ⟨sound.hearsAdded, sound.hearsRemoved, ?_, sound.refused, fun other accepted => ?_⟩
  · simpa [List.mem_replicate] using sound.outside
  have right := sound.right other accepted
  by_cases same : other = producer
  · subst same
    have published : Right { viewOf enricher state other with
        updating := !((state.publishing other).eraseIdx which).isEmpty
        mail := (viewOf enricher state other).mail ++
          List.replicate (state.subscriptions other) (.updated value) } := by
      refine right.publish (may.imp_right (Or.imp_right fun still => ?_))
      have corrected := (corrected_iff enricher _ _).mp still
      simpa [viewOf, View.Corrected] using corrected
    convert published using 1
    simp [viewOf, current, letter]
  · refine right.elsewhere rfl Iff.rfl rfl (Function.update_of_ne same ..) ?_ rfl rfl
    have silent : (List.replicate (state.subscriptions producer)
        (Event.updated producer value)).filterMap (letter other) = [] := by
      rw [List.filterMap_eq_nil_iff]
      intro event there
      rw [(List.mem_replicate.mp there).2, letter, if_neg (Ne.symm same)]
    dsimp only
    rw [List.filterMap_append, silent, List.append_nil]

section Deliver
variable {rest : List (Event Entity Value)}

theorem Sound.deliverAdded (sound : Sound enricher state) {member : Entity}
    (inFlight : state.inFlight = .memberAdded member :: rest) (idle : state.delivering = none) :
    Sound enricher (deliver enricher { state with inFlight := rest } (.memberAdded member)) := by
  have outside : .memberRemoved enricher.entity ∉ rest := fun there =>
    sound.outside (inFlight ▸ List.mem_cons_of_mem _ there)
  unfold deliver
  dsimp only
  by_cases filtered : enricher.filter member = true
  · rw [if_pos filtered]
    refine ⟨sound.hearsAdded, sound.hearsRemoved, outside, fun producer refused => ?_,
      fun producer accepted => ?_⟩
    · obtain ⟨absent, -, unscanned⟩ := sound.refused producer refused
      refine ⟨absent, fun is => ?_, unscanned⟩
      cases is
      rw [filtered] at refused
      cases refused
    · have right := sound.right producer accepted
      by_cases same : member = producer
      · subst same
        have mail : (viewOf enricher state member).mail =
            .added :: rest.filterMap (letter member) := by
          simp [viewOf, inFlight, letter]
        have added := right.deliverAdded mail (by simp [viewOf, idle])
        rw [← handling_add member] at added
        exact added
      · refine right.elsewhere rfl Iff.rfl rfl rfl ?_ ?_ rfl
        · simp [subscribe, inFlight, letter, same]
        · simp [idle, handling, same]
  · rw [if_neg filtered]
    refine ⟨sound.hearsAdded, sound.hearsRemoved, outside, sound.refused,
      fun producer accepted => ?_⟩
    refine (sound.right producer accepted).elsewhere rfl Iff.rfl rfl rfl ?_ rfl rfl
    have other : member ≠ producer := by
      rintro rfl
      exact filtered accepted
    simp [inFlight, letter, other]

theorem Sound.deliverRemoved (sound : Sound enricher state) {member : Entity}
    (inFlight : state.inFlight = .memberRemoved member :: rest)
    (idle : state.delivering = none) :
    Sound enricher (deliver enricher { state with inFlight := rest } (.memberRemoved member)) := by
  have apart : member ≠ enricher.entity := by
    rintro rfl
    exact sound.outside (inFlight ▸ List.mem_cons_self)
  refine ⟨?_, ?_, fun there => sound.outside (inFlight ▸ List.mem_cons_of_mem _ there),
    fun producer refused => ?_, fun producer accepted => ?_⟩
  · simpa [deliver, unsubscribe, apart] using sound.hearsAdded
  · simpa [deliver, unsubscribe, apart] using sound.hearsRemoved
  · obtain ⟨absent, -, unscanned⟩ := sound.refused producer refused
    exact ⟨absent, nofun, unscanned⟩
  have right := sound.right producer accepted
  by_cases same : member = producer
  · subst same
    have mail : (viewOf enricher state member).mail =
        .removed :: rest.filterMap (letter member) := by
      simp [viewOf, inFlight, letter]
    have removed := right.deliverRemoved mail
    rw [← handling_remove member] at removed
    exact removed
  · refine right.elsewhere rfl Iff.rfl rfl rfl ?_ ?_ rfl
    · simp [deliver, unsubscribe, inFlight, letter, same]
    · simp [deliver, idle, handling, same]

theorem Sound.deliverUpdated (sound : Sound enricher state) {source : Entity} {value : Value}
    (inFlight : state.inFlight = .updated source value :: rest)
    (may : state.values.get source = none ∨ state.sensorValue source = some value ∨
      corrected state rest source = true) :
    Sound enricher
      (deliver enricher { state with inFlight := rest } (.updated source value)) := by
  have kept : ∀ producer, (onEvent source value
      { state with inFlight := rest }).values.get producer =
        if producer = source then
          if (state.values.get producer).isSome then some (some value)
          else state.values.get producer
        else state.values.get producer := by
    intro producer
    unfold onEvent
    by_cases same : producer = source
    · subst same
      by_cases inside : (state.values.get producer).isSome = true
      · simp [inside]
      · simp [inside]
    · rw [if_neg same]
      dsimp only
      split
      · simp [same]
      · rfl
  have frame : onEvent source value { state with inFlight := rest } =
      { state with
        inFlight := rest
        values := (onEvent source value { state with inFlight := rest }).values } := by
    unfold onEvent
    split <;> rfl
  unfold deliver
  dsimp only
  rw [frame]
  refine ⟨sound.hearsAdded, sound.hearsRemoved,
    fun there => sound.outside (inFlight ▸ List.mem_cons_of_mem _ there),
    fun producer refused => ?_, fun producer accepted => ?_⟩
  · obtain ⟨absent, others⟩ := sound.refused producer refused
    refine ⟨(kept producer).trans ?_, others⟩
    simp [absent]
  have right := sound.right producer accepted
  by_cases same : producer = source
  · subst same
    have mail : (viewOf enricher state producer).mail =
        .updated value :: rest.filterMap (letter producer) := by
      simp [viewOf, inFlight, letter]
    have updated := right.deliverUpdated mail
      (may.imp_right (Or.imp (fun is => by simp [viewOf, current, is])
        (corrected_iff enricher ..).mp))
    have value_is := (kept producer).trans (if_pos rfl)
    have same_value : (viewOf enricher state producer).value = state.values.get producer := rfl
    rw [same_value, ← value_is] at updated
    exact updated
  · refine right.elsewhere rfl Iff.rfl rfl rfl ?_ rfl ?_
    · simp [inFlight, letter, Ne.symm same]
    · exact (kept producer).trans (if_neg same)

end Deliver

theorem Sound.handleAdded (sound : Sound enricher state) {producer : Entity}
    (delivering : state.delivering = some (.addProducer producer)) :
    Sound enricher (handle enricher state (.addProducer producer)) := by
  unfold handle
  dsimp only
  rw [initialValue_same]
  refine ⟨sound.hearsAdded, sound.hearsRemoved, sound.outside, fun other refused => ?_,
    fun other accepted => ?_⟩
  · obtain ⟨absent, idle, unscanned⟩ := sound.refused other refused
    have apart : other ≠ producer := by
      rintro rfl
      exact idle delivering
    exact ⟨(initialValue_elsewhere apart).trans absent, nofun, unscanned⟩
  have right := sound.right other accepted
  by_cases same : other = producer
  · subst same
    have initial := viewOf_initialValue enricher state other
    convert right.handleAdded (by simp [viewOf, delivering, handling]) using 1
    rw [← initial, initialValue_same]
    rfl
  · refine right.elsewhere rfl Iff.rfl rfl rfl rfl ?_ (initialValue_elsewhere same)
    simp [delivering, handling, Ne.symm same]

theorem Sound.handleRemoved (sound : Sound enricher state) {producer : Entity}
    (delivering : state.delivering = some (.removeProducer producer)) :
    Sound enricher (handle enricher state (.removeProducer producer)) := by
  refine ⟨sound.hearsAdded, sound.hearsRemoved, sound.outside, fun other refused => ?_,
    fun other accepted => ?_⟩
  · obtain ⟨absent, -, unscanned⟩ := sound.refused other refused
    refine ⟨?_, nofun, unscanned⟩
    simp [handle, removeValue, absent]
  have right := sound.right other accepted
  by_cases same : other = producer
  · subst same
    have removed := right.handleRemoved (by simp [viewOf, delivering, handling])
    have gone : (state.values.remove other).get other = none := by simp
    rw [← gone] at removed
    exact removed
  · refine right.elsewhere rfl Iff.rfl rfl rfl rfl ?_ ?_
    · simp [handle, delivering, handling, Ne.symm same]
    · simp [handle, removeValue, same]

theorem Sound.scanNext (sound : Sound enricher state) {member : Entity} {rest : List Entity}
    (scanning : state.setEntity = .scanning (member :: rest)) :
    Sound enricher (if enricher.filter member then
        { subscribe member state with setEntity := .addProducer member rest }
      else { state with setEntity := .scanning rest }) := by
  have hearsAdded := sound.hearsAdded
  have hearsRemoved := sound.hearsRemoved
  rw [scanning] at hearsAdded hearsRemoved
  by_cases filtered : enricher.filter member = true
  · rw [if_pos filtered]
    refine ⟨hearsAdded, hearsRemoved, sound.outside, fun producer refused => ?_,
      fun producer accepted => ?_⟩
    · obtain ⟨absent, idle, -⟩ := sound.refused producer refused
      refine ⟨absent, idle, fun others is => ?_⟩
      cases is
      rw [filtered] at refused
      cases refused
    · refine (sound.right producer accepted).restage ⟨?_, ?_⟩ fun behind => Or.inl ?_
      · exact (stage_beginning_iff ..).not.mpr nofun
      · exact (stage_window_iff ..).not.mpr nofun
      · have before : (viewOf enricher state producer).stage =
            if producer ∈ member :: rest then .ahead else .behind := by
          simp [viewOf, scanning, SetEntity.stage]
        rw [before, if_neg]
        simp only [SetEntity.stage] at behind
        split_ifs at behind with same later
        rw [List.mem_cons, not_or]
        exact ⟨Ne.symm same, later⟩
  · rw [if_neg filtered]
    refine ⟨hearsAdded, hearsRemoved, sound.outside, fun producer refused => ?_,
      fun producer accepted => ?_⟩
    · obtain ⟨absent, idle, -⟩ := sound.refused producer refused
      exact ⟨absent, idle, nofun⟩
    · refine (sound.right producer accepted).elsewhere ?_ Iff.rfl rfl rfl rfl rfl rfl
      have other : producer ≠ member := by
        rintro rfl
        exact filtered accepted
      simp [scanning, SetEntity.stage, other]

theorem Sound.scanAdd (sound : Sound enricher state) {producer : Entity} {rest : List Entity}
    (adding : state.setEntity = .addProducer producer rest)
    (there : producer ∈ state.members ∨ .memberRemoved producer ∈ state.inFlight ∨
      state.delivering = some (.removeProducer producer)) :
    Sound enricher
      { initialValue enricher producer state with setEntity := .scanning rest } := by
  have hearsAdded := sound.hearsAdded
  have hearsRemoved := sound.hearsRemoved
  rw [adding] at hearsAdded hearsRemoved
  rw [initialValue_same]
  refine ⟨hearsAdded, hearsRemoved, sound.outside, fun other refused => ?_,
    fun other accepted => ?_⟩
  · obtain ⟨absent, idle, unscanned⟩ := sound.refused other refused
    have apart : other ≠ producer := by
      rintro rfl
      exact unscanned rest adding
    exact ⟨(initialValue_elsewhere apart).trans absent, idle, nofun⟩
  have right := sound.right other accepted
  by_cases same : other = producer
  · subst same
    have initial := viewOf_initialValue enricher state other
    have late : SetEntity.stage other (.scanning rest) ≠ .beginning ∧
        SetEntity.stage other (.scanning rest) ≠ .subscribedToAdded :=
      ⟨(stage_beginning_iff ..).not.mpr nofun, (stage_window_iff ..).not.mpr nofun⟩
    have added := right.initial (Or.inr late) (Or.inl rfl) (fun starts => ?_) ?_
    · rw [← initial, initialValue_same] at added
      exact added
    · have begins := (stage_beginning_iff ..).mp starts
      rw [adding] at begins
      cases begins
    · exact there.imp decide_eq_true
        (Or.imp (removed_mem_iff ..).mpr (removing_iff ..).mpr)
  · refine right.elsewhere ?_ Iff.rfl rfl rfl rfl rfl (initialValue_elsewhere same)
    simp [adding, SetEntity.stage, Ne.symm same]

theorem Sound.setEntity (sound : Sound enricher state)
    (there : ∀ producer rest, state.setEntity = .addProducer producer rest →
      producer ∈ state.members ∨ .memberRemoved producer ∈ state.inFlight ∨
        state.delivering = some (.removeProducer producer))
    {after : State Entity Value} (moved : setEntityStep enricher state = some after) :
    Sound enricher after := by
  have hearsAdded := sound.hearsAdded
  have hearsRemoved := sound.hearsRemoved
  have refused : ∀ producer, enricher.filter producer = false →
      state.values.get producer = none ∧ state.delivering ≠ some (.addProducer producer) :=
    fun producer refused =>
      ⟨(sound.refused producer refused).1, (sound.refused producer refused).2.1⟩
  unfold setEntityStep at moved
  split at moved
  · next starts =>
    obtain rfl := Option.some.inj moved
    rw [starts] at hearsRemoved
    refine ⟨rfl, hearsRemoved, sound.outside, fun producer is =>
      ⟨(refused producer is).1, (refused producer is).2, nofun⟩, fun producer accepted => ?_⟩
    exact (sound.right producer accepted).subscribeToAdded
      ((stage_beginning_iff ..).mpr starts)
  · next window =>
    obtain rfl := Option.some.inj moved
    rw [window] at hearsAdded
    refine ⟨hearsAdded, rfl, sound.outside, fun producer is =>
      ⟨(refused producer is).1, (refused producer is).2, nofun⟩, fun producer accepted => ?_⟩
    exact (sound.right producer accepted).restage ⟨nofun, nofun⟩ nofun
  · next subscribed =>
    obtain rfl := Option.some.inj moved
    rw [subscribed] at hearsAdded hearsRemoved
    refine ⟨hearsAdded, hearsRemoved, sound.outside, fun producer is =>
      ⟨(refused producer is).1, (refused producer is).2, nofun⟩, fun producer accepted => ?_⟩
    refine (sound.right producer accepted).restage ⟨?_, ?_⟩ fun behind => Or.inr ?_
    · exact (stage_beginning_iff ..).not.mpr nofun
    · exact (stage_window_iff ..).not.mpr nofun
    · refine decide_eq_false fun inside => ?_
      rw [SetEntity.stage, if_pos (show producer ∈ state.members.elements from inside)] at behind
      cases behind
  · cases moved
  · next member rest scanning =>
    obtain rfl := Option.some.inj moved
    exact sound.scanNext scanning
  · next producer rest adding =>
    obtain rfl := Option.some.inj moved
    exact sound.scanAdd adding (there producer rest adding)

variable [DecidableEq Value]

/-- Every step that is orderly keeps the views right. -/
theorem Sound.step (sound : Sound enricher state) {action : Action Entity Value}
    (allowed : orderly enricher state action = true) {after : State Entity Value}
    (moved : AbstractAggregatingEnricher.step enricher state action = some after) :
    Sound enricher after := by
  cases action with
  | join member =>
    simp only [AbstractAggregatingEnricher.step] at moved
    split at moved
    · cases moved
    · obtain rfl := Option.some.inj moved
      exact sound.join member
  | leave member =>
    simp only [AbstractAggregatingEnricher.step] at moved
    split at moved
    · obtain rfl := Option.some.inj moved
      simp only [orderly, Bool.and_eq_true, decide_eq_true_eq, Bool.or_eq_true,
        Bool.not_eq_true'] at allowed
      refine sound.leave allowed.1 fun accepted window => ?_
      rcases allowed.2 with (refused | begun) | quiet
      · rw [accepted] at refused
        cases refused
      · exact absurd window begun
      · exact quiet
    · cases moved
  | put producer value =>
    obtain rfl := Option.some.inj moved
    exact sound.put producer value
  | publish producer which =>
    obtain ⟨value, -, rfl⟩ := Option.map_eq_some_iff.mp moved
    simp only [orderly, mayPublish, Bool.or_eq_true, decide_eq_true_eq] at allowed
    refine sound.publish ?_
    rcases allowed with (heard | same) | corrected
    · exact Or.inl heard
    · refine Or.inr (Or.inl fun old has => ?_)
      rw [has] at same
      exact of_decide_eq_true same
    · exact Or.inr (Or.inr corrected)
  | deliver =>
    cases delivering : state.delivering with
    | some handler => simp [AbstractAggregatingEnricher.step, delivering] at moved
    | none =>
      cases inFlight : state.inFlight with
      | nil => simp [AbstractAggregatingEnricher.step, delivering, inFlight] at moved
      | cons event rest =>
        simp only [AbstractAggregatingEnricher.step, delivering, inFlight,
          Option.some.injEq] at moved
        subst moved
        rw [← delivering]
        cases event with
        | memberAdded member => exact sound.deliverAdded inFlight delivering
        | memberRemoved member => exact sound.deliverRemoved inFlight delivering
        | updated source value =>
          refine sound.deliverUpdated inFlight ?_
          rw [orderly, inFlight] at allowed
          dsimp only at allowed
          rw [Bool.or_eq_true, Bool.or_eq_true, Option.isNone_iff_eq_none,
            decide_eq_true_iff, or_assoc] at allowed
          exact allowed
  | handle =>
    obtain ⟨handler, delivering, rfl⟩ := Option.map_eq_some_iff.mp moved
    cases handler with
    | addProducer producer => exact sound.handleAdded delivering
    | removeProducer producer => exact sound.handleRemoved delivering
  | setEntity =>
    refine sound.setEntity (fun producer rest adding => ?_) moved
    rw [orderly, adding] at allowed
    dsimp only at allowed
    rw [Bool.or_eq_true, Bool.or_eq_true, decide_eq_true_iff, decide_eq_true_iff,
      decide_eq_true_iff, or_assoc] at allowed
    exact allowed

end Steps

section Runs
variable [DecidableEq Value]

theorem sound_of_reached (run : Reached (aggregating enricher) (orderly enricher) state) :
    Sound enricher state := by
  refine reached_invariant (Sound enricher) ?_ (fun before action after _ sound allowed moved =>
    sound.step allowed moved) run
  refine ⟨rfl, rfl, List.not_mem_nil, fun producer _ => ⟨rfl, nofun, nofun⟩, fun producer _ => ?_⟩
  exact ⟨fun _ => ⟨List.not_mem_nil, nofun, rfl⟩, fun _ => ⟨List.not_mem_nil, nofun⟩, nofun,
    fun _ => Or.inr (Or.inr (Or.inl nofun)), nofun, fun there => there.elim nofun nofun, nofun⟩

/-- In orderly runs the values are those of the members whenever nothing is in progress. -/
theorem aggregates_members (run : Reached (aggregating enricher) (orderly enricher) state)
    (quiescent : Quiescent state) : Aggregates enricher state := by
  have sound := sound_of_reached run
  intro producer
  by_cases accepted : enricher.filter producer = true
  · have right := sound.right producer accepted
    have mail : (viewOf enricher state producer).mail = [] := by
      simp [viewOf, quiescent.delivered]
    have idle : (viewOf enricher state producer).delivering = none := by
      simp [viewOf, quiescent.handled]
    have behind : (viewOf enricher state producer).stage = .behind := by
      simp [viewOf, quiescent.ended, SetEntity.stage]
    by_cases member : producer ∈ state.members
    · rw [if_pos ⟨member, accepted⟩]
      have inside : (viewOf enricher state producer).value.isSome = true := by
        rcases right.followed (decide_eq_true member) with added | adding | late | inside
        · rw [mail] at added
          exact absurd added List.not_mem_nil
        · rw [idle] at adding
          cases adding
        · exact absurd behind late
        · exact inside
      obtain ⟨value, has⟩ := Option.isSome_iff_exists.mp inside
      refine has.trans (congrArg some ?_)
      rcases right.right value has with current | any | updating | removing
      · exact current
      · rw [mail] at any
        cases any
      · simp [viewOf, quiescent.updated producer] at updating
      · rw [idle] at removing
        cases removing
    · rw [if_neg fun both => member both.1]
      cases has : state.values.get producer with
      | none => rfl
      | some value =>
        have inside : (viewOf enricher state producer).value.isSome = true := by
          simp [viewOf, has]
        rcases right.kept (Or.inl inside) with there | removed | removing
        · exact absurd (of_decide_eq_true there) member
        · rw [mail] at removed
          exact absurd removed List.not_mem_nil
        · rw [idle] at removing
          cases removing
  · rw [if_neg fun both => accepted both.2]
    exact (sound.refused producer (Bool.eq_false_iff.mpr accepted)).1

end Runs

section Schedules

def summing : Enricher Bool Nat := ⟨false, fun _ => true, none⟩

def isQuiescent (state : State Bool Nat) : Bool :=
  decide (state.setEntity = .scanning [] ∧ state.publishing true = [] ∧
    state.publishing false = [] ∧ state.inFlight = [] ∧ state.delivering = none)

theorem quiescent_of {state : State Bool Nat} (is : isQuiescent state = true) :
    Quiescent state := by
  obtain ⟨ended, first, second, delivered, handled⟩ := of_decide_eq_true is
  exact ⟨ended, Bool.forall_bool.mpr ⟨second, first⟩, delivered, handled⟩

/-- A member leaves after the scan has found it, and its removal is handled before it is added. -/
theorem removal_before_scan :
    ¬ ∀ (enricher : Enricher Bool Nat) (state : State Bool Nat),
      Reached (aggregating enricher) anyStep state → Quiescent state →
        Aggregates enricher state := by
  intro claimed
  have shown := replay_shows (aggregating summing) anyStep
    [.join true, .setEntity, .setEntity, .setEntity, .leave true, .deliver, .handle, .setEntity,
      .setEntity]
    (fun state => isQuiescent state &&
      decide ((state.values.get true).isSome = true ∧ true ∉ state.members))
    (by decide +kernel)
  obtain ⟨state, run, shown⟩ := shown
  obtain ⟨quiescent, ghost⟩ := Bool.and_eq_true _ _ ▸ shown
  obtain ⟨has, out⟩ := of_decide_eq_true ghost
  have right := claimed summing state run (quiescent_of quiescent) true
  rw [if_neg fun both => out both.1] at right
  rw [right] at has
  cases has

/-- A member that joins and is updated during `setEntity`, leaves and comes back. -/
theorem member_comes_back : ∃ state : State Bool Nat,
    state.values.get true = some (some 5) ∧ Aggregates summing state := by
  have shown := replay_shows (aggregating summing) (orderly summing)
    [.setEntity, .join true, .setEntity, .setEntity, .put true 4, .deliver, .setEntity, .handle,
      .publish true 0, .setEntity, .leave true, .deliver, .deliver, .deliver, .handle, .join true,
      .put true 5, .deliver, .handle, .publish true 0, .deliver]
    (fun state => isQuiescent state && decide (state.values.get true = some (some 5)))
    (by decide +kernel)
  obtain ⟨state, run, shown⟩ := shown
  obtain ⟨quiescent, value⟩ := Bool.and_eq_true _ _ ▸ shown
  exact ⟨state, of_decide_eq_true value, aggregates_members run (quiescent_of quiescent)⟩

end Schedules

end Brooklyn.AbstractAggregatingEnricher
