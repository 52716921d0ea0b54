import Brooklyn.AbstractCombiningEnricher

/-!
The runs of a combining enricher. A field is current or something is still to set it, and the
target is what the fields give or a handler is still to set it, as long as `setEntity` applies
nothing that an event has overtaken and no handler sets the target last with what it computed
from older fields.
-/

namespace Brooklyn.AbstractCombiningEnricher
open Transition Mailbox

variable {Details Sensor Value Target : Type} [DecidableEq Details]
  {enricher : Enricher Details Sensor Value Target}

section Invariant
variable {state : State Details Sensor Value Target}

/-- The value of a sensor is in the field, or will be. -/
def Due (enricher : Enricher Details Sensor Value Target)
    (state : State Details Sensor Value Target) (s : Details) (value : Value) : Prop :=
  (state.publishing (enricher.sensor s)).isSome = true ∨ s ∈ state.setEntity.remaining ∨
    latest s state.inFlight = some value ∨ state.delivering = some (.setting s value) ∨
      state.setEntity.handler = some (.setting s value) ∨ state.shared.field s = some value

variable [DecidableEq Value] [DecidableEq Target]

structure Sound (enricher : Enricher Details Sensor Value Target)
    (state : State Details Sensor Value Target) : Prop where
  newest : ∀ sensor value, state.publishing sensor = some value →
    state.value sensor = some value
  mail : ∀ s value, latest s state.inFlight = some value →
    state.value (enricher.sensor s) = some value ∨
      (state.publishing (enricher.sensor s)).isSome = true
  addressed : ∀ letter ∈ state.inFlight, letter.1 ∈ state.subscribed
  hearing : ∀ s value, state.delivering = some (.setting s value) → s ∈ state.subscribed ∧
    (state.value (enricher.sensor s) = some value ∨
      (state.publishing (enricher.sensor s)).isSome = true ∨
        latest s state.inFlight = state.value (enricher.sensor s))
  unread : ∀ s ∈ enricher.subscriptions, s ∉ state.subscribed → s ∈ state.setEntity.ahead
  due : ∀ s ∈ enricher.subscriptions, ∀ value, state.value (enricher.sensor s) = some value →
    Due enricher state s value
  counted : Counted state.shared state.delivering state.setEntity.handler
  output : Output enricher state.shared state.delivering state.setEntity.handler
    (pending enricher state = true)

omit [DecidableEq Details] [DecidableEq Value] [DecidableEq Target] in
theorem pending_iff : pending enricher state = true ↔ state.inFlight ≠ [] ∨
    (∃ s ∈ state.subscribed, (state.publishing (enricher.sensor s)).isSome = true) ∨
      ∃ s ∈ state.setEntity.remaining, (state.value (enricher.sensor s)).isSome = true := by
  simp [pending, or_assoc]

omit [DecidableEq Details] [DecidableEq Value] [DecidableEq Target] in
theorem ahead_subset_remaining (setEntity : SetEntity Details Value Target) {s : Details}
    (there : s ∈ setEntity.ahead) : s ∈ setEntity.remaining := by
  cases setEntity with
  | reading first rest => exact List.mem_cons_of_mem _ there
  | _ => exact there

section Updates
variable [DecidableEq Sensor]

theorem Sound.put (sound : Sound enricher state) (sensor : Sensor) (value : Value) :
    Sound enricher { state with
      value := Function.update state.value sensor (some value)
      publishing := Function.update state.publishing sensor (some value) } where
  newest := by
    intro other held published
    dsimp only at published ⊢
    by_cases same : other = sensor
    · subst same
      rwa [Function.update_self] at published ⊢
    · rw [Function.update_of_ne same] at published ⊢
      exact sound.newest other held published
  mail := by
    intro s held last
    dsimp only
    by_cases same : enricher.sensor s = sensor
    · exact Or.inr (by simp [same])
    · rw [Function.update_of_ne same, Function.update_of_ne same]
      exact sound.mail s held last
  addressed := sound.addressed
  hearing := by
    intro s held setting
    obtain ⟨there, hears⟩ := sound.hearing s held setting
    refine ⟨there, ?_⟩
    dsimp only
    by_cases same : enricher.sensor s = sensor
    · exact Or.inr (Or.inl (by simp [same]))
    · rw [Function.update_of_ne same, Function.update_of_ne same]
      exact hears
  unread := sound.unread
  due := by
    intro s bound held value'
    by_cases same : enricher.sensor s = sensor
    · exact Or.inl (by simp [same])
    · dsimp only at value'
      rw [Function.update_of_ne same] at value'
      have before := sound.due s bound held value'
      unfold Due at before ⊢
      dsimp only
      rwa [Function.update_of_ne same]
  counted := sound.counted
  output := by
    refine sound.output.mono fun pends => Or.inl ?_
    rw [pending_iff] at pends ⊢
    refine pends.imp_right (Or.imp ?_ ?_)
    · rintro ⟨s, there, publishes⟩
      refine ⟨s, there, ?_⟩
      dsimp only
      rw [Function.update_apply]
      split
      · rfl
      · exact publishes
    · rintro ⟨s, there, has⟩
      refine ⟨s, there, ?_⟩
      dsimp only
      rw [Function.update_apply]
      split
      · rfl
      · exact has

theorem Sound.publish (sound : Sound enricher state) {sensor : Sensor} {value : Value}
    (publishing : state.publishing sensor = some value) :
    Sound enricher { state with
      publishing := Function.update state.publishing sensor none
      inFlight := state.inFlight ++ (receivers enricher state sensor).map fun s => (s, value) } := by
  have current := sound.newest sensor value publishing
  have mem_receivers (s : Details) : s ∈ receivers enricher state sensor ↔
      s ∈ state.subscribed ∧ enricher.sensor s = sensor := by
    simp [receivers]
  have latest_eq (s : Details) : latest s (state.inFlight ++
      (receivers enricher state sensor).map fun s => (s, value)) =
        if s ∈ state.subscribed ∧ enricher.sensor s = sensor then some value
        else latest s state.inFlight := by
    rw [latest_append, latest_copies]
    simp only [mem_receivers]
    split
    · rfl
    · rfl
  have unheard {s : Details} (absent : s ∉ state.subscribed) : latest s state.inFlight = none := by
    rw [← Option.not_isSome_iff_eq_none, latest_isSome_iff]
    rintro ⟨news, there⟩
    exact absent (sound.addressed _ there)
  have elsewhere {s : Details} (different : enricher.sensor s ≠ sensor) :
      Function.update state.publishing sensor none (enricher.sensor s) =
        state.publishing (enricher.sensor s) := Function.update_of_ne different ..
  constructor
  · intro other held published
    dsimp only at published
    rw [Function.update_apply] at published
    split at published
    · cases published
    · exact sound.newest other held published
  · intro s held last
    dsimp only at last ⊢
    rw [latest_eq] at last
    split at last
    · next received =>
      obtain rfl := Option.some.inj last
      exact Or.inl (received.2 ▸ current)
    · next others =>
      by_cases same : enricher.sensor s = sensor
      · rw [unheard fun there => others ⟨there, same⟩] at last
        cases last
      · rw [elsewhere same]
        exact sound.mail s held last
  · intro letter there
    rcases List.mem_append.mp there with earlier | later
    · exact sound.addressed letter earlier
    · obtain ⟨s, received, rfl⟩ := List.mem_map.mp later
      exact ((mem_receivers s).mp received).1
  · intro s held setting
    obtain ⟨there, hears⟩ := sound.hearing s held setting
    refine ⟨there, ?_⟩
    dsimp only
    rw [latest_eq]
    by_cases same : enricher.sensor s = sensor
    · rw [if_pos ⟨there, same⟩, same, current]
      exact Or.inr (Or.inr rfl)
    · rw [if_neg fun both => same both.2, elsewhere same]
      exact hears
  · exact sound.unread
  · intro s bound held holds
    have before := sound.due s bound held holds
    unfold Due at before ⊢
    dsimp only
    rw [latest_eq]
    by_cases same : enricher.sensor s = sensor
    · by_cases there : s ∈ state.subscribed
      · dsimp only at holds
        rw [same, current] at holds
        exact Or.inr (Or.inr (Or.inl ((if_pos ⟨there, same⟩).trans holds)))
      · exact Or.inr (Or.inl (ahead_subset_remaining _ (sound.unread s bound there)))
    · rw [if_neg fun both => same both.2, elsewhere same]
      exact before
  · exact sound.counted
  · refine sound.output.mono fun pends => Or.inl ?_
    rw [pending_iff] at pends ⊢
    dsimp only
    rcases pends with mail | ⟨s, there, publishes⟩ | waits
    · exact Or.inl fun empty => mail (List.append_eq_nil_iff.mp empty).1
    · by_cases same : enricher.sensor s = sensor
      · refine Or.inl fun empty => ?_
        have none := List.map_eq_nil_iff.mp (List.append_eq_nil_iff.mp empty).2
        exact absurd ((mem_receivers s).mpr ⟨there, same⟩) (none ▸ List.not_mem_nil)
      · exact Or.inr (Or.inl ⟨s, there, (elsewhere same).symm ▸ publishes⟩)
    · exact Or.inr (Or.inr waits)

end Updates

theorem Sound.deliver (sound : Sound enricher state) {s : Details} {value : Value}
    {rest : List (Details × Value)} (idle : state.delivering = none)
    (inFlight : state.inFlight = (s, value) :: rest) :
    Sound enricher { state with inFlight := rest, delivering := some (.setting s value) } where
  newest := sound.newest
  mail := fun other held last => sound.mail other held (inFlight ▸ latest_of_rest last)
  addressed := fun letter there =>
    sound.addressed letter (inFlight ▸ List.mem_cons_of_mem _ there)
  hearing := by
    intro other held setting
    cases setting
    refine ⟨sound.addressed (s, value) (inFlight ▸ List.mem_cons_self), ?_⟩
    dsimp only
    cases last : latest s rest with
    | some news =>
      rcases sound.mail s news (inFlight ▸ latest_of_rest last) with current | publishes
      · exact Or.inr (Or.inr current.symm)
      · exact Or.inr (Or.inl publishes)
    | none =>
      have only : latest s state.inFlight = some value := by simp [inFlight, latest, last]
      exact (sound.mail s value only).imp_right Or.inl
  unread := sound.unread
  due := by
    intro other bound held holds
    rcases sound.due other bound held holds with publishes | waits | last | delivers | rest'
    · exact Or.inl publishes
    · exact Or.inr (Or.inl waits)
    · rw [inFlight] at last
      rcases latest_read last with later | ⟨-, rfl, rfl⟩
      · exact Or.inr (Or.inr (Or.inl later))
      · exact Or.inr (Or.inr (Or.inr (Or.inl rfl)))
    · rw [idle] at delivers
      cases delivers
    · exact Or.inr (Or.inr (Or.inr (Or.inr rest')))
  counted := by
    intro other held set
    have before := sound.counted other held set
    rw [idle] at before
    rcases before with counted | counting | else_where
    · exact Or.inl counted
    · cases counting
    · exact Or.inr (Or.inr else_where)
  output := fun _ => Or.inr (Or.inr (Or.inl rfl))

theorem maySetAttribute_iff {other : Option (Handler Details Value Target)} {value : Target} :
    maySetAttribute enricher state other value = true ↔
      value = combined enricher state.shared ∨ pending enricher state = true ∨
        anyFresh enricher state.shared other = true := by
  simp [maySetAttribute, or_assoc]

theorem Sound.onEvent (sound : Sound enricher state) {handler : Handler Details Value Target}
    (delivering : state.delivering = some handler)
    (allowed : ∀ value, handler = .setAttribute value →
      maySetAttribute enricher state state.setEntity.handler value = true) :
    Sound enricher { state with
      shared := (handler.step enricher state.shared).1
      delivering := (handler.step enricher state.shared).2 } where
  newest := sound.newest
  mail := sound.mail
  addressed := sound.addressed
  hearing := fun s value setting => absurd setting (Handler.step_next s value)
  unread := sound.unread
  due := by
    intro s bound value holds
    have moved := handler.step_field enricher state.shared s
    rcases moved with same | ⟨set, rfl, now⟩
    · rcases sound.due s bound value holds with publishes | waits | last | delivers | rest
      · exact Or.inl publishes
      · exact Or.inr (Or.inl waits)
      · exact Or.inr (Or.inr (Or.inl last))
      · rw [delivering] at delivers
        cases delivers
        exact Or.inr (Or.inr (Or.inr (Or.inr (Or.inr (Function.update_self ..)))))
      · refine Or.inr (Or.inr (Or.inr (Or.inr (rest.imp_right fun field => ?_))))
        exact same.trans field
    · -- what is delivered is current, or something is to come after it
      obtain ⟨-, current | publishes | last⟩ := sound.hearing s set delivering
      · rw [holds] at current
        cases current
        exact Or.inr (Or.inr (Or.inr (Or.inr (Or.inr now))))
      · exact Or.inl publishes
      · exact Or.inr (Or.inr (Or.inl (last.trans holds)))
  counted := by
    have before := sound.counted
    rw [delivering] at before
    exact before.step
  output := by
    have before := sound.output
    rw [delivering] at before
    exact before.step fun value is => maySetAttribute_iff.mp (allowed value is)

/-- `setEntity` goes on with the next sensor. -/
theorem Sound.subscribe (sound : Sound enricher state) {s : Details} {rest : List Details}
    (looping : state.setEntity = .looping (s :: rest)) :
    Sound enricher { state with
      subscribed := state.subscribed ++ [s], setEntity := .reading s rest } := by
  have unread := sound.unread
  have counted := sound.counted
  have output := sound.output
  have due := sound.due
  rw [looping] at unread counted output
  refine ⟨sound.newest, sound.mail, fun letter there =>
    List.mem_append_left _ (sound.addressed letter there), fun other value setting =>
    (sound.hearing other value setting).imp_left (List.mem_append_left _), ?_, ?_, counted, ?_⟩
  · intro other bound absent
    rw [List.mem_append, List.mem_singleton, not_or] at absent
    exact (List.mem_cons.mp (unread other bound absent.1)).resolve_left absent.2
  · intro other bound value holds
    have before := due other bound value holds
    unfold Due at before ⊢
    rwa [looping] at before
  · refine output.mono fun pends => Or.inl ?_
    rw [pending_iff] at pends ⊢
    rw [looping] at pends
    refine pends.imp_right (Or.imp_left ?_)
    rintro ⟨other, there, publishes⟩
    exact ⟨other, List.mem_append_left _ there, publishes⟩

theorem Sound.skip (sound : Sound enricher state) {s : Details} {rest : List Details}
    (reading : state.setEntity = .reading s rest)
    (unset : state.value (enricher.sensor s) = none) :
    Sound enricher { state with setEntity := .looping rest } := by
  have unread := sound.unread
  have counted := sound.counted
  have output := sound.output
  have due := sound.due
  rw [reading] at unread counted output
  refine ⟨sound.newest, sound.mail, sound.addressed, sound.hearing, unread, ?_, counted, ?_⟩
  · intro other bound value holds
    have before := due other bound value holds
    unfold Due at before ⊢
    rw [reading] at before
    refine before.imp_right (Or.imp_left fun waits => ?_)
    refine (List.mem_cons.mp waits).resolve_left ?_
    rintro rfl
    rw [show state.value (enricher.sensor other) = some value from holds] at unset
    cases unset
  · refine output.mono fun pends => Or.inl ?_
    rw [pending_iff] at pends ⊢
    rw [reading] at pends
    refine pends.imp_right (Or.imp_right ?_)
    rintro ⟨other, waits, has⟩
    refine ⟨other, (List.mem_cons.mp waits).resolve_left ?_, has⟩
    rintro rfl
    rw [unset] at has
    cases has

theorem Sound.apply (sound : Sound enricher state) {s : Details} {rest : List Details}
    {value : Value} (reading : state.setEntity = .reading s rest)
    (has : state.value (enricher.sensor s) = some value) :
    Sound enricher { state with setEntity := .handling (.setting s value) rest } := by
  have unread := sound.unread
  have counted := sound.counted
  have due := sound.due
  rw [reading] at unread counted
  refine ⟨sound.newest, sound.mail, sound.addressed, sound.hearing, unread, ?_, ?_,
    fun _ => Or.inr (Or.inr (Or.inr rfl))⟩
  · intro other bound held holds
    have before := due other bound held holds
    unfold Due at before ⊢
    rw [reading] at before
    rcases before with publishes | waits | last | delivers | none | set
    · exact Or.inl publishes
    · rcases List.mem_cons.mp waits with rfl | later
      · rw [show state.value (enricher.sensor other) = some held from holds] at has
        cases has
        exact Or.inr (Or.inr (Or.inr (Or.inr (Or.inl rfl))))
      · exact Or.inr (Or.inl later)
    · exact Or.inr (Or.inr (Or.inl last))
    · exact Or.inr (Or.inr (Or.inr (Or.inl delivers)))
    · cases none
    · exact Or.inr (Or.inr (Or.inr (Or.inr (Or.inr set))))
  · exact fun other held set => (counted other held set).imp_right (Or.imp_right nofun)

/-- A step of the handler that `setEntity` runs. -/
theorem Sound.selfDeliver (sound : Sound enricher state) {handler : Handler Details Value Target}
    {rest : List Details} (handling : state.setEntity = .handling handler rest)
    (next : SetEntity Details Value Target)
    (goes : next.handler = (handler.step enricher state.shared).2)
    (ahead : next.ahead = rest) (remaining : next.remaining = rest)
    (applies : ∀ s value, handler = .setting s value → mayApply enricher state s value = true)
    (allowed : ∀ value, handler = .setAttribute value →
      maySetAttribute enricher state state.delivering value = true) :
    Sound enricher { state with
      shared := (handler.step enricher state.shared).1, setEntity := next } where
  newest := sound.newest
  mail := sound.mail
  addressed := sound.addressed
  hearing := sound.hearing
  unread := by
    have before := sound.unread
    rw [handling] at before
    dsimp only
    rw [ahead]
    exact before
  due := by
    intro s bound value holds
    have before := sound.due s bound value holds
    unfold Due at before ⊢
    rw [handling] at before
    dsimp only at holds ⊢
    rw [remaining, goes]
    have moved := handler.step_field enricher state.shared s
    rcases moved with same | ⟨set, rfl, now⟩
    · rcases before with publishes | waits | last | delivers | mine | field
      · exact Or.inl publishes
      · exact Or.inr (Or.inl waits)
      · exact Or.inr (Or.inr (Or.inl last))
      · exact Or.inr (Or.inr (Or.inr (Or.inl delivers)))
      · cases mine
        exact Or.inr (Or.inr (Or.inr (Or.inr (Or.inr (Function.update_self ..)))))
      · exact Or.inr (Or.inr (Or.inr (Or.inr (Or.inr (same.trans field)))))
    · have may := applies s set rfl
      simp only [mayApply, Bool.or_eq_true, decide_eq_true_eq, or_assoc] at may
      rcases may with current | publishes | mail | delivers
      · rw [holds] at current
        cases current
        exact Or.inr (Or.inr (Or.inr (Or.inr (Or.inr now))))
      · exact Or.inl publishes
      · obtain ⟨news, last⟩ := Option.isSome_iff_exists.mp mail
        rcases sound.mail s news last with current | publishes
        · exact Or.inr (Or.inr (Or.inl (last.trans (current.symm.trans holds))))
        · exact Or.inl publishes
      · cases delivering : state.delivering with
        | none => simp [delivering] at delivers
        | some waiting =>
        rw [delivering] at delivers
        cases waiting with
        | setting other held =>
          obtain rfl := of_decide_eq_true delivers
          obtain ⟨-, current | publishes | last⟩ := sound.hearing other held delivering
          · rw [holds] at current
            cases current
            exact Or.inr (Or.inr (Or.inr (Or.inl rfl)))
          · exact Or.inl publishes
          · exact Or.inr (Or.inr (Or.inl (last.trans holds)))
        | _ => cases delivers
  counted := by
    have before := sound.counted.swap
    rw [handling] at before
    dsimp only
    rw [goes]
    exact before.step.swap
  output := by
    have before := sound.output.swap
    rw [handling] at before
    have after := before.step fun value is => maySetAttribute_iff.mp (allowed value is)
    dsimp only
    rw [goes]
    refine after.swap.mono fun pends => Or.inl ?_
    rw [pending_iff] at pends ⊢
    rw [handling] at pends
    dsimp only
    rwa [remaining]

end Invariant

section Runs
variable [DecidableEq Sensor] [DecidableEq Value] [DecidableEq Target]
  {state : State Details Sensor Value Target} {initially : Sensor → Option Value}

theorem sound_initial (some_bound : enricher.subscriptions ≠ []) :
    Sound enricher (enriching enricher initially).initial := by
  have begins : (enriching enricher initially).initial.setEntity =
      .looping enricher.subscriptions := by
    simp [enriching, some_bound]
  refine ⟨nofun, nofun, nofun, nofun, fun s bound _ => ?_, fun s bound value _ => ?_, nofun, ?_⟩
  · rw [begins]
    exact bound
  · refine Or.inr (Or.inl ?_)
    rw [begins]
    exact bound
  · intro counted
    obtain ⟨first, bound⟩ := List.exists_mem_of_ne_nil _ some_bound
    exact absurd (counted first bound) (Nat.lt_irrefl 0)

omit [DecidableEq Sensor] in
theorem sound_setEntity {before after : State Details Sensor Value Target}
    (sound : Sound enricher before) (allowed : timely enricher before .setEntity = true)
    (moved : setEntityStep enricher before = some after) : Sound enricher after := by
  unfold setEntityStep at moved
  cases pc : before.setEntity with
  | nullPointer => simp [pc] at moved
  | looping rest =>
    cases rest with
    | nil => simp [pc] at moved
    | cons s rest =>
      simp only [pc, Option.some.injEq] at moved
      subst moved
      exact sound.subscribe pc
  | reading s rest =>
    cases has : before.value (enricher.sensor s) with
    | none =>
      simp only [pc, has, Option.some.injEq] at moved
      subst moved
      exact sound.skip pc has
    | some value =>
      simp only [pc, has, Option.some.injEq] at moved
      subst moved
      exact sound.apply pc has
  | handling handler rest =>
    simp only [pc, Option.some.injEq] at moved
    subst moved
    refine sound.selfDeliver pc _ ?_ ?_ ?_ ?_ ?_
    · cases (handler.step enricher before.shared).2 with
      | _ => rfl
    · cases (handler.step enricher before.shared).2 with
      | _ => rfl
    · cases (handler.step enricher before.shared).2 with
      | _ => rfl
    · rintro s value rfl
      simpa [timely, pc] using allowed
    · rintro value rfl
      simpa [timely, pc] using allowed

theorem sound_of_reached (some_bound : enricher.subscriptions ≠ [])
    (run : Reached (enriching enricher initially) (timely enricher) state) :
    Sound enricher state := by
  refine reached_invariant (Sound enricher) (sound_initial some_bound) ?_ run
  intro before action after _ sound allowed moved
  cases action with
  | put sensor value =>
    cases publishing : before.publishing sensor with
    | some other => simp [enriching, step, publishing] at moved
    | none =>
      simp only [enriching, step, publishing, Option.some.injEq] at moved
      subst moved
      exact sound.put sensor value
  | publish sensor =>
    obtain ⟨value, publishing, rfl⟩ := Option.map_eq_some_iff.mp moved
    exact sound.publish publishing
  | deliver =>
    cases delivering : before.delivering with
    | some handler => simp [enriching, step, delivering] at moved
    | none =>
      cases inFlight : before.inFlight with
      | nil => simp [enriching, step, delivering, inFlight] at moved
      | cons letter rest =>
        obtain ⟨s, value⟩ := letter
        simp only [enriching, step, delivering, inFlight, Option.some.injEq] at moved
        subst moved
        exact sound.deliver delivering inFlight
  | onEvent =>
    obtain ⟨handler, delivering, rfl⟩ := Option.map_eq_some_iff.mp moved
    refine sound.onEvent delivering ?_
    rintro value rfl
    simpa [timely, delivering] using allowed
  | setEntity => exact sound_setEntity sound allowed moved

/-- Some sensor is bound, and neither thread is overtaken for good. -/
theorem combines_current_values (some_bound : enricher.subscriptions ≠ [])
    (run : Reached (enriching enricher initially) (timely enricher) state)
    (quiescent : Quiescent state) : Current enricher state := by
  have sound := sound_of_reached some_bound run
  have remaining : state.setEntity.remaining = [] := by
    rcases quiescent.ended with ended | ended <;> rw [ended] <;> rfl
  have handler : state.setEntity.handler = none := by
    rcases quiescent.ended with ended | ended <;> rw [ended] <;> rfl
  have fields : ∀ s ∈ enricher.subscriptions, ∀ value,
      state.value (enricher.sensor s) = some value → state.shared.field s = some value := by
    intro s bound value holds
    have due := sound.due s bound value holds
    unfold Due at due
    rw [quiescent.updated, remaining, quiescent.delivered, quiescent.handled, handler] at due
    simpa using due
  refine ⟨fields, fun complete => ?_⟩
  have same : enricher.subscriptions.map state.shared.field =
      enricher.subscriptions.map fun s => state.value (enricher.sensor s) := by
    refine List.map_congr_left fun s bound => ?_
    obtain ⟨value, holds⟩ := Option.isSome_iff_exists.mp (complete s bound)
    rw [holds, fields s bound value holds]
  have counted : ∀ s ∈ enricher.subscriptions, 0 < state.shared.count s := by
    intro s bound
    obtain ⟨value, holds⟩ := Option.isSome_iff_exists.mp (complete s bound)
    have counts := sound.counted s value (fields s bound value holds)
    rw [quiescent.handled, handler] at counts
    simpa using counts
  have idle : pending enricher state = false := by
    rw [Bool.eq_false_iff, ne_eq, pending_iff, quiescent.delivered, remaining]
    simp [quiescent.updated]
  rcases sound.output counted with right | pends | fresh | fresh
  · rw [right, combined, same]
  · rw [idle] at pends
    cases pends
  · rw [quiescent.handled] at fresh
    cases fresh
  · rw [handler] at fresh
    cases fresh

end Runs

section Schedules

/-- The sum of the fields that are set. -/
def summing (subscriptions : List Bool) : Enricher Bool Bool Nat Nat :=
  ⟨subscriptions, id, fun fields => fields.foldr (fun field sum => field.getD 0 + sum) 0⟩

def isQuiescent (state : State Bool Bool Nat Nat) : Bool :=
  decide (state.setEntity = .looping [] ∧ state.publishing true = none ∧
    state.publishing false = none ∧ state.inFlight = [] ∧ state.delivering = none)

theorem quiescent_of {state : State Bool Bool Nat Nat} (is : isQuiescent state = true) :
    Quiescent state := by
  obtain ⟨ended, first, second, delivered, handled⟩ := of_decide_eq_true is
  refine ⟨Or.inl ended, fun sensor => ?_, delivered, handled⟩
  cases sensor
  · exact second
  · exact first

/-- `setEntity` applies the 1 that it has read after the event with 2 has been handled. -/
theorem event_overtakes_reading :
    ¬ ∀ (subscriptions : List Bool) (state : State Bool Bool Nat Nat),
      Reached (enriching (summing subscriptions) fun _ => some 1) anyStep state →
        Quiescent state → Current (summing subscriptions) state := by
  intro claimed
  have shown := replay_shows (enriching (summing [true]) fun _ => some 1) anyStep
    ([.setEntity, .setEntity, .put true 2, .publish true, .deliver] ++
      List.replicate 7 .onEvent ++ List.replicate 7 .setEntity)
    (fun state => isQuiescent state &&
      decide (state.value true = some 2 ∧ state.shared.field true = some 1))
    (by decide +kernel)
  obtain ⟨state, run, shown⟩ := shown
  obtain ⟨quiescent, shown⟩ := Bool.and_eq_true_iff.mp shown
  obtain ⟨value, field⟩ := of_decide_eq_true shown
  have current := claimed [true] state run (quiescent_of quiescent)
  have now := current.fields true (List.mem_singleton_self _) 2 value
  rw [field] at now
  cases now

/-- The second sensor is updated while `setEntity` applies the first. -/
theorem updated_meanwhile : ∃ state : State Bool Bool Nat Nat,
    state.value false = some 2 ∧ Current (summing [true, false]) state := by
  have shown := replay_shows (enriching (summing [true, false]) fun _ => some 1)
    (timely (summing [true, false]))
    (List.replicate 5 .setEntity ++ [.put false 2, .publish false] ++
      List.replicate 12 .setEntity ++ [.put true 4, .publish true, .deliver] ++
      List.replicate 9 .onEvent)
    (fun state => isQuiescent state && decide (state.value false = some 2))
    (by decide +kernel)
  obtain ⟨state, run, shown⟩ := shown
  obtain ⟨quiescent, shown⟩ := Bool.and_eq_true_iff.mp shown
  exact ⟨state, of_decide_eq_true shown,
    combines_current_values (by simp [summing]) run (quiescent_of quiescent)⟩

end Schedules

end Brooklyn.AbstractCombiningEnricher
