import Mathlib.Algebra.Order.Field.Rat
import Mathlib.Data.List.Basic
import Mathlib.Tactic.FieldSimp
import Mathlib.Tactic.Ring

/-!
`TimeWeightedDeltaEnricher`: differences of a sensor's values as rates for each unit of time.
Values and rates are exact rationals, times are `long` and the unit is an `int` of
milliseconds. An event whose value is null is taken for the same value again.
-/

namespace Brooklyn

/-- `value` is missing where the sensor's value is null. -/
structure DeltaEvent where
  value : Option ℚ
  timestamp : Int64

structure TimeWeightedDeltaEnricher where
  unitMillis : Int32
  postProcessor : ℚ → ℚ
  lastValue : Option ℚ
  lastTime : Int64

namespace TimeWeightedDeltaEnricher

def create (unitMillis : Int32) (postProcessor : ℚ → ℚ) : TimeWeightedDeltaEnricher :=
  ⟨unitMillis, postProcessor, none, -1⟩

section Events
variable (enricher : TimeWeightedDeltaEnricher)

def duration (eventTime : Int64) : ℚ :=
  if enricher.lastTime < 0 then enricher.unitMillis.toInt
  else (eventTime - enricher.lastTime).toInt

def delta (lastValue current : ℚ) (eventTime : Int64) : ℚ :=
  (current - lastValue) / (enricher.duration eventTime / enricher.unitMillis.toInt)

/-- The enricher after an event, and the value of the target sensor where one is set. -/
def onEvent (event : DeltaEvent) : TimeWeightedDeltaEnricher × Option ℚ :=
  match event.value with
  | none => (enricher, some (enricher.postProcessor 0))
  | some current =>
      if enricher.lastTime < event.timestamp then
        ({ enricher with lastValue := some current, lastTime := event.timestamp },
          enricher.lastValue.map fun lastValue =>
            enricher.postProcessor (enricher.delta lastValue current event.timestamp))
      else (enricher, none)

end Events

/-- One event of a run, with the enricher before and after it. -/
structure Step where
  before : TimeWeightedDeltaEnricher
  event : DeltaEvent
  after : TimeWeightedDeltaEnricher
  emitted : Option ℚ

def run : TimeWeightedDeltaEnricher → List DeltaEvent → List Step
  | _, [] => []
  | enricher, event :: events =>
      ⟨enricher, event, (enricher.onEvent event).1, (enricher.onEvent event).2⟩ ::
        run (enricher.onEvent event).1 events

namespace Step

/-- Recorded as the last value, and what the next rate starts from. -/
def accepted (step : Step) : Bool :=
  step.event.value.isSome && decide (step.before.lastTime < step.event.timestamp)

/-- The time since the last accepted event, in the enricher's unit. -/
def elapsed (step : Step) : ℚ :=
  (step.event.timestamp.toInt - step.before.lastTime.toInt) / step.before.unitMillis.toInt

def weighted (step : Step) : ℚ := step.emitted.getD 0 * step.elapsed

end Step

/-- The values of the accepted events, in order. -/
def acceptedValues (steps : List Step) : List ℚ :=
  (steps.filter Step.accepted).filterMap fun step => step.event.value

/-- The rates of the accepted events, each times the time it is over. -/
def weightedSum (steps : List Step) : ℚ :=
  ((steps.filter Step.accepted).map Step.weighted).sum

section Duration

/-- A time is never negative once a value is recorded. -/
structure Timed (enricher : TimeWeightedDeltaEnricher) : Prop where
  started : -1 ≤ enricher.lastTime.toInt
  recorded : enricher.lastValue.isSome → 0 ≤ enricher.lastTime.toInt

theorem timed_create (unitMillis : Int32) (postProcessor : ℚ → ℚ) :
    Timed (create unitMillis postProcessor) :=
  ⟨show -1 ≤ (-1 : Int64).toInt by decide, fun recorded => by cases recorded⟩

variable {enricher : TimeWeightedDeltaEnricher}

theorem Timed.onEvent (timed : Timed enricher) (event : DeltaEvent) :
    Timed (enricher.onEvent event).1 := by
  unfold TimeWeightedDeltaEnricher.onEvent
  split
  next => exact timed
  next current found =>
    split
    next later =>
      have advanced := Int64.lt_iff_toInt_lt.mp later
      have started := timed.started
      exact ⟨by dsimp only; omega, fun _ => by dsimp only; omega⟩
    next => exact timed

/-- The subtraction of the times does not wrap, and the unit does not stand in for it. -/
theorem Timed.duration_eq (timed : Timed enricher) (recorded : enricher.lastValue.isSome)
    {eventTime : Int64} (later : enricher.lastTime < eventTime) :
    enricher.duration eventTime = (eventTime.toInt - enricher.lastTime.toInt : ℤ) := by
  have nonneg := timed.recorded recorded
  have advanced := Int64.lt_iff_toInt_lt.mp later
  have bound := eventTime.toInt_lt
  have not_before : ¬ enricher.lastTime < 0 := by
    rw [Int64.lt_iff_toInt_lt]
    exact not_lt.mpr nonneg
  have exact_sub : (eventTime - enricher.lastTime).toInt =
      eventTime.toInt - enricher.lastTime.toInt := by
    rw [Int64.toInt_sub]
    exact Int.bmod_eq_of_le (by omega) (by omega)
  rw [duration, if_neg not_before, exact_sub]

end Duration

section Runs
variable {enricher : TimeWeightedDeltaEnricher}

theorem onEvent_null {event : DeltaEvent} (null : event.value = none) :
    enricher.onEvent event = (enricher, some (enricher.postProcessor 0)) := by
  rw [onEvent, null]

theorem onEvent_late {event : DeltaEvent} {current : ℚ} (found : event.value = some current)
    (late : ¬ enricher.lastTime < event.timestamp) : enricher.onEvent event = (enricher, none) := by
  rw [onEvent, found]
  exact if_neg late

theorem onEvent_accepted {event : DeltaEvent} {current : ℚ} (found : event.value = some current)
    (later : enricher.lastTime < event.timestamp) :
    enricher.onEvent event =
      ({ enricher with lastValue := some current, lastTime := event.timestamp },
        enricher.lastValue.map fun lastValue =>
          enricher.postProcessor (enricher.delta lastValue current event.timestamp)) := by
  rw [onEvent, found]
  exact if_pos later

theorem postProcessor_onEvent (event : DeltaEvent) :
    (enricher.onEvent event).1.postProcessor = enricher.postProcessor := by
  unfold onEvent
  split
  next => rfl
  next => split <;> rfl

/-- An event that is not accepted changes nothing; only one without a value sets the target. -/
theorem rejected_step {events : List DeltaEvent} {step : Step} (member : step ∈ run enricher events)
    (rejected : step.accepted = false) :
    step.after = step.before ∧
      step.emitted =
        if step.event.value = none then some (enricher.postProcessor 0) else none := by
  induction events generalizing enricher with
  | nil => cases member
  | cons event events ih =>
    rcases List.mem_cons.mp member with rfl | later
    · cases found : event.value with
      | none => simp [onEvent_null found]
      | some current =>
        have late : ¬ enricher.lastTime < event.timestamp := by
          simpa [Step.accepted, found] using rejected
        simp [onEvent_late found late]
    · rw [← postProcessor_onEvent event]
      exact ih later

variable (enricher) in
theorem run_rejected {event : DeltaEvent} (events : List DeltaEvent)
    (rejected : event.value = none ∨ ¬ enricher.lastTime < event.timestamp) :
    acceptedValues (run enricher (event :: events)) = acceptedValues (run enricher events) ∧
      weightedSum (run enricher (event :: events)) = weightedSum (run enricher events) := by
  have passed : ∀ after emitted, Step.accepted ⟨enricher, event, after, emitted⟩ = false := by
    rcases rejected with null | late
    · simp [Step.accepted, null]
    · simp [Step.accepted, late]
  have unchanged : (enricher.onEvent event).1 = enricher := by
    cases found : event.value with
    | none => rw [onEvent_null found]
    | some current =>
      have late := rejected.resolve_left fun null => by rw [null] at found; cases found
      rw [onEvent_late found late]
  simp [run, acceptedValues, weightedSum, passed, unchanged]

theorem run_accepted {event : DeltaEvent} {current : ℚ} (found : event.value = some current)
    (later : enricher.lastTime < event.timestamp) (events : List DeltaEvent) :
    acceptedValues (run enricher (event :: events)) =
        current :: acceptedValues (run (enricher.onEvent event).1 events) ∧
      weightedSum (run enricher (event :: events)) =
        (enricher.onEvent event).2.getD 0 *
            ((event.timestamp.toInt - enricher.lastTime.toInt) / enricher.unitMillis.toInt) +
          weightedSum (run (enricher.onEvent event).1 events) := by
  have taken : ∀ after emitted, Step.accepted ⟨enricher, event, after, emitted⟩ = true := by
    simp [Step.accepted, found, later]
  simp [run, acceptedValues, weightedSum, taken, found, Step.weighted, Step.elapsed]

/-- A rate times the time it is over is the difference of the values. -/
theorem delta_elapsed (timed : Timed enricher) (unit : enricher.unitMillis ≠ 0)
    {lastValue : ℚ} (recorded : enricher.lastValue = some lastValue) {eventTime : Int64}
    (later : enricher.lastTime < eventTime) (current : ℚ) :
    enricher.delta lastValue current eventTime *
        ((eventTime.toInt - enricher.lastTime.toInt) / enricher.unitMillis.toInt) =
      current - lastValue := by
  have advanced := Int64.lt_iff_toInt_lt.mp later
  have elapsed : (eventTime.toInt - enricher.lastTime.toInt : ℚ) ≠ 0 :=
    sub_ne_zero.mpr fun same => by
      have := Int.cast_injective same
      omega
  have unit_ne : (enricher.unitMillis.toInt : ℚ) ≠ 0 := fun zero =>
    unit (Int32.toInt_inj.mp (Int.cast_injective (zero.trans Int.cast_zero.symm)))
  have exact_duration := timed.duration_eq (by rw [recorded]; rfl) later
  rw [delta, exact_duration, Int.cast_sub]
  field_simp

/-- From a recorded value on, the sum is what has been gained since. -/
theorem weightedSum_of_recorded (timed : Timed enricher) (unit : enricher.unitMillis ≠ 0)
    (plain : enricher.postProcessor = id) {lastValue : ℚ}
    (recorded : enricher.lastValue = some lastValue) (events : List DeltaEvent) :
    weightedSum (run enricher events) =
      (acceptedValues (run enricher events)).getLastD lastValue - lastValue := by
  induction events generalizing enricher lastValue with
  | nil => simp [run, weightedSum, acceptedValues]
  | cons event events ih =>
    cases found : event.value with
    | none =>
      have same := run_rejected enricher events (Or.inl found)
      rw [same.1, same.2, ih timed unit plain recorded]
    | some current =>
      by_cases later : enricher.lastTime < event.timestamp
      · obtain ⟨values, sum⟩ := run_accepted found later events
        have next := timed.onEvent event
        rw [values, sum, List.getLastD_cons]
        rw [onEvent_accepted found later] at next ⊢
        rw [ih next unit plain rfl, recorded, plain]
        have gained := delta_elapsed timed unit recorded later current
        simp only [Option.map_some, Option.getD_some, id_eq]
        rw [gained]
        ring
      · have same := run_rejected enricher events (Or.inr later)
        rw [same.1, same.2, ih timed unit plain recorded]

/-- Nothing is emitted for the first accepted event, and its value is where the sum starts. -/
theorem weightedSum_of_new (timed : Timed enricher) (unit : enricher.unitMillis ≠ 0)
    (plain : enricher.postProcessor = id) (new : enricher.lastValue = none)
    (events : List DeltaEvent) {first : ℚ}
    (head : (acceptedValues (run enricher events)).head? = some first) :
    weightedSum (run enricher events) =
      (acceptedValues (run enricher events)).getLastD first - first := by
  induction events generalizing enricher with
  | nil => cases head
  | cons event events ih =>
    cases found : event.value with
    | none =>
      have same := run_rejected enricher events (Or.inl found)
      rw [same.1] at head ⊢
      rw [same.2, ih timed unit plain new head]
    | some current =>
      by_cases later : enricher.lastTime < event.timestamp
      · obtain ⟨values, sum⟩ := run_accepted found later events
        have next := timed.onEvent event
        rw [values] at head ⊢
        obtain rfl : current = first := Option.some.inj head
        rw [sum, List.getLastD_cons]
        rw [onEvent_accepted found later] at next ⊢
        rw [weightedSum_of_recorded next unit plain rfl, new]
        simp
      · have same := run_rejected enricher events (Or.inr later)
        rw [same.1] at head ⊢
        rw [same.2, ih timed unit plain new head]

end Runs

/-- For every sequence of events the rates of the accepted ones, each times the time it is over,
add up to the last accepted value less the first. An event that is not accepted leaves the enricher
as it was; it sets the rate zero if its value is null, and nothing if it is late. -/
theorem rates_telescope (unitMillis : Int32) (unit : unitMillis ≠ 0) (events : List DeltaEvent) :
    (∀ first ∈ (acceptedValues (run (create unitMillis id) events)).head?,
      ∀ last ∈ (acceptedValues (run (create unitMillis id) events)).getLast?,
        weightedSum (run (create unitMillis id) events) = last - first) ∧
      ∀ postProcessor, ∀ step ∈ run (create unitMillis postProcessor) events,
        step.accepted = false →
          step.after = step.before ∧
            step.emitted = if step.event.value = none then some (postProcessor 0) else none := by
  refine ⟨fun first head last final => ?_, fun postProcessor step member rejected =>
    rejected_step member rejected⟩
  have sum := weightedSum_of_new (timed_create unitMillis id) unit rfl rfl events head
  rw [sum, List.getLastD_eq_getLast?, Option.mem_def.mp final, Option.getD_some]

/-- One request in the second after the first. -/
theorem one_request_telescopes :
    weightedSum (run (create 1000 id) [⟨some 4, 1000⟩, ⟨some 5, 2000⟩]) = 5 - 4 := by
  refine (rates_telescope 1000 (by decide) [⟨some 4, 1000⟩, ⟨some 5, 2000⟩]).1 4 ?_ 5 ?_ <;> rfl

/-- A null value is not accepted, and the rate zero is emitted for it. -/
theorem null_value_emits :
    ¬ ∀ step ∈ run (create 1000 id) [⟨some 4, 1000⟩, ⟨none, 2000⟩],
      step.accepted = false → step.emitted = none ∧ step.after = step.before := by
  intro silent
  have second := (silent _ (List.mem_cons_of_mem _ (List.mem_singleton_self _)) rfl).1
  cases second

end TimeWeightedDeltaEnricher
end Brooklyn
