import Brooklyn.Transition

/-!
`AttributeMap`, and the updates of the attributes of one entity by any threads. `update` puts the
value and then publishes it, with nothing that keeps the two together: two updates may publish
in the other order than they put. Two sensors of one name have one value in the map, and their
events are still of two sensors. The entity is managed, so publishing gives the event to its
subscribers, in order; one of them keeps the last event of each sensor that it has seen.
-/

namespace Brooklyn

structure AttributeSensor where
  typeName : String
  name : String
  description : String
deriving DecidableEq

def AttributeSensor.getNameParts (sensor : AttributeSensor) : List String :=
  (sensor.name.toList.splitOn '.').map String.ofList

theorem AttributeSensor.getNameParts_ne_nil (sensor : AttributeSensor) :
    sensor.getNameParts ≠ [] := by
  unfold getNameParts
  simp [List.splitOn, List.splitOnP_ne_nil]

variable {Value Thread : Type}

/-- What `values` has for a path: `NULL` stands for a null. -/
inductive StoredValue (Value : Type) where
  | NULL
  | present (value : Value)
deriving DecidableEq

def StoredValue.ofNullable : Option Value → StoredValue Value
  | none => .NULL
  | some value => .present value

def StoredValue.toNullable : StoredValue Value → Option Value
  | .NULL => none
  | .present value => some value

structure AttributeMap (Value : Type) where
  values : List String → Option (StoredValue Value)

inductive AttributeFault where
  | illegalArgument

namespace AttributeMap
open Transition

def empty : AttributeMap Value := ⟨fun _ => none⟩

def checkPath (path : List String) : Except AttributeFault Unit :=
  if path = [] then .error .illegalArgument else .ok ()

/-- The old value, and the map with the new one. -/
def updatePath (path : List String) (newValue : Option Value) (map : AttributeMap Value) :
    Except AttributeFault (Option Value × AttributeMap Value) := do
  checkPath path
  return ((map.values path).bind StoredValue.toNullable,
    ⟨Function.update map.values path (some (.ofNullable newValue))⟩)

def getValuePath (path : List String) (map : AttributeMap Value) :
    Except AttributeFault (Option Value) := do
  checkPath path
  return (map.values path).bind StoredValue.toNullable

def updateWithoutPublishing (sensor : AttributeSensor) (newValue : Option Value)
    (map : AttributeMap Value) : Except AttributeFault (Option Value × AttributeMap Value) :=
  map.updatePath sensor.getNameParts newValue

def getValue (sensor : AttributeSensor) (map : AttributeMap Value) :
    Except AttributeFault (Option Value) :=
  map.getValuePath sensor.getNameParts

theorem checkPath_getNameParts (sensor : AttributeSensor) :
    checkPath sensor.getNameParts = .ok () :=
  if_neg sensor.getNameParts_ne_nil

/-- A sensor has a path, so its update puts the value. -/
theorem updateWithoutPublishing_eq (sensor : AttributeSensor) (newValue : Option Value)
    (map : AttributeMap Value) :
    map.updateWithoutPublishing sensor newValue =
      .ok ((map.values sensor.getNameParts).bind StoredValue.toNullable,
        ⟨Function.update map.values sensor.getNameParts (some (.ofNullable newValue))⟩) := by
  unfold updateWithoutPublishing updatePath
  rw [checkPath_getNameParts]
  rfl

theorem getValue_eq (sensor : AttributeSensor) (map : AttributeMap Value) :
    map.getValue sensor = .ok ((map.values sensor.getNameParts).bind StoredValue.toNullable) := by
  unfold getValue getValuePath
  rw [checkPath_getNameParts]
  rfl

/-- A value that is published, or is to be. -/
structure Announcement (Value : Type) where
  sensor : AttributeSensor
  value : Option Value
deriving DecidableEq

/-- `publishing` has the calls of `update` that have put their value and not yet published it.
`seen` is what the subscriber keeps. The rest says what happened: the sensors that were updated,
everything published, and for each path the thread that put last, until that one publishes. -/
structure State (Value Thread : Type) where
  map : AttributeMap Value
  publishing : Thread → Option (Announcement Value)
  inFlight : List (Announcement Value)
  seen : AttributeSensor → Option (Option Value)
  updated : List AttributeSensor
  published : List (Announcement Value)
  newest : List String → Option Thread

inductive Action (Value Thread : Type) where
  | update (thread : Thread) (sensor : AttributeSensor) (newValue : Option Value)
  | emitInternal (thread : Thread)
  | deliver

/-- The subscriber keeps the last event. -/
def keep (seen : AttributeSensor → Option (Option Value)) (event : Announcement Value) :
    AttributeSensor → Option (Option Value) :=
  Function.update seen event.sensor (some event.value)

namespace State

def lastPublished (state : State Value Thread) : AttributeSensor → Option (Option Value) :=
  state.published.foldl keep fun _ => none

def current (state : State Value Thread) (sensor : AttributeSensor) : Option Value :=
  (state.map.values sensor.getNameParts).bind StoredValue.toNullable

/-- No call is in progress. -/
def Quiescent (state : State Value Thread) : Prop := ∀ thread, state.publishing thread = none

variable [DecidableEq Thread]

def put (state : State Value Thread) (thread : Thread) (sensor : AttributeSensor)
    (newValue : Option Value) : State Value Thread :=
  match state.map.updateWithoutPublishing sensor newValue with
  | .error _ => state
  | .ok (_, map) =>
      { state with
        map := map
        publishing := Function.update state.publishing thread (some ⟨sensor, newValue⟩)
        updated := sensor :: state.updated
        newest := Function.update state.newest sensor.getNameParts (some thread) }

def publish (state : State Value Thread) (thread : Thread) (event : Announcement Value) :
    State Value Thread :=
  { state with
    publishing := Function.update state.publishing thread none
    inFlight := state.inFlight ++ [event]
    published := state.published ++ [event]
    newest :=
      if state.newest event.sensor.getNameParts = some thread then
        Function.update state.newest event.sensor.getNameParts none
      else state.newest }

end State

variable [DecidableEq Thread]

def step (state : State Value Thread) : Action Value Thread → Option (State Value Thread)
  | .update thread sensor newValue =>
      match state.publishing thread with
      | none => some (state.put thread sensor newValue)
      | some _ => none
  | .emitInternal thread => (state.publishing thread).map (state.publish thread)
  | .deliver =>
      match state.inFlight with
      | [] => none
      | event :: rest => some { state with inFlight := rest, seen := keep state.seen event }

def updates (Value Thread : Type) [DecidableEq Thread] :
    System (State Value Thread) (Action Value Thread) where
  initial :=
    { map := .empty, publishing := fun _ => none, inFlight := [], seen := fun _ => none,
      updated := [], published := [], newest := fun _ => none }
  step := step

/-- No sensor is updated that shares its name with another one that was. What is published is
the current value, unless the update that put that value has yet to publish it. -/
def orderly [DecidableEq Value] (state : State Value Thread) : Action Value Thread → Bool
  | .update _ sensor _ =>
      state.updated.all fun other =>
        decide (other.getNameParts = sensor.getNameParts → other = sensor)
  | .emitInternal thread =>
      (state.publishing thread).all fun event =>
        decide (state.current event.sensor = event.value) ||
          (state.newest event.sensor.getNameParts).any fun other => other ≠ thread
  | .deliver => true

omit [DecidableEq Thread] in
theorem current_getValue (state : State Value Thread) (sensor : AttributeSensor) :
    state.map.getValue sensor = .ok (state.current sensor) :=
  getValue_eq sensor state.map

section Steps
variable (state : State Value Thread) (thread : Thread)

theorem put_eq (sensor : AttributeSensor) (newValue : Option Value) :
    state.put thread sensor newValue =
      { state with
        map := ⟨Function.update state.map.values sensor.getNameParts (some (.ofNullable newValue))⟩
        publishing := Function.update state.publishing thread (some ⟨sensor, newValue⟩)
        updated := sensor :: state.updated
        newest := Function.update state.newest sensor.getNameParts (some thread) } := by
  unfold State.put
  rw [updateWithoutPublishing_eq]

theorem current_put (sensor other : AttributeSensor) (newValue : Option Value) :
    (state.put thread sensor newValue).current other =
      if other.getNameParts = sensor.getNameParts then newValue else state.current other := by
  rw [put_eq]
  unfold State.current
  by_cases same : other.getNameParts = sensor.getNameParts
  · rw [if_pos same, same]
    dsimp only
    rw [Function.update_self]
    cases newValue with
    | none => rfl
    | some value => rfl
  · rw [if_neg same]
    dsimp only
    rw [Function.update_of_ne same]

theorem newest_publish (event : Announcement Value) (path : List String) :
    (state.publish thread event).newest path =
      if path = event.sensor.getNameParts ∧ state.newest path = some thread then none
      else state.newest path := by
  unfold State.publish
  dsimp only
  by_cases mine : state.newest event.sensor.getNameParts = some thread
  · rw [if_pos mine]
    by_cases same : path = event.sensor.getNameParts
    · rw [if_pos ⟨same, same ▸ mine⟩, same, Function.update_self]
    · rw [if_neg fun both => same both.1, Function.update_of_ne same]
  · rw [if_neg mine, if_neg]
    rintro ⟨rfl, newest⟩
    exact mine newest

theorem lastPublished_publish (event : Announcement Value) :
    (state.publish thread event).lastPublished = keep state.lastPublished event := by
  unfold State.publish State.lastPublished
  rw [List.foldl_append]
  rfl

theorem lastPublished_put (sensor : AttributeSensor) (newValue : Option Value) :
    (state.put thread sensor newValue).lastPublished = state.lastPublished := by
  rw [put_eq]
  rfl

theorem updated_put (sensor : AttributeSensor) (newValue : Option Value) :
    (state.put thread sensor newValue).updated = sensor :: state.updated := by
  rw [put_eq]

end Steps

/-- What the state says of the events: a path whose newest put is not published has a call that
will publish the current value, and any other has it published. -/
structure Announced (state : State Value Thread) : Prop where
  waiting : ∀ path thread, state.newest path = some thread →
    ∃ event, state.publishing thread = some event ∧ event.sensor.getNameParts = path ∧
      state.current event.sensor = event.value
  known : ∀ thread event, state.publishing thread = some event → event.sensor ∈ state.updated
  alone : ∀ one ∈ state.updated, ∀ other ∈ state.updated,
    one.getNameParts = other.getNameParts → one = other
  last : ∀ sensor value, state.lastPublished sensor = some value →
    sensor ∈ state.updated ∧
      (state.newest sensor.getNameParts = none → state.current sensor = value)
  delivered : state.inFlight.foldl keep state.seen = state.lastPublished

section Invariant
variable {state : State Value Thread}

theorem Announced.put (announced : Announced state) {thread : Thread} {sensor : AttributeSensor}
    (newValue : Option Value) (idle : state.publishing thread = none)
    (unshared : ∀ other ∈ state.updated,
      other.getNameParts = sensor.getNameParts → other = sensor) :
    Announced (state.put thread sensor newValue) := by
  have kept (other : AttributeSensor) (different : other.getNameParts ≠ sensor.getNameParts) :
      (state.put thread sensor newValue).current other = state.current other := by
    rw [current_put, if_neg different]
  constructor
  · intro path putter named
    by_cases same : path = sensor.getNameParts
    · subst same
      have mine : thread = putter := by simpa [put_eq] using named
      subst mine
      exact ⟨⟨sensor, newValue⟩, by simp [put_eq], rfl, by rw [current_put, if_pos rfl]⟩
    · have before : state.newest path = some putter := by simpa [put_eq, same] using named
      obtain ⟨event, publishing, there, current⟩ := announced.waiting path putter before
      have different : putter ≠ thread := by
        rintro rfl
        rw [idle] at publishing
        cases publishing
      refine ⟨event, ?_, there, (kept event.sensor (there ▸ same)).trans current⟩
      simpa [put_eq, Function.update_of_ne different] using publishing
  · intro putter event publishing
    rw [updated_put]
    rw [put_eq] at publishing
    by_cases mine : putter = thread
    · subst mine
      obtain rfl : (⟨sensor, newValue⟩ : Announcement Value) = event := by simpa using publishing
      exact List.mem_cons_self
    · exact List.mem_cons_of_mem _ (announced.known putter event
        (by simpa [Function.update_of_ne mine] using publishing))
  · rw [updated_put]
    intro one first other second same
    rcases List.mem_cons.mp first with rfl | earlier <;>
      rcases List.mem_cons.mp second with rfl | had
    · rfl
    · exact (unshared other had same.symm).symm
    · exact unshared one earlier same
    · exact announced.alone one earlier other had same
  · intro other value event
    rw [lastPublished_put] at event
    obtain ⟨before, current⟩ := announced.last other value event
    rw [updated_put]
    refine ⟨List.mem_cons_of_mem _ before, fun settled => ?_⟩
    by_cases same : other.getNameParts = sensor.getNameParts
    · simp [put_eq, same] at settled
    · rw [kept other same]
      exact current (by simpa [put_eq, same] using settled)
  · have := announced.delivered
    rw [put_eq]
    exact this

theorem Announced.publish (announced : Announced state) {thread : Thread}
    {event : Announcement Value} (publishing : state.publishing thread = some event)
    (current : state.newest event.sensor.getNameParts = none →
      state.current event.sensor = event.value) :
    Announced (state.publish thread event) := by
  have others {putter : Thread} (different : putter ≠ thread) :
      (state.publish thread event).publishing putter = state.publishing putter :=
    Function.update_of_ne different _ _
  have finished : (state.publish thread event).publishing thread = none :=
    Function.update_self ..
  constructor
  · intro path putter named
    rw [newest_publish] at named
    split at named
    · cases named
    next unfinished =>
    obtain ⟨other, pending, there, now⟩ := announced.waiting path putter named
    have different : putter ≠ thread := by
      rintro rfl
      rw [publishing] at pending
      cases pending
      exact unfinished ⟨there.symm, named⟩
    exact ⟨other, (others different).trans pending, there, now⟩
  · intro putter other pending
    by_cases mine : putter = thread
    · rw [mine, finished] at pending
      cases pending
    · exact announced.known putter other ((others mine).symm.trans pending)
  · exact announced.alone
  · intro sensor value last
    rw [lastPublished_publish, keep] at last
    rw [newest_publish]
    by_cases same : sensor = event.sensor
    · subst same
      obtain rfl : event.value = value := by simpa using last
      refine ⟨announced.known thread event publishing, fun settled => ?_⟩
      by_cases mine : state.newest event.sensor.getNameParts = some thread
      · obtain ⟨other, pending, -, now⟩ := announced.waiting _ thread mine
        rw [publishing] at pending
        cases pending
        exact now
      · rw [if_neg fun both => mine both.2] at settled
        exact current settled
    · rw [Function.update_of_ne same] at last
      obtain ⟨there, now⟩ := announced.last sensor value last
      refine ⟨there, fun settled => now ?_⟩
      rwa [if_neg fun both => same (announced.alone sensor there event.sensor
        (announced.known thread event publishing) both.1)] at settled
  · rw [lastPublished_publish, ← announced.delivered]
    exact List.foldl_append ..

omit [DecidableEq Thread] in
theorem Announced.deliver (announced : Announced state) {event : Announcement Value}
    {rest : List (Announcement Value)} (inFlight : state.inFlight = event :: rest) :
    Announced { state with inFlight := rest, seen := keep state.seen event } where
  waiting := announced.waiting
  known := announced.known
  alone := announced.alone
  last := announced.last
  delivered := by
    have := announced.delivered
    rwa [inFlight] at this

variable [DecidableEq Value]

theorem announced_of_reached (run : Reached (updates Value Thread) orderly state) :
    Announced state := by
  refine reached_invariant Announced ?_ ?_ run
  · constructor <;> simp [updates, State.lastPublished]
  · intro before action after _ announced allowed moved
    cases action with
    | update thread sensor newValue =>
      change (match before.publishing thread with
        | none => some (before.put thread sensor newValue)
        | some _ => none) = some after at moved
      cases idle : before.publishing thread with
      | some event => simp [idle] at moved
      | none =>
        rw [idle] at moved
        obtain rfl := Option.some.inj moved
        exact announced.put newValue idle fun other there =>
          of_decide_eq_true (List.all_eq_true.mp allowed other there)
    | emitInternal thread =>
      obtain ⟨event, publishing, rfl⟩ := Option.map_eq_some_iff.mp moved
      refine announced.publish publishing fun settled => ?_
      simpa [orderly, publishing, settled] using allowed
    | deliver =>
      cases inFlight : before.inFlight with
      | nil => simp [updates, step, inFlight] at moved
      | cons event rest =>
        simp only [updates, step, inFlight, Option.some.injEq] at moved
        subst moved
        exact announced.deliver inFlight

/-- The last event published for a sensor has the value that the map holds, and the subscriber
has seen it once the events are delivered. -/
def Agrees (state : State Value Thread) : Prop :=
  ∀ sensor value, state.lastPublished sensor = some value →
    state.map.getValue sensor = .ok value ∧
      (state.inFlight = [] → state.seen sensor = some value)

/-- No call is in progress after updates that publish in order, one sensor a name. -/
theorem last_event_current (run : Reached (updates Value Thread) orderly state)
    (quiescent : state.Quiescent) : Agrees state := by
  have announced := announced_of_reached run
  intro sensor value last
  constructor
  · rw [current_getValue]
    refine congrArg _ ((announced.last sensor value last).2 ?_)
    cases newest : state.newest sensor.getNameParts with
    | none => rfl
    | some thread =>
      obtain ⟨event, publishing, -⟩ := announced.waiting _ thread newest
      rw [quiescent thread] at publishing
      cases publishing
  · intro delivered
    have same := announced.delivered
    rw [delivered, List.foldl_nil] at same
    rwa [same]

end Invariant

/-- The thread that put last publishes first. -/
theorem publishes_overtake :
    ¬ ∀ state : State Nat Bool, Reached (updates Nat Bool) anyStep state →
      state.Quiescent → Agrees state := by
  intro claimed
  let sensor : AttributeSensor := ⟨"int", "requests", ""⟩
  have shown := replay_shows (updates Nat Bool) anyStep
    [.update false sensor (some 1), .update true sensor (some 2), .emitInternal true,
      .emitInternal false]
    (fun state => decide (state.publishing false = none ∧ state.publishing true = none ∧
      state.current sensor = some 2 ∧ state.lastPublished sensor = some (some 1)))
    (by decide +kernel)
  obtain ⟨state, run, shown⟩ := shown
  obtain ⟨first, second, current, last⟩ := of_decide_eq_true shown
  have quiescent : state.Quiescent := fun thread => by
    cases thread
    · exact first
    · exact second
  obtain ⟨held, -⟩ := claimed state run quiescent sensor (some 1) last
  rw [current_getValue, current] at held
  cases held

/-- Two threads whose updates overlap, and publish in the order of their puts. -/
theorem overlapping_updates_agree : ∃ state : State Nat Bool, state.published.length = 2 ∧
    Agrees state := by
  let sensor : AttributeSensor := ⟨"int", "requests", ""⟩
  have shown := replay_shows (updates Nat Bool) orderly
    [.update false sensor (some 1), .update true sensor (some 2), .emitInternal false,
      .emitInternal true, .deliver, .deliver]
    (fun state => decide (state.publishing false = none ∧ state.publishing true = none ∧
      state.published.length = 2))
    (by decide +kernel)
  obtain ⟨state, run, shown⟩ := shown
  obtain ⟨first, second, published⟩ := of_decide_eq_true shown
  exact ⟨state, published, last_event_current run fun thread => by
    cases thread
    · exact first
    · exact second⟩

end AttributeMap
end Brooklyn
