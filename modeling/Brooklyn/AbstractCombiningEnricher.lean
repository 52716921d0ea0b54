import Brooklyn.Mailbox
import Brooklyn.Transition

/-!
`AbstractCombiningEnricher`: the thread of `setEntity`, the thread that delivers the events, and
the updates of the source sensors, one at a time for each sensor. Both threads run the same
handler, with nothing that keeps them apart: it sets the field, counts, and, if every field has
been set, computes from the fields, which it reads one by one, and sets the target. A
subscription has a field of its own; handlers do not throw.
-/

namespace Brooklyn.AbstractCombiningEnricher
open Transition Mailbox

/-- The `SubscriptionDetails`, in the order of `subscribe`; without any the set is null. `compute`
is given what it reads in the fields. -/
structure Enricher (Details Sensor Value Target : Type) where
  subscriptions : List Details
  sensor : Details → Sensor
  compute : List (Option Value) → Target

variable {Details Sensor Value Target : Type}

inductive Handler (Details Value Target : Type) where
  | setting (s : Details) (value : Value)
  | counting (s : Details)
  | checking (rest : List Details)
  | computing (rest : List Details) (read : List (Option Value))
  | setAttribute (value : Target)
deriving DecidableEq

/-- A loop over `rest`. -/
inductive SetEntity (Details Value Target : Type) where
  | looping (rest : List Details)
  | reading (s : Details) (rest : List Details)
  | handling (handler : Handler Details Value Target) (rest : List Details)
  | nullPointer
deriving DecidableEq

/-- What the handlers change; `target` is the last value published. -/
structure Shared (Details Value Target : Type) where
  field : Details → Option Value
  count : Details → Nat
  target : Option Target

/-- `publishing` has the updates that have put their value and not yet published it. -/
structure State (Details Sensor Value Target : Type) where
  value : Sensor → Option Value
  publishing : Sensor → Option Value
  subscribed : List Details
  inFlight : List (Details × Value)
  shared : Shared Details Value Target
  setEntity : SetEntity Details Value Target
  delivering : Option (Handler Details Value Target)

inductive Action (Sensor Value : Type) where
  | put (sensor : Sensor) (value : Value)
  | publish (sensor : Sensor)
  | deliver
  | onEvent
  | setEntity

namespace SetEntity

/-- Not yet subscribed. -/
def ahead : SetEntity Details Value Target → List Details
  | .looping rest | .reading _ rest | .handling _ rest => rest
  | .nullPointer => []

/-- Not yet read. -/
def remaining : SetEntity Details Value Target → List Details
  | .looping rest | .handling _ rest => rest
  | .reading s rest => s :: rest
  | .nullPointer => []

def handler : SetEntity Details Value Target → Option (Handler Details Value Target)
  | .handling handler _ => some handler
  | _ => none

end SetEntity

variable [DecidableEq Details] (enricher : Enricher Details Sensor Value Target)

/-- One step of a handler, and where it goes on, if it does. -/
def Handler.step (shared : Shared Details Value Target) : Handler Details Value Target →
    Shared Details Value Target × Option (Handler Details Value Target)
  | .setting s value =>
      ({ shared with field := Function.update shared.field s (some value) }, some (.counting s))
  | .counting s =>
      ({ shared with count := Function.update shared.count s (shared.count s + 1) },
        some (.checking enricher.subscriptions))
  | .checking [] => (shared, some (.computing enricher.subscriptions []))
  | .checking (s :: rest) => (shared, if shared.count s = 0 then none else some (.checking rest))
  | .computing [] read => (shared, some (.setAttribute (enricher.compute read)))
  | .computing (s :: rest) read => (shared, some (.computing rest (read ++ [shared.field s])))
  | .setAttribute value => ({ shared with target := some value }, none)

/-- One step of `setEntity`, after the entity itself is set. -/
def setEntityStep (state : State Details Sensor Value Target) :
    Option (State Details Sensor Value Target) :=
  match state.setEntity with
  | .looping [] | .nullPointer => none
  | .looping (s :: rest) =>
      some { state with subscribed := state.subscribed ++ [s], setEntity := .reading s rest }
  | .reading s rest =>
      match state.value (enricher.sensor s) with
      | none => some { state with setEntity := .looping rest }
      | some value => some { state with setEntity := .handling (.setting s value) rest }
  | .handling handler rest =>
      let (shared, next) := handler.step enricher state.shared
      some { state with
        shared := shared
        setEntity :=
          match next with
          | some handler => .handling handler rest
          | none => .looping rest }

section Steps
variable [DecidableEq Sensor]

def receivers (state : State Details Sensor Value Target) (sensor : Sensor) : List Details :=
  state.subscribed.filter fun s => enricher.sensor s = sensor

def step (state : State Details Sensor Value Target) :
    Action Sensor Value → Option (State Details Sensor Value Target)
  | .put sensor value =>
      match state.publishing sensor with
      | some _ => none
      | none =>
          some { state with
            value := Function.update state.value sensor (some value)
            publishing := Function.update state.publishing sensor (some value) }
  | .publish sensor =>
      (state.publishing sensor).map fun value =>
        { state with
          publishing := Function.update state.publishing sensor none
          inFlight :=
            state.inFlight ++ (receivers enricher state sensor).map fun s => (s, value) }
  | .deliver =>
      match state.delivering, state.inFlight with
      | none, (s, value) :: rest =>
          some { state with inFlight := rest, delivering := some (.setting s value) }
      | _, _ => none
  | .onEvent =>
      state.delivering.map fun handler =>
        let (shared, next) := handler.step enricher state.shared
        { state with shared := shared, delivering := next }
  | .setEntity => setEntityStep enricher state

/-- `setEntity` begins, with what the sensors have. -/
def enriching (initially : Sensor → Option Value) :
    System (State Details Sensor Value Target) (Action Sensor Value) where
  initial :=
    { value := initially
      publishing := fun _ => none
      subscribed := []
      inFlight := []
      shared := ⟨fun _ => none, fun _ => 0, none⟩
      setEntity :=
        if enricher.subscriptions.isEmpty then .nullPointer else .looping enricher.subscriptions
      delivering := none }
  step := step enricher

end Steps

/-- What the target should be. -/
def combined (shared : Shared Details Value Target) : Target :=
  enricher.compute (enricher.subscriptions.map shared.field)

/-- No call and no event is in progress. -/
structure Quiescent (state : State Details Sensor Value Target) : Prop where
  ended : state.setEntity = .looping [] ∨ state.setEntity = .nullPointer
  updated : ∀ sensor, state.publishing sensor = none
  delivered : state.inFlight = []
  handled : state.delivering = none

/-- The fields are current, and so is the target once there is a value for each of them. -/
structure Current (state : State Details Sensor Value Target) : Prop where
  fields : ∀ s ∈ enricher.subscriptions, ∀ value,
    state.value (enricher.sensor s) = some value → state.shared.field s = some value
  target : (∀ s ∈ enricher.subscriptions, (state.value (enricher.sensor s)).isSome) →
    state.shared.target = some (enricher.compute
      (enricher.subscriptions.map fun s => state.value (enricher.sensor s)))

section Guard
variable [DecidableEq Value] [DecidableEq Target]

/-- A handler that will set the target to what the fields give now. -/
def Handler.fresh (shared : Shared Details Value Target) : Handler Details Value Target → Bool
  | .setting _ _ | .counting _ => true
  | .checking rest => rest.all (· ∈ enricher.subscriptions)
  | .computing rest read =>
      read ++ rest.map shared.field = enricher.subscriptions.map shared.field
  | .setAttribute value => value = combined enricher shared

def anyFresh (shared : Shared Details Value Target)
    (handler : Option (Handler Details Value Target)) : Bool :=
  handler.any (Handler.fresh enricher shared)

/-- A handler is still to come. -/
def pending (state : State Details Sensor Value Target) : Bool :=
  !state.inFlight.isEmpty ||
    state.subscribed.any (fun s => (state.publishing (enricher.sensor s)).isSome) ||
      state.setEntity.remaining.any fun s => (state.value (enricher.sensor s)).isSome

/-- What is set is what the fields give now, or the other thread or a handler to come will set
the target after that. -/
def maySetAttribute (state : State Details Sensor Value Target)
    (other : Option (Handler Details Value Target)) (value : Target) : Bool :=
  value = combined enricher state.shared || pending enricher state ||
    anyFresh enricher state.shared other

/-- What `setEntity` has read is the value still, or an event of the sensor is to be applied. -/
def mayApply (state : State Details Sensor Value Target) (s : Details) (value : Value) : Bool :=
  state.value (enricher.sensor s) = some value ||
    (state.publishing (enricher.sensor s)).isSome || (latest s state.inFlight).isSome ||
      state.delivering.any fun handler =>
        match handler with
        | .setting other _ => other = s
        | _ => false

def timely (state : State Details Sensor Value Target) : Action Sensor Value → Bool
  | .onEvent =>
      match state.delivering with
      | some (.setAttribute value) =>
          maySetAttribute enricher state state.setEntity.handler value
      | _ => true
  | .setEntity =>
      match state.setEntity with
      | .handling (.setting s value) _ => mayApply enricher state s value
      | .handling (.setAttribute value) _ =>
          maySetAttribute enricher state state.delivering value
      | _ => true
  | _ => true

end Guard

section Handlers
variable {enricher} {shared : Shared Details Value Target}
  {handler : Handler Details Value Target} {other : Option (Handler Details Value Target)}

/-- A field that is set is counted, or about to be. -/
def Counted (shared : Shared Details Value Target)
    (one other : Option (Handler Details Value Target)) : Prop :=
  ∀ s value, shared.field s = some value →
    0 < shared.count s ∨ one = some (.counting s) ∨ other = some (.counting s)

omit [DecidableEq Details] in
theorem Counted.swap {one other : Option (Handler Details Value Target)}
    (counted : Counted shared one other) : Counted shared other one :=
  fun s value set => (counted s value set).imp_right Or.symm

theorem Counted.step (counted : Counted shared (some handler) other) :
    Counted (handler.step enricher shared).1 (handler.step enricher shared).2 other := by
  cases handler with
  | setting s value =>
    intro other' value' set
    by_cases same : other' = s
    · exact Or.inr (Or.inl (same ▸ rfl))
    · rw [Handler.step] at set
      dsimp only at set
      rw [Function.update_of_ne same] at set
      rcases counted other' value' set with before | here | there
      · exact Or.inl before
      · cases here
      · exact Or.inr (Or.inr there)
  | counting s =>
    intro other' value' set
    by_cases same : other' = s
    · subst same
      exact Or.inl (by simp [Handler.step])
    · rcases counted other' value' set with before | here | there
      · exact Or.inl (by simpa [Handler.step, same] using before)
      · cases here
        exact absurd rfl same
      · exact Or.inr (Or.inr there)
  | checking rest =>
    intro other' value' set
    cases rest with
    | nil => exact (counted other' value' set).imp_right (Or.imp_left nofun)
    | cons first rest => exact (counted other' value' set).imp_right (Or.imp_left nofun)
  | computing rest read =>
    intro other' value' set
    cases rest with
    | nil => exact (counted other' value' set).imp_right (Or.imp_left nofun)
    | cons first rest => exact (counted other' value' set).imp_right (Or.imp_left nofun)
  | setAttribute value =>
    exact fun other' value' set => (counted other' value' set).imp_right (Or.imp_left nofun)

/-- What a step of a handler does to the fields. -/
theorem Handler.step_field (handler : Handler Details Value Target)
    (enricher : Enricher Details Sensor Value Target) (shared : Shared Details Value Target)
    (s : Details) :
    (handler.step enricher shared).1.field s = shared.field s ∨
      ∃ value, handler = .setting s value ∧
        (handler.step enricher shared).1.field s = some value := by
  cases handler with
  | setting other value =>
    by_cases same : s = other
    · subst same
      exact Or.inr ⟨value, rfl, Function.update_self ..⟩
    · exact Or.inl (Function.update_of_ne same ..)
  | counting other => exact Or.inl rfl
  | checking rest =>
    cases rest with
    | _ => exact Or.inl rfl
  | computing rest read =>
    cases rest with
    | _ => exact Or.inl rfl
  | setAttribute value => exact Or.inl rfl

/-- No handler goes on to set a field. -/
theorem Handler.step_next (s : Details) (value : Value) :
    (handler.step enricher shared).2 ≠ some (.setting s value) := by
  cases handler with
  | checking rest =>
    cases rest with
    | nil => nofun
    | cons first rest =>
      dsimp only [Handler.step]
      split
      · nofun
      · nofun
  | computing rest read =>
    cases rest with
    | _ => nofun
  | _ => nofun

variable [DecidableEq Value] [DecidableEq Target]

/-- Once all fields are counted the target is what they give, or will be set to it. -/
def Output (enricher : Enricher Details Sensor Value Target)
    (shared : Shared Details Value Target) (one other : Option (Handler Details Value Target))
    (pending : Prop) : Prop :=
  (∀ s ∈ enricher.subscriptions, 0 < shared.count s) →
    shared.target = some (combined enricher shared) ∨ pending ∨
      anyFresh enricher shared one = true ∨ anyFresh enricher shared other = true

theorem Output.swap {one other : Option (Handler Details Value Target)} {pending : Prop}
    (output : Output enricher shared one other pending) :
    Output enricher shared other one pending :=
  fun counted => (output counted).imp_right (Or.imp_right Or.symm)

theorem Output.mono {one other : Option (Handler Details Value Target)} {pending later : Prop}
    (output : Output enricher shared one other pending)
    (kept : pending → later ∨ anyFresh enricher shared one = true) :
    Output enricher shared one other later := by
  intro counted
  rcases output counted with right | pends | fresh
  · exact Or.inl right
  · rcases kept pends with pends | fresh
    · exact Or.inr (Or.inl pends)
    · exact Or.inr (Or.inr (Or.inl fresh))
  · exact Or.inr (Or.inr fresh)

/-- A handler that is fresh stays so in a step of its own that leaves the target alone. -/
theorem Output.step {pending : Prop}
    (output : Output enricher shared (some handler) other pending)
    (timely : ∀ value, handler = .setAttribute value →
      value = combined enricher shared ∨ pending ∨ anyFresh enricher shared other = true) :
    Output enricher (handler.step enricher shared).1 (handler.step enricher shared).2 other
      pending := by
  cases handler with
  | setting s value => exact fun _ => Or.inr (Or.inr (Or.inl rfl))
  | counting s =>
    exact fun _ => Or.inr (Or.inr (Or.inl (by simp [Handler.step, anyFresh, Handler.fresh])))
  | checking rest =>
    intro counted
    cases rest with
    | nil => exact Or.inr (Or.inr (Or.inl (by simp [Handler.step, anyFresh, Handler.fresh])))
    | cons first rest =>
      refine (output counted).imp_right (Or.imp_right (Or.imp_left fun fresh => ?_))
      have bound : ∀ s ∈ first :: rest, s ∈ enricher.subscriptions := by
        simpa [anyFresh, Handler.fresh] using fresh
      have positive := counted first (bound first List.mem_cons_self)
      dsimp only [Handler.step] at positive ⊢
      rw [if_neg (by omega)]
      simpa [anyFresh, Handler.fresh] using fun s there => bound s (List.mem_cons_of_mem _ there)
  | computing rest read =>
    intro counted
    cases rest with
    | nil =>
      refine (output counted).imp_right (Or.imp_right (Or.imp_left fun fresh => ?_))
      have all : read = enricher.subscriptions.map shared.field := by
        simpa [anyFresh, Handler.fresh] using fresh
      simp [Handler.step, anyFresh, Handler.fresh, combined, all]
    | cons first rest =>
      refine (output counted).imp_right (Or.imp_right (Or.imp_left fun fresh => ?_))
      simpa [Handler.step, anyFresh, Handler.fresh] using fresh
  | setAttribute value =>
    intro _
    rcases timely value rfl with rfl | pends | fresh
    · exact Or.inl rfl
    · exact Or.inr (Or.inl pends)
    · refine Or.inr (Or.inr (Or.inr ?_))
      cases other with
      | none => cases fresh
      | some waiting =>
        cases waiting with
        | _ => exact fresh

end Handlers

end Brooklyn.AbstractCombiningEnricher
