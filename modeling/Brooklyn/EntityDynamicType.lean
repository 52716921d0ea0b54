import Brooklyn.LinkedCollections

/-!
`EntityDynamicType`: the sensors of an entity by name, and the snapshot that is taken of
them when one is asked for and the last is not valid. `published` are the notifications that
the entity emits. The snapshot goes stale exactly when a sensor is added without publishing
while the snapshot is valid.
-/

namespace Brooklyn

variable {Sensor Effector ConfigKey : Type}

structure EntityTypeSnapshot (Sensor Effector ConfigKey : Type) where
  name : String
  configKeys : LinkedMap String ConfigKey
  sensors : LinkedMap String Sensor
  effectors : List Effector

inductive SensorNotification (Sensor : Type) where
  | sensorAdded (sensor : Sensor)
  | sensorRemoved (sensor : Sensor)

/-- `snapshot` is `none` before the constructor takes the first. -/
structure EntityDynamicType (Sensor Effector ConfigKey : Type) where
  entityClass : String
  effectors : LinkedMap String Effector
  sensors : LinkedMap String Sensor
  configKeys : LinkedMap String ConfigKey
  snapshot : Option (EntityTypeSnapshot Sensor Effector ConfigKey)
  snapshotValid : Bool
  published : List (SensorNotification Sensor)

namespace EntityDynamicType

abbrev Operation (Sensor Effector ConfigKey Result : Type) : Type :=
  EntityDynamicType Sensor Effector ConfigKey →
    Result × EntityDynamicType Sensor Effector ConfigKey

def refreshSnapshot : Operation Sensor Effector ConfigKey
    (Option (EntityTypeSnapshot Sensor Effector ConfigKey)) := fun type =>
  let refreshed :=
    if type.snapshotValid then type
    else { type with
      snapshotValid := true
      snapshot := some
        { name := type.entityClass
          configKeys := type.configKeys
          sensors := type.sensors
          effectors := type.effectors.values } }
  (refreshed.snapshot, refreshed)

/-- The constructor, from what it finds on the class. -/
def create (entityClass : String) (effectors : LinkedMap String Effector)
    (sensors : LinkedMap String Sensor) (configKeys : LinkedMap String ConfigKey) :
    EntityDynamicType Sensor Effector ConfigKey :=
  (refreshSnapshot
    { entityClass, effectors, sensors, configKeys, snapshot := none, snapshotValid := false,
      published := [] }).2

def getSnapshot : Operation Sensor Effector ConfigKey
    (Option (EntityTypeSnapshot Sensor Effector ConfigKey)) :=
  refreshSnapshot

section Sensors
variable (getName : Sensor → String)

def emit (type : EntityDynamicType Sensor Effector ConfigKey)
    (notification : SensorNotification Sensor) : EntityDynamicType Sensor Effector ConfigKey :=
  { type with published := type.published ++ [notification] }

def addSensor (newSensor : Sensor) : Operation Sensor Effector ConfigKey Unit := fun type =>
  ((), emit
    { type with
      sensors := type.sensors.put (getName newSensor) newSensor
      snapshotValid := false }
    (.sensorAdded newSensor))

/-- The sensor that is there already, if any. The snapshot is left as it is. -/
def addSensorIfAbsentWithoutPublishing (newSensor : Sensor) :
    Operation Sensor Effector ConfigKey (Option Sensor) := fun type =>
  match type.sensors.get (getName newSensor) with
  | some prev => (some prev, type)
  | none => (none, { type with sensors := type.sensors.put (getName newSensor) newSensor })

def addSensorIfAbsent (newSensor : Sensor) : Operation Sensor Effector ConfigKey Unit := fun type =>
  match addSensorIfAbsentWithoutPublishing getName newSensor type with
  | (none, added) => ((), emit { added with snapshotValid := false } (.sensorAdded newSensor))
  | (some _, same) => ((), same)

def removeSensorNamed (sensorName : String) :
    Operation Sensor Effector ConfigKey (Option Sensor) := fun type =>
  match type.sensors.get sensorName with
  | some result =>
      (some result, emit
        { type with sensors := type.sensors.remove sensorName, snapshotValid := false }
        (.sensorRemoved result))
  | none => (none, type)

def removeSensor (sensor : Sensor) : Operation Sensor Effector ConfigKey Bool := fun type =>
  ((removeSensorNamed (getName sensor) type).1.isSome, (removeSensorNamed (getName sensor) type).2)

inductive Call (Sensor : Type) where
  | addSensor (newSensor : Sensor)
  | addSensorIfAbsent (newSensor : Sensor)
  | addSensorIfAbsentWithoutPublishing (newSensor : Sensor)
  | removeSensorNamed (sensorName : String)
  | removeSensor (sensor : Sensor)
  | getSnapshot

def perform (type : EntityDynamicType Sensor Effector ConfigKey) :
    Call Sensor → EntityDynamicType Sensor Effector ConfigKey
  | .addSensor newSensor => (addSensor getName newSensor type).2
  | .addSensorIfAbsent newSensor => (addSensorIfAbsent getName newSensor type).2
  | .addSensorIfAbsentWithoutPublishing newSensor =>
      (addSensorIfAbsentWithoutPublishing getName newSensor type).2
  | .removeSensorNamed sensorName => (removeSensorNamed sensorName type).2
  | .removeSensor sensor => (removeSensor getName sensor type).2
  | .getSnapshot => (getSnapshot type).2

/-- What `getSnapshot` returns has the sensors that are there. -/
def Describes (type : EntityDynamicType Sensor Effector ConfigKey) : Prop :=
  (getSnapshot type).1.map (·.sensors) = some type.sensors

def AlwaysDescribes (type : EntityDynamicType Sensor Effector ConfigKey) :
    List (Call Sensor) → Prop
  | [] => type.Describes
  | call :: rest => type.Describes ∧ AlwaysDescribes (type.perform getName call) rest

/-- No new sensor comes without publishing while the snapshot is valid. -/
def KeepsSnapshot (type : EntityDynamicType Sensor Effector ConfigKey) : Call Sensor → Prop
  | .addSensorIfAbsentWithoutPublishing newSensor =>
      (type.sensors.get (getName newSensor)).isSome ∨ type.snapshotValid = false
  | _ => True

def AlwaysKeepsSnapshot (type : EntityDynamicType Sensor Effector ConfigKey) :
    List (Call Sensor) → Prop
  | [] => True
  | call :: rest =>
      type.KeepsSnapshot getName call ∧ AlwaysKeepsSnapshot (type.perform getName call) rest

end Sensors

section Snapshots
variable {getName : Sensor → String} {type : EntityDynamicType Sensor Effector ConfigKey}

theorem describes_iff :
    type.Describes ↔ (type.snapshotValid → type.snapshot.map (·.sensors) = some type.sensors) := by
  unfold Describes getSnapshot refreshSnapshot
  cases type.snapshotValid <;> simp

theorem describes_of_invalid (invalid : type.snapshotValid = false) : type.Describes := by
  rw [describes_iff, invalid]
  exact fun valid => absurd valid Bool.false_ne_true

theorem removeSensorNamed_describes (describes : type.Describes) (sensorName : String) :
    (removeSensorNamed sensorName type).2.Describes := by
  unfold removeSensorNamed
  split
  · exact describes_of_invalid rfl
  · exact describes

theorem addSensorIfAbsentWithoutPublishing_describes_iff (describes : type.Describes)
    (newSensor : Sensor) :
    (addSensorIfAbsentWithoutPublishing getName newSensor type).2.Describes ↔
      type.KeepsSnapshot getName (.addSensorIfAbsentWithoutPublishing newSensor) := by
  unfold addSensorIfAbsentWithoutPublishing
  dsimp only [KeepsSnapshot]
  cases there : type.sensors.get (getName newSensor) with
  | some prev => exact iff_of_true describes (Or.inl rfl)
  | none =>
    rw [or_iff_right (by simp)]
    cases valid : type.snapshotValid with
    | false => exact iff_of_true (describes_of_invalid rfl) rfl
    | true =>
      refine iff_of_false (fun still => ?_) Bool.false_ne_true.symm
      have before := describes_iff.mp describes valid
      have after := describes_iff.mp still rfl
      -- The snapshot would have to have the sensor and not to have it.
      have same := congrArg (·.get (getName newSensor)) (Option.some.inj (before.symm.trans after))
      rw [LinkedMap.get_put, if_pos rfl, there] at same
      cases same

theorem perform_describes_iff (describes : type.Describes) (call : Call Sensor) :
    (type.perform getName call).Describes ↔ type.KeepsSnapshot getName call := by
  cases call with
  | addSensor newSensor => exact iff_of_true (describes_of_invalid rfl) trivial
  | addSensorIfAbsent newSensor =>
    refine iff_of_true ?_ trivial
    dsimp only [perform]
    unfold addSensorIfAbsent addSensorIfAbsentWithoutPublishing
    cases type.sensors.get (getName newSensor) with
    | some prev => exact describes
    | none => exact describes_of_invalid rfl
  | addSensorIfAbsentWithoutPublishing newSensor =>
    exact addSensorIfAbsentWithoutPublishing_describes_iff describes newSensor
  | removeSensorNamed sensorName =>
    exact iff_of_true (removeSensorNamed_describes describes sensorName) trivial
  | removeSensor sensor =>
    exact iff_of_true (removeSensorNamed_describes describes _) trivial
  | getSnapshot =>
    refine iff_of_true ?_ trivial
    dsimp only [perform]
    unfold getSnapshot refreshSnapshot
    split
    · exact describes
    · exact describes_iff.mpr fun _ => rfl

theorem always_describes_iff (describes : type.Describes) (calls : List (Call Sensor)) :
    type.AlwaysDescribes getName calls ↔ type.AlwaysKeepsSnapshot getName calls := by
  induction calls generalizing type with
  | nil => exact iff_of_true describes trivial
  | cons call rest ih =>
    have first := @perform_describes_iff _ _ _ getName _ describes call
    constructor
    · rintro ⟨_, always⟩
      have here : (type.perform getName call).Describes := by
        cases rest with
        | nil => exact always
        | cons next rest => exact always.1
      exact ⟨first.mp here, (ih here).mp always⟩
    · rintro ⟨keeps, others⟩
      exact ⟨describes, (ih (first.mpr keeps)).mpr others⟩

/-- From a new type, the snapshot describes the sensors after every call exactly as long as no
new sensor comes without publishing while the snapshot is valid. -/
theorem snapshot_describes_iff (getName : Sensor → String) (entityClass : String)
    (effectors : LinkedMap String Effector) (sensors : LinkedMap String Sensor)
    (configKeys : LinkedMap String ConfigKey) (calls : List (Call Sensor)) :
    (create entityClass effectors sensors configKeys).AlwaysDescribes getName calls ↔
      (create entityClass effectors sensors configKeys).AlwaysKeepsSnapshot getName calls :=
  always_describes_iff (describes_iff.mpr fun _ => rfl) calls

/-- The constructor takes a snapshot, and the first sensor that is set without publishing is
not in it. -/
theorem unpublished_sensor_missing :
    ¬ (create "entity" (.empty : LinkedMap String Nat) .empty
      (.empty : LinkedMap String Nat)).AlwaysDescribes id
        [.addSensorIfAbsentWithoutPublishing "sensor"] := by
  rintro ⟨_, describes⟩
  have missing := describes_iff.mp describes rfl
  exact absurd (congrArg (·.map (·.get "sensor")) missing) (by decide)

end Snapshots
end EntityDynamicType
end Brooklyn
