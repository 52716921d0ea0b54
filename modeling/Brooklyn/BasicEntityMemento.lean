import Brooklyn.NamedKeys

/-!
`BasicEntityMemento` without its transient fields: its constructor, and `postDeserialize`,
which makes those fields again. A class stands for its name. Left out are the fields that
neither of the two reads or writes other than as they are: the ids, the display name, the
parent and the custom fields.
-/

namespace Brooklyn

structure BasicConfigKey (Object : Type) where
  name : String
  type : String
  description : Option String
  defaultValue : Option Object

structure BasicSensor where
  typeName : String
  name : String
  description : Option String
deriving DecidableEq

/-- The sensors of a class. Only those of an attribute can be cast to `AttributeSensor`. -/
inductive DefinedSensor where
  | attributeSensor (sensor : BasicSensor)
  | notification (sensor : BasicSensor)

def DefinedSensor.sensor : DefinedSensor → BasicSensor
  | .attributeSensor sensor => sensor
  | .notification sensor => sensor

/-- What `EntityTypes` finds on a class, by name. -/
structure DefinedKeys (Object : Type) where
  configKeys : LinkedMap String (BasicConfigKey Object)
  sensors : LinkedMap String DefinedSensor
  configKeys_named : ∀ {name key}, configKeys.get name = some key → key.name = name
  sensors_named : ∀ {name defined}, sensors.get name = some defined → defined.sensor.name = name

inductive MementoFault where
  | classCast
deriving DecidableEq

variable {Object : Type}

namespace BasicConfigKey

/-- The name is all that `equals` compares. -/
def naming (Object : Type) : NamedKeys.Naming (BasicConfigKey Object) String (String × String) where
  name := name
  equal := name
  signature := fun key => (key.name, key.type)
  name_of_equal := id
  name_of_signature := fun same => congrArg Prod.fst same

end BasicConfigKey

namespace BasicSensor

def naming : NamedKeys.Naming BasicSensor BasicSensor (String × String) where
  name := name
  equal := id
  signature := fun sensor => (sensor.name, sensor.typeName)
  name_of_equal := fun same => congrArg name same
  name_of_signature := fun same => congrArg Prod.fst same

end BasicSensor

def toPersistedMap {Value : Type} (map : LinkedMap String Value) :
    Option (LinkedMap String Value) :=
  if map.keys.elements.isEmpty then none else some map

def toPersistedSet (set : LinkedSet String) : Option (LinkedSet String) :=
  if set.elements.isEmpty then none else some set

def toPersistedList (list : List String) : Option (List String) :=
  if list.isEmpty then none else some list

def fromPersistedList (list : Option (List String)) : List String := list.getD []

theorem fromPersistedList_toPersistedList (list : List String) :
    fromPersistedList (toPersistedList list) = list := by
  cases list <;> rfl

theorem getD_toPersistedSet (set : LinkedSet String) : (toPersistedSet set).getD .empty = set := by
  unfold toPersistedSet
  split
  · next none_there =>
    obtain ⟨elements, distinct⟩ := set
    cases List.isEmpty_iff.mp none_there
    rfl
  · rfl

theorem getD_toPersistedMap {Value : Type} (map : LinkedMap String Value) :
    (toPersistedMap map).getD .empty = map := by
  unfold toPersistedMap
  split
  · next none_there =>
    have keys := List.isEmpty_iff.mp none_there
    refine LinkedMap.ext_iff.mpr ⟨funext fun key => ?_, keys.symm⟩
    refine (Option.not_isSome_iff_eq_none.mp fun there => ?_).symm
    have listed : key ∈ map.keys.elements := (map.defined key).mpr there
    rw [keys] at listed
    cases listed
  · rfl

namespace BasicEntityMemento

structure Builder (Object : Type) where
  type : String
  children : List String
  locations : List String
  policies : List String
  members : List String
  config : KeyedMap Object (@BasicConfigKey.name Object)
  attributes : KeyedMap Object (id : BasicSensor → BasicSensor)
  entityReferenceConfigs : KeyedSet (@BasicConfigKey.name Object)
  entityReferenceAttributes : KeyedSet (id : BasicSensor → BasicSensor)
  locationReferenceConfigs : KeyedSet (@BasicConfigKey.name Object)
  locationReferenceAttributes : KeyedSet (id : BasicSensor → BasicSensor)

end BasicEntityMemento

structure BasicEntityMemento (Object : Type) where
  type : String
  config : Option (LinkedMap String Object)
  children : List String
  locations : Option (List String)
  members : Option (List String)
  attributes : Option (LinkedMap String Object)
  entityReferenceConfigs : Option (LinkedSet String)
  entityReferenceAttributes : Option (LinkedSet String)
  locationReferenceConfigs : Option (LinkedSet String)
  locationReferenceAttributes : Option (LinkedSet String)
  policies : Option (List String)
  configKeys : Option (LinkedMap String (BasicConfigKey Object))
  attributeKeys : Option (LinkedMap String BasicSensor)

namespace BasicEntityMemento
variable (entityTypes : String → DefinedKeys Object)

/-- `getDefinedConfigKeys` of a type, asked for keys and for names. -/
def configDictionary (type : String) :
    NamedKeys.Dictionary (BasicConfigKey.naming Object) MementoFault where
  knows key := ((entityTypes type).configKeys.get key.name).any fun other => key.name = other.name
  lookUp name := .ok ((entityTypes type).configKeys.get name)
  recalled_name := fun found => (entityTypes type).configKeys_named (Except.ok.inj found)
  recalled := fun known missing => by
    rw [BasicConfigKey.naming, Except.ok.injEq] at missing
    rw [missing] at known
    cases known

/-- The sensor of the type, cast to `AttributeSensor`. -/
def castSensor : Option DefinedSensor → Except MementoFault (Option BasicSensor)
  | none => .ok none
  | some (.attributeSensor sensor) => .ok (some sensor)
  | some (.notification _) => .error .classCast

theorem castSensor_some {defined : Option DefinedSensor} {sensor : BasicSensor} :
    castSensor defined = .ok (some sensor) ↔ defined = some (.attributeSensor sensor) := by
  match defined with
  | none => exact ⟨nofun, nofun⟩
  | some (.attributeSensor other) =>
    constructor
    · intro same
      cases same
      rfl
    · intro same
      cases same
      rfl
  | some (.notification other) => exact ⟨nofun, nofun⟩

def sensorDictionary (type : String) : NamedKeys.Dictionary BasicSensor.naming MementoFault where
  knows sensor := ((entityTypes type).sensors.get sensor.name).any fun other =>
    sensor = other.sensor
  lookUp name := castSensor ((entityTypes type).sensors.get name)
  recalled_name := fun found => (entityTypes type).sensors_named (castSensor_some.mp found)
  recalled := fun {sensor} known missing => by
    rw [BasicSensor.naming] at missing
    cases defined : (entityTypes type).sensors.get sensor.name with
    | none => rw [defined] at known; cases known
    | some defined_sensor =>
      rw [defined] at missing
      cases defined_sensor <;> cases missing

/-- The constructor. -/
def build (builder : Builder Object) : BasicEntityMemento Object where
  type := builder.type
  children := builder.children
  locations := toPersistedList builder.locations
  policies := toPersistedList builder.policies
  members := toPersistedList builder.members
  configKeys := toPersistedMap
    (NamedKeys.kept (configDictionary entityTypes builder.type) builder.config.elements)
  config := toPersistedMap
    (NamedKeys.written (BasicConfigKey.naming Object) builder.config.elements)
  attributeKeys := toPersistedMap
    (NamedKeys.kept (sensorDictionary entityTypes builder.type) builder.attributes.elements)
  attributes := toPersistedMap (NamedKeys.written BasicSensor.naming builder.attributes.elements)
  entityReferenceConfigs := toPersistedSet
    (NamedKeys.writtenNames (BasicConfigKey.naming Object) builder.entityReferenceConfigs.elements)
  entityReferenceAttributes := toPersistedSet
    (NamedKeys.writtenNames BasicSensor.naming builder.entityReferenceAttributes.elements)
  locationReferenceConfigs := toPersistedSet
    (NamedKeys.writtenNames (BasicConfigKey.naming Object)
      builder.locationReferenceConfigs.elements)
  locationReferenceAttributes := toPersistedSet
    (NamedKeys.writtenNames BasicSensor.naming builder.locationReferenceAttributes.elements)

variable (memento : BasicEntityMemento Object)

def getConfigKey (key : String) : Except MementoFault (Option (BasicConfigKey Object)) :=
  NamedKeys.find (configDictionary entityTypes memento.type) (memento.configKeys.getD .empty) key

def getAttributeKey (key : String) : Except MementoFault (Option BasicSensor) :=
  NamedKeys.find (sensorDictionary entityTypes memento.type) (memento.attributeKeys.getD .empty) key

/-- The transient fields. A key that was not found is in them as `none`. -/
structure ByKey (Object : Type) where
  config : NamedKeys.ReadMap (BasicConfigKey.naming Object) Object
  entityReferenceConfigs : NamedKeys.ReadSet (BasicConfigKey.naming Object)
  locationReferenceConfigs : NamedKeys.ReadSet (BasicConfigKey.naming Object)
  attributes : NamedKeys.ReadMap BasicSensor.naming Object
  entityReferenceAttributes : NamedKeys.ReadSet BasicSensor.naming
  locationReferenceAttributes : NamedKeys.ReadSet BasicSensor.naming

def postDeserialize : Except MementoFault (ByKey Object) := do
  let configKey := getConfigKey entityTypes memento
  let attributeKey := getAttributeKey entityTypes memento
  let config ← NamedKeys.readEntries configKey (memento.config.getD .empty)
  let entityReferenceConfigs ←
    NamedKeys.readNames configKey (memento.entityReferenceConfigs.getD .empty)
  let locationReferenceConfigs ←
    NamedKeys.readNames configKey (memento.locationReferenceConfigs.getD .empty)
  let attributes ← NamedKeys.readEntries attributeKey (memento.attributes.getD .empty)
  let entityReferenceAttributes ←
    NamedKeys.readNames attributeKey (memento.entityReferenceAttributes.getD .empty)
  let locationReferenceAttributes ←
    NamedKeys.readNames attributeKey (memento.locationReferenceAttributes.getD .empty)
  return { config, entityReferenceConfigs, locationReferenceConfigs, attributes,
           entityReferenceAttributes, locationReferenceAttributes }

/-- What the builder had is there again: the maps and sets under keys of the same names and
types, the lists as they were. -/
structure Restored (builder : Builder Object) (byKey : ByKey Object) : Prop where
  config : NamedKeys.SameEntries byKey.config builder.config.elements
  attributes : NamedKeys.SameEntries byKey.attributes builder.attributes.elements
  entityReferenceConfigs : NamedKeys.SameNames byKey.entityReferenceConfigs
    builder.entityReferenceConfigs.elements
  entityReferenceAttributes : NamedKeys.SameNames byKey.entityReferenceAttributes
    builder.entityReferenceAttributes.elements
  locationReferenceConfigs : NamedKeys.SameNames byKey.locationReferenceConfigs
    builder.locationReferenceConfigs.elements
  locationReferenceAttributes : NamedKeys.SameNames byKey.locationReferenceAttributes
    builder.locationReferenceAttributes.elements

def getMembers : List String := fromPersistedList memento.members

def getLocations : List String := fromPersistedList memento.locations

def getPolicies : List String := fromPersistedList memento.policies

structure SameLists (builder : Builder Object) : Prop where
  members : getMembers memento = builder.members
  children : memento.children = builder.children
  locations : getLocations memento = builder.locations
  policies : getPolicies memento = builder.policies

theorem build_sameLists (builder : Builder Object) :
    SameLists (build entityTypes builder) builder where
  members := fromPersistedList_toPersistedList builder.members
  children := rfl
  locations := fromPersistedList_toPersistedList builder.locations
  policies := fromPersistedList_toPersistedList builder.policies

/-- A key of the same name and type is defined by the type, or is in the config map under a
name that the type does not define. -/
def ConfigKnown (builder : Builder Object) (key : BasicConfigKey Object) : Prop :=
  ∃ other, other.type = key.type ∧
    ((entityTypes builder.type).configKeys.get key.name = some other ∨
      (entityTypes builder.type).configKeys.get key.name = none ∧ other.name = key.name ∧
        ∃ value, (other, value) ∈ builder.config.elements)

/-- The same of sensors, where the attribute map has a sensor of its own unless it equals
the one of the type. -/
def AttributeKnown (builder : Builder Object) (sensor : BasicSensor) : Prop :=
  ∃ other, other.typeName = sensor.typeName ∧
    ((∃ value, (other, value) ∈ builder.attributes.elements ∧ other.name = sensor.name ∧
        ∀ defined, (entityTypes builder.type).sensors.get sensor.name = some defined →
          other ≠ defined.sensor) ∨
      (∀ entry ∈ builder.attributes.elements, entry.1.name = sensor.name → entry.1 = other) ∧
        (entityTypes builder.type).sensors.get sensor.name = some (.attributeSensor other))

/-- A config key whose name the type defines has the type's class, no attribute equals a
sensor of the type that is not one of an attribute, and what the sets refer to is known. -/
structure Sound (builder : Builder Object) : Prop where
  config : ∀ entry ∈ builder.config.elements, ∀ defined,
    (entityTypes builder.type).configKeys.get entry.1.name = some defined →
      defined.type = entry.1.type
  attributes : ∀ entry ∈ builder.attributes.elements,
    (entityTypes builder.type).sensors.get entry.1.name ≠ some (.notification entry.1)
  entityReferenceConfigs : ∀ key ∈ builder.entityReferenceConfigs.elements,
    ConfigKnown entityTypes builder key
  entityReferenceAttributes : ∀ sensor ∈ builder.entityReferenceAttributes.elements,
    AttributeKnown entityTypes builder sensor
  locationReferenceConfigs : ∀ key ∈ builder.locationReferenceConfigs.elements,
    ConfigKnown entityTypes builder key
  locationReferenceAttributes : ∀ sensor ∈ builder.locationReferenceAttributes.elements,
    AttributeKnown entityTypes builder sensor

section Lookups
variable {entityTypes} {builder : Builder Object}

theorem getConfigKey_build (key : String) :
    getConfigKey entityTypes (build entityTypes builder) key =
      NamedKeys.find (configDictionary entityTypes builder.type)
        (NamedKeys.kept (configDictionary entityTypes builder.type) builder.config.elements) key :=
  congrArg (NamedKeys.find _ · key) (getD_toPersistedMap _)

theorem getAttributeKey_build (key : String) :
    getAttributeKey entityTypes (build entityTypes builder) key =
      NamedKeys.find (sensorDictionary entityTypes builder.type)
        (NamedKeys.kept (sensorDictionary entityTypes builder.type) builder.attributes.elements)
        key :=
  congrArg (NamedKeys.find _ · key) (getD_toPersistedMap _)

theorem configDictionary_knows (key : BasicConfigKey Object) :
    (configDictionary entityTypes builder.type).knows key = true ↔
      ∃ defined, (entityTypes builder.type).configKeys.get key.name = some defined := by
  unfold configDictionary
  simp only [Option.any_eq_true, decide_eq_true_eq]
  exact exists_congr fun defined => and_iff_left_of_imp fun found =>
    ((entityTypes builder.type).configKeys_named found).symm

theorem sensorDictionary_knows (sensor : BasicSensor) :
    (sensorDictionary entityTypes builder.type).knows sensor = true ↔
      ∃ defined, (entityTypes builder.type).sensors.get sensor.name = some defined ∧
        sensor = defined.sensor := by
  unfold sensorDictionary
  simp only [Option.any_eq_true, decide_eq_true_eq]

theorem configEntries_iff :
    (∀ entry ∈ builder.config.elements,
      (configDictionary entityTypes builder.type).knows entry.1 = true → ∃ key,
        (configDictionary entityTypes builder.type).lookUp entry.1.name = .ok (some key) ∧
          (key.name, key.type) = (entry.1.name, entry.1.type)) ↔
      ∀ entry ∈ builder.config.elements, ∀ defined,
        (entityTypes builder.type).configKeys.get entry.1.name = some defined →
          defined.type = entry.1.type := by
  refine forall₂_congr fun entry _ => ?_
  rw [configDictionary_knows]
  constructor
  · intro recovered defined found
    obtain ⟨key, recalled, same⟩ := recovered ⟨defined, found⟩
    have found_key := Except.ok.inj recalled
    rw [found] at found_key
    cases found_key
    exact congrArg Prod.snd same
  · rintro typed ⟨defined, found⟩
    exact ⟨defined, congrArg Except.ok found, Prod.ext
      ((entityTypes builder.type).configKeys_named found) (typed defined found)⟩

theorem attributeEntries_iff :
    (∀ entry ∈ builder.attributes.elements,
      (sensorDictionary entityTypes builder.type).knows entry.1 = true → ∃ sensor,
        (sensorDictionary entityTypes builder.type).lookUp entry.1.name = .ok (some sensor) ∧
          (sensor.name, sensor.typeName) = (entry.1.name, entry.1.typeName)) ↔
      ∀ entry ∈ builder.attributes.elements,
        (entityTypes builder.type).sensors.get entry.1.name ≠ some (.notification entry.1) := by
  refine forall₂_congr fun entry _ => ?_
  rw [sensorDictionary_knows]
  constructor
  · intro recovered found
    obtain ⟨sensor, recalled, _⟩ := recovered ⟨_, found, rfl⟩
    have found_sensor := castSensor_some.mp recalled
    rw [found] at found_sensor
    cases found_sensor
  · rintro castable ⟨defined, found, same⟩
    cases defined with
    | attributeSensor sensor =>
      refine ⟨sensor, castSensor_some.mpr found, ?_⟩
      rw [same]
      rfl
    | notification sensor => exact absurd (same ▸ found) castable

theorem configKnown_iff (key : BasicConfigKey Object) :
    (∃ other, getConfigKey entityTypes (build entityTypes builder) key.name = .ok (some other) ∧
      (other.name, other.type) = (key.name, key.type)) ↔ ConfigKnown entityTypes builder key := by
  have unknown : ∀ other : BasicConfigKey Object, other.name = key.name →
      ((configDictionary entityTypes builder.type).knows other = false ↔
        (entityTypes builder.type).configKeys.get key.name = none) := fun other named => by
    rw [← Bool.not_eq_true, configDictionary_knows, named, ← Option.isSome_iff_exists,
      Option.not_isSome_iff_eq_none]
  refine exists_congr fun other => ?_
  rw [getConfigKey_build, NamedKeys.find_iff builder.config.distinct, Prod.mk.injEq]
  constructor
  · rintro ⟨⟨value, member, named, kept⟩ | ⟨_, recalled⟩, _, typed⟩
    · exact ⟨typed, Or.inr ⟨(unknown other named).mp kept, named, value, member⟩⟩
    · exact ⟨typed, Or.inl (Except.ok.inj recalled)⟩
  · rintro ⟨typed, found | ⟨missing, named, value, member⟩⟩
    · refine ⟨Or.inr ⟨fun entry _ named => ?_, congrArg Except.ok found⟩,
        (entityTypes builder.type).configKeys_named found, typed⟩
      exact configDictionary_knows entry.1 |>.mpr
        ⟨other, (congrArg (entityTypes builder.type).configKeys.get named).trans found⟩
    · exact ⟨Or.inl ⟨value, member, named, (unknown other named).mpr missing⟩, named, typed⟩

theorem attributeKnown_iff (named : (builder.attributes.elements.map (·.1.name)).Nodup)
    (sensor : BasicSensor) :
    (∃ other, getAttributeKey entityTypes (build entityTypes builder) sensor.name =
        .ok (some other) ∧ (other.name, other.typeName) = (sensor.name, sensor.typeName)) ↔
      AttributeKnown entityTypes builder sensor := by
  have kept : ∀ other : BasicSensor, other.name = sensor.name →
      ((sensorDictionary entityTypes builder.type).knows other = false ↔
        ∀ defined, (entityTypes builder.type).sensors.get sensor.name = some defined →
          other ≠ defined.sensor) := fun other same => by
    rw [← Bool.not_eq_true, sensorDictionary_knows, same, not_exists]
    exact forall_congr' fun defined => not_and
  refine exists_congr fun other => ?_
  rw [getAttributeKey_build, NamedKeys.find_iff named, Prod.mk.injEq]
  constructor
  · rintro ⟨⟨value, member, same, unknown⟩ | ⟨all_known, recalled⟩, _, typed⟩
    · exact ⟨typed, Or.inl ⟨value, member, same, (kept other same).mp unknown⟩⟩
    · have found := castSensor_some.mp recalled
      refine ⟨typed, Or.inr ⟨fun entry member same => ?_, found⟩⟩
      obtain ⟨defined, there, equal⟩ := (sensorDictionary_knows entry.1).mp
        (all_known entry member same)
      rw [same, found] at there
      cases there
      exact equal
  · rintro ⟨typed, ⟨value, member, same, unlike⟩ | ⟨all_known, found⟩⟩
    · exact ⟨Or.inl ⟨value, member, same, (kept other same).mpr unlike⟩, same, typed⟩
    · refine ⟨Or.inr ⟨fun entry member same => ?_, castSensor_some.mpr found⟩,
        (entityTypes builder.type).sensors_named found, typed⟩
      exact (sensorDictionary_knows entry.1).mpr
        ⟨_, (congrArg (entityTypes builder.type).sensors.get same).trans found,
          all_known entry member same⟩

theorem config_restored_iff :
    (∃ config : NamedKeys.ReadMap (BasicConfigKey.naming Object) Object,
      NamedKeys.readEntries (getConfigKey entityTypes (build entityTypes builder))
        ((build entityTypes builder).config.getD .empty) = .ok config ∧
      NamedKeys.SameEntries config builder.config.elements) ↔
      ∀ entry ∈ builder.config.elements, ∀ defined,
        (entityTypes builder.type).configKeys.get entry.1.name = some defined →
          defined.type = entry.1.type := by
  rw [← configEntries_iff]
  refine Iff.trans (exists_congr fun config => and_congr_left fun _ => ?_)
    (NamedKeys.readEntries_same_iff builder.config.distinct)
  rw [show getConfigKey entityTypes (build entityTypes builder) = _ from
    funext getConfigKey_build, build, getD_toPersistedMap]

theorem attributes_restored_iff (named : (builder.attributes.elements.map (·.1.name)).Nodup) :
    (∃ attributes : NamedKeys.ReadMap BasicSensor.naming Object,
      NamedKeys.readEntries (getAttributeKey entityTypes (build entityTypes builder))
        ((build entityTypes builder).attributes.getD .empty) = .ok attributes ∧
      NamedKeys.SameEntries attributes builder.attributes.elements) ↔
      ∀ entry ∈ builder.attributes.elements,
        (entityTypes builder.type).sensors.get entry.1.name ≠ some (.notification entry.1) := by
  rw [← attributeEntries_iff]
  refine Iff.trans (exists_congr fun attributes => and_congr_left fun _ => ?_)
    (NamedKeys.readEntries_same_iff named)
  rw [show getAttributeKey entityTypes (build entityTypes builder) = _ from
    funext getAttributeKey_build, build, getD_toPersistedMap]

theorem configSet_restored_iff (keys : List (BasicConfigKey Object)) :
    (∃ set : NamedKeys.ReadSet (BasicConfigKey.naming Object),
      NamedKeys.readNames (getConfigKey entityTypes (build entityTypes builder))
        ((toPersistedSet (NamedKeys.writtenNames (BasicConfigKey.naming Object) keys)).getD
          .empty) = .ok set ∧ NamedKeys.SameNames set keys) ↔
      ∀ key ∈ keys, ConfigKnown entityTypes builder key := by
  rw [getD_toPersistedSet, NamedKeys.readNames_same_iff fun name key found => by
    rw [getConfigKey_build] at found
    exact NamedKeys.find_name builder.config.distinct found]
  exact forall₂_congr fun key _ => configKnown_iff key

theorem attributeSet_restored_iff (named : (builder.attributes.elements.map (·.1.name)).Nodup)
    (sensors : List BasicSensor) :
    (∃ set : NamedKeys.ReadSet BasicSensor.naming,
      NamedKeys.readNames (getAttributeKey entityTypes (build entityTypes builder))
        ((toPersistedSet (NamedKeys.writtenNames BasicSensor.naming sensors)).getD .empty) =
          .ok set ∧ NamedKeys.SameNames set sensors) ↔
      ∀ sensor ∈ sensors, AttributeKnown entityTypes builder sensor := by
  rw [getD_toPersistedSet, NamedKeys.readNames_same_iff fun name key found => by
    rw [getAttributeKey_build] at found
    exact NamedKeys.find_name named found]
  exact forall₂_congr fun sensor _ => attributeKnown_iff named sensor

end Lookups

theorem bind_ok {Fault First Last : Type} {first : Except Fault First}
    {rest : First → Except Fault Last} {last : Last} (done : (first >>= rest) = .ok last) :
    ∃ value, first = .ok value ∧ rest value = .ok last := by
  cases first with
  | error fault => cases done
  | ok value => exact ⟨value, rfl, done⟩

theorem ok_bind {Fault First Last : Type} {first : Except Fault First}
    {rest : First → Except Fault Last} {value : First} {last : Last} (read : first = .ok value)
    (done : rest value = .ok last) : (first >>= rest) = .ok last := by
  rw [read]
  exact done

/-- The memento is as it was built once its transient fields are made again, exactly when
the builder is sound for its type. -/
theorem restored_iff (builder : Builder Object)
    (named : (builder.attributes.elements.map (·.1.name)).Nodup) :
    ((∃ byKey, postDeserialize entityTypes (build entityTypes builder) = .ok byKey ∧
        Restored builder byKey) ∧ SameLists (build entityTypes builder) builder) ↔
      Sound entityTypes builder := by
  rw [and_iff_left (build_sameLists entityTypes builder)]
  constructor
  · rintro ⟨byKey, done, restored⟩
    obtain ⟨config, config_ok, done⟩ := bind_ok done
    obtain ⟨entityConfigs, entityConfigs_ok, done⟩ := bind_ok done
    obtain ⟨locationConfigs, locationConfigs_ok, done⟩ := bind_ok done
    obtain ⟨attributes, attributes_ok, done⟩ := bind_ok done
    obtain ⟨entityAttributes, entityAttributes_ok, done⟩ := bind_ok done
    obtain ⟨locationAttributes, locationAttributes_ok, done⟩ := bind_ok done
    cases done
    exact {
      config := config_restored_iff.mp ⟨config, config_ok, restored.config⟩
      attributes := (attributes_restored_iff named).mp
        ⟨attributes, attributes_ok, restored.attributes⟩
      entityReferenceConfigs := (configSet_restored_iff _).mp
        ⟨entityConfigs, entityConfigs_ok, restored.entityReferenceConfigs⟩
      entityReferenceAttributes := (attributeSet_restored_iff named _).mp
        ⟨entityAttributes, entityAttributes_ok, restored.entityReferenceAttributes⟩
      locationReferenceConfigs := (configSet_restored_iff _).mp
        ⟨locationConfigs, locationConfigs_ok, restored.locationReferenceConfigs⟩
      locationReferenceAttributes := (attributeSet_restored_iff named _).mp
        ⟨locationAttributes, locationAttributes_ok, restored.locationReferenceAttributes⟩ }
  · intro sound
    obtain ⟨config, config_ok, config_same⟩ := config_restored_iff.mpr sound.config
    obtain ⟨entityConfigs, entityConfigs_ok, entityConfigs_same⟩ :=
      (configSet_restored_iff _).mpr sound.entityReferenceConfigs
    obtain ⟨locationConfigs, locationConfigs_ok, locationConfigs_same⟩ :=
      (configSet_restored_iff _).mpr sound.locationReferenceConfigs
    obtain ⟨attributes, attributes_ok, attributes_same⟩ :=
      (attributes_restored_iff named).mpr sound.attributes
    obtain ⟨entityAttributes, entityAttributes_ok, entityAttributes_same⟩ :=
      (attributeSet_restored_iff named _).mpr sound.entityReferenceAttributes
    obtain ⟨locationAttributes, locationAttributes_ok, locationAttributes_same⟩ :=
      (attributeSet_restored_iff named _).mpr sound.locationReferenceAttributes
    refine ⟨⟨config, entityConfigs, locationConfigs, attributes, entityAttributes,
      locationAttributes⟩, ?_, ⟨config_same, attributes_same, entityConfigs_same,
      entityAttributes_same, locationConfigs_same, locationAttributes_same⟩⟩
    exact ok_bind config_ok <| ok_bind entityConfigs_ok <| ok_bind locationConfigs_ok <|
      ok_bind attributes_ok <| ok_bind entityAttributes_ok <| ok_bind locationAttributes_ok rfl

/-- A type with a config key `host` and an attribute `up`. -/
def hostType : DefinedKeys String where
  configKeys := LinkedMap.empty.put "host" ⟨"host", "String", none, none⟩
  sensors := LinkedMap.empty.put "up" (.attributeSensor ⟨"Boolean", "up", none⟩)
  configKeys_named := fun {name key} found => by
    rw [LinkedMap.get_put] at found
    split at found
    · next same => cases found; exact same.symm
    · cases found
  sensors_named := fun {name defined} found => by
    rw [LinkedMap.get_put] at found
    split at found
    · next same => cases found; exact same.symm
    · cases found

def hostBuilder (hostClass : String) : Builder String where
  type := "Host"
  children := []
  locations := ["loc"]
  policies := []
  members := []
  config := ⟨[(⟨"host", hostClass, none, none⟩, "8080"), (⟨"env.PATH", "Object", none, none⟩, "/")],
    by simp⟩
  attributes := ⟨[(⟨"Boolean", "up", none⟩, "true")], by simp⟩
  entityReferenceConfigs := .empty
  entityReferenceAttributes := .empty
  locationReferenceConfigs := .empty
  locationReferenceAttributes := .empty

theorem host_restored :
    (∃ byKey, postDeserialize (fun _ => hostType) (build (fun _ => hostType)
        (hostBuilder "String")) = .ok byKey ∧ Restored (hostBuilder "String") byKey) ∧
      SameLists (build (fun _ => hostType) (hostBuilder "String")) (hostBuilder "String") :=
  (restored_iff (fun _ => hostType) (hostBuilder "String") (by simp [hostBuilder])).mpr {
    config := by simp [hostBuilder, hostType]
    attributes := by simp [hostBuilder, hostType]
    entityReferenceConfigs := fun key member => absurd member List.not_mem_nil
    entityReferenceAttributes := fun sensor member => absurd member List.not_mem_nil
    locationReferenceConfigs := fun key member => absurd member List.not_mem_nil
    locationReferenceAttributes := fun sensor member => absurd member List.not_mem_nil }

-- The key of the config map is an `Integer` one, of the name of the type's `String` key.
theorem host_changes_type :
    ¬ ((∃ byKey, postDeserialize (fun _ => hostType) (build (fun _ => hostType)
        (hostBuilder "Integer")) = .ok byKey ∧ Restored (hostBuilder "Integer") byKey) ∧
      SameLists (build (fun _ => hostType) (hostBuilder "Integer")) (hostBuilder "Integer")) := by
  rintro ⟨⟨byKey, done, restored⟩, _⟩
  obtain ⟨config, config_ok, done⟩ := bind_ok done
  have same : byKey.config = config := by
    obtain ⟨_, _, done⟩ := bind_ok done
    obtain ⟨_, _, done⟩ := bind_ok done
    obtain ⟨_, _, done⟩ := bind_ok done
    obtain ⟨_, _, done⟩ := bind_ok done
    obtain ⟨_, _, done⟩ := bind_ok done
    cases done
    rfl
  have typed := config_restored_iff.mp ⟨config, config_ok, same ▸ restored.config⟩
    (⟨"host", "Integer", none, none⟩, "8080") List.mem_cons_self
    ⟨"host", "String", none, none⟩ (by simp [hostType])
  exact absurd typed (by decide)

end BasicEntityMemento
end Brooklyn
