import Brooklyn.LinkedCollections

/-!
Config keys and the maps that hold their values: `BasicConfigKey`, `SubElementConfigKey`, and how
`MapConfigKey` and `ListConfigKey` apply a value to a map. Two keys are equal when their names are,
so a map has one entry for a name, and keeps the key it was first put under. Left out are the
previous values that are answered, and descriptions, types and defaults.
-/

namespace Brooklyn

inductive KeyKind where
  | plain | map | list
  | subElement (parent : String)
deriving DecidableEq

structure ConfigKey where
  name : String
  kind : KeyKind

/-- The keys of a map that is applied to a `MapConfigKey`. -/
inductive EntryKey where
  | key (key : ConfigKey)
  | string (subName : String)
  | other

/-- What may be given for a key. `other` is any further object. -/
inductive ConfigValue (Object : Type) where
  | null
  | other (object : Object)
  | entry (key : EntryKey) (value : ConfigValue Object)
  | map (entries : List (EntryKey × ConfigValue Object))
  | collection (elements : List (ConfigValue Object))
  | clearing
  | mapModification (clearFirst : Bool) (items : List (String × ConfigValue Object))
  | listModification (clearFirst : Bool) (items : List (ConfigValue Object))

inductive ValueFault where
  | cannotCoerce | nonMapEntries | modificationOfOtherKey
deriving DecidableEq

/-- Under each name the kind of the key that is held, and the value. -/
abbrev ConfigMap (Object : Type) := LinkedMap String (KeyKind × ConfigValue Object)

variable {Object : Type}

namespace ConfigMap

def put (map : ConfigMap Object) (key : ConfigKey) (value : ConfigValue Object) :
    ConfigMap Object :=
  LinkedMap.put map key.name ((((map.get key.name).map Prod.fst).getD key.kind), value)

def putEntries (map : ConfigMap Object) (entries : List (String × KeyKind × ConfigValue Object)) :
    ConfigMap Object :=
  entries.foldl (fun map entry => map.put ⟨entry.1, entry.2.1⟩ entry.2.2) map

def putAll (map other : ConfigMap Object) : ConfigMap Object := map.putEntries other.entries

def valueOf (map : ConfigMap Object) (name : String) : Option (ConfigValue Object) :=
  (map.get name).map Prod.snd

theorem valueOf_put (map : ConfigMap Object) (key : ConfigKey) (value : ConfigValue Object)
    (name : String) :
    (map.put key value).valueOf name = if name = key.name then some value else map.valueOf name := by
  unfold valueOf put
  rw [LinkedMap.get_put]
  split <;> rfl

theorem valueOf_putEntries_of_not_mem {entries : List (String × KeyKind × ConfigValue Object)}
    {name : String} (absent : name ∉ entries.map Prod.fst) (map : ConfigMap Object) :
    (map.putEntries entries).valueOf name = map.valueOf name := by
  induction entries generalizing map with
  | nil => rfl
  | cons entry rest ih =>
    rw [List.map_cons, List.mem_cons, not_or] at absent
    refine (ih absent.2 _).trans ?_
    rw [valueOf_put, if_neg absent.1]

theorem valueOf_putEntries_of_mem {entries : List (String × KeyKind × ConfigValue Object)}
    (distinct : (entries.map Prod.fst).Nodup) {name : String} {kind : KeyKind}
    {value : ConfigValue Object} (member : (name, kind, value) ∈ entries)
    (map : ConfigMap Object) : (map.putEntries entries).valueOf name = some value := by
  induction entries generalizing map with
  | nil => cases member
  | cons entry rest ih =>
    obtain ⟨fresh, distinct⟩ := List.nodup_cons.mp distinct
    rcases List.mem_cons.mp member with rfl | later
    · refine (valueOf_putEntries_of_not_mem fresh _).trans ?_
      rw [valueOf_put, if_pos rfl]
    · exact ih distinct later _

/-- The values of the other map come first. -/
theorem valueOf_putAll (map other : ConfigMap Object) (name : String) :
    (map.putAll other).valueOf name = (other.valueOf name).or (map.valueOf name) := by
  have distinct : (other.entries.map Prod.fst).Nodup := by
    rw [LinkedMap.keys_entries]
    exact other.keys.distinct
  cases held : other.get name with
  | none =>
    have absent : name ∉ other.entries.map Prod.fst := by
      rw [LinkedMap.keys_entries]
      intro member
      have there := (other.defined name).mp member
      rw [held] at there
      cases there
    rw [putAll, valueOf_putEntries_of_not_mem absent]
    simp [valueOf, held]
  | some entry =>
    have member := (other.mem_entries name entry).mpr held
    rw [putAll, valueOf_putEntries_of_mem distinct member]
    simp [valueOf, held]

end ConfigMap

namespace ConfigKey
variable (key : ConfigKey)

/-- Whether the held key is a `SubElementConfigKey` of this one. -/
def isSubKey (kind : KeyKind) : Bool := kind = .subElement key.name

def subKey (subName : String) : ConfigKey := ⟨key.name ++ "." ++ subName, .subElement key.name⟩

def keysToRemove (target : ConfigMap Object) : List String :=
  (target.entries.filter fun entry => key.isSubKey entry.2.1).map Prod.fst

def clear (target : ConfigMap Object) : ConfigMap Object :=
  target.removeAll (key.keysToRemove target)

/-- The key under which an entry is put, if it is not ignored. -/
def entryKey : EntryKey → Option ConfigKey
  | .key contender => if key.isSubKey contender.kind then some contender else none
  | .string subName => some (key.subKey subName)
  | .other => none

def applyEntryValueToMap (target : ConfigMap Object) (entry : EntryKey × ConfigValue Object) :
    ConfigMap Object :=
  match key.entryKey entry.1 with
  | some subKey => target.put subKey entry.2
  | none => target

/-- `applyValueToMap` of a `MapConfigKey`. -/
def applyMapValue (value : ConfigValue Object) (target : ConfigMap Object) :
    Except ValueFault (ConfigMap Object) :=
  match value with
  | .null => .ok target
  | .clearing => .ok (key.clear target)
  | .mapModification clearFirst items =>
      let target := if clearFirst then key.clear target else target
      .ok ((items.map fun item => (EntryKey.string item.1, item.2)).foldl
        key.applyEntryValueToMap target)
  | .listModification _ _ => .error .modificationOfOtherKey
  | .entry entryKey value => .ok (key.applyEntryValueToMap target (entryKey, value))
  | .map entries => .ok (entries.foldl key.applyEntryValueToMap target)
  | .collection _ | .other _ => .error .nonMapEntries

end ConfigKey

/-- A map that values of a `ListConfigKey` are put to, and how many uids have been drawn. -/
structure ListTarget (Object : Type) where
  map : ConfigMap Object
  drawn : Nat

namespace ConfigKey
variable (newUid : Nat → String) (key : ConfigKey)

def clearList (target : ListTarget Object) : ListTarget Object :=
  { target with map := key.clear target.map }

def putItem (target : ListTarget Object) (value : ConfigValue Object) : ListTarget Object :=
  ⟨target.map.put (key.subKey (newUid target.drawn)) value, target.drawn + 1⟩

mutual

/-- `applyValueToMap` of a `ListConfigKey`. What is done before it throws stays done. -/
def applyListValue : ConfigValue Object → ListTarget Object →
    Except ValueFault Unit × ListTarget Object
  | .clearing, target => (.ok ⟨⟩, key.clearList target)
  | .listModification clearFirst items, target =>
      let target := if clearFirst then key.clearList target else target
      (.ok ⟨⟩, items.foldl (key.putItem newUid) target)
  | .mapModification _ _, target => (.error .modificationOfOtherKey, target)
  | .collection elements, target => applyListValues elements target
  | value, target => (.ok ⟨⟩, key.putItem newUid target value)

def applyListValues : List (ConfigValue Object) → ListTarget Object →
    Except ValueFault Unit × ListTarget Object
  | [], target => (.ok ⟨⟩, target)
  | value :: rest, target =>
      match applyListValue value target with
      | (.error fault, target) => (.error fault, target)
      | (.ok _, target) => applyListValues rest target

end

end ConfigKey
end Brooklyn
