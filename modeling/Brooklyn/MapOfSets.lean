import Brooklyn.LinkedCollections

/-!
`addToMapOfSets` and `removeFromMapOfCollections` of `LanguageUtils`, each an atomic step: a
map from keys to sets of values, from which a set is dropped when it becomes empty. A map
indexes a relation when its buckets are what the relation holds under each key.
-/

namespace Brooklyn.MapOfSets

universe u v
variable {Key : Type u} {Value : Type v}

def bucket (map : LinkedMap Key (LinkedSet Value)) (key : Key) : LinkedSet Value :=
  (map.get key).getD .empty

/-- No bucket is kept when it is empty. -/
structure Indexes (map : LinkedMap Key (LinkedSet Value)) (holds : Key → Value → Prop) : Prop where
  mem : ∀ key value, value ∈ bucket map key ↔ holds key value
  filled : ∀ key values, map.get key = some values → values.elements ≠ []

variable [DecidableEq Key] [DecidableEq Value]

def addToMapOfSets (map : LinkedMap Key (LinkedSet Value)) (key : Key) (value : Value) :
    LinkedMap Key (LinkedSet Value) :=
  map.put key ((bucket map key).add value)

def removeFromMapOfCollections (map : LinkedMap Key (LinkedSet Value)) (key : Key)
    (value : Value) : Bool × LinkedMap Key (LinkedSet Value) :=
  match map.get key with
  | none => (false, map)
  | some values =>
      (decide (value ∈ values),
        if (values.remove value).elements = [] then map.remove key
        else map.put key (values.remove value))

variable {map : LinkedMap Key (LinkedSet Value)} {holds : Key → Value → Prop}

omit [DecidableEq Key] [DecidableEq Value] in
theorem indexes_empty : Indexes (.empty : LinkedMap Key (LinkedSet Value)) fun _ _ => False :=
  ⟨fun _ _ => by simp [bucket], fun _ _ found => by cases found⟩

omit [DecidableEq Key] [DecidableEq Value] in
theorem Indexes.congr (indexes : Indexes map holds) {same : Key → Value → Prop}
    (agree : ∀ key value, holds key value ↔ same key value) : Indexes map same :=
  ⟨fun key value => (indexes.mem key value).trans (agree key value), indexes.filled⟩

theorem Indexes.add (indexes : Indexes map holds) (key : Key) (value : Value) :
    Indexes (addToMapOfSets map key value) fun other v =>
      holds other v ∨ (other = key ∧ v = value) := by
  constructor
  · intro other v
    by_cases same : other = key
    · rw [← indexes.mem, same]
      simp [bucket, addToMapOfSets]
    · rw [← indexes.mem]
      simp [bucket, addToMapOfSets, same]
  · intro other values found
    rw [addToMapOfSets, LinkedMap.get_put] at found
    split at found
    · cases found
      have member : value ∈ (bucket map key).add value := by simp
      exact List.ne_nil_of_mem member
    · exact indexes.filled other values found

theorem Indexes.remove (indexes : Indexes map holds) (key : Key) (value : Value) :
    Indexes (removeFromMapOfCollections map key value).2 fun other v =>
      holds other v ∧ ¬ (other = key ∧ v = value) := by
  unfold removeFromMapOfCollections
  cases found : map.get key with
  | none =>
    refine indexes.congr fun other v => ⟨fun held => ⟨held, ?_⟩, And.left⟩
    rintro ⟨rfl, rfl⟩
    rw [← indexes.mem, bucket, found] at held
    simp at held
  | some values =>
    have here (v : Value) : holds key v ↔ v ∈ values := by
      rw [← indexes.mem, bucket, found, Option.getD_some]
    dsimp only
    split
    · next nobody =>
      have nobody (v : Value) : v ∉ values.remove value := by
        change v ∉ (values.remove value).elements
        rw [nobody]
        exact List.not_mem_nil
      constructor
      · intro other v
        by_cases same : other = key
        · have gone := nobody v
          rw [LinkedSet.mem_remove] at gone
          rw [same, here v]
          simpa [bucket] using gone
        · rw [← indexes.mem]
          simp [bucket, same]
      · intro other found found'
        rw [LinkedMap.get_remove] at found'
        split at found'
        · cases found'
        · exact indexes.filled other found found'
    · next somebody =>
      constructor
      · intro other v
        by_cases same : other = key
        · rw [same, here v]
          simp [bucket]
        · rw [← indexes.mem]
          simp [bucket, same]
      · intro other left found'
        rw [LinkedMap.get_put] at found'
        split at found'
        · cases found'
          exact somebody
        · exact indexes.filled other left found'

end Brooklyn.MapOfSets
