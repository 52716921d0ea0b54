import Brooklyn.LinkedCollections
import Mathlib.Order.WellFoundedSet

/-!
`EntityDynamicType.findConfigKeys`: the config keys that the public fields of an entity class
hold, by name. Classes are ordered with the sub-class below, so `c1.isAssignableFrom(c2)` is
`c2 ≤ c1`. A field's `object` is what is read from it, sorted by the type of the field; reading
a field that is not static needs an entity. The fields come in the order that reflection lists
them in, and of several for one name the one of a proper sub-class replaces the one found before.
-/

namespace Brooklyn.EntityDynamicType

inductive FieldObject (ConfigKey Sensor : Type) where
  | configKey (key : ConfigKey)
  | hasConfigKey (sensor : Sensor)
  | other
deriving DecidableEq

structure Field (Class ConfigKey Sensor : Type) where
  name : String
  declaringClass : Class
  isStatic : Bool
  object : FieldObject ConfigKey Sensor
deriving DecidableEq

structure FoundKeys (Class ConfigKey Sensor : Type) where
  result : LinkedMap String ConfigKey
  configFields : LinkedMap String (Field Class ConfigKey Sensor)

section Discovery
variable {Class ConfigKey Sensor : Type} [PartialOrder Class] [DecidableLE Class]

/-- The field of the sub-class, if the class of one is a proper sub-class of the other's. -/
def inferSubbestField (f1 f2 : Field Class ConfigKey Sensor) :
    Option (Field Class ConfigKey Sensor) :=
  let isSuper1 := decide (f2.declaringClass ≤ f1.declaringClass)
  let isSuper2 := decide (f1.declaringClass ≤ f2.declaringClass)
  if isSuper1 then (if isSuper2 then none else some f2)
  else if isSuper2 then some f1 else none

variable (getConfigKey : Sensor → ConfigKey) (getName : ConfigKey → String)
  (optionalEntity : Bool)

/-- The key of a field, unless the field is passed over. -/
def Field.key (f : Field Class ConfigKey Sensor) : Option ConfigKey :=
  match f.object with
  | .other => none
  | .configKey key => if f.isStatic || optionalEntity then some key else none
  | .hasConfigKey sensor =>
      if f.isStatic || optionalEntity then some (getConfigKey sensor) else none

variable [DecidableEq Class] [DecidableEq ConfigKey] [DecidableEq Sensor]

/-- One round of the loop. -/
def findConfigKey (found : FoundKeys Class ConfigKey Sensor) (f : Field Class ConfigKey Sensor) :
    FoundKeys Class ConfigKey Sensor :=
  match f.key getConfigKey optionalEntity with
  | none => found
  | some k =>
      let alternativeField := found.configFields.get (getName k)
      let definitiveField :=
        match alternativeField with
        | some alternative => inferSubbestField alternative f
        | none => some f
      -- The same instance in both fields only keeps the log quiet.
      let skip := definitiveField ≠ some f ∧ alternativeField.map Field.object = some f.object
      if skip then found
      else if definitiveField = some f then
        { result := found.result.put (getName k) k
          configFields := found.configFields.put (getName k) f }
      else found

def findConfigKeys (fields : List (Field Class ConfigKey Sensor)) : LinkedMap String ConfigKey :=
  (fields.foldl (findConfigKey getConfigKey getName optionalEntity) ⟨.empty, .empty⟩).result

/-- A field that declares a config key of the name. -/
def Field.Declares (f : Field Class ConfigKey Sensor) (name : String) : Prop :=
  (f.key getConfigKey optionalEntity).map getName = some name

def DeclaredIn (fields : List (Field Class ConfigKey Sensor)) (name : String) (c : Class) : Prop :=
  ∃ f ∈ fields, f.Declares getConfigKey getName optionalEntity name ∧ f.declaringClass = c

/-- The class of `best` is the only most-derived one that declares the name, in `best` alone. -/
structure UniquelyMostDerived (fields : List (Field Class ConfigKey Sensor)) (name : String)
    (best : Field Class ConfigKey Sensor) : Prop where
  listed : best ∈ fields
  declares : best.Declares getConfigKey getName optionalEntity name
  unique : ∀ c, Minimal (DeclaredIn getConfigKey getName optionalEntity fields name) c →
    c = best.declaringClass
  single : ∀ f ∈ fields, f.Declares getConfigKey getName optionalEntity name →
    f.declaringClass = best.declaringClass → f = best

end Discovery

section Choice
variable {Class ConfigKey Sensor : Type} [PartialOrder Class] [DecidableLE Class]
  {getConfigKey : Sensor → ConfigKey} {getName : ConfigKey → String} {optionalEntity : Bool}

theorem inferSubbestField_eq_new {f1 f2 : Field Class ConfigKey Sensor} :
    inferSubbestField f1 f2 = some f2 ↔ f2.declaringClass < f1.declaringClass := by
  rw [lt_iff_le_not_ge]
  unfold inferSubbestField
  by_cases below : f2.declaringClass ≤ f1.declaringClass
  · by_cases above : f1.declaringClass ≤ f2.declaringClass <;> simp [below, above]
  · by_cases above : f1.declaringClass ≤ f2.declaringClass
    · -- The two fields are of different classes, so the first is not the second.
      have different : f1 ≠ f2 := by
        rintro rfl
        exact below above
      simp [below, above, different]
    · simp [below, above]

variable [DecidableEq Class] [DecidableEq ConfigKey] [DecidableEq Sensor]
  {found : FoundKeys Class ConfigKey Sensor} {f best : Field Class ConfigKey Sensor}
  {fields : List (Field Class ConfigKey Sensor)} {name : String}

/-- The field found for the name, if any, is of a proper super-class of the field's. -/
def Supersedes (found : FoundKeys Class ConfigKey Sensor) (name : String)
    (f : Field Class ConfigKey Sensor) : Prop :=
  ∀ alternative, found.configFields.get name = some alternative →
    f.declaringClass < alternative.declaringClass

theorem findConfigKey_of_supersedes {k : ConfigKey}
    (declared : f.key getConfigKey optionalEntity = some k)
    (supersedes : Supersedes found (getName k) f) :
    findConfigKey getConfigKey getName optionalEntity found f =
      { result := found.result.put (getName k) k
        configFields := found.configFields.put (getName k) f } := by
  simp only [findConfigKey, declared]
  cases there : found.configFields.get (getName k) with
  | none => simp
  | some alternative =>
    have better := inferSubbestField_eq_new.mpr (supersedes alternative there)
    simp [better]

theorem findConfigKey_of_kept {k : ConfigKey}
    (declared : f.key getConfigKey optionalEntity = some k)
    (kept : ¬ Supersedes found (getName k) f) :
    findConfigKey getConfigKey getName optionalEntity found f = found := by
  obtain ⟨alternative, there, notBelow⟩ := by simpa [Supersedes] using kept
  have worse : inferSubbestField alternative f ≠ some f := fun new =>
    notBelow (inferSubbestField_eq_new.mp new)
  unfold findConfigKey
  rw [declared]
  simp [there, worse]

theorem findConfigKey_of_other (other : ¬ f.Declares getConfigKey getName optionalEntity name) :
    (findConfigKey getConfigKey getName optionalEntity found f).configFields.get name =
      found.configFields.get name := by
  cases declared : f.key getConfigKey optionalEntity with
  | none => simp [findConfigKey, declared]
  | some k =>
    have different : name ≠ getName k := by
      rintro rfl
      exact other (by simp [Field.Declares, declared])
    by_cases supersedes : Supersedes found (getName k) f
    · rw [findConfigKey_of_supersedes declared supersedes, LinkedMap.get_put, if_neg different]
    · rw [findConfigKey_of_kept declared supersedes]

theorem findConfigKey_of_declares (declares : f.Declares getConfigKey getName optionalEntity name)
    (supersedes : Supersedes found name f) :
    (findConfigKey getConfigKey getName optionalEntity found f).configFields.get name =
      some f := by
  obtain ⟨k, declared, rfl⟩ := Option.map_eq_some_iff.mp declares
  rw [findConfigKey_of_supersedes declared supersedes, LinkedMap.get_put, if_pos rfl]

/-- Nothing that is not below the field found replaces it. -/
theorem findConfigKey_keeps (there : found.configFields.get name = some best)
    (notBelow : f.Declares getConfigKey getName optionalEntity name →
      ¬ f.declaringClass < best.declaringClass) :
    (findConfigKey getConfigKey getName optionalEntity found f).configFields.get name =
      some best := by
  by_cases declares : f.Declares getConfigKey getName optionalEntity name
  · obtain ⟨k, declared, rfl⟩ := Option.map_eq_some_iff.mp declares
    have kept : ¬ Supersedes found (getName k) f := fun supersedes =>
      notBelow declares (supersedes best there)
    rw [findConfigKey_of_kept declared kept, there]
  · rw [findConfigKey_of_other declares, there]

theorem run_keeps (there : found.configFields.get name = some best)
    (notBelow : ∀ f ∈ fields, f.Declares getConfigKey getName optionalEntity name →
      ¬ f.declaringClass < best.declaringClass) :
    (fields.foldl (findConfigKey getConfigKey getName optionalEntity) found).configFields.get
      name = some best := by
  induction fields generalizing found with
  | nil => exact there
  | cons f rest ih =>
    refine ih (findConfigKey_keeps there (notBelow f List.mem_cons_self)) fun other member => ?_
    exact notBelow other (List.mem_cons_of_mem _ member)

/-- The least field is found whatever was found before it. -/
theorem run_finds (listed : best ∈ fields)
    (declares : best.Declares getConfigKey getName optionalEntity name)
    (least : ∀ f ∈ fields, f.Declares getConfigKey getName optionalEntity name →
      f = best ∨ best.declaringClass < f.declaringClass)
    (before : Supersedes found name best) :
    (fields.foldl (findConfigKey getConfigKey getName optionalEntity) found).configFields.get
      name = some best := by
  induction fields generalizing found with
  | nil => cases listed
  | cons f rest ih =>
    have others : ∀ other ∈ rest, other.Declares getConfigKey getName optionalEntity name →
        other = best ∨ best.declaringClass < other.declaringClass := fun other member =>
      least other (List.mem_cons_of_mem _ member)
    by_cases same : f = best
    · subst same
      rw [List.foldl_cons]
      refine run_keeps (findConfigKey_of_declares declares before) fun other member named => ?_
      rcases others other member named with rfl | above
      · exact lt_irrefl _
      · exact lt_asymm above
    · refine ih ((List.mem_cons.mp listed).resolve_left (Ne.symm same)) others ?_
      by_cases named : f.Declares getConfigKey getName optionalEntity name
      · have above := (least f List.mem_cons_self named).resolve_left same
        intro alternative there
        by_cases supersedes : Supersedes found name f
        · rw [findConfigKey_of_declares named supersedes] at there
          cases there
          exact above
        · obtain ⟨k, declared, rfl⟩ := Option.map_eq_some_iff.mp named
          rw [findConfigKey_of_kept declared supersedes] at there
          exact before alternative there
      · intro alternative there
        rw [findConfigKey_of_other named] at there
        exact before alternative there

/-- The keys found are those of the fields found. -/
def Agrees (getConfigKey : Sensor → ConfigKey) (optionalEntity : Bool)
    (found : FoundKeys Class ConfigKey Sensor) : Prop :=
  ∀ name, found.result.get name =
    (found.configFields.get name).bind (·.key getConfigKey optionalEntity)

theorem findConfigKey_agrees (agrees : Agrees getConfigKey optionalEntity found)
    (f : Field Class ConfigKey Sensor) :
    Agrees getConfigKey optionalEntity
      (findConfigKey getConfigKey getName optionalEntity found f) := by
  cases declared : f.key getConfigKey optionalEntity with
  | none => simpa [findConfigKey, declared] using agrees
  | some k =>
    by_cases supersedes : Supersedes found (getName k) f
    · intro name
      rw [findConfigKey_of_supersedes declared supersedes]
      by_cases same : name = getName k
      · simp [same, declared]
      · simpa [same] using agrees name
    · rw [findConfigKey_of_kept declared supersedes]
      exact agrees

theorem run_agrees (agrees : Agrees getConfigKey optionalEntity found)
    (fields : List (Field Class ConfigKey Sensor)) :
    Agrees getConfigKey optionalEntity
      (fields.foldl (findConfigKey getConfigKey getName optionalEntity) found) := by
  induction fields generalizing found with
  | nil => exact agrees
  | cons f rest ih => exact ih (findConfigKey_agrees agrees f)

omit [DecidableLE Class] [DecidableEq Class] [DecidableEq ConfigKey] [DecidableEq Sensor] in
/-- Among finitely many classes the only most-derived one is below all others. -/
theorem UniquelyMostDerived.least
    (unique : UniquelyMostDerived getConfigKey getName optionalEntity fields name best) :
    ∀ f ∈ fields, f.Declares getConfigKey getName optionalEntity name →
      f = best ∨ best.declaringClass < f.declaringClass := by
  intro f member declares
  let classes : Set Class := {c | DeclaredIn getConfigKey getName optionalEntity fields name c}
  have finite : classes.Finite := by
    refine (fields.map Field.declaringClass).finite_toSet.subset ?_
    rintro c ⟨other, listed, _, rfl⟩
    exact List.mem_map_of_mem listed
  obtain ⟨c, below, minimal⟩ := finite.isPWO.exists_le_minimal
    (show f.declaringClass ∈ classes from ⟨f, member, declares, rfl⟩)
  have same := unique.unique c minimal
  rw [same] at below
  by_cases equal : f.declaringClass = best.declaringClass
  · exact Or.inl (unique.single f member declares equal)
  · exact Or.inr (lt_of_le_of_ne below (Ne.symm equal))

theorem most_derived_key_chosen
    (getConfigKey : Sensor → ConfigKey) (getName : ConfigKey → String) (optionalEntity : Bool)
    (declared listed : List (Field Class ConfigKey Sensor)) (order : listed.Perm declared)
    (name : String) (best : Field Class ConfigKey Sensor)
    (unique : UniquelyMostDerived getConfigKey getName optionalEntity declared name best) :
    (findConfigKeys getConfigKey getName optionalEntity listed).get name =
      best.key getConfigKey optionalEntity := by
  have found : (listed.foldl (findConfigKey getConfigKey getName optionalEntity)
      ⟨.empty, .empty⟩).configFields.get name = some best := by
    refine run_finds (order.mem_iff.mpr unique.listed) unique.declares (fun f member => ?_) ?_
    · exact unique.least f (order.mem_iff.mp member)
    · intro alternative there
      cases there
  have agrees : Agrees getConfigKey optionalEntity
      (listed.foldl (findConfigKey getConfigKey getName optionalEntity) ⟨.empty, .empty⟩) :=
    run_agrees (fun _ => rfl) listed
  rw [findConfigKeys, agrees name, found, Option.bind_some]

/-- A class below two unrelated interfaces; all three declare the key "size". -/
def sizeFields : List (Field (Nat × Nat) (String × Nat) Empty) :=
  [⟨"SIZE", (1, 0), true, .configKey ("size", 1)⟩, ⟨"SIZE", (0, 1), true, .configKey ("size", 2)⟩,
    ⟨"SIZE", (0, 0), true, .configKey ("size", 3)⟩]

theorem class_key_chosen :
    (findConfigKeys Empty.elim Prod.fst false sizeFields.reverse).get "size" =
      some ("size", 3) := by
  let best : Field (Nat × Nat) (String × Nat) Empty :=
    ⟨"SIZE", (0, 0), true, .configKey ("size", 3)⟩
  have listed : best ∈ sizeFields := by decide
  have unique : UniquelyMostDerived Empty.elim Prod.fst false sizeFields "size" best := by
    refine ⟨listed, rfl, fun c minimal => ?_, fun f member _ => ?_⟩
    · have bottom : (0, 0) ≤ c := ⟨Nat.zero_le _, Nat.zero_le _⟩
      exact le_antisymm (minimal.2 ⟨best, listed, rfl, rfl⟩ bottom) bottom
    · have alone : ∀ f ∈ sizeFields, f.declaringClass = best.declaringClass → f = best := by decide
      exact alone f member
  exact most_derived_key_chosen Empty.elim Prod.fst false sizeFields sizeFields.reverse
    (List.reverse_perm _) "size" best unique

end Choice
end Brooklyn.EntityDynamicType
