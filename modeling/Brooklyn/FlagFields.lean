import Brooklyn.LinkedCollections

/-!
`FlagUtils`: the fields of an object that are annotated with `SetFromFlag` are set from a map of
flags, and read into one. `getAllFields` lists the fields of a class, its superclasses and their
interfaces. Coercion and the comparisons of values are parameters. Left out are the logging and the
variants that take a filter or public fields only.
-/

namespace Brooklyn

structure SetFromFlag where
  value : String := ""
  immutable : Bool := false
  nullable : Bool := true
  defaultVal : String := ""
deriving DecidableEq

namespace Reflection

/-- `staticFinal` fields, such as those of interfaces, cannot be written. -/
structure Field (Class FieldType : Type) where
  declaringClass : Class
  name : String
  type : FieldType
  staticFinal : Bool
  annotation : Option SetFromFlag
deriving DecidableEq

/-- The sizes of some types together. -/
def totalSize {Class : Type} (size : Class → Nat) : List Class → Nat
  | [] => 0
  | type :: rest => size type + totalSize size rest

theorem totalSize_append {Class : Type} (size : Class → Nat) (first second : List Class) :
    totalSize size (first ++ second) = totalSize size first + totalSize size second := by
  induction first with
  | nil => simp [totalSize]
  | cons type rest ih => rw [List.cons_append, totalSize, totalSize, ih, Nat.add_assoc]

theorem totalSize_le {Class : Type} (size : Class → Nat) {fewer types : List Class}
    (among : fewer.Sublist types) : totalSize size fewer ≤ totalSize size types := by
  induction among with
  | slnil => exact Nat.le_refl _
  | cons type _ ih => exact Nat.le_add_left_of_le ih
  | cons_cons type _ ih => exact Nat.add_le_add_left ih _

/-- The types of a program. `size` counts a type with all that are above it, so no type is above
itself. -/
structure Hierarchy (Class FieldType : Type) where
  superclass : Class → Option Class
  interfaces : Class → List Class
  declaredFields : Class → List (Field Class FieldType)
  object : Class
  groovyObject : Class
  size : Class → Nat
  superclass_size : ∀ {type parent}, superclass type = some parent → size parent < size type
  interfaces_size : ∀ type, totalSize size (interfaces type) < size type
  declared_in : ∀ {type field}, field ∈ declaredFields type → field.declaringClass = type
  declared_once : ∀ type, (declaredFields type).Nodup

namespace Hierarchy
variable {Class FieldType : Type} [DecidableEq Class] (types : Hierarchy Class FieldType)

def superclasses (base : Class) : List Class :=
  base :: match _above : types.superclass base with
    | none => []
    | some parent => superclasses parent
termination_by types.size base
decreasing_by exact types.superclass_size ‹_›

def included (type : Class) : Bool := type ≠ types.object ∧ type ≠ types.groovyObject

/-- The interfaces that are not in the list yet. -/
def newInterfaces : List Class → List Class → List Class
  | _, [] => []
  | classes, interf :: rest =>
      if types.included interf ∧ interf ∉ classes then
        interf :: newInterfaces (classes ++ [interf]) rest
      else newInterfaces classes rest

theorem newInterfaces_sublist (classes interfaces : List Class) :
    (types.newInterfaces classes interfaces).Sublist interfaces := by
  induction interfaces generalizing classes with
  | nil => exact .slnil
  | cons interf rest ih =>
    unfold newInterfaces
    split
    · exact (ih _).cons_cons interf
    · exact (ih _).cons interf

/-- The loop over `classes`, whose first part has been walked through. -/
def addInterfaces (walked : List Class) : List Class → List Class
  | [] => walked
  | type :: rest =>
      addInterfaces (walked ++ [type])
        (rest ++ types.newInterfaces (walked ++ type :: rest) (types.interfaces type))
termination_by pending => totalSize types.size pending
decreasing_by
  have fewer := totalSize_le types.size
    (types.newInterfaces_sublist (walked ++ type :: rest) (types.interfaces type))
  have smaller := types.interfaces_size type
  rw [totalSize_append, totalSize]
  omega

section Distinct

omit [DecidableEq Class] in
theorem size_superclasses {base type : Class} (member : type ∈ types.superclasses base) :
    types.size type ≤ types.size base := by
  fun_induction types.superclasses base with
  | case1 base ih =>
    rcases List.mem_cons.mp member with rfl | further
    · exact Nat.le_refl _
    · split at further
      next => cases further
      next parent above =>
        exact Nat.le_trans (ih parent above further) (Nat.le_of_lt (types.superclass_size above))

omit [DecidableEq Class] in
theorem nodup_superclasses (base : Class) : (types.superclasses base).Nodup := by
  fun_induction types.superclasses base with
  | case1 base ih =>
    refine List.nodup_cons.mpr ⟨fun member => ?_, ?_⟩
    · split at member
      next => cases member
      next parent above =>
        exact absurd (types.superclass_size above)
          (Nat.not_lt.mpr (types.size_superclasses member))
    · split
      next => exact List.nodup_nil
      next parent above => exact ih parent above

theorem nodup_newInterfaces (classes interfaces : List Class) :
    (types.newInterfaces classes interfaces).Nodup ∧
      ∀ type ∈ types.newInterfaces classes interfaces, type ∉ classes := by
  induction interfaces generalizing classes with
  | nil => exact ⟨List.nodup_nil, fun type member => nomatch member⟩
  | cons interf rest ih =>
    unfold newInterfaces
    split
    next new =>
      obtain ⟨distinct, fresh⟩ := ih (classes ++ [interf])
      refine ⟨List.nodup_cons.mpr ⟨fun member => fresh interf member (by simp), distinct⟩, ?_⟩
      intro type member
      rcases List.mem_cons.mp member with rfl | later
      · exact new.2
      · exact fun there => fresh type later (List.mem_append_left _ there)
    next => exact ih classes

theorem nodup_addInterfaces (walked pending : List Class) (distinct : (walked ++ pending).Nodup) :
    (types.addInterfaces walked pending).Nodup := by
  fun_induction types.addInterfaces walked pending with
  | case1 walked => simpa using distinct
  | case2 walked type rest ih =>
    refine ih ?_
    obtain ⟨new, fresh⟩ := types.nodup_newInterfaces (walked ++ type :: rest)
      (types.interfaces type)
    have same : walked ++ [type] ++ (rest ++ types.newInterfaces (walked ++ type :: rest)
        (types.interfaces type)) = (walked ++ type :: rest) ++
          types.newInterfaces (walked ++ type :: rest) (types.interfaces type) := by simp
    rw [same]
    exact List.nodup_append'.mpr ⟨distinct, new, fun type there member => fresh type member there⟩

end Distinct

def getAllAssignableTypes (base : Class) : List Class :=
  types.addInterfaces [] ((types.superclasses base).filter types.included)

def getLocalFields (classes : List Class) : List (Field Class FieldType) :=
  classes.flatMap types.declaredFields

def getAllFields (base : Class) : List (Field Class FieldType) :=
  types.getLocalFields (types.getAllAssignableTypes base)

theorem nodup_getAllAssignableTypes (base : Class) : (types.getAllAssignableTypes base).Nodup :=
  types.nodup_addInterfaces _ _ ((types.nodup_superclasses base).filter _)

/-- No field is listed twice. -/
theorem nodup_getAllFields (base : Class) : (types.getAllFields base).Nodup := by
  refine List.nodup_flatMap.mpr ⟨fun type _ => types.declared_once type, ?_⟩
  refine (types.nodup_getAllAssignableTypes base).imp fun different => ?_
  exact fun field here there => different ((types.declared_in here).symm.trans
    (types.declared_in there))

end Hierarchy

/-- What setting a field takes from elsewhere: `TypeCoercions`, and how Java compares. A missing
object is `null`. -/
structure FieldAccess (FieldType Object Fault : Type) where
  coerce : Option Object → FieldType → Except Fault (Option Object)
  ofString : String → Object
  getDefaultValueForType : FieldType → Option Object
  isPrimitive : FieldType → Bool
  equal : Option Object → Option Object → Bool
  same : Option Object → Option Object → Bool

inductive FieldFault (Class FieldType Fault : Type) where
  | forbiddenModification (field : Field Class FieldType)
  | forbiddenNull (field : Field Class FieldType)
  | cannotSet (field : Field Class FieldType) (fault : Fault)
  | illegalAccess (field : Field Class FieldType)
  | nullPrimitive (field : Field Class FieldType)

end Reflection

namespace SetFromFlag

/-- `elvis(cf.value(), f.getName())` -/
def flagName (cf : SetFromFlag) (fieldName : String) : String :=
  if cf.value ≠ "" then cf.value else fieldName

end SetFromFlag

namespace FlagUtils
open Reflection
variable {Class FieldType Object Fault : Type} [DecidableEq Class] [DecidableEq FieldType]

abbrev Values (Class FieldType Object : Type) := Field Class FieldType → Option Object

abbrev Flags (Object : Type) := LinkedMap String (Option Object)

section Setting
variable (access : FieldAccess FieldType Object Fault)

def setField (values : Values Class FieldType Object) (f : Field Class FieldType)
    (value : Option Object) ( annotation : SetFromFlag) :
    Except (FieldFault Class FieldType Fault) (Values Class FieldType Object) :=
  if annotation.immutable && !access.equal (values f) (access.getDefaultValueForType f.type) &&
      !access.same (values f) value then
    .error (.forbiddenModification f)
  else if ! annotation.nullable && value.isNone then .error (.forbiddenNull f)
  else
    match access.coerce value f.type with
    | .error fault => .error (.cannotSet f fault)
    | .ok newValue =>
        -- `Field.set` refuses these even when the field has been made accessible.
        if f.staticFinal then .error (.illegalAccess f)
        else if access.isPrimitive f.type && newValue.isNone then .error (.nullPrimitive f)
        else .ok (Function.update values f newValue)

/-- One round of `setFieldsFromFlagsInternal`: the values, and the flags that remain. -/
def setFieldFromFlags (state : Values Class FieldType Object × Flags Object)
    (f : Field Class FieldType) : Except (FieldFault Class FieldType Fault)
      (Values Class FieldType Object × Flags Object) :=
  match f.annotation with
  | none => .ok state
  | some cf =>
      let flagName := cf.flagName f.name
      match if flagName ≠ "" then state.2.get flagName else none with
      | some value => (setField access state.1 f value cf).map (·, state.2.remove flagName)
      | none =>
          if cf.defaultVal ≠ "" then
            (setField access state.1 f (some (access.ofString cf.defaultVal)) cf).map (·, state.2)
          else .ok state

def setFieldsFromFlags (types : Hierarchy Class FieldType) (base : Class) (flags : Flags Object)
    (values : Values Class FieldType Object) : Except (FieldFault Class FieldType Fault)
      (Values Class FieldType Object × Flags Object) :=
  (types.getAllFields base).foldlM (setFieldFromFlags access) (values, flags)

end Setting

/-- One round of `getFieldsWithFlagsInternal`. -/
def getFieldWithFlag (values : Values Class FieldType Object) (result : Flags Object)
    (f : Field Class FieldType) : Flags Object :=
  match f.annotation with
  | none => result
  | some cf =>
      let flagName := cf.flagName f.name
      -- A later field of the same flag replaces the value.
      if flagName ≠ "" then result.put flagName (values f) else result

def getFieldsWithFlags (types : Hierarchy Class FieldType) (base : Class)
    (values : Values Class FieldType Object) : Flags Object :=
  (types.getAllFields base).foldl (getFieldWithFlag values) .empty

/-- Whether the flag is the one of the field. -/
def hasFlag (flag : String) (f : Field Class FieldType) : Bool :=
  f.annotation.any fun cf => cf.flagName f.name = flag

/-- The first field of a flag. `findFieldForFlag` throws when there is none. -/
def findFieldForFlag (flag : String) (fields : List (Field Class FieldType)) :
    Option (Field Class FieldType) :=
  fields.find? (hasFlag flag)

def lastFieldForFlag (flag : String) (fields : List (Field Class FieldType)) :
    Option (Field Class FieldType) :=
  fields.findRev? (hasFlag flag)

omit [DecidableEq Class] [DecidableEq FieldType] in
theorem hasFlag_iff (flag : String) (f : Field Class FieldType) :
    hasFlag flag f = true ↔ ∃ cf, f.annotation = some cf ∧ cf.flagName f.name = flag := by
  unfold hasFlag
  cases f.annotation with
  | none => simp
  | some cf => simp

section Spec
variable {access : FieldAccess FieldType Object Fault}
  {state after : Values Class FieldType Object × Flags Object} {f : Field Class FieldType}
  {flag : String}

theorem setField_ok {values result : Values Class FieldType Object} {value : Option Object}
    { annotation : SetFromFlag} (done : setField access values f value annotation = .ok result) :
    ∃ newValue, access.coerce value f.type = .ok newValue ∧
      result = Function.update values f newValue := by
  unfold setField at done
  split at done
  · cases done
  split at done
  · cases done
  split at done
  · cases done
  next newValue coerced =>
    split at done
    · cases done
    split at done
    · cases done
    · exact ⟨newValue, coerced, (Except.ok.inj done).symm⟩

omit [DecidableEq Class] [DecidableEq FieldType] in
theorem map_ok {Result Other : Type} {run : Except (FieldFault Class FieldType Fault) Result}
    {next : Result → Other} {result : Other} (done : run.map next = .ok result) :
    ∃ middle, run = .ok middle ∧ next middle = result := by
  cases run with
  | error fault => cases done
  | ok middle => exact ⟨middle, rfl, Except.ok.inj done⟩

/-- What a field holds when no flag is left for it: its default, or else what it held. -/
def settle (access : FieldAccess FieldType Object Fault) (values : Values Class FieldType Object)
    (f : Field Class FieldType) : Except Fault (Option Object) :=
  match f.annotation with
  | none => .ok (values f)
  | some cf =>
      if cf.defaultVal ≠ "" then access.coerce (some (access.ofString cf.defaultVal)) f.type
      else .ok (values f)

/-- What a round does: a flag that is there goes to the field, otherwise the field settles. -/
theorem setFieldFromFlags_cases (done : setFieldFromFlags access state f = .ok after) :
    (∃ cf value, f.annotation = some cf ∧ cf.flagName f.name ≠ "" ∧
      state.2.get (cf.flagName f.name) = some value ∧
      access.coerce value f.type = .ok (after.1 f) ∧
      after = (Function.update state.1 f (after.1 f), state.2.remove (cf.flagName f.name))) ∨
    ((∀ cf, f.annotation = some cf →
        cf.flagName f.name = "" ∨ state.2.get (cf.flagName f.name) = none) ∧
      settle access state.1 f = .ok (after.1 f) ∧
      after = (Function.update state.1 f (after.1 f), state.2)) := by
  have kept : state = (Function.update state.1 f (state.1 f), state.2) := by
    rw [Function.update_eq_self]
  unfold setFieldFromFlags at done
  unfold settle
  cases annotated : f.annotation with
  | none =>
    rw [annotated] at done
    cases done
    exact Or.inr ⟨fun _ same => (nomatch same), rfl, kept⟩
  | some cf =>
    rw [annotated] at done
    dsimp only at done ⊢
    split at done
    next value flagged =>
      rw [Option.ite_none_right_eq_some] at flagged
      obtain ⟨result, set, rfl⟩ := map_ok done
      obtain ⟨newValue, coerced, rfl⟩ := setField_ok set
      refine Or.inl ⟨cf, value, rfl, flagged.1, flagged.2, ?_⟩
      simp [coerced]
    next flagged =>
      refine Or.inr ⟨?_, ?_⟩
      · rintro _ ⟨⟩
        by_cases named : cf.flagName f.name = ""
        · exact Or.inl named
        · rw [if_pos named] at flagged
          exact Or.inr flagged
      split at done
      next default =>
        obtain ⟨result, set, rfl⟩ := map_ok done
        obtain ⟨newValue, coerced, rfl⟩ := setField_ok set
        rw [if_pos default]
        simp [coerced]
      next noDefault =>
        cases done
        rw [if_neg noDefault]
        exact ⟨rfl, kept⟩

section Round
variable (done : setFieldFromFlags access state f = .ok after)
include done

theorem values_of_ne {g : Field Class FieldType} (different : g ≠ f) :
    after.1 g = state.1 g := by
  obtain ⟨_, _, _, _, _, _, made⟩ | ⟨_, _, made⟩ := setFieldFromFlags_cases done
  all_goals
    rw [made]
    exact Function.update_of_ne different _ _

theorem remaining_of_not_hasFlag (unflagged : hasFlag flag f = false ∨ flag = "") :
    after.2.get flag = state.2.get flag := by
  obtain ⟨cf, _, annotated, named, _, _, made⟩ | ⟨_, _, made⟩ := setFieldFromFlags_cases done
  · rw [made, LinkedMap.get_remove, if_neg]
    rintro rfl
    rcases unflagged with unflagged | empty
    · rw [(hasFlag_iff _ f).mpr ⟨cf, annotated, rfl⟩] at unflagged
      cases unflagged
    · exact named empty
  · rw [made]

theorem remaining_none (gone : state.2.get flag = none) : after.2.get flag = none := by
  obtain ⟨_, _, _, _, _, _, made⟩ | ⟨_, _, made⟩ := setFieldFromFlags_cases done
  · rw [made, LinkedMap.get_remove, gone, ite_self]
  · rw [made, gone]

/-- The field takes the flag. -/
theorem takes_flag (flagged : hasFlag flag f = true) (named : flag ≠ "") {value : Option Object}
    (given : state.2.get flag = some value) :
    access.coerce value f.type = .ok (after.1 f) ∧ after.2.get flag = none := by
  obtain ⟨cf, annotated, rfl⟩ := (hasFlag_iff flag f).mp flagged
  obtain ⟨other, _, same, _, found, coerced, made⟩ | ⟨unnamed, _, _⟩ :=
    setFieldFromFlags_cases done
  · rw [annotated] at same
    cases same
    rw [given] at found
    cases found
    refine ⟨coerced, ?_⟩
    rw [made, LinkedMap.get_remove, if_pos rfl]
  · rcases unnamed cf annotated with empty | gone
    · exact absurd empty named
    · rw [given] at gone
      cases gone

theorem settles (flagged : hasFlag flag f = true) (gone : state.2.get flag = none) :
    settle access state.1 f = .ok (after.1 f) := by
  obtain ⟨cf, annotated, rfl⟩ := (hasFlag_iff flag f).mp flagged
  obtain ⟨other, _, same, _, found, _, _⟩ | ⟨_, settled, _⟩ := setFieldFromFlags_cases done
  · rw [annotated] at same
    cases same
    rw [gone] at found
    cases found
  · exact settled

end Round

section Rounds
variable {fields : List (Field Class FieldType)}

theorem foldlM_cons_ok
    (done : (f :: fields).foldlM (setFieldFromFlags access) state = .ok after) :
    ∃ middle, setFieldFromFlags access state f = .ok middle ∧
      fields.foldlM (setFieldFromFlags access) middle = .ok after := by
  rw [List.foldlM_cons] at done
  cases first : setFieldFromFlags access state f with
  | error fault =>
    rw [first] at done
    cases done
  | ok middle =>
    rw [first] at done
    exact ⟨middle, rfl, done⟩

theorem values_of_not_mem (done : fields.foldlM (setFieldFromFlags access) state = .ok after)
    (absent : f ∉ fields) : after.1 f = state.1 f := by
  induction fields generalizing state with
  | nil =>
    cases done
    rfl
  | cons first rest ih =>
    obtain ⟨middle, taken, later⟩ := foldlM_cons_ok done
    rw [List.mem_cons, not_or] at absent
    exact (ih later absent.2).trans (values_of_ne taken absent.1)

theorem remaining_of_unflagged (done : fields.foldlM (setFieldFromFlags access) state = .ok after)
    (unflagged : ∀ f ∈ fields, hasFlag flag f = false ∨ flag = "") :
    after.2.get flag = state.2.get flag := by
  induction fields generalizing state with
  | nil =>
    cases done
    rfl
  | cons first rest ih =>
    obtain ⟨middle, taken, later⟩ := foldlM_cons_ok done
    exact (ih later fun f member => unflagged f (List.mem_cons_of_mem _ member)).trans
      (remaining_of_not_hasFlag taken (unflagged first List.mem_cons_self))

/-- Once the flag is gone each of its fields settles. -/
theorem all_settle (done : fields.foldlM (setFieldFromFlags access) state = .ok after)
    (distinct : fields.Nodup) (gone : state.2.get flag = none) (member : f ∈ fields)
    (flagged : hasFlag flag f = true) : settle access state.1 f = .ok (after.1 f) := by
  induction fields generalizing state with
  | nil => cases member
  | cons first rest ih =>
    obtain ⟨middle, taken, later⟩ := foldlM_cons_ok done
    obtain ⟨once, distinct⟩ := List.nodup_cons.mp distinct
    rcases List.mem_cons.mp member with rfl | further
    · rw [settles taken flagged gone, values_of_not_mem later once]
    · have other : f ≠ first := by
        rintro rfl
        exact once further
      rw [← ih later distinct (remaining_none taken gone) further, settle, settle,
        values_of_ne taken other]

/-- The first field takes the flag, the others settle. -/
theorem first_takes (done : fields.foldlM (setFieldFromFlags access) state = .ok after)
    (distinct : fields.Nodup) (named : flag ≠ "") {value : Option Object}
    (given : state.2.get flag = some value) {first : Field Class FieldType}
    (found : findFieldForFlag flag fields = some first) :
    access.coerce value first.type = .ok (after.1 first) ∧
      ∀ f ∈ fields, hasFlag flag f = true → f ≠ first →
        settle access state.1 f = .ok (after.1 f) := by
  induction fields generalizing state with
  | nil => cases found
  | cons head rest ih =>
    obtain ⟨middle, taken, later⟩ := foldlM_cons_ok done
    obtain ⟨once, distinctRest⟩ := List.nodup_cons.mp distinct
    have settled (f : Field Class FieldType) (different : f ≠ head) :
        settle access middle.1 f = settle access state.1 f := by
      rw [settle, settle, values_of_ne taken different]
    have apart (f : Field Class FieldType) (member : f ∈ rest) : f ≠ head := by
      rintro rfl
      exact once member
    by_cases flagged : hasFlag flag head = true
    · rw [findFieldForFlag, List.find?_cons_of_pos flagged] at found
      cases found
      -- The head takes the flag, so the other fields run without it.
      obtain ⟨coerced, gone⟩ := takes_flag taken flagged named given
      refine ⟨by rw [values_of_not_mem later once]; exact coerced, fun f member own different => ?_⟩
      have further := (List.mem_cons.mp member).resolve_left different
      rw [← settled f different]
      exact all_settle later distinctRest gone further own
    · rw [findFieldForFlag, List.find?_cons_of_neg flagged] at found
      have unflagged : hasFlag flag head = false := Bool.eq_false_iff.mpr flagged
      obtain ⟨coerced, others⟩ := ih later distinctRest
        ((remaining_of_not_hasFlag taken (Or.inl unflagged)).trans given) found
      refine ⟨coerced, fun f member own different => ?_⟩
      rcases List.mem_cons.mp member with rfl | further
      · exact absurd own flagged
      · rw [← settled f (apart f further)]
        exact others f further own different

end Rounds
end Spec

section Reading
variable {values : Values Class FieldType Object} {flag : String}

omit [DecidableEq Class] [DecidableEq FieldType] in
/-- The last field of a flag gives the value that is read. -/
theorem get_getFields (named : flag ≠ "") (fields : List (Field Class FieldType))
    (result : Flags Object) :
    (fields.foldl (getFieldWithFlag values) result).get flag =
      ((lastFieldForFlag flag fields).map values).or (result.get flag) := by
  induction fields generalizing result with
  | nil => rfl
  | cons f rest ih =>
    rw [List.foldl_cons, ih, lastFieldForFlag, lastFieldForFlag, List.findRev?]
    cases found : rest.findRev? (hasFlag flag) with
    | some last => rfl
    | none =>
      rw [Option.map_none, Option.none_or]
      by_cases flagged : hasFlag flag f = true
      · obtain ⟨cf, annotated, rfl⟩ := (hasFlag_iff flag f).mp flagged
        simp [getFieldWithFlag, annotated, named, flagged]
      · have other : (getFieldWithFlag values result f).get flag = result.get flag := by
          unfold getFieldWithFlag
          cases annotated : f.annotation with
          | none => rfl
          | some cf =>
            have different : flag ≠ cf.flagName f.name := fun same =>
              flagged ((hasFlag_iff flag f).mpr ⟨cf, annotated, same.symm⟩)
            dsimp only
            split
            · rw [LinkedMap.get_put, if_neg different]
            · rfl
        simp [other, flagged]

omit [DecidableEq Class] [DecidableEq FieldType] in
theorem lastFieldForFlag_some {fields : List (Field Class FieldType)} {last : Field Class FieldType}
    (found : lastFieldForFlag flag fields = some last) :
    last ∈ fields ∧ hasFlag flag last = true := by
  rw [lastFieldForFlag, List.findRev?_eq_find?_reverse] at found
  exact ⟨List.mem_reverse.mp (List.mem_of_find?_eq_some found), List.find?_some found⟩

end Reading

section RoundTrip
variable (access : FieldAccess FieldType Object Fault) (types : Hierarchy Class FieldType)
  (base : Class)

/-- What is read under the flag is its value, coerced to the type of the field that took it. -/
def RoundTrips (after : Values Class FieldType Object) (flag : String) (value : Option Object) :
    Prop :=
  ∃ first held, findFieldForFlag flag (types.getAllFields base) = some first ∧
    access.coerce value first.type = .ok held ∧
    (getFieldsWithFlags types base after).get flag = some held

/-- The last field of the flag is the first, or comes to hold the same without the flag. -/
def Agrees (values : Values Class FieldType Object) (flag : String) (value : Option Object) :
    Prop :=
  ∃ first last, findFieldForFlag flag (types.getAllFields base) = some first ∧
    lastFieldForFlag flag (types.getAllFields base) = some last ∧
    (last = first ∨ settle access values last = access.coerce value first.type)

/-- A flag that was consumed is read back, coerced, if the fields of the flag agree on it, and only
then. -/
theorem round_trip_iff {flags remaining : Flags Object}
    {values after : Values Class FieldType Object}
    (done : setFieldsFromFlags access types base flags values = .ok (after, remaining))
    {flag : String} {value : Option Object} (given : flags.get flag = some value)
    (consumed : remaining.get flag = none) :
    RoundTrips access types base after flag value ↔ Agrees access types base values flag value := by
  have distinct := types.nodup_getAllFields base
  have kept (unflagged : ∀ f ∈ types.getAllFields base, hasFlag flag f = false ∨ flag = "") :
      False := by
    have same := remaining_of_unflagged done unflagged
    rw [consumed, given] at same
    cases same
  have named : flag ≠ "" := fun empty => kept fun _ _ => Or.inr empty
  obtain ⟨first, found⟩ : ∃ first,
      findFieldForFlag flag (types.getAllFields base) = some first := by
    rw [← Option.isSome_iff_exists, findFieldForFlag, List.find?_isSome]
    by_contra missing
    exact kept fun f member => Or.inl (Bool.eq_false_iff.mpr fun own => missing ⟨f, member, own⟩)
  obtain ⟨last, foundLast⟩ : ∃ last,
      lastFieldForFlag flag (types.getAllFields base) = some last := by
    rw [← Option.isSome_iff_exists, lastFieldForFlag, List.findRev?_eq_find?_reverse,
      List.find?_isSome]
    exact ⟨first, List.mem_reverse.mpr (List.mem_of_find?_eq_some found), List.find?_some found⟩
  obtain ⟨coerced, others⟩ := first_takes done distinct named given found
  have read : (getFieldsWithFlags types base after).get flag = some (after last) := by
    rw [getFieldsWithFlags, get_getFields named, foundLast]
    rfl
  obtain ⟨member, own⟩ := lastFieldForFlag_some foundLast
  -- What is read is what the last field holds, and that has settled unless it is the first.
  constructor
  · rintro ⟨_, held, again, holds, readsHeld⟩
    rw [found] at again
    cases again
    rw [read] at readsHeld
    cases readsHeld
    refine ⟨first, last, found, foundLast, or_iff_not_imp_left.mpr fun different => ?_⟩
    exact (others last member own different).trans holds.symm
  · rintro ⟨_, _, again, againLast, agrees⟩
    rw [found] at again
    rw [foundLast] at againLast
    cases again
    cases againLast
    refine ⟨first, after last, found, ?_, read⟩
    by_cases same : last = first
    · rw [same]
      exact coerced
    · rw [← agrees.resolve_left same]
      exact others last member own same

end RoundTrip

section Example

inductive ExampleClass where
  | object | groovyObject | base | sub
deriving DecidableEq

def subPort : Field ExampleClass Unit := ⟨.sub, "port", ⟨⟩, false, some { value := "port" }⟩

def basePort (flag : String) : Field ExampleClass Unit :=
  ⟨.base, "port", ⟨⟩, false, some { value := flag }⟩

/-- A class with a port, below a class with a port of its own. -/
def exampleTypes (baseFlag : String) : Hierarchy ExampleClass Unit where
  superclass
    | .sub => some .base
    | .base => some .object
    | _ => none
  interfaces _ := []
  declaredFields
    | .sub => [subPort]
    | .base => [basePort baseFlag]
    | _ => []
  object := .object
  groovyObject := .groovyObject
  size
    | .sub => 3
    | .base => 2
    | _ => 1
  superclass_size {type _} above := by cases type <;> cases above <;> decide
  interfaces_size type := by cases type <;> decide
  declared_in {type field} member := by
    cases type <;> simp only [List.mem_singleton, List.not_mem_nil] at member <;>
      rw [member] <;> rfl
  declared_once type := by cases type <;> simp

theorem exampleTypes_fields (baseFlag : String) :
    (exampleTypes baseFlag).getAllFields .sub = [subPort, basePort baseFlag] := by
  have superclasses : (exampleTypes baseFlag).superclasses .sub = [.sub, .base, .object] := by
    simp [Hierarchy.superclasses, exampleTypes]
  have classes : (exampleTypes baseFlag).getAllAssignableTypes .sub = [.sub, .base] := by
    rw [Hierarchy.getAllAssignableTypes, superclasses]
    simp [Hierarchy.addInterfaces, Hierarchy.newInterfaces, Hierarchy.included, exampleTypes]
  rw [Hierarchy.getAllFields, classes]
  rfl

def exampleAccess : FieldAccess Unit Nat Unit where
  coerce value _ := .ok value
  ofString text := text.length
  getDefaultValueForType _ := some 0
  isPrimitive _ := true
  equal first second := first = second
  same first second := first = second

def examplePort : Flags Nat := .put .empty "port" (some 8080)

/-- The port is set on the subclass. -/
theorem port_set (baseFlag : String) :
    setFieldsFromFlags exampleAccess (exampleTypes baseFlag) .sub examplePort (fun _ => some 0) =
      .ok (Function.update (fun _ => some 0) subPort (some 8080), examplePort.remove "port") := by
  have unflagged (flag : String) :
      (if flag ≠ "" then (examplePort.remove "port").get flag else none) = none := by
    simp [examplePort]
  rw [setFieldsFromFlags, exampleTypes_fields]
  change setFieldFromFlags exampleAccess (_, examplePort.remove "port") (basePort baseFlag) >>= _ =
    _
  unfold setFieldFromFlags
  dsimp only [basePort]
  rw [unflagged]
  rfl

/-- The field of the superclass has a flag of its own. -/
theorem own_flag_round_trips :
    RoundTrips exampleAccess (exampleTypes "basePort") .sub
      (Function.update (fun _ => some 0) subPort (some 8080)) "port" (some 8080) :=
  (round_trip_iff exampleAccess (exampleTypes "basePort") .sub (port_set "basePort") rfl
    (by simp)).mpr
    ⟨subPort, subPort, by rw [exampleTypes_fields]; rfl, by rw [exampleTypes_fields]; rfl,
      Or.inl rfl⟩

/-- The field of the superclass has the same flag, and is read instead. -/
theorem shared_flag_misread :
    ¬ ∀ after remaining,
      setFieldsFromFlags exampleAccess (exampleTypes "port") .sub examplePort (fun _ => some 0) =
        .ok (after, remaining) →
      ∀ flag value, examplePort.get flag = some value → remaining.get flag = none →
        RoundTrips exampleAccess (exampleTypes "port") .sub after flag value := by
  intro claimed
  obtain ⟨first, held, found, coerced, read⟩ :=
    claimed _ _ (port_set "port") "port" (some 8080) rfl (by simp)
  cases coerced
  rw [getFieldsWithFlags, exampleTypes_fields] at read
  have misread : (([subPort, basePort "port"].foldl (getFieldWithFlag
      (Function.update (fun _ => some 0) subPort (some 8080))) .empty).get "port") =
        some (some 0) := by
    rfl
  rw [misread] at read
  cases read

end Example

end FlagUtils
end Brooklyn
