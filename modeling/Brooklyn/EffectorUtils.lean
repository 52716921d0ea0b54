import Brooklyn.LinkedCollections

/-!
`EffectorUtils.prepareArgsForEffector` for an array and for a map, and the parameters that
it reads. A value that may be null is an `Option`. What the methods ask of classes and of
`TypeCoercions` is a parameter: which values a parameter of a class takes, which values are
maps of named arguments, and what a value is coerced to.
-/

namespace Brooklyn

variable {Class Value : Type}

/-- A parameter of a primitive class takes what is boxed, which is no instance of the class. -/
structure JavaClasses (Class Value : Type) where
  isPrimitive : Class → Bool
  takes : Class → Value → Bool
  inhabited : ∀ type, isPrimitive type = true → ∃ value, takes type value = true

/-- `none` is an exception. A value that a parameter of the class takes is left as it is, and
so is one that has been coerced already. -/
structure TypeCoercions (Class Value : Type) extends JavaClasses Class Value where
  text : String → Value
  asMap : Value → Option (LinkedMap String (Option Value))
  coerce : Option Value → Class → Option (Option Value)
  coerce_null : ∀ type, coerce none type = some none
  coerce_taken : ∀ value type, takes type value = true → coerce (some value) type = some (some value)
  coerce_again : ∀ value type result, coerce value type = some result →
    coerce result type = some result

namespace JavaClasses
variable (classes : JavaClasses Class Value)

def isInstance (type : Class) (value : Value) : Bool :=
  !classes.isPrimitive type && classes.takes type value

/-- A value, perhaps null, of the parameter's type. -/
def Typed (type : Class) : Option Value → Prop
  | none => classes.isPrimitive type = false
  | some value => classes.takes type value = true

theorem exists_typed (type : Class) : ∃ value, classes.Typed type value := by
  cases primitive : classes.isPrimitive type with
  | false => exact ⟨none, primitive⟩
  | true =>
    obtain ⟨value, taken⟩ := classes.inhabited type primitive
    exact ⟨some value, taken⟩

end JavaClasses

/-- `BasicParameterType`; `defaultValue` is `none` for the object `NONE`. Any other kind of
`ParameterType` has no default. -/
structure ParameterType (Class Value : Type) where
  name : Option String
  parameterClass : Class
  defaultValue : Option (Option Value)

def ParameterType.hasDefaultValue (parameter : ParameterType Class Value) : Bool :=
  parameter.defaultValue.isSome

inductive EffectorFault where
  | countMismatch
  | extra (arguments : Nat)
  | missingArgument (name : Option String)
  | classCast
deriving DecidableEq

/-- What is passed to an effector, other than what the deprecated style passes. -/
inductive EffectorCall (Value : Type) where
  | array (args : List (Option Value))
  | map (m : LinkedMap String (Option Value))

namespace EffectorUtils

section Array
variable (classes : JavaClasses Class Value)

/-- The loop over the parameters; `newArgsNeeded` is the number of those that are left. -/
def placeArguments : List (ParameterType Class Value) → List (Option Value) →
    LinkedMap (Option String) (Option Value) →
      Except EffectorFault (LinkedMap (Option String) (Option Value))
  | [], [], newArgs => .ok newArgs
  | [], l, _ => .error (.extra l.length)
  | it :: rest, [], newArgs =>
      match it.defaultValue with
      | some defaultValue => placeArguments rest [] (newArgs.put it.name defaultValue)
      | none => .error .countMismatch
  | it :: rest, first :: l, newArgs =>
      if (it :: rest).length ≤ (first :: l).length ∨ first.any (classes.isInstance it.parameterClass) then
        placeArguments rest l (newArgs.put it.name first)
      else
        match it.defaultValue with
        | some defaultValue => placeArguments rest (first :: l) (newArgs.put it.name defaultValue)
        | none => .error .countMismatch

def prepareArgsForEffectorAsMapFromArray (parameters : List (ParameterType Class Value))
    (args : List (Option Value)) :
    Except EffectorFault (LinkedMap (Option String) (Option Value)) :=
  placeArguments classes parameters args .empty

end Array

section Map
variable (coercions : TypeCoercions Class Value)

/-- The argument that the map has under the parameter's name, with the map without it. The
empty name is false as a Groovy truth. -/
def namedArgument (it : ParameterType Class Value) (m : LinkedMap String (Option Value)) :
    Option (Option Value × LinkedMap String (Option Value)) :=
  match it.name with
  | none => none
  | some name =>
      if name = "" then none else (m.get name).map fun value => (value, m.remove name)

/-- The loop over the parameters, on the copy of the map. -/
def prepareArgsForEffectorFromMap : List (ParameterType Class Value) →
    LinkedMap String (Option Value) → Except EffectorFault (List (Option Value))
  | [], _ => .ok []
  | it :: rest, m => do
      let (v, m) ←
        match namedArgument it m with
        | some found => .ok found
        | none =>
            match it.defaultValue with
            | some defaultValue => .ok (defaultValue, m)
            | none => .error (.missingArgument it.name)
      match coercions.coerce v it.parameterClass with
      | none => .error .classCast
      | some newArg => do
          let newArgs ← prepareArgsForEffectorFromMap rest m
          .ok (newArg :: newArgs)

/-- The map that an array with nothing else in it has, unless it is for a parameter that takes a
map. -/
def singleMap (parameters : List (ParameterType Class Value)) :
    List (Option Value) → Option (LinkedMap String (Option Value))
  | [some value] =>
      match coercions.asMap value, parameters with
      | some _, [it] =>
          if coercions.isInstance it.parameterClass value then none else coercions.asMap value
      | found, _ => found
  | _ => none

def prepareArgsForEffectorFromArray (parameters : List (ParameterType Class Value))
    (args : List (Option Value)) : Except EffectorFault (List (Option Value)) :=
  match singleMap coercions parameters args with
  | some m => prepareArgsForEffectorFromMap coercions parameters m
  | none => (prepareArgsForEffectorAsMapFromArray coercions.toJavaClasses parameters args).map
      LinkedMap.values

def prepareArgsForEffector (parameters : List (ParameterType Class Value)) :
    EffectorCall Value → Except EffectorFault (List (Option Value))
  | .array args => prepareArgsForEffectorFromArray coercions parameters args
  | .map m => prepareArgsForEffectorFromMap coercions parameters m

end Map
end EffectorUtils

/-- `Object`, `String` and `int`, for values that are numbers and texts. -/
inductive BasicClass where
  | object | string | int
deriving DecidableEq

namespace BasicClass

def takes : BasicClass → Nat ⊕ String → Bool
  | .object, _ => true
  | .string, value => value.isRight
  | .int, value => value.isLeft

def classes : JavaClasses BasicClass (Nat ⊕ String) where
  isPrimitive type := type = .int
  takes := takes
  inhabited type primitive := ⟨.inl 0, by cases type <;> first | rfl | cases primitive⟩

/-- A text is not parsed: no value is of another type here. -/
def coercions : TypeCoercions BasicClass (Nat ⊕ String) where
  toJavaClasses := classes
  text := .inr
  asMap _ := none
  coerce
    | none, _ => some none
    | some value, type => if takes type value then some (some value) else none
  coerce_null _ := rfl
  coerce_taken _ _ taken := if_pos taken
  coerce_again value type result coerced := by
    cases value with
    | none =>
      cases coerced
      rfl
    | some value =>
      dsimp only at coerced
      split at coerced
      · next taken =>
        cases coerced
        exact if_pos taken
      · cases coerced

end BasicClass
end Brooklyn
