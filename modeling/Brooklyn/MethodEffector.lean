import Brooklyn.EffectorUtils

/-!
`MethodEffector`: the parameters that it reads off the annotations of a method, and what
follows for a map of named arguments. Descriptions are left out: nothing here reads them.
-/

namespace Brooklyn

variable {Class Value : Type}

/-- A parameter of the method, with the values of `@NamedParameter` and `@DefaultValue`. -/
structure AnnotatedParameter (Class : Type) where
  type : Class
  namedParameter : Option String
  defaultValue : Option String

/-- `none` where the default cannot be coerced. Without the annotation the default is null,
which is not the object `NONE`. -/
def AnnotatedParameter.parameterType (coercions : TypeCoercions Class Value)
    (parameter : AnnotatedParameter Class) : Option (ParameterType Class Value) :=
  (match parameter.defaultValue with
    | some text => coercions.coerce (some (coercions.text text)) parameter.type
    | none => some none).map fun defaultValue =>
      ⟨parameter.namedParameter, parameter.type, some defaultValue⟩

/-- An effector that could be made: its parameters are those of the method. -/
structure MethodEffector (coercions : TypeCoercions Class Value) where
  annotated : List (AnnotatedParameter Class)
  parameters : List (ParameterType Class Value)
  read : annotated.mapM (AnnotatedParameter.parameterType coercions) = some parameters

namespace MethodEffector
open EffectorUtils

variable {coercions : TypeCoercions Class Value} {effector : MethodEffector coercions}
  {m : LinkedMap String (Option Value)}

/-- The map has an argument under the parameter's name. -/
def Supplied (m : LinkedMap String (Option Value)) (parameter : AnnotatedParameter Class) : Prop :=
  ∃ name, parameter.namedParameter = some name ∧ (m.get name).isSome

def AllSupplied (effector : MethodEffector coercions) (m : LinkedMap String (Option Value)) : Prop :=
  ∀ parameter ∈ effector.annotated, parameter.defaultValue = none → Supplied m parameter

/-- The named arguments already have the types of their parameters. -/
def Typed (effector : MethodEffector coercions) (m : LinkedMap String (Option Value)) : Prop :=
  ∀ parameter ∈ effector.annotated, ∀ name value, parameter.namedParameter = some name →
    m.get name = some (some value) → coercions.takes parameter.type value = true

/-- Preparing the arguments succeeds when all mandatory ones are there, and throws for each one
that is missing. -/
structure ChecksMandatory (effector : MethodEffector coercions)
    (m : LinkedMap String (Option Value)) : Prop where
  succeeds : (∃ newArgs, prepareArgsForEffector coercions effector.parameters (.map m) = .ok newArgs) ↔
    AllSupplied effector m
  throws : ∀ parameter ∈ effector.annotated, parameter.defaultValue = none →
    ¬ Supplied m parameter →
      ∃ fault, prepareArgsForEffector coercions effector.parameters (.map m) = .error fault

/-- Whatever the loop takes for the parameter, the map's argument or the default, is coerced. -/
structure Prepares (coercions : TypeCoercions Class Value) (m : LinkedMap String (Option Value))
    (it : ParameterType Class Value) : Prop where
  byDefault : ∃ defaultValue newArg, it.defaultValue = some defaultValue ∧
    coercions.coerce defaultValue it.parameterClass = some newArg
  named : ∀ name value, it.name = some name → m.get name = some value →
    ∃ newArg, coercions.coerce value it.parameterClass = some newArg

theorem Prepares.remove {it : ParameterType Class Value} (prepares : Prepares coercions m it)
    (gone : String) : Prepares coercions (m.remove gone) it := by
  refine ⟨prepares.byDefault, fun name value named found => ?_⟩
  rw [LinkedMap.get_remove] at found
  split at found
  · cases found
  · exact prepares.named name value named found

theorem fromMap_returns {parameters : List (ParameterType Class Value)}
    (prepares : ∀ it ∈ parameters, Prepares coercions m it) :
    ∃ newArgs, prepareArgsForEffectorFromMap coercions parameters m = .ok newArgs := by
  induction parameters generalizing m with
  | nil => exact ⟨[], rfl⟩
  | cons it rest ih =>
    have first := prepares it List.mem_cons_self
    have others : ∀ other ∈ rest, Prepares coercions m other :=
      fun other member => prepares other (List.mem_cons_of_mem it member)
    rw [prepareArgsForEffectorFromMap]
    cases taken : namedArgument it m with
    | none =>
      obtain ⟨defaultValue, newArg, given, coerced⟩ := first.byDefault
      obtain ⟨newArgs, later⟩ := ih others
      refine ⟨newArg :: newArgs, ?_⟩
      simp only [given, bind, Except.bind, coerced, later]
    | some found =>
      obtain ⟨name, value, named, there, rfl⟩ : ∃ name value, it.name = some name ∧
          m.get name = some value ∧ found = (value, m.remove name) := by
        unfold namedArgument at taken
        split at taken
        · cases taken
        · next name named =>
          split at taken
          · cases taken
          · obtain ⟨value, there, rfl⟩ := Option.map_eq_some_iff.mp taken
            exact ⟨name, value, named, there, rfl⟩
      obtain ⟨newArg, coerced⟩ := first.named name value named there
      obtain ⟨newArgs, later⟩ := ih fun other member => (others other member).remove name
      refine ⟨newArg :: newArgs, ?_⟩
      simp only [bind, Except.bind, coerced, later]

omit coercions effector in
theorem mem_of_mapM {Item Result : Type} {f : Item → Option Result} {items : List Item}
    {results : List Result} (mapped : items.mapM f = some results) {result : Result}
    (member : result ∈ results) : ∃ item ∈ items, f item = some result := by
  induction items generalizing results with
  | nil =>
    cases mapped
    cases member
  | cons item rest ih =>
    rw [List.mapM_cons] at mapped
    obtain ⟨first, here, later⟩ := Option.bind_eq_some_iff.mp mapped
    obtain ⟨others, there, same⟩ := Option.bind_eq_some_iff.mp later
    cases same
    rcases List.mem_cons.mp member with rfl | deeper
    · exact ⟨item, List.mem_cons_self, here⟩
    · obtain ⟨other, among, found⟩ := ih there deeper
      exact ⟨other, List.mem_cons_of_mem _ among, found⟩

/-- With the arguments of their types, every parameter is prepared: one without an annotation
by the null that stands for its default. -/
theorem parameters_prepare (typed : effector.Typed m) :
    ∀ it ∈ effector.parameters, Prepares coercions m it := by
  intro it member
  obtain ⟨parameter, annotated, made⟩ := mem_of_mapM effector.read member
  obtain ⟨defaultValue, given, rfl⟩ := Option.map_eq_some_iff.mp made
  have again : coercions.coerce defaultValue parameter.type = some defaultValue := by
    cases byDefault : parameter.defaultValue with
    | none =>
      rw [byDefault] at given
      cases given
      exact coercions.coerce_null parameter.type
    | some text =>
      rw [byDefault] at given
      exact coercions.coerce_again _ _ _ given
  refine ⟨⟨defaultValue, defaultValue, rfl, again⟩, fun name value named found => ?_⟩
  cases value with
  | none => exact ⟨none, coercions.coerce_null parameter.type⟩
  | some value =>
    exact ⟨some value, coercions.coerce_taken value parameter.type
      (typed parameter annotated name value named found)⟩

/-- The call never throws, so it checks the mandatory arguments only where all are supplied. -/
theorem checksMandatory_iff (effector : MethodEffector coercions)
    (m : LinkedMap String (Option Value)) (typed : effector.Typed m) :
    ChecksMandatory effector m ↔ AllSupplied effector m := by
  have returns : ∃ newArgs, prepareArgsForEffector coercions effector.parameters (.map m) =
      .ok newArgs := fromMap_returns (parameters_prepare typed)
  constructor
  · intro checks
    exact checks.succeeds.mp returns
  · intro all
    exact ⟨iff_of_true returns all, fun parameter member mandatory missing =>
      absurd (all parameter member mandatory) missing⟩

/-- One parameter, named and without a default. -/
def greeting : MethodEffector BasicClass.coercions where
  annotated := [⟨.string, some "name", none⟩]
  parameters := [⟨some "name", .string, some none⟩]
  read := rfl

theorem supplied_name_checked : ChecksMandatory greeting (LinkedMap.empty.put "name" (some (.inr "x"))) := by
  refine (checksMandatory_iff _ _ fun parameter member name value named found => ?_).mpr ?_
  · cases List.mem_singleton.mp member
    cases named
    cases found
    rfl
  · intro parameter member _
    cases List.mem_singleton.mp member
    exact ⟨"name", rfl, rfl⟩

-- The method is called with null for the argument that is missing.
theorem missing_name_accepted : ¬ ChecksMandatory greeting LinkedMap.empty := by
  intro checks
  obtain ⟨fault, thrown⟩ := checks.throws ⟨.string, some "name", none⟩ List.mem_cons_self rfl (by
    rintro ⟨name, _, found⟩
    cases found)
  cases thrown

end MethodEffector
end Brooklyn
