import Brooklyn.EffectorUtils

/-!
Which argument arrays `prepareArgsForEffector` completes. Arguments are placed from the left:
each is taken by the first parameter whose class has it as an instance, until as many
arguments as parameters are left. So the call gives a completion where some completion is
placed like that, and the names, under which the values are kept, are distinct.
-/

namespace Brooklyn.EffectorUtils

variable {Class Value : Type}

section Completions
variable (classes : JavaClasses Class Value)

/-- The arguments that are left of a full list when parameters with defaults are omitted. -/
inductive Omits : List (ParameterType Class Value) → List (Option Value) → List Value → Prop
  | nil : Omits [] [] []
  | supplied (it : ParameterType Class Value) (value : Value) {rest full args} :
      Omits rest full args → Omits (it :: rest) (some value :: full) (value :: args)
  | omitted (it : ParameterType Class Value) (value : Option Value) {rest full args} :
      it.defaultValue.isSome → Omits rest full args → Omits (it :: rest) (value :: full) args

/-- The array arises from a type-correct full argument list. -/
def Arises (parameters : List (ParameterType Class Value)) (args : List Value) : Prop :=
  ∃ full, List.Forall₂ (fun it value => classes.Typed it.parameterClass value) parameters full ∧
    Omits parameters full args

/-- One value for each parameter: the arguments in their order, each of the type of its
parameter, and the defaults in the omitted places. -/
inductive Completes : List (ParameterType Class Value) → List Value → List (Option Value) → Prop
  | nil : Completes [] [] []
  | supplied (it : ParameterType Class Value) (value : Value) {rest args full} :
      classes.takes it.parameterClass value = true → Completes rest args full →
        Completes (it :: rest) (value :: args) (some value :: full)
  | omitted (it : ParameterType Class Value) (defaultValue : Option Value) {rest args full} :
      it.defaultValue = some defaultValue → Completes rest args full →
        Completes (it :: rest) args (defaultValue :: full)

/-- The list omits a parameter only where the next argument is no instance of its class, and
gives a parameter an argument that is no instance of its class only where no parameter is left
to omit. -/
inductive Eager : List (ParameterType Class Value) → List Value → List (Option Value) → Prop
  | nil : Eager [] [] []
  | supplied (it : ParameterType Class Value) (value : Value) {rest args full} :
      classes.isInstance it.parameterClass value = true ∨ rest.length ≤ args.length →
      Eager rest args full → Eager (it :: rest) (value :: args) (some value :: full)
  | omitted (it : ParameterType Class Value) (defaultValue : Option Value) {rest args full} :
      it.defaultValue = some defaultValue →
      (∀ value, args.head? = some value → classes.isInstance it.parameterClass value = false) →
      Eager rest args full → Eager (it :: rest) args (defaultValue :: full)

end Completions

variable {classes : JavaClasses Class Value} {parameters : List (ParameterType Class Value)}
  {args : List Value} {full : List (Option Value)}

theorem Completes.length_full (completes : Completes classes parameters args full) :
    full.length = parameters.length := by
  induction completes with
  | nil => rfl
  | supplied it value _ _ ih => exact congrArg Nat.succ ih
  | omitted it defaultValue _ _ ih => exact congrArg Nat.succ ih

theorem Eager.length_full (eager : Eager classes parameters args full) :
    full.length = parameters.length := by
  induction eager with
  | nil => rfl
  | supplied it value _ _ ih => exact congrArg Nat.succ ih
  | omitted it defaultValue _ _ _ ih => exact congrArg Nat.succ ih

theorem Eager.length_args (eager : Eager classes parameters args full) :
    args.length ≤ parameters.length := by
  induction eager with
  | nil => exact Nat.le_refl 0
  | supplied it value _ _ ih => exact Nat.succ_le_succ ih
  | omitted it defaultValue _ _ _ ih => exact Nat.le_succ_of_le ih

/-- An array arises when it has a completion: what is omitted may as well have been the default,
or anything of the type. -/
theorem arises_iff : Arises classes parameters args ↔ ∃ full, Completes classes parameters args full := by
  constructor
  · rintro ⟨full, typed, omits⟩
    induction omits with
    | nil => exact ⟨[], .nil⟩
    | supplied it value _ ih =>
      obtain ⟨taken, others⟩ := List.forall₂_cons.mp typed
      obtain ⟨completion, completes⟩ := ih others
      exact ⟨_, .supplied it value taken completes⟩
    | omitted it value given _ ih =>
      obtain ⟨defaultValue, same⟩ := Option.isSome_iff_exists.mp given
      obtain ⟨completion, completes⟩ := ih (List.forall₂_cons.mp typed).2
      exact ⟨_, .omitted it defaultValue same completes⟩
  · rintro ⟨completion, completes⟩
    induction completes with
    | nil => exact ⟨[], .nil, .nil⟩
    | supplied it value taken _ ih =>
      obtain ⟨full, typed, omits⟩ := ih
      have correct : classes.Typed it.parameterClass (some value) := taken
      exact ⟨_, .cons correct typed, .supplied it value omits⟩
    | omitted it defaultValue given _ ih =>
      obtain ⟨full, typed, omits⟩ := ih
      obtain ⟨value, correct⟩ := classes.exists_typed it.parameterClass
      exact ⟨_, .cons correct typed, .omitted it value (by rw [given]; rfl) omits⟩

section Placing
variable (classes)

/-- The values that `placeArguments` keeps, in the order of the parameters. -/
def place : List (ParameterType Class Value) → List Value → Option (List (Option Value))
  | [], [] => some []
  | [], _ :: _ => none
  | it :: rest, [] => it.defaultValue.bind fun given => (place rest []).map (given :: ·)
  | it :: rest, first :: l =>
      if rest.length ≤ l.length ∨ classes.isInstance it.parameterClass first = true then
        (place rest l).map (some first :: ·)
      else it.defaultValue.bind fun given => (place rest (first :: l)).map (given :: ·)

variable {classes}

theorem placeArguments_place (parameters : List (ParameterType Class Value)) (args : List Value)
    (newArgs : LinkedMap (Option String) (Option Value)) :
    (placeArguments classes parameters (args.map some) newArgs).toOption =
      (place classes parameters args).map fun values =>
        newArgs.putAll ((parameters.map ParameterType.name).zip values) := by
  induction parameters generalizing args newArgs with
  | nil => cases args <;> rfl
  | cons it rest ih =>
    cases args with
    | nil =>
      rw [List.map_nil, placeArguments, place]
      cases it.defaultValue with
      | none => rfl
      | some given =>
        rw [Option.bind_some, Option.map_map]
        exact ih [] (newArgs.put it.name given)
    | cons first l =>
      rw [List.map_cons, placeArguments, place]
      simp only [List.length_cons, List.length_map, Nat.add_le_add_iff_right, Option.any_some]
      split
      · rw [Option.map_map]
        exact ih l (newArgs.put it.name (some first))
      · cases it.defaultValue with
        | none => rfl
        | some given =>
          rw [Option.bind_some, Option.map_map]
          exact ih (first :: l) (newArgs.put it.name given)

theorem place_of_eager (eager : Eager classes parameters args full) :
    place classes parameters args = some full := by
  induction eager with
  | nil => rfl
  | @supplied it value rest args full takes _ ih =>
    rw [place, if_pos takes.symm, ih]
    rfl
  | @omitted it defaultValue rest args full given unlike later ih =>
    cases args with
    | nil =>
      rw [place, given, Option.bind_some, ih]
      rfl
    | cons first l =>
      have room : ¬ rest.length ≤ l.length := Nat.not_le_of_lt later.length_args
      have other : ¬ classes.isInstance it.parameterClass first = true := by
        rw [unlike first rfl]
        exact Bool.false_ne_true
      rw [place, if_neg (not_or.mpr ⟨room, other⟩), given, Option.bind_some, ih]
      rfl

theorem eager_of_place (placed : place classes parameters args = some full) :
    Eager classes parameters args full := by
  induction parameters generalizing args full with
  | nil =>
    cases args with
    | nil =>
      cases placed
      exact .nil
    | cons first l => cases placed
  | cons it rest ih =>
    have byDefault {l : List Value} {full : List (Option Value)}
        (unlike : ∀ value, l.head? = some value → classes.isInstance it.parameterClass value = false)
        (found : (it.defaultValue.bind fun given => (place classes rest l).map (given :: ·)) =
          some full) : Eager classes (it :: rest) l full := by
      obtain ⟨given, isDefault, others⟩ := Option.bind_eq_some_iff.mp found
      obtain ⟨values, later, rfl⟩ := Option.map_eq_some_iff.mp others
      exact .omitted it given isDefault unlike (ih later)
    cases args with
    | nil => exact byDefault (fun _ none => by cases none) placed
    | cons first l =>
      rw [place] at placed
      split at placed
      · next takes =>
        obtain ⟨values, later, rfl⟩ := Option.map_eq_some_iff.mp placed
        exact .supplied it first takes.symm (ih later)
      · next refused =>
        refine byDefault (fun value head => ?_) placed
        cases head
        exact Bool.eq_false_iff.mpr (not_or.mp refused).2

theorem place_iff_eager :
    place classes parameters args = some full ↔ Eager classes parameters args full :=
  ⟨eager_of_place, place_of_eager⟩

end Placing

def mandatory (parameters : List (ParameterType Class Value)) : List (ParameterType Class Value) :=
  parameters.filter fun it => !it.hasDefaultValue

theorem Eager.mandatory_le (eager : Eager classes parameters args full) :
    (mandatory parameters).length ≤ args.length := by
  induction eager with
  | nil => exact Nat.le_refl 0
  | @supplied it value rest args full _ _ ih =>
    refine Nat.le_trans ?_ (Nat.succ_le_succ ih)
    rw [mandatory, List.filter_cons]
    split
    · exact Nat.le_refl _
    · exact Nat.le_succ _
  | @omitted it defaultValue rest args full given _ _ ih =>
    have optional : ¬ (!it.hasDefaultValue) = true := by
      rw [ParameterType.hasDefaultValue, given]
      exact Bool.false_ne_true
    rw [mandatory, List.filter_cons, if_neg optional]
    exact ih

section Arrays
variable {coercions : TypeCoercions Class Value}

/-- What the call promises for one array of arguments. -/
structure PreparesArray (coercions : TypeCoercions Class Value)
    (parameters : List (ParameterType Class Value)) (args : List Value) : Prop where
  completes : Arises coercions.toJavaClasses parameters args →
    ∃ full, prepareArgsForEffector coercions parameters (.array (args.map some)) = .ok full ∧
      Completes coercions.toJavaClasses parameters args full
  longer : parameters.length < args.length →
    ∃ fault, prepareArgsForEffector coercions parameters (.array (args.map some)) = .error fault
  shorter : args.length < (mandatory parameters).length →
    ∃ fault, prepareArgsForEffector coercions parameters (.array (args.map some)) = .error fault

/-- If the array arises at all, the values can be kept apart by the names, and some completion
is eager. -/
def Placeable (classes : JavaClasses Class Value) (parameters : List (ParameterType Class Value))
    (args : List Value) : Prop :=
  Arises classes parameters args →
    (parameters.map ParameterType.name).Nodup ∧
      ∃ full, Completes classes parameters args full ∧ Eager classes parameters args full

theorem singleMap_none (single : ∀ value, args = [value] → coercions.asMap value = none) :
    singleMap coercions parameters (args.map some) = none := by
  match args with
  | [] => rfl
  | [value] =>
    have found := single value rfl
    simp only [List.map_cons, List.map_nil, singleMap, found]
  | _ :: _ :: _ => rfl

/-- The values as the map has them, under the names of the parameters. -/
def keptValues (parameters : List (ParameterType Class Value)) (full : List (Option Value)) :
    List (Option Value) :=
  (LinkedMap.empty.putAll ((parameters.map ParameterType.name).zip full)).values

theorem keptValues_distinct (all : full.length = parameters.length)
    (distinct : (parameters.map ParameterType.name).Nodup) : keptValues parameters full = full := by
  have names : ((parameters.map ParameterType.name).zip full).map Prod.fst =
      parameters.map ParameterType.name := List.map_fst_zip (by simp [all])
  have values : ((parameters.map ParameterType.name).zip full).map Prod.snd = full :=
    List.map_snd_zip (by simp [all])
  exact (LinkedMap.values_putAll (names.symm ▸ distinct)).trans values

/-- The map loses a value when two parameters have one name. -/
theorem distinct_of_keptValues (all : full.length = parameters.length)
    (kept : (keptValues parameters full).length = parameters.length) :
    (parameters.map ParameterType.name).Nodup := by
  have names : ((parameters.map ParameterType.name).zip full).map Prod.fst =
      parameters.map ParameterType.name := List.map_fst_zip (by simp [all])
  rw [keptValues, LinkedMap.length_values, LinkedMap.keys_putAll, names] at kept
  refine LinkedSet.nodup_of_length_addAll ?_
  rw [List.length_map]
  exact Nat.le_of_eq kept.symm

theorem prepared_iff (single : ∀ value, args = [value] → coercions.asMap value = none)
    (values : List (Option Value)) :
    prepareArgsForEffector coercions parameters (.array (args.map some)) = .ok values ↔
      ∃ full, Eager coercions.toJavaClasses parameters args full ∧
        keptValues parameters full = values := by
  have placed := @placeArguments_place _ _ coercions.toJavaClasses parameters args .empty
  rw [prepareArgsForEffector, prepareArgsForEffectorFromArray, singleMap_none single]
  simp only [prepareArgsForEffectorAsMapFromArray, ← place_iff_eager]
  cases kept : placeArguments coercions.toJavaClasses parameters (args.map some) .empty with
  | error fault =>
    rw [kept] at placed
    have none := Option.map_eq_none_iff.mp placed.symm
    refine iff_of_false (fun accepted => by cases accepted) ?_
    rintro ⟨full, found, _⟩
    rw [none] at found
    cases found
  | ok newArgs =>
    rw [kept] at placed
    obtain ⟨full, found, rfl⟩ := Option.map_eq_some_iff.mp placed.symm
    simp only [found, Option.some.injEq, exists_eq_left']
    exact ⟨fun same => by cases same; rfl, fun same => by rw [← same]; rfl⟩

theorem rejected (single : ∀ value, args = [value] → coercions.asMap value = none)
    (impossible : ∀ full, ¬ Eager coercions.toJavaClasses parameters args full) :
    ∃ fault,
      prepareArgsForEffector coercions parameters (.array (args.map some)) = .error fault := by
  cases result : prepareArgsForEffector coercions parameters (.array (args.map some)) with
  | error fault => exact ⟨fault, rfl⟩
  | ok values =>
    obtain ⟨full, eager, _⟩ := (prepared_iff single values).mp result
    exact absurd eager (impossible full)

/-- The array is prepared as promised exactly when it can be placed from the left. -/
theorem preparesArray_iff (coercions : TypeCoercions Class Value)
    (parameters : List (ParameterType Class Value)) (args : List Value)
    (single : ∀ value, args = [value] → coercions.asMap value = none) :
    PreparesArray coercions parameters args ↔
      Placeable coercions.toJavaClasses parameters args := by
  constructor
  · intro prepares arises
    obtain ⟨values, prepared, completes⟩ := prepares.completes arises
    obtain ⟨full, eager, same⟩ := (prepared_iff single values).mp prepared
    have distinct : (parameters.map ParameterType.name).Nodup :=
      distinct_of_keptValues eager.length_full (same ▸ completes.length_full)
    rw [keptValues_distinct eager.length_full distinct] at same
    exact ⟨distinct, full, same ▸ completes, eager⟩
  · intro placeable
    refine ⟨fun arises => ?_, fun long => rejected single fun full eager => ?_,
      fun short => rejected single fun full eager => ?_⟩
    · obtain ⟨distinct, full, completes, eager⟩ := placeable arises
      refine ⟨full, (prepared_iff single full).mpr ⟨full, eager, ?_⟩, completes⟩
      exact keptValues_distinct completes.length_full distinct
    · exact absurd long (Nat.not_lt_of_le eager.length_args)
    · exact absurd short (Nat.not_lt_of_le eager.mandatory_le)

-- A number that is omitted before a text that is not.
theorem text_after_default_prepared :
    PreparesArray BasicClass.coercions
      [⟨some "count", .int, some (some (.inl 1))⟩, ⟨some "name", .string, none⟩] [.inr "x"] := by
  refine (preparesArray_iff _ _ _ fun _ _ => rfl).mpr fun _ =>
    ⟨by decide, [some (.inl 1), some (.inr "x")], ?_, ?_⟩
  · exact .omitted _ _ rfl (.supplied _ _ rfl .nil)
  · refine .omitted _ _ rfl (fun value head => ?_) (.supplied _ _ (Or.inl rfl) .nil)
    cases head
    rfl

-- The first parameter takes the text, and there is none for the second one.
theorem optional_object_starves :
    ¬ PreparesArray BasicClass.coercions
      [⟨some "context", .object, some none⟩, ⟨some "name", .string, none⟩] [.inr "x"] := by
  intro prepares
  obtain ⟨full, prepared, _⟩ := prepares.completes
    (arises_iff.mpr ⟨_, .omitted _ none rfl (.supplied _ (Sum.inr "x" : Nat ⊕ String) rfl .nil)⟩)
  cases prepared

end Arrays

end Brooklyn.EffectorUtils
