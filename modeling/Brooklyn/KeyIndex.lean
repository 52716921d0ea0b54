import Brooklyn.LinkedCollections
import Mathlib.Data.List.Induction

/-!
A map with an index of the keys whose values are marked, updated with every change of
the map: a put adds the key of a marked value to the index, a removal takes the keys
from both. A put never takes a key from the index, so what the index holds after a
history of changes is decided by all the values put for a key since the key was last
removed, and the map by the last of them.
-/

namespace Brooklyn.KeyIndex

universe u v
variable {Key : Type u} {Value : Type v}

structure Indexed (Key : Type u) (Value : Type v) where
  map : LinkedMap Key Value
  index : LinkedSet Key

inductive Change (Key : Type u) (Value : Type v) where
  | put (value : Value)
  | removeAll (keys : List Key)

/-- The index names the keys of the marked values. -/
structure Right (marks : Value → Bool) (indexed : Indexed Key Value) : Prop where
  named : ∀ name ∈ indexed.index, (indexed.map.get name).isSome
  exact : ∀ name, name ∈ indexed.index ↔
    ∃ value, indexed.map.get name = some value ∧ marks value = true

/-- If the last of the values is not marked, none is. -/
def Settled (marks : Value → Bool) (values : List Value) : Prop :=
  ∀ last ∈ values.getLast?, marks last = false → ∀ value ∈ values, marks value = false

variable [DecidableEq Key]

def Indexed.apply (key : Value → Key) (marks : Value → Bool) (indexed : Indexed Key Value) :
    Change Key Value → Indexed Key Value
  | .put value =>
      { map := indexed.map.put (key value) value
        index := if marks value then indexed.index.add (key value) else indexed.index }
  | .removeAll keys =>
      { map := indexed.map.removeAll keys
        index := indexed.index.removeAll keys }

def Indexed.run (key : Value → Key) (marks : Value → Bool) (indexed : Indexed Key Value)
    (changes : List (Change Key Value)) : Indexed Key Value :=
  changes.foldl (Indexed.apply key marks) indexed

def putsAfter (key : Value → Key) (name : Key) (puts : List Value) :
    Change Key Value → List Value
  | .put value => if key value = name then puts ++ [value] else puts
  | .removeAll keys => if name ∈ keys then [] else puts

/-- The values put for a key since it was last removed. -/
def puts (key : Value → Key) (name : Key) (changes : List (Change Key Value)) : List Value :=
  changes.foldl (putsAfter key name) []

section Histories
variable {key : Value → Key} {marks : Value → Bool} {indexed : Indexed Key Value} {name : Key}
  {values : List Value}

/-- The map and the index as the values put for a key explain them. -/
def Explained (marks : Value → Bool) (indexed : Indexed Key Value) (name : Key)
    (values : List Value) : Prop :=
  indexed.map.get name = values.getLast? ∧
    (name ∈ indexed.index ↔ ∃ value ∈ values, marks value = true)

theorem explained_apply (explained : Explained marks indexed name values)
    (change : Change Key Value) :
    Explained marks (indexed.apply key marks change) name (putsAfter key name values change) := by
  obtain ⟨current, listed⟩ := explained
  cases change with
  | put value =>
    by_cases here : key value = name
    · subst here
      constructor
      · simp [Indexed.apply, putsAfter]
      · by_cases marked : marks value = true
        · simp [Indexed.apply, putsAfter, marked]
        · simp [Indexed.apply, putsAfter, marked, listed]
    · constructor
      · simpa [Indexed.apply, putsAfter, here, Ne.symm here] using current
      · by_cases marked : marks value = true
        · simpa [Indexed.apply, putsAfter, here, Ne.symm here, marked] using listed
        · simpa [Indexed.apply, putsAfter, here, marked] using listed
  | removeAll keys =>
    by_cases removed : name ∈ keys
    · constructor
      · simp [Indexed.apply, putsAfter, removed]
      · simp [Indexed.apply, putsAfter, removed]
    · constructor
      · simpa [Indexed.apply, putsAfter, removed] using current
      · simpa [Indexed.apply, putsAfter, removed] using listed

theorem explained_run (explained : Explained marks indexed name values)
    (changes : List (Change Key Value)) :
    Explained marks (indexed.run key marks changes) name
      (changes.foldl (putsAfter key name) values) := by
  induction changes generalizing indexed values with
  | nil => exact explained
  | cons change rest ih => exact ih (explained_apply explained change)

/-- After a history the index is right where the last value of every key settles it. -/
theorem right_run_iff (changes : List (Change Key Value)) :
    Right marks (Indexed.run key marks ⟨.empty, .empty⟩ changes) ↔
      ∀ name, Settled marks (puts key name changes) := by
  have explained (name : Key) :
      Explained marks (Indexed.run key marks ⟨.empty, .empty⟩ changes) name
        (puts key name changes) :=
    explained_run ⟨rfl, by simp⟩ changes
  constructor
  · intro right name last isLast unmarked value member
    obtain ⟨current, listed⟩ := explained name
    refine Bool.eq_false_iff.mpr fun marked => ?_
    obtain ⟨found, here, also⟩ := (right.exact name).mp (listed.mpr ⟨value, member, marked⟩)
    rw [current, Option.mem_def.mp isLast] at here
    cases here
    rw [unmarked] at also
    cases also
  · intro settled
    have exact (name : Key) : name ∈ (Indexed.run key marks ⟨.empty, .empty⟩ changes).index ↔
        ∃ value, (Indexed.run key marks ⟨.empty, .empty⟩ changes).map.get name = some value ∧
          marks value = true := by
      obtain ⟨current, listed⟩ := explained name
      rw [listed, current]
      constructor
      · rintro ⟨value, member, marked⟩
        have isLast := List.getLast?_eq_some_getLast (List.ne_nil_of_mem member)
        refine ⟨_, isLast, ?_⟩
        by_contra unmarked
        rw [settled name _ isLast (Bool.eq_false_iff.mpr unmarked) value member] at marked
        cases marked
      · rintro ⟨last, isLast, marked⟩
        exact ⟨last, List.mem_of_getLast? isLast, marked⟩
    refine ⟨fun name member => ?_, exact⟩
    obtain ⟨value, found, _⟩ := (exact name).mp member
    rw [found]
    rfl

end Histories

/-! Some keys removed and then some values put. -/
section Replacement
variable (key : Value → Key) (marks : Value → Bool) (indexed : Indexed Key Value) (name : Key)

def replace (removed : List Key) (values : List Value) : List (Change Key Value) :=
  .removeAll removed :: values.map .put

theorem run_concat (changes : List (Change Key Value)) (last : Change Key Value) :
    indexed.run key marks (changes ++ [last]) = (indexed.run key marks changes).apply key marks last :=
  List.foldl_concat ..

theorem get_puts (values : List Value) :
    (indexed.run key marks (values.map .put)).map.get name =
      (values.filter (fun value => key value = name)).getLast?.or (indexed.map.get name) := by
  induction values using List.reverseRecOn with
  | nil => rfl
  | append_singleton values last ih =>
    rw [List.map_append, List.map_singleton, run_concat, List.filter_append]
    by_cases here : key last = name
    · simp [Indexed.apply, here]
    · simpa [Indexed.apply, here, Ne.symm here] using ih

theorem mem_puts (values : List Value) :
    name ∈ (indexed.run key marks (values.map .put)).index ↔
      name ∈ indexed.index ∨ ∃ value ∈ values, key value = name ∧ marks value = true := by
  induction values using List.reverseRecOn with
  | nil => simp [Indexed.run]
  | append_singleton values last ih =>
    rw [List.map_append, List.map_singleton, run_concat]
    by_cases marked : marks last = true
    · simp [Indexed.apply, marked, ih, or_and_right, exists_or, or_assoc, @eq_comm _ name]
    · simp [Indexed.apply, marked, ih, or_and_right, exists_or]

theorem get_replace (removed : List Key) (values : List Value) :
    (indexed.run key marks (replace removed values)).map.get name =
      (values.filter (fun value => key value = name)).getLast?.or
        (if name ∈ removed then none else indexed.map.get name) := by
  refine (get_puts key marks _ name values).trans ?_
  rw [Indexed.apply, LinkedMap.get_removeAll]

theorem mem_replace (removed : List Key) (values : List Value) :
    name ∈ (indexed.run key marks (replace removed values)).index ↔
      (name ∈ indexed.index ∧ name ∉ removed) ∨
        ∃ value ∈ values, key value = name ∧ marks value = true := by
  refine (mem_puts key marks _ name values).trans ?_
  rw [Indexed.apply, LinkedSet.mem_removeAll]

end Replacement
end Brooklyn.KeyIndex
