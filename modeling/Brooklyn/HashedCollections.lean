import Mathlib.Data.List.Nodup
import Mathlib.Data.Option.Basic
import Mathlib.Logic.Function.Basic

/-!
Hash sets and hash maps, listed in the order of iteration. Where an added element
comes in that order is up to the table, so it is a parameter: `SetOrder` only says
that the elements are the old ones and the new one. A map is a lookup function
with the listing of the keys it is defined on; replacing the value of a key leaves
the order as it is.
-/

namespace Brooklyn

/-- Where a hash set puts an element that it does not hold yet. -/
structure SetOrder (Element : Type) where
  place : List Element → Element → List Element
  perm : ∀ elements element, (place elements element).Perm (element :: elements)

namespace SetOrder
variable {Element : Type} [DecidableEq Element]

def add (order : SetOrder Element) (elements : List Element) (element : Element) : List Element :=
  if element ∈ elements then elements else order.place elements element

theorem mem_add (order : SetOrder Element) (elements : List Element) (element other : Element) :
    other ∈ order.add elements element ↔ other = element ∨ other ∈ elements := by
  unfold add
  split
  · next present =>
    constructor
    · exact Or.inr
    · rintro (rfl | member)
      · exact present
      · exact member
  · rw [(order.perm elements element).mem_iff, List.mem_cons]

theorem nodup_add (order : SetOrder Element) {elements : List Element} (distinct : elements.Nodup)
    (element : Element) : (order.add elements element).Nodup := by
  unfold add
  split
  · exact distinct
  · next absent =>
    exact (order.perm elements element).nodup_iff.mpr (List.nodup_cons.mpr ⟨absent, distinct⟩)

theorem perm_add (order : SetOrder Element) {elements : List Element} {element : Element}
    (absent : element ∉ elements) : (order.add elements element).Perm (element :: elements) := by
  rw [add, if_neg absent]
  exact order.perm elements element

theorem add_of_mem (order : SetOrder Element) {elements : List Element} {element : Element}
    (present : element ∈ elements) : order.add elements element = elements :=
  if_pos present

end SetOrder

def atEnd (Element : Type) : SetOrder Element where
  place elements element := elements ++ [element]
  perm elements element := List.perm_append_singleton element elements

structure HashedMap (Key Value : Type) where
  get : Key → Option Value
  keys : List Key
  distinct : keys.Nodup
  defined : ∀ key, key ∈ keys ↔ (get key).isSome

namespace HashedMap
variable {Key Value : Type}

def empty : HashedMap Key Value where
  get := fun _ => none
  keys := []
  distinct := List.nodup_nil
  defined := fun key => by simp

@[simp] theorem get_empty (key : Key) : (empty : HashedMap Key Value).get key = none := rfl

@[simp] theorem keys_empty : (empty : HashedMap Key Value).keys = [] := rfl

/-- A map is what it looks up and the order its keys come in. -/
@[ext] theorem ext {map other : HashedMap Key Value} (get : map.get = other.get)
    (keys : map.keys = other.keys) : map = other := by
  cases map
  cases other
  cases get
  cases keys
  rfl

instance [DecidableEq Key] [DecidableEq (Key → Option Value)] : DecidableEq (HashedMap Key Value) :=
  fun map other => decidable_of_iff (map.get = other.get ∧ map.keys = other.keys)
    ⟨fun both => ext both.1 both.2, fun same => ⟨congrArg get same, congrArg keys same⟩⟩

def containsKey (map : HashedMap Key Value) (key : Key) : Bool := (map.get key).isSome

variable [DecidableEq Key]

def put (order : SetOrder Key) (map : HashedMap Key Value) (key : Key) (value : Value) :
    HashedMap Key Value where
  get := Function.update map.get key (some value)
  keys := order.add map.keys key
  distinct := order.nodup_add map.distinct key
  defined := fun other => by
    rw [order.mem_add]
    by_cases same : other = key
    · simp [same]
    · simp [same, map.defined]

def remove (map : HashedMap Key Value) (key : Key) : HashedMap Key Value where
  get := Function.update map.get key none
  keys := map.keys.erase key
  distinct := map.distinct.erase key
  defined := fun other => by
    rw [map.distinct.mem_erase_iff]
    by_cases same : other = key
    · simp [same]
    · simp [same, map.defined]

@[simp] theorem get_put (order : SetOrder Key) (map : HashedMap Key Value) (key other : Key)
    (value : Value) :
    (map.put order key value).get other = if other = key then some value else map.get other :=
  Function.update_apply map.get key (some value) other

@[simp] theorem get_remove (map : HashedMap Key Value) (key other : Key) :
    (map.remove key).get other = if other = key then none else map.get other :=
  Function.update_apply map.get key none other

theorem keys_put_of_mem (order : SetOrder Key) {map : HashedMap Key Value} {key : Key}
    (value : Value) (present : (map.get key).isSome) :
    (map.put order key value).keys = map.keys :=
  order.add_of_mem ((map.defined key).mpr present)

theorem put_put (order : SetOrder Key) (map : HashedMap Key Value) (key : Key)
    (first second : Value) :
    (map.put order key first).put order key second = map.put order key second := by
  apply ext
  · exact Function.update_idem ..
  · exact keys_put_of_mem order second (by simp)

end HashedMap
end Brooklyn
