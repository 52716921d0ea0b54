import Mathlib.Data.List.Nodup
import Mathlib.Data.List.Perm.Subperm
import Mathlib.Logic.Function.Basic
import Mathlib.Data.List.Induction

/-!
Sets and maps that keep the order of insertion: adding an element that is there,
or replacing the value of a key, leaves the order as it is. A set lists its
elements without duplicates. A map is a lookup function with the set of the keys
it is defined on, so lookups after an update are those of `Function.update`.
-/

namespace Brooklyn

universe u v w

structure LinkedSet (Element : Type u) where
  elements : List Element
  distinct : elements.Nodup

namespace LinkedSet
variable {Element : Type u}

instance : Membership Element (LinkedSet Element) where
  mem set element := element ∈ set.elements

def empty : LinkedSet Element := ⟨[], List.nodup_nil⟩

@[simp] theorem not_mem_empty (element : Element) :
    element ∉ (empty : LinkedSet Element) :=
  List.not_mem_nil

variable [DecidableEq Element]

instance (element : Element) (set : LinkedSet Element) : Decidable (element ∈ set) :=
  inferInstanceAs (Decidable (element ∈ set.elements))

def add (set : LinkedSet Element) (element : Element) : LinkedSet Element :=
  if present : element ∈ set then set else
    ⟨set.elements.concat element, List.Nodup.concat present set.distinct⟩

def remove (set : LinkedSet Element) (element : Element) : LinkedSet Element :=
  ⟨set.elements.erase element, set.distinct.erase element⟩

@[simp] theorem mem_add (set : LinkedSet Element) (element other : Element) :
    other ∈ set.add element ↔ other ∈ set ∨ other = element := by
  unfold add
  split
  · next present =>
    constructor
    · exact Or.inl
    · rintro (member | rfl)
      · exact member
      · exact present
  · change other ∈ set.elements.concat element ↔ _
    rw [List.concat_eq_append, List.mem_append, List.mem_singleton]
    rfl

@[simp] theorem mem_remove (set : LinkedSet Element) (element other : Element) :
    other ∈ set.remove element ↔ other ∈ set ∧ other ≠ element := by
  change other ∈ set.elements.erase element ↔ _
  rw [set.distinct.mem_erase_iff, and_comm]
  rfl

def addAll (set : LinkedSet Element) (elements : List Element) : LinkedSet Element :=
  elements.foldl add set

def removeAll (set : LinkedSet Element) (elements : List Element) : LinkedSet Element :=
  elements.foldl remove set

@[simp] theorem mem_addAll (set : LinkedSet Element) (elements : List Element) (element : Element) :
    element ∈ set.addAll elements ↔ element ∈ set ∨ element ∈ elements := by
  induction elements generalizing set with
  | nil => simp [addAll]
  | cons first rest ih =>
    have added := ih (set.add first)
    rw [mem_add] at added
    rw [List.mem_cons, ← or_assoc]
    exact added

@[simp] theorem mem_removeAll (set : LinkedSet Element) (elements : List Element)
    (element : Element) : element ∈ set.removeAll elements ↔ element ∈ set ∧ element ∉ elements := by
  induction elements generalizing set with
  | nil => simp [removeAll]
  | cons first rest ih =>
    have removed := ih (set.remove first)
    rw [mem_remove] at removed
    rw [List.mem_cons, not_or, ← and_assoc]
    exact removed

theorem add_of_mem {set : LinkedSet Element} {element : Element}
    (present : element ∈ set) : set.add element = set :=
  dif_pos present

theorem elements_add_of_not_mem {set : LinkedSet Element} {element : Element}
    (absent : element ∉ set) : (set.add element).elements = set.elements ++ [element] := by
  rw [add, dif_neg absent]
  exact List.concat_eq_append

theorem remove_of_not_mem {set : LinkedSet Element} {element : Element} (absent : element ∉ set) :
    set.remove element = set := by
  have same : set.elements.erase element = set.elements := List.erase_of_not_mem absent
  unfold remove
  congr

theorem addAll_elements (set : LinkedSet Element) : empty.addAll set.elements = set := by
  obtain ⟨elements, distinct⟩ := set
  induction elements using List.reverseRecOn with
  | nil => rfl
  | append_singleton elements last ih =>
    have parts := List.nodup_append.mp distinct
    have absent : last ∉ (⟨elements, parts.1⟩ : LinkedSet Element) :=
      fun there => parts.2.2 _ there _ (List.mem_singleton_self _) rfl
    rw [addAll, List.foldl_append]
    change (addAll empty elements).add last = _
    rw [ih parts.1, add, dif_neg absent]
    simp

/-- Adding to the empty set loses nothing only when there are no duplicates. -/
theorem nodup_of_length_addAll {elements : List Element}
    (kept : elements.length ≤ (empty.addAll elements).elements.length) : elements.Nodup := by
  have among : (empty.addAll elements).elements ⊆ elements := fun element member =>
    ((mem_addAll empty elements element).mp member).resolve_left (not_mem_empty element)
  have perm := ((empty.addAll elements).distinct.subperm among).perm_of_length_le kept
  exact perm.nodup_iff.mp (empty.addAll elements).distinct

end LinkedSet

structure LinkedMap (Key : Type u) (Value : Type v) where
  get : Key → Option Value
  keys : LinkedSet Key
  defined : ∀ key, key ∈ keys ↔ (get key).isSome

namespace LinkedMap
variable {Key : Type u} {Value : Type v}

/-- A map is what it looks up and the order its keys come in. -/
theorem ext_iff {map other : LinkedMap Key Value} :
    map = other ↔ map.get = other.get ∧ map.keys.elements = other.keys.elements := by
  constructor
  · rintro rfl
    exact ⟨rfl, rfl⟩
  · rintro ⟨get, keys⟩
    obtain ⟨_, ⟨elements, _⟩, _⟩ := map
    obtain ⟨_, ⟨others, _⟩, _⟩ := other
    cases get
    cases keys
    rfl

instance [DecidableEq Key] [DecidableEq (Key → Option Value)] : DecidableEq (LinkedMap Key Value) :=
  fun _ _ => decidable_of_iff _ ext_iff.symm

def empty : LinkedMap Key Value where
  get := fun _ => none
  keys := .empty
  defined := fun key => by simp

@[simp] theorem get_empty (key : Key) : (empty : LinkedMap Key Value).get key = none := rfl

def values (map : LinkedMap Key Value) : List Value :=
  map.keys.elements.filterMap map.get

def entries (map : LinkedMap Key Value) : List (Key × Value) :=
  map.keys.elements.filterMap fun key => (map.get key).map (Prod.mk key)

theorem mem_entries (map : LinkedMap Key Value) (key : Key) (value : Value) :
    (key, value) ∈ map.entries ↔ map.get key = some value := by
  simp only [entries, List.mem_filterMap, Option.map_eq_some_iff, Prod.mk.injEq]
  constructor
  · rintro ⟨other, _, found, present, rfl, rfl⟩
    exact present
  · intro present
    exact ⟨key, (map.defined key).mpr (by rw [present]; rfl), value, present, rfl, rfl⟩

theorem mem_values (map : LinkedMap Key Value) (value : Value) :
    value ∈ map.values ↔ ∃ key, map.get key = some value := by
  simp only [values, List.mem_filterMap]
  constructor
  · rintro ⟨key, _, present⟩
    exact ⟨key, present⟩
  · rintro ⟨key, present⟩
    exact ⟨key, (map.defined key).mpr (by rw [present]; rfl), present⟩

/-- The map of the same keys with other values. -/
def mapValues {Other : Type v} (change : Value → Other) (map : LinkedMap Key Value) :
    LinkedMap Key Other where
  get := fun key => (map.get key).map change
  keys := map.keys
  defined := fun key => by rw [map.defined, Option.isSome_map]

theorem entries_mapValues {Other : Type v} (change : Value → Other) (map : LinkedMap Key Value) :
    (map.mapValues change).entries =
      map.entries.map fun entry => (entry.1, change entry.2) := by
  simp only [entries, mapValues, List.map_filterMap, Option.map_map]
  rfl

variable [DecidableEq Key]

def put (map : LinkedMap Key Value) (key : Key) (value : Value) : LinkedMap Key Value where
  get := Function.update map.get key (some value)
  keys := map.keys.add key
  defined := fun other => by
    by_cases same : other = key
    · simp [same]
    · simp [same, map.defined]

def remove (map : LinkedMap Key Value) (key : Key) : LinkedMap Key Value where
  get := Function.update map.get key none
  keys := map.keys.remove key
  defined := fun other => by
    by_cases same : other = key
    · simp [same]
    · simp [same, map.defined]

@[simp] theorem get_put (map : LinkedMap Key Value) (key other : Key) (value : Value) :
    (map.put key value).get other = if other = key then some value else map.get other :=
  Function.update_apply map.get key (some value) other

@[simp] theorem get_remove (map : LinkedMap Key Value) (key other : Key) :
    (map.remove key).get other = if other = key then none else map.get other :=
  Function.update_apply map.get key none other

def removeAll (map : LinkedMap Key Value) (keys : List Key) : LinkedMap Key Value :=
  keys.foldl remove map

@[simp] theorem get_removeAll (map : LinkedMap Key Value) (keys : List Key) (other : Key) :
    (map.removeAll keys).get other = if other ∈ keys then none else map.get other := by
  induction keys generalizing map with
  | nil => simp [removeAll]
  | cons first rest ih =>
    have removed := ih (map.remove first)
    rw [get_remove] at removed
    refine removed.trans ?_
    by_cases same : other = first
    · simp [same]
    · simp [same]

omit [DecidableEq Key] in
theorem get_eq_none_iff (map : LinkedMap Key Value) (key : Key) :
    map.get key = none ↔ key ∉ map.keys := by
  rw [map.defined, Option.not_isSome_iff_eq_none]

section Listing
variable {Listed : Type w} {pick : Key → Value → Option Listed} {map : LinkedMap Key Value}

/-- What is picked from the entries, in their order. -/
def listing (map : LinkedMap Key Value) (pick : Key → Value → Option Listed) : List Listed :=
  map.keys.elements.filterMap fun key => (map.get key).bind (pick key)

omit [DecidableEq Key] in
theorem listing_eq_nil
    (passed : ∀ key value, map.get key = some value → pick key value = none) :
    map.listing pick = [] := by
  refine List.filterMap_eq_nil_iff.mpr fun key _ => ?_
  cases held : map.get key with
  | none => rfl
  | some value => exact passed key value held

omit [DecidableEq Key] in
theorem mem_listing {item : Listed} :
    item ∈ map.listing pick ↔
      ∃ key value, map.get key = some value ∧ pick key value = some item := by
  simp only [listing, List.mem_filterMap, Option.bind_eq_some_iff]
  constructor
  · rintro ⟨key, _, value, held, picked⟩
    exact ⟨key, value, held, picked⟩
  · rintro ⟨key, value, held, picked⟩
    exact ⟨key, (map.defined key).mpr (by rw [held]; rfl), value, held, picked⟩

theorem listing_put_new {key : Key} (absent : key ∉ map.keys) (value : Value) :
    (map.put key value).listing pick = map.listing pick ++ (pick key value).toList := by
  have keys : (map.put key value).keys.elements = map.keys.elements ++ [key] :=
    LinkedSet.elements_add_of_not_mem absent
  rw [listing, keys, List.filterMap_append]
  refine congrArg₂ (· ++ ·) (List.filterMap_congr fun other member => ?_) ?_
  · rw [get_put, if_neg]
    rintro rfl
    exact absent member
  · rw [List.filterMap_cons, get_put, if_pos rfl, Option.bind_some]
    cases pick key value <;> rfl

/-- Another value of which the same is picked. -/
theorem listing_put_same {key : Key} {value held : Value} (present : map.get key = some held)
    (same : pick key value = pick key held) :
    (map.put key value).listing pick = map.listing pick := by
  have keys : (map.put key value).keys = map.keys :=
    LinkedSet.add_of_mem ((map.defined key).mpr (by rw [present]; rfl))
  rw [listing, keys]
  refine List.filterMap_congr fun other _ => ?_
  rw [get_put]
  split
  · next equal => rw [equal, present, Option.bind_some, Option.bind_some, same]
  · rfl

theorem listing_put_passed {key : Key} {value : Value} (passed : pick key value = none)
    (before : ∀ held, map.get key = some held → pick key held = none) :
    (map.put key value).listing pick = map.listing pick := by
  cases present : map.get key with
  | some held => exact listing_put_same present (passed.trans (before held present).symm)
  | none =>
    rw [listing_put_new ((get_eq_none_iff map key).mp present), passed]
    exact List.append_nil _

theorem listing_remove_passed {key : Key}
    (passed : ∀ held, map.get key = some held → pick key held = none) :
    (map.remove key).listing pick = map.listing pick := by
  have skipped : (map.get key).bind (pick key) = none := by
    cases present : map.get key with
    | none => rfl
    | some held => exact passed held present
  have same : (fun other => ((map.remove key).get other).bind (pick other)) =
      fun other => (map.get other).bind (pick other) := by
    funext other
    rw [get_remove]
    split
    · next equal => rw [equal, skipped, Option.bind_none]
    · rfl
  rw [listing, same]
  change (map.keys.elements.erase key).filterMap _ = map.keys.elements.filterMap _
  induction map.keys.elements with
  | nil => rfl
  | cons first rest ih =>
    by_cases equal : first = key
    · subst equal
      rw [List.erase_cons_head]
      exact (List.filterMap_cons_none (f := fun other => (map.get other).bind (pick other))
        skipped).symm
    · rw [List.erase_cons_tail (by simpa using equal), List.filterMap_cons, List.filterMap_cons, ih]

theorem listing_removeAll_passed {keys : List Key}
    (passed : ∀ key ∈ keys, ∀ held, map.get key = some held → pick key held = none) :
    (map.removeAll keys).listing pick = map.listing pick := by
  induction keys generalizing map with
  | nil => rfl
  | cons first rest ih =>
    refine (ih fun key member held present => ?_).trans
      (listing_remove_passed fun held present => passed first List.mem_cons_self held present)
    rw [get_remove] at present
    split at present
    · cases present
    · exact passed key (List.mem_cons_of_mem _ member) held present

end Listing

/-- The entries put one after another. -/
def putAll (map : LinkedMap Key Value) (entries : List (Key × Value)) : LinkedMap Key Value :=
  entries.foldl (fun map entry => map.put entry.1 entry.2) map

theorem putAll_cons (map : LinkedMap Key Value) (entry : Key × Value)
    (entries : List (Key × Value)) :
    map.putAll (entry :: entries) = (map.put entry.1 entry.2).putAll entries := rfl

theorem keys_putAll (map : LinkedMap Key Value) (entries : List (Key × Value)) :
    (map.putAll entries).keys = map.keys.addAll (entries.map Prod.fst) := by
  induction entries generalizing map with
  | nil => rfl
  | cons entry entries ih => exact ih (map.put entry.1 entry.2)

theorem mem_of_get_putAll {map : LinkedMap Key Value} {entries : List (Key × Value)} {key : Key}
    {value : Value} (found : (map.putAll entries).get key = some value) :
    (key, value) ∈ entries ∨ map.get key = some value := by
  induction entries generalizing map with
  | nil => exact Or.inr found
  | cons entry entries ih =>
    rcases ih found with later | before
    · exact Or.inl (List.mem_cons_of_mem _ later)
    · rw [get_put] at before
      split at before
      · next same =>
        cases before
        exact Or.inl (same ▸ List.mem_cons_self)
      · exact Or.inr before

theorem get_putAll_of_not_mem {map : LinkedMap Key Value} {entries : List (Key × Value)} {key : Key}
    (absent : key ∉ entries.map Prod.fst) : (map.putAll entries).get key = map.get key := by
  induction entries generalizing map with
  | nil => rfl
  | cons entry entries ih =>
    rw [List.map_cons, List.mem_cons, not_or] at absent
    rw [putAll_cons, ih absent.2, get_put, if_neg absent.1]

theorem get_putAll_of_mem {map : LinkedMap Key Value} {entries : List (Key × Value)} {key : Key}
    {value : Value} (distinct : (entries.map Prod.fst).Nodup) (member : (key, value) ∈ entries) :
    (map.putAll entries).get key = some value := by
  induction entries generalizing map with
  | nil => cases member
  | cons entry entries ih =>
    obtain ⟨fresh, distinct⟩ := List.nodup_cons.mp distinct
    rcases List.mem_cons.mp member with rfl | later
    · rw [putAll_cons, get_putAll_of_not_mem fresh, get_put, if_pos rfl]
    · exact ih distinct later

omit [DecidableEq Key] in
theorem keys_entries (map : LinkedMap Key Value) :
    map.entries.map Prod.fst = map.keys.elements := by
  have there : ∀ key ∈ map.keys.elements, (map.get key).isSome := fun key member =>
    (map.defined key).mp member
  unfold entries
  generalize map.keys.elements = keys at there ⊢
  induction keys with
  | nil => rfl
  | cons key rest ih =>
    obtain ⟨value, found⟩ := Option.isSome_iff_exists.mp (there key List.mem_cons_self)
    rw [List.filterMap_cons, found]
    exact congrArg (key :: ·) (ih fun other member => there other (List.mem_cons_of_mem _ member))

theorem get_putAll_entries (map other : LinkedMap Key Value) (key : Key) :
    (map.putAll other.entries).get key = (other.get key).or (map.get key) := by
  cases found : other.get key with
  | some value =>
    exact get_putAll_of_mem (keys_entries other ▸ other.keys.distinct)
      ((mem_entries other key value).mpr found)
  | none =>
    refine get_putAll_of_not_mem fun member => ?_
    rw [keys_entries] at member
    have there := (other.defined key).mp member
    rw [found] at there
    cases there

theorem entries_putAll {entries : List (Key × Value)} (distinct : (entries.map Prod.fst).Nodup) :
    (empty.putAll entries).entries = entries := by
  have keys : (empty.putAll entries : LinkedMap Key Value).keys.elements =
      entries.map Prod.fst := by
    rw [keys_putAll]
    exact congrArg LinkedSet.elements (LinkedSet.addAll_elements ⟨_, distinct⟩)
  have found : ∀ entry ∈ entries,
      ((empty.putAll entries : LinkedMap Key Value).get entry.1).map (Prod.mk entry.1) =
        some entry := fun entry member => by
    rw [get_putAll_of_mem distinct member]
    rfl
  rw [LinkedMap.entries, keys, List.filterMap_map]
  exact (List.filterMap_congr found).trans List.filterMap_some

omit [DecidableEq Key] in
theorem values_entries (map : LinkedMap Key Value) : map.values = map.entries.map Prod.snd := by
  simp only [values, entries, List.map_filterMap, Option.map_map]
  exact List.filterMap_congr fun key _ => by cases map.get key <;> rfl

omit [DecidableEq Key] in
theorem length_values (map : LinkedMap Key Value) :
    map.values.length = map.keys.elements.length := by
  rw [values_entries, List.length_map, ← keys_entries, List.length_map]

theorem values_putAll {entries : List (Key × Value)} (distinct : (entries.map Prod.fst).Nodup) :
    (empty.putAll entries).values = entries.map Prod.snd := by
  rw [values_entries, entries_putAll distinct]

theorem putAll_entries (map : LinkedMap Key Value) : empty.putAll map.entries = map := by
  refine ext_iff.mpr ⟨funext fun key => ?_, ?_⟩
  · rw [get_putAll_entries, get_empty, Option.or_none]
  · rw [keys_putAll, keys_entries]
    exact congrArg LinkedSet.elements (LinkedSet.addAll_elements map.keys)

end LinkedMap
end Brooklyn
