import Mathlib.Data.List.Nodup

/-!
Sets of objects that equal one another when their keys do, in the order of insertion: an
object whose equal is in the set is not added, and an object is removed through any equal
one.
-/

namespace Brooklyn

universe u v w

structure KeyedSet {Element : Type u} {Key : Type v} (key : Element → Key) where
  elements : List Element
  distinct : (elements.map key).Nodup

namespace KeyedSet
variable {Element : Type u} {Key : Type v} {key : Element → Key}

def empty : KeyedSet key := ⟨[], List.nodup_nil⟩

variable [DecidableEq Key]

def contains (set : KeyedSet key) (element : Element) : Bool :=
  set.elements.any fun other => key other = key element

theorem contains_iff {set : KeyedSet key} {element : Element} :
    set.contains element ↔ ∃ other ∈ set.elements, key other = key element := by
  simp [contains]

theorem contains_of_mem {set : KeyedSet key} {element : Element}
    (member : element ∈ set.elements) : set.contains element :=
  contains_iff.mpr ⟨element, member, rfl⟩

theorem contains_congr (set : KeyedSet key) {element other : Element}
    (same : key element = key other) : set.contains element = set.contains other := by
  rw [contains, contains, same]

@[simp] theorem not_contains_empty (element : Element) :
    (empty : KeyedSet key).contains element = false := rfl

def add (set : KeyedSet key) (element : Element) : KeyedSet key :=
  if absent : set.contains element = false then
    { elements := set.elements ++ [element]
      distinct := by
        rw [List.map_append, List.map_singleton]
        refine List.Nodup.append set.distinct (List.nodup_singleton _) ?_
        rw [List.disjoint_singleton, List.mem_map]
        rintro ⟨other, member, same⟩
        rw [contains_iff.mpr ⟨other, member, same⟩] at absent
        cases absent }
  else set

def remove (set : KeyedSet key) (element : Element) : KeyedSet key where
  elements := set.elements.filter fun other => key other ≠ key element
  distinct := (List.filter_sublist.map key).nodup set.distinct

def removeAll (set others : KeyedSet key) : KeyedSet key where
  elements := set.elements.filter fun element => !others.contains element
  distinct := (List.filter_sublist.map key).nodup set.distinct

def addAll (set others : KeyedSet key) : KeyedSet key :=
  others.elements.foldl add set

/-- A copy of the elements, without those that equal an earlier one. -/
def ofList (elements : List Element) : KeyedSet key :=
  elements.foldl add empty

theorem contains_add (set : KeyedSet key) (element other : Element) :
    (set.add element).contains other ↔ set.contains other ∨ key other = key element := by
  unfold add
  split
  · simp only [contains_iff, List.mem_append, List.mem_singleton, or_and_right, exists_or,
      exists_eq_left]
    exact or_congr_right ⟨Eq.symm, Eq.symm⟩
  · next present =>
    constructor
    · exact Or.inl
    · rintro (there | same)
      · exact there
      · rw [contains_congr set same]
        exact Bool.not_eq_false _ ▸ present

theorem contains_remove (set : KeyedSet key) (element other : Element) :
    (set.remove element).contains other ↔ set.contains other ∧ key other ≠ key element := by
  simp only [contains_iff, remove, List.mem_filter, decide_eq_true_eq]
  constructor
  · rintro ⟨e, ⟨member, different⟩, same⟩
    exact ⟨⟨e, member, same⟩, same ▸ different⟩
  · rintro ⟨⟨e, member, same⟩, different⟩
    exact ⟨e, ⟨member, same ▸ different⟩, same⟩

theorem mem_removeAll (set others : KeyedSet key) (element : Element) :
    element ∈ (set.removeAll others).elements ↔
      element ∈ set.elements ∧ others.contains element = false := by
  simp [removeAll]

theorem contains_removeAll (set others : KeyedSet key) (element : Element) :
    (set.removeAll others).contains element ↔
      set.contains element ∧ others.contains element = false := by
  simp only [contains_iff, mem_removeAll]
  constructor
  · rintro ⟨e, ⟨member, kept⟩, same⟩
    exact ⟨⟨e, member, same⟩, (contains_congr others same).symm.trans kept⟩
  · rintro ⟨⟨e, member, same⟩, kept⟩
    exact ⟨e, ⟨member, (contains_congr others same).trans kept⟩, same⟩

theorem elements_add {set : KeyedSet key} {element : Element}
    (absent : set.contains element = false) :
    (set.add element).elements = set.elements ++ [element] := by
  rw [add, dif_pos absent]

theorem add_of_contains {set : KeyedSet key} {element : Element}
    (present : set.contains element = true) : set.add element = set := by
  rw [add, dif_neg (by simp [present])]

theorem mem_add {set : KeyedSet key} {element other : Element}
    (member : other ∈ (set.add element).elements) : other ∈ set.elements ∨ other = element := by
  unfold add at member
  split at member
  · simpa using member
  · exact Or.inl member

theorem length_add (set : KeyedSet key) (element : Element) :
    (set.add element).elements.length ≤ set.elements.length + 1 := by
  unfold add
  split
  · simp
  · exact Nat.le_succ _

theorem mem_foldl_add {elements : List Element} {set : KeyedSet key} {element : Element}
    (member : element ∈ (elements.foldl add set).elements) :
    element ∈ set.elements ∨ element ∈ elements := by
  induction elements generalizing set with
  | nil => exact Or.inl member
  | cons first rest ih =>
    rcases ih member with there | later
    · rcases mem_add there with before | rfl
      · exact Or.inl before
      · exact Or.inr List.mem_cons_self
    · exact Or.inr (List.mem_cons_of_mem _ later)

theorem contains_foldl_add (elements : List Element) (set : KeyedSet key) (element : Element) :
    (elements.foldl add set).contains element ↔
      set.contains element ∨ ∃ other ∈ elements, key other = key element := by
  induction elements generalizing set with
  | nil => simp
  | cons first rest ih =>
    rw [List.foldl_cons, ih, contains_add, or_assoc, List.exists_mem_cons_iff,
      @eq_comm _ (key element)]

theorem contains_addAll (set others : KeyedSet key) (element : Element) :
    (set.addAll others).contains element ↔ set.contains element ∨ others.contains element := by
  rw [addAll, contains_foldl_add, ← contains_iff]

/-- When only one of the elements has each key, the set has exactly them. -/
theorem mem_ofList {elements : List Element}
    (determined : ∀ element ∈ elements, ∀ other ∈ elements, key element = key other →
      element = other) (element : Element) :
    element ∈ (ofList elements : KeyedSet key).elements ↔ element ∈ elements := by
  constructor
  · intro member
    have there : element ∈ (elements.foldl add (empty : KeyedSet key)).elements := member
    exact (mem_foldl_add there).resolve_left List.not_mem_nil
  · intro member
    obtain ⟨other, there, same⟩ := contains_iff.mp
      ((contains_foldl_add elements (empty : KeyedSet key) element).mpr
        (Or.inr ⟨element, member, rfl⟩))
    have among := (mem_foldl_add there).resolve_left List.not_mem_nil
    exact determined other among element member same ▸ there

end KeyedSet

/-- A map is a set of entries that equal one another when their keys do. -/
abbrev KeyedMap {Object : Type u} {Key : Type v} (Value : Type w) (key : Object → Key) :=
  KeyedSet fun entry : Object × Value => key entry.1

namespace KeyedMap
variable {Object : Type u} {Key : Type v} {Value : Type w} {key : Object → Key} [DecidableEq Key]

def replace (map : KeyedMap Value key) (object : Object) (value : Value) :
    KeyedMap Value key where
  elements := map.elements.map fun entry =>
    if key entry.1 = key object then (entry.1, value) else entry
  distinct := by
    have same : (map.elements.map fun entry =>
        if key entry.1 = key object then (entry.1, value) else entry).map (key ·.1) =
        map.elements.map (key ·.1) := by
      rw [List.map_map]
      refine List.map_congr_left fun entry _ => ?_
      simp only [Function.comp_apply]
      split <;> rfl
    exact same ▸ map.distinct

/-- The key that is there stays when an equal one is put. -/
def put (map : KeyedMap Value key) (object : Object) (value : Value) : KeyedMap Value key :=
  if map.contains (object, value) then map.replace object value else map.add (object, value)

theorem foldl_put_of_nodup {entries : List (Object × Value)}
    {map : KeyedMap Value key} (distinct : ((map.elements ++ entries).map (key ·.1)).Nodup) :
    (entries.foldl (fun map entry => map.put entry.1 entry.2) map).elements =
      map.elements ++ entries := by
  induction entries generalizing map with
  | nil => exact (List.append_nil _).symm
  | cons first rest ih =>
    have absent : map.contains first = false := Bool.eq_false_iff.mpr fun there => by
      obtain ⟨other, member, same⟩ := KeyedSet.contains_iff.mp there
      rw [List.map_append, List.map_cons] at distinct
      exact List.disjoint_of_nodup_append distinct (List.mem_map_of_mem member)
        (same ▸ List.mem_cons_self)
    have put_first : map.put first.1 first.2 = map.add first :=
      if_neg (Bool.eq_false_iff.mp absent)
    have added : (map.put first.1 first.2).elements ++ rest = map.elements ++ first :: rest := by
      rw [put_first, KeyedSet.elements_add absent, ← List.append_cons]
    exact (ih (added ▸ distinct)).trans added

end KeyedMap
end Brooklyn
