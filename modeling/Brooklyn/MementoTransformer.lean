import Brooklyn.LinkedCollections

/-!
`MementoTransformer`: values that are made of entities or of locations, and the ids that stand
for them in a memento. A value that may be null is an `Option`. What the context has under an
id is a parameter; it has nothing under null.
-/

namespace Brooklyn

variable {Ref Id Object : Type}

inductive Referent where
  | entity | location
deriving DecidableEq

/-- An entity or location, the text that is an id, or another object. -/
inductive Element (Ref Id Object : Type) where
  | ref (ref : Ref)
  | text (id : Id)
  | object (object : Object)
deriving DecidableEq

inductive Gathered (Item : Type) where
  | list (items : List Item)
  | set (items : LinkedSet Item)

namespace Gathered

def items {Item : Type} : Gathered Item → List Item
  | .list items => items
  | .set items => items.elements

def isSet {Item : Type} : Gathered Item → Bool
  | .list _ => false
  | .set _ => true

end Gathered

inductive MementoValue (Ref Id Object : Type) where
  | element (element : Element Ref Id Object)
  | gathered (gathered : Gathered (Option (Element Ref Id Object)))
  | mapped (map : LinkedMap Object (Option (Element Ref Id Object)))

/-- What is asked of a required type: whether it is one of `Entity` or of `Location`, of
`Iterable`, and of `Set`. -/
structure RequiredType where
  refersTo : Referent → Bool
  isIterable : Bool
  isSet : Bool

inductive TransformFault where
  | nullPointer
  | classCast
  | notFound
  | cannotTransform
deriving DecidableEq

/-- Which of the two a reference is, and its id. -/
structure References (Ref Id : Type) where
  kind : Ref → Referent
  getId : Ref → Id

namespace MementoTransformer

section ToIds
variable (references : References Ref Id) (referent : Referent)

def isInstance : Element Ref Id Object → Bool
  | .ref ref => references.kind ref = referent
  | _ => false

/-- Whether the first element that is not null is of the kind. -/
def containsType : List (Option (Element Ref Id Object)) → Bool
  | [] => false
  | none :: vals => containsType vals
  | some val :: _ => isInstance references referent val

/-- `((Location)v).getId()`, or the same of an entity. -/
def castId : Option (Element Ref Id Object) →
    Except TransformFault (Option (Element Ref Id Object))
  | none => .error .nullPointer
  | some (.ref ref) =>
      if references.kind ref = referent then .ok (some (.text (references.getId ref)))
      else .error .classCast
  | some _ => .error .classCast

variable [DecidableEq Object]

def transformToIds : Option (MementoValue Ref Id Object) →
    Except TransformFault (Option (MementoValue Ref Id Object))
  | none => .ok none
  | some (.element (.ref ref)) =>
      if references.kind ref = referent then
        .ok (some (.element (.text (references.getId ref))))
      else .ok (some (.element (.ref ref)))
  | some (.element element) => .ok (some (.element element))
  | some (.gathered vs) =>
      if containsType references referent vs.items then do
        let result ← vs.items.mapM (castId references referent)
        .ok (some (.gathered (.list result)))
      else .ok (some (.gathered vs))
  | some (.mapped vs) =>
      if containsType references referent vs.values then do
        let result ← vs.entries.mapM fun entry => do
          let id ← castId references referent entry.2
          .ok (entry.1, id)
        .ok (some (.mapped (LinkedMap.empty.putAll result)))
      else .ok (some (.mapped vs))

def transformEntitiesToIds : Option (MementoValue Ref Id Object) →
    Except TransformFault (Option (MementoValue Ref Id Object)) :=
  transformToIds references .entity

def transformLocationsToIds : Option (MementoValue Ref Id Object) →
    Except TransformFault (Option (MementoValue Ref Id Object)) :=
  transformToIds references .location

end ToIds

section FromIds
variable (get : Id → Option Ref) (removeDanglingRefs : Bool)

/-- What the context has under the id, which is cast to a `String`. -/
def find : Option (Element Ref Id Object) → Except TransformFault (Option Ref)
  | none => if removeDanglingRefs then .ok none else .error .notFound
  | some (.text id) =>
      match get id with
      | some ref => .ok (some ref)
      | none => if removeDanglingRefs then .ok none else .error .notFound
  | some _ => .error .classCast

variable [DecidableEq Ref] [DecidableEq Id] [DecidableEq Object]

def transformIds (referent : Referent) (requiredType : RequiredType) :
    Option (MementoValue Ref Id Object) →
      Except TransformFault (Option (MementoValue Ref Id Object))
  | none => .ok none
  | some value =>
      if requiredType.refersTo referent then
        match value with
        | .element element => do
            let found ← find get removeDanglingRefs (some element)
            .ok (found.map fun ref => .element (.ref ref))
        | _ => .error .classCast
      else if requiredType.isIterable then
        match value with
        | .gathered ids => do
            let found ← ids.items.mapM (find get removeDanglingRefs)
            let result := (found.filterMap fun ref => ref).map fun ref => some (.ref ref)
            .ok (some (.gathered
              (if requiredType.isSet then .set (LinkedSet.empty.addAll result) else .list result)))
        | _ => .error .classCast
      else
        match value with
        | .mapped ids => do
            let found ← ids.entries.mapM fun entry => do
              let ref ← find get removeDanglingRefs entry.2
              .ok (ref.map fun ref => (entry.1, some (.ref ref)))
            .ok (some (.mapped (LinkedMap.empty.putAll (found.filterMap fun entry => entry))))
        | _ => .error .cannotTransform

def transformIdsToEntities (requiredType : RequiredType) : Option (MementoValue Ref Id Object) →
    Except TransformFault (Option (MementoValue Ref Id Object)) :=
  transformIds get removeDanglingRefs .entity requiredType

def transformIdsToLocations (requiredType : RequiredType) : Option (MementoValue Ref Id Object) →
    Except TransformFault (Option (MementoValue Ref Id Object)) :=
  transformIds get removeDanglingRefs .location requiredType

end FromIds
end MementoTransformer
end Brooklyn

/-!
Ids that come back as what they stand for. The encoder looks at the first element that is not
null and then casts every element, null ones too; where all are null it leaves the value as
it is, and the decoder finds nothing under null. So a value comes back when it has no null.
-/

namespace Brooklyn

section Traversal
variable {Item Result Fault : Type} {f : Item → Except Fault Result}

theorem mapM_ok {g : Item → Result} {items : List Item} (each : ∀ item ∈ items, f item = .ok (g item)) :
    items.mapM f = .ok (items.map g) := by
  induction items with
  | nil => rfl
  | cons item rest ih =>
    rw [List.mapM_cons, each item List.mem_cons_self,
      ih fun other member => each other (List.mem_cons_of_mem item member)]
    rfl

theorem mapM_throws {items : List Item} {item : Item} {fault : Fault} (member : item ∈ items)
    (throws : f item = .error fault) : ∃ fault, items.mapM f = .error fault := by
  induction items with
  | nil => cases member
  | cons first rest ih =>
    rw [List.mapM_cons]
    cases started : f first with
    | error fault => exact ⟨fault, rfl⟩
    | ok result =>
      rcases List.mem_cons.mp member with rfl | later
      · rw [throws] at started
        cases started
      · obtain ⟨fault, thrown⟩ := ih later
        exact ⟨fault, by rw [thrown]; rfl⟩

end Traversal

variable {Ref Id Object : Type}

namespace MementoValue

/-- What a value is built from; a null stands for a missing element. -/
def items [DecidableEq Object] :
    Option (MementoValue Ref Id Object) → List (Option (Element Ref Id Object))
  | none => []
  | some (.element val) => [some val]
  | some (.gathered vs) => vs.items
  | some (.mapped vs) => vs.values

/-- The required type is the one that the value is declared with. -/
def Matches (referent : Referent) (requiredType : RequiredType) :
    Option (MementoValue Ref Id Object) → Prop
  | none => True
  | some (.element _) => requiredType.refersTo referent = true
  | some (.gathered vs) => requiredType.refersTo referent = false ∧
      requiredType.isIterable = true ∧ requiredType.isSet = vs.isSet
  | some (.mapped _) => requiredType.refersTo referent = false ∧ requiredType.isIterable = false

end MementoValue

namespace MementoTransformer
open MementoValue

variable {references : References Ref Id} {referent : Referent} {get : Id → Option Ref}
  {removeDanglingRefs : Bool} {requiredType : RequiredType}

/-- A list in which nothing is null lists references. -/
theorem exists_refs {vals : List (Option (Element Ref Id Object))}
    (built : ∀ element, some element ∈ vals → isInstance references referent element = true)
    (noNull : none ∉ vals) :
    ∃ refs : List Ref, vals = refs.map (fun ref => some (.ref ref)) ∧
      ∀ ref ∈ refs, references.kind ref = referent := by
  induction vals with
  | nil => exact ⟨[], rfl, fun _ member => absurd member List.not_mem_nil⟩
  | cons val rest ih =>
    obtain ⟨refs, rfl, kinds⟩ := ih (fun element member => built element (List.mem_cons_of_mem _ member))
      (fun member => noNull (List.mem_cons_of_mem _ member))
    match val with
    | none => exact absurd List.mem_cons_self noNull
    | some (.ref ref) =>
      have kind : references.kind ref = referent := of_decide_eq_true (built _ List.mem_cons_self)
      exact ⟨ref :: refs, rfl, List.forall_mem_cons.mpr ⟨kind, kinds⟩⟩
    | some (.text id) => exact absurd (built _ List.mem_cons_self) Bool.false_ne_true
    | some (.object object) => exact absurd (built _ List.mem_cons_self) Bool.false_ne_true

/-- Where the encoder sees nothing of the kind, there is nothing but nulls. -/
theorem all_null {vals : List (Option (Element Ref Id Object))}
    (built : ∀ element, some element ∈ vals → isInstance references referent element = true)
    (unseen : containsType references referent vals = false) : ∀ val ∈ vals, val = none := by
  induction vals with
  | nil => exact fun _ member => absurd member List.not_mem_nil
  | cons val rest ih =>
    cases val with
    | none =>
      exact List.forall_mem_cons.mpr
        ⟨rfl, ih (fun element member => built element (List.mem_cons_of_mem _ member)) unseen⟩
    | some element =>
      rw [containsType, built element List.mem_cons_self] at unseen
      cases unseen

theorem containsType_refs {refs : List Ref} (kinds : ∀ ref ∈ refs, references.kind ref = referent)
    (some_there : refs ≠ []) :
    containsType references referent (refs.map fun ref => some (.ref ref) :
      List (Option (Element Ref Id Object))) = true := by
  cases refs with
  | nil => exact absurd rfl some_there
  | cons ref rest => exact decide_eq_true (kinds ref List.mem_cons_self)

theorem castId_ref {ref : Ref} (kind : references.kind ref = referent) :
    castId references referent (some (.ref ref)) =
      (.ok (some (.text (references.getId ref))) :
        Except TransformFault (Option (Element Ref Id Object))) := if_pos kind

theorem find_text {ref : Ref} (resolves : get (references.getId ref) = some ref) :
    find get removeDanglingRefs
      (some (.text (references.getId ref)) : Option (Element Ref Id Object)) = .ok (some ref) := by
  rw [find, resolves]

variable [DecidableEq Ref] [DecidableEq Id] [DecidableEq Object]

/-- The ids of the value, decoded for the required type, are the value. -/
def RoundTrips (references : References Ref Id) (referent : Referent) (get : Id → Option Ref)
    (removeDanglingRefs : Bool) (requiredType : RequiredType)
    (value : Option (MementoValue Ref Id Object)) : Prop :=
  ∃ ids, transformToIds references referent value = .ok ids ∧
    transformIds get removeDanglingRefs referent requiredType ids = .ok value

section Collections
variable {vs : Gathered (Option (Element Ref Id Object))} {refs : List Ref}

omit [DecidableEq Ref] [DecidableEq Id] in
theorem toIds_gathered (listed : vs.items = refs.map fun ref => some (.ref ref))
    (kinds : ∀ ref ∈ refs, references.kind ref = referent) :
    ∃ ids, transformToIds references referent (some (.gathered vs)) =
        .ok (some (.gathered ids)) ∧
      ids.items = refs.map fun ref => some (.text (references.getId ref)) := by
  rw [transformToIds, listed]
  by_cases none_there : refs = []
  · subst none_there
    exact ⟨vs, rfl, listed⟩
  · have cast : (refs.map fun ref => some (.ref ref)).mapM (castId references referent) =
        (.ok (refs.map fun ref => some (.text (references.getId ref))) :
          Except TransformFault (List (Option (Element Ref Id Object)))) := by
      rw [List.mapM_map]
      exact mapM_ok fun ref member => castId_ref (kinds ref member)
    rw [if_pos (containsType_refs kinds none_there), cast]
    exact ⟨_, rfl, rfl⟩

theorem fromIds_gathered
    (listed : vs.items = refs.map fun ref => some (.text (references.getId ref)))
    (resolves : ∀ ref ∈ refs, get (references.getId ref) = some ref)
    (other : requiredType.refersTo referent = false) (iterable : requiredType.isIterable = true) :
    transformIds get removeDanglingRefs referent requiredType (some (.gathered vs)) =
      .ok (some (.gathered (if requiredType.isSet then
        .set (LinkedSet.empty.addAll (refs.map fun ref => some (.ref ref)))
        else .list (refs.map fun ref => some (.ref ref))))) := by
  have found : vs.items.mapM (find get removeDanglingRefs) = .ok (refs.map some) := by
    rw [listed, List.mapM_map]
    exact mapM_ok fun ref member => find_text (resolves ref member)
  have same : (refs.map some).filterMap (fun ref => ref) = refs := by
    rw [List.filterMap_map]
    exact List.filterMap_some
  simp only [transformIds, other, iterable, found, Bool.false_eq_true, if_false, if_true]
  change Except.ok _ = _
  rw [same]

/-- A null is cast, or nothing is found under it. -/
theorem gathered_null (missing : none ∈ vs.items)
    (built : ∀ element, some element ∈ vs.items → isInstance references referent element = true)
    (other : requiredType.refersTo referent = false) (iterable : requiredType.isIterable = true) :
    ¬ RoundTrips references referent get removeDanglingRefs requiredType (some (.gathered vs)) := by
  rintro ⟨ids, encoded, decoded⟩
  rw [transformToIds] at encoded
  cases seen : containsType references referent vs.items with
  | true =>
    obtain ⟨fault, thrown⟩ := mapM_throws (f := castId references referent) missing rfl
    rw [if_pos seen, thrown] at encoded
    cases encoded
  | false =>
    rw [if_neg (by simp [seen])] at encoded
    cases encoded
    have nulls := all_null built seen
    simp only [transformIds, other, iterable, Bool.false_eq_true, if_false, if_true] at decoded
    cases removed : removeDanglingRefs with
    | false =>
      obtain ⟨fault, thrown⟩ := mapM_throws
        (f := find get removeDanglingRefs) missing (by rw [removed]; rfl)
      rw [thrown] at decoded
      cases decoded
    | true =>
      have found : vs.items.mapM (find get removeDanglingRefs) =
          .ok (vs.items.map fun _ => none) :=
        mapM_ok fun val member => by rw [nulls val member, removed]; rfl
      have nothing : (vs.items.map fun _ => (none : Option Ref)).filterMap (fun ref => ref) = [] := by
        rw [List.filterMap_map]
        exact List.filterMap_eq_nil_iff.mpr fun _ _ => rfl
      rw [found] at decoded
      change Except.ok _ = _ at decoded
      rw [nothing] at decoded
      have empty : vs.items = [] := by
        cases decoded
        cases requiredType.isSet <;> rfl
      rw [empty] at missing
      cases missing

end Collections

section Maps
variable {vs : LinkedMap Object (Option (Element Ref Id Object))} {pairs : List (Object × Ref)}

omit [DecidableEq Ref] [DecidableEq Id] [DecidableEq Object] in
theorem exists_pairs {entries : List (Object × Option (Element Ref Id Object))} {refs : List Ref}
    (listed : entries.map Prod.snd = refs.map fun ref => some (.ref ref)) :
    ∃ pairs : List (Object × Ref),
      entries = pairs.map (fun pair => (pair.1, some (.ref pair.2))) ∧
        pairs.map Prod.snd = refs := by
  induction entries generalizing refs with
  | nil =>
    refine ⟨[], rfl, ?_⟩
    cases refs with
    | nil => rfl
    | cons ref rest => cases listed
  | cons entry entries ih =>
    cases refs with
    | nil => cases listed
    | cons ref rest =>
      obtain ⟨first, others⟩ := List.cons_eq_cons.mp listed
      obtain ⟨pairs, rfl, same⟩ := ih others
      refine ⟨(entry.1, ref) :: pairs, ?_, congrArg (ref :: ·) same⟩
      exact congrArg (· :: _) (Prod.ext rfl first)

omit [DecidableEq Ref] [DecidableEq Id] in
theorem toIds_mapped (listed : vs.entries = pairs.map fun pair => (pair.1, some (.ref pair.2)))
    (kinds : ∀ pair ∈ pairs, references.kind pair.2 = referent) :
    ∃ ids, transformToIds references referent (some (.mapped vs)) = .ok (some (.mapped ids)) ∧
      ids.entries = pairs.map fun pair =>
        (pair.1, some (.text (references.getId pair.2))) := by
  have values : vs.values = (pairs.map Prod.snd).map fun ref => some (.ref ref) := by
    rw [LinkedMap.values_entries, listed, List.map_map, List.map_map]
    rfl
  have distinct : (pairs.map Prod.fst).Nodup := by
    have keys := LinkedMap.keys_entries vs
    rw [listed, List.map_map] at keys
    exact (keys.trans rfl : pairs.map Prod.fst = vs.keys.elements) ▸ vs.keys.distinct
  rw [transformToIds, values]
  by_cases none_there : pairs = []
  · subst none_there
    exact ⟨vs, rfl, listed⟩
  · have cast : vs.entries.mapM (fun entry => do
        let id ← castId references referent entry.2
        .ok (entry.1, id)) =
          .ok (pairs.map fun pair => (pair.1, some (.text (references.getId pair.2)))) := by
      rw [listed, List.mapM_map]
      refine mapM_ok fun pair member => ?_
      simp only [Function.comp_apply, castId_ref (kinds pair member)]
      rfl
    have kinds' : ∀ ref ∈ pairs.map Prod.snd, references.kind ref = referent := by
      intro ref member
      obtain ⟨pair, there, rfl⟩ := List.mem_map.mp member
      exact kinds pair there
    rw [if_pos (containsType_refs kinds' (mt List.map_eq_nil_iff.mp none_there)), cast]
    refine ⟨_, rfl, LinkedMap.entries_putAll ?_⟩
    rw [List.map_map]
    exact distinct

theorem fromIds_mapped
    (listed : vs.entries = pairs.map fun pair =>
      (pair.1, some (.text (references.getId pair.2))))
    (resolves : ∀ pair ∈ pairs, get (references.getId pair.2) = some pair.2)
    (other : requiredType.refersTo referent = false)
    (noIterable : requiredType.isIterable = false) :
    transformIds get removeDanglingRefs referent requiredType (some (.mapped vs)) =
      .ok (some (.mapped (LinkedMap.empty.putAll
        (pairs.map fun pair => (pair.1, some (.ref pair.2)))))) := by
  have found : vs.entries.mapM (fun entry => do
      let ref ← find get removeDanglingRefs entry.2
      .ok (ref.map fun ref => (entry.1, some (.ref ref)))) =
        (.ok (pairs.map fun pair => some (pair.1, some (.ref pair.2))) :
          Except TransformFault (List (Option (Object × Option (Element Ref Id Object))))) := by
    rw [listed, List.mapM_map]
    refine mapM_ok fun pair member => ?_
    simp only [Function.comp_apply, find_text (resolves pair member)]
    rfl
  have same : (pairs.map fun pair => some (pair.1, some (.ref pair.2))).filterMap
      (fun entry => entry) =
        (pairs.map fun pair => (pair.1, some (.ref pair.2)) :
          List (Object × Option (Element Ref Id Object))) := by
    rw [List.filterMap_map, ← List.filterMap_eq_map]
    rfl
  simp only [transformIds, other, noIterable, found, Bool.false_eq_true, if_false]
  change Except.ok _ = _
  rw [same]

theorem mapped_null (missing : none ∈ vs.values)
    (built : ∀ element, some element ∈ vs.values → isInstance references referent element = true)
    (other : requiredType.refersTo referent = false)
    (noIterable : requiredType.isIterable = false) :
    ¬ RoundTrips references referent get removeDanglingRefs requiredType (some (.mapped vs)) := by
  obtain ⟨⟨key, val⟩, member, null⟩ := List.mem_map.mp (LinkedMap.values_entries vs ▸ missing)
  cases null
  rintro ⟨ids, encoded, decoded⟩
  rw [transformToIds] at encoded
  cases seen : containsType references referent vs.values with
  | true =>
    obtain ⟨fault, thrown⟩ := mapM_throws (f := fun entry => do
      let id ← castId references referent entry.2
      .ok (entry.1, id)) member rfl
    rw [if_pos seen, thrown] at encoded
    cases encoded
  | false =>
    rw [if_neg (by simp [seen])] at encoded
    cases encoded
    have nulls := all_null built seen
    simp only [transformIds, other, noIterable, Bool.false_eq_true, if_false] at decoded
    cases removed : removeDanglingRefs with
    | false =>
      obtain ⟨fault, thrown⟩ := mapM_throws (f := fun entry => do
        let ref ← find get removeDanglingRefs entry.2
        .ok (ref.map fun ref =>
          ((entry.1, some (.ref ref)) : Object × Option (Element Ref Id Object)))) member
        (by rw [removed]; rfl)
      rw [thrown] at decoded
      cases decoded
    | true =>
      have found : vs.entries.mapM (fun entry => do
          let ref ← find get removeDanglingRefs entry.2
          .ok (ref.map fun ref => (entry.1, some (.ref ref)))) =
            (.ok (vs.entries.map fun _ => none) :
              Except TransformFault (List (Option (Object × Option (Element Ref Id Object))))) := by
        refine mapM_ok fun entry there => ?_
        have null := nulls entry.2 (LinkedMap.values_entries vs ▸ List.mem_map_of_mem there)
        rw [null, removed]
        rfl
      have nothing : (vs.entries.map fun _ =>
          (none : Option (Object × Option (Element Ref Id Object)))).filterMap
            (fun entry => entry) = [] := by
        rw [List.filterMap_map]
        exact List.filterMap_eq_nil_iff.mpr fun _ _ => rfl
      rw [found] at decoded
      change Except.ok _ = _ at decoded
      rw [nothing] at decoded
      cases decoded
      cases missing

end Maps

section Trips
variable {vs : Gathered (Option (Element Ref Id Object))}
  {map : LinkedMap Object (Option (Element Ref Id Object))}

theorem gathered_trips (noNull : none ∉ vs.items)
    (built : ∀ element, some element ∈ vs.items → isInstance references referent element = true)
    (resolves : ∀ ref, some (.ref ref) ∈ vs.items → get (references.getId ref) = some ref)
    (other : requiredType.refersTo referent = false) (iterable : requiredType.isIterable = true)
    (declared : requiredType.isSet = vs.isSet) :
    RoundTrips references referent get removeDanglingRefs requiredType (some (.gathered vs)) := by
  obtain ⟨refs, listed, kinds⟩ := exists_refs built noNull
  have known : ∀ ref ∈ refs, get (references.getId ref) = some ref := by
    intro ref member
    refine resolves ref ?_
    rw [listed]
    exact List.mem_map.mpr ⟨ref, member, rfl⟩
  obtain ⟨ids, encoded, texts⟩ := toIds_gathered listed kinds
  refine ⟨_, encoded, (fromIds_gathered texts known other iterable).trans ?_⟩
  rw [← listed, declared]
  cases vs with
  | list vals => rfl
  | set vals => simp only [Gathered.isSet, Gathered.items, if_true, LinkedSet.addAll_elements]

theorem mapped_trips (noNull : none ∉ map.values)
    (built : ∀ element, some element ∈ map.values → isInstance references referent element = true)
    (resolves : ∀ ref, some (.ref ref) ∈ map.values → get (references.getId ref) = some ref)
    (other : requiredType.refersTo referent = false)
    (noIterable : requiredType.isIterable = false) :
    RoundTrips references referent get removeDanglingRefs requiredType (some (.mapped map)) := by
  obtain ⟨refs, listed, kinds⟩ := exists_refs built noNull
  obtain ⟨pairs, entries, same⟩ := exists_pairs ((LinkedMap.values_entries map).symm.trans listed)
  have member {pair : Object × Ref} (there : pair ∈ pairs) : pair.2 ∈ refs :=
    same ▸ List.mem_map_of_mem there
  have known : ∀ pair ∈ pairs, get (references.getId pair.2) = some pair.2 := by
    intro pair there
    refine resolves pair.2 ?_
    rw [listed]
    exact List.mem_map.mpr ⟨pair.2, member there, rfl⟩
  obtain ⟨ids, encoded, texts⟩ := toIds_mapped entries fun pair there => kinds _ (member there)
  refine ⟨_, encoded, (fromIds_mapped texts known other noIterable).trans ?_⟩
  rw [← entries, LinkedMap.putAll_entries]

end Trips

/-- A value that is built from references of the kind comes back, in a context that resolves
their ids and for the type it is declared with, when nothing in it is null. -/
theorem roundTrips_iff (references : References Ref Id) (referent : Referent)
    (get : Id → Option Ref) (removeDanglingRefs : Bool) (requiredType : RequiredType)
    (value : Option (MementoValue Ref Id Object))
    (built : ∀ element, some element ∈ items value → isInstance references referent element = true)
    (declared : Matches referent requiredType value)
    (resolves : ∀ ref, some (.ref ref) ∈ items value → get (references.getId ref) = some ref) :
    RoundTrips references referent get removeDanglingRefs requiredType value ↔
      none ∉ items value := by
  rcases value with _ | ((ref | id | object) | vs | map)
  · exact iff_of_true ⟨none, rfl, rfl⟩ List.not_mem_nil
  · have kind : references.kind ref = referent := of_decide_eq_true (built _ List.mem_cons_self)
    have found := resolves ref List.mem_cons_self
    have declared : requiredType.refersTo referent = true := declared
    refine iff_of_true ⟨some (.element (.text (references.getId ref))), if_pos kind, ?_⟩ ?_
    · rw [transformIds, if_pos declared]
      simp only [find_text found]
      rfl
    · rw [items, List.mem_singleton]
      nofun
  · exact absurd (built _ List.mem_cons_self) Bool.false_ne_true
  · exact absurd (built _ List.mem_cons_self) Bool.false_ne_true
  · obtain ⟨other, iterable, set⟩ := declared
    exact ⟨fun trips missing => gathered_null missing built other iterable trips,
      fun noNull => gathered_trips noNull built resolves other iterable set⟩
  · obtain ⟨other, noIterable⟩ := declared
    exact ⟨fun trips missing => mapped_null missing built other noIterable trips,
      fun noNull => mapped_trips noNull built resolves other noIterable⟩

/-- Locations that are numbers, and numbers for their ids. -/
def numbered : References Nat Nat := ⟨fun _ => .location, fun ref => ref + 10⟩

/-- `List` as a declared type. -/
def listType : RequiredType := ⟨fun _ => false, true, false⟩

theorem two_locations_come_back :
    RoundTrips numbered .location (fun id => some (id - 10)) true listType
      (some (.gathered (.list [some (.ref 1), some (.ref 2)])) :
        Option (MementoValue Nat Nat Unit)) := by
  refine (roundTrips_iff numbered .location _ true listType _ ?_ ?_ ?_).mpr ?_
  · intro element member
    rcases List.mem_cons.mp member with same | member
    · cases same
      rfl
    · cases List.mem_singleton.mp member
      rfl
  · exact ⟨rfl, rfl, rfl⟩
  · exact fun ref _ => congrArg some (Nat.add_sub_cancel ref 10)
  · decide

-- The null is cast to a location and asked for its id.
theorem location_with_null_lost :
    ¬ RoundTrips numbered .location (fun id => some (id - 10)) true listType
      (some (.gathered (.list [some (.ref 1), none])) : Option (MementoValue Nat Nat Unit)) := by
  rintro ⟨ids, encoded, _⟩
  cases encoded

end MementoTransformer
end Brooklyn
