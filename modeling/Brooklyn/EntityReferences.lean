import Brooklyn.EntityOwnership
import Mathlib.Data.List.Induction

/-!
`EntityCollectionReference` on its own: the ids are the collection, the known entities a
cache that may be absent. `getEntity` is what the management context of the referrer
answers; `find` fills the cache from it. The cache is in step with the ids as long as an
entity is only added to, or removed from, a collection whose cache is there.
-/

namespace Brooklyn
namespace EntityCollectionReference

variable {Ref Id : Type} [DecidableEq Id] (who : Identity Ref Id) (getEntity : Id → Option Ref)

def clear (_reference : EntityCollectionReference Ref Id) : EntityCollectionReference Ref Id :=
  ⟨.empty, none⟩

def size (reference : EntityCollectionReference Ref Id) : Nat :=
  reference.entityRefs.elements.length

def contains (reference : EntityCollectionReference Ref Id) (e : Ref) : Bool :=
  decide (who.id e ∈ reference.entityRefs)

/-- An id that the context does not know is skipped, with a warning. -/
def putFound (result : LinkedMap Id Ref) (id : Id) : LinkedMap Id Ref :=
  match getEntity id with
  | none => result
  | some e => result.put (who.id e) e

def find (reference : EntityCollectionReference Ref Id) :
    List Ref × EntityCollectionReference Ref Id :=
  match reference.entities with
  | some entities => (entities.values, reference)
  | none =>
      let result := reference.entityRefs.elements.foldl (putFound who getEntity) .empty
      (result.values, { reference with entities := some result })

def get (reference : EntityCollectionReference Ref Id) :
    List Ref × EntityCollectionReference Ref Id :=
  match reference.entities with
  | some entities => (entities.values, reference)
  | none => reference.find who getEntity

inductive Call (Ref : Type) where
  | add (e : Ref)
  | remove (e : Ref)
  | invalidate
  | clear
  | get
  | find

inductive Answer (Ref : Type) where
  | changed (changed : Bool)
  | entities (entities : List Ref)
  | nothing
deriving DecidableEq

def perform (reference : EntityCollectionReference Ref Id) :
    Call Ref → Answer Ref × EntityCollectionReference Ref Id
  | .add e => (.changed (decide (who.id e ∉ reference.entityRefs)), reference.add who e)
  | .remove e => (.changed (reference.remove who e).1, (reference.remove who e).2)
  | .invalidate => (.nothing, reference.invalidate)
  | .clear => (.nothing, reference.clear)
  | .get => (.entities (reference.get who getEntity).1, (reference.get who getEntity).2)
  | .find => (.entities (reference.find who getEntity).1, (reference.find who getEntity).2)

variable [DecidableEq Ref]

omit [DecidableEq Id] in
/-- The entities added and not since removed, in the order in which they were added. -/
def collect (members : LinkedSet Ref) : Call Ref → LinkedSet Ref
  | .add e => members.add e
  | .remove e => members.remove e
  | .clear => .empty
  | _ => members

omit [DecidableEq Id] in
/-- What a call has to answer. -/
def Call.expects (members : LinkedSet Ref) : Call Ref → Answer Ref
  | .add e => .changed (decide (e ∉ members))
  | .remove e => .changed (decide (e ∈ members))
  | .get | .find => .entities members.elements
  | _ => .nothing

/-- At every moment `get` has the members, and every call answers what it has to. -/
def Right (reference : EntityCollectionReference Ref Id) (members : LinkedSet Ref) :
    List (Call Ref) → Prop
  | [] => (reference.get who getEntity).1 = members.elements
  | call :: rest =>
      (reference.get who getEntity).1 = members.elements ∧
        (reference.perform who getEntity call).1 = call.expects members ∧
          Right (reference.perform who getEntity call).2 (collect members call) rest

instance decidableRight : (calls : List (Call Ref)) →
    (reference : EntityCollectionReference Ref Id) → (members : LinkedSet Ref) →
    Decidable (reference.Right who getEntity members calls)
  | [], reference, members =>
      inferInstanceAs (Decidable ((reference.get who getEntity).1 = members.elements))
  | call :: rest, reference, members =>
      have := decidableRight rest (reference.perform who getEntity call).2 (collect members call)
      inferInstanceAs (Decidable (_ ∧ _ ∧ _))

omit [DecidableEq Ref] in
/-- The cache is there, or the call does not need it: a new entity may come to an empty
collection, and one that is there or not there may be added or removed again. -/
def Fits (reference : EntityCollectionReference Ref Id) : Call Ref → Prop
  | .add e => reference.entities.isSome ∨ who.id e ∈ reference.entityRefs ∨
      reference.entityRefs.elements = []
  | .remove e => reference.entities.isSome ∨ who.id e ∉ reference.entityRefs
  | _ => True

omit [DecidableEq Ref] in
def AllFit (reference : EntityCollectionReference Ref Id) : List (Call Ref) → Prop
  | [] => True
  | call :: rest => reference.Fits who call ∧
      AllFit (reference.perform who getEntity call).2 rest

/-! The cache, as the list of the entities that it has under their ids. -/
section Caches
variable {who getEntity}

omit [DecidableEq Ref] [DecidableEq Id] in
structure Caches (who : Identity Ref Id) (entities : LinkedMap Id Ref) (members : List Ref) :
    Prop where
  keys : entities.keys.elements = members.map who.id
  found : ∀ e ∈ members, entities.get (who.id e) = some e

omit [DecidableEq Ref] [DecidableEq Id] in
theorem Caches.values {entities : LinkedMap Id Ref} {members : List Ref}
    (caches : Caches who entities members) : entities.values = members := by
  rw [LinkedMap.values, caches.keys, List.filterMap_map]
  have all : members.filterMap some = members := List.filterMap_some
  conv_rhs => rw [← all]
  exact List.filterMap_congr caches.found

omit [DecidableEq Ref] [DecidableEq Id] in
theorem Caches.empty : Caches who (.empty : LinkedMap Id Ref) [] :=
  ⟨rfl, fun _ member => absurd member List.not_mem_nil⟩

omit [DecidableEq Ref] in
theorem Caches.put {entities : LinkedMap Id Ref} {members : List Ref}
    (caches : Caches who entities members) (unique : Function.Injective who.id) {e : Ref}
    (absent : e ∉ members) : Caches who (entities.put (who.id e) e) (members ++ [e]) := by
  have fresh : who.id e ∉ entities.keys := by
    change who.id e ∉ entities.keys.elements
    rw [caches.keys, List.mem_map_of_injective unique]
    exact absent
  constructor
  · change (entities.keys.add (who.id e)).elements = _
    rw [LinkedSet.add, dif_neg fresh]
    simp [caches.keys]
  · intro other member
    rw [LinkedMap.get_put]
    rcases List.mem_append.mp member with earlier | last
    · have different : who.id other ≠ who.id e := fun same => by
        cases unique same
        exact absent earlier
      rw [if_neg different]
      exact caches.found other earlier
    · rw [List.mem_singleton.mp last, if_pos rfl]

theorem Caches.remove {entities : LinkedMap Id Ref} {members : List Ref}
    (caches : Caches who entities members) (unique : Function.Injective who.id)
    (distinct : members.Nodup) (e : Ref) :
    Caches who (entities.remove (who.id e)) (members.erase e) := by
  constructor
  · change entities.keys.elements.erase (who.id e) = _
    rw [caches.keys, List.map_erase unique]
  · intro other member
    obtain ⟨different, there⟩ := distinct.mem_erase_iff.mp member
    rw [LinkedMap.get_remove, if_neg fun same => different (unique same)]
    exact caches.found other there

omit [DecidableEq Ref] in
/-- `find` fills the cache with all members if their ids are known. -/
theorem caches_found (resolves : ∀ e, getEntity (who.id e) = some e) {members : List Ref}
    (distinct : members.Nodup) :
    Caches who ((members.map who.id).foldl (putFound who getEntity) .empty) members := by
  have unique : Function.Injective who.id := fun e other same => by
    simpa [resolves] using congrArg getEntity same
  induction members using List.reverseRecOn with
  | nil => exact .empty
  | append_singleton members last ih =>
    have parts := List.nodup_append.mp distinct
    rw [List.map_append, List.foldl_append]
    change Caches who (putFound who getEntity _ (who.id last)) _
    rw [putFound, resolves]
    exact (ih parts.1).put unique fun there => parts.2.2 _ there _ (List.mem_singleton_self _) rfl

end Caches

/-- The ids are those of the members, and the cache, if there is one, has the members. -/
structure InStep (who : Identity Ref Id) (reference : EntityCollectionReference Ref Id)
    (members : LinkedSet Ref) : Prop where
  ids : reference.entityRefs.elements = members.elements.map who.id
  cached : ∀ entities, reference.entities = some entities →
    Caches who entities members.elements

section Steps
variable {who getEntity} {reference : EntityCollectionReference Ref Id} {members : LinkedSet Ref}

omit [DecidableEq Ref] [DecidableEq Id] in
theorem InStep.mem (step : InStep who reference members) (unique : Function.Injective who.id)
    (e : Ref) : who.id e ∈ reference.entityRefs ↔ e ∈ members := by
  change who.id e ∈ reference.entityRefs.elements ↔ _
  rw [step.ids, List.mem_map_of_injective unique]
  rfl

omit [DecidableEq Ref] in
theorem InStep.find (step : InStep who reference members)
    (resolves : ∀ e, getEntity (who.id e) = some e) :
    (reference.find who getEntity).1 = members.elements ∧
      InStep who (reference.find who getEntity).2 members := by
  unfold EntityCollectionReference.find
  split
  · next entities cache => exact ⟨(step.cached entities cache).values, step⟩
  · have caches := caches_found resolves members.distinct
    rw [step.ids]
    exact ⟨caches.values, step.ids, fun _ same => by cases same; exact caches⟩

omit [DecidableEq Ref] in
theorem InStep.get (step : InStep who reference members)
    (resolves : ∀ e, getEntity (who.id e) = some e) :
    (reference.get who getEntity).1 = members.elements ∧
      InStep who (reference.get who getEntity).2 members := by
  unfold EntityCollectionReference.get
  split
  · next entities cache => exact ⟨(step.cached entities cache).values, step⟩
  · exact step.find resolves

theorem InStep.add (step : InStep who reference members) (unique : Function.Injective who.id)
    {e : Ref} (fits : reference.Fits who (.add e)) :
    InStep who (reference.add who e) (members.add e) := by
  unfold EntityCollectionReference.add
  by_cases present : e ∈ members
  · rw [if_pos ((step.mem unique e).mpr present), LinkedSet.add, dif_pos present]
    exact step
  · have fresh := (step.mem unique e).not.mpr present
    rw [if_neg fresh]
    have added : (members.add e).elements = members.elements ++ [e] := by
      rw [LinkedSet.add, dif_neg present]
      exact List.concat_eq_append
    refine ⟨?_, fun entities same => ?_⟩
    · rw [added, LinkedSet.add, dif_neg fresh]
      simp [step.ids]
    · cases same
      rw [added]
      cases cache : reference.entities with
      | some entities => exact (step.cached entities cache).put unique present
      | none =>
        rcases fits with there | known | nobody
        · rw [cache] at there
          cases there
        · exact absurd known fresh
        · have none : members.elements = [] := List.map_eq_nil_iff.mp (step.ids.symm.trans nobody)
          rw [none]
          exact Caches.empty.put unique List.not_mem_nil

theorem InStep.remove (step : InStep who reference members) (unique : Function.Injective who.id)
    (e : Ref) : InStep who (reference.remove who e).2 (members.remove e) := by
  unfold EntityCollectionReference.remove
  by_cases present : e ∈ members
  · rw [if_pos ((step.mem unique e).mpr present)]
    refine ⟨?_, fun entities same => ?_⟩
    · change reference.entityRefs.elements.erase (who.id e) = (members.elements.erase e).map who.id
      rw [step.ids, List.map_erase unique]
    · obtain ⟨before, cache, rfl⟩ := Option.map_eq_some_iff.mp same
      exact (step.cached before cache).remove unique members.distinct e
  · rw [if_neg ((step.mem unique e).not.mpr present)]
    have same : (members.remove e).elements = members.elements :=
      List.erase_of_not_mem present
    exact ⟨by rw [same]; exact step.ids, fun entities cache => by
      rw [same]; exact step.cached entities cache⟩

/-- A call that fits keeps the cache in step, and is answered right. -/
theorem InStep.perform (step : InStep who reference members)
    (resolves : ∀ e, getEntity (who.id e) = some e) {call : Call Ref}
    (fits : reference.Fits who call) :
    (reference.perform who getEntity call).1 = call.expects members ∧
      InStep who (reference.perform who getEntity call).2 (collect members call) := by
  have unique : Function.Injective who.id := fun e other same => by
    simpa [resolves] using congrArg getEntity same
  cases call with
  | add e =>
    refine ⟨?_, step.add unique fits⟩
    simp only [EntityCollectionReference.perform, Call.expects, step.mem unique]
  | remove e =>
    refine ⟨?_, step.remove unique e⟩
    simp only [EntityCollectionReference.perform, Call.expects, Answer.changed.injEq]
    rw [EntityCollectionReference.remove]
    by_cases present : e ∈ members
    · rw [if_pos ((step.mem unique e).mpr present)]
      have there := fits.resolve_right (not_not.mpr ((step.mem unique e).mpr present))
      simp [there, present]
    · rw [if_neg ((step.mem unique e).not.mpr present)]
      simp [present]
  | invalidate => exact ⟨rfl, step.ids, fun _ same => by cases same⟩
  | clear => exact ⟨rfl, rfl, fun _ same => by cases same⟩
  | get => exact ⟨congrArg _ (step.get resolves).1, (step.get resolves).2⟩
  | find => exact ⟨congrArg _ (step.find resolves).1, (step.find resolves).2⟩

/-- The collection of a holder that never invalidates it: the cache is there, or there is
nothing to cache. -/
structure Complete (who : Identity Ref Id) (reference : EntityCollectionReference Ref Id)
    (members : LinkedSet Ref) : Prop extends InStep who reference members where
  filled : reference.entities.isSome ∨ reference.entityRefs.elements = []

omit [DecidableEq Ref] [DecidableEq Id] in
theorem complete_create : Complete who (create : EntityCollectionReference Ref Id) .empty :=
  ⟨⟨rfl, fun _ same => by cases same⟩, Or.inr rfl⟩

variable (getEntity) in
omit [DecidableEq Ref] in
theorem Complete.get (complete : Complete who reference members) :
    (reference.get who getEntity).1 = members.elements ∧
      Complete who (reference.get who getEntity).2 members := by
  unfold EntityCollectionReference.get
  split
  · next entities cache => exact ⟨(complete.cached entities cache).values, complete⟩
  · next absent =>
    have nobody : reference.entityRefs.elements = [] :=
      complete.filled.resolve_left (by rw [absent]; nofun)
    have none : members.elements = [] := List.map_eq_nil_iff.mp (complete.ids.symm.trans nobody)
    unfold EntityCollectionReference.find
    simp only [absent, nobody, List.foldl_nil]
    refine ⟨none.symm, ⟨complete.ids, fun _ same => ?_⟩, Or.inl rfl⟩
    cases same
    rw [none]
    exact Caches.empty

theorem Complete.add (complete : Complete who reference members)
    (unique : Function.Injective who.id) (e : Ref) :
    Complete who (reference.add who e) (members.add e) := by
  have fits : reference.Fits who (.add e) := by
    rcases complete.filled with there | nobody
    · exact Or.inl there
    · exact Or.inr (Or.inr nobody)
  refine ⟨complete.toInStep.add unique fits, ?_⟩
  unfold EntityCollectionReference.add
  split
  · exact complete.filled
  · exact Or.inl rfl

theorem Complete.remove (complete : Complete who reference members)
    (unique : Function.Injective who.id) (e : Ref) :
    (reference.remove who e).1 = decide (e ∈ members) ∧
      Complete who (reference.remove who e).2 (members.remove e) := by
  have kept := complete.toInStep.remove unique e
  unfold EntityCollectionReference.remove at kept ⊢
  by_cases present : who.id e ∈ reference.entityRefs
  · have there : reference.entities.isSome := by
      refine complete.filled.resolve_right fun nobody => ?_
      change who.id e ∈ reference.entityRefs.elements at present
      rw [nobody] at present
      cases present
    rw [if_pos present] at kept ⊢
    refine ⟨?_, kept, Or.inl (by simpa using there)⟩
    simp [there, (complete.mem unique e).mp present]
  · rw [if_neg present] at kept ⊢
    exact ⟨by simp [(complete.mem unique e).not.mp present], kept, complete.filled⟩

omit [DecidableEq Ref] [DecidableEq Id] in
theorem Complete.size (complete : Complete who reference members) :
    reference.size = members.elements.length := by
  rw [EntityCollectionReference.size, complete.ids, List.length_map]

/-- A call that is answered right, and after which `get` has the members, fits. -/
theorem InStep.fits (step : InStep who reference members)
    (resolves : ∀ e, getEntity (who.id e) = some e) {call : Call Ref}
    (answers : (reference.perform who getEntity call).1 = call.expects members)
    (gets : ((reference.perform who getEntity call).2.get who getEntity).1 =
      (collect members call).elements) : reference.Fits who call := by
  have unique : Function.Injective who.id := fun e other same => by
    simpa [resolves] using congrArg getEntity same
  cases call with
  | add e =>
    by_cases present : who.id e ∈ reference.entityRefs
    · exact Or.inr (Or.inl present)
    · cases cache : reference.entities with
      | some entities => exact Or.inl (by rw [cache]; rfl)
      | none =>
        -- The new cache has only the new entity.
        refine Or.inr (Or.inr ?_)
        have alone : ((LinkedMap.empty : LinkedMap Id Ref).put (who.id e) e).values = [e] :=
          (Caches.empty.put unique List.not_mem_nil).values
        have absent := (step.mem unique e).not.mp present
        simp only [EntityCollectionReference.perform, EntityCollectionReference.add, if_neg present,
          cache, Option.getD_none, EntityCollectionReference.get, alone, collect, LinkedSet.add,
          dif_neg absent, List.concat_eq_append] at gets
        have nobody : members.elements = [] := by simpa using gets.symm
        rw [step.ids, nobody]
        rfl
  | remove e =>
    by_cases present : who.id e ∈ reference.entityRefs
    · left
      have member := (step.mem unique e).mp present
      simpa [EntityCollectionReference.perform, EntityCollectionReference.remove, present,
        Call.expects, member] using answers
    · exact Or.inr present
  | _ => trivial

theorem right_iff_fits (step : InStep who reference members)
    (resolves : ∀ e, getEntity (who.id e) = some e) (calls : List (Call Ref)) :
    reference.Right who getEntity members calls ↔ reference.AllFit who getEntity calls := by
  induction calls generalizing reference members with
  | nil => exact ⟨fun _ => trivial, fun _ => (step.get resolves).1⟩
  | cons call rest ih =>
    constructor
    · rintro ⟨_, answers, right⟩
      have gets : ((reference.perform who getEntity call).2.get who getEntity).1 =
          (collect members call).elements := by
        cases rest with
        | nil => exact right
        | cons next rest => exact right.1
      have fits := step.fits resolves answers gets
      exact ⟨fits, (ih (step.perform resolves fits).2).mp right⟩
    · rintro ⟨fits, others⟩
      obtain ⟨answers, after⟩ := step.perform resolves fits
      exact ⟨(step.get resolves).1, answers, (ih after).mpr others⟩

end Steps

/-- In a sequence of calls the collection is right, and answers right, exactly if each call
that changes it finds the cache there or does not need it. -/
theorem collection_right_iff (resolves : ∀ e, getEntity (who.id e) = some e)
    (calls : List (Call Ref)) :
    (create : EntityCollectionReference Ref Id).Right who getEntity .empty calls ↔
      (create : EntityCollectionReference Ref Id).AllFit who getEntity calls :=
  right_iff_fits ⟨rfl, fun _ same => by cases same⟩ resolves calls

theorem collection_right_of_filled_cache :
    (∀ e : Nat, some e = some e) ∧
      ((create : EntityCollectionReference Nat Nat).Right ⟨id, fun _ => false⟩ some .empty
          [.add 1, .add 2, .invalidate, .find, .add 3, .remove 2] ↔
        (create : EntityCollectionReference Nat Nat).AllFit ⟨id, fun _ => false⟩ some
          [.add 1, .add 2, .invalidate, .find, .add 3, .remove 2]) :=
  ⟨fun _ => rfl, collection_right_iff ⟨id, fun _ => false⟩ some (fun _ => rfl) _⟩

/-- After `invalidate`, `add` makes a cache of the new entity alone, and `get` answers from it;
and `remove` removes, but says that it did not. -/
theorem collection_wrong_after_invalidate :
    ((((create : EntityCollectionReference Nat Nat).add ⟨id, fun _ => false⟩ 1).invalidate.add
        ⟨id, fun _ => false⟩ 2).get ⟨id, fun _ => false⟩ some).1 = [2] ∧
      ¬ (create : EntityCollectionReference Nat Nat).Right ⟨id, fun _ => false⟩ some .empty
          [.add 1, .invalidate, .add 2] ∧
        ¬ (create : EntityCollectionReference Nat Nat).Right ⟨id, fun _ => false⟩ some .empty
          [.add 1, .invalidate, .remove 1] := by
  decide

end EntityCollectionReference
end Brooklyn
