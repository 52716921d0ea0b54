import Brooklyn.LocationHierarchy
import Brooklyn.LocationLinks

/-!
`MementosGenerators.newBrooklynMemento`: the mementos of what a management context manages, and
`MementoValidators.validateMemento` of the result. Locations are walked from those of the
entities downwards, and their mementos name their parents too. What a memento has besides ids
is its `rest`, which is not validated; the ids of nodes stand for them in the messages.
-/

namespace Brooklyn

variable {Entity Ref Id Rest : Type} {kinds : LocationKinds Ref Id}

namespace Mementos

structure EntityMemento (Id Rest : Type) where
  id : Id
  isTopLevelApp : Bool
  parent : Option Id
  children : List Id
  members : List Id
  locations : List Id
  rest : Rest

structure LocationMemento (Id Rest : Type) where
  id : Id
  parent : Option Id
  children : List Id
  rest : Rest

/-- `BrooklynMementoImpl`, and its builder. No policy is put into it here. -/
structure BrooklynMementoImpl (Id Rest : Type) where
  applicationIds : List Id
  topLevelLocationIds : List Id
  entities : LinkedMap Id (EntityMemento Id Rest)
  locations : LinkedMap Id (LocationMemento Id Rest)

/-- What the generator reads of the management context and of what it manages. -/
structure Managed (Entity Rest : Type) (kinds : LocationKinds Ref Id) where
  applications : List Entity
  entities : List Entity
  id : Entity → Id
  isApplication : Entity → Bool
  isGroup : Entity → Bool
  owner : Entity → Option Entity
  ownedChildren : Entity → List Entity
  members : Entity → List Entity
  getLocations : Entity → List Ref
  entityRest : Entity → Rest
  tree : LocationWorld kinds
  locationRest : Ref → Rest

/-- The `IllegalStateException`s of the validator. -/
inductive ValidationFault (Id : Type) where
  | locationMissing (location entity : Id)
  | parentMissing (parent node : Id)
  | childMissing (child node : Id)

namespace BrooklynMementoImpl

def builder : BrooklynMementoImpl Id Rest := ⟨[], [], .empty, .empty⟩

end BrooklynMementoImpl

namespace Managed
variable (managed : Managed Entity Rest kinds)

def newEntityMemento (entity : Entity) : EntityMemento Id Rest where
  id := managed.id entity
  isTopLevelApp := managed.isApplication entity && (managed.owner entity).isNone
  parent := (managed.owner entity).map managed.id
  children := (managed.ownedChildren entity).map managed.id
  members := if managed.isGroup entity then (managed.members entity).map managed.id else []
  locations := (managed.getLocations entity).map kinds.id
  rest := managed.entityRest entity

def newLocationMemento (location : Ref) : LocationMemento Id Rest where
  id := kinds.id location
  parent := (managed.tree.parentLocation location).map kinds.id
  children := (managed.tree.childLocations location).map kinds.id
  rest := managed.locationRest location

variable [DecidableEq Id]

def putLocation (builder : BrooklynMementoImpl Id Rest) (location : Ref) :
    BrooklynMementoImpl Id Rest :=
  { builder with
    locations := builder.locations.put (kinds.id location) (managed.newLocationMemento location) }

/-- A location whose id has a memento is passed over with all that is below it. -/
def saveLocation (bound : Nat) (builder : BrooklynMementoImpl Id Rest) (location : Ref) :
    Option (BrooklynMementoImpl Id Rest) :=
  if (builder.locations.get (kinds.id location)).isSome then some builder
  else
    (managed.tree.findLocationsInHierarchy bound location).map fun found =>
      found.elements.foldl managed.putLocation builder

def saveEntity (bound : Nat) (builder : BrooklynMementoImpl Id Rest) (entity : Entity) :
    Option (BrooklynMementoImpl Id Rest) :=
  (managed.getLocations entity).foldlM (managed.saveLocation bound)
    { builder with
      entities := builder.entities.put (managed.id entity) (managed.newEntityMemento entity) }

/-- What is built, before it is validated. -/
def generate (bound : Nat) : Option (BrooklynMementoImpl Id Rest) :=
  (managed.entities.foldlM (managed.saveEntity bound)
      { BrooklynMementoImpl.builder with
        applicationIds := managed.applications.map managed.id }).map fun builder =>
    { builder with
      topLevelLocationIds :=
        (builder.locations.values.filter fun memento => memento.parent.isNone).map (·.id) }

end Managed

section Validation
variable {Node : Type}

def require (present : Bool) (fault : ValidationFault Id) : Except (ValidationFault Id) Unit :=
  if present then .ok () else .error fault

/-- One node of `validateParentChildRelations`. -/
def validateNode (nodes : LinkedMap Id Node) (id : Id) (parent : Option Id) (children : List Id) :
    Except (ValidationFault Id) Unit := do
  parent.toList.forM fun parent => require (nodes.get parent).isSome (.parentMissing parent id)
  children.forM fun child => require (nodes.get child).isSome (.childMissing child id)

def validateParentChildRelations (parent : Node → Option Id) (children : Node → List Id)
    (nodes : LinkedMap Id Node) : Except (ValidationFault Id) Unit :=
  nodes.entries.forM fun entry => validateNode nodes entry.1 (parent entry.2) (children entry.2)

def validateMemento (memento : BrooklynMementoImpl Id Rest) :
    Except (ValidationFault Id) Unit := do
  validateParentChildRelations (·.parent) (·.children) memento.locations
  validateParentChildRelations (·.parent) (·.children) memento.entities
  memento.entities.entries.forM fun entry => entry.2.locations.forM fun location =>
    require (memento.locations.get location).isSome (.locationMissing location entry.1)

end Validation

/-- It throws when the memento is not valid; the bound is on the search for locations. -/
def newBrooklynMemento [DecidableEq Id] (managed : Managed Entity Rest kinds)
    (bound : Nat) : Option (Except (ValidationFault Id) (BrooklynMementoImpl Id Rest)) :=
  (managed.generate bound).map fun result => do
    validateMemento result
    return result

section Outcomes
variable {Fault Item : Type}

theorem bind_ok_iff (first : Except Fault Unit) (second : Except Fault Unit) :
    (first >>= fun _ => second) = .ok () ↔ first = .ok () ∧ second = .ok () := by
  cases first with
  | error fault => exact iff_of_false nofun fun both => nomatch both.1
  | ok value => exact (and_iff_right rfl).symm

theorem forM_ok_iff (items : List Item) (check : Item → Except Fault Unit) :
    items.forM check = .ok () ↔ ∀ item ∈ items, check item = .ok () := by
  induction items with
  | nil => exact iff_of_true rfl fun _ none => absurd none List.not_mem_nil
  | cons item rest ih =>
    change (check item >>= fun _ => rest.forM check) = .ok () ↔ _
    rw [bind_ok_iff, ih, List.forall_mem_cons]

theorem require_ok_iff (present : Bool) (fault : ValidationFault Id) :
    require present fault = .ok () ↔ present = true := by
  cases present with
  | false => exact iff_of_false nofun nofun
  | true => exact iff_of_true rfl rfl

end Outcomes

section Meaning

/-- The parents and the children have nodes of their own. -/
def RelationsClosed {Node : Type} (parent : Node → Option Id) (children : Node → List Id)
    (nodes : LinkedMap Id Node) : Prop :=
  ∀ id node, nodes.get id = some node →
    (∀ other, parent node = some other → (nodes.get other).isSome) ∧
      ∀ child ∈ children node, (nodes.get child).isSome

theorem validateParentChildRelations_ok_iff {Node : Type} (parent : Node → Option Id)
    (children : Node → List Id) (nodes : LinkedMap Id Node) :
    validateParentChildRelations parent children nodes = .ok () ↔
      RelationsClosed parent children nodes := by
  unfold validateParentChildRelations RelationsClosed
  simp only [forM_ok_iff, Prod.forall, LinkedMap.mem_entries, validateNode, bind_ok_iff,
    require_ok_iff, Option.mem_toList]

/-- The locations of the entities have mementos. -/
def LocationsClosed (memento : BrooklynMementoImpl Id Rest) : Prop :=
  ∀ id entity, memento.entities.get id = some entity →
    ∀ location ∈ entity.locations, (memento.locations.get location).isSome

theorem validateMemento_ok_iff (memento : BrooklynMementoImpl Id Rest) :
    validateMemento memento = .ok () ↔
      RelationsClosed (·.parent) (·.children) memento.locations ∧
        RelationsClosed (·.parent) (·.children) memento.entities ∧ LocationsClosed memento := by
  unfold validateMemento LocationsClosed
  rw [bind_ok_iff, bind_ok_iff, validateParentChildRelations_ok_iff,
    validateParentChildRelations_ok_iff]
  simp only [forM_ok_iff, Prod.forall, LinkedMap.mem_entries, require_ok_iff]

/-- Every id that a memento names has a memento of its own, the members of groups included. -/
structure ReferenceClosed (memento : BrooklynMementoImpl Id Rest) : Prop where
  locations : RelationsClosed (·.parent) (·.children) memento.locations
  entities : RelationsClosed (·.parent) (·.children) memento.entities
  entityLocations : LocationsClosed memento
  members : ∀ id entity, memento.entities.get id = some entity →
    ∀ member ∈ entity.members, (memento.entities.get member).isSome

end Meaning

section Trees
open Acyclicity Relation
variable (tree : LocationWorld kinds)

def Has (parent child : Ref) : Prop := child ∈ tree.childLocations parent

/-- Parents and children agree, there is no loop, and the ids are unique. -/
structure Forest : Prop where
  linked : tree.Linked
  ending : tree.Ending
  unique : Function.Injective kinds.id

variable {tree}

theorem Forest.root_above (forest : Forest tree) (location : Ref) :
    ∃ root, tree.parentLocation root = none ∧ ReflTransGen (Has tree) root location := by
  induction forest.ending.up location with
  | intro location _ ih =>
    cases parented : tree.parentLocation location with
    | none => exact ⟨location, parented, .refl⟩
    | some parent =>
      obtain ⟨root, top, above⟩ := ih parent (Or.inl parented)
      exact ⟨root, top, above.tail ((forest.linked parent location).mpr parented)⟩

/-- The parent of a location is above whatever is above the location itself. -/
theorem Forest.above_parent (forest : Forest tree) {top location parent : Ref}
    (above : ReflTransGen (Has tree) top location) (different : location ≠ top)
    (parented : tree.parentLocation location = some parent) :
    ReflTransGen (Has tree) top parent := by
  rcases above.cases_tail with same | ⟨other, above, has⟩
  · exact absurd same different
  · have listed := (forest.linked other location).mp has
    rw [parented] at listed
    cases listed
    exact above

variable [DecidableEq Id]

theorem mem_add_iff (unique : Function.Injective kinds.id) (set : KeyedSet kinds.id)
    (element other : Ref) :
    other ∈ (set.add element).elements ↔ other ∈ set.elements ∨ other = element := by
  refine ⟨KeyedSet.mem_add, ?_⟩
  unfold KeyedSet.add
  intro member
  split
  · simpa using member
  next present =>
    rcases member with there | rfl
    · exact there
    · obtain ⟨same, there, equal⟩ := KeyedSet.contains_iff.mp (Bool.not_eq_false _ ▸ present)
      exact unique equal ▸ there

/-- What is found is what was found before, and all that is below what is to be visited. -/
theorem visit_found (unique : Function.Injective kinds.id) {bound : Nat} {tovisit : List Ref}
    {result found : KeyedSet kinds.id} (visited : tree.visit bound tovisit result = some found)
    (location : Ref) : location ∈ found.elements ↔ location ∈ result.elements ∨
      ∃ top ∈ tovisit, ReflTransGen (Has tree) top location := by
  induction bound generalizing tovisit result with
  | zero => cases visited
  | succ bound ih =>
    cases tovisit with
    | nil =>
      obtain rfl := Option.some.inj visited
      simp
    | cons current tovisit =>
      rw [ih visited, mem_add_iff unique, or_assoc]
      refine or_congr_right ?_
      rw [List.exists_mem_cons_iff]
      simp only [List.foldl_flip_cons_eq_append, List.map_id_fun', id_eq, List.mem_append,
        List.mem_reverse, or_and_right, exists_or]
      rw [← or_assoc]
      refine or_congr_left ?_
      rw [ReflTransGen.cases_head_iff, @eq_comm _ current]
      rfl

theorem visit_more {bound more : Nat} (enough : bound ≤ more) {tovisit : List Ref}
    {result found : KeyedSet kinds.id} (visited : tree.visit bound tovisit result = some found) :
    tree.visit more tovisit result = some found := by
  induction bound generalizing more tovisit result with
  | zero => cases visited
  | succ bound ih =>
    obtain ⟨more, rfl⟩ : ∃ fewer, more = fewer + 1 := ⟨more - 1, by omega⟩
    cases tovisit with
    | nil => exact visited
    | cons current tovisit =>
      rw [LocationWorld.visit] at visited ⊢
      exact ih (by omega) visited

end Trees

section Saving
open Relation
variable [DecidableEq Id] {managed : Managed Entity Rest kinds}

/-- The saved locations are the attached ones and all that is below them. -/
structure Saved (managed : Managed Entity Rest kinds) (attached : Ref → Prop)
    (builder : BrooklynMementoImpl Id Rest) : Prop where
  keyed : ∀ id memento, builder.locations.get id = some memento →
    ∃ location, kinds.id location = id ∧ memento = managed.newLocationMemento location
  below : ∀ location, (builder.locations.get (kinds.id location)).isSome ↔
    ∃ top, attached top ∧ ReflTransGen (Has managed.tree) top location

theorem putLocations (unique : Function.Injective kinds.id) (found : List Ref)
    {builder : BrooklynMementoImpl Id Rest} (keyed : ∀ id memento,
      builder.locations.get id = some memento →
        ∃ location, kinds.id location = id ∧ memento = managed.newLocationMemento location) :
    (∀ id memento, (found.foldl managed.putLocation builder).locations.get id = some memento →
        ∃ location, kinds.id location = id ∧ memento = managed.newLocationMemento location) ∧
      (∀ location, ((found.foldl managed.putLocation builder).locations.get
          (kinds.id location)).isSome ↔
        (builder.locations.get (kinds.id location)).isSome ∨ location ∈ found) ∧
      (found.foldl managed.putLocation builder).entities = builder.entities := by
  induction found generalizing builder with
  | nil => exact ⟨keyed, by simp, rfl⟩
  | cons first rest ih =>
    have put : ∀ id memento, (managed.putLocation builder first).locations.get id = some memento →
        ∃ location, kinds.id location = id ∧ memento = managed.newLocationMemento location := by
      intro id memento found
      rw [Managed.putLocation, LinkedMap.get_put] at found
      split at found
      · next same => exact ⟨first, same.symm, (Option.some.inj found).symm⟩
      · exact keyed id memento found
    obtain ⟨after, saved, entities⟩ := ih put
    refine ⟨after, fun location => ?_, entities⟩
    rw [List.foldl_cons, saved, Managed.putLocation, LinkedMap.get_put, List.mem_cons, ← or_assoc]
    refine or_congr_left ?_
    by_cases same : location = first
    · simp [same]
    · simp [same, unique.ne same]

theorem Saved.saveLocation (forest : Forest managed.tree) {attached : Ref → Prop}
    {builder after : BrooklynMementoImpl Id Rest} (saved : Saved managed attached builder)
    {bound : Nat} {location : Ref}
    (done : managed.saveLocation bound builder location = some after) :
    Saved managed (fun top => attached top ∨ top = location) after ∧
      after.entities = builder.entities := by
  unfold Managed.saveLocation at done
  split at done
  · next already =>
    obtain rfl := Option.some.inj done
    obtain ⟨higher, was, above⟩ := (saved.below location).mp already
    refine ⟨⟨saved.keyed, fun other => (saved.below other).trans ?_⟩, rfl⟩
    constructor
    · rintro ⟨top, there, way⟩
      exact ⟨top, Or.inl there, way⟩
    · rintro ⟨top, there | rfl, way⟩
      · exact ⟨top, there, way⟩
      · exact ⟨higher, was, above.trans way⟩
  · obtain ⟨found, visited, rfl⟩ := Option.map_eq_some_iff.mp done
    obtain ⟨keyed, put, entities⟩ := putLocations forest.unique found.elements saved.keyed
    refine ⟨⟨keyed, fun other => ?_⟩, entities⟩
    rw [put, saved.below, visit_found forest.unique visited]
    constructor
    · rintro (⟨top, there, way⟩ | none | ⟨top, is, way⟩)
      · exact ⟨top, Or.inl there, way⟩
      · exact absurd none List.not_mem_nil
      · exact ⟨top, Or.inr (List.mem_singleton.mp is), way⟩
    · rintro ⟨top, there | is, way⟩
      · exact Or.inl ⟨top, there, way⟩
      · exact Or.inr (Or.inr ⟨top, List.mem_singleton.mpr is, way⟩)

theorem Saved.saveLocations (forest : Forest managed.tree) {attached : Ref → Prop}
    {builder after : BrooklynMementoImpl Id Rest} (saved : Saved managed attached builder)
    {bound : Nat} {locations : List Ref}
    (done : locations.foldlM (managed.saveLocation bound) builder = some after) :
    Saved managed (fun top => attached top ∨ top ∈ locations) after ∧
      after.entities = builder.entities := by
  induction locations generalizing attached builder with
  | nil =>
    obtain rfl := Option.some.inj done
    simpa using saved
  | cons first rest ih =>
    rw [List.foldlM_cons] at done
    obtain ⟨middle, moved, done⟩ := Option.bind_eq_some_iff.mp done
    obtain ⟨saved, same⟩ := saved.saveLocation forest moved
    obtain ⟨saved, entities⟩ := ih saved done
    refine ⟨?_, entities.trans same⟩
    simpa only [or_assoc, List.mem_cons] using saved

/-- The entities so far have mementos, and no other. -/
structure SavedAll (managed : Managed Entity Rest kinds) (entities : Entity → Prop)
    (builder : BrooklynMementoImpl Id Rest) : Prop where
  locations : Saved managed
    (fun top => ∃ entity, entities entity ∧ top ∈ managed.getLocations entity) builder
  keyed : ∀ id memento, builder.entities.get id = some memento →
    ∃ entity, entities entity ∧ memento = managed.newEntityMemento entity
  saved : ∀ entity, entities entity → (builder.entities.get (managed.id entity)).isSome

theorem SavedAll.saveEntity (forest : Forest managed.tree) {entities : Entity → Prop}
    {builder after : BrooklynMementoImpl Id Rest} (saved : SavedAll managed entities builder)
    {bound : Nat} {entity : Entity}
    (done : managed.saveEntity bound builder entity = some after) :
    SavedAll managed (fun other => entities other ∨ other = entity) after := by
  have put : Saved managed (fun top => ∃ entity, entities entity ∧
      top ∈ managed.getLocations entity)
      { builder with entities :=
          builder.entities.put (managed.id entity) (managed.newEntityMemento entity) } :=
    ⟨saved.locations.keyed, saved.locations.below⟩
  obtain ⟨locations, same⟩ := put.saveLocations forest done
  constructor
  · simpa only [or_and_right, exists_or, exists_eq_left] using locations
  · intro id memento found
    rw [same, LinkedMap.get_put] at found
    split at found
    · exact ⟨entity, Or.inr rfl, (Option.some.inj found).symm⟩
    · obtain ⟨other, there, is⟩ := saved.keyed id memento found
      exact ⟨other, Or.inl there, is⟩
  · intro other there
    rw [same, LinkedMap.get_put]
    split
    · rfl
    · next different =>
      rcases there with there | rfl
      · exact saved.saved other there
      · exact absurd rfl different

theorem SavedAll.saveEntities (forest : Forest managed.tree) {entities : Entity → Prop}
    {builder after : BrooklynMementoImpl Id Rest} (saved : SavedAll managed entities builder)
    {bound : Nat} {others : List Entity}
    (done : others.foldlM (managed.saveEntity bound) builder = some after) :
    SavedAll managed (fun other => entities other ∨ other ∈ others) after := by
  induction others generalizing entities builder with
  | nil =>
    obtain rfl := Option.some.inj done
    simpa using saved
  | cons first rest ih =>
    rw [List.foldlM_cons] at done
    obtain ⟨middle, moved, done⟩ := Option.bind_eq_some_iff.mp done
    simpa only [or_assoc, List.mem_cons] using ih (saved.saveEntity forest moved) done

theorem generate_saved (forest : Forest managed.tree) {bound : Nat}
    {result : BrooklynMementoImpl Id Rest} (generated : managed.generate bound = some result) :
    SavedAll managed (· ∈ managed.entities) result := by
  obtain ⟨builder, done, rfl⟩ := Option.map_eq_some_iff.mp generated
  have start : SavedAll managed (fun _ => False)
      { BrooklynMementoImpl.builder with
        applicationIds := managed.applications.map managed.id } :=
    ⟨⟨nofun, fun location => by simp [BrooklynMementoImpl.builder]⟩, nofun, nofun⟩
  have saved := start.saveEntities forest done
  simp only [false_or] at saved
  exact ⟨⟨saved.locations.keyed, saved.locations.below⟩, saved.keyed, saved.saved⟩

/-- Every root above an attached location is attached. -/
def RootsAttached (tree : LocationWorld kinds) (attached : Ref → Prop) : Prop :=
  ∀ location root, attached location → tree.parentLocation root = none →
    ReflTransGen (Has tree) root location → attached root

omit [DecidableEq Id] in
theorem Saved.closed_iff (forest : Forest managed.tree) {attached : Ref → Prop}
    {result : BrooklynMementoImpl Id Rest} (saved : Saved managed attached result) :
    RelationsClosed (·.parent) (·.children) result.locations ↔
      RootsAttached managed.tree attached := by
  constructor
  · intro closed location root there top way
    -- every location on the way up from an attached one is saved
    have isSaved (above : Ref) (way : ReflTransGen (Has managed.tree) above location) :
        (result.locations.get (kinds.id above)).isSome := by
      induction way using ReflTransGen.head_induction_on with
      | refl => exact (saved.below location).mpr ⟨location, there, .refl⟩
      | @head above child has _ ih =>
        obtain ⟨memento, found⟩ := Option.isSome_iff_exists.mp ih
        obtain ⟨other, same, rfl⟩ := saved.keyed _ memento found
        obtain rfl := forest.unique same
        refine (closed _ _ found).1 _ ?_
        rw [Managed.newLocationMemento, (forest.linked above other).mp has]
        rfl
    obtain ⟨attachedTop, was, above⟩ := (saved.below root).mp (isSaved root way)
    rcases above.cases_tail with rfl | ⟨other, -, has⟩
    · exact was
    · rw [(forest.linked other root).mp has] at top
      cases top
  · intro attachedRoots id memento found
    obtain ⟨location, rfl, rfl⟩ := saved.keyed id memento found
    obtain ⟨top, was, way⟩ := (saved.below location).mp (by rw [found]; rfl)
    refine ⟨fun other named => ?_, fun child named => ?_⟩
    · obtain ⟨parent, parented, rfl⟩ := Option.map_eq_some_iff.mp named
      refine (saved.below parent).mpr ?_
      by_cases same : location = top
      · subst same
        obtain ⟨root, rootless, above⟩ := forest.root_above location
        have different : location ≠ root := by
          rintro rfl
          rw [rootless] at parented
          cases parented
        exact ⟨root, attachedRoots location root was rootless above,
          forest.above_parent above different parented⟩
      · exact ⟨top, was, forest.above_parent way same parented⟩
    · obtain ⟨below, has, rfl⟩ := List.mem_map.mp named
      exact (saved.below below).mpr ⟨top, was, way.tail has⟩

end Saving

section Endings
variable {Built Item : Type}

/-- From some bound on it has one result. -/
def Returns (run : Nat → Option Built) : Prop :=
  ∃ bound result, ∀ more, bound ≤ more → run more = some result

theorem Returns.foldlM {step : Nat → Built → Item → Option Built}
    (each : ∀ built item, Returns fun bound => step bound built item) (items : List Item)
    (built : Built) : Returns fun bound => items.foldlM (step bound) built := by
  induction items generalizing built with
  | nil => exact ⟨0, built, fun _ _ => rfl⟩
  | cons item rest ih =>
    obtain ⟨first, middle, stepped⟩ := each built item
    obtain ⟨second, result, ended⟩ := ih middle
    refine ⟨max first second, result, fun more enough => ?_⟩
    dsimp only at stepped ended ⊢
    rw [List.foldlM_cons, stepped more (by omega)]
    exact ended more (by omega)

variable [DecidableEq Id] {managed : Managed Entity Rest kinds}

theorem saveLocation_returns (forest : Forest managed.tree) (builder : BrooklynMementoImpl Id Rest)
    (location : Ref) : Returns fun bound => managed.saveLocation bound builder location := by
  unfold Managed.saveLocation
  by_cases already : (builder.locations.get (kinds.id location)).isSome
  · exact ⟨0, builder, fun _ _ => if_pos already⟩
  · obtain ⟨bound, found, visited⟩ := LocationWorld.visit_ends forest.ending location []
      (fun result => ⟨1, result, rfl⟩) .empty
    refine ⟨bound, found.elements.foldl managed.putLocation builder, fun more enough => ?_⟩
    dsimp only
    rw [if_neg already, LocationWorld.findLocationsInHierarchy, visit_more enough visited]
    rfl

theorem generate_returns (forest : Forest managed.tree) :
    ∃ bound result, managed.generate bound = some result := by
  obtain ⟨bound, builder, done⟩ := Returns.foldlM
    (fun builder entity => Returns.foldlM (saveLocation_returns forest)
      (managed.getLocations entity) _) managed.entities
    { BrooklynMementoImpl.builder with applicationIds := managed.applications.map managed.id }
  exact ⟨bound, _, congrArg (Option.map _) (done bound (Nat.le_refl bound))⟩

end Endings

section Closure
variable {managed : Managed Entity Rest kinds}

namespace Managed
variable (managed : Managed Entity Rest kinds)

/-- Owners, owned children and members of what is managed are managed. -/
structure ClosedEntities : Prop where
  owner : ∀ entity ∈ managed.entities, ∀ owner, managed.owner entity = some owner →
    owner ∈ managed.entities
  children : ∀ entity ∈ managed.entities, ∀ child ∈ managed.ownedChildren entity,
    child ∈ managed.entities
  members : ∀ entity ∈ managed.entities, managed.isGroup entity = true →
    ∀ member ∈ managed.members entity, member ∈ managed.entities

def Attached (location : Ref) : Prop :=
  ∃ entity, entity ∈ managed.entities ∧ location ∈ managed.getLocations entity

end Managed

theorem SavedAll.referenceClosed_iff (closed : managed.ClosedEntities)
    (forest : Forest managed.tree) {result : BrooklynMementoImpl Id Rest}
    (saved : SavedAll managed (· ∈ managed.entities) result) :
    ReferenceClosed result ↔ RootsAttached managed.tree managed.Attached := by
  refine ⟨fun all => (saved.locations.closed_iff forest).mp all.locations, fun attachedRoots => ?_⟩
  refine ⟨(saved.locations.closed_iff forest).mpr attachedRoots, fun id memento found => ?_,
    fun id memento found location named => ?_, fun id memento found member named => ?_⟩
  · obtain ⟨entity, there, rfl⟩ := saved.keyed id memento found
    refine ⟨fun other named => ?_, fun other named => ?_⟩
    · obtain ⟨owner, owned, rfl⟩ := Option.map_eq_some_iff.mp named
      exact saved.saved owner (closed.owner entity there owner owned)
    · obtain ⟨child, listed, rfl⟩ := List.mem_map.mp named
      exact saved.saved child (closed.children entity there child listed)
  · obtain ⟨entity, there, rfl⟩ := saved.keyed id memento found
    obtain ⟨top, listed, rfl⟩ := List.mem_map.mp named
    exact (saved.locations.below top).mpr ⟨top, ⟨entity, there, listed⟩, .refl⟩
  · obtain ⟨entity, there, rfl⟩ := saved.keyed id memento found
    rw [Managed.newEntityMemento] at named
    split at named
    · next group =>
      obtain ⟨other, listed, rfl⟩ := List.mem_map.mp named
      exact saved.saved other (closed.members entity there group other listed)
    · exact absurd named List.not_mem_nil

variable [DecidableEq Id]

theorem newBrooklynMemento_ok (forest : Forest managed.tree) {bound : Nat}
    {memento : BrooklynMementoImpl Id Rest}
    (returned : newBrooklynMemento managed bound = some (.ok memento)) :
    SavedAll managed (· ∈ managed.entities) memento := by
  obtain ⟨result, generated, validated⟩ := Option.map_eq_some_iff.mp returned
  cases valid : validateMemento result with
  | error fault =>
    rw [valid] at validated
    cases validated
  | ok value =>
    rw [valid] at validated
    cases validated
    exact generate_saved forest generated

/-- The roots of the trees that entities are attached to are attached themselves. -/
theorem newBrooklynMemento_closed_iff (closed : managed.ClosedEntities)
    (forest : Forest managed.tree) :
    (∃ bound memento, newBrooklynMemento managed bound = some (.ok memento) ∧
        ReferenceClosed memento) ↔
      RootsAttached managed.tree managed.Attached := by
  constructor
  · rintro ⟨bound, memento, returned, all⟩
    exact ((newBrooklynMemento_ok forest returned).referenceClosed_iff closed forest).mp all
  · intro attachedRoots
    obtain ⟨bound, result, generated⟩ := generate_returns forest
    have all := ((generate_saved forest generated).referenceClosed_iff closed forest).mpr
      attachedRoots
    refine ⟨bound, result, ?_, all⟩
    have valid := (validateMemento_ok_iff result).mpr
      ⟨all.locations, all.entities, all.entityLocations⟩
    unfold newBrooklynMemento
    rw [generated, Option.map_some, valid]
    rfl

end Closure

section Examples

/-- A location `0` with the child `1`, and an entity with some of the two. -/
def house (getLocations : List Nat) :
    Managed Unit Unit (⟨id, fun _ => false, fun _ => false⟩ : LocationKinds Nat Nat) where
  applications := [()]
  entities := [()]
  id _ := 0
  isApplication _ := true
  isGroup _ := false
  owner _ := none
  ownedChildren _ := []
  members _ := []
  getLocations _ := getLocations
  entityRest _ := ()
  tree :=
    { parentLocation := fun location => if location = 1 then some 0 else none
      childLocations := fun location => if location = 0 then [1] else []
      machines := fun _ => .empty
      inUse := fun _ => .empty }
  locationRest _ := ()

theorem house_forest (getLocations : List Nat) : Forest (house getLocations).tree := by
  have below {child parent : Nat} (is : (house getLocations).tree.Below child parent) :
      child = 1 ∧ parent = 0 := by
    rcases is with parented | listed
    · dsimp only [house] at parented
      split at parented
      · next same => exact ⟨same, (Option.some.inj parented).symm⟩
      · cases parented
    · dsimp only [house] at listed
      split at listed
      · next same => exact ⟨List.mem_singleton.mp listed, same⟩
      · exact absurd listed List.not_mem_nil
  have apart (start finish : Nat) (different : start ≠ finish) :
      ¬ Relation.ReflTransGen (fun _ _ => False) start finish := by
    intro way
    rcases way.cases_head with same | ⟨_, none, _⟩
    · exact different same
    · exact none
  refine ⟨fun location child => ?_, ⟨?_, ?_⟩, fun _ _ same => same⟩
  · dsimp only [house]
    by_cases root : location = 0 <;> by_cases leaf : child = 1 <;> simp [root, leaf, eq_comm]
  · exact (Acyclicity.ends_withLink Acyclicity.ends_empty (apart 0 1 (by decide))).mono
      fun child parent is => Or.inr (below is)
  · exact (Acyclicity.ends_withLink Acyclicity.ends_empty (apart 1 0 (by decide))).mono
      fun parent child is => Or.inr (below is).symm

theorem house_closed (getLocations : List Nat) : (house getLocations).ClosedEntities where
  owner := fun _ _ _ none => by cases none
  children := fun _ _ _ none => absurd none List.not_mem_nil
  members := fun _ _ group => by cases group

/-- The entity is attached to the root and to its child. -/
theorem house_saved : ∃ bound memento,
    newBrooklynMemento (house [1, 0]) bound = some (.ok memento) ∧ ReferenceClosed memento := by
  refine (newBrooklynMemento_closed_iff (house_closed _) (house_forest _)).mpr ?_
  rintro location root ⟨entity, managed, listed⟩ rootless way
  refine ⟨(), List.mem_singleton_self _, ?_⟩
  have isRoot : root ≠ 1 := by
    rintro rfl
    cases rootless
  rcases way.cases_head with rfl | ⟨child, has, -⟩
  · exact listed
  · by_cases same : root = 0
    · simp [house, same]
    · simp [Has, house, same] at has

/-- The entity is attached to the child alone, whose parent is not saved. -/
theorem parent_missing : ¬ ∀ managed : Managed Unit Unit
    (⟨id, fun _ => false, fun _ => false⟩ : LocationKinds Nat Nat),
    managed.ClosedEntities → Forest managed.tree →
      ∃ bound memento, newBrooklynMemento managed bound = some (.ok memento) ∧
        ReferenceClosed memento := by
  intro claimed
  obtain ⟨bound, memento, returned, all⟩ := claimed _ (house_closed [1]) (house_forest [1])
  have saved := newBrooklynMemento_ok (house_forest [1]) returned
  have way : Relation.ReflTransGen (Has (house [1]).tree) 0 1 := .single (by simp [Has, house])
  obtain ⟨entity, -, listed⟩ := (saved.referenceClosed_iff (house_closed [1]) (house_forest [1])).mp
    all 1 0 ⟨(), List.mem_singleton_self _, List.mem_singleton_self _⟩ rfl way
  simp [house] at listed

end Examples

end Mementos
end Brooklyn
