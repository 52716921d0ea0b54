import Brooklyn.MementoPersisters
import Brooklyn.MutableBrooklynMemento

/-!
`loadMemento` of the persister that writes files: the files of the three directories are read
into a builder, except those that the filter does not accept. What the serializer makes of a
file is what was written to it. The builder is told of the applications, but never of the
locations that are at the top.
-/

namespace Brooklyn

variable {Id Rest : Type}

/-- What goes wrong with a file. -/
inductive LoadError where
  | fileNotFound
  | classCast
deriving DecidableEq

namespace Memento

/-- What three maps hold under the name of a file. -/
def stored (entities : LinkedMap Id (EntityMemento Id Rest))
    (locations : LinkedMap Id (LocationMemento Id Rest))
    (policies : LinkedMap Id (PolicyMemento Id Rest)) : FileName Id → Option (Memento Id Rest)
  | (.entities, id) => (entities.get id).map .entity
  | (.locations, id) => (locations.get id).map .location
  | (.policies, id) => (policies.get id).map .policy

def asEntity : Memento Id Rest → Option (EntityMemento Id Rest)
  | .entity memento => some memento
  | _ => none

def asLocation : Memento Id Rest → Option (LocationMemento Id Rest)
  | .location memento => some memento
  | _ => none

def asPolicy : Memento Id Rest → Option (PolicyMemento Id Rest)
  | .policy memento => some memento
  | _ => none

end Memento

def BrooklynMemento.stored (memento : BrooklynMemento Id Rest) :
    FileName Id → Option (Memento Id Rest) :=
  Memento.stored memento.entities memento.locations memento.policies

/-! `BrooklynMementoImpl.Builder`, which is here what it builds. -/
namespace BrooklynMementoImpl
variable [DecidableEq Id]

def builder : BrooklynMemento Id Rest := .empty

def applicationId (builder : BrooklynMemento Id Rest) (val : Id) : BrooklynMemento Id Rest :=
  { builder with applicationIds := builder.applicationIds ++ [val] }

theorem keyed_put {Value : Type} {map : LinkedMap Id Value} {key : Value → Id}
    (keyed : ∀ id value, map.get id = some value → key value = id) (val : Value) (id : Id)
    (value : Value) (found : (map.put (key val) val).get id = some value) : key value = id := by
  rw [LinkedMap.get_put] at found
  split at found
  · next same =>
    cases found
    exact same.symm
  · exact keyed id value found

def entity (builder : BrooklynMemento Id Rest) (val : EntityMemento Id Rest) :
    BrooklynMemento Id Rest :=
  { builder with
    entities := builder.entities.put val.id val
    entitiesKeyed := keyed_put builder.entitiesKeyed val }

def location (builder : BrooklynMemento Id Rest) (val : LocationMemento Id Rest) :
    BrooklynMemento Id Rest :=
  { builder with
    locations := builder.locations.put val.id val
    locationsKeyed := keyed_put builder.locationsKeyed val }

def policy (builder : BrooklynMemento Id Rest) (val : PolicyMemento Id Rest) :
    BrooklynMemento Id Rest :=
  { builder with
    policies := builder.policies.put val.id val
    policiesKeyed := keyed_put builder.policiesKeyed val }

end BrooklynMementoImpl

namespace BrooklynMementoPersisterToMultiFile
variable [DecidableEq Id]

/-- The content of a file, cast to what its directory is for. -/
def readMemento {Item : Type} (files : FileName Id → Option (Memento Id Rest))
    (cast : Memento Id Rest → Option Item) (name : FileName Id) : Except LoadError Item :=
  match files name with
  | none => .error .fileNotFound
  | some memento =>
    match cast memento with
    | none => .error .classCast
    | some item => .ok item

/-- One loop over the files of a directory. -/
def loadEach {Builder Item : Type} (add : Builder → Item → Builder)
    (read : Id → Except LoadError Item) (builder : Builder) (files : List Id) :
    Except LoadError Builder :=
  files.foldlM (fun builder file => (read file).map (add builder)) builder

def loadEntity (builder : BrooklynMemento Id Rest) (memento : EntityMemento Id Rest) :
    BrooklynMemento Id Rest :=
  let builder := BrooklynMementoImpl.entity builder memento
  if memento.isTopLevelApp then BrooklynMementoImpl.applicationId builder memento.id else builder

/-- What the file filter accepts: no temporary file of a writer passes it. -/
def fileFilter (name : String) : Bool :=
  !".tmp".toList.isSuffixOf name.toList

def loadMemento (accept : Id → Bool) (listFiles : Directory → List Id)
    (files : FileName Id → Option (Memento Id Rest)) :
    Except LoadError (BrooklynMemento Id Rest) := do
  let entityFiles := (listFiles .entities).filter accept
  let locationFiles := (listFiles .locations).filter accept
  let policyFiles := (listFiles .policies).filter accept
  let builder ← loadEach loadEntity
    (fun file => readMemento files Memento.asEntity (.entities, file))
    BrooklynMementoImpl.builder entityFiles
  let builder ← loadEach BrooklynMementoImpl.location
    (fun file => readMemento files Memento.asLocation (.locations, file)) builder locationFiles
  loadEach BrooklynMementoImpl.policy
    (fun file => readMemento files Memento.asPolicy (.policies, file)) builder policyFiles

/-! What a load of well-named files finds. -/
section Loading

/-- Each file is the one for what it holds. -/
def Named (files : FileName Id → Option (Memento Id Rest)) : Prop :=
  ∀ name memento, files name = some memento → memento.fileFor = name

/-- The directories list the files that are there, and perhaps some that are not accepted. -/
def Lists (accept : Id → Bool) (listFiles : Directory → List Id)
    (files : FileName Id → Option (Memento Id Rest)) : Prop :=
  ∀ directory id, accept id = true →
    (id ∈ listFiles directory ↔ (files (directory, id)).isSome = true)

/-- What a load sees under a name. -/
def shown (accept : Id → Bool) (files : FileName Id → Option (Memento Id Rest))
    (name : FileName Id) : Option (Memento Id Rest) :=
  if accept name.2 then files name else none

variable {Item : Type}

/-- The items are the contents of the files, one after another. -/
def Reads (content : Id → Option Item) (key : Item → Id) : List Id → List Item → Prop :=
  List.Forall₂ fun file item => content file = some item ∧ key item = file

omit [DecidableEq Id] in
theorem readMemento_ok_iff (files : FileName Id → Option (Memento Id Rest))
    (cast : Memento Id Rest → Option Item) (name : FileName Id) (item : Item) :
    readMemento files cast name = .ok item ↔ (files name).bind cast = some item := by
  unfold readMemento
  cases files name with
  | none => simp
  | some memento => cases castable : cast memento <;> simp [castable]

omit [DecidableEq Id] in
theorem loadEach_reads {Builder : Type} (add : Builder → Item → Builder)
    {files : FileName Id → Option (Memento Id Rest)} {cast : Memento Id Rest → Option Item}
    {directory : Directory} {key : Item → Id} {names : List Id} {items : List Item}
    (reads : Reads (fun id => (files (directory, id)).bind cast) key names items)
    (builder : Builder) :
    loadEach add (fun file => readMemento files cast (directory, file)) builder names =
      .ok (items.foldl add builder) := by
  induction reads generalizing builder with
  | nil => rfl
  | cons first rest ih =>
    rw [loadEach, List.foldlM_cons, (readMemento_ok_iff ..).mpr first.1]
    exact ih _

section Files
variable {content : Id → Option Item} {key : Item → Id} {files : List Id} {items : List Item}

omit [DecidableEq Id] in
theorem mem_of_reads (reads : Reads content key files items) (item : Item) :
    item ∈ items ↔ key item ∈ files ∧ content (key item) = some item := by
  induction reads with
  | nil => simp
  | cons first _ ih =>
    obtain ⟨found, rfl⟩ := first
    rw [List.mem_cons, List.mem_cons, ih]
    constructor
    · rintro (rfl | ⟨member, found⟩)
      · exact ⟨Or.inl rfl, found⟩
      · exact ⟨Or.inr member, found⟩
    · rintro ⟨same | member, there⟩
      · rw [same, found] at there
        cases there
        exact Or.inl rfl
      · exact Or.inr ⟨member, there⟩

theorem get_of_reads (reads : Reads content key files items) (map : LinkedMap Id Item) (id : Id) :
    (items.foldl (fun map item => map.put (key item) item) map).get id =
      if id ∈ files then content id else map.get id := by
  induction reads generalizing map with
  | nil => simp
  | @cons file item _ _ first _ ih =>
    obtain ⟨found, rfl⟩ := first
    refine (ih _).trans ?_
    rw [LinkedMap.get_put]
    by_cases here : id = key item
    · subst here
      simp [found]
    · simp [here]

end Files

theorem mem_loadEntity (builder : BrooklynMemento Id Rest) (items : List (EntityMemento Id Rest))
    (id : Id) : id ∈ (items.foldl loadEntity builder).applicationIds ↔
      id ∈ builder.applicationIds ∨ ∃ item ∈ items, item.id = id ∧ item.isTopLevelApp = true := by
  induction items generalizing builder with
  | nil => simp
  | cons item rest ih =>
    refine (ih _).trans ?_
    by_cases top : item.isTopLevelApp = true
    · simp [loadEntity, BrooklynMementoImpl.applicationId, BrooklynMementoImpl.entity, top,
        or_assoc, @eq_comm _ id]
    · simp [loadEntity, BrooklynMementoImpl.entity, top]

/-- A loop that puts its items into one of the maps. -/
theorem foldl_puts {Builder : Type} (view : Builder → LinkedMap Id Item) {key : Item → Id}
    {add : Builder → Item → Builder}
    (puts : ∀ builder item, view (add builder item) = (view builder).put (key item) item)
    (builder : Builder) (items : List Item) : view (items.foldl add builder) =
      items.foldl (fun map item => map.put (key item) item) (view builder) :=
  (List.foldl_hom view fun builder item => (puts builder item).symm).symm

/-- What the three loops build. -/
def built (entities : List (EntityMemento Id Rest)) (locations : List (LocationMemento Id Rest))
    (policies : List (PolicyMemento Id Rest)) : BrooklynMemento Id Rest :=
  policies.foldl BrooklynMementoImpl.policy
    (locations.foldl BrooklynMementoImpl.location
      (entities.foldl loadEntity BrooklynMementoImpl.builder))

section Built
open MutableBrooklynMemento (view_unchanged)
variable (entities : List (EntityMemento Id Rest)) (locations : List (LocationMemento Id Rest))
  (policies : List (PolicyMemento Id Rest))

/-- The later loops leave what they do not put. -/
theorem built_view {View : Type} (view : BrooklynMemento Id Rest → View)
    (byLocation : ∀ builder item, view (BrooklynMementoImpl.location builder item) = view builder)
    (byPolicy : ∀ builder item, view (BrooklynMementoImpl.policy builder item) = view builder) :
    view (built entities locations policies) =
      view (entities.foldl loadEntity BrooklynMementoImpl.builder) :=
  (view_unchanged view byPolicy _ policies).trans (view_unchanged view byLocation _ locations)

theorem loadEntity_view {View : Type} (view : BrooklynMemento Id Rest → View)
    (byEntity : ∀ builder item, view (BrooklynMementoImpl.entity builder item) = view builder)
    (byId : ∀ builder val, view (BrooklynMementoImpl.applicationId builder val) = view builder) :
    view (entities.foldl loadEntity BrooklynMementoImpl.builder) = view .empty := by
  refine view_unchanged view (fun builder item => ?_) _ entities
  unfold loadEntity
  dsimp only
  split
  · exact (byId _ _).trans (byEntity _ _)
  · exact byEntity _ _

theorem built_entities : (built entities locations policies).entities =
    entities.foldl (fun map item => map.put item.id item) LinkedMap.empty := by
  rw [built_view entities locations policies BrooklynMemento.entities (fun _ _ => rfl)
    fun _ _ => rfl]
  refine foldl_puts BrooklynMemento.entities (fun builder item => ?_) _ entities
  unfold loadEntity
  dsimp only
  split <;> rfl

theorem policy_locations (builder : BrooklynMemento Id Rest) (val : PolicyMemento Id Rest) :
    (BrooklynMementoImpl.policy builder val).locations = builder.locations := rfl

theorem location_policies (builder : BrooklynMemento Id Rest) (val : LocationMemento Id Rest) :
    (BrooklynMementoImpl.location builder val).policies = builder.policies := rfl

theorem built_locations : (built entities locations policies).locations =
    locations.foldl (fun map item => map.put item.id item) LinkedMap.empty := by
  rw [built, view_unchanged BrooklynMemento.locations policy_locations _ policies,
    foldl_puts BrooklynMemento.locations (fun _ _ => rfl) _ locations,
    loadEntity_view entities BrooklynMemento.locations (fun _ _ => rfl) fun _ _ => rfl]
  rfl

theorem built_policies : (built entities locations policies).policies =
    policies.foldl (fun map item => map.put item.id item) LinkedMap.empty := by
  rw [built, foldl_puts BrooklynMemento.policies (fun _ _ => rfl) _ policies,
    view_unchanged BrooklynMemento.policies location_policies _ locations,
    loadEntity_view entities BrooklynMemento.policies (fun _ _ => rfl) fun _ _ => rfl]
  rfl

theorem built_topLevelLocationIds : (built entities locations policies).topLevelLocationIds = [] :=
  (built_view entities locations policies BrooklynMemento.topLevelLocationIds (fun _ _ => rfl)
    fun _ _ => rfl).trans
    (loadEntity_view entities BrooklynMemento.topLevelLocationIds (fun _ _ => rfl) fun _ _ => rfl)

theorem built_applicationIds (id : Id) : id ∈ (built entities locations policies).applicationIds ↔
    ∃ item ∈ entities, item.id = id ∧ item.isTopLevelApp = true := by
  rw [built_view entities locations policies BrooklynMemento.applicationIds (fun _ _ => rfl)
    fun _ _ => rfl, mem_loadEntity]
  exact or_iff_right List.not_mem_nil

end Built

/-- The mementos of a directory are of its kind, and each has its own id for a name. -/
def CastsTo (directory : Directory) (cast : Memento Id Rest → Option Item)
    (wrap : Item → Memento Id Rest) (key : Item → Id) : Prop :=
  ∀ memento id, memento.fileFor = (directory, id) →
    ∃ item, cast memento = some item ∧ wrap item = memento ∧ key item = id

omit [DecidableEq Id] in
theorem entity_casts :
    CastsTo .entities (Memento.asEntity : Memento Id Rest → _) .entity EntityMemento.id := by
  intro memento id filed
  cases memento <;> cases filed
  exact ⟨_, rfl, rfl, rfl⟩

omit [DecidableEq Id] in
theorem location_casts :
    CastsTo .locations (Memento.asLocation : Memento Id Rest → _) .location LocationMemento.id := by
  intro memento id filed
  cases memento <;> cases filed
  exact ⟨_, rfl, rfl, rfl⟩

omit [DecidableEq Id] in
theorem policy_casts :
    CastsTo .policies (Memento.asPolicy : Memento Id Rest → _) .policy PolicyMemento.id := by
  intro memento id filed
  cases memento <;> cases filed
  exact ⟨_, rfl, rfl, rfl⟩

section Directories
variable {accept : Id → Bool} {listFiles : Directory → List Id}
  {files : FileName Id → Option (Memento Id Rest)} {directory : Directory}
  {cast : Memento Id Rest → Option Item} {wrap : Item → Memento Id Rest} {key : Item → Id}

omit [DecidableEq Id] in
theorem key_of_casts (named : Named files) (casts : CastsTo directory cast wrap key) {id : Id}
    {item : Item} (found : (files (directory, id)).bind cast = some item) : key item = id := by
  obtain ⟨memento, there, castable⟩ := Option.bind_eq_some_iff.mp found
  obtain ⟨other, also, _, keyed⟩ := casts memento id (named _ _ there)
  cases castable.symm.trans also
  exact keyed

omit [DecidableEq Id] in
/-- Whatever is listed can be read. -/
theorem exists_reads (named : Named files) (casts : CastsTo directory cast wrap key)
    (names : List Id)
    (there : ∀ id ∈ names, (files (directory, id)).isSome = true) :
    ∃ items, Reads (fun id => (files (directory, id)).bind cast) key names items := by
  induction names with
  | nil => exact ⟨[], .nil⟩
  | cons name rest ih =>
    obtain ⟨items, reads⟩ := ih fun id member => there id (List.mem_cons_of_mem name member)
    obtain ⟨memento, found⟩ := Option.isSome_iff_exists.mp (there name List.mem_cons_self)
    obtain ⟨item, castable, _, keyed⟩ := casts memento name (named _ _ found)
    have read : (files (directory, name)).bind cast = some item := by
      rw [found]
      exact castable
    exact ⟨item :: items, .cons ⟨read, keyed⟩ reads⟩

/-- The map that the files of a directory are put into. -/
theorem get_shown (lists : Lists accept listFiles files) {items : List Item}
    (reads : Reads (fun id => (files (directory, id)).bind cast) key
      ((listFiles directory).filter accept) items) (id : Id) :
    (items.foldl (fun map item => map.put (key item) item) LinkedMap.empty).get id =
      (shown accept files (directory, id)).bind cast := by
  rw [get_of_reads reads, LinkedMap.get_empty, shown]
  cases accepted : accept id with
  | false => simp [accepted]
  | true =>
    have listed := lists directory id accepted
    cases found : files (directory, id) <;> simp [accepted, listed, found]

omit [DecidableEq Id] in
/-- No memento is lost by its cast. -/
theorem shown_of_casts (named : Named files) (casts : CastsTo directory cast wrap key) (id : Id) :
    ((shown accept files (directory, id)).bind cast).map wrap =
      shown accept files (directory, id) := by
  unfold shown
  split
  · cases found : files (directory, id) with
    | none => rfl
    | some memento =>
      obtain ⟨item, castable, same, _⟩ := casts memento id (named _ _ found)
      rw [Option.bind_some, castable, Option.map_some, same]
  · rfl

end Directories

/-- What a load yields: the mementos in the files that it sees, and the applications among the
entities, but no location as one at the top. -/
structure Loads (accept : Id → Bool) (files : FileName Id → Option (Memento Id Rest))
    (loaded : BrooklynMemento Id Rest) : Prop where
  stored : ∀ name, loaded.stored name = shown accept files name
  applicationIds : ∀ id, id ∈ loaded.applicationIds ↔
    ∃ memento, loaded.entities.get id = some memento ∧ memento.isTopLevelApp = true
  topLevelLocationIds : loaded.topLevelLocationIds = []

variable {accept : Id → Bool} {listFiles : Directory → List Id}
  {files : FileName Id → Option (Memento Id Rest)}

theorem loadMemento_loads (named : Named files) (lists : Lists accept listFiles files) :
    ∃ loaded, loadMemento accept listFiles files = .ok loaded ∧ Loads accept files loaded := by
  have there (directory : Directory) (id : Id) (member : id ∈ (listFiles directory).filter accept) :
      (files (directory, id)).isSome = true := by
    obtain ⟨listed, accepted⟩ := List.mem_filter.mp member
    exact (lists directory id accepted).mp listed
  obtain ⟨entities, readEntities⟩ := exists_reads named entity_casts _ (there .entities)
  obtain ⟨locations, readLocations⟩ := exists_reads named location_casts _ (there .locations)
  obtain ⟨policies, readPolicies⟩ := exists_reads named policy_casts _ (there .policies)
  refine ⟨built entities locations policies, ?_, ?_, fun id => ?_, ?_⟩
  · rw [loadMemento, loadEach_reads loadEntity readEntities]
    change (loadEach BrooklynMementoImpl.location _ (entities.foldl loadEntity _) _ >>= _) = _
    rw [loadEach_reads BrooklynMementoImpl.location readLocations]
    exact loadEach_reads BrooklynMementoImpl.policy readPolicies _
  · rintro ⟨directory | directory | directory, id⟩
    · rw [BrooklynMemento.stored, Memento.stored, built_entities, get_shown lists readEntities]
      exact shown_of_casts named entity_casts id
    · rw [BrooklynMemento.stored, Memento.stored, built_locations, get_shown lists readLocations]
      exact shown_of_casts named location_casts id
    · rw [BrooklynMemento.stored, Memento.stored, built_policies, get_shown lists readPolicies]
      exact shown_of_casts named policy_casts id
  · rw [built_applicationIds, built_entities]
    constructor
    · rintro ⟨item, member, rfl, top⟩
      obtain ⟨listed, found⟩ := (mem_of_reads readEntities item).mp member
      rw [get_of_reads readEntities, if_pos listed]
      exact ⟨item, found, top⟩
    · rintro ⟨item, found, top⟩
      rw [get_of_reads readEntities] at found
      split at found
      · next listed =>
        obtain rfl : item.id = id := key_of_casts named entity_casts found
        exact ⟨item, (mem_of_reads readEntities item).mpr ⟨listed, found⟩, rfl, top⟩
      · cases found
  · exact built_topLevelLocationIds entities locations policies

end Loading

end BrooklynMementoPersisterToMultiFile
end Brooklyn
