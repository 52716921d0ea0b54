import Brooklyn.MementoLoading

/-!
The persister that keeps a memento in memory and the one that writes files, under the same
calls. What a call has files written and deleted for is done before the next call and before
a load. `accept` is the file filter of a load: `new File(directory, id)` is a file that it
takes, where it accepts the id.

A call keeps the two the same under conditions on the call and on what was there before. They
leave out the calls for which one of the persisters goes its own way: the reset of a memento
does not clear it and passes over the policies, an index of it never forgets an entity that is
no application any more, no file is written after it was deleted, or deleted before it was
written, and a load does not look for the locations at the top.
-/

namespace Brooklyn
open SingleUseFiles (Slot)

variable {Id Rest : Type}

def MutableBrooklynMemento.stored (mutable : MutableBrooklynMemento Id Rest) :
    FileName Id → Option (Memento Id Rest) :=
  Memento.stored mutable.entities mutable.locations mutable.policies

structure Persisters (Id Rest : Type) where
  memory : MutableBrooklynMemento Id Rest
  slots : FileName Id → Slot (Memento Id Rest)

/-- A call that both persisters get. -/
inductive PersisterCall (Id Rest : Type) where
  | checkpoint (newMemento : BrooklynMemento Id Rest)
  | delta (delta : Delta Id Rest)

namespace PersisterCall

/-- What is written, and what is then deleted. -/
def mementos : PersisterCall Id Rest → List (Memento Id Rest)
  | .checkpoint newMemento => newMemento.mementos
  | .delta newDelta => newDelta.mementos

def removedFiles : PersisterCall Id Rest → List (FileName Id)
  | .checkpoint _ => []
  | .delta newDelta => newDelta.removedFiles

end PersisterCall

namespace Persisters
open BrooklynMementoPersisterToMultiFile (Lists Named fileFilter shown)

def files (persisters : Persisters Id Rest) (name : FileName Id) : Option (Memento Id Rest) :=
  (persisters.slots name).file

/-- The files are those of a persister: each for what it holds, and not endlessly many. -/
structure Filed (files : FileName Id → Option (Memento Id Rest)) : Prop where
  named : Named files
  finite : ∃ names : List (FileName Id), ∀ name, (files name).isSome = true → name ∈ names

variable [DecidableEq Id]

def perform (persisters : Persisters Id Rest) : PersisterCall Id Rest → Persisters Id Rest
  | .checkpoint newMemento =>
      { memory := AbstractBrooklynMementoPersister.checkpoint persisters.memory newMemento
        slots := SingleUseFiles.run persisters.slots
          (BrooklynMementoPersisterToMultiFile.checkpoint newMemento) }
  | .delta delta =>
      { memory := AbstractBrooklynMementoPersister.delta persisters.memory delta
        slots := SingleUseFiles.run persisters.slots
          (BrooklynMementoPersisterToMultiFile.delta delta) }

def performAll (persisters : Persisters Id Rest) (calls : List (PersisterCall Id Rest)) :
    Persisters Id Rest :=
  calls.foldl perform persisters

/-- In whatever order the directories are listed, the files are loaded as what is in memory. -/
def LoadsAgree (accept : Id → Bool) (persisters : Persisters Id Rest) : Prop :=
  ∀ listFiles, Lists accept listFiles persisters.files →
    ∃ loaded, BrooklynMementoPersisterToMultiFile.loadMemento accept listFiles persisters.files =
      .ok loaded ∧ persisters.memory.Same loaded

/-- Two persisters without a call yet, on what an earlier run has left. -/
structure Restart (Id Rest : Type) [DecidableEq Id] (accept : Id → Bool) where
  memory : MutableBrooklynMemento Id Rest
  existing : FileName Id → Option (Memento Id Rest)
  filed : Filed existing
  same : LoadsAgree accept ⟨memory, fun name => .unopened (existing name)⟩

def Restart.persisters {accept : Id → Bool} (restart : Restart Id Rest accept) :
    Persisters Id Rest :=
  ⟨restart.memory, fun name => .unopened (restart.existing name)⟩

variable (accept : Id → Bool) (persisters : Persisters Id Rest)

/-- Nothing is written that was ever deleted or is to be deleted, and what is deleted was
written by this persister, or is not there. The last memento of an entity is that of a
top-level application, unless the entity never was one. No location is at the top. -/
structure DeltaKept (delta : Delta Id Rest) : Prop where
  written : ∀ memento ∈ delta.mementos, accept memento.fileFor.2 = true ∧
    persisters.slots memento.fileFor ≠ .deleted ∧ memento.fileFor ∉ delta.removedFiles
  removed : ∀ name ∈ delta.removedFiles, accept name.2 = true →
    ∀ existing, persisters.slots name ≠ .unopened (some existing)
  applications : ∀ id, ∀ last ∈ (delta.entities.filter fun entity => entity.id = id).getLast?,
    last.isTopLevelApp = false → id ∉ persisters.memory.applicationIds ∧
      ∀ entity ∈ delta.entities, entity.id = id → entity.isTopLevelApp = false
  locations : ∀ location ∈ delta.locations, location.parent ≠ none

/-- No entity or location has a file that was deleted; a policy that is written is already
there. The applications, with those from before, are the top-level ones. -/
structure CheckpointKept (newMemento : BrooklynMemento Id Rest) : Prop where
  written : ∀ name memento, name.1 ≠ .policies → newMemento.stored name = some memento →
    accept name.2 = true ∧ persisters.slots name ≠ .deleted
  policies : ∀ id policy, newMemento.policies.get id = some policy → accept id = true →
    persisters.slots (.policies, id) ≠ .deleted →
      persisters.memory.policies.get id = some policy
  applications : ∀ id entity, newMemento.entities.get id = some entity →
    (entity.isTopLevelApp = true ↔
      id ∈ persisters.memory.applicationIds ∨ id ∈ newMemento.applicationIds)
  others : ∀ id ∈ newMemento.applicationIds, newMemento.entities.get id = none →
    id ∈ persisters.memory.applicationIds
  topLevelLocations : newMemento.topLevelLocationIds = []

def Kept : PersisterCall Id Rest → Prop
  | .checkpoint newMemento => CheckpointKept accept persisters newMemento
  | .delta delta => DeltaKept accept persisters delta

/-- Each call meets its conditions in the state that it finds. -/
def KeptThroughout (accept : Id → Bool) :
    Persisters Id Rest → List (PersisterCall Id Rest) → Prop
  | _, [] => True
  | persisters, call :: rest =>
      Kept accept persisters call ∧ KeptThroughout accept (persisters.perform call) rest

/-- What a load of the files yields is what is in memory. -/
structure Agrees : Prop where
  stored : ∀ name, persisters.memory.stored name = shown accept persisters.files name
  applicationIds : ∀ id, id ∈ persisters.memory.applicationIds ↔
    ∃ memento, persisters.memory.entities.get id = some memento ∧ memento.isTopLevelApp = true
  topLevelLocationIds : ∀ id, id ∉ persisters.memory.topLevelLocationIds

/-! The two loads agree where the state does. -/
section Loads
variable {accept : Id → Bool} {persisters : Persisters Id Rest}

omit [DecidableEq Id] in
theorem stored_eq_iff (mutable : MutableBrooklynMemento Id Rest)
    (memento : BrooklynMemento Id Rest) : (∀ name, mutable.stored name = memento.stored name) ↔
      (∀ id, mutable.entities.get id = memento.entities.get id) ∧
        (∀ id, mutable.locations.get id = memento.locations.get id) ∧
          ∀ id, mutable.policies.get id = memento.policies.get id := by
  constructor
  · intro same
    refine ⟨fun id => ?_, fun id => ?_, fun id => ?_⟩
    · exact Option.map_injective (fun _ _ => Memento.entity.inj) (same (.entities, id))
    · exact Option.map_injective (fun _ _ => Memento.location.inj) (same (.locations, id))
    · exact Option.map_injective (fun _ _ => Memento.policy.inj) (same (.policies, id))
  · rintro ⟨entities, locations, policies⟩ ⟨directory | directory | directory, id⟩
    · exact congrArg (Option.map _) (entities id)
    · exact congrArg (Option.map _) (locations id)
    · exact congrArg (Option.map _) (policies id)

omit [DecidableEq Id] in
/-- The files can be listed. -/
theorem exists_lists (accept : Id → Bool) (filed : Filed persisters.files) :
    ∃ listFiles, Lists accept listFiles persisters.files := by
  classical
  obtain ⟨names, complete⟩ := filed.finite
  refine ⟨fun directory => (names.filter fun name =>
    name.1 = directory ∧ (persisters.files name).isSome = true).map Prod.snd, ?_⟩
  intro directory id _
  rw [List.mem_map]
  constructor
  · rintro ⟨name, member, rfl⟩
    obtain ⟨rfl, there⟩ := of_decide_eq_true (List.mem_filter.mp member).2
    exact there
  · intro there
    refine ⟨(directory, id), List.mem_filter.mpr ⟨complete _ there, ?_⟩, rfl⟩
    exact decide_eq_true ⟨rfl, there⟩

theorem loadsAgree_iff (filed : Filed persisters.files) :
    LoadsAgree accept persisters ↔ Agrees accept persisters := by
  constructor
  · intro agree
    obtain ⟨listFiles, lists⟩ := exists_lists accept filed
    obtain ⟨loaded, yields, same⟩ := agree listFiles lists
    obtain ⟨other, also, loads⟩ :=
      BrooklynMementoPersisterToMultiFile.loadMemento_loads filed.named lists
    cases yields.symm.trans also
    have stored := (stored_eq_iff persisters.memory loaded).mpr
      ⟨same.entities, same.locations, same.policies⟩
    refine ⟨fun name => (stored name).trans (loads.stored name), fun id => ?_, fun id member => ?_⟩
    · rw [same.applications, loads.applicationIds, same.entities]
    · have top := (same.topLevelLocations id).mp member
      rw [loads.topLevelLocationIds] at top
      cases top
  · intro agrees listFiles lists
    obtain ⟨loaded, yields, loads⟩ :=
      BrooklynMementoPersisterToMultiFile.loadMemento_loads filed.named lists
    obtain ⟨entities, locations, policies⟩ := (stored_eq_iff persisters.memory loaded).mp
      fun name => (agrees.stored name).trans (loads.stored name).symm
    refine ⟨loaded, yields, entities, locations, policies, fun id => ?_, fun id => ?_⟩
    · rw [agrees.applicationIds, loads.applicationIds, entities]
    · rw [loads.topLevelLocationIds]
      exact iff_of_false (agrees.topLevelLocationIds id) List.not_mem_nil

end Loads

/-! What a call does under a name. -/
section Names
variable (persisters : Persisters Id Rest) (name : FileName Id)

theorem slots_perform (call : PersisterCall Id Rest) :
    (persisters.perform call).slots name =
      (persisters.slots name).replace (call.mementos.filter fun memento => memento.fileFor = name)
        (decide (name ∈ call.removedFiles)) := by
  cases call with
  | checkpoint newMemento =>
    refine (run_checkpoint persisters.slots newMemento name).trans ?_
    simp [Slot.replace, PersisterCall.removedFiles, PersisterCall.mementos]
  | delta newDelta => exact run_delta persisters.slots newDelta name

theorem filed_perform {persisters : Persisters Id Rest} (filed : Filed persisters.files)
    (call : PersisterCall Id Rest) : Filed (persisters.perform call).files := by
  have from_before (name : FileName Id) (memento : Memento Id Rest)
      (found : (persisters.perform call).files name = some memento) :
      (memento ∈ call.mementos ∧ memento.fileFor = name) ∨
        persisters.files name = some memento := by
    rw [files, slots_perform] at found
    rcases Slot.mem_of_file_replace found with written | before
    · exact Or.inl (by simpa using written)
    · exact Or.inr before
  obtain ⟨names, complete⟩ := filed.finite
  refine ⟨fun name memento found => ?_, names ++ call.mementos.map Memento.fileFor, ?_⟩
  · rcases from_before name memento found with ⟨_, here⟩ | before
    · exact here
    · exact filed.named name memento before
  · intro name there
    obtain ⟨memento, found⟩ := Option.isSome_iff_exists.mp there
    rcases from_before name memento found with ⟨written, rfl⟩ | before
    · exact List.mem_append_right _ (List.mem_map_of_mem written)
    · exact List.mem_append_left _ (complete name (by rw [before]; rfl))

theorem stored_delta (delta : Delta Id Rest) :
    (AbstractBrooklynMementoPersister.delta persisters.memory delta).stored name =
      (delta.mementos.filter fun memento => memento.fileFor = name).getLast?.or
        (if name ∈ delta.removedFiles then none else persisters.memory.stored name) := by
  obtain ⟨directory | directory | directory, id⟩ := name
  · rw [MutableBrooklynMemento.stored, Memento.stored, delta_entity]
    by_cases gone : id ∈ delta.removedEntityIds <;>
      simp [Delta.mementos, Delta.removedFiles, List.filter_map, Function.comp_def, Memento.fileFor,
        gone, MutableBrooklynMemento.stored, Memento.stored, Option.map_or]
  · rw [MutableBrooklynMemento.stored, Memento.stored, delta_location]
    by_cases gone : id ∈ delta.removedLocationIds <;>
      simp [Delta.mementos, Delta.removedFiles, List.filter_map, Function.comp_def, Memento.fileFor,
        gone, MutableBrooklynMemento.stored, Memento.stored, Option.map_or]
  · rw [MutableBrooklynMemento.stored, Memento.stored, delta_policy]
    by_cases gone : id ∈ delta.removedPolicyIds <;>
      simp [Delta.mementos, Delta.removedFiles, List.filter_map, Function.comp_def, Memento.fileFor,
        gone, MutableBrooklynMemento.stored, Memento.stored, Option.map_or]

/-- The checkpoint of a memento writes each of its mementos once. -/
theorem getLast_values {Value : Type} {map : LinkedMap Id Value} {key : Value → Id}
    (keyed : ∀ id value, map.get id = some value → key value = id) (id : Id) :
    (map.values.filter fun value => key value = id).getLast? = map.get id := by
  have only : ∀ value ∈ map.values.filter fun value => key value = id, map.get id = some value := by
    intro value member
    obtain ⟨there, here⟩ := List.mem_filter.mp member
    obtain ⟨other, found⟩ := (LinkedMap.mem_values map value).mp there
    rw [← of_decide_eq_true here, keyed other value found]
    exact found
  cases last : (map.values.filter fun value => key value = id).getLast? with
  | some value => exact (only value (List.mem_of_getLast? last)).symm
  | none =>
    cases found : map.get id with
    | none => rfl
    | some value =>
      have member : value ∈ map.values.filter fun value => key value = id :=
        List.mem_filter.mpr ⟨(LinkedMap.mem_values map value).mpr ⟨id, found⟩,
          decide_eq_true (keyed id value found)⟩
      rw [List.getLast?_eq_none_iff.mp last] at member
      cases member

theorem getLast_mementos (newMemento : BrooklynMemento Id Rest) :
    (newMemento.mementos.filter fun memento => memento.fileFor = name).getLast? =
      newMemento.stored name := by
  obtain ⟨directory | directory | directory, id⟩ := name
  · rw [BrooklynMemento.stored, Memento.stored, ← getLast_values newMemento.entitiesKeyed]
    simp [BrooklynMemento.mementos, List.filter_map, Function.comp_def, Memento.fileFor]
  · rw [BrooklynMemento.stored, Memento.stored, ← getLast_values newMemento.locationsKeyed]
    simp [BrooklynMemento.mementos, List.filter_map, Function.comp_def, Memento.fileFor]
  · rw [BrooklynMemento.stored, Memento.stored, ← getLast_values newMemento.policiesKeyed]
    simp [BrooklynMemento.mementos, List.filter_map, Function.comp_def, Memento.fileFor]

theorem stored_checkpoint (newMemento : BrooklynMemento Id Rest) :
    (AbstractBrooklynMementoPersister.checkpoint persisters.memory newMemento).stored name =
      if name.1 = .policies then persisters.memory.stored name
      else (newMemento.stored name).or (persisters.memory.stored name) := by
  obtain ⟨directory | directory | directory, id⟩ := name
  · simp [AbstractBrooklynMementoPersister.checkpoint, MutableBrooklynMemento.stored,
      BrooklynMemento.stored, Memento.stored, MutableBrooklynMemento.reset,
      MutableBrooklynMemento.get_putAll, Option.map_or]
  · simp [AbstractBrooklynMementoPersister.checkpoint, MutableBrooklynMemento.stored,
      BrooklynMemento.stored, Memento.stored, MutableBrooklynMemento.reset,
      MutableBrooklynMemento.get_putAll, Option.map_or]
  · rfl

end Names

/-! Exactly the calls that meet the conditions keep the agreement. -/
section Steps
variable {accept : Id → Bool} {persisters : Persisters Id Rest}

/-- A file that a load does not see must not be written, and what is done with any other must
have its effect. -/
theorem stored_delta_iff (agrees : Agrees accept persisters) (delta : Delta Id Rest)
    (name : FileName Id) : (persisters.perform (.delta delta)).memory.stored name =
        shown accept (persisters.perform (.delta delta)).files name ↔
      if accept name.2 = true then
        (persisters.slots name).Effective
          (delta.mementos.filter fun memento => memento.fileFor = name)
          (decide (name ∈ delta.removedFiles))
      else delta.mementos.filter (fun memento => memento.fileFor = name) = [] := by
  have stored := stored_delta persisters name delta
  change (persisters.perform (.delta delta)).memory.stored name = _ at stored
  have file := congrArg Slot.file (slots_perform persisters name (.delta delta))
  change (persisters.perform (.delta delta)).files name = _ at file
  rw [stored, agrees.stored, shown, shown, file]
  by_cases accepted : accept name.2 = true
  · rw [if_pos accepted, if_pos accepted, if_pos accepted, ← Slot.file_replace_iff, eq_comm]
    simp only [decide_eq_true_eq]
    rfl
  · rw [if_neg accepted, if_neg accepted, if_neg accepted, ite_self, Option.or_none,
      List.getLast?_eq_none_iff]

theorem files_delta_iff (agrees : Agrees accept persisters) (delta : Delta Id Rest) :
    (∀ name, (persisters.perform (.delta delta)).memory.stored name =
        shown accept (persisters.perform (.delta delta)).files name) ↔
      (∀ memento ∈ delta.mementos, accept memento.fileFor.2 = true ∧
        persisters.slots memento.fileFor ≠ .deleted ∧ memento.fileFor ∉ delta.removedFiles) ∧
        ∀ name ∈ delta.removedFiles, accept name.2 = true →
          ∀ existing, persisters.slots name ≠ .unopened (some existing) := by
  rw [forall_congr' (stored_delta_iff agrees delta)]
  constructor
  · intro effective
    constructor
    · intro memento member
      have here := effective memento.fileFor
      have written : delta.mementos.filter (fun other => other.fileFor = memento.fileFor) ≠ [] :=
        List.ne_nil_of_mem (List.mem_filter.mpr ⟨member, decide_eq_true rfl⟩)
      split at here
      · next accepted =>
        obtain ⟨undeleted, kept⟩ := here.1 written
        exact ⟨accepted, undeleted, of_decide_eq_false kept⟩
      · exact absurd here written
    · intro name member accepted
      have here := effective name
      rw [if_pos accepted] at here
      exact here.2 (decide_eq_true member)
  · rintro ⟨written, removed⟩ name
    have member {memento : Memento Id Rest}
        (found : memento ∈ delta.mementos.filter fun memento => memento.fileFor = name) :
        memento ∈ delta.mementos ∧ memento.fileFor = name := by
      simpa using found
    split
    · next accepted =>
      refine ⟨fun some_written => ?_, fun gone => removed name (of_decide_eq_true gone) accepted⟩
      obtain ⟨memento, found⟩ := List.exists_mem_of_ne_nil _ some_written
      obtain ⟨among, rfl⟩ := member found
      obtain ⟨_, undeleted, kept⟩ := written memento among
      exact ⟨undeleted, decide_eq_false kept⟩
    · next hidden =>
      refine List.eq_nil_iff_forall_not_mem.mpr fun memento found => ?_
      obtain ⟨among, rfl⟩ := member found
      exact hidden (written memento among).1

theorem applications_delta_iff (agrees : Agrees accept persisters) (delta : Delta Id Rest)
    (kept : ∀ entity ∈ delta.entities, entity.id ∉ delta.removedEntityIds) :
    (∀ id, id ∈ (persisters.perform (.delta delta)).memory.applicationIds ↔
      ∃ memento, (persisters.perform (.delta delta)).memory.entities.get id = some memento ∧
        memento.isTopLevelApp = true) ↔
      ∀ id, ∀ last ∈ (delta.entities.filter fun entity => entity.id = id).getLast?,
        last.isTopLevelApp = false → id ∉ persisters.memory.applicationIds ∧
          ∀ entity ∈ delta.entities, entity.id = id → entity.isTopLevelApp = false := by
  refine forall_congr' fun id => ?_
  rw [perform, mem_delta_applicationIds, delta_entity]
  cases final : (delta.entities.filter fun entity => entity.id = id).getLast? with
  | none =>
    refine iff_of_true ?_ (fun last isLast => by cases isLast)
    have unwritten : ¬ ∃ entity ∈ delta.entities, entity.id = id ∧ entity.isTopLevelApp = true := by
      rintro ⟨entity, member, here, _⟩
      have found : entity ∈ delta.entities.filter fun entity => entity.id = id :=
        List.mem_filter.mpr ⟨member, decide_eq_true here⟩
      rw [List.getLast?_eq_none_iff.mp final] at found
      cases found
    rw [or_iff_left unwritten, agrees.applicationIds, Option.none_or]
    by_cases gone : id ∈ delta.removedEntityIds <;> simp [gone]
  | some last =>
    obtain ⟨member, here⟩ := List.mem_filter.mp (List.mem_of_getLast? final)
    have here : last.id = id := of_decide_eq_true here
    have stays : id ∉ delta.removedEntityIds := here ▸ kept last member
    cases top : last.isTopLevelApp with
    | true =>
      refine iff_of_true ?_ fun other same bottom => ?_
      · exact iff_of_true (Or.inr ⟨last, member, here, top⟩) ⟨last, by simp, top⟩
      · cases same
        rw [top] at bottom
        cases bottom
    | false =>
      simp [stays, top]

theorem delta_iff (agrees : Agrees accept persisters) (delta : Delta Id Rest) :
    Agrees accept (persisters.perform (.delta delta)) ↔ DeltaKept accept persisters delta := by
  have topLevel : (∀ id, id ∉ (persisters.perform (.delta delta)).memory.topLevelLocationIds) ↔
      ∀ location ∈ delta.locations, location.parent ≠ none := by
    simp only [perform, mem_delta_topLevelLocationIds, agrees.topLevelLocationIds, false_and,
      false_or, LocationMemento.isTopLevel, Option.isNone_iff_eq_none]
    constructor
    · intro none_top location member top
      exact none_top location.id ⟨location, member, rfl, top⟩
    · rintro parents id ⟨location, member, _, top⟩
      exact parents location member top
  have kept (written : ∀ memento ∈ delta.mementos, accept memento.fileFor.2 = true ∧
      persisters.slots memento.fileFor ≠ .deleted ∧ memento.fileFor ∉ delta.removedFiles) :
      ∀ entity ∈ delta.entities, entity.id ∉ delta.removedEntityIds := by
    intro entity member gone
    refine (written (.entity entity) ?_).2.2 ?_
    · simp [Delta.mementos, member]
    · simp [Delta.removedFiles, Memento.fileFor, gone]
  constructor
  · intro after
    obtain ⟨written, removed⟩ := (files_delta_iff agrees delta).mp after.stored
    exact {
      written := written
      removed := removed
      applications := (applications_delta_iff agrees delta (kept written)).mp after.applicationIds
      locations := topLevel.mp after.topLevelLocationIds }
  · intro call
    exact {
      stored := (files_delta_iff agrees delta).mpr ⟨call.written, call.removed⟩
      applicationIds :=
        (applications_delta_iff agrees delta (kept call.written)).mpr call.applications
      topLevelLocationIds := topLevel.mpr call.locations }

theorem files_checkpoint (newMemento : BrooklynMemento Id Rest) (name : FileName Id) :
    (persisters.perform (.checkpoint newMemento)).files name =
      if (persisters.slots name).isDeleted then none
      else (newMemento.stored name).or (persisters.files name) := by
  rw [← getLast_mementos]
  exact (congrArg Slot.file (run_checkpoint persisters.slots newMemento name)).trans
    (Slot.file_writeAll _ _)

theorem stored_checkpoint_iff (agrees : Agrees accept persisters)
    (newMemento : BrooklynMemento Id Rest) (name : FileName Id) :
    (persisters.perform (.checkpoint newMemento)).memory.stored name =
        shown accept (persisters.perform (.checkpoint newMemento)).files name ↔
      ∀ memento, newMemento.stored name = some memento →
        if name.1 = .policies then accept name.2 = true → persisters.slots name ≠ .deleted →
          persisters.memory.stored name = some memento
        else accept name.2 = true ∧ persisters.slots name ≠ .deleted := by
  have stored := stored_checkpoint persisters name newMemento
  change (persisters.perform (.checkpoint newMemento)).memory.stored name = _ at stored
  have deleted : (persisters.slots name).isDeleted = true ↔ persisters.slots name = .deleted := by
    cases persisters.slots name <;> simp [Slot.isDeleted]
  have vanished (gone : persisters.slots name = .deleted) : persisters.files name = none := by
    rw [files, gone]
    rfl
  rw [stored, agrees.stored, shown, shown, files_checkpoint]
  by_cases gone : persisters.slots name = .deleted
  · have absent := vanished gone
    cases newMemento.stored name <;> by_cases policy : name.1 = .policies <;>
      simp [policy, gone, Slot.isDeleted, absent]
  · cases newMemento.stored name <;> by_cases policy : name.1 = .policies <;>
      by_cases accepted : accept name.2 = true <;> simp [policy, deleted, gone, accepted]

theorem applications_checkpoint_iff (agrees : Agrees accept persisters)
    (newMemento : BrooklynMemento Id Rest) :
    (∀ id, id ∈ (persisters.perform (.checkpoint newMemento)).memory.applicationIds ↔
      ∃ memento, (persisters.perform (.checkpoint newMemento)).memory.entities.get id =
        some memento ∧ memento.isTopLevelApp = true) ↔
      (∀ id entity, newMemento.entities.get id = some entity →
        (entity.isTopLevelApp = true ↔
          id ∈ persisters.memory.applicationIds ∨ id ∈ newMemento.applicationIds)) ∧
        ∀ id ∈ newMemento.applicationIds, newMemento.entities.get id = none →
          id ∈ persisters.memory.applicationIds := by
  have ids (id : Id) : id ∈ (persisters.perform (.checkpoint newMemento)).memory.applicationIds ↔
      id ∈ persisters.memory.applicationIds ∨ id ∈ newMemento.applicationIds :=
    LinkedSet.mem_addAll ..
  have entities (id : Id) :
      (persisters.perform (.checkpoint newMemento)).memory.entities.get id =
        (newMemento.entities.get id).or (persisters.memory.entities.get id) :=
    MutableBrooklynMemento.get_putAll ..
  simp only [ids, entities]
  rw [← forall_and]
  refine forall_congr' fun id => ?_
  have before := agrees.applicationIds id
  cases newMemento.entities.get id with
  | none => simp [← before]
  | some entity =>
    simp only [Option.some_or, Option.some.injEq, exists_eq_left', reduceCtorEq, false_implies,
      implies_true, and_true, forall_eq']
    exact iff_comm

theorem checkpoint_iff (agrees : Agrees accept persisters)
    (newMemento : BrooklynMemento Id Rest) :
    Agrees accept (persisters.perform (.checkpoint newMemento)) ↔
      CheckpointKept accept persisters newMemento := by
  have topLevel :
      (∀ id, id ∉ (persisters.perform (.checkpoint newMemento)).memory.topLevelLocationIds) ↔
        newMemento.topLevelLocationIds = [] := by
    have ids (id : Id) :
        id ∈ (persisters.perform (.checkpoint newMemento)).memory.topLevelLocationIds ↔
          id ∈ persisters.memory.topLevelLocationIds ∨ id ∈ newMemento.topLevelLocationIds :=
      LinkedSet.mem_addAll ..
    simp only [ids, agrees.topLevelLocationIds, false_or, List.eq_nil_iff_forall_not_mem]
  have stored := forall_congr' (stored_checkpoint_iff agrees newMemento)
  constructor
  · intro after
    have kept := stored.mp after.stored
    obtain ⟨applications, others⟩ :=
      (applications_checkpoint_iff agrees newMemento).mp after.applicationIds
    refine ⟨fun name memento other found => ?_, fun id policy found => ?_, applications, others,
      topLevel.mp after.topLevelLocationIds⟩
    · simpa only [if_neg other] using kept name memento found
    · have here := kept (.policies, id) (.policy policy) (congrArg (Option.map _) found)
      rw [if_pos rfl] at here
      intro accepted undeleted
      exact Option.map_injective (fun _ _ => Memento.policy.inj) (here accepted undeleted)
  · intro call
    refine ⟨stored.mpr fun name memento found => ?_,
      (applications_checkpoint_iff agrees newMemento).mpr ⟨call.applications, call.others⟩,
      topLevel.mpr call.topLevelLocations⟩
    split
    · next policy =>
      obtain ⟨directory, id⟩ := name
      cases policy
      obtain ⟨policy, there, rfl⟩ := Option.map_eq_some_iff.mp found
      exact fun accepted undeleted =>
        congrArg (Option.map _) (call.policies id policy there accepted undeleted)
    · next other => exact call.written name memento other found

theorem perform_iff (agrees : Agrees accept persisters) (call : PersisterCall Id Rest) :
    Agrees accept (persisters.perform call) ↔ Kept accept persisters call := by
  cases call with
  | checkpoint newMemento => exact checkpoint_iff agrees newMemento
  | delta newDelta => exact delta_iff agrees newDelta

end Steps

/-! Runs. -/
section Runs
variable {accept : Id → Bool}

theorem agrees_throughout_iff {persisters : Persisters Id Rest}
    (agrees : Agrees accept persisters) (calls : List (PersisterCall Id Rest)) :
    (∀ done, done <+: calls → Agrees accept (persisters.performAll done)) ↔
      KeptThroughout accept persisters calls := by
  induction calls generalizing persisters with
  | nil =>
    refine iff_of_true (fun done isPrefix => ?_) trivial
    rw [List.prefix_nil.mp isPrefix]
    exact agrees
  | cons call rest ih =>
    constructor
    · intro throughout
      have first : Agrees accept (persisters.perform call) :=
        throughout [call] (List.prefix_append [call] rest)
      refine ⟨(perform_iff agrees call).mp first, (ih first).mp fun done isPrefix => ?_⟩
      exact throughout (call :: done) ((List.prefix_cons_inj call).mpr isPrefix)
    · rintro ⟨kept, later⟩ done isPrefix
      have first := (perform_iff agrees call).mpr kept
      rcases List.prefix_cons_iff.mp isPrefix with rfl | ⟨others, rfl, among⟩
      · exact agrees
      · exact (ih first).mpr later others among

theorem filed_performAll {persisters : Persisters Id Rest} (filed : Filed persisters.files)
    (calls : List (PersisterCall Id Rest)) : Filed (persisters.performAll calls).files := by
  induction calls generalizing persisters with
  | nil => exact filed
  | cons call rest ih => exact ih (filed_perform filed call)

/-- After each call of a history the loads agree, exactly when each call meets its conditions. -/
theorem loads_agree_throughout_iff (restart : Restart Id Rest accept)
    (calls : List (PersisterCall Id Rest)) :
    (∀ done, done <+: calls → LoadsAgree accept (restart.persisters.performAll done)) ↔
      KeptThroughout accept restart.persisters calls := by
  have filed : Filed restart.persisters.files := restart.filed
  have agrees : Agrees accept restart.persisters := (loadsAgree_iff filed).mp restart.same
  rw [← agrees_throughout_iff agrees]
  exact forall_congr' fun done => imp_congr_right fun _ =>
    loadsAgree_iff (filed_performAll filed done)

omit [DecidableEq Id] in
theorem filed_nothing : Filed fun _ : FileName Id => (none : Option (Memento Id Rest)) where
  named := fun _ _ found => by cases found
  finite := ⟨[], fun _ there => by cases there⟩

/-- Nothing was persisted yet. -/
def fresh (Id Rest : Type) [DecidableEq Id] (accept : Id → Bool) : Restart Id Rest accept where
  memory := .empty
  existing := fun _ => none
  filed := filed_nothing
  same := (loadsAgree_iff filed_nothing).mpr {
    stored := fun name => by
      obtain ⟨directory | directory | directory, id⟩ := name <;> exact (ite_self none).symm
    applicationIds := fun id => by simp [MutableBrooklynMemento.empty]
    topLevelLocationIds := fun id => LinkedSet.not_mem_empty id }

-- The writer of the file was used up by the removal.
theorem readded_entity_lost :
    ¬ ∀ calls, LoadsAgree fileFilter
      ((fresh String Unit fileFilter).persisters.performAll calls) := by
  intro agree
  let added : Delta String Unit := ⟨[], [⟨"x", true, ()⟩], [], [], [], []⟩
  let removed : Delta String Unit := ⟨[], [], [], [], ["x"], []⟩
  have calls := agree [.delta added, .delta removed, .delta added]
  have agrees := (loadsAgree_iff (filed_performAll filed_nothing _)).mp calls
  cases (agrees.stored (.entities, "x"))

end Runs
end Persisters
end Brooklyn
