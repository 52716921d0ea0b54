import Brooklyn.KeyedSets
import Brooklyn.LinkedCollections
import Mathlib.Algebra.Order.Field.Rat

/-!
`MachinePoolPredicates.matches`: whether a node is one of a template's, by the tags and user
metadata and by the criteria that the template sets. A criterion about a part that the node
does not say throws (`none`).
-/

namespace Brooklyn

variable {OsFamily : Type}

inductive NodeState where
  | pending | terminated | suspended | running | error | unrecognized
  deriving DecidableEq

inductive MachineLocation where
  | null
  | location (id : String) (parent : MachineLocation)

structure Hardware where
  ram : Int
  processorCores : List Rat

structure OperatingSystem (OsFamily : Type) where
  family : Option OsFamily
  name : Option String
  is64Bit : Bool

structure NodeMetadata (OsFamily : Type) where
  id : String
  state : NodeState
  tags : List String
  userMetadata : LinkedMap String (Option String)
  hardware : Option Hardware
  operatingSystem : Option (OperatingSystem OsFamily)
  location : MachineLocation

/-- What `matches` asks of a `ReusableMachineTemplate`; a criterion that is `none` is not set. -/
structure ReusableMachineTemplate (OsFamily : Type) where
  tags : List String := []
  userMetadata : LinkedMap String (Option String) := .empty
  minRam : Option Int := none
  minCores : Option Rat := none
  is64bit : Option Bool := none
  osFamily : Option OsFamily := none
  osNameMatchesRegex : Option String := none
  locationId : Option String := none

namespace MachinePoolPredicates

def isLocationContainedIn : MachineLocation → String → Bool
  | .null, _ => false
  | .location id parent, locationId =>
      if locationId = id then true else isLocationContainedIn parent locationId

/-- A key without a value must be there without one. -/
def isSubMapOf (sub bigger : LinkedMap String (Option String)) : Bool :=
  sub.entries.all fun (key, value) =>
    match value with
    | none => decide (bigger.get key = some none)
    | some value => decide (bigger.get key = some (some value))

/-- The criterion holds where the template does not set it. -/
def whenSet {Criterion : Type} (criterion : Option Criterion) (holds : Criterion → Option Bool) :
    Option Bool :=
  match criterion with
  | none => some true
  | some criterion => holds criterion

/-- The checks in order, up to the first that fails or throws. -/
def inOrder : List (Option Bool) → Option Bool
  | [] => some true
  | check :: rest => check.bind fun passed => if passed then inOrder rest else some false

variable [DecidableEq OsFamily]

/-- `matchesRegex` is `String.matches`; it throws for what is no regular expression. -/
def «matches» (matchesRegex : String → String → Option Bool)
    (template : ReusableMachineTemplate OsFamily) (m : NodeMetadata OsFamily) : Option Bool :=
  inOrder
    [some (template.tags.all m.tags.contains),
      some (isSubMapOf template.userMetadata m.userMetadata),
      whenSet template.minRam fun minRam =>
        m.hardware.map fun hardware => decide (minRam ≤ hardware.ram),
      whenSet template.minCores fun minCores =>
        m.hardware.map fun hardware =>
          decide (minCores ≤ hardware.processorCores.sum + 1 / 1000),
      whenSet template.is64bit fun is64bit =>
        m.operatingSystem.map fun system => system.is64Bit == is64bit,
      whenSet template.osFamily fun osFamily =>
        some (m.operatingSystem.any fun system => system.family == some osFamily),
      whenSet template.osNameMatchesRegex fun regex =>
        match m.operatingSystem.bind (·.name) with
        | none => some false
        | some name => matchesRegex name regex,
      whenSet template.locationId fun locationId =>
        some (isLocationContainedIn m.location locationId)]

end MachinePoolPredicates
end Brooklyn

/-!
`MachinePool`: its sets of machines and the synchronized blocks that its calls consist of.
Two nodes are one machine when their keys are equal. `refresh` keeps as matched only those
machines that it did not know before, so that a machine drops out of the pool when it is
listed again.
-/

namespace Brooklyn

variable {Node Key Template : Type} {key : Node → Key}

abbrev MachineSet (key : Node → Key) : Type := KeyedSet key

inductive ComputeMetadata (Node : Type) where
  | node (m : Node)
  | other

structure MachinePool (key : Node → Key) (Template : Type) where
  refreshNeeded : Bool
  templates : List Template
  detectedMachines : MachineSet key
  matchedMachines : MachineSet key
  claimedMachines : MachineSet key
  blacklistedMachines : MachineSet key

namespace MachinePool

def create : MachinePool key Template where
  refreshNeeded := true
  templates := []
  detectedMachines := .empty
  matchedMachines := .empty
  claimedMachines := .empty
  blacklistedMachines := .empty

section Pool
variable [DecidableEq Key]

/-- The listing is a set; records that are not nodes are left out. -/
def listedNodes (computes : List (ComputeMetadata Node)) : MachineSet key :=
  .ofList (computes.filterMap fun
    | .node m => some m
    | .other => none)

def filterForAllowedMachines (pool : MachinePool key Template) (input : MachineSet key) :
    MachineSet key :=
  input.removeAll pool.blacklistedMachines

def registerTemplates (templatesToReg : List Template) (pool : MachinePool key Template) :
    MachinePool key Template :=
  { pool with templates := pool.templates ++ templatesToReg }

def setBlacklist (newBlacklist : MachineSet key) (pool : MachinePool key Template) :
    MachinePool key Template :=
  { pool with
    blacklistedMachines := newBlacklist
    detectedMachines := pool.detectedMachines.removeAll newBlacklist
    matchedMachines := pool.matchedMachines.removeAll newBlacklist }

def addToBlacklist (newToBlacklist : MachineSet key) (pool : MachinePool key Template) :
    MachinePool key Template :=
  pool.setBlacklist (pool.blacklistedMachines.addAll newToBlacklist)

/-- The block of `registerNewNodes`, with which `create` ends. -/
def registerNewNodes (result : MachineSet key) (pool : MachinePool key Template) :
    MachinePool key Template :=
  { pool with
    detectedMachines := pool.detectedMachines.addAll result
    matchedMachines := pool.matchedMachines.addAll result }

/-- The block of `unclaimed`. -/
def unclaimed (pool : MachinePool key Template) : MachineSet key :=
  pool.matchedMachines.removeAll pool.claimedMachines

def mayClaim (count : Int) (claiming : MachineSet key) (m : Node)
    (pool : MachinePool key Template) : Bool :=
  decide ((claiming.elements.length : Int) < count) && !pool.claimedMachines.contains m

/-- The block of `claim(count, template)`, for one machine: with what is claimed so far. -/
def claimOne (count : Int) (claiming : MachineSet key) (m : Node)
    (pool : MachinePool key Template) : MachineSet key × MachinePool key Template :=
  if pool.mayClaim count claiming m then
    (claiming.add m, { pool with claimedMachines := pool.claimedMachines.add m })
  else (claiming, pool)

/-- The block of `claim(set)`; `none` is the exception. -/
def claimSet (set : MachineSet key) (pool : MachinePool key Template) :
    Option (MachineSet key) × MachinePool key Template :=
  let claimed := pool.claimedMachines.addAll set
  let newlyClaimed := claimed.removeAll pool.claimedMachines
  if newlyClaimed.elements.length ≠ set.elements.length then (none, pool)
  else (some newlyClaimed, { pool with claimedMachines := claimed })

/-- The block of `unclaim`. -/
def unclaim (set : MachineSet key) (pool : MachinePool key Template) :
    Nat × MachinePool key Template :=
  let remaining := pool.claimedMachines.removeAll set
  (pool.claimedMachines.elements.length - remaining.elements.length,
    { pool with claimedMachines := remaining })

/-- Each of the two blocks of `destroy`. -/
def destroy (set : MachineSet key) (pool : MachinePool key Template) : MachinePool key Template :=
  { pool with
    detectedMachines := pool.detectedMachines.removeAll set
    matchedMachines := pool.matchedMachines.removeAll set
    claimedMachines := pool.claimedMachines.removeAll set }

theorem claimSet_refused {set : MachineSet key} {pool after : MachinePool key Template}
    (refused : pool.claimSet set = (none, after)) : after = pool := by
  unfold claimSet at refused
  dsimp only at refused
  split at refused
  · cases refused
    rfl
  · cases refused

/-- The machines that were newly claimed were not claimed, and are claimed now. -/
theorem claimSet_taken {set newlyClaimed : MachineSet key} {pool after : MachinePool key Template}
    (taken : pool.claimSet set = (some newlyClaimed, after)) (m : Node) :
    (newlyClaimed.contains m → pool.claimedMachines.contains m = false) ∧
      (after.claimedMachines.contains m ↔
        pool.claimedMachines.contains m ∨ newlyClaimed.contains m) := by
  unfold claimSet at taken
  dsimp only at taken
  split at taken
  · cases taken
  · cases taken
    dsimp only
    rw [KeyedSet.contains_removeAll, KeyedSet.contains_addAll]
    cases pool.claimedMachines.contains m <;> simp

section Refresh
variable (running : Node → Bool) (matching : Template → Node → Option Bool)

def getTemplatesMatchingInstance (nm : Node) : List Template → Option (List Template)
  | [] => some []
  | t :: rest =>
      (matching t nm).bind fun applies =>
        (getTemplatesMatchingInstance nm rest).map fun result =>
          if applies then t :: result else result

/-- What `refresh` does about one machine that appeared. -/
def matchOne (templates : List Template) (m : Node) (newMatchedMachines : MachineSet key) :
    Option (MachineSet key) :=
  if running m then
    (getTemplatesMatchingInstance matching m templates).map fun ts =>
      if ts.isEmpty then newMatchedMachines else newMatchedMachines.add m
  else some newMatchedMachines

def matchAppeared (templates : List Template) :
    List Node → MachineSet key → Option (MachineSet key)
  | [], newMatchedMachines => some newMatchedMachines
  | m :: rest, newMatchedMachines =>
      (matchOne running matching templates m newMatchedMachines).bind
        (matchAppeared templates rest)

/-- Whether it returned. Where matching a machine throws, `matchedMachines` is still the old. -/
def refresh (computes : List (ComputeMetadata Node)) (pool : MachinePool key Template) :
    Bool × MachinePool key Template :=
  let allNewDetectedMachines := listedNodes computes
  let appearedMachines := pool.filterForAllowedMachines
    (allNewDetectedMachines.removeAll pool.detectedMachines)
  let detected := { pool with
    refreshNeeded := false
    detectedMachines := pool.filterForAllowedMachines allNewDetectedMachines }
  match matchAppeared running matching pool.templates appearedMachines.elements .empty with
  | none => (false, detected)
  | some newMatchedMachines => (true, { detected with matchedMachines := newMatchedMachines })

def init (computes : List (ComputeMetadata Node)) (pool : MachinePool key Template) :
    Bool × MachinePool key Template :=
  if pool.refreshNeeded then pool.refresh running matching computes else (true, pool)

end Refresh

/-- What a call does with the pool in one synchronized block, with the listing that the cloud
has at the time where it refreshes. -/
inductive Block (key : Node → Key) (Template : Type) where
  | refresh (computes : List (ComputeMetadata Node))
  | init (computes : List (ComputeMetadata Node))
  | registerTemplates (templatesToReg : List Template)
  | setBlacklist (newBlacklist : MachineSet key)
  | addToBlacklist (newToBlacklist : MachineSet key)
  | registerNewNodes (result : MachineSet key)
  | claimOne (count : Int) (claiming : MachineSet key) (m : Node)
  | claimSet (set : MachineSet key)
  | unclaim (set : MachineSet key)
  | destroy (set : MachineSet key)

section Blocks
variable (running : Node → Bool) (matching : Template → Node → Option Bool)

def perform (pool : MachinePool key Template) : Block key Template → MachinePool key Template
  | .refresh computes => (pool.refresh running matching computes).2
  | .init computes => (pool.init running matching computes).2
  | .registerTemplates templatesToReg => pool.registerTemplates templatesToReg
  | .setBlacklist newBlacklist => pool.setBlacklist newBlacklist
  | .addToBlacklist newToBlacklist => pool.addToBlacklist newToBlacklist
  | .registerNewNodes result => pool.registerNewNodes result
  | .claimOne count claiming m => (pool.claimOne count claiming m).2
  | .claimSet set => (pool.claimSet set).2
  | .unclaim set => (pool.unclaim set).2
  | .destroy set => pool.destroy set

/-- The listing of the refresh that the block makes. -/
def listing (pool : MachinePool key Template) :
    Block key Template → Option (List (ComputeMetadata Node))
  | .refresh computes => some computes
  | .init computes => if pool.refreshNeeded then some computes else none
  | _ => none

/-- Each refresh of the blocks that returns is one of a pool and a listing for which it
`holds`. -/
def EveryRefresh (holds : MachinePool key Template → List (ComputeMetadata Node) → Prop) :
    MachinePool key Template → List (Block key Template) → Prop
  | _, [] => True
  | pool, block :: rest =>
      (∀ computes, pool.listing block = some computes →
        (pool.refresh running matching computes).1 = true → holds pool computes) ∧
      EveryRefresh holds (pool.perform running matching block) rest

/-- Listed, running, not blacklisted and one of a template's. -/
structure Belongs (pool : MachinePool key Template) (computes : List (ComputeMetadata Node))
    (m : Node) : Prop where
  listed : m ∈ (listedNodes computes : MachineSet key).elements
  running : running m = true
  allowed : pool.blacklistedMachines.contains m = false
  matched : ∃ t ∈ pool.templates, matching t m = some true

def RefreshMatches (pool : MachinePool key Template) (computes : List (ComputeMetadata Node)) :
    Prop :=
  ∀ m, m ∈ (pool.refresh running matching computes).2.matchedMachines.elements ↔
    pool.Belongs running matching computes m

/-- No machine that belongs to the pool was detected before. -/
def AllAppear (pool : MachinePool key Template) (computes : List (ComputeMetadata Node)) : Prop :=
  ∀ m, pool.Belongs running matching computes m → pool.detectedMachines.contains m = false

variable {running matching} {pool : MachinePool key Template}

omit [DecidableEq Key] in
theorem mem_getTemplatesMatchingInstance {m : Node} {templates ts : List Template}
    (found : getTemplatesMatchingInstance matching m templates = some ts) (t : Template) :
    t ∈ ts ↔ t ∈ templates ∧ matching t m = some true := by
  induction templates generalizing ts with
  | nil =>
    cases found
    simp
  | cons first rest ih =>
    obtain ⟨applies, tried, found⟩ := Option.bind_eq_some_iff.mp found
    obtain ⟨others, others_found, rfl⟩ := Option.map_eq_some_iff.mp found
    have later := ih others_found
    cases applies with
    | true =>
      rw [if_pos rfl, List.mem_cons, List.mem_cons, later, or_and_right]
      exact or_congr_left ⟨fun same => ⟨same, same ▸ tried⟩, fun here => here.1⟩
    | false =>
      rw [if_neg Bool.false_ne_true, List.mem_cons, later, or_and_right, or_iff_right]
      rintro ⟨rfl, applies⟩
      rw [tried] at applies
      cases applies

omit [DecidableEq Key] in
theorem isEmpty_getTemplatesMatchingInstance {m : Node} {templates ts : List Template}
    (found : getTemplatesMatchingInstance matching m templates = some ts) :
    ts.isEmpty = false ↔ ∃ t ∈ templates, matching t m = some true := by
  rw [List.isEmpty_eq_false_iff_exists_mem]
  exact exists_congr fun t => mem_getTemplatesMatchingInstance found t

/-- A running machine of one of the templates. -/
def Fits (running : Node → Bool) (matching : Template → Node → Option Bool)
    (templates : List Template) (m : Node) : Prop :=
  running m = true ∧ ∃ t ∈ templates, matching t m = some true

theorem matchOne_cases {templates : List Template} {m : Node} {found result : MachineSet key}
    (returned : matchOne running matching templates m found = some result) :
    (Fits running matching templates m ∧ result = found.add m) ∨
      (¬ Fits running matching templates m ∧ result = found) := by
  unfold matchOne at returned
  split at returned
  · next runs =>
    obtain ⟨ts, found_ts, rfl⟩ := Option.map_eq_some_iff.mp returned
    have matched := isEmpty_getTemplatesMatchingInstance found_ts
    cases empty : ts.isEmpty with
    | true => exact Or.inr ⟨fun fits => by simp [matched.mpr fits.2] at empty, if_pos rfl⟩
    | false => exact Or.inl ⟨⟨runs, matched.mp empty⟩, if_neg Bool.false_ne_true⟩
  · next stands => exact Or.inr ⟨fun fits => stands fits.1, (Option.some.inj returned).symm⟩

/-- The loop adds to what it has the machines that fit. -/
theorem mem_matchAppeared {templates : List Template} {appeared : List Node}
    {found result : MachineSet key} (distinct : (appeared.map key).Nodup)
    (apart : ∀ m ∈ appeared, found.contains m = false)
    (returned : matchAppeared running matching templates appeared found = some result) (m : Node) :
    m ∈ result.elements ↔
      m ∈ found.elements ∨ (m ∈ appeared ∧ Fits running matching templates m) := by
  induction appeared generalizing found with
  | nil =>
    cases returned
    simp
  | cons first rest ih =>
    obtain ⟨fresh, distinct⟩ := List.nodup_cons.mp distinct
    obtain ⟨next, one, others⟩ := Option.bind_eq_some_iff.mp returned
    have later := fun other member => apart other (List.mem_cons_of_mem first member)
    rw [List.mem_cons, or_and_right]
    rcases matchOne_cases one with ⟨fits, rfl⟩ | ⟨unfit, rfl⟩
    · have apart_added : ∀ other ∈ rest, (found.add first).contains other = false := by
        intro other member
        rw [Bool.eq_false_iff, ne_eq, KeyedSet.contains_add, later other member]
        rintro (there | same)
        · cases there
        · exact fresh (same ▸ List.mem_map_of_mem member)
      rw [ih distinct apart_added others, KeyedSet.elements_add (apart first List.mem_cons_self),
        List.mem_append, List.mem_singleton, or_assoc,
        and_iff_left_of_imp fun same : m = first => same ▸ fits]
    · rw [ih distinct later others, or_iff_right (a := m = first ∧ _)]
      rintro ⟨rfl, fits⟩
      exact unfit fits

theorem claimed_init (computes : List (ComputeMetadata Node)) :
    (pool.init running matching computes).2.claimedMachines = pool.claimedMachines := by
  unfold init refresh
  split
  · dsimp only
    split <;> rfl
  · rfl

theorem refresh_returned {computes : List (ComputeMetadata Node)}
    (returned : (pool.refresh running matching computes).1 = true) :
    matchAppeared running matching pool.templates
      (pool.filterForAllowedMachines
        ((listedNodes computes).removeAll pool.detectedMachines)).elements .empty =
      some (pool.refresh running matching computes).2.matchedMachines := by
  unfold refresh at returned ⊢
  dsimp only at returned ⊢
  split at returned
  · cases returned
  · next found => rw [found]

theorem mem_refreshed {computes : List (ComputeMetadata Node)}
    (returned : (pool.refresh running matching computes).1 = true) (m : Node) :
    m ∈ (pool.refresh running matching computes).2.matchedMachines.elements ↔
      pool.Belongs running matching computes m ∧ pool.detectedMachines.contains m = false := by
  rw [mem_matchAppeared (KeyedSet.distinct _) (fun _ _ => rfl) (refresh_returned returned),
    filterForAllowedMachines, KeyedSet.mem_removeAll, KeyedSet.mem_removeAll]
  constructor
  · rintro (nothing | ⟨⟨⟨listed, appeared⟩, allowed⟩, runs, matched⟩)
    · cases nothing
    · exact ⟨⟨listed, runs, allowed, matched⟩, appeared⟩
  · rintro ⟨belongs, appeared⟩
    exact Or.inr ⟨⟨⟨belongs.listed, appeared⟩, belongs.allowed⟩, belongs.running, belongs.matched⟩

theorem refreshMatches_iff {computes : List (ComputeMetadata Node)}
    (returned : (pool.refresh running matching computes).1 = true) :
    pool.RefreshMatches running matching computes ↔ pool.AllAppear running matching computes :=
  forall_congr' fun m => by rw [mem_refreshed returned, and_iff_left_iff_imp]

theorem everyRefresh_congr
    {holds same : MachinePool key Template → List (ComputeMetadata Node) → Prop}
    (agree : ∀ pool computes, (pool.refresh running matching computes).1 = true →
      (holds pool computes ↔ same pool computes))
    (blocks : List (Block key Template)) :
    EveryRefresh running matching holds pool blocks ↔
      EveryRefresh running matching same pool blocks := by
  induction blocks generalizing pool with
  | nil => exact Iff.rfl
  | cons block rest ih =>
    exact and_congr
      (forall_congr' fun computes => forall_congr' fun _ => forall_congr' fun returned =>
        agree pool computes returned) ih

/-- From a new pool, every refresh leaves matched the machines that belong to the pool exactly
when no refresh lists such a machine that was detected before. -/
theorem refresh_matches_iff (running : Node → Bool) (matching : Template → Node → Option Bool)
    (blocks : List (Block key Template)) :
    EveryRefresh running matching (RefreshMatches running matching) create blocks ↔
      EveryRefresh running matching (AllAppear running matching) create blocks :=
  everyRefresh_congr (fun _ _ returned => refreshMatches_iff returned) blocks

end Blocks
end Pool

section Example
open MachinePoolPredicates

def runningNode : NodeMetadata Unit where
  id := "node"
  state := .running
  tags := ["pool"]
  userMetadata := .empty
  hardware := none
  operatingSystem := none
  location := .null

def sameId : NodeMetadata Unit → String := (·.id)

def nodeRuns (m : NodeMetadata Unit) : Bool := decide (m.state = .running)

def nodeMatches : ReusableMachineTemplate Unit → NodeMetadata Unit → Option Bool :=
  «matches» fun _ _ => none

/-- The node is matched by the first refresh and no more by the second. -/
theorem listed_again_lost :
    ¬ EveryRefresh nodeRuns nodeMatches (RefreshMatches nodeRuns nodeMatches)
      (create : MachinePool sameId (ReusableMachineTemplate Unit))
      [.registerTemplates [{ tags := ["pool"] }],
        .refresh [.node runningNode], .refresh [.node runningNode]] := by
  rintro ⟨-, -, again, -⟩
  have lost := (again _ rfl (by decide) runningNode).mpr
    ⟨List.mem_singleton_self _, rfl, rfl, _, List.mem_singleton_self _, by decide⟩
  exact absurd (List.length_pos_of_mem lost) (by decide)

end Example
end MachinePool
end Brooklyn
