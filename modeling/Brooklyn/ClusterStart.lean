import Brooklyn.JavaNumber
import Brooklyn.DynamicClusterAccounts

/-!
`DynamicCluster.start`. The size that it has reached is compared with the initial size of the
configuration, both as boxed integers. Managing the quarantine group, resuming the policies
and setting attributes return.
-/

namespace Brooklyn

inductive Lifecycle where
  | created | starting | running | stopping | stopped | destroyed | onFire
deriving DecidableEq

inductive StartFault (Ref : Type) where
  | nullLocations
  | wrongNumberOfLocations
  | notOnlyLocation
  | cluster (fault : ClusterFault Ref)
  | failedToGetToInitialSize

/-- The cluster with the attributes that `start` sets and the locations that it has. -/
structure ClusterEntity (Ref Location : Type) where
  cluster : DynamicCluster Ref
  locations : LinkedSet Location
  quarantineGroup : Bool
  serviceState : Option Lifecycle
  serviceUp : Option Bool

namespace ClusterEntity
variable {Ref Location : Type} [DecidableEq Ref] [DecidableEq Location]
  {cacheHigh : Int32}

def getCurrentSize (entity : ClusterEntity Ref Location) : Int32 :=
  Int32.ofNat entity.cluster.members.elements.length

def calculateServiceUp (entity : ClusterEntity Ref Location) : Bool :=
  entity.serviceState = some .running

/-- `resize`, where new nodes are started in the only location. -/
def resize (surroundings : ClusterSurroundings Ref) (desiredSize : Int32)
    (entity : ClusterEntity Ref Location) :
    Except (StartFault Ref) Unit × ClusterEntity Ref Location :=
  if entity.locations.elements.length ≠ 1 ∧ 0 < desiredSize - entity.getCurrentSize then
    match DynamicCluster.addNodes surroundings (desiredSize - entity.getCurrentSize).toInt.toNat 0 []
        entity.cluster with
    | (.error fault, cluster) => (.error (.cluster fault), { entity with cluster := cluster })
    | (.ok _, cluster) => (.error .notOnlyLocation, { entity with cluster := cluster })
  else
    match DynamicCluster.resize.{0} surroundings desiredSize entity.cluster with
    | (.error fault, cluster) => (.error (.cluster fault), { entity with cluster := cluster })
    | (.ok _, cluster) => (.ok (), { entity with cluster := cluster })

/-- What `start` does before and after the locations have been checked. -/
def quarantined (surroundings : ClusterSurroundings Ref) (entity : ClusterEntity Ref Location) :
    ClusterEntity Ref Location :=
  { entity with quarantineGroup := surroundings.quarantineEnabled || entity.quarantineGroup }

def located (locs : List Location) (entity : ClusterEntity Ref Location) :
    ClusterEntity Ref Location :=
  { entity with
    locations := entity.locations.addAll locs
    serviceState := some .starting }

/-- `!=` of two boxed integers, and what follows it. -/
def checkInitialSize (objects : Nat) (initialSize : BoxedInteger cacheHigh)
    (entity : ClusterEntity Ref Location) :
    Except (StartFault Ref) Unit × ClusterEntity Ref Location :=
  if BoxedInteger.valueOf objects entity.getCurrentSize ≠ initialSize then
    (.error .failedToGetToInitialSize, entity)
  else
    let entity := { entity with serviceState := some .running }
    (.ok (), { entity with serviceUp := some entity.calculateServiceUp })

/-- The group that the attribute has is that of the surroundings. -/
def start (surroundings : ClusterSurroundings Ref) (objects : Nat)
    (initialSize : BoxedInteger cacheHigh) (locs : Option (List Location))
    (entity : ClusterEntity Ref Location) :
    Except (StartFault Ref) Unit × ClusterEntity Ref Location :=
  let entity := entity.quarantined surroundings
  match locs with
  | none => (.error .nullLocations, entity)
  | some locs =>
      if locs.length ≠ 1 then (.error .wrongNumberOfLocations, entity)
      else
        match resize { surroundings with quarantineGroup := entity.quarantineGroup }
            initialSize.value (entity.located locs) with
        | (.error fault, entity) => (.error fault, entity)
        | (.ok _, entity) => checkInitialSize objects initialSize entity

/-- The factory makes as many new entities as are asked for, each of which starts and stays. -/
structure EveryMemberStarts (surroundings : ClusterSurroundings Ref) (members : LinkedSet Ref)
    (delta : Nat) : Prop where
  created : ∃ nodes, DynamicCluster.created surroundings delta 0 = some nodes ∧ nodes.Nodup ∧
    ∀ e ∈ nodes, e ∉ members
  started : ∀ e, surroundings.startFails e = false
  uninterrupted : surroundings.startInterrupted = false
  stays : surroundings.removedWhileStarting = []

omit [DecidableEq Ref] in
theorem length_created {surroundings : ClusterSurroundings Ref} {more index : Nat}
    {nodes : List Ref} (made : DynamicCluster.created surroundings more index = some nodes) :
    nodes.length = more := by
  induction more generalizing index nodes with
  | zero =>
    cases made
    rfl
  | succ more ih =>
    rw [DynamicCluster.created] at made
    split at made
    · cases made
    · split at made
      · obtain ⟨rest, others, rfl⟩ := Option.map_eq_some_iff.mp made
        exact congrArg Nat.succ (ih others)
      · cases made

omit [DecidableEq Ref] in
theorem created_grouped (surroundings : ClusterSurroundings Ref) (group : Bool)
    (more index : Nat) :
    DynamicCluster.created { surroundings with quarantineGroup := group } more index =
      DynamicCluster.created surroundings more index := by
  induction more generalizing index with
  | zero => rfl
  | succ more ih => simp only [DynamicCluster.created, ih]

omit [DecidableEq Ref] in
theorem EveryMemberStarts.grouped {surroundings : ClusterSurroundings Ref}
    {members : LinkedSet Ref} {delta : Nat}
    (starts : EveryMemberStarts surroundings members delta) (group : Bool) :
    EveryMemberStarts { surroundings with quarantineGroup := group } members delta := by
  obtain ⟨nodes, made, new⟩ := starts.created
  exact ⟨⟨nodes, (created_grouped surroundings group delta 0).trans made, new⟩, starts.started,
    starts.uninterrupted, starts.stays⟩

/-- With distinct new entities, growing by a number adds that many members. -/
theorem grow_members {surroundings : ClusterSurroundings Ref} {cluster : DynamicCluster Ref}
    {delta : Nat} (starts : EveryMemberStarts surroundings cluster.members delta) :
    ∃ nodes after, DynamicCluster.grow surroundings delta cluster = (.ok nodes, after) ∧
      after.members.elements.length = cluster.members.elements.length + delta := by
  obtain ⟨nodes, made, distinct, fresh⟩ := starts.created
  rcases @DynamicCluster.addNodes_cases _ _ surroundings delta 0 [] cluster with
    ⟨none, _⟩ | ⟨others, after, made', ended, added⟩
  · rw [made] at none
    cases none
  · rw [made] at made'
    cases made'
    have failed : nodes.filter surroundings.startFails = [] := List.filter_eq_nil_iff.mpr
      fun e _ => by simp [starts.started e]
    have members : after.members.elements.Perm (cluster.members.elements ++ nodes) := by
      refine (List.perm_ext_iff_of_nodup after.members.distinct ?_).mpr fun e => ?_
      · exact cluster.members.distinct.append distinct fun e member new => fresh e new member
      · exact (added.members e).trans List.mem_append.symm
    refine ⟨nodes.filter fun e => !surroundings.startFails e, after, ?_, ?_⟩
    · simp only [DynamicCluster.grow, ended, List.nil_append, DynamicCluster.removedByOthers,
        starts.stays, starts.uninterrupted, failed]
      rfl
    · rw [members.length_eq, List.length_append, length_created made]

/-- The difference of two sizes is no overflow. -/
theorem delta_toInt {desiredSize : Int32} {size : Nat} (nonneg : 0 ≤ desiredSize.toInt)
    (room : size ≤ desiredSize.toInt.toNat) :
    (desiredSize - Int32.ofNat size).toInt = desiredSize.toInt - size := by
  have small : desiredSize.toInt < 2 ^ 31 := desiredSize.toInt_lt
  have count : (Int32.ofNat size).toInt = size := Int32.toInt_ofNat_of_lt (by omega)
  rw [Int32.toInt_sub_of_le _ _ ?_ ?_, count]
  · rw [Int32.le_iff_toInt_le, count]
    exact Int.natCast_nonneg size
  · rw [Int32.le_iff_toInt_le, count]
    omega

theorem resize_members {surroundings : ClusterSurroundings Ref} {cluster : DynamicCluster Ref}
    {desiredSize : Int32} (nonneg : 0 ≤ desiredSize.toInt)
    (room : cluster.members.elements.length ≤ desiredSize.toInt.toNat)
    (starts : EveryMemberStarts surroundings cluster.members
      (desiredSize.toInt.toNat - cluster.members.elements.length)) :
    ∃ after, DynamicCluster.resize.{0} surroundings desiredSize cluster = (.ok ⟨⟩, after) ∧
      after.members.elements.length = desiredSize.toInt.toNat := by
  have difference := delta_toInt nonneg room
  have sign (n : Int32) : 0 < n ↔ 0 < n.toInt := Int32.lt_iff_toInt_lt
  rw [DynamicCluster.resize]
  by_cases more : 0 < desiredSize - Int32.ofNat cluster.members.elements.length
  · have count : (desiredSize - Int32.ofNat cluster.members.elements.length).toInt.toNat =
        desiredSize.toInt.toNat - cluster.members.elements.length := by omega
    obtain ⟨nodes, after, grown, length⟩ := grow_members starts
    refine ⟨after, ?_, by omega⟩
    simp only [if_pos more, count, grown]
  · have equal : ¬ (desiredSize - Int32.ofNat cluster.members.elements.length) < 0 := by
      rw [Int32.lt_iff_toInt_lt, difference]
      have zero : (0 : Int32).toInt = 0 := rfl
      omega
    refine ⟨cluster, by simp only [if_neg more, if_neg equal], ?_⟩
    rw [sign, difference] at more
    omega

theorem one_location_iff (locations : LinkedSet Location) (l : Location) :
    (locations.addAll [l]).elements.length = 1 ↔ ∀ other ∈ locations, other = l := by
  have member (other : Location) : other ∈ (locations.addAll [l]).elements ↔
      other ∈ locations ∨ other ∈ [l] := LinkedSet.mem_addAll locations [l] other
  constructor
  · intro single other there
    obtain ⟨only, all⟩ := List.length_eq_one_iff.mp single
    have here := (member l).mpr (Or.inr (List.mem_singleton_self l))
    have another := (member other).mpr (Or.inl there)
    rw [all, List.mem_singleton] at here another
    rw [here, another]
  · intro same
    have perm : (locations.addAll [l]).elements.Perm [l] := by
      refine (List.perm_ext_iff_of_nodup (LinkedSet.distinct _) (List.nodup_singleton l)).mpr
        fun other => ?_
      rw [member, List.mem_singleton]
      exact or_iff_right_of_imp (same other)
    exact perm.length_eq

omit [DecidableEq Location] in
/-- `resize` with one location makes the members; with more it stops when there are some to
start. -/
theorem resize_cases {surroundings : ClusterSurroundings Ref} {desiredSize : Int32}
    (entity : ClusterEntity Ref Location) (nonneg : 0 ≤ desiredSize.toInt)
    (room : entity.cluster.members.elements.length ≤ desiredSize.toInt.toNat)
    (starts : EveryMemberStarts surroundings entity.cluster.members
      (desiredSize.toInt.toNat - entity.cluster.members.elements.length)) :
    ((entity.cluster.members.elements.length < desiredSize.toInt.toNat →
        entity.locations.elements.length = 1) ∧
      ∃ cluster, resize surroundings desiredSize entity =
          (.ok (), { entity with cluster := cluster }) ∧
        cluster.members.elements.length = desiredSize.toInt.toNat) ∨
    (entity.cluster.members.elements.length < desiredSize.toInt.toNat ∧
      entity.locations.elements.length ≠ 1 ∧
      ∃ fault after, resize surroundings desiredSize entity = (.error fault, after)) := by
  have more : 0 < desiredSize - entity.getCurrentSize ↔
      entity.cluster.members.elements.length < desiredSize.toInt.toNat := by
    rw [Int32.lt_iff_toInt_lt, getCurrentSize, delta_toInt nonneg room]
    have zero : (0 : Int32).toInt = 0 := rfl
    omega
  unfold resize
  by_cases several : entity.locations.elements.length ≠ 1 ∧
      0 < desiredSize - entity.getCurrentSize
  · refine Or.inr ⟨more.mp several.2, several.1, ?_⟩
    rw [if_pos several]
    split
    · exact ⟨_, _, rfl⟩
    · exact ⟨_, _, rfl⟩
  · obtain ⟨after, resized, length⟩ := resize_members nonneg room starts
    refine Or.inl ⟨fun short => ?_, after, ?_, length⟩
    · by_contra other
      exact several ⟨other, more.mpr short⟩
    · rw [if_neg several, resized]

/-- The call returns and leaves as many members as the initial size says, running. -/
def StartsRight (surroundings : ClusterSurroundings Ref) (objects : Nat)
    (initialSize : BoxedInteger cacheHigh) (locs : Option (List Location))
    (entity : ClusterEntity Ref Location) : Prop :=
  ∃ after, start surroundings objects initialSize locs entity = (.ok (), after) ∧
    after.cluster.members.elements.length = initialSize.value.toInt.toNat ∧
    after.serviceState = some .running

/-- One location is given, and when there are members to make the cluster has no other. -/
def OneLocation (size : Nat) (locs : Option (List Location))
    (entity : ClusterEntity Ref Location) : Prop :=
  ∃ l, locs = some [l] ∧
    (entity.cluster.members.elements.length < size → ∀ other ∈ entity.locations, other = l)

omit [DecidableEq Ref] [DecidableEq Location] in
/-- Once the members are there the check passes for the object that boxing their number gives. -/
theorem checkInitialSize_passes_iff {objects : Nat} {initialSize : BoxedInteger cacheHigh}
    {entity : ClusterEntity Ref Location} (before : initialSize.MadeBefore objects)
    (nonneg : 0 ≤ initialSize.value.toInt)
    (length : entity.cluster.members.elements.length = initialSize.value.toInt.toNat) :
    (∃ after, checkInitialSize objects initialSize entity = (.ok (), after) ∧
      after.cluster.members.elements.length = initialSize.value.toInt.toNat ∧
      after.serviceState = some .running) ↔ initialSize.isCached = true := by
  have reached : entity.getCurrentSize = initialSize.value := by
    apply Int32.toInt_inj.mp
    have small : initialSize.value.toInt < 2 ^ 31 := initialSize.value.toInt_lt
    rw [getCurrentSize, length, Int32.toInt_ofNat_of_lt (by omega)]
    omega
  have boxed : BoxedInteger.valueOf objects entity.getCurrentSize = initialSize ↔
      initialSize.isCached = true := by
    rw [BoxedInteger.valueOf_eq_iff before, reached, and_iff_left rfl]
  unfold checkInitialSize
  rw [← boxed]
  by_cases same : BoxedInteger.valueOf objects entity.getCurrentSize = initialSize
  · rw [if_neg (not_not.mpr same)]
    exact iff_of_true ⟨_, rfl, length, rfl⟩ same
  · rw [if_pos same]
    refine iff_of_false ?_ same
    rintro ⟨after, ran, _⟩
    cases ran

/-- Where every member starts, the cluster starts when it is given its only location and the
initial size is the object that boxing its value gives. -/
theorem start_right_iff (surroundings : ClusterSurroundings Ref) (objects : Nat)
    (initialSize : BoxedInteger cacheHigh) (locs : Option (List Location))
    (entity : ClusterEntity Ref Location) (before : initialSize.MadeBefore objects)
    (nonneg : 0 ≤ initialSize.value.toInt)
    (room : entity.cluster.members.elements.length ≤ initialSize.value.toInt.toNat)
    (starts : EveryMemberStarts surroundings entity.cluster.members
      (initialSize.value.toInt.toNat - entity.cluster.members.elements.length)) :
    StartsRight surroundings objects initialSize locs entity ↔
      OneLocation initialSize.value.toInt.toNat locs entity ∧ initialSize.isCached = true := by
  match locs with
  | none | some [] | some (_ :: _ :: _) =>
    refine iff_of_false ?_ ?_
    · rintro ⟨after, ran, _⟩
      cases ran
    · rintro ⟨⟨l, given, _⟩, _⟩
      cases given
  | some [l] =>
    have ran : start surroundings objects initialSize (some [l]) entity =
        match resize { surroundings with
            quarantineGroup := surroundings.quarantineEnabled || entity.quarantineGroup }
            initialSize.value ((entity.quarantined surroundings).located [l]) with
        | (.error fault, entity) => (.error fault, entity)
        | (.ok _, entity) => checkInitialSize objects initialSize entity := rfl
    have located := one_location_iff entity.locations l
    unfold StartsRight
    rw [ran]
    have made := starts.grouped (surroundings.quarantineEnabled || entity.quarantineGroup)
    rcases resize_cases ((entity.quarantined surroundings).located [l]) nonneg room made with ⟨single, cluster, resized, length⟩ | ⟨short, several, fault, after, thrown⟩
    · rw [resized]
      refine (checkInitialSize_passes_iff before nonneg length).trans (iff_and_self.mpr fun _ => ?_)
      exact ⟨l, rfl, fun short => located.mp (single short)⟩
    · rw [thrown]
      refine iff_of_false ?_ ?_
      · rintro ⟨after, thrown, _⟩
        cases thrown
      · rintro ⟨⟨other, given, alone⟩, _⟩
        cases given
        exact several (located.mpr (alone short))

/-- New entities are numbered, and nothing fails. -/
def numbering : ClusterSurroundings Nat where
  startable := fun _ => true
  removalStrategy := none
  removedBefore := fun _ => []
  stopFails := fun _ => false
  invokedInTime := fun _ => true
  factory := some .entity
  startFails := fun _ => false
  startInterrupted := false
  removedWhileStarting := []
  quarantineEnabled := false
  quarantineGroup := false

def notStarted : ClusterEntity Nat Unit where
  cluster := .ofMembers .empty
  locations := .empty
  quarantineGroup := false
  serviceState := none
  serviceUp := some false

theorem three_members_start :
    StartsRight numbering 0 (.cached 3 (by decide) (by decide) : BoxedInteger 127) (some [()])
      notStarted := by
  refine (start_right_iff _ _ _ _ _ ?_ (by decide) (by decide) ?_).mpr ⟨?_, rfl⟩
  · exact True.intro
  · exact ⟨⟨[0, 1, 2], rfl, by decide, by decide⟩, fun _ => rfl, rfl, rfl⟩
  · exact ⟨(), rfl, fun _ other _ => rfl⟩

-- Boxing 128 twice gives two objects.
theorem size_128_not_recognised :
    ¬ StartsRight numbering 1 (.object 0 128 : BoxedInteger 127) (some [()]) notStarted := by
  rintro ⟨after, ran, _⟩
  have thrown : (start numbering 1 (.object 0 128 : BoxedInteger 127) (some [()])
      notStarted).1.toBool = false := by decide +kernel
  rw [ran] at thrown
  cases thrown

end ClusterEntity
end Brooklyn
