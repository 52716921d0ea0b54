import Brooklyn.LinkedCollections
import Brooklyn.Publication
import Brooklyn.Transition

/-!
The polls of `AbstractGeoDnsService`. Each brings the map of the target hosts up to date
with the pool and hands its values to `reconfigureService` when it found a change. The
attributes of an entity and the look-ups stay as they are from poll to poll.
-/

namespace Brooklyn

/-- Two of these are equal when their addresses and display names are. -/
structure HostGeoInfo where
  address : String
  displayName : String
deriving DecidableEq

structure GeoLookup (Entity : Type) where
  id : Entity → String
  hostname : Entity → Option String
  rootUrl : Entity → Option String
  urlHost : String → Except String String
  fromIpAddress : String → Except String (Option HostGeoInfo)
  fromEntity : Entity → Except String (Option HostGeoInfo)

/-- `null` when no entity is set to provide the targets; what it lists otherwise. -/
structure GeoPoll (Entity : Type) where
  targetEntityProvider : Option (List Entity)
  reconfigureThrows : Bool

/-- The last two fields record what `reconfigureService` did: what it was last given without
throwing, and whether it threw when it was last called. -/
structure AbstractGeoDnsService (Entity : Type) where
  targetHosts : LinkedMap Entity HostGeoInfo
  targets : Option (LinkedMap String String)
  accepted : LinkedSet HostGeoInfo
  threw : Bool

namespace AbstractGeoDnsService
variable {Entity : Type} [DecidableEq Entity]

def hostnameOf (lookup : GeoLookup Entity) (e : Entity) : Except String (Option String) := do
  match lookup.rootUrl e with
  | none => return lookup.hostname e
  | some url => return some ((lookup.hostname e).getD (← lookup.urlHost url))

/-- What `addTargetHost` finds out about an entity. -/
def lookUp (lookup : GeoLookup Entity) (e : Entity) : Except String (Option HostGeoInfo) := do
  match ← hostnameOf lookup e with
  | none => return none
  | some hostname =>
      match ← lookup.fromIpAddress hostname with
      | none => return none
      | some geoH =>
          -- The geography of the entity's locations is only compared, for a warning.
          let _ ← lookup.fromEntity e
          return some geoH

def geoInfo (lookup : GeoLookup Entity) (e : Entity) : Option HostGeoInfo :=
  match lookUp lookup e with
  | .ok found => found
  | .error _ => none

def addTargetHost (lookup : GeoLookup Entity) (targetHosts : LinkedMap Entity HostGeoInfo)
    (e : Entity) : Bool × LinkedMap Entity HostGeoInfo :=
  if e ∈ targetHosts.keys then (false, targetHosts)
  else match geoInfo lookup e with
    | some geoH => (true, targetHosts.put e geoH)
    | none => (false, targetHosts)

def removeTargetHost (targetHosts : LinkedMap Entity HostGeoInfo) (e : Entity) :
    Bool × LinkedMap Entity HostGeoInfo :=
  ((targetHosts.get e).isSome, targetHosts.remove e)

structure Scan (Entity : Type) where
  targetHosts : LinkedMap Entity HostGeoInfo
  previousOnes : LinkedSet Entity
  changed : Bool

def scanEntity (lookup : GeoLookup Entity) (scan : Scan Entity) (e : Entity) : Scan Entity :=
  if e ∈ scan.previousOnes then { scan with previousOnes := scan.previousOnes.remove e }
  else
    let (added, targetHosts) := addTargetHost lookup scan.targetHosts e
    { scan with targetHosts := targetHosts, changed := scan.changed || added }

def scanPool (lookup : GeoLookup Entity) (pool : List Entity) (scan : Scan Entity) :
    Scan Entity :=
  pool.foldl (scanEntity lookup) scan

def dropEntity (scan : Scan Entity) (e : Entity) : Scan Entity :=
  { scan with changed := true, targetHosts := (removeTargetHost scan.targetHosts e).2 }

def dropPrevious (scan : Scan Entity) : Scan Entity :=
  scan.previousOnes.elements.foldl dropEntity scan

/-- The two loops of a poll. -/
def rescan (lookup : GeoLookup Entity) (members : List Entity)
    (targetHosts : LinkedMap Entity HostGeoInfo) : Scan Entity :=
  let pool := LinkedSet.empty.addAll members
  dropPrevious (scanPool lookup pool.elements ⟨targetHosts, targetHosts.keys, false⟩)

def entityIdToUrl (lookup : GeoLookup Entity) (m : LinkedMap Entity HostGeoInfo) :
    LinkedMap String String :=
  LinkedMap.empty.putAll (m.entries.map fun entry => (lookup.id entry.1, entry.2.address))

def hosts (m : LinkedMap Entity HostGeoInfo) : LinkedSet HostGeoInfo :=
  LinkedSet.empty.addAll m.values

/-- An attribute is set after the call, so not when the call throws. -/
def update (lookup : GeoLookup Entity) (reconfigureThrows : Bool)
    (service : AbstractGeoDnsService Entity) : AbstractGeoDnsService Entity :=
  if reconfigureThrows then { service with threw := true }
  else { service with
    accepted := hosts service.targetHosts
    threw := false
    targets := some (entityIdToUrl lookup service.targetHosts) }

/-- What an attempt to update throws is caught and logged. -/
def refreshGroupMembership (lookup : GeoLookup Entity) (poll : GeoPoll Entity)
    (service : AbstractGeoDnsService Entity) : AbstractGeoDnsService Entity :=
  match poll.targetEntityProvider with
  | none => service
  | some members =>
      let scan := rescan lookup members service.targetHosts
      let service := { service with targetHosts := scan.targetHosts }
      if scan.changed then update lookup poll.reconfigureThrows service else service

def initial : AbstractGeoDnsService Entity where
  targetHosts := .empty
  targets := none
  accepted := .empty
  threw := false

def polling (lookup : GeoLookup Entity) :
    Transition.System (AbstractGeoDnsService Entity) (GeoPoll Entity) where
  initial := initial
  step service poll := some (refreshGroupMembership lookup poll service)

/-- Whether the poll called `reconfigureService` and the call threw. -/
def reconfigureThrew (lookup : GeoLookup Entity) (poll : GeoPoll Entity)
    (service : AbstractGeoDnsService Entity) : Bool :=
  match poll.targetEntityProvider with
  | none => false
  | some members =>
      (rescan lookup members service.targetHosts).changed && poll.reconfigureThrows

/-- An entity with geography that is not recorded yet. -/
def missing (lookup : GeoLookup Entity) (targetHosts : LinkedMap Entity HostGeoInfo)
    (e : Entity) : Bool :=
  decide (e ∉ targetHosts.keys) && (geoInfo lookup e).isSome

/-- The pool is not the one of the record: such an entity came, or a recorded one left. -/
def poolChanged (lookup : GeoLookup Entity) (members : List Entity)
    (targetHosts : LinkedMap Entity HostGeoInfo) : Bool :=
  members.any (missing lookup targetHosts) ||
    targetHosts.keys.elements.any fun e => decide (e ∉ members)

section Scans
variable (lookup : GeoLookup Entity)

/-- The entities that are still to be seen are recorded. -/
def Scan.Known (scan : Scan Entity) : Prop :=
  ∀ e ∈ scan.previousOnes, e ∈ scan.targetHosts.keys

theorem get_addTargetHost (targetHosts : LinkedMap Entity HostGeoInfo) (e other : Entity) :
    (addTargetHost lookup targetHosts e).2.get other =
      if other = e then (targetHosts.get e).or (geoInfo lookup e) else targetHosts.get other := by
  unfold addTargetHost
  by_cases recorded : e ∈ targetHosts.keys
  · obtain ⟨info, found⟩ := Option.isSome_iff_exists.mp ((targetHosts.defined e).mp recorded)
    rw [if_pos recorded]
    split
    · next same => rw [same, found, Option.some_or]
    · rfl
  · have missing : targetHosts.get e = none :=
      Option.not_isSome_iff_eq_none.mp (mt (targetHosts.defined e).mpr recorded)
    rw [if_neg recorded, missing, Option.none_or]
    cases geoInfo lookup e with
    | some info => exact LinkedMap.get_put _ _ _ _
    | none =>
      change targetHosts.get other = _
      split
      · next same => rw [same, missing]
      · rfl

theorem addTargetHost_added (targetHosts : LinkedMap Entity HostGeoInfo) (e : Entity) :
    (addTargetHost lookup targetHosts e).1 = missing lookup targetHosts e := by
  unfold addTargetHost missing
  split
  · next recorded => simp [recorded]
  · next absent => cases geoInfo lookup e <;> simp [absent]

theorem addTargetHost_of_not_added {targetHosts : LinkedMap Entity HostGeoInfo} {e : Entity}
    (same : (addTargetHost lookup targetHosts e).1 = false) :
    (addTargetHost lookup targetHosts e).2 = targetHosts := by
  unfold addTargetHost at same ⊢
  split at same
  · next recorded => rw [if_pos recorded]
  · next absent =>
    rw [if_neg absent]
    cases found : geoInfo lookup e with
    | some info => rw [found] at same; cases same
    | none => rfl

theorem get_scanEntity {scan : Scan Entity} (known : scan.Known) (e other : Entity) :
    (scanEntity lookup scan e).targetHosts.get other =
      if other = e then (scan.targetHosts.get e).or (geoInfo lookup e)
      else scan.targetHosts.get other := by
  unfold scanEntity
  split
  · next seen =>
    obtain ⟨info, found⟩ :=
      Option.isSome_iff_exists.mp ((scan.targetHosts.defined e).mp (known e seen))
    split
    · next same => rw [same, found, Option.some_or]
    · rfl
  · exact get_addTargetHost lookup scan.targetHosts e other

theorem scanEntity_previousOnes (scan : Scan Entity) (e : Entity) :
    (scanEntity lookup scan e).previousOnes = scan.previousOnes.remove e := by
  unfold scanEntity
  split
  · rfl
  · next unseen => exact (LinkedSet.remove_of_not_mem unseen).symm

theorem scanEntity_known {scan : Scan Entity} (known : scan.Known) (e : Entity) :
    (scanEntity lookup scan e).Known := by
  intro other member
  rw [scanEntity_previousOnes, LinkedSet.mem_remove] at member
  rw [LinkedMap.defined, get_scanEntity lookup known, if_neg member.2, ← LinkedMap.defined]
  exact known other member.1

theorem scanEntity_changed {scan : Scan Entity} (known : scan.Known) (e : Entity) :
    (scanEntity lookup scan e).changed =
      (scan.changed || missing lookup scan.targetHosts e) := by
  unfold scanEntity
  split
  · next seen => simp [missing, known e seen]
  · exact congrArg (scan.changed || ·) (addTargetHost_added lookup scan.targetHosts e)

theorem scanEntity_unchanged {scan : Scan Entity} {e : Entity}
    (same : (scanEntity lookup scan e).changed = false) :
    (scanEntity lookup scan e).targetHosts = scan.targetHosts := by
  unfold scanEntity at same ⊢
  split at same
  · next seen => rw [if_pos seen]
  · next unseen =>
    rw [if_neg unseen]
    exact addTargetHost_of_not_added lookup (Bool.or_eq_false_iff.mp same).2

theorem get_scanPool {scan : Scan Entity} (known : scan.Known) (pool : List Entity)
    (e : Entity) :
    (scanPool lookup pool scan).targetHosts.get e =
      if e ∈ pool then (scan.targetHosts.get e).or (geoInfo lookup e)
      else scan.targetHosts.get e := by
  induction pool generalizing scan with
  | nil => rfl
  | cons first rest ih =>
    refine (ih (scanEntity_known lookup known first)).trans ?_
    rw [get_scanEntity lookup known]
    by_cases same : e = first
    · subst same
      simp [Option.or_assoc]
    · simp [same]

theorem scanPool_previousOnes (pool : List Entity) (scan : Scan Entity) :
    (scanPool lookup pool scan).previousOnes = scan.previousOnes.removeAll pool := by
  induction pool generalizing scan with
  | nil => rfl
  | cons first rest ih =>
    refine (ih (scanEntity lookup scan first)).trans ?_
    rw [scanEntity_previousOnes]
    rfl

theorem scanPool_of_unchanged {pool : List Entity} {scan : Scan Entity}
    (same : (scanPool lookup pool scan).changed = false) :
    scan.changed = false ∧ (scanPool lookup pool scan).targetHosts = scan.targetHosts := by
  induction pool generalizing scan with
  | nil => exact ⟨same, rfl⟩
  | cons first rest ih =>
    obtain ⟨before, hosts⟩ := ih same
    refine ⟨?_, hosts.trans (scanEntity_unchanged lookup before)⟩
    unfold scanEntity at before
    split at before
    · exact before
    · exact (Bool.or_eq_false_iff.mp before).1

theorem scanPool_changed {scan : Scan Entity} (known : scan.Known) (pool : List Entity) :
    (scanPool lookup pool scan).changed =
      (scan.changed || pool.any (missing lookup scan.targetHosts)) := by
  induction pool generalizing scan with
  | nil => exact (Bool.or_false _).symm
  | cons first rest ih =>
    have stepped := scanEntity_changed lookup known first
    refine (ih (scanEntity_known lookup known first)).trans ?_
    rw [List.any_cons, ← Bool.or_assoc, ← stepped]
    cases found : (scanEntity lookup scan first).changed with
    | true => rw [Bool.true_or, Bool.true_or]
    | false => rw [scanEntity_unchanged lookup found]

theorem dropped (elements : List Entity) (scan : Scan Entity) :
    (elements.foldl dropEntity scan).targetHosts = scan.targetHosts.removeAll elements ∧
      (elements.foldl dropEntity scan).changed = (scan.changed || !elements.isEmpty) := by
  induction elements generalizing scan with
  | nil => exact ⟨rfl, (Bool.or_false _).symm⟩
  | cons first rest ih =>
    obtain ⟨hosts, changed⟩ := ih (dropEntity scan first)
    refine ⟨hosts, changed.trans ?_⟩
    simp [dropEntity]

theorem rescan_changed (members : List Entity) (targetHosts : LinkedMap Entity HostGeoInfo) :
    (rescan lookup members targetHosts).changed = poolChanged lookup members targetHosts := by
  have listed : ∀ e, e ∈ (LinkedSet.empty.addAll members).elements ↔ e ∈ members := fun e =>
    (LinkedSet.mem_addAll _ _ e).trans (or_iff_right (LinkedSet.not_mem_empty e))
  refine ((dropped _ _).2).trans (congrArg₂ or ?_ ?_)
  · rw [scanPool_changed lookup fun _ member => member, Bool.false_or, Bool.eq_iff_iff,
      List.any_eq_true, List.any_eq_true]
    exact exists_congr fun e => and_congr_left fun _ => listed e
  · rw [scanPool_previousOnes, Bool.eq_iff_iff, List.any_eq_true, Bool.not_eq_true',
      List.isEmpty_eq_false_iff_exists_mem]
    refine exists_congr fun e => ?_
    rw [decide_eq_true_iff, ← listed e]
    exact LinkedSet.mem_removeAll _ _ e

theorem rescan_of_unchanged {members : List Entity} {targetHosts : LinkedMap Entity HostGeoInfo}
    (same : (rescan lookup members targetHosts).changed = false) :
    (rescan lookup members targetHosts).targetHosts = targetHosts := by
  obtain ⟨hosts, changed⟩ := dropped (scanPool lookup (LinkedSet.empty.addAll members).elements
    ⟨targetHosts, targetHosts.keys, false⟩).previousOnes.elements _
  obtain ⟨scanned, none_left⟩ := Bool.or_eq_false_iff.mp (changed.symm.trans same)
  rw [Bool.not_eq_false', List.isEmpty_iff] at none_left
  refine hosts.trans ?_
  rw [none_left]
  exact (scanPool_of_unchanged lookup scanned).2

/-- What a poll records: the geography of the entities of the pool. -/
theorem get_rescan {targetHosts : LinkedMap Entity HostGeoInfo} (members : List Entity)
    (recorded : ∀ e info, targetHosts.get e = some info → geoInfo lookup e = some info)
    (e : Entity) :
    (rescan lookup members targetHosts).targetHosts.get e =
      if e ∈ members then geoInfo lookup e else none := by
  have listed : e ∈ (LinkedSet.empty.addAll members).elements ↔ e ∈ members :=
    (LinkedSet.mem_addAll _ _ e).trans (or_iff_right (LinkedSet.not_mem_empty e))
  have left : e ∈ (targetHosts.keys.removeAll (LinkedSet.empty.addAll members).elements).elements ↔
      e ∈ targetHosts.keys ∧ e ∉ members :=
    (LinkedSet.mem_removeAll _ _ e).trans (and_congr_right fun _ => not_congr listed)
  refine (congrArg (LinkedMap.get · e) (dropped _ _).1).trans ?_
  rw [LinkedMap.get_removeAll, scanPool_previousOnes, get_scanPool lookup fun _ member => member]
  simp only [left, listed, targetHosts.defined]
  by_cases member : e ∈ members
  · simp only [member, not_true_eq_false, and_false, if_false, if_true]
    cases found : targetHosts.get e with
    | some info => rw [Option.some_or, recorded e info found]
    | none => exact Option.none_or
  · simp only [member, not_false_eq_true, and_true, if_false]
    split
    · rfl
    · next absent => exact Option.not_isSome_iff_eq_none.mp absent

end Scans

/-- What the poll attempts, for the record of the target hosts. -/
def attempt (lookup : GeoLookup Entity) (poll : GeoPoll Entity) (members : List Entity)
    (service : AbstractGeoDnsService Entity) : Publication.Attempt :=
  if poolChanged lookup members service.targetHosts then
    if poll.reconfigureThrows then .refused else .accepted
  else .unmade

theorem attempt_unmade {lookup : GeoLookup Entity} {poll : GeoPoll Entity}
    {members : List Entity} {service : AbstractGeoDnsService Entity}
    (unmade : attempt lookup poll members service = .unmade) :
    poolChanged lookup members service.targetHosts = false := by
  unfold attempt at unmade
  split at unmade
  · split at unmade <;> cases unmade
  · next same => exact Bool.eq_false_iff.mpr same

theorem attempt_refused {lookup : GeoLookup Entity} {poll : GeoPoll Entity}
    {members : List Entity} {service : AbstractGeoDnsService Entity}
    (provided : poll.targetEntityProvider = some members)
    (refused : attempt lookup poll members service = .refused) :
    reconfigureThrew lookup poll service = true := by
  unfold attempt at refused
  split at refused
  · next changed =>
    split at refused
    · next throws =>
      unfold reconfigureThrew
      rw [provided]
      exact Bool.and_eq_true_iff.mpr
        ⟨(rescan_changed lookup members service.targetHosts).trans changed, throws⟩
    · cases refused
  · cases refused

/-- The service publishes its record: what the service outside accepted and what the
attribute says are both made from one map. -/
structure Publishes (lookup : GeoLookup Entity) (service : AbstractGeoDnsService Entity)
    (publication : Publication (LinkedMap Entity HostGeoInfo)) : Prop where
  recorded : publication.recorded = service.targetHosts
  accepted : service.accepted = hosts publication.published
  targets : service.targets.getD .empty = entityIdToUrl lookup publication.published
  owed : publication.owed = service.threw
  settled : publication.Settled
  known : ∀ e info, service.targetHosts.get e = some info → geoInfo lookup e = some info

omit [DecidableEq Entity] in
theorem initial_publishes (lookup : GeoLookup Entity) :
    Publishes lookup initial ⟨.empty, .empty, false⟩ where
  recorded := rfl
  accepted := rfl
  targets := rfl
  owed := rfl
  settled := fun _ => rfl
  known := fun e info found => by cases found

theorem attempted {lookup : GeoLookup Entity} {service : AbstractGeoDnsService Entity}
    {publication : Publication (LinkedMap Entity HostGeoInfo)}
    (publishes : Publishes lookup service publication) (poll : GeoPoll Entity)
    (members : List Entity) (unmade : attempt lookup poll members service = .unmade) :
    (rescan lookup members service.targetHosts).targetHosts = publication.recorded := by
  rw [publishes.recorded]
  apply rescan_of_unchanged
  rw [rescan_changed]
  exact attempt_unmade unmade

/-- A poll is a round of the publication of the record. -/
theorem refreshGroupMembership_publishes {lookup : GeoLookup Entity}
    {service : AbstractGeoDnsService Entity} {poll : GeoPoll Entity} {members : List Entity}
    {publication : Publication (LinkedMap Entity HostGeoInfo)}
    (publishes : Publishes lookup service publication)
    (provided : poll.targetEntityProvider = some members) :
    Publishes lookup (refreshGroupMembership lookup poll service)
      (publication.refresh (rescan lookup members service.targetHosts).targetHosts
        (attempt lookup poll members service)) := by
  have settled := Publication.refresh_settled publishes.settled
    (attempted publishes poll members)
  have known : ∀ e info, (rescan lookup members service.targetHosts).targetHosts.get e =
      some info → geoInfo lookup e = some info := fun e info found => by
    rw [get_rescan lookup members publishes.known] at found
    split at found
    · exact found
    · cases found
  unfold refreshGroupMembership
  rw [provided]
  dsimp only
  rw [rescan_changed]
  revert settled
  unfold attempt
  cases poolChanged lookup members service.targetHosts with
  | false =>
    exact fun settled =>
      ⟨rfl, publishes.accepted, publishes.targets, publishes.owed, settled, known⟩
  | true =>
    unfold update
    cases poll.reconfigureThrows with
    | true =>
      exact fun settled => ⟨rfl, publishes.accepted, publishes.targets, rfl, settled, known⟩
    | false => exact fun settled => ⟨rfl, rfl, rfl, rfl, settled, known⟩

theorem reached_publishes {lookup : GeoLookup Entity}
    {guard : AbstractGeoDnsService Entity → GeoPoll Entity → Bool}
    {service : AbstractGeoDnsService Entity}
    (run : Transition.Reached (polling lookup) guard service) :
    ∃ publication, Publishes lookup service publication := by
  refine Transition.reached_invariant
    (fun service => ∃ publication, Publishes lookup service publication)
    ⟨_, initial_publishes lookup⟩ ?_ run
  rintro before poll after _ ⟨publication, publishes⟩ _ moved
  cases moved
  cases provided : poll.targetEntityProvider with
  | none =>
    refine ⟨publication, ?_⟩
    unfold refreshGroupMembership
    rw [provided]
    exact publishes
  | some members => exact ⟨_, refreshGroupMembership_publishes publishes provided⟩

/-- A poll that finds the pool as it is recorded comes only after a call that did not
throw, or before any call. -/
def recovers (lookup : GeoLookup Entity) (service : AbstractGeoDnsService Entity)
    (poll : GeoPoll Entity) : Bool :=
  match poll.targetEntityProvider with
  | none => true
  | some members => poolChanged lookup members service.targetHosts || !service.threw

/-- The service outside has the geography of the pool, and the attribute describes the same
entities. An attribute that is not set describes none. -/
structure Current (lookup : GeoLookup Entity) (members : List Entity)
    (service : AbstractGeoDnsService Entity) : Prop where
  accepted : ∀ info, info ∈ service.accepted ↔ ∃ e ∈ members, geoInfo lookup e = some info
  described : ∀ id, id ∈ (service.targets.getD .empty).keys ↔
    ∃ e ∈ members, lookup.id e = id ∧ (geoInfo lookup e).isSome
  addresses : ∀ id url, (service.targets.getD .empty).get id = some url →
    ∃ e ∈ members, lookup.id e = id ∧ ∃ info, geoInfo lookup e = some info ∧ info.address = url

omit [DecidableEq Entity] in
theorem mem_hosts (m : LinkedMap Entity HostGeoInfo) (info : HostGeoInfo) :
    info ∈ hosts m ↔ ∃ e, m.get e = some info := by
  unfold hosts
  rw [LinkedSet.mem_addAll, or_iff_right (LinkedSet.not_mem_empty info), LinkedMap.mem_values]

omit [DecidableEq Entity] in
theorem mem_entityIdToUrl (lookup : GeoLookup Entity) (m : LinkedMap Entity HostGeoInfo)
    (id : String) :
    id ∈ (entityIdToUrl lookup m).keys ↔ ∃ e info, m.get e = some info ∧ lookup.id e = id := by
  unfold entityIdToUrl
  rw [LinkedMap.keys_putAll, LinkedSet.mem_addAll]
  refine (or_iff_right (LinkedSet.not_mem_empty id)).trans ?_
  simp only [List.map_map, List.mem_map, Function.comp, Prod.exists, LinkedMap.mem_entries]

omit [DecidableEq Entity] in
theorem get_entityIdToUrl {lookup : GeoLookup Entity} {m : LinkedMap Entity HostGeoInfo}
    {id url : String} (found : (entityIdToUrl lookup m).get id = some url) :
    ∃ e info, m.get e = some info ∧ lookup.id e = id ∧ info.address = url := by
  rcases LinkedMap.mem_of_get_putAll found with member | before
  · obtain ⟨⟨e, info⟩, entry, same⟩ := List.mem_map.mp member
    cases same
    exact ⟨e, info, (LinkedMap.mem_entries m e info).mp entry, rfl, rfl⟩
  · cases before

/-- What is published is current when it is the geography of the pool. -/
theorem Publishes.current {lookup : GeoLookup Entity} {service : AbstractGeoDnsService Entity}
    {publication : Publication (LinkedMap Entity HostGeoInfo)} {members : List Entity}
    (publishes : Publishes lookup service publication)
    (found : ∀ e, publication.published.get e =
      if e ∈ members then geoInfo lookup e else none) : Current lookup members service := by
  have published : ∀ e info, publication.published.get e = some info ↔
      e ∈ members ∧ geoInfo lookup e = some info := fun e info => by
    rw [found e]
    split
    · next member => exact (and_iff_right member).symm
    · next absent => exact ⟨nofun, fun there => absurd there.1 absent⟩
  constructor
  · intro info
    rw [publishes.accepted, mem_hosts]
    exact exists_congr fun e => published e info
  · intro id
    rw [publishes.targets, mem_entityIdToUrl]
    constructor
    · rintro ⟨e, info, there, named⟩
      obtain ⟨member, geo⟩ := (published e info).mp there
      exact ⟨e, member, named, Option.isSome_iff_exists.mpr ⟨info, geo⟩⟩
    · rintro ⟨e, member, named, some_geo⟩
      obtain ⟨info, geo⟩ := Option.isSome_iff_exists.mp some_geo
      exact ⟨e, info, (published e info).mpr ⟨member, geo⟩, named⟩
  · intro id url there
    rw [publishes.targets] at there
    obtain ⟨e, info, there, named, address⟩ := get_entityIdToUrl there
    obtain ⟨member, geo⟩ := (published e info).mp there
    exact ⟨e, member, named, info, geo, address⟩

/-- In a run whose polls all recover, every poll in which `reconfigureService` does not throw
leaves the service outside and the attribute current. -/
theorem refreshGroupMembership_current (lookup : GeoLookup Entity) (poll : GeoPoll Entity)
    {service : AbstractGeoDnsService Entity} {members : List Entity}
    (run : Transition.Reached (polling lookup) (recovers lookup) service)
    (recovered : recovers lookup service poll = true)
    (provided : poll.targetEntityProvider = some members)
    (quiet : reconfigureThrew lookup poll service = false) :
    Current lookup members (refreshGroupMembership lookup poll service) := by
  obtain ⟨publication, publishes⟩ := reached_publishes run
  have next := refreshGroupMembership_publishes publishes provided
  have agreed : attempt lookup poll members service ≠ .refused := fun refused => by
    rw [attempt_refused provided refused] at quiet
    cases quiet
  have paid : attempt lookup poll members service = .unmade → publication.owed = false := by
    intro unmade
    unfold recovers at recovered
    rw [provided] at recovered
    dsimp only at recovered
    rw [attempt_unmade unmade, Bool.false_or, Bool.not_eq_true'] at recovered
    exact publishes.owed.trans recovered
  have published := Publication.published_refresh publishes.settled
    (attempted publishes poll members) agreed paid
  refine next.current fun e => ?_
  rw [published]
  exact get_rescan lookup members publishes.known e

/-- Every entity is a host of its own name. -/
def everyHost : GeoLookup String where
  id := id
  hostname := some
  rootUrl := fun _ => none
  urlHost := .ok
  fromIpAddress := fun hostname => .ok (some ⟨hostname, ""⟩)
  fromEntity := fun _ => .ok none

def polled (members : List String) (reconfigureThrows : Bool) : GeoPoll String :=
  ⟨some members, reconfigureThrows⟩

-- A call that throws for one host is made good by the next poll, which finds another host.
theorem current_after_failure_and_change :
    Current everyHost ["east", "west"]
      (refreshGroupMembership everyHost (polled ["east", "west"] false)
        (refreshGroupMembership everyHost (polled ["east"] true) initial)) :=
  refreshGroupMembership_current everyHost (polled ["east", "west"] false)
    (.next (polled ["east"] true) .initial (by decide) rfl) (by decide) rfl (by decide)

-- The same host is polled twice, and the first call throws: the second poll makes no call.
theorem failure_is_not_made_good :
    let failed := refreshGroupMembership everyHost (polled ["east"] true) initial
    Transition.Reached (polling everyHost) Transition.anyStep failed ∧
      reconfigureThrew everyHost (polled ["east"] false) failed = false ∧
      ¬ Current everyHost ["east"]
        (refreshGroupMembership everyHost (polled ["east"] false) failed) := by
  refine ⟨.next (polled ["east"] true) .initial rfl rfl, by decide, fun current => ?_⟩
  have accepted := (current.accepted ⟨"east", ""⟩).mpr ⟨"east", by decide, by decide⟩
  exact absurd accepted (by decide)

end AbstractGeoDnsService
end Brooklyn
