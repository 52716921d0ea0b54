import Brooklyn.DynamicCluster

/-!
What becomes of the entities that a call on a cluster takes out of its membership. They are
accounted for when each has been told to stop and is unmanaged, or is in quarantine, and when a
failed choice of members has taken nobody out.
-/

namespace Brooklyn.DynamicCluster

variable {Ref : Type} [DecidableEq Ref]

section Removals

variable {cluster : DynamicCluster Ref}

theorem mem_left_removeMember (entity e : Ref) :
    e ∈ (cluster.removeMember entity).left ↔
      e ∈ cluster.left ∨ (e = entity ∧ e ∈ cluster.members) := by
  unfold removeMember
  dsimp only
  split
  next member =>
    rw [List.mem_append, List.mem_singleton]
    exact or_congr_right ⟨fun same => ⟨same, same ▸ member⟩, And.left⟩
  next absent =>
    refine (or_iff_left ?_).symm
    rintro ⟨rfl, member⟩
    exact absent member

/-- A loop that takes one entity after another out of the membership. -/
theorem mem_left_removals (change : DynamicCluster Ref → Ref → DynamicCluster Ref)
    (members : ∀ cluster entity, (change cluster entity).members = cluster.members.remove entity)
    (left : ∀ cluster entity, (change cluster entity).left = (cluster.removeMember entity).left)
    (entities : List Ref) (cluster : DynamicCluster Ref) (e : Ref) :
    e ∈ (entities.foldl change cluster).left ↔
      e ∈ cluster.left ∨ (e ∈ entities ∧ e ∈ cluster.members) := by
  induction entities generalizing cluster with
  | nil => simp
  | cons entity entities ih =>
    rw [List.foldl_cons, ih, left, mem_left_removeMember, members, LinkedSet.mem_remove,
      List.mem_cons]
    by_cases same : e = entity
    · simp [same]
    · simp [same]

theorem mem_left_discard (entities : List Ref) (e : Ref) :
    e ∈ (entities.foldl discardNode cluster).left ↔
      e ∈ cluster.left ∨ (e ∈ entities ∧ e ∈ cluster.members) :=
  mem_left_removals discardNode (fun _ _ => rfl) (fun _ _ => rfl) entities cluster e

theorem mem_left_quarantine (entities : List Ref) (e : Ref) :
    e ∈ (entities.foldl quarantineNode cluster).left ↔
      e ∈ cluster.left ∨ (e ∈ entities ∧ e ∈ cluster.members) :=
  mem_left_removals quarantineNode (fun _ _ => rfl) (fun _ _ => rfl) entities cluster e

theorem discard_frame (entities : List Ref) :
    (entities.foldl discardNode cluster).stopInvoked = cluster.stopInvoked ∧
      (entities.foldl discardNode cluster).quarantined = cluster.quarantined ∧
      (entities.foldl discardNode cluster).unmanaged = cluster.unmanaged ++ entities := by
  induction entities generalizing cluster with
  | nil => simp
  | cons entity entities ih =>
    obtain ⟨stopped, quarantined, unmanaged⟩ := @ih (discardNode cluster entity)
    refine ⟨stopped, quarantined, unmanaged.trans ?_⟩
    simp [discardNode, unmanage, removeMember]

theorem quarantine_frame (entities : List Ref) :
    (entities.foldl quarantineNode cluster).stopInvoked = cluster.stopInvoked ∧
      (entities.foldl quarantineNode cluster).quarantined = cluster.quarantined ++ entities := by
  induction entities generalizing cluster with
  | nil => simp
  | cons entity entities ih =>
    obtain ⟨stopped, quarantined⟩ := @ih (quarantineNode cluster entity)
    refine ⟨stopped, quarantined.trans ?_⟩
    simp [quarantineNode, removeMember]

end Removals

variable (surroundings : ClusterSurroundings Ref)

section Choices

/-- The entity that a pick takes out, if the choice does not fail. -/
def choice (index : Nat) (members : LinkedSet Ref) : Option Ref :=
  if members.elements.length = 0 then none
  else
    match getRemovalStrategy surroundings index members.elements with
    | .entity e => if surroundings.startable e then some e else none
    | _ => none

/-- The members that others leave before a pick. -/
abbrev membersAt (index : Nat) (members : LinkedSet Ref) : LinkedSet Ref :=
  members.removeAll (surroundings.removedBefore index)

/-- The entities that are chosen one after another, until a choice fails. -/
def chosen : Nat → Nat → LinkedSet Ref → List Ref
  | 0, _, _ => []
  | more + 1, index, members =>
      match choice surroundings index (membersAt surroundings index members) with
      | none => []
      | some e =>
          e :: chosen more (index + 1) ((membersAt surroundings index members).remove e)

/-- Those of them that were members. -/
def taken : Nat → Nat → LinkedSet Ref → List Ref
  | 0, _, _ => []
  | more + 1, index, members =>
      match choice surroundings index (membersAt surroundings index members) with
      | none => []
      | some e =>
          let others := taken more (index + 1) ((membersAt surroundings index members).remove e)
          if e ∈ membersAt surroundings index members then e :: others else others

theorem taken_subset (more index : Nat) (members : LinkedSet Ref) :
    taken surroundings more index members ⊆ chosen surroundings more index members := by
  induction more generalizing index members with
  | zero => exact List.Subset.refl _
  | succ more ih =>
    unfold taken chosen
    split
    next => exact List.Subset.refl _
    next e found =>
      dsimp only
      split
      next => exact List.cons_subset_cons e (ih _ _)
      next => exact List.subset_cons_of_subset e (ih _ _)

variable {surroundings}

theorem chosen_none (more : Nat) {index : Nat} {members : LinkedSet Ref}
    (nobody : choice surroundings index (membersAt surroundings index members) = none) :
    chosen surroundings (more + 1) index members = [] := by
  rw [chosen, nobody]

theorem chosen_some (more : Nat) {index : Nat} {members : LinkedSet Ref} {e : Ref}
    (found : choice surroundings index (membersAt surroundings index members) = some e) :
    chosen surroundings (more + 1) index members =
      e :: chosen surroundings more (index + 1)
        ((membersAt surroundings index members).remove e) := by
  rw [chosen, found]

theorem taken_some (more : Nat) {index : Nat} {members : LinkedSet Ref} {e : Ref}
    (found : choice surroundings index (membersAt surroundings index members) = some e) :
    taken surroundings (more + 1) index members =
      let others := taken surroundings more (index + 1)
        ((membersAt surroundings index members).remove e)
      if e ∈ membersAt surroundings index members then e :: others else others := by
  rw [taken, found]

/-- A pick follows the choice. -/
theorem pickAndRemoveMember_cases (index : Nat) (cluster : DynamicCluster Ref) :
    (∃ fault, pickAndRemoveMember surroundings index cluster = (.error fault, cluster) ∧
        fault.ofChoice = true ∧ choice surroundings index cluster.members = none) ∨
      ∃ e, pickAndRemoveMember surroundings index cluster = (.ok e, cluster.removeMember e) ∧
        choice surroundings index cluster.members = some e := by
  unfold pickAndRemoveMember choice
  split_ifs with empty
  · exact Or.inl ⟨_, rfl, rfl, rfl⟩
  · cases getRemovalStrategy surroundings index cluster.members.elements with
    | throws => exact Or.inl ⟨_, rfl, rfl, rfl⟩
    | null => exact Or.inl ⟨_, rfl, rfl, rfl⟩
    | entity e =>
      dsimp only
      split_ifs with startable
      · exact Or.inr ⟨e, rfl, rfl⟩
      · exact Or.inl ⟨_, rfl, rfl, rfl⟩

/-- The calls of the cluster have recorded the same. -/
structure SameRecords (cluster after : DynamicCluster Ref) : Prop where
  stopInvoked : after.stopInvoked = cluster.stopInvoked
  unmanaged : after.unmanaged = cluster.unmanaged
  quarantined : after.quarantined = cluster.quarantined

/-- What the picks come to. -/
structure Picked (more index : Nat) (removedEntities : List Ref)
    (cluster after : DynamicCluster Ref) (outcome : Except (ClusterFault Ref) (List Ref)) :
    Prop where
  records : SameRecords cluster after
  left : after.left = cluster.left ++ taken surroundings more index cluster.members
  gone : ∀ e ∈ chosen surroundings more index cluster.members, e ∉ after.members
  fewer : ∀ e ∈ after.members, e ∈ cluster.members
  all : (chosen surroundings more index cluster.members).length = more →
    outcome = .ok (removedEntities ++ chosen surroundings more index cluster.members)
  failed : (chosen surroundings more index cluster.members).length ≠ more →
    ∃ fault, outcome = .error fault ∧ fault.ofChoice = true

theorem pickMembers_picked (more index : Nat) (removedEntities : List Ref)
    (cluster : DynamicCluster Ref) :
    @Picked _ _ surroundings more index removedEntities cluster
      (pickMembers surroundings more index removedEntities cluster).2
      (pickMembers surroundings more index removedEntities cluster).1 := by
  induction more generalizing index removedEntities cluster with
  | zero =>
    exact ⟨⟨rfl, rfl, rfl⟩, (List.append_nil _).symm, by simp [chosen], fun _ member => member,
      fun _ => by simp [pickMembers, chosen], fun none_left => absurd rfl none_left⟩
  | succ more ih =>
    rcases @pickAndRemoveMember_cases _ _ surroundings index
        (cluster.removedByOthers (surroundings.removedBefore index)) with
      ⟨fault, picked, ofChoice, none_chosen⟩ | ⟨e, picked, some_chosen⟩
    · have nobody := chosen_none more none_chosen
      have none_taken : taken surroundings (more + 1) index cluster.members = [] :=
        List.subset_nil.mp (nobody ▸ taken_subset surroundings (more + 1) index cluster.members)
      have stopped : pickMembers surroundings (more + 1) index removedEntities cluster =
          (.error fault, cluster.removedByOthers (surroundings.removedBefore index)) := by
        rw [pickMembers, picked]
      rw [stopped]
      refine ⟨⟨rfl, rfl, rfl⟩, ?_, ?_, ?_, ?_, fun _ => ⟨fault, rfl, ofChoice⟩⟩
      · rw [none_taken, List.append_nil]; rfl
      · rw [nobody]; simp
      · exact fun other member => ((LinkedSet.mem_removeAll _ _ other).mp member).1
      · rw [nobody]; simp
    · have picks := ih (index + 1) (removedEntities ++ [e])
        ((cluster.removedByOthers (surroundings.removedBefore index)).removeMember e)
      have continued : pickMembers surroundings (more + 1) index removedEntities cluster =
          pickMembers surroundings more (index + 1) (removedEntities ++ [e])
            ((cluster.removedByOthers (surroundings.removedBefore index)).removeMember e) := by
        rw [pickMembers, picked]
      have first := chosen_some more some_chosen
      rw [continued]
      refine ⟨?_, ?_, ?_, ?_, ?_, ?_⟩
      · exact ⟨picks.records.stopInvoked, picks.records.unmanaged, picks.records.quarantined⟩
      · rw [picks.left, taken_some more some_chosen]
        unfold removeMember removedByOthers
        dsimp only
        split <;> simp
      · rw [first]
        refine List.forall_mem_cons.mpr ⟨fun member => ?_, picks.gone⟩
        exact ((LinkedSet.mem_remove _ e e).mp (picks.fewer e member)).2 rfl
      · intro other member
        have before := ((LinkedSet.mem_remove _ e other).mp (picks.fewer other member)).1
        exact ((LinkedSet.mem_removeAll _ _ other).mp before).1
      · intro enough
        rw [first, List.length_cons, Nat.succ_inj] at enough
        rw [picks.all enough, first, List.append_assoc]
        rfl
      · intro short
        rw [first, List.length_cons, Ne, Nat.succ_inj] at short
        exact picks.failed short

end Choices

section Growth

/-- The nodes that the factory makes, if it makes all of them. -/
def created : Nat → Nat → Option (List Ref)
  | 0, _ => some []
  | more + 1, index =>
      match surroundings.factory with
      | none => none
      | some newEntity =>
          match newEntity index with
          | .entity e => (created more (index + 1)).map (e :: ·)
          | _ => none

variable {surroundings}

structure Added (nodes : List Ref) (cluster after : DynamicCluster Ref) : Prop where
  records : SameRecords cluster after
  left : after.left = cluster.left
  members : ∀ e, e ∈ after.members ↔ e ∈ cluster.members ∨ e ∈ nodes

theorem addNodes_cases (more index : Nat) (addedEntities : List Ref)
    (cluster : DynamicCluster Ref) :
    (created surroundings more index = none ∧ ∃ fault after,
        addNodes surroundings more index addedEntities cluster = (.error fault, after) ∧
          fault.ofChoice = false ∧ SameRecords cluster after ∧ after.left = cluster.left) ∨
      ∃ nodes after, created surroundings more index = some nodes ∧
        addNodes surroundings more index addedEntities cluster =
          (.ok (addedEntities ++ nodes), after) ∧ Added nodes cluster after := by
  induction more generalizing index addedEntities cluster with
  | zero =>
    exact Or.inr ⟨[], cluster, rfl, by simp [addNodes], ⟨rfl, rfl, rfl⟩, rfl, by simp⟩
  | succ more ih =>
    unfold addNodes addNode created
    cases surroundings.factory with
    | none => exact Or.inl ⟨rfl, _, cluster, rfl, rfl, ⟨rfl, rfl, rfl⟩, rfl⟩
    | some newEntity =>
      dsimp only
      cases newEntity index with
      | throws => exact Or.inl ⟨rfl, _, cluster, rfl, rfl, ⟨rfl, rfl, rfl⟩, rfl⟩
      | null => exact Or.inl ⟨rfl, _, cluster, rfl, rfl, ⟨rfl, rfl, rfl⟩, rfl⟩
      | entity e =>
        dsimp only
        rcases ih (index + 1) (addedEntities ++ [e]) (cluster.addMember e) with
          ⟨none_made, fault, after, ended, other, records, left⟩ |
            ⟨nodes, after, made, ended, added⟩
        · exact Or.inl ⟨by rw [none_made]; rfl, fault, after, ended, other,
            ⟨records.stopInvoked, records.unmanaged, records.quarantined⟩, left⟩
        · refine Or.inr ⟨e :: nodes, after, by rw [made]; rfl, by rw [ended]; simp,
            ⟨added.records.stopInvoked, added.records.unmanaged, added.records.quarantined⟩,
            added.left, fun other => ?_⟩
          rw [added.members, List.mem_cons, ← or_assoc]
          exact or_congr_left (LinkedSet.mem_add ..)

end Growth

/-- Each entity that has left has been told to stop and is unmanaged, or is in quarantine; when a
choice of members has failed, nobody has left. -/
structure Accounted (ended : Except (ClusterFault Ref) PUnit × DynamicCluster Ref) : Prop where
  handled : ∀ e ∈ ended.2.left,
    (e ∈ ended.2.stopInvoked ∧ e ∈ ended.2.unmanaged) ∨ e ∈ ended.2.quarantined
  restored : ∀ fault, ended.1 = .error fault → fault.ofChoice = true → ended.2.left = []

/-- Every choice succeeds and the tasks behind a STOP that fails have invoked theirs, or a choice
fails before a member has been taken out. -/
def ShrinkKept (count : Nat) (members : LinkedSet Ref) : Prop :=
  if (chosen surroundings count 0 members).length = count then
    ∀ e ∈ taken surroundings count 0 members,
      e ∈ stopsInvoked surroundings (chosen surroundings count 0 members)
  else taken surroundings count 0 members = []

/-- No new node fails to start, unless it goes to quarantine or others take it out. -/
def GrowKept (delta : Nat) : Prop :=
  ∀ nodes, created surroundings delta 0 = some nodes → surroundings.startInterrupted = false →
    surroundings.quarantineEnabled = false →
      ∀ e ∈ nodes, surroundings.startFails e = true → e ∈ surroundings.removedWhileStarting

/-- The new node is accounted for, and a member that is replaced by it can be stopped and does
stop. -/
def ReplaceKept (member : Option Ref) (members : LinkedSet Ref) : Prop :=
  ∀ replaced, member = some replaced → replaced ∈ members →
    GrowKept surroundings 1 ∧
      ∀ node, created surroundings 1 0 = some [node] → surroundings.startInterrupted = false →
        surroundings.startFails node = false → replaced ∉ surroundings.removedWhileStarting →
          surroundings.startable replaced = true ∧ surroundings.stopFails replaced = false

def Kept (members : LinkedSet Ref) : Call Ref → Prop
  | .resize desiredSize =>
      let delta := desiredSize - Int32.ofNat members.elements.length
      (0 < delta → GrowKept surroundings delta.toInt.toNat) ∧
        (delta < 0 → ShrinkKept surroundings (delta * -1).toInt.toNat members)
  | .replaceMember member => ReplaceKept surroundings member members

section Calls

variable {surroundings} {members : LinkedSet Ref}

omit [DecidableEq Ref] in
theorem accounted_of_nobody {ended : Except (ClusterFault Ref) PUnit × DynamicCluster Ref}
    (nobody : ended.2.left = []) : Accounted ended :=
  ⟨fun _ member => absurd (nobody ▸ member) List.not_mem_nil, fun _ _ _ => nobody⟩

omit [DecidableEq Ref] in
/-- Where nobody was told to stop and nobody is in quarantine, nobody may have left. -/
theorem accounted_iff_nobody {ended : Except (ClusterFault Ref) PUnit × DynamicCluster Ref}
    (untold : ended.2.stopInvoked = [] ∨ ended.2.unmanaged = []) (free : ended.2.quarantined = []) :
    Accounted ended ↔ ended.2.left = [] := by
  refine ⟨fun accounted => ?_, accounted_of_nobody⟩
  refine List.eq_nil_iff_forall_not_mem.mpr fun e member => ?_
  rcases accounted.handled e member with ⟨stopped, unmanaged⟩ | quarantined
  · rcases untold with none_left | none_left
    · exact absurd (none_left ▸ stopped) List.not_mem_nil
    · exact absurd (none_left ▸ unmanaged) List.not_mem_nil
  · exact absurd (free ▸ quarantined) List.not_mem_nil

theorem shrink_accounted_iff (count : Nat) :
    Accounted (shrink surroundings count (ofMembers members)) ↔
      ShrinkKept surroundings count members := by
  obtain ⟨result, after, ended⟩ : ∃ result after,
      pickMembers surroundings count 0 [] (ofMembers members) = (result, after) := ⟨_, _, rfl⟩
  have picks : @Picked _ _ surroundings count 0 [] (ofMembers members) after result := by
    have picked := @pickMembers_picked _ _ surroundings count 0 [] (ofMembers members)
    rwa [ended] at picked
  obtain ⟨⟨stopped, unmanaged, quarantined⟩, left, gone, -, all, failed⟩ := picks
  change after.left = taken surroundings count 0 members at left
  change after.stopInvoked = [] at stopped
  change after.quarantined = [] at quarantined
  unfold ShrinkKept shrink
  rw [ended]
  split_ifs with enough
  · obtain rfl : result = .ok (chosen surroundings count 0 members) := all enough
    dsimp only
    obtain ⟨told, free, discarded⟩ := @discard_frame _ _
      { after with stopInvoked := after.stopInvoked ++
          stopsInvoked surroundings (chosen surroundings count 0 members) }
      (chosen surroundings count 0 members)
    have leavers : ∀ e, e ∈ ((chosen surroundings count 0 members).foldl discardNode
        { after with stopInvoked := after.stopInvoked ++
            stopsInvoked surroundings (chosen surroundings count 0 members) }).left ↔
          e ∈ taken surroundings count 0 members := by
      intro e
      rw [mem_left_discard, ← left]
      exact or_iff_left fun again => gone e again.1 again.2
    constructor
    · intro accounted e member
      rcases accounted.handled e ((leavers e).mpr member) with ⟨invoked, -⟩ | in_quarantine
      · rw [told, stopped] at invoked
        exact invoked
      · rw [free, quarantined] at in_quarantine
        cases in_quarantine
    · intro invoked
      refine ⟨fun e member => Or.inl ⟨?_, ?_⟩, fun fault thrown ofChoice => ?_⟩
      · rw [told]
        exact List.mem_append_right _ (invoked e ((leavers e).mp member))
      · rw [discarded]
        exact List.mem_append_right _ (taken_subset _ count 0 members ((leavers e).mp member))
      · split at thrown
        · cases thrown
          cases ofChoice
        · cases thrown
  · obtain ⟨fault, rfl, -⟩ := failed enough
    dsimp only
    rw [accounted_iff_nobody (Or.inl stopped) quarantined]
    change after.left = [] ↔ _
    rw [left]

/-- What growing comes to, from a cluster of which nothing has been done. -/
structure Grown (delta : Nat) (members : LinkedSet Ref)
    (ended : Except (ClusterFault Ref) (List Ref) × DynamicCluster Ref) : Prop where
  untold : ended.2.stopInvoked = []
  noChoice : ∀ fault, ended.1 = .error fault → fault.ofChoice = false
  kept : (∀ e ∈ ended.2.left, e ∈ ended.2.quarantined) ↔ GrowKept surroundings delta
  begun : ∀ started, ended.1 = .ok started → ∃ nodes, created surroundings delta 0 = some nodes ∧
    surroundings.startInterrupted = false ∧
      started = nodes.filter fun e => !surroundings.startFails e
  clean : ∀ nodes, created surroundings delta 0 = some nodes →
    surroundings.startInterrupted = false → (∀ e ∈ nodes, surroundings.startFails e = false) →
      ended.1 = .ok nodes ∧ ended.2.left = [] ∧ ended.2.unmanaged = [] ∧
        ended.2.quarantined = [] ∧
        ∀ e, e ∈ ended.2.members ↔
          (e ∈ members ∨ e ∈ nodes) ∧ e ∉ surroundings.removedWhileStarting

omit [DecidableEq Ref] in
/-- Nobody has left, and the nodes have not all started. -/
theorem grown_of_nobody {delta : Nat}
    {ended : Except (ClusterFault Ref) (List Ref) × DynamicCluster Ref}
    (untold : ended.2.stopInvoked = [])
    (failed : ∃ fault, ended.1 = .error fault ∧ fault.ofChoice = false)
    (nobody : ended.2.left = []) (kept : GrowKept surroundings delta)
    (unclean : ∀ nodes, created surroundings delta 0 = some nodes →
      surroundings.startInterrupted = false →
        ¬ ∀ e ∈ nodes, surroundings.startFails e = false) :
    @Grown _ surroundings delta members ended := by
  obtain ⟨fault, thrown, other⟩ := failed
  refine ⟨untold, fun another again => ?_, iff_of_true (by simp [nobody]) kept,
    fun started ok => ?_, fun nodes made quiet start => absurd start (unclean nodes made quiet)⟩
  · rw [thrown] at again
    cases again
    exact other
  · rw [thrown] at ok
    cases ok

theorem grow_grown (delta : Nat) :
    @Grown _ surroundings delta members (grow surroundings delta (ofMembers members)) := by
  unfold grow
  rcases @addNodes_cases _ _ surroundings delta 0 [] (ofMembers members) with
    ⟨none_made, fault, after, ended, other, records, left⟩ | ⟨nodes, after, made, ended, added⟩
  · have unmade : ∀ nodes, created surroundings delta 0 ≠ some nodes := fun nodes made => by
      rw [none_made] at made
      cases made
    rw [ended]
    exact grown_of_nobody records.stopInvoked ⟨fault, rfl, other⟩ left
      (fun nodes made => absurd made (unmade nodes)) fun nodes made => absurd made (unmade nodes)
  rw [ended, List.nil_append]
  obtain ⟨⟨stopped, unmanaged, quarantined⟩, left, node_members⟩ := added
  have there : ∀ e, e ∈ (after.removedByOthers surroundings.removedWhileStarting).members ↔
      (e ∈ members ∨ e ∈ nodes) ∧ e ∉ surroundings.removedWhileStarting := fun e =>
    (LinkedSet.mem_removeAll ..).trans (and_congr_left fun _ => node_members e)
  have errors_iff : ∀ e, e ∈ nodes.filter surroundings.startFails ↔
      e ∈ nodes ∧ surroundings.startFails e = true := fun e => List.mem_filter
  have only : ∀ others, created surroundings delta 0 = some others → others = nodes :=
    fun others other_made => Option.some.inj (other_made.symm.trans made)
  have begun : ¬ surroundings.startInterrupted = true → ∀ (cluster : DynamicCluster Ref) started,
      (Except.ok (nodes.filter fun e => !surroundings.startFails e), cluster).1 =
          (Except.ok started : Except (ClusterFault Ref) (List Ref)) →
        ∃ nodes, created surroundings delta 0 = some nodes ∧
          surroundings.startInterrupted = false ∧
            started = nodes.filter fun e => !surroundings.startFails e := by
    rintro quiet cluster started ⟨⟩
    exact ⟨nodes, made, Bool.eq_false_iff.mpr quiet, rfl⟩
  dsimp only
  split_ifs with interrupted all_start enabled group
  · refine grown_of_nobody stopped ⟨_, rfl, rfl⟩ left ?_ ?_
    · intro others _ quiet
      rw [interrupted] at quiet
      cases quiet
    · intro others _ quiet
      rw [interrupted] at quiet
      cases quiet
  · refine ⟨stopped, (by rintro fault ⟨⟩), iff_of_true ?_ ?_, begun interrupted _, ?_⟩
    · rw [show (after.removedByOthers _).left = [] from left]
      simp
    · intro others other_made _ _ e member fails
      rw [only others other_made] at member
      exact absurd ((errors_iff e).mpr ⟨member, fails⟩) (all_start ▸ List.not_mem_nil)
    · intro others other_made _ start
      rw [only others other_made] at start ⊢
      refine ⟨congrArg Except.ok (List.filter_eq_self.mpr fun e member => ?_), left, unmanaged,
        quarantined, there⟩
      rw [start e member]
      rfl
  all_goals
    have unclean : ∀ others, created surroundings delta 0 = some others →
        surroundings.startInterrupted = false →
          ¬ ∀ e ∈ others, surroundings.startFails e = false := by
      intro others other_made _ start
      rw [only others other_made] at start
      refine all_start (List.filter_eq_nil_iff.mpr fun e member => ?_)
      rw [start e member]
      decide
  -- the nodes that have not started go to the quarantine group
  · refine ⟨(quarantine_frame _).1.trans stopped, (by rintro fault ⟨⟩),
      iff_of_true ?_ ?_, begun interrupted _, fun others other_made quiet start =>
        absurd start (unclean others other_made quiet)⟩
    · intro e member
      rcases (mem_left_quarantine _ e).mp member with gone | failed
      · rw [show (after.removedByOthers _).left = [] from left] at gone
        cases gone
      · rw [(quarantine_frame _).2]
        exact List.mem_append_right _ failed.1
    · intro _ _ _ disabled
      rw [enabled] at disabled
      cases disabled
  · refine grown_of_nobody stopped ⟨_, rfl, rfl⟩ left ?_ unclean
    intro _ _ _ disabled
    rw [enabled] at disabled
    cases disabled
  -- they are discarded
  · obtain ⟨told, free, -⟩ := @discard_frame _ _
      (after.removedByOthers surroundings.removedWhileStarting)
      (nodes.filter surroundings.startFails)
    refine ⟨told.trans stopped, (by rintro fault ⟨⟩), ?_, begun interrupted _,
      fun others other_made quiet start => absurd start (unclean others other_made quiet)⟩
    rw [free, show (after.removedByOthers _).quarantined = [] from quarantined]
    constructor
    · intro nobody others other_made _ _ e member fails
      rw [only others other_made] at member
      by_contra stays
      have gone := nobody e ((mem_left_discard _ e).mpr
        (Or.inr ⟨(errors_iff e).mpr ⟨member, fails⟩, (there e).mpr ⟨Or.inr member, stays⟩⟩))
      cases gone
    · intro kept e member
      rcases (mem_left_discard _ e).mp member with gone | ⟨failed, inside⟩
      · rw [show (after.removedByOthers _).left = [] from left] at gone
        cases gone
      · obtain ⟨made_here, fails⟩ := (errors_iff e).mp failed
        exact absurd (kept nodes made (Bool.eq_false_iff.mpr interrupted)
          (Bool.eq_false_iff.mpr enabled) e made_here fails) ((there e).mp inside).2

omit [DecidableEq Ref] in
/-- Where nobody was told to stop, those who have left are in quarantine. -/
theorem accounted_iff_quarantined {ended : Except (ClusterFault Ref) PUnit × DynamicCluster Ref}
    (untold : ended.2.stopInvoked = [])
    (noChoice : ∀ fault, ended.1 = .error fault → fault.ofChoice = false) :
    Accounted ended ↔ ∀ e ∈ ended.2.left, e ∈ ended.2.quarantined := by
  constructor
  · intro accounted e member
    refine (accounted.handled e member).resolve_left fun stopped => ?_
    rw [untold] at stopped
    cases stopped.1
  · intro quarantined
    refine ⟨fun e member => Or.inr (quarantined e member), fun fault failed ofChoice => ?_⟩
    rw [noChoice fault failed] at ofChoice
    cases ofChoice

theorem resize_accounted_iff (desiredSize : Int32) :
    Accounted (resize surroundings desiredSize (ofMembers members)) ↔
      Kept surroundings members (.resize desiredSize) := by
  unfold resize Kept
  rw [show (ofMembers members).members = members from rfl]
  dsimp only
  generalize desiredSize - Int32.ofNat members.elements.length = delta
  split_ifs with more fewer
  · have grown := @grow_grown _ _ surroundings members delta.toInt.toNat
    rw [and_iff_left (fun less => absurd more (Int32.lt_asymm less)), imp_iff_right more,
      ← grown.kept]
    obtain ⟨result, after, ended⟩ : ∃ result after,
        grow surroundings delta.toInt.toNat (ofMembers members) = (result, after) :=
      ⟨_, _, rfl⟩
    have untold := grown.untold
    have noChoice := grown.noChoice
    rw [ended] at untold noChoice ⊢
    cases result with
    | error fault =>
      refine accounted_iff_quarantined untold ?_
      rintro other ⟨⟩
      exact noChoice fault rfl
    | ok started => exact accounted_iff_quarantined untold (by rintro other ⟨⟩)
  · rw [and_iff_right (fun less => absurd less more), imp_iff_right fewer]
    exact shrink_accounted_iff _
  · exact iff_of_true (accounted_of_nobody rfl)
      ⟨fun less => absurd less more, fun less => absurd less fewer⟩

/-- A member that is replaced is accounted for when it is no member any more, or can be stopped
and does stop. -/
theorem stopAndRemoveNode_accounted_iff {cluster : DynamicCluster Ref} (replaced : Ref)
    (nobody : cluster.left = []) (untold : cluster.stopInvoked = [])
    (managed : cluster.unmanaged = []) (free : cluster.quarantined = []) :
    Accounted (stopAndRemoveNode surroundings replaced cluster) ↔
      (replaced ∈ cluster.members →
        surroundings.startable replaced = true ∧ surroundings.stopFails replaced = false) := by
  have left : (cluster.removeMember replaced).left = [] ↔ replaced ∉ cluster.members := by
    unfold removeMember
    dsimp only
    rw [nobody]
    split
    next member => exact iff_of_false (by simp) (not_not_intro member)
    next absent => exact iff_of_true rfl absent
  have only : ∀ e ∈ (cluster.removeMember replaced).left, e = replaced := by
    intro e member
    rcases (mem_left_removeMember replaced e).mp member with gone | same
    · rw [nobody] at gone
      cases gone
    · exact same.1
  unfold stopAndRemoveNode
  split_ifs with startable fails
  · rw [accounted_iff_nobody (Or.inr managed) free, imp_iff_not (by simp [fails])]
    exact left
  · refine iff_of_true ⟨fun e member => Or.inl ?_, by rintro fault ⟨⟩⟩
      fun _ => ⟨startable, Bool.eq_false_iff.mpr fails⟩
    rw [only e member]
    exact ⟨List.mem_append_right _ List.mem_cons_self, List.mem_append_right _ List.mem_cons_self⟩
  · rw [accounted_iff_nobody (Or.inl untold) free, imp_iff_not (fun both => startable both.1)]
    exact left

omit [DecidableEq Ref] in
theorem created_one {nodes : List Ref} (made : created surroundings 1 0 = some nodes) :
    ∃ node, nodes = [node] := by
  unfold created at made
  split at made
  next => cases made
  next =>
    split at made
    next e _ => exact ⟨e, (Option.some.inj made).symm⟩
    next => cases made

theorem replaceMember_accounted_iff (member : Option Ref) :
    Accounted (replaceMember surroundings member (ofMembers members)) ↔
      Kept surroundings members (.replaceMember member) := by
  cases member with
  | none => exact iff_of_true (accounted_of_nobody rfl) fun replaced named => by cases named
  | some replaced =>
    unfold replaceMember
    dsimp only
    rw [show (ofMembers members).members = members from rfl]
    by_cases inside : replaced ∈ members
    · rw [if_neg (not_not_intro inside)]
      have grown := @grow_grown _ _ surroundings members 1
      have kept_iff : Kept surroundings members (.replaceMember (some replaced)) ↔
          GrowKept surroundings 1 ∧ ∀ node, created surroundings 1 0 = some [node] →
            surroundings.startInterrupted = false → surroundings.startFails node = false →
              replaced ∉ surroundings.removedWhileStarting →
                surroundings.startable replaced = true ∧
                  surroundings.stopFails replaced = false :=
        ⟨fun kept => kept replaced rfl inside, fun kept other named _ => by cases named; exact kept⟩
      rw [kept_iff]
      obtain ⟨result, after, ended⟩ : ∃ result after,
          grow surroundings 1 (ofMembers members) = (result, after) := ⟨_, _, rfl⟩
      rw [ended] at grown ⊢
      -- without a new node that has started, the member stays
      have unstarted : (∀ node, result ≠ .ok [node]) → ∀ outcome,
          (∀ fault, outcome = .error fault → fault.ofChoice = false) →
          (Accounted (outcome, after) ↔ GrowKept surroundings 1 ∧
            ∀ node, created surroundings 1 0 = some [node] →
              surroundings.startInterrupted = false → surroundings.startFails node = false →
                replaced ∉ surroundings.removedWhileStarting →
                  surroundings.startable replaced = true ∧
                    surroundings.stopFails replaced = false) := by
        intro none_started outcome noChoice
        rw [accounted_iff_quarantined grown.untold noChoice, grown.kept]
        refine (and_iff_left fun node made quiet starts => ?_).symm
        exact absurd (grown.clean [node] made quiet (by simpa using starts)).1 (none_started node)
      cases result with
      | error fault =>
        refine unstarted (fun node => by simp) _ ?_
        rintro other ⟨⟩
        exact grown.noChoice fault rfl
      | ok started =>
        cases started with
        | nil => exact unstarted (fun node => by simp) _ (by rintro other ⟨⟩; rfl)
        | cons first others =>
          obtain ⟨nodes, made, quiet, same⟩ := grown.begun _ rfl
          obtain ⟨node, rfl⟩ := created_one made
          have starts : surroundings.startFails node = false := by
            by_contra fails
            simp [fails] at same
          obtain ⟨-, left, managed, free, there⟩ :=
            grown.clean [node] made quiet (by simpa using starts)
          have kept : GrowKept surroundings 1 := grown.kept.mp (by rw [left]; simp)
          rw [and_iff_right kept]
          refine (stopAndRemoveNode_accounted_iff replaced left grown.untold managed free).trans ?_
          rw [there]
          constructor
          · intro stops other _ _ _ stays
            exact stops ⟨Or.inl inside, stays⟩
          · intro stops stays
            exact stops node made quiet starts stays.2
    · rw [if_pos inside]
      refine iff_of_true (accounted_of_nobody rfl) fun other named there => ?_
      cases named
      exact absurd there inside

/-- After every call the entities that it has taken out are accounted for if and only if the
choices, starts and stops go as said. -/
theorem cluster_accounts_iff (surroundings : ClusterSurroundings Ref) (members : LinkedSet Ref)
    (call : Call Ref) :
    Accounted (perform surroundings (ofMembers members) call) ↔ Kept surroundings members call := by
  cases call with
  | resize desiredSize => exact resize_accounted_iff desiredSize
  | replaceMember member => exact replaceMember_accounted_iff member

/-- The strategy chooses one member and then none: the one is out of the membership for good. -/
theorem chosen_member_lost :
    ¬ ∀ (surroundings : ClusterSurroundings Nat) (members : LinkedSet Nat) (call : Call Nat),
      Accounted (perform surroundings (ofMembers members) call) := by
  intro claimed
  have accounted := claimed
    { startable := fun _ => true
      removalStrategy := some fun index _ => if index = 0 then .entity 1 else .null
      removedBefore := fun _ => []
      stopFails := fun _ => false
      invokedInTime := fun _ => true
      factory := none
      startFails := fun _ => false
      startInterrupted := false
      removedWhileStarting := []
      quarantineEnabled := false
      quarantineGroup := false }
    ⟨[1, 2], by decide⟩ (.resize 0)
  have nobody : [1] = [] := accounted.restored .noEntityChosen rfl rfl
  cases nobody

end Calls

end Brooklyn.DynamicCluster
