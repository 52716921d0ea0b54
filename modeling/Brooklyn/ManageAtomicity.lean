import Brooklyn.ManageWalk

/-!
`manage` registers the entities of the tree one by one and throws where it stands. When
the first entity is registered nothing takes it back, and an entity that clashes has
replaced the other one by the time the clash is noticed. So a call that throws has left
everything as it was only where it threw before it came to the first new entity.
-/

namespace Brooklyn
open PreorderWalk

variable {Ref Id : Type}

/-- `getEntity` for every id, `getEntities`, the entity list and the applications. -/
structure RegistryUnchanged (before after : World Ref Id) : Prop where
  getEntity : ∀ id, after.getEntity id = before.getEntity id
  getEntities : after.management.entitiesById.values = before.management.entitiesById.values
  entities : after.management.entities = before.management.entities
  applications : after.management.applications.elements = before.management.applications.elements

theorem registry_unchanged {before after : World Ref Id}
    (same : after.management = before.management) : RegistryUnchanged before after := by
  refine ⟨fun id => ?_, ?_, ?_, ?_⟩
  · rw [World.getEntity, same]
    rfl
  · rw [same]
  · rw [same]
  · rw [same]

/-- The entity has a `nonDeploymentManagementContext`, so it is not deployed. -/
def World.undeployed (world : World Ref Id) (e : Ref) : Bool :=
  (world.entity e).managementSupport.nonDeploymentManagementContext.isSome

/-- Nothing stands in the way of an entity of the walk: each is undeployed and not registered
yet unless as itself, no two have one id, and no reference that stands for nothing gets a
meaning from their registration. -/
structure Clear (who : Identity Ref Id) (world : World Ref Id) (visited : List Ref) : Prop where
  undeployed : ∀ e ∈ visited, world.undeployed e = true
  unclaimed : ∀ e ∈ visited, ∀ other, world.getEntity (who.id e) = some other → other = e
  distinct : (visited.map who.id).Nodup
  unreferenced : ∀ owner ∈ visited, ∀ id ∈ world.references owner, world.lookup owner id = none →
    ∀ e ∈ visited, who.id e ≠ id

section Passes
variable [DecidableEq Ref] [DecidableEq Id] (who : Identity Ref Id)

/-- The action of the first pass of `manage`. -/
def starting (it : Ref) : Operation Ref Id Bool := do
  onManagementStarting it
  manageNonRecursive who it

/-- The action of the second one. -/
def started (it : Ref) : Operation Ref Id Bool := do
  onManagementStarted it
  pure true

/-- The call ends, and if it throws nothing is registered that was not. -/
def AllOrNothing (world : World Ref Id) (e : Ref) : Prop :=
  (∃ bound, (manage who bound e world).isSome) ∧
    ∀ bound fault after, manage who bound e world = some (.error fault, after) →
      RegistryUnchanged world after

/-- The walk stops at an entity that is deployed or not registered. -/
def stopsAt (world : World Ref Id) (e : Ref) : Bool :=
  !(world.undeployed e && decide (world.getEntity (who.id e) = some e))

/-- No entity of the tree that is not registered comes before the first deployed one. -/
def Refused (world : World Ref Id) (e : Ref) : Prop :=
  ∃ bound found, first (stopsAt who world) world.lookup world.references bound e = some found ∧
    ∀ stopped ∈ found, world.undeployed stopped = false

section Actions
variable {who} {world : World Ref Id} {it : Ref}

omit [DecidableEq Id] in
theorem undeployed_changeSupport (change : EntityManagementSupport → EntityManagementSupport)
    (e other : Ref) :
    (world.changeSupport e change).undeployed other =
      if other = e then
        (change (world.entity e).managementSupport).nonDeploymentManagementContext.isSome
      else world.undeployed other := by
  unfold World.undeployed World.changeSupport
  rw [World.entity_setEntity]
  split <;> rfl

omit [DecidableEq Id] in
theorem references_changeSupport (change : EntityManagementSupport → EntityManagementSupport)
    (e : Ref) : (world.changeSupport e change).references = world.references := by
  funext owner
  exact congrArg (·.entityRefs.elements) (World.childrenOf_changeSupport world e owner change)

omit [DecidableEq Id] in
theorem peek_changeSupport (change : EntityManagementSupport → EntityManagementSupport)
    (e owner : Ref) (id : Id) :
    ((world.changeSupport e change).entity owner).ownedChildren.peek id =
      (world.entity owner).ownedChildren.peek id :=
  congrArg (·.peek id) (World.childrenOf_changeSupport world e owner change)

/-- What one action leaves as it was. -/
structure Keeps (before after : World Ref Id) : Prop where
  references : after.references = before.references
  peek : ∀ owner id, (after.entity owner).ownedChildren.peek id =
    (before.entity owner).ownedChildren.peek id

omit [DecidableEq Ref] [DecidableEq Id] in
theorem Keeps.lookup {before after : World Ref Id} (keeps : Keeps before after) (owner : Ref)
    (id : Id) : after.lookup owner id =
      ((before.entity owner).ownedChildren.peek id).or (after.getEntity id) := by
  rw [World.lookup, keeps.peek]

omit [DecidableEq Ref] [DecidableEq Id] in
theorem Keeps.trans {before middle after : World Ref Id} (first : Keeps before middle)
    (second : Keeps middle after) : Keeps before after :=
  ⟨second.references.trans first.references,
    fun owner id => (second.peek owner id).trans (first.peek owner id)⟩

omit [DecidableEq Ref] [DecidableEq Id] in
theorem Keeps.refl (world : World Ref Id) : Keeps world world := ⟨rfl, fun _ _ => rfl⟩

omit [DecidableEq Id] in
theorem keeps_changeSupport (change : EntityManagementSupport → EntityManagementSupport) (e : Ref) :
    Keeps world (world.changeSupport e change) :=
  ⟨references_changeSupport change e, peek_changeSupport change e⟩

/-- The entity is registered by the end of the action. -/
structure Registers (who : Identity Ref Id) (before after : World Ref Id) (it : Ref) : Prop where
  keeps : Keeps before after
  undeployed : after.undeployed = before.undeployed
  ready : before.undeployed it = true
  unclaimed : ∀ other, before.getEntity (who.id it) = some other → other = it
  getEntity : ∀ id, after.getEntity id = if id = who.id it then some it else before.getEntity id
  redundant : before.getEntity (who.id it) = some it → after.management = before.management
  entities : before.getEntity (who.id it) = none →
    after.management.entities = before.management.entities ++ [it]

omit [DecidableEq Id] in
theorem setMode_refused (world : World Ref Id) {mode : NonDeploymentMode} (deployed : world.undeployed it = false) :
    setMode it mode world = some (.error .nullPointer, world) := by
  have absent : (world.entity it).managementSupport.nonDeploymentManagementContext = none :=
    Option.not_isSome_iff_eq_none.mp (Bool.eq_false_iff.mp deployed)
  unfold setMode
  rw [Effect.read_bind, absent]
  rfl

omit [DecidableEq Id] in
theorem setMode_moved (world : World Ref Id) {mode : NonDeploymentMode} (undeployed : world.undeployed it = true) :
    setMode it mode world = some (.ok (), world.changeSupport it (.setContext (some mode))) := by
  obtain ⟨current, present⟩ := Option.isSome_iff_exists.mp undeployed
  unfold setMode
  rw [Effect.read_bind, present]
  rfl

/-- An entity after `onManagementStarting`. -/
def World.begun (world : World Ref Id) (it : Ref) : World Ref Id :=
  ((world.record .onManagementStarting it).changeSupport it
    (.setContext (some .starting))).changeSupport it (.setUsable true)

/-- An entity after `onManagementStarted`. -/
def World.settled (world : World Ref Id) (it : Ref) : World Ref Id :=
  ((world.record .onManagementStarted it).changeSupport it
    (.setContext (some .started))).changeSupport it (.setContext none)

omit [DecidableEq Id] in
theorem onManagementStarting_begins (undeployed : world.undeployed it = true) :
    onManagementStarting it world = some (.ok (), world.begun it) := by
  unfold onManagementStarting
  rw [Effect.modify_bind, Effect.bind_apply _
    (setMode_moved (world.record .onManagementStarting it) undeployed)]
  rfl

omit [DecidableEq Id] in
theorem onManagementStarting_refused (deployed : world.undeployed it = false) :
    onManagementStarting it world =
      some (.error .nullPointer, world.record .onManagementStarting it) := by
  unfold onManagementStarting
  rw [Effect.modify_bind]
  exact Effect.bind_thrown _ (setMode_refused (world.record .onManagementStarting it) deployed)

omit [DecidableEq Ref] [DecidableEq Id] in
theorem keeps_record (step : ManagementStep) : Keeps world (world.record step it) :=
  ⟨rfl, fun _ _ => rfl⟩

omit [DecidableEq Id] in
theorem keeps_begun (world : World Ref Id) (it : Ref) : Keeps world (world.begun it) :=
  ((keeps_record _).trans (keeps_changeSupport _ it)).trans (keeps_changeSupport _ it)

omit [DecidableEq Id] in
theorem undeployed_begun (undeployed : world.undeployed it = true) :
    (world.begun it).undeployed = world.undeployed := by
  funext e
  unfold World.begun
  rw [undeployed_changeSupport, undeployed_changeSupport]
  split
  · next same =>
    rw [same, undeployed]
    unfold World.changeSupport
    rw [World.entity_setEntity, if_pos rfl]
    rfl
  · rfl

/-- `entitiesById.put(e.getId(), e)`. -/
def World.recorded (who : Identity Ref Id) (world : World Ref Id) (it : Ref) : World Ref Id :=
  world.setManagement
    { world.management with entitiesById := world.management.entitiesById.put (who.id it) it }

omit [DecidableEq Ref] in
theorem getEntity_recorded (world : World Ref Id) (id : Id) : (world.recorded who it).getEntity id =
    if id = who.id it then some it else world.getEntity id :=
  LinkedMap.get_put _ _ _ _

theorem manageNonRecursive_known (world : World Ref Id) {other : Ref}
    (found : world.getEntity (who.id it) = some other) :
    manageNonRecursive who it world =
      if other = it then some (.ok false, world.recorded who it)
      else some (.error (.differentEntityKnown it other), world.recorded who it) := by
  unfold manageNonRecursive
  rw [Effect.read_bind, Effect.modify_bind, found]
  by_cases same : other = it
  · rw [if_pos same]
    dsimp only
    rw [if_pos same]
    rfl
  · rw [if_neg same]
    dsimp only
    rw [if_neg same]
    rfl

theorem manageNonRecursive_new (world : World Ref Id) (absent : world.getEntity (who.id it) = none) :
    ∃ applications, manageNonRecursive who it world =
      some (.ok true, (world.recorded who it).setManagement
        { (world.recorded who it).management with
          applications := applications
          entities := world.management.entities ++ [it] }) := by
  unfold manageNonRecursive
  rw [Effect.read_bind, Effect.modify_bind, absent]
  exact ⟨_, rfl⟩

omit [DecidableEq Ref] in
/-- Putting an entity where it is changes nothing. -/
theorem recorded_again (world : World Ref Id) (found : world.getEntity (who.id it) = some it) :
    (world.recorded who it).management = world.management := by
  have same : world.management.entitiesById.put (who.id it) it =
      world.management.entitiesById := by
    refine LinkedMap.ext_iff.mpr ⟨?_, ?_⟩
    · exact Function.update_eq_self_iff.mpr found.symm
    · have present : who.id it ∈ world.management.entitiesById.keys :=
        (world.management.entitiesById.defined _).mpr (Option.isSome_iff_exists.mpr ⟨it, found⟩)
      exact congrArg LinkedSet.elements (dif_pos present)
  unfold World.recorded World.setManagement
  rw [same]

/-- The registration of an entity under an id that is free or its own. -/
theorem manageNonRecursive_registers (undeployed : world.undeployed it = true)
    (unclaimed : ∀ other, world.getEntity (who.id it) = some other → other = it) :
    ∃ value after, manageNonRecursive who it (world.begun it) = some (.ok value, after) ∧
      Registers who world after it := by
  have kept := keeps_begun world it
  have still := undeployed_begun undeployed
  cases found : world.getEntity (who.id it) with
  | none =>
      obtain ⟨applications, ran⟩ := manageNonRecursive_new (world.begun it) found
      refine ⟨true, _, ran, ⟨kept.references, kept.peek⟩, still, undeployed, unclaimed, ?_, ?_, ?_⟩
      · exact fun id => getEntity_recorded (world.begun it) id
      · intro also
        rw [found] at also
        cases also
      · exact fun _ => rfl
  | some other =>
      have same := unclaimed other found
      subst same
      have ran := manageNonRecursive_known (world.begun other) found
      rw [if_pos rfl] at ran
      refine ⟨false, _, ran, ⟨kept.references, kept.peek⟩, still, undeployed, unclaimed, ?_, ?_, ?_⟩
      · exact fun id => getEntity_recorded (world.begun other) id
      · exact fun _ => recorded_again (world.begun other) found
      · intro absent
        rw [found] at absent
        cases absent

theorem starting_registers (undeployed : world.undeployed it = true)
    (unclaimed : ∀ other, world.getEntity (who.id it) = some other → other = it) :
    ∃ value after, starting who it world = some (.ok value, after) ∧
      Registers who world after it := by
  unfold starting
  rw [Effect.bind_apply _ (onManagementStarting_begins undeployed)]
  exact manageNonRecursive_registers undeployed unclaimed

theorem starting_refused (deployed : world.undeployed it = false) :
    starting who it world =
      some (.error .nullPointer, world.record .onManagementStarting it) := by
  unfold starting
  exact Effect.bind_thrown _ (onManagementStarting_refused deployed)

theorem starting_clashes {other : Ref} (undeployed : world.undeployed it = true)
    (found : world.getEntity (who.id it) = some other) (different : other ≠ it) :
    ∃ after, starting who it world = some (.error (.differentEntityKnown it other), after) ∧
      after.management.entities = world.management.entities ∧
      after.getEntity (who.id it) = some it := by
  have ran := manageNonRecursive_known (world.begun it) found
  rw [if_neg different] at ran
  unfold starting
  rw [Effect.bind_apply _ (onManagementStarting_begins undeployed), ran]
  exact ⟨_, rfl, rfl, (getEntity_recorded _ _).trans (if_pos rfl)⟩

omit [DecidableEq Id] in
theorem onManagementStarted_settles (undeployed : world.undeployed it = true) :
    onManagementStarted it world = some (.ok (), world.settled it) := by
  unfold onManagementStarted
  rw [Effect.modify_bind, Effect.bind_apply _
    (setMode_moved (world.record .onManagementStarted it) undeployed)]
  rfl

omit [DecidableEq Id] in
theorem started_settles (undeployed : world.undeployed it = true) :
    started it world = some (.ok true, world.settled it) := by
  unfold started
  rw [Effect.bind_apply _ (onManagementStarted_settles undeployed)]
  rfl

omit [DecidableEq Id] in
theorem started_refused (deployed : world.undeployed it = false) :
    started it world = some (.error .nullPointer, world.record .onManagementStarted it) := by
  have refused : onManagementStarted it world =
      some (.error .nullPointer, world.record .onManagementStarted it) := by
    unfold onManagementStarted
    rw [Effect.modify_bind]
    exact Effect.bind_thrown _ (setMode_refused (world.record .onManagementStarted it) deployed)
  unfold started
  exact Effect.bind_thrown _ refused

omit [DecidableEq Id] in
theorem keeps_settled : Keeps world (world.settled it) :=
  ((keeps_record _).trans (keeps_changeSupport _ it)).trans (keeps_changeSupport _ it)

omit [DecidableEq Id] in
theorem undeployed_settled (e : Ref) :
    (world.settled it).undeployed e = if e = it then false else world.undeployed e := by
  unfold World.settled
  rw [undeployed_changeSupport, undeployed_changeSupport]
  split <;> rfl

/-- An entity without a context stays as it is, one with a clash loses its entry, and any
other one is registered. -/
theorem starting_cases {after : World Ref Id} {out : Except (Fault Ref) Bool}
    (ran : starting who it world = some (out, after)) :
    (world.undeployed it = false ∧ out = .error .nullPointer ∧
      after = world.record .onManagementStarting it) ∨
    (∃ other fault, world.undeployed it = true ∧ world.getEntity (who.id it) = some other ∧
      other ≠ it ∧ out = .error fault ∧ after.management.entities = world.management.entities ∧
      after.getEntity (who.id it) = some it) ∨
    ∃ value, out = .ok value ∧ Registers who world after it := by
  cases undeployed : world.undeployed it with
  | false =>
      rw [starting_refused undeployed] at ran
      cases ran
      exact Or.inl ⟨rfl, rfl, rfl⟩
  | true =>
      by_cases unclaimed : ∀ other, world.getEntity (who.id it) = some other → other = it
      · obtain ⟨value, reached, registered, registers⟩ := starting_registers undeployed unclaimed
        rw [registered] at ran
        cases ran
        exact Or.inr (Or.inr ⟨value, rfl, registers⟩)
      · push Not at unclaimed
        obtain ⟨other, found, different⟩ := unclaimed
        obtain ⟨reached, clashed, entities, replaced⟩ :=
          starting_clashes undeployed found different
        rw [clashed] at ran
        cases ran
        exact Or.inr (Or.inl ⟨other, _, rfl, found, different, rfl, entities, replaced⟩)

theorem starting_returned {after : World Ref Id} {value : Bool}
    (returned : starting who it world = some (.ok value, after)) :
    Registers who world after it := by
  rcases starting_cases returned with ⟨_, thrown, _⟩ | ⟨_, _, _, _, _, thrown, _⟩ | ⟨_, _, registers⟩
  · cases thrown
  · cases thrown
  · exact registers

omit [DecidableEq Id] in
theorem started_cases {after : World Ref Id} {out : Except (Fault Ref) Bool}
    (ran : started it world = some (out, after)) :
    (world.undeployed it = false ∧ out = .error .nullPointer ∧
      after = world.record .onManagementStarted it) ∨
    world.undeployed it = true ∧ out = .ok true ∧ after = world.settled it := by
  cases undeployed : world.undeployed it with
  | false =>
      rw [started_refused undeployed] at ran
      cases ran
      exact Or.inl ⟨rfl, rfl, rfl⟩
  | true =>
      rw [started_settles undeployed] at ran
      cases ran
      exact Or.inr ⟨rfl, rfl, rfl⟩

omit [DecidableEq Ref] in
theorem Registers.known {before after : World Ref Id} (registers : Registers who before after it)
    {id : Id} {other : Ref} (found : before.getEntity id = some other) :
    after.getEntity id = some other := by
  rw [registers.getEntity]
  split
  · next same =>
    rw [same] at found
    rw [registers.unclaimed other found]
  · exact found

omit [DecidableEq Ref] [DecidableEq Id] in
theorem extends_of_known {before after : World Ref Id} (keeps : Keeps before after)
    (known : ∀ id other, before.getEntity id = some other → after.getEntity id = some other) :
    before.Extends after := by
  refine ⟨keeps.references, fun owner id child found => ?_⟩
  rw [keeps.lookup]
  rcases Option.or_eq_some_iff.mp found with peeked | ⟨absent, registered⟩
  · rw [peeked]
    rfl
  · rw [absent, Option.none_or]
    exact known id child registered

end Actions

section Calls
variable {who} {before after : World Ref Id} {e : Ref} {bound : Nat}

theorem manage_managed (bound : Nat) (managed : before.isManaged who e = true) :
    manage who bound e before = some (.ok (), before) := by
  unfold manage
  rw [Effect.read_bind, managed]
  rfl

theorem manage_passes (unmanaged : before.isManaged who e = false) :
    manage who bound e before =
      (recursively (starting who) bound e >>= fun _ => recursively started bound e) before := by
  unfold manage
  rw [Effect.read_bind, unmanaged]
  rfl

/-- Calls with different bounds that both end do the same. -/
theorem manage_unique {least most : Nat} {out other : Except (Fault Ref) Unit}
    {reached : World Ref Id} (ran : manage who least e before = some (out, after))
    (also : manage who most e before = some (other, reached)) : (out, after) = (other, reached) := by
  cases managed : before.isManaged who e with
  | true =>
      rw [manage_managed _ managed] at ran also
      exact Option.some.inj (ran.symm.trans also)
  | false =>
      rw [manage_passes managed] at ran also
      rcases Effect.bind_cases ran with ⟨fault, thrown, rfl⟩ | ⟨_, middle, returned, rest⟩
      · rcases Effect.bind_cases also with ⟨_, too, rfl⟩ | ⟨_, _, returned, _⟩
        · cases recursively_unique thrown too
          rfl
        · cases recursively_unique thrown returned
      · rcases Effect.bind_cases also with ⟨_, thrown, _⟩ | ⟨_, _, again, others⟩
        · cases recursively_unique returned thrown
        · cases recursively_unique returned again
          exact recursively_unique rest others

end Calls

section Cleared
variable {who} {before after world : World Ref Id} {e : Ref} {bound : Nat} {visited : List Ref}

/-- During a call, entities of the walk may be registered. -/
structure Begun (who : Identity Ref Id) (before world : World Ref Id) (visited : List Ref) :
    Prop where
  keeps : Keeps before world
  getEntity : ∀ id, world.getEntity id = before.getEntity id ∨
    ∃ e ∈ visited, who.id e = id ∧ world.getEntity id = some e

omit [DecidableEq Ref] [DecidableEq Id] in
theorem begun_lookup (clear : Clear who before visited) (begun : Begun who before world visited)
    {owner : Ref} {id : Id} (member : owner ∈ visited) (named : id ∈ before.references owner) :
    world.lookup owner id = before.lookup owner id := by
  rw [begun.keeps.lookup]
  rcases begun.getEntity id with same | ⟨e, walked, names, found⟩
  · rw [same]
    rfl
  · cases known : before.lookup owner id with
    | none => exact absurd names (clear.unreferenced owner member id named known e walked)
    | some child =>
        rcases Option.or_eq_some_iff.mp known with peeked | ⟨absent, registered⟩
        · rw [peeked]
          rfl
        · rw [absent, Option.none_or, found,
            clear.unclaimed e walked child (names.symm ▸ registered)]

omit [DecidableEq Ref] [DecidableEq Id] in
theorem begun_unclaimed (clear : Clear who before visited)
    (begun : Begun who before world visited) (member : e ∈ visited) (other : Ref)
    (found : world.getEntity (who.id e) = some other) : other = e := by
  rcases begun.getEntity (who.id e) with same | ⟨registered, walked, names, also⟩
  · exact clear.unclaimed e member other (same.symm.trans found)
  · have one : registered = e := List.inj_on_of_nodup_map clear.distinct walked member names
    rw [found] at also
    exact (Option.some.inj also).trans one

omit [DecidableEq Ref] in
theorem begun_registers (begun : Begun who before world visited) (member : e ∈ visited)
    (registers : Registers who world after e) : Begun who before after visited := by
  refine ⟨begun.keeps.trans registers.keeps, fun id => ?_⟩
  rw [registers.getEntity]
  split
  · next same => exact Or.inr ⟨e, member, same.symm, rfl⟩
  · exact begun.getEntity id

/-- Where nothing stands in the way, the call returns. -/
theorem manage_of_clear (unmanaged : before.isManaged who e = false)
    (walked : walk before.lookup before.references bound e = some visited)
    (clear : Clear who before visited) :
    ∃ after, manage who bound e before = some (.ok (), after) := by
  rw [manage_passes unmanaged]
  have distinct : visited.Nodup := List.Nodup.of_map who.id clear.distinct
  have first : ∃ middle, recursively (starting who) bound e before = some (.ok (), middle) ∧
      Begun who before middle visited ∧ ∀ e ∈ visited, middle.undeployed e = true :=
    recursively_follows
    (fun _ world => Begun who before world visited ∧ ∀ e ∈ visited, world.undeployed e = true)
    (· ∈ visited) []
    (fun _ _ owner ready => congrFun ready.1.keeps.references owner)
    (fun _ _ _ _ ready member named => begun_lookup clear ready.1 member named)
    (fun e _ world member ready => by
      obtain ⟨value, after, ran, registers⟩ := starting_registers (ready.2 e member)
        (begun_unclaimed clear ready.1 member)
      refine ⟨value, after, ran, begun_registers ready.1 member registers, fun other walked => ?_⟩
      rw [registers.undeployed]
      exact ready.2 other walked)
    walked (fun _ member => member)
    ⟨⟨Keeps.refl before, fun _ => Or.inl rfl⟩, clear.undeployed⟩
  obtain ⟨middle, passed, begun, undeployed⟩ := first
  have second : ∃ after, recursively started bound e middle = some (.ok (), after) ∧
      Begun who before after visited ∧ ([] : List Ref).Nodup ∧ ∀ e ∈ [], after.undeployed e = true :=
    recursively_follows
    (fun todo world => Begun who before world visited ∧ todo.Nodup ∧
      ∀ e ∈ todo, world.undeployed e = true)
    (· ∈ visited) []
    (fun _ _ owner ready => congrFun ready.1.keeps.references owner)
    (fun _ _ _ _ ready member named => begun_lookup clear ready.1 member named)
    (fun e todo world member ready => by
      obtain ⟨begun, fresh, undeployed⟩ := ready
      obtain ⟨absent, rest⟩ := List.nodup_cons.mp fresh
      refine ⟨true, _, started_settles (undeployed e List.mem_cons_self),
        ⟨begun.keeps.trans keeps_settled, begun.getEntity⟩, rest, fun other later => ?_⟩
      have different : other ≠ e := by
        rintro rfl
        exact absent later
      rw [undeployed_settled, if_neg different]
      exact undeployed other (List.mem_cons_of_mem e later))
    walked (fun _ member => member)
    ⟨begun, by rwa [List.append_nil], by rwa [List.append_nil]⟩
  obtain ⟨after, returned, _⟩ := second
  exact ⟨after, by rw [Effect.bind_apply _ passed, returned]⟩

end Cleared

section Returned
variable {who} {before after : World Ref Id} {e : Ref} {bound : Nat} {visited : List Ref}

/-- What the first pass has done when it returned: every entity it came to is registered,
and none of them was in the way. -/
structure Registered (who : Identity Ref Id) (before after : World Ref Id) (visited : List Ref) :
    Prop where
  keeps : Keeps before after
  undeployed : after.undeployed = before.undeployed
  known : ∀ id other, before.getEntity id = some other → after.getEntity id = some other
  getEntity : ∀ e ∈ visited, after.getEntity (who.id e) = some e
  ready : ∀ e ∈ visited, before.undeployed e = true
  unclaimed : ∀ e ∈ visited, ∀ other, before.getEntity (who.id e) = some other → other = e

theorem forEach_registered
    (performed : Effect.forEach visited (perform (starting who)) before = some (.ok (), after)) :
    Registered who before after visited := by
  induction visited generalizing before with
  | nil =>
      cases performed
      exact ⟨Keeps.refl _, rfl, fun _ _ found => found, fun _ member => absurd member List.not_mem_nil,
        fun _ member => absurd member List.not_mem_nil, fun _ member => absurd member List.not_mem_nil⟩
  | cons it rest ih =>
      obtain ⟨_, middle, acted, others⟩ := Effect.bind_returned performed
      obtain ⟨value, reached, returned, last⟩ := Effect.bind_returned acted
      cases last
      have registers := starting_returned returned
      have later := ih others
      refine ⟨registers.keeps.trans later.keeps, later.undeployed.trans registers.undeployed, ?_, ?_,
        ?_, ?_⟩
      · exact fun id other found => later.known id other (registers.known found)
      · intro e member
        rcases List.mem_cons.mp member with rfl | member
        · refine later.known _ e ?_
          rw [registers.getEntity, if_pos rfl]
        · exact later.getEntity e member
      · intro e member
        rcases List.mem_cons.mp member with rfl | member
        · exact registers.ready
        · rw [← registers.undeployed]
          exact later.ready e member
      · intro e member other found
        rcases List.mem_cons.mp member with rfl | member
        · exact registers.unclaimed other found
        · exact later.unclaimed e member other (registers.known found)

omit [DecidableEq Id] in
/-- The second pass comes to no entity twice: it would find it deployed. -/
theorem forEach_settled
    (performed : Effect.forEach visited (perform started) before = some (.ok (), after)) :
    visited.Nodup ∧ ∀ e ∈ visited, before.undeployed e = true := by
  induction visited generalizing before with
  | nil => exact ⟨List.nodup_nil, fun _ member => absurd member List.not_mem_nil⟩
  | cons it rest ih =>
      obtain ⟨_, middle, acted, others⟩ := Effect.bind_returned performed
      obtain ⟨value, reached, returned, last⟩ := Effect.bind_returned acted
      cases last
      rcases started_cases returned with ⟨_, thrown, _⟩ | ⟨ready, _, rfl⟩
      · cases thrown
      · obtain ⟨distinct, undeployed⟩ := ih others
        have fresh (e : Ref) (member : e ∈ rest) : e ≠ it ∧ before.undeployed e = true := by
          have settled := undeployed e member
          rw [undeployed_settled] at settled
          split at settled
          · cases settled
          · next different => exact ⟨different, settled⟩
        refine ⟨List.nodup_cons.mpr ⟨fun member => (fresh it member).1 rfl, distinct⟩, ?_⟩
        intro e member
        rcases List.mem_cons.mp member with rfl | member
        · exact ready
        · exact (fresh e member).2

theorem starting_extends (it : Ref) (world : World Ref Id) (value : Bool) (reached : World Ref Id)
    (returned : starting who it world = some (.ok value, reached)) : world.Extends reached :=
  have registers := starting_returned returned
  extends_of_known registers.keeps fun _ _ found => registers.known found

omit [DecidableEq Id] in
theorem started_extends (it : Ref) (world : World Ref Id) (value : Bool) (reached : World Ref Id)
    (returned : started it world = some (.ok value, reached)) : world.Extends reached := by
  rcases started_cases returned with ⟨_, thrown, _⟩ | ⟨_, _, rfl⟩
  · cases thrown
  · exact extends_of_known keeps_settled fun _ _ found => found

/-- If both passes return, nothing was in the way of the walk from the start. -/
theorem clear_of_returned (unmanaged : before.isManaged who e = false)
    (returned : manage who bound e before = some (.ok (), after)) :
    ∃ visited, walk before.lookup before.references bound e = some visited ∧
      Clear who before visited := by
  rw [manage_passes unmanaged] at returned
  obtain ⟨_, middle, first, second⟩ := Effect.bind_returned returned
  obtain ⟨all, visits, parts⟩ := recursively_visits starting_extends first
  obtain ⟨part, walked, within⟩ := parts before.lookup fun _ _ _ found => found
  have registered := forEach_registered visits.performed
  obtain ⟨again, revisits, reparts⟩ := recursively_visits started_extends second
  obtain ⟨whole, rewalked, inside⟩ := reparts middle.lookup fun _ _ _ found => found
  have fresh : whole.Nodup := inside.nodup (forEach_settled revisits.performed).1
  rw [registered.keeps.references] at rewalked
  have extended := extends_of_known registered.keeps registered.known
  obtain ⟨same, samewalk, contained⟩ := walk_within extended.lookup rewalked
  cases walked.symm.trans samewalk
  refine ⟨part, walked, fun e member => registered.ready e (within.subset member),
    fun e member => registered.unclaimed e (within.subset member), ?_, ?_⟩
  · refine (contained.sublist.nodup fresh).map_on fun left here right there one => ?_
    have found := registered.getEntity left (within.subset here)
    rw [one, registered.getEntity right (within.subset there)] at found
    exact (Option.some.inj found).symm
  · intro owner member id named unknown e walked names
    subst names
    have found : middle.lookup owner (who.id e) = some e := by
      rw [registered.keeps.lookup, (Option.or_eq_none_iff.mp unknown).1, Option.none_or]
      exact registered.getEntity e (within.subset walked)
    exact unknown_outside contained fresh member named unknown found walked

end Returned

section Refusal
variable {who} {before after : World Ref Id} {e : Ref} {bound : Nat}

/-- Nothing was registered yet. -/
structure Untouched (before world : World Ref Id) : Prop where
  keeps : Keeps before world
  undeployed : world.undeployed = before.undeployed
  management : world.management = before.management

omit [DecidableEq Ref] [DecidableEq Id] in
theorem Untouched.looks {world : World Ref Id} (untouched : Untouched before world) :
    world.lookup = before.lookup := by
  funext owner id
  rw [untouched.keeps.lookup, World.getEntity, untouched.management]
  rfl

omit [DecidableEq Ref] [DecidableEq Id] in
theorem Untouched.getEntity {world : World Ref Id} (untouched : Untouched before world) (id : Id) :
    world.getEntity id = before.getEntity id := by
  rw [World.getEntity, untouched.management]
  rfl

/-- More entities than at the start. -/
def More (before world : World Ref Id) : Prop :=
  before.management.entities.length < world.management.entities.length

/-- Another entity under an id than at the start. -/
def Replaced (before world : World Ref Id) : Prop :=
  ∃ id, world.getEntity id ≠ before.getEntity id

theorem starting_stopping (who : Identity Ref Id) (before : World Ref Id) :
    Stopping (starting who) before.lookup before.references (stopsAt who before)
      (fun e => before.undeployed e = false) (Untouched before) where
  refers := fun _ untouched => untouched.keeps.references
  looks := fun _ untouched => untouched.looks
  passes := by
    intro e world passes untouched
    have redundant : before.undeployed e = true ∧ before.getEntity (who.id e) = some e := by
      simpa [stopsAt] using passes
    have here := (untouched.getEntity (who.id e)).trans redundant.2
    obtain ⟨value, after, ran, registers⟩ := starting_registers
      ((congrFun untouched.undeployed e).trans redundant.1)
      (fun other found => Option.some.inj (found.symm.trans here))
    exact ⟨value, after, ran, untouched.keeps.trans registers.keeps,
      registers.undeployed.trans untouched.undeployed,
      (registers.redundant here).trans untouched.management⟩
  halted := by
    intro e world deployed untouched
    refine ⟨_, _, starting_refused ((congrFun untouched.undeployed e).trans deployed), ?_⟩
    exact ⟨untouched.keeps.trans (keeps_record _), untouched.undeployed, untouched.management⟩

theorem starting_more (before : World Ref Id) (e : Ref) :
    Effect.Moves (fun world after => More before world → More before after) (starting who e) := by
  intro world out after ran more
  unfold More at more ⊢
  rcases starting_cases ran with ⟨_, _, rfl⟩ | ⟨_, _, _, _, _, _, entities, _⟩ | ⟨_, _, registers⟩
  · exact more
  · rw [entities]
    exact more
  · cases found : world.getEntity (who.id e) with
    | none =>
        rw [registers.entities found, List.length_append]
        omega
    | some other =>
        have own := registers.unclaimed other found
        rw [registers.redundant (own ▸ found)]
        exact more

theorem starting_stopped (e : Ref) (world : World Ref Id) (out : Except (Fault Ref) Bool)
    (after : World Ref Id) (stop : stopsAt who before e = true) (untouched : Untouched before world)
    (ran : starting who e world = some (out, after)) :
    ((∃ fault, out = .error fault) ∧ before.undeployed e = false ∧ Untouched before after) ∨
      ((∃ value, out = .ok value) ∧ More before after) ∨
        ((∃ fault, out = .error fault) ∧ Replaced before after) := by
  rcases starting_cases ran with ⟨deployed, rfl, rfl⟩ | ⟨other, fault, _, found, different, rfl, _,
    replaced⟩ | ⟨value, rfl, registers⟩
  · refine Or.inl ⟨⟨_, rfl⟩, (congrFun untouched.undeployed e).symm.trans deployed, ?_⟩
    exact ⟨untouched.keeps.trans (keeps_record _), untouched.undeployed, untouched.management⟩
  · refine Or.inr (Or.inr ⟨⟨fault, rfl⟩, who.id e, ?_⟩)
    rw [replaced, ← untouched.getEntity, found]
    exact fun same => different (Option.some.inj same).symm
  · refine Or.inr (Or.inl ⟨⟨value, rfl⟩, ?_⟩)
    cases found : world.getEntity (who.id e) with
    | none =>
        rw [More, registers.entities found, List.length_append, untouched.management]
        exact Nat.lt_succ_self _
    | some other =>
        have own := registers.unclaimed other found
        subst own
        have ready := (congrFun untouched.undeployed other).symm.trans registers.ready
        have here := (untouched.getEntity (who.id other)).symm.trans found
        simp [stopsAt, ready, here] at stop

omit [DecidableEq Id] in
theorem started_ends (world start : World Ref Id) (e : Ref)
    (ready : Keeps start world ∧ world.management = start.management) :
    ∃ out after, started e world = some (out, after) ∧ Keeps start after ∧
      after.management = start.management := by
  cases undeployed : world.undeployed e with
  | false => exact ⟨_, _, started_refused undeployed, ready.1.trans (keeps_record _), ready.2⟩
  | true => exact ⟨_, _, started_settles undeployed, ready.1.trans keeps_settled, ready.2⟩

omit [DecidableEq Id] in
theorem started_keeps_management (bound : Nat) (e : Ref) :
    Effect.Moves (fun before after => after.management = before.management)
      (recursively started bound e : Operation Ref Id Unit) := by
  have trans : IsTrans (World Ref Id) fun before after => after.management = before.management :=
    ⟨fun _ _ _ first second => second.trans first⟩
  have reflexive : Std.Refl fun before after : World Ref Id =>
      after.management = before.management := ⟨fun _ => rfl⟩
  refine moves_recursively (fun it before out after ran => ?_) bound e
  rcases started_cases ran with ⟨_, _, rfl⟩ | ⟨_, _, rfl⟩ <;> rfl

omit [DecidableEq Ref] [DecidableEq Id] in
theorem untouched_start (before : World Ref Id) : Untouched before before :=
  ⟨Keeps.refl before, rfl, rfl⟩

/-- A call that throws and has changed nothing threw before the first new entity. -/
theorem refused_of_thrown {fault : Fault Ref} (unmanaged : before.isManaged who e = false)
    (thrown : manage who bound e before = some (.error fault, after))
    (unchanged : RegistryUnchanged before after) : Refused who before e := by
  -- What the first pass leaves is still there at the end of the call.
  have first : ∃ out middle, recursively (starting who) bound e before = some (out, middle) ∧
      middle.management = after.management := by
    rw [manage_passes unmanaged] at thrown
    rcases Effect.bind_cases thrown with ⟨_, ran, _⟩ | ⟨_, middle, ran, rest⟩
    · exact ⟨_, after, ran, rfl⟩
    · exact ⟨_, middle, ran, (started_keeps_management bound e middle _ after rest).symm⟩
  obtain ⟨out, middle, ran, same⟩ := first
  rcases recursively_stopped (starting_stopping who before) (starting_more before)
    starting_stopped (untouched_start before) ran with more | ⟨⟨id, different⟩, _⟩ |
      ⟨_, found, searched, ends⟩
  · rw [More, same, unchanged.entities] at more
    omega
  · rw [World.getEntity, same] at different
    exact absurd (unchanged.getEntity id) different
  · refine ⟨bound, found, searched, fun stopped member => ?_⟩
    cases ends with
    | returns => cases member
    | halts fault halted =>
        cases member
        exact halted

theorem manage_of_refused (unmanaged : before.isManaged who e = false)
    (refused : Refused who before e) :
    ∃ bound out after, manage who bound e before = some (out, after) ∧
      RegistryUnchanged before after := by
  obtain ⟨bound, found, searched, deployed⟩ := refused
  obtain ⟨out, middle, ran, untouched, ends⟩ := recursively_stops (starting_stopping who before)
    searched deployed (untouched_start before)
  cases ends with
  | halts fault halted =>
      refine ⟨bound, .error fault, middle, ?_, registry_unchanged untouched.management⟩
      rw [manage_passes unmanaged]
      exact Effect.bind_thrown _ ran
  | returns =>
      obtain ⟨visited, walked⟩ := walk_of_first searched
      obtain ⟨out, after, rest, _, same⟩ := recursively_ends
        (fun world => Keeps before world ∧ world.management = before.management)
        (fun _ ready => ready.1.references)
        (fun world ready => by
          funext owner id
          rw [ready.1.lookup, World.getEntity, ready.2]
          rfl)
        (fun e world ready => started_ends world before e ready) walked
        ⟨untouched.keeps, untouched.management⟩
      refine ⟨bound, out, after, ?_, registry_unchanged same⟩
      rw [manage_passes unmanaged, Effect.bind_apply _ ran, rest]

theorem all_or_nothing_of_ended {out : Except (Fault Ref) Unit}
    (ended : manage who bound e before = some (out, after))
    (unchanged_if : ∀ fault, out = .error fault → RegistryUnchanged before after) :
    AllOrNothing who before e := by
  refine ⟨⟨bound, by rw [ended]; rfl⟩, fun other fault reached thrown => ?_⟩
  cases manage_unique ended thrown
  exact unchanged_if fault rfl

end Refusal

/-- The call is all or nothing exactly when there is nothing to do, nothing is in the way of
the walk, or the walk comes to no new entity before it throws. -/
theorem manage_all_or_nothing_iff (world : World Ref Id) (e : Ref) :
    AllOrNothing who world e ↔ world.isManaged who e = true ∨
      (∃ bound visited, walk world.lookup world.references bound e = some visited ∧
        Clear who world visited) ∨
      Refused who world e := by
  cases managed : world.isManaged who e with
  | true =>
      refine iff_of_true ?_ (Or.inl rfl)
      exact all_or_nothing_of_ended (manage_managed 0 managed) nofun
  | false =>
      constructor
      · rintro ⟨⟨bound, ends⟩, unchanged_if⟩
        obtain ⟨⟨out, after⟩, ended⟩ := Option.isSome_iff_exists.mp ends
        cases out with
        | ok _ =>
            obtain ⟨visited, walked, clear⟩ := clear_of_returned managed ended
            exact Or.inr (Or.inl ⟨bound, visited, walked, clear⟩)
        | error fault =>
            exact Or.inr (Or.inr (refused_of_thrown managed ended
              (unchanged_if bound fault after ended)))
      · rintro (impossible | ⟨bound, visited, walked, clear⟩ | refused)
        · cases impossible
        · obtain ⟨after, returned⟩ := manage_of_clear managed walked clear
          exact all_or_nothing_of_ended returned nofun
        · obtain ⟨bound, out, after, ended, unchanged⟩ := manage_of_refused managed refused
          exact all_or_nothing_of_ended ended fun _ _ => unchanged

end Passes

section Clash

inductive Household where
  | parent | child | stranger
deriving DecidableEq

/-- The child and the stranger have one id. -/
def household : Identity Household Nat where
  id
    | .parent => 0
    | .child | .stranger => 1
  isApplication e := e = .parent

def losesEntry (world : World Household Nat) : Bool :=
  match manage household 6 .parent world with
  | some (.error _, after) => after.getEntity 0 == some .parent && world.getEntity 0 == none
  | _ => false

/-- The parent is registered by the time its child clashes with the stranger. -/
theorem clash_leaves_parent_registered :
    ¬ ∀ world : World Household Nat,
      Transition.Reached (entitySystem household) Transition.anyStep world →
        ∀ e, AllOrNothing household world e := by
  intro whole
  obtain ⟨world, run, shown⟩ := Transition.replay_shows (entitySystem household)
    Transition.anyStep [(6, .addOwnedChild .parent .child), (6, .manage .stranger)] losesEntry
    (by decide)
  unfold losesEntry at shown
  split at shown
  · next fault after thrown =>
    simp only [Bool.and_eq_true, beq_iff_eq] at shown
    have unchanged := ((whole world run .parent).2 6 fault after thrown).getEntity 0
    rw [shown.1, shown.2] at unchanged
    cases unchanged
  · cases shown

end Clash
end Brooklyn
