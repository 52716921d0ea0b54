import Brooklyn.OwnershipSearches

/-!
The ownership hierarchy under `setOwner`, `addOwnedChild`, `removeOwnedChild` and
`clearOwner` alone, on entities that nobody manages. Owners and owned children stay the two
sides of one acyclic relation, since a call that throws does so before it changes anything.
Null children throw at once and are left out.
-/

namespace Brooklyn
open Acyclicity Relation

variable {Ref Id : Type}

section Attaching
variable [DecidableEq Ref] [DecidableEq Id] {who : Identity Ref Id} {world : World Ref Id}
  {members : Ref → LinkedSet Ref}

def World.addChild (who : Identity Ref Id) (world : World Ref Id) (owner child : Ref) :
    World Ref Id :=
  world.setOwnedChildren owner ((world.childrenOf owner).add who child)

def World.attach (who : Identity Ref Id) (world : World Ref Id) (owner child : Ref) :
    World Ref Id :=
  ((world.setOwner child (some owner)).addChild who owner child).setPreviouslyOwned child

omit [DecidableEq Id] in
theorem owned_setOwner {child : Ref} (unowned : world.ownerOf child = none) (owner : Ref) :
    (world.setOwner child (some owner)).Owned = withLink world.Owned child owner := by
  funext e other
  simp only [World.Owned, withLink, World.ownerOf_setOwner, eq_iff_iff]
  by_cases same : e = child
  · subst same
    simp [unowned, eq_comm]
  · simp [same]

/-- `addOwnedChild` of a child that has the owner adds the reference. -/
theorem addOwnedChild_owned {bound : Nat} {owner child : Ref}
    (owned : world.ownerOf child = some owner) (apart : ¬ TransGen world.Owned owner child)
    {out : Except (Fault Ref) Unit} {after : World Ref Id}
    (ran : addOwnedChild who bound owner child world = some (out, after)) :
    out = .ok () ∧ after = world.addChild who owner child := by
  cases bound with
  | zero => cases ran
  | succ bound =>
    unfold addOwnedChild at ran
    rcases Effect.bind_cases ran with ⟨fault, thrown, _⟩ | ⟨loop, middle, searched, rest⟩
    · obtain ⟨_, _, returned, _⟩ := isAncestor_finds thrown
      cases returned
    · obtain ⟨rfl, found, returned, finds⟩ := isAncestor_finds searched
      cases returned
      cases loop with
      | true => exact absurd (finds.mp rfl) apart
      | false =>
        cases bound with
        | zero => cases rest
        | succ bound =>
          change (setOwner who (bound + 1) child (some owner) >>= _) middle = _ at rest
          have same : setOwner who (bound + 1) child (some owner) middle =
              some (.ok (), middle) := by
            unfold setOwner getOwner
            rw [Effect.read_bind, show (middle.entity child).owner = some owner from owned]
            simp only [if_pos]
            rfl
          rw [Effect.bind_apply _ same] at rest
          cases rest
          exact ⟨rfl, rfl⟩

/-- `setOwner` changes nothing, or gives an entity without an owner one that is not below it. -/
theorem setOwner_cases (hierarchy : Hierarchy who world members) {bound : Nat} {child owner : Ref}
    {out : Except (Fault Ref) Unit} {after : World Ref Id}
    (ran : setOwner who bound child (some owner) world = some (out, after)) :
    (Kept who world after ∧ (out = .ok () → world.ownerOf child = some owner)) ∨
      (out = .ok () ∧ world.ownerOf child = none ∧ ¬ ReflTransGen world.Owned owner child ∧
        ∃ middle, Kept who world middle ∧ after = middle.attach who owner child) := by
  cases bound with
  | zero => cases ran
  | succ bound =>
    unfold setOwner getOwner at ran
    rw [Effect.read_bind] at ran
    cases current : world.ownerOf child with
    | some other =>
      rw [show (world.entity child).owner = some other from current] at ran
      dsimp only at ran
      split at ran
      · next same =>
        cases ran
        exact Or.inl ⟨.refl _, fun _ => same.symm⟩
      · cases ran
        exact Or.inl ⟨.refl _, fun same => by cases same⟩
    | none =>
      rw [show (world.entity child).owner = none from current] at ran
      dsimp only at ran
      rw [Effect.read_bind] at ran
      split at ran
      · cases ran
        exact Or.inl ⟨.refl _, fun same => by cases same⟩
      split at ran
      · cases ran
        exact Or.inl ⟨.refl _, fun same => by cases same⟩
      next different =>
      rcases Effect.bind_cases ran with ⟨fault, thrown, rfl⟩ | ⟨loop, middle, searched, rest⟩
      · obtain ⟨_, _, returned, _⟩ := isDescendant_finds hierarchy thrown
        cases returned
      obtain ⟨looked, found, returned, finds⟩ := isDescendant_finds hierarchy searched
      cases returned
      split at rest
      · cases rest
        exact Or.inl ⟨looked, fun same => by cases same⟩
      · next missed =>
        have below := finds (by simpa using missed) owner rfl
        have apart : ¬ ReflTransGen world.Owned owner child := by
          intro way
          rcases reflTransGen_iff_eq_or_transGen.mp way with same | proper
          · exact different (by rw [same])
          · exact below proper
        rw [Effect.modify_bind] at rest
        have unowned : middle.ownerOf child = none := (looked.owners child).trans current
        have given : ((middle.setOwner child (some owner)).ownerOf child) = some owner := by simp
        have still : ¬ TransGen (middle.setOwner child (some owner)).Owned owner child := by
          rw [owned_setOwner unowned, looked.owned]
          intro way
          rcases transGen_withLink way with old | ⟨old, _⟩
          · exact apart old.to_reflTransGen
          · exact apart old
        rcases Effect.bind_cases rest with ⟨fault, thrown, rfl⟩ | ⟨_, added, returned, last⟩
        · cases (addOwnedChild_owned given still thrown).1
        · obtain ⟨_, rfl⟩ := addOwnedChild_owned given still returned
          cases last
          exact Or.inr ⟨rfl, rfl, apart, middle, looked, rfl⟩

theorem Hierarchy.attach (hierarchy : Hierarchy who world members)
    (unique : Function.Injective who.id) {owner child : Ref}
    (unowned : world.ownerOf child = none) (apart : ¬ ReflTransGen world.Owned owner child) :
    Hierarchy who (world.attach who owner child)
      (Function.update members owner ((members owner).add child)) := by
  have owned : (world.attach who owner child).Owned = withLink world.Owned child owner := by
    rw [← owned_setOwner unowned]
    funext e other
    simp [World.Owned, World.attach, World.addChild]
  constructor
  · intro other
    unfold World.attach World.addChild
    rw [World.childrenOf_setPreviouslyOwned, World.childrenOf_setOwnedChildren,
      World.childrenOf_setOwner]
    by_cases same : other = owner
    · rw [if_pos same, same, Function.update_self]
      exact (hierarchy.complete owner).add unique child
    · rw [if_neg same, Function.update_of_ne same, World.childrenOf_setOwner]
      exact hierarchy.complete other
  · intro other e
    rw [owned, withLink, ← hierarchy.linked]
    by_cases same : other = owner
    · rw [same, Function.update_self, LinkedSet.mem_add]
      simp
    · rw [Function.update_of_ne same]
      simp [same]
  · rw [owned, acyclic_withLink_iff]
    exact ⟨hierarchy.acyclic, apart⟩

end Attaching

section Detaching
variable [DecidableEq Ref] [DecidableEq Id] {who : Identity Ref Id} {world : World Ref Id}
  {members : Ref → LinkedSet Ref}

omit [DecidableEq Id] in
theorem setOwnedChildren_same (world : World Ref Id) (owner : Ref) :
    world.setOwnedChildren owner (world.childrenOf owner) = world := by
  change ({ world with entity := Function.update world.entity owner (world.entity owner) } :
    World Ref Id) = world
  rw [Function.update_eq_self]

/-- Removing a reference that is not there removes nothing. -/
theorem Hierarchy.dropChild (hierarchy : Hierarchy who world members)
    (unique : Function.Injective who.id) {owner child : Ref}
    (notOwned : world.ownerOf child ≠ some owner) : world.dropChild who owner child = world := by
  have absent : child ∉ members owner := (hierarchy.linked owner child).not.mpr notOwned
  have missing : who.id child ∉ (world.childrenOf owner).entityRefs :=
    ((hierarchy.complete owner).mem unique child).not.mpr absent
  unfold World.dropChild EntityCollectionReference.remove
  rw [if_neg missing]
  exact setOwnedChildren_same world owner

theorem complete_dropChild (complete : ∀ owner, (world.childrenOf owner).Complete who (members owner))
    (unique : Function.Injective who.id) (owner child other : Ref) :
    ((world.dropChild who owner child).childrenOf other).Complete who
      (Function.update members owner ((members owner).remove child) other) := by
  unfold World.dropChild
  rw [World.childrenOf_setOwnedChildren]
  by_cases same : other = owner
  · rw [if_pos same, same, Function.update_self]
    exact ((complete owner).remove unique child).2
  · rw [if_neg same, Function.update_of_ne same]
    exact complete other

/-- Also where the reference to the child has gone before. -/
theorem detach_hierarchy (unique : Function.Injective who.id) {child : Ref}
    (complete : ∀ owner, (world.childrenOf owner).Complete who (members owner))
    (others : ∀ owner e, e ≠ child → (e ∈ members owner ↔ world.Owned e owner))
    (listed : ∀ owner, child ∈ members owner → world.Owned child owner)
    (acyclic : Acyclic world.Owned) : ∃ after, Hierarchy who (world.detach who child) after := by
  have fewer (e owner : Ref) : (world.detach who child).Owned e owner ↔
      world.Owned e owner ∧ e ≠ child := by
    simp only [World.Owned, World.ownerOf_detach]
    by_cases same : e = child <;> simp [same]
  have stays : Acyclic (world.detach who child).Owned :=
    acyclic.mono fun e owner owned => ((fewer e owner).mp owned).1
  cases current : world.ownerOf child with
  | none =>
    have unlisted (owner : Ref) : child ∉ members owner := by
      intro member
      have owned := listed owner member
      rw [World.Owned, current] at owned
      cases owned
    refine ⟨members, ?_, fun owner e => ?_, stays⟩
    · unfold World.detach
      rw [current]
      exact complete
    · rw [fewer]
      by_cases same : e = child
      · simp [same, unlisted]
      · simp [same, others owner e same]
  | some current' =>
    refine ⟨Function.update members current' ((members current').remove child), ?_,
      fun owner e => ?_, stays⟩
    · unfold World.detach
      rw [current]
      refine complete_dropChild (fun owner => ?_) unique current' child
      rw [World.childrenOf_setOwner]
      exact complete owner
    · rw [fewer]
      by_cases here : owner = current'
      · rw [here, Function.update_self, LinkedSet.mem_remove]
        exact and_congr_left fun different => others current' e different
      · rw [Function.update_of_ne here]
        by_cases same : e = child
        · refine iff_of_false (fun member => here ?_) (fun both => both.2 same)
          have owned := listed owner (same ▸ member)
          rw [World.Owned, current] at owned
          exact (Option.some.inj owned).symm
        · simp [same, others owner e same]

theorem Hierarchy.detach (hierarchy : Hierarchy who world members)
    (unique : Function.Injective who.id) (child : Ref) :
    ∃ after, Hierarchy who (world.detach who child) after :=
  detach_hierarchy unique hierarchy.complete (fun owner e _ => hierarchy.linked owner e)
    (fun owner => (hierarchy.linked owner child).mp) hierarchy.acyclic

/-- The reference goes twice if the owner is the one who removes. -/
theorem Hierarchy.removed (hierarchy : Hierarchy who world members)
    (unique : Function.Injective who.id) (owner child : Ref) :
    ∃ after, Hierarchy who ((world.dropChild who owner child).detach who child) after := by
  have owned : (world.dropChild who owner child).Owned = world.Owned := by
    funext e other
    rw [World.Owned, World.Owned, World.ownerOf_dropChild]
  refine detach_hierarchy unique (complete_dropChild hierarchy.complete unique owner child)
    (fun other e different => ?_) (fun other member => ?_) (owned ▸ hierarchy.acyclic)
  · rw [owned, ← hierarchy.linked]
    by_cases same : other = owner
    · rw [same, Function.update_self, LinkedSet.mem_remove]
      exact and_iff_left different
    · rw [Function.update_of_ne same]
  · rw [owned, ← hierarchy.linked]
    by_cases same : other = owner
    · rw [same, Function.update_self, LinkedSet.mem_remove] at member
      rw [same]
      exact member.1
    · rwa [Function.update_of_ne same] at member

end Detaching

section Calls
variable [DecidableEq Ref] [DecidableEq Id] {who : Identity Ref Id} {world : World Ref Id}
  {members : Ref → LinkedSet Ref}

/-- The four calls that change the hierarchy. -/
def Call.ofHierarchy : Call Ref → Prop
  | .setOwner _ _ | .clearOwner _ | .addOwnedChild _ _ | .removeOwnedChild _ _ => True
  | _ => False

theorem setOwner_hierarchy (hierarchy : Hierarchy who world members)
    (unique : Function.Injective who.id) {bound : Nat} {child owner : Ref}
    {out : Except (Fault Ref) Unit} {after : World Ref Id}
    (ran : setOwner who bound child (some owner) world = some (out, after)) :
    (∃ later, Hierarchy who after later) ∧ (out = .ok () → after.ownerOf child = some owner) := by
  rcases setOwner_cases hierarchy ran with ⟨kept, owned⟩ | ⟨_, unowned, apart, middle, looked, rfl⟩
  · exact ⟨⟨members, hierarchy.kept kept⟩, fun returned => (kept.owners child).trans (owned returned)⟩
  · refine ⟨⟨_, (hierarchy.kept looked).attach unique ((looked.owners child).trans unowned) ?_⟩,
      fun _ => ?_⟩
    · rw [looked.owned]
      exact apart
    · simp [World.attach, World.addChild]

theorem clearing_hierarchy (hierarchy : Hierarchy who world members) {bound : Nat} {child : Ref}
    (unique : Function.Injective who.id)
    {out : Except (Fault Ref) Unit} {after : World Ref Id}
    (ran : setOwner who bound child none world = some (out, after)) :
    ∃ later, Hierarchy who after later := by
  cases bound with
  | zero => cases ran
  | succ bound =>
    unfold setOwner getOwner at ran
    rw [Effect.read_bind] at ran
    cases current : world.ownerOf child with
    | some other =>
      rw [show (world.entity child).owner = some other from current] at ran
      simp only [reduceCtorEq, if_false] at ran
      obtain ⟨_, rfl⟩ := clearOwner_ran who ran
      exact hierarchy.detach unique child
    | none =>
      rw [show (world.entity child).owner = none from current] at ran
      dsimp only at ran
      rw [Effect.read_bind] at ran
      simp only [Option.isSome_none, Bool.false_eq_true, and_false, if_false, reduceCtorEq] at ran
      rcases Effect.bind_cases ran with ⟨fault, thrown, _⟩ | ⟨loop, middle, searched, rest⟩
      · exact ⟨members, hierarchy.kept (isDescendant_finds hierarchy thrown).1⟩
      · cases rest
        exact ⟨members, hierarchy.kept (isDescendant_finds hierarchy searched).1⟩

theorem addOwnedChild_hierarchy (hierarchy : Hierarchy who world members)
    (unique : Function.Injective who.id) {bound : Nat} {owner child : Ref}
    {out : Except (Fault Ref) Unit} {after : World Ref Id}
    (ran : addOwnedChild who bound owner child world = some (out, after)) :
    ∃ later, Hierarchy who after later := by
  cases bound with
  | zero => cases ran
  | succ bound =>
    unfold addOwnedChild at ran
    rcases Effect.bind_cases ran with ⟨fault, thrown, _⟩ | ⟨loop, middle, searched, rest⟩
    · rw [(isAncestor_finds thrown).1]
      exact ⟨members, hierarchy⟩
    · obtain ⟨rfl, _⟩ := isAncestor_finds searched
      split at rest
      · cases rest
        exact ⟨members, hierarchy⟩
      · rcases Effect.bind_cases rest with ⟨fault, thrown, _⟩ | ⟨_, given, returned, last⟩
        · exact (setOwner_hierarchy hierarchy unique thrown).1
        · obtain ⟨⟨later, held⟩, owned⟩ := setOwner_hierarchy hierarchy unique returned
          have there : who.id child ∈ (given.childrenOf owner).entityRefs :=
            ((held.complete owner).mem unique child).mpr ((held.linked owner child).mpr (owned rfl))
          cases last
          -- The reference is there, so adding it again changes nothing.
          change ∃ later, Hierarchy who (given.setOwnedChildren owner
            ((given.childrenOf owner).add who child)) later
          rw [EntityCollectionReference.add, if_pos there, setOwnedChildren_same]
          exact ⟨later, held⟩

theorem perform_hierarchy (hierarchy : Hierarchy who world members)
    (unique : Function.Injective who.id) {bound : Nat} {call : Call Ref} (kind : call.ofHierarchy)
    {out : Except (Fault Ref) Unit} {after : World Ref Id}
    (ran : call.perform who bound world = some (out, after)) :
    ∃ later, Hierarchy who after later := by
  cases call with
  | setOwner child owner =>
    cases owner with
    | none => exact clearing_hierarchy hierarchy unique ran
    | some owner => exact (setOwner_hierarchy hierarchy unique ran).1
  | clearOwner child =>
    obtain ⟨_, rfl⟩ := clearOwner_ran who ran
    exact hierarchy.detach unique child
  | addOwnedChild owner child => exact addOwnedChild_hierarchy hierarchy unique ran
  | removeOwnedChild owner child =>
    change (removeOwnedChild who bound owner child >>= fun _ => pure ()) world = _ at ran
    rcases Effect.bind_cases ran with ⟨fault, thrown, _⟩ | ⟨_, middle, removed, last⟩
    · rw [removeOwnedChild_ran who thrown]
      exact hierarchy.removed unique owner child
    · cases last
      rw [removeOwnedChild_ran who removed]
      exact hierarchy.removed unique owner child
  | getOwnedChildren e => cases kind
  | manage e => cases kind
  | unmanage e => cases kind
  | terminate => cases kind

/-- The worlds that the four calls lead to, from entities without owners. -/
inductive HierarchyReached (who : Identity Ref Id) : World Ref Id → Prop where
  | start : HierarchyReached who .initial
  | call {before after : World Ref Id} {bound : Nat} {call : Call Ref}
      {out : Except (Fault Ref) Unit} (reached : HierarchyReached who before)
      (kind : call.ofHierarchy) (ran : call.perform who bound before = some (out, after)) :
      HierarchyReached who after

theorem reached_hierarchy (unique : Function.Injective who.id)
    (reached : HierarchyReached who world) : ∃ members, Hierarchy who world members := by
  induction reached with
  | start =>
    refine ⟨fun _ => .empty, fun _ => EntityCollectionReference.complete_create,
      fun owner child => ?_, acyclic_empty.mono fun child owner owned => by cases owned⟩
    exact iff_of_false (LinkedSet.not_mem_empty child) fun owned => by cases owned
  | call _ kind ran ih =>
    obtain ⟨members, hierarchy⟩ := ih
    exact perform_hierarchy hierarchy unique kind ran

/-- Nobody's owner and nobody's owned children differ. -/
structure SameHierarchy (before after : World Ref Id) : Prop where
  owners : ∀ e, after.ownerOf e = before.ownerOf e
  children : ∀ e, (after.childrenOf e).entityRefs = (before.childrenOf e).entityRefs

theorem removeOwnedChild_same_iff (hierarchy : Hierarchy who world members)
    (unique : Function.Injective who.id) {bound : Nat} {owner child : Ref}
    (notOwned : world.ownerOf child ≠ some owner) {out : Except (Fault Ref) Bool}
    {after : World Ref Id}
    (ran : removeOwnedChild who bound owner child world = some (out, after)) :
    SameHierarchy world after ↔ world.ownerOf child = none := by
  rw [removeOwnedChild_ran who ran, hierarchy.dropChild unique notOwned]
  constructor
  · intro same
    rw [← same.owners child, World.ownerOf_detach, if_pos rfl]
  · intro unowned
    unfold World.detach
    rw [unowned]
    exact ⟨fun _ => rfl, fun _ => rfl⟩

theorem clearOwner_returns_unowned (bound : Nat) {child : Ref}
    (unowned : world.ownerOf child = none) :
    clearOwner who (bound + 1) child world = some (.ok (), world) := by
  unfold clearOwner getOwner
  rw [Effect.read_bind, show (world.entity child).owner = none from unowned]
  rfl

theorem removeOwnedChild_returns_of {bound : Nat} {owner child : Ref} {after : World Ref Id}
    (cleared : clearOwner who bound child (world.dropChild who owner child) = some (.ok (), after)) :
    ∃ changed, removeOwnedChild who (bound + 1) owner child world = some (.ok changed, after) := by
  unfold removeOwnedChild
  rw [Effect.read_bind, Effect.modify_bind]
  exact ⟨_, Effect.bind_apply _ cleared⟩

theorem removeOwnedChild_returns (who : Identity Ref Id) (owner child : Ref) (world : World Ref Id) :
    ∃ changed after, removeOwnedChild who 4 owner child world = some (.ok changed, after) := by
  cases current : world.ownerOf child with
  | none =>
    have unowned : (world.dropChild who owner child).ownerOf child = none := by simp [current]
    obtain ⟨changed, returned⟩ := removeOwnedChild_returns_of
      (clearOwner_returns_unowned 2 unowned)
    exact ⟨changed, _, returned⟩
  | some other =>
    have owned : (world.dropChild who owner child).ownerOf child = some other := by simp [current]
    have unowned : (((world.dropChild who owner child).setOwner child none).dropChild who other
        child).ownerOf child = none := by simp
    obtain ⟨_, removed⟩ := removeOwnedChild_returns_of (clearOwner_returns_unowned 0 unowned)
    have cleared : clearOwner who 3 child (world.dropChild who owner child) = some (.ok (),
        ((world.dropChild who owner child).setOwner child none).dropChild who other child) := by
      unfold clearOwner getOwner
      rw [Effect.read_bind,
        show ((world.dropChild who owner child).entity child).owner = some other from owned]
      exact Effect.bind_apply _ removed
    obtain ⟨changed, returned⟩ := removeOwnedChild_returns_of cleared
    exact ⟨changed, _, returned⟩

/-- In every world reached, owned children are those whose owner is the entity, nobody is its
own ancestor, and taking from an entity a child that it does not own changes nothing exactly
if nobody owns that child. -/
theorem hierarchy_consistent (unique : Function.Injective who.id)
    (reached : HierarchyReached who world) :
    (∀ owner child, who.id child ∈ (world.childrenOf owner).entityRefs ↔
      world.ownerOf child = some owner) ∧
    (∀ owner, ∃ children after,
      getOwnedChildren who owner world = some (.ok children, after) ∧
        ∀ child, child ∈ children ↔ world.ownerOf child = some owner) ∧
    (∀ e, ¬ TransGen (fun child owner => world.ownerOf child = some owner) e e) ∧
    ∀ owner child, world.ownerOf child ≠ some owner →
      (∃ bound out after, removeOwnedChild who bound owner child world = some (out, after)) ∧
      ∀ bound out after, removeOwnedChild who bound owner child world = some (out, after) →
        (SameHierarchy world after ↔ world.ownerOf child = none) := by
  obtain ⟨members, hierarchy⟩ := reached_hierarchy unique reached
  refine ⟨fun owner child => ?_, fun owner => ?_, hierarchy.acyclic,
    fun owner child notOwned => ⟨?_, fun bound out after ran => ?_⟩⟩
  · rw [(hierarchy.complete owner).mem unique]
    exact hierarchy.linked owner child
  · obtain ⟨after, got, _⟩ := getOwnedChildren_gets hierarchy owner
    exact ⟨_, after, got, hierarchy.linked owner⟩
  · obtain ⟨changed, after, returned⟩ := removeOwnedChild_returns who owner child world
    exact ⟨4, _, after, returned⟩
  · exact removeOwnedChild_same_iff hierarchy unique notOwned ran

theorem setOwner_reached : ∃ world : World Nat Nat,
    HierarchyReached ⟨id, fun _ => false⟩ world ∧ world.ownerOf 1 = some 0 :=
  ⟨_, @HierarchyReached.call Nat Nat _ _ ⟨id, fun _ => false⟩ .initial _ 9 (.setOwner 1 (some 0)) _
    .start trivial rfl, rfl⟩

theorem hierarchy_consistent_after_setOwner :
    Function.Injective (id : Nat → Nat) ∧
      ∃ world : World Nat Nat, HierarchyReached ⟨id, fun _ => false⟩ world ∧
        1 ∈ (world.childrenOf 0).entityRefs ∧
        ¬ TransGen (fun child owner => world.ownerOf child = some owner) 0 0 := by
  obtain ⟨world, reached, owned⟩ := setOwner_reached
  obtain ⟨linked, _, acyclic, _⟩ :=
    @hierarchy_consistent Nat Nat _ _ ⟨id, fun _ => false⟩ world Function.injective_id reached
  exact ⟨Function.injective_id, world, reached, (linked 0 1).mpr owned, acyclic 0⟩

/-- Entity 2 removes the child 1 of entity 0, and 1 has no owner any more. -/
theorem removeOwnedChild_orphans :
    ∃ world after : World Nat Nat, HierarchyReached ⟨id, fun _ => false⟩ world ∧
      world.ownerOf 1 = some 0 ∧
      removeOwnedChild ⟨id, fun _ => false⟩ 4 2 1 world = some (.ok false, after) ∧
      after.ownerOf 1 = none ∧ ¬ SameHierarchy world after := by
  refine ⟨_, _, @HierarchyReached.call Nat Nat _ _ ⟨id, fun _ => false⟩ .initial _ 9
    (.setOwner 1 (some 0)) _ .start trivial rfl, rfl, rfl, rfl, fun same => ?_⟩
  exact absurd (same.owners 1) (by decide)

end Calls
end Brooklyn
