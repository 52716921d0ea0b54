import Brooklyn.EntityManagement

/-!
What ties owners, references to owned children and the entities by id together.
`Linked` holds after every sequence of calls, those that throw included. The other
direction does not: a `setOwner` that throws in the middle leaves a child with an
owner that has no reference to it.
-/

namespace Brooklyn

variable {Ref Id : Type}

namespace World

def ownerOf (world : World Ref Id) (e : Ref) : Option Ref :=
  (world.entity e).owner

def childrenOf (world : World Ref Id) (e : Ref) : EntityCollectionReference Ref Id :=
  (world.entity e).ownedChildren

section Updates
variable [DecidableEq Ref] (world : World Ref Id) (e other : Ref)

theorem entity_setEntity (entity : AbstractEntity Ref Id) :
    (world.setEntity e entity).entity other = if other = e then entity else world.entity other :=
  Function.update_apply world.entity e entity other

theorem unchanged_setEntity {Field : Type} (field : AbstractEntity Ref Id → Field)
    {entity : AbstractEntity Ref Id} (same : field entity = field (world.entity e)) :
    field ((world.setEntity e entity).entity other) = field (world.entity other) := by
  rw [entity_setEntity]
  split
  · next here => rw [here, same]
  · rfl

@[simp] theorem ownerOf_setOwner (owner : Option Ref) :
    (world.setOwner e owner).ownerOf other = if other = e then owner else world.ownerOf other := by
  unfold setOwner ownerOf
  rw [entity_setEntity]
  split <;> rfl

@[simp] theorem childrenOf_setOwner (owner : Option Ref) :
    (world.setOwner e owner).childrenOf other = world.childrenOf other :=
  world.unchanged_setEntity e other (·.ownedChildren) rfl

@[simp] theorem ownerOf_setOwnedChildren (children : EntityCollectionReference Ref Id) :
    (world.setOwnedChildren e children).ownerOf other = world.ownerOf other :=
  world.unchanged_setEntity e other (·.owner) rfl

@[simp] theorem childrenOf_setOwnedChildren (children : EntityCollectionReference Ref Id) :
    (world.setOwnedChildren e children).childrenOf other =
      if other = e then children else world.childrenOf other := by
  unfold setOwnedChildren childrenOf
  rw [entity_setEntity]
  split <;> rfl

@[simp] theorem ownerOf_setPreviouslyOwned :
    (world.setPreviouslyOwned e).ownerOf other = world.ownerOf other :=
  world.unchanged_setEntity e other (·.owner) rfl

@[simp] theorem childrenOf_setPreviouslyOwned :
    (world.setPreviouslyOwned e).childrenOf other = world.childrenOf other :=
  world.unchanged_setEntity e other (·.ownedChildren) rfl

@[simp] theorem ownerOf_changeSupport (change : EntityManagementSupport → EntityManagementSupport) :
    (world.changeSupport e change).ownerOf other = world.ownerOf other :=
  world.unchanged_setEntity e other (·.owner) rfl

@[simp] theorem childrenOf_changeSupport
    (change : EntityManagementSupport → EntityManagementSupport) :
    (world.changeSupport e change).childrenOf other = world.childrenOf other :=
  world.unchanged_setEntity e other (·.ownedChildren) rfl

end Updates
end World

section References
variable [DecidableEq Id] (who : Identity Ref Id) (reference : EntityCollectionReference Ref Id)
  (e : Ref)

namespace EntityCollectionReference

theorem mem_add (id : Id) :
    id ∈ (reference.add who e).entityRefs ↔ id ∈ reference.entityRefs ∨ id = who.id e := by
  unfold add
  split
  · next present =>
    constructor
    · exact Or.inl
    · rintro (member | rfl)
      · exact member
      · exact present
  · exact LinkedSet.mem_add _ _ _

theorem mem_remove (id : Id) :
    id ∈ (reference.remove who e).2.entityRefs ↔ id ∈ reference.entityRefs ∧ id ≠ who.id e := by
  unfold remove
  split
  · exact LinkedSet.mem_remove _ _ _
  · next absent =>
    constructor
    · rintro member
      exact ⟨member, fun same => absent (same ▸ member)⟩
    · exact And.left

theorem peek_add {id : Id} {child : Ref} (known : (reference.add who e).peek id = some child) :
    reference.peek id = some child ∨ (id = who.id e ∧ child = e) := by
  unfold add at known
  split at known
  · exact Or.inl known
  · unfold peek at known ⊢
    simp only [Option.bind_some, LinkedMap.get_put] at known
    split at known
    · next same =>
      cases known
      exact Or.inr ⟨same, rfl⟩
    · left
      cases entities : reference.entities with
      | none => simp [entities] at known
      | some map => simpa [entities] using known

theorem peek_remove {id : Id} {child : Ref}
    (known : (reference.remove who e).2.peek id = some child) :
    reference.peek id = some child := by
  unfold remove at known
  split at known
  · unfold peek at known ⊢
    cases entities : reference.entities with
    | none => simp [entities] at known
    | some map =>
      simp only [entities, Option.map_some, Option.bind_some, LinkedMap.get_remove] at known
      split at known
      · cases known
      · simpa using known
  · exact known

end EntityCollectionReference
end References

/-- An id among the references of an entity is the id of an entity that it owns, and
entities are known and managed under their own ids. -/
structure Linked (who : Identity Ref Id) (world : World Ref Id) : Prop where
  owned : ∀ owner id, id ∈ (world.childrenOf owner).entityRefs →
    ∃ child, who.id child = id ∧ world.ownerOf child = some owner
  known : ∀ owner id child, (world.childrenOf owner).peek id = some child → who.id child = id
  managed : ∀ id e, world.getEntity id = some e → who.id e = id
  irreflexive : ∀ e, world.ownerOf e ≠ some e

theorem linked_initial (who : Identity Ref Id) : Linked who (World.initial : World Ref Id) where
  owned := fun _ _ member => absurd member (LinkedSet.not_mem_empty _)
  known := fun _ _ _ known => by cases known
  managed := fun _ _ found => by cases found
  irreflexive := fun _ self => by cases self

/-- Links survive when owners and known entities only go, and a reference stays only
where the owner of its child does. -/
theorem Linked.shrink {who : Identity Ref Id} {before after : World Ref Id}
    (linked : Linked who before)
    (refs : ∀ owner id, id ∈ (after.childrenOf owner).entityRefs →
      id ∈ (before.childrenOf owner).entityRefs ∧ ∀ child, who.id child = id →
        before.ownerOf child = some owner → after.ownerOf child = some owner)
    (known : ∀ owner id child, (after.childrenOf owner).peek id = some child →
      (before.childrenOf owner).peek id = some child)
    (managed : ∀ id e, after.getEntity id = some e → before.getEntity id = some e)
    (owners : ∀ child owner, after.ownerOf child = some owner →
      before.ownerOf child = some owner) : Linked who after where
  owned := by
    intro owner id member
    obtain ⟨present, kept⟩ := refs owner id member
    obtain ⟨child, named, owned⟩ := linked.owned owner id present
    exact ⟨child, named, kept child named owned⟩
  known := fun owner id child found => linked.known owner id child (known owner id child found)
  managed := fun id e found => linked.managed id e (managed id e found)
  irreflexive := fun e self => linked.irreflexive e (owners e e self)

section Detach
variable [DecidableEq Ref] [DecidableEq Id] (who : Identity Ref Id)

namespace World
variable (world : World Ref Id)

def dropChild (owner child : Ref) : World Ref Id :=
  world.setOwnedChildren owner ((world.childrenOf owner).remove who child).2

def detach (child : Ref) : World Ref Id :=
  match world.ownerOf child with
  | none => world
  | some owner => (world.setOwner child none).dropChild who owner child

@[simp] theorem ownerOf_dropChild (owner child e : Ref) :
    (world.dropChild who owner child).ownerOf e = world.ownerOf e :=
  world.ownerOf_setOwnedChildren owner e _

theorem mem_dropChild (owner child e : Ref) (id : Id) :
    id ∈ ((world.dropChild who owner child).childrenOf e).entityRefs ↔
      id ∈ (world.childrenOf e).entityRefs ∧ ¬(e = owner ∧ id = who.id child) := by
  unfold dropChild
  rw [childrenOf_setOwnedChildren]
  by_cases same : e = owner
  · simp [same, EntityCollectionReference.mem_remove]
  · simp [same]

theorem peek_dropChild {owner child e known : Ref} {id : Id}
    (found : ((world.dropChild who owner child).childrenOf e).peek id = some known) :
    (world.childrenOf e).peek id = some known := by
  unfold dropChild at found
  rw [childrenOf_setOwnedChildren] at found
  split at found
  · next same =>
    rw [same]
    exact EntityCollectionReference.peek_remove who _ child found
  · exact found

@[simp] theorem ownerOf_detach (child e : Ref) :
    (world.detach who child).ownerOf e = if e = child then none else world.ownerOf e := by
  unfold detach
  split
  · next unowned =>
    split
    · next same => rw [same, unowned]
    · rfl
  · simp

theorem mem_detach (child e : Ref) (id : Id) :
    id ∈ ((world.detach who child).childrenOf e).entityRefs ↔
      id ∈ (world.childrenOf e).entityRefs ∧
        ¬(world.ownerOf child = some e ∧ id = who.id child) := by
  unfold detach
  split
  · next unowned => simp [unowned]
  · next owner owned => simp [mem_dropChild, owned, eq_comm]

theorem peek_detach {child e known : Ref} {id : Id}
    (found : ((world.detach who child).childrenOf e).peek id = some known) :
    (world.childrenOf e).peek id = some known := by
  unfold detach at found
  split at found
  · exact found
  · simpa using peek_dropChild who _ found

theorem management_detach (child : Ref) : (world.detach who child).management = world.management := by
  unfold detach
  split <;> rfl

theorem steps_detach (child : Ref) : (world.detach who child).steps = world.steps := by
  unfold detach
  split <;> rfl

end World

theorem clearOwner_ran_unowned {bound : Nat} {child : Ref} {before after : World Ref Id}
    {out : Except (Fault Ref) Unit} (unowned : before.ownerOf child = none)
    (ran : clearOwner who bound child before = some (out, after)) :
    out = .ok () ∧ after = before := by
  cases bound with
  | zero => cases ran
  | succ bound =>
    unfold clearOwner getOwner at ran
    rw [Effect.read_bind, show (before.entity child).owner = none from unowned] at ran
    cases ran
    exact ⟨rfl, rfl⟩

theorem removeOwnedChild_ran_unowned {bound : Nat} {owner child : Ref}
    {before after : World Ref Id} {out : Except (Fault Ref) Bool}
    (unowned : before.ownerOf child = none)
    (ran : removeOwnedChild who bound owner child before = some (out, after)) :
    (∃ changed, out = .ok changed) ∧ after = before.dropChild who owner child := by
  cases bound with
  | zero => cases ran
  | succ bound =>
    unfold removeOwnedChild at ran
    rw [Effect.read_bind, Effect.modify_bind] at ran
    have dropped : (before.dropChild who owner child).ownerOf child = none := by
      simpa [World.dropChild] using unowned
    rcases Effect.bind_cases ran with ⟨fault, thrown, _⟩ | ⟨_, middle, cleared, rest⟩
    · cases (clearOwner_ran_unowned who dropped thrown).1
    · cases rest
      exact ⟨⟨_, rfl⟩, (clearOwner_ran_unowned who dropped cleared).2⟩

/-- `clearOwner` and `removeOwnedChild` call each other; the owner is gone when the second
of them starts, so there is no third. -/
theorem clearOwner_ran {bound : Nat} {child : Ref} {before after : World Ref Id}
    {out : Except (Fault Ref) Unit}
    (ran : clearOwner who bound child before = some (out, after)) :
    out = .ok () ∧ after = before.detach who child := by
  unfold World.detach
  cases found : before.ownerOf child with
  | none => exact clearOwner_ran_unowned who found ran
  | some owner =>
    cases bound with
    | zero => cases ran
    | succ bound =>
      unfold clearOwner getOwner at ran
      rw [Effect.read_bind, show (before.entity child).owner = some owner from found] at ran
      change (removeOwnedChild who bound owner child >>= fun _ => pure ())
        (before.setOwner child none) = _ at ran
      have cleared : (before.setOwner child none).ownerOf child = none := by simp
      rcases Effect.bind_cases ran with ⟨fault, thrown, _⟩ | ⟨_, middle, removed, rest⟩
      · cases (removeOwnedChild_ran_unowned who cleared thrown).1.choose_spec
      · cases rest
        exact ⟨rfl, (removeOwnedChild_ran_unowned who cleared removed).2⟩

theorem removeOwnedChild_ran {bound : Nat} {owner child : Ref} {before after : World Ref Id}
    {out : Except (Fault Ref) Bool}
    (ran : removeOwnedChild who bound owner child before = some (out, after)) :
    after = (before.dropChild who owner child).detach who child := by
  cases bound with
  | zero => cases ran
  | succ bound =>
    unfold removeOwnedChild at ran
    rw [Effect.read_bind, Effect.modify_bind] at ran
    rcases Effect.bind_cases ran with ⟨fault, thrown, _⟩ | ⟨_, middle, cleared, rest⟩
    · exact (clearOwner_ran who thrown).2
    · cases rest
      exact (clearOwner_ran who cleared).2

end Detach

section Relations
variable [DecidableEq Ref] (who : Identity Ref Id)

def World.stops (world : World Ref Id) (e : Ref) : Nat :=
  world.steps.count (.onManagementStopped, e)

def KeepsLinked (before after : World Ref Id) : Prop :=
  Linked who before → Linked who after

/-- Nobody leaves the management or is stopped; owners and references only go. -/
structure Detaches (before after : World Ref Id) : Prop where
  management : after.management = before.management
  owners : ∀ child owner, after.ownerOf child = some owner → before.ownerOf child = some owner
  refs : ∀ owner id, id ∈ (after.childrenOf owner).entityRefs →
    id ∈ (before.childrenOf owner).entityRefs
  stops : ∀ e, after.stops e = before.stops e
  linked : KeepsLinked who before after

/-- No owner goes. -/
structure Attaches (before after : World Ref Id) : Prop where
  owners : ∀ child owner, before.ownerOf child = some owner → after.ownerOf child = some owner
  linked : KeepsLinked who before after

omit [DecidableEq Ref] in
instance : Std.Refl (KeepsLinked who) := ⟨fun _ => id⟩

omit [DecidableEq Ref] in
instance : IsTrans (World Ref Id) (KeepsLinked who) :=
  ⟨fun _ _ _ first second linked => second (first linked)⟩

instance : Std.Refl (Detaches who) :=
  ⟨fun _ => ⟨rfl, fun _ _ => id, fun _ _ => id, fun _ => rfl, id⟩⟩

instance : IsTrans (World Ref Id) (Detaches who) :=
  ⟨fun _ _ _ first second =>
    { management := second.management.trans first.management
      owners := fun child owner owned => first.owners child owner (second.owners child owner owned)
      refs := fun owner id member => first.refs owner id (second.refs owner id member)
      stops := fun e => (second.stops e).trans (first.stops e)
      linked := fun linked => second.linked (first.linked linked) }⟩

omit [DecidableEq Ref] in
instance : Std.Refl (Attaches who) := ⟨fun _ => ⟨fun _ _ => id, id⟩⟩

omit [DecidableEq Ref] in
instance : IsTrans (World Ref Id) (Attaches who) :=
  ⟨fun _ _ _ first second =>
    { owners := fun child owner owned => second.owners child owner (first.owners child owner owned)
      linked := fun linked => second.linked (first.linked linked) }⟩

end Relations

section Detaching
variable [DecidableEq Ref] [DecidableEq Id] (who : Identity Ref Id)

theorem detaches_dropChild (world : World Ref Id) (owner child : Ref) :
    Detaches who world (world.dropChild who owner child) where
  management := rfl
  owners := fun e _ => by rw [World.ownerOf_dropChild]; exact id
  refs := fun e id member => ((world.mem_dropChild who owner child e id).mp member).1
  stops := fun _ => rfl
  linked := fun linked => linked.shrink
    (fun e key member => ⟨((world.mem_dropChild who owner child e key).mp member).1,
      fun _ _ => by rw [World.ownerOf_dropChild]; exact id⟩)
    (fun _ _ _ => world.peek_dropChild who)
    (fun _ _ => id)
    (fun e _ => by rw [World.ownerOf_dropChild]; exact id)

theorem ownerOf_detach_some {world : World Ref Id} {child e owner : Ref}
    (owned : (world.detach who child).ownerOf e = some owner) : world.ownerOf e = some owner := by
  rw [World.ownerOf_detach] at owned
  split at owned
  · cases owned
  · exact owned

theorem detaches_detach (world : World Ref Id) (child : Ref) :
    Detaches who world (world.detach who child) where
  management := world.management_detach who child
  owners := fun _ _ => ownerOf_detach_some who
  refs := fun e id member => ((world.mem_detach who child e id).mp member).1
  stops := fun e => by rw [World.stops, World.steps_detach, World.stops]
  linked := by
    intro linked
    refine linked.shrink ?_ (fun _ _ _ => world.peek_detach who) ?_
      (fun _ _ => ownerOf_detach_some who)
    · intro owner id member
      obtain ⟨present, kept⟩ := (world.mem_detach who child owner id).mp member
      refine ⟨present, fun other named owned => ?_⟩
      have different : other ≠ child := by
        rintro rfl
        exact kept ⟨owned, named.symm⟩
      rw [World.ownerOf_detach, if_neg different, owned]
    · intro id e found
      rwa [World.getEntity, World.management_detach] at found

theorem detaches_clearOwner (bound : Nat) (child : Ref) :
    Effect.Moves (Detaches who) (clearOwner who bound child) := by
  intro before out after ran
  rw [(clearOwner_ran who ran).2]
  exact detaches_detach who before child

theorem detaches_removeOwnedChild (bound : Nat) (owner child : Ref) :
    Effect.Moves (Detaches who) (removeOwnedChild who bound owner child) := by
  intro before out after ran
  rw [removeOwnedChild_ran who ran]
  exact Trans.trans (detaches_dropChild who before owner child) (detaches_detach who _ child)

end Detaching
end Brooklyn
