import Brooklyn.OwnershipLinks

/-!
Every operation keeps `Linked`, so it holds in every reached world. Looking up
children only caches entities under their own ids. The mutual calls of `setOwner`
and `addOwnedChild` never take an owner away, which is why the child that is added
last still has the owner it was given.
-/

namespace Brooklyn

variable {Ref Id : Type} [DecidableEq Ref]

section Updates
variable (who : Identity Ref Id) {before after world : World Ref Id}

omit [DecidableEq Ref] in
theorem keepsLinked_of_same (owners : ∀ e, after.ownerOf e = before.ownerOf e)
    (children : ∀ e, after.childrenOf e = before.childrenOf e)
    (managed : ∀ id e, after.getEntity id = some e → before.getEntity id = some e) :
    KeepsLinked who before after := by
  intro linked
  refine linked.shrink ?_ ?_ managed ?_
  · intro owner id member
    rw [children] at member
    exact ⟨member, fun child _ owned => (owners child).trans owned⟩
  · intro owner id child found
    rwa [children] at found
  · intro child owner owned
    rwa [owners] at owned

theorem keepsLinked_setOwner {child owner : Ref} (unowned : world.ownerOf child = none)
    (different : child ≠ owner) : KeepsLinked who world (world.setOwner child (some owner)) := by
  intro linked
  refine ⟨?_, ?_, linked.managed, ?_⟩
  · intro other id member
    rw [World.childrenOf_setOwner] at member
    obtain ⟨e, named, owned⟩ := linked.owned other id member
    refine ⟨e, named, ?_⟩
    have moved : e ≠ child := by
      rintro rfl
      rw [unowned] at owned
      cases owned
    rw [World.ownerOf_setOwner, if_neg moved, owned]
  · intro other id e found
    rw [World.childrenOf_setOwner] at found
    exact linked.known other id e found
  · intro e self
    rw [World.ownerOf_setOwner] at self
    split at self
    · next same => exact different (same.symm.trans (Option.some.inj self).symm)
    · exact linked.irreflexive e self

theorem keepsLinked_known {referrer : Ref} {result : LinkedMap Id Ref}
    (named : ∀ id child, result.get id = some child → who.id child = id) :
    KeepsLinked who world (world.setOwnedChildren referrer
      { world.childrenOf referrer with entities := some result }) := by
  intro linked
  refine ⟨?_, ?_, linked.managed, ?_⟩
  · intro owner id member
    have present : id ∈ (world.childrenOf owner).entityRefs := by
      rw [World.childrenOf_setOwnedChildren] at member
      split at member
      · next same => rwa [same]
      · exact member
    simpa using linked.owned owner id present
  · intro owner id child found
    rw [World.childrenOf_setOwnedChildren] at found
    split at found
    · exact named id child (by simpa [EntityCollectionReference.peek] using found)
    · exact linked.known owner id child found
  · simpa using linked.irreflexive

variable [DecidableEq Id]

theorem keepsLinked_add {owner child : Ref} (owned : world.ownerOf child = some owner) :
    KeepsLinked who world
      (world.setOwnedChildren owner ((world.childrenOf owner).add who child)) := by
  intro linked
  refine ⟨?_, ?_, linked.managed, ?_⟩
  · intro other id member
    simp only [World.ownerOf_setOwnedChildren]
    rw [World.childrenOf_setOwnedChildren] at member
    split at member
    · next same =>
      rw [EntityCollectionReference.mem_add] at member
      rcases member with member | named
      · rw [same]
        exact linked.owned owner id member
      · exact ⟨child, named.symm, same ▸ owned⟩
    · exact linked.owned other id member
  · intro other id e found
    rw [World.childrenOf_setOwnedChildren] at found
    split at found
    · rcases EntityCollectionReference.peek_add who _ child found with found | ⟨named, rfl⟩
      · exact linked.known owner id e found
      · exact named.symm
    · exact linked.known other id e found
  · simpa using linked.irreflexive

end Updates

section Lookups
variable [DecidableEq Id] (who : Identity Ref Id)

/-- Only caches change. -/
structure Looks (before after : World Ref Id) : Prop where
  owners : ∀ e, after.ownerOf e = before.ownerOf e
  linked : KeepsLinked who before after

omit [DecidableEq Ref] [DecidableEq Id] in
theorem Looks.attaches {before after : World Ref Id} (looks : Looks who before after) :
    Attaches who before after :=
  ⟨fun child _ owned => (looks.owners child).trans owned, looks.linked⟩

omit [DecidableEq Ref] [DecidableEq Id] in
instance : Std.Refl (Looks who : World Ref Id → World Ref Id → Prop) :=
  ⟨fun _ => ⟨fun _ => rfl, id⟩⟩

omit [DecidableEq Ref] [DecidableEq Id] in
instance : IsTrans (World Ref Id) (Looks who) :=
  ⟨fun _ _ _ first second =>
    ⟨fun e => (second.owners e).trans (first.owners e),
      fun linked => second.linked (first.linked linked)⟩⟩

omit [DecidableEq Ref] [DecidableEq Id] in
theorem resolve_ran {referrer : Ref} {id : Id} : Effect.Moves Eq (resolve referrer id) := by
  unfold resolve
  refine Effect.moves_bind (Effect.moves_read _) fun support => ?_
  split
  · exact Effect.moves_read _
  · split
    · exact Effect.moves_throw _
    · exact Effect.moves_pure _

omit [DecidableEq Ref] in
theorem resolveAll_ran {referrer : Ref} {ids : List Id} {result : LinkedMap Id Ref}
    {before after : World Ref Id} {out : Except (Fault Ref) (LinkedMap Id Ref)}
    (named : ∀ id child, result.get id = some child → who.id child = id)
    (ran : resolveAll who referrer result ids before = some (out, after)) :
    after = before ∧ ∀ map, out = .ok map →
      ∀ id child, map.get id = some child → who.id child = id := by
  induction ids generalizing result with
  | nil =>
    cases ran
    refine ⟨rfl, fun map returned => ?_⟩
    cases returned
    exact named
  | cons id rest ih =>
    unfold resolveAll at ran
    rcases Effect.bind_cases ran with ⟨fault, thrown, rfl⟩ | ⟨found, middle, resolved, others⟩
    · refine ⟨(resolve_ran before _ after thrown).symm, fun map returned => ?_⟩
      cases returned
    -- A resolved entity is put under its own id, so the map stays well named.
    · cases resolve_ran before _ middle resolved
      cases found with
      | none => exact ih named others
      | some e =>
        refine ih (fun key child found => ?_) others
        rw [LinkedMap.get_put] at found
        split at found
        · next same =>
          cases found
          exact same.symm
        · exact named key child found

theorem looks_find (referrer : Ref) : Effect.Moves (Looks who) (find who referrer) := by
  intro before out after ran
  unfold find at ran
  rw [Effect.read_bind] at ran
  have empty : ∀ id child, (LinkedMap.empty : LinkedMap Id Ref).get id = some child →
      who.id child = id := fun _ _ found => by cases found
  rcases Effect.bind_cases ran with ⟨fault, thrown, _⟩ | ⟨result, middle, resolved, rest⟩
  · rw [(resolveAll_ran who empty thrown).1]
    exact refl before
  · obtain ⟨rfl, named⟩ := resolveAll_ran who empty resolved
    cases rest
    exact ⟨fun e => World.ownerOf_setOwnedChildren _ _ _ _,
      keepsLinked_known who (named result rfl)⟩

theorem looks_getOwnedChildren (e : Ref) :
    Effect.Moves (Looks who) (getOwnedChildren who e) := by
  unfold getOwnedChildren
  refine Effect.moves_bind (Effect.moves_read _) fun reference => ?_
  split
  · exact Effect.moves_pure _
  · exact looks_find who e

omit [DecidableEq Id] in
theorem looks_isAncestor (bound : Nat) (descendant potentialAncestor : Ref) :
    Effect.Moves (Looks who) 
      (isAncestor bound descendant potentialAncestor : Operation Ref Id Bool) := by
  induction bound generalizing descendant with
  | zero => exact Effect.moves_diverge
  | succ bound ih =>
    unfold isAncestor
    refine Effect.moves_bind (Effect.moves_read _) fun owner => ?_
    split
    · exact Effect.moves_pure _
    · split
      · exact Effect.moves_pure _
      · exact ih _

theorem looks_inspect (potentialDescendant : Option Ref) (bound : Nat)
    (inspected toinspect : List Ref) :
    Effect.Moves (Looks who) (inspect who potentialDescendant bound inspected toinspect) := by
  induction bound generalizing inspected toinspect with
  | zero => exact Effect.moves_diverge
  | succ bound ih =>
    unfold inspect
    split
    · exact Effect.moves_pure _
    · refine Effect.moves_bind (looks_getOwnedChildren who _) fun children => ?_
      split
      · exact Effect.moves_pure _
      · exact Effect.moves_bind (looks_getOwnedChildren who _) fun again => ih _ _

end Lookups

section Attaching
variable [DecidableEq Id] (who : Identity Ref Id)

/-- A call that gives `child` the owner `owner`, or throws. -/
def Gives (child owner : Ref) (operation : Operation Ref Id Unit) : Prop :=
  ∀ before out after, operation before = some (out, after) →
    Attaches who before after ∧ (out = .ok () → after.ownerOf child = some owner)

omit [DecidableEq Ref] [DecidableEq Id] in
theorem gives_throw (child owner : Ref) (fault : Fault Ref) :
    Gives who child owner (Effect.throw fault : Operation Ref Id Unit) := by
  intro before out after ran
  cases ran
  exact ⟨refl before, fun returned => by cases returned⟩

omit [DecidableEq Id] in
theorem attaches_setOwner {world : World Ref Id} {child owner : Ref}
    (unowned : world.ownerOf child = none) (different : child ≠ owner) :
    Attaches who world (world.setOwner child (some owner)) where
  owners := by
    intro e other owned
    have moved : e ≠ child := by
      rintro rfl
      rw [unowned] at owned
      cases owned
    rw [World.ownerOf_setOwner, if_neg moved, owned]
  linked := keepsLinked_setOwner who unowned different

omit [DecidableEq Id] in
theorem attaches_setPreviouslyOwned (world : World Ref Id) (child : Ref) :
    Attaches who world (world.setPreviouslyOwned child) where
  owners := fun e other owned => by simpa using owned
  linked := keepsLinked_of_same who (fun e => by simp) (fun e => by simp) (fun _ _ => id)

/-- An owner that is given is given first, so `addOwnedChild` runs on a child that has it. -/
theorem gives_setOwner {bound : Nat}
    (ih : ∀ owner child, Effect.Moves (Attaches who) (addOwnedChild who bound owner child))
    (child owner : Ref) : Gives who child owner (setOwner who (bound + 1) child (some owner)) := by
  intro before out after ran
  unfold setOwner getOwner at ran
  rw [Effect.read_bind] at ran
  cases found : (before.entity child).owner with
  | some current =>
    rw [found] at ran
    dsimp only at ran
    split at ran
    · next same =>
      cases ran
      exact ⟨refl before, fun _ => found.trans same.symm⟩
    · exact gives_throw who child owner _ before out after ran
  | none =>
    rw [found] at ran
    dsimp only at ran
    rw [Effect.read_bind] at ran
    split at ran
    · exact gives_throw who child owner _ before out after ran
    split at ran
    · exact gives_throw who child owner _ before out after ran
    next different =>
    -- The search for a loop only fills caches, also when it throws.
    rcases Effect.bind_cases ran with ⟨fault, thrown, rfl⟩ | ⟨loop, middle, searched, rest⟩
    · exact ⟨(looks_inspect who _ _ _ _ before _ after thrown).attaches,
        fun returned => by cases returned⟩
    have looked := looks_inspect who _ _ _ _ before _ middle searched
    split at rest
    · have thrown := gives_throw who child owner _ middle out after rest
      exact ⟨Trans.trans looked.attaches thrown.1, thrown.2⟩
    rw [Effect.modify_bind] at rest
    have unowned : middle.ownerOf child = none := (looked.owners child).trans found
    have given := attaches_setOwner who unowned fun same => different (by rw [same])
    have owned : (middle.setOwner child (some owner)).ownerOf child = some owner := by simp
    -- The owner was given before the call, which keeps every owner, so it is there at the end.
    rcases Effect.bind_cases rest with ⟨fault, thrown, rfl⟩ | ⟨_, added, returned, last⟩
    · have attached := ih owner child _ _ after thrown
      exact ⟨Trans.trans looked.attaches (Trans.trans given attached),
        fun returned => by cases returned⟩
    · have attached := ih owner child _ _ added returned
      have marked := attaches_setPreviouslyOwned who added child
      cases last
      refine ⟨Trans.trans looked.attaches (Trans.trans given (Trans.trans attached marked)), ?_⟩
      exact fun _ => marked.owners child owner (attached.owners child owner owned)

theorem attaches_addOwnedChild_succ {bound : Nat}
    (ih : ∀ child owner, Gives who child owner (setOwner who bound child (some owner)))
    (owner child : Ref) :
    Effect.Moves (Attaches who) (addOwnedChild who (bound + 1) owner child) := by
  unfold addOwnedChild
  refine Effect.moves_bind ((looks_isAncestor who bound owner child).weaken
    fun _ _ => Looks.attaches who) fun loop => ?_
  split
  · exact Effect.moves_throw _
  · refine Effect.moves_bind_of (fun before out after ran => (ih child owner before out after ran).1)
      fun before value middle out after returned rest => ?_
    have owned := (ih child owner before _ middle returned).2 rfl
    cases rest
    exact ⟨fun e other owned => by simpa using owned, keepsLinked_add who owned⟩

theorem gives_and_attaches (bound : Nat) :
    (∀ child owner, Gives who child owner (setOwner who bound child (some owner))) ∧
      ∀ owner child, Effect.Moves (Attaches who) (addOwnedChild who bound owner child) := by
  induction bound with
  | zero =>
    constructor
    · intro child owner before out after ran
      cases ran
    · exact fun _ _ => Effect.moves_diverge
  | succ bound ih =>
    exact ⟨gives_setOwner who ih.2, attaches_addOwnedChild_succ who ih.1⟩

theorem keepsLinked_setOwner_call (bound : Nat) (child : Ref) (entity : Option Ref) :
    Effect.Moves (KeepsLinked who) (setOwner who bound child entity) := by
  cases entity with
  | some owner =>
    exact fun before out after ran =>
      ((gives_and_attaches who bound).1 child owner before out after ran).1.linked
  | none =>
    cases bound with
    | zero => exact Effect.moves_diverge
    | succ bound =>
      unfold setOwner
      refine Effect.moves_bind (Effect.moves_read _) fun owner => ?_
      split
      · split
        · exact Effect.moves_pure _
        · exact (detaches_clearOwner who bound child).weaken fun _ _ => Detaches.linked
      · refine Effect.moves_bind (Effect.moves_read _) fun previouslyOwned => ?_
        split
        · exact Effect.moves_throw _
        · split
          · exact Effect.moves_throw _
          · refine Effect.moves_bind ((looks_inspect who none bound [] [child]).weaken
              fun _ _ => Looks.linked) fun loop => Effect.moves_throw _

end Attaching

theorem mem_invalidate (world : World Ref Id) (e owner : Ref) (id : Id) :
    id ∈ ((world.setOwnedChildren e (world.childrenOf e).invalidate).childrenOf owner).entityRefs ↔
      id ∈ (world.childrenOf owner).entityRefs := by
  rw [World.childrenOf_setOwnedChildren]
  split
  · next same =>
    rw [same]
    rfl
  · rfl

theorem detaches_invalidate (who : Identity Ref Id) (world : World Ref Id) (e : Ref) :
    Detaches who world (world.setOwnedChildren e (world.childrenOf e).invalidate) := by
  refine ⟨rfl, fun _ _ owned => by simpa using owned,
    fun owner id => (mem_invalidate world e owner id).mp, fun _ => rfl, fun linked => ?_⟩
  refine linked.shrink (fun owner id member =>
      ⟨(mem_invalidate world e owner id).mp member, fun _ _ owned => ?_⟩)
    (fun owner id child found => ?_) (fun _ _ => id) (fun _ _ owned => by simpa using owned)
  · simpa using owned
  · rw [World.childrenOf_setOwnedChildren] at found
    split at found
    · cases found
    · exact found

section Management
variable [DecidableEq Id] (who : Identity Ref Id)

omit [DecidableEq Ref] [DecidableEq Id] in
/-- Support, steps and everything of the management but the entities by id are free. -/
theorem keepsLinked_modify {change : World Ref Id → World Ref Id}
    (owners : ∀ world e, (change world).ownerOf e = world.ownerOf e)
    (children : ∀ world e, (change world).childrenOf e = world.childrenOf e)
    (managed : ∀ world id e, (change world).getEntity id = some e → world.getEntity id = some e) :
    Effect.Moves (KeepsLinked who) (Effect.modify change : Operation Ref Id Unit) :=
  Effect.moves_modify fun world =>
    keepsLinked_of_same who (owners world) (children world) (managed world)

omit [DecidableEq Ref] [DecidableEq Id] in
theorem keepsLinked_record (step : ManagementStep) (e : Ref) :
    Effect.Moves (KeepsLinked who) (Effect.modify (·.record step e) : Operation Ref Id Unit) :=
  keepsLinked_modify who (fun _ _ => rfl) (fun _ _ => rfl) (fun _ _ _ => id)

omit [DecidableEq Id] in
theorem keepsLinked_changeSupport (e : Ref)
    (change : EntityManagementSupport → EntityManagementSupport) :
    Effect.Moves (KeepsLinked who)
      (Effect.modify (·.changeSupport e change) : Operation Ref Id Unit) :=
  keepsLinked_modify who (fun _ _ => by simp) (fun _ _ => by simp) (fun _ _ _ => id)

omit [DecidableEq Id] in
theorem keepsLinked_setMode (e : Ref) (mode : NonDeploymentMode) :
    Effect.Moves (KeepsLinked who) (setMode e mode : Operation Ref Id Unit) := by
  unfold setMode
  refine Effect.moves_bind (Effect.moves_read _) fun support => ?_
  split
  · exact Effect.moves_throw _
  · exact keepsLinked_changeSupport who e _

theorem keepsLinked_manageNonRecursive (e : Ref) :
    Effect.Moves (KeepsLinked who) (manageNonRecursive who e) := by
  unfold manageNonRecursive
  refine Effect.moves_bind (Effect.moves_read _) fun old => ?_
  refine Effect.moves_bind (Effect.moves_modify fun world linked => ?_) fun _ => ?_
  · refine ⟨linked.owned, linked.known, fun id other found => ?_, linked.irreflexive⟩
    change (world.management.entitiesById.put (who.id e) e).get id = some other at found
    rw [LinkedMap.get_put] at found
    split at found
    · next same =>
      cases found
      exact same.symm
    · exact linked.managed id other found
  · split
    · split
      · exact Effect.moves_pure _
      · exact Effect.moves_throw _
    · exact Effect.moves_bind
        (keepsLinked_modify who (fun _ _ => rfl) (fun _ _ => rfl) (fun _ _ _ => id))
        fun _ => Effect.moves_pure _

theorem keepsLinked_unmanageNonRecursive (bound : Nat) (e : Ref) :
    Effect.Moves (KeepsLinked who) (unmanageNonRecursive who bound e) := by
  unfold unmanageNonRecursive
  refine Effect.moves_bind
    ((detaches_clearOwner who bound e).weaken fun _ _ => Detaches.linked) fun _ => ?_
  refine Effect.moves_bind (Effect.moves_read _) fun old => ?_
  refine Effect.moves_bind (keepsLinked_modify who (fun _ _ => rfl) (fun _ _ => rfl) ?_)
    fun _ => Effect.moves_pure _
  intro world id other found
  change (world.management.entitiesById.remove (who.id e)).get id = some other at found
  rw [LinkedMap.get_remove] at found
  split at found
  · cases found
  · exact found

omit [DecidableEq Id] in
theorem keepsLinked_onManagementStarting (e : Ref) :
    Effect.Moves (KeepsLinked who) (onManagementStarting e : Operation Ref Id Unit) :=
  Effect.moves_bind (keepsLinked_record who _ e) fun _ =>
    Effect.moves_bind (keepsLinked_setMode who e _) fun _ => keepsLinked_changeSupport who e _

omit [DecidableEq Id] in
theorem keepsLinked_onManagementStarted (e : Ref) :
    Effect.Moves (KeepsLinked who) (onManagementStarted e : Operation Ref Id Unit) :=
  Effect.moves_bind (keepsLinked_record who _ e) fun _ =>
    Effect.moves_bind (keepsLinked_setMode who e _) fun _ => keepsLinked_changeSupport who e _

omit [DecidableEq Id] in
theorem keepsLinked_onManagementStopped (e : Ref) :
    Effect.Moves (KeepsLinked who) (onManagementStopped e : Operation Ref Id Unit) :=
  Effect.moves_bind (keepsLinked_record who _ e) fun _ =>
    Effect.moves_bind (keepsLinked_changeSupport who e _) fun _ =>
      Effect.moves_bind (Effect.moves_modify fun world => (detaches_invalidate who world e).linked)
        fun _ => keepsLinked_setMode who e _

omit [DecidableEq Id] in
theorem detaches_record_stopping (e : Ref) (world : World Ref Id) :
    Detaches who world (world.record .onManagementStopping e) where
  management := rfl
  owners := fun _ _ => id
  refs := fun _ _ => id
  stops := fun other => by simp [World.stops, World.record]
  linked := keepsLinked_of_same who (fun _ => rfl) (fun _ => rfl) (fun _ _ => id)

omit [DecidableEq Id] in
theorem detaches_changeSupport (e : Ref)
    (change : EntityManagementSupport → EntityManagementSupport) (world : World Ref Id) :
    Detaches who world (world.changeSupport e change) where
  management := rfl
  owners := fun _ _ owned => by simpa using owned
  refs := fun _ _ member => by simpa using member
  stops := fun _ => rfl
  linked := keepsLinked_of_same who (fun _ => by simp) (fun _ => by simp) (fun _ _ => id)

theorem detaches_onManagementStopping (bound : Nat) (e : Ref) :
    Effect.Moves (Detaches who) (onManagementStopping who bound e) := by
  unfold onManagementStopping
  refine Effect.moves_bind (Effect.moves_modify (detaches_record_stopping who e)) fun _ => ?_
  refine Effect.moves_bind (Effect.moves_read _) fun support => ?_
  split
  · exact Effect.moves_diverge
  · refine Effect.moves_bind (Effect.moves_modify (detaches_changeSupport who e _)) fun _ => ?_
    refine Effect.moves_bind (Effect.moves_read _) fun owner => ?_
    split
    · exact Effect.moves_pure _
    · exact Effect.moves_bind (detaches_removeOwnedChild who bound _ e) fun _ =>
        Effect.moves_pure _

theorem detaches_stopping (bound : Nat) (e : Ref) :
    Effect.Moves (Detaches who) (stopping who bound e) := by
  unfold stopping
  refine Effect.moves_bind (Effect.moves_read _) fun managed => ?_
  split
  · exact Effect.moves_bind (detaches_onManagementStopping who bound e) fun _ =>
      Effect.moves_pure _
  · exact Effect.moves_pure _

theorem keepsLinked_stopped (bound : Nat) (e : Ref) :
    Effect.Moves (KeepsLinked who) (stopped who bound e) := by
  unfold stopped
  refine Effect.moves_bind (Effect.moves_read _) fun managed => ?_
  split
  · refine Effect.moves_bind (keepsLinked_unmanageNonRecursive who bound e) fun _ => ?_
    exact Effect.moves_bind (keepsLinked_onManagementStopped who e) fun _ => Effect.moves_pure _
  · exact Effect.moves_pure _

section Recursion
variable {relation : World Ref Id → World Ref Id → Prop}

omit [DecidableEq Ref] [DecidableEq Id] in
theorem visit_cases {recurse : Ref → Operation Ref Id Unit} {e : Ref} {id : Id}
    {before after : World Ref Id} {out : Except (Fault Ref) Unit}
    (ran : visit recurse e id before = some (out, after)) :
    (before.getEntity id = none ∧ after = before) ∨
      ∃ child, ((before.childrenOf e).peek id = some child ∨ before.getEntity id = some child) ∧
        recurse child before = some (out, after) := by
  unfold visit at ran
  rw [Effect.read_bind] at ran
  cases resolved : ((before.entity e).ownedChildren.peek id).or (before.getEntity id) with
  | none =>
    rw [resolved] at ran
    cases ran
    exact Or.inl ⟨(Option.or_eq_none_iff.mp resolved).2, rfl⟩
  | some child =>
    rw [resolved] at ran
    refine Or.inr ⟨child, ?_, ran⟩
    rcases Option.or_eq_some_iff.mp resolved with known | ⟨_, found⟩
    · exact Or.inl known
    · exact Or.inr found

omit [DecidableEq Ref] [DecidableEq Id] in
theorem moves_visit [Std.Refl relation] {recurse : Ref → Operation Ref Id Unit}
    (recurses : ∀ child, Effect.Moves relation (recurse child)) (e : Ref) (id : Id) :
    Effect.Moves relation (visit recurse e id) := by
  intro before out after ran
  rcases visit_cases ran with ⟨_, rfl⟩ | ⟨child, _, rest⟩
  · exact refl after
  · exact recurses child before out after rest

omit [DecidableEq Ref] [DecidableEq Id] in
theorem moves_recursively [Std.Refl relation] [IsTrans (World Ref Id) relation]
    {action : Ref → Operation Ref Id Bool} (acts : ∀ e, Effect.Moves relation (action e))
    (bound : Nat) (e : Ref) : Effect.Moves relation (recursively action bound e) := by
  induction bound generalizing e with
  | zero => exact Effect.moves_diverge
  | succ bound ih =>
    unfold recursively
    refine Effect.moves_bind (acts e) fun _ => ?_
    exact Effect.moves_bind (Effect.moves_read _) fun ids =>
      Effect.moves_forEach (moves_visit ih e) ids

end Recursion

theorem keepsLinked_manage (bound : Nat) (e : Ref) :
    Effect.Moves (KeepsLinked who) (manage who bound e) := by
  unfold manage
  refine Effect.moves_bind (Effect.moves_read _) fun managed => ?_
  split
  · exact Effect.moves_pure _
  · refine Effect.moves_bind (moves_recursively (fun it => ?_) bound e) fun _ =>
      moves_recursively (fun it => ?_) bound e
    · exact Effect.moves_bind (keepsLinked_onManagementStarting who it) fun _ =>
        keepsLinked_manageNonRecursive who it
    · exact Effect.moves_bind (keepsLinked_onManagementStarted who it) fun _ =>
        Effect.moves_pure _

theorem keepsLinked_unmanage (bound : Nat) (e : Ref) :
    Effect.Moves (KeepsLinked who) (unmanage who bound e) := by
  unfold unmanage
  refine Effect.moves_bind (Effect.moves_read _) fun managed => ?_
  split
  · refine Effect.moves_bind (moves_recursively (fun it => ?_) bound e) fun _ =>
      moves_recursively (keepsLinked_stopped who bound) bound e
    exact (detaches_stopping who bound it).weaken fun _ _ => Detaches.linked
  · exact Effect.moves_pure _

/-- One call, whatever it is and however it ends, keeps the links. -/
theorem keepsLinked_perform (bound : Nat) (call : Call Ref) :
    Effect.Moves (KeepsLinked who) (call.perform who bound) := by
  cases call with
  | setOwner child owner => exact keepsLinked_setOwner_call who bound child owner
  | clearOwner child =>
    exact (detaches_clearOwner who bound child).weaken fun _ _ => Detaches.linked
  | addOwnedChild owner child =>
    exact ((gives_and_attaches who bound).2 owner child).weaken fun _ _ => Attaches.linked
  | removeOwnedChild owner child =>
    exact Effect.moves_bind ((detaches_removeOwnedChild who bound owner child).weaken
      fun _ _ => Detaches.linked) fun _ => Effect.moves_pure _
  | getOwnedChildren e =>
    exact Effect.moves_bind ((looks_getOwnedChildren who e).weaken fun _ _ => Looks.linked)
      fun _ => Effect.moves_pure _
  | manage e => exact keepsLinked_manage who bound e
  | unmanage e => exact keepsLinked_unmanage who bound e
  | terminate =>
    exact keepsLinked_modify who (fun _ _ => rfl) (fun _ _ => rfl) (fun _ _ _ => id)

theorem linked_reached {world : World Ref Id}
    (run : Transition.Reached (entitySystem who) Transition.anyStep world) : Linked who world := by
  refine Transition.reached_invariant (Linked who) (linked_initial who) ?_ run
  intro before action after _ linked _ moved
  obtain ⟨⟨out, _⟩, ran, rfl⟩ := Option.map_eq_some_iff.mp moved
  exact keepsLinked_perform who action.1 action.2 before out _ ran linked

end Management
end Brooklyn
