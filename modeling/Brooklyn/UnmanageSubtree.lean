import Brooklyn.OwnershipReached
import Mathlib.Logic.Relation

/-!
`unmanage` walks the tree twice. The first pass takes every managed entity it visits
away from its owner, so the second pass comes from the root to no managed entity: it
stops the root alone, whatever the root owned.
-/

namespace Brooklyn

variable {Ref Id : Type}

namespace World

/-- `d` is `e` or one of its transitively owned descendants. -/
def Within (world : World Ref Id) : Ref → Ref → Prop :=
  Relation.ReflTransGen fun owner child => world.ownerOf child = some owner

end World

/-- The subtree of `e` is out of the management, and each of its entities that is `due`
was stopped exactly once by the call. -/
structure UnmanagedWhole [DecidableEq Ref] (who : Identity Ref Id) (before after : World Ref Id)
    (e : Ref) (due : Ref → Prop) : Prop where
  unmanaged : ∀ d, before.Within e d → after.isManaged who d = false
  remaining : ∀ id d,
    after.getEntity id = some d ↔ before.getEntity id = some d ∧ ¬ before.Within e d
  stoppedOnce : ∀ d, before.Within e d → due d → after.stops d = before.stops d + 1

section Passes
variable [DecidableEq Ref] [DecidableEq Id] {who : Identity Ref Id} {before after : World Ref Id}
  {e : Ref}

theorem stopping_cuts {bound : Nat} {owner : Ref} {result : Bool}
    (managed : before.isManaged who e = true) (owned : before.ownerOf e = some owner)
    (returned : stopping who bound e before = some (.ok result, after)) :
    who.id e ∉ (after.childrenOf owner).entityRefs := by
  unfold stopping at returned
  rw [Effect.read_bind, managed] at returned
  obtain ⟨_, stopped, stops, rest⟩ := Effect.bind_returned returned
  cases rest
  unfold onManagementStopping getOwner at stops
  rw [Effect.modify_bind, Effect.read_bind] at stops
  split at stops
  · cases stops
  · rw [Effect.modify_bind, Effect.read_bind] at stops
    have kept : (((before.record .onManagementStopping e).changeSupport e
        (.setContext (some .stopping))).entity e).owner = some owner :=
      (World.ownerOf_changeSupport _ _ _ _).trans owned
    rw [kept] at stops
    obtain ⟨_, middle, removed, rest⟩ := Effect.bind_returned stops
    cases rest
    rw [removeOwnedChild_ran who removed, World.mem_detach, World.mem_dropChild]
    exact fun member => member.1.2 ⟨rfl, rfl⟩

/-- What is left of the references of an entity after a round of the first pass. -/
def Cut (owner : Ref) (id : Id) (world : World Ref Id) : Prop :=
  id ∈ (world.childrenOf owner).entityRefs → world.getEntity id = none

omit [DecidableEq Id] in
theorem cut_kept (owner : Ref) (id : Id) (moved : Detaches who before after)
    (cut : Cut owner id before) : Cut owner id after := by
  intro member
  rw [World.getEntity, moved.management]
  exact cut (moved.refs owner id member)

/-- A visited child is managed or not; if it is, its owner loses the reference. -/
theorem recursively_stopping_cuts (unique : Function.Injective who.id) {bound passes : Nat}
    {owner child : Ref} (linked : Linked who before) (running : before.management.running = true)
    (returned : recursively (stopping who bound) passes child before = some (.ok (), after)) :
    Cut owner (who.id child) after := by
  have moved := moves_recursively (detaches_stopping who bound) passes child before _ after returned
  cases found : before.getEntity (who.id child) with
  | none =>
    intro _
    rw [World.getEntity, moved.management]
    exact found
  | some other =>
    have managed : before.isManaged who child = true := by
      simp [World.isManaged, running, found]
    cases passes with
    | zero => cases returned
    | succ passes =>
      unfold recursively at returned
      obtain ⟨_, middle, visited, rest⟩ := Effect.bind_returned returned
      rw [Effect.read_bind] at rest
      have deeper : Detaches who middle after :=
        Effect.moves_forEach (moves_visit (moves_recursively (detaches_stopping who bound) passes)
          child) _ middle _ after rest
      intro member
      -- `Linked` says whose reference this is: the child itself, which its own visit removed;
      -- the visits below it only remove more.
      obtain ⟨e, named, owned⟩ :=
        linked.owned owner (who.id child) (moved.refs owner _ member)
      cases unique named
      exact absurd (deeper.refs owner _ member) (stopping_cuts managed owned visited)

theorem round_cuts (unique : Function.Injective who.id) {bound passes : Nat} {id : Id}
    (linked : Linked who before) (running : before.management.running = true)
    (returned : visit (recursively (stopping who bound) passes) e id before =
      some (.ok (), after)) : Cut e id after := by
  rcases visit_cases returned with ⟨absent, rfl⟩ | ⟨child, resolved, rest⟩
  · exact fun _ => absent
  · have named : who.id child = id := by
      rcases resolved with known | found
      · exact linked.known e id child known
      · exact linked.managed id child found
    subst named
    exact recursively_stopping_cuts unique linked running rest

theorem first_pass_cuts (unique : Function.Injective who.id) {bound passes : Nat}
    (linked : Linked who before) (running : before.management.running = true)
    (returned : recursively (stopping who bound) passes e before = some (.ok (), after)) :
    ∀ id, Cut e id after := by
  cases passes with
  | zero => cases returned
  | succ passes =>
    unfold recursively at returned
    obtain ⟨_, middle, visited, rest⟩ := Effect.bind_returned returned
    rw [Effect.read_bind] at rest
    have first := detaches_stopping who bound e before _ middle visited
    have rounds := moves_visit (moves_recursively (detaches_stopping who bound) passes) e
    have settled := Effect.forEach_settles (Cut e) rounds
      (fun _ _ moved (holds : Linked who _ ∧ _) =>
        ⟨moved.linked holds.1, (congrArg (·.running) moved.management).trans holds.2⟩)
      (fun id _ _ moved => cut_kept e id moved)
      (fun id _ _ holds round => round_cuts unique holds.1 holds.2 round)
      ⟨first.linked linked, (congrArg (·.running) first.management).trans running⟩ rest
    intro id member
    refine settled id ?_ member
    exact (Effect.moves_forEach rounds _ middle _ after rest).refs e id member

/-- The second pass at the root. -/
structure StopsAlone (who : Identity Ref Id) (before after : World Ref Id) (e : Ref) : Prop where
  running : after.management.running = before.management.running
  entitiesById : ∀ id,
    after.getEntity id = if id = who.id e then none else before.getEntity id
  stops : ∀ d, after.stops d = before.stops d + if d = e then 1 else 0

omit [DecidableEq Id] in
theorem setMode_ran {mode : NonDeploymentMode}
    (returned : setMode e mode before = some (.ok (), after)) :
    after = before.changeSupport e (.setContext (some mode)) := by
  unfold setMode at returned
  rw [Effect.read_bind] at returned
  cases present : (before.entity e).managementSupport.nonDeploymentManagementContext with
  | none =>
    rw [present] at returned
    cases returned
  | some _ =>
    rw [present] at returned
    cases returned
    rfl

theorem unmanageNonRecursive_ran {bound : Nat} {result : Bool}
    (returned : unmanageNonRecursive who bound e before = some (.ok result, after)) :
    ∃ cleared, Detaches who before cleared ∧ after.entity = cleared.entity ∧
      after.steps = cleared.steps ∧
      after.management.running = cleared.management.running ∧
      after.management.entitiesById = cleared.management.entitiesById.remove (who.id e) := by
  unfold unmanageNonRecursive at returned
  obtain ⟨_, cleared, clearing, rest⟩ := Effect.bind_returned returned
  cases rest
  exact ⟨cleared, detaches_clearOwner who bound e before _ cleared clearing, rfl, rfl, rfl, rfl⟩

omit [DecidableEq Id] in
theorem onManagementStopped_ran (returned : onManagementStopped e before = some (.ok (), after)) :
    after.management = before.management ∧
      after.steps = before.steps ++ [(.onManagementStopped, e)] ∧
      (∀ owner id, id ∈ (after.childrenOf owner).entityRefs →
        id ∈ (before.childrenOf owner).entityRefs) ∧
      ∀ id, (after.childrenOf e).peek id = none := by
  unfold onManagementStopped at returned
  rw [Effect.modify_bind, Effect.modify_bind, Effect.modify_bind] at returned
  rw [setMode_ran returned]
  refine ⟨rfl, rfl, ?_, ?_⟩
  · intro owner id member
    rw [World.childrenOf_changeSupport] at member
    have kept := (mem_invalidate _ e owner id).mp member
    rwa [World.childrenOf_changeSupport] at kept
  · intro id
    rw [World.childrenOf_changeSupport, World.childrenOf_setOwnedChildren, if_pos rfl]
    rfl

theorem stopped_ran {bound : Nat} {result : Bool} (managed : before.isManaged who e = true)
    (returned : stopped who bound e before = some (.ok result, after)) :
    StopsAlone who before after e ∧
      (∀ owner id, id ∈ (after.childrenOf owner).entityRefs →
        id ∈ (before.childrenOf owner).entityRefs) ∧
      ∀ id, (after.childrenOf e).peek id = none := by
  unfold stopped at returned
  rw [Effect.read_bind, managed] at returned
  obtain ⟨_, removed, removing, rest⟩ := Effect.bind_returned returned
  obtain ⟨_, last, stops, rest⟩ := Effect.bind_returned rest
  cases rest
  obtain ⟨cleared, detached, entity, steps, running, entitiesById⟩ :=
    unmanageNonRecursive_ran removing
  obtain ⟨management, recorded, refs, forgotten⟩ := onManagementStopped_ran stops
  refine ⟨⟨?_, ?_, ?_⟩, ?_, forgotten⟩
  · rw [management, running, detached.management]
  · intro id
    rw [World.getEntity, management, entitiesById, LinkedMap.get_remove, detached.management]
    rfl
  · intro d
    rw [← detached.stops d, World.stops, recorded, steps, List.count_append, List.count_singleton]
    by_cases same : d = e
    · simp [World.stops, same]
    · simp [World.stops, same, Ne.symm same]
  · intro owner id member
    have kept := refs owner id member
    rw [World.childrenOf, entity] at kept
    exact detached.refs owner id kept

theorem second_pass_stops_alone {bound passes : Nat} (managed : before.isManaged who e = true)
    (cut : ∀ id, Cut e id before)
    (returned : recursively (stopped who bound) passes e before = some (.ok (), after)) :
    StopsAlone who before after e := by
  cases passes with
  | zero => cases returned
  | succ passes =>
    unfold recursively at returned
    obtain ⟨_, middle, visited, rest⟩ := Effect.bind_returned returned
    rw [Effect.read_bind] at rest
    obtain ⟨alone, refs, forgotten⟩ := stopped_ran managed visited
    -- The caches were invalidated, so an id is looked up among the managed entities,
    -- where the first pass left none.
    have skipped : ∀ id ∈ (middle.childrenOf e).entityRefs.elements,
        visit (recursively (stopped who bound) passes) e id middle = some (.ok (), middle) := by
      intro id member
      have unknown : middle.getEntity id = none := by
        rw [alone.entitiesById]
        split
        · rfl
        · exact cut id (refs e id member)
      have unresolved : (((middle.entity e).ownedChildren.peek id).or (middle.getEntity id)) =
          none := by
        rw [unknown, show (middle.entity e).ownedChildren.peek id = none from forgotten id]
        rfl
      unfold visit
      rw [Effect.read_bind, unresolved]
      rfl
    have ran := (Effect.forEach_skips skipped).symm.trans rest
    cases ran
    exact alone

/-- The call takes `e` out of the management, and nothing else. -/
theorem unmanage_stops_alone (unique : Function.Injective who.id) {bound : Nat}
    (linked : Linked who before) (managed : before.isManaged who e = true)
    (returned : unmanage who bound e before = some (.ok (), after)) :
    StopsAlone who before after e := by
  unfold unmanage at returned
  rw [Effect.read_bind, managed] at returned
  obtain ⟨_, middle, first, second⟩ := Effect.bind_returned returned
  have running : before.management.running = true := by
    simp only [World.isManaged, Bool.and_eq_true] at managed
    exact managed.1
  have moved := moves_recursively (detaches_stopping who bound) bound e before _ middle first
  have still : middle.isManaged who e = true := by
    rw [World.isManaged, World.getEntity, moved.management]
    exact managed
  have alone := second_pass_stops_alone still (first_pass_cuts unique linked running first) second
  refine ⟨alone.running.trans (congrArg (·.running) moved.management), fun id => ?_, fun d => ?_⟩
  · rw [alone.entitiesById, World.getEntity, moved.management]
    rfl
  · rw [alone.stops, moved.stops]

end Passes

section Whole
variable [DecidableEq Ref] {who : Identity Ref Id} {before after : World Ref Id} {e : Ref}

omit [DecidableEq Ref] in
theorem within_leaf {d : Ref} (leaf : ∀ child, before.ownerOf child ≠ some e)
    (within : before.Within e d) : d = e := by
  rcases within.cases_head with same | ⟨child, owned, _⟩
  · exact same.symm
  · exact absurd owned (leaf child)

variable [DecidableEq Id]

/-- With one entity out of the management, the others of its subtree must not have been in. -/
theorem StopsAlone.whole (alone : StopsAlone who before after e)
    (unique : Function.Injective who.id) (linked : Linked who before)
    (due : Ref → Prop) (only : ∀ d, before.Within e d →
      due d ∨ (before.getEntity (who.id d)).isSome → d = e) :
    UnmanagedWhole who before after e due where
  unmanaged := by
    intro d within
    rw [World.isManaged, alone.entitiesById]
    by_cases same : d = e
    · simp [same]
    · have absent : (before.getEntity (who.id d)).isSome = false := by
        rw [Bool.eq_false_iff]
        exact fun present => same (only d within (Or.inr present))
      simp [absent, unique.ne same]
  remaining := by
    intro id d
    rw [alone.entitiesById]
    split
    · next named =>
      constructor
      · intro found
        cases found
      · rintro ⟨found, outside⟩
        have same : d = e := unique ((linked.managed id d found).trans named)
        exact absurd (same ▸ Relation.ReflTransGen.refl) outside
    · next other =>
      constructor
      · intro found
        refine ⟨found, fun within => other ?_⟩
        have named := linked.managed id d found
        have present : (before.getEntity (who.id d)).isSome := by
          rw [named, found]
          rfl
        rw [← named, only d within (Or.inr present)]
      · exact And.left
  stoppedOnce := by
    intro d within asked
    rw [alone.stops, only d within (Or.inl asked), if_pos rfl]

/-- The subtree is unmanaged exactly when it is `e` alone. If only the entities that were
managed are to be stopped, it is enough that no other one of them was. -/
theorem unmanage_whole_iff (unique : Function.Injective who.id)
    (run : Transition.Reached (entitySystem who) Transition.anyStep before)
    (managed : before.isManaged who e = true) {bound : Nat}
    (returned : unmanage who bound e before = some (.ok (), after)) :
    (UnmanagedWhole who before after e (fun _ => True) ↔
      ∀ child, before.ownerOf child ≠ some e) ∧
    (UnmanagedWhole who before after e (fun d => before.isManaged who d = true) ↔
      ∀ d, before.Within e d → before.isManaged who d = true → d = e) := by
  have linked := linked_reached who run
  have alone := unmanage_stops_alone unique linked managed returned
  have running : before.management.running = true := by
    simp only [World.isManaged, Bool.and_eq_true] at managed
    exact managed.1
  constructor
  · constructor
    · intro whole child owned
      have different : child ≠ e := by
        rintro rfl
        exact linked.irreflexive child owned
      have stopped := whole.stoppedOnce child (.single owned) trivial
      rw [alone.stops, if_neg different] at stopped
      omega
    · exact fun leaf => alone.whole unique linked _ fun d within _ => within_leaf leaf within
  · constructor
    · intro whole d within present
      by_contra different
      have gone := whole.unmanaged d within
      rw [World.isManaged, alone.entitiesById, if_neg (unique.ne different), alone.running] at gone
      rw [World.isManaged, gone] at present
      cases present
    · intro only
      refine alone.whole unique linked _ fun d within reason => only d within ?_
      rcases reason with present | present
      · exact present
      · simp [World.isManaged, running, present]

end Whole

section Family

inductive Family where
  | parent | child
deriving DecidableEq

def family : Identity Family Family := ⟨id, fun e => e = .parent⟩

def adoption : List (Nat × Call Family) :=
  [(6, .addOwnedChild .parent .child), (6, .manage .parent)]

def returns (e : Family) (world : World Family Family) : Option (World Family Family) :=
  match unmanage family 6 e world with
  | some (.ok _, after) => some after
  | _ => none

theorem returns_iff {e : Family} {before after : World Family Family}
    (returned : returns e before = some after) :
    unmanage family 6 e before = some (.ok (), after) := by
  unfold returns at returned
  split at returned
  · next ran =>
    cases returned
    exact ran
  · cases returned

/-- The parent owns the child, both are managed, and `unmanage` of `e` returns. -/
theorem adoption_reached (e : Family) (leaves : World Family Family → Bool)
    (shown : (Transition.replay (entitySystem family) Transition.anyStep .initial adoption).map
      (fun world => decide (world.ownerOf .child = some .parent ∧ world.ownerOf .parent = none ∧
        world.isManaged family e = true ∧ (returns e world).any leaves = true)) = some true) :
    ∃ before after, Transition.Reached (entitySystem family) Transition.anyStep before ∧
      before.ownerOf .child = some .parent ∧ before.ownerOf .parent = none ∧
      before.isManaged family e = true ∧ unmanage family 6 e before = some (.ok (), after) ∧
      leaves after = true := by
  obtain ⟨before, run, holds⟩ :=
    Transition.replay_shows (entitySystem family) Transition.anyStep adoption _ shown
  obtain ⟨child, parent, managed, left⟩ := of_decide_eq_true holds
  obtain ⟨after, returned, left⟩ := (Option.any_eq_true _ _).mp left
  exact ⟨before, after, run, child, parent, managed, returns_iff returned, left⟩

theorem unmanage_whole_leaf :
    ∃ before after, Transition.Reached (entitySystem family) Transition.anyStep before ∧
      before.isManaged family .child = true ∧
      unmanage family 6 .child before = some (.ok (), after) ∧
      UnmanagedWhole family before after .child fun _ => True := by
  obtain ⟨before, after, run, child, parent, managed, returned, _⟩ :=
    adoption_reached .child (fun _ => true) (by decide)
  refine ⟨before, after, run, managed, returned, ?_⟩
  refine (unmanage_whole_iff Function.injective_id run managed returned).1.mpr fun e owned => ?_
  cases e with
  | parent =>
    rw [parent] at owned
    cases owned
  | child =>
    rw [child] at owned
    cases owned

/-- The child stays managed. -/
theorem unmanage_leaves_child :
    ∃ before after, Transition.Reached (entitySystem family) Transition.anyStep before ∧
      before.isManaged family .parent = true ∧
      unmanage family 6 .parent before = some (.ok (), after) ∧
      ¬ UnmanagedWhole family before after .parent fun _ => True := by
  obtain ⟨before, after, run, child, _, managed, returned, left⟩ :=
    adoption_reached .parent (·.isManaged family .child) (by decide)
  refine ⟨before, after, run, managed, returned, fun whole => ?_⟩
  have gone := whole.unmanaged .child (.single child)
  rw [left] at gone
  cases gone

end Family
end Brooklyn
