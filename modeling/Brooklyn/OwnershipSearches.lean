import Brooklyn.Acyclicity
import Brooklyn.EntityReferences
import Brooklyn.OwnershipLinks

/-!
The searches for a loop, where owners and owned children are the two sides of one acyclic
relation and every cache has what it should: `isAncestor` finds each ancestor, and
`isDescendant` misses no descendant. Both change nothing but caches.
-/

namespace Brooklyn
open Acyclicity Relation

variable {Ref Id : Type}

def World.Owned (world : World Ref Id) (child owner : Ref) : Prop :=
  world.ownerOf child = some owner

/-- `members` are the owned children of every entity. -/
structure Hierarchy (who : Identity Ref Id) (world : World Ref Id)
    (members : Ref → LinkedSet Ref) : Prop where
  complete : ∀ owner, (world.childrenOf owner).Complete who (members owner)
  linked : ∀ owner child, child ∈ members owner ↔ world.Owned child owner
  acyclic : Acyclic world.Owned

/-- Only caches change. -/
structure Kept (who : Identity Ref Id) (before after : World Ref Id) : Prop where
  owners : ∀ e, after.ownerOf e = before.ownerOf e
  complete : ∀ members : Ref → LinkedSet Ref,
    (∀ owner, (before.childrenOf owner).Complete who (members owner)) →
      ∀ owner, (after.childrenOf owner).Complete who (members owner)

section Searches
variable {who : Identity Ref Id} {world : World Ref Id} {members : Ref → LinkedSet Ref}

theorem Kept.refl (world : World Ref Id) : Kept who world world :=
  ⟨fun _ => rfl, fun _ complete => complete⟩

theorem Kept.trans {before middle after : World Ref Id} (first : Kept who before middle)
    (second : Kept who middle after) : Kept who before after :=
  ⟨fun e => (second.owners e).trans (first.owners e),
    fun members complete => second.complete members (first.complete members complete)⟩

theorem Kept.owned {after : World Ref Id} (kept : Kept who world after) :
    after.Owned = world.Owned := by
  funext child owner
  rw [World.Owned, World.Owned, kept.owners]

theorem Hierarchy.kept (hierarchy : Hierarchy who world members) {after : World Ref Id}
    (kept : Kept who world after) : Hierarchy who after members where
  complete := kept.complete members hierarchy.complete
  linked := by
    rw [kept.owned]
    exact hierarchy.linked
  acyclic := by
    rw [kept.owned]
    exact hierarchy.acyclic

variable [DecidableEq Ref] [DecidableEq Id]

theorem getOwnedChildren_gets (hierarchy : Hierarchy who world members) (e : Ref) :
    ∃ after, getOwnedChildren who e world = some (.ok (members e).elements, after) ∧
      Kept who world after := by
  have complete := hierarchy.complete e
  cases cache : (world.childrenOf e).entities with
  | some entities =>
    refine ⟨world, ?_, .refl world⟩
    unfold getOwnedChildren
    rw [Effect.read_bind, show (world.entity e).ownedChildren.entities = some entities from cache,
      ← (complete.cached entities cache).values]
    rfl
  | none =>
    have nobody : (world.childrenOf e).entityRefs.elements = [] :=
      complete.filled.resolve_left (by rw [cache]; simp)
    have empty : (members e).elements = [] :=
      List.map_eq_nil_iff.mp (complete.ids.symm.trans nobody)
    refine ⟨world.setOwnedChildren e ⟨(world.childrenOf e).entityRefs, some .empty⟩, ?_,
      fun other => World.ownerOf_setOwnedChildren _ _ _ _, fun found all owner => ?_⟩
    · unfold getOwnedChildren find
      rw [Effect.read_bind, show (world.entity e).ownedChildren.entities = none from cache]
      change (find who e) world = _
      unfold find
      rw [Effect.read_bind, show (world.entity e).ownedChildren.entityRefs.elements = [] from nobody,
        empty]
      rfl
    · rw [World.childrenOf_setOwnedChildren]
      split
      · next same =>
        subst same
        have here := all owner
        have empty : (found owner).elements = [] :=
          List.map_eq_nil_iff.mp (here.ids.symm.trans nobody)
        refine ⟨⟨here.ids, fun _ same => ?_⟩, Or.inl rfl⟩
        cases same
        rw [empty]
        exact .empty
      · exact all owner

/-- A search that does not find the descendant has seen everything below. -/
theorem inspect_covers (hierarchy : Hierarchy who world members) {potentialDescendant : Option Ref}
    {bound : Nat} {inspected toinspect : List Ref}
    (closed : ∀ e ∈ inspected, ∀ child ∈ members e,
      some child ≠ potentialDescendant ∧ (child ∈ inspected ∨ child ∈ toinspect))
    {out : Except (Fault Ref) Bool} {after : World Ref Id}
    (ran : inspect who potentialDescendant bound inspected toinspect world = some (out, after)) :
    Kept who world after ∧ ∃ found, out = .ok found ∧ (found = false →
      ∃ seen : Ref → Prop, (∀ e ∈ inspected, seen e) ∧ (∀ e ∈ toinspect, seen e) ∧
        ∀ e, seen e → ∀ child ∈ members e, some child ≠ potentialDescendant ∧ seen child) := by
  induction bound generalizing world inspected toinspect with
  | zero => cases ran
  | succ bound ih =>
    unfold inspect at ran
    cases top : toinspect.getLast? with
    | none =>
      have empty := List.getLast?_eq_none_iff.mp top
      rw [top] at ran
      cases ran
      subst empty
      refine ⟨.refl _, false, rfl, fun _ => ⟨(· ∈ inspected), fun _ member => member,
        fun _ member => absurd member List.not_mem_nil, fun e seen child member => ?_⟩⟩
      obtain ⟨different, there | later⟩ := closed e seen child member
      · exact ⟨different, there⟩
      · cases later
    | some e =>
      have stack := List.dropLast_append_getLast? e top
      obtain ⟨first, got, looked⟩ := getOwnedChildren_gets hierarchy e
      have hierarchyFirst := hierarchy.kept looked
      obtain ⟨second, again, lookedAgain⟩ := getOwnedChildren_gets hierarchyFirst e
      rw [top] at ran
      change (getOwnedChildren who e >>= _) world = _ at ran
      rw [Effect.bind_apply _ got] at ran
      split at ran
      · cases ran
        exact ⟨looked, true, rfl, fun same => by cases same⟩
      · next missing =>
        rw [Effect.bind_apply _ again] at ran
        have closedNext : ∀ i ∈ e :: inspected, ∀ child ∈ members i,
            some child ≠ potentialDescendant ∧ (child ∈ e :: inspected ∨
              child ∈ (toinspect.dropLast ++ (members e).elements).filter
                (· ∉ e :: inspected)) := by
          intro i member child owned
          have placed (there : child ∈ toinspect.dropLast ++ (members e).elements) :
              child ∈ e :: inspected ∨
                child ∈ (toinspect.dropLast ++ (members e).elements).filter
                  (· ∉ e :: inspected) := by
            by_cases known : child ∈ e :: inspected
            · exact Or.inl known
            · exact Or.inr (List.mem_filter.mpr ⟨there, decide_eq_true known⟩)
          rcases List.mem_cons.mp member with rfl | older
          · refine ⟨fun same => missing ?_, placed (List.mem_append_right _ owned)⟩
            rw [← same]
            exact List.mem_map_of_mem owned
          · obtain ⟨different, there | later⟩ := closed i older child owned
            · exact ⟨different, Or.inl (List.mem_cons_of_mem _ there)⟩
            · rw [← stack] at later
              rcases List.mem_append.mp later with deeper | here
              · exact ⟨different, placed (List.mem_append_left _ deeper)⟩
              · rw [List.mem_singleton.mp here]
                exact ⟨List.mem_singleton.mp here ▸ different, Or.inl List.mem_cons_self⟩
        obtain ⟨kept, found, returned, covers⟩ :=
          ih (hierarchyFirst.kept lookedAgain) closedNext ran
        refine ⟨(looked.trans lookedAgain).trans kept, found, returned, fun missed => ?_⟩
        obtain ⟨seen, inside, next, below⟩ := covers missed
        refine ⟨seen, fun i member => inside i (List.mem_cons_of_mem _ member),
          fun i member => ?_, below⟩
        by_cases known : i ∈ e :: inspected
        · exact inside i known
        · rw [← stack] at member
          rcases List.mem_append.mp member with deeper | here
          · exact next i (List.mem_filter.mpr
              ⟨List.mem_append_left _ deeper, decide_eq_true known⟩)
          · exact absurd (List.mem_cons.mpr (Or.inl (List.mem_singleton.mp here))) known

/-- `isDescendant` misses no descendant. -/
theorem isDescendant_finds (hierarchy : Hierarchy who world members) {bound : Nat} {ancestor : Ref}
    {potentialDescendant : Option Ref} {out : Except (Fault Ref) Bool} {after : World Ref Id}
    (ran : isDescendant who bound ancestor potentialDescendant world = some (out, after)) :
    Kept who world after ∧ ∃ found, out = .ok found ∧ (found = false →
      ∀ e, potentialDescendant = some e → ¬ TransGen world.Owned e ancestor) := by
  obtain ⟨kept, found, returned, covers⟩ :=
    inspect_covers hierarchy (fun _ member => absurd member List.not_mem_nil) ran
  refine ⟨kept, found, returned, fun missed e asked way => ?_⟩
  obtain ⟨seen, _, next, below⟩ := covers missed
  have start := next ancestor (List.mem_singleton_self _)
  have all (descendant : Ref) (way : TransGen world.Owned descendant ancestor) :
      some descendant ≠ potentialDescendant ∧ seen descendant := by
    induction way using TransGen.head_induction_on with
    | single owned => exact below _ start _ ((hierarchy.linked _ _).mpr owned)
    | head owned _ ih => exact below _ ih.2 _ ((hierarchy.linked _ _).mpr owned)
  exact (all e way).1 asked.symm

omit [DecidableEq Id] in
theorem isAncestor_finds {bound : Nat} {descendant potentialAncestor : Ref}
    {out : Except (Fault Ref) Bool} {after : World Ref Id}
    (ran : isAncestor bound descendant potentialAncestor world = some (out, after)) :
    after = world ∧ ∃ found, out = .ok found ∧
      (found = true ↔ TransGen world.Owned descendant potentialAncestor) := by
  induction bound generalizing descendant with
  | zero => cases ran
  | succ bound ih =>
    unfold isAncestor getOwner at ran
    rw [Effect.read_bind] at ran
    have only {ancestor : Ref} (way : TransGen world.Owned descendant ancestor) :
        ∃ owner, world.ownerOf descendant = some owner ∧
          (owner = ancestor ∨ TransGen world.Owned owner ancestor) := by
      obtain ⟨owner, owned, rest⟩ := TransGen.head'_iff.mp way
      exact ⟨owner, owned, reflTransGen_iff_eq_or_transGen.mp rest |>.imp_left Eq.symm⟩
    cases owned : world.ownerOf descendant with
    | none =>
      rw [show (world.entity descendant).owner = none from owned] at ran
      cases ran
      refine ⟨rfl, false, rfl, (fun same => by cases same), fun way => ?_⟩
      obtain ⟨_, has, _⟩ := only way
      rw [owned] at has
      cases has
    | some ancestor =>
      rw [show (world.entity descendant).owner = some ancestor from owned] at ran
      dsimp only at ran
      split at ran
      · next same =>
        cases ran
        exact ⟨rfl, true, rfl, fun _ => same ▸ .single owned, fun _ => rfl⟩
      · next different =>
        obtain ⟨same, found, returned, finds⟩ := ih ran
        refine ⟨same, found, returned, finds.trans ⟨fun way => .head owned way, fun way => ?_⟩⟩
        obtain ⟨owner, has, rest⟩ := only way
        cases owned.symm.trans has
        exact rest.resolve_left different

end Searches

end Brooklyn
