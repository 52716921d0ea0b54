import Brooklyn.RebindOwnership

/-!
What rebinding makes of the mementos of entities. The owner of an entity, the owned children,
the members of a group and the locations are those that the mementos name, in whatever order
they are visited; only the order of the children depends on it. The mementos can be restored
exactly if no entity is named under two owners or below itself, and only groups have members.
-/

namespace Brooklyn
open Acyclicity Relation Relinking Mementos

variable {Ref Place Id Rest : Type} {kinds : LocationKinds Place Id}

namespace RebindContextImpl
variable (context : RebindContextImpl Ref Place Id)
  (mementos done : List (Mementos.EntityMemento Id Rest)) {memento : Mementos.EntityMemento Id Rest}
  {entity : Ref}

/-- The links of ownership that the mementos ask for, in the order of the visits. -/
def ownerLinks : List (Link Ref) :=
  links context.getEntity (·.id) (·.parent) (·.children) mementos

def memberLinks : List (Link Ref) :=
  mementos.flatMap fun memento => (context.getEntity memento.id).toList.flatMap fun group =>
    linksTo context.getEntity group memento.members

def places [DecidableEq Ref] (entity : Ref) : List Place :=
  mementos.flatMap fun memento =>
    if context.getEntity memento.id = some entity then
      memento.locations.filterMap context.getLocation
    else []

/-- Some memento names the two as a child and its owner. -/
def Owns : Ref → Ref → Prop :=
  Names context.getEntity (·.id) (·.parent) (·.children) mementos

theorem asked_ownerLinks : Asked (context.ownerLinks mementos) = context.Owns mementos :=
  asked_links mementos

/-- Every memento has an entity, only groups have members, nobody is named under two owners
and nobody below itself. -/
structure Consistent (isGroup : Ref → Bool) : Prop where
  registered : ∀ memento ∈ mementos, (context.getEntity memento.id).isSome
  groups : ∀ memento ∈ mementos, memento.members ≠ [] →
    ∀ entity, context.getEntity memento.id = some entity → isGroup entity
  single : ∀ child owner other, context.Owns mementos child owner →
    context.Owns mementos child other → owner = other
  acyclic : Acyclic (context.Owns mementos)

variable {context mementos} in
theorem Consistent.links {isGroup : Ref → Bool} (consistent : context.Consistent mementos isGroup) :
    Relinking.Consistent (context.ownerLinks mementos) := by
  constructor <;> rw [asked_ownerLinks]
  exacts [consistent.single, consistent.acyclic]

theorem ownerLinks_snoc (known : context.getEntity memento.id = some entity) :
    context.ownerLinks (mementos ++ [memento]) = context.ownerLinks mementos ++
      (linkUp context.getEntity entity memento.parent ++
        linksTo context.getEntity entity memento.children) := by
  unfold ownerLinks
  rw [links_append, links_one known]

theorem memberLinks_snoc (known : context.getEntity memento.id = some entity) :
    context.memberLinks (mementos ++ [memento]) =
      context.memberLinks mementos ++ linksTo context.getEntity entity memento.members := by
  simp [memberLinks, known]

theorem ownerLinks_append :
    context.ownerLinks (done ++ mementos) = context.ownerLinks done ++ context.ownerLinks mementos :=
  List.flatMap_append

theorem places_snoc [DecidableEq Ref] (known : context.getEntity memento.id = some entity) (e : Ref) :
    context.places (done ++ [memento]) e = context.places done e ++
      if e = entity then memento.locations.filterMap context.getLocation else [] := by
  simp [places, known, eq_comm]

end RebindContextImpl

section Ownership
variable [DecidableEq Ref] [DecidableEq Id] {who : Identity Ref Id}
  (context : RebindContextImpl Ref Place Id) {all : List (Link Ref)} {bound : Nat}
  (unique : Function.Injective who.id)
include unique

theorem adds_parent (consistent : Consistent all) (enough : (everyone all).length + 2 < bound)
    (entity : Ref) (memento : Mementos.EntityMemento Id Rest) :
    Adds who all (BasicEntityRebindSupport.setParent who bound context entity memento)
      (linkUp context.getEntity entity memento.parent) := by
  unfold BasicEntityRebindSupport.setParent linkUp
  cases memento.parent.bind context.getEntity with
  | none => exact Effect.extends_nothing
  | some parent => exact adds_setOwner unique entity parent consistent enough

theorem adds_children (consistent : Consistent all) (enough : (everyone all).length + 3 < bound)
    (entity : Ref) (memento : Mementos.EntityMemento Id Rest) :
    Adds who all (BasicEntityRebindSupport.addChildren who bound context entity memento)
      (linksTo context.getEntity entity memento.children) := by
  refine Effect.extends_forEach fun childId _ => ?_
  cases context.getEntity childId with
  | none => exact Effect.extends_nothing
  | some child =>
    obtain ⟨bound, rfl⟩ : ∃ less, bound = less + 1 := ⟨bound - 1, by omega⟩
    exact adds_addOwnedChild unique child entity consistent (by omega)

theorem leaves_parent (entity : Ref) (memento : Mementos.EntityMemento Id Rest) :
    Leaves who (BasicEntityRebindSupport.setParent who bound context entity memento)
      (linkUp context.getEntity entity memento.parent) := by
  unfold BasicEntityRebindSupport.setParent linkUp
  cases memento.parent.bind context.getEntity with
  | none => exact leaves_nothing
  | some parent => exact leaves_setOwner unique bound entity parent

theorem leaves_children (entity : Ref) (memento : Mementos.EntityMemento Id Rest) :
    Leaves who (BasicEntityRebindSupport.addChildren who bound context entity memento)
      (linksTo context.getEntity entity memento.children) := by
  refine leaves_forEach (fun childId => ?_) memento.children
  cases context.getEntity childId with
  | none => exact leaves_nothing
  | some child => exact leaves_addOwnedChild unique bound child entity

end Ownership

section Groups
open Memberships (Represents)
variable [DecidableEq Ref] {who : Identity Ref Id}

/-- The memberships that links ask for, from a member to its group. -/
def memberships (links : List (Link Ref)) (emitted : List (Ref × MembershipEvent Ref)) :
    Memberships Ref where
  members := members links
  groups := members (links.map Link.flip)
  emitted := emitted

theorem change_memberships (links : List (Link Ref)) (emitted : List (Ref × MembershipEvent Ref))
    (group member : Ref) : (memberships links emitted).change (.add group member) =
      memberships (links ++ [⟨member, group⟩])
        (if member ∈ members links group then emitted
          else emitted ++ [(group, .memberAdded member)]) := by
  unfold memberships Memberships.change
  rw [members_snoc, List.map_append, List.map_singleton, Link.flip, members_snoc]

def Grouped (who : Identity Ref Id) (links : List (Link Ref)) (world : GroupWorld Ref Id) : Prop :=
  ∃ emitted, Represents who world (memberships links emitted)

theorem grouped_initial (who : Identity Ref Id) :
    Grouped who [] (Rebinding.initial : Rebinding Ref Id kinds).groups :=
  ⟨[], fun _ => EntityCollectionReference.complete_create, fun _ => rfl,
    fun _ => EntityCollectionReference.complete_create, rfl⟩

variable [DecidableEq Id]

theorem addMember_grouped (unique : Function.Injective who.id) {links : List (Link Ref)}
    {world : GroupWorld Ref Id} (grouped : Grouped who links world) (group member : Ref) :
    ∃ out after, AbstractGroup.addMember who group (some member) world = some (.ok out, after) ∧
      Grouped who (links ++ [⟨member, group⟩]) after := by
  obtain ⟨emitted, represents⟩ := grouped
  obtain ⟨after, ran, changed⟩ := addMember_adds unique represents group member
  exact ⟨_, after, ran, _, change_memberships links emitted group member ▸ changed⟩

theorem forEach_grouped (unique : Function.Injective who.id)
    (context : RebindContextImpl Ref Place Id) (group : Ref) {links : List (Link Ref)}
    {world : GroupWorld Ref Id} (grouped : Grouped who links world) (ids : List Id) :
    ∃ after, Effect.forEach ids (fun memberId =>
        match context.getEntity memberId with
        | some member => do
          let _ ← AbstractGroup.addMember who group (some member)
        | none => pure ()) world = some (.ok (), after) ∧
      Grouped who (links ++ linksTo context.getEntity group ids) after := by
  induction ids generalizing links world with
  | nil => exact ⟨world, rfl, (List.append_nil links).symm ▸ grouped⟩
  | cons id rest ih =>
    rw [linksTo_cons, ← List.append_assoc]
    unfold Effect.forEach
    cases context.getEntity id with
    | none =>
      rw [Option.toList_none, List.map_nil, List.append_nil]
      obtain ⟨after, ran, more⟩ := ih grouped
      exact ⟨after, ran, more⟩
    | some member =>
      obtain ⟨out, middle, added, next⟩ := addMember_grouped unique grouped group member
      obtain ⟨after, ran, more⟩ := ih next
      refine ⟨after, ?_, more⟩
      change ((AbstractGroup.addMember who group (some member) >>= fun _ => pure ()) >>= _) world = _
      rw [Effect.bind_assoc, Effect.bind_apply _ added]
      exact ran

end Groups

/-- What was restored, from the mementos that were visited. -/
structure Reconstructed [DecidableEq Ref] [DecidableEq Place] [DecidableEq Id]
    (who : Identity Ref Id) (context : RebindContextImpl Ref Place Id)
    (mementos : List (Mementos.EntityMemento Id Rest)) (state : Rebinding Ref Id kinds) : Prop where
  ownership : Rebound who (context.ownerLinks mementos) state.ownership
  groups : Grouped who (context.memberLinks mementos) state.groups
  getLocations : ∀ entity,
    state.getLocations entity = LinkedSet.empty.addAll (context.places mementos entity)

section Entities
open Rebinding
variable [DecidableEq Ref] [DecidableEq Place] [DecidableEq Id] {who : Identity Ref Id}
  {isGroup : Ref → Bool} {bound : Nat} {context : RebindContextImpl Ref Place Id}
  {done mementos : List (Mementos.EntityMemento Id Rest)} {memento : Mementos.EntityMemento Id Rest}
  {entity : Ref}
  {state after : Rebinding Ref Id kinds}

omit [DecidableEq Place] in
theorem addMembers_adds (unique : Function.Injective who.id)
    (known : context.getEntity memento.id = some entity)
    (grouped : Grouped who (context.memberLinks done) state.groups)
    (allowed : memento.members ≠ [] → isGroup entity) :
    ∃ groups, BasicEntityRebindSupport.addMembers who isGroup context entity memento state =
        some (.ok (), { state with groups }) ∧
      Grouped who (context.memberLinks (done ++ [memento])) groups := by
  rw [context.memberLinks_snoc _ known]
  unfold BasicEntityRebindSupport.addMembers
  by_cases nobody : memento.members = []
  · rw [if_pos nobody, nobody]
    exact ⟨state.groups, rfl, (List.append_nil (context.memberLinks done)).symm ▸ grouped⟩
  · rw [if_neg nobody, if_pos (allowed nobody)]
    obtain ⟨groups, ran, added⟩ := forEach_grouped unique context entity grouped memento.members
    exact ⟨groups, Effect.embed_returned ran, added⟩

theorem reconstruct_returns (unique : Function.Injective who.id)
    (known : context.getEntity memento.id = some entity)
    (allowed : memento.members ≠ [] → isGroup entity) {all : List (Link Ref)}
    (consistent : Consistent all) (enough : (everyone all).length + 3 < bound)
    (fits : context.ownerLinks (done ++ [memento]) <+: all)
    (so_far : Reconstructed who context done state) :
    ∃ after, BasicEntityRebindSupport.reconstruct who isGroup bound context entity memento state =
      some (.ok (), after) ∧ Reconstructed who context (done ++ [memento]) after := by
  rw [context.ownerLinks_snoc _ known] at fits
  have owns := (adds_parent context unique consistent (Nat.lt_of_succ_lt enough) entity
    memento).andThen (adds_children context unique consistent enough entity memento)
  obtain ⟨ownership, ran, linked⟩ := owns _ _ fits so_far.ownership
  obtain ⟨_, middle, first, second⟩ := Effect.bind_returned ran
  obtain ⟨groups, added, grouped⟩ : ∃ groups, BasicEntityRebindSupport.addMembers who isGroup context
      entity memento { state with ownership } = some (.ok (), { state with ownership, groups }) ∧
        Grouped who (context.memberLinks (done ++ [memento])) groups :=
    addMembers_adds unique known so_far.groups allowed
  refine ⟨{ state with
    ownership
    groups
    getLocations := Function.update state.getLocations entity
      ((state.getLocations entity).addAll (memento.locations.filterMap context.getLocation)) },
    ?_, ?_, grouped, fun e => ?_⟩
  · unfold BasicEntityRebindSupport.reconstruct
    have begun : onOwnership (BasicEntityRebindSupport.setParent who bound context entity memento)
        state = some (.ok (), { state with ownership := middle }) := Effect.embed_returned first
    have next : onOwnership (BasicEntityRebindSupport.addChildren who bound context entity memento)
        { state with ownership := middle } = some (.ok (), { state with ownership }) :=
      Effect.embed_returned second
    rw [Effect.bind_apply _ begun, Effect.bind_apply _ next, Effect.bind_apply _ added]
    rfl
  · rw [context.ownerLinks_snoc _ known]
    exact linked
  · rw [context.places_snoc done known, LinkedSet.addAll_append]
    change Function.update state.getLocations entity _ e = _
    by_cases same : e = entity
    · subst same
      rw [Function.update_self, if_pos rfl, so_far.getLocations]
    · rw [Function.update_of_ne same, if_neg same, so_far.getLocations]
      rfl

theorem reconstructEntities_returns (unique : Function.Injective who.id)
    (consistent : context.Consistent mementos isGroup)
    (enough : (everyone (context.ownerLinks mementos)).length + 3 < bound)
    (start : Reconstructed who context ([] : List (Mementos.EntityMemento Id Rest)) state) :
    ∃ after, RebindManagerImpl.reconstructEntities who isGroup bound context mementos state =
      some (.ok (), after) ∧ Reconstructed who context mementos after := by
  refine Effect.forEach_returns (Reconstructed who context) start
    fun done memento rest state split so_far => ?_
  have member : memento ∈ mementos := split ▸ List.mem_append_right _ List.mem_cons_self
  obtain ⟨entity, known⟩ := Option.isSome_iff_exists.mp (consistent.registered memento member)
  rw [known]
  refine reconstruct_returns unique known (fun some_ => consistent.groups memento member some_ entity
    known) consistent.links enough ?_ so_far
  rw [split, show done ++ memento :: rest = (done ++ [memento]) ++ rest by simp,
    context.ownerLinks_append rest]
  exact List.prefix_append _ _

/-- Reconstructing an entity that returned loses no link, and makes those of its memento. -/
theorem reconstruct_leaves (unique : Function.Injective who.id)
    (returned : BasicEntityRebindSupport.reconstruct who isGroup bound context entity memento state =
      some (.ok (), after))
    (hierarchy : ∃ members, Hierarchy who state.ownership members) :
    ((∃ members, Hierarchy who after.ownership members) ∧
      (∀ e other, state.ownership.Owned e other → after.ownership.Owned e other) ∧
      ∀ child owner, Asked (linkUp context.getEntity entity memento.parent ++
        linksTo context.getEntity entity memento.children) child owner →
          after.ownership.Owned child owner) ∧
      (memento.members ≠ [] → isGroup entity) := by
  unfold BasicEntityRebindSupport.reconstruct at returned
  obtain ⟨_, first, parent, returned⟩ := Effect.bind_returned returned
  obtain ⟨_, second, children, returned⟩ := Effect.bind_returned returned
  obtain ⟨_, third, members, located⟩ := Effect.bind_returned returned
  obtain ⟨ownership, set, rfl⟩ := Effect.embed_ok parent
  obtain ⟨ownershipToo, added, rfl⟩ := Effect.embed_ok children
  have left := (leaves_parent context unique entity memento).andThen
    (leaves_children context unique entity memento) state.ownership ownershipToo hierarchy
    (Effect.bind_apply _ set |>.trans added)
  have same : after.ownership = third.ownership := by
    cases located
    rfl
  rw [same]
  unfold BasicEntityRebindSupport.addMembers at members
  split at members
  · next nobody =>
    cases members
    exact ⟨left, fun somebody => absurd nobody somebody⟩
  · split at members
    · next group =>
      obtain ⟨groups, _, rfl⟩ := Effect.embed_ok members
      exact ⟨left, fun _ => group⟩
    · cases members

theorem consistent_of_returned (unique : Function.Injective who.id)
    (start : Reconstructed who context ([] : List (Mementos.EntityMemento Id Rest)) state)
    (returned : RebindManagerImpl.reconstructEntities who isGroup bound context mementos state =
      some (.ok (), after)) : context.Consistent mementos isGroup := by
  have all := Effect.forEach_kept (fun done state =>
      ((∃ members, Hierarchy who state.ownership members) ∧
        ∀ child owner, Asked (context.ownerLinks done) child owner →
          state.ownership.Owned child owner) ∧
        ∀ memento ∈ done, ∃ entity, context.getEntity memento.id = some entity ∧
          (memento.members ≠ [] → isGroup entity))
    ⟨⟨⟨_, start.ownership.hierarchy⟩,
      fun _ _ asked => absurd asked List.not_mem_nil⟩, fun _ member => absurd member List.not_mem_nil⟩
    (fun done memento state after _ so_far ran => by
      obtain ⟨⟨hierarchy, made⟩, earlier⟩ := so_far
      cases known : context.getEntity memento.id with
      | none =>
        rw [known] at ran
        cases ran
      | some entity =>
        rw [known] at ran
        obtain ⟨⟨later, kept, new⟩, allowed⟩ := reconstruct_leaves unique ran hierarchy
        refine ⟨⟨later, fun child owner asked => ?_⟩, fun other member => ?_⟩
        · rw [context.ownerLinks_snoc _ known] at asked
          exact (List.mem_append.mp asked).elim
            (fun before => kept child owner (made child owner before)) (new child owner)
        · rcases List.mem_append.mp member with before | last
          · exact earlier other before
          · cases List.mem_singleton.mp last
            exact ⟨entity, known, allowed⟩)
    returned
  obtain ⟨⟨⟨members, hierarchy⟩, made⟩, each⟩ := all
  rw [context.asked_ownerLinks] at made
  refine ⟨fun memento member => ?_, fun memento member somebody entity known => ?_, ?_, ?_⟩
  · obtain ⟨entity, known, _⟩ := each memento member
    rw [known]
    rfl
  · obtain ⟨other, same, allowed⟩ := each memento member
    cases known.symm.trans same
    exact allowed somebody
  · intro child owner other first second
    exact Option.some.inj ((made child owner first).symm.trans (made child other second))
  · exact hierarchy.acyclic.mono made

/-- New entities that nothing was said of yet. -/
structure Fresh (state : Rebinding Ref Id kinds) : Prop where
  ownership : state.ownership = .initial
  groups : state.groups = (Rebinding.initial : Rebinding Ref Id kinds).groups
  getLocations : state.getLocations = fun _ => .empty

theorem Fresh.reconstructed (fresh : Fresh state) (who : Identity Ref Id)
    (context : RebindContextImpl Ref Place Id) :
    Reconstructed who context ([] : List (Mementos.EntityMemento Id Rest)) state where
  ownership := fresh.ownership ▸ rebound_initial who
  groups := fresh.groups ▸ grouped_initial who
  getLocations entity := congrFun fresh.getLocations entity

end Entities

namespace RebindContextImpl
variable (context : RebindContextImpl Ref Place Id)
  (mementos : List (Mementos.EntityMemento Id Rest))

/-- What `getOwner`, `getOwnedChildren`, `getMembers` and `getLocations` answer afterwards. -/
structure Restored [DecidableEq Ref] [DecidableEq Place] [DecidableEq Id] (who : Identity Ref Id)
    (after : Rebinding Ref Id kinds) : Prop where
  owners : ∀ child owner, after.ownership.ownerOf child = some owner ↔
    context.Owns mementos child owner
  children : ∀ owner, ∃ children later,
    getOwnedChildren who owner after.ownership = some (.ok children, later) ∧
      ∀ child, child ∈ children ↔ context.Owns mementos child owner
  members : ∀ group, ∃ members later,
    AbstractGroup.getMembers who context.getEntity group after.groups =
      some (.ok members, later) ∧
    ∀ member, member ∈ members ↔ ∃ memento ∈ mementos,
      context.getEntity memento.id = some group ∧
        ∃ id ∈ memento.members, context.getEntity id = some member
  locations : ∀ entity place, place ∈ after.getLocations entity ↔ ∃ memento ∈ mementos,
    context.getEntity memento.id = some entity ∧
      ∃ id ∈ memento.locations, context.getLocation id = some place

end RebindContextImpl

section Restoring
variable [DecidableEq Ref] [DecidableEq Place] [DecidableEq Id] {who : Identity Ref Id}
  {context : RebindContextImpl Ref Place Id} {mementos : List (Mementos.EntityMemento Id Rest)}
  {state after : Rebinding Ref Id kinds}

theorem restored_of_links (hierarchy : Hierarchy who after.ownership
      (members (context.ownerLinks mementos)))
    (groups : Grouped who (context.memberLinks mementos) after.groups)
    (getLocations : ∀ entity,
      after.getLocations entity = LinkedSet.empty.addAll (context.places mementos entity)) :
    context.Restored mementos who after := by
  have owned (child owner : Ref) :
      after.ownership.Owned child owner ↔ context.Owns mementos child owner := by
    rw [← hierarchy.linked, mem_members, context.asked_ownerLinks]
  constructor
  · exact owned
  · intro owner
    obtain ⟨later, got, _⟩ := getOwnedChildren_gets hierarchy owner
    exact ⟨_, later, got, fun child => (hierarchy.linked owner child).trans (owned child owner)⟩
  · intro group
    obtain ⟨emitted, represents⟩ := groups
    obtain ⟨later, got, _⟩ := getMembers_gets context.getEntity represents group
    refine ⟨_, later, got, fun member => mem_members.trans ?_⟩
    simp only [Asked, RebindContextImpl.memberLinks, List.mem_flatMap, Option.mem_toList]
    refine exists_congr fun memento => and_congr_right fun _ => ?_
    constructor
    · rintro ⟨entity, known, listed⟩
      obtain ⟨rfl, named⟩ := asked_linksTo.mp listed
      exact ⟨known, named⟩
    · rintro ⟨known, named⟩
      exact ⟨group, known, asked_linksTo.mpr ⟨rfl, named⟩⟩
  · intro entity place
    rw [getLocations, LinkedSet.mem_addAll, or_iff_right (LinkedSet.not_mem_empty _)]
    simp only [RebindContextImpl.places, List.mem_flatMap]
    refine exists_congr fun memento => and_congr_right fun _ => ?_
    split
    · next known => simp [known]
    · next unknown => simp [unknown]

theorem Reconstructed.restored (reconstructed : Reconstructed who context mementos after) :
    context.Restored mementos who after :=
  restored_of_links reconstructed.ownership.hierarchy reconstructed.groups reconstructed.getLocations

/-- Entities are restored exactly from consistent mementos, in whatever order these come, and
have the relatives, members and locations that the mementos name from either side. -/
theorem reconstructEntities_iff (unique : Function.Injective who.id) (isGroup : Ref → Bool)
    (fresh : Fresh state) {bound : Nat}
    (enough : (everyone (context.ownerLinks mementos)).length + 3 < bound) :
    ((∃ after, RebindManagerImpl.reconstructEntities who isGroup bound context mementos state =
        some (.ok (), after)) ↔ context.Consistent mementos isGroup) ∧
      ∀ after, RebindManagerImpl.reconstructEntities who isGroup bound context mementos state =
        some (.ok (), after) → context.Restored mementos who after := by
  have start : Reconstructed who context ([] : List (Mementos.EntityMemento Id Rest)) state :=
    fresh.reconstructed who context
  refine ⟨⟨fun ⟨after, returned⟩ => ?_, fun consistent => ?_⟩, fun after returned => ?_⟩
  · exact consistent_of_returned unique start returned
  · obtain ⟨after, returned, _⟩ := reconstructEntities_returns unique consistent enough start
    exact ⟨after, returned⟩
  · obtain ⟨other, again, reconstructed⟩ := reconstructEntities_returns unique
      (consistent_of_returned unique start returned) enough start
    cases returned.symm.trans again
    exact reconstructed.restored

end Restoring

/-- Entities that are their own ids, and a parent whose memento is visited between those of its
two children. -/
def relatives : RebindContextImpl Nat Nat Nat :=
  ⟨LinkedMap.empty.putAll [(2, 2), (1, 1), (3, 3)], .empty⟩

def relatives_mementos : List (Mementos.EntityMemento Nat Unit) :=
  [⟨2, false, some 1, [], [], [], ()⟩, ⟨1, true, none, [3, 2], [], [], ()⟩,
    ⟨3, false, some 1, [], [], [], ()⟩]

theorem relatives_links :
    relatives.ownerLinks relatives_mementos = [⟨2, 1⟩, ⟨3, 1⟩, ⟨2, 1⟩, ⟨3, 1⟩] := rfl

theorem relatives_consistent : relatives.Consistent relatives_mementos fun _ => false := by
  have asked {child owner : Nat} (link : relatives.Owns relatives_mementos child owner) :
      owner = 1 ∧ child ≠ 1 := by
    rw [← RebindContextImpl.asked_ownerLinks, relatives_links] at link
    simp only [Asked, List.mem_cons, Link.mk.injEq, List.not_mem_nil, or_false] at link
    omega
  refine ⟨?_, ?_, fun child owner other first second => ?_, fun node cycle => ?_⟩
  · intro memento member
    simp only [relatives_mementos, List.mem_cons, List.not_mem_nil, or_false] at member
    rcases member with rfl | rfl | rfl <;> rfl
  · intro memento member somebody
    simp only [relatives_mementos, List.mem_cons, List.not_mem_nil, or_false] at member
    rcases member with rfl | rfl | rfl <;> exact absurd rfl somebody
  · rw [(asked first).1, (asked second).1]
  · obtain ⟨_, first, _⟩ := TransGen.head'_iff.mp cycle
    obtain ⟨_, _, last⟩ := TransGen.tail'_iff.mp cycle
    exact (asked first).2 (asked last).1

theorem relatives_restored : ∃ after : Rebinding Nat Nat (⟨id, fun _ => true, fun _ => false⟩ :
    LocationKinds Nat Nat), RebindManagerImpl.reconstructEntities ⟨id, fun _ => false⟩
      (fun _ => false) 12 relatives relatives_mementos .initial = some (.ok (), after) :=
  (reconstructEntities_iff Function.injective_id (fun _ => false) ⟨rfl, rfl, rfl⟩
    (by rw [relatives_links]; decide)).1.mpr relatives_consistent

end Brooklyn
