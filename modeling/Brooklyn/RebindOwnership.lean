import Brooklyn.OwnershipHierarchy
import Brooklyn.OwnershipReached
import Brooklyn.RebindManagerImpl
import Brooklyn.Relinking

/-!
The ownership that rebinding puts together. A link that the mementos ask for, from either of
its sides, is made when it leaves nobody with two owners or below itself; the searches for a
loop come to an end because the entities with links are finitely many.
-/

namespace Brooklyn
open Acyclicity Relation Relinking

variable {Ref Id : Type}

section Blind
variable {Field : Type} (field : World Ref Id → Field)

/-- What is read of a world stays as it is. -/
def Same (before after : World Ref Id) : Prop := field after = field before

instance : Std.Refl (Same field) := ⟨fun _ => rfl⟩

instance : IsTrans (World Ref Id) (Same field) := ⟨fun _ _ _ first second => Eq.trans second first⟩

variable {field}

theorem same_resolve (referrer : Ref) (id : Id) : Effect.Moves (Same field) (resolve referrer id) :=
  resolve_ran.weaken fun _ _ same => same ▸ rfl

variable [DecidableEq Id] (who : Identity Ref Id)

theorem same_resolveAll (referrer : Ref) (result : LinkedMap Id Ref) (ids : List Id) :
    Effect.Moves (Same field) (resolveAll who referrer result ids) := by
  induction ids generalizing result with
  | nil => exact Effect.moves_pure _
  | cons id rest ih =>
    refine Effect.moves_bind (same_resolve referrer id) fun found => ?_
    cases found with
    | none => exact ih result
    | some e => exact ih _

variable [DecidableEq Ref] (blind : ∀ (world : World Ref Id) e children,
  field (world.setOwnedChildren e children) = field world)
include blind

theorem same_getOwnedChildren (e : Ref) : Effect.Moves (Same field) (getOwnedChildren who e) := by
  refine Effect.moves_bind (Effect.moves_read _) fun reference => ?_
  cases reference.entities with
  | some entities => exact Effect.moves_pure _
  | none =>
    refine Effect.moves_bind (Effect.moves_read _) fun _ => ?_
    refine Effect.moves_bind (same_resolveAll who e _ _) fun result => ?_
    refine Effect.moves_bind (Effect.moves_modify fun world => ?_) fun _ => Effect.moves_pure _
    exact blind world e _

/-- A search changes nothing but references to owned children. -/
theorem same_inspect (wanted : Option Ref) (bound : Nat) (inspected toinspect : List Ref) :
    Effect.Moves (Same field) (inspect who wanted bound inspected toinspect) := by
  induction bound generalizing inspected toinspect with
  | zero => exact Effect.moves_diverge
  | succ bound ih =>
    unfold inspect
    cases toinspect.getLast? with
    | none => exact Effect.moves_pure _
    | some e =>
      refine Effect.moves_bind (same_getOwnedChildren who blind e) fun children => ?_
      dsimp only
      split
      · exact Effect.moves_pure _
      · exact Effect.moves_bind (same_getOwnedChildren who blind e) fun _ => ih _ _

end Blind

section Finite
variable {who : Identity Ref Id} {world : World Ref Id} {members : Ref → LinkedSet Ref}
  {everyone : List Ref}

/-- Every link is between entities of the list. -/
def Within (world : World Ref Id) (everyone : List Ref) : Prop :=
  ∀ child owner, world.Owned child owner → child ∈ everyone ∧ owner ∈ everyone

variable [DecidableEq Ref]

theorem isAncestor_misses_from (acyclic : Acyclic world.Owned) (within : Within world everyone)
    {potentialAncestor : Ref} {bound : Nat} {descendant : Ref} {passed : List Ref}
    (distinct : passed.Nodup) (old : ∀ e ∈ passed, e ∈ everyone)
    (behind : ∀ e ∈ passed, TransGen world.Owned e descendant) (listed : descendant ∈ everyone)
    (missing : ¬ TransGen world.Owned descendant potentialAncestor)
    (enough : everyone.length < bound + passed.length) :
    isAncestor bound descendant potentialAncestor world = some (.ok false, world) := by
  induction bound generalizing descendant passed with
  | zero =>
    have fits := (distinct.subperm old).length_le
    omega
  | succ bound ih =>
    unfold isAncestor getOwner
    rw [Effect.read_bind]
    cases owned : world.ownerOf descendant with
    | none =>
      rw [show (world.entity descendant).owner = none from owned]
      rfl
    | some ancestor =>
      rw [show (world.entity descendant).owner = some ancestor from owned]
      have up : world.Owned descendant ancestor := owned
      have different : ancestor ≠ potentialAncestor := fun same => missing (same ▸ .single up)
      dsimp only
      rw [if_neg different]
      exact ih (show (descendant :: passed).Nodup from
          List.nodup_cons.mpr ⟨fun seen => acyclic descendant (behind descendant seen), distinct⟩)
        (fun e seen => (List.mem_cons.mp seen).elim (fun same => same ▸ listed) (old e))
        (fun e seen => (List.mem_cons.mp seen).elim (fun same => same ▸ .single up)
          fun earlier => (behind e earlier).tail up)
        (within descendant ancestor up).2 (fun way => missing (.head up way))
        (by rw [List.length_cons]; omega)

theorem isAncestor_misses (acyclic : Acyclic world.Owned) (within : Within world everyone)
    {descendant potentialAncestor : Ref} (listed : descendant ∈ everyone)
    (missing : ¬ TransGen world.Owned descendant potentialAncestor) {bound : Nat}
    (enough : everyone.length < bound) :
    isAncestor bound descendant potentialAncestor world = some (.ok false, world) :=
  isAncestor_misses_from acyclic within List.nodup_nil (fun _ member => absurd member List.not_mem_nil)
    (fun _ member => absurd member List.not_mem_nil) listed missing enough

variable [DecidableEq Id]

/-- A search ends after as many turns as there are entities, and does not find one that is
not below. -/
theorem inspect_misses (hierarchy : Hierarchy who world members) (within : Within world everyone)
    {wanted : Ref} {bound : Nat} {inspected toinspect : List Ref} (distinct : inspected.Nodup)
    (old : ∀ e ∈ inspected, e ∈ everyone) (new : ∀ e ∈ toinspect, e ∈ everyone ∧ e ∉ inspected)
    (missing : ∀ e ∈ toinspect, ¬ TransGen world.Owned wanted e)
    (enough : everyone.length < bound + inspected.length) :
    ∃ after, inspect who (some wanted) bound inspected toinspect world =
      some (.ok false, after) ∧ Kept who world after := by
  induction bound generalizing world inspected toinspect with
  | zero =>
    have fits := (distinct.subperm old).length_le
    omega
  | succ bound ih =>
    unfold inspect
    cases top : toinspect.getLast? with
    | none => exact ⟨world, rfl, .refl world⟩
    | some e =>
      have stack := List.dropLast_append_getLast? e top
      have member : e ∈ toinspect := stack ▸ List.mem_append_right _ (List.mem_singleton_self e)
      obtain ⟨first, got, looked⟩ := getOwnedChildren_gets hierarchy e
      have hierarchyFirst := hierarchy.kept looked
      obtain ⟨second, again, lookedAgain⟩ := getOwnedChildren_gets hierarchyFirst e
      have kept := looked.trans lookedAgain
      have unseen : some wanted ∉ (members e).elements.map some := by
        intro seen
        obtain ⟨child, child_of, same⟩ := List.mem_map.mp seen
        cases same
        exact missing e member (.single ((hierarchy.linked e wanted).mp child_of))
      change ∃ after, (getOwnedChildren who e >>= _) world = _ ∧ _
      rw [Effect.bind_apply _ got, if_neg unseen, Effect.bind_apply _ again]
      have among {other : Ref} (later : other ∈ (toinspect.dropLast ++ (members e).elements).filter
          (· ∉ e :: inspected)) : other ∉ e :: inspected ∧
            (other ∈ toinspect ∨ world.Owned other e) := by
        obtain ⟨listed, fresh⟩ := List.mem_filter.mp later
        refine ⟨of_decide_eq_true fresh, ?_⟩
        rcases List.mem_append.mp listed with deeper | child_of
        · exact Or.inl (stack ▸ List.mem_append_left _ deeper)
        · exact Or.inr ((hierarchy.linked e other).mp child_of)
      obtain ⟨after, ran, later⟩ := ih (hierarchyFirst.kept lookedAgain)
        (by rw [Within, kept.owned]; exact within)
        (show (e :: inspected).Nodup from List.nodup_cons.mpr ⟨(new e member).2, distinct⟩)
        (fun other seen => (List.mem_cons.mp seen).elim (fun same => same ▸ (new e member).1)
          (old other))
        (fun other later => ⟨(among later).2.elim (fun there => (new other there).1)
          fun owned => (within other e owned).1, (among later).1⟩)
        (fun other later => by
          rw [kept.owned]
          rcases (among later).2 with there | owned
          · exact missing other there
          · exact fun way => missing e member (way.tail owned))
        (by rw [List.length_cons]; omega)
      exact ⟨after, ran, kept.trans later⟩

theorem isDescendant_misses (hierarchy : Hierarchy who world members)
    (within : Within world everyone) {ancestor wanted : Ref} (listed : ancestor ∈ everyone)
    (missing : ¬ TransGen world.Owned wanted ancestor) {bound : Nat}
    (enough : everyone.length < bound) :
    ∃ after, isDescendant who bound ancestor (some wanted) world = some (.ok false, after) ∧
      Kept who world after :=
  inspect_misses hierarchy within List.nodup_nil (fun _ member => absurd member List.not_mem_nil)
    (fun _ member => ⟨List.mem_singleton.mp member ▸ listed, List.not_mem_nil⟩)
    (fun _ member => List.mem_singleton.mp member ▸ missing) enough

end Finite

section Links
variable {who : Identity Ref Id} {world : World Ref Id} {members : Ref → LinkedSet Ref}
  {everyone : List Ref} {child owner : Ref} {bound : Nat}

/-- Whether an entity had an owner at some time. -/
def World.marked (world : World Ref Id) (e : Ref) : Bool :=
  (world.entity e).previouslyOwned

variable [DecidableEq Ref]

theorem marked_setOwnedChildren (world : World Ref Id) (e : Ref)
    (children : EntityCollectionReference Ref Id) :
    (world.setOwnedChildren e children).marked = world.marked :=
  funext fun other => world.unchanged_setEntity e other (·.previouslyOwned) rfl

theorem marked_setOwner (world : World Ref Id) (e : Ref) (owner : Option Ref) :
    (world.setOwner e owner).marked = world.marked :=
  funext fun other => world.unchanged_setEntity e other (·.previouslyOwned) rfl

theorem marked_setPreviouslyOwned (world : World Ref Id) (e other : Ref) :
    (world.setPreviouslyOwned e).marked other = if other = e then true else world.marked other := by
  unfold World.setPreviouslyOwned World.marked
  rw [World.entity_setEntity]
  split <;> rfl

variable [DecidableEq Id]

theorem marked_attach (world : World Ref Id) (owner child e : Ref) :
    (world.attach who owner child).marked e = if e = child then true else world.marked e := by
  unfold World.attach World.addChild
  rw [marked_setPreviouslyOwned, marked_setOwnedChildren, marked_setOwner]

theorem owned_attach (unowned : world.ownerOf child = none) (owner : Ref) :
    (world.attach who owner child).Owned = withLink world.Owned child owner := by
  rw [← owned_setOwner unowned]
  funext e other
  simp [World.Owned, World.attach, World.addChild]

theorem setOwner_again (owned : world.Owned child owner) (bound : Nat) :
    setOwner who (bound + 1) child (some owner) world = some (.ok (), world) := by
  unfold setOwner getOwner
  rw [Effect.read_bind, show (world.entity child).owner = some owner from owned]
  simp only [if_pos]
  rfl

theorem addOwnedChild_keeps (hierarchy : Hierarchy who world members)
    (within : Within world everyone) (unique : Function.Injective who.id)
    (owned : world.Owned child owner) (enough : everyone.length + 1 < bound) :
    addOwnedChild who bound owner child world = some (.ok (), world) := by
  obtain ⟨bound, rfl⟩ : ∃ less, bound = less + 2 := ⟨bound - 2, by omega⟩
  have apart : ¬ TransGen world.Owned owner child :=
    fun way => hierarchy.acyclic child (.head owned way)
  have searched : isAncestor (bound + 1) owner child world = some (.ok false, world) :=
    isAncestor_misses hierarchy.acyclic within (within child owner owned).2 apart (by omega)
  have there : who.id child ∈ (world.childrenOf owner).entityRefs :=
    ((hierarchy.complete owner).mem unique child).mpr ((hierarchy.linked owner child).mpr owned)
  unfold addOwnedChild
  rw [Effect.bind_apply _ searched]
  simp only [Bool.false_eq_true, if_false]
  rw [Effect.bind_apply _ (setOwner_again owned bound)]
  change some (Except.ok (), world.setOwnedChildren owner
    ((world.childrenOf owner).add who child)) = _
  rw [EntityCollectionReference.add, if_pos there, setOwnedChildren_same]

/-- An entity that never had an owner gets one that is not below it. -/
theorem setOwner_gives (hierarchy : Hierarchy who world members)
    (within : Within world everyone) (listed : child ∈ everyone ∧ owner ∈ everyone)
    (unowned : world.ownerOf child = none) (fresh : world.marked child = false)
    (apart : ¬ ReflTransGen world.Owned owner child) (enough : everyone.length + 2 < bound) :
    ∃ middle, setOwner who bound child (some owner) world =
      some (.ok (), middle.attach who owner child) ∧ Kept who world middle ∧
        ∀ (Field : Type) (field : World Ref Id → Field),
          (∀ (world : World Ref Id) e children,
            field (world.setOwnedChildren e children) = field world) →
          field middle = field world := by
  obtain ⟨bound, rfl⟩ : ∃ less, bound = less + 3 := ⟨bound - 3, by omega⟩
  obtain ⟨middle, searched, looked⟩ : ∃ middle, isDescendant who (bound + 2) child (some owner) world =
      some (.ok false, middle) ∧ Kept who world middle :=
    isDescendant_misses hierarchy within listed.1 (fun way => apart way.to_reflTransGen) (by omega)
  have unownedStill : middle.ownerOf child = none := (looked.owners child).trans unowned
  have different : some owner ≠ some child := fun same => by
    cases same
    exact apart .refl
  let given := middle.setOwner child (some owner)
  have owned : given.Owned child owner := by
    change (middle.setOwner child (some owner)).ownerOf child = some owner
    simp
  have links : given.Owned = withLink world.Owned child owner := by
    rw [← looked.owned]
    exact owned_setOwner unownedStill owner
  have still : ¬ TransGen given.Owned owner child := by
    rw [links]
    intro way
    rcases transGen_withLink way with old | ⟨old, _⟩
    · exact apart old.to_reflTransGen
    · exact apart old
  have acyclic : Acyclic given.Owned := by
    rw [links, acyclic_withLink_iff]
    exact ⟨hierarchy.acyclic, apart⟩
  have withinStill : Within given everyone := by
    intro e other link
    rw [links] at link
    rcases link with old | ⟨rfl, rfl⟩
    · exact within e other old
    · exact listed
  have ascended : isAncestor (bound + 1) owner child given = some (.ok false, given) :=
    isAncestor_misses acyclic withinStill listed.2 still (by omega)
  have added : addOwnedChild who (bound + 2) owner child given =
      some (.ok (), given.addChild who owner child) := by
    unfold addOwnedChild
    rw [Effect.bind_apply _ ascended]
    simp only [Bool.false_eq_true, if_false]
    rw [Effect.bind_apply _ (setOwner_again owned bound)]
    rfl
  refine ⟨middle, ?_, looked, fun Field field blind =>
    same_inspect who blind _ _ _ _ world _ middle searched⟩
  unfold setOwner getOwner
  rw [Effect.read_bind, show (world.entity child).owner = none from unowned]
  dsimp only
  rw [Effect.read_bind, show (world.entity child).previouslyOwned = false from fresh]
  simp only [Bool.false_eq_true, false_and, if_false, different]
  rw [Effect.bind_apply _ searched]
  simp only [Bool.false_eq_true, if_false]
  rw [Effect.modify_bind, Effect.bind_apply _ added]
  rfl

/-- A child of nobody gets the owner, and is added to it once more without effect. -/
theorem addOwnedChild_gives (hierarchy : Hierarchy who world members)
    (within : Within world everyone) (listed : child ∈ everyone ∧ owner ∈ everyone)
    (unique : Function.Injective who.id) (unowned : world.ownerOf child = none)
    (apart : ¬ ReflTransGen world.Owned owner child) (enough : everyone.length < bound)
    {after : World Ref Id}
    (gave : setOwner who bound child (some owner) world =
      some (.ok (), after.attach who owner child)) (looked : Kept who world after) :
    addOwnedChild who (bound + 1) owner child world =
      some (.ok (), after.attach who owner child) := by
  have searched : isAncestor bound owner child world = some (.ok false, world) :=
    isAncestor_misses hierarchy.acyclic within listed.2 (fun way => apart way.to_reflTransGen) enough
  have attached : Hierarchy who (after.attach who owner child) _ :=
    (hierarchy.kept looked).attach unique ((looked.owners child).trans unowned)
      (by rw [looked.owned]; exact apart)
  have owned : (after.attach who owner child).Owned child owner := by
    rw [owned_attach ((looked.owners child).trans unowned)]
    exact Or.inr ⟨rfl, rfl⟩
  have there : who.id child ∈ ((after.attach who owner child).childrenOf owner).entityRefs :=
    ((attached.complete owner).mem unique child).mpr ((attached.linked owner child).mpr owned)
  unfold addOwnedChild
  rw [Effect.bind_apply _ searched]
  simp only [Bool.false_eq_true, if_false]
  rw [Effect.bind_apply _ gave]
  change some (Except.ok (), (after.attach who owner child).setOwnedChildren owner
    (((after.attach who owner child).childrenOf owner).add who child)) = _
  rw [EntityCollectionReference.add, if_pos there, setOwnedChildren_same]

end Links

section Rebound
variable {who : Identity Ref Id} {all links others : List (Link Ref)} {world : World Ref Id}
  {child owner : Ref}

/-- What management knows of the entities, and they of it. -/
def World.managing (world : World Ref Id) :
    LocalManagementContext Ref Id × List (ManagementStep × Ref) × (Ref → EntityManagementSupport) :=
  (world.management, world.steps, fun e => (world.entity e).managementSupport)

/-- The entities that any of the links is between. -/
def everyone (all : List (Link Ref)) : List Ref :=
  all.flatMap fun link => [link.child, link.owner]

theorem mem_everyone (asked : Asked all child owner) :
    child ∈ everyone all ∧ owner ∈ everyone all :=
  ⟨List.mem_flatMap.mpr ⟨_, asked, by simp⟩, List.mem_flatMap.mpr ⟨_, asked, by simp⟩⟩

/-- What an operation that returned has done to a hierarchy: no link was lost, and its own are
there. -/
def Leaves (who : Identity Ref Id) (operation : Operation Ref Id Unit) (links : List (Link Ref)) :
    Prop :=
  ∀ world after, (∃ members, Hierarchy who world members) →
    operation world = some (.ok (), after) →
      (∃ members, Hierarchy who after members) ∧
        (∀ e other, world.Owned e other → after.Owned e other) ∧
          ∀ child owner, Asked links child owner → after.Owned child owner

theorem leaves_nothing : Leaves who (pure ()) [] := by
  intro world after hierarchy ran
  cases ran
  exact ⟨hierarchy, fun _ _ owned => owned, fun _ _ asked => absurd asked List.not_mem_nil⟩

theorem Leaves.andThen {first second : Operation Ref Id Unit} (head : Leaves who first links)
    (tail : Leaves who second others) :
    Leaves who (first >>= fun _ => second) (links ++ others) := by
  intro world after hierarchy ran
  obtain ⟨_, middle, started, rest⟩ := Effect.bind_returned ran
  obtain ⟨between, kept, made⟩ := head world middle hierarchy started
  obtain ⟨last, keptToo, madeToo⟩ := tail middle after between rest
  refine ⟨last, fun e other owned => keptToo e other (kept e other owned),
    fun child owner asked => ?_⟩
  rcases List.mem_append.mp asked with early | late
  · exact keptToo child owner (made child owner early)
  · exact madeToo child owner late

theorem leaves_forEach {Item : Type} {body : Item → Operation Ref Id Unit}
    {links : Item → List (Link Ref)} (each : ∀ item, Leaves who (body item) (links item))
    (items : List Item) : Leaves who (Effect.forEach items body) (items.flatMap links) := by
  induction items with
  | nil => exact leaves_nothing
  | cons item rest ih => exact (each item).andThen ih

variable [DecidableEq Ref]

theorem managing_setEntity (world : World Ref Id) (e : Ref) (entity : AbstractEntity Ref Id)
    (same : entity.managementSupport = (world.entity e).managementSupport) :
    (world.setEntity e entity).managing = world.managing :=
  Prod.ext rfl (Prod.ext rfl
    (funext fun other => world.unchanged_setEntity e other (·.managementSupport) same))

theorem managing_setOwnedChildren (world : World Ref Id) (e : Ref)
    (children : EntityCollectionReference Ref Id) :
    (world.setOwnedChildren e children).managing = world.managing :=
  managing_setEntity world e { world.entity e with ownedChildren := children } rfl

/-- New entities between which the links were made, and nothing else happened. -/
structure Rebound (who : Identity Ref Id) (links : List (Link Ref)) (world : World Ref Id) : Prop where
  hierarchy : Hierarchy who world (members links)
  marked : ∀ e, world.marked e = true → ∃ owner, Asked links e owner
  managing : world.managing = World.initial.managing

theorem rebound_initial (who : Identity Ref Id) : Rebound who [] (World.initial : World Ref Id) where
  hierarchy :=
    { complete := fun _ => EntityCollectionReference.complete_create
      linked := fun owner child => iff_of_false (LinkedSet.not_mem_empty child)
        fun owned => by cases owned
      acyclic := acyclic_empty.mono fun child owner owned => by cases owned }
  marked _ marked := by cases marked
  managing := rfl

theorem Rebound.owned
    (rebound : Rebound who links world) : world.Owned = Asked links := by
  funext child owner
  rw [← eq_iff_iff.mpr (rebound.hierarchy.linked owner child), eq_iff_iff.mpr mem_members]

theorem Rebound.free
    (rebound : Rebound who links world) (unowned : ∀ other, ¬ Asked links child other) :
    world.ownerOf child = none ∧ world.marked child = false := by
  constructor
  · rw [Option.eq_none_iff_forall_not_mem]
    intro other owned
    exact unowned other (rebound.owned ▸ owned)
  · rw [Bool.eq_false_iff]
    intro marked
    obtain ⟨other, asked⟩ := rebound.marked child marked
    exact unowned other asked

theorem Rebound.within
    (rebound : Rebound who links world) (fits : links <+: all) : Within world (everyone all) := by
  intro child owner owned
  rw [rebound.owned] at owned
  exact mem_everyone (fits.subset owned)

/-- A link that is there already. -/
theorem Rebound.again
    (rebound : Rebound who links world) (asked : Asked links child owner) :
    Rebound who (links ++ [⟨child, owner⟩]) world where
  hierarchy := by
    rw [members_snoc, LinkedSet.add_of_mem (mem_members.mpr asked), Function.update_eq_self]
    exact rebound.hierarchy
  marked e marked := by
    obtain ⟨other, earlier⟩ := rebound.marked e marked
    exact ⟨other, List.mem_append_left _ earlier⟩
  managing := rebound.managing

variable [DecidableEq Id]

theorem managing_attach (who : Identity Ref Id) (world : World Ref Id) (owner child : Ref) :
    (world.attach who owner child).managing = world.managing := by
  have given : (world.setOwner child (some owner)).managing = world.managing :=
    managing_setEntity world child { world.entity child with owner := some owner } rfl
  have marked (world : World Ref Id) : (world.setPreviouslyOwned child).managing = world.managing :=
    managing_setEntity world child { world.entity child with previouslyOwned := true } rfl
  unfold World.attach World.addChild
  rw [marked, managing_setOwnedChildren, given]

theorem Rebound.attach {middle : World Ref Id}
    (rebound : Rebound who links world) (unique : Function.Injective who.id)
    (unowned : ∀ other, ¬ Asked links child other) (apart : ¬ ReflTransGen (Asked links) owner child)
    (kept : Kept who world middle) (marked : middle.marked = world.marked)
    (managing : middle.managing = world.managing) :
    Rebound who (links ++ [⟨child, owner⟩]) (middle.attach who owner child) := by
  constructor
  · rw [members_snoc]
    refine (rebound.hierarchy.kept kept).attach unique
      ((kept.owners child).trans (rebound.free unowned).1) ?_
    rw [kept.owned, rebound.owned]
    exact apart
  · intro e there
    rw [marked_attach] at there
    split at there
    · next same =>
      exact ⟨owner, List.mem_append_right _ (same ▸ List.mem_singleton_self _)⟩
    · obtain ⟨other, asked⟩ := rebound.marked e (marked ▸ there)
      exact ⟨other, List.mem_append_left _ asked⟩
  · exact (managing_attach who middle owner child).trans (managing.trans rebound.managing)

/-- The operation makes its links, where those so far were made. -/
abbrev Adds (who : Identity Ref Id) (all : List (Link Ref)) (operation : Operation Ref Id Unit)
    (links : List (Link Ref)) : Prop :=
  Effect.Extends (Rebound who) all operation links

section Calls
variable (unique : Function.Injective who.id) (child owner : Ref) {bound : Nat}
include unique

/-- A link that is still to be made. -/
theorem setOwner_makes
    (fits : links ++ [⟨child, owner⟩] <+: all) (rebound : Rebound who links world)
    (unowned : ∀ other, ¬ Asked links child other)
    (apart : ¬ ReflTransGen (Asked links) owner child)
    (enough : (everyone all).length + 2 < bound) :
    ∃ middle, setOwner who bound child (some owner) world =
      some (.ok (), middle.attach who owner child) ∧ Kept who world middle ∧
        Rebound who (links ++ [⟨child, owner⟩]) (middle.attach who owner child) := by
  have listed : Asked all child owner :=
    fits.subset (List.mem_append_right _ (List.mem_singleton_self _))
  obtain ⟨nobody, fresh⟩ := rebound.free unowned
  obtain ⟨middle, ran, kept, blind⟩ := setOwner_gives rebound.hierarchy
    (rebound.within ((List.prefix_append _ _).trans fits)) (mem_everyone listed) nobody fresh
    (by rw [rebound.owned]; exact apart) enough
  exact ⟨middle, ran, kept, rebound.attach unique unowned apart kept
    (blind _ World.marked marked_setOwnedChildren)
    (blind _ World.managing managing_setOwnedChildren)⟩

theorem adds_setOwner (consistent : Consistent all) (enough : (everyone all).length + 2 < bound) :
    Adds who all (setOwner who bound child (some owner)) [⟨child, owner⟩] := by
  intro links world fits rebound
  obtain ⟨rest, whole⟩ := fits
  rcases (whole ▸ consistent).before.next with asked | ⟨unowned, apart⟩
  · obtain ⟨bound, rfl⟩ : ∃ less, bound = less + 1 := ⟨bound - 1, by omega⟩
    exact ⟨world, setOwner_again (rebound.owned ▸ asked) bound, rebound.again asked⟩
  · obtain ⟨middle, ran, _, made⟩ :=
      setOwner_makes unique child owner ⟨rest, whole⟩ rebound unowned apart enough
    exact ⟨_, ran, made⟩

theorem adds_addOwnedChild (consistent : Consistent all)
    (enough : (everyone all).length + 2 < bound) :
    Adds who all (addOwnedChild who (bound + 1) owner child) [⟨child, owner⟩] := by
  intro links world fits rebound
  have listed : Asked all child owner :=
    fits.subset (List.mem_append_right _ (List.mem_singleton_self _))
  have within := rebound.within ((List.prefix_append _ _).trans fits)
  obtain ⟨rest, whole⟩ := fits
  rcases (whole ▸ consistent).before.next with asked | ⟨unowned, apart⟩
  · exact ⟨world, addOwnedChild_keeps rebound.hierarchy within unique
      (rebound.owned ▸ asked) (by omega), rebound.again asked⟩
  · obtain ⟨middle, ran, kept, made⟩ :=
      setOwner_makes unique child owner ⟨rest, whole⟩ rebound unowned apart enough
    exact ⟨_, addOwnedChild_gives rebound.hierarchy within (mem_everyone listed) unique
      (rebound.free unowned).1 (by rw [rebound.owned]; exact apart) (by omega) ran kept, made⟩

end Calls

theorem leaves_setOwner (unique : Function.Injective who.id) (bound : Nat) (child owner : Ref) :
    Leaves who (setOwner who bound child (some owner)) [⟨child, owner⟩] := by
  intro world after ⟨members, hierarchy⟩ ran
  obtain ⟨later, owned⟩ := setOwner_hierarchy hierarchy unique ran
  refine ⟨later, fun e other had => ?_, fun one other asked => ?_⟩
  · rcases setOwner_cases hierarchy ran with ⟨kept, _⟩ | ⟨_, unowned, _, middle, kept, rfl⟩
    · exact kept.owned ▸ had
    · rw [owned_attach ((kept.owners child).trans unowned), kept.owned]
      exact Or.inl had
  · cases List.mem_singleton.mp asked
    exact owned rfl

theorem leaves_addOwnedChild (unique : Function.Injective who.id) (bound : Nat) (child owner : Ref) :
    Leaves who (addOwnedChild who bound owner child) [⟨child, owner⟩] := by
  intro world after hierarchy ran
  cases bound with
  | zero => cases ran
  | succ bound =>
    unfold addOwnedChild at ran
    obtain ⟨loop, middle, searched, rest⟩ := Effect.bind_returned ran
    obtain ⟨rfl, _⟩ := isAncestor_finds searched
    split at rest
    · cases rest
    · obtain ⟨_, given, returned, last⟩ := Effect.bind_returned rest
      obtain ⟨⟨later, held⟩, kept, made⟩ :=
        leaves_setOwner unique bound child owner middle given hierarchy returned
      have owned : given.Owned child owner := made child owner (List.mem_singleton_self _)
      have there : who.id child ∈ (given.childrenOf owner).entityRefs :=
        ((held.complete owner).mem unique child).mpr ((held.linked owner child).mpr owned)
      have final : after = given.setOwnedChildren owner ((given.childrenOf owner).add who child) := by
        cases last
        rfl
      rw [EntityCollectionReference.add, if_pos there, setOwnedChildren_same] at final
      exact final ▸ ⟨⟨later, held⟩, kept, made⟩

end Rebound
end Brooklyn
