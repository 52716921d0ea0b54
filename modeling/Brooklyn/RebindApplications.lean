import Brooklyn.ManageAtomicity
import Brooklyn.RebindEntities
import Brooklyn.RebindLocations

/-!
The end of rebinding: the applications are managed, each with all that is below it. An
application that is below an earlier one is managed by then and passed over; one that is above
an earlier one cannot be managed, since a part of its tree is already.
-/

namespace Brooklyn
open Acyclicity Relation Relinking Mementos PreorderWalk

variable {Ref Place Id Rest : Type} {kinds : LocationKinds Place Id}

section Frames
variable {who : Identity Ref Id} {before after : World Ref Id}
  {members : Ref → LinkedSet Ref}

/-- What managing leaves alone: owners, owned children, and that the management runs. -/
def World.frame (world : World Ref Id) :
    (Ref → Option Ref × EntityCollectionReference Ref Id) × Bool :=
  (fun e => ((world.entity e).owner, (world.entity e).ownedChildren), world.management.running)

theorem owned_of_same (same : Same World.frame before after) : after.Owned = before.Owned := by
  funext child owner
  exact congrArg (fun frame => (frame.1 child).1 = some owner) same

theorem Hierarchy.same (hierarchy : Hierarchy who before members)
    (same : Same World.frame before after) : Hierarchy who after members where
  complete owner := by
    have children : after.childrenOf owner = before.childrenOf owner :=
      congrArg (fun frame => (frame.1 owner).2) same
    rw [children]
    exact hierarchy.complete owner
  linked := by
    rw [owned_of_same same]
    exact hierarchy.linked
  acyclic := by
    rw [owned_of_same same]
    exact hierarchy.acyclic

variable [DecidableEq Ref]

theorem frame_changeSupport (world : World Ref Id) (e : Ref)
    (change : EntityManagementSupport → EntityManagementSupport) :
    (world.changeSupport e change).frame = world.frame := by
  refine Prod.ext (funext fun other => ?_) rfl
  unfold World.frame World.changeSupport
  dsimp only
  rw [World.entity_setEntity]
  split
  · next same => rw [same]
  · rfl

theorem same_setMode (e : Ref) (mode : NonDeploymentMode) :
    Effect.Moves (Same World.frame) (setMode e mode : Operation Ref Id Unit) := by
  refine Effect.moves_bind (Effect.moves_read _) fun support => ?_
  cases support.nonDeploymentManagementContext with
  | none => exact Effect.moves_throw _
  | some _ => exact Effect.moves_modify fun world => frame_changeSupport world e _

theorem same_started (it : Ref) :
    Effect.Moves (Same World.frame) (started it : Operation Ref Id Bool) := by
  refine Effect.moves_bind ?_ fun _ => Effect.moves_pure _
  refine Effect.moves_bind (Effect.moves_modify fun _ => rfl) fun _ => ?_
  refine Effect.moves_bind (same_setMode it _) fun _ => ?_
  exact Effect.moves_modify fun world => frame_changeSupport world it _

variable [DecidableEq Id]

theorem same_starting (it : Ref) : Effect.Moves (Same World.frame) (starting who it) := by
  refine Effect.moves_bind ?_ fun _ => ?_
  · refine Effect.moves_bind (Effect.moves_modify fun _ => rfl) fun _ => ?_
    refine Effect.moves_bind (same_setMode it _) fun _ => ?_
    exact Effect.moves_modify fun world => frame_changeSupport world it _
  · refine Effect.moves_bind (Effect.moves_read _) fun old => ?_
    refine Effect.moves_bind (Effect.moves_modify fun _ => rfl) fun _ => ?_
    cases old with
    | none => exact Effect.moves_bind (Effect.moves_modify fun _ => rfl) fun _ => Effect.moves_pure _
    | some other =>
      dsimp only
      split
      · exact Effect.moves_pure _
      · exact Effect.moves_throw _

theorem same_manage (bound : Nat) (e : Ref) :
    Effect.Moves (Same World.frame) (manage who bound e) := by
  refine Effect.moves_bind (Effect.moves_read _) fun managed => ?_
  cases managed with
  | true => exact Effect.moves_pure _
  | false =>
    refine Effect.moves_bind (moves_recursively ?_ bound e) fun _ =>
      moves_recursively same_started bound e
    exact same_starting

end Frames

section Managing
variable {who : Identity Ref Id} {before world : World Ref Id}
  {members : Ref → LinkedSet Ref} {managed : Ref → Prop} {bound : Nat} {e : Ref} {visited : List Ref}

/-- An owned child is found in the cache. -/
theorem Hierarchy.looks (hierarchy : Hierarchy who world members) {owner child : Ref}
    (owned : world.Owned child owner) : who.id child ∈ world.references owner ∧
      world.lookup owner (who.id child) = some child := by
  have complete := hierarchy.complete owner
  have member : child ∈ (members owner).elements := (hierarchy.linked owner child).mpr owned
  have named : who.id child ∈ (world.childrenOf owner).entityRefs.elements :=
    complete.ids ▸ List.mem_map_of_mem member
  refine ⟨named, ?_⟩
  rcases complete.filled with there | nobody
  · obtain ⟨entities, cache⟩ := Option.isSome_iff_exists.mp there
    have peeked : (world.entity owner).ownedChildren.peek (who.id child) = some child := by
      unfold EntityCollectionReference.peek
      change (world.childrenOf owner).entities.bind _ = _
      rw [cache]
      exact (complete.cached entities cache).found child member
    unfold World.lookup
    rw [peeked]
    rfl
  · rw [nobody] at named
    exact absurd named List.not_mem_nil

theorem Hierarchy.named (hierarchy : Hierarchy who world members) {owner : Ref} {id : Id}
    (named : id ∈ world.references owner) : ∃ child, who.id child = id ∧ world.Owned child owner := by
  have listed : id ∈ (members owner).elements.map who.id := (hierarchy.complete owner).ids ▸ named
  obtain ⟨child, member, rfl⟩ := List.mem_map.mp listed
  exact ⟨child, rfl, (hierarchy.linked owner child).mp member⟩

theorem Hierarchy.down (hierarchy : Hierarchy who world members) :
    Down world.lookup world.references = Function.swap world.Owned := by
  funext owner child
  refine propext ⟨fun ⟨id, named, found⟩ => ?_, fun owned => ?_⟩
  · obtain ⟨other, rfl, owned⟩ := hierarchy.named named
    cases found.symm.trans (hierarchy.looks owned).2
    exact owned
  · exact ⟨who.id child, hierarchy.looks owned⟩

/-- The walk from an entity comes once to each entity that is at or below it. -/
theorem Hierarchy.walks (hierarchy : Hierarchy who world members)
    {everyone : List Ref} (within : Within world everyone) (enough : everyone.length + 1 < bound)
    (e : Ref) : ∃ visited, walk world.lookup world.references bound e = some visited ∧
      visited.Nodup ∧ ∀ other, other ∈ visited ↔ ReflTransGen world.Owned other e := by
  have acyclic (node : Ref) : ¬ TransGen (Down world.lookup world.references) node node := by
    rw [hierarchy.down, transGen_swap]
    exact hierarchy.acyclic node
  have closed (owner child : Ref) (down : Down world.lookup world.references owner child) :
      child ∈ e :: everyone := by
    rw [hierarchy.down] at down
    exact List.mem_cons_of_mem _ (within child owner down).1
  have ends : ∃ visited, walk world.lookup world.references bound e = some visited :=
    walk_ends acyclic closed List.mem_cons_self enough
  obtain ⟨visited, walked⟩ := ends
  refine ⟨visited, walked, ?_, fun other => ?_⟩
  · refine nodup_walk acyclic ?_ ?_
      (fun owner => (world.entity owner).ownedChildren.entityRefs.distinct)
      walked
    · intro node other child down downToo
      rw [hierarchy.down] at down downToo
      exact Option.some.inj (down.symm.trans downToo)
    · intro node label named other namedToo child found foundToo
      obtain ⟨one, rfl, owned⟩ := hierarchy.named named
      obtain ⟨two, rfl, ownedToo⟩ := hierarchy.named namedToo
      cases found.symm.trans (hierarchy.looks owned).2
      cases foundToo.symm.trans (hierarchy.looks ownedToo).2
      rfl
  · rw [mem_walk walked, hierarchy.down, reflTransGen_swap]

/-- Of a hierarchy, just these entities are managed: they are registered and deployed. -/
structure Tending (who : Identity Ref Id) (before : World Ref Id) (managed : Ref → Prop)
    (world : World Ref Id) : Prop where
  frame : Same World.frame before world
  running : world.management.running = true
  getEntity : ∀ id e, world.getEntity id = some e ↔ managed e ∧ who.id e = id
  undeployed : ∀ e, world.undeployed e = true ↔ ¬ managed e

theorem Tending.isManaged_iff (tending : Tending who before managed world)
    (unique : Function.Injective who.id) (e : Ref) : world.isManaged who e = true ↔ managed e := by
  rw [World.isManaged, tending.running, Bool.true_and, Option.isSome_iff_exists]
  constructor
  · rintro ⟨other, found⟩
    obtain ⟨there, same⟩ := (tending.getEntity _ _).mp found
    exact unique same ▸ there
  · intro there
    exact ⟨e, (tending.getEntity _ _).mpr ⟨there, rfl⟩⟩

variable [DecidableEq Ref] [DecidableEq Id]

/-- What a call of `manage` does where nothing stands in the way. -/
structure Manages (who : Identity Ref Id) (before after : World Ref Id) (visited : List Ref) :
    Prop where
  running : after.management.running = before.management.running
  getEntity : ∀ id e, after.getEntity id = some e ↔
    before.getEntity id = some e ∨ (e ∈ visited ∧ who.id e = id)
  undeployed : ∀ e, after.undeployed e = true ↔ before.undeployed e = true ∧ e ∉ visited

/-- The first pass, with the entities of `todo` still to come. -/
structure Registering (who : Identity Ref Id) (before world : World Ref Id)
    (visited todo : List Ref) : Prop where
  begun : Begun who before world visited
  undeployed : world.undeployed = before.undeployed
  known : ∀ id e, before.getEntity id = some e → world.getEntity id = some e
  registered : ∀ e ∈ visited, e ∉ todo → world.getEntity (who.id e) = some e

theorem registering_passes (clear : Clear who before visited)
    (walked : walk before.lookup before.references bound e = some visited) :
    ∃ middle, recursively (starting who) bound e before = some (.ok (), middle) ∧
      Registering who before middle visited [] := by
  refine recursively_follows (fun todo world => Registering who before world visited todo)
    (· ∈ visited) [] (fun _ _ owner ready => congrFun ready.begun.keeps.references owner)
    (fun _ _ _ _ ready member named => begun_lookup clear ready.begun member named)
    (fun it todo world member ready => ?_) walked (fun _ member => member)
    ⟨⟨Keeps.refl before, fun _ => Or.inl rfl⟩, rfl, fun _ _ found => found, fun other member absent =>
      absurd (List.mem_append_left [] member) absent⟩
  obtain ⟨value, after, ran, registers⟩ := starting_registers
    ((congrFun ready.undeployed it).trans (clear.undeployed it member))
    (begun_unclaimed clear ready.begun member)
  refine ⟨value, after, ran, begun_registers ready.begun member registers,
    registers.undeployed.trans ready.undeployed,
    fun id other found => registers.known (ready.known id other found), fun other there absent => ?_⟩
  by_cases same : other = it
  · subst same
    rw [registers.getEntity, if_pos rfl]
  · refine registers.known (ready.registered other there fun listed => ?_)
    exact (List.mem_cons.mp listed).elim same absent

/-- The second pass. -/
structure Settling (middle world : World Ref Id) (visited todo : List Ref) : Prop where
  keeps : Keeps middle world
  management : world.management = middle.management
  distinct : todo.Nodup
  undeployed : ∀ e, world.undeployed e = true ↔
    middle.undeployed e = true ∧ (e ∈ visited → e ∈ todo)

omit [DecidableEq Id] in
theorem settling_passes {middle : World Ref Id} (clear : Clear who before visited)
    (begun : Begun who before middle visited) (ready : ∀ e ∈ visited, middle.undeployed e = true)
    (walked : walk before.lookup before.references bound e = some visited) :
    ∃ after, recursively started bound e middle = some (.ok (), after) ∧
      Settling middle after visited [] := by
  refine recursively_follows (fun todo world => Settling middle world visited todo ∧ todo ⊆ visited)
    (· ∈ visited) []
    (fun _ _ owner settling => congrFun (begun.keeps.trans settling.1.keeps).references owner)
    (fun _ world owner id settling member named => ?_) (fun it todo world member settling => ?_) walked
    (fun _ member => member) ⟨⟨Keeps.refl middle, rfl, ?_, fun other => ?_⟩, ?_⟩
    |>.imp fun after passed => ⟨passed.1, passed.2.1⟩
  · rw [← begun_lookup clear begun member named, settling.1.keeps.lookup, World.getEntity,
      settling.1.management]
    rfl
  · obtain ⟨settling, among⟩ := settling
    obtain ⟨absent, rest⟩ := List.nodup_cons.mp settling.distinct
    have undeployed := (settling.undeployed it).mpr ⟨ready it member, fun _ => List.mem_cons_self⟩
    refine ⟨true, _, started_settles undeployed, ⟨settling.keeps.trans keeps_settled,
      settling.management, rest, fun other => ?_⟩,
      fun other later => among (List.mem_cons_of_mem it later)⟩
    rw [undeployed_settled]
    by_cases same : other = it
    · subst same
      rw [if_pos rfl]
      exact iff_of_false Bool.false_ne_true fun both => absent (both.2 member)
    · rw [if_neg same, settling.undeployed]
      simp [same]
  · rw [List.append_nil]
    exact List.Nodup.of_map who.id clear.distinct
  · simp
  · simp

theorem manage_manages (unmanaged : before.isManaged who e = false)
    (walked : walk before.lookup before.references bound e = some visited)
    (clear : Clear who before visited) :
    ∃ after, manage who bound e before = some (.ok (), after) ∧ Manages who before after visited := by
  obtain ⟨middle, first, registering⟩ := registering_passes clear walked
  have ready (other : Ref) (member : other ∈ visited) : middle.undeployed other = true :=
    (congrFun registering.undeployed other).trans (clear.undeployed other member)
  obtain ⟨after, second, settling⟩ := settling_passes clear registering.begun ready walked
  have ran : manage who bound e before = some (.ok (), after) := by
    rw [manage_passes unmanaged, Effect.bind_apply _ first, second]
  refine ⟨after, ran, ⟨?_, fun id other => ?_, fun other => ?_⟩⟩
  · exact congrArg Prod.snd (same_manage bound e before _ after ran)
  · rw [World.getEntity, settling.management]
    constructor
    · intro found
      rcases registering.begun.getEntity id with same | ⟨registered, member, names, also⟩
      · exact Or.inl (same.symm.trans found)
      · cases found.symm.trans also
        exact Or.inr ⟨member, names⟩
    · rintro (found | ⟨member, rfl⟩)
      · exact registering.known id other found
      · exact registering.registered other member List.not_mem_nil
  · rw [settling.undeployed, registering.undeployed]
    simp

/-- An entity that is not managed yet can be managed exactly if nothing below it is. -/
theorem Tending.manage_iff (tending : Tending who before managed world)
    (hierarchy : Hierarchy who before members) (unique : Function.Injective who.id)
    {everyone : List Ref} (within : Within before everyone) (enough : everyone.length + 1 < bound)
    (fresh : ¬ managed e) :
    ((∃ after, manage who bound e world = some (.ok (), after)) ↔
      ∀ other, ReflTransGen before.Owned other e → ¬ managed other) ∧
    ∀ after, manage who bound e world = some (.ok (), after) →
      Tending who before (fun other => managed other ∨ ReflTransGen before.Owned other e) after := by
  have same := owned_of_same tending.frame
  have hierarchyNow := hierarchy.same tending.frame
  obtain ⟨visited, walked, distinct, below⟩ :=
    hierarchyNow.walks (by rw [Within, same]; exact within) enough e
  rw [same] at below
  have unmanaged : world.isManaged who e = false := by
    rw [Bool.eq_false_iff]
    exact fun there => fresh ((tending.isManaged_iff unique e).mp there)
  have clear (free : ∀ other, ReflTransGen before.Owned other e → ¬ managed other) :
      Clear who world visited := by
    refine ⟨fun other member => (tending.undeployed other).mpr (free other ((below other).mp member)),
      fun other member found there => ?_, (List.nodup_map_iff unique).mpr distinct,
      fun owner member id named unknown => ?_⟩
    · exact unique ((tending.getEntity _ _).mp there).2
    · obtain ⟨child, rfl, owned⟩ := hierarchyNow.named named
      rw [(hierarchyNow.looks owned).2] at unknown
      cases unknown
  have free (after : World Ref Id) (returned : manage who bound e world = some (.ok (), after)) :
      ∀ other, ReflTransGen before.Owned other e → ¬ managed other := by
    obtain ⟨part, again, clear⟩ := clear_of_returned unmanaged returned
    cases walked.symm.trans again
    exact fun other up => (tending.undeployed other).mp (clear.undeployed other ((below other).mpr up))
  refine ⟨⟨fun ends => ends.elim free, fun free => ?_⟩, fun after returned => ?_⟩
  · obtain ⟨after, returned, _⟩ := manage_manages unmanaged walked (clear free)
    exact ⟨after, returned⟩
  · obtain ⟨other, again, manages⟩ := manage_manages unmanaged walked (clear (free after returned))
    cases returned.symm.trans again
    refine ⟨(same_manage bound e world _ after returned).trans tending.frame,
      manages.running.trans tending.running, fun id other => ?_, fun other => ?_⟩
    · rw [manages.getEntity, tending.getEntity, below, or_and_right]
    · rw [manages.undeployed, tending.undeployed, below, not_or]

end Managing

/-- Every application is at or below an earlier one, or above none of them. -/
def AncestorsFirst (owned : Ref → Ref → Prop) (apps : List Ref) : Prop :=
  ∀ earlier app later, apps = earlier ++ app :: later →
    (∃ other ∈ earlier, ReflTransGen owned app other) ∨
      ∀ other ∈ earlier, ¬ ReflTransGen owned other app

theorem ancestorsFirst_snoc {owned : Ref → Ref → Prop} {apps : List Ref} {app : Ref}
    (ordered : AncestorsFirst owned apps) (last : (∃ other ∈ apps, ReflTransGen owned app other) ∨
      ∀ other ∈ apps, ¬ ReflTransGen owned other app) : AncestorsFirst owned (apps ++ [app]) := by
  intro earlier one later split
  rcases List.eq_nil_or_concat later with rfl | ⟨front, end_, rfl⟩
  · obtain ⟨rfl, same⟩ := List.append_inj' split rfl
    cases same
    exact last
  · rw [List.concat_eq_append, ← List.cons_append, ← List.append_assoc] at split
    exact ordered earlier one front (List.append_inj' split rfl).1

section Applications
open Rebinding
variable {who : Identity Ref Id} {before world : World Ref Id}
  {members : Ref → LinkedSet Ref} {everyone done : List Ref} {bound : Nat}

/-- The entities at or below one of the applications. -/
def Beneath (owned : Ref → Ref → Prop) (apps : List Ref) (e : Ref) : Prop :=
  ∃ app ∈ apps, ReflTransGen owned e app

theorem beneath_snoc (owned : Ref → Ref → Prop) (apps : List Ref) (app : Ref) :
    Beneath owned (apps ++ [app]) =
      fun e => Beneath owned apps e ∨ ReflTransGen owned e app := by
  funext e
  simp [Beneath, or_and_right, exists_or]

/-- What is below two applications shows which of them is above the other. -/
theorem free_iff (single : ∀ child owner other, before.Owned child owner →
      before.Owned child other → owner = other) {app : Ref} (fresh : ¬ Beneath before.Owned done app) :
    (∀ other, ReflTransGen before.Owned other app → ¬ Beneath before.Owned done other) ↔
      ∀ other ∈ done, ¬ ReflTransGen before.Owned other app := by
  constructor
  · exact fun free other member up => free other up ⟨other, member, .refl⟩
  · rintro above other up ⟨top, member, way⟩
    have unique : Relator.RightUnique before.Owned := fun child owner other => single child owner other
    rcases ReflTransGen.total_of_right_unique unique up way with higher | lower
    · exact fresh ⟨top, member, higher⟩
    · exact above top member lower

variable [DecidableEq Ref] {links : List (Link Ref)} {state after : Rebinding Ref Id kinds}

theorem Rebound.tending (rebound : Rebound who links world) :
    Tending who world (Beneath world.Owned []) world := by
  have nobody (e : Ref) : ¬ Beneath world.Owned [] e := by simp [Beneath]
  have management : world.management = World.initial.management := congrArg (·.1) rebound.managing
  refine ⟨rfl, by rw [management]; rfl, fun id e => ?_, fun e => ?_⟩
  · rw [World.getEntity, management]
    exact iff_of_false (fun found => by cases found) fun both => nobody e both.1
  · have undeployed : world.undeployed e = (World.initial : World Ref Id).undeployed e :=
      congrArg (fun managing => (managing.2.2 e).nonDeploymentManagementContext.isSome)
        rebound.managing
    rw [undeployed]
    exact iff_of_true rfl (nobody e)

variable [DecidableEq Id]

theorem Tending.application (tending : Tending who before (Beneath before.Owned done) world)
    (hierarchy : Hierarchy who before members) (unique : Function.Injective who.id)
    (within : Within before everyone) (enough : everyone.length + 1 < bound) (app : Ref) :
    ((∃ after, manage who bound app world = some (.ok (), after)) ↔
      (∃ other ∈ done, ReflTransGen before.Owned app other) ∨
        ∀ other ∈ done, ¬ ReflTransGen before.Owned other app) ∧
    ∀ after, manage who bound app world = some (.ok (), after) →
      Tending who before (Beneath before.Owned (done ++ [app])) after := by
  rw [beneath_snoc]
  by_cases there : Beneath before.Owned done app
  · have passed := manage_managed bound ((tending.isManaged_iff unique app).mpr there)
    refine ⟨iff_of_true ⟨world, passed⟩ (Or.inl there), fun after returned => ?_⟩
    cases passed.symm.trans returned
    have already : (fun e => Beneath before.Owned done e ∨ ReflTransGen before.Owned e app) =
        Beneath before.Owned done := by
      funext e
      refine propext (or_iff_left_of_imp fun up => ?_)
      obtain ⟨top, member, way⟩ := there
      exact ⟨top, member, up.trans way⟩
    rw [already]
    exact tending
  · obtain ⟨returns, leaves⟩ := tending.manage_iff hierarchy unique within enough there
    have single (child owner other : Ref) (one : before.Owned child owner)
        (two : before.Owned child other) : owner = other := Option.some.inj (one.symm.trans two)
    refine ⟨returns.trans ((free_iff single there).trans (or_iff_right there).symm), leaves⟩

/-- Each application is known, and none comes after one that is below it. -/
def Ordered (context : RebindContextImpl Ref Place Id) (owned : Ref → Ref → Prop) (ids : List Id) :
    Prop :=
  (∀ id ∈ ids, (context.getEntity id).isSome) ∧
    AncestorsFirst owned (ids.filterMap context.getEntity)

/-- Of a state, just the applications and what is below them are managed. -/
def Attending (who : Identity Ref Id) (context : RebindContextImpl Ref Place Id)
    (state : Rebinding Ref Id kinds) (ids : List Id) (after : Rebinding Ref Id kinds) : Prop :=
  ∃ ownership, after = { state with ownership } ∧ Tending who state.ownership
    (Beneath state.ownership.Owned (ids.filterMap context.getEntity)) ownership

theorem manageApplications_iff (context : RebindContextImpl Ref Place Id)
    (hierarchy : Hierarchy who state.ownership members) (unique : Function.Injective who.id)
    (within : Within state.ownership everyone) (enough : everyone.length + 1 < bound)
    (start : Tending who state.ownership (Beneath state.ownership.Owned []) state.ownership)
    (ids : List Id) :
    ((∃ after, RebindManagerImpl.manageApplications who bound context ids state =
        some (.ok (), after)) ↔ Ordered context state.ownership.Owned ids) ∧
      ∀ after, RebindManagerImpl.manageApplications who bound context ids state =
        some (.ok (), after) → Attending who context state ids after := by
  have known_snoc (done : List Id) {id : Id} {app : Ref} (known : context.getEntity id = some app) :
      (done ++ [id]).filterMap context.getEntity = done.filterMap context.getEntity ++ [app] := by
    simp [known]
  have managed (after : Rebinding Ref Id kinds)
      (returned : RebindManagerImpl.manageApplications who bound context ids state =
        some (.ok (), after)) :
      Attending who context state ids after ∧ Ordered context state.ownership.Owned ids := by
    refine Effect.forEach_kept (fun done reached => Attending who context state done reached ∧
        Ordered context state.ownership.Owned done)
      ⟨⟨state.ownership, rfl, start⟩, fun _ member => absurd member List.not_mem_nil,
        fun _ _ _ split => by
        simp at split⟩ (fun done id reached next member so_far ran => ?_) returned
    obtain ⟨⟨ownership, rfl, tending⟩, earlier, ordered⟩ := so_far
    cases known : context.getEntity id with
    | none =>
      rw [known] at ran
      cases ran
    | some app =>
      rw [known] at ran
      obtain ⟨changed, returned, rfl⟩ := Effect.embed_ok ran
      obtain ⟨returns, leaves⟩ := tending.application hierarchy unique within enough app
      unfold Attending Ordered
      rw [known_snoc done known]
      refine ⟨⟨changed, rfl, leaves changed returned⟩, fun other there => ?_,
        ancestorsFirst_snoc ordered (returns.mp ⟨changed, returned⟩)⟩
      rcases List.mem_append.mp there with before | last
      · exact earlier other before
      · rw [List.mem_singleton.mp last, known]
        rfl
  refine ⟨⟨fun ⟨after, returned⟩ => (managed after returned).2, fun ⟨registered, ordered⟩ => ?_⟩,
    fun after returned => (managed after returned).1⟩
  refine (Effect.forEach_returns (Attending who context state) ⟨state.ownership, rfl, start⟩
    fun done id rest reached split so_far => ?_).imp fun after ran => ran.1
  obtain ⟨ownership, rfl, tending⟩ := so_far
  obtain ⟨app, known⟩ := Option.isSome_iff_exists.mp
    (registered id (split ▸ List.mem_append_right _ List.mem_cons_self))
  obtain ⟨returns, leaves⟩ := tending.application hierarchy unique within enough app
  obtain ⟨changed, returned⟩ := returns.mpr (ordered _ app (rest.filterMap context.getEntity) (by
    rw [split, List.filterMap_append, List.filterMap_cons, known]))
  unfold Attending
  rw [known, known_snoc done known]
  exact ⟨_, Effect.embed_returned returned, changed, rfl, leaves changed returned⟩

end Applications

section Rebinding
variable [DecidableEq Ref] [DecidableEq Place] [DecidableEq Id] {who : Identity Ref Id}
  {isGroup : Ref → Bool} {flags : Mementos.LocationMemento Id Rest → LocationReferenceFlags Id}
  {newEntity : Mementos.EntityMemento Id Rest → Ref}
  {newLocation : Mementos.LocationMemento Id Rest → Place}
  {memento : BrooklynMementoImpl Id Rest} {bound : Nat}

theorem Reconstructed.manages {context : RebindContextImpl Ref Place Id}
    {mementos : List (Mementos.EntityMemento Id Rest)} {state : Rebinding Ref Id kinds}
    (reconstructed : Reconstructed who context mementos state) (unique : Function.Injective who.id)
    (enough : (everyone (context.ownerLinks mementos)).length + 1 < bound) (ids : List Id) :
    ((∃ after, RebindManagerImpl.manageApplications who bound context ids state =
        some (.ok (), after)) ↔ Ordered context (context.Owns mementos) ids) ∧
      ∀ after, RebindManagerImpl.manageApplications who bound context ids state =
          some (.ok (), after) → after.tree = state.tree ∧ context.Restored mementos who after ∧
        ∀ e, after.ownership.isManaged who e = true ↔
          Beneath (context.Owns mementos) (ids.filterMap context.getEntity) e := by
  have rebound := reconstructed.ownership
  have managed := manageApplications_iff context rebound.hierarchy unique
    (rebound.within (List.prefix_refl _)) enough rebound.tending ids
  unfold Attending at managed
  rw [rebound.owned, context.asked_ownerLinks] at managed
  refine ⟨managed.1, fun after returned => ?_⟩
  obtain ⟨ownership, rfl, tending⟩ := managed.2 after returned
  exact ⟨rfl, restored_of_links (rebound.hierarchy.same tending.frame) reconstructed.groups
    reconstructed.getLocations, tending.isManaged_iff unique⟩

end Rebinding

end Brooklyn
