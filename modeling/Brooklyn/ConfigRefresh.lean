import Brooklyn.AppliedConfig
import Brooklyn.OwnershipReached
import Brooklyn.OwnershipSearches

/-!
What a refresh settles. The stale entities inherit something else than the full configuration of
their owner, but under no name that it has no value for, so putting all of it makes them equal.
A refreshed entity may leave its owned children stale, which are refreshed next.
-/

namespace Brooklyn

variable {Ref Id Object : Type}

section Past

/-- Nobody has become owned. -/
def SamePast (before after : World Ref Id) : Prop :=
  ∀ e, (after.entity e).previouslyOwned = (before.entity e).previouslyOwned

instance : Std.Refl (SamePast : World Ref Id → World Ref Id → Prop) := ⟨fun _ _ => rfl⟩

instance : IsTrans (World Ref Id) SamePast :=
  ⟨fun _ _ _ first second e => (second e).trans (first e)⟩

variable [DecidableEq Ref]

theorem samePast_setOwnedChildren (world : World Ref Id) (owner : Ref)
    (children : EntityCollectionReference Ref Id) :
    SamePast world (world.setOwnedChildren owner children) :=
  fun e => world.unchanged_setEntity owner e (·.previouslyOwned) rfl

theorem samePast_setOwner (world : World Ref Id) (child : Ref) (owner : Option Ref) :
    SamePast world (world.setOwner child owner) :=
  fun e => world.unchanged_setEntity child e (·.previouslyOwned) rfl

variable [DecidableEq Id] (who : Identity Ref Id)

theorem samePast_getOwnedChildren (e : Ref) : Effect.Moves SamePast (getOwnedChildren who e) := by
  unfold getOwnedChildren
  refine Effect.moves_bind (Effect.moves_read _) fun reference => ?_
  split
  · exact Effect.moves_pure _
  · unfold find
    refine Effect.moves_bind (Effect.moves_read _) fun _ => ?_
    refine Effect.moves_bind ?_ fun _ => Effect.moves_bind
      (Effect.moves_modify fun world => samePast_setOwnedChildren world e _) fun _ =>
        Effect.moves_pure _
    intro before out after ran
    rw [(resolveAll_ran who (fun _ _ found => by cases found) ran).1]
    exact refl before

theorem samePast_inspect (potentialDescendant : Option Ref) (bound : Nat)
    (inspected toinspect : List Ref) :
    Effect.Moves SamePast (inspect who potentialDescendant bound inspected toinspect) := by
  induction bound generalizing inspected toinspect with
  | zero => exact Effect.moves_diverge
  | succ bound ih =>
    unfold inspect
    split
    · exact Effect.moves_pure _
    · refine Effect.moves_bind (samePast_getOwnedChildren who _) fun children => ?_
      split
      · exact Effect.moves_pure _
      · exact Effect.moves_bind (samePast_getOwnedChildren who _) fun again => ih _ _

end Past

namespace Configured

section Views
variable (state : Configured Ref Id Object)

/-- The value that an entity holds itself. -/
def own (e : Ref) (name : String) : Option (ConfigValue Object) :=
  (state.config e).ownConfig.valueOf name

def inherited (e : Ref) (name : String) : Option (ConfigValue Object) :=
  (state.config e).inheritedConfig.valueOf name

/-- The value in the full configuration. -/
def full (e : Ref) (name : String) : Option (ConfigValue Object) :=
  (state.config e).getAllConfig.valueOf name

theorem full_eq (e : Ref) (name : String) :
    state.full e name = (state.own e name).or (state.inherited e name) := by
  unfold full EntityConfigMap.getAllConfig
  rw [ConfigMap.valueOf_putAll, ConfigMap.valueOf_putAll]
  exact congrArg _ (Option.or_none ..)

def Inherits (child owner : Ref) : Prop :=
  ∀ name, state.inherited child name = state.full owner name

/-- Under a name without a value nothing is inherited. -/
def CoveredBy (child owner : Ref) : Prop :=
  ∀ name, (state.inherited child name).isSome → (state.full owner name).isSome

theorem Inherits.covered {state : Configured Ref Id Object} {child owner : Ref}
    (inherits : state.Inherits child owner) : state.CoveredBy child owner :=
  fun name there => inherits name ▸ there

end Views

section TakeOver
variable [DecidableEq Ref] (state : Configured Ref Id Object) {owner e other : Ref}

/-- What `inheritFrom` makes of a state. -/
def takeOver (owner e : Ref) : Configured Ref Id Object :=
  state.changeConfig e (·.setInheritedConfig (state.config owner).getAllConfig)

theorem config_takeOver (owner e : Ref) : (state.takeOver owner e).config e =
    (state.config e).setInheritedConfig (state.config owner).getAllConfig :=
  Function.update_self ..

theorem config_takeOver_of_ne (different : other ≠ e) :
    (state.takeOver owner e).config other = state.config other :=
  Function.update_of_ne different _ _

theorem full_takeOver_of_ne (different : other ≠ e) (name : String) :
    (state.takeOver owner e).full other name = state.full other name := by
  rw [full, config_takeOver_of_ne state different, full]

theorem inherited_takeOver_of_ne (different : other ≠ e) (name : String) :
    (state.takeOver owner e).inherited other name = state.inherited other name := by
  rw [inherited, config_takeOver_of_ne state different, inherited]

theorem own_takeOver (owner e other : Ref) (name : String) :
    (state.takeOver owner e).own other name = state.own other name := by
  by_cases same : other = e
  · rw [same, own, config_takeOver]
    rfl
  · rw [own, config_takeOver_of_ne state same, own]

theorem inherited_takeOver (owner e : Ref) (name : String) :
    (state.takeOver owner e).inherited e name =
      (state.full owner name).or (state.inherited e name) := by
  rw [inherited, config_takeOver]
  exact ConfigMap.valueOf_putAll _ _ name

/-- A covered entity takes over the full configuration. -/
theorem inherits_takeOver (covered : state.CoveredBy e owner) (different : owner ≠ e) :
    (state.takeOver owner e).Inherits e owner := by
  intro name
  rw [inherited_takeOver, full_takeOver_of_ne state different]
  cases value : state.full owner name with
  | some _ => rfl
  | none =>
    have missing := covered name
    rw [value] at missing
    cases held : state.inherited e name with
    | none => rfl
    | some _ => exact absurd (missing (by rw [held]; rfl)) Bool.false_ne_true

end TakeOver

/-- Only stale entities differ from their owners. -/
structure Settling (who : Identity Ref Id) (members : Ref → LinkedSet Ref) (stale : Set Ref)
    (state : Configured Ref Id Object) : Prop where
  hierarchy : Hierarchy who state.world members
  covered : ∀ child owner, state.world.Owned child owner → state.CoveredBy child owner
  inherits : ∀ child owner, state.world.Owned child owner →
    child ∈ stale ∨ state.Inherits child owner

/-- Owners and the past stay, and so does what entities without an owner inherit. -/
structure Refreshed (who : Identity Ref Id) (before after : Configured Ref Id Object) : Prop where
  kept : Kept who before.world after.world
  past : SamePast before.world after.world
  unowned : ∀ e, before.world.ownerOf e = none →
    (after.config e).inheritedConfig = (before.config e).inheritedConfig

section Settle
variable {who : Identity Ref Id} {members : Ref → LinkedSet Ref} {stale : Set Ref}
  {state after : Configured Ref Id Object}

theorem Refreshed.refl (state : Configured Ref Id Object) : Refreshed who state state :=
  ⟨.refl _, fun _ => rfl, fun _ _ => rfl⟩

theorem Refreshed.trans {middle : Configured Ref Id Object} (first : Refreshed who state middle)
    (second : Refreshed who middle after) : Refreshed who state after :=
  ⟨first.kept.trans second.kept, fun e => (second.past e).trans (first.past e),
    fun e unowned => (second.unowned e ((first.kept.owners e).trans unowned)).trans
      (first.unowned e unowned)⟩

theorem Settling.mono {more : Set Ref} (settling : Settling who members stale state)
    (fewer : stale ⊆ more) : Settling who members more state :=
  ⟨settling.hierarchy, settling.covered,
    fun child owner owned => (settling.inherits child owner owned).imp_left (@fewer child)⟩

theorem Settling.kept (settling : Settling who members stale state) {world : World Ref Id}
    (kept : Kept who state.world world) :
    Settling who members stale { state with world := world } where
  hierarchy := settling.hierarchy.kept kept
  covered child owner owned := settling.covered child owner (kept.owned ▸ owned)
  inherits child owner owned := settling.inherits child owner (kept.owned ▸ owned)

theorem Settling.apart (settling : Settling who members stale state) {child owner : Ref}
    (owned : state.world.Owned child owner) : owner ≠ child := by
  rintro rfl
  exact settling.hierarchy.acyclic owner (.single owned)

variable [DecidableEq Ref]

/-- The owned children of the entity become stale, but stay covered. -/
theorem settling_takeOver (settling : Settling who members stale state) {e owner : Ref}
    (owned : state.world.Owned e owner) :
    Settling who members (stale \ {e} ∪ {child | child ∈ members e}) (state.takeOver owner e) := by
  have taken := inherits_takeOver state (settling.covered e owner owned) (settling.apart owned)
  have unchanged : owner ≠ e := settling.apart owned
  have grows (name : String) (there : (state.full e name).isSome) :
      ((state.takeOver owner e).full e name).isSome := by
    rw [full_eq, own_takeOver, taken name, full_takeOver_of_ne state unchanged]
    rw [full_eq] at there
    cases held : state.own e name with
    | some _ => rfl
    | none =>
      rw [held] at there
      exact settling.covered e owner owned name there
  refine ⟨settling.hierarchy, fun child other below => ?_, fun child other below => ?_⟩
  · by_cases here : child = e
    · subst here
      obtain rfl : owner = other := Option.some.inj (owned.symm.trans below)
      exact taken.covered
    · intro name there
      rw [inherited_takeOver_of_ne state here] at there
      have before := settling.covered child other below name there
      by_cases parent : other = e
      · subst parent
        exact grows name before
      · rw [full_takeOver_of_ne state parent]
        exact before
  · by_cases here : child = e
    · subst here
      obtain rfl : owner = other := Option.some.inj (owned.symm.trans below)
      exact Or.inr taken
    · by_cases parent : other = e
      · subst parent
        exact Or.inl (Or.inr ((settling.hierarchy.linked other child).mpr below))
      · refine (settling.inherits child other below).imp (fun old => Or.inl ⟨old, here⟩)
          fun inherits name => ?_
        rw [inherited_takeOver_of_ne state here, full_takeOver_of_ne state parent]
        exact inherits name

end Settle

section Refresh
variable [DecidableEq Ref] [DecidableEq Id] {who : Identity Ref Id}
  {members : Ref → LinkedSet Ref}

omit [DecidableEq Ref] [DecidableEq Id] in
/-- The rounds of the loop over owned children. -/
theorem refreshAll_settles {refresh : Ref → ConfigOperation Ref Id Object Unit}
    (settles : ∀ {state after : Configured Ref Id Object} {stale : Set Ref} {e owner : Ref}
      {out : Except (ConfigFault Ref) Unit}, Settling who members stale state →
      state.world.Owned e owner → refresh e state = some (out, after) →
      out = .ok () ∧ Settling who members (stale \ {e}) after ∧ Refreshed who state after)
    (children : List Ref) {state after : Configured Ref Id Object} {stale : Set Ref}
    {out : Except (ConfigFault Ref) Unit} (settling : Settling who members stale state)
    (owned : ∀ child ∈ children, ∃ owner, state.world.Owned child owner)
    (ran : Effect.forEach children refresh state = some (out, after)) :
    out = .ok () ∧ Settling who members (stale \ {child | child ∈ children}) after ∧
      Refreshed who state after := by
  induction children generalizing state stale with
  | nil =>
    cases ran
    exact ⟨rfl, settling.mono fun child old => ⟨old, List.not_mem_nil⟩, .refl _⟩
  | cons child rest ih =>
    obtain ⟨owner, has⟩ := owned child List.mem_cons_self
    rcases Effect.bind_cases ran with ⟨fault, thrown, _⟩ | ⟨_, middle, first, later⟩
    · cases (settles settling has thrown).1
    · obtain ⟨-, settled, refreshed⟩ := settles settling has first
      have others : ∀ other ∈ rest, ∃ owner, middle.world.Owned other owner :=
        fun other member => refreshed.kept.owned ▸ owned other (List.mem_cons_of_mem _ member)
      obtain ⟨returned, all, last⟩ := ih settled others later
      refine ⟨returned, all.mono ?_, refreshed.trans last⟩
      rintro other ⟨⟨old, different⟩, absent⟩
      exact ⟨old, fun member => (List.mem_cons.mp member).elim different absent⟩

theorem refresh_settles (bound : Nat) :
    (∀ {state after : Configured Ref Id Object} {stale : Set Ref} {e owner : Ref}
      {out : Except (ConfigFault Ref) Unit}, Settling who members stale state →
      state.world.Owned e owner → refreshInheritedConfig who bound e state = some (out, after) →
      out = .ok () ∧ Settling who members (stale \ {e}) after ∧ Refreshed who state after) ∧
    ∀ {state after : Configured Ref Id Object} {stale : Set Ref} {e : Ref}
      {out : Except (ConfigFault Ref) Unit}, Settling who members stale state →
      refreshInheritedConfigOfChildren who bound e state = some (out, after) →
      out = .ok () ∧ Settling who members (stale \ {child | child ∈ members e}) after ∧
        Refreshed who state after := by
  induction bound with
  | zero =>
    constructor
    · rintro - - - - - - - - ⟨⟩
    · rintro - - - - - - ⟨⟩
  | succ bound ih =>
    obtain ⟨ofEntity, ofChildren⟩ := ih
    constructor
    · intro state after stale e owner out settling owned ran
      have rest : refreshInheritedConfigOfChildren who bound e (state.takeOver owner e) =
          some (out, after) := by
        unfold refreshInheritedConfig at ran
        rw [Effect.bind_apply _ (show ownership (getOwner e) state = some (.ok (some owner), state)
          by rw [← show state.world.ownerOf e = some owner from owned]; rfl)] at ran
        exact ran
      obtain ⟨returned, settled, refreshed⟩ := ofChildren (settling_takeOver settling owned) rest
      have first : Refreshed who state (state.takeOver owner e) := by
        refine ⟨.refl _, fun _ => rfl, fun other unowned =>
          congrArg _ (config_takeOver_of_ne state ?_)⟩
        rintro rfl
        rw [show state.world.ownerOf other = some owner from owned] at unowned
        cases unowned
      refine ⟨returned, settled.mono ?_, first.trans refreshed⟩
      rintro child ⟨old | new, absent⟩
      · exact old
      · exact absurd new absent
    · intro state after stale e out settling ran
      obtain ⟨world, got, kept⟩ := getOwnedChildren_gets settling.hierarchy e
      have past := samePast_getOwnedChildren who e _ _ _ got
      have rest : Effect.forEach (members e).elements (refreshInheritedConfig who bound)
          { state with world := world } = some (out, after) := by
        unfold refreshInheritedConfigOfChildren at ran
        rw [Effect.bind_apply _ (show ownership (getOwnedChildren who e) state =
          some (.ok (members e).elements, { state with world := world }) by
            unfold ownership; rw [got])] at ran
        exact ran
      have owned : ∀ child ∈ (members e).elements, ∃ owner, world.Owned child owner :=
        fun child member =>
          ⟨e, kept.owned ▸ (settling.hierarchy.linked e child).mp member⟩
      obtain ⟨returned, settled, refreshed⟩ :=
        refreshAll_settles ofEntity _ (settling.kept kept) owned rest
      have first : Refreshed who state { state with world := world } :=
        ⟨kept, past, fun _ _ => rfl⟩
      exact ⟨returned, settled, first.trans refreshed⟩

end Refresh

end Configured
end Brooklyn
