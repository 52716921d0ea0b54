import Brooklyn.ConfigRefresh
import Brooklyn.OwnershipHierarchy

/-!
Config inheritance over runs of `setOwner`, `addOwnedChild` and `setConfig`. `setOwner` does not
refresh the owned children of the entity that it attaches, and `setInheritedConfig` only puts, so
what an owner has lost stays inherited. Without these two every owned entity inherits the full
configuration of its owner.
-/

namespace Brooklyn.Configured
open Acyclicity Relation

variable {Ref Id Object Value : Type} [DecidableEq Ref] {who : Identity Ref Id}
  {state after : Configured Ref Id Object}

section Ownership

omit [DecidableEq Ref] in
theorem ownership_ran {operation : Operation Ref Id Value}
    {out : Except (ConfigFault Ref) Value}
    (ran : ownership operation state = some (out, after)) :
    after = { state with world := after.world } ∧
      ((∃ fault, operation state.world = some (.error fault, after.world) ∧
          out = .error (.ownership fault)) ∨
        ∃ value, operation state.world = some (.ok value, after.world) ∧ out = .ok value) := by
  unfold ownership at ran
  split at ran
  next => cases ran
  next fault world ended =>
    cases ran
    exact ⟨rfl, Or.inl ⟨fault, ended, rfl⟩⟩
  next value world ended =>
    cases ran
    exact ⟨rfl, Or.inr ⟨value, ended, rfl⟩⟩

/-- An ancestor is looked for, and nothing else happens. -/
theorem ownership_isAncestor {bound : Nat} {descendant potentialAncestor : Ref}
    {out : Except (ConfigFault Ref) Bool}
    (ran : ownership (isAncestor bound descendant potentialAncestor) state = some (out, after)) :
    after = state ∧ ∃ found, out = .ok found ∧
      (found = true ↔ TransGen state.world.Owned descendant potentialAncestor) := by
  obtain ⟨same, ⟨fault, thrown, -⟩ | ⟨found, searched, rfl⟩⟩ := ownership_ran ran
  · obtain ⟨-, found, ended, -⟩ := isAncestor_finds thrown
    cases ended
  · obtain ⟨world, other, ended, finds⟩ := isAncestor_finds searched
    cases ended
    exact ⟨by rw [same, world], found, rfl, finds⟩

variable [DecidableEq Id]

theorem setOwner_owned {bound : Nat} {child owner : Ref} {out : Except (ConfigFault Ref) Unit}
    (owned : state.world.ownerOf child = some owner)
    (ran : setOwner who bound child (some owner) state = some (out, after)) :
    out = .ok () ∧ after = state := by
  cases bound with
  | zero => cases ran
  | succ bound =>
    unfold setOwner at ran
    rw [Effect.bind_apply _ (show ownership (getOwner child) state = some (.ok (some owner), state)
      by rw [← owned]; rfl)] at ran
    dsimp only at ran
    rw [if_pos rfl] at ran
    cases ran
    exact ⟨rfl, rfl⟩

/-- `addOwnedChild` of a child that has the owner adds the reference. -/
theorem addChild_owned {bound : Nat} {owner child : Ref} {out : Except (ConfigFault Ref) Unit}
    (owned : state.world.ownerOf child = some owner)
    (apart : ¬ TransGen state.world.Owned owner child)
    (ran : addOwnedChild who bound owner child state = some (out, after)) :
    out = .ok () ∧ after = { state with world := state.world.addChild who owner child } := by
  cases bound with
  | zero => cases ran
  | succ bound =>
    unfold addOwnedChild at ran
    rcases Effect.bind_cases ran with ⟨fault, thrown, _⟩ | ⟨loop, middle, searched, rest⟩
    · obtain ⟨-, found, ended, -⟩ := ownership_isAncestor thrown
      cases ended
    · obtain ⟨rfl, found, ended, finds⟩ := ownership_isAncestor searched
      cases ended
      rw [if_neg fun above => apart (finds.mp above)] at rest
      rcases Effect.bind_cases rest with ⟨fault, thrown, _⟩ | ⟨_, given, returned, last⟩
      · cases (setOwner_owned owned thrown).1
      · obtain ⟨-, rfl⟩ := setOwner_owned owned returned
        cases last
        exact ⟨rfl, rfl⟩

/-- The call gives the child its owner. -/
def Attaches (world : World Ref Id) (child owner : Ref) : Prop :=
  world.ownerOf child = none ∧ (world.entity child).previouslyOwned = false ∧
    ¬ ReflTransGen world.Owned owner child

/-- Searches change nothing but caches. -/
def Looked (who : Identity Ref Id) (before after : Configured Ref Id Object) : Prop :=
  ∃ world, after = { before with world := world } ∧ Kept who before.world world ∧
    SamePast before.world world

omit [DecidableEq Ref] [DecidableEq Id] in
theorem Looked.refl (state : Configured Ref Id Object) : Looked who state state :=
  ⟨state.world, rfl, .refl _, fun _ => rfl⟩

/-- `setOwner` changes nothing, or attaches the child, which then takes over the configuration. -/
theorem setOwner_attaches {members : Ref → LinkedSet Ref}
    (hierarchy : Hierarchy who state.world members) {bound : Nat} {child owner : Ref}
    {out : Except (ConfigFault Ref) Unit}
    (ran : setOwner who bound child (some owner) state = some (out, after)) :
    (Looked who state after ∧ (out = .ok () → state.world.ownerOf child = some owner)) ∨
      (out = .ok () ∧ Attaches state.world child owner ∧
        ∃ middle, Kept who state.world middle ∧ SamePast state.world middle ∧
          after = takeOver { state with world := middle.attach who owner child } owner child) := by
  cases bound with
  | zero => cases ran
  | succ bound =>
    unfold setOwner at ran
    rw [Effect.bind_apply _ (show ownership (getOwner child) state =
      some (.ok (state.world.ownerOf child), state) from rfl)] at ran
    cases current : state.world.ownerOf child with
    | some other =>
      rw [current] at ran
      dsimp only at ran
      split at ran
      · next same =>
        cases ran
        exact Or.inl ⟨.refl _, fun _ => same.symm⟩
      · cases ran
        exact Or.inl ⟨.refl _, fun same => by cases same⟩
    | none =>
      rw [current] at ran
      dsimp only at ran
      rw [Effect.read_bind] at ran
      split at ran
      · cases ran
        exact Or.inl ⟨.refl _, fun same => by cases same⟩
      next first =>
      split at ran
      · cases ran
        exact Or.inl ⟨.refl _, fun same => by cases same⟩
      next different =>
      have neverOwned : (state.world.entity child).previouslyOwned = false := by
        simpa using first
      rcases Effect.bind_cases ran with ⟨fault, thrown, rfl⟩ | ⟨loop, middle, searched, rest⟩
      · obtain ⟨same, ⟨_, looked, -⟩ | ⟨_, _, returned⟩⟩ := ownership_ran thrown
        · obtain ⟨_, _, returned, _⟩ := isDescendant_finds hierarchy looked
          cases returned
        · cases returned
      obtain ⟨same, ⟨_, _, returned⟩ | ⟨_, looked, returned⟩⟩ := ownership_ran searched
      · cases returned
      cases returned
      obtain ⟨kept, found, returned, finds⟩ := isDescendant_finds hierarchy looked
      cases returned
      have past := samePast_inspect who (some owner) bound [] [child] _ _ _ looked
      split at rest
      · cases rest
        exact Or.inl ⟨⟨_, same, kept, past⟩, fun returned => by cases returned⟩
      · next missed =>
        have below := finds (by simpa using missed) owner rfl
        have apart : ¬ ReflTransGen state.world.Owned owner child := by
          intro way
          rcases reflTransGen_iff_eq_or_transGen.mp way with same | proper
          · exact different (by rw [same])
          · exact below proper
        have unowned : middle.world.ownerOf child = none := (kept.owners child).trans current
        rw [Effect.bind_apply _ (show ownership (Effect.modify (·.setOwner child (some owner)))
          middle = some (.ok (), { middle with
            world := middle.world.setOwner child (some owner) }) from rfl)] at rest
        have given : (middle.world.setOwner child (some owner)).ownerOf child = some owner := by
          simp
        have still : ¬ TransGen (middle.world.setOwner child (some owner)).Owned owner child := by
          rw [owned_setOwner unowned, kept.owned]
          intro way
          rcases transGen_withLink way with old | ⟨old, _⟩
          · exact apart old.to_reflTransGen
          · exact apart old
        rcases Effect.bind_cases rest with ⟨fault, thrown, rfl⟩ | ⟨_, added, returned, last⟩
        · cases (addChild_owned given still thrown).1
        · obtain ⟨_, rfl⟩ := addChild_owned given still returned
          cases last
          exact Or.inr ⟨rfl, ⟨current, neverOwned, apart⟩, middle.world, kept, past,
            by rw [same]; rfl⟩

end Ownership

section Invariant

/-- Every owned entity inherits what its owner has. An entity that was never owned inherits
nothing. -/
structure Sound (who : Identity Ref Id) (state : Configured Ref Id Object) : Prop where
  settled : ∃ members, Settling who members ∅ state
  fresh : ∀ e, state.world.ownerOf e = none → (state.world.entity e).previouslyOwned = false →
    ∀ name, state.inherited e name = none
  past : ∀ e owner, state.world.Owned e owner → (state.world.entity e).previouslyOwned = true

omit [DecidableEq Ref] in
theorem Sound.looked (sound : Sound who state) (looked : Looked who state after) :
    Sound who after := by
  obtain ⟨world, rfl, kept, past⟩ := looked
  obtain ⟨members, settled⟩ := sound.settled
  refine ⟨⟨members, settled.kept kept⟩, fun e unowned never name => ?_, fun e owner owned => ?_⟩
  · exact sound.fresh e ((kept.owners e).symm.trans unowned) ((past e).symm.trans never) name
  · exact (past e).trans (sound.past e owner (kept.owned ▸ owned))

omit [DecidableEq Ref] in
theorem Sound.refreshed (sound : Sound who state) (refreshed : Refreshed who state after)
    {members : Ref → LinkedSet Ref} (settled : Settling who members ∅ after) :
    Sound who after := by
  refine ⟨⟨members, settled⟩, fun e unowned never name => ?_, fun e owner owned => ?_⟩
  · have before := (refreshed.kept.owners e).symm.trans unowned
    rw [inherited, refreshed.unowned e before]
    exact sound.fresh e before ((refreshed.past e).symm.trans never) name
  · exact (refreshed.past e).trans (sound.past e owner (refreshed.kept.owned ▸ owned))

omit [DecidableEq Ref] in
/-- Nothing is stale. -/
theorem Sound.inherits (sound : Sound who state) {child owner : Ref}
    (owned : state.world.Owned child owner) : state.Inherits child owner := by
  obtain ⟨members, settled⟩ := sound.settled
  exact (settled.inherits child owner owned).resolve_left fun stale => stale

omit [DecidableEq Ref] in
theorem sound_initial : Sound who (initial : Configured Ref Id Object) where
  settled :=
    ⟨fun _ => .empty,
      { hierarchy :=
          { complete := fun _ => EntityCollectionReference.complete_create
            linked := fun owner child =>
              iff_of_false (LinkedSet.not_mem_empty child) fun owned => by cases owned
            acyclic := acyclic_empty.mono fun child owner owned => by cases owned }
        covered := fun _ _ owned => by cases owned
        inherits := fun _ _ owned => by cases owned }⟩
  fresh _ _ _ _ := rfl
  past _ _ owned := by cases owned

variable [DecidableEq Id]

theorem previouslyOwned_attach (world : World Ref Id) (owner child e : Ref) :
    ((world.attach who owner child).entity e).previouslyOwned =
      if e = child then true else (world.entity e).previouslyOwned := by
  unfold World.attach World.setPreviouslyOwned
  rw [World.entity_setEntity]
  split
  · rfl
  · exact (samePast_setOwnedChildren _ owner _ e).trans (samePast_setOwner world child _ e)

/-- Whoever attaches an entity with owned children adds no name to its configuration. -/
def AttachKeeps (state : Configured Ref Id Object) (child owner : Ref) : Prop :=
  Attaches state.world child owner → (∃ e, state.world.Owned e child) →
    ∀ name, (state.full owner name).isSome → (state.own child name).isSome

theorem sound_attach (sound : Sound who state) (unique : Function.Injective who.id)
    {child owner : Ref} (attaches : Attaches state.world child owner)
    (keeps : AttachKeeps state child owner) {middle : World Ref Id}
    (kept : Kept who state.world middle) (past : SamePast state.world middle) :
    Sound who (takeOver { state with world := middle.attach who owner child } owner child) := by
  obtain ⟨unowned, never, apart⟩ := attaches
  obtain ⟨members, settled⟩ := sound.settled
  have different : owner ≠ child := fun same => apart (same ▸ .refl)
  have nothing := sound.fresh child unowned never
  have hierarchy := (settled.hierarchy.kept kept).attach unique
    ((kept.owners child).trans unowned) (by rw [kept.owned]; exact apart)
  have owned_iff (e other : Ref) : (middle.attach who owner child).Owned e other ↔
      state.world.Owned e other ∨ (e = child ∧ other = owner) := by
    have owned : (middle.attach who owner child).Owned =
        (middle.setOwner child (some owner)).Owned := by
      funext e other
      simp [World.Owned, World.attach, World.addChild]
    rw [owned, owned_setOwner ((kept.owners child).trans unowned), kept.owned]
    rfl
  set attached : Configured Ref Id Object :=
    { state with world := middle.attach who owner child } with attached_eq
  have inherits (e other : Ref) (below : attached.world.Owned e other) :
      (attached.takeOver owner child).Inherits e other := by
    rcases (owned_iff e other).mp below with before | ⟨rfl, rfl⟩
    · have away : e ≠ child := by
        rintro rfl
        rw [World.Owned, unowned] at before
        cases before
      intro name
      rw [inherited_takeOver_of_ne attached away]
      refine (sound.inherits before name).trans ?_
      by_cases parent : other = child
      · subst parent
        have added := keeps ⟨unowned, never, apart⟩ ⟨e, before⟩ name
        rw [full_eq, full_eq, own_takeOver, inherited_takeOver, nothing name]
        change (state.own other name).or none =
          (state.own other name).or ((state.full owner name).or (state.inherited other name))
        rw [nothing name]
        cases value : state.own other name with
        | some _ => rfl
        | none =>
          rw [value] at added
          cases there : state.full owner name with
          | none => rfl
          | some _ => exact absurd (added (by rw [there]; rfl)) Bool.false_ne_true
      · exact (full_takeOver_of_ne attached parent name).symm
    · refine inherits_takeOver attached (fun name there => ?_) different
      rw [show attached.inherited e name = none from nothing name] at there
      cases there
  refine ⟨⟨_, hierarchy, fun e other below => (inherits e other below).covered,
    fun e other below => Or.inr (inherits e other below)⟩, fun e none_now not_before name => ?_,
    fun e other below => ?_⟩
  · have neverHere : (if e = child then true else (middle.entity e).previouslyOwned) = false :=
      (previouslyOwned_attach middle owner child e).symm.trans not_before
    have away : e ≠ child := fun same => by simp [same] at neverHere
    rw [if_neg away, past e] at neverHere
    rw [inherited_takeOver_of_ne attached away]
    refine sound.fresh e ?_ neverHere name
    cases before : state.world.ownerOf e with
    | none => rfl
    | some other => exact absurd ((owned_iff e other).mpr (Or.inl before)) (by
        rw [World.Owned, show attached.world.ownerOf e = none from none_now]
        rintro ⟨⟩)
  · refine (previouslyOwned_attach middle owner child e).trans ?_
    split
    next => rfl
    next away =>
      rcases (owned_iff e other).mp below with before | ⟨same, -⟩
      · exact (past e).trans (sound.past e other before)
      · exact absurd same away

end Invariant

section Writing

/-- The own configuration of an entity after `applyValue`. -/
def wrote (state : Configured Ref Id Object) (e : Ref) (target : ListTarget Object) :
    Configured Ref Id Object :=
  (changeConfig e (·.setOwnConfig target.map) state).setDrawn target.drawn

variable {members : Ref → LinkedSet Ref}

theorem config_wrote_of_ne (target : ListTarget Object) {e other : Ref} (different : other ≠ e) :
    (state.wrote e target).config other = state.config other :=
  Function.update_of_ne different _ _

theorem config_wrote (target : ListTarget Object) (e : Ref) :
    (state.wrote e target).config e = (state.config e).setOwnConfig target.map :=
  Function.update_self ..

theorem inheritedConfig_wrote (target : ListTarget Object) (e other : Ref) :
    ((state.wrote e target).config other).inheritedConfig =
      (state.config other).inheritedConfig := by
  by_cases same : other = e
  · rw [same, config_wrote]
    rfl
  · rw [config_wrote_of_ne target same]

theorem full_wrote (target : ListTarget Object) (e : Ref) (name : String) :
    (state.wrote e target).full e name =
      (target.map.valueOf name).or (state.inherited e name) := by
  rw [full_eq, own, inherited, inheritedConfig_wrote, config_wrote]
  rfl

theorem refreshed_wrote (who : Identity Ref Id) (target : ListTarget Object) (e : Ref) :
    Refreshed who state (state.wrote e target) :=
  ⟨.refl _, fun _ => rfl, fun other _ => inheritedConfig_wrote target e other⟩

theorem inherited_wrote (target : ListTarget Object) (e other : Ref) (name : String) :
    (state.wrote e target).inherited other name = state.inherited other name := by
  rw [inherited, inheritedConfig_wrote, inherited]

theorem full_wrote_of_ne (target : ListTarget Object) {e other : Ref} (different : other ≠ e)
    (name : String) : (state.wrote e target).full other name = state.full other name := by
  rw [full, config_wrote_of_ne target different, full]

/-- The owned children become stale, but stay covered where no name is lost. -/
theorem settling_wrote (settled : Settling who members ∅ state) {e : Ref}
    {target : ListTarget Object}
    (keeps : (∃ child, state.world.Owned child e) → ∀ name, (state.full e name).isSome →
      ((state.wrote e target).full e name).isSome) :
    Settling who members {child | child ∈ members e} (state.wrote e target) := by
  refine ⟨settled.hierarchy, fun child owner owned name there => ?_, fun child owner owned => ?_⟩
  · rw [inherited_wrote] at there
    have before := settled.covered child owner owned name there
    by_cases parent : owner = e
    · subst parent
      exact keeps ⟨child, owned⟩ name before
    · rw [full_wrote_of_ne target parent]
      exact before
  · by_cases parent : owner = e
    · subst parent
      exact Or.inl ((settled.hierarchy.linked owner child).mpr owned)
    · refine Or.inr fun name => ?_
      rw [inherited_wrote, full_wrote_of_ne target parent]
      exact ((settled.inherits child owner owned).resolve_left fun stale => stale) name

theorem settled_wrote (settled : Settling who members ∅ state) {e : Ref}
    {target : ListTarget Object}
    (same : (∃ child, state.world.Owned child e) → ∀ name,
      (state.wrote e target).full e name = state.full e name) :
    Settling who members ∅ (state.wrote e target) := by
  have settling := settling_wrote settled fun some_child name there =>
    (same some_child name).symm ▸ there
  refine ⟨settling.hierarchy, settling.covered, fun child owner owned => Or.inr fun name => ?_⟩
  have before := ((settled.inherits child owner owned).resolve_left fun stale => stale) name
  rw [inherited_wrote, before]
  by_cases parent : owner = e
  · subst parent
    exact (same ⟨child, owned⟩ name).symm
  · exact (full_wrote_of_ne target parent name).symm

variable [DecidableEq Id] {surroundings : ConfigSurroundings Object}

/-- A value for an entity with owned children takes no name away that is not inherited. A list
is not touched before it throws. -/
def SetKeeps (state : Configured Ref Id Object) (e : Ref) (key : ConfigKey)
    (value : ConfigValue Object) : Prop :=
  (∃ child, state.world.Owned child e) →
    if key.kind = .list ∧ value.throwsList = true then
      value.touchesList (key.keysToRemove (state.config e).ownConfig ≠ []) = false
    else
      ∀ name ∈ key.lostNames value (state.config e).ownConfig, (state.inherited e name).isSome

theorem sound_setConfig (sound : Sound who state) {bound : Nat} {e : Ref} {key : ConfigKey}
    {value : ConfigValue Object} (keeps : SetKeeps state e key value)
    {out : Except (ConfigFault Ref) Unit}
    (ran : setConfig who surroundings bound e key value state = some (out, after)) :
    Sound who after := by
  obtain ⟨members, settled⟩ := sound.settled
  unfold setConfig at ran
  rw [Effect.read_bind, Effect.modify_bind] at ran
  set before : ListTarget Object := ⟨(state.config e).ownConfig, state.drawn⟩ with before_eq
  have threw := applyValue_list_throws surroundings key
  obtain ⟨⟨result, target⟩, applied⟩ : ∃ applied, applyValue surroundings key value before =
    applied := ⟨_, rfl⟩
  rw [applied] at ran
  cases result with
  -- the value is refused, and nothing is refreshed
  | error fault =>
    cases ran
    have refused : (applyValue surroundings key value before).1 = .error fault := by rw [applied]
    refine sound.refreshed (refreshed_wrote who target e) (settled_wrote settled ?_)
    intro owns name
    have untouched (isList : key.kind = .list) :
        value.touchesList (key.keysToRemove before.map ≠ []) = false := by
      have kept := keeps owns
      rwa [if_pos ⟨isList, (threw isList value before).mp ⟨fault, refused⟩⟩] at kept
    have same := applyValue_refused surroundings key value before untouched refused
    rw [applied] at same
    rw [full_wrote, same, full_eq]
    rfl
  | ok done =>
    have settling : Settling who members {child | child ∈ members e} (state.wrote e target) := by
      refine settling_wrote settled fun owns name there => ?_
      have kept := keeps owns
      rw [if_neg fun both => by
        obtain ⟨fault, refused⟩ := (threw both.1 value before).mpr both.2
        rw [applied] at refused
        cases refused] at kept
      rw [full_wrote]
      by_cases lost : name ∈ key.lostNames value before.map
      · exact Option.isSome_or.trans (by rw [kept name lost, Bool.or_true])
      · rw [full_eq, Option.isSome_or, Bool.or_eq_true] at there
        rw [Option.isSome_or, Bool.or_eq_true]
        refine there.imp_left fun held => ?_
        have stays := applyValue_keeps surroundings key value before held lost
        rwa [applied] at stays
    obtain ⟨-, later, refreshed⟩ := (refresh_settles bound).2 settling ran
    exact sound.refreshed ((refreshed_wrote who target e).trans refreshed)
      (later.mono fun child stale => stale.2 stale.1)

end Writing

section Calls
variable [DecidableEq Id] {surroundings : ConfigSurroundings Object}

theorem sound_setOwner (sound : Sound who state) (unique : Function.Injective who.id)
    {bound : Nat} {child owner : Ref} (keeps : AttachKeeps state child owner)
    {out : Except (ConfigFault Ref) Unit}
    (ran : setOwner who bound child (some owner) state = some (out, after)) :
    Sound who after ∧ (out = .ok () → after.world.ownerOf child = some owner) := by
  obtain ⟨members, settled⟩ := sound.settled
  rcases setOwner_attaches settled.hierarchy ran with
    ⟨looked, owned⟩ | ⟨-, attaches, middle, kept, past, rfl⟩
  · refine ⟨sound.looked looked, fun returned => ?_⟩
    obtain ⟨world, rfl, kept, -⟩ := looked
    exact (kept.owners child).trans (owned returned)
  · refine ⟨sound_attach sound unique attaches keeps kept past, fun _ => ?_⟩
    change (middle.attach who owner child).ownerOf child = some owner
    simp [World.attach, World.addChild]

theorem samePast_detach (who : Identity Ref Id) (world : World Ref Id) (child : Ref) :
    SamePast world (world.detach who child) := by
  unfold World.detach
  split
  · exact refl world
  · exact fun e => (samePast_setOwnedChildren _ _ _ e).trans (samePast_setOwner world child none e)

/-- An entity that loses its owner keeps what it inherits, and so do its owned children. -/
theorem sound_detach (sound : Sound who state) (unique : Function.Injective who.id)
    (child : Ref) : Sound who { state with world := state.world.detach who child } := by
  obtain ⟨members, settled⟩ := sound.settled
  obtain ⟨later, hierarchy⟩ := settled.hierarchy.detach unique child
  have past := samePast_detach who state.world child
  have owned {e owner : Ref} (below : (state.world.detach who child).Owned e owner) :
      state.world.Owned e owner ∧ e ≠ child := by
    rw [World.Owned, World.ownerOf_detach] at below
    split at below
    · cases below
    · next different => exact ⟨below, different⟩
  refine ⟨⟨later, hierarchy, fun e owner below => settled.covered e owner (owned below).1,
    fun e owner below => settled.inherits e owner (owned below).1⟩,
    fun e unowned never name => ?_, fun e owner below => ?_⟩
  · have neverBefore := (past e).symm.trans never
    refine sound.fresh e ?_ neverBefore name
    cases before : state.world.ownerOf e with
    | none => rfl
    | some owner =>
      rw [sound.past e owner before] at neverBefore
      cases neverBefore
  · exact (past e).trans (sound.past e owner (owned below).1)

theorem sound_clearing (sound : Sound who state) (unique : Function.Injective who.id)
    {bound : Nat} {child : Ref} {out : Except (ConfigFault Ref) Unit}
    (ran : setOwner who bound child none state = some (out, after)) : Sound who after := by
  obtain ⟨members, settled⟩ := sound.settled
  cases bound with
  | zero => cases ran
  | succ bound =>
    unfold setOwner at ran
    rw [Effect.bind_apply _ (show ownership (getOwner child) state =
      some (.ok (state.world.ownerOf child), state) from rfl)] at ran
    cases current : state.world.ownerOf child with
    | some other =>
      rw [current] at ran
      simp only [reduceCtorEq, if_false] at ran
      obtain ⟨same, ⟨_, cleared, -⟩ | ⟨_, cleared, -⟩⟩ := ownership_ran ran
      · rw [same, (clearOwner_ran who cleared).2]
        exact sound_detach sound unique child
      · rw [same, (clearOwner_ran who cleared).2]
        exact sound_detach sound unique child
    | none =>
      rw [current] at ran
      dsimp only at ran
      rw [Effect.read_bind] at ran
      simp only [Option.isSome_none, Bool.false_eq_true, and_false, if_false, reduceCtorEq] at ran
      have searched {found : Except (ConfigFault Ref) Bool} {middle : Configured Ref Id Object}
          (looked : ownership (isDescendant who bound child none) state = some (found, middle)) :
          Sound who middle := by
        obtain ⟨same, ⟨_, looked, _⟩ | ⟨_, looked, _⟩⟩ := ownership_ran looked
        · exact sound.looked ⟨_, same, (isDescendant_finds settled.hierarchy looked).1,
            samePast_inspect who none bound [] [child] _ _ _ looked⟩
        · exact sound.looked ⟨_, same, (isDescendant_finds settled.hierarchy looked).1,
            samePast_inspect who none bound [] [child] _ _ _ looked⟩
      rcases Effect.bind_cases ran with ⟨fault, thrown, _⟩ | ⟨loop, middle, looked, rest⟩
      · exact searched thrown
      · cases rest
        exact searched looked

theorem sound_addOwnedChild (sound : Sound who state) (unique : Function.Injective who.id)
    {bound : Nat} {owner child : Ref} (keeps : AttachKeeps state child owner)
    {out : Except (ConfigFault Ref) Unit}
    (ran : addOwnedChild who bound owner child state = some (out, after)) : Sound who after := by
  cases bound with
  | zero => cases ran
  | succ bound =>
    unfold addOwnedChild at ran
    rcases Effect.bind_cases ran with ⟨fault, thrown, _⟩ | ⟨loop, middle, searched, rest⟩
    · rw [(ownership_isAncestor thrown).1]
      exact sound
    · obtain ⟨rfl, _⟩ := ownership_isAncestor searched
      split at rest
      · cases rest
        exact sound
      · rcases Effect.bind_cases rest with ⟨fault, thrown, _⟩ | ⟨_, given, returned, last⟩
        · exact (sound_setOwner sound unique keeps thrown).1
        · obtain ⟨held, owned⟩ := sound_setOwner sound unique keeps returned
          obtain ⟨members, settled⟩ := held.settled
          have there : who.id child ∈ (given.world.childrenOf owner).entityRefs :=
            ((settled.hierarchy.complete owner).mem unique child).mpr
              ((settled.hierarchy.linked owner child).mpr (owned rfl))
          -- The reference is there, so adding it again changes nothing.
          have same : given.world.setOwnedChildren owner
              ((given.world.childrenOf owner).add who child) = given.world := by
            rw [EntityCollectionReference.add, if_pos there, setOwnedChildren_same]
          have kept : Kept who given.world (given.world.setOwnedChildren owner
              ((given.world.childrenOf owner).add who child)) := by
            rw [same]
            exact .refl _
          cases last
          exact held.looked ⟨_, rfl, kept, samePast_setOwnedChildren given.world owner _⟩

/-- What the calls that hand on the configuration rely on. -/
def KeepsInheritance (state : Configured Ref Id Object) : Call Ref Object → Prop
  | .setOwner _ none => True
  | .setOwner child (some owner) | .addOwnedChild owner child => AttachKeeps state child owner
  | .setConfig e key value => SetKeeps state e key value

theorem sound_perform (sound : Sound who state) (unique : Function.Injective who.id)
    {bound : Nat} {call : Call Ref Object} (keeps : KeepsInheritance state call)
    {out : Except (ConfigFault Ref) Unit}
    (ran : perform who surroundings bound call state = some (out, after)) : Sound who after := by
  cases call with
  | setOwner child entity =>
    cases entity with
    | none => exact sound_clearing sound unique ran
    | some owner => exact (sound_setOwner sound unique keeps ran).1
  | addOwnedChild owner child => exact sound_addOwnedChild sound unique keeps ran
  | setConfig e key value => exact sound_setConfig sound keeps ran

theorem sound_reached (unique : Function.Injective who.id)
    (reached : Reached who surroundings KeepsInheritance state) : Sound who state := by
  induction reached with
  | start => exact sound_initial
  | call _ keeps ran ih => exact sound_perform ih unique keeps ran

/-- Where no call leaves an owned child stale, every owned entity inherits the full configuration
of its owner after every run. -/
theorem owned_inherits_full_config (unique : Function.Injective who.id)
    (reached : Reached who surroundings KeepsInheritance state) (child owner : Ref)
    (owned : state.world.ownerOf child = some owner) : state.Inherits child owner :=
  (sound_reached unique reached).inherits owned

end Calls

section Runs

/-- Calls one after another, each with enough steps. -/
def performAll (who : Identity Nat Nat) (surroundings : ConfigSurroundings Nat) :
    List (Call Nat Nat) → Configured Nat Nat Nat → Option (Configured Nat Nat Nat)
  | [], state => some state
  | call :: rest, state =>
      (perform who surroundings 9 call state).bind fun ended =>
        performAll who surroundings rest ended.2

theorem reached_performAll {who : Identity Nat Nat} {surroundings : ConfigSurroundings Nat}
    {calls : List (Call Nat Nat)} {before after : Configured Nat Nat Nat}
    (reached : Reached who surroundings (fun _ _ => True) before)
    (ran : performAll who surroundings calls before = some after) :
    Reached who surroundings (fun _ _ => True) after := by
  induction calls generalizing before with
  | nil =>
    cases ran
    exact reached
  | cons call rest ih =>
    obtain ⟨⟨out, middle⟩, first, later⟩ := Option.bind_eq_some_iff.mp ran
    exact ih (.call reached trivial first) later

/-- Names are what they are, and every value is taken as it is. -/
def asIs : ConfigSurroundings Nat := ⟨fun _ => false, fun _ value => some value, fun _ => ""⟩

/-- Entity 1 owns entity 2 and is attached to entity 0, which has a value. -/
def attachedWithChild : List (Call Nat Nat) :=
  [.setOwner 2 (some 1), .setConfig 0 ⟨"k", .plain⟩ (.other 5), .setOwner 1 (some 0)]

/-- Entity 2 does not inherit what its owner inherits since it was attached. -/
theorem attached_child_stale :
    ¬ ∀ (who : Identity Nat Nat) (surroundings : ConfigSurroundings Nat)
      (state : Configured Nat Nat Nat), Reached who surroundings (fun _ _ => True) state →
      ∀ child owner, state.world.ownerOf child = some owner → state.Inherits child owner := by
  intro claimed
  let who : Identity Nat Nat := ⟨id, fun _ => false⟩
  obtain ⟨state, ran⟩ : ∃ state, performAll who asIs attachedWithChild initial = some state :=
    Option.isSome_iff_exists.mp (by decide +kernel)
  have seen : (performAll who asIs attachedWithChild initial).map (fun state =>
      (state.world.ownerOf 2, (state.inherited 2 "k").isSome, (state.full 1 "k").isSome)) =
      some (some 1, false, true) := by decide +kernel
  rw [ran] at seen
  simp only [Option.map_some, Option.some.injEq, Prod.mk.injEq] at seen
  obtain ⟨owned, nothing, value⟩ := seen
  have same := claimed who asIs state (reached_performAll .start ran) 2 1 owned "k"
  rw [← same, nothing] at value
  cases value

theorem set_after_attach_inherited :
    Function.Injective (id : Nat → Nat) ∧ ∃ state : Configured Nat Nat Nat,
      Reached ⟨id, fun _ => false⟩ asIs KeepsInheritance state ∧
        state.world.ownerOf 1 = some 0 ∧ state.Inherits 1 0 := by
  let who : Identity Nat Nat := ⟨id, fun _ => false⟩
  let calls : List (Call Nat Nat) := [.setOwner 1 (some 0), .setConfig 0 ⟨"k", .plain⟩ (.other 5)]
  obtain ⟨state, ran⟩ : ∃ state, performAll who asIs calls initial = some state :=
    Option.isSome_iff_exists.mp (by decide +kernel)
  have owner : (performAll who asIs calls initial).map (fun state => state.world.ownerOf 1) =
      some (some 0) := by decide +kernel
  rw [ran] at owner
  have owned : state.world.ownerOf 1 = some 0 := Option.some.inj owner
  obtain ⟨⟨_, middle⟩, attached, rest⟩ := Option.bind_eq_some_iff.mp ran
  obtain ⟨last, written, ended⟩ := Option.bind_eq_some_iff.mp rest
  obtain rfl : last.2 = state := Option.some.inj ended
  have nobody : AttachKeeps (initial : Configured Nat Nat Nat) 1 0 := by
    rintro - ⟨e, ⟨⟩⟩
  have unlost : SetKeeps middle 0 ⟨"k", .plain⟩ (.other 5) := by
    intro _
    rw [if_neg (by rintro ⟨⟨⟩, _⟩)]
    exact fun name lost => absurd lost List.not_mem_nil
  have first : Reached who asIs KeepsInheritance middle :=
    @Reached.call _ _ _ _ _ _ _ _ _ _ _ (.setOwner 1 (some 0)) _ .start nobody attached
  have reached : Reached who asIs KeepsInheritance last.2 :=
    @Reached.call _ _ _ _ _ _ _ _ _ _ _ (.setConfig 0 ⟨"k", .plain⟩ (.other 5)) _ first unlost
      written
  exact ⟨Function.injective_id, last.2, reached, owned,
    owned_inherits_full_config Function.injective_id reached 1 0 owned⟩

end Runs

end Brooklyn.Configured
