import Brooklyn.Acyclicity
import Brooklyn.LocationOutcomes
import Brooklyn.LinkedCollections

/-!
Walks in the location tree: `containsLocation` and `findLocationProperty` go from parent to
parent, `TreeUtils.findLocationsInHierarchy` from children to children. They end as long as
no location is given a parent, or a child, that is on the other side of it already;
`setParentLocation` looks only for the location itself.
-/

namespace Brooklyn
open Acyclicity Relation

variable {Ref Id Value : Type} {kinds : LocationKinds Ref Id}

namespace LocationWorld

section Walks
variable [DecidableEq Ref] [DecidableEq Id] (world : LocationWorld kinds)

/-- The loop of `containsLocation`. -/
def containsFrom (location : Ref) : Nat → Option Ref → Option Bool
  | 0, _ => none
  | _ + 1, none => some false
  | bound + 1, some loc =>
      if location = loc then some true
      else containsFrom location bound (world.parentLocation loc)

def containsLocation (bound : Nat) (location : Ref) (potentialDescendent : Option Ref) :
    Option Bool :=
  world.containsFrom location bound potentialDescendent

/-- The leftover properties of a location; a value may be `null`. -/
def findLocationProperty (leftoverProperties : Ref → LinkedMap String (Option Value))
    (key : String) : Nat → Ref → Option (Option Value)
  | 0, _ => none
  | bound + 1, location =>
      match (leftoverProperties location).get key with
      | some value => some value
      | none =>
          match world.parentLocation location with
          | some parent => findLocationProperty leftoverProperties key bound parent
          | none => some none

/-- The loop of `findLocationsInHierarchy`; `tovisit` has its top first. -/
def visit : Nat → List Ref → KeyedSet kinds.id → Option (KeyedSet kinds.id)
  | 0, _, _ => none
  | _ + 1, [], result => some result
  | bound + 1, current :: tovisit, result =>
      visit bound ((world.childLocations current).foldl (fun tovisit child => child :: tovisit) tovisit)
        (result.add current)

def findLocationsInHierarchy (bound : Nat) (root : Ref) : Option (KeyedSet kinds.id) :=
  world.visit bound [root] .empty

end Walks

section Links
variable (world : LocationWorld kinds)

/-- One side of the tree has the one location below the other. -/
def Below (child parent : Ref) : Prop :=
  world.parentLocation child = some parent ∨ child ∈ world.childLocations parent

variable [DecidableEq Ref] [DecidableEq Id]

/-- No location is its own ancestor, and the walks end. -/
structure Searchable (leftoverProperties : Ref → LinkedMap String (Option Value)) : Prop where
  acyclic : ∀ location, ¬ TransGen world.Below location location
  contains : ∀ location potentialDescendent,
    ∃ bound found, world.containsLocation bound location potentialDescendent = some found
  property : ∀ location key,
    ∃ bound value, world.findLocationProperty leftoverProperties key bound location = some value
  hierarchy : ∀ root, ∃ bound result, world.findLocationsInHierarchy bound root = some result

/-- The location is given no parent that is below it, or the location itself. Nothing is given
where the call changes nothing, or where the old parent refuses to let the location go. -/
def GivesNoLoop : LocationCall Ref → Prop
  | .setParentLocation location parent =>
      parent = some location ∨ parent = world.parentLocation location ∨ world.held location ∨
        ∀ newParent, parent = some newParent → ¬ ReflTransGen world.Below newParent location
  | .addChildLocation location child =>
      child ∈ world.childLocations location ∨ world.parentLocation child = some location ∨
        ¬ ReflTransGen world.Below location child
  | _ => True

end Links

variable [DecidableEq Ref] [DecidableEq Id]

def AlwaysSearchable (leftoverProperties : Ref → LinkedMap String (Option Value)) :
    List (LocationCall Ref) → LocationWorld kinds → Prop
  | [], world => world.Searchable leftoverProperties
  | call :: rest, world => world.Searchable leftoverProperties ∧
      ∃ out after, call.perform world = some (out, after) ∧
        AlwaysSearchable leftoverProperties rest after

def AlwaysGivesNoLoop : List (LocationCall Ref) → LocationWorld kinds → Prop
  | [], _ => True
  | call :: rest, world => world.GivesNoLoop call ∧
      ∀ out after, call.perform world = some (out, after) → AlwaysGivesNoLoop rest after

/-- Every way up, and every way down, comes to an end. -/
structure Ending (world : LocationWorld kinds) : Prop where
  up : Ends world.Below
  down : Ends fun parent child => world.Below child parent

section Endings
variable {world after : LocationWorld kinds}

omit [DecidableEq Id] in
theorem containsFrom_ends (ending : world.Ending) (location : Ref) (loc : Option Ref) :
    ∃ bound found, world.containsFrom location bound loc = some found := by
  cases loc with
  | none => exact ⟨1, false, rfl⟩
  | some loc =>
    induction ending.up loc with
    | intro loc _ ih =>
      by_cases same : location = loc
      · exact ⟨1, true, if_pos same⟩
      · cases parent : world.parentLocation loc with
        | none =>
          refine ⟨2, false, ?_⟩
          simp [containsFrom, same, parent]
        | some parent' =>
          obtain ⟨bound, found, contained⟩ := ih parent' (Or.inl parent)
          refine ⟨bound + 1, found, ?_⟩
          rw [containsFrom, if_neg same, parent, contained]

omit [DecidableEq Ref] [DecidableEq Id] in
theorem findLocationProperty_ends (ending : world.Ending)
    (leftoverProperties : Ref → LinkedMap String (Option Value)) (location : Ref) (key : String) :
    ∃ bound value, world.findLocationProperty leftoverProperties key bound location = some value := by
  induction ending.up location with
  | intro location _ ih =>
    cases value : (leftoverProperties location).get key with
    | some value' =>
      refine ⟨1, value', ?_⟩
      simp [findLocationProperty, value]
    | none =>
      cases parent : world.parentLocation location with
      | none =>
        refine ⟨1, none, ?_⟩
        simp [findLocationProperty, value, parent]
      | some parent' =>
        obtain ⟨bound, found, ended⟩ := ih parent' (Or.inl parent)
        refine ⟨bound + 1, found, ?_⟩
        simpa [findLocationProperty, value, parent] using ended

omit [DecidableEq Ref] in
/-- What is on top of the stack is visited, whatever is under it. -/
theorem visit_ends (ending : world.Ending) (location : Ref) (tovisit : List Ref)
    (later : ∀ result, ∃ bound found, world.visit bound tovisit result = some found)
    (result : KeyedSet kinds.id) :
    ∃ bound found, world.visit bound (location :: tovisit) result = some found := by
  induction ending.down location generalizing tovisit result with
  | intro location _ ih =>
    have children (pushed : List Ref) (among : pushed ⊆ world.childLocations location)
        (result : KeyedSet kinds.id) : ∃ bound found, world.visit bound
          (pushed.foldl (fun tovisit child => child :: tovisit) tovisit) result = some found := by
      induction pushed using List.reverseRecOn generalizing result with
      | nil => exact later result
      | append_singleton pushed last others =>
        rw [List.foldl_append]
        have member : last ∈ world.childLocations location := among (by simp)
        exact ih last (Or.inr member) _
          (others fun child member => among (List.mem_append_left _ member)) result
    obtain ⟨bound, found, visited⟩ := children _ (fun _ member => member) (result.add location)
    exact ⟨bound + 1, found, visited⟩

theorem Ending.searchable (ending : world.Ending)
    (leftoverProperties : Ref → LinkedMap String (Option Value)) :
    world.Searchable leftoverProperties where
  acyclic := ending.up.acyclic
  contains location potentialDescendent := containsFrom_ends ending location potentialDescendent
  property := findLocationProperty_ends ending leftoverProperties
  hierarchy root := visit_ends ending root [] (fun result => ⟨1, result, rfl⟩) .empty

end Endings

section Steps
variable {before after world : LocationWorld kinds} {location child : Ref}

omit [DecidableEq Ref] [DecidableEq Id] in
theorem Ending.mono (ending : before.Ending)
    (fewer : ∀ child parent, after.Below child parent → before.Below child parent) :
    after.Ending :=
  ⟨ending.up.mono fewer, ending.down.mono fun _ _ => fewer _ _⟩

omit [DecidableEq Ref] [DecidableEq Id] in
/-- A child comes to a location, and may leave its old parent. -/
structure Gains (before after : LocationWorld kinds) (location child : Ref) : Prop where
  fewer : ∀ other parent, after.Below other parent →
    before.Below other parent ∨ (other = child ∧ parent = location)
  kept : ∀ other parent, before.Below other parent →
    after.Below other parent ∨ before.parentLocation child = some parent
  new : after.Below child location

omit [DecidableEq Ref] [DecidableEq Id] in
theorem Gains.ending (gains : Gains before after location child) (ending : before.Ending)
    (apart : ¬ ReflTransGen before.Below location child) : after.Ending where
  up := (ends_withLink ending.up apart).mono gains.fewer
  down := by
    have apart : ¬ ReflTransGen (Function.swap before.Below) child location :=
      mt reflTransGen_swap.mp apart
    refine (ends_withLink ending.down apart).mono fun parent other below => ?_
    exact (gains.fewer other parent below).imp_right And.symm

omit [DecidableEq Ref] [DecidableEq Id] in
/-- No way to the child goes through the parent that it leaves. -/
theorem Gains.loop (gains : Gains before after location child) (ending : before.Ending)
    (way : ReflTransGen before.Below location child) : TransGen after.Below child child := by
  have stays (other : Ref) (way : ReflTransGen before.Below other child) :
      ReflTransGen after.Below other child := by
    induction way using ReflTransGen.head_induction_on with
    | refl => exact .refl
    | head below rest ih =>
      rcases gains.kept _ _ below with there | left
      · exact ih.head there
      · have up : before.Below child _ := Or.inl left
        exact absurd (TransGen.head' up rest) (ending.up.acyclic child)
  exact TransGen.head' gains.new (stays location way)

omit [DecidableEq Id] in
theorem below_of_leaving
    (parents : after.parentLocation = Function.update world.parentLocation child none)
    (fewer : ∀ location, after.childLocations location ⊆ world.childLocations location)
    (other parent : Ref) (below : after.Below other parent) : world.Below other parent := by
  rcases below with parented | listed
  · rw [parents, Function.update_apply] at parented
    split at parented
    · cases parented
    · exact Or.inl parented
  · exact Or.inr (fewer parent listed)

omit [DecidableEq Id] in
theorem gains_of {parent : Option Ref} (given : parent = none ∨ parent = some location)
    (parents : after.parentLocation = Function.update before.parentLocation child parent)
    (children : ∀ other l, other ∈ after.childLocations l →
      other ∈ before.childLocations l ∨ (other = child ∧ l = location))
    (kept : ∀ other l, other ∈ before.childLocations l →
      other ∈ after.childLocations l ∨ before.parentLocation child = some l)
    (new : after.Below child location) : Gains before after location child where
  fewer other l below := by
    rcases below with parented | listed
    · rw [parents, Function.update_apply] at parented
      split at parented
      · next same =>
        rcases given with rfl | rfl
        · cases parented
        · exact Or.inr ⟨same, (Option.some.inj parented).symm⟩
      · exact Or.inl (Or.inl parented)
    · exact (children other l listed).imp_left Or.inr
  kept other l below := by
    rcases below with parented | listed
    · by_cases same : other = child
      · exact Or.inr (same ▸ parented)
      · refine Or.inl (Or.inl ?_)
        rw [parents, Function.update_of_ne same, parented]
    · exact (kept other l listed).imp_left Or.inr
  new := new

theorem mem_without_or {other l : Ref} (listed : other ∈ world.childLocations l) :
    other ∈ world.without child l ∨ world.parentLocation child = some l := by
  by_cases here : world.parentLocation child = some l
  · exact Or.inr here
  · rw [without_elsewhere here]
    exact Or.inl listed

omit [DecidableEq Id] in
theorem mem_addChild {other l : Ref} : other ∈ (world.addChild location child).childLocations l ↔
    other ∈ world.childLocations l ∨ (other = child ∧ l = location) := by
  unfold addChild setChildren
  dsimp only
  rw [Function.update_apply]
  split
  · next same => simp [same]
  · next different => simp [different]

theorem gains_of_moves
    (parents : after.parentLocation = Function.update world.parentLocation child (some location))
    (members : ∀ other l, other ∈ after.childLocations l ↔
      other ∈ world.without child l ∨ (other = child ∧ l = location)) :
    Gains world after location child := by
  refine gains_of (Or.inr rfl) parents (fun other l listed => ?_) (fun other l listed => ?_)
    (Or.inl ?_)
  · exact ((members other l).mp listed).imp_left (without_subset child l ·)
  · exact (mem_without_or listed).imp_left fun stays => (members other l).mpr (Or.inl stays)
  · rw [parents, Function.update_self]

theorem settingParent_gains (different : location ≠ child)
    (elsewhere : world.parentLocation child ≠ some location) (free : world.held child = false) :
    Gains world (world.settingParent child (some location)).2 location child := by
  obtain ⟨parents, children⟩ := settingParent_moves different elsewhere free
  refine gains_of_moves parents fun other l => ?_
  rw [children]
  split
  · next listed =>
    refine (or_iff_left_of_imp ?_).symm
    rintro ⟨rfl, rfl⟩
    exact listed
  · rw [Function.update_apply]
    split
    · next same => simp [same]
    · next different => simp [different]

theorem addingChild_gains (unlisted : child ∉ world.childLocations location)
    (elsewhere : world.parentLocation child ≠ some location) :
    Gains world (world.addingChild location child).2 location child := by
  by_cases itself : location = child
  · subst itself
    rw [addingChild_itself unlisted]
    refine ⟨fun other l below => ?_, fun other l below => Or.inl ?_, Or.inr ?_⟩
    · exact below.elim (fun parented => Or.inl (Or.inl parented)) fun listed =>
        (mem_addChild.mp listed).imp_left Or.inr
    · exact below.imp_right fun listed => mem_addChild.mpr (Or.inl listed)
    · exact mem_addChild.mpr (Or.inr ⟨rfl, rfl⟩)
  cases held : world.held child with
  | true =>
    rw [addingChild_held itself unlisted elsewhere held]
    exact gains_of (Or.inl rfl) rfl (fun other l => mem_addChild.mp)
      (fun other l listed => Or.inl (mem_addChild.mpr (Or.inl listed)))
      (Or.inr (mem_addChild.mpr (Or.inr ⟨rfl, rfl⟩)))
  | false =>
    obtain ⟨parents, children⟩ := addingChild_moves itself unlisted elsewhere held
    refine gains_of_moves parents fun other l => ?_
    rw [children, Function.update_apply]
    split
    · next same => simp [same, without_elsewhere elsewhere]
    · next different => simp [different]

/-- The child is listed with the parent that it has. -/
theorem addingChild_parented (unlisted : child ∉ world.childLocations location)
    (parented : world.parentLocation child = some location) (other l : Ref)
    (below : (world.addingChild location child).2.Below other l) : world.Below other l := by
  have tree : (world.addingChild location child).2.parentLocation = world.parentLocation ∧
      (world.addingChild location child).2.childLocations =
        (world.addChild location child).childLocations := by
    unfold addingChild settingParent
    rw [if_neg unlisted]
    by_cases itself : location = child
    · rw [if_pos (congrArg some itself)]
      exact ⟨rfl, rfl⟩
    · rw [if_neg fun same => itself (Option.some.inj same),
        show (world.addChild location child).parentLocation child = some location from parented,
        if_pos rfl]
      exact ⟨parentLocation_admitting .., childLocations_admitting ..⟩
  rcases below with owned | listed
  · rw [tree.1] at owned
    exact Or.inl owned
  · rw [tree.2, mem_addChild] at listed
    rcases listed with earlier | ⟨rfl, rfl⟩
    · exact Or.inr earlier
    · exact Or.inl parented

theorem drop_fewer (location child l : Ref) :
    (world.drop location child).childLocations l ⊆ world.childLocations l := by
  rw [childLocations_drop, Function.update_apply]
  split
  · next same => exact same ▸ fun _ => List.mem_of_mem_eraseP
  · exact fun _ member => member

theorem removingChild_fewer (location child other l : Ref)
    (below : (world.removingChild location child).2.Below other l) : world.Below other l := by
  have dropped (below : (world.drop location child).Below other l) : world.Below other l := by
    rcases below with owned | listed
    · rw [parentLocation_drop] at owned
      exact Or.inl owned
    · exact Or.inr (drop_fewer location child l listed)
  cases refuses : world.refuses location child with
  | true =>
    unfold removingChild at below
    rw [if_pos refuses] at below
    exact below
  | false =>
  cases equal : world.hasEqual location child with
  | true =>
    rw [removingChild_leaves refuses equal] at below
    obtain ⟨parents, fewer⟩ := leaving_parents (world.drop location child) child
    exact dropped (below_of_leaving parents fewer other l below)
  | false =>
    unfold removingChild at below
    rw [if_neg (Bool.eq_false_iff.mp refuses), if_neg (Bool.eq_false_iff.mp equal)] at below
    exact dropped below

omit [DecidableEq Ref] [DecidableEq Id] in
/-- Without a loop the ways still end; otherwise there is a way in a circle. -/
def Decides (after : LocationWorld kinds) (noLoop : Prop) : Prop :=
  (noLoop → after.Ending) ∧ (¬ noLoop → ∃ location, TransGen after.Below location location)

omit [DecidableEq Ref] [DecidableEq Id] in
theorem Gains.decides (gains : Gains before after location child) (ending : before.Ending) :
    Decides after (¬ ReflTransGen before.Below location child) :=
  ⟨gains.ending ending, fun way => ⟨child, gains.loop ending (not_not.mp way)⟩⟩

omit [DecidableEq Ref] [DecidableEq Id] in
theorem decides_true {noLoop : Prop} (holds : noLoop) (ending : after.Ending) :
    Decides after noLoop :=
  ⟨fun _ => ending, fun fails => absurd holds fails⟩

theorem settingParent_decides (ending : world.Ending) (location : Ref) (parent : Option Ref) :
    Decides (world.settingParent location parent).2
      (world.GivesNoLoop (.setParentLocation location parent)) := by
  dsimp only [GivesNoLoop]
  by_cases itself : parent = some location
  · unfold settingParent
    rw [if_pos itself]
    exact decides_true (Or.inl itself) ending
  by_cases same : parent = world.parentLocation location
  · unfold settingParent
    rw [if_neg itself, if_pos same]
    exact decides_true (Or.inr (Or.inl same)) ending
  rw [or_iff_right itself, or_iff_right same]
  cases held : world.held location with
  | true =>
    obtain ⟨fault, set⟩ := settingParent_held itself same held
    rw [set]
    exact decides_true (Or.inl rfl)
      (ending.mono (below_of_leaving rfl fun _ _ member => member))
  | false =>
  rw [or_iff_right Bool.false_ne_true]
  cases parent with
  | none =>
    obtain ⟨parents, children⟩ := settingParent_leaves same held
    refine decides_true (fun _ given => by cases given)
      (ending.mono (below_of_leaving parents fun l => ?_))
    rw [children]
    exact without_subset location l
  | some newParent =>
    simp only [Option.some.injEq, forall_eq']
    exact (settingParent_gains (fun here => itself (congrArg some here)) (Ne.symm same)
      held).decides ending

theorem addingChild_decides (ending : world.Ending) (location child : Ref) :
    Decides (world.addingChild location child).2
      (world.GivesNoLoop (.addChildLocation location child)) := by
  dsimp only [GivesNoLoop]
  by_cases listed : child ∈ world.childLocations location
  · refine decides_true (Or.inl listed) (ending.mono fun other l below => ?_)
    unfold addingChild at below
    rw [if_pos listed, Below, parentLocation_admitting, childLocations_admitting] at below
    exact below
  by_cases parented : world.parentLocation child = some location
  · exact decides_true (Or.inr (Or.inl parented))
      (ending.mono (addingChild_parented listed parented))
  · rw [or_iff_right listed, or_iff_right parented]
    exact (addingChild_gains listed parented).decides ending

theorem outcome_decides (ending : world.Ending) (call : LocationCall Ref) :
    Decides (world.outcome call).2 (world.GivesNoLoop call) := by
  cases call with
  | setParentLocation location parent => exact settingParent_decides ending location parent
  | addChildLocation location child => exact addingChild_decides ending location child
  | removeChildLocation location child =>
    exact decides_true trivial (ending.mono (removingChild_fewer location child))
  | obtain location =>
    refine decides_true trivial (ending.mono fun other l below => ?_)
    unfold outcome obtaining at below
    dsimp only at below
    split at below <;> exact below
  | release location machine =>
    refine decides_true trivial (ending.mono fun other l below => ?_)
    unfold outcome releasing at below
    dsimp only at below
    split at below <;> exact below

theorem always_searchable_iff (ending : world.Ending)
    (leftoverProperties : Ref → LinkedMap String (Option Value)) (calls : List (LocationCall Ref)) :
    AlwaysSearchable leftoverProperties calls world ↔ AlwaysGivesNoLoop calls world := by
  induction calls generalizing world with
  | nil => exact iff_of_true (ending.searchable leftoverProperties) trivial
  | cons call rest ih =>
    obtain ⟨ends, loops⟩ := outcome_decides ending call
    unfold AlwaysSearchable AlwaysGivesNoLoop
    rw [perform_ran, and_iff_right (ending.searchable leftoverProperties)]
    constructor
    · rintro ⟨out, after, ran, always⟩
      have here : after.Searchable leftoverProperties := by
        cases rest with
        | nil => exact always
        | cons next rest => exact always.1
      rw [Option.some.inj ran] at ends loops
      have noLoop : world.GivesNoLoop call := by
        by_contra loop
        obtain ⟨location, cycle⟩ := loops loop
        exact here.acyclic location cycle
      refine ⟨noLoop, fun _ _ again => ?_⟩
      cases ran.symm.trans again
      exact (ih (ends noLoop)).mp always
    · rintro ⟨noLoop, others⟩
      exact ⟨_, _, rfl, (ih (ends noLoop)).mpr (others _ _ rfl)⟩

/-- From new locations, no location is its own ancestor and all walks end after every call,
exactly as long as every call gives no loop. -/
theorem location_hierarchy_iff (machines : Ref → KeyedSet kinds.id)
    (leftoverProperties : Ref → LinkedMap String (Option Value)) (calls : List (LocationCall Ref)) :
    AlwaysSearchable leftoverProperties calls (.initial machines) ↔
      AlwaysGivesNoLoop calls (.initial machines) := by
  have nobody (child parent : Ref) (below : (initial machines).Below child parent) : False := by
    rcases below with parented | listed
    · cases parented
    · cases listed
  exact always_searchable_iff ⟨ends_empty.mono nobody, ends_empty.mono fun _ _ => nobody _ _⟩ _ calls

/-- Two locations that are each other's parents: the search for the top does not end. -/
theorem two_parents_loop :
    ¬ @AlwaysSearchable Nat Nat Nat ⟨id, fun _ => true, fun _ => false⟩ _ _ (fun _ => .empty)
      [.setParentLocation 1 (some 0), .setParentLocation 0 (some 1)] (.initial fun _ => .empty) := by
  rintro ⟨_, _, _, first, _, _, _, second, searchable⟩
  obtain ⟨rfl, rfl⟩ := Prod.mk.inj (Option.some.inj first)
  obtain ⟨rfl, rfl⟩ := Prod.mk.inj (Option.some.inj second)
  exact searchable.acyclic 0 (.tail (.single (Or.inl (rfl : _ = some 1))) (Or.inl rfl))

end Steps
end LocationWorld
end Brooklyn
