import Brooklyn.LocationOutcomes

/-!
The two sides of the location tree: the parent of a location and the children of its parent.
A call leaves them in agreement exactly if no machine in use is moved away, no location is
added to itself, and the first location that a list finds equal to the one it is to remove
is that one.
-/

namespace Brooklyn

variable {Ref Id : Type} [DecidableEq Ref] [DecidableEq Id] {kinds : LocationKinds Ref Id}

namespace LocationWorld

section Links
variable (world : LocationWorld kinds)

omit [DecidableEq Ref] [DecidableEq Id] in
def Linked : Prop :=
  ∀ location child, child ∈ world.childLocations location ↔
    world.parentLocation child = some location

/-- The parent of the child, if there is one, does not refuse, and finds it before every
other child that equals it. -/
def LetsGo (child : Ref) : Prop :=
  ∀ parent, world.parentLocation child = some parent → world.refuses parent child = false ∧
    (world.childLocations parent).find? (fun other => kinds.id other = kinds.id child) = some child

def KeepsLinks : LocationCall Ref → Prop
  | .setParentLocation location parent =>
      parent = some location ∨ parent = world.parentLocation location ∨ world.LetsGo location
  | .addChildLocation location child =>
      child ∈ world.childLocations location ∨ (location ≠ child ∧ world.LetsGo child)
  | .removeChildLocation location child =>
      world.refuses location child ∨
        ∀ other ∈ world.childLocations location, kinds.id other = kinds.id child → other = child
  | .obtain _ | .release _ _ => True

end Links

def AlwaysLinked : List (LocationCall Ref) → LocationWorld kinds → Prop
  | [], world => world.Linked
  | call :: rest, world => world.Linked ∧
      ∃ out after, call.perform world = some (out, after) ∧ AlwaysLinked rest after

def AlwaysKeepsLinks : List (LocationCall Ref) → LocationWorld kinds → Prop
  | [], _ => True
  | call :: rest, world => world.KeepsLinks call ∧
      ∀ out after, call.perform world = some (out, after) → AlwaysKeepsLinks rest after

def Distinct (world : LocationWorld kinds) : Prop :=
  ∀ location, (world.childLocations location).Nodup

/-- Both sides agree, and no location is listed twice. -/
structure Tree (world : LocationWorld kinds) : Prop where
  linked : world.Linked
  distinct : world.Distinct

section Lists
variable {Element : Type} {list : List Element} {first element : Element} {equals : Element → Bool}

omit [DecidableEq Ref] [DecidableEq Id] in
theorem mem_eraseP_of_found (distinct : list.Nodup) (found : list.find? equals = some first) :
    element ∈ list.eraseP equals ↔ element ∈ list ∧ element ≠ first := by
  obtain ⟨equal, before, rest, rfl, others⟩ := List.find?_eq_some_iff_append.mp found
  have apart : first ∉ before ++ rest := (List.nodup_middle.mp distinct |> List.nodup_cons.mp).1
  rw [List.eraseP_append_right _ (by simpa using others), List.eraseP_cons_of_pos equal]
  constructor
  · intro member
    refine ⟨?_, fun same => apart (same ▸ member)⟩
    rcases List.mem_append.mp member with earlier | later
    · exact List.mem_append_left _ earlier
    · exact List.mem_append_right _ (List.mem_cons_of_mem _ later)
  · rintro ⟨member, different⟩
    rcases List.mem_append.mp member with earlier | later
    · exact List.mem_append_left _ earlier
    · exact List.mem_append_right _ ((List.mem_cons.mp later).resolve_left different)

end Lists

section Steps
variable {world after : LocationWorld kinds} {location child : Ref}

theorem without_distinct (distinct : world.Distinct) (child location : Ref) :
    (world.without child location).Nodup := by
  unfold without
  cases world.parentLocation child with
  | none => exact distinct location
  | some parent =>
    dsimp only
    rw [Function.update_apply]
    split
    · exact (distinct parent).eraseP _
    · exact distinct location

/-- Who is left of the children, where the parent finds `first` to take out. -/
theorem mem_without (tree : world.Tree) {parent first : Ref}
    (parented : world.parentLocation child = some parent)
    (found : (world.childLocations parent).find? (fun other => kinds.id other = kinds.id child) =
      some first) (location other : Ref) :
    other ∈ world.without child location ↔
      world.parentLocation other = some location ∧ other ≠ first := by
  have listed : world.parentLocation first = some parent :=
    (tree.linked parent first).mp (List.mem_of_find?_eq_some found)
  unfold without
  rw [parented]
  dsimp only
  rw [Function.update_apply]
  split
  · next same =>
    subst same
    rw [mem_eraseP_of_found (tree.distinct location) found, tree.linked]
  · next different =>
    rw [tree.linked]
    refine (and_iff_left_of_imp fun parented same => different ?_).symm
    rw [same, listed] at parented
    exact (Option.some.inj parented).symm

variable (world child) in
omit [DecidableEq Ref] in
def FoundFirst : Prop :=
  ∀ parent, world.parentLocation child = some parent →
    (world.childLocations parent).find? (fun other => kinds.id other = kinds.id child) = some child

omit [DecidableEq Ref] in
theorem letsGo_iff : world.LetsGo child ↔ world.held child = false ∧ world.FoundFirst child := by
  unfold LetsGo held FoundFirst
  cases world.parentLocation child <;> simp

theorem without_agrees_iff (tree : world.Tree) :
    (∀ location other, other ∈ world.without child location ↔
      world.parentLocation other = some location ∧ other ≠ child) ↔ world.FoundFirst child := by
  unfold FoundFirst
  cases parented : world.parentLocation child with
  | none =>
    refine iff_of_true (fun location other => ?_) (fun _ same => by cases same)
    unfold without
    rw [parented]
    refine (tree.linked location other).trans (and_iff_left_of_imp fun owned same => ?_).symm
    rw [same, parented] at owned
    cases owned
  | some parent =>
    have listed : child ∈ world.childLocations parent := (tree.linked parent child).mpr parented
    have some : ((world.childLocations parent).find?
        fun other => kinds.id other = kinds.id child).isSome :=
      List.find?_isSome.mpr ⟨child, listed, decide_eq_true rfl⟩
    obtain ⟨first, found⟩ := Option.isSome_iff_exists.mp some
    constructor
    · rintro agrees _ ⟨rfl⟩
      have gone := mt (agrees parent child).mp (by simp)
      rw [mem_without tree parented found] at gone
      rw [found, not_not.mp fun different => gone ⟨parented, Ne.symm different⟩]
    · intro finds
      exact mem_without tree parented (finds parent rfl)

theorem leaves_linked_iff (tree : world.Tree)
    (parents : after.parentLocation = Function.update world.parentLocation child none)
    (children : after.childLocations = world.without child) :
    after.Linked ↔ world.FoundFirst child := by
  rw [← without_agrees_iff tree, Linked, parents, children]
  refine forall_congr' fun location => forall_congr' fun other => iff_congr Iff.rfl ?_
  rw [Function.update_apply]
  by_cases same : other = child <;> simp [same]

theorem joins_linked_iff (tree : world.Tree) (elsewhere : world.parentLocation child ≠ some location)
    (parents : after.parentLocation = Function.update world.parentLocation child (some location))
    (children : after.childLocations = Function.update (world.without child) location
      (world.without child location ++ [child])) :
    after.Linked ↔ world.FoundFirst child := by
  have unlisted : child ∉ world.without child location := fun listed =>
    elsewhere ((tree.linked location child).mp (without_subset child location listed))
  have members (l other : Ref) : other ∈ after.childLocations l ↔
      other ∈ world.without child l ∨ (l = location ∧ other = child) := by
    rw [children, Function.update_apply]
    by_cases same : l = location <;> simp [same]
  rw [← without_agrees_iff tree]
  constructor
  · intro linked l other
    have links := linked l other
    rw [members, parents, Function.update_apply] at links
    by_cases same : other = child
    · subst same
      rw [if_pos rfl] at links
      refine iff_of_false (fun listed => ?_) (fun both => both.2 rfl)
      have here := Option.some.inj (links.mp (Or.inl listed))
      exact unlisted (here ▸ listed)
    · simpa [same] using links
  · intro agrees l other
    rw [members, parents, Function.update_apply, agrees]
    by_cases same : other = child <;> simp [same, eq_comm]

omit [DecidableEq Ref] [DecidableEq Id] in
theorem not_linked_of_listed (listed : child ∈ after.childLocations location)
    (elsewhere : after.parentLocation child ≠ some location) : ¬ after.Linked :=
  fun linked => elsewhere ((linked location child).mp listed)

omit [DecidableEq Ref] [DecidableEq Id] in
theorem linked_congr (parents : after.parentLocation = world.parentLocation)
    (children : after.childLocations = world.childLocations) : after.Linked ↔ world.Linked := by
  rw [Linked, Linked, parents, children]

theorem held_unlinked (tree : world.Tree) (held : world.held child) :
    ¬ (world.setParent child none).Linked := by
  unfold LocationWorld.held at held
  cases parented : world.parentLocation child with
  | none => simp [parented] at held
  | some parent =>
    refine @not_linked_of_listed _ _ _ _ parent child ((tree.linked parent child).mpr parented) ?_
    simp [setParent]

theorem setParentLocation_linked_iff (tree : world.Tree) (location : Ref) (parent : Option Ref) :
    (world.settingParent location parent).2.Linked ↔
      world.KeepsLinks (.setParentLocation location parent) := by
  dsimp only [KeepsLinks]
  by_cases itself : parent = some location
  · refine iff_of_true ?_ (Or.inl itself)
    unfold settingParent
    rw [if_pos itself]
    exact tree.linked
  by_cases same : parent = world.parentLocation location
  · refine iff_of_true ?_ (Or.inr (Or.inl same))
    unfold settingParent
    rw [if_neg itself, if_pos same]
    exact tree.linked
  rw [or_iff_right itself, or_iff_right same, letsGo_iff]
  cases held : world.held location with
  | true =>
    obtain ⟨fault, set⟩ := settingParent_held itself same held
    rw [set]
    exact iff_of_false (held_unlinked tree held) fun both => Bool.false_ne_true both.1.symm
  | false =>
    rw [and_iff_right rfl]
    cases parent with
    | none =>
      obtain ⟨parents, children⟩ := settingParent_leaves same held
      exact leaves_linked_iff tree parents children
    | some newParent =>
      obtain ⟨parents, children⟩ := settingParent_moves (fun here => itself (congrArg some here))
        (Ne.symm same) held
      rw [if_neg fun listed => same (((tree.linked newParent location).mp
        (without_subset location newParent listed)).symm)] at children
      exact joins_linked_iff tree (Ne.symm same) parents children

theorem addChildLocation_linked_iff (tree : world.Tree) (location child : Ref) :
    (world.addingChild location child).2.Linked ↔
      world.KeepsLinks (.addChildLocation location child) := by
  dsimp only [KeepsLinks]
  by_cases listed : child ∈ world.childLocations location
  · refine iff_of_true ?_ (Or.inl listed)
    unfold addingChild
    rw [if_pos listed, linked_congr (parentLocation_admitting ..) (childLocations_admitting ..)]
    exact tree.linked
  have elsewhere : world.parentLocation child ≠ some location :=
    mt (tree.linked location child).mpr listed
  rw [or_iff_right listed, letsGo_iff]
  by_cases itself : location = child
  · subst itself
    rw [addingChild_itself listed]
    refine iff_of_false (not_linked_of_listed ?_ elsewhere) fun both => both.1 rfl
    simp [addChild, setChildren]
  rw [and_iff_right itself]
  cases held : world.held child with
  | true =>
    rw [addingChild_held itself listed elsewhere held]
    refine iff_of_false (@not_linked_of_listed _ _ _ _ location child ?_ ?_) fun both =>
      Bool.false_ne_true both.1.symm
    · simp [addChild, setChildren, setParent]
    · simp [setParent]
  | false =>
    rw [and_iff_right rfl]
    obtain ⟨parents, children⟩ := addingChild_moves itself listed elsewhere held
    refine joins_linked_iff tree elsewhere parents ?_
    rw [children, without_elsewhere elsewhere]

theorem childLocations_drop_of_alone (alone : world.hasEqual location child = false) :
    (world.drop location child).childLocations = world.childLocations := by
  rw [childLocations_drop, List.eraseP_of_forall_not, Function.update_eq_self]
  simpa [hasEqual] using alone

omit [DecidableEq Id] in
/-- A child that was taken from the list, and keeps its parent. -/
theorem lost_unlinked {other : Ref} (parented : world.parentLocation other = some location)
    (different : other ≠ child)
    (parents : after.parentLocation = Function.update world.parentLocation child none)
    (lost : other ∉ after.childLocations location) : ¬ after.Linked := by
  intro linked
  refine lost ((linked location other).mpr ?_)
  rw [parents, Function.update_of_ne different, parented]

/-- The list loses the first child that equals the one that goes, and loses the next as well
when its parent takes it out again. -/
theorem leaving_drop_linked_iff (tree : world.Tree) (allows : world.refuses location child = false)
    {first : Ref} (found : (world.childLocations location).find?
      (fun other => kinds.id other = kinds.id child) = some first) :
    ((world.drop location child).leaving child).2.Linked ↔
      ∀ other ∈ world.childLocations location, kinds.id other = kinds.id child → other = child := by
  obtain ⟨parents, fewer⟩ := leaving_parents (world.drop location child) child
  rw [parentLocation_drop] at parents
  have listed := List.mem_of_find?_eq_some found
  have equal : kinds.id first = kinds.id child := by simpa using List.find?_some found
  have dropped (other : Ref) : other ∈ (world.drop location child).childLocations location ↔
      other ∈ world.childLocations location ∧ other ≠ first := by
    rw [childLocations_drop, Function.update_self]
    exact mem_eraseP_of_found (tree.distinct location) found
  by_cases itself : first = child
  · subst itself
    have parented := (tree.linked location first).mp listed
    have same : (world.drop location first).childLocations = world.without first := by
      unfold without
      rw [childLocations_drop, parented]
    have free : (world.drop location first).held first = false := by
      unfold held
      rw [parentLocation_drop, parented]
      exact (refuses_drop ..).trans allows
    obtain ⟨after, left, _, children⟩ := leaving_free free
    rw [left] at parents ⊢
    dsimp only at parents ⊢
    constructor
    · intro linked other member equal
      by_contra different
      have again : (((world.drop location first).childLocations location).find?
          fun other => kinds.id other = kinds.id first).isSome :=
        List.find?_isSome.mpr ⟨other, (dropped other).mpr ⟨member, different⟩, decide_eq_true equal⟩
      obtain ⟨next, foundNext⟩ := Option.isSome_iff_exists.mp again
      obtain ⟨nextListed, apart⟩ := (dropped next).mp (List.mem_of_find?_eq_some foundNext)
      refine lost_unlinked ((tree.linked location next).mp nextListed) apart parents ?_ linked
      rw [children, without, parentLocation_drop, parented]
      dsimp only
      rw [Function.update_self]
      refine fun member => ((mem_eraseP_of_found ?_ foundNext).mp member).2 rfl
      rw [same]
      exact without_distinct tree.distinct first location
    · intro all
      refine (leaves_linked_iff tree parents ?_).mpr fun parent owned => ?_
      · rw [children, ← same, without, parentLocation_drop, parented]
        dsimp only
        rw [List.eraseP_of_forall_not, Function.update_eq_self]
        intro other member
        obtain ⟨member, different⟩ := (dropped other).mp member
        simpa using mt (all other member) different
      · cases Option.some.inj (parented.symm.trans owned)
        exact found
  · refine iff_of_false (lost_unlinked ((tree.linked location first).mp listed) itself parents ?_)
      fun all => itself (all first listed equal)
    exact fun member => ((dropped first).mp (fewer location member)).2 rfl

theorem removeChildLocation_linked_iff (tree : world.Tree) (location child : Ref) :
    (world.removingChild location child).2.Linked ↔
      world.KeepsLinks (.removeChildLocation location child) := by
  dsimp only [KeepsLinks]
  cases refuses : world.refuses location child with
  | true =>
    unfold removingChild
    rw [if_pos refuses]
    exact iff_of_true tree.linked (Or.inl rfl)
  | false =>
  rw [or_iff_right Bool.false_ne_true]
  cases equal : world.hasEqual location child with
  | false =>
    unfold removingChild
    rw [if_neg (by simp [refuses]), if_neg (by simp [equal])]
    refine iff_of_true ?_ fun other member same => ?_
    · rw [linked_congr parentLocation_drop (childLocations_drop_of_alone equal)]
      exact tree.linked
    · exact absurd same (by simpa using List.any_eq_false.mp equal other member)
  | true =>
  rw [removingChild_leaves refuses equal]
  have some : ((world.childLocations location).find?
      fun other => kinds.id other = kinds.id child).isSome := by
    simpa [hasEqual] using equal
  obtain ⟨first, found⟩ := Option.isSome_iff_exists.mp some
  exact leaving_drop_linked_iff tree refuses found

/-! No call lists a location twice with one parent. -/

theorem Distinct.drop (distinct : world.Distinct) (location child : Ref) :
    (world.drop location child).Distinct := by
  intro other
  rw [childLocations_drop, Function.update_apply]
  split
  · exact (distinct location).eraseP _
  · exact distinct other

theorem Distinct.leaving (distinct : world.Distinct) (child : Ref) :
    (world.leaving child).2.Distinct := by
  cases held : world.held child with
  | true =>
    obtain ⟨fault, left⟩ := leaving_held held
    rw [left]
    exact distinct
  | false =>
    obtain ⟨after, left, _, children⟩ := leaving_free held
    rw [left]
    intro location
    dsimp only
    rw [children]
    exact without_distinct distinct child location

omit [DecidableEq Id] in
theorem Distinct.addChild (distinct : world.Distinct)
    (unlisted : child ∉ world.childLocations location) :
    (world.addChild location child).Distinct := by
  intro other
  unfold LocationWorld.addChild setChildren
  dsimp only
  rw [Function.update_apply]
  split
  · exact List.concat_eq_append ▸ (distinct location).concat unlisted
  · exact distinct other

theorem Distinct.admitting (distinct : world.Distinct) (location child : Ref) :
    (world.admitting location child).2.Distinct := by
  intro other
  rw [childLocations_admitting]
  exact distinct other

theorem Distinct.joining (distinct : world.Distinct) (location child : Ref) :
    (world.joining location child).2.Distinct := by
  refine Distinct.admitting ?_ location child
  unfold list
  split
  · exact distinct
  · next unlisted => exact distinct.addChild unlisted

theorem Distinct.settingParent (distinct : world.Distinct) (child : Ref) (parent : Option Ref) :
    (world.settingParent child parent).2.Distinct := by
  have left := distinct.leaving child
  unfold LocationWorld.settingParent
  split
  · exact distinct
  split
  · exact distinct
  generalize world.leaving child = outcome at left ⊢
  obtain ⟨fault | _, after⟩ := outcome
  · exact left
  · cases parent with
    | none => exact left
    | some newParent =>
      exact @Distinct.joining _ _ _ _ _ (after.setParent child (some newParent)) left newParent child

theorem Distinct.addingChild (distinct : world.Distinct) (location child : Ref) :
    (world.addingChild location child).2.Distinct := by
  unfold LocationWorld.addingChild
  split
  · exact distinct.admitting location child
  · next unlisted =>
    have set := (distinct.addChild unlisted).settingParent child (some location)
    generalize (world.addChild location child).settingParent child (some location) = outcome
      at set ⊢
    obtain ⟨fault | _, after⟩ := outcome
    · exact set
    · exact Distinct.admitting set location child

theorem Distinct.removingChild (distinct : world.Distinct) (location child : Ref) :
    (world.removingChild location child).2.Distinct := by
  have left := (distinct.drop location child).leaving child
  unfold LocationWorld.removingChild
  split
  · exact distinct
  split
  · generalize (world.drop location child).leaving child = outcome at left ⊢
    obtain ⟨fault | _, after⟩ := outcome <;> exact left
  · exact distinct.drop location child

theorem Distinct.outcome (distinct : world.Distinct) (call : LocationCall Ref) :
    (world.outcome call).2.Distinct := by
  cases call with
  | setParentLocation location parent => exact distinct.settingParent location parent
  | addChildLocation location child => exact distinct.addingChild location child
  | removeChildLocation location child => exact distinct.removingChild location child
  | obtain location =>
    unfold LocationWorld.outcome obtaining
    dsimp only
    split <;> exact distinct
  | release location machine =>
    unfold LocationWorld.outcome releasing
    dsimp only
    split <;> exact distinct

theorem outcome_linked_iff (tree : world.Tree) (call : LocationCall Ref) :
    (world.outcome call).2.Linked ↔ world.KeepsLinks call := by
  cases call with
  | setParentLocation location parent => exact setParentLocation_linked_iff tree location parent
  | addChildLocation location child => exact addChildLocation_linked_iff tree location child
  | removeChildLocation location child => exact removeChildLocation_linked_iff tree location child
  | obtain location =>
    refine iff_of_true ?_ trivial
    unfold outcome obtaining
    dsimp only
    split <;> exact tree.linked
  | release location machine =>
    refine iff_of_true ?_ trivial
    unfold outcome releasing
    dsimp only
    split <;> exact tree.linked

theorem always_linked_iff (tree : world.Tree) (calls : List (LocationCall Ref)) :
    AlwaysLinked calls world ↔ AlwaysKeepsLinks calls world := by
  induction calls generalizing world with
  | nil => exact iff_of_true tree.linked trivial
  | cons call rest ih =>
    have first := outcome_linked_iff tree call
    have distinct : (world.outcome call).2.Distinct := Distinct.outcome tree.distinct call
    unfold AlwaysLinked AlwaysKeepsLinks
    rw [perform_ran, and_iff_right tree.linked]
    constructor
    · rintro ⟨out, after, ran, always⟩
      have here : after.Linked := by
        cases rest with
        | nil => exact always
        | cons next rest => exact always.1
      have same := Option.some.inj ran
      rw [same] at first distinct
      refine ⟨first.mp here, fun _ _ again => ?_⟩
      cases ran.symm.trans again
      exact (ih ⟨here, distinct⟩).mp always
    · rintro ⟨keeps, others⟩
      exact ⟨_, _, rfl, (ih ⟨first.mpr keeps, distinct⟩).mpr (others _ _ rfl)⟩

/-- From new locations, the children of every location are those whose parent it is, after
every call, those that throw included, exactly as long as every call keeps the links. -/
theorem location_links_iff (machines : Ref → KeyedSet kinds.id) (calls : List (LocationCall Ref)) :
    AlwaysLinked calls (.initial machines) ↔ AlwaysKeepsLinks calls (.initial machines) := by
  refine always_linked_iff ⟨fun location child => ?_, fun location => List.nodup_nil⟩ calls
  exact iff_of_false List.not_mem_nil (by simp [initial])

/-- The pool 0 refuses to let its machine 1 go, when the machine has lost its parent already. -/
theorem refused_child_has_no_parent :
    ¬ @AlwaysLinked Nat Nat _ _ ⟨id, fun _ => true, (· == 0)⟩
      [.addChildLocation 0 1, .obtain 0, .setParentLocation 1 none] (.initial fun _ => .empty) := by
  rintro ⟨_, _, _, first, _, _, _, second, _, out, after, third, linked⟩
  obtain ⟨rfl, rfl⟩ := Prod.mk.inj (Option.some.inj first)
  obtain ⟨rfl, rfl⟩ := Prod.mk.inj (Option.some.inj second)
  obtain ⟨refused, rfl⟩ := Prod.mk.inj (Option.some.inj third)
  exact absurd ((linked 0 1).mp (by decide)) (by decide)

end Steps
end LocationWorld
end Brooklyn
