import Brooklyn.LocationTree

/-!
What the calls on the location tree come to. They call one another, but only to a fixed
depth, so each returns or throws, and its outcome is written down here without the calls:
`leaving` takes a location from its parent, `joining` lists it with its new one, and
`admitting` makes it a machine.
-/

namespace Brooklyn

variable {Ref Id : Type} [DecidableEq Ref] [DecidableEq Id] {kinds : LocationKinds Ref Id}

abbrev LocationOutcome (kinds : LocationKinds Ref Id) (Value : Type) : Type :=
  Except (LocationFault Ref) Value × LocationWorld kinds

namespace LocationWorld

variable (world : LocationWorld kinds) (location child : Ref)

omit [DecidableEq Ref] in
/-- A machine in use may not be taken away. -/
def refuses : Bool :=
  kinds.isFixedList location && (world.inUse location).contains child

def dropMachine : LocationWorld kinds :=
  if kinds.isFixedList location then
    world.setMachines location ((world.machines location).remove child)
  else world

def drop : LocationWorld kinds :=
  (world.dropMachine location child).removeChild location child

def leaving : LocationOutcome kinds Unit :=
  match world.parentLocation child with
  | none => (.ok (), world)
  | some oldParent =>
      if world.refuses oldParent child then
        (.error (.childInUse child oldParent), world.setParent child none)
      else (.ok (), (world.setParent child none).drop oldParent child)

def admitting : LocationOutcome kinds Unit :=
  if kinds.isFixedList location then
    if kinds.isMachineLocation child then
      (.ok (), world.setMachines location ((world.machines location).add child))
    else (.error (.classCast child), world)
  else (.ok (), world)

omit [DecidableEq Id] in
def list : LocationWorld kinds :=
  if child ∈ world.childLocations location then world else world.addChild location child

def joining : LocationOutcome kinds Unit :=
  (world.list location child).admitting location child

def settingParent (parent : Option Ref) : LocationOutcome kinds Unit :=
  if parent = some location then (.error (.cannotBeItsOwnParent location), world)
  else if parent = world.parentLocation location then (.ok (), world)
  else
    match world.leaving location, parent with
    | (.error fault, after), _ => (.error fault, after)
    | (.ok _, after), none => (.ok (), after)
    | (.ok _, after), some newParent =>
        (after.setParent location (some newParent)).joining newParent location

def addingChild : LocationOutcome kinds Unit :=
  if child ∈ world.childLocations location then world.admitting location child
  else
    match (world.addChild location child).settingParent child (some location) with
    | (.error fault, after) => (.error fault, after)
    | (.ok _, after) => after.admitting location child

def removingChild : LocationOutcome kinds Bool :=
  if world.refuses location child then (.error (.childInUse child location), world)
  else if world.hasEqual location child then
    match (world.drop location child).leaving child with
    | (.error fault, after) => (.error fault, after)
    | (.ok _, after) => (.ok true, after)
  else (.ok false, world.drop location child)

def obtaining : LocationOutcome kinds Ref :=
  match (FixedListMachineProvisioningLocation.getAvailable location world).elements with
  | [] => (.error (.noMachinesAvailable location), world)
  | machine :: _ => (.ok machine, world.setInUse location ((world.inUse location).add machine))

def releasing (machine : Ref) : LocationOutcome kinds Unit :=
  if (world.inUse location).contains machine then
    (.ok (), world.setInUse location ((world.inUse location).remove machine))
  else (.error (.notAllocated machine), world)

def outcome : LocationCall Ref → LocationOutcome kinds (LocationAnswer Ref)
  | .setParentLocation location parent =>
      ((world.settingParent location parent).1.map fun _ => .nothing,
        (world.settingParent location parent).2)
  | .addChildLocation location child =>
      ((world.addingChild location child).1.map fun _ => .nothing,
        (world.addingChild location child).2)
  | .removeChildLocation location child =>
      ((world.removingChild location child).1.map .removed, (world.removingChild location child).2)
  | .obtain location => ((world.obtaining location).1.map .machine, (world.obtaining location).2)
  | .release location machine =>
      ((world.releasing location machine).1.map fun _ => .nothing,
        (world.releasing location machine).2)

end LocationWorld

section Calls
variable {world : LocationWorld kinds} {location child : Ref}

omit [DecidableEq Id] in
theorem parentLocation_setParent_self (child : Ref) (parent : Option Ref) :
    (world.setParent child parent).parentLocation child = parent :=
  Function.update_self _ _ _

theorem refuses_setParent {other : Ref} {parent : Option Ref} {refuses : Bool}
    (before : world.refuses location child = refuses) :
    (world.setParent other parent).refuses location child = refuses :=
  before

theorem setParentLocation_orphan (bound : Nat) (orphan : world.parentLocation child = none) :
    setParentLocation (bound + 1) child none world = some (.ok (), world) := by
  unfold setParentLocation
  rw [Effect.read_bind, orphan]
  rfl

theorem removeChildLocation_refused (bound : Nat) (refuses : world.refuses location child) :
    removeChildLocation (bound + 1) location child world =
      some (.error (.childInUse child location), world) := by
  obtain ⟨isFixedList, inUse⟩ := Bool.and_eq_true_iff.mp refuses
  unfold removeChildLocation
  rw [if_pos isFixedList, Effect.read_bind, if_pos inUse]
  rfl

theorem removeChildLocation_drops (bound : Nat) (allows : world.refuses location child = false) :
    removeChildLocation (bound + 1) location child world =
      AbstractLocation.removeChildLocation bound location child
        (world.dropMachine location child) := by
  unfold removeChildLocation LocationWorld.dropMachine
  split
  · next isFixedList =>
    rw [LocationWorld.refuses, isFixedList, Bool.true_and] at allows
    rw [Effect.read_bind, if_neg (Bool.not_eq_true _ ▸ allows)]
    rfl
  · rfl

theorem parentLocation_drop :
    (world.drop location child).parentLocation = world.parentLocation := by
  unfold LocationWorld.drop LocationWorld.dropMachine
  split <;> rfl

theorem hasEqual_dropMachine :
    (world.dropMachine location child).hasEqual location child = world.hasEqual location child := by
  unfold LocationWorld.dropMachine
  split <;> rfl

theorem removeChildLocation_ran (bound : Nat) (allows : world.refuses location child = false)
    {outcome : LocationOutcome kinds Unit}
    (left : setParentLocation bound child none (world.drop location child) = some outcome) :
    removeChildLocation (bound + 2) location child world =
      if world.hasEqual location child then
        match outcome with
        | (.error fault, after) => some (.error fault, after)
        | (.ok _, after) => some (.ok true, after)
      else some (.ok false, world.drop location child) := by
  rw [removeChildLocation_drops _ allows]
  unfold AbstractLocation.removeChildLocation
  rw [Effect.read_bind, hasEqual_dropMachine, Effect.modify_bind]
  cases world.hasEqual location child with
  | false => rfl
  | true =>
    rw [if_pos rfl, if_pos rfl]
    obtain ⟨fault | _, after⟩ := outcome
    · exact Effect.bind_thrown _ left
    · exact Effect.bind_apply _ left

theorem removeChildLocation_orphan (bound : Nat) (allows : world.refuses location child = false)
    (orphan : world.parentLocation child = none) :
    removeChildLocation (bound + 3) location child world =
      some (.ok (world.hasEqual location child), world.drop location child) := by
  have orphaned : (world.drop location child).parentLocation child = none := by
    rw [parentLocation_drop, orphan]
  rw [removeChildLocation_ran (bound + 1) allows (setParentLocation_orphan bound orphaned)]
  cases world.hasEqual location child <;> rfl

theorem setParentLocation_none (bound : Nat) :
    setParentLocation (bound + 4) child none world = some (world.leaving child) := by
  cases parent : world.parentLocation child with
  | none =>
    unfold LocationWorld.leaving
    rw [setParentLocation_orphan _ parent, parent]
  | some oldParent =>
    unfold setParentLocation LocationWorld.leaving
    rw [Effect.read_bind, parent]
    simp only [reduceCtorEq, if_false]
    rw [Effect.modify_bind]
    cases refuses : world.refuses oldParent child with
    | true =>
      exact Effect.bind_thrown _ (removeChildLocation_refused _ (refuses_setParent refuses))
    | false =>
      exact Effect.bind_apply _ (removeChildLocation_orphan _ (refuses_setParent refuses)
        (parentLocation_setParent_self _ _))

theorem addChildLocation_admits {bound : Nat} {middle : LocationWorld kinds}
    (listed : AbstractLocation.addChildLocation bound location child world =
      some (.ok (), middle)) :
    addChildLocation (bound + 1) location child world = some (middle.admitting location child) := by
  unfold addChildLocation LocationWorld.admitting
  rw [Effect.bind_apply _ listed]
  split
  · split <;> rfl
  · rfl

/-- A location that already has its new parent is only listed with it. -/
theorem addChildLocation_joins (bound : Nat) (parent : world.parentLocation child = some location)
    (different : location ≠ child) :
    addChildLocation (bound + 3) location child world = some (world.joining location child) := by
  have listed : AbstractLocation.addChildLocation (bound + 2) location child world =
      some (.ok (), world.list location child) := by
    unfold AbstractLocation.addChildLocation LocationWorld.list
    rw [Effect.read_bind]
    split
    · rfl
    · rw [Effect.modify_bind]
      unfold setParentLocation
      rw [Effect.read_bind, show (world.addChild location child).parentLocation child = some location
        from parent, if_neg fun same => different (Option.some.inj same), if_pos rfl]
      rfl
  exact addChildLocation_admits listed

theorem setParentLocation_ends (bound : Nat) (parent : Option Ref) :
    setParentLocation (bound + 4) child parent world = some (world.settingParent child parent) := by
  unfold LocationWorld.settingParent
  by_cases itself : parent = some child
  · unfold setParentLocation
    rw [Effect.read_bind, if_pos itself, if_pos itself]
    rfl
  rw [if_neg itself]
  by_cases same : parent = world.parentLocation child
  · unfold setParentLocation
    rw [Effect.read_bind, if_neg itself, if_pos same, if_pos same]
    rfl
  rw [if_neg same]
  cases parent with
  | none =>
    rw [setParentLocation_none]
    obtain ⟨out | _, after⟩ := world.leaving child <;> rfl
  | some newParent =>
    unfold setParentLocation LocationWorld.leaving
    rw [Effect.read_bind, if_neg itself, if_neg same]
    have different : newParent ≠ child := fun same => itself (congrArg some same)
    cases parent : world.parentLocation child with
    | none => exact addChildLocation_joins bound (parentLocation_setParent_self _ _) different
    | some oldParent =>
      dsimp only
      rw [Effect.modify_bind]
      cases refuses : world.refuses oldParent child with
      | true =>
        exact Effect.bind_thrown _ (removeChildLocation_refused _ (refuses_setParent refuses))
      | false =>
        rw [Effect.bind_apply _ (removeChildLocation_orphan _ (refuses_setParent refuses)
          (parentLocation_setParent_self _ _)), Effect.modify_bind]
        exact addChildLocation_joins bound (parentLocation_setParent_self _ _) different

theorem addChildLocation_ends (bound : Nat) :
    addChildLocation (bound + 6) location child world = some (world.addingChild location child) := by
  unfold LocationWorld.addingChild
  by_cases listed : child ∈ world.childLocations location
  · rw [if_pos listed]
    refine addChildLocation_admits ?_
    unfold AbstractLocation.addChildLocation
    rw [Effect.read_bind, if_pos listed]
    rfl
  · have added : AbstractLocation.addChildLocation (bound + 5) location child world =
        some ((world.addChild location child).settingParent child (some location)) := by
      unfold AbstractLocation.addChildLocation
      rw [Effect.read_bind, if_neg listed, Effect.modify_bind, setParentLocation_ends]
    rw [if_neg listed]
    generalize (world.addChild location child).settingParent child (some location) = outcome
      at added ⊢
    obtain ⟨fault | _, after⟩ := outcome
    · unfold addChildLocation
      exact Effect.bind_thrown _ added
    · exact addChildLocation_admits added

theorem removeChildLocation_ends (bound : Nat) :
    removeChildLocation (bound + 6) location child world =
      some (world.removingChild location child) := by
  unfold LocationWorld.removingChild
  cases refuses : world.refuses location child with
  | true => exact removeChildLocation_refused _ refuses
  | false =>
    rw [removeChildLocation_ran _ refuses (setParentLocation_none bound)]
    cases world.hasEqual location child with
    | false => rfl
    | true =>
      rw [if_pos rfl, if_neg Bool.false_ne_true, if_pos rfl]
      obtain ⟨fault | _, after⟩ := (world.drop location child).leaving child <;> rfl

theorem obtain_ends (location : Ref) :
    FixedListMachineProvisioningLocation.obtain location world = some (world.obtaining location) := by
  unfold FixedListMachineProvisioningLocation.obtain LocationWorld.obtaining
  simp only [FixedListMachineProvisioningLocation.canProvisionMore, Bool.false_eq_true, and_false,
    if_false, Effect.read_bind]
  generalize FixedListMachineProvisioningLocation.getAvailable location world = available
  obtain ⟨_ | ⟨machine, rest⟩, distinct⟩ := available <;> rfl

theorem release_ends (location machine : Ref) :
    FixedListMachineProvisioningLocation.release location machine world =
      some (world.releasing location machine) := by
  unfold FixedListMachineProvisioningLocation.release LocationWorld.releasing
  rw [Effect.read_bind]
  split <;> rfl

omit [DecidableEq Ref] [DecidableEq Id] in
theorem bind_answers {Value : Type} {operation : LocationOperation kinds Value}
    {outcome : LocationOutcome kinds Value} (ran : operation world = some outcome)
    (answer : Value → LocationAnswer Ref) :
    (operation >>= fun value => pure (answer value)) world =
      some (outcome.1.map answer, outcome.2) := by
  obtain ⟨fault | value, after⟩ := outcome
  · exact Effect.bind_thrown _ ran
  · exact Effect.bind_apply _ ran

theorem performWithin_ran (bound : Nat) (call : LocationCall Ref) :
    call.performWithin (bound + 6) world = some (world.outcome call) := by
  cases call with
  | setParentLocation location parent =>
    exact bind_answers (setParentLocation_ends (bound + 2) parent) _
  | addChildLocation location child => exact bind_answers (addChildLocation_ends bound) _
  | removeChildLocation location child => exact bind_answers (removeChildLocation_ends bound) _
  | obtain location => exact bind_answers (obtain_ends location) _
  | release location machine => exact bind_answers (release_ends location machine) _

theorem perform_ran (call : LocationCall Ref) : call.perform world = some (world.outcome call) :=
  performWithin_ran 0 call

/-- A greater bound changes nothing. -/
theorem performWithin_deeper (bound : Nat) (call : LocationCall Ref) :
    call.performWithin (bound + 6) world = call.perform world := by
  rw [performWithin_ran, perform_ran]

end Calls

/-! What an outcome leaves of the tree. -/
namespace LocationWorld
variable (world : LocationWorld kinds) (location child : Ref)

omit [DecidableEq Ref] in
/-- The parent does not let the child go. -/
def held : Bool :=
  match world.parentLocation child with
  | none => false
  | some parent => world.refuses parent child

/-- The children of the locations, without the first that equals the child at its parent. -/
def without : Ref → List Ref :=
  match world.parentLocation child with
  | none => world.childLocations
  | some parent => Function.update world.childLocations parent
      ((world.childLocations parent).eraseP fun other => kinds.id other = kinds.id child)

theorem childLocations_drop : (world.drop location child).childLocations =
    Function.update world.childLocations location
      ((world.childLocations location).eraseP fun other => kinds.id other = kinds.id child) := by
  unfold drop dropMachine
  split <;> rfl

theorem parentLocation_admitting :
    (world.admitting location child).2.parentLocation = world.parentLocation := by
  unfold admitting
  split
  · split <;> rfl
  · rfl

theorem childLocations_admitting :
    (world.admitting location child).2.childLocations = world.childLocations := by
  unfold admitting
  split
  · split <;> rfl
  · rfl

variable {world location child}

theorem leaving_held (held : world.held child) :
    ∃ fault, world.leaving child = (.error fault, world.setParent child none) := by
  unfold LocationWorld.held at held
  unfold leaving
  cases parent : world.parentLocation child with
  | none => simp [parent] at held
  | some parent =>
    simp only [parent] at held
    exact ⟨_, if_pos held⟩

theorem leaving_free (free : world.held child = false) :
    ∃ after, world.leaving child = (.ok (), after) ∧
      after.parentLocation = Function.update world.parentLocation child none ∧
      after.childLocations = world.without child := by
  unfold held at free
  unfold leaving without
  cases parent : world.parentLocation child with
  | none =>
    refine ⟨world, rfl, ?_, rfl⟩
    rw [← parent, Function.update_eq_self]
  | some parent =>
    simp only [parent] at free
    exact ⟨_, if_neg (Bool.eq_false_iff.mp free), parentLocation_drop, childLocations_drop _ _ _⟩

theorem settingParent_held {parent : Option Ref} (different : parent ≠ some child)
    (elsewhere : parent ≠ world.parentLocation child) (held : world.held child) :
    ∃ fault, world.settingParent child parent = (.error fault, world.setParent child none) := by
  obtain ⟨fault, left⟩ := leaving_held held
  unfold settingParent
  rw [if_neg different, if_neg elsewhere, left]
  exact ⟨fault, rfl⟩

theorem settingParent_leaves (moves : none ≠ world.parentLocation child)
    (free : world.held child = false) :
    (world.settingParent child none).2.parentLocation =
        Function.update world.parentLocation child none ∧
      (world.settingParent child none).2.childLocations = world.without child := by
  obtain ⟨after, left, parents, children⟩ := leaving_free free
  unfold settingParent
  rw [if_neg (by simp), if_neg moves, left]
  exact ⟨parents, children⟩

theorem settingParent_moves (different : location ≠ child)
    (elsewhere : world.parentLocation child ≠ some location) (free : world.held child = false) :
    (world.settingParent child (some location)).2.parentLocation =
        Function.update world.parentLocation child (some location) ∧
      (world.settingParent child (some location)).2.childLocations =
        if child ∈ world.without child location then world.without child
        else Function.update (world.without child) location
          (world.without child location ++ [child]) := by
  obtain ⟨after, left, parents, children⟩ := leaving_free free
  unfold settingParent
  rw [if_neg fun same => different (Option.some.inj same), if_neg (Ne.symm elsewhere), left]
  dsimp only
  unfold joining
  rw [parentLocation_admitting, childLocations_admitting, ← children]
  unfold list
  have parented : Function.update after.parentLocation child (some location) =
      Function.update world.parentLocation child (some location) := by
    rw [parents, Function.update_idem]
  split
  · next listed => exact ⟨parented, (if_pos listed).symm⟩
  · next unlisted => exact ⟨parented, (if_neg unlisted).symm⟩

theorem addingChild_itself (unlisted : child ∉ world.childLocations child) :
    (world.addingChild child child).2 = world.addChild child child := by
  unfold addingChild settingParent
  rw [if_neg unlisted, if_pos rfl]

theorem addingChild_held (different : location ≠ child)
    (unlisted : child ∉ world.childLocations location)
    (elsewhere : world.parentLocation child ≠ some location) (held : world.held child) :
    (world.addingChild location child).2 = (world.addChild location child).setParent child none := by
  obtain ⟨fault, set⟩ := @settingParent_held _ _ _ _ _ (world.addChild location child) child
    (some location) (fun same => different (Option.some.inj same)) (Ne.symm elsewhere) held
  unfold addingChild
  rw [if_neg unlisted, set]

theorem without_addChild (elsewhere : world.parentLocation child ≠ some location) :
    (world.addChild location child).without child =
      Function.update (world.without child) location
        (world.childLocations location ++ [child]) := by
  unfold without
  rw [show (world.addChild location child).parentLocation child = world.parentLocation child from rfl]
  cases parent : world.parentLocation child with
  | none => rfl
  | some oldParent =>
    have apart : oldParent ≠ location := fun same => elsewhere (same ▸ parent)
    dsimp only [addChild, setChildren]
    rw [Function.update_of_ne apart, Function.update_comm apart]

theorem addingChild_moves (different : location ≠ child)
    (unlisted : child ∉ world.childLocations location)
    (elsewhere : world.parentLocation child ≠ some location) (free : world.held child = false) :
    (world.addingChild location child).2.parentLocation =
        Function.update world.parentLocation child (some location) ∧
      (world.addingChild location child).2.childLocations =
        Function.update (world.without child) location
          (world.childLocations location ++ [child]) := by
  have moved := @settingParent_moves _ _ _ _ _ (world.addChild location child) location child
    different elsewhere free
  rw [without_addChild elsewhere, Function.update_self, if_pos (by simp)] at moved
  unfold addingChild
  rw [if_neg unlisted]
  generalize (world.addChild location child).settingParent child (some location) = outcome
    at moved ⊢
  obtain ⟨fault | _, after⟩ := outcome
  · exact moved
  · dsimp only
    rw [parentLocation_admitting, childLocations_admitting]
    exact moved

theorem without_subset (child location : Ref) :
    world.without child location ⊆ world.childLocations location := by
  unfold without
  cases world.parentLocation child with
  | none => exact fun _ member => member
  | some parent =>
    dsimp only
    rw [Function.update_apply]
    split
    · next same => exact same ▸ fun _ => List.mem_of_mem_eraseP
    · exact fun _ member => member

theorem without_elsewhere (elsewhere : world.parentLocation child ≠ some location) :
    world.without child location = world.childLocations location := by
  unfold without
  cases parented : world.parentLocation child with
  | none => rfl
  | some parent =>
    have apart : location ≠ parent := fun same => elsewhere (same ▸ parented)
    exact Function.update_of_ne apart _ _

theorem leaving_parents (world : LocationWorld kinds) (child : Ref) :
    (world.leaving child).2.parentLocation = Function.update world.parentLocation child none ∧
      ∀ location, (world.leaving child).2.childLocations location ⊆
        world.childLocations location := by
  cases held : world.held child with
  | true =>
    obtain ⟨fault, left⟩ := leaving_held held
    rw [left]
    exact ⟨rfl, fun _ _ member => member⟩
  | false =>
    obtain ⟨after, left, parents, children⟩ := leaving_free held
    rw [left]
    refine ⟨parents, fun location => ?_⟩
    dsimp only
    rw [children]
    exact without_subset child location

theorem removingChild_leaves (refuses : world.refuses location child = false)
    (equal : world.hasEqual location child) :
    (world.removingChild location child).2 = ((world.drop location child).leaving child).2 := by
  unfold removingChild
  rw [if_neg (by simp [refuses]), if_pos equal]
  obtain ⟨fault | _, after⟩ := (world.drop location child).leaving child <;> rfl

theorem refuses_drop (location child parent other : Ref) :
    (world.drop location child).refuses parent other = world.refuses parent other := by
  unfold drop dropMachine
  split <;> rfl

end LocationWorld
end Brooklyn
