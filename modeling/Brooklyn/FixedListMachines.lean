import Brooklyn.LocationOutcomes

/-!
The machines of `FixedListMachineProvisioningLocation`, with the machines in use among them.
A machine that was obtained stays in use until one that equals it is released, and what is
in use is not taken from the machines. Only a removal that finds another child equal to the
one it is given may throw too late: when the parent of that one refuses to let it go.
-/

namespace Brooklyn

variable {Ref Id : Type} [DecidableEq Ref] [DecidableEq Id] {kinds : LocationKinds Ref Id}

namespace LocationWorld

abbrev Answered (Ref : Type) : Type :=
  LocationCall Ref × Except (LocationFault Ref) (LocationAnswer Ref)

/-- The calls, each with its answer. -/
def trace : List (LocationCall Ref) → LocationWorld kinds → List (Answered Ref)
  | [], _ => []
  | call :: rest, world =>
      match call.perform world with
      | none => []
      | some (out, after) => (call, out) :: trace rest after

omit [DecidableEq Ref] [DecidableEq Id] in
/-- Between two obtains of a machine there is a release. -/
def ObtainedOnce (kinds : LocationKinds Ref Id) (answers : List (Answered Ref)) : Prop :=
  ∀ earlier between later location machine again,
    answers = earlier ++ (.obtain location, .ok (.machine machine)) ::
      (between ++ (.obtain location, .ok (.machine again)) :: later) →
    kinds.id again = kinds.id machine →
    ∃ released, kinds.id released = kinds.id machine ∧
      (.release location released, .ok .nothing) ∈ between

section Right
variable (world after : LocationWorld kinds)

omit [DecidableEq Ref] [DecidableEq Id] in
structure SameMachines : Prop where
  machines : after.machines = world.machines
  inUse : after.inUse = world.inUse
  children : after.childLocations = world.childLocations

def InUseAmongMachines : Prop :=
  ∀ location machine, (world.inUse location).contains machine →
    (world.machines location).contains machine

/-- What a call has to answer, and to leave as it was. -/
def Accounts (out : Except (LocationFault Ref) (LocationAnswer Ref)) : LocationCall Ref → Prop
  | .obtain location => out = .error (.noMachinesAvailable location) ↔
      ∀ machine, (world.machines location).contains machine →
        (world.inUse location).contains machine
  | .release _ _ => ∀ fault, out = .error fault → SameMachines world after
  | .removeChildLocation location _ => kinds.isFixedList location →
      ∀ fault, out = .error fault → SameMachines world after
  | _ => True

/-- A location that removes a child either refuses itself, or has no child that equals it, or
the parent of the child lets it go. -/
def RemovesWhole : LocationCall Ref → Prop
  | .removeChildLocation location child => kinds.isFixedList location →
      world.refuses location child ∨ world.hasEqual location child = false ∨
        ∀ parent, world.parentLocation child = some parent → world.refuses parent child = false
  | _ => True

end Right

def AlwaysAccounts : List (LocationCall Ref) → LocationWorld kinds → Prop
  | [], world => world.InUseAmongMachines
  | call :: rest, world => world.InUseAmongMachines ∧
      ∃ out after, call.perform world = some (out, after) ∧ Accounts world after out call ∧
        AlwaysAccounts rest after

def AlwaysRemovesWhole : List (LocationCall Ref) → LocationWorld kinds → Prop
  | [], _ => True
  | call :: rest, world => world.RemovesWhole call ∧
      ∀ out after, call.perform world = some (out, after) → AlwaysRemovesWhole rest after

section Steps
variable {world after : LocationWorld kinds} {location child : Ref}

/-- What is in use is as before, and still among the machines. -/
structure KeepsUse (before after : LocationWorld kinds) : Prop where
  inUse : after.inUse = before.inUse
  among : before.InUseAmongMachines → after.InUseAmongMachines

omit [DecidableEq Ref] in
theorem KeepsUse.refl (world : LocationWorld kinds) : KeepsUse world world :=
  ⟨rfl, id⟩

omit [DecidableEq Ref] in
theorem KeepsUse.trans {before middle after : LocationWorld kinds} (first : KeepsUse before middle)
    (second : KeepsUse middle after) : KeepsUse before after :=
  ⟨second.inUse.trans first.inUse, second.among ∘ first.among⟩

theorem keepsUse_drop (allows : world.refuses location child = false) :
    KeepsUse world (world.drop location child) := by
  unfold drop dropMachine
  unfold refuses at allows
  split
  · next isFixedList =>
    rw [isFixedList, Bool.true_and] at allows
    refine ⟨rfl, fun among other machine used => ?_⟩
    change (Function.update world.machines location _ other).contains machine = true
    rw [Function.update_apply]
    split
    · next same =>
      subst same
      refine (KeyedSet.contains_remove _ _ _).mpr ⟨among other machine used, fun equal => ?_⟩
      have used : (world.inUse other).contains machine = true := used
      rw [KeyedSet.contains, equal] at used
      exact absurd used (Bool.eq_false_iff.mp allows)
    · exact among other machine used
  · exact ⟨rfl, id⟩

theorem keepsUse_admitting (location child : Ref) :
    KeepsUse world (world.admitting location child).2 := by
  unfold admitting
  split
  · split
    · refine ⟨rfl, fun among other machine used => ?_⟩
      change (Function.update world.machines location _ other).contains machine = true
      rw [Function.update_apply]
      split
      · next same =>
        subst same
        exact (KeyedSet.contains_add _ _ _).mpr (Or.inl (among other machine used))
      · exact among other machine used
    · exact .refl world
  · exact .refl world

theorem keepsUse_leaving (child : Ref) : KeepsUse world (world.leaving child).2 := by
  unfold leaving
  split
  · exact .refl world
  · split
    · exact ⟨rfl, id⟩
    · next allows =>
      have forgotten : KeepsUse world (world.setParent child none) := ⟨rfl, id⟩
      exact forgotten.trans (keepsUse_drop (Bool.eq_false_iff.mpr allows))

theorem keepsUse_joining (location child : Ref) :
    KeepsUse world (world.joining location child).2 := by
  have listed : KeepsUse world (world.list location child) := by
    unfold list
    split <;> exact ⟨rfl, id⟩
  exact listed.trans (keepsUse_admitting location child)

theorem keepsUse_settingParent (child : Ref) (parent : Option Ref) :
    KeepsUse world (world.settingParent child parent).2 := by
  have left : KeepsUse world (world.leaving child).2 := keepsUse_leaving child
  unfold settingParent
  split
  · exact .refl world
  split
  · exact .refl world
  generalize world.leaving child = outcome at left ⊢
  obtain ⟨fault | _, after⟩ := outcome
  · exact left
  · cases parent with
    | none => exact left
    | some newParent =>
      have given : KeepsUse after (after.setParent child (some newParent)) := ⟨rfl, id⟩
      exact left.trans (given.trans (keepsUse_joining newParent child))

theorem keepsUse_addingChild (location child : Ref) :
    KeepsUse world (world.addingChild location child).2 := by
  unfold addingChild
  split
  · exact keepsUse_admitting location child
  · have added : KeepsUse world (world.addChild location child) := ⟨rfl, id⟩
    have set := added.trans (keepsUse_settingParent child (some location))
    generalize (world.addChild location child).settingParent child (some location) = outcome
      at set ⊢
    obtain ⟨fault | _, after⟩ := outcome
    · exact set
    · exact set.trans (keepsUse_admitting location child)

theorem keepsUse_removingChild (location child : Ref) :
    KeepsUse world (world.removingChild location child).2 := by
  unfold removingChild
  cases refuses : world.refuses location child with
  | true => exact .refl world
  | false =>
    have dropped := keepsUse_drop refuses
    have left := dropped.trans (keepsUse_leaving child)
    rw [if_neg Bool.false_ne_true]
    split
    · generalize (world.drop location child).leaving child = outcome at left ⊢
      obtain ⟨fault | _, after⟩ := outcome <;> exact left
    · exact dropped

omit [DecidableEq Ref] in
theorem held_eq_false_iff : world.held child = false ↔
    ∀ parent, world.parentLocation child = some parent → world.refuses parent child = false := by
  unfold held
  cases world.parentLocation child <;> simp

theorem drop_changes (equal : world.hasEqual location child) :
    (world.drop location child).childLocations ≠ world.childLocations := by
  intro same
  have here := congrArg (fun children => (children location).length) same
  obtain ⟨other, member, equal⟩ := List.any_eq_true.mp equal
  rw [childLocations_drop] at here
  rw [Function.update_self, List.length_eraseP_of_mem member equal] at here
  have some : 0 < (world.childLocations location).length := List.length_pos_of_mem member
  omega

theorem removingChild_accounts_iff (location child : Ref) :
    Accounts world (world.outcome (.removeChildLocation location child)).2
        (world.outcome (.removeChildLocation location child)).1
        (.removeChildLocation location child) ↔
      world.RemovesWhole (.removeChildLocation location child) := by
  dsimp only [Accounts, RemovesWhole, outcome]
  refine forall_congr' fun _ => ?_
  rw [← held_eq_false_iff]
  unfold removingChild
  cases refuses : world.refuses location child with
  | true => exact iff_of_true (fun _ _ => ⟨rfl, rfl, rfl⟩) (Or.inl rfl)
  | false =>
  rw [or_iff_right Bool.false_ne_true, if_neg Bool.false_ne_true]
  cases equal : world.hasEqual location child with
  | false => exact iff_of_true (fun _ thrown => by cases thrown) (Or.inl rfl)
  | true =>
  rw [or_iff_right (Bool.false_ne_true ∘ Eq.symm), if_pos rfl]
  have same : (world.drop location child).held child = world.held child := by
    unfold held
    rw [parentLocation_drop]
    cases world.parentLocation child with
    | none => rfl
    | some parent => exact refuses_drop ..
  cases held : world.held child with
  | true =>
    obtain ⟨fault, left⟩ := leaving_held (same.trans held)
    rw [left]
    refine iff_of_false (fun whole => ?_) (Bool.false_ne_true ∘ Eq.symm)
    exact drop_changes equal (whole fault rfl).children
  | false =>
    obtain ⟨after, left, _⟩ := leaving_free (same.trans held)
    rw [left]
    exact iff_of_true (fun _ thrown => by cases thrown) rfl

omit [DecidableEq Ref] in
open FixedListMachineProvisioningLocation in
theorem available_iff (location machine : Ref) :
    machine ∈ (getAvailable location world).elements ↔
      machine ∈ (world.machines location).elements ∧
        (world.inUse location).contains machine = false :=
  KeyedSet.mem_removeAll _ _ _

omit [DecidableEq Ref] in
open FixedListMachineProvisioningLocation in
theorem available_eq_nil_iff (location : Ref) :
    (getAvailable location world).elements = [] ↔
      ∀ machine, (world.machines location).contains machine →
        (world.inUse location).contains machine := by
  rw [List.eq_nil_iff_forall_not_mem]
  constructor
  · intro none machine member
    obtain ⟨other, there, same⟩ := KeyedSet.contains_iff.mp member
    rw [KeyedSet.contains_congr _ same.symm]
    by_contra free
    exact none other ((available_iff location other).mpr ⟨there, Bool.eq_false_iff.mpr free⟩)
  · intro all machine available
    obtain ⟨there, free⟩ := (available_iff location machine).mp available
    rw [all machine (KeyedSet.contains_of_mem there)] at free
    cases free

variable (world) in
/-- What `obtain` gives is a machine that was not in use, and is now. -/
theorem obtaining_cases (location : Ref) :
    (world.obtaining location = (.error (.noMachinesAvailable location), world) ∧
      ∀ machine, (world.machines location).contains machine →
        (world.inUse location).contains machine) ∨
    ∃ machine, world.obtaining location =
        (.ok machine, world.setInUse location ((world.inUse location).add machine)) ∧
      machine ∈ (world.machines location).elements ∧
        (world.inUse location).contains machine = false := by
  unfold obtaining
  cases available : (FixedListMachineProvisioningLocation.getAvailable location world).elements with
  | nil => exact Or.inl ⟨rfl, (available_eq_nil_iff location).mp available⟩
  | cons machine rest =>
    refine Or.inr ⟨machine, rfl, (available_iff location machine).mp ?_⟩
    rw [available]
    exact List.mem_cons_self

theorem obtain_accounts (location : Ref) :
    Accounts world (world.outcome (.obtain location)).2 (world.outcome (.obtain location)).1
      (.obtain location) := by
  dsimp only [Accounts, outcome]
  rcases obtaining_cases world location with ⟨obtained, all⟩ |
    ⟨machine, obtained, member, free⟩
  · rw [obtained]
    exact iff_of_true rfl all
  · rw [obtained]
    refine iff_of_false (fun thrown => by cases thrown) fun all => ?_
    rw [all machine (KeyedSet.contains_of_mem member)] at free
    cases free

theorem outcome_accounts_iff (call : LocationCall Ref) :
    Accounts world (world.outcome call).2 (world.outcome call).1 call ↔ world.RemovesWhole call := by
  cases call with
  | setParentLocation location parent => exact Iff.rfl
  | addChildLocation location child => exact Iff.rfl
  | removeChildLocation location child => exact removingChild_accounts_iff location child
  | obtain location => exact iff_of_true (obtain_accounts location) trivial
  | release location machine =>
    refine iff_of_true (fun fault thrown => ?_) trivial
    unfold outcome releasing at thrown ⊢
    dsimp only at thrown ⊢
    split at thrown
    · cases thrown
    · next absent =>
      rw [if_neg absent]
      exact ⟨rfl, rfl, rfl⟩

theorem outcome_among (among : world.InUseAmongMachines) (call : LocationCall Ref) :
    (world.outcome call).2.InUseAmongMachines := by
  cases call with
  | setParentLocation location parent => exact (keepsUse_settingParent location parent).among among
  | addChildLocation location child => exact (keepsUse_addingChild location child).among among
  | removeChildLocation location child =>
    exact (keepsUse_removingChild location child).among among
  | obtain location =>
    dsimp only [outcome]
    rcases obtaining_cases world location with ⟨obtained, _⟩ |
      ⟨machine, obtained, member, _⟩
    · rw [obtained]
      exact among
    · rw [obtained]
      intro other used there
      change (Function.update world.inUse location _ other).contains used = true at there
      rw [Function.update_apply] at there
      split at there
      · next same =>
        subst same
        rcases (KeyedSet.contains_add _ _ _).mp there with earlier | equal
        · exact among other used earlier
        · change (world.machines other).contains used = true
          rw [KeyedSet.contains_congr _ equal]
          exact KeyedSet.contains_of_mem member
      · exact among other used there
  | release location machine =>
    dsimp only [outcome]
    unfold releasing
    split
    · intro other used there
      change (Function.update world.inUse location _ other).contains used = true at there
      rw [Function.update_apply] at there
      split at there
      · next same =>
        subst same
        exact among other used ((KeyedSet.contains_remove _ _ _).mp there).1
      · exact among other used there
    · exact among

theorem always_accounts_iff (among : world.InUseAmongMachines) (calls : List (LocationCall Ref)) :
    AlwaysAccounts calls world ↔ AlwaysRemovesWhole calls world := by
  induction calls generalizing world with
  | nil => exact iff_of_true among trivial
  | cons call rest ih =>
    have first := @outcome_accounts_iff _ _ _ _ _ world call
    have later := outcome_among among call
    unfold AlwaysAccounts AlwaysRemovesWhole
    rw [perform_ran, and_iff_right among]
    constructor
    · rintro ⟨out, after, ran, accounts, always⟩
      rw [Option.some.inj ran] at first later
      refine ⟨first.mp accounts, fun _ _ again => ?_⟩
      cases ran.symm.trans again
      exact (ih later).mp always
    · rintro ⟨whole, others⟩
      exact ⟨_, _, rfl, first.mpr whole, (ih later).mpr (others _ _ rfl)⟩

theorem trace_cons (call : LocationCall Ref) (rest : List (LocationCall Ref)) :
    trace (call :: rest) world =
      (call, (world.outcome call).1) :: trace rest (world.outcome call).2 := by
  rw [trace, perform_ran]

/-- What follows some answers are the answers of the calls that are left. -/
theorem trace_append {calls : List (LocationCall Ref)} {earlier later : List (Answered Ref)}
    (traced : trace calls world = earlier ++ later) :
    ∃ (rest : List (LocationCall Ref)) (after : LocationWorld kinds), trace rest after = later := by
  induction earlier generalizing calls world with
  | nil => exact ⟨calls, world, traced⟩
  | cons answer earlier ih =>
    cases calls with
    | nil => cases traced
    | cons call rest =>
      rw [trace_cons] at traced
      exact ih (List.cons.inj traced).2

/-- Only the release of an equal machine ends the use of a machine. -/
theorem stays_in_use {machine : Ref} (used : (world.inUse location).contains machine)
    (call : LocationCall Ref) :
    ((world.outcome call).2.inUse location).contains machine ∨
      ∃ released, call = .release location released ∧ kinds.id released = kinds.id machine ∧
        (world.outcome call).1 = .ok .nothing := by
  have unchanged {after : LocationWorld kinds} (keeps : KeepsUse world after) :
      (after.inUse location).contains machine := by
    rw [keeps.inUse]
    exact used
  cases call with
  | setParentLocation other parent => exact Or.inl (unchanged (keepsUse_settingParent other parent))
  | addChildLocation other child => exact Or.inl (unchanged (keepsUse_addingChild other child))
  | removeChildLocation other child => exact Or.inl (unchanged (keepsUse_removingChild other child))
  | obtain other =>
    refine Or.inl ?_
    dsimp only [outcome]
    rcases obtaining_cases world other with ⟨obtained, _⟩ | ⟨given, obtained, _⟩
    · rw [obtained]
      exact used
    · rw [obtained]
      change (Function.update world.inUse other _ location).contains machine = true
      rw [Function.update_apply]
      split
      · next same => exact same ▸ (KeyedSet.contains_add _ _ _).mpr (Or.inl used)
      · exact used
  | release other released =>
    dsimp only [outcome]
    unfold releasing
    split
    · by_cases here : location = other ∧ kinds.id released = kinds.id machine
      · exact Or.inr ⟨released, here.1 ▸ rfl, here.2, rfl⟩
      · refine Or.inl ?_
        change (Function.update world.inUse other _ location).contains machine = true
        rw [Function.update_apply]
        split
        · next same =>
          subst same
          exact (KeyedSet.contains_remove _ _ _).mpr ⟨used, fun equal => here ⟨rfl, equal.symm⟩⟩
        · exact used
    · exact Or.inl used

theorem obtained_again {calls : List (LocationCall Ref)} {machine again : Ref}
    {between later : List (Answered Ref)} (used : (world.inUse location).contains machine)
    (traced : trace calls world =
      between ++ (.obtain location, .ok (.machine again)) :: later)
    (same : kinds.id again = kinds.id machine) :
    ∃ released, kinds.id released = kinds.id machine ∧
      (.release location released, .ok .nothing) ∈ between := by
  induction between generalizing calls world with
  | nil =>
    cases calls with
    | nil => cases traced
    | cons call rest =>
      rw [trace_cons] at traced
      obtain ⟨rfl, out⟩ := Prod.mk.inj (List.cons.inj traced).1
      dsimp only [outcome] at out
      rcases obtaining_cases world location with ⟨obtained, _⟩ |
        ⟨given, obtained, _, free⟩
      · rw [obtained] at out
        cases out
      · rw [obtained] at out
        cases out
        rw [KeyedSet.contains_congr _ same, used] at free
        cases free
  | cons answer between ih =>
    cases calls with
    | nil => cases traced
    | cons call rest =>
      rw [trace_cons] at traced
      obtain ⟨rfl, rest'⟩ := List.cons.inj traced
      rcases stays_in_use used call with still | ⟨released, rfl, equal, out⟩
      · obtain ⟨released, equal, member⟩ := ih still rest'
        exact ⟨released, equal, List.mem_cons_of_mem _ member⟩
      · refine ⟨released, equal, ?_⟩
        rw [out]
        exact List.mem_cons_self

theorem trace_obtainedOnce (calls : List (LocationCall Ref)) :
    ObtainedOnce kinds (trace calls world) := by
  intro earlier between later location machine again traced same
  obtain ⟨rest, after, left⟩ := trace_append traced
  cases rest with
  | nil => cases left
  | cons call rest =>
    rw [trace_cons] at left
    obtain ⟨first, left⟩ := List.cons.inj left
    obtain ⟨rfl, out⟩ := Prod.mk.inj first
    refine obtained_again ?_ left same
    dsimp only [outcome] at out ⊢
    rcases obtaining_cases after location with ⟨obtained, _⟩ | ⟨given, obtained, _⟩
    · rw [obtained] at out
      cases out
    · rw [obtained] at out ⊢
      cases out
      change (Function.update after.inUse location _ location).contains machine = true
      rw [Function.update_self]
      exact (KeyedSet.contains_add _ _ _).mpr (Or.inr rfl)

/-- From new locations no machine is obtained twice without a release, what is in use is among
the machines, and `obtain` throws where all machines are in use. A release that throws changes
nothing, and a removal that throws changes nothing exactly as long as no removal finds a child
that equals one whose own parent refuses to let it go. -/
theorem fixed_list_machines_iff (machines : Ref → KeyedSet kinds.id)
    (calls : List (LocationCall Ref)) :
    ObtainedOnce kinds (trace calls (.initial machines)) ∧ AlwaysAccounts calls (.initial machines) ↔
      AlwaysRemovesWhole calls (.initial machines) := by
  rw [and_iff_right (trace_obtainedOnce calls)]
  refine always_accounts_iff (fun location machine used => ?_) calls
  cases used

/-- The pool 0 removes its machine 2 for the equal machine 12 of the pool 1, which is in use
there: the call throws, and the machine is gone. -/
theorem removal_throws_too_late :
    ¬ @AlwaysAccounts Nat Nat _ _ ⟨(· % 10), fun _ => true, (· < 2)⟩
      [.addChildLocation 0 2, .addChildLocation 1 12, .obtain 1, .removeChildLocation 0 12]
      (.initial fun _ => .empty) := by
  rintro ⟨_, _, _, first, _, _, _, _, second, _, _, _, _, third, _, _, _, _, fourth, whole, _⟩
  obtain ⟨rfl, rfl⟩ := Prod.mk.inj (Option.some.inj first)
  obtain ⟨rfl, rfl⟩ := Prod.mk.inj (Option.some.inj second)
  obtain ⟨rfl, rfl⟩ := Prod.mk.inj (Option.some.inj third)
  obtain ⟨rfl, rfl⟩ := Prod.mk.inj (Option.some.inj fourth)
  have same := congrArg (· 0) (whole rfl _ rfl).children
  exact absurd same (by decide)

end Steps
end LocationWorld
end Brooklyn
