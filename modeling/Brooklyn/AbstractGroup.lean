import Brooklyn.EntityReferences

/-!
`AbstractGroup` and the groups of its members. Each call on a group comes to a list of
changes of the membership, which are the abstract model: who is a member, which groups an
entity has, and what was emitted. A null entity is `none`. Left out are the listener that
persists changes, and the application that `addGroup` looks up.
-/

namespace Brooklyn

variable {Ref Id : Type}

inductive MembershipEvent (Ref : Type) where
  | memberAdded (member : Ref)
  | memberRemoved (member : Ref)
deriving DecidableEq

/-- `_members` and `GROUP_SIZE` of every group, `groups` of every entity, and the events
that were emitted, each with its group. -/
structure GroupWorld (Ref Id : Type) where
  members : Ref → EntityCollectionReference Ref Id
  groupSize : Ref → Nat
  groups : Ref → EntityCollectionReference Ref Id
  emitted : List (Ref × MembershipEvent Ref)

inductive GroupFault where
  | nullPointer

abbrev GroupOperation (Ref Id Value : Type) : Type := Effect (GroupWorld Ref Id) GroupFault Value

namespace AbstractGroup
variable [DecidableEq Ref] [DecidableEq Id] (who : Identity Ref Id) (getEntity : Id → Option Ref)

def setReference (group : Ref) (reference : EntityCollectionReference Ref Id)
    (world : GroupWorld Ref Id) : GroupWorld Ref Id :=
  { world with members := Function.update world.members group reference }

def addGroup (member group : Ref) (world : GroupWorld Ref Id) : GroupWorld Ref Id :=
  { world with
    groups := Function.update world.groups member ((world.groups member).add who group) }

def emit (group : Ref) (event : MembershipEvent Ref) (world : GroupWorld Ref Id) :
    GroupWorld Ref Id :=
  { world with emitted := world.emitted ++ [(group, event)] }

/-- `setAttribute(GROUP_SIZE, getCurrentSize())` -/
def publishSize (group : Ref) (world : GroupWorld Ref Id) : GroupWorld Ref Id :=
  { world with groupSize := Function.update world.groupSize group (world.members group).size }

def addMember (group : Ref) : Option Ref → GroupOperation Ref Id Bool
  | none => .throw .nullPointer
  | some member => do
    Effect.modify (addGroup who member group)
    let changed ← Effect.read fun world => !(world.members group).contains who member
    Effect.modify fun world =>
      setReference group ((world.members group).add who member) world
    if changed then
      Effect.modify (emit group (.memberAdded member))
      Effect.modify (publishSize group)
    pure changed

def removeMember (group : Ref) : Option Ref → GroupOperation Ref Id Bool
  | none => pure false
  | some member => do
    let removed ← Effect.read fun world => (world.members group).remove who member
    Effect.modify (setReference group removed.2)
    if removed.1 then
      Effect.modify (emit group (.memberRemoved member))
      Effect.modify (publishSize group)
    pure removed.1

def getMembers (group : Ref) : GroupOperation Ref Id (List Ref) := do
  let found ← Effect.read fun world => (world.members group).get who getEntity
  Effect.modify (setReference group found.2)
  pure found.1

def accepts (filter : Option (Option Ref → Bool)) (member : Option Ref) : Bool :=
  match filter with
  | none => true
  | some apply => apply member

def setMembers (group : Ref) (mm : List (Option Ref)) (filter : Option (Option Ref → Bool)) :
    GroupOperation Ref Id PUnit := do
  let mmo ← getMembers who getEntity group
  Effect.forEach mmo fun m => do
    if !(mm.contains (some m) && accepts filter (some m)) then
      let _ ← removeMember who group (some m)
  Effect.forEach mm fun m => do
    if !(mmo.map some).contains m && accepts filter m then
      let _ ← addMember who group m

inductive Call (Ref : Type) where
  | addMember (group : Ref) (member : Option Ref)
  | removeMember (group : Ref) (member : Option Ref)
  | setMembers (group : Ref) (mm : List (Option Ref)) (filter : Option (Option Ref → Bool))

def perform : Call Ref → GroupOperation Ref Id PUnit
  | .addMember group member => do let _ ← addMember who group member
  | .removeMember group member => do let _ ← removeMember who group member
  | .setMembers group mm filter => setMembers who getEntity group mm filter

/-- A call that throws ends there, and the next call comes. -/
def run : List (Call Ref) → GroupWorld Ref Id → Option (GroupWorld Ref Id)
  | [], world => some world
  | call :: rest, world => (perform who getEntity call world).bind fun ran => run rest ran.2

end AbstractGroup
end Brooklyn

/-!
What a call on a group comes to: a list of changes of the memberships. A change adds or
removes one member and emits what it did; only an addition touches the groups of the
entity. The calls of `AbstractGroup` refine their changes, one after another, from any
membership whose references are complete.
-/

namespace Brooklyn

variable {Ref Id : Type} [DecidableEq Ref]

/-- Who is a member of which group, which groups an entity has, and what was emitted. -/
structure Memberships (Ref : Type) where
  members : Ref → LinkedSet Ref
  groups : Ref → LinkedSet Ref
  emitted : List (Ref × MembershipEvent Ref)

inductive MembershipChange (Ref : Type) where
  | add (group member : Ref)
  | remove (group member : Ref)

namespace Memberships
open AbstractGroup (accepts Call)

def change (memberships : Memberships Ref) : MembershipChange Ref → Memberships Ref
  | .add group member =>
      { members := Function.update memberships.members group
          ((memberships.members group).add member)
        groups := Function.update memberships.groups member ((memberships.groups member).add group)
        emitted := if member ∈ memberships.members group then memberships.emitted
          else memberships.emitted ++ [(group, .memberAdded member)] }
  | .remove group member =>
      { memberships with
        members := Function.update memberships.members group
          ((memberships.members group).remove member)
        emitted := if member ∈ memberships.members group then
            memberships.emitted ++ [(group, .memberRemoved member)]
          else memberships.emitted }

def changeAll (memberships : Memberships Ref) (changes : List (MembershipChange Ref)) :
    Memberships Ref :=
  changes.foldl change memberships

/-- `setMembers` keeps the members that are being set and not filtered out. -/
def wanted (mm : List (Option Ref)) (filter : Option (Option Ref → Bool)) (m : Ref) : Bool :=
  mm.contains (some m) && accepts filter (some m)

theorem wanted_iff (mm : List (Option Ref)) (filter : Option (Option Ref → Bool)) (m : Ref) :
    wanted mm filter m ↔ some m ∈ mm ∧ accepts filter (some m) := by
  simp [wanted]

def dropped (members : LinkedSet Ref) (mm : List (Option Ref))
    (filter : Option (Option Ref → Bool)) : List Ref :=
  members.elements.filter fun m => !wanted mm filter m

/-- A null that would be added ends the call. -/
def added (members : LinkedSet Ref) (mm : List (Option Ref))
    (filter : Option (Option Ref → Bool)) : List (Option Ref) :=
  mm.filter fun m => !(members.elements.map some).contains m && accepts filter m

theorem mem_added (members : LinkedSet Ref) (mm : List (Option Ref))
    (filter : Option (Option Ref → Bool)) (m : Ref) :
    some m ∈ added members mm filter ↔ m ∉ members ∧ some m ∈ mm ∧ accepts filter (some m) := by
  have inside : some m ∈ members.elements.map some ↔ m ∈ members :=
    List.mem_map_of_injective fun _ _ => Option.some.inj
  simp only [added, List.mem_filter, Bool.and_eq_true, Bool.not_eq_true', List.contains_eq_mem,
    decide_eq_false_iff_not, inside]
  exact and_left_comm

def changes (memberships : Memberships Ref) : Call Ref → List (MembershipChange Ref)
  | .addMember group member => (member.map (.add group)).toList
  | .removeMember group member => (member.map (.remove group)).toList
  | .setMembers group mm filter =>
      (dropped (memberships.members group) mm filter).map (.remove group) ++
        (((added (memberships.members group) mm filter).takeWhile Option.isSome).filterMap id).map
          (.add group)

omit [DecidableEq Ref] in
/-- The entity's side and the group's side agree. -/
def Linked (memberships : Memberships Ref) : Prop :=
  ∀ group member, member ∈ memberships.members group ↔ group ∈ memberships.groups member

variable [DecidableEq Id] {who : Identity Ref Id} {getEntity : Id → Option Ref}

structure Represents (who : Identity Ref Id) (world : GroupWorld Ref Id)
    (memberships : Memberships Ref) : Prop where
  members : ∀ group, (world.members group).Complete who (memberships.members group)
  groupSize : ∀ group, world.groupSize group = (memberships.members group).elements.length
  groups : ∀ member, (world.groups member).Complete who (memberships.groups member)
  emitted : world.emitted = memberships.emitted

end Memberships

section Calls
open AbstractGroup Memberships
variable [DecidableEq Id] {who : Identity Ref Id} {getEntity : Id → Option Ref}
  {world : GroupWorld Ref Id} {memberships : Memberships Ref}

omit [DecidableEq Id] in
theorem complete_update {references : Ref → EntityCollectionReference Ref Id}
    {sets : Ref → LinkedSet Ref} (complete : ∀ e, (references e).Complete who (sets e))
    (changed : Ref) {reference : EntityCollectionReference Ref Id} {set : LinkedSet Ref}
    (here : reference.Complete who set) (e : Ref) :
    (Function.update references changed reference e).Complete who
      (Function.update sets changed set e) := by
  by_cases same : e = changed
  · rw [same, Function.update_self, Function.update_self]
    exact here
  · rw [Function.update_of_ne same, Function.update_of_ne same]
    exact complete e

omit [DecidableEq Id] in
theorem size_update {references : Ref → EntityCollectionReference Ref Id}
    {sets : Ref → LinkedSet Ref} {sizes : Ref → Nat}
    (counted : ∀ e, sizes e = (sets e).elements.length) {changed : Ref}
    {reference : EntityCollectionReference Ref Id} {set : LinkedSet Ref}
    (here : reference.Complete who set) (e : Ref) :
    Function.update sizes changed (Function.update references changed reference changed).size e =
      (Function.update sets changed set e).elements.length := by
  rw [Function.update_self]
  by_cases same : e = changed
  · rw [same, Function.update_self, Function.update_self]
    exact here.size
  · rw [Function.update_of_ne same, Function.update_of_ne same]
    exact counted e

theorem addMember_adds (unique : Function.Injective who.id)
    (represents : Represents who world memberships) (group member : Ref) :
    ∃ after, AbstractGroup.addMember who group (some member) world =
        some (.ok (decide (member ∉ memberships.members group)), after) ∧
      Represents who after (memberships.change (.add group member)) := by
  have inside : (world.members group).contains who member =
      decide (member ∈ memberships.members group) := by
    simp only [EntityCollectionReference.contains, (represents.members group).mem unique]
  have members := complete_update represents.members group
    ((represents.members group).add unique member)
  have groups := complete_update represents.groups member
    ((represents.groups member).add unique group)
  have reads : ((addGroup who member group world).members group).contains who member =
      decide (member ∈ memberships.members group) := inside
  by_cases present : member ∈ memberships.members group
  · refine ⟨setReference group ((world.members group).add who member)
      (addGroup who member group world), ?_, members, ?_, groups, ?_⟩
    · simp only [AbstractGroup.addMember, Effect.modify_bind, Effect.read_bind, reads, present,
        decide_true, Bool.not_true, Bool.false_eq_true, if_false, not_true, decide_false]
      rfl
    · have same : (memberships.members group).add member = memberships.members group := by
        rw [LinkedSet.add, dif_pos present]
      intro other
      simp only [Memberships.change, same, Function.update_eq_self]
      exact represents.groupSize other
    · simp only [Memberships.change, if_pos present]
      exact represents.emitted
  · refine ⟨publishSize group (emit group (.memberAdded member)
      (setReference group ((world.members group).add who member)
        (addGroup who member group world))), ?_, members, ?_, groups, ?_⟩
    · simp only [AbstractGroup.addMember, Effect.modify_bind, Effect.read_bind, reads, present,
        decide_false, Bool.not_false, if_true, not_false_eq_true, decide_true]
      rfl
    · exact size_update represents.groupSize ((represents.members group).add unique member)
    · simp only [Memberships.change, if_neg present, ← represents.emitted]
      rfl

theorem removeMember_removes (unique : Function.Injective who.id)
    (represents : Represents who world memberships) (group member : Ref) :
    ∃ after, AbstractGroup.removeMember who group (some member) world =
        some (.ok (decide (member ∈ memberships.members group)), after) ∧
      Represents who after (memberships.change (.remove group member)) := by
  obtain ⟨answer, removed⟩ := (represents.members group).remove unique member
  have members := complete_update represents.members group removed
  by_cases present : member ∈ memberships.members group
  · refine ⟨publishSize group (emit group (.memberRemoved member)
      (setReference group ((world.members group).remove who member).2 world)), ?_,
      members, ?_, represents.groups, ?_⟩
    · simp only [AbstractGroup.removeMember, Effect.modify_bind, Effect.read_bind, answer, present,
        decide_true, if_true]
      rfl
    · exact size_update represents.groupSize removed
    · simp only [Memberships.change, if_pos present, ← represents.emitted]
      rfl
  · refine ⟨setReference group ((world.members group).remove who member).2 world, ?_,
      members, ?_, represents.groups, ?_⟩
    · simp only [AbstractGroup.removeMember, Effect.modify_bind, Effect.read_bind, answer, present,
        decide_false, Bool.false_eq_true, if_false]
      rfl
    · intro other
      by_cases same : other = group
      · have unchanged : ((memberships.members group).remove member).elements =
            (memberships.members group).elements := List.erase_of_not_mem present
        simp only [Memberships.change, same, Function.update_self, unchanged]
        exact represents.groupSize group
      · simp only [Memberships.change, Function.update_of_ne same]
        exact represents.groupSize other
    · simp only [Memberships.change, if_neg present]
      exact represents.emitted

variable (getEntity) in
theorem getMembers_gets (represents : Represents who world memberships) (group : Ref) :
    ∃ after, AbstractGroup.getMembers who getEntity group world =
        some (.ok (memberships.members group).elements, after) ∧
      Represents who after memberships := by
  obtain ⟨answer, complete⟩ := (represents.members group).get getEntity
  refine ⟨setReference group ((world.members group).get who getEntity).2 world, ?_, ?_,
    represents.groupSize, represents.groups, represents.emitted⟩
  · simp only [AbstractGroup.getMembers, Effect.modify_bind, Effect.read_bind, answer]
    rfl
  · have members := complete_update represents.members group complete
    rwa [Function.update_eq_self] at members

theorem removes_unwanted (unique : Function.Injective who.id)
    (represents : Represents who world memberships) (group : Ref) (mm : List (Option Ref))
    (filter : Option (Option Ref → Bool)) (members : List Ref) :
    ∃ after, Effect.forEach members (fun m => do
        if !(mm.contains (some m) && accepts filter (some m)) then
          let _ ← AbstractGroup.removeMember who group (some m)) world =
        some (.ok ⟨⟩, after) ∧
      Represents who after (memberships.changeAll
        ((members.filter fun m => !wanted mm filter m).map (.remove group))) := by
  induction members generalizing world memberships with
  | nil => exact ⟨world, rfl, represents⟩
  | cons m rest ih =>
    unfold Effect.forEach
    cases kept : mm.contains (some m) && accepts filter (some m) with
    | true =>
      obtain ⟨after, ran, later⟩ := ih represents
      have set : wanted mm filter m = true := kept
      rw [List.filter_cons_of_neg (by simp [set])]
      exact ⟨after, ran, later⟩
    | false =>
      obtain ⟨middle, removed, fewer⟩ := removeMember_removes unique represents group m
      obtain ⟨after, ran, later⟩ := ih fewer
      have unset : wanted mm filter m = false := kept
      rw [List.filter_cons_of_pos (by simp [unset])]
      exact ⟨after, (Effect.bind_apply _ (Effect.bind_apply _ removed)).trans ran, later⟩

/-- The additions up to the first null; the call returns if there is none. -/
theorem adds_wanted (unique : Function.Injective who.id)
    (represents : Represents who world memberships) (group : Ref)
    (filter : Option (Option Ref → Bool)) (mmo : List Ref) (mm : List (Option Ref)) :
    ∃ out after, Effect.forEach mm (fun m => do
        if !(mmo.map some).contains m && accepts filter m then
          let _ ← AbstractGroup.addMember who group m) world = some (out, after) ∧
      ((∃ done, out = .ok done) ↔
        ∀ m ∈ mm.filter fun m => !(mmo.map some).contains m && accepts filter m, m.isSome) ∧
      Represents who after (memberships.changeAll
        ((((mm.filter fun m => !(mmo.map some).contains m && accepts filter m).takeWhile
          Option.isSome).filterMap id).map (.add group))) := by
  induction mm generalizing world memberships with
  | nil => exact ⟨_, world, rfl, ⟨fun _ _ member => absurd member List.not_mem_nil,
      fun _ => ⟨_, rfl⟩⟩, represents⟩
  | cons m rest ih =>
    unfold Effect.forEach
    by_cases wanted : (!(mmo.map some).contains m && accepts filter m) = true
    · rw [List.filter_cons_of_pos (by simpa using wanted)]
      cases m with
      | none =>
        refine ⟨.error .nullPointer, world, ?_, ⟨fun ok => ?_, fun all => ?_⟩,
          represents⟩
        · rw [if_pos wanted]
          rfl
        · obtain ⟨_, same⟩ := ok
          cases same
        · exact absurd (all none List.mem_cons_self) (by simp)
      | some m =>
        obtain ⟨middle, added, more⟩ := addMember_adds unique represents group m
        obtain ⟨out, after, ran, returns, later⟩ := ih more
        refine ⟨out, after, ?_, ?_, later⟩
        · rw [if_pos wanted]
          exact (Effect.bind_apply _ (Effect.bind_apply _ added)).trans ran
        · rw [returns, List.forall_mem_cons]
          simp
    · rw [List.filter_cons_of_neg (by simpa using wanted)]
      obtain ⟨out, after, ran, returns, later⟩ := ih represents
      rw [if_neg wanted]
      exact ⟨out, after, ran, returns, later⟩

variable (getEntity) in
theorem setMembers_changes (unique : Function.Injective who.id)
    (represents : Represents who world memberships) (group : Ref) (mm : List (Option Ref))
    (filter : Option (Option Ref → Bool)) :
    ∃ out after, AbstractGroup.setMembers who getEntity group mm filter world =
        some (out, after) ∧
      ((∃ done, out = .ok done) ↔
        ∀ m ∈ added (memberships.members group) mm filter, m.isSome) ∧
      Represents who after
        (memberships.changeAll (memberships.changes (.setMembers group mm filter))) := by
  obtain ⟨first, got, found⟩ := getMembers_gets getEntity represents group
  obtain ⟨second, removed, fewer⟩ := removes_unwanted unique found group mm filter
    (memberships.members group).elements
  obtain ⟨out, after, ran, returns, more⟩ := adds_wanted unique fewer group filter
    (memberships.members group).elements mm
  refine ⟨out, after, ?_, returns, ?_⟩
  · rw [AbstractGroup.setMembers, Effect.bind_apply _ got, Effect.bind_apply _ removed]
    exact ran
  · rw [changes, changeAll, List.foldl_append]
    exact more

variable (getEntity) in
/-- Every call comes to its changes. -/
theorem perform_changes (unique : Function.Injective who.id)
    (represents : Represents who world memberships) (call : Call Ref) :
    ∃ out after, perform who getEntity call world = some (out, after) ∧
      Represents who after (memberships.changeAll (memberships.changes call)) := by
  cases call with
  | addMember group member =>
    cases member with
    | none => exact ⟨_, world, rfl, represents⟩
    | some member =>
      obtain ⟨after, ran, more⟩ := addMember_adds unique represents group member
      exact ⟨_, after, Effect.bind_apply _ ran, more⟩
  | removeMember group member =>
    cases member with
    | none => exact ⟨_, world, rfl, represents⟩
    | some member =>
      obtain ⟨after, ran, fewer⟩ := removeMember_removes unique represents group member
      exact ⟨_, after, Effect.bind_apply _ ran, fewer⟩
  | setMembers group mm filter =>
    obtain ⟨out, after, ran, _, set⟩ := setMembers_changes getEntity unique represents group mm filter
    exact ⟨out, after, ran, set⟩

end Calls

/-- Groups and entities as they were left by those who built them. -/
def GroupWorld.initially [DecidableEq Id] (who : Identity Ref Id)
    (members groups : Ref → LinkedSet Ref) : GroupWorld Ref Id where
  members group := (members group).elements.foldl (EntityCollectionReference.add who) .create
  groupSize group := (members group).elements.length
  groups member := (groups member).elements.foldl (EntityCollectionReference.add who) .create
  emitted := []

namespace AbstractGroup
open Memberships
variable [DecidableEq Id] {who : Identity Ref Id} {getEntity : Id → Option Ref}

theorem complete_foldl (unique : Function.Injective who.id)
    {reference : EntityCollectionReference Ref Id} {set : LinkedSet Ref}
    (complete : reference.Complete who set) (elements : List Ref) :
    (elements.foldl (EntityCollectionReference.add who) reference).Complete who
      (set.addAll elements) := by
  induction elements generalizing reference set with
  | nil => exact complete
  | cons e rest ih => exact ih (complete.add unique e)

theorem represents_initially (unique : Function.Injective who.id)
    (members groups : Ref → LinkedSet Ref) :
    Represents who (.initially who members groups) ⟨members, groups, []⟩ := by
  have built (set : LinkedSet Ref) : (set.elements.foldl (EntityCollectionReference.add who)
      .create).Complete who set := by
    have complete := complete_foldl unique EntityCollectionReference.complete_create set.elements
    rwa [LinkedSet.addAll_elements] at complete
  exact ⟨fun group => built (members group), fun _ => rfl, fun member => built (groups member), rfl⟩

variable (getEntity) in
/-- What every change keeps, every run keeps. -/
theorem run_represents (unique : Function.Injective who.id) (holds : Memberships Ref → Prop)
    (kept : ∀ memberships change, holds memberships → holds (memberships.change change))
    {world : GroupWorld Ref Id} {memberships : Memberships Ref}
    (represents : Represents who world memberships) (start : holds memberships)
    (calls : List (Call Ref)) :
    ∃ after later, run who getEntity calls world = some after ∧ Represents who after later ∧
      holds later := by
  induction calls generalizing world memberships with
  | nil => exact ⟨world, memberships, rfl, represents, start⟩
  | cons call rest ih =>
    obtain ⟨out, middle, ran, changed⟩ := perform_changes getEntity unique
      represents call
    have holds : holds (memberships.changeAll (memberships.changes call)) :=
      List.foldlRecOn _ _ start fun _ before change _ => kept _ change before
    obtain ⟨after, later, runs, found⟩ := ih changed holds
    exact ⟨after, later, by rw [run, ran]; exact runs, found⟩

omit [DecidableEq Ref] in
theorem members_get {world : GroupWorld Ref Id} {memberships : Memberships Ref}
    (represents : Represents who world memberships) (group : Ref) :
    ((world.members group).get who getEntity).1 = (memberships.members group).elements :=
  ((represents.members group).get getEntity).1

omit [DecidableEq Id] in
theorem mem_removes (memberships : Memberships Ref) (group : Ref) (members : List Ref) (m : Ref) :
    m ∈ (memberships.changeAll (members.map (.remove group))).members group ↔
      m ∈ memberships.members group ∧ m ∉ members := by
  induction members generalizing memberships with
  | nil => simp [changeAll]
  | cons first rest ih =>
    change m ∈ ((memberships.change (.remove group first)).changeAll _).members group ↔ _
    rw [ih]
    simp [Memberships.change, and_assoc]

omit [DecidableEq Id] in
theorem mem_adds (memberships : Memberships Ref) (group : Ref) (members : List Ref) (m : Ref) :
    m ∈ (memberships.changeAll (members.map (.add group))).members group ↔
      m ∈ memberships.members group ∨ m ∈ members := by
  induction members generalizing memberships with
  | nil => simp [changeAll]
  | cons first rest ih =>
    change m ∈ ((memberships.change (.add group first)).changeAll _).members group ↔ _
    rw [ih]
    simp [Memberships.change, or_assoc]

omit [DecidableEq Id] in
theorem mem_changes_setMembers (memberships : Memberships Ref) (group : Ref)
    (mm : List (Option Ref)) (filter : Option (Option Ref → Bool)) (m : Ref) :
    m ∈ (memberships.changeAll (memberships.changes (.setMembers group mm filter))).members group ↔
      (m ∈ memberships.members group ∧ wanted mm filter m) ∨
        some m ∈ (added (memberships.members group) mm filter).takeWhile Option.isSome := by
  rw [changes, changeAll, List.foldl_append]
  change m ∈ ((memberships.changeAll _).changeAll _).members group ↔ _
  rw [mem_adds, mem_removes]
  have kept : m ∈ memberships.members group ∧ m ∉ dropped (memberships.members group) mm filter ↔
      m ∈ memberships.members group ∧ wanted mm filter m := by
    refine and_congr_right fun member => ?_
    change m ∈ (memberships.members group).elements at member
    simp [dropped, member]
  rw [kept]
  simp

end AbstractGroup
end Brooklyn
