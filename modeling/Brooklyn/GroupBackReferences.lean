import Brooklyn.AbstractGroup

/-!
The two sides of a membership: the members of a group and the groups of an entity. An
entity keeps every group that it ever joined, so the sides agree exactly as long as no
call takes a member out.
-/

namespace Brooklyn

variable {Ref Id : Type} [DecidableEq Ref]

namespace AbstractGroup
open Memberships
variable [DecidableEq Id] {who : Identity Ref Id} {getEntity : Id → Option Ref}

section BackReferences
variable (who getEntity)

def Linked (world : GroupWorld Ref Id) : Prop :=
  ∀ group member, member ∈ ((world.members group).get who getEntity).1 ↔
    group ∈ ((world.groups member).get who getEntity).1

def AlwaysLinked : List (Call Ref) → GroupWorld Ref Id → Prop
  | [], world => Linked who getEntity world
  | call :: rest, world => Linked who getEntity world ∧
      ∃ out after, perform who getEntity call world = some (out, after) ∧ AlwaysLinked rest after

/-- The call takes no member out of its group. -/
def KeepsMembers (world : GroupWorld Ref Id) : Call Ref → Prop
  | .addMember _ _ => True
  | .removeMember group member =>
      ∀ m, member = some m → m ∉ ((world.members group).get who getEntity).1
  | .setMembers group mm filter =>
      ∀ m ∈ ((world.members group).get who getEntity).1, some m ∈ mm ∧ accepts filter (some m)

def AlwaysKeepMembers : List (Call Ref) → GroupWorld Ref Id → Prop
  | [], _ => True
  | call :: rest, world => KeepsMembers who getEntity world call ∧
      ∀ out after, perform who getEntity call world = some (out, after) →
        AlwaysKeepMembers rest after

end BackReferences

section Links
variable {memberships : Memberships Ref}

omit [DecidableEq Id] in
theorem groups_kept (changes : List (MembershipChange Ref)) {group member : Ref}
    (joined : group ∈ memberships.groups member) :
    group ∈ (memberships.changeAll changes).groups member := by
  induction changes generalizing memberships with
  | nil => exact joined
  | cons change rest ih =>
    refine @ih (memberships.change change) ?_
    cases change with
    | remove other m => exact joined
    | add other m =>
      by_cases same : member = m
      · subst same
        simp [Memberships.change, joined]
      · simpa [Memberships.change, Function.update_of_ne same] using joined

omit [DecidableEq Id] in
/-- No change takes a group from its former member. -/
theorem linked_keeps (linked : memberships.Linked) {changes : List (MembershipChange Ref)}
    (after : (memberships.changeAll changes).Linked) {group member : Ref}
    (here : member ∈ memberships.members group) :
    member ∈ (memberships.changeAll changes).members group :=
  (after group member).mpr (groups_kept changes ((linked group member).mp here))

omit [DecidableEq Id] in
theorem add_linked (linked : memberships.Linked) (group member : Ref) :
    (memberships.change (.add group member)).Linked := by
  intro other m
  by_cases sameGroup : other = group <;> by_cases sameMember : m = member
  · simp [Memberships.change, sameGroup, sameMember]
  · simp [Memberships.change, sameGroup, sameMember, linked group m]
  · simp [Memberships.change, sameGroup, sameMember, linked other member]
  · simp [Memberships.change, sameGroup, sameMember, linked other m]

omit [DecidableEq Id] in
theorem adds_linked (linked : memberships.Linked) (group : Ref) (members : List Ref) :
    (memberships.changeAll (members.map (.add group))).Linked := by
  induction members generalizing memberships with
  | nil => exact linked
  | cons m rest ih => exact ih (add_linked linked group m)

omit [DecidableEq Id] in
/-- From linked memberships a call leads to linked ones exactly if it takes no member out. -/
theorem changes_linked (linked : memberships.Linked) (call : Call Ref) :
    (memberships.changeAll (memberships.changes call)).Linked ↔
      match call with
      | .addMember _ _ => True
      | .removeMember group member => ∀ m, member = some m → m ∉ memberships.members group
      | .setMembers group mm filter => ∀ m ∈ memberships.members group, wanted mm filter m := by
  cases call with
  | addMember group member =>
    refine iff_true_intro ?_
    cases member with
    | none => exact linked
    | some m => exact add_linked linked group m
  | removeMember group member =>
    cases member with
    | none => exact ⟨(fun _ _ same => by cases same), fun _ => linked⟩
    | some m =>
      constructor
      · rintro after _ ⟨rfl⟩ here
        have still := linked_keeps linked after here
        simp [changes, changeAll, Memberships.change] at still
      · intro absent
        have unchanged := LinkedSet.remove_of_not_mem (absent m rfl)
        intro other member
        simp only [changes, Option.map_some, Option.toList_some, changeAll, List.foldl_cons,
          List.foldl_nil, Memberships.change, unchanged, Function.update_eq_self]
        exact linked other member
  | setMembers group mm filter =>
    constructor
    · intro after m here
      have still := linked_keeps linked after here
      rw [mem_changes_setMembers] at still
      rcases still with kept | new
      · exact kept.2
      · have fresh := (mem_added _ mm filter m).mp (List.takeWhile_subset _ new)
        exact absurd here fresh.1
    · intro wanted
      have nobody : dropped (memberships.members group) mm filter = [] := by
        refine List.filter_eq_nil_iff.mpr fun m here => ?_
        simpa using wanted m here
      rw [changes, nobody, List.map_nil, List.nil_append]
      exact adds_linked linked group _

omit [DecidableEq Ref] in
theorem linked_iff {world : GroupWorld Ref Id} (represents : Represents who world memberships) :
    Linked who getEntity world ↔ memberships.Linked := by
  refine forall_congr' fun group => forall_congr' fun member => ?_
  rw [members_get represents, ((represents.groups member).get getEntity).1]
  rfl

variable (getEntity) in
theorem keepsMembers_iff {world : GroupWorld Ref Id}
    (represents : Represents who world memberships) (linked : memberships.Linked)
    (call : Call Ref) : KeepsMembers who getEntity world call ↔
      (memberships.changeAll (memberships.changes call)).Linked := by
  rw [changes_linked linked]
  cases call with
  | addMember group member => exact Iff.rfl
  | removeMember group member =>
    simp only [KeepsMembers, members_get represents]
    exact Iff.rfl
  | setMembers group mm filter =>
    simp only [KeepsMembers, members_get represents, wanted_iff]
    exact Iff.rfl

theorem always_linked_iff (unique : Function.Injective who.id) {world : GroupWorld Ref Id}
    (represents : Represents who world memberships) (linked : memberships.Linked)
    (calls : List (Call Ref)) :
    AlwaysLinked who getEntity calls world ↔ AlwaysKeepMembers who getEntity calls world := by
  induction calls generalizing world memberships with
  | nil => exact iff_of_true ((linked_iff represents).mpr linked) trivial
  | cons call rest ih =>
    obtain ⟨out, after, ran, changed⟩ := perform_changes getEntity unique
      represents call
    have first := keepsMembers_iff getEntity represents linked call
    constructor
    · rintro ⟨_, _, _, again, always⟩
      cases ran.symm.trans again
      have here : Linked who getEntity after := by
        cases rest with
        | nil => exact always
        | cons next rest => exact always.1
      have stays := (linked_iff changed).mp here
      refine ⟨first.mpr stays, fun _ _ again => ?_⟩
      cases ran.symm.trans again
      exact (ih changed stays).mp always
    · rintro ⟨keeps, others⟩
      have stays := first.mp keeps
      exact ⟨(linked_iff represents).mpr linked, out, after, ran,
        (ih changed stays).mpr (others out after ran)⟩

end Links

variable (who getEntity) in
/-- From memberships that agree with the groups of the members, the two sides agree after every
call exactly as long as no call takes a member out of a group. -/
theorem back_references_iff (unique : Function.Injective who.id)
    (members groups : Ref → LinkedSet Ref)
    (linked : ∀ group member, member ∈ members group ↔ group ∈ groups member)
    (calls : List (Call Ref)) :
    AlwaysLinked who getEntity calls (.initially who members groups) ↔
      AlwaysKeepMembers who getEntity calls (.initially who members groups) :=
  always_linked_iff unique (represents_initially unique members groups) linked calls

theorem back_references_of_two_groups :
    Function.Injective (id : Nat → Nat) ∧
      (AlwaysLinked ⟨id, fun _ => false⟩ some
          [.addMember 1 (some 3), .addMember 2 (some 3), .setMembers 1 [some 3, some 4] none,
            .removeMember 2 (some 4)]
          (.initially ⟨id, fun _ => false⟩ (fun _ => .empty) fun _ => .empty) ↔
        AlwaysKeepMembers ⟨id, fun _ => false⟩ some
          [.addMember 1 (some 3), .addMember 2 (some 3), .setMembers 1 [some 3, some 4] none,
            .removeMember 2 (some 4)]
          (.initially ⟨id, fun _ => false⟩ (fun _ => .empty) fun _ => .empty)) :=
  ⟨Function.injective_id, back_references_iff ⟨id, fun _ => false⟩ some
    Function.injective_id _ _ (fun _ _ => by simp) _⟩

/-- The former member still names the group. -/
theorem former_member_keeps_group :
    (run ⟨id, fun _ => false⟩ some [.addMember 1 (some 2), .removeMember 1 (some 2)]
        (.initially ⟨id, fun _ => false⟩ (fun _ => .empty) fun _ : Nat => .empty)).map
        (fun world => (((world.members 1).get ⟨id, fun _ => false⟩ some).1,
          ((world.groups 2).get ⟨id, fun _ => false⟩ some).1)) = some ([], [1]) ∧
      ¬ AlwaysLinked ⟨id, fun _ => false⟩ some [.addMember 1 (some 2), .removeMember 1 (some 2)]
        (.initially ⟨id, fun _ => false⟩ (fun _ => .empty) fun _ : Nat => .empty) := by
  refine ⟨by decide, ?_⟩
  rintro ⟨_, _, middle, first, _, _, after, second, linked⟩
  obtain ⟨rfl, rfl⟩ := Prod.mk.inj (Option.some.inj first)
  obtain ⟨rfl, rfl⟩ := Prod.mk.inj (Option.some.inj second)
  exact absurd ((linked 1 2).mpr (by decide)) (by decide)

end AbstractGroup
end Brooklyn
