import Brooklyn.AbstractGroup
import Mathlib.Data.List.TakeWhile

/-!
The views of a group. The events that a group emits, replayed over its first members, give
its members, and each of them changes something.
-/

namespace Brooklyn

variable {Ref Id : Type} [DecidableEq Ref]

namespace AbstractGroup

def replay (members : LinkedSet Ref) : List (MembershipEvent Ref) → LinkedSet Ref
  | [] => members
  | .memberAdded m :: rest => replay (members.add m) rest
  | .memberRemoved m :: rest => replay (members.remove m) rest

/-- Only who was not a member was added, and only a member removed. -/
def Sound (members : LinkedSet Ref) : List (MembershipEvent Ref) → Prop
  | [] => True
  | .memberAdded m :: rest => m ∉ members ∧ Sound (members.add m) rest
  | .memberRemoved m :: rest => m ∈ members ∧ Sound (members.remove m) rest

theorem replay_append (members : LinkedSet Ref) (events more : List (MembershipEvent Ref)) :
    replay members (events ++ more) = replay (replay members events) more := by
  induction events generalizing members with
  | nil => rfl
  | cons event rest ih => cases event <;> exact ih _

theorem sound_append (members : LinkedSet Ref) (events more : List (MembershipEvent Ref)) :
    Sound members (events ++ more) ↔ Sound members events ∧ Sound (replay members events) more := by
  induction events generalizing members with
  | nil => exact (true_and _).symm ▸ Iff.rfl
  | cons event rest ih =>
    cases event <;> simp only [List.cons_append, Sound, replay, ih, and_assoc]

def eventsOf (group : Ref) (emitted : List (Ref × MembershipEvent Ref)) :
    List (MembershipEvent Ref) :=
  (emitted.filter fun event => event.1 = group).map Prod.snd

structure Replayed (before : LinkedSet Ref) (memberships : Memberships Ref) (group : Ref) :
    Prop where
  replays : replay before (eventsOf group memberships.emitted) = memberships.members group
  sound : Sound before (eventsOf group memberships.emitted)

section Replays
variable {before : LinkedSet Ref} {memberships : Memberships Ref} {group : Ref}

theorem eventsOf_append_same (emitted : List (Ref × MembershipEvent Ref))
    (event : MembershipEvent Ref) :
    eventsOf group (emitted ++ [(group, event)]) = eventsOf group emitted ++ [event] := by
  simp [eventsOf]

theorem eventsOf_append_other {other : Ref} (different : other ≠ group)
    (emitted : List (Ref × MembershipEvent Ref)) (event : MembershipEvent Ref) :
    eventsOf group (emitted ++ [(other, event)]) = eventsOf group emitted := by
  simp [eventsOf, different]

/-- One more event, of a group whose members are those after it. -/
theorem Replayed.emit (replayed : Replayed before memberships group) {next : Memberships Ref}
    {other : Ref} {event : MembershipEvent Ref}
    (emitted : next.emitted = memberships.emitted ++ [(other, event)])
    (members : next.members = Function.update memberships.members other
      (replay (memberships.members other) [event]))
    (fits : Sound (memberships.members other) [event]) : Replayed before next group := by
  obtain ⟨replays, sound⟩ := replayed
  by_cases same : other = group
  · subst same
    constructor
    · rw [emitted, eventsOf_append_same, replay_append, replays, members, Function.update_self]
    · rw [emitted, eventsOf_append_same, sound_append, replays]
      exact ⟨sound, fits⟩
  · constructor
    · rw [emitted, eventsOf_append_other same, members, Function.update_of_ne (Ne.symm same)]
      exact replays
    · rw [emitted, eventsOf_append_other same]
      exact sound

theorem change_replayed (replayed : Replayed before memberships group)
    (change : MembershipChange Ref) : Replayed before (memberships.change change) group := by
  cases change with
  | add other member =>
    by_cases present : member ∈ memberships.members other
    · simp only [Memberships.change, LinkedSet.add_of_mem present, Function.update_eq_self,
        if_pos present]
      exact ⟨replayed.replays, replayed.sound⟩
    · exact replayed.emit (if_neg present) rfl ⟨present, trivial⟩
  | remove other member =>
    by_cases present : member ∈ memberships.members other
    · exact replayed.emit (if_pos present) rfl ⟨present, trivial⟩
    · simp only [Memberships.change, LinkedSet.remove_of_not_mem present, Function.update_eq_self,
        if_neg present]
      exact ⟨replayed.replays, replayed.sound⟩

end Replays

open Memberships
variable [DecidableEq Id] {who : Identity Ref Id} {getEntity : Id → Option Ref}

/-- A call that returns leaves exactly the members that were set and not filtered out. -/
theorem mem_setMembers {memberships : Memberships Ref} {group : Ref} {mm : List (Option Ref)}
    {filter : Option (Option Ref → Bool)}
    (returns : ∀ m ∈ added (memberships.members group) mm filter, m.isSome) (m : Ref) :
    m ∈ (memberships.changeAll (memberships.changes (.setMembers group mm filter))).members group ↔
      some m ∈ mm ∧ accepts filter (some m) := by
  rw [mem_changes_setMembers, List.takeWhile_eq_self_iff.mpr returns, mem_added, wanted_iff]
  by_cases member : m ∈ memberships.members group <;> simp [member]

variable (who getEntity) in
/-- After any calls on groups, from any memberships: the size that a group publishes is that
of its membership; its events, replayed, give its membership, and are sound; and
`setMembers`, which only a null makes fail, leaves exactly the members it was given. -/
theorem group_views_agree (unique : Function.Injective who.id)
    (members groups : Ref → LinkedSet Ref) (calls : List (Call Ref)) :
    ∃ world, run who getEntity calls (.initially who members groups) = some world ∧
      ∀ group,
        world.groupSize group = ((world.members group).get who getEntity).1.length ∧
        (replay (members group) (eventsOf group world.emitted)).elements =
          ((world.members group).get who getEntity).1 ∧
        Sound (members group) (eventsOf group world.emitted) ∧
        ∀ mm filter, ∃ out after, setMembers who getEntity group mm filter world =
            some (out, after) ∧
          (none ∉ mm → ∃ done, out = .ok done) ∧
          ((∃ done, out = .ok done) → ∀ m, m ∈ ((after.members group).get who getEntity).1 ↔
            some m ∈ mm ∧ accepts filter (some m)) := by
  obtain ⟨world, memberships, ran, represents, replayed⟩ := run_represents getEntity unique
    (fun memberships => ∀ group, Replayed (members group) memberships group)
    (fun _ change replayed group => change_replayed (replayed group) change)
    (represents_initially unique members groups) (fun _ => ⟨rfl, trivial⟩) calls
  refine ⟨world, ran, fun group => ⟨?_, ?_, ?_, fun mm filter => ?_⟩⟩
  · rw [represents.groupSize, members_get represents]
  · rw [represents.emitted, (replayed group).replays, members_get represents]
  · rw [represents.emitted]
    exact (replayed group).sound
  · obtain ⟨out, after, set, returns, later⟩ :=
      setMembers_changes getEntity unique represents group mm filter
    refine ⟨out, after, set, fun noNull => ?_, fun returned m => ?_⟩
    · refine returns.mpr fun m member => ?_
      cases m with
      | none => exact absurd (List.mem_of_mem_filter member) noNull
      | some m => rfl
    · rw [members_get later]
      exact mem_setMembers (returns.mp returned) m

theorem group_views_agree_two_groups :
    Function.Injective (id : Nat → Nat) ∧
      ∃ world, run ⟨id, fun _ => false⟩ some [.addMember 1 (some 3), .addMember 2 (some 3),
          .setMembers 1 [some 4, some 5, some 4] (some (· ≠ some 5)), .addMember 1 none]
          (.initially ⟨id, fun _ => false⟩ (fun _ => LinkedSet.empty.add 7) fun _ => .empty) =
          some world ∧
        ∀ group,
          world.groupSize group = ((world.members group).get ⟨id, fun _ => false⟩ some).1.length ∧
          (replay (LinkedSet.empty.add 7) (eventsOf group world.emitted)).elements =
            ((world.members group).get ⟨id, fun _ => false⟩ some).1 ∧
          Sound (LinkedSet.empty.add 7) (eventsOf group world.emitted) ∧
          ∀ mm filter, ∃ out after,
            setMembers ⟨id, fun _ => false⟩ some group mm filter world = some (out, after) ∧
            (none ∉ mm → ∃ done, out = .ok done) ∧
            ((∃ done, out = .ok done) → ∀ m,
              m ∈ ((after.members group).get ⟨id, fun _ => false⟩ some).1 ↔
                some m ∈ mm ∧ accepts filter (some m)) :=
  ⟨Function.injective_id,
    group_views_agree ⟨id, fun _ => false⟩ some Function.injective_id _ _ _⟩

end AbstractGroup
end Brooklyn
