import Brooklyn.LinkedCollections
import Brooklyn.Transition

/-!
The server pool of `AbstractController`. Each call finds entities as they are then. Of `update`
only whether it throws matters here: it reads the addresses and applies them to the proxy. The
policy that tracks the group tells of each member when `setGroup` subscribes. `brought` records
the address that a target had when it was put there.
-/

namespace Brooklyn

variable {Ref : Type}

/-- `serverPool` are the members of the group, if there is one. `updateThrows` is about the
update for an entity. -/
structure PoolSurroundings (Ref : Type) where
  serviceUp : Ref → Bool
  hostname : Ref → Option String
  httpPort : Ref → Option Int
  serverPool : Option (List Ref)
  updateThrows : Ref → Bool

structure ServerPool (Ref : Type) where
  serverPoolAddresses : LinkedSet String
  serverPoolTargets : LinkedSet Ref
  brought : Ref → Option String

inductive ServerPoolFault where
  | noServerPool | updateThrew
deriving DecidableEq

def PoolSurroundings.getAddressOfEntity (surroundings : PoolSurroundings Ref) (member : Ref) :
    Option String :=
  match surroundings.hostname member, surroundings.httpPort member with
  | some ip, some port => some (ip ++ ":" ++ toString port)
  | _, _ => none

/-- It throws for an entity that is up when there is no group. -/
def PoolSurroundings.belongsInServerPool [DecidableEq Ref] (surroundings : PoolSurroundings Ref)
    (member : Ref) : Except ServerPoolFault Bool :=
  if surroundings.serviceUp member then
    match surroundings.serverPool with
    | none => .error .noServerPool
    | some members => .ok (decide (member ∈ members))
  else .ok false

namespace ServerPool

def initial : ServerPool Ref := ⟨.empty, .empty, fun _ => none⟩

variable [DecidableEq Ref] (surroundings : PoolSurroundings Ref)

def addAddress (address : Option String) (pool : ServerPool Ref) : ServerPool Ref :=
  match address with
  | some address =>
      { pool with serverPoolAddresses := pool.serverPoolAddresses.add address }
  | none => pool

def removeAddress (address : Option String) (pool : ServerPool Ref) : ServerPool Ref :=
  match address with
  | some address =>
      { pool with serverPoolAddresses := pool.serverPoolAddresses.remove address }
  | none => pool

/-- An entity that is there already keeps what it has brought. -/
def addTarget (member : Ref) (address : Option String) (pool : ServerPool Ref) :
    ServerPool Ref :=
  { pool with
    serverPoolTargets := pool.serverPoolTargets.add member
    brought :=
      if member ∈ pool.serverPoolTargets then pool.brought
      else Function.update pool.brought member address }

def removeTarget (member : Ref) (pool : ServerPool Ref) : ServerPool Ref :=
  { pool with serverPoolTargets := pool.serverPoolTargets.remove member }

def addServerPoolMember (member : Ref) (pool : ServerPool Ref) :
    Except ServerPoolFault Unit × ServerPool Ref :=
  if member ∈ pool.serverPoolTargets then (.ok (), pool)
  else
    let address := surroundings.getAddressOfEntity member
    let pool := pool.addAddress address
    if surroundings.updateThrows member then (.error .updateThrew, pool)
    else (.ok (), pool.addTarget member address)

def removeServerPoolMember (member : Ref) (pool : ServerPool Ref) :
    Except ServerPoolFault Unit × ServerPool Ref :=
  if member ∉ pool.serverPoolTargets then (.ok (), pool)
  else
    let pool := pool.removeAddress (surroundings.getAddressOfEntity member)
    if surroundings.updateThrows member then (.error .updateThrew, pool)
    else (.ok (), pool.removeTarget member)

def onServerPoolMemberChanged (member : Ref) (pool : ServerPool Ref) :
    Except ServerPoolFault Unit × ServerPool Ref :=
  match surroundings.belongsInServerPool member with
  | .error fault => (.error fault, pool)
  | .ok true => addServerPoolMember surroundings member pool
  | .ok false => removeServerPoolMember surroundings member pool

/-- `subscribeToGroup` of the policy tells of one member after another. -/
def onMembersAdded : List Ref → ServerPool Ref → Except ServerPoolFault Unit × ServerPool Ref
  | [], pool => (.ok (), pool)
  | member :: rest, pool =>
      match onServerPoolMemberChanged surroundings member pool with
      | (.error fault, pool) => (.error fault, pool)
      | (.ok _, pool) => onMembersAdded rest pool

/-- The loop of `resetServerPoolMemberTrackerPolicy`. -/
def putMembers : List Ref → ServerPool Ref → Except ServerPoolFault Unit × ServerPool Ref
  | [], pool => (.ok (), pool)
  | member :: rest, pool =>
      match surroundings.belongsInServerPool member with
      | .error fault => (.error fault, pool)
      | .ok true =>
          let address := surroundings.getAddressOfEntity member
          putMembers rest ((pool.addTarget member address).addAddress address)
      | .ok false => putMembers rest pool

def resetServerPoolMemberTrackerPolicy (pool : ServerPool Ref) :
    Except ServerPoolFault Unit × ServerPool Ref :=
  let pool := { pool with serverPoolAddresses := .empty, serverPoolTargets := .empty }
  match surroundings.serverPool with
  | none => (.ok (), pool)
  | some members =>
      match onMembersAdded surroundings members pool with
      | (.error fault, pool) => (.error fault, pool)
      | (.ok _, pool) => putMembers surroundings members pool

/-- A call, and what it finds. -/
inductive Call (Ref : Type) where
  | reset (surroundings : PoolSurroundings Ref)
  | memberChanged (surroundings : PoolSurroundings Ref) (member : Ref)

def perform : Call Ref → ServerPool Ref → ServerPool Ref
  | .reset surroundings, pool => (resetServerPoolMemberTrackerPolicy surroundings pool).2
  | .memberChanged surroundings member, pool =>
      (onServerPoolMemberChanged surroundings member pool).2

end ServerPool
end Brooklyn

/-!
When the addresses of a server pool are those that its targets have brought. An address goes by
what its entity has now, once for all targets that share it, and before an update that may throw.
-/

namespace Brooklyn.ServerPool

variable {Ref : Type} {pool : ServerPool Ref}

/-- The addresses are those that the targets have brought. -/
def Consistent (pool : ServerPool Ref) : Prop :=
  ∀ address, address ∈ pool.serverPoolAddresses ↔
    ∃ target, target ∈ pool.serverPoolTargets ∧ pool.brought target = some address

/-- A target other than the member has brought the address. -/
def OtherBrings (pool : ServerPool Ref) (member : Ref) (address : String) : Prop :=
  ∃ target, target ∈ pool.serverPoolTargets ∧ target ≠ member ∧
    pool.brought target = some address

section Addresses

theorem mem_addAddress (address : Option String) (other : String) :
    other ∈ (pool.addAddress address).serverPoolAddresses ↔
      other ∈ pool.serverPoolAddresses ∨ address = some other := by
  cases address with
  | none => simp [addAddress]
  | some address => simp [addAddress, eq_comm]

theorem mem_removeAddress (address : Option String) (other : String) :
    other ∈ (pool.removeAddress address).serverPoolAddresses ↔
      other ∈ pool.serverPoolAddresses ∧ address ≠ some other := by
  cases address with
  | none => simp [removeAddress]
  | some address => simp [removeAddress, eq_comm]

theorem targets_addAddress (address : Option String) :
    (pool.addAddress address).serverPoolTargets = pool.serverPoolTargets ∧
      (pool.addAddress address).brought = pool.brought := by
  cases address <;> exact ⟨rfl, rfl⟩

theorem targets_removeAddress (address : Option String) :
    (pool.removeAddress address).serverPoolTargets = pool.serverPoolTargets ∧
      (pool.removeAddress address).brought = pool.brought := by
  cases address <;> exact ⟨rfl, rfl⟩

end Addresses

variable [DecidableEq Ref] (surroundings : PoolSurroundings Ref)

section Changes

/-- An update that throws comes with an address that the pool has already. -/
def AddFits (pool : ServerPool Ref) (member : Ref) : Prop :=
  surroundings.updateThrows member = true →
    ∀ address, surroundings.getAddressOfEntity member = some address →
      address ∈ pool.serverPoolAddresses

/-- A target that is taken out has the address that it has brought, or another one has brought
that too, and no other has brought the one it has. An update that throws comes with an address
that the pool has not. -/
def RemoveFits (pool : ServerPool Ref) (member : Ref) : Prop :=
  if surroundings.updateThrows member then
    ∀ address, surroundings.getAddressOfEntity member = some address →
      address ∉ pool.serverPoolAddresses
  else
    (∀ address, pool.brought member = some address →
      surroundings.getAddressOfEntity member = some address ∨ pool.OtherBrings member address) ∧
    ∀ address, surroundings.getAddressOfEntity member = some address →
      ¬ pool.OtherBrings member address

theorem addServerPoolMember_consistent_iff (consistent : Consistent pool) {member : Ref}
    (absent : member ∉ pool.serverPoolTargets) :
    Consistent (addServerPoolMember surroundings member pool).2 ↔
      AddFits surroundings pool member := by
  unfold addServerPoolMember AddFits
  rw [if_neg absent]
  obtain ⟨targets, brought⟩ :=
    @targets_addAddress _ pool (surroundings.getAddressOfEntity member)
  dsimp only
  split_ifs with throws
  · rw [imp_iff_right throws]
    unfold Consistent
    rw [targets, brought]
    constructor
    · intro right address has
      exact (consistent address).mpr
        ((right address).mp ((mem_addAddress _ address).mpr (Or.inr has)))
    · intro known address
      rw [mem_addAddress, ← consistent]
      exact or_iff_left_of_imp (known address)
  · refine iff_of_true (fun address => ?_) fun threw => absurd threw throws
    change address ∈ (pool.addAddress _).serverPoolAddresses ↔
      ∃ target, target ∈ (pool.addAddress _).serverPoolTargets.add member ∧
        (if member ∈ (pool.addAddress _).serverPoolTargets then (pool.addAddress _).brought
          else Function.update (pool.addAddress _).brought member _) target = some address
    rw [mem_addAddress, targets, brought, if_neg absent, consistent]
    constructor
    · rintro (⟨target, there, has⟩ | has)
      · refine ⟨target, (LinkedSet.mem_add ..).mpr (Or.inl there), ?_⟩
        have away : target ≠ member := by
          rintro rfl
          exact absent there
        rw [Function.update_of_ne away]
        exact has
      · exact ⟨member, (LinkedSet.mem_add ..).mpr (Or.inr rfl), by rw [Function.update_self, has]⟩
    · rintro ⟨target, there, has⟩
      by_cases same : target = member
      · rw [same, Function.update_self] at has
        exact Or.inr has
      · rw [Function.update_of_ne same] at has
        exact Or.inl ⟨target, ((LinkedSet.mem_add ..).mp there).resolve_right same, has⟩

theorem removeServerPoolMember_consistent_iff (consistent : Consistent pool) {member : Ref}
    (target : member ∈ pool.serverPoolTargets) :
    Consistent (removeServerPoolMember surroundings member pool).2 ↔
      RemoveFits surroundings pool member := by
  unfold removeServerPoolMember RemoveFits
  rw [if_neg (not_not_intro target)]
  obtain ⟨targets, brought⟩ :=
    @targets_removeAddress _ pool (surroundings.getAddressOfEntity member)
  dsimp only
  split_ifs with throws
  · unfold Consistent
    rw [targets, brought]
    constructor
    · intro right address has there
      have stays := (right address).mpr ((consistent address).mp there)
      exact ((mem_removeAddress _ address).mp stays).2 has
    · intro unknown address
      rw [mem_removeAddress, ← consistent]
      exact and_iff_left_of_imp fun there has => unknown address has there
  · have others (address : String) :
        (∃ other, other ∈ (removeTarget member
          (pool.removeAddress (surroundings.getAddressOfEntity member))).serverPoolTargets ∧
          (pool.removeAddress (surroundings.getAddressOfEntity member)).brought other =
            some address) ↔ pool.OtherBrings member address := by
      unfold removeTarget OtherBrings
      rw [targets, brought]
      exact exists_congr fun other => by rw [LinkedSet.mem_remove, and_assoc]
    have brings (address : String) : address ∈ pool.serverPoolAddresses ↔
        pool.brought member = some address ∨ pool.OtherBrings member address := by
      rw [consistent]
      constructor
      · rintro ⟨other, there, has⟩
        by_cases same : other = member
        · exact Or.inl (same ▸ has)
        · exact Or.inr ⟨other, there, same, has⟩
      · rintro (has | ⟨other, there, -, has⟩)
        · exact ⟨member, target, has⟩
        · exact ⟨other, there, has⟩
    have after (address : String) :
        address ∈ (removeTarget member
          (pool.removeAddress (surroundings.getAddressOfEntity member))).serverPoolAddresses ↔
          (pool.brought member = some address ∨ pool.OtherBrings member address) ∧
            surroundings.getAddressOfEntity member ≠ some address := by
      rw [← brings]
      exact mem_removeAddress _ address
    constructor
    · intro right
      have same (address : String) := (after address).symm.trans ((right address).trans
        (others address))
      refine ⟨fun address brought => ?_, fun address has other => ?_⟩
      · by_cases now : surroundings.getAddressOfEntity member = some address
        · exact Or.inl now
        · exact Or.inr ((same address).mp ⟨Or.inl brought, now⟩)
      · exact ((same address).mpr other).2 has
    · rintro ⟨known, alone⟩ address
      refine (after address).trans (Iff.trans ?_ (others address).symm)
      constructor
      · rintro ⟨brought | other, now⟩
        · exact (known address brought).resolve_left now
        · exact other
      · exact fun other => ⟨Or.inr other, fun has => alone address has other⟩

def ChangeFits (pool : ServerPool Ref) (member : Ref) : Prop :=
  match surroundings.belongsInServerPool member with
  | .error _ => True
  | .ok true => member ∉ pool.serverPoolTargets → AddFits surroundings pool member
  | .ok false => member ∈ pool.serverPoolTargets → RemoveFits surroundings pool member

theorem memberChanged_consistent_iff (consistent : Consistent pool) (member : Ref) :
    Consistent (onServerPoolMemberChanged surroundings member pool).2 ↔
      ChangeFits surroundings pool member := by
  unfold onServerPoolMemberChanged ChangeFits
  cases surroundings.belongsInServerPool member with
  | error fault => exact iff_of_true consistent trivial
  | ok belongs =>
    by_cases target : member ∈ pool.serverPoolTargets
    · cases belongs with
      | true =>
        dsimp only
        unfold addServerPoolMember
        rw [if_pos target]
        exact iff_of_true consistent fun absent => absurd target absent
      | false =>
        exact (removeServerPoolMember_consistent_iff surroundings consistent target).trans
          (imp_iff_right target).symm
    · cases belongs with
      | true =>
        exact (addServerPoolMember_consistent_iff surroundings consistent target).trans
          (imp_iff_right target).symm
      | false =>
        dsimp only
        unfold removeServerPoolMember
        rw [if_pos target]
        exact iff_of_true consistent fun there => absurd there target

end Changes

section Reset

/-- The targets are the entities done, with the addresses that they have now. -/
structure Holds (done : List Ref) (pool : ServerPool Ref) : Prop where
  targets : ∀ target, target ∈ pool.serverPoolTargets ↔ target ∈ done
  brought : ∀ target, target ∈ done →
    pool.brought target = surroundings.getAddressOfEntity target
  addresses : ∀ address, address ∈ pool.serverPoolAddresses ↔
    ∃ target, target ∈ done ∧ surroundings.getAddressOfEntity target = some address

variable {surroundings} {done : List Ref}

omit [DecidableEq Ref] in
theorem Holds.consistent (holds : Holds surroundings done pool) : Consistent pool := by
  intro address
  rw [holds.addresses]
  refine exists_congr fun target => ?_
  rw [holds.targets]
  exact and_congr_right fun there => by rw [holds.brought target there]

theorem Holds.put (holds : Holds surroundings done pool) (member : Ref) :
    Holds surroundings (done ++ [member])
      ((pool.addTarget member (surroundings.getAddressOfEntity member)).addAddress
        (surroundings.getAddressOfEntity member)) := by
  obtain ⟨targets, brought⟩ := @targets_addAddress _
    (pool.addTarget member (surroundings.getAddressOfEntity member))
    (surroundings.getAddressOfEntity member)
  have mem_done (target : Ref) : target ∈ done ++ [member] ↔ target ∈ done ∨ target = member := by
    rw [List.mem_append, List.mem_singleton]
  constructor
  · intro target
    rw [targets, mem_done, ← holds.targets]
    exact LinkedSet.mem_add ..
  · intro target there
    rw [brought]
    change (if member ∈ pool.serverPoolTargets then pool.brought
      else Function.update pool.brought member _) target = _
    split
    next known =>
      rcases (mem_done target).mp there with before | rfl
      · exact holds.brought target before
      · exact holds.brought target ((holds.targets target).mp known)
    next =>
      by_cases same : target = member
      · rw [same, Function.update_self]
      · rw [Function.update_of_ne same]
        exact holds.brought target (((mem_done target).mp there).resolve_right same)
  · intro address
    rw [mem_addAddress]
    change address ∈ pool.serverPoolAddresses ∨ _ ↔ _
    rw [holds.addresses]
    constructor
    · rintro (⟨target, there, has⟩ | has)
      · exact ⟨target, (mem_done target).mpr (Or.inl there), has⟩
      · exact ⟨member, (mem_done member).mpr (Or.inr rfl), has⟩
    · rintro ⟨target, there, has⟩
      rcases (mem_done target).mp there with before | rfl
      · exact Or.inl ⟨target, before, has⟩
      · exact Or.inr has

/-- The order of an update that returns does not matter. -/
theorem addServerPoolMember_quiet {member : Ref} (absent : member ∉ pool.serverPoolTargets)
    (quiet : surroundings.updateThrows member = false) :
    addServerPoolMember surroundings member pool =
      (.ok (), (pool.addTarget member (surroundings.getAddressOfEntity member)).addAddress
        (surroundings.getAddressOfEntity member)) := by
  unfold addServerPoolMember
  rw [if_neg absent]
  dsimp only
  rw [if_neg (Bool.eq_false_iff.mp quiet)]
  cases surroundings.getAddressOfEntity member <;> rfl

omit [DecidableEq Ref] in
/-- Telling of an entity that is done changes nothing. -/
theorem Holds.again (holds : Holds surroundings done pool) {member : Ref} (known : member ∈ done) :
    Holds surroundings (done ++ [member]) pool := by
  have mem_done (target : Ref) : target ∈ done ++ [member] ↔ target ∈ done := by
    rw [List.mem_append, List.mem_singleton]
    refine or_iff_left_of_imp ?_
    rintro rfl
    exact known
  constructor
  · intro target
    rw [mem_done, holds.targets]
  · exact fun target there => holds.brought target ((mem_done target).mp there)
  · intro address
    rw [holds.addresses]
    exact exists_congr fun target => and_congr_left fun _ => (mem_done target).symm

theorem onMembersAdded_cons {member : Ref} {rest : List Ref} {after : ServerPool Ref}
    (ran : onServerPoolMemberChanged surroundings member pool = (.ok (), after)) :
    onMembersAdded surroundings (member :: rest) pool = onMembersAdded surroundings rest after := by
  rw [onMembersAdded, ran]

/-- While no update throws, the members that are up become targets. -/
theorem onMembersAdded_quiet {members : List Ref} (group : surroundings.serverPool = some members)
    {rest : List Ref} (later : List Ref) (inside : ∀ member ∈ rest, member ∈ members)
    (quiet : ∀ member ∈ rest, surroundings.serviceUp member = true →
      surroundings.updateThrows member = false)
    (up : ∀ member ∈ done, surroundings.serviceUp member = true)
    (holds : Holds surroundings done pool) :
    ∃ after, onMembersAdded surroundings (rest ++ later) pool =
        onMembersAdded surroundings later after ∧
      Holds surroundings (done ++ rest.filter surroundings.serviceUp) after := by
  induction rest generalizing done pool with
  | nil => exact ⟨pool, rfl, by simpa using holds⟩
  | cons member rest ih =>
    have others := fun e there => inside e (List.mem_cons_of_mem member there)
    have quietRest := fun e there => quiet e (List.mem_cons_of_mem member there)
    have belongs : surroundings.belongsInServerPool member =
        .ok (surroundings.serviceUp member) := by
      unfold PoolSurroundings.belongsInServerPool
      rw [group]
      cases surroundings.serviceUp member with
      | false => rfl
      | true => simp [inside member List.mem_cons_self]
    rw [List.cons_append]
    cases isUp : surroundings.serviceUp member with
    | false =>
      have absent : member ∉ pool.serverPoolTargets := by
        intro there
        have is := up member ((holds.targets member).mp there)
        rw [isUp] at is
        cases is
      have ran : onServerPoolMemberChanged surroundings member pool = (.ok (), pool) := by
        unfold onServerPoolMemberChanged removeServerPoolMember
        rw [belongs, isUp]
        exact if_pos absent
      rw [onMembersAdded_cons ran, List.filter_cons_of_neg (by simp [isUp])]
      exact ih others quietRest up holds
    | true =>
      have upNow : ∀ e ∈ done ++ [member], surroundings.serviceUp e = true := by
        intro e there
        rcases List.mem_append.mp there with before | here
        · exact up e before
        · rw [List.mem_singleton.mp here, isUp]
      rw [List.filter_cons_of_pos isUp, List.append_cons]
      by_cases target : member ∈ pool.serverPoolTargets
      · have ran : onServerPoolMemberChanged surroundings member pool = (.ok (), pool) := by
          unfold onServerPoolMemberChanged addServerPoolMember
          rw [belongs, isUp]
          exact if_pos target
        rw [onMembersAdded_cons ran]
        exact ih others quietRest upNow (holds.again ((holds.targets member).mp target))
      · have ran := addServerPoolMember_quiet target (quiet member List.mem_cons_self isUp)
        rw [onMembersAdded_cons (by unfold onServerPoolMemberChanged; rw [belongs, isUp, ran])]
        exact ih others quietRest upNow (holds.put member)

theorem putMembers_consistent (holds : Holds surroundings done pool) (rest : List Ref) :
    Consistent (putMembers surroundings rest pool).2 := by
  induction rest generalizing done pool with
  | nil => exact holds.consistent
  | cons member rest ih =>
    unfold putMembers
    cases surroundings.belongsInServerPool member with
    | error fault => exact holds.consistent
    | ok belongs =>
      cases belongs with
      | true => exact ih (holds.put member)
      | false => exact ih holds

variable (surroundings)

/-- The first update that throws comes with an address that an earlier member has. -/
def ResetFits : Prop :=
  ∀ members, surroundings.serverPool = some members →
    ∀ before member behind, members = before ++ member :: behind →
      surroundings.serviceUp member = true → surroundings.updateThrows member = true →
      (∀ e ∈ before, surroundings.serviceUp e = true → surroundings.updateThrows e = false) →
      ∀ address, surroundings.getAddressOfEntity member = some address →
        ∃ e ∈ before, surroundings.serviceUp e = true ∧
          surroundings.getAddressOfEntity e = some address

theorem reset_consistent_iff (pool : ServerPool Ref) :
    Consistent (resetServerPoolMemberTrackerPolicy surroundings pool).2 ↔
      ResetFits surroundings := by
  have start : Holds surroundings []
      { pool with serverPoolAddresses := .empty, serverPoolTargets := .empty } :=
    ⟨fun target => iff_of_false (LinkedSet.not_mem_empty target) List.not_mem_nil,
      fun target there => absurd there List.not_mem_nil,
      fun address => iff_of_false (LinkedSet.not_mem_empty address) (by simp)⟩
  cases group : surroundings.serverPool with
  | none =>
    have ended : (resetServerPoolMemberTrackerPolicy surroundings pool).2 =
        { pool with serverPoolAddresses := .empty, serverPoolTargets := .empty } := by
      unfold resetServerPoolMemberTrackerPolicy
      dsimp only
      rw [group]
    rw [ended]
    refine iff_of_true start.consistent fun members named => ?_
    rw [group] at named
    cases named
  | some members =>
    have noneDone : ∀ e ∈ ([] : List Ref), surroundings.serviceUp e = true := by simp
    have thrown {before behind : List Ref} {member : Ref}
        (split : members = before ++ member :: behind)
        (isUp : surroundings.serviceUp member = true)
        (throws : surroundings.updateThrows member = true)
        (quiet : ∀ e ∈ before, surroundings.serviceUp e = true →
          surroundings.updateThrows e = false) :
        Consistent (resetServerPoolMemberTrackerPolicy surroundings pool).2 ↔
          ∀ address, surroundings.getAddressOfEntity member = some address →
            ∃ e ∈ before, surroundings.serviceUp e = true ∧
              surroundings.getAddressOfEntity e = some address := by
      obtain ⟨after, ran, holds⟩ := onMembersAdded_quiet group (member :: behind)
        (fun e there => split ▸ List.mem_append_left _ there) quiet noneDone start
      have absent : member ∉ after.serverPoolTargets := by
        intro there
        obtain ⟨earlier, -⟩ := List.mem_filter.mp ((holds.targets member).mp there)
        rw [quiet member earlier isUp] at throws
        cases throws
      have belongs : surroundings.belongsInServerPool member = .ok true := by
        unfold PoolSurroundings.belongsInServerPool
        rw [if_pos isUp, group]
        simp [split]
      have ended : (resetServerPoolMemberTrackerPolicy surroundings pool).2 =
          after.addAddress (surroundings.getAddressOfEntity member) := by
        unfold resetServerPoolMemberTrackerPolicy
        dsimp only
        rw [group]
        dsimp only
        rw [split, ran]
        unfold onMembersAdded onServerPoolMemberChanged
        rw [belongs]
        dsimp only
        unfold addServerPoolMember
        rw [if_neg absent]
        dsimp only
        rw [if_pos throws]
      have step := addServerPoolMember_consistent_iff surroundings holds.consistent absent
      unfold addServerPoolMember AddFits at step
      rw [if_neg absent] at step
      dsimp only at step
      rw [if_pos throws, imp_iff_right throws] at step
      rw [ended]
      refine step.trans (forall₂_congr fun address _ => ?_)
      rw [holds.addresses]
      exact exists_congr fun e => by rw [List.nil_append, List.mem_filter, and_assoc]
    constructor
    · rintro right _ named before member behind split isUp throws quiet
      rw [group] at named
      cases named
      exact (thrown split isUp throws quiet).mp right
    · intro fits
      cases found : members.find? fun e => surroundings.serviceUp e && surroundings.updateThrows e with
      | none =>
        have quiet : ∀ e ∈ members, surroundings.serviceUp e = true →
            surroundings.updateThrows e = false := by
          intro e there isUp
          simpa [isUp] using List.find?_eq_none.mp found e there
        obtain ⟨after, ran, holds⟩ := onMembersAdded_quiet group [] (fun _ there => there) quiet
          noneDone start
        rw [List.append_nil] at ran
        unfold resetServerPoolMemberTrackerPolicy
        dsimp only
        rw [group]
        dsimp only
        rw [ran]
        exact putMembers_consistent holds members
      | some member =>
        obtain ⟨bad, before, behind, split, quiet⟩ := List.find?_eq_some_iff_append.mp found
        rw [Bool.and_eq_true] at bad
        have quiet : ∀ e ∈ before, surroundings.serviceUp e = true →
            surroundings.updateThrows e = false := by
          intro e there isUp
          simpa [isUp] using quiet e there
        exact (thrown split bad.1 bad.2 quiet).mpr
          (fits members group before member behind split bad.1 bad.2 quiet)

end Reset

section Runs

/-- The addresses stay with the targets in a call. -/
def Fits (pool : ServerPool Ref) : Call Ref → Prop
  | .reset surroundings => ResetFits surroundings
  | .memberChanged surroundings member => ChangeFits surroundings pool member

/-- The addresses are those of the targets after every call if and only if each call fits. -/
theorem addresses_of_targets_iff (calls : List (Call Ref)) :
    CallRuns.Throughout perform Consistent calls (initial : ServerPool Ref) ↔
      CallRuns.Each perform Fits calls (initial : ServerPool Ref) := by
  refine CallRuns.throughout_iff_each (fun pool call consistent => ?_) calls fun address => ?_
  · cases call with
    | reset surroundings => exact reset_consistent_iff surroundings pool
    | memberChanged surroundings member =>
      exact memberChanged_consistent_iff surroundings consistent member
  · refine iff_of_false (LinkedSet.not_mem_empty address) ?_
    rintro ⟨target, there, -⟩
    exact LinkedSet.not_mem_empty target there

/-- The member was put there as `a:80`, and is `b:80` when it goes down. -/
theorem address_outlives_target :
    ¬ ∀ calls : List (Call Nat),
      CallRuns.Throughout perform Consistent calls (initial : ServerPool Nat) := by
  intro claimed
  let named (up : Bool) (host : String) : PoolSurroundings Nat :=
    { serviceUp := fun _ => up
      hostname := fun _ => some host
      httpPort := fun _ => some 80
      serverPool := some [0]
      updateThrows := fun _ => false }
  let calls : List (Call Nat) := [.memberChanged (named true "a") 0, .memberChanged (named false "b") 0]
  obtain ⟨-, -, consistent⟩ := claimed calls
  have stays : "a:80" ∈ (perform (.memberChanged (named false "b") 0)
      (perform (.memberChanged (named true "a") 0) initial)).serverPoolAddresses := by
    decide +kernel
  obtain ⟨target, there, -⟩ := (consistent "a:80").mp stays
  have nobody : (perform (.memberChanged (named false "b") 0)
      (perform (.memberChanged (named true "a") 0) initial)).serverPoolTargets.elements = [] := by
    decide +kernel
  exact absurd (nobody ▸ there : target ∈ ([] : List Nat)) List.not_mem_nil

end Runs

end Brooklyn.ServerPool
