import Brooklyn.Custody
import Brooklyn.Transition

/-!
`BasicPool` at the grain of its accesses. A block synchronized on the deque is one
access: what it reads and writes is read and written in such blocks only. The
counters are atomic, one access each, and are taken without the wrap-around of an
`int`. What the supplier gives, what the viability checker answers or throws and how
a receiver of `exec` ends are inputs of a step; the supplier gives a resource that
it has not given before, and the closer returns.

`leases`, `closed`, `created`, `closings` and `closeCalls` are history: the leases
made, those that were given back, the resources the supplier gave, the arguments of
the closer, and the leases whose `close` was called.
-/

namespace Brooklyn.BasicPool
open Transition

/-- Who made the lease: `exec` keeps its own to itself. -/
inductive Caller where
  | leaseObject
  | exec
deriving DecidableEq

structure BasicLease (Resource : Type) where
  val : Resource
  caller : Caller

inductive Pc (Resource : Type) where
  | idle
  | leaseObject (caller : Caller)
  | removeLast (caller : Caller)
  | viabilityChecker (caller : Caller) (existing : Resource)
  | countClosed (caller : Caller) (existing : Resource)
  | closer (caller : Caller) (existing : Resource)
  | supplier (caller : Caller)
  | countCreated (caller : Caller) (result : Resource)
  | countLeased (caller : Caller) (val : Resource)
  | receiver (lease : Nat) (val : Resource)
  | countReturned (lease : Nat) (val : Resource)
  | returnLeasee (val : Resource)
  | closePool

structure Shared (Resource : Type) where
  pool : List Resource
  closed : Bool
  currentLeasedCount : Int
  totalLeasedCount : Nat
  totalCreatedCount : Nat
  totalClosedCount : Nat
  leases : List (BasicLease Resource)
  outstanding : List Nat
  created : List Resource
  closings : List Resource
  closeCalls : List Nat

structure State (Resource Thread : Type) where
  shared : Shared Resource
  pc : Thread → Pc Resource

inductive Action (Resource Thread : Type) where
  | leaseObject (thread : Thread)
  | exec (thread : Thread)
  | close (thread : Thread) (lease : Nat)
  | closePool (thread : Thread)
  | next (thread : Thread)
  | viable (thread : Thread) (answer : Bool)
  | viabilityCheckerThrows (thread : Thread)
  | supply (thread : Thread) (result : Resource)
  | received (thread : Thread)

variable {Resource Thread : Type}

/-- The accesses that depend on nothing outside the pool. -/
def exec (shared : Shared Resource) : Pc Resource → Option (Shared Resource × Pc Resource)
  | .leaseObject caller =>
      some ({ shared with totalLeasedCount := shared.totalLeasedCount + 1 }, .removeLast caller)
  | .removeLast caller =>
      -- The pool is closed: `leaseObject` throws.
      if shared.closed then some (shared, .idle)
      else
        match shared.pool.getLast? with
        | some existing =>
            some ({ shared with pool := shared.pool.dropLast }, .viabilityChecker caller existing)
        | none => some (shared, .supplier caller)
  | .countClosed caller existing =>
      some ({ shared with totalClosedCount := shared.totalClosedCount + 1 },
        .closer caller existing)
  | .closer caller existing =>
      some ({ shared with closings := shared.closings ++ [existing] }, .removeLast caller)
  | .countCreated caller result =>
      some ({ shared with totalCreatedCount := shared.totalCreatedCount + 1 },
        .countLeased caller result)
  | .countLeased caller val =>
      some ({ shared with
          currentLeasedCount := shared.currentLeasedCount + 1
          leases := shared.leases ++ [⟨val, caller⟩]
          outstanding := shared.outstanding ++ [shared.leases.length] },
        match caller with
        | .leaseObject => .idle
        | .exec => .receiver shared.leases.length val)
  | .countReturned lease val =>
      some ({ shared with
          currentLeasedCount := shared.currentLeasedCount - 1
          outstanding := shared.outstanding.erase lease },
        .returnLeasee val)
  | .returnLeasee val =>
      if shared.closed then
        some ({ shared with
            totalClosedCount := shared.totalClosedCount + 1
            closings := shared.closings ++ [val] }, .idle)
      else some ({ shared with pool := shared.pool ++ [val] }, .idle)
  | .closePool =>
      some ({ shared with
          closed := true
          totalClosedCount := shared.totalClosedCount + shared.pool.length
          closings := shared.closings ++ shared.pool
          pool := [] }, .idle)
  | _ => none

def viable (shared : Shared Resource) (answer : Bool) :
    Pc Resource → Option (Shared Resource × Pc Resource)
  | .viabilityChecker caller existing =>
      some (shared, if answer then .countLeased caller existing else .countClosed caller existing)
  | _ => none

/-- The exception leaves the resource to nobody. -/
def viabilityCheckerThrows (shared : Shared Resource) :
    Pc Resource → Option (Shared Resource × Pc Resource)
  | .viabilityChecker _ _ => some (shared, .idle)
  | _ => none

/-- The receiver of `exec` returned or threw; its lease is closed either way. -/
def received (shared : Shared Resource) : Pc Resource → Option (Shared Resource × Pc Resource)
  | .receiver lease val => some (shared, .countReturned lease val)
  | _ => none

def calls (shared : Shared Resource) (entry : Pc Resource) :
    Pc Resource → Option (Shared Resource × Pc Resource)
  | .idle => some (shared, entry)
  | _ => none

section Steps
variable [DecidableEq Thread] [DecidableEq Resource]

def supply (shared : Shared Resource) (result : Resource) :
    Pc Resource → Option (Shared Resource × Pc Resource)
  | .supplier caller =>
      if result ∈ shared.created then none
      else
        some ({ shared with created := shared.created ++ [result] }, .countCreated caller result)
  | _ => none

/-- `Lease.close`, on a lease that a call of `leaseObject` returned. -/
def close (shared : Shared Resource) (lease : Nat) (pc : Pc Resource) :
    Option (Shared Resource × Pc Resource) :=
  match shared.leases[lease]? with
  | some ⟨val, .leaseObject⟩ =>
      calls { shared with closeCalls := shared.closeCalls ++ [lease] } (.countReturned lease val) pc
  | _ => none

def State.goto (state : State Resource Thread) (thread : Thread)
    (moved : Shared Resource × Pc Resource) : State Resource Thread :=
  { shared := moved.1, pc := Function.update state.pc thread moved.2 }

def Action.thread : Action Resource Thread → Thread
  | .leaseObject thread | .exec thread | .close thread _ | .closePool thread | .next thread
  | .viable thread _ | .viabilityCheckerThrows thread | .supply thread _ | .received thread =>
      thread

def perform (shared : Shared Resource) (pc : Pc Resource) :
    Action Resource Thread → Option (Shared Resource × Pc Resource)
  | .leaseObject _ => calls shared (.leaseObject .leaseObject) pc
  | .exec _ => calls shared (.leaseObject .exec) pc
  | .close _ lease => close shared lease pc
  | .closePool _ => calls shared .closePool pc
  | .next _ => exec shared pc
  | .viable _ answer => viable shared answer pc
  | .viabilityCheckerThrows _ => viabilityCheckerThrows shared pc
  | .supply _ result => supply shared result pc
  | .received _ => received shared pc

def step (state : State Resource Thread) (action : Action Resource Thread) :
    Option (State Resource Thread) :=
  (perform state.shared (state.pc action.thread) action).map (state.goto action.thread)

def basicPool (Resource Thread : Type) [DecidableEq Thread] [DecidableEq Resource] :
    System (State Resource Thread) (Action Resource Thread) where
  initial :=
    { shared :=
        { pool := [], closed := false, currentLeasedCount := 0, totalLeasedCount := 0
          totalCreatedCount := 0, totalClosedCount := 0, leases := [], outstanding := []
          created := [], closings := [], closeCalls := [] }
      pc := fun _ => .idle }
  step := step

end Steps
end Brooklyn.BasicPool

/-!
The accounting of the pool. Every resource the supplier gave is at one place: idle,
leased, closed, or in the hands of a call between two accesses. The lists and the
counters of the pool are compared with that ledger, which is kept as long as no
lease is closed twice and the viability checker does not throw.
-/

namespace Brooklyn.BasicPool
open Transition Custody

variable {Resource Thread : Type}

/-- A leased resource may be on its way back: `exec` or `close` of some thread has it. -/
inductive Place (Thread : Type) where
  | idle
  | closed
  | leased (lease : Nat) (closing : Option Thread)
  | supplied (thread : Thread)
  | inHand (thread : Thread)
  | discarded (thread : Thread)

namespace Place

def owner : Place Thread → Option Thread
  | .idle | .closed => none
  | .leased _ closing => closing
  | .supplied thread | .inHand thread | .discarded thread => some thread

def lease : Place Thread → Option Nat
  | .leased lease _ => some lease
  | _ => none

def isIdle : Place Thread → Bool
  | .idle => true
  | _ => false

def isSupplied : Place Thread → Bool
  | .supplied _ => true
  | _ => false

def isClosed : Place Thread → Bool
  | .closed | .discarded _ => true
  | _ => false

/-- What `closePool` does to the idle resources. -/
def close : Place Thread → Place Thread
  | .idle => .closed
  | place => place

@[simp] theorem lease_close (place : Place Thread) : place.close.lease = place.lease := by
  cases place <;> rfl

@[simp] theorem isSupplied_close (place : Place Thread) :
    place.close.isSupplied = place.isSupplied := by
  cases place <;> rfl

end Place

def Pc.hand (thread : Thread) : Pc Resource → Option (Resource × Place Thread)
  | .viabilityChecker _ existing | .countClosed _ existing => some (existing, .inHand thread)
  | .closer _ existing => some (existing, .discarded thread)
  | .countCreated _ result => some (result, .supplied thread)
  | .countLeased _ val | .returnLeasee val => some (val, .inHand thread)
  | .receiver lease val | .countReturned lease val => some (val, .leased lease (some thread))
  | _ => none

/-- The leases and the places of the leased resources. -/
structure Leased (leases : List (BasicLease Resource)) (closeCalls : List Nat)
    (ledger : Ledger Resource (Place Thread)) : Prop where
  vals : ∀ val lease closing, ledger.At val (.leased lease closing) →
    (leases[lease]?).map (·.val) = some val
  unclosed : ∀ lease val, leases[lease]? = some ⟨val, .leaseObject⟩ → lease ∉ closeCalls →
    ledger.At val (.leased lease none)

structure Counted (currentLeasedCount : Int) (totalCreatedCount totalClosedCount : Nat)
    (ledger : Ledger Resource (Place Thread)) : Prop where
  leased : currentLeasedCount = ledger.count fun place => place.lease.isSome
  created : totalCreatedCount + ledger.count Place.isSupplied = ledger.tokens.length
  closed : totalClosedCount = ledger.count Place.isClosed

structure Tracks (state : State Resource Thread) (ledger : Ledger Resource (Place Thread)) :
    Prop where
  created : ledger.tokens = state.shared.created
  pool : ledger.Lists .idle state.shared.pool
  closings : ledger.Lists .closed state.shared.closings
  outstanding : ledger.Named Place.lease state.shared.outstanding
  leased : Leased state.shared.leases state.shared.closeCalls ledger
  carried : ledger.Carried Place.owner fun thread => (state.pc thread).hand thread
  counted : Counted state.shared.currentLeasedCount state.shared.totalCreatedCount
    state.shared.totalClosedCount ledger

section Transfers
variable [DecidableEq Resource] {ledger : Ledger Resource (Place Thread)}
  {leases : List (BasicLease Resource)} {closeCalls : List Nat} {token : Resource}
  {here there : Place Thread}

/-- The token is not leased afterwards, and was not leased out before. -/
theorem leased_kept (leased : Leased leases closeCalls ledger) (stands : ledger.At token here)
    (out : ∀ lease, here ≠ .leased lease none) (unleased : there.lease = none) :
    Leased leases closeCalls (ledger.transfer token there) := by
  refine ⟨fun val lease closing after => ?_, fun lease val made unclosed => ?_⟩
  · rcases (Ledger.at_transfer stands val _).mp after with ⟨_, rfl⟩ | ⟨_, before⟩
    · cases unleased
    · exact leased.vals val lease closing before
  · have before := leased.unclosed lease val made unclosed
    refine (Ledger.at_transfer stands val _).mpr (Or.inr ⟨?_, before⟩)
    rintro rfl
    exact out lease (stands.unique before)

theorem leased_issued (leased : Leased leases closeCalls ledger) {thread : Thread}
    (fresh : token ∉ ledger.tokens) :
    Leased leases closeCalls (ledger.issue token (.supplied thread) fresh) := by
  refine ⟨fun val lease closing after => ?_, fun lease val made unclosed => ?_⟩
  · rcases (Ledger.at_issue fresh val _).mp after with ⟨_, same⟩ | before
    · cases same
    · exact leased.vals val lease closing before
  · exact (Ledger.at_issue fresh val _).mpr (Or.inr (leased.unclosed lease val made unclosed))

theorem leased_closing (leased : Leased leases closeCalls ledger) {lease : Nat} {thread : Thread}
    (stands : ledger.At token (.leased lease none)) :
    Leased leases (closeCalls ++ [lease])
      (ledger.transfer token (.leased lease (some thread))) := by
  refine ⟨fun val other closing after => ?_, fun other val made unclosed => ?_⟩
  · rcases (Ledger.at_transfer stands val _).mp after with ⟨rfl, same⟩ | ⟨_, before⟩
    · cases same
      exact leased.vals val lease none stands
    · exact leased.vals val other closing before
  · rw [List.mem_append, List.mem_singleton, not_or] at unclosed
    have before := leased.unclosed other val made unclosed.1
    refine (Ledger.at_transfer stands val _).mpr (Or.inr ⟨?_, before⟩)
    rintro rfl
    cases stands.unique before
    exact unclosed.2 rfl

omit [DecidableEq Resource] in
theorem leased_relocated (leased : Leased leases closeCalls ledger) :
    Leased leases closeCalls (ledger.relocate Place.close) := by
  refine ⟨fun val lease closing after => ?_, fun lease val made unclosed => ?_⟩
  · obtain ⟨here, stands, same⟩ := (Ledger.at_relocate val _).mp after
    cases here <;> cases same
    exact leased.vals val lease closing stands
  · exact (Ledger.at_relocate val _).mpr ⟨_, leased.unclosed lease val made unclosed, rfl⟩

/-- The thread that has the new lease in hand: `exec` keeps it, `leaseObject` returns it. -/
def Caller.keeps (thread : Thread) : Caller → Option Thread
  | .leaseObject => none
  | .exec => some thread

theorem leased_made (leased : Leased leases closeCalls ledger) {caller : Caller}
    {val : Resource} {thread : Thread} (stands : ledger.At val (.inHand thread)) :
    Leased (leases ++ [⟨val, caller⟩]) closeCalls
      (ledger.transfer val (.leased leases.length (caller.keeps thread))) := by
  refine ⟨fun other lease closing after => ?_, fun lease other made unclosed => ?_⟩
  · rcases (Ledger.at_transfer stands other _).mp after with ⟨rfl, same⟩ | ⟨_, before⟩
    · cases same
      simp
    · obtain ⟨made, found, same⟩ := Option.map_eq_some_iff.mp (leased.vals other lease closing before)
      rw [List.getElem?_append_left (List.getElem?_eq_some_iff.mp found).1, found, Option.map_some,
        same]
  · rw [List.getElem?_append] at made
    split at made
    · have before := leased.unclosed lease other made unclosed
      refine (Ledger.at_transfer stands other _).mpr (Or.inr ⟨?_, before⟩)
      rintro rfl
      cases stands.unique before
    · next later =>
      rw [List.getElem?_singleton] at made
      split at made
      · next last =>
        have number : lease = leases.length := by omega
        subst number
        cases made
        exact (Ledger.at_transfer stands _ _).mpr (Or.inl ⟨rfl, rfl⟩)
      · cases made

/-- The counters move with what the two places count for. -/
theorem counted_transfer {current next : Int} {created made closed done : Nat}
    (counted : Counted current created closed ledger) (stands : ledger.At token here)
    (leasing : next + here.lease.isSome.toNat = current + there.lease.isSome.toNat)
    (supplying : made + there.isSupplied.toNat = created + here.isSupplied.toNat)
    (closing : done + here.isClosed.toNat = closed + there.isClosed.toNat) :
    Counted next made done (ledger.transfer token there) := by
  have leases := Ledger.count_transfer stands there fun place => place.lease.isSome
  have supplies := Ledger.count_transfer stands there Place.isSupplied
  have closes := Ledger.count_transfer stands there Place.isClosed
  obtain ⟨leased, supplied, ended⟩ := counted
  have length : (ledger.transfer token there).tokens.length = ledger.tokens.length := rfl
  refine ⟨?_, ?_, ?_⟩ <;> omega

end Transfers

section Steps
variable {state after : State Resource Thread} {ledger : Ledger Resource (Place Thread)}
  {thread : Thread} {shared : Shared Resource} {next : Pc Resource}

/-- A token in the hands of the stepping thread. -/
theorem in_hand (tracks : Tracks state ledger) {token : Resource} (here : Place Thread)
    (hand : (state.pc thread).hand thread = some (token, here)) (owned : here.owner = some thread) :
    ledger.At token here ∧
      Ledger.Holds Place.owner thread token here ((state.pc thread).hand thread) :=
  ⟨(tracks.carried thread token here owned).mpr hand, Or.inr ⟨owned, hand⟩⟩

variable [DecidableEq Thread]

theorem goto_hand (state : State Resource Thread) (thread : Thread)
    (moved : Shared Resource × Pc Resource) :
    (fun other => ((state.goto thread moved).pc other).hand other) =
      Function.update (fun other => (state.pc other).hand other) thread (moved.2.hand thread) := by
  funext other
  by_cases same : other = thread
  · subst other
    simp [State.goto]
  · simp [State.goto, same]

theorem stay_tracks (tracks : Tracks state ledger)
    (same : shared = { state.shared with totalLeasedCount := shared.totalLeasedCount })
    (hand : next.hand thread = (state.pc thread).hand thread) :
    Tracks (state.goto thread (shared, next)) ledger := by
  have carried : ledger.Carried Place.owner
      fun other => ((state.goto thread (shared, next)).pc other).hand other := by
    rw [goto_hand, hand, Function.update_eq_self]
    exact tracks.carried
  rw [same] at carried ⊢
  exact { tracks with carried := carried }

variable [DecidableEq Resource]

theorem goto_carried (tracks : Tracks state ledger) {token : Resource} {here there : Place Thread}
    (stands : ledger.At token here)
    (before : Ledger.Holds Place.owner thread token here ((state.pc thread).hand thread))
    (after : Ledger.Holds Place.owner thread token there (next.hand thread)) :
    (ledger.transfer token there).Carried Place.owner
      fun other => ((state.goto thread (shared, next)).pc other).hand other := by
  rw [goto_hand]
  exact Ledger.transfer_carried tracks.carried stands before after

theorem removeLast_tracks (tracks : Tracks state ledger) {caller : Caller} {existing : Resource}
    {rest : List Resource} (at_pc : state.pc thread = .removeLast caller)
    (pool : state.shared.pool = rest ++ [existing]) :
    Tracks (state.goto thread
        ({ state.shared with pool := rest }, .viabilityChecker caller existing))
      (ledger.transfer existing (.inHand thread)) := by
  have lists := tracks.pool
  rw [pool] at lists
  have stands : ledger.At existing .idle := (lists.listed existing).mp (by simp)
  exact {
    created := tracks.created
    pool := Ledger.lists_lost lists (by simp)
    closings := Ledger.lists_kept tracks.closings stands (by simp) (by simp)
    outstanding := Ledger.named_kept tracks.outstanding stands rfl
    leased := leased_kept tracks.leased stands (by simp) rfl
    carried := goto_carried tracks stands (Or.inl ⟨rfl, by rw [at_pc]; rfl⟩) (Or.inr ⟨rfl, rfl⟩)
    counted := counted_transfer tracks.counted stands rfl rfl rfl }

theorem countClosed_tracks (tracks : Tracks state ledger) {caller : Caller} {existing : Resource}
    (at_pc : state.pc thread = .countClosed caller existing) :
    Tracks (state.goto thread
        ({ state.shared with totalClosedCount := state.shared.totalClosedCount + 1 },
          .closer caller existing))
      (ledger.transfer existing (.discarded thread)) := by
  obtain ⟨stands, holds⟩ := in_hand tracks (.inHand thread) (by rw [at_pc]; rfl) rfl
  exact {
    created := tracks.created
    pool := Ledger.lists_kept tracks.pool stands (by simp) (by simp)
    closings := Ledger.lists_kept tracks.closings stands (by simp) (by simp)
    outstanding := Ledger.named_kept tracks.outstanding stands rfl
    leased := leased_kept tracks.leased stands (by simp) rfl
    carried := goto_carried tracks stands holds (Or.inr ⟨rfl, rfl⟩)
    counted := counted_transfer tracks.counted stands rfl rfl rfl }

theorem closer_tracks (tracks : Tracks state ledger) {caller : Caller} {existing : Resource}
    (at_pc : state.pc thread = .closer caller existing) :
    Tracks (state.goto thread
        ({ state.shared with closings := state.shared.closings ++ [existing] },
          .removeLast caller))
      (ledger.transfer existing .closed) := by
  obtain ⟨stands, holds⟩ := in_hand tracks (.discarded thread) (by rw [at_pc]; rfl) rfl
  exact {
    created := tracks.created
    pool := Ledger.lists_kept tracks.pool stands (by simp) (by simp)
    closings := Ledger.lists_gained tracks.closings stands (by simp)
    outstanding := Ledger.named_kept tracks.outstanding stands rfl
    leased := leased_kept tracks.leased stands (by simp) rfl
    carried := goto_carried tracks stands holds (Or.inl ⟨rfl, rfl⟩)
    counted := counted_transfer tracks.counted stands rfl rfl rfl }

theorem countCreated_tracks (tracks : Tracks state ledger) {caller : Caller} {result : Resource}
    (at_pc : state.pc thread = .countCreated caller result) :
    Tracks (state.goto thread
        ({ state.shared with totalCreatedCount := state.shared.totalCreatedCount + 1 },
          .countLeased caller result))
      (ledger.transfer result (.inHand thread)) := by
  obtain ⟨stands, holds⟩ := in_hand tracks (.supplied thread) (by rw [at_pc]; rfl) rfl
  exact {
    created := tracks.created
    pool := Ledger.lists_kept tracks.pool stands (by simp) (by simp)
    closings := Ledger.lists_kept tracks.closings stands (by simp) (by simp)
    outstanding := Ledger.named_kept tracks.outstanding stands rfl
    leased := leased_kept tracks.leased stands (by simp) rfl
    carried := goto_carried tracks stands holds (Or.inr ⟨rfl, rfl⟩)
    counted := counted_transfer tracks.counted stands rfl rfl rfl }

theorem countLeased_tracks (tracks : Tracks state ledger) {caller : Caller} {val : Resource}
    (at_pc : state.pc thread = .countLeased caller val)
    (ran : exec state.shared (.countLeased caller val) = some (shared, next)) :
    Tracks (state.goto thread (shared, next))
      (ledger.transfer val (.leased state.shared.leases.length (caller.keeps thread))) := by
  obtain ⟨stands, holds⟩ := in_hand tracks (.inHand thread) (by rw [at_pc]; rfl) rfl
  -- The number of the new lease was not in use.
  have fresh : state.shared.leases.length ∉ state.shared.outstanding := by
    intro used
    obtain ⟨other, place, before, named⟩ := (tracks.outstanding.named _).mp used
    cases place <;> cases named
    simpa using tracks.leased.vals other _ _ before
  cases ran
  exact {
    created := tracks.created
    pool := Ledger.lists_kept tracks.pool stands (by simp) (by simp)
    closings := Ledger.lists_kept tracks.closings stands (by simp) (by simp)
    outstanding := Ledger.named_gained tracks.outstanding stands rfl rfl fresh
    leased := leased_made tracks.leased stands
    carried := by
      refine goto_carried tracks stands holds ?_
      cases caller
      · exact Or.inl ⟨rfl, rfl⟩
      · exact Or.inr ⟨rfl, rfl⟩
    counted := counted_transfer tracks.counted stands (by simp [State.goto, Place.lease]) rfl rfl }

theorem countReturned_tracks (tracks : Tracks state ledger) {lease : Nat} {val : Resource}
    (at_pc : state.pc thread = .countReturned lease val) :
    Tracks (state.goto thread
        ({ state.shared with
            currentLeasedCount := state.shared.currentLeasedCount - 1
            outstanding := state.shared.outstanding.erase lease }, .returnLeasee val))
      (ledger.transfer val (.inHand thread)) := by
  obtain ⟨stands, holds⟩ :=
    in_hand tracks (.leased lease (some thread)) (by rw [at_pc]; rfl) rfl
  exact {
    created := tracks.created
    pool := Ledger.lists_kept tracks.pool stands (by simp) (by simp)
    closings := Ledger.lists_kept tracks.closings stands (by simp) (by simp)
    outstanding := Ledger.named_lost tracks.outstanding stands rfl rfl
    leased := leased_kept tracks.leased stands (by simp) rfl
    carried := goto_carried tracks stands holds (Or.inr ⟨rfl, rfl⟩)
    counted := counted_transfer tracks.counted stands (by simp [State.goto, Place.lease]) rfl rfl }

theorem returnLeasee_tracks (tracks : Tracks state ledger) {val : Resource}
    (at_pc : state.pc thread = .returnLeasee val)
    (ran : exec state.shared (.returnLeasee val) = some (shared, next)) :
    ∃ ledger, Tracks (state.goto thread (shared, next)) ledger := by
  obtain ⟨stands, holds⟩ := in_hand tracks (.inHand thread) (by rw [at_pc]; rfl) rfl
  simp only [exec] at ran
  split at ran <;> cases ran
  · exact ⟨ledger.transfer val .closed, {
      created := tracks.created
      pool := Ledger.lists_kept tracks.pool stands (by simp) (by simp)
      closings := Ledger.lists_gained tracks.closings stands (by simp)
      outstanding := Ledger.named_kept tracks.outstanding stands rfl
      leased := leased_kept tracks.leased stands (by simp) rfl
      carried := goto_carried tracks stands holds (Or.inl ⟨rfl, rfl⟩)
      counted := counted_transfer tracks.counted stands rfl rfl rfl }⟩
  · exact ⟨ledger.transfer val .idle, {
      created := tracks.created
      pool := Ledger.lists_gained tracks.pool stands (by simp)
      closings := Ledger.lists_kept tracks.closings stands (by simp) (by simp)
      outstanding := Ledger.named_kept tracks.outstanding stands rfl
      leased := leased_kept tracks.leased stands (by simp) rfl
      carried := goto_carried tracks stands holds (Or.inl ⟨rfl, rfl⟩)
      counted := counted_transfer tracks.counted stands rfl rfl rfl }⟩

theorem supply_tracks (tracks : Tracks state ledger) {result : Resource}
    (ran : supply state.shared result (state.pc thread) = some (shared, next)) :
    ∃ ledger, Tracks (state.goto thread (shared, next)) ledger := by
  cases at_pc : state.pc thread with
  | supplier caller =>
      rw [at_pc] at ran
      simp only [supply] at ran
      split at ran
      · cases ran
      · next fresh =>
        cases ran
        rw [← tracks.created] at fresh
        obtain ⟨leased, created, closed⟩ := tracks.counted
        exact ⟨ledger.issue result (.supplied thread) fresh, {
          created := congrArg (· ++ [result]) tracks.created
          pool := Ledger.lists_issued tracks.pool fresh (by simp)
          closings := Ledger.lists_issued tracks.closings fresh (by simp)
          outstanding := Ledger.named_issued tracks.outstanding fresh rfl
          leased := leased_issued tracks.leased fresh
          carried := by
            rw [goto_hand]
            refine Ledger.issue_carried tracks.carried fresh ?_ (Or.inr ⟨rfl, rfl⟩)
            rw [at_pc]
            rfl
          counted := by
            refine ⟨?_, ?_, ?_⟩
            · rw [Ledger.count_issue]
              exact leased
            · rw [Ledger.count_issue, ← Nat.add_assoc]
              change _ = (ledger.tokens ++ [result]).length
              rw [List.length_append, ← created]
              rfl
            · rw [Ledger.count_issue]
              exact closed }⟩
  | _ =>
      rw [at_pc] at ran
      cases ran

theorem close_tracks (tracks : Tracks state ledger) {lease : Nat}
    (first : lease ∉ state.shared.closeCalls)
    (ran : close state.shared lease (state.pc thread) = some (shared, next)) :
    ∃ ledger, Tracks (state.goto thread (shared, next)) ledger := by
  unfold close at ran
  split at ran
  · next val made =>
    have stands := tracks.leased.unclosed lease val made first
    cases at_pc : state.pc thread with
    | idle =>
        rw [at_pc] at ran
        cases ran
        exact ⟨ledger.transfer val (.leased lease (some thread)), {
          created := tracks.created
          pool := Ledger.lists_kept tracks.pool stands (by simp) (by simp)
          closings := Ledger.lists_kept tracks.closings stands (by simp) (by simp)
          outstanding := Ledger.named_kept tracks.outstanding stands rfl
          leased := leased_closing tracks.leased stands
          carried := goto_carried tracks stands (Or.inl ⟨rfl, by rw [at_pc]; rfl⟩)
            (Or.inr ⟨rfl, rfl⟩)
          counted := counted_transfer tracks.counted stands rfl rfl rfl }⟩
    | _ =>
        rw [at_pc] at ran
        cases ran
  · cases ran

omit [DecidableEq Thread] [DecidableEq Resource] in
theorem pool_count (tracks : Tracks state ledger) :
    state.shared.pool.length = ledger.count Place.isIdle :=
  Ledger.length_eq_count tracks.pool.distinct fun token => by
    rw [tracks.pool.listed, Ledger.At, and_congr_right_iff]
    intro _
    cases ledger.place token <;> simp [Place.isIdle]

omit [DecidableEq Resource] in
/-- The idle resources are closed, and no other one. -/
theorem closePool_tracks (tracks : Tracks state ledger) (at_pc : state.pc thread = .closePool)
    (ran : exec state.shared .closePool = some (shared, next)) :
    Tracks (state.goto thread (shared, next)) (ledger.relocate Place.close) := by
  cases ran
  obtain ⟨leased, created, closed⟩ := tracks.counted
  exact {
    created := tracks.created
    pool := Ledger.lists_emptied fun place => by cases place <;> simp [Place.close]
    closings := Ledger.lists_merged tracks.closings tracks.pool (by simp) fun place => by
      cases place <;> simp [Place.close]
    outstanding := Ledger.named_relocated tracks.outstanding Place.lease_close
    leased := leased_relocated tracks.leased
    carried := by
      rw [goto_hand]
      have idle : Pc.hand thread (.idle : Pc Resource) = (state.pc thread).hand thread := by
        rw [at_pc]
        rfl
      rw [idle, Function.update_eq_self]
      refine Ledger.carried_relocated tracks.carried (fun place owned => ?_) fun place owned => ?_
      · cases place <;> first | rfl | cases owned
      · cases place <;> first | rfl | cases owned
    counted := by
      refine ⟨leased.trans ?_, Eq.trans ?_ created, ?_⟩
      · simp only [Ledger.count_relocate, Place.lease_close]
      · simp only [Ledger.count_relocate, Place.isSupplied_close]
        rfl
      · have merged : (fun place : Place Thread => (Place.close place).isClosed) =
            fun place => Place.isClosed place || Place.isIdle place := by
          funext place
          cases place <;> rfl
        have apart (place : Place Thread) (ended : place.isClosed = true) :
            place.isIdle = false := by
          cases place <;> first | rfl | cases ended
        rw [Ledger.count_relocate, merged, Ledger.count_or apart, ← closed, ← pool_count tracks]
        rfl }

theorem exec_tracks (tracks : Tracks state ledger)
    (ran : exec state.shared (state.pc thread) = some (shared, next)) :
    ∃ ledger, Tracks (state.goto thread (shared, next)) ledger := by
  cases at_pc : state.pc thread with
  | leaseObject caller =>
      rw [at_pc] at ran
      cases ran
      exact ⟨ledger, stay_tracks tracks rfl (by rw [at_pc]; rfl)⟩
  | removeLast caller =>
      rw [at_pc] at ran
      simp only [exec] at ran
      split at ran
      · cases ran
        exact ⟨ledger, stay_tracks tracks rfl (by rw [at_pc]; rfl)⟩
      · split at ran
        · next existing last =>
          cases ran
          have split := List.dropLast_append_getLast? existing last
          exact ⟨_, removeLast_tracks tracks at_pc split.symm⟩
        · cases ran
          exact ⟨ledger, stay_tracks tracks rfl (by rw [at_pc]; rfl)⟩
  | countClosed caller existing =>
      rw [at_pc] at ran
      cases ran
      exact ⟨_, countClosed_tracks tracks at_pc⟩
  | closer caller existing =>
      rw [at_pc] at ran
      cases ran
      exact ⟨_, closer_tracks tracks at_pc⟩
  | countCreated caller result =>
      rw [at_pc] at ran
      cases ran
      exact ⟨_, countCreated_tracks tracks at_pc⟩
  | countLeased caller val =>
      rw [at_pc] at ran
      exact ⟨_, countLeased_tracks tracks at_pc ran⟩
  | countReturned lease val =>
      rw [at_pc] at ran
      cases ran
      exact ⟨_, countReturned_tracks tracks at_pc⟩
  | returnLeasee val =>
      rw [at_pc] at ran
      exact returnLeasee_tracks tracks at_pc ran
  | closePool =>
      rw [at_pc] at ran
      exact ⟨_, closePool_tracks tracks at_pc ran⟩
  | _ =>
      rw [at_pc] at ran
      cases ran

omit [DecidableEq Resource] in
/-- A call begins with nothing in hand. -/
theorem calls_tracks (tracks : Tracks state ledger) {entry : Pc Resource}
    (empty : entry.hand thread = none)
    (ran : calls state.shared entry (state.pc thread) = some (shared, next)) :
    Tracks (state.goto thread (shared, next)) ledger := by
  cases at_pc : state.pc thread with
  | idle =>
      rw [at_pc] at ran
      cases ran
      exact stay_tracks tracks rfl (by rw [at_pc, empty]; rfl)
  | _ =>
      rw [at_pc] at ran
      cases ran

/-- No lease is closed a second time, and the viability checker answers. -/
def closesOnce (state : State Resource Thread) : Action Resource Thread → Bool
  | .close _ lease => !decide (lease ∈ state.shared.closeCalls)
  | .viabilityCheckerThrows _ => false
  | _ => true

theorem step_tracks (tracks : Tracks state ledger) {action : Action Resource Thread}
    (allowed : closesOnce state action = true) (moved : step state action = some after) :
    ∃ ledger, Tracks after ledger := by
  obtain ⟨⟨shared, next⟩, ran, rfl⟩ := Option.map_eq_some_iff.mp moved
  cases action with
  | leaseObject thread => exact ⟨ledger, calls_tracks tracks rfl ran⟩
  | exec thread => exact ⟨ledger, calls_tracks tracks rfl ran⟩
  | closePool thread => exact ⟨ledger, calls_tracks tracks rfl ran⟩
  | close thread lease =>
      have first : lease ∉ state.shared.closeCalls := by simpa [closesOnce] using allowed
      exact close_tracks tracks first ran
  | next thread => exact exec_tracks tracks ran
  | viabilityCheckerThrows thread => cases allowed
  | supply thread result => exact supply_tracks tracks ran
  | viable thread answer =>
      refine ⟨ledger, ?_⟩
      change viable state.shared answer (state.pc thread) = some (shared, next) at ran
      cases at_pc : state.pc thread with
      | viabilityChecker caller existing =>
          rw [at_pc] at ran
          cases ran
          refine stay_tracks tracks rfl ?_
          rw [show state.pc (Action.viable thread answer).thread = _ from at_pc]
          cases answer <;> rfl
      | _ =>
          rw [at_pc] at ran
          cases ran
  | received thread =>
      refine ⟨ledger, ?_⟩
      change received state.shared (state.pc thread) = some (shared, next) at ran
      cases at_pc : state.pc thread with
      | receiver lease val =>
          rw [at_pc] at ran
          cases ran
          exact stay_tracks tracks rfl (by
            rw [show state.pc (Action.received thread).thread = _ from at_pc]
            rfl)
      | _ =>
          rw [at_pc] at ran
          cases ran

theorem reached_tracks (reached : Reached (basicPool Resource Thread) closesOnce state) :
    ∃ ledger, Tracks state ledger := by
  refine reached_invariant (fun state => ∃ ledger, Tracks state ledger) ?_ ?_ reached
  · refine ⟨⟨[], List.nodup_nil, fun _ => .idle⟩, ?_⟩
    have nowhere {token : Resource} {place : Place Thread} :
        ¬Ledger.At ⟨[], List.nodup_nil, fun _ => .idle⟩ token place := fun stands => by
      cases stands.1
    have unlisted (place : Place Thread) :
        Ledger.Lists (⟨[], List.nodup_nil, fun _ => .idle⟩ : Ledger Resource (Place Thread))
          place [] :=
      ⟨List.nodup_nil, fun token => iff_of_false List.not_mem_nil nowhere⟩
    exact {
      created := rfl
      pool := unlisted .idle
      closings := unlisted .closed
      outstanding := by
        refine ⟨List.nodup_nil, fun one => ?_, fun _ _ _ _ _ stands => absurd stands nowhere⟩
        constructor
        · intro member
          cases member
        · rintro ⟨_, _, stands, _⟩
          exact absurd stands nowhere
      leased := ⟨fun _ _ _ stands => absurd stands nowhere, fun _ _ made => by cases made⟩
      carried := fun _ _ _ _ => ⟨fun stands => absurd stands nowhere, fun held => by cases held⟩
      counted := ⟨rfl, rfl, rfl⟩ }
  · rintro before action after _ ⟨ledger, tracks⟩ allowed moved
    exact step_tracks tracks allowed moved

end Steps

section Accounting
variable {state : State Resource Thread} {ledger : Ledger Resource (Place Thread)}

/-- The resource that a call in progress has between two accesses. -/
def Pc.inHand : Pc Resource → Option Resource
  | .viabilityChecker _ val | .countClosed _ val | .closer _ val | .countCreated _ val
  | .countLeased _ val | .returnLeasee val => some val
  | _ => none

structure Accounted (state : State Resource Thread) : Prop where
  exclusive : ∀ left ∈ state.shared.outstanding, ∀ right ∈ state.shared.outstanding, ∀ val,
    (state.shared.leases[left]?).map (·.val) = some val →
    (state.shared.leases[right]?).map (·.val) = some val → left = right
  closedOnce : state.shared.closings.Nodup
  created : ∃ inHand : List Resource, inHand.Nodup ∧
    (∀ val, val ∈ inHand ↔ ∃ thread, (state.pc thread).inHand = some val) ∧
    state.shared.created.length = state.shared.outstanding.length + state.shared.pool.length +
      state.shared.closings.length + inHand.length
  counters : (∀ thread, (state.pc thread).inHand = none) →
    state.shared.totalCreatedCount = state.shared.created.length ∧
    state.shared.totalClosedCount = state.shared.closings.length
  current : state.shared.currentLeasedCount = state.shared.outstanding.length

def Place.isListedClosed : Place Thread → Bool
  | .closed => true
  | _ => false

def Place.isInHand : Place Thread → Bool
  | .supplied _ | .inHand _ | .discarded _ => true
  | _ => false

theorem inHand_of_hand {thread : Thread} {pc : Pc Resource} {val : Resource}
    {place : Place Thread} (hand : pc.hand thread = some (val, place))
    (between : place.isInHand = true) : pc.inHand = some val := by
  cases pc <;> cases hand <;> first | rfl | cases between

theorem hand_of_inHand {pc : Pc Resource} {val : Resource} (thread : Thread)
    (inHand : pc.inHand = some val) :
    ∃ place, pc.hand thread = some (val, place) ∧ place.owner = some thread ∧
      place.isInHand = true := by
  cases pc <;> cases inHand <;> exact ⟨_, rfl, rfl, rfl⟩

/-- Between two accesses of some call are the resources at the places of that kind. -/
theorem inHand_iff (tracks : Tracks state ledger) (val : Resource) :
    (∃ thread, (state.pc thread).inHand = some val) ↔
      val ∈ ledger.tokens ∧ (ledger.place val).isInHand = true := by
  constructor
  · rintro ⟨thread, inHand⟩
    obtain ⟨place, hand, owned, between⟩ := hand_of_inHand thread inHand
    obtain ⟨member, rfl⟩ := (tracks.carried thread val place owned).mpr hand
    exact ⟨member, between⟩
  · rintro ⟨member, between⟩
    have belongs : ∃ thread, (ledger.place val).owner = some thread := by
      cases at_place : ledger.place val <;> rw [at_place] at between <;>
        first | exact ⟨_, rfl⟩ | cases between
    obtain ⟨thread, owned⟩ := belongs
    have hand := (tracks.carried thread val _ owned).mp ⟨member, rfl⟩
    exact ⟨thread, inHand_of_hand hand between⟩

theorem closings_count (tracks : Tracks state ledger) :
    state.shared.closings.length = ledger.count Place.isListedClosed :=
  Ledger.length_eq_count tracks.closings.distinct fun token => by
    rw [tracks.closings.listed, Ledger.At, and_congr_right_iff]
    intro _
    cases ledger.place token <;> simp [Place.isListedClosed]

/-- Every resource is leased, idle, closed or in hand, and only one of these. -/
theorem tokens_counted (ledger : Ledger Resource (Place Thread)) :
    ledger.tokens.length = (ledger.count fun place => place.lease.isSome) +
      ledger.count Place.isIdle + ledger.count Place.isListedClosed +
      ledger.count Place.isInHand := by
  have every : (ledger.count fun place =>
      ((place.lease.isSome || place.isIdle) || place.isListedClosed) || place.isInHand) =
      ledger.tokens.length := by
    refine List.countP_eq_length.mpr fun token _ => ?_
    cases ledger.place token <;> rfl
  have leasedOrIdle (place : Place Thread) (leased : place.lease.isSome = true) :
      place.isIdle = false := by
    cases place <;> first | rfl | cases leased
  have orClosed (place : Place Thread) (either : (place.lease.isSome || place.isIdle) = true) :
      place.isListedClosed = false := by
    cases place <;> first | rfl | cases either
  have orInHand (place : Place Thread)
      (either : ((place.lease.isSome || place.isIdle) || place.isListedClosed) = true) :
      place.isInHand = false := by
    cases place <;> first | rfl | cases either
  rw [← every, Ledger.count_or orInHand, Ledger.count_or orClosed, Ledger.count_or leasedOrIdle]

theorem tracks_counters (tracks : Tracks state ledger)
    (rest : ∀ thread, (state.pc thread).inHand = none) :
    state.shared.totalCreatedCount = state.shared.created.length ∧
    state.shared.totalClosedCount = state.shared.closings.length := by
  have nothing (token : Resource) (member : token ∈ ledger.tokens) :
      (ledger.place token).isInHand = false := by
    refine Bool.eq_false_iff.mpr fun between => ?_
    obtain ⟨thread, held⟩ := (inHand_iff tracks token).mpr ⟨member, between⟩
    rw [rest thread] at held
    cases held
  have supplied : ledger.count Place.isSupplied = 0 :=
    List.countP_eq_zero.mpr fun token member => by
      have stays := nothing token member
      cases at_place : ledger.place token <;> rw [at_place] at stays <;>
        first | exact Bool.false_ne_true | cases stays
  have closed : ledger.count Place.isClosed = ledger.count Place.isListedClosed :=
    List.countP_congr fun token member => by
      have stays := nothing token member
      cases at_place : ledger.place token <;> rw [at_place] at stays <;>
        first | rfl | cases stays
  obtain ⟨_, created, ended⟩ := tracks.counted
  rw [supplied, tracks.created] at created
  exact ⟨created, by rw [ended, closed, closings_count tracks]⟩

theorem tracks_accounted (tracks : Tracks state ledger) : Accounted state where
  exclusive := by
    intro left leftOut right rightOut val leftHolds rightHolds
    -- A lease that is out is the place of the resource it was made for.
    have placed {lease : Nat} (out : lease ∈ state.shared.outstanding)
        (holds : (state.shared.leases[lease]?).map (·.val) = some val) :
        (ledger.place val).lease = some lease := by
      obtain ⟨token, place, ⟨member, rfl⟩, named⟩ := (tracks.outstanding.named lease).mp out
      cases at_place : ledger.place token with
      | leased other closing =>
          rw [at_place] at named
          cases named
          rw [tracks.leased.vals token lease closing ⟨member, at_place⟩] at holds
          cases holds
          rw [at_place]
          rfl
      | _ =>
          rw [at_place] at named
          cases named
    exact Option.some.inj ((placed leftOut leftHolds).symm.trans (placed rightOut rightHolds))
  closedOnce := tracks.closings.distinct
  created := by
    refine ⟨ledger.tokens.filter fun token => (ledger.place token).isInHand,
      ledger.distinct.filter _, fun val => ?_, ?_⟩
    · rw [List.mem_filter, inHand_iff tracks]
    · rw [← tracks.created, tokens_counted, tracks.outstanding.length_eq_count, pool_count tracks,
        closings_count tracks, ← List.countP_eq_length_filter]
      rfl
  counters := tracks_counters tracks
  current := by
    rw [tracks.counted.leased, tracks.outstanding.length_eq_count]

end Accounting

section Claims
variable [DecidableEq Thread] [DecidableEq Resource] {state : State Resource Thread}

theorem pool_accounted_unless_closed_again
    (reached : Reached (basicPool Resource Thread) closesOnce state) : Accounted state := by
  obtain ⟨ledger, tracks⟩ := reached_tracks reached
  exact tracks_accounted tracks

end Claims

def leaseFresh (thread : Bool) (result : Nat) : List (Action Nat Bool) :=
  [.leaseObject thread, .next thread, .next thread, .supply thread result, .next thread,
    .next thread]

def leaseIdle (thread : Bool) : List (Action Nat Bool) :=
  [.leaseObject thread, .next thread, .next thread, .viable thread true, .next thread]

def closeLease (thread : Bool) (lease : Nat) : List (Action Nat Bool) :=
  [.close thread lease, .next thread, .next thread]

/-- A lease is closed, and its resource leased to the other thread. -/
theorem pool_accounted_lease_passed_on : ∃ state : State Nat Bool,
    Reached (basicPool Nat Bool) closesOnce state ∧ state.shared.outstanding = [1] ∧
      Accounted state := by
  obtain ⟨state, reached, shown⟩ := replay_shows (basicPool Nat Bool) closesOnce
    (leaseFresh false 7 ++ closeLease false 0 ++ leaseIdle true)
    (fun state => decide (state.shared.outstanding = [1])) (by decide +kernel)
  exact ⟨state, reached, of_decide_eq_true shown, pool_accounted_unless_closed_again reached⟩

/-- The second `close` makes the resource idle twice, and two leases have it. -/
theorem closed_again_leased_twice : ∃ state : State Nat Bool,
    Reached (basicPool Nat Bool) anyStep state ∧ ¬Accounted state := by
  obtain ⟨state, reached, shown⟩ := replay_shows (basicPool Nat Bool) anyStep
    (leaseFresh false 7 ++ closeLease false 0 ++ closeLease false 0 ++ leaseIdle false ++
      leaseIdle true)
    (fun state => decide (1 ∈ state.shared.outstanding) && decide (2 ∈ state.shared.outstanding) &&
      decide ((state.shared.leases[1]?).map BasicLease.val = some 7) &&
      decide ((state.shared.leases[2]?).map BasicLease.val = some 7)) (by decide +kernel)
  simp only [Bool.and_eq_true, decide_eq_true_eq] at shown
  obtain ⟨⟨⟨left, right⟩, leftHolds⟩, rightHolds⟩ := shown
  refine ⟨state, reached, fun accounted => ?_⟩
  cases accounted.exclusive 1 left 2 right 7 leftHolds rightHolds

end Brooklyn.BasicPool
