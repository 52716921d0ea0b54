import Brooklyn.Leases
import Brooklyn.MachinePool
import Brooklyn.Transition

/-!
The calls of `claim`, `unclaim` and `create` on one pool, by any threads: one action is a
synchronized block, an answer of the cloud or what a call does with its own variables. The
history has what each call took, gave back and returned. A machine is taken only while
nobody holds it, also when another call got it after this one had read it as unclaimed.
-/

namespace Brooklyn.MachineClaims
open Transition Leases MachinePool

variable {Node Key Template Thread : Type} {key : Node → Key}

/-- A call of `claim(count, t)`, the `call`-th of the calls. -/
structure Claim (Template : Type) where
  call : Nat
  count : Int
  t : Template

inductive Event (key : Node → Key) (Template : Type) where
  | taken (call : Nat) (m : Node)
  | setTaken (call : Nat) (newlyClaimed : MachineSet key)
  | setRefused (call : Nat) (set : MachineSet key)
  | unclaimed (set : MachineSet key)
  | claimed (claim : Claim Template) (result : MachineSet key)

/-- A `claim` that creates what is missing, with what it has claimed and what it has read. -/
structure Missing (key : Node → Key) (Template : Type) where
  claim : Claim Template
  claiming : MachineSet key
  current : MachineSet key

/-- `init` is `init()`, with what comes after it. -/
inductive Pc (key : Node → Key) (Template : Type) where
  | idle
  | init (next : Pc key Template)
  | loop (claim : Claim Template) (claiming : MachineSet key)
  | unclaimed (claim : Claim Template) (claiming : MachineSet key)
  | createNodes (count : Int) (template : Template) (purpose : Option (Missing key Template))
  | registerNewNodes (result : MachineSet key) (purpose : Option (Missing key Template))
  | each (claim : Claim Template) (claiming : MachineSet key) (rest : List Node)
  | claimSet (call : Nat) (set : MachineSet key)
  | unclaim (set : MachineSet key)

inductive Call (key : Node → Key) (Template : Type) where
  | claim (count : Int) (t : Template)
  | claimSet (set : MachineSet key)
  | unclaim (set : MachineSet key)
  | create (count : Int) (template : Template)

inductive Action (key : Node → Key) (Template Thread : Type) where
  | call (thread : Thread) (call : Call key Template)
  | init (thread : Thread) (computes : List (ComputeMetadata Node))
  | exec (thread : Thread)
  | created (thread : Thread) (nodes : MachineSet key)
  | createFails (thread : Thread)

def Action.thread : Action key Template Thread → Thread
  | .call thread _ | .init thread _ | .exec thread | .created thread _ | .createFails thread =>
      thread

structure Shared (key : Node → Key) (Template : Type) where
  pool : MachinePool key Template
  calls : Nat
  history : List (Event key Template)

structure State (key : Node → Key) (Template Thread : Type) where
  shared : Shared key Template
  pc : Thread → Pc key Template

abbrev Moved (key : Node → Key) (Template : Type) : Type := Shared key Template × Pc key Template

section Steps
variable [DecidableEq Key]

def Shared.change (shared : Shared key Template) (pool : MachinePool key Template)
    (events : List (Event key Template)) : Shared key Template :=
  { shared with pool := pool, history := shared.history ++ events }

def enter (shared : Shared key Template) : Call key Template → Moved key Template
  | .claim count t =>
      ({ shared with calls := shared.calls + 1 },
        .init (.loop ⟨shared.calls, count, t⟩ .empty))
  | .claimSet set =>
      ({ shared with calls := shared.calls + 1 }, .init (.claimSet shared.calls set))
  | .unclaim set => (shared, .init (.unclaim set))
  | .create count template => (shared, .createNodes count template none)

/-- What a call that throws in `init()` leaves in the history. -/
def refusal : Pc key Template → List (Event key Template)
  | .claimSet call set => [.setRefused call set]
  | _ => []

variable (running : Node → Bool) (matching : Template → Node → Option Bool)

def init (shared : Shared key Template) (computes : List (ComputeMetadata Node))
    (next : Pc key Template) : Moved key Template :=
  match shared.pool.init running matching computes with
  | (true, pool) => (shared.change pool [], next)
  | (false, pool) => (shared.change pool (refusal next), .idle)

/-- `unclaimed(matching(t))` on the unclaimed machines, and what is still missing. -/
def ensureUnclaimed (shared : Shared key Template) (claim : Claim Template)
    (claiming : MachineSet key) : Moved key Template :=
  if shared.pool.unclaimed.elements.all fun m => (matching claim.t m).isSome then
    let current : MachineSet key :=
      .ofList (shared.pool.unclaimed.elements.filter fun m => matching claim.t m = some true)
    let count := claim.count - claiming.elements.length
    (shared,
      if count ≤ current.elements.length then .each claim claiming current.elements
      else .createNodes (count - current.elements.length) claim.t (some ⟨claim, claiming, current⟩))
  else (shared, .idle)

/-- Before its block it asks which templates each new node matches, which may throw. -/
def register (shared : Shared key Template) (result : MachineSet key)
    (purpose : Option (Missing key Template)) : Moved key Template :=
  if result.elements.all fun m =>
      (getTemplatesMatchingInstance matching m shared.pool.templates).isSome then
    (shared.change (shared.pool.registerNewNodes result) [],
      match purpose with
      | none => .idle
      | some missing =>
          .each missing.claim missing.claiming (missing.current.addAll result).elements)
  else (shared, .idle)

def offer (shared : Shared key Template) (claim : Claim Template) (claiming : MachineSet key)
    (m : Node) (rest : List Node) : Moved key Template :=
  let events := if shared.pool.mayClaim claim.count claiming m then [.taken claim.call m] else []
  let (claimed, pool) := shared.pool.claimOne claim.count claiming m
  (shared.change pool events, .each claim claimed rest)

def exec (shared : Shared key Template) : Pc key Template → Option (Moved key Template)
  | .loop claim claiming =>
      some
        (if (claiming.elements.length : Int) < claim.count then
          (shared, .init (.unclaimed claim claiming))
        else (shared.change shared.pool [.claimed claim claiming], .idle))
  | .unclaimed claim claiming => some (ensureUnclaimed matching shared claim claiming)
  | .registerNewNodes result purpose => some (register matching shared result purpose)
  | .each claim claiming [] => some (shared, .loop claim claiming)
  | .each claim claiming (m :: rest) =>
      some (offer shared claim claiming m rest)
  | .claimSet call set =>
      some
        (match shared.pool.claimSet set with
        | (some newlyClaimed, pool) => (shared.change pool [.setTaken call newlyClaimed], .idle)
        | (none, pool) => (shared.change pool [.setRefused call set], .idle))
  | .unclaim set => some (shared.change (shared.pool.unclaim set).2 [.unclaimed set], .idle)
  | _ => none

/-- The nodes that `createNodes` returns are as many as asked for, and of the template. -/
def created (shared : Shared key Template) (nodes : MachineSet key) :
    Pc key Template → Option (Moved key Template)
  | .createNodes count template purpose =>
      if (nodes.elements.length : Int) = count ∧
          (nodes.elements.all fun m => matching template m = some true) = true then
        some (shared, .registerNewNodes nodes purpose)
      else none
  | _ => none

def perform (shared : Shared key Template) (pc : Pc key Template) :
    Action key Template Thread → Option (Moved key Template)
  | .call _ call =>
      match pc with
      | .idle => some (enter shared call)
      | _ => none
  | .init _ computes =>
      match pc with
      | .init next => some (init running matching shared computes next)
      | _ => none
  | .exec _ => exec matching shared pc
  | .created _ nodes => created matching shared nodes pc
  | .createFails _ =>
      match pc with
      | .createNodes _ _ _ => some (shared, .idle)
      | _ => none

variable [DecidableEq Thread]

def State.goto (state : State key Template Thread) (thread : Thread)
    (moved : Moved key Template) : State key Template Thread :=
  { shared := moved.1, pc := Function.update state.pc thread moved.2 }

def step (state : State key Template Thread) (action : Action key Template Thread) :
    Option (State key Template Thread) :=
  (perform running matching state.shared (state.pc action.thread) action).map
    (state.goto action.thread)

def machinePool (Thread : Type) [DecidableEq Thread] (key : Node → Key)
    (templates : List Template) : System (State key Template Thread) (Action key Template Thread) where
  initial :=
    { shared := { pool := create.registerTemplates templates, calls := 0, history := [] }
      pc := fun _ => .idle }
  step := step running matching

end Steps

section Claims
variable [DecidableEq Key]

def takes : Event key Template → Key → Bool
  | .taken _ m, k => decide (key m = k)
  | .setTaken _ newlyClaimed, k => newlyClaimed.elements.any fun m => key m = k
  | _, _ => false

def gives : Event key Template → Key → Bool
  | .unclaimed set, k => set.elements.any fun m => key m = k
  | _, _ => false

variable (matching : Template → Node → Option Bool)

/-- The call took the machine, and it is of the template. -/
structure Took (history : List (Event key Template)) (claim : Claim Template) (m : Node) :
    Prop where
  «matches» : matching claim.t m = some true
  taken : .taken claim.call m ∈ history

/-- What a claim returned: as many machines as asked for, each taken by that call. -/
structure Filled (history : List (Event key Template)) (claim : Claim Template)
    (result : MachineSet key) : Prop where
  length : result.elements.length = claim.count.toNat
  took : ∀ m ∈ result.elements, Took matching history claim m

structure Progress (history : List (Event key Template)) (claim : Claim Template)
    (claiming : MachineSet key) : Prop where
  length : claiming.elements.length ≤ claim.count.toNat
  took : ∀ m ∈ claiming.elements, Took matching history claim m

def AllMatch (t : Template) (machines : List Node) : Prop :=
  ∀ m ∈ machines, matching t m = some true

/-- The local variables of a call. -/
def Kept (history : List (Event key Template)) : Pc key Template → Prop
  | .init next => Kept history next
  | .loop claim claiming | .unclaimed claim claiming => Progress matching history claim claiming
  | .createNodes _ template purpose =>
      ∀ missing, purpose = some missing → template = missing.claim.t ∧
        Progress matching history missing.claim missing.claiming ∧
        AllMatch matching missing.claim.t missing.current.elements
  | .registerNewNodes result purpose =>
      ∀ missing, purpose = some missing →
        AllMatch matching missing.claim.t result.elements ∧
        Progress matching history missing.claim missing.claiming ∧
        AllMatch matching missing.claim.t missing.current.elements
  | .each claim claiming rest =>
      Progress matching history claim claiming ∧ AllMatch matching claim.t rest
  | .idle | .claimSet _ _ | .unclaim _ => True

/-- The claimed machines are those that the history has held. -/
structure Sound (shared : Shared key Template) : Prop where
  held : ∀ m, shared.pool.claimedMachines.contains m = held takes gives shared.history (key m)
  exclusive : Exclusive takes gives shared.history
  filled : ∀ claim result, .claimed claim result ∈ shared.history →
    Filled matching shared.history claim result

section Lemmas
variable {matching} {history later : List (Event key Template)} {claim : Claim Template}

theorem takes_apart (event : Event key Template) (k : Key) (taken : takes event k = true) :
    gives event k = false := by
  cases event with
  | unclaimed set => cases taken
  | _ => rfl

omit [DecidableEq Key] in
theorem Took.mono {m : Node} (took : Took matching history claim m) (grown : history ⊆ later) :
    Took matching later claim m :=
  ⟨took.matches, grown took.taken⟩

omit [DecidableEq Key] in
theorem Progress.mono {claiming : MachineSet key}
    (progress : Progress matching history claim claiming) (grown : history ⊆ later) :
    Progress matching later claim claiming :=
  ⟨progress.length, fun m member => (progress.took m member).mono grown⟩

omit [DecidableEq Key] in
theorem Kept.mono {pc : Pc key Template} (kept : Kept matching history pc)
    (grown : history ⊆ later) : Kept matching later pc := by
  induction pc with
  | init next ih => exact ih kept
  | loop claim claiming => exact Progress.mono kept grown
  | unclaimed claim claiming => exact Progress.mono kept grown
  | createNodes count template purpose =>
    intro missing present
    obtain ⟨same, progress, current⟩ := kept missing present
    exact ⟨same, progress.mono grown, current⟩
  | registerNewNodes result purpose =>
    intro missing present
    obtain ⟨created, progress, current⟩ := kept missing present
    exact ⟨created, progress.mono grown, current⟩
  | each claim claiming rest => exact ⟨kept.1.mono grown, kept.2⟩
  | idle => trivial
  | claimSet call set => trivial
  | unclaim set => trivial

omit [DecidableEq Key] in
theorem Filled.mono {result : MachineSet key} (filled : Filled matching history claim result)
    (grown : history ⊆ later) : Filled matching later claim result :=
  ⟨filled.length, fun m member => (filled.took m member).mono grown⟩

variable {shared : Shared key Template} {pool : MachinePool key Template}

theorem Sound.same (sound : Sound matching shared)
    (same : pool.claimedMachines = shared.pool.claimedMachines) :
    Sound matching (shared.change pool []) := by
  unfold Shared.change
  rw [List.append_nil]
  exact ⟨fun m => same ▸ sound.held m, sound.exclusive, sound.filled⟩

/-- An event that takes only what is not claimed, with the pool that it leaves. -/
theorem Sound.record (sound : Sound matching shared) (event : Event key Template)
    (claimed : ∀ m, pool.claimedMachines.contains m =
      (!gives event (key m) && (shared.pool.claimedMachines.contains m || takes event (key m))))
    (free : ∀ k, takes event k = true →
      ∃ m, key m = k ∧ shared.pool.claimedMachines.contains m = false)
    (returned : ∀ claim result, event = .claimed claim result →
      Filled matching shared.history claim result) :
    Sound matching (shared.change pool [event]) where
  held m := by
    rw [Shared.change, held_concat, ← sound.held m]
    exact claimed m
  exclusive := sound.exclusive.concat takes_apart fun k taken => by
    obtain ⟨m, rfl, unclaimed⟩ := free k taken
    rw [← sound.held m, unclaimed]
  filled claim result member := by
    refine Filled.mono ?_ (List.subset_append_left _ _)
    rcases List.mem_append.mp member with before | now
    · exact sound.filled claim result before
    · exact returned claim result (List.mem_singleton.mp now).symm

/-- Events that neither take a machine nor give one back. -/
theorem Sound.note (sound : Sound matching shared) (event : Event key Template)
    (same : pool.claimedMachines = shared.pool.claimedMachines)
    (gives_none : ∀ k, gives event k = false) (takes_none : ∀ k, takes event k = false)
    (returned : ∀ claim result, event = .claimed claim result →
      Filled matching shared.history claim result) :
    Sound matching (shared.change pool [event]) :=
  sound.record event
    (fun m => by rw [same, gives_none, takes_none, Bool.or_false, Bool.not_false, Bool.true_and])
    (fun k taken => absurd ((takes_none k).symm.trans taken) Bool.false_ne_true) returned

variable (matching) in
/-- A step of a call: what it leaves shared, and its own variables. -/
structure Advances (shared : Shared key Template) (moved : Moved key Template) : Prop where
  sound : Sound matching moved.1
  kept : Kept matching moved.1.history moved.2
  grown : shared.history ⊆ moved.1.history

/-- A step that only reads. -/
theorem Sound.reads (sound : Sound matching shared) {pc : Pc key Template}
    (kept : Kept matching shared.history pc) : Advances matching shared (shared, pc) :=
  ⟨sound, kept, List.Subset.refl _⟩

theorem Sound.changes {events : List (Event key Template)} {pc : Pc key Template}
    (sound : Sound matching (shared.change pool events)) (kept : Kept matching shared.history pc) :
    Advances matching shared (shared.change pool events, pc) :=
  ⟨sound, kept.mono (List.subset_append_left _ _), List.subset_append_left _ _⟩

theorem enter_advances (sound : Sound matching shared) (call : Call key Template) :
    Advances matching shared (enter shared call) := by
  cases call with
  | claim count t =>
    refine ⟨⟨sound.held, sound.exclusive, sound.filled⟩, ?_, List.Subset.refl _⟩
    exact ⟨Nat.zero_le _, fun m member => absurd member List.not_mem_nil⟩
  | claimSet set =>
    exact ⟨⟨sound.held, sound.exclusive, sound.filled⟩, trivial, List.Subset.refl _⟩
  | unclaim set => exact sound.reads trivial
  | create count template => exact sound.reads fun missing present => absurd present (by simp)

theorem init_advances {running : Node → Bool} (sound : Sound matching shared)
    (computes : List (ComputeMetadata Node)) {next : Pc key Template}
    (kept : Kept matching shared.history next) :
    Advances matching shared (init running matching shared computes next) := by
  have same := @claimed_init _ _ _ _ _ running matching shared.pool computes
  unfold init
  split
  · next pool initialised =>
    rw [initialised] at same
    exact (sound.same same).changes kept
  · next pool thrown =>
    rw [thrown] at same
    unfold refusal
    split
    · exact (sound.note _ same (fun _ => rfl) (fun _ => rfl) (by simp)).changes trivial
    · exact (sound.same same).changes trivial

theorem ensureUnclaimed_advances (sound : Sound matching shared) {claiming : MachineSet key}
    (progress : Progress matching shared.history claim claiming) :
    Advances matching shared (ensureUnclaimed matching shared claim claiming) := by
  have current : AllMatch matching claim.t
      (KeyedSet.ofList (shared.pool.unclaimed.elements.filter fun m =>
        matching claim.t m = some true) : MachineSet key).elements := by
    intro m member
    rcases KeyedSet.mem_foldl_add member with nothing | member
    · cases nothing
    · exact of_decide_eq_true (List.mem_filter.mp member).2
  unfold ensureUnclaimed
  dsimp only
  split
  · refine sound.reads ?_
    split
    · exact ⟨progress, current⟩
    · rintro missing ⟨rfl⟩
      exact ⟨rfl, progress, current⟩
  · exact sound.reads trivial

theorem register_advances (sound : Sound matching shared) {result : MachineSet key}
    {purpose : Option (Missing key Template)}
    (kept : Kept matching shared.history (.registerNewNodes result purpose)) :
    Advances matching shared (register matching shared result purpose) := by
  have registered : Sound matching
      (shared.change (shared.pool.registerNewNodes result) []) := sound.same rfl
  unfold register
  split
  · refine registered.changes ?_
    cases purpose with
    | none => trivial
    | some missing =>
      obtain ⟨created, progress, current⟩ := kept missing rfl
      refine ⟨progress, fun m member => ?_⟩
      rcases KeyedSet.mem_foldl_add member with before | new
      · exact current m before
      · exact created m new
  · exact sound.reads trivial

theorem offer_advances (sound : Sound matching shared) {claiming : MachineSet key} {m : Node}
    {rest : List Node} (progress : Progress matching shared.history claim claiming)
    (offered : AllMatch matching claim.t (m :: rest)) :
    Advances matching shared (offer shared claim claiming m rest) := by
  have later : AllMatch matching claim.t rest := fun n member =>
    offered n (List.mem_cons_of_mem _ member)
  cases may : shared.pool.mayClaim claim.count claiming m with
  | true =>
    obtain ⟨short, unclaimed⟩ := Bool.and_eq_true_iff.mp may
    rw [Bool.not_eq_true'] at unclaimed
    have taken : Sound matching (shared.change
        { shared.pool with claimedMachines := shared.pool.claimedMachines.add m }
        [.taken claim.call m]) := by
      refine sound.record _ (fun n => ?_) (fun k taken => ⟨m, of_decide_eq_true taken, unclaimed⟩)
        (by simp)
      have gives_none : gives (.taken claim.call m : Event key Template) (key n) = false := rfl
      rw [Bool.eq_iff_iff, KeyedSet.contains_add, gives_none, takes, Bool.not_false, Bool.true_and,
        Bool.or_eq_true, decide_eq_true_eq, @eq_comm _ (key n)]
    simp only [offer, claimOne, may, if_true]
    refine ⟨taken, ⟨⟨?_, fun n member => ?_⟩, later⟩, List.subset_append_left _ _⟩
    · have longer := KeyedSet.length_add claiming m
      have short := of_decide_eq_true short
      omega
    · rcases KeyedSet.mem_add member with before | rfl
      · exact (progress.took n before).mono (List.subset_append_left _ _)
      · exact ⟨offered n List.mem_cons_self, List.mem_append_right _ List.mem_cons_self⟩
  | false =>
    have same : Sound matching (shared.change shared.pool []) := sound.same rfl
    have kept : Kept matching shared.history (.each claim claiming rest) := ⟨progress, later⟩
    simp only [offer, claimOne, may, Bool.false_eq_true, if_false]
    exact same.changes kept

theorem claimSet_advances (sound : Sound matching shared) (call : Nat) (set : MachineSet key) :
    ∃ moved, exec matching shared (.claimSet call set) = some moved ∧
      Advances matching shared moved := by
  refine ⟨_, rfl, ?_⟩
  split
  · next newlyClaimed pool found =>
    refine Sound.changes (sound.record _ (fun m => ?_) (fun k taken => ?_) (by simp)) trivial
    · obtain ⟨-, claimed⟩ := claimSet_taken found m
      rw [Bool.eq_iff_iff, claimed, ← Bool.or_eq_true]
      rfl
    · obtain ⟨m, member, same⟩ := List.any_eq_true.mp taken
      obtain ⟨unclaimed, -⟩ := claimSet_taken found m
      exact ⟨m, of_decide_eq_true same, unclaimed (KeyedSet.contains_of_mem member)⟩
  · next pool found =>
    have same := congrArg (·.claimedMachines) (claimSet_refused found)
    exact (sound.note _ same (fun _ => rfl) (fun _ => rfl) (by simp)).changes trivial

theorem unclaim_advances (sound : Sound matching shared) (set : MachineSet key) :
    Advances matching shared
      (shared.change (shared.pool.unclaim set).2 [.unclaimed set], .idle) := by
  refine Sound.changes (sound.record _ (fun m => ?_) (fun k taken => by cases taken) (by simp))
    trivial
  have unclaimed := KeyedSet.contains_removeAll shared.pool.claimedMachines set m
  rw [← Bool.not_eq_true', ← Bool.and_eq_true_iff, ← Bool.eq_iff_iff] at unclaimed
  have takes_none : takes (.unclaimed set : Event key Template) (key m) = false := rfl
  rw [takes_none, Bool.or_false, Bool.and_comm]
  exact unclaimed

theorem exec_advances (sound : Sound matching shared) {pc : Pc key Template}
    {moved : Moved key Template} (kept : Kept matching shared.history pc)
    (ran : exec matching shared pc = some moved) : Advances matching shared moved := by
  cases pc with
  | idle => cases ran
  | init next => cases ran
  | createNodes count template purpose => cases ran
  | loop claim claiming =>
    cases ran
    split
    · exact sound.reads kept
    · next enough =>
      have progress : Progress matching shared.history claim claiming := kept
      refine Sound.changes (sound.note _ rfl (fun _ => rfl) (fun _ => rfl) ?_) trivial
      rintro _ _ ⟨⟩
      have most := progress.length
      exact ⟨by omega, progress.took⟩
  | unclaimed claim claiming =>
    cases ran
    exact ensureUnclaimed_advances sound kept
  | registerNewNodes result purpose =>
    cases ran
    exact register_advances sound kept
  | each claim claiming rest =>
    obtain ⟨progress, offered⟩ := kept
    cases rest with
    | nil =>
      cases ran
      exact sound.reads progress
    | cons m rest =>
      cases ran
      exact offer_advances sound progress offered
  | claimSet call set =>
    obtain ⟨_, same, advances⟩ := claimSet_advances sound call set
    exact Option.some.inj (same.symm.trans ran) ▸ advances
  | unclaim set =>
    cases ran
    exact unclaim_advances sound set

theorem perform_advances {running : Node → Bool} (sound : Sound matching shared)
    {pc : Pc key Template} {action : Action key Template Thread} {moved : Moved key Template}
    (kept : Kept matching shared.history pc)
    (performed : perform running matching shared pc action = some moved) :
    Advances matching shared moved := by
  cases action with
  | call thread call =>
    cases pc with
    | idle =>
      cases performed
      exact enter_advances sound call
    | _ => cases performed
  | init thread computes =>
    cases pc with
    | init next =>
      cases performed
      exact init_advances sound computes kept
    | _ => cases performed
  | exec thread => exact exec_advances sound kept performed
  | created thread nodes =>
    cases pc with
    | createNodes count template purpose =>
      obtain ⟨⟨_, all⟩, same⟩ := Option.ite_none_right_eq_some.mp performed
      cases same
      refine sound.reads fun missing present => ?_
      obtain ⟨rfl, progress, current⟩ := kept missing present
      exact ⟨fun m member => of_decide_eq_true (List.all_eq_true.mp all m member), progress, current⟩
    | _ => cases performed
  | createFails thread =>
    cases pc with
    | createNodes count template purpose =>
      cases performed
      exact sound.reads trivial
    | _ => cases performed

end Lemmas

section Runs
variable {running : Node → Bool} {matching} [DecidableEq Thread] {templates : List Template}

structure Invariant (running : Node → Bool) (matching : Template → Node → Option Bool)
    (state : State key Template Thread) : Prop where
  sound : Sound matching state.shared
  kept : ∀ thread, Kept matching state.shared.history (state.pc thread)

theorem invariant_reached {state : State key Template Thread}
    (run : Reached (machinePool running matching Thread key templates) anyStep state) :
    Invariant running matching state := by
  refine reached_invariant (Invariant running matching) ?_ ?_ run
  · refine ⟨⟨fun m => rfl, exclusive_nil, fun claim result member => ?_⟩, fun thread => trivial⟩
    exact absurd member List.not_mem_nil
  · intro before action after _ invariant _ moved
    obtain ⟨next, performed, rfl⟩ := Option.map_eq_some_iff.mp moved
    have advances := perform_advances invariant.sound (invariant.kept action.thread) performed
    exact ⟨advances.sound, forall_after_step before.pc action.thread next.2 invariant.kept
      advances.kept fun other _ kept => kept.mono advances.grown⟩

/-- In every order of the blocks of the calls: between two takings of a machine it is
unclaimed; a claim that returned has its count of machines of the template, all taken by it;
and a refused claim of a set leaves the claimed machines as they were. -/
theorem machines_claimed_once {state : State key Template Thread}
    (run : Reached (machinePool running matching Thread key templates) anyStep state) :
    Exclusive takes gives state.shared.history ∧
    (∀ claim result, .claimed claim result ∈ state.shared.history →
      Filled matching state.shared.history claim result) ∧
    (∀ action after call set,
      (machinePool running matching Thread key templates).step state action = some after →
      after.shared.history = state.shared.history ++ [.setRefused call set] →
      ∀ m, after.shared.pool.claimedMachines.contains m =
        state.shared.pool.claimedMachines.contains m) := by
  have invariant := invariant_reached run
  refine ⟨invariant.sound.exclusive, invariant.sound.filled, ?_⟩
  intro action after call set moved refused m
  have later := (invariant_reached (.next action run rfl moved)).sound.held m
  rw [later, refused, held_concat, invariant.sound.held m]
  exact Bool.or_false _

end Runs

/-- One thread claims the only machine, and then the other is refused it. -/
def claimAndRefusal : List (Action sameId (ReusableMachineTemplate Unit) Bool) :=
  [.call true (.claim 1 { tags := ["pool"] }), .init true [.node runningNode], .exec true,
    .init true [], .exec true, .call false (.claimSet (.ofList [runningNode])),
    .exec true, .exec true, .exec true, .init false [], .exec false]

theorem refused_after_claim :
    ∃ state : State sameId (ReusableMachineTemplate Unit) Bool,
      state.shared.history.length = 3 ∧
      Exclusive takes gives state.shared.history ∧
      ∀ claim result, .claimed claim result ∈ state.shared.history →
        Filled nodeMatches state.shared.history claim result := by
  obtain ⟨state, run, shown⟩ := replay_shows
    (machinePool nodeRuns nodeMatches Bool sameId [{ tags := ["pool"] }]) anyStep claimAndRefusal
    (fun state => state.shared.history.length == 3) (by decide)
  obtain ⟨exclusive, filled, -⟩ := machines_claimed_once run
  exact ⟨state, of_decide_eq_true shown, exclusive, filled⟩

end Claims
end Brooklyn.MachineClaims
