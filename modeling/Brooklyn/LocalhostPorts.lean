import Brooklyn.Transition
import Brooklyn.LinkedCollections

/-!
The ports of `LocalhostMachineProvisioningLocation`. The ports in use are kept in one set for all
machines, and a machine keeps the ports that `obtainPort` has given it. `held` records what each
machine has been given and neither it nor `release` has given back.
-/

namespace Brooklyn

variable {Machine : Type}

/-- `inUse` are the machines that are allocated by the location they belong to. -/
structure LocalhostPorts (Machine : Type) where
  portsInUse : LinkedSet Int
  portsObtained : Machine → LinkedSet Int
  inUse : LinkedSet Machine
  held : Machine → LinkedSet Int

namespace LocalhostPorts

def initial : LocalhostPorts Machine := ⟨.empty, fun _ => .empty, .empty, fun _ => .empty⟩

section Ports

/-- Where the system's own check succeeds. -/
def obtainSpecificPort (portNumber : Int) (ports : LocalhostPorts Machine) :
    Bool × LocalhostPorts Machine :=
  if portNumber ∈ ports.portsInUse then (false, ports)
  else (true, { ports with portsInUse := ports.portsInUse.add portNumber })

/-- The port that is found, if one is. -/
def obtainPort : List Int → LocalhostPorts Machine → Option Int × LocalhostPorts Machine
  | [], ports => (none, ports)
  | p :: range, ports =>
      match obtainSpecificPort p ports with
      | (true, ports) => (some p, ports)
      | (false, ports) => obtainPort range ports

def releasePort (portNumber : Int) (ports : LocalhostPorts Machine) : LocalhostPorts Machine :=
  { ports with portsInUse := ports.portsInUse.remove portNumber }

end Ports

section Machines
variable [DecidableEq Machine]

def setHeld (machine : Machine) (held : LinkedSet Int) (ports : LocalhostPorts Machine) :
    LocalhostPorts Machine :=
  { ports with held := Function.update ports.held machine held }

def setObtained (machine : Machine) (obtained : LinkedSet Int) (ports : LocalhostPorts Machine) :
    LocalhostPorts Machine :=
  { ports with portsObtained := Function.update ports.portsObtained machine obtained }

/-- The port is handed out to the machine. -/
def handTo (machine : Machine) (port : Int) (ports : LocalhostPorts Machine) :
    LocalhostPorts Machine :=
  ports.setHeld machine ((ports.held machine).add port)

def machineObtainSpecificPort (machine : Machine) (portNumber : Int)
    (ports : LocalhostPorts Machine) : Bool × LocalhostPorts Machine :=
  match obtainSpecificPort portNumber ports with
  | (true, ports) => (true, ports.handTo machine portNumber)
  | (false, ports) => (false, ports)

/-- A port of 0 or below is handed out, but the machine does not keep it. -/
def machineObtainPort (machine : Machine) (range : List Int) (ports : LocalhostPorts Machine) :
    Int × LocalhostPorts Machine :=
  match obtainPort range ports with
  | (none, ports) => (-1, ports)
  | (some r, ports) =>
      let ports := ports.handTo machine r
      (r, if r > 0 then ports.setObtained machine ((ports.portsObtained machine).add r) else ports)

def machineReleasePort (machine : Machine) (portNumber : Int) (ports : LocalhostPorts Machine) :
    LocalhostPorts Machine :=
  ((ports.setObtained machine ((ports.portsObtained machine).remove portNumber)).releasePort
    portNumber).setHeld machine ((ports.held machine).remove portNumber)

/-- `none` where the machine is not allocated. The machine keeps its ports for the next time. -/
def release (machine : Machine) (ports : LocalhostPorts Machine) :
    Option (LocalhostPorts Machine) :=
  if machine ∈ ports.inUse then
    let portsObtained := (ports.portsObtained machine).elements
    let ports := { ports with inUse := ports.inUse.remove machine }
    some ((portsObtained.foldl (fun ports p => ports.releasePort p) ports).setHeld machine .empty)
  else none

/-- The machine is the one that the location takes. -/
def obtain (machine : Machine) (ports : LocalhostPorts Machine) : LocalhostPorts Machine :=
  { ports with inUse := ports.inUse.add machine }

inductive Call (Machine : Type) where
  | obtain (machine : Machine)
  | release (machine : Machine)
  | obtainPort (machine : Machine) (range : List Int)
  | obtainSpecificPort (machine : Machine) (portNumber : Int)
  | releasePort (machine : Machine) (portNumber : Int)

def perform : Call Machine → LocalhostPorts Machine → LocalhostPorts Machine
  | .obtain machine, ports => ports.obtain machine
  | .release machine, ports => (ports.release machine).getD ports
  | .obtainPort machine range, ports => (machineObtainPort machine range ports).2
  | .obtainSpecificPort machine portNumber, ports =>
      (machineObtainSpecificPort machine portNumber ports).2
  | .releasePort machine portNumber, ports => ports.machineReleasePort machine portNumber

/-- The port that a call hands out. -/
def handedOut : Call Machine → LocalhostPorts Machine → Option Int
  | .obtainPort _ range, ports => (obtainPort range ports).1
  | .obtainSpecificPort _ portNumber, ports =>
      if (obtainSpecificPort portNumber ports).1 then some portNumber else none
  | _, _ => none

end Machines
end LocalhostPorts
end Brooklyn

/-!
When the ports in use are those that the machines hold. A machine may give back a port of another
one; it does not know the ports of `obtainSpecificPort`, and still knows those that it had before
it was released.
-/

namespace Brooklyn.LocalhostPorts

variable {Machine : Type}

/-- The ports in use are the disjoint union of the ports that the machines hold. -/
structure Accounted (ports : LocalhostPorts Machine) : Prop where
  union : ∀ p, p ∈ ports.portsInUse ↔ ∃ machine, p ∈ ports.held machine
  disjoint : ∀ p one other, p ∈ ports.held one → p ∈ ports.held other → one = other

section Steps
variable {ports after : LocalhostPorts Machine}

theorem Accounted.congr (accounted : Accounted ports)
    (inUse : ∀ p, p ∈ after.portsInUse ↔ p ∈ ports.portsInUse)
    (held : ∀ machine, after.held machine = ports.held machine) : Accounted after := by
  refine ⟨fun p => ?_, fun p one other first second => accounted.disjoint p one other ?_ ?_⟩
  · rw [inUse p, accounted.union]
    exact exists_congr fun machine => by rw [held]
  · rwa [← held]
  · rwa [← held]

/-- The first port of the range that is free, or nothing happens. -/
theorem obtainPort_cases (range : List Int) (ports : LocalhostPorts Machine) :
    obtainPort range ports = (none, ports) ∨
      ∃ p, p ∉ ports.portsInUse ∧ obtainPort range ports =
        (some p, { ports with portsInUse := ports.portsInUse.add p }) := by
  induction range with
  | nil => exact Or.inl rfl
  | cons p range ih =>
    unfold obtainPort obtainSpecificPort
    by_cases taken : p ∈ ports.portsInUse
    · rw [if_pos taken]
      exact ih
    · rw [if_neg taken]
      exact Or.inr ⟨p, taken, rfl⟩

theorem releasePorts_frame (released : List Int) (ports : LocalhostPorts Machine) :
    (∀ p, p ∈ (released.foldl (fun ports p => ports.releasePort p) ports).portsInUse ↔
      p ∈ ports.portsInUse ∧ p ∉ released) ∧
      (released.foldl (fun ports p => ports.releasePort p) ports).held = ports.held := by
  induction released generalizing ports with
  | nil => simp
  | cons first released ih =>
    obtain ⟨inUse, held⟩ := ih (ports.releasePort first)
    refine ⟨fun p => ?_, held⟩
    rw [List.foldl_cons, inUse, releasePort, LinkedSet.mem_remove, List.mem_cons]
    tauto

variable [DecidableEq Machine]

theorem held_setHeld (machine other : Machine) (held : LinkedSet Int) (p : Int) :
    p ∈ (ports.setHeld machine held).held other ↔
      (other = machine ∧ p ∈ held) ∨ (other ≠ machine ∧ p ∈ ports.held other) := by
  change p ∈ Function.update ports.held machine held other ↔ _
  rw [Function.update_apply]
  by_cases same : other = machine
  · simp [same]
  · simp [same]

/-- A free port goes to one machine. -/
theorem accounted_handTo (accounted : Accounted ports) (machine : Machine) {p : Int}
    (free : p ∉ ports.portsInUse) :
    Accounted (handTo machine p { ports with portsInUse := ports.portsInUse.add p }) := by
  have unheld (other : Machine) : p ∉ ports.held other := fun here =>
    free ((accounted.union p).mpr ⟨other, here⟩)
  have held_iff (other : Machine) (q : Int) :
      q ∈ (handTo machine p { ports with portsInUse := ports.portsInUse.add p }).held other ↔
        q ∈ ports.held other ∨ (other = machine ∧ q = p) := by
    rw [handTo, held_setHeld]
    by_cases same : other = machine
    · simp [same]
    · simp [same]
  constructor
  · intro q
    change q ∈ ports.portsInUse.add p ↔ _
    rw [LinkedSet.mem_add, accounted.union]
    constructor
    · rintro (⟨other, here⟩ | same)
      · exact ⟨other, (held_iff other q).mpr (Or.inl here)⟩
      · exact ⟨machine, (held_iff machine q).mpr (Or.inr ⟨rfl, same⟩)⟩
    · rintro ⟨other, here⟩
      exact ((held_iff other q).mp here).imp (fun here => ⟨other, here⟩) And.right
  · intro q one other first second
    rcases (held_iff one q).mp first with had | ⟨mine, new⟩ <;>
      rcases (held_iff other q).mp second with has | ⟨yours, same⟩
    · exact accounted.disjoint q one other had has
    · exact absurd (same ▸ had) (unheld one)
    · exact absurd (new ▸ has) (unheld other)
    · exact mine.trans yours.symm

/-- What a machine gives back leaves the rest accounted for if and only if it is what the
machine gives up. -/
theorem accounted_giveBack_iff (accounted : Accounted ports) (after : LocalhostPorts Machine)
    (machine : Machine) (gone : Int → Prop) (keeps : LinkedSet Int)
    (fewer : ∀ p, p ∈ keeps → p ∈ ports.held machine)
    (inUse : ∀ p, p ∈ after.portsInUse ↔ p ∈ ports.portsInUse ∧ ¬ gone p)
    (held : after.held = (ports.setHeld machine keeps).held) :
    Accounted after ↔ ∀ p, (p ∈ ports.held machine → p ∉ keeps → gone p) ∧
      (gone p → p ∉ keeps ∧ ∀ other, p ∈ ports.held other → other = machine) := by
  have held_iff (other : Machine) (p : Int) : p ∈ after.held other ↔
      (other = machine ∧ p ∈ keeps) ∨ (other ≠ machine ∧ p ∈ ports.held other) := by
    rw [held, held_setHeld]
  constructor
  · rintro ⟨union, -⟩ p
    constructor
    · intro had lost
      by_contra stays
      obtain ⟨other, here⟩ := (union p).mp ((inUse p).mpr
        ⟨(accounted.union p).mpr ⟨machine, had⟩, stays⟩)
      rcases (held_iff other p).mp here with ⟨-, kept⟩ | ⟨different, there⟩
      · exact lost kept
      · exact different (accounted.disjoint p other machine there had)
    · intro is_gone
      have absent : ∀ other, p ∉ after.held other := fun other here =>
        ((inUse p).mp ((union p).mpr ⟨other, here⟩)).2 is_gone
      refine ⟨fun kept => absent machine ((held_iff machine p).mpr (Or.inl ⟨rfl, kept⟩)), ?_⟩
      intro other there
      by_contra different
      exact absent other ((held_iff other p).mpr (Or.inr ⟨different, there⟩))
  · intro right
    constructor
    · intro p
      rw [inUse, accounted.union]
      constructor
      · rintro ⟨⟨other, there⟩, stays⟩
        by_cases same : other = machine
        · subst same
          refine ⟨other, (held_iff other p).mpr (Or.inl ⟨rfl, ?_⟩)⟩
          by_contra lost
          exact stays ((right p).1 there lost)
        · exact ⟨other, (held_iff other p).mpr (Or.inr ⟨same, there⟩)⟩
      · rintro ⟨other, here⟩
        rcases (held_iff other p).mp here with ⟨rfl, kept⟩ | ⟨different, there⟩
        · exact ⟨⟨other, fewer p kept⟩, fun is_gone => ((right p).2 is_gone).1 kept⟩
        · exact ⟨⟨other, there⟩, fun is_gone => different (((right p).2 is_gone).2 other there)⟩
    · intro p one other first second
      have before (machine' : Machine) (here : p ∈ after.held machine') :
          p ∈ ports.held machine' := by
        rcases (held_iff machine' p).mp here with ⟨rfl, kept⟩ | ⟨-, there⟩
        · exact fewer p kept
        · exact there
      exact accounted.disjoint p one other (before one first) (before other second)

end Steps

section Calls
variable [DecidableEq Machine]

/-- A machine gives back a port only if no other one holds it. A released machine knows the ports
that it holds, and no other one holds a port that it knows. -/
def Keeps (ports : LocalhostPorts Machine) : Call Machine → Prop
  | .releasePort machine portNumber => ∀ other, portNumber ∈ ports.held other → other = machine
  | .release machine => machine ∈ ports.inUse → ∀ p,
      (p ∈ ports.held machine → p ∈ ports.portsObtained machine) ∧
        (p ∈ ports.portsObtained machine → ∀ other, p ∈ ports.held other → other = machine)
  | _ => True

theorem perform_accounted_iff (ports : LocalhostPorts Machine) (call : Call Machine)
    (accounted : Accounted ports) : Accounted (perform call ports) ↔ Keeps ports call := by
  cases call with
  | obtain machine =>
    refine iff_of_true ?_ trivial
    change Accounted (ports.obtain machine)
    exact accounted.congr (fun _ => Iff.rfl) fun _ => rfl
  | release machine =>
    change Accounted ((ports.release machine).getD ports) ↔ (machine ∈ ports.inUse → _)
    unfold release
    by_cases allocated : machine ∈ ports.inUse
    · rw [if_pos allocated]
      dsimp only [Option.getD_some]
      have frame := releasePorts_frame (ports.portsObtained machine).elements
        { ports with inUse := ports.inUse.remove machine }
      refine (accounted_giveBack_iff accounted
        (setHeld machine .empty ((ports.portsObtained machine).elements.foldl
          (fun ports p => ports.releasePort p) { ports with inUse := ports.inUse.remove machine }))
        machine (· ∈ ports.portsObtained machine) .empty
        (fun p kept => absurd kept (LinkedSet.not_mem_empty p)) frame.1 ?_).trans ?_
      · funext other
        simp only [setHeld, frame.2]
      · rw [imp_iff_right allocated]
        refine forall_congr' fun p => and_congr ?_ ?_
        · exact ⟨fun known had => known had (LinkedSet.not_mem_empty p), fun known had _ => known had⟩
        · exact imp_congr_right fun _ => and_iff_right (LinkedSet.not_mem_empty p)
    · rw [if_neg allocated]
      exact iff_of_true accounted fun there => absurd there allocated
  | obtainPort machine range =>
    refine iff_of_true ?_ trivial
    change Accounted (machineObtainPort machine range ports).2
    unfold machineObtainPort
    rcases obtainPort_cases range ports with nothing | ⟨p, free, found⟩
    · rw [nothing]
      exact accounted
    · rw [found]
      dsimp only
      have handed := accounted_handTo accounted machine free
      split
      · exact handed.congr (fun _ => Iff.rfl) fun _ => rfl
      · exact handed
  | obtainSpecificPort machine portNumber =>
    refine iff_of_true ?_ trivial
    change Accounted (machineObtainSpecificPort machine portNumber ports).2
    unfold machineObtainSpecificPort obtainSpecificPort
    by_cases taken : portNumber ∈ ports.portsInUse
    · rw [if_pos taken]
      exact accounted
    · rw [if_neg taken]
      exact accounted_handTo accounted machine taken
  | releasePort machine portNumber =>
    change Accounted (ports.machineReleasePort machine portNumber) ↔
      ∀ other, portNumber ∈ ports.held other → other = machine
    refine (accounted_giveBack_iff accounted (ports.machineReleasePort machine portNumber) machine
      (· = portNumber) ((ports.held machine).remove portNumber) (fun p kept => ?_) (fun p => ?_) rfl).trans ?_
    · exact ((LinkedSet.mem_remove _ _ p).mp kept).1
    · exact LinkedSet.mem_remove _ _ p
    · constructor
      · exact fun right => ((right portNumber).2 rfl).2
      · intro alone p
        refine ⟨fun had lost => ?_, ?_⟩
        · by_contra different
          exact lost ((LinkedSet.mem_remove _ _ p).mpr ⟨had, different⟩)
        · rintro rfl
          exact ⟨fun kept => ((LinkedSet.mem_remove _ _ p).mp kept).2 rfl, alone⟩

/-- No machine holds the port that is handed out. -/
def HandsOutFresh (ports : LocalhostPorts Machine) (call : Call Machine) : Prop :=
  ∀ p, handedOut call ports = some p → ∀ machine, p ∉ ports.held machine

/-- The ports that a released machine has held are free. -/
def FreesHeld (ports : LocalhostPorts Machine) (call : Call Machine) : Prop :=
  ∀ machine, call = .release machine → machine ∈ ports.inUse →
    ∀ p, p ∈ ports.held machine → p ∉ (perform call ports).portsInUse

omit [DecidableEq Machine] in
theorem handsOutFresh (ports : LocalhostPorts Machine) (call : Call Machine)
    (accounted : Accounted ports) : HandsOutFresh ports call := by
  have unheld {p : Int} (free : p ∉ ports.portsInUse) (machine : Machine) :
      p ∉ ports.held machine := fun here => free ((accounted.union p).mpr ⟨machine, here⟩)
  intro p handed
  cases call with
  | obtain machine => cases handed
  | release machine => cases handed
  | releasePort machine portNumber => cases handed
  | obtainPort machine range =>
    change (obtainPort range ports).1 = some p at handed
    rcases obtainPort_cases range ports with nothing | ⟨q, free, found⟩
    · rw [nothing] at handed
      cases handed
    · rw [found] at handed
      obtain rfl : q = p := Option.some.inj handed
      exact unheld free
  | obtainSpecificPort machine portNumber =>
    unfold handedOut obtainSpecificPort at handed
    by_cases taken : portNumber ∈ ports.portsInUse
    · simp [taken] at handed
    · simp only [if_neg taken, if_true, Option.some.injEq] at handed
      exact handed ▸ unheld taken

theorem freesHeld (ports : LocalhostPorts Machine) (call : Call Machine)
    (accounted : Accounted ports) (next : Accounted (perform call ports)) :
    FreesHeld ports call := by
  rintro machine rfl allocated p had used
  obtain ⟨other, here⟩ := (next.union p).mp used
  have frame := releasePorts_frame (ports.portsObtained machine).elements
    { ports with inUse := ports.inUse.remove machine }
  have held : (perform (.release machine) ports).held =
      (ports.setHeld machine .empty).held := by
    change ((ports.release machine).getD ports).held = _
    unfold release
    rw [if_pos allocated]
    funext other
    simp only [Option.getD_some, setHeld, frame.2]
  rw [held, held_setHeld] at here
  rcases here with ⟨-, none_left⟩ | ⟨different, there⟩
  · exact LinkedSet.not_mem_empty p none_left
  · exact different (accounted.disjoint p other machine there had)

/-- A run in which ports in use are ports held, and no port is handed out twice or stays in use
after its machine is released. -/
def PortsRight (calls : List (Call Machine)) (ports : LocalhostPorts Machine) : Prop :=
  CallRuns.Throughout perform Accounted calls ports ∧
    CallRuns.Each perform (fun ports call => HandsOutFresh ports call ∧ FreesHeld ports call)
      calls ports

/-- Ports are right in a run if and only if each call gives back what its machine holds. -/
theorem ports_right_iff (calls : List (Call Machine)) :
    PortsRight calls (initial : LocalhostPorts Machine) ↔
      CallRuns.Each perform Keeps calls (initial : LocalhostPorts Machine) := by
  have start : Accounted (initial : LocalhostPorts Machine) :=
    ⟨fun p => iff_of_false (LinkedSet.not_mem_empty p) fun held =>
      LinkedSet.not_mem_empty p held.choose_spec,
      fun p _ _ here => absurd here (LinkedSet.not_mem_empty p)⟩
  rw [PortsRight, and_iff_left_of_imp]
  · exact CallRuns.throughout_iff_each perform_accounted_iff calls start
  · exact CallRuns.Throughout.each calls fun ports call accounted next =>
      ⟨handsOutFresh ports call accounted, freesHeld ports call accounted next⟩

/-- A port of `obtainSpecificPort` stays in use after its machine is released. -/
theorem specific_port_stays :
    ¬ ∀ calls : List (Call Nat), PortsRight calls (initial : LocalhostPorts Nat) := by
  intro claimed
  have each := (claimed [.obtain 0, .obtainSpecificPort 0 8080, .release 0]).2
  exact each.2.2.1.2 0 rfl (by decide) 8080 (by decide) (by decide)

end Calls

end Brooklyn.LocalhostPorts
