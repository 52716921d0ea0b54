import Mathlib.Algebra.BigOperators.Group.Finset.Piecewise
import Mathlib.Algebra.Order.Archimedean.Basic
import Mathlib.Algebra.Order.Floor.Semiring
import Mathlib.Tactic.Linarith
import Mathlib.Tactic.Ring

/-!
Loads spread over the nodes of a pool. The energy is the sum of the squared loads;
a transfer that leaves its receiver below what its donor had lowers it. Loads made
of finitely many rational weights have a common denominator, so the energy falls
only finitely often.
-/

namespace Brooklyn.LoadEnergy
universe u v

section Transfer
variable {Node : Type u} [DecidableEq Node] {Load : Type v} [CommRing Load]

def energy (pool : Finset Node) (load : Node → Load) : Load :=
  ∑ node ∈ pool, load node ^ 2

def transfer (load : Node → Load) (donor receiver : Node) (amount : Load) : Node → Load :=
  Function.update (Function.update load donor (load donor - amount)) receiver
    (load receiver + amount)

theorem energy_transfer (pool : Finset Node) (load : Node → Load) {donor receiver : Node}
    (gives : donor ∈ pool) (takes : receiver ∈ pool) (apart : receiver ≠ donor) (amount : Load) :
    energy pool (transfer load donor receiver amount) =
      energy pool load - 2 * amount * (load donor - load receiver - amount) := by
  have remains : receiver ∈ pool.erase donor := Finset.mem_erase.mpr ⟨apart, takes⟩
  have others : ∑ node ∈ (pool.erase donor).erase receiver,
      transfer load donor receiver amount node ^ 2 =
      ∑ node ∈ (pool.erase donor).erase receiver, load node ^ 2 := by
    refine Finset.sum_congr rfl fun node member => ?_
    have notReceiver : node ≠ receiver := (Finset.mem_erase.mp member).1
    have notDonor : node ≠ donor := (Finset.mem_erase.mp (Finset.mem_erase.mp member).2).1
    simp [transfer, Function.update_of_ne notReceiver, Function.update_of_ne notDonor]
  have atDonor : transfer load donor receiver amount donor = load donor - amount := by
    simp [transfer, Function.update_of_ne apart.symm]
  have atReceiver : transfer load donor receiver amount receiver = load receiver + amount := by
    simp [transfer]
  rw [energy, energy, ← Finset.add_sum_erase pool _ gives, ← Finset.add_sum_erase _ _ remains,
    ← Finset.add_sum_erase pool (fun node => load node ^ 2) gives,
    ← Finset.add_sum_erase _ (fun node => load node ^ 2) remains, others, atDonor, atReceiver]
  ring

end Transfer

section Ordered
variable {Node : Type u} [DecidableEq Node] {Load : Type v} [CommRing Load] [LinearOrder Load]
    [IsStrictOrderedRing Load]

theorem energy_transfer_lt (pool : Finset Node) (load : Node → Load) {donor receiver : Node}
    (gives : donor ∈ pool) (takes : receiver ∈ pool) (apart : receiver ≠ donor) {amount : Load}
    (positive : 0 < amount) (relieved : load receiver + amount < load donor) :
    energy pool (transfer load donor receiver amount) < energy pool load := by
  rw [energy_transfer pool load gives takes apart]
  have gap : 0 < load donor - load receiver - amount := by linarith
  have lost := mul_pos (mul_pos two_pos positive) gap
  linarith

end Ordered

section Denominators
variable {Node : Type u} {Item : Type v}

/-- `scale` clears the denominator of a load. -/
def Clears (scale : Nat) (load : ℚ) : Prop := ∃ whole : Nat, scale * load = whole

theorem clears_zero (scale : Nat) : Clears scale 0 := ⟨0, by simp⟩

theorem Clears.add {scale : Nat} {first second : ℚ} (one : Clears scale first)
    (two : Clears scale second) : Clears scale (first + second) := by
  obtain ⟨whole, same⟩ := one
  obtain ⟨other, equal⟩ := two
  exact ⟨whole + other, by rw [mul_add, same, equal]; push_cast; rfl⟩

theorem Clears.mul {first second : Nat} {load other : ℚ} (one : Clears first load)
    (two : Clears second other) : Clears (first * second) (load * other) := by
  obtain ⟨whole, same⟩ := one
  obtain ⟨rest, equal⟩ := two
  refine ⟨whole * rest, ?_⟩
  push_cast
  rw [← same, ← equal]
  ring

theorem clears_list_sum {scale : Nat} {loads : List ℚ}
    (cleared : ∀ load ∈ loads, Clears scale load) : Clears scale loads.sum := by
  induction loads with
  | nil => exact clears_zero scale
  | cons load rest ih =>
      rw [List.sum_cons]
      exact (cleared load List.mem_cons_self).add
        (ih fun other member => cleared other (List.mem_cons_of_mem _ member))

theorem clears_energy {scale : Nat} {load : Node → ℚ} (pool : Finset Node)
    (cleared : ∀ node ∈ pool, Clears scale (load node)) :
    Clears (scale * scale) (energy pool load) := by
  refine Finset.sum_induction _ _ (fun _ _ => Clears.add) (clears_zero _) fun node member => ?_
  rw [sq]
  exact (cleared node member).mul (cleared node member)

/-- Finitely many nonnegative weights have a common denominator. -/
theorem exists_clears (weight : Item → ℚ) (nonneg : ∀ item, 0 ≤ weight item) (items : List Item) :
    ∃ scale : Nat, 0 < scale ∧ ∀ item ∈ items, Clears scale (weight item) := by
  induction items with
  | nil => exact ⟨1, one_pos, by simp⟩
  | cons item rest ih =>
      obtain ⟨scale, positive, cleared⟩ := ih
      have numerator : ((weight item).num.toNat : ℚ) = (weight item).num := by
        exact_mod_cast congrArg (Int.cast : Int → ℚ)
          (Int.toNat_of_nonneg (Rat.num_nonneg.mpr (nonneg item)))
      refine ⟨(weight item).den * scale, Nat.mul_pos (weight item).den_pos positive, ?_⟩
      intro other member
      rcases List.mem_cons.mp member with rfl | member
      · refine ⟨(weight other).num.toNat * scale, ?_⟩
        push_cast
        rw [numerator, ← Rat.den_mul_eq_num]
        ring
      · obtain ⟨whole, same⟩ := cleared other member
        exact ⟨(weight item).den * whole, by push_cast; rw [← same]; ring⟩

theorem floor_lt_of_clears {scale : Nat} (positive : 0 < scale) {less more : ℚ}
    (smaller : Clears scale less) (larger : Clears scale more) (falls : less < more) :
    ⌊scale * less⌋₊ < ⌊scale * more⌋₊ := by
  obtain ⟨whole, same⟩ := smaller
  obtain ⟨rest, equal⟩ := larger
  have scaled : (scale : ℚ) * less < scale * more :=
    mul_lt_mul_of_pos_left falls (by exact_mod_cast positive)
  rw [same, equal] at scaled ⊢
  rw [Nat.floor_natCast, Nat.floor_natCast]
  exact_mod_cast scaled

end Denominators

section Settling
variable {State : Type u}

def iterate (step : State → Option State) : Nat → State → Option State
  | 0, state => some state
  | count + 1, state => (step state).bind (iterate step count)

theorem iterate_add {step : State → Option State} (first second : Nat) (state : State) :
    iterate step (first + second) state = (iterate step first state).bind (iterate step second) := by
  induction first generalizing state with
  | zero => simp [iterate]
  | succ first ih =>
      rw [Nat.succ_add]
      cases stepped : step state with
      | none => simp [iterate, stepped]
      | some after => simpa [iterate, stepped] using ih after

theorem iterate_fixed {step : State → Option State} {state : State}
    (fixed : step state = some state) (count : Nat) : iterate step count state = some state := by
  induction count with
  | zero => rfl
  | succ count ih => simp [iterate, fixed, ih]

theorem iterate_total {step : State → Option State} (holds : State → Prop)
    (steps : ∀ state, holds state → ∃ after, step state = some after ∧ holds after)
    (count : Nat) {state : State} (start : holds state) :
    ∃ after, iterate step count state = some after ∧ holds after := by
  induction count generalizing state with
  | zero => exact ⟨state, rfl, start⟩
  | succ count ih =>
      obtain ⟨next, stepped, kept⟩ := steps state start
      obtain ⟨after, reached, last⟩ := ih kept
      exact ⟨after, by simpa [iterate, stepped] using reached, last⟩

/-- A step that lowers a measure unless its state is quiet reaches a quiet state. -/
theorem settles {step : State → Option State} {quiet : State → Prop} (holds : State → Prop)
    (measure : State → Nat)
    (steps : ∀ state, holds state → quiet state ∨
      ∃ after, step state = some after ∧ holds after ∧ measure after < measure state)
    (state : State) (start : holds state) :
    ∃ count after, iterate step count state = some after ∧ quiet after := by
  induction bound : measure state using Nat.strong_induction_on generalizing state with
  | _ bound ih =>
      rcases steps state start with rests | ⟨after, stepped, kept, lower⟩
      · exact ⟨0, state, rfl, rests⟩
      · obtain ⟨count, last, reached, rests⟩ := ih _ (bound ▸ lower) after kept rfl
        exact ⟨count + 1, last, by simpa [iterate, stepped] using reached, rests⟩

end Settling
end Brooklyn.LoadEnergy
