import Mathlib.Algebra.BigOperators.Group.Finset.Basic
import Mathlib.Tactic.Abel

/-!
A running total beside a partial map. `Totals map total` says that the map holds
finitely many values and that `total` is their sum. Recording a value adds the
difference to the value before it, and forgetting a key subtracts its value.
-/

namespace Brooklyn.RunningTotal

universe u v
variable {Key : Type u} {Value : Type v} [AddCommGroup Value]

def Totals (map : Key → Option Value) (total : Value) : Prop :=
  ∃ keys : Finset Key, (∀ key, key ∈ keys ↔ (map key).isSome) ∧
    total = ∑ key ∈ keys, (map key).getD 0

theorem totals_empty : Totals (fun _ : Key => (none : Option Value)) 0 :=
  ⟨∅, fun key => by simp, by simp⟩

/-- The total over a duplicate-free list of the keys. -/
theorem Totals.sum_keys {map : Key → Option Value} {total : Value} (totals : Totals map total)
    {listed : List Key} (distinct : listed.Nodup)
    (exact : ∀ key, (map key).isSome ↔ key ∈ listed) :
    total = (listed.map fun key => (map key).getD 0).sum := by
  classical
  obtain ⟨keys, held, sum⟩ := totals
  have same : keys = listed.toFinset := by
    ext key
    rw [held, exact, List.mem_toFinset]
  rw [sum, same, List.sum_toFinset _ distinct]

variable [DecidableEq Key]

theorem sum_forget (map : Key → Option Value) (keys : Finset Key) (key : Key)
    (recorded : Option Value) :
    ∑ other ∈ keys.erase key, (Function.update map key recorded other).getD 0 =
      ∑ other ∈ keys.erase key, (map other).getD 0 := by
  refine Finset.sum_congr rfl fun other member => ?_
  rw [Function.update_of_ne (Finset.ne_of_mem_erase member)]

theorem Totals.sum_others {map : Key → Option Value} {keys : Finset Key}
    (held : ∀ key, key ∈ keys ↔ (map key).isSome) (key : Key) :
    ∑ other ∈ keys.erase key, (map other).getD 0 =
      (∑ other ∈ keys, (map other).getD 0) - (map key).getD 0 := by
  by_cases member : key ∈ keys
  · rw [← Finset.add_sum_erase keys _ member, add_sub_cancel_left]
  -- A key without a value adds nothing to either side.
  · have absent : map key = none := by
      rw [← Option.not_isSome_iff_eq_none]
      exact fun present => member ((held key).mpr present)
    rw [Finset.erase_eq_of_notMem member, absent, Option.getD_none, sub_zero]

theorem Totals.forget {map : Key → Option Value} {total : Value} (totals : Totals map total)
    (key : Key) : Totals (Function.update map key none) (total - (map key).getD 0) := by
  obtain ⟨keys, held, sum⟩ := totals
  refine ⟨keys.erase key, fun other => ?_, ?_⟩
  · by_cases same : other = key
    · simp [same]
    · simp [same, held]
  · rw [sum_forget, Totals.sum_others held, sum]

theorem Totals.record {map : Key → Option Value} {total : Value} (totals : Totals map total)
    (key : Key) (value : Value) :
    Totals (Function.update map key (some value)) (total + (value - (map key).getD 0)) := by
  obtain ⟨keys, held, sum⟩ := totals
  refine ⟨insert key keys, fun other => ?_, ?_⟩
  · by_cases same : other = key
    · simp [same]
    · simp [same, held]
  · rw [← Finset.add_sum_erase _ _ (Finset.mem_insert_self key keys), Function.update_self,
      Finset.erase_insert_eq_erase, sum_forget, Totals.sum_others held, sum, Option.getD_some]
    abel

end Brooklyn.RunningTotal
