import Mathlib.MeasureTheory.Integral.IntervalIntegral.Basic

/-!
Step functions that are given by points: a point is a time and the value up to it, from the point
before on. `area` adds the steps up from a start; it is the integral of the step function, and lies
between the bounds of the values.
-/

namespace Brooklyn
namespace StepFunction

section Finish
variable {K : Type} [LinearOrder K]

/-- Where the steps from the start on end. -/
def finish (start : K) : List (K × K) → K
  | [] => start
  | (time, _) :: rest => if start ≤ time then finish time rest else finish start rest

theorem le_finish (start : K) (points : List (K × K)) : start ≤ finish start points := by
  induction points generalizing start with
  | nil => exact le_refl _
  | cons point rest ih =>
    unfold finish
    split
    next later => exact later.trans (ih point.1)
    next => exact ih start

/-- Points in order end with the last of them. -/
theorem finish_eq_last {start : K} {points : List (K × K)} {last : K × K}
    (ordered : points.Pairwise fun point later => point.1 ≤ later.1)
    (ends : points.getLast? = some last) (before : start ≤ last.1) :
    finish start points = last.1 := by
  induction points generalizing start with
  | nil => cases ends
  | cons point rest ih =>
    obtain ⟨least, ordered⟩ := List.pairwise_cons.mp ordered
    cases rest with
    | nil =>
      cases ends
      exact if_pos before
    | cons next rest =>
      have ends : (next :: rest).getLast? = some last := ends
      have member := List.mem_of_getLast? ends
      unfold finish
      split
      · exact ih ordered ends (least last member)
      · exact ih ordered ends before

end Finish

section Area
variable {K : Type} [Field K] [LinearOrder K]

/-- The steps from the start on. A point before the start is passed over. -/
def area (start : K) : List (K × K) → K
  | [] => 0
  | (time, value) :: rest =>
      if start ≤ time then (time - start) * value + area time rest else area start rest

theorem area_append_passed {start : K} {passed : List (K × K)}
    (before : ∀ point ∈ passed, point.1 < start) (points : List (K × K)) :
    area start (passed ++ points) = area start points := by
  induction passed with
  | nil => rfl
  | cons point rest ih =>
    refine (if_neg (not_le.mpr (before point List.mem_cons_self))).trans ?_
    exact ih fun other member => before other (List.mem_cons_of_mem _ member)

/-- The mean over the steps lies between the bounds of the values. -/
theorem area_bounds [IsStrictOrderedRing K] {least greatest : K} {points : List (K × K)}
    (bounds : ∀ point ∈ points, least ≤ point.2 ∧ point.2 ≤ greatest) (start : K) :
    least * (finish start points - start) ≤ area start points ∧
      area start points ≤ greatest * (finish start points - start) := by
  induction points generalizing start with
  | nil => simp [area, finish]
  | cons point rest ih =>
    obtain ⟨time, value⟩ := point
    obtain ⟨above, below⟩ := bounds _ List.mem_cons_self
    have further := fun start =>
      ih (fun other member => bounds other (List.mem_cons_of_mem _ member)) start
    unfold area finish
    split
    next later =>
      obtain ⟨lower, upper⟩ := further time
      have width := sub_nonneg.mpr later
      have first := mul_le_mul_of_nonneg_left above width
      have second := mul_le_mul_of_nonneg_left below width
      constructor
      · linarith
      · linarith
    next => exact further start

end Area

theorem cast_area (start : ℚ) (points : List (ℚ × ℚ)) :
    ((area start points : ℚ) : ℝ) =
      area (start : ℝ) (points.map fun point => ((point.1 : ℝ), (point.2 : ℝ))) := by
  induction points generalizing start with
  | nil => exact Rat.cast_zero
  | cons point rest ih =>
    rw [List.map_cons, area, area]
    simp only [Rat.cast_le]
    split
    · push_cast
      rw [ih]
    · exact ih start

/-- The function of the steps. After the last point it is 0. -/
noncomputable def stepFunction : List (ℝ × ℝ) → ℝ → ℝ
  | [], _ => 0
  | (time, value) :: rest, t => if t ≤ time then value else stepFunction rest t

section Integral
open MeasureTheory

theorem integral_step {points : List (ℝ × ℝ)} {start time value : ℝ} (later : start ≤ time)
    (step : ∀ t, start < t → t ≤ time → stepFunction points t = value) :
    IntervalIntegrable (stepFunction points) volume start time ∧
      ∫ t in start..time, stepFunction points t = (time - start) * value := by
  have same : Set.EqOn (fun _ => value) (stepFunction points) (Set.uIoc start time) := by
    intro t member
    rw [Set.uIoc_of_le later] at member
    exact (step t member.1 member.2).symm
  refine ⟨(intervalIntegrable_const (μ := volume)).congr same, ?_⟩
  rw [← intervalIntegral.integral_congr_ae (Filter.Eventually.of_forall same),
    intervalIntegral.integral_const, smul_eq_mul]

/-- The area is the integral up to the end of the steps. -/
theorem integral_stepFunction (start : ℝ) (points : List (ℝ × ℝ)) :
    IntervalIntegrable (stepFunction points) volume start (finish start points) ∧
      ∫ t in start..finish start points, stepFunction points t = area start points := by
  induction points generalizing start with
  | nil => exact ⟨IntervalIntegrable.refl, intervalIntegral.integral_same⟩
  | cons point rest ih =>
    obtain ⟨time, value⟩ := point
    -- behind its first point the function is that of the other points
    have behind (start : ℝ) (passed : time ≤ start) :
        IntervalIntegrable (stepFunction ((time, value) :: rest)) volume start
            (finish start rest) ∧
          ∫ t in start..finish start rest, stepFunction ((time, value) :: rest) t =
            area start rest := by
      have same : Set.EqOn (stepFunction rest) (stepFunction ((time, value) :: rest))
          (Set.uIoc start (finish start rest)) := by
        intro t member
        rw [Set.uIoc_of_le (le_finish start rest)] at member
        exact (if_neg (not_le.mpr (passed.trans_lt member.1))).symm
      refine ⟨(ih start).1.congr same, ?_⟩
      rw [← intervalIntegral.integral_congr_ae (Filter.Eventually.of_forall same)]
      exact (ih start).2
    by_cases later : start ≤ time
    · obtain ⟨integrable, first⟩ := @integral_step ((time, value) :: rest) start time value later
        fun t _ within => if_pos within
      obtain ⟨others, second⟩ := behind time le_rfl
      rw [finish, area, if_pos later, if_pos later]
      refine ⟨integrable.trans others, ?_⟩
      rw [← intervalIntegral.integral_add_adjacent_intervals integrable others, first, second]
    · rw [finish, area, if_neg later, if_neg later]
      exact behind start (not_le.mp later).le

end Integral
end StepFunction
end Brooklyn
