import Brooklyn.AutoScalerPolicy
import Mathlib.Tactic.Linarith

/-!
`onMetricChanged` over exact rationals. `total` is an activity that does not
depend on the pool, so a pool of size `n` shows the metric `total / n`. What the
handler asks for then depends on `total` alone: `scaleOutSize total` above the
upper bound and `scaleBackSize total` below the lower one. The results compare
these two sizes.
-/

namespace Brooklyn.AutoScalerPolicy

/-- The configurations and activities under which the handler settles. -/
structure ValidRange (policy : AutoScalerPolicy ℚ) (total : ℚ) : Prop where
  lowerPositive : 0 < policy.metricLowerBound
  lowerLeUpper : policy.metricLowerBound ≤ policy.metricUpperBound
  minPositive : (1 : Int) ≤ policy.minPoolSize
  minLeMax : policy.minPoolSize ≤ policy.maxPoolSize
  active : 0 ≤ total

section Bounds
variable {Double : Type} (policy : AutoScalerPolicy Double)

theorem bounded_in_range (valid : policy.minPoolSize ≤ policy.maxPoolSize) (size : JavaInt) :
    policy.minPoolSize ≤ policy.toBoundedDesiredPoolSize size ∧
      policy.toBoundedDesiredPoolSize size ≤ policy.maxPoolSize :=
  ⟨le_min valid (le_max_left _ _), min_le_left _ _⟩

/-- Clamping to bounds within the `int` range hides the saturation. -/
theorem bounded_saturate (size : Int) :
    (policy.toBoundedDesiredPoolSize (JavaInt.saturate size) : Int) =
      min (policy.maxPoolSize : Int) (max (policy.minPoolSize : Int) size) := by
  have minRange := policy.minPoolSize.2
  have maxRange := policy.maxPoolSize.2
  rw [toBoundedDesiredPoolSize, JavaInt.coe_min, JavaInt.coe_max, JavaInt.coe_saturate]
  omega

end Bounds

section Sizes
variable {policy : AutoScalerPolicy ℚ} {total : ℚ}

theorem ValidRange.upperPositive (valid : ValidRange policy total) : 0 < policy.metricUpperBound :=
  lt_of_lt_of_le valid.lowerPositive valid.lowerLeUpper

theorem scaleOutSize_eq (policy : AutoScalerPolicy ℚ) (total : ℚ) :
    (policy.scaleOutSize total : Int) = min (policy.maxPoolSize : Int)
      (max (policy.minPoolSize : Int) ⌈total / policy.metricUpperBound⌉) :=
  bounded_saturate policy _

/-- Rounding the activity up against the upper bound gives the least size that
carries it. -/
theorem ceil_isLeast (valid : ValidRange policy total) :
    IsLeast {size : Nat | total ≤ size * policy.metricUpperBound}
      ⌈total / policy.metricUpperBound⌉.toNat := by
  have positive := valid.upperPositive
  have nonneg : 0 ≤ ⌈total / policy.metricUpperBound⌉ :=
    Int.ceil_nonneg (div_nonneg valid.active positive.le)
  have cast : ((⌈total / policy.metricUpperBound⌉.toNat : Nat) : ℚ) =
      (⌈total / policy.metricUpperBound⌉ : ℚ) := by
    have whole := Int.toNat_of_nonneg nonneg
    exact_mod_cast congrArg (Int.cast : Int → ℚ) whole
  constructor
  · rw [Set.mem_ofPred_eq, cast]
    exact (div_le_iff₀ positive).mp (Int.le_ceil _)
  · intro size carries
    have rate : total / policy.metricUpperBound ≤ ((size : Int) : ℚ) := by
      rw [div_le_iff₀ positive]
      exact_mod_cast carries
    have bound := Int.ceil_le.mpr rate
    omega

/-- The correction against thrashing keeps the scale-back size at or above the
scale-out size. -/
theorem scaleOut_le_scaleBack (valid : ValidRange policy total) :
    policy.scaleOutSize total ≤ policy.scaleBackSize total := by
  unfold scaleBackSize
  dsimp only
  split
  · exact le_rfl
  · next enough =>
    have inRange := bounded_in_range policy valid.minLeMax
      (JavaDouble.floorToInt (total / policy.metricLowerBound))
    have rounded := Int.ceil_le.mpr (not_lt.mp enough)
    change (policy.scaleOutSize total : Int) ≤ _
    rw [scaleOutSize_eq]
    exact le_trans (min_le_right _ _) (max_le inRange.1 rounded)

/-- At the scale-back size, a metric above the upper bound means the correction
was made. -/
theorem scaleBack_of_high (tooLow : (policy.scaleBackSize total : ℚ) <
    total / policy.metricUpperBound) : policy.scaleBackSize total = policy.scaleOutSize total := by
  by_cases tweaked : ((policy.toBoundedDesiredPoolSize (JavaDouble.floorToInt
      (total / policy.metricLowerBound)) : Int) : ℚ) < total / policy.metricUpperBound
  · simp [scaleBackSize, tweaked]
  · have kept : policy.scaleBackSize total = policy.toBoundedDesiredPoolSize
        (JavaDouble.floorToInt (total / policy.metricLowerBound)) := by
      simp [scaleBackSize, tweaked]
    rw [kept] at tooLow
    exact absurd tooLow tweaked

end Sizes

section Responses
variable {policy : AutoScalerPolicy ℚ} {total : ℚ} {size : JavaInt}

theorem metric_response (policy : AutoScalerPolicy ℚ) (total : ℚ) (positive : (0 : Int) < size) :
    policy.onMetricChanged size (total / (size : Int)) =
      if policy.metricUpperBound < total / (size : Int) then
        if policy.scaleOutSize total > size then
          .scheduleResize (policy.scaleOutSize total) else .nothing
      else if total / (size : Int) < policy.metricLowerBound then
        if policy.scaleBackSize total < size then
          .scheduleResize (policy.scaleBackSize total) else .nothing
      else .abortResize size := by
  have nonzero : ((size : Int) : ℚ) ≠ 0 := by exact_mod_cast positive.ne'
  have activity : ((size : Int) : ℚ) * (total / (size : Int)) = total :=
    mul_div_cancel₀ total nonzero
  simp only [onMetricChanged, activity]

/-- The two ways to a request: scaling out from above the upper bound, or scaling
back from below the lower one. -/
theorem request_cases (positive : (0 : Int) < size) {newSize : JavaInt}
    (requested : policy.onMetricChanged size (total / (size : Int)) = .scheduleResize newSize) :
    (policy.metricUpperBound < total / (size : Int) ∧ newSize = policy.scaleOutSize total ∧
      size < newSize) ∨
    (¬policy.metricUpperBound < total / (size : Int) ∧
      total / (size : Int) < policy.metricLowerBound ∧ newSize = policy.scaleBackSize total ∧
      newSize < size) := by
  rw [metric_response policy total positive] at requested
  split at requested
  · next high =>
    split at requested
    · next larger =>
      cases requested
      exact Or.inl ⟨high, rfl, larger⟩
    · cases requested
  · next notHigh =>
    split at requested
    · next low =>
      split at requested
      · next smaller =>
        cases requested
        exact Or.inr ⟨notHigh, low, rfl, smaller⟩
      · cases requested
    · cases requested

theorem no_request_at_scaleOut (valid : ValidRange policy total)
    (positive : (0 : Int) < policy.scaleOutSize total) (newSize : JavaInt) :
    policy.onMetricChanged (policy.scaleOutSize total)
      (total / (policy.scaleOutSize total : Int)) ≠ .scheduleResize newSize := by
  intro requested
  rcases request_cases positive requested with ⟨_, same, larger⟩ | ⟨_, _, same, smaller⟩
  · exact absurd larger (same ▸ lt_irrefl _)
  · exact absurd smaller (same ▸ not_lt.mpr (scaleOut_le_scaleBack valid))

theorem no_request_at_scaleBack (valid : ValidRange policy total)
    (positive : (0 : Int) < policy.scaleBackSize total) (newSize : JavaInt) :
    policy.onMetricChanged (policy.scaleBackSize total)
      (total / (policy.scaleBackSize total : Int)) ≠ .scheduleResize newSize := by
  intro requested
  rcases request_cases positive requested with ⟨high, same, larger⟩ | ⟨_, _, same, smaller⟩
  · have sizePositive : (0 : ℚ) < ((policy.scaleBackSize total : Int) : ℚ) := by
      exact_mod_cast positive
    have product := (lt_div_iff₀ sizePositive).mp high
    have tooLow : ((policy.scaleBackSize total : Int) : ℚ) < total / policy.metricUpperBound := by
      rw [lt_div_iff₀ valid.upperPositive, mul_comm]
      exact product
    have corrected := scaleBack_of_high tooLow
    exact absurd larger (same ▸ corrected ▸ lt_irrefl _)
  · exact absurd smaller (same ▸ lt_irrefl _)

theorem scaleBack_in_range (valid : ValidRange policy total) :
    policy.minPoolSize ≤ policy.scaleBackSize total ∧
      policy.scaleBackSize total ≤ policy.maxPoolSize := by
  unfold scaleBackSize
  dsimp only
  split <;> exact bounded_in_range policy valid.minLeMax _

theorem metric_scaling_settles (valid : ValidRange policy total) (currentSize : JavaInt)
    (inRange : policy.minPoolSize ≤ currentSize ∧ currentSize ≤ policy.maxPoolSize)
    (newSize : JavaInt) (requested :
      policy.onMetricChanged currentSize (total / (currentSize : Int)) = .scheduleResize newSize) :
    (policy.minPoolSize ≤ newSize ∧ newSize ≤ policy.maxPoolSize) ∧
    (policy.metricUpperBound < total / (currentSize : Int) →
      currentSize ≤ newSize ∧
      ∃ least : Nat, IsLeast {size : Nat | total ≤ size * policy.metricUpperBound} least ∧
        (newSize : Int) = min (policy.maxPoolSize : Int) (max (policy.minPoolSize : Int) least)) ∧
    (total / (currentSize : Int) < policy.metricLowerBound → newSize ≤ currentSize) ∧
    ∀ nextSize, policy.onMetricChanged newSize (total / (newSize : Int)) ≠
      .scheduleResize nextSize := by
  have minPositive := valid.minPositive
  have positive : (0 : Int) < currentSize := lt_of_lt_of_le (by omega) inRange.1
  rcases request_cases positive requested with ⟨high, rfl, larger⟩ | ⟨notHigh, low, rfl, smaller⟩
  · have bounds := bounded_in_range policy valid.minLeMax
      (JavaDouble.ceilToInt (total / policy.metricUpperBound))
    have nonneg : 0 ≤ ⌈total / policy.metricUpperBound⌉ :=
      Int.ceil_nonneg (div_nonneg valid.active valid.upperPositive.le)
    refine ⟨bounds, fun _ => ⟨larger.le, _, ceil_isLeast valid, ?_⟩, ?_, ?_⟩
    · rw [scaleOutSize_eq, Int.toNat_of_nonneg nonneg]
    · intro low
      exact absurd (lt_of_lt_of_le low valid.lowerLeUpper) (lt_asymm high)
    · exact no_request_at_scaleOut valid (lt_of_lt_of_le (by omega) bounds.1)
  · have bounds := scaleBack_in_range valid
    refine ⟨bounds, fun high => absurd high notHigh, fun _ => smaller.le, ?_⟩
    exact no_request_at_scaleBack valid (lt_of_lt_of_le (by omega) bounds.1)

/-- Two containers at 35 each, with bounds 10 and 20, grow to four at 17.5. -/
def busyPolicy : AutoScalerPolicy ℚ :=
  construct 10 20 100 0 0 1 8

theorem busy_pool_settles :
    busyPolicy.onMetricChanged 2 (70 / 2) = .scheduleResize 4 ∧
    (busyPolicy.minPoolSize ≤ 4 ∧ 4 ≤ busyPolicy.maxPoolSize) ∧
    ∀ nextSize, busyPolicy.onMetricChanged 4 (70 / 4) ≠ .scheduleResize nextSize := by
  have requested : busyPolicy.onMetricChanged 2 (70 / 2) = .scheduleResize 4 := by
    decide +kernel
  have valid : ValidRange busyPolicy 70 :=
    ⟨by decide, by decide, by decide, by decide, by decide⟩
  have two : ((2 : JavaInt) : Int) = 2 := rfl
  have four : ((4 : JavaInt) : Int) = 4 := rfl
  have settles := metric_scaling_settles valid 2 (by decide) 4 (by simpa [two] using requested)
  exact ⟨requested, settles.1, by simpa [four] using settles.2.2.2⟩

end Responses
end Brooklyn.AutoScalerPolicy
