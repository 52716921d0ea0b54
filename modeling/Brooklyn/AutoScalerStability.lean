import Brooklyn.AutoScalerRuns

/-!
What a stable answer of `calculateDesiredPoolSize` promises. A window is unanimous
when it is covered and shows one size only. Both windows show the latest request,
so two unanimous windows agree, and a window that is unanimous stays so while no
request is added: as it moves on it shows nothing new and stays covered.
-/

namespace Brooklyn.AutoScalerPolicy
open Timeline

/-- A window that demands one size, from its start on. -/
def Unanimous (start : Int) (shown : List Request) (size : JavaInt) : Prop :=
  Covered TimestampedValue.timestamp start shown ∧ ∀ request ∈ shown, request.value = size

section Windows
variable {now timewindow : Int} {vals : List Request} {size : JavaInt}

theorem unanimous_of_stable
    (stable : minInWindow now vals timewindow = maxInWindow now vals timewindow) :
    Unanimous (now - timewindow) vals (minInWindow now vals timewindow) := by
  by_cases covered : Covered TimestampedValue.timestamp (now - timewindow) vals
  · refine ⟨covered, fun request shown => le_antisymm ?_ ?_⟩
    · rw [stable]
      exact (largest_of_covered covered).2 request shown
    · exact (smallest_of_covered covered).2 request shown
  · rw [minInWindow, maxInWindow, extreme_of_uncovered minimal covered,
      extreme_of_uncovered maximal covered] at stable
    exact absurd stable (by decide)

theorem minInWindow_of_unanimous (unanimous : Unanimous (now - timewindow) vals size) :
    minInWindow now vals timewindow = size := by
  obtain ⟨least, shown, same⟩ := (smallest_of_covered unanimous.1).1
  rw [← same, unanimous.2 least shown]

theorem maxInWindow_of_unanimous (unanimous : Unanimous (now - timewindow) vals size) :
    maxInWindow now vals timewindow = size := by
  obtain ⟨greatest, shown, same⟩ := (largest_of_covered unanimous.1).1
  rw [← same, unanimous.2 greatest shown]

end Windows

section Lasting
variable {Double : Type}

/-- The minimum counts a policy is constructed with. -/
structure KeepsExpired (policy : AutoScalerPolicy Double) : Prop where
  minVals : policy.recentDesiredResizes.minVals = 0
  minExpiredVals : policy.recentDesiredResizes.minExpiredVals > 0

theorem run_keepsExpired {policy : AutoScalerPolicy Double} (keeps : KeepsExpired policy)
    (operations : List Operation) : KeepsExpired (operations.foldl apply policy) := by
  induction operations generalizing policy with
  | nil => exact keeps
  | cons operation rest ih =>
      apply ih
      cases operation with
      | scheduleResize newSize now =>
          exact ⟨by simpa [apply] using keeps.minVals, by simpa [apply] using keeps.minExpiredVals⟩
      | abortResize currentSize now =>
          exact ⟨by simpa [apply] using keeps.minVals, by simpa [apply] using keeps.minExpiredVals⟩
      | setResizeUpStabilizationDelay val => exact ⟨keeps.minVals, keeps.minExpiredVals⟩
      | setResizeDownStabilizationDelay val => exact ⟨keeps.minVals, keeps.minExpiredVals⟩

variable {policy : AutoScalerPolicy Double} {now later delay : Int} {size : JavaInt}

theorem KeepsExpired.unanimous_later (keeps : KeepsExpired policy) (passed : now ≤ later)
    (unanimous : Unanimous (now - delay)
      (policy.recentDesiredResizes.getValuesInWindow now delay) size) :
    Unanimous (later - delay)
      (policy.recentDesiredResizes.getValuesInWindow later delay) size := by
  have moved : now - delay ≤ later - delay := by omega
  rw [TimeWindowedList.window_seen _ keeps.minVals keeps.minExpiredVals] at unanimous ⊢
  refine ⟨covered_later moved unanimous.1, fun request shown => ?_⟩
  exact unanimous.2 request (seen_of_seen_later moved shown)

/-- Both windows lie on either side of the latest request, whatever they show besides. -/
theorem KeepsExpired.demands_around (keeps : KeepsExpired policy)
    (unanimous : Unanimous (now - delay)
      (policy.recentDesiredResizes.getValuesInWindow now delay) size) (later : Int) :
    policy.maxDesiredPoolSize later ≤ size ∧ size ≤ policy.minDesiredPoolSize later := by
  rw [TimeWindowedList.window_seen _ keeps.minVals keeps.minExpiredVals] at unanimous
  obtain ⟨request, shown⟩ := mem_of_covered unanimous.1
  rcases List.eq_nil_or_concat' policy.recentDesiredResizes.values with
    none | ⟨earlier, latest, all⟩
  · rw [none] at shown
    exact absurd (mem_of_seen shown) (by simp)
  · have agreed : latest.value = size :=
      unanimous.2 latest (by rw [all]; exact latest_seen _ _ _)
    have everywhere (delay : Int) :
        latest ∈ policy.recentDesiredResizes.getValuesInWindow later delay := by
      rw [TimeWindowedList.window_seen _ keeps.minVals keeps.minExpiredVals, all]
      exact latest_seen _ _ _
    rw [← agreed]
    exact ⟨extreme_dominates minimal (everywhere _), extreme_dominates maximal (everywhere _)⟩

theorem calculate_settled (above : policy.maxDesiredPoolSize now ≤ size)
    (below : size ≤ policy.minDesiredPoolSize now) :
    (policy.calculateDesiredPoolSize now size).size = size := by
  simp [calculateDesiredPoolSize, not_lt.mpr above, not_lt.mpr below]

theorem KeepsExpired.stable_lasts (keeps : KeepsExpired policy) (passed : now ≤ later)
    (currentPoolSize : JavaInt)
    (stable : (policy.calculateDesiredPoolSize now currentPoolSize).stable = true) :
    let desired := (policy.calculateDesiredPoolSize now currentPoolSize).size
    (policy.calculateDesiredPoolSize later currentPoolSize).size = desired ∧
      (policy.calculateDesiredPoolSize later desired).size = desired := by
  by_cases grows : currentPoolSize < policy.maxDesiredPoolSize now
  · -- Every request the upsize window shows is for the answer, above the current size.
    simp only [calculateDesiredPoolSize, grows, if_true, stableForGrowing, beq_iff_eq] at stable
    have unanimous := unanimous_of_stable stable
    have lasting := minInWindow_of_unanimous (keeps.unanimous_later passed unanimous)
    have around := keeps.demands_around unanimous later
    intro desired
    have answer : desired = policy.maxDesiredPoolSize now :=
      calculate_growth policy now currentPoolSize grows
    have same : policy.maxDesiredPoolSize later = desired := lasting.trans answer.symm
    constructor
    · rw [calculate_growth policy later currentPoolSize (by rw [same, answer]; exact grows), same]
    · rw [answer]
      exact calculate_settled around.1 around.2
  · by_cases shrinks : policy.minDesiredPoolSize now < currentPoolSize
    · simp only [calculateDesiredPoolSize, grows, shrinks, if_true, if_false,
        stableForShrinking, beq_iff_eq] at stable
      have unanimous := unanimous_of_stable stable
      rw [stable] at unanimous
      have lasting := maxInWindow_of_unanimous (keeps.unanimous_later passed unanimous)
      have around := keeps.demands_around unanimous later
      intro desired
      have answer : desired = policy.minDesiredPoolSize now :=
        calculate_shrinkage policy now currentPoolSize grows shrinks
      have same : policy.minDesiredPoolSize later = desired := lasting.trans answer.symm
      constructor
      · have noGrowth : ¬currentPoolSize < policy.maxDesiredPoolSize later :=
          not_lt.mpr (around.1.trans shrinks.le)
        rw [calculate_shrinkage policy later currentPoolSize noGrowth
          (by rw [same, answer]; exact shrinks), same]
      · rw [answer]
        exact calculate_settled around.1 around.2
    · -- The answer is the current size, which both windows are unanimous for.
      have answer : (policy.calculateDesiredPoolSize now currentPoolSize).size =
          currentPoolSize := by simp [calculateDesiredPoolSize, grows, shrinks]
      simp only [calculateDesiredPoolSize, grows, shrinks, if_false, stableForGrowing,
        stableForShrinking, Bool.and_eq_true, beq_iff_eq] at stable
      have growing := unanimous_of_stable stable.1
      have shrinking := unanimous_of_stable stable.2
      rw [stable.2] at shrinking
      have above : policy.maxDesiredPoolSize later ≤ currentPoolSize :=
        (keeps.demands_around growing later).1.trans (not_lt.mp grows)
      have below : currentPoolSize ≤ policy.minDesiredPoolSize later :=
        (not_lt.mp shrinks).trans (keeps.demands_around shrinking later).2
      intro desired
      have current : desired = currentPoolSize := answer
      rw [current]
      exact ⟨calculate_settled above below, calculate_settled above below⟩

theorem stable_answer_lasts (metricLowerBound metricUpperBound : Double)
    (minPeriodBetweenExecs upDelay downDelay : Int) (minPoolSize maxPoolSize : JavaInt)
    (operations : List Operation) (now later : Int) (passed : now ≤ later)
    (currentPoolSize : JavaInt) :
    let policy := operations.foldl apply (construct metricLowerBound metricUpperBound
      minPeriodBetweenExecs upDelay downDelay minPoolSize maxPoolSize)
    let desired := policy.calculateDesiredPoolSize now currentPoolSize
    desired.stable = true →
      (policy.calculateDesiredPoolSize later currentPoolSize).size = desired.size ∧
      (policy.calculateDesiredPoolSize later desired.size).size = desired.size := by
  intro policy desired stable
  have constructed : KeepsExpired (construct metricLowerBound metricUpperBound
      minPeriodBetweenExecs upDelay downDelay minPoolSize maxPoolSize) :=
    ⟨rfl, Nat.one_pos⟩
  exact (run_keepsExpired constructed operations).stable_lasts passed currentPoolSize stable

/-- Up delay 20, down delay 10: at 70 the request made at 40 is all that is left. -/
theorem steady_answer_lasts :
    let policy := steadyRequests.foldl apply (construct (1 : ℚ) 2 100 20 10 1 9)
    (policy.calculateDesiredPoolSize 70 3).size = 5 ∧
    (policy.calculateDesiredPoolSize 500 3).size = 5 ∧
    (policy.calculateDesiredPoolSize 500 5).size = 5 := by
  intro policy
  have answer : policy.calculateDesiredPoolSize 70 3 = ⟨5, true⟩ := by decide
  have lasts := stable_answer_lasts (1 : ℚ) 2 100 20 10 1 9 steadyRequests 70 500 (by decide) 3
    (by rw [answer])
  rw [answer] at lasts
  exact ⟨by rw [answer], lasts⟩

end Lasting
end Brooklyn.AutoScalerPolicy
