import Brooklyn.AutoScalerPolicy

/-!
The stabilization of `AutoScalerPolicy` over whole histories. A history is built
by recorded requests and by the two delay setters, in any order. `shown` lists are
what a stabilization window shows of it; `Covered` windows reach back to their
start. The window functions report a value that never resizes for a window that is
not covered.
-/

namespace Brooklyn.AutoScalerPolicy
open Timeline

abbrev Request := TimestampedValue JavaInt

section Extremes
variable {uncovered : JavaInt} {beats : JavaInt → JavaInt → Bool}
    {dominates : JavaInt → JavaInt → Prop}

/-- `beats` decides a total order in which nothing beats `uncovered`. -/
structure Extremal (uncovered : JavaInt) (beats : JavaInt → JavaInt → Bool)
    (dominates : JavaInt → JavaInt → Prop) : Prop where
  refl : ∀ val, dominates val val
  trans : ∀ {first second third}, dominates first second → dominates second third →
    dominates first third
  ofBeats : ∀ {val best}, beats val best = true → dominates val best
  ofUnbeaten : ∀ {val best}, beats val best = false → dominates best val
  uncoveredUnbeaten : ∀ val, beats val uncovered = false

theorem maximal : Extremal JavaInt.maxValue (fun val best => decide (val > best))
    (fun larger smaller => smaller ≤ larger) where
  refl := le_refl
  trans := fun second first => le_trans first second
  ofBeats beaten := (of_decide_eq_true beaten).le
  ofUnbeaten kept := not_lt.mp (of_decide_eq_false kept)
  uncoveredUnbeaten val := decide_eq_false (not_lt.mpr (JavaInt.le_maxValue val))

theorem minimal : Extremal JavaInt.minValue (fun val best => decide (val < best))
    (fun smaller larger => smaller ≤ larger) where
  refl := le_refl
  trans := le_trans
  ofBeats beaten := (of_decide_eq_true beaten).le
  ofUnbeaten kept := not_lt.mp (of_decide_eq_false kept)
  uncoveredUnbeaten val := decide_eq_false (not_lt.mpr (JavaInt.minValue_le val))

theorem considerVal_some (uncovered : JavaInt) (beats : JavaInt → JavaInt → Bool) (epoch : Int)
    (best : JavaInt) (val : Request) :
    considerVal uncovered beats epoch (some best) val =
      some (if beats val.value best then val.value else best) := by
  simp only [considerVal, Option.isNone_some, Bool.false_and, Bool.false_eq_true, if_false]
  split <;> rfl

theorem fold_from_some (extremal : Extremal uncovered beats dominates) (epoch : Int)
    (vals : List Request) (best : JavaInt) :
    ∃ result, vals.foldl (considerVal uncovered beats epoch) (some best) = some result ∧
      dominates result best ∧ (∀ val ∈ vals, dominates result val.value) ∧
      (result = best ∨ ∃ val ∈ vals, result = val.value) := by
  induction vals generalizing best with
  | nil => exact ⟨best, rfl, extremal.refl best, by simp, Or.inl rfl⟩
  | cons first rest ih =>
      rw [List.foldl_cons, considerVal_some]
      -- Either the new value becomes the best, or the best one stays; both dominate.
      cases beaten : beats first.value best with
      | true =>
          obtain ⟨result, folded, above, all, found⟩ := ih first.value
          refine ⟨result, folded, extremal.trans above (extremal.ofBeats beaten), ?_, Or.inr ?_⟩
          · simpa using ⟨above, all⟩
          · rcases found with same | ⟨val, member, same⟩
            · exact ⟨first, by simp, same⟩
            · exact ⟨val, by simp [member], same⟩
      | false =>
          obtain ⟨result, folded, above, all, found⟩ := ih best
          refine ⟨result, folded, above, ?_, ?_⟩
          · have first_below := extremal.trans above (extremal.ofUnbeaten beaten)
            simpa using ⟨first_below, all⟩
          · rcases found with same | ⟨val, member, same⟩
            · exact Or.inl same
            · exact Or.inr ⟨val, by simp [member], same⟩

theorem fold_uncovered (extremal : Extremal uncovered beats dominates) (epoch : Int)
    (vals : List Request) :
    vals.foldl (considerVal uncovered beats epoch) (some uncovered) = some uncovered := by
  induction vals with
  | nil => rfl
  | cons first rest ih =>
      rw [List.foldl_cons, considerVal_some, extremal.uncoveredUnbeaten]
      exact ih

theorem extreme_of_covered (extremal : Extremal uncovered beats dominates) {now timewindow : Int}
    {vals : List Request}
    (covered : Covered TimestampedValue.timestamp (now - timewindow) vals) :
    ∃ val ∈ vals, extremeInWindow uncovered beats now vals timewindow = val.value ∧
      ∀ other ∈ vals, dominates val.value other.value := by
  obtain ⟨first, head, early⟩ := covered
  cases vals with
  | nil => cases head
  | cons val rest =>
      cases head
      have opened : considerVal uncovered beats (now - timewindow) none first =
          some first.value := by simp [considerVal, not_lt.mpr early]
      obtain ⟨result, folded, above, all, found⟩ :=
        fold_from_some extremal (now - timewindow) rest first.value
      have computed : extremeInWindow uncovered beats now (first :: rest) timewindow = result := by
        rw [extremeInWindow, List.foldl_cons, opened, folded, Option.getD_some]
      have dominated : ∀ other ∈ first :: rest, dominates result other.value := by
        simpa using ⟨above, all⟩
      rcases found with rfl | ⟨val, member, rfl⟩
      · exact ⟨first, by simp, computed, dominated⟩
      · exact ⟨val, by simp [member], computed, dominated⟩

theorem extreme_of_uncovered (extremal : Extremal uncovered beats dominates)
    {now timewindow : Int} {vals : List Request}
    (uncoveredWindow : ¬Covered TimestampedValue.timestamp (now - timewindow) vals) :
    extremeInWindow uncovered beats now vals timewindow = uncovered := by
  cases vals with
  | nil => rfl
  | cons first rest =>
      have late : first.timestamp > now - timewindow :=
        not_le.mp fun early => uncoveredWindow ⟨first, rfl, early⟩
      have opened : considerVal uncovered beats (now - timewindow) none first = some uncovered := by
        simp [considerVal, late, extremal.uncoveredUnbeaten]
      rw [extremeInWindow, List.foldl_cons, opened, fold_uncovered extremal, Option.getD_some]

/-- Covered or not, the reported value dominates every value of the window. -/
theorem extreme_dominates (extremal : Extremal uncovered beats dominates) {now timewindow : Int}
    {vals : List Request} {val : Request} (member : val ∈ vals) :
    dominates (extremeInWindow uncovered beats now vals timewindow) val.value := by
  by_cases covered : Covered TimestampedValue.timestamp (now - timewindow) vals
  · obtain ⟨best, _, computed, all⟩ := extreme_of_covered extremal covered
    exact computed ▸ all val member
  · rw [extreme_of_uncovered extremal covered]
    exact extremal.ofUnbeaten (extremal.uncoveredUnbeaten _)

end Extremes

section Demand

/-- A window that demands more than the current size, from its start on. -/
def Growing (start : Int) (shown : List Request) (currentPoolSize : JavaInt) : Prop :=
  Covered TimestampedValue.timestamp start shown ∧ ∀ request ∈ shown, currentPoolSize < request.value

def Shrinking (start : Int) (shown : List Request) (currentPoolSize : JavaInt) : Prop :=
  Covered TimestampedValue.timestamp start shown ∧ ∀ request ∈ shown, request.value < currentPoolSize

def Smallest (shown : List Request) (size : JavaInt) : Prop :=
  (∃ request ∈ shown, request.value = size) ∧ ∀ request ∈ shown, size ≤ request.value

def Largest (shown : List Request) (size : JavaInt) : Prop :=
  (∃ request ∈ shown, request.value = size) ∧ ∀ request ∈ shown, request.value ≤ size

theorem mem_of_covered {start : Int} {shown : List Request}
    (covered : Covered TimestampedValue.timestamp start shown) : ∃ request, request ∈ shown := by
  obtain ⟨first, head, _⟩ := covered
  exact ⟨first, List.mem_of_head? head⟩

theorem growing_iff (now timewindow : Int) (vals : List Request) (currentPoolSize : JavaInt) :
    currentPoolSize < minInWindow now vals timewindow ↔
      Growing (now - timewindow) vals currentPoolSize := by
  by_cases covered : Covered TimestampedValue.timestamp (now - timewindow) vals
  · obtain ⟨least, member, computed, all⟩ := extreme_of_covered minimal covered
    rw [minInWindow, computed]
    constructor
    · intro above
      exact ⟨covered, fun request shown => lt_of_lt_of_le above (all request shown)⟩
    · intro growing
      exact growing.2 least member
  · rw [minInWindow, extreme_of_uncovered minimal covered]
    constructor
    · intro below
      exact absurd below (not_lt.mpr (JavaInt.minValue_le _))
    · intro growing
      exact absurd growing.1 covered

theorem shrinking_iff (now timewindow : Int) (vals : List Request) (currentPoolSize : JavaInt) :
    maxInWindow now vals timewindow < currentPoolSize ↔
      Shrinking (now - timewindow) vals currentPoolSize := by
  by_cases covered : Covered TimestampedValue.timestamp (now - timewindow) vals
  · obtain ⟨greatest, member, computed, all⟩ := extreme_of_covered maximal covered
    rw [maxInWindow, computed]
    constructor
    · intro below
      exact ⟨covered, fun request shown => lt_of_le_of_lt (all request shown) below⟩
    · intro shrinking
      exact shrinking.2 greatest member
  · rw [maxInWindow, extreme_of_uncovered maximal covered]
    constructor
    · intro above
      exact absurd above (not_lt.mpr (JavaInt.le_maxValue _))
    · intro shrinking
      exact absurd shrinking.1 covered

theorem smallest_of_covered {now timewindow : Int} {vals : List Request}
    (covered : Covered TimestampedValue.timestamp (now - timewindow) vals) :
    Smallest vals (minInWindow now vals timewindow) := by
  obtain ⟨least, member, computed, all⟩ := extreme_of_covered minimal covered
  rw [minInWindow, computed]
  exact ⟨⟨least, member, rfl⟩, all⟩

theorem largest_of_covered {now timewindow : Int} {vals : List Request}
    (covered : Covered TimestampedValue.timestamp (now - timewindow) vals) :
    Largest vals (maxInWindow now vals timewindow) := by
  obtain ⟨greatest, member, computed, all⟩ := extreme_of_covered maximal covered
  rw [maxInWindow, computed]
  exact ⟨⟨greatest, member, rfl⟩, all⟩

end Demand

section Calculation
variable {Double : Type} (policy : AutoScalerPolicy Double) (now : Int) (currentPoolSize : JavaInt)

/-- A desired size above the current one is the upsize window's demand. -/
theorem calculate_grows :
    currentPoolSize < (policy.calculateDesiredPoolSize now currentPoolSize).size ↔
      currentPoolSize < policy.maxDesiredPoolSize now := by
  unfold calculateDesiredPoolSize
  split
  · next grows => exact iff_of_true grows grows
  · next noGrowth =>
    split
    · next shrinks => exact iff_of_false (not_lt.mpr (le_of_lt shrinks)) noGrowth
    · exact iff_of_false (lt_irrefl _) noGrowth

theorem calculate_growth
    (grows : currentPoolSize < policy.maxDesiredPoolSize now) :
    (policy.calculateDesiredPoolSize now currentPoolSize).size = policy.maxDesiredPoolSize now := by
  simp [calculateDesiredPoolSize, grows]

theorem calculate_shrinkage
    (noGrowth : ¬currentPoolSize < policy.maxDesiredPoolSize now)
    (shrinks : policy.minDesiredPoolSize now < currentPoolSize) :
    (policy.calculateDesiredPoolSize now currentPoolSize).size = policy.minDesiredPoolSize now := by
  simp [calculateDesiredPoolSize, noGrowth, shrinks]

theorem calculate_shrinks
    (exclusive : ¬(currentPoolSize < policy.maxDesiredPoolSize now ∧
      policy.minDesiredPoolSize now < currentPoolSize)) :
    (policy.calculateDesiredPoolSize now currentPoolSize).size < currentPoolSize ↔
      policy.minDesiredPoolSize now < currentPoolSize := by
  unfold calculateDesiredPoolSize
  split
  · next grows =>
    refine iff_of_false (not_lt.mpr (le_of_lt grows)) ?_
    exact fun shrinks => exclusive ⟨grows, shrinks⟩
  · split
    · next shrinks => exact iff_of_true shrinks shrinks
    · next noShrinking => exact iff_of_false (lt_irrefl _) noShrinking

/-- A size other than the current one was requested. -/
theorem calculate_requested
    (changed : currentPoolSize ≠ (policy.calculateDesiredPoolSize now currentPoolSize).size) :
    ∃ request ∈ policy.recentDesiredResizes.values,
      request.value = (policy.calculateDesiredPoolSize now currentPoolSize).size := by
  by_cases grows : currentPoolSize < policy.maxDesiredPoolSize now
  · rw [calculate_growth policy now currentPoolSize grows]
    have growing := (growing_iff _ _ _ _).mp grows
    obtain ⟨request, member, same⟩ := (smallest_of_covered growing.1).1
    exact ⟨request, TimeWindowedList.mem_of_window member, same⟩
  · by_cases shrinks : policy.minDesiredPoolSize now < currentPoolSize
    · rw [calculate_shrinkage policy now currentPoolSize grows shrinks]
      have shrinking := (shrinking_iff _ _ _ _).mp shrinks
      obtain ⟨request, member, same⟩ := (largest_of_covered shrinking.1).1
      exact ⟨request, TimeWindowedList.mem_of_window member, same⟩
    · exact absurd (by simp [calculateDesiredPoolSize, grows, shrinks]) changed

/-- A change of size is a change towards the latest request. -/
theorem calculate_follows_latest {earlier : List Request} {latest : Request}
    (values : policy.recentDesiredResizes.values = earlier ++ [latest])
    (noMinimum : policy.recentDesiredResizes.minVals = 0)
    (keepsExpired : policy.recentDesiredResizes.minExpiredVals > 0) :
    (currentPoolSize < (policy.calculateDesiredPoolSize now currentPoolSize).size →
      currentPoolSize < latest.value) ∧
    ((policy.calculateDesiredPoolSize now currentPoolSize).size < currentPoolSize →
      latest.value < currentPoolSize) := by
  have shown (delay : Int) :
      latest ∈ policy.recentDesiredResizes.getValuesInWindow now delay := by
    rw [TimeWindowedList.window_seen _ noMinimum keepsExpired, values]
    exact latest_seen _ _ _
  have above : policy.maxDesiredPoolSize now ≤ latest.value :=
    extreme_dominates minimal (shown policy.resizeUpStabilizationDelay)
  have below : latest.value ≤ policy.minDesiredPoolSize now :=
    extreme_dominates maximal (shown policy.resizeDownStabilizationDelay)
  constructor
  · intro larger
    exact lt_of_lt_of_le ((calculate_grows policy now currentPoolSize).mp larger) above
  · intro smaller
    have exclusive : ¬(currentPoolSize < policy.maxDesiredPoolSize now ∧
        policy.minDesiredPoolSize now < currentPoolSize) := by
      rintro ⟨grows, shrinks⟩
      exact absurd (lt_of_lt_of_le grows above) (lt_asymm (lt_of_le_of_lt below shrinks))
    exact lt_of_le_of_lt below
      ((calculate_shrinks policy now currentPoolSize exclusive).mp smaller)

end Calculation

section History
variable {Double : Type}

inductive Operation where
  | scheduleResize (newSize : JavaInt) (now : Int)
  | abortResize (currentSize : JavaInt) (now : Int)
  | setResizeUpStabilizationDelay (val : Int)
  | setResizeDownStabilizationDelay (val : Int)

def apply (policy : AutoScalerPolicy Double) : Operation → AutoScalerPolicy Double
  | .scheduleResize newSize now => policy.record (.scheduleResize newSize) now
  | .abortResize currentSize now => policy.record (.abortResize currentSize) now
  | .setResizeUpStabilizationDelay val => policy.setResizeUpStabilizationDelay val
  | .setResizeDownStabilizationDelay val => policy.setResizeDownStabilizationDelay val

def requests : List Operation → List Request
  | [] => []
  | .scheduleResize newSize now :: rest => ⟨newSize, now⟩ :: requests rest
  | .abortResize currentSize now :: rest => ⟨currentSize, now⟩ :: requests rest
  | .setResizeUpStabilizationDelay _ :: rest => requests rest
  | .setResizeDownStabilizationDelay _ :: rest => requests rest

/-- The record of a policy constructed with `period`: at any time from its last
request on it retains the history. -/
structure Recorded (policy : AutoScalerPolicy Double) (period : Int) (history : List Request) :
    Prop where
  timePeriod : policy.recentDesiredResizes.timePeriod = period
  minVals : policy.recentDesiredResizes.minVals = 0
  minExpiredVals : policy.recentDesiredResizes.minExpiredVals = 1
  retains : ∀ now, (∀ request ∈ history, request.timestamp ≤ now) →
    policy.recentDesiredResizes.Retains history now

theorem construct_recorded (metricLowerBound metricUpperBound : Double)
    (minPeriodBetweenExecs upDelay downDelay : Int) (minPoolSize maxPoolSize : JavaInt) :
    Recorded (construct metricLowerBound metricUpperBound minPeriodBetweenExecs upDelay downDelay
      minPoolSize maxPoolSize) (max upDelay downDelay) [] :=
  ⟨rfl, rfl, rfl, fun now _ => TimeWindowedList.retains_new _ _ _ now⟩

theorem add_recorded {policy : AutoScalerPolicy Double} {period : Int} {history : List Request}
    (recorded : Recorded policy period history) (size : JavaInt) (timestamp : Int)
    (ordered : ∀ request ∈ history, request.timestamp ≤ timestamp) :
    Recorded { policy with recentDesiredResizes := policy.recentDesiredResizes.add size timestamp }
      period (history ++ [⟨size, timestamp⟩]) where
  timePeriod := recorded.timePeriod
  minVals := recorded.minVals
  minExpiredVals := recorded.minExpiredVals
  retains now past := by
    have retained := TimeWindowedList.add_retains (recorded.retains timestamp ordered) le_rfl size
    exact TimeWindowedList.retains_later retained (past ⟨size, timestamp⟩ (by simp))

theorem run_recorded {policy : AutoScalerPolicy Double} {period : Int} {history : List Request}
    (recorded : Recorded policy period history) (operations : List Operation)
    (ordered : Ordered TimestampedValue.timestamp (history ++ requests operations)) :
    Recorded (operations.foldl apply policy) period (history ++ requests operations) := by
  induction operations generalizing policy history with
  | nil => simpa [requests] using recorded
  | cons operation rest ih =>
      have add (size : JavaInt) (timestamp : Int)
          (ordered : Ordered TimestampedValue.timestamp
            (history ++ ⟨size, timestamp⟩ :: requests rest)) :
          Recorded (rest.foldl apply { policy with
            recentDesiredResizes := policy.recentDesiredResizes.add size timestamp }) period
            (history ++ ⟨size, timestamp⟩ :: requests rest) := by
        have earlier : ∀ request ∈ history, request.timestamp ≤ timestamp := fun request member =>
          (List.pairwise_append.mp ordered).2.2 request member ⟨size, timestamp⟩ (by simp)
        have step := ih (add_recorded recorded size timestamp earlier)
          (by simpa using ordered)
        simpa using step
      cases operation with
      | scheduleResize newSize now => exact add newSize now ordered
      | abortResize currentSize now => exact add currentSize now ordered
      | setResizeUpStabilizationDelay val =>
          have kept : Recorded (policy.setResizeUpStabilizationDelay val) period history :=
            ⟨recorded.timePeriod, recorded.minVals, recorded.minExpiredVals, recorded.retains⟩
          exact ih kept ordered
      | setResizeDownStabilizationDelay val =>
          have kept : Recorded (policy.setResizeDownStabilizationDelay val) period history :=
            ⟨recorded.timePeriod, recorded.minVals, recorded.minExpiredVals, recorded.retains⟩
          exact ih kept ordered

/-- What a window of a pruned record shows: the requests in the window and the
one in effect at its start, less some that a shown request superseded, and those
only for a policy constructed without delays or a window longer than the record. -/
def Considered (period delay now : Int) (history shown : List Request) : Prop :=
  ∃ omitted, seen TimestampedValue.timestamp (now - delay) history = omitted ++ shown ∧
    (omitted ≠ [] → (period ≤ 0 ∨ period < delay) ∧
      ∃ first ∈ shown.head?, ∀ request ∈ omitted, request.timestamp ≤ first.timestamp)

theorem window_considered {policy : AutoScalerPolicy Double} {period : Int}
    {history : List Request} (recorded : Recorded policy period history)
    (ordered : Ordered TimestampedValue.timestamp history) {now : Int}
    (past : ∀ request ∈ history, request.timestamp ≤ now) (delay : Int) :
    Considered period delay now history
      (policy.recentDesiredResizes.getValuesInWindow now delay) := by
  rw [TimeWindowedList.window_seen _ recorded.minVals (by rw [recorded.minExpiredVals]; decide)]
  obtain ⟨dropped, split, counts⟩ := recorded.retains now past
  by_cases whole : dropped = []
  · refine ⟨[], by rw [split, whole]; rfl, fun some => absurd rfl some⟩
  · have expiredLeft : 1 ≤ policy.recentDesiredResizes.expiredValsCount now := by
      simpa [recorded.minExpiredVals] using (counts whole).2
    obtain ⟨old, member, expired⟩ := TimeWindowedList.first_expired expiredLeft
    obtain ⟨omitted, shown, superseded⟩ := seen_of_dropped (split ▸ ordered)
      (now - delay) (List.ne_nil_of_mem member)
    refine ⟨omitted, by rw [split, shown], fun some => ?_⟩
    obtain ⟨_, recent, later⟩ := superseded some
    refine ⟨?_, later⟩
    have oldRecent := recent old member
    simp only [TimeWindowedList.expired, recorded.timePeriod, Bool.or_eq_true, beq_iff_eq,
      decide_eq_true_eq] at expired
    omega

/-- Both windows show the latest request, so they never demand opposite changes. -/
theorem demands_exclusive {policy : AutoScalerPolicy Double} {period : Int}
    {history : List Request} (recorded : Recorded policy period history) (now : Int)
    (currentPoolSize : JavaInt) :
    ¬(Growing (now - policy.resizeUpStabilizationDelay) (policy.upsizeWindowVals now)
        currentPoolSize ∧
      Shrinking (now - policy.resizeDownStabilizationDelay) (policy.downsizeWindowVals now)
        currentPoolSize) := by
  rintro ⟨growing, shrinking⟩
  have keeps : policy.recentDesiredResizes.minExpiredVals > 0 := by
    rw [recorded.minExpiredVals]; decide
  rw [upsizeWindowVals, TimeWindowedList.window_seen _ recorded.minVals keeps] at growing
  rw [downsizeWindowVals, TimeWindowedList.window_seen _ recorded.minVals keeps] at shrinking
  obtain ⟨request, shown⟩ := mem_of_covered growing.1
  rcases List.eq_nil_or_concat' policy.recentDesiredResizes.values with none | ⟨earlier, latest, all⟩
  · rw [none] at shown
    exact absurd (mem_of_seen shown) (by simp)
  · rw [all] at growing shrinking
    have above := growing.2 latest (latest_seen _ _ _)
    have below := shrinking.2 latest (latest_seen _ _ _)
    exact absurd above (lt_asymm below)

theorem resize_follows_considered_requests (metricLowerBound metricUpperBound : Double)
    (minPeriodBetweenExecs upDelay downDelay : Int) (minPoolSize maxPoolSize : JavaInt)
    (operations : List Operation) (now : Int) (currentPoolSize : JavaInt)
    (ordered : Ordered TimestampedValue.timestamp (requests operations))
    (past : ∀ request ∈ requests operations, request.timestamp ≤ now) :
    let policy := operations.foldl apply (construct metricLowerBound metricUpperBound
      minPeriodBetweenExecs upDelay downDelay minPoolSize maxPoolSize)
    let period := max upDelay downDelay
    let up := policy.resizeUpStabilizationDelay
    let down := policy.resizeDownStabilizationDelay
    let size := (policy.calculateDesiredPoolSize now currentPoolSize).size
    ∃ grow shrink, Considered period up now (requests operations) grow ∧
      Considered period down now (requests operations) shrink ∧
      (currentPoolSize < size ↔ Growing (now - up) grow currentPoolSize) ∧
      (size < currentPoolSize ↔ Shrinking (now - down) shrink currentPoolSize) ∧
      (currentPoolSize < size → Smallest grow size) ∧
      (size < currentPoolSize → Largest shrink size) ∧
      ¬(Growing (now - up) grow currentPoolSize ∧
        Shrinking (now - down) shrink currentPoolSize) := by
  intro policy period up down size
  have recorded : Recorded policy period (requests operations) := by
    simpa using run_recorded (construct_recorded metricLowerBound metricUpperBound
      minPeriodBetweenExecs upDelay downDelay minPoolSize maxPoolSize) operations
      (by simpa using ordered)
  -- The source tests for growth first, so what a shrink needs is that both never hold.
  have exclusive := demands_exclusive recorded now currentPoolSize
  have growth : currentPoolSize < policy.maxDesiredPoolSize now ↔
      Growing (now - up) (policy.upsizeWindowVals now) currentPoolSize := growing_iff _ _ _ _
  have shrinkage : policy.minDesiredPoolSize now < currentPoolSize ↔
      Shrinking (now - down) (policy.downsizeWindowVals now) currentPoolSize :=
    shrinking_iff _ _ _ _
  have grows : currentPoolSize < size ↔ currentPoolSize < policy.maxDesiredPoolSize now :=
    calculate_grows policy now currentPoolSize
  have shrinks : size < currentPoolSize ↔ policy.minDesiredPoolSize now < currentPoolSize :=
    calculate_shrinks policy now currentPoolSize
      (fun both => exclusive ⟨growth.mp both.1, shrinkage.mp both.2⟩)
  refine ⟨policy.upsizeWindowVals now, policy.downsizeWindowVals now,
    window_considered recorded ordered past up, window_considered recorded ordered past down,
    grows.trans growth, shrinks.trans shrinkage, ?_, ?_, exclusive⟩
  · intro larger
    have demanded := grows.mp larger
    have grown : size = policy.maxDesiredPoolSize now :=
      calculate_growth policy now currentPoolSize demanded
    rw [grown]
    exact smallest_of_covered (growth.mp demanded).1
  · intro smaller
    have demanded := shrinks.mp smaller
    have shrunk : size = policy.minDesiredPoolSize now :=
      calculate_shrinkage policy now currentPoolSize
        (fun both => exclusive ⟨growth.mp both, shrinkage.mp demanded⟩) demanded
    rw [shrunk]
    exact largest_of_covered (shrinkage.mp demanded).1

/-- Up delay 20, down delay 10: the request at 0 is in effect when both windows open. -/
def steadyRequests : List Operation :=
  [.scheduleResize 4 0, .abortResize 6 30, .scheduleResize 5 40]

theorem steady_requests_considered :
    let policy := steadyRequests.foldl apply (construct (1 : ℚ) 2 100 20 10
      1 9)
    let size := (policy.calculateDesiredPoolSize 45 3).size
    ∃ grow shrink, Considered 20 20 45 (requests steadyRequests) grow ∧
      Considered 20 10 45 (requests steadyRequests) shrink ∧
      (3 < size ↔ Growing (45 - 20) grow 3) ∧
      (size < 3 ↔ Shrinking (45 - 10) shrink 3) ∧
      (3 < size → Smallest grow size) ∧
      (size < 3 → Largest shrink size) ∧
      ¬(Growing (45 - 20) grow 3 ∧ Shrinking (45 - 10) shrink 3) :=
  resize_follows_considered_requests (1 : ℚ) 2 100 20 10 1 9
    steadyRequests 45 3
    (by simp [Ordered, steadyRequests, requests]) (by simp [steadyRequests, requests])

/-- Without delays only the latest of the requests made at one instant counts. -/
theorem zero_delays_ignore_request_in_window :
    let operations : List Operation :=
      [.scheduleResize 3 5, .scheduleResize 7 5]
    let policy := operations.foldl apply (construct (1 : ℚ) 2 100 0 0
      1 9)
    (policy.calculateDesiredPoolSize 5 5).size = 7 ∧
      ∃ request ∈ since TimestampedValue.timestamp (5 - 0) (requests operations),
        request.value < 5 := by
  decide

end History
end Brooklyn.AutoScalerPolicy
