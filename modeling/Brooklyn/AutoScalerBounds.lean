import Brooklyn.AutoScalerRuns

/-!
The sizes passed to the resize operator against the bounds in force. A size is
clamped when a request is recorded and not again when it is carried out, and the
sizes recorded to stop a resize are not clamped at all. So the bounds hold in the
runs where neither a reported size nor a setter puts a recorded size outside them.
-/

namespace Brooklyn.AutoScalerPolicy
open Transition

section Calls
variable {Double : Type}

structure WithinBounds (run : Run Double) : Prop where
  ordered : run.policy.minPoolSize ≤ run.policy.maxPoolSize
  recorded : ∀ request ∈ run.policy.recentDesiredResizes.values,
    run.policy.minPoolSize ≤ request.value ∧ request.value ≤ run.policy.maxPoolSize
  resized : ∀ call ∈ run.resizes,
    call.minPoolSize ≤ call.desiredPoolSize ∧ call.desiredPoolSize ≤ call.maxPoolSize

theorem execute_within {run : Run Double} (within : WithinBounds run) (currentPoolSize : JavaInt)
    (now : Int) : WithinBounds (run.execute currentPoolSize now) := by
  refine ⟨by simpa using within.ordered, by simpa using within.recorded, ?_⟩
  intro call called
  rcases execute_resizes run currentPoolSize now called with old | ⟨rfl, changed⟩
  · exact within.resized call old
  · obtain ⟨request, member, same⟩ := calculate_requested run.policy now currentPoolSize changed
    rw [← same]
    exact within.recorded request member

end Calls

section Bounds
variable {Double : Type} [JavaDouble Double]

def inBounds (policy : AutoScalerPolicy Double) (size : JavaInt) : Bool :=
  decide (policy.minPoolSize ≤ size) && decide (size ≤ policy.maxPoolSize)

/-- The setters keep `minPoolSize ≤ maxPoolSize`. -/
def orderedBounds (run : Run Double) : Action Double → Bool
  | .setMinPoolSize val => decide (val ≤ run.policy.maxPoolSize)
  | .setMaxPoolSize val => decide (run.policy.minPoolSize ≤ val)
  | _ => true

/-- An event that is answered by recording the pool's size reports a size within
the bounds, and new bounds admit every size still recorded. -/
def sizesInBounds (run : Run Double) : Action Double → Bool
  | .event event _ =>
      match run.policy.respond event with
      | some (.abortResize currentSize) => run.policy.inBounds currentSize
      | _ => true
  | .setMinPoolSize val =>
      run.policy.recentDesiredResizes.values.all fun request => decide (val ≤ request.value)
  | .setMaxPoolSize val =>
      run.policy.recentDesiredResizes.values.all fun request => decide (request.value ≤ val)
  | _ => true

def boundsGuard (run : Run Double) (action : Action Double) : Bool :=
  orderedBounds run action && sizesInBounds run action

/-- A scheduled size was clamped. -/
theorem scheduled_bounded {policy : AutoScalerPolicy Double} {event : Event Double}
    {newSize : JavaInt} (responded : policy.respond event = some (.scheduleResize newSize)) :
    ∃ size, newSize = policy.toBoundedDesiredPoolSize size := by
  cases event with
  | metric currentSize val =>
      simp only [respond, onMetricChanged, Option.some.injEq] at responded
      split at responded
      · split at responded
        · cases responded
          exact ⟨_, rfl⟩
        · cases responded
      · split at responded
        · split at responded
          · cases responded
            unfold scaleBackSize
            dsimp only
            split
            · exact ⟨_, rfl⟩
            · exact ⟨_, rfl⟩
          · cases responded
        · cases responded
  | poolCold properties =>
      simp only [respond, onPoolCold, Option.bind_eq_bind, Option.bind_eq_some_iff] at responded
      obtain ⟨size, _, rate, _, threshold, _, answered⟩ := responded
      split at answered
      · cases answered
        exact ⟨_, rfl⟩
      · cases answered
  | poolHot properties =>
      simp only [respond, onPoolHot, Option.bind_eq_bind, Option.bind_eq_some_iff] at responded
      obtain ⟨size, _, rate, _, threshold, _, answered⟩ := responded
      split at answered
      · cases answered
        exact ⟨_, rfl⟩
      · cases answered
  | poolOk properties =>
      simp only [respond, onPoolOk, Option.bind_eq_bind, Option.bind_eq_some_iff] at responded
      obtain ⟨size, _, answered⟩ := responded
      cases answered

theorem recorded_in_bounds {run : Run Double} {event : Event Double} {now : Int}
    {response : Response} {size : JavaInt}
    (ordered : run.policy.minPoolSize ≤ run.policy.maxPoolSize)
    (allowed : sizesInBounds run (.event event now) = true)
    (responded : run.policy.respond event = some response)
    (sized : recorded response = some size) :
    run.policy.minPoolSize ≤ size ∧ size ≤ run.policy.maxPoolSize := by
  cases response with
  | scheduleResize newSize =>
      cases sized
      obtain ⟨asked, rfl⟩ := scheduled_bounded responded
      exact ⟨le_min ordered (le_max_left _ _), min_le_left _ _⟩
  | abortResize currentSize =>
      cases sized
      simpa [sizesInBounds, responded, inBounds] using allowed
  | nothing => cases sized

theorem event_within {run : Run Double} (within : WithinBounds run) (event : Event Double)
    (now : Int) (allowed : sizesInBounds run (.event event now) = true) :
    WithinBounds (run.onEvent event now) := by
  unfold Run.onEvent
  split
  · next response responded =>
    refine ⟨by simpa using within.ordered, ?_, by simpa using within.resized⟩
    intro request member
    simp only [handle_policy, record_minPoolSize, record_maxPoolSize] at member ⊢
    rcases mem_of_mem_record member with old | sized
    · exact within.recorded request old
    · exact recorded_in_bounds within.ordered allowed responded sized
  · exact within

theorem step_within {before after : Run Double} {action : Action Double}
    (within : WithinBounds before) (allowed : boundsGuard before action = true)
    (moved : step before action = some after) : WithinBounds after := by
  obtain ⟨ordered, sizes⟩ := Bool.and_eq_true_iff.mp allowed
  cases action with
  | event event now =>
      cases moved
      exact event_within within event now sizes
  | setMinPoolSize val =>
      cases moved
      refine ⟨of_decide_eq_true ordered, fun request member => ⟨?_, ?_⟩, within.resized⟩
      · exact of_decide_eq_true (List.all_eq_true.mp sizes request member)
      · exact (within.recorded request member).2
  | setMaxPoolSize val =>
      cases moved
      refine ⟨of_decide_eq_true ordered, fun request member => ⟨?_, ?_⟩, within.resized⟩
      · exact (within.recorded request member).1
      · exact of_decide_eq_true (List.all_eq_true.mp sizes request member)
  | execute currentPoolSize now =>
      simp only [step] at moved
      split at moved
      · cases moved
      · cases moved
        exact execute_within within currentPoolSize now
  | _ =>
      cases moved
      exact ⟨within.ordered, within.recorded, within.resized⟩

theorem resizes_within_bounds (metricLowerBound metricUpperBound : Double)
    (minPeriodBetweenExecs upDelay downDelay : Int) (minPoolSize maxPoolSize : JavaInt)
    (ordered : minPoolSize ≤ maxPoolSize) {run : Run Double}
    (reached : Reached (system (construct metricLowerBound metricUpperBound minPeriodBetweenExecs
      upDelay downDelay minPoolSize maxPoolSize)) boundsGuard run) :
    ∀ call ∈ run.resizes,
      call.minPoolSize ≤ call.desiredPoolSize ∧ call.desiredPoolSize ≤ call.maxPoolSize := by
  have within : WithinBounds run := by
    refine reached_invariant WithinBounds ⟨ordered, ?_, ?_⟩ ?_ reached
    · intro request member
      cases member
    · intro call member
      cases member
    · intro before action after _ within allowed moved
      exact step_within within allowed moved
  exact within.resized

end Bounds

section Schedules

theorem hot_pool_resized_within_bounds :
    ∃ run, (Reached (system emptyPool) boundsGuard run ∧ run.resizes ≠ []) ∧
      ∀ call ∈ run.resizes,
        call.minPoolSize ≤ call.desiredPoolSize ∧ call.desiredPoolSize ≤ call.maxPoolSize := by
  obtain ⟨run, reached, resized⟩ := replay_shows (system emptyPool) boundsGuard
    [.event hotPool 1000, .execute 2 1200]
    (fun run => !run.resizes.isEmpty) (by decide +kernel)
  exact ⟨run, ⟨reached, by simpa using resized⟩,
    resizes_within_bounds 10 20 100 0 0 1 20 (by decide) reached⟩

/-- A request recorded before the upper bound was lowered is still carried out. -/
theorem lowered_bound_exceeded :
    ∃ run, Reached (system emptyPool) orderedBounds run ∧
      ∃ call ∈ run.resizes, call.maxPoolSize < call.desiredPoolSize := by
  obtain ⟨run, reached, exceeded⟩ := replay_shows (system emptyPool) orderedBounds
    [.event hotPool 1000, .setMaxPoolSize 5, .execute 2 1200]
    (fun run => run.resizes.any fun call => decide (call.maxPoolSize < call.desiredPoolSize))
    (by decide +kernel)
  obtain ⟨call, member, larger⟩ := List.any_eq_true.mp exceeded
  exact ⟨run, reached, call, member, of_decide_eq_true larger⟩

end Schedules
end Brooklyn.AutoScalerPolicy
