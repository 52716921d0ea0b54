import Brooklyn.AutoScalerRuns

/-!
Executions against the latest event. The latest recorded size is never pruned and
is shown by both stabilization windows, so a resize only moves towards it. An
event that records its answer therefore cancels older opposite requests. A metric
outside the healthy range records nothing when the bounds leave no room beyond the
current size; the pool events record the current size there.
-/

namespace Brooklyn.AutoScalerPolicy
open Transition

section Executions
variable {Double : Type}

/-- A call moves the pool the way the event before it asked for, when the pool
still has the size it had at that event. -/
def FollowsAnswer (call : Resize) : Prop :=
  ∀ answer, call.latest = some answer → answer.poolSize = call.currentPoolSize →
    (call.desiredPoolSize < call.currentPoolSize → answer.desired < call.currentPoolSize) ∧
    (call.currentPoolSize < call.desiredPoolSize → call.currentPoolSize < answer.desired)

structure FollowsLatest (run : Run Double) : Prop where
  minVals : run.policy.recentDesiredResizes.minVals = 0
  minExpiredVals : run.policy.recentDesiredResizes.minExpiredVals > 0
  traced : ∀ answer, run.latest = some answer → ∃ earlier request,
    run.policy.recentDesiredResizes.values = earlier ++ [request] ∧
      (request.value = answer.desired ∨ request.value = answer.poolSize)
  resized : ∀ call ∈ run.resizes, FollowsAnswer call

theorem execute_follows {run : Run Double} (follows : FollowsLatest run)
    (currentPoolSize : JavaInt) (now : Int) : FollowsLatest (run.execute currentPoolSize now) := by
  refine ⟨by simpa using follows.minVals, by simpa using follows.minExpiredVals,
    by simpa using follows.traced, ?_⟩
  intro call called
  rcases execute_resizes run currentPoolSize now called with old | ⟨rfl, _⟩
  · exact follows.resized call old
  · intro answer last same
    change answer.poolSize = currentPoolSize at same
    obtain ⟨earlier, request, values, recorded⟩ := follows.traced answer last
    obtain ⟨grows, shrinks⟩ := calculate_follows_latest run.policy now currentPoolSize values
      follows.minVals follows.minExpiredVals
    rcases recorded with desired | kept
    · exact ⟨fun smaller => desired ▸ shrinks smaller, fun larger => desired ▸ grows larger⟩
    · constructor
      · intro smaller
        exact absurd (shrinks smaller) (by rw [kept, same]; exact lt_irrefl _)
      · intro larger
        exact absurd (grows larger) (by rw [kept, same]; exact lt_irrefl _)

theorem pool_event_traced {size desired : JavaInt}
    {response : Response} {test : Prop} [Decidable test]
    (answered : (if test then some (Response.scheduleResize desired)
      else some (Response.abortResize size)) = some response) :
    recorded response = some desired ∨ recorded response = some size := by
  split at answered
  · cases answered
    exact Or.inl rfl
  · cases answered
    exact Or.inr rfl

end Executions

section Events
variable {Double : Type} [JavaDouble Double]

/-- A metric outside the healthy range asks for a size beyond the current one,
also after clamping. -/
def metricAnswered (run : Run Double) : Action Double → Bool
  | .event (.metric currentSize val) _ =>
      let currentTotalActivity := ((currentSize : Int) : Double) * val
      if run.policy.metricUpperBound < val then
        decide (currentSize < run.policy.scaleOutSize currentTotalActivity)
      else if val < run.policy.metricLowerBound then
        decide (run.policy.scaleBackSize currentTotalActivity < currentSize)
      else true
  | _ => true

theorem metric_traced {run : Run Double} {currentSize : JavaInt} {val : Double} {now : Int}
    {answer : Answer}
    (allowed : metricAnswered run (.event (.metric currentSize val) now) = true)
    (answered : run.policy.answer (.metric currentSize val) = some answer) :
    recorded (run.policy.onMetricChanged currentSize val) = some answer.desired ∨
      recorded (run.policy.onMetricChanged currentSize val) = some answer.poolSize := by
  simp only [metricAnswered] at allowed
  simp only [AutoScalerPolicy.answer] at answered
  simp only [onMetricChanged]
  split at allowed
  · next high =>
    rw [if_pos high] at answered ⊢
    rw [if_pos (of_decide_eq_true allowed)]
    cases answered
    exact Or.inl rfl
  · next notHigh =>
    rw [if_neg notHigh] at answered ⊢
    split at allowed
    · next low =>
      rw [if_pos low] at answered ⊢
      rw [if_pos (of_decide_eq_true allowed)]
      cases answered
      exact Or.inl rfl
    · next healthy =>
      rw [if_neg healthy] at answered ⊢
      cases answered
      exact Or.inr rfl

/-- An event records the size it desires or the size the pool has. -/
theorem event_traced {run : Run Double} {event : Event Double} {now : Int} {response : Response}
    {answer : Answer} (allowed : metricAnswered run (.event event now) = true)
    (responded : run.policy.respond event = some response)
    (answered : run.policy.answer event = some answer) :
    recorded response = some answer.desired ∨ recorded response = some answer.poolSize := by
  cases event with
  | metric currentSize val =>
      cases responded
      exact metric_traced allowed answered
  | poolCold properties =>
      simp only [respond, onPoolCold, Option.bind_eq_bind, Option.bind_eq_some_iff] at responded
      obtain ⟨size, sized, rate, rated, threshold, limited, responded⟩ := responded
      simp only [AutoScalerPolicy.answer, sized, rated, limited, Option.bind_eq_bind,
        Option.bind_some, Option.pure_def, Option.some.injEq] at answered
      subst answered
      exact pool_event_traced responded
  | poolHot properties =>
      simp only [respond, onPoolHot, Option.bind_eq_bind, Option.bind_eq_some_iff] at responded
      obtain ⟨size, sized, rate, rated, threshold, limited, responded⟩ := responded
      simp only [AutoScalerPolicy.answer, sized, rated, limited, Option.bind_eq_bind,
        Option.bind_some, Option.pure_def, Option.some.injEq] at answered
      subst answered
      exact pool_event_traced responded
  | poolOk properties =>
      simp only [respond, onPoolOk, Option.bind_eq_bind, Option.bind_eq_some_iff] at responded
      obtain ⟨size, sized, responded⟩ := responded
      simp only [AutoScalerPolicy.answer, sized, Option.bind_eq_bind, Option.bind_some,
        Option.pure_def, Option.some.injEq] at answered responded
      subst answered
      subst responded
      exact Or.inr rfl

theorem event_follows {run : Run Double} (follows : FollowsLatest run) (event : Event Double)
    (now : Int) (allowed : metricAnswered run (.event event now) = true) :
    FollowsLatest (run.onEvent event now) := by
  unfold Run.onEvent
  split
  · next response responded =>
    refine ⟨?_, ?_, ?_, by simpa using follows.resized⟩
    · simpa using follows.minVals
    · simpa using follows.minExpiredVals
    · intro answer answered
      have recordedSize := event_traced allowed responded answered
      obtain ⟨size, sized, same⟩ : ∃ size, recorded response = some size ∧
          (size = answer.desired ∨ size = answer.poolSize) := by
        rcases recordedSize with sized | sized
        · exact ⟨_, sized, Or.inl rfl⟩
        · exact ⟨_, sized, Or.inr rfl⟩
      obtain ⟨earlier, values⟩ := TimeWindowedList.add_keeps_latest
        run.policy.recentDesiredResizes follows.minExpiredVals size now
      refine ⟨earlier, ⟨size, now⟩, ?_, same⟩
      simpa [record, sized] using values
  · exact follows

theorem step_follows {before after : Run Double} {action : Action Double}
    (follows : FollowsLatest before) (allowed : metricAnswered before action = true)
    (moved : step before action = some after) : FollowsLatest after := by
  cases action with
  | event event now =>
      cases moved
      exact event_follows follows event now allowed
  | execute currentPoolSize now =>
      simp only [step] at moved
      split at moved
      · cases moved
      · cases moved
        exact execute_follows follows currentPoolSize now
  | _ =>
      cases moved
      exact ⟨follows.minVals, follows.minExpiredVals, follows.traced, follows.resized⟩

theorem resizes_follow_latest_event (metricLowerBound metricUpperBound : Double)
    (minPeriodBetweenExecs upDelay downDelay : Int) (minPoolSize maxPoolSize : JavaInt)
    {run : Run Double}
    (reached : Reached (system (construct metricLowerBound metricUpperBound minPeriodBetweenExecs
      upDelay downDelay minPoolSize maxPoolSize)) metricAnswered run) :
    ∀ call ∈ run.resizes, FollowsAnswer call := by
  have follows : FollowsLatest run := by
    refine reached_invariant FollowsLatest ⟨rfl, Nat.one_pos, ?_, ?_⟩ ?_ reached
    · intro answer none
      cases none
    · intro call member
      cases member
    · intro before action after _ follows allowed moved
      exact step_follows follows allowed moved
  exact follows.resized

end Events

section Schedules

def fullPool : AutoScalerPolicy ℚ :=
  construct 10 20 100 0 0 1 5

/-- Five containers at a workrate of 8, where each is cold below 4. -/
def coldPool : Event ℚ :=
  .poolCold ⟨some 5, some 8, some 20, some 40⟩

theorem cold_pool_follows_latest_event :
    ∃ run, (Reached (system fullPool) metricAnswered run ∧ run.resizes ≠ []) ∧
      ∀ call ∈ run.resizes, FollowsAnswer call := by
  obtain ⟨run, reached, resized⟩ := replay_shows (system fullPool) metricAnswered
    [.event coldPool 1000, .execute 5 1200]
    (fun run => !run.resizes.isEmpty) (by decide +kernel)
  exact ⟨run, ⟨reached, by simpa using resized⟩,
    resizes_follow_latest_event 10 20 100 0 0 1 5 reached⟩

def shrinksAgainst (call : Resize) : Bool :=
  match call.latest with
  | some answer => decide (answer.poolSize = call.currentPoolSize) &&
      decide (call.desiredPoolSize < call.currentPoolSize) &&
      decide (call.currentPoolSize ≤ answer.desired)
  | none => false

theorem not_follows_of_shrinksAgainst {call : Resize} (against : shrinksAgainst call = true) :
    ¬FollowsAnswer call := by
  unfold shrinksAgainst at against
  split at against
  · next answer last =>
    simp only [Bool.and_eq_true, decide_eq_true_eq] at against
    obtain ⟨⟨same, smaller⟩, kept⟩ := against
    intro follows
    exact absurd ((follows answer last same).1 smaller) (not_lt.mpr kept)
  · cases against

/-- A pool at its maximum shrinks although the metric was last seen far above its
upper bound. -/
theorem hot_metric_at_maximum_shrinks :
    ∃ run, Reached (system fullPool) anyStep run ∧ ∃ call ∈ run.resizes, ¬FollowsAnswer call := by
  obtain ⟨run, reached, against⟩ := replay_shows (system fullPool) anyStep
    [.event coldPool 1000, .event (.metric 5 100) 1100,
      .execute 5 1200]
    (fun run => run.resizes.any shrinksAgainst) (by decide +kernel)
  obtain ⟨call, member, shrinks⟩ := List.any_eq_true.mp against
  exact ⟨run, reached, call, member, not_follows_of_shrinksAgainst shrinks⟩

end Schedules
end Brooklyn.AutoScalerPolicy
