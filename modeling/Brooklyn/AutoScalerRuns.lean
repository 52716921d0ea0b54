import Brooklyn.AutoScalerStabilization
import Brooklyn.Transition

/-!
Runs of a running `AutoScalerPolicy`: events, setters, the entity going up or
down, and executions of the queued resize tasks, each one atomic. Times and the
pool sizes the entity reports are inputs of the actions. A queued task may run at
any time, so the delay it is scheduled with is left out. `latest` and `resizes`
are history: the pool size and the desired size of the last event, and the calls
of the resize operator with the bounds in force.
-/

namespace Brooklyn.AutoScalerPolicy
open Transition

inductive Event (Double : Type) where
  | metric (currentSize : JavaInt) (val : Double)
  | poolCold (properties : PoolProperties Double)
  | poolHot (properties : PoolProperties Double)
  | poolOk (properties : PoolProperties Double)

structure Answer where
  poolSize : JavaInt
  desired : JavaInt

structure Resize where
  currentPoolSize : JavaInt
  desiredPoolSize : JavaInt
  minPoolSize : JavaInt
  maxPoolSize : JavaInt
  latest : Option Answer

structure Run (Double : Type) where
  policy : AutoScalerPolicy Double
  entityUp : Bool
  executorQueued : Bool
  queued : Nat
  latest : Option Answer
  resizes : List Resize

inductive Action (Double : Type) where
  | event (event : Event Double) (now : Int)
  | setMetricLowerBound (val : Double)
  | setMetricUpperBound (val : Double)
  | setResizeUpStabilizationDelay (val : Int)
  | setResizeDownStabilizationDelay (val : Int)
  | setMinPoolSize (val : JavaInt)
  | setMaxPoolSize (val : JavaInt)
  | setEntityUp (up : Bool)
  | execute (currentPoolSize : JavaInt) (now : Int)

section Tasks
variable {Double : Type}

def Run.scheduleResize (run : Run Double) : Run Double :=
  if !run.executorQueued then
    if run.entityUp then { run with executorQueued := true, queued := run.queued + 1 }
    else { run with executorQueued := true }
  else run

def Run.handle (run : Run Double) (response : Response) (now : Int) : Run Double :=
  let recorded := { run with policy := run.policy.record response now }
  match response with
  | .scheduleResize _ => recorded.scheduleResize
  | .abortResize _ => recorded
  | .nothing => recorded

def Run.execute (run : Run Double) (currentPoolSize : JavaInt) (now : Int) : Run Double :=
  let started := { run with queued := run.queued - 1, executorQueued := false }
  let calculated := run.policy.calculateDesiredPoolSize now currentPoolSize
  let rechecked := if calculated.stable then started else started.scheduleResize
  if currentPoolSize = calculated.size then rechecked
  else { rechecked with resizes := ⟨currentPoolSize, calculated.size, run.policy.minPoolSize,
    run.policy.maxPoolSize, run.latest⟩ :: run.resizes }

@[simp] theorem scheduleResize_policy (run : Run Double) :
    run.scheduleResize.policy = run.policy := by
  unfold Run.scheduleResize; split <;> [split; skip] <;> rfl

@[simp] theorem scheduleResize_latest (run : Run Double) :
    run.scheduleResize.latest = run.latest := by
  unfold Run.scheduleResize; split <;> [split; skip] <;> rfl

@[simp] theorem scheduleResize_resizes (run : Run Double) :
    run.scheduleResize.resizes = run.resizes := by
  unfold Run.scheduleResize; split <;> [split; skip] <;> rfl

@[simp] theorem handle_policy (run : Run Double) (response : Response) (now : Int) :
    (run.handle response now).policy = run.policy.record response now := by
  cases response <;> simp [Run.handle]

@[simp] theorem handle_resizes (run : Run Double) (response : Response) (now : Int) :
    (run.handle response now).resizes = run.resizes := by
  cases response <;> simp [Run.handle]

@[simp] theorem execute_policy (run : Run Double) (currentPoolSize : JavaInt) (now : Int) :
    (run.execute currentPoolSize now).policy = run.policy := by
  unfold Run.execute
  dsimp only
  split <;> split <;> simp

@[simp] theorem execute_latest (run : Run Double) (currentPoolSize : JavaInt) (now : Int) :
    (run.execute currentPoolSize now).latest = run.latest := by
  unfold Run.execute
  dsimp only
  split <;> split <;> simp

/-- An execution calls the operator with the calculated size, or not at all. -/
theorem execute_resizes (run : Run Double) (currentPoolSize : JavaInt) (now : Int) {call : Resize}
    (called : call ∈ (run.execute currentPoolSize now).resizes) :
    call ∈ run.resizes ∨
      (call = ⟨currentPoolSize, (run.policy.calculateDesiredPoolSize now currentPoolSize).size,
          run.policy.minPoolSize, run.policy.maxPoolSize, run.latest⟩ ∧
        currentPoolSize ≠ (run.policy.calculateDesiredPoolSize now currentPoolSize).size) := by
  by_cases same : currentPoolSize = (run.policy.calculateDesiredPoolSize now currentPoolSize).size
  · left
    unfold Run.execute at called
    dsimp only at called
    rw [if_pos same] at called
    split at called <;> simpa using called
  · unfold Run.execute at called
    dsimp only at called
    rw [if_neg same] at called
    rcases List.mem_cons.mp called with new | old
    · exact Or.inr ⟨new, same⟩
    · exact Or.inl old

theorem mem_of_mem_record {policy : AutoScalerPolicy Double} {response : Response} {now : Int}
    {request : Request}
    (member : request ∈ (policy.record response now).recentDesiredResizes.values) :
    request ∈ policy.recentDesiredResizes.values ∨ recorded response = some request.value := by
  unfold record at member
  split at member
  · next size sized =>
    rcases TimeWindowedList.mem_of_mem_add member with old | rfl
    · exact Or.inl old
    · exact Or.inr sized
  · exact Or.inl member

@[simp] theorem record_minPoolSize (policy : AutoScalerPolicy Double) (response : Response)
    (now : Int) : (policy.record response now).minPoolSize = policy.minPoolSize := by
  unfold record; split <;> rfl

@[simp] theorem record_maxPoolSize (policy : AutoScalerPolicy Double) (response : Response)
    (now : Int) : (policy.record response now).maxPoolSize = policy.maxPoolSize := by
  unfold record; split <;> rfl

@[simp] theorem record_minVals (policy : AutoScalerPolicy Double) (response : Response)
    (now : Int) : (policy.record response now).recentDesiredResizes.minVals =
      policy.recentDesiredResizes.minVals := by
  unfold record; split <;> rfl

@[simp] theorem record_minExpiredVals (policy : AutoScalerPolicy Double) (response : Response)
    (now : Int) : (policy.record response now).recentDesiredResizes.minExpiredVals =
      policy.recentDesiredResizes.minExpiredVals := by
  unfold record; split <;> rfl

end Tasks

section Steps
variable {Double : Type} [JavaDouble Double]

def respond (policy : AutoScalerPolicy Double) : Event Double → Option Response
  | .metric currentSize val => some (policy.onMetricChanged currentSize val)
  | .poolCold properties => policy.onPoolCold properties
  | .poolHot properties => policy.onPoolHot properties
  | .poolOk properties => onPoolOk properties

/-- The desired size an event computes, clamped to the bounds: the current size
for a metric in the healthy range and for a pool that is ok. -/
def answer (policy : AutoScalerPolicy Double) : Event Double → Option Answer
  | .metric currentSize val =>
      let currentTotalActivity := ((currentSize : Int) : Double) * val
      if policy.metricUpperBound < val then
        some ⟨currentSize, policy.scaleOutSize currentTotalActivity⟩
      else if val < policy.metricLowerBound then
        some ⟨currentSize, policy.scaleBackSize currentTotalActivity⟩
      else some ⟨currentSize, currentSize⟩
  | .poolCold properties => do
      let size ← properties.currentSize
      return ⟨size, policy.poolSizeAt size (← properties.currentWorkrate) (← properties.lowThreshold)⟩
  | .poolHot properties => do
      let size ← properties.currentSize
      return ⟨size, policy.poolSizeAt size (← properties.currentWorkrate) (← properties.highThreshold)⟩
  | .poolOk properties => do
      let size ← properties.currentSize
      return ⟨size, size⟩

/-- A handler that throws leaves the policy as it was. -/
def Run.onEvent (run : Run Double) (event : Event Double) (now : Int) : Run Double :=
  match run.policy.respond event with
  | some response => { run.handle response now with latest := run.policy.answer event }
  | none => run

def step (run : Run Double) : Action Double → Option (Run Double)
  | .event event now => some (run.onEvent event now)
  | .setMetricLowerBound val => some { run with policy := run.policy.setMetricLowerBound val }
  | .setMetricUpperBound val => some { run with policy := run.policy.setMetricUpperBound val }
  | .setResizeUpStabilizationDelay val =>
      some { run with policy := run.policy.setResizeUpStabilizationDelay val }
  | .setResizeDownStabilizationDelay val =>
      some { run with policy := run.policy.setResizeDownStabilizationDelay val }
  | .setMinPoolSize val => some { run with policy := run.policy.setMinPoolSize val }
  | .setMaxPoolSize val => some { run with policy := run.policy.setMaxPoolSize val }
  | .setEntityUp up => some { run with entityUp := up }
  | .execute currentPoolSize now =>
      if run.queued = 0 then none else some (run.execute currentPoolSize now)

def system (policy : AutoScalerPolicy Double) : System (Run Double) (Action Double) :=
  ⟨⟨policy, true, false, 0, none, []⟩, step⟩

end Steps

section Schedules

def emptyPool : AutoScalerPolicy ℚ :=
  construct 10 20 100 0 0 1 20

/-- Two containers at a workrate of 20 each, where each carries 4. -/
def hotPool : Event ℚ :=
  .poolHot ⟨some 2, some 40, some 4, some 8⟩

end Schedules
end Brooklyn.AutoScalerPolicy
