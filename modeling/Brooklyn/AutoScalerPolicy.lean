import Brooklyn.JavaNumber
import Brooklyn.TimeWindowedList

/-!
`AutoScalerPolicy`: the event handlers, the record of desired sizes and the
stabilization. A handler's `Response` is what it does with its answer; `none` is a
handler that throws, because the event lacks a property it unboxes. Which handler
runs is decided by the sensor, where sensors are equal by type, name and
description. `calculateDesiredPoolSize` and the two window functions read the
clock one after the other; the model reads one instant `now`. Logging, the
rebinding flags and the subscription set-up are left out, and so is what happens
when the metric bounds were never set.
-/

namespace Brooklyn

structure AutoScalerPolicy (Double : Type) where
  metricLowerBound : Double
  metricUpperBound : Double
  minPeriodBetweenExecs : Int
  resizeUpStabilizationDelay : Int
  resizeDownStabilizationDelay : Int
  minPoolSize : JavaInt
  maxPoolSize : JavaInt
  recentDesiredResizes : TimeWindowedList JavaInt

structure PoolProperties (Double : Type) where
  currentSize : Option JavaInt
  currentWorkrate : Option Double
  lowThreshold : Option Double
  highThreshold : Option Double

inductive Response where
  | scheduleResize (newSize : JavaInt)
  | abortResize (currentSize : JavaInt)
  | nothing
deriving DecidableEq

structure CalculatedDesiredPoolSize where
  size : JavaInt
  stable : Bool
deriving DecidableEq

namespace AutoScalerPolicy

section Configuration
variable {Double : Type}

/-- The constructor: the history covers the longer of the two delays, and it
always keeps one value from before. -/
def construct (metricLowerBound metricUpperBound : Double) (minPeriodBetweenExecs
    resizeUpStabilizationDelay resizeDownStabilizationDelay : Int)
    (minPoolSize maxPoolSize : JavaInt) : AutoScalerPolicy Double :=
  let maxResizeStabilizationDelay := max resizeUpStabilizationDelay resizeDownStabilizationDelay
  { metricLowerBound, metricUpperBound, minPeriodBetweenExecs, resizeUpStabilizationDelay,
    resizeDownStabilizationDelay, minPoolSize, maxPoolSize
    recentDesiredResizes := .new maxResizeStabilizationDelay 0 1 }

def setMetricLowerBound (policy : AutoScalerPolicy Double) (val : Double) :=
  { policy with metricLowerBound := val }

def setMetricUpperBound (policy : AutoScalerPolicy Double) (val : Double) :=
  { policy with metricUpperBound := val }

def setMinPeriodBetweenExecs (policy : AutoScalerPolicy Double) (val : Int) :=
  { policy with minPeriodBetweenExecs := val }

def setResizeUpStabilizationDelay (policy : AutoScalerPolicy Double) (val : Int) :=
  { policy with resizeUpStabilizationDelay := val }

def setResizeDownStabilizationDelay (policy : AutoScalerPolicy Double) (val : Int) :=
  { policy with resizeDownStabilizationDelay := val }

def setMinPoolSize (policy : AutoScalerPolicy Double) (val : JavaInt) :=
  { policy with minPoolSize := val }

def setMaxPoolSize (policy : AutoScalerPolicy Double) (val : JavaInt) :=
  { policy with maxPoolSize := val }

def toBoundedDesiredPoolSize (policy : AutoScalerPolicy Double) (size : JavaInt) : JavaInt :=
  min policy.maxPoolSize (max policy.minPoolSize size)

/-- What a response adds to the history. -/
def recorded : Response → Option JavaInt
  | .scheduleResize newSize => some newSize
  | .abortResize currentSize => some currentSize
  | .nothing => none

def record (policy : AutoScalerPolicy Double) (response : Response) (now : Int) :
    AutoScalerPolicy Double :=
  match recorded response with
  | some size => { policy with recentDesiredResizes := policy.recentDesiredResizes.add size now }
  | none => policy

end Configuration

section Handlers
variable {Double : Type} [JavaDouble Double]

/-- The size a metric above the upper bound asks for. -/
def scaleOutSize (policy : AutoScalerPolicy Double) (currentTotalActivity : Double) : JavaInt :=
  policy.toBoundedDesiredPoolSize
    (JavaDouble.ceilToInt (currentTotalActivity / policy.metricUpperBound))

/-- The size a metric below the lower bound asks for: rounded down against the
lower bound, unless that would take the metric above the upper one. -/
def scaleBackSize (policy : AutoScalerPolicy Double) (currentTotalActivity : Double) : JavaInt :=
  let desiredSize := policy.toBoundedDesiredPoolSize
    (JavaDouble.floorToInt (currentTotalActivity / policy.metricLowerBound))
  if ((desiredSize : Int) : Double) < currentTotalActivity / policy.metricUpperBound then
    policy.scaleOutSize currentTotalActivity
  else desiredSize

def onMetricChanged (policy : AutoScalerPolicy Double) (currentSize : JavaInt) (val : Double) :
    Response :=
  let currentTotalActivity := ((currentSize : Int) : Double) * val
  if policy.metricUpperBound < val then
    let desiredSize := policy.scaleOutSize currentTotalActivity
    if desiredSize > currentSize then .scheduleResize desiredSize else .nothing
  else if val < policy.metricLowerBound then
    let desiredSize := policy.scaleBackSize currentTotalActivity
    if desiredSize < currentSize then .scheduleResize desiredSize else .nothing
  else .abortResize currentSize

/-- The size that puts a per-container threshold at the pool's workrate. -/
def poolSizeAt (policy : AutoScalerPolicy Double) (poolCurrentSize : JavaInt)
    (poolCurrentWorkrate threshold : Double) : JavaInt :=
  policy.toBoundedDesiredPoolSize (JavaDouble.ceilToInt
    (poolCurrentWorkrate / (threshold / ((poolCurrentSize : Int) : Double))))

def onPoolCold (policy : AutoScalerPolicy Double) (properties : PoolProperties Double) :
    Option Response := do
  let poolCurrentSize ← properties.currentSize
  let poolCurrentWorkrate ← properties.currentWorkrate
  let poolLowThreshold ← properties.lowThreshold
  let desiredPoolSize := policy.poolSizeAt poolCurrentSize poolCurrentWorkrate poolLowThreshold
  if desiredPoolSize < poolCurrentSize then return .scheduleResize desiredPoolSize
  else return .abortResize poolCurrentSize

def onPoolHot (policy : AutoScalerPolicy Double) (properties : PoolProperties Double) :
    Option Response := do
  let poolCurrentSize ← properties.currentSize
  let poolCurrentWorkrate ← properties.currentWorkrate
  let poolHighThreshold ← properties.highThreshold
  let desiredPoolSize := policy.poolSizeAt poolCurrentSize poolCurrentWorkrate poolHighThreshold
  if desiredPoolSize > poolCurrentSize then return .scheduleResize desiredPoolSize
  else return .abortResize poolCurrentSize

def onPoolOk (properties : PoolProperties Double) : Option Response := do
  let poolCurrentSize ← properties.currentSize
  return .abortResize poolCurrentSize

end Handlers

section Stabilization
variable {Double : Type}

/-- One value of the loop of `maxInWindow` and `minInWindow`. -/
def considerVal (uncovered : JavaInt) (beats : JavaInt → JavaInt → Bool) (epoch : Int)
    (result : Option JavaInt) (val : TimestampedValue JavaInt) : Option JavaInt :=
  let result := if result.isNone && decide (val.timestamp > epoch) then some uncovered else result
  match result with
  | none => some val.value
  | some best => if beats val.value best then some val.value else some best

def extremeInWindow (uncovered : JavaInt) (beats : JavaInt → JavaInt → Bool) (now : Int)
    (vals : List (TimestampedValue JavaInt)) (timewindow : Int) : JavaInt :=
  (vals.foldl (considerVal uncovered beats (now - timewindow)) none).getD uncovered

def maxInWindow (now : Int) (vals : List (TimestampedValue JavaInt)) (timewindow : Int) :
    JavaInt :=
  extremeInWindow JavaInt.maxValue (fun val best => decide (val > best)) now vals timewindow

def minInWindow (now : Int) (vals : List (TimestampedValue JavaInt)) (timewindow : Int) :
    JavaInt :=
  extremeInWindow JavaInt.minValue (fun val best => decide (val < best)) now vals timewindow

def downsizeWindowVals (policy : AutoScalerPolicy Double) (now : Int) :=
  policy.recentDesiredResizes.getValuesInWindow now policy.resizeDownStabilizationDelay

def upsizeWindowVals (policy : AutoScalerPolicy Double) (now : Int) :=
  policy.recentDesiredResizes.getValuesInWindow now policy.resizeUpStabilizationDelay

def minDesiredPoolSize (policy : AutoScalerPolicy Double) (now : Int) : JavaInt :=
  maxInWindow now (policy.downsizeWindowVals now) policy.resizeDownStabilizationDelay

def maxDesiredPoolSize (policy : AutoScalerPolicy Double) (now : Int) : JavaInt :=
  minInWindow now (policy.upsizeWindowVals now) policy.resizeUpStabilizationDelay

def stableForShrinking (policy : AutoScalerPolicy Double) (now : Int) : Bool :=
  let vals := policy.downsizeWindowVals now
  minInWindow now vals policy.resizeDownStabilizationDelay ==
    maxInWindow now vals policy.resizeDownStabilizationDelay

def stableForGrowing (policy : AutoScalerPolicy Double) (now : Int) : Bool :=
  let vals := policy.upsizeWindowVals now
  minInWindow now vals policy.resizeUpStabilizationDelay ==
    maxInWindow now vals policy.resizeUpStabilizationDelay

def calculateDesiredPoolSize (policy : AutoScalerPolicy Double) (now : Int)
    (currentPoolSize : JavaInt) : CalculatedDesiredPoolSize :=
  if currentPoolSize < policy.maxDesiredPoolSize now then
    ⟨policy.maxDesiredPoolSize now, policy.stableForGrowing now⟩
  else if currentPoolSize > policy.minDesiredPoolSize now then
    ⟨policy.minDesiredPoolSize now, policy.stableForShrinking now⟩
  else ⟨currentPoolSize, policy.stableForGrowing now && policy.stableForShrinking now⟩

end Stabilization
end AutoScalerPolicy
end Brooklyn
