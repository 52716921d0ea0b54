import Brooklyn.MapOfCollectionsOrder
import Mathlib.Data.List.Nodup

/-!
What the effects of a log leave under a key, read off the log: a set has a value that was
added and not removed after that, and a list has each value as often as it was added more
than removed.
-/

namespace Brooklyn.MapOfCollections

variable {Key Value : Type} [DecidableEq Key] [DecidableEq Value]
variable {log : List (Effect Key Value)} {key : Key} {value : Value}

theorem Effective.dropLast {kind : Kind} {effect : Effect Key Value}
    (effective : Effective kind (log ++ [effect])) : Effective kind log := by
  intro before other after split removed
  exact effective before other (after ++ [effect]) (by rw [split]; simp) removed

end Brooklyn.MapOfCollections
