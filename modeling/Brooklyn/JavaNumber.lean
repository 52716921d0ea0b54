import Mathlib.Algebra.Order.Floor.Ring
import Mathlib.Data.Rat.Floor
import Mathlib.Tactic.Common

/-!
The numbers of the source. An `int` is an integer in range. `JavaDouble` is what
the modelled code does with a `double`: widening from `int`, multiplication,
division, comparison, and `Math.ceil` or `Math.floor` followed by the saturating
narrowing to `int`. Results that hold of every instance hold of IEEE arithmetic;
the rationals are the instance for claims over exact arithmetic.
-/

namespace Brooklyn

abbrev JavaInt := {n : Int // -2147483648 ≤ n ∧ n ≤ 2147483647}

instance : DecidableLT JavaInt := fun a b => Int.decLt a b
instance : DecidableLE JavaInt := fun a b => Int.decLe a b

namespace JavaInt

def minValue : JavaInt := ⟨-2147483648, by decide⟩
def maxValue : JavaInt := ⟨2147483647, by decide⟩

theorem minValue_le (n : JavaInt) : minValue ≤ n := n.2.1
theorem le_maxValue (n : JavaInt) : n ≤ maxValue := n.2.2

/-- Narrowing to `int`, which stops at the ends of the range. -/
def saturate (n : Int) : JavaInt :=
  ⟨max (-2147483648) (min 2147483647 n), by omega⟩

instance (n : Nat) : OfNat JavaInt n := ⟨saturate n⟩

theorem coe_saturate (n : Int) :
    (saturate n : Int) = max (-2147483648) (min 2147483647 n) := rfl

theorem coe_max (a b : JavaInt) : ((max a b : JavaInt) : Int) = max (a : Int) b :=
  Subtype.mono_coe _ |>.map_max

theorem coe_min (a b : JavaInt) : ((min a b : JavaInt) : Int) = min (a : Int) b :=
  Subtype.mono_coe _ |>.map_min

end JavaInt

class JavaDouble (Double : Type) extends IntCast Double, Mul Double, Div Double, LT Double where
  decidableLT : DecidableLT Double
  ceilToInt : Double → JavaInt
  floorToInt : Double → JavaInt

attribute [reducible, instance] JavaDouble.decidableLT

instance : JavaDouble ℚ where
  decidableLT := inferInstance
  ceilToInt rate := JavaInt.saturate ⌈rate⌉
  floorToInt rate := JavaInt.saturate ⌊rate⌋

end Brooklyn

/-!
Boxed integers, compared as references. Boxing takes the object of the cache for a number in
its range, from -128 to at least 127, and makes a new object for any other.
-/

namespace Brooklyn

/-- Objects outside the cache are numbered as they are made. -/
inductive BoxedInteger (cacheHigh : Int32) where
  | cached (value : Int32) (low : -128 ≤ value) (high : value ≤ cacheHigh)
  | object (identity : Nat) (value : Int32)
deriving DecidableEq

namespace BoxedInteger
variable {cacheHigh : Int32}

def value : BoxedInteger cacheHigh → Int32
  | cached value _ _ => value
  | object _ value => value

def isCached : BoxedInteger cacheHigh → Bool
  | cached _ _ _ => true
  | object _ _ => false

/-- `Integer.valueOf`, when so many objects have been made. -/
def valueOf (objects : Nat) (n : Int32) : BoxedInteger cacheHigh :=
  if range : -128 ≤ n ∧ n ≤ cacheHigh then cached n range.1 range.2 else object objects n

/-- The object is one of those made so far, or of the cache. -/
def MadeBefore (objects : Nat) : BoxedInteger cacheHigh → Prop
  | cached _ _ _ => True
  | object identity _ => identity < objects

/-- Boxing gives an object that is there already only if it is the object of the cache. -/
theorem valueOf_eq_iff {objects : Nat} {boxed : BoxedInteger cacheHigh}
    (before : boxed.MadeBefore objects) (n : Int32) :
    valueOf objects n = boxed ↔ boxed.isCached = true ∧ boxed.value = n := by
  unfold valueOf
  cases boxed with
  | cached value low high =>
    simp only [isCached, BoxedInteger.value, true_and]
    split
    · rw [cached.injEq, eq_comm]
    · next out =>
      refine iff_of_false nofun ?_
      rintro rfl
      exact out ⟨low, high⟩
  | object identity value =>
    refine iff_of_false ?_ fun same => Bool.false_ne_true same.1
    split
    · nofun
    · intro same
      cases same
      exact Nat.lt_irrefl _ before

end BoxedInteger
end Brooklyn
