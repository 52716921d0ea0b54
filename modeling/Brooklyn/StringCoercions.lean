import Brooklyn.DoubleParsing
import Brooklyn.JavaText
import Brooklyn.XmlNames

/-!
`TypeCoercions.coerce` of a string to the class of a string, of a boxed primitive or of an
enum, and the texts that boxed primitives are turned into. How a floating point number is
written and read is left open. Of the digits only those of ASCII are read.
-/

namespace Brooklyn

inductive Integral where
  | byte | short | int | long
deriving DecidableEq

def Integral.bits : Integral → Nat
  | byte => 8
  | short => 16
  | int => 32
  | long => 64

abbrev IntegralValue (kind : Integral) :=
  {n : Int // -(2 ^ (kind.bits - 1)) ≤ n ∧ n < 2 ^ (kind.bits - 1)}

/-- The text of a number tells it from the others. -/
structure FloatingText (Number : Type) where
  toText : Number → JavaString
  valueOf : JavaString → Option Number
  valueOf_toText : ∀ number, valueOf (toText number) = some number

structure Floating (Single Wide : Type) where
  float : FloatingText Single
  double : FloatingText Wide

inductive Primitive where
  | integral (kind : Integral)
  | boolean
  | character
  | float
  | double
deriving DecidableEq

inductive Boxed (Single Wide : Type) where
  | integral (kind : Integral) (value : IntegralValue kind)
  | boolean (value : Bool)
  | character (value : UInt16)
  | float (value : Single)
  | double (value : Wide)

inductive CoercionFault where
  | classCast
  | illegalArgument
deriving DecidableEq

variable {Single Wide : Type}

namespace Boxed

def type : Boxed Single Wide → Primitive
  | integral kind _ => .integral kind
  | boolean _ => .boolean
  | character _ => .character
  | float _ => .float
  | double _ => .double

def intText (n : Int) : List Char :=
  if n < 0 then '-' :: Nat.toDigits 10 n.natAbs else Nat.toDigits 10 n.natAbs

/-- What concatenation with a string makes of a boxed primitive. -/
def toText (floating : Floating Single Wide) : Boxed Single Wide → JavaString
  | integral _ value => JavaString.ofChars (intText value)
  | boolean value => JavaString.ofChars (if value then "true".toList else "false".toList)
  | character value => [value]
  | float value => floating.float.toText value
  | double value => floating.double.toText value

end Boxed

namespace StringCoercions

def integralOf (kind : Integral) (text : JavaString) : Option (IntegralValue kind) :=
  match signedInteger (JavaString.toChars text) with
  | some n =>
      if range : -(2 ^ (kind.bits - 1)) ≤ n ∧ n < 2 ^ (kind.bits - 1) then some ⟨n, range⟩ else none
  | none => none

/-- The static `valueOf` of the class, where it has one. -/
def valueOf (floating : Floating Single Wide) (type : Primitive) (text : JavaString) :
    Option (Boxed Single Wide) :=
  match type with
  | .integral kind => (integralOf kind text).map (.integral kind)
  | .boolean => some (.boolean (equalsIgnoreCase (JavaString.toChars text) "true".toList))
  | .character => none
  | .float => (floating.float.valueOf text).map .float
  | .double => (floating.double.valueOf text).map .double

def stringToPrimitive (floating : Floating Single Wide) (text : JavaString) (type : Primitive) :
    Except CoercionFault (Boxed Single Wide) :=
  match type, text with
  | .character, [unit] => .ok (.character unit)
  | .character, _ => .error .classCast
  | type, text =>
      match valueOf floating type text with
      | some value => .ok value
      | none => .error .classCast

theorem splitSign_digits {text : List Char} (digits : ∀ c ∈ text, c.isDigit = true) :
    splitSign text = (false, text) := by
  cases text with
  | nil => rfl
  | cons first rest =>
    have digit := digits first List.mem_cons_self
    have no_minus : first ≠ '-' := ne_of_isDigit digit (by decide)
    have no_plus : first ≠ '+' := ne_of_isDigit digit (by decide)
    simp [splitSign, no_minus, no_plus]

theorem signedInteger_intText (n : Int) : signedInteger (Boxed.intText n) = some n := by
  have digits : Nat.toDigits 10 n.natAbs ≠ [] ∧ (Nat.toDigits 10 n.natAbs).all Char.isDigit :=
    ⟨Nat.toDigits_ne_nil, List.all_eq_true.mpr isDigit_toDigits⟩
  unfold Boxed.intText
  split
  · next negative =>
    simp only [signedInteger, splitSign]
    rw [if_pos digits, decimalValue_toDigits]
    simp only [if_true]
    congr 1
    omega
  · next positive =>
    simp only [signedInteger, splitSign_digits isDigit_toDigits]
    rw [if_pos digits, decimalValue_toDigits]
    simp only [Bool.false_eq_true, if_false]
    congr 1
    omega

theorem intText_small (n : Int) : ∀ c ∈ Boxed.intText n, c.toNat < 0xD800 := by
  have digit_small : ∀ c ∈ Nat.toDigits 10 n.natAbs, c.toNat < 0xD800 := fun c member => by
    have digit := isDigit_toDigits c member
    simp only [Char.isDigit, Bool.and_eq_true, decide_eq_true_eq] at digit
    have bound : c.toNat ≤ 57 := digit.2
    omega
  intro c member
  unfold Boxed.intText at member
  split at member
  · rcases List.mem_cons.mp member with rfl | later
    · decide
    · exact digit_small c later
  · exact digit_small c member

theorem integralOf_intText {kind : Integral} (value : IntegralValue kind) :
    integralOf kind (JavaString.ofChars (Boxed.intText value)) = some value := by
  unfold integralOf
  rw [JavaString.toChars_ofChars (intText_small value), signedInteger_intText]
  exact dif_pos value.2

/-- Every boxed primitive is read from its own text. -/
theorem stringToPrimitive_toText (floating : Floating Single Wide) (value : Boxed Single Wide) :
    stringToPrimitive floating (value.toText floating) value.type = .ok value := by
  cases value with
  | integral kind value =>
    simp only [stringToPrimitive, Boxed.toText, Boxed.type, valueOf, integralOf_intText,
      Option.map_some]
  | boolean value => cases value <;> rfl
  | character value => rfl
  | float value =>
    simp only [stringToPrimitive, Boxed.toText, Boxed.type, valueOf,
      floating.float.valueOf_toText, Option.map_some]
  | double value =>
    simp only [stringToPrimitive, Boxed.toText, Boxed.type, valueOf,
      floating.double.valueOf_toText, Option.map_some]

end StringCoercions

/-- The enums with the names of their constants, and the constants that have a body. -/
structure EnumClasses where
  constants : JavaString → List JavaString
  hasBody : JavaString → JavaString → Bool

structure EnumConstant (enums : EnumClasses) where
  enumClass : JavaString
  name : JavaString
  declared : name ∈ enums.constants enumClass

/-- The values of a map. `other` is any other object. -/
inductive MapValue (enums : EnumClasses) (Single Wide Object : Type) where
  | null
  | string (text : JavaString)
  | boxed (value : Boxed Single Wide)
  | constant (constant : EnumConstant enums)
  | other (object : Object)

/-- The classes that strings are coerced to here. -/
inductive CoercedClass where
  | string
  | primitive (type : Primitive)
  | enumeration (name : JavaString)
deriving DecidableEq

namespace StringCoercions
variable {enums : EnumClasses} {Object : Type}

def enumValueOf (enums : EnumClasses) (enumClass name : JavaString) :
    Option (EnumConstant enums) :=
  if declared : name ∈ enums.constants enumClass then some ⟨enumClass, name, declared⟩ else none

/-- `fromMethod` is the first static method of the class from a type that a string is of, by
the name of that type, if there is one. No method of `String` is named for a class to be
turned into. -/
def coerce (floating : Floating Single Wide)
    (fromMethod : JavaString →
      Option (JavaString → Except CoercionFault (MapValue enums Single Wide Object)))
    (toUpperCase : JavaString → JavaString) (text : JavaString) :
    CoercedClass → Except CoercionFault (MapValue enums Single Wide Object)
  | .string => .ok (.string text)
  | .primitive type => (stringToPrimitive floating text type).map .boxed
  | .enumeration enumClass =>
      match fromMethod enumClass with
      | some method => method text
      | none =>
          match enumValueOf enums enumClass text with
          | some constant => .ok (.constant constant)
          | none =>
              match enumValueOf enums enumClass (toUpperCase text) with
              | some constant => .ok (.constant constant)
              | none => .error .illegalArgument

section Coerced
variable (floating : Floating Single Wide)
  {fromMethod : JavaString →
    Option (JavaString → Except CoercionFault (MapValue enums Single Wide Object))}
  (toUpperCase : JavaString → JavaString)

theorem coerce_toText (value : Boxed Single Wide) :
    coerce floating fromMethod toUpperCase (value.toText floating) (.primitive value.type) =
      .ok (.boxed value) :=
  congrArg (Except.map MapValue.boxed) (stringToPrimitive_toText floating value)

theorem coerce_from {enumClass : JavaString}
    {method : JavaString → Except CoercionFault (MapValue enums Single Wide Object)}
    (found : fromMethod enumClass = some method) (text : JavaString) :
    coerce floating fromMethod toUpperCase text (.enumeration enumClass) = method text := by
  simp only [coerce, found]

theorem coerce_declared (constant : EnumConstant enums)
    (missing : fromMethod constant.enumClass = none) :
    coerce floating fromMethod toUpperCase constant.name (.enumeration constant.enumClass) =
      .ok (.constant constant) := by
  have valued : enumValueOf enums constant.enumClass constant.name = some constant :=
    dif_pos constant.declared
  simp only [coerce, missing, valued]

end Coerced

end StringCoercions
end Brooklyn
