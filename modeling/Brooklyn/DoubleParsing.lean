import Brooklyn.JavaText
import Mathlib.Data.Rat.Floor

/-!
The literals that `Double.parseDouble` accepts. A finite literal stands for its exact value,
nothing is rounded. The suffix of a type is part of a literal.
-/

namespace Brooklyn

/-- A double that was parsed, finite ones with the value of the literal. -/
inductive ParsedDouble
  | nan
  | infinite (negative : Bool)
  | finite (value : ℚ)
  deriving DecidableEq

namespace ParsedDouble

/-- The product with a positive integer. -/
def scale (multiplier : Nat) : ParsedDouble → ParsedDouble
  | nan => nan
  | infinite negative => infinite negative
  | finite value => finite (value * multiplier)

def add : ParsedDouble → ParsedDouble → ParsedDouble
  | nan, _ => nan
  | _, nan => nan
  | infinite negative, infinite other => if negative = other then infinite negative else nan
  | infinite negative, finite _ => infinite negative
  | finite _, infinite negative => infinite negative
  | finite value, finite other => finite (value + other)

def minLong : Int := -9223372036854775808

def maxLong : Int := 9223372036854775807

/-- Narrowing to `long`: towards zero, and not out of the range. -/
def toLong : ParsedDouble → Int
  | nan => 0
  | infinite negative => if negative then minLong else maxLong
  | finite value => max minLong (min maxLong (value.num.tdiv value.den))

end ParsedDouble

section Grammar

def hexLetters : List Char := ['a', 'b', 'c', 'd', 'e', 'f', 'A', 'B', 'C', 'D', 'E', 'F']

def isHexDigit (c : Char) : Bool := c.isDigit || hexLetters.contains c

def decimalValue (digits : List Char) : Nat := Nat.ofDigitChars 10 digits 0

def hexDigitValue (c : Char) : Nat :=
  if c.isDigit then c.toNat - '0'.toNat else c.toLower.toNat - 'a'.toNat + 10

def hexValue (digits : List Char) : Nat :=
  digits.foldl (fun value c => 16 * value + hexDigitValue c) 0

/-- Whether there is a minus sign, and what follows the sign. -/
def splitSign : List Char → Bool × List Char
  | '-' :: rest => (true, rest)
  | '+' :: rest => (false, rest)
  | text => (false, text)

/-- The digits with a point among them or not, and what follows them. -/
def significand (isDigit : Char → Bool) (valueOf : List Char → Nat) (base : Nat)
    (text : List Char) : Option (ℚ × List Char) :=
  let whole := text.takeWhile isDigit
  match text.dropWhile isDigit with
  | '.' :: after =>
      let fraction := after.takeWhile isDigit
      if whole ++ fraction = [] then none
      else some (valueOf (whole ++ fraction) / base ^ fraction.length, after.dropWhile isDigit)
  | rest => if whole = [] then none else some (valueOf whole, rest)

def typeSuffixes : List Char := ['f', 'F', 'd', 'D']

def withoutSuffix (text : List Char) : List Char :=
  match text.getLast? with
  | some c => if typeSuffixes.contains c then text.dropLast else text
  | none => text

def signedInteger (text : List Char) : Option Int :=
  let (negative, digits) := splitSign text
  if digits ≠ [] ∧ digits.all Char.isDigit then
    some (if negative then -(decimalValue digits : Int) else decimalValue digits)
  else none

/-- `FloatingPointLiteral` in decimal, the exponent may be missing. -/
def decimalLiteral (text : List Char) : Option ℚ :=
  match significand Char.isDigit decimalValue 10 text with
  | none => none
  | some (value, rest) =>
      match withoutSuffix rest with
      | [] => some value
      | mark :: exponent =>
          if mark = 'e' ∨ mark = 'E' then (signedInteger exponent).map fun e => value * 10 ^ e
          else none

/-- `HexFloatingPointLiteral`, it has a binary exponent. -/
def hexLiteral : List Char → Option ℚ
  | '0' :: x :: text =>
      if x = 'x' ∨ x = 'X' then
        match significand isHexDigit hexValue 16 text with
        | none => none
        | some (value, rest) =>
            match withoutSuffix rest with
            | [] => none
            | mark :: exponent =>
                if mark = 'p' ∨ mark = 'P' then
                  (signedInteger exponent).map fun e => value * 2 ^ e
                else none
      else none
  | _ => none

/-- `Double.parseDouble` -/
def parseDouble (text : List Char) : Option ParsedDouble :=
  let (negative, magnitude) := splitSign (trim text)
  if magnitude = "NaN".toList then some .nan
  else if magnitude = "Infinity".toList then some (.infinite negative)
  else
    match (decimalLiteral magnitude).or (hexLiteral magnitude) with
    | some value => some (.finite (if negative then -value else value))
    | none => none

end Grammar

section Accepted

theorem span_append {p : Char → Bool} {digits rest : List Char}
    (all : ∀ c ∈ digits, p c = true) (stop : ∀ c ∈ rest.head?, p c = false) :
    (digits ++ rest).takeWhile p = digits ∧ (digits ++ rest).dropWhile p = rest := by
  rw [List.takeWhile_append_of_pos all, List.dropWhile_append_of_pos all]
  cases rest with
  | nil => simp
  | cons c rest =>
    have other := stop c rfl
    simp [other]

variable {isDigit : Char → Bool} {valueOf : List Char → Nat} {base : Nat}

theorem significand_whole {digits rest : List Char} (all : ∀ c ∈ digits, isDigit c = true)
    (more : digits ≠ []) (stop : ∀ c ∈ rest.head?, isDigit c = false ∧ c ≠ '.') :
    significand isDigit valueOf base (digits ++ rest) = some ((valueOf digits : ℚ), rest) := by
  obtain ⟨front, back⟩ := span_append all fun c head => (stop c head).1
  rw [significand, front, back]
  cases rest with
  | nil => simp [more]
  | cons c rest =>
    have other := (stop c rfl).2
    split
    next same => exact absurd (List.cons_eq_cons.mp same).1 other
    next => rw [if_neg more]

theorem significand_point {whole fraction rest : List Char}
    (whole_digits : ∀ c ∈ whole, isDigit c = true)
    (digits : ∀ c ∈ fraction, isDigit c = true)
    (point : isDigit '.' = false) (more : whole ++ fraction ≠ [])
    (stop : ∀ c ∈ rest.head?, isDigit c = false) :
    significand isDigit valueOf base (whole ++ '.' :: (fraction ++ rest)) =
      some ((valueOf (whole ++ fraction) : ℚ) / base ^ fraction.length, rest) := by
  obtain ⟨front, back⟩ : (whole ++ '.' :: (fraction ++ rest)).takeWhile isDigit = whole ∧
      (whole ++ '.' :: (fraction ++ rest)).dropWhile isDigit = '.' :: (fraction ++ rest) :=
    span_append whole_digits (by simpa using point)
  obtain ⟨inside, after⟩ := span_append digits stop
  rw [significand, front, back]
  simp only [inside, after, if_neg more]

theorem isDigit_toDigits {n : Nat} : ∀ c ∈ Nat.toDigits 10 n, c.isDigit = true :=
  fun _ member => Nat.isDigit_of_mem_toDigits (by decide) (by decide) member

theorem decimalValue_toDigits (n : Nat) : decimalValue (Nat.toDigits 10 n) = n :=
  Nat.ofDigitChars_ten_toDigits

theorem ne_of_isDigit {c other : Char} (digit : c.isDigit = true)
    (letter : other.isDigit = false) : c ≠ other := by
  rintro rfl
  exact absurd digit (by rw [letter]; decide)

/-- A digit is visible. -/
theorem visible_of_isDigit {c : Char} (digit : c.isDigit = true) : ' ' < c := by
  simp only [Char.isDigit, Bool.and_eq_true, decide_eq_true_eq] at digit
  exact Char.not_le.mp fun low => absurd (UInt32.le_trans digit.1 low) (by decide)

end Accepted

section Numbers

/-- The sign of a number, if it has one. -/
inductive Sign
  | unsigned | plus | minus
  deriving DecidableEq

def Sign.text : Sign → List Char
  | unsigned => []
  | plus => ['+']
  | minus => ['-']

def Sign.apply : Sign → ℚ → ℚ
  | minus, value => -value
  | _, value => value

/-- Digits with a point among them or not, and a sign before them or none. -/
structure DecimalNumber where
  sign : Sign
  whole : List Char
  fraction : Option (List Char)
  digits : ∀ c ∈ whole ++ fraction.getD [], c.isDigit = true
  more : whole ++ fraction.getD [] ≠ []

namespace DecimalNumber
variable (number : DecimalNumber)

def magnitude : List Char := number.whole ++ number.fraction.elim [] ('.' :: ·)

def text : List Char := number.sign.text ++ number.magnitude

/-- The value without the sign. -/
def size : ℚ :=
  decimalValue (number.whole ++ number.fraction.getD []) / 10 ^ (number.fraction.getD []).length

def value : ℚ := number.sign.apply number.size

theorem magnitude_chars : ∀ c ∈ number.magnitude, c = '.' ∨ c.isDigit = true := by
  intro c member
  have digits := number.digits
  unfold magnitude at member
  cases fraction : number.fraction with
  | none =>
    rw [fraction] at member
    exact Or.inr (digits c (List.mem_append_left _ (by simpa using member)))
  | some after =>
    rw [fraction] at member digits
    rcases List.mem_append.mp member with inside | inside
    · exact Or.inr (digits c (List.mem_append_left _ inside))
    · exact (List.mem_cons.mp inside).imp_right fun inside =>
        digits c (List.mem_append_right _ inside)

theorem digit_mem : ∃ c ∈ number.magnitude, c.isDigit = true := by
  obtain ⟨c, member⟩ := List.exists_mem_of_ne_nil _ number.more
  refine ⟨c, ?_, number.digits c member⟩
  unfold magnitude
  cases fraction : number.fraction with
  | none => simpa [fraction] using member
  | some after =>
    rw [fraction] at member
    exact (List.mem_append.mp member).elim (List.mem_append_left _)
      fun inside => List.mem_append_right _ (List.mem_cons_of_mem _ inside)

theorem magnitude_ne_nil : number.magnitude ≠ [] := by
  obtain ⟨c, member, -⟩ := number.digit_mem
  exact List.ne_nil_of_mem member

theorem visible : Visible number.text := by
  refine Visible.append ?_ fun c member => ?_
  · cases number.sign <;> simp [Sign.text, Visible]
  · rcases number.magnitude_chars c member with rfl | digit
    · decide
    · exact visible_of_isDigit digit

theorem significand_magnitude {rest : List Char}
    (stop : ∀ c ∈ rest.head?, c.isDigit = false ∧ c ≠ '.') :
    significand Char.isDigit decimalValue 10 (number.magnitude ++ rest) =
      some (number.size, rest) := by
  have digits := number.digits
  have more := number.more
  unfold magnitude size
  cases fraction : number.fraction with
  | none =>
    rw [fraction] at digits more
    simp only [Option.getD_none, List.append_nil] at digits more
    have read : significand Char.isDigit decimalValue 10 (number.whole ++ rest) = some (_, rest) :=
      significand_whole digits more stop
    simpa using read
  | some after =>
    rw [fraction] at digits more
    simp only [Option.getD_some] at digits more
    have read : significand Char.isDigit decimalValue 10
        (number.whole ++ '.' :: (after ++ rest)) = some (_, rest) :=
      significand_point (fun c member => digits c (List.mem_append_left _ member))
        (fun c member => digits c (List.mem_append_right _ member)) (by decide) more
        fun c head => (stop c head).1
    simpa using read

end DecimalNumber

/-- A literal that starts with a digit or a point, with its sign. -/
theorem parseDouble_signed (sign : Sign) {first : Char} {rest : List Char} {value : ℚ}
    (start : first = '.' ∨ first.isDigit = true) (word : Visible (first :: rest))
    (literal : decimalLiteral (first :: rest) = some value) :
    parseDouble (sign.text ++ first :: rest) = some (.finite (sign.apply value)) := by
  have other : ∀ letter : Char, letter.isDigit = false → letter ≠ '.' → first ≠ letter := by
    rintro letter no_digit no_point rfl
    rcases start with point | digit
    · exact no_point point
    · rw [no_digit] at digit
      cases digit
  have no_nan : first :: rest ≠ "NaN".toList := fun same =>
    other 'N' (by decide) (by decide) (List.cons_eq_cons.mp same).1
  have no_infinity : first :: rest ≠ "Infinity".toList := fun same =>
    other 'I' (by decide) (by decide) (List.cons_eq_cons.mp same).1
  have whole : Visible (sign.text ++ first :: rest) := by
    refine Visible.append ?_ word
    cases sign <;> simp [Sign.text, Visible]
  have split : splitSign (sign.text ++ first :: rest) =
      (decide (sign = .minus), first :: rest) := by
    cases sign with
    | unsigned =>
      have no_minus := other '-' (by decide) (by decide)
      have no_plus := other '+' (by decide) (by decide)
      simp [Sign.text, splitSign, no_minus, no_plus]
    | plus => rfl
    | minus => rfl
  rw [parseDouble, whole.trim, split]
  simp only [if_neg no_nan, if_neg no_infinity, literal, Option.some_or]
  cases sign <;> rfl

/-- A number is read as its value, with the suffix of a type or without it. -/
theorem parseDouble_number (number : DecimalNumber) {suffix : List Char}
    (known : suffix = [] ∨ ∃ c ∈ typeSuffixes, suffix = [c]) :
    parseDouble (number.text ++ suffix) = some (.finite number.value) := by
  have plain : ∀ c ∈ suffix.head?, c.isDigit = false ∧ c ≠ '.' ∧ ' ' < c := by
    rcases known with rfl | ⟨c, member, rfl⟩
    · simp
    · have plain : ∀ c ∈ typeSuffixes, c.isDigit = false ∧ c ≠ '.' ∧ ' ' < c :=
        forall_of_all (by decide)
      exact fun d same => Option.some.inj same ▸ plain c member
  have literal : decimalLiteral (number.magnitude ++ suffix) = some number.size := by
    rw [decimalLiteral, number.significand_magnitude fun c head =>
      ⟨(plain c head).1, (plain c head).2.1⟩]
    rcases known with rfl | ⟨c, member, rfl⟩
    · rfl
    · simp [withoutSuffix, member]
  have word : Visible (number.magnitude ++ suffix) := by
    have visible := number.visible
    refine Visible.append (fun c member => visible c (List.mem_append_right _ member)) ?_
    rcases known with rfl | ⟨c, member, rfl⟩
    · simp [Visible]
    · exact fun d same => List.mem_singleton.mp same ▸ (plain c rfl).2.2
  obtain ⟨first, rest, same⟩ := List.exists_cons_of_ne_nil number.magnitude_ne_nil
  have start := number.magnitude_chars first (same ▸ List.mem_cons_self)
  rw [DecimalNumber.text, List.append_assoc, same, List.cons_append]
  rw [same] at literal word
  exact parseDouble_signed number.sign start word literal

theorem parseDouble_plain (number : DecimalNumber) :
    parseDouble number.text = some (.finite number.value) := by
  simpa using parseDouble_number number (Or.inl rfl)

/-- The digits of a number, with the suffix of a type or without it. -/
theorem parseDouble_numeral (n : Nat) {suffix : List Char}
    (known : suffix = [] ∨ suffix = ['d']) :
    parseDouble (Nat.toDigits 10 n ++ suffix) = some (.finite n) := by
  let number : DecimalNumber := ⟨.unsigned, Nat.toDigits 10 n, none, by
    simpa using isDigit_toDigits, by simp [Nat.toDigits_ne_nil]⟩
  have read := parseDouble_number number
    (known.imp_right fun same => ⟨'d', by decide, same⟩)
  have text : number.text = Nat.toDigits 10 n := List.append_nil _
  have value : number.value = n := by
    simp [number, DecimalNumber.value, DecimalNumber.size, Sign.apply, decimalValue_toDigits]
  rwa [text, value] at read

/-- A number with one decimal. -/
theorem parseDouble_decimal (n : Nat) {k : Nat} (small : k < 10) :
    parseDouble (Nat.toDigits 10 n ++ '.' :: Nat.toDigits 10 k) =
      some (.finite ((10 * n + k : Nat) / 10)) := by
  let number : DecimalNumber := ⟨.unsigned, Nat.toDigits 10 n, some (Nat.toDigits 10 k),
    fun c member => (List.mem_append.mp member).elim (isDigit_toDigits c) (isDigit_toDigits c), by
      simp [Nat.toDigits_ne_nil]⟩
  have read := parseDouble_plain number
  have one : Nat.toDigits 10 k = [k.digitChar] := Nat.toDigits_of_lt_base small
  have digits : decimalValue (Nat.toDigits 10 n ++ [k.digitChar]) = 10 * n + k := by
    rw [decimalValue, Nat.ofDigitChars_append, ← decimalValue, decimalValue_toDigits,
      Nat.ofDigitChars_cons_digitChar_of_lt_ten small, Nat.ofDigitChars_nil]
  have value : number.value = (10 * n + k : Nat) / 10 := by
    simp [number, DecimalNumber.value, DecimalNumber.size, Sign.apply, digits, one]
  rwa [value] at read

end Numbers

section Interior

/-- A character that is not the last one of a text, or that is no suffix. -/
def Stays (c : Char) (text : List Char) : Prop :=
  c ∈ text.dropLast ∨ c ∈ text ∧ c ∉ typeSuffixes

theorem Stays.mem {c : Char} {text : List Char} (stays : Stays c text) : c ∈ text :=
  stays.elim (fun inside => List.dropLast_subset text inside) And.left

/-- A suffix is the last character of a text. -/
theorem Stays.mem_withoutSuffix {c : Char} {front rest : List Char}
    (stays : Stays c (front ++ rest)) : c ∈ front ++ withoutSuffix rest := by
  unfold withoutSuffix
  split
  next last ends =>
    split
    next suffix =>
      obtain ⟨before, rfl⟩ := List.getLast?_eq_some_iff.mp ends
      rw [List.dropLast_concat]
      rw [← List.append_assoc, Stays, List.dropLast_concat] at stays
      refine stays.elim id fun ⟨member, plain⟩ => ?_
      refine (List.mem_append.mp member).resolve_right fun same => plain ?_
      rw [List.mem_singleton.mp same]
      exact List.contains_iff_mem.mp suffix
    next => exact stays.mem
  next => exact stays.mem

theorem mem_magnitude {text : List Char} {c : Char} (no_minus : c ≠ '-') (no_plus : c ≠ '+')
    (member : c ∈ text) : c ∈ (splitSign text).2 := by
  unfold splitSign
  split
  next => exact (List.mem_cons.mp member).resolve_left no_minus
  next => exact (List.mem_cons.mp member).resolve_left no_plus
  next => exact member

theorem Stays.magnitude {text : List Char} {c : Char} (no_minus : c ≠ '-') (no_plus : c ≠ '+')
    (stays : Stays c text) : Stays c (splitSign text).2 := by
  refine stays.imp (fun inside => ?_) fun ⟨member, plain⟩ =>
    ⟨mem_magnitude no_minus no_plus member, plain⟩
  have behind : ∀ (sign : Char) (rest : List Char), c ≠ sign → c ∈ (sign :: rest).dropLast →
      c ∈ rest.dropLast := by
    intro sign rest other inside
    cases rest with
    | nil => cases inside
    | cons first rest => exact (List.mem_cons.mp inside).resolve_left other
  unfold splitSign
  split
  next rest => exact behind '-' rest no_minus inside
  next rest => exact behind '+' rest no_plus inside
  next => exact inside

end Interior

section Refused

/-- The characters of literals, apart from digits. -/
def literalChars : List Char :=
  ['+', '-', '.', 'e', 'E', 'p', 'P', 'x', 'X'] ++ typeSuffixes ++ hexLetters ++
    "NaNInfinity".toList

/-- A visible character that no literal has. -/
structure Foreign (c : Char) : Prop where
  visible : ' ' < c
  not_digit : c.isDigit = false
  not_literal : c ∉ literalChars

variable {c : Char} (foreign : Foreign c)
include foreign

theorem Foreign.ne {other : Char} (known : other ∈ literalChars) : c ≠ other := by
  rintro rfl
  exact foreign.not_literal known

theorem mem_splitSign {text : List Char} (member : c ∈ text) : c ∈ (splitSign text).2 :=
  mem_magnitude (foreign.ne (by decide)) (foreign.ne (by decide)) member

theorem mem_withoutSuffix {text : List Char} (member : c ∈ text) : c ∈ withoutSuffix text := by
  unfold withoutSuffix
  split
  next last ends =>
    split
    next suffix =>
      obtain ⟨front, rfl⟩ := List.getLast?_eq_some_iff.mp ends
      rw [List.dropLast_concat]
      refine (List.mem_append.mp member).resolve_right fun same => ?_
      obtain rfl := List.mem_singleton.mp same
      refine foreign.not_literal ?_
      have known := List.contains_iff_mem.mp suffix
      exact List.mem_append_left _ (List.mem_append_left _ (List.mem_append_right _ known))
    next => exact member
  next => exact member

theorem mem_rest_of_significand {isDigit : Char → Bool} {valueOf : List Char → Nat} {base : Nat}
    {text rest : List Char} {value : ℚ} (no_digit : isDigit c = false)
    (read : significand isDigit valueOf base text = some (value, rest)) (member : c ∈ text) :
    c ∈ rest := by
  have later : ∀ items : List Char, c ∈ items → c ∈ items.dropWhile isDigit := by
    intro items inside
    rw [← List.takeWhile_append_dropWhile (p := isDigit) (l := items)] at inside
    refine (List.mem_append.mp inside).resolve_left fun front => ?_
    rw [List.mem_takeWhile_imp front] at no_digit
    exact Bool.noConfusion no_digit
  have after := later text member
  unfold significand at read
  dsimp only at read
  split at read
  next fraction same =>
    split at read
    next => cases read
    next =>
      cases read
      rw [same] at after
      exact later _ ((List.mem_cons.mp after).resolve_left (foreign.ne (by decide)))
  next =>
    split at read
    next => cases read
    next =>
      cases read
      exact after

theorem signedInteger_foreign {text : List Char} (member : c ∈ text) :
    signedInteger text = none := by
  have inside := mem_splitSign foreign member
  rw [signedInteger]
  refine if_neg fun digits => ?_
  have digit := List.all_eq_true.mp digits.2 c inside
  rw [foreign.not_digit] at digit
  exact Bool.noConfusion digit

theorem exponent_foreign {text : List Char} {mark : Char} (known : mark ∈ literalChars)
    (member : c ∈ mark :: text) : signedInteger text = none :=
  signedInteger_foreign foreign ((List.mem_cons.mp member).resolve_left (foreign.ne known))

theorem decimalLiteral_foreign {text : List Char} (member : c ∈ text) :
    decimalLiteral text = none := by
  unfold decimalLiteral
  split
  next => rfl
  next value rest read =>
    have later := mem_withoutSuffix foreign
      (mem_rest_of_significand foreign foreign.not_digit read member)
    split
    next same => rw [same] at later; cases later
    next mark exponent same =>
      rw [same] at later
      split
      next marked =>
        have known : mark ∈ literalChars := by rcases marked with rfl | rfl <;> decide
        rw [exponent_foreign foreign known later, Option.map_none]
      next => rfl

theorem hexLiteral_foreign {text : List Char} (member : c ∈ text) : hexLiteral text = none := by
  unfold hexLiteral
  split
  next x text =>
    split
    next hex =>
      have known : x ∈ literalChars := by rcases hex with rfl | rfl <;> decide
      have inside : c ∈ text := by
        rcases List.mem_cons.mp member with zero | member
        · rw [zero] at foreign
          exact absurd foreign.not_digit (by decide)
        · exact (List.mem_cons.mp member).resolve_left (foreign.ne known)
      split
      next => rfl
      next value rest read =>
        have no_digit : isHexDigit c = false := by
          have letter := fun known => foreign.not_literal
            (List.mem_append_left _ (List.mem_append_right _ known))
          rw [isHexDigit, foreign.not_digit, Bool.false_or]
          exact Bool.eq_false_iff.mpr fun known => letter (List.contains_iff_mem.mp known)
        have later := mem_withoutSuffix foreign
          (mem_rest_of_significand foreign no_digit read inside)
        split
        next => rfl
        next mark exponent same =>
          rw [same] at later
          split
          next marked =>
            have known : mark ∈ literalChars := by rcases marked with rfl | rfl <;> decide
            rw [exponent_foreign foreign known later, Option.map_none]
          next => rfl
    next => rfl
  next => rfl

/-- A text with a character of no literal is refused. -/
theorem parseDouble_foreign {text : List Char} (member : c ∈ text) : parseDouble text = none := by
  have inside := mem_splitSign foreign (mem_trim member foreign.visible)
  have names : ∀ name : List Char, name ⊆ "NaNInfinity".toList →
      (splitSign (trim text)).2 ≠ name := by
    rintro name known same
    exact foreign.not_literal (List.mem_append_right _ (known (same ▸ inside)))
  rw [parseDouble]
  dsimp only
  rw [if_neg (names _ (by decide)), if_neg (names _ (by decide)),
    decimalLiteral_foreign foreign inside, hexLiteral_foreign foreign inside]
  rfl

end Refused

end Brooklyn
