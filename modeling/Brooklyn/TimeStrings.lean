import Brooklyn.DoubleParsing

/-!
`Time`: an elapsed time in milliseconds as text, and the milliseconds that a text says.
-/

namespace Brooklyn.TimeStrings
open ParsedDouble

def millisInSecond : Nat := 1000
def millisInMinute : Nat := 60 * millisInSecond
def millisInHour : Nat := 60 * millisInMinute
def millisInDay : Nat := 24 * millisInHour

section Printing

abbrev decimal (n : Nat) : List Char := Nat.toDigits 10 n

def withoutLastSpace (result : List Char) : List Char :=
  if result.getLast? = some ' ' then result.dropLast else result

/-- The units that are shown, what is too small for the size of the time is dropped. -/
def units (d dr h m mr s sr : Nat) : List Char :=
  let ms := sr
  (if d > 0 then decimal d ++ ['d', ' '] else []) ++
  (if h > 0 ∨ (d > 0 ∧ dr > 0) then decimal h ++ ['h', ' '] else []) ++
  (if d = 0 ∧ (m > 0 ∨ (h > 0 ∧ mr > 0)) then decimal m ++ ['m', ' '] else []) ++
  if d > 0 ∨ h > 0 then []
  else if m > 0 then if mr > 0 then decimal s ++ ['s'] else []
  else if s ≥ 30 then decimal s ++ ['s']
  else if s ≥ 10 then
    if sr > 0 then
      let sRound := s * 10 + sr / 100
      -- the decimal is the last digit of the seconds, not of `sRound`
      decimal (sRound / 10) ++ '.' :: (decimal (s % 10) ++ ['s'])
    else decimal s ++ ['s']
  else
    (if s ≥ 1 then decimal s ++ ['s', ' '] else []) ++
    if ms > 0 then decimal ms ++ ['m', 's'] else if s = 0 then ['0', 'm', 's'] else []

/-- The text of a positive time. -/
def elapsed (t : Nat) : List Char :=
  let d := t / millisInDay
  let dr := t % millisInDay
  let h := dr / millisInHour
  let hr := dr % millisInHour
  let m := hr / millisInMinute
  let mr := hr % millisInMinute
  let s := mr / millisInSecond
  let sr := mr % millisInSecond
  withoutLastSpace (units d dr h m mr s sr)

/-- `makeTimeString` with so much room on the stack; a call without room has no result. -/
def makeTimeString : Nat → Int64 → Option (List Char)
  | 0, _ => none
  | depth + 1, t =>
      if t = 0 then some ['0', 'm', 's']
      else if t < 0 then (makeTimeString depth (-t)).map ('-' :: ·)
      else some (elapsed t.toInt.toNat)

end Printing

section Parsing

/-- Why a text is no time. -/
inductive NumberFormatException
  | nullString
  | notANumber (text : List Char)
  | unrecognisedWord (word : List Char)
  | unknownUnit (unit : List Char)
  | cannotCombine (timeString num unit : List Char)
  deriving DecidableEq

def oneOf (s : List Char) (names : List String) : Bool :=
  names.any fun name => equalsIgnoreCase s name.toList

def multiplier (s : List Char) : Option Nat :=
  if oneOf s ["ms", "milli", "millis", "millisec", "millisecs", "millisecond", "milliseconds"] then
    some 1
  else if oneOf s ["s", "sec", "secs", "second", "seconds"] then some 1000
  else if oneOf s ["m", "min", "mins", "minute", "minutes"] then some (60 * 1000)
  else if oneOf s ["h", "hr", "hrs", "hour", "hours"] then some (60 * 60 * 1000)
  else if oneOf s ["d", "day", "days"] then some (24 * 60 * 60 * 1000)
  else none

/-- The number and the unit at the end of a text, and what stands before them. The number may
be a word of its own. -/
def lastTerm (text : List Char) : List Char × List Char × List Char :=
  let timeString := trim text
  let s := toLowerCase (getLastWord timeString)
  let timeString := trim (timeString.take (timeString.length - s.length))
  let num := s.takeWhile fun c => c = '.' || c.isDigit
  if num = [] then
    let num := toLowerCase (getLastWord timeString)
    (num, s, trim (timeString.take (timeString.length - num.length)))
  else (num, s.drop num.length, timeString)

theorem length_trim_take_le (text : List Char) (n : Nat) : (trim (text.take n)).length ≤ n :=
  (length_trim_le _).trans (List.length_take_le n text)

theorem length_lastTerm {text : List Char} (more : (lastTerm text).1 ≠ []) :
    (lastTerm text).2.2.length < text.length := by
  have whole := length_trim_le text
  have last := length_getLastWord_le (trim text)
  unfold lastTerm at more ⊢
  dsimp only at more ⊢
  have before_le := length_trim_take_le (trim text)
    ((trim text).length - (toLowerCase (getLastWord (trim text))).length)
  split at more
  next no_digits =>
    rw [if_pos no_digits]
    generalize trim ((trim text).take _) = before at more before_le ⊢
    have word := length_getLastWord_le before
    have rest_le := length_trim_take_le before
      (before.length - (toLowerCase (getLastWord before)).length)
    have some_word := List.length_pos_iff.mpr more
    dsimp only at some_word ⊢
    rw [length_toLowerCase] at some_word rest_le
    rw [length_toLowerCase] at before_le ⊢
    omega
  next digits =>
    rw [if_neg digits]
    have some_word : 0 < (toLowerCase (getLastWord (trim text))).length := by
      refine List.length_pos_iff.mpr fun same => digits ?_
      rw [same]
      rfl
    rw [length_toLowerCase] at some_word before_le
    dsimp only
    rw [length_toLowerCase]
    omega

/-- What a text says that ends in no number. -/
def parseWord (s : List Char) : Except NumberFormatException ParsedDouble :=
  if oneOf s ["never", "off", "false"] then .ok (.finite (-1)) else .error (.unrecognisedWord s)

/-- `d*multiplier` -/
def parseTerm (num s : List Char) : Except NumberFormatException ParsedDouble :=
  match multiplier s with
  | none => .error (.unknownUnit s)
  | some multiplier =>
      match parseDouble num with
      | none => .error (.notANumber num)
      | some d => .ok (scale multiplier d)

def parseTimeStringAsDouble (timeString : List Char) :
    Except NumberFormatException ParsedDouble :=
  match parseDouble timeString with
  | some d => .ok d
  | none =>
      let num := (lastTerm timeString).1
      let s := (lastTerm timeString).2.1
      let before := (lastTerm timeString).2.2
      if _more : num = [] then parseWord s
      else
        match parseTerm num s with
        | .error exception => .error exception
        | .ok d =>
            if before = [] then .ok (add d (.finite 0))
            else
              match parseTimeStringAsDouble before with
              | .error exception => .error exception
              | .ok dd =>
                  if dd = .finite (-1) then .error (.cannotCombine before num s)
                  else .ok (add d dd)
termination_by timeString.length
decreasing_by exact length_lastTerm _more

def parseTimeString : Option (List Char) → Except NumberFormatException Int
  | none => .error .nullString
  | some timeString => (parseTimeStringAsDouble timeString).map toLong

end Parsing

end Brooklyn.TimeStrings

/-!
Times of several terms, a number and a unit each. The parser takes the last word for the last unit,
with its number in the same word or the one before, and what stands before them is read from the
start again.
-/

namespace Brooklyn.TimeStrings
open ParsedDouble

section Units

def unitNames : List String :=
  ["ms", "milli", "millis", "millisec", "millisecs", "millisecond", "milliseconds", "s", "sec",
    "secs", "second", "seconds", "m", "min", "mins", "minute", "minutes", "h", "hr", "hrs", "hour",
    "hours", "d", "day", "days"]

def unitLetters : List Char :=
  ['a', 'c', 'd', 'e', 'h', 'i', 'l', 'm', 'n', 'o', 'r', 's', 't', 'u', 'y']

/-- What is true of a letter of a unit, capital or not. -/
theorem of_unitLetter {c : Char} (letter : c.toLower ∈ unitLetters) :
    ' ' < c ∧ c.isDigit = false ∧ c ≠ 'x' ∧ c ≠ 'X' := by
  have not_x : c ≠ 'x' ∧ c ≠ 'X' := by
    constructor <;> rintro rfl <;> exact absurd letter (by decide)
  rcases toLower_cases c with same | ⟨⟨above, -⟩, -⟩
  · have plain : ∀ d ∈ unitLetters, ' ' < d ∧ d.isDigit = false := forall_of_all (by decide)
    obtain ⟨visible, no_digit⟩ := plain c (same ▸ letter)
    exact ⟨visible, no_digit, not_x⟩
  · refine ⟨Char.not_le.mp fun low => absurd (UInt32.le_trans above low) (by decide), ?_, not_x⟩
    refine Bool.eq_false_iff.mpr fun digit => ?_
    simp only [Char.isDigit, Bool.and_eq_true, decide_eq_true_eq] at digit
    exact absurd (UInt32.le_trans above digit.2) (by decide)

theorem multiplier_alike {unit other : List Char} (alike : toLowerCase unit = toLowerCase other) :
    multiplier unit = multiplier other := by
  have same : oneOf unit = oneOf other := by
    funext names
    simp only [oneOf, equalsIgnoreCase, alike]
  rw [multiplier, same]
  rfl

variable {unit : List Char} {factor : Nat} (supported : multiplier unit = some factor)
include supported

theorem unit_named : ∃ name ∈ unitNames, toLowerCase unit = name.toList := by
  have lower : ∀ name ∈ unitNames, toLowerCase name.toList = name.toList := by decide
  have listed : ∀ names, names ⊆ unitNames → oneOf unit names = true →
      ∃ name ∈ unitNames, toLowerCase unit = name.toList := by
    intro names known found
    obtain ⟨name, member, same⟩ := List.any_eq_true.mp found
    exact ⟨name, known member, (beq_iff_eq.mp same).trans (lower name (known member))⟩
  unfold multiplier at supported
  split_ifs at supported with ms s m h d
  · exact listed _ (by decide) ms
  · exact listed _ (by decide) s
  · exact listed _ (by decide) m
  · exact listed _ (by decide) h
  · exact listed _ (by decide) d

theorem unit_letters : ∀ c ∈ unit, c.toLower ∈ unitLetters := by
  obtain ⟨name, member, same⟩ := unit_named supported
  have letters : ∀ name ∈ unitNames, name.toList ⊆ unitLetters := by decide
  intro c inside
  exact letters name member (same ▸ List.mem_map_of_mem inside)

theorem unit_head : ∃ first rest, unit = first :: rest ∧ first.toLower ∈ ['m', 's', 'h', 'd'] := by
  obtain ⟨name, member, same⟩ := unit_named supported
  have heads : ∀ name ∈ unitNames, name.toList.head?.any (['m', 's', 'h', 'd'].contains ·) := by
    decide
  have head := heads name member
  rw [← same] at head
  cases unit with
  | nil => cases head
  | cons first rest => exact ⟨first, rest, rfl, List.contains_iff_mem.mp head⟩

theorem unit_ne_nil : unit ≠ [] := by
  obtain ⟨first, rest, rfl, -⟩ := unit_head supported
  exact List.cons_ne_nil _ _

theorem unit_visible : Visible unit := fun c member =>
  (of_unitLetter (unit_letters supported c member)).1

/-- A unit is a unit in lower case. -/
theorem unit_lower : multiplier (toLowerCase unit) = some factor := by
  obtain ⟨name, member, same⟩ := unit_named supported
  have lower : ∀ name ∈ unitNames, toLowerCase name.toList = name.toList := by decide
  have again : toLowerCase (toLowerCase unit) = toLowerCase unit := by
    rw [same, lower name member]
  rw [multiplier_alike again, supported]

end Units

section Terms

/-- A number and a unit, with spaces between them or none. -/
structure Term where
  number : DecimalNumber
  gap : Nat
  unit : List Char
  factor : Nat
  supported : multiplier unit = some factor

def Term.text (term : Term) : List Char :=
  term.number.text ++ (List.replicate term.gap ' ' ++ term.unit)

/-- What a term stands for. -/
def Term.millis (term : Term) : ℚ := term.number.value * term.factor

/-- Terms with spaces between them, or none. -/
inductive Terms
  | one (term : Term)
  | more (before : Terms) (spaces : Nat) (term : Term)

namespace Terms

def text : Terms → List Char
  | one term => term.text
  | more before spaces term => before.text ++ (List.replicate spaces ' ' ++ term.text)

def total : Terms → ℚ
  | one term => term.millis
  | more before _ term => before.total + term.millis

end Terms

theorem toLower_numeric {c : Char} (numeric : c = '.' ∨ c.isDigit = true) : c.toLower = c :=
  numeric.elim (fun point => point ▸ rfl) toLower_of_isDigit

/-- A space, or a character that is visible and no sign of a hexadecimal literal. -/
structure TermChar (c : Char) : Prop where
  blank : c = ' ' ∨ ' ' < c
  lower : c ≠ 'x'
  upper : c ≠ 'X'

theorem TermChar.toLower {c : Char} (char : TermChar c) : TermChar c.toLower := by
  rcases toLower_cases c with same | ⟨⟨above, -⟩, raised⟩
  · rwa [same]
  · have capital : 65 ≤ c.toNat := above
    refine ⟨Or.inr (show 32 < c.toLower.toNat by omega), fun same => ?_, fun same => ?_⟩
    · exact (eq_of_toLower same (show 'x'.toNat = 'X'.toNat + 32 from rfl)).elim char.lower char.upper
    · have code : c.toLower.toNat = 88 := by rw [same]; rfl
      omega

/-- A text that ends in a unit. -/
theorem trim_unit {front unit : List Char} {factor : Nat}
    (supported : multiplier unit = some factor)
    (start : ∀ c ∈ (front ++ unit).head?, ' ' < c) : trim (front ++ unit) = front ++ unit := by
  refine trim_eq_self start fun c last => ?_
  rw [List.getLast?_append_of_ne_nil _ (unit_ne_nil supported)] at last
  exact unit_visible supported c (List.mem_of_mem_getLast? last)

namespace Terms

end Terms

end Terms

section LastTerm

abbrev isNumeric (c : Char) : Bool := c = '.' || c.isDigit

structure Numeral (num : List Char) : Prop where
  more : num ≠ []
  digits : ∀ c ∈ num, c = '.' ∨ c.isDigit = true

theorem Numeral.word {num : List Char} (numeral : Numeral num) : Visible num := fun c member =>
  (numeral.digits c member).elim (fun point => point ▸ by decide) visible_of_isDigit

theorem Numeral.lower {num : List Char} (numeral : Numeral num) : toLowerCase num = num :=
  (List.map_congr_left fun c member => toLower_numeric (numeral.digits c member)).trans
    (List.map_id _)

/-- The last word of a text is a unit, or a number with its unit. -/
theorem lastTerm_word {front word : List Char} (whole : trim (front ++ word) = front ++ word)
    (last : getLastWord (front ++ word) = word) :
    lastTerm (front ++ word) =
      if (toLowerCase word).takeWhile isNumeric = [] then
        (toLowerCase (getLastWord (trim front)), toLowerCase word,
          trim ((trim front).take ((trim front).length - (getLastWord (trim front)).length)))
      else
        ((toLowerCase word).takeWhile isNumeric,
          (toLowerCase word).drop ((toLowerCase word).takeWhile isNumeric).length,
          trim front) := by
  have taken : (front ++ word).take ((front ++ word).length - word.length) = front :=
    List.take_left' (by rw [List.length_append]; omega)
  unfold lastTerm
  dsimp only
  rw [whole, last, length_toLowerCase, taken, length_toLowerCase]

/-- The number is found, behind its sign only as a word of its own. -/
def Term.numberFound (term : Term) : Bool := term.gap ≠ 0 ∨ term.number.sign = .unsigned

theorem no_word_before {front : List Char} (apart : ∀ c ∈ front.getLast?, c = ' ') :
    (front.reverse.takeWhile (· ≠ ' ')).reverse = [] := by
  rcases List.eq_nil_or_concat front with rfl | ⟨before, c, rfl⟩
  · rfl
  · obtain rfl := apart c (by simp)
    simp

theorem not_numeric {letter : Char} (head : letter ∈ ['m', 's', 'h', 'd']) :
    isNumeric letter = false := by
  have heads : ∀ c ∈ ['m', 's', 'h', 'd'], isNumeric c = false := forall_of_all (by decide)
  exact heads letter head

theorem takeWhile_unit {unit : List Char} {factor : Nat}
    (supported : multiplier unit = some factor) :
    ∀ c ∈ (toLowerCase unit).head?, isNumeric c = false := by
  obtain ⟨first, rest, rfl, head⟩ := unit_head supported
  intro c same
  obtain rfl : first.toLower = c := by simpa [toLowerCase] using same
  exact not_numeric head

variable {front unit : List Char} {factor : Nat} (apart : ∀ c ∈ front.getLast?, c = ' ')
  (supported : multiplier unit = some factor)
include apart supported

/-- The last word is digits with a unit behind them. -/
theorem lastTerm_attached {num : List Char} (numeral : Numeral num)
    (start : ∀ c ∈ (front ++ (num ++ unit)).head?, ' ' < c) :
    lastTerm (front ++ (num ++ unit)) = (num, toLowerCase unit, trim front) := by
  have word := numeral.word.append (unit_visible supported)
  have whole : trim (front ++ (num ++ unit)) = front ++ (num ++ unit) := by
    rw [← List.append_assoc] at start ⊢
    exact trim_unit supported start
  have last := getLastWord_append word whole
  rw [no_word_before apart, List.nil_append] at last
  have lower : toLowerCase (num ++ unit) = num ++ toLowerCase unit := by
    rw [toLowerCase_append, numeral.lower]
  have numeric : ∀ c ∈ num, isNumeric c = true := fun c member => by
    simpa using numeral.digits c member
  have taken := (span_append numeric (takeWhile_unit supported)).1
  rw [lastTerm_word whole last, lower, taken, if_neg numeral.more, List.drop_left]

end LastTerm

section Refused
variable {text : List Char}

end Refused

namespace Terms

/-- What the parser finds, if anything. The first term may be a literal with the suffix of a
double, and -1 stands for no time. -/
def reading : Terms → Option ℚ
  | one term =>
      if term.gap = 0 ∧ toLowerCase term.unit = ['d'] then some term.number.value
      else if term.numberFound then some term.millis
      else none
  | more before spaces term =>
      if spaces ≠ 0 ∧ term.numberFound then
        before.reading.bind fun earlier =>
          if earlier = -1 then none else some (earlier + term.millis)
      else none

end Terms

section Parsed

theorem parse_found {text before num unit : List Char} {value : ℚ} {factor : Nat}
    (fast : parseDouble text = none) (supported : multiplier unit = some factor) (more : num ≠ [])
    (read : parseDouble num = some (.finite value))
    (found : lastTerm text = (num, toLowerCase unit, before)) :
    parseTimeStringAsDouble text =
      if before = [] then .ok (.finite (value * factor))
      else
        match parseTimeStringAsDouble before with
        | .error exception => .error exception
        | .ok dd =>
            if dd = .finite (-1) then .error (.cannotCombine before num (toLowerCase unit))
            else .ok (add (.finite (value * factor)) dd) := by
  have last : parseTerm num (toLowerCase unit) = .ok (.finite (value * factor)) := by
    rw [parseTerm, unit_lower supported, read]
    rfl
  rw [parseTimeStringAsDouble, fast]
  dsimp only
  rw [found]
  dsimp only
  rw [dif_neg more, last]
  dsimp only
  have sum : add (.finite (value * factor)) (.finite 0) = .finite (value * factor) := by
    rw [add, add_zero]
  exact congrArg (fun d => if before = [] then Except.ok d else _) sum

namespace Terms

/-- There are spaces between terms, a number with a sign stands apart from its unit, the terms
before another one are not -1 together, and the first is no number attached to the unit of the
days, unless it is zero. -/
def Readable : Terms → Prop
  | one term =>
      if term.gap = 0 ∧ toLowerCase term.unit = ['d'] then term.number.value = 0
      else term.numberFound = true
  | more before spaces term =>
      before.Readable ∧ before.total ≠ -1 ∧ spaces ≠ 0 ∧ term.numberFound = true

end Terms

end Parsed

end Brooklyn.TimeStrings
