import Brooklyn.NumericRanges
import Brooklyn.Rounds

/-!
What a numeric range stands for, and what the loop over its numbers makes of it. The loop ends
for bounds below the greatest `int` and never ends for that one.
-/

namespace Brooklyn.WildcardGlobs
open Rounds

section Shape

/-- Digits, at least one. -/
def DigitText (text : List Char) : Prop := text ≠ [] ∧ ∀ c ∈ text, c.isDigit = true

theorem afterDigits_shape {text rest : List Char} (matched : afterDigits text = some rest) :
    ∃ front digits back, text = front ++ digits ++ back ++ rest ∧ DigitText digits ∧
      (∀ c ∈ front, isSpace c = true) ∧ ∀ c ∈ back, isSpace c = true := by
  obtain ⟨some_digit, same⟩ := Option.ite_none_left_eq_some.mp matched
  cases same
  refine ⟨text.takeWhile isSpace, (text.dropWhile isSpace).takeWhile Char.isDigit,
    ((text.dropWhile isSpace).dropWhile Char.isDigit).takeWhile isSpace, ?_,
    ⟨fun nothing => some_digit (by rw [nothing]; rfl), fun c member => ?_⟩, fun c member => ?_,
    fun c member => ?_⟩
  · rw [List.append_assoc, List.append_assoc, List.takeWhile_append_dropWhile,
      List.takeWhile_append_dropWhile, List.takeWhile_append_dropWhile]
  all_goals exact List.mem_takeWhile_imp member

theorem low_of_isSpace {c : Char} (space : isSpace c = true) : c ≤ ' ' := by
  have listed : c ∈ [' ', '\t', '\n', '\x0b', '\x0c', '\r'] := of_decide_eq_true space
  have all : ∀ space ∈ [' ', '\t', '\n', '\x0b', '\x0c', '\r'], space ≤ ' ' := by simp
  exact all c listed

theorem trim_spaced {front digits back : List Char} (digit_text : DigitText digits)
    (before : ∀ c ∈ front, isSpace c = true) (behind : ∀ c ∈ back, isSpace c = true) :
    trim (front ++ digits ++ back) = digits := by
  obtain ⟨more, all⟩ := digit_text
  have visible : ∀ c ∈ digits, decide (c ≤ ' ') = false := fun c member =>
    decide_eq_false (Char.not_le.mpr (visible_of_isDigit (all c member)))
  have front_dropped : (front ++ digits ++ back).dropWhile (· ≤ ' ') = digits ++ back := by
    rw [List.append_assoc, List.dropWhile_append_of_pos fun c member =>
      decide_eq_true (low_of_isSpace (before c member))]
    refine dropWhile_eq_self fun c head => visible c ?_
    obtain ⟨first, rest, rfl⟩ := List.exists_cons_of_ne_nil more
    cases head
    exact List.mem_cons_self
  have back_dropped : (digits ++ back).reverse.dropWhile (· ≤ ' ') = digits.reverse := by
    rw [List.reverse_append, List.dropWhile_append_of_pos fun c member =>
      decide_eq_true (low_of_isSpace (behind c (List.mem_reverse.mp member)))]
    exact dropWhile_eq_self fun c head =>
      visible c (List.mem_reverse.mp (List.mem_of_mem_head? head))
  rw [trim, front_dropped, back_dropped, List.reverse_reverse]

variable {token : List Char}

/-- The texts of the two bounds are digits, and the range is longer than the second. -/
theorem range_texts (range : isNumericRange token = true) :
    DigitText (startText token) ∧ DigitText (endText token) ∧
      (endText token).length ≤ token.length := by
  unfold isNumericRange at range
  split at range
  next rest matched =>
    obtain ⟨front, digits, back, rfl, first, before, behind⟩ := afterDigits_shape matched
    obtain ⟨gap, others, tail, rfl, second, inside, after⟩ :=
      afterDigits_shape (beq_iff_eq.mp range)
    have no_dash : ∀ c ∈ front ++ digits ++ back, decide (c ≠ '-') = true := by
      intro c member
      refine decide_eq_true ?_
      rintro rfl
      rcases List.mem_append.mp member with early | late
      · rcases List.mem_append.mp early with spaces | number
        · exact absurd (before _ spaces) (by decide)
        · exact absurd (first.2 _ number) (by decide)
      · exact absurd (behind _ late) (by decide)
    have start : startText (front ++ digits ++ back ++ '-' :: (gap ++ others ++ tail ++ [])) =
        digits := by
      rw [startText, List.takeWhile_append_of_pos no_dash, List.takeWhile_cons_of_neg (by simp),
        List.append_nil, trim_spaced first before behind]
    have stop : endText (front ++ digits ++ back ++ '-' :: (gap ++ others ++ tail ++ [])) =
        others := by
      rw [endText, List.dropWhile_append_of_pos no_dash, List.dropWhile_cons_of_neg (by simp),
        List.drop_succ_cons, List.drop_zero, List.append_nil, trim_spaced second inside after]
    rw [start, stop]
    refine ⟨first, second, ?_⟩
    simp only [List.length_append, List.length_cons]
    omega
  next => cases range

theorem DigitText.withoutMinus {text : List Char} (digit_text : DigitText text) :
    withoutMinus text = text := by
  cases text with
  | nil => rfl
  | cons c rest =>
    have no_minus : c ≠ '-' := ne_of_isDigit (digit_text.2 c List.mem_cons_self) (by decide)
    unfold WildcardGlobs.withoutMinus
    split
    next same => exact absurd (List.cons_eq_cons.mp same).1 no_minus
    next => rfl

def maxInt : Nat := 2147483647

theorem DigitText.signedInteger {text : List Char} (digit_text : DigitText text) :
    signedInteger text = some (decimalValue text : Int) := by
  obtain ⟨more, all⟩ := digit_text
  have unsigned : splitSign text = (false, text) := by
    obtain ⟨c, rest, rfl⟩ := List.exists_cons_of_ne_nil more
    have digit := all c List.mem_cons_self
    have no_minus : c ≠ '-' := ne_of_isDigit digit (by decide)
    have no_plus : c ≠ '+' := ne_of_isDigit digit (by decide)
    simp [splitSign, no_minus, no_plus]
  simp only [Brooklyn.signedInteger, unsigned,
    if_pos (And.intro more (List.all_eq_true.mpr all))]
  rfl

theorem DigitText.parseInt_some {text : List Char} (digit_text : DigitText text)
    (range : decimalValue text ≤ maxInt) :
    NetworkUtils.parseInt text =
      some ⟨decimalValue text, by unfold maxInt at range; omega⟩ := by
  rw [NetworkUtils.parseInt, digit_text.signedInteger, Option.bind_some,
    dif_pos (by unfold maxInt at range; omega)]

theorem DigitText.parseInt_none {text : List Char} (digit_text : DigitText text)
    (outside : maxInt < decimalValue text) : NetworkUtils.parseInt text = none := by
  rw [NetworkUtils.parseInt, digit_text.signedInteger, Option.bind_some,
    dif_neg (by unfold maxInt at outside; omega)]

end Shape

section Counting

/-- The numbers from one to another, with zeros in front up to a length. -/
def numbers (minLen first last : Nat) : List (List Char) :=
  (List.range' first (last + 1 - first)).map fun n => padded minLen (Nat.toDigits 10 n)

theorem toInt_ofInt {n : Nat} (range : n ≤ maxInt) : (Int32.ofInt n).toInt = n := by
  unfold maxInt at range
  exact Int32.toInt_ofInt_of_le (by omega) (by omega)

theorem ofInt_le_iff {n last : Nat} (range : n ≤ maxInt) (below : last ≤ maxInt) :
    Int32.ofInt n ≤ Int32.ofInt last ↔ n ≤ last := by
  rw [Int32.le_iff_toInt_le, toInt_ofInt range, toInt_ofInt below, Int.ofNat_le]

theorem tokenOf_ofInt (minLen : Nat) {n : Nat} (range : n ≤ maxInt) :
    tokenOf minLen (Int32.ofInt n) = padded minLen (Nat.toDigits 10 n) := by
  have nonneg : ¬ Int32.ofInt n < 0 := by
    rw [Int32.lt_iff_toInt_lt, toInt_ofInt range]
    exact not_lt.mpr (Int.natCast_nonneg n)
  rw [tokenOf, if_neg nonneg, mathAbs, if_neg nonneg, intText, if_neg nonneg, toInt_ofInt range]
  rfl

theorem numbers_of_le (minLen : Nat) {first last : Nat} (more : first ≤ last) :
    numbers minLen first last =
      padded minLen (Nat.toDigits 10 first) :: numbers minLen (first + 1) last := by
  have size : last + 1 - first = (last + 1 - (first + 1)) + 1 := by omega
  rw [numbers, size, List.range'_succ, List.map_cons]
  rfl

theorem numbers_of_lt (minLen : Nat) {first last : Nat} (past : last < first) :
    numbers minLen first last = [] := by
  have size : last + 1 - first = 0 := by omega
  rw [numbers, size]
  rfl

theorem countUp_settles (minLen : Nat) {first last : Nat} (range : first ≤ maxInt)
    (below : last < maxInt) :
    Settles (fun rounds => countUp minLen (Int32.ofInt last) rounds (Int32.ofInt first))
      (numbers minLen first last) := by
  refine Settles.of_succ rfl ?_
  by_cases more : first ≤ last
  · have next : Int32.ofInt (first : Int) + 1 = Int32.ofInt ((first + 1 : Nat) : Int) := by
      rw [Int.natCast_add, Int32.ofInt_add]
      rfl
    have in_range : first + 1 ≤ maxInt := by omega
    have later := countUp_settles minLen in_range below
    rw [numbers_of_le minLen more, ← tokenOf_ofInt minLen range]
    simp only [countUp, if_pos ((ofInt_le_iff range below.le).mpr more), next]
    exact later.map _
  · rw [numbers_of_lt minLen (not_le.mp more)]
    refine Settles.of_always fun rounds => ?_
    rw [countUp, if_neg (mt (ofInt_le_iff range below.le).mp more)]
termination_by last + 1 - first

/-- No `int` is past the greatest. -/
theorem countUp_endless (minLen rounds : Nat) (ti : Int32) :
    countUp minLen (Int32.ofInt maxInt) rounds ti = none := by
  induction rounds generalizing ti with
  | zero => rfl
  | succ rounds ih =>
    have greatest : ti ≤ Int32.ofInt maxInt := by
      rw [Int32.le_iff_toInt_le, toInt_ofInt (Nat.le_refl maxInt)]
      have := ti.toInt_lt
      unfold maxInt
      omega
    rw [countUp, if_pos greatest, ih]
    rfl

end Counting

section Alternatives
variable {token : List Char}

def firstNumber (token : List Char) : Nat := decimalValue (startText token)

def lastNumber (token : List Char) : Nat := decimalValue (endText token)

/-- Both bounds are `int`s, and the loop can count past the second. -/
def Countable (token : List Char) : Prop :=
  isNumericRange token = true → firstNumber token ≤ maxInt ∧ lastNumber token < maxInt

instance (token : List Char) : Decidable (Countable token) :=
  inferInstanceAs (Decidable (_ → _))

/-- What a token stands for: each number of a range, from the first to the last. -/
def alternatives (token : List Char) : List (List Char) :=
  if isNumericRange token then
    numbers (min (startText token).length (endText token).length) (firstNumber token)
      (lastNumber token)
  else [token]

theorem minLen_eq (range : isNumericRange token = true) :
    minLen token = min (startText token).length (endText token).length := by
  obtain ⟨first, last, -⟩ := range_texts range
  rw [minLen, first.withoutMinus, last.withoutMinus]

theorem rangeTokens_counted (range : isNumericRange token = true)
    (first_range : firstNumber token ≤ maxInt) (last_range : lastNumber token ≤ maxInt)
    (rounds : Nat) :
    rangeTokens rounds token =
      (countUp (minLen token) (Int32.ofInt (lastNumber token)) rounds
        (Int32.ofInt (firstNumber token))).map .ok := by
  obtain ⟨first, last, -⟩ := range_texts range
  rw [rangeTokens, first.parseInt_some first_range]
  dsimp only
  rw [last.parseInt_some last_range]
  rfl

theorem expandToken_settles (countable : Countable token) :
    Settles (fun rounds => expandToken true rounds token) (.ok (alternatives token)) := by
  by_cases range : isNumericRange token = true
  · obtain ⟨first_range, last_below⟩ := countable range
    have counted := countUp_settles (minLen token) first_range last_below
    rw [alternatives, if_pos range, ← minLen_eq range]
    simp only [expandToken, range, Bool.and_self, if_true,
      rangeTokens_counted range first_range last_below.le]
    exact counted.map Except.ok
  · rw [alternatives, if_neg range]
    refine Settles.of_always fun rounds => ?_
    simp [expandToken, range]

/-- A range that cannot be counted has no outcome but the one exception. -/
theorem expandToken_uncountable (uncountable : ¬ Countable token) {rounds : Nat}
    {outcome : Except ExpansionFailure (List (List Char))}
    (returned : expandToken true rounds token = some outcome) :
    ∃ text, outcome = .error (.numberFormat text) := by
  obtain ⟨range, outside⟩ := Classical.not_imp.mp uncountable
  obtain ⟨first, last, -⟩ := range_texts range
  simp only [expandToken, range, Bool.and_self, if_true] at returned
  by_cases first_range : firstNumber token ≤ maxInt
  · by_cases last_range : lastNumber token ≤ maxInt
    · have greatest : lastNumber token = maxInt := by
        by_contra other
        exact outside ⟨first_range, Nat.lt_of_le_of_ne last_range other⟩
      rw [rangeTokens_counted range first_range last_range, greatest, countUp_endless] at returned
      cases returned
    · rw [rangeTokens, first.parseInt_some first_range] at returned
      dsimp only at returned
      rw [last.parseInt_none (not_le.mp last_range)] at returned
      exact ⟨_, (Option.some.inj returned).symm⟩
  · rw [rangeTokens, first.parseInt_none (not_le.mp first_range)] at returned
    exact ⟨_, (Option.some.inj returned).symm⟩

/-- What is put in front of the tokens that are expanded later. -/
def before (rounds : Nat) (tokens : List (List Char)) :
    Except ExpansionFailure (List (List Char)) →
      Option (Except ExpansionFailure (List (List Char)))
  | .error failure => some (.error failure)
  | .ok first => (expandTokens true rounds tokens).map fun more => more.map (first ++ ·)

theorem expandTokens_cons (rounds : Nat) (token : List Char) (tokens : List (List Char)) :
    expandTokens true rounds (token :: tokens) =
      (expandToken true rounds token).bind (before rounds tokens) := by
  rw [expandTokens]
  cases expandToken true rounds token with
  | none => rfl
  | some expanded =>
    cases expanded with
    | error failure => rfl
    | ok first =>
      simp only [Option.bind_some, before]
      cases expandTokens true rounds tokens with
      | none => rfl
      | some later => cases later <;> rfl

theorem expandTokens_settles {tokens : List (List Char)}
    (countable : ∀ token ∈ tokens, Countable token) :
    Settles (fun rounds => expandTokens true rounds tokens) (.ok (tokens.flatMap alternatives)) := by
  induction tokens with
  | nil => exact Settles.of_always fun _ => rfl
  | cons token tokens ih =>
    have first := expandToken_settles (countable token List.mem_cons_self)
    have later := ih fun other member => countable other (List.mem_cons_of_mem _ member)
    have behind : Settles (fun rounds => before rounds tokens (.ok (alternatives token)))
        (.ok (alternatives token ++ tokens.flatMap alternatives)) := later.map _
    simp only [expandTokens_cons, List.flatMap_cons]
    exact first.bind behind

theorem expandTokens_uncountable {tokens : List (List Char)}
    (uncountable : ¬ ∀ token ∈ tokens, Countable token) {rounds : Nat}
    {outcome : Except ExpansionFailure (List (List Char))}
    (returned : expandTokens true rounds tokens = some outcome) :
    ∃ text, outcome = .error (.numberFormat text) := by
  induction tokens generalizing outcome with
  | nil => exact absurd (fun _ member => by cases member) uncountable
  | cons token tokens ih =>
    rw [expandTokens_cons] at returned
    obtain ⟨expanded, here, there⟩ := Option.bind_eq_some_iff.mp returned
    by_cases countable : Countable token
    · obtain rfl := (expandToken_settles countable).only rounds expanded here
      obtain ⟨later, behind, rfl⟩ := Option.map_eq_some_iff.mp there
      have others : ¬ ∀ token ∈ tokens, Countable token := fun all =>
        uncountable (List.forall_mem_cons.mpr ⟨countable, all⟩)
      obtain ⟨text, rfl⟩ := ih others behind
      exact ⟨text, rfl⟩
    · obtain ⟨text, rfl⟩ := expandToken_uncountable countable here
      exact ⟨text, (Option.some.inj there).symm⟩

end Alternatives
end Brooklyn.WildcardGlobs
