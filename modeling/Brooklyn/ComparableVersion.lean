import Brooklyn.JavaText

/-!
`ComparableVersion` and the `NaturalOrderComparator` it compares with, over what is left to read of
the two strings. Which characters are spaces and digits is a parameter; there is character 0 where
a string has ended, which is neither.
-/

namespace Brooklyn

section NaturalOrder
variable (isSpaceChar isDigit : Char → Bool)

/-- Spaces and zeros at the front are skipped. The zeros right before what follows are counted. -/
def skipLeading : Nat → List Char → List Char × Nat
  | nz, [] => ([], nz)
  | nz, c :: rest =>
      if isSpaceChar c || c == '0' then skipLeading (if c = '0' then nz + 1 else 0) rest
      else (c :: rest, nz)

def charAt : List Char → Char
  | [] => '\x00'
  | c :: _ => c

def startsWithDigit : List Char → Bool
  | [] => false
  | c :: _ => isDigit c

def compareRight (bias : Int) : List Char → List Char → Int
  | ca :: a, cb :: b =>
      if !isDigit ca && !isDigit cb then bias
      else if !isDigit ca then -1
      else if !isDigit cb then 1
      else if ca < cb then compareRight (if bias = 0 then -1 else bias) a b
      else if cb < ca then compareRight (if bias = 0 then 1 else bias) a b
      else compareRight bias a b
  | [], b => if startsWithDigit isDigit b then -1 else bias
  | a, [] => if startsWithDigit isDigit a then 1 else bias

theorem length_skipLeading (nz : Nat) (text : List Char) :
    (skipLeading isSpaceChar nz text).1.length ≤ text.length := by
  induction text generalizing nz with
  | nil => exact Nat.le_refl _
  | cons c rest ih =>
    rw [skipLeading]
    split
    · exact Nat.le_succ_of_le (ih _)
    · exact Nat.le_refl _

/-- `NaturalOrderComparator.compare` -/
def naturalOrder (a b : List Char) : Int :=
  let skippedA := skipLeading isSpaceChar 0 a
  let skippedB := skipLeading isSpaceChar 0 b
  let result :=
    if startsWithDigit isDigit skippedA.1 && startsWithDigit isDigit skippedB.1 then
      compareRight isDigit 0 skippedA.1 skippedB.1
    else 0
  if result ≠ 0 then result
  else
    let ca := charAt skippedA.1
    let cb := charAt skippedB.1
    if _ended : ca = '\x00' ∧ cb = '\x00' then skippedA.2 - skippedB.2
    else if _below : ca < cb then -1
    else if _above : cb < ca then 1
    else naturalOrder skippedA.1.tail skippedB.1.tail
termination_by a.length
decreasing_by
  -- The characters are the same and not both the 0 of an end, so one is behind.
  have shorter := length_skipLeading isSpaceChar 0 a
  have same : charAt (skipLeading isSpaceChar 0 a).1 = charAt (skipLeading isSpaceChar 0 b).1 :=
    Char.le_antisymm (Char.not_lt.mp _above) (Char.not_lt.mp _below)
  cases left : (skipLeading isSpaceChar 0 a).1 with
  | nil =>
    have ended : charAt (skipLeading isSpaceChar 0 a).1 = '\x00' := by rw [left]; rfl
    exact absurd ⟨ended, same.symm.trans ended⟩ _ended
  | cons c rest =>
    rw [left, List.length_cons] at shorter
    exact shorter

end NaturalOrder

structure ComparableVersion where
  version : List Char

namespace ComparableVersion

/-- What is wrong with a range. -/
inductive RangeProblem
  | mustStartWithBracket
  | mustEndWithBracket
  | mustContainComma
  deriving DecidableEq

section Ranges
variable (isSpaceChar isDigit : Char → Bool) (self : ComparableVersion)

def compareTo (target : List Char) : Int := naturalOrder isSpaceChar isDigit self.version target

def isGreaterThanOrEqualTo (target : List Char) : Bool :=
  self.compareTo isSpaceChar isDigit target ≥ 0

def isGreaterThanAndNotEqualTo (target : List Char) : Bool :=
  self.compareTo isSpaceChar isDigit target > 0

def isLessThanOrEqualTo (target : List Char) : Bool :=
  self.compareTo isSpaceChar isDigit target ≤ 0

def isLessThanAndNotEqualTo (target : List Char) : Bool :=
  self.compareTo isSpaceChar isDigit target < 0

/-- `isInRange` of two bounds. -/
def isInRange (lowerBound upperBound : List Char) : Bool :=
  self.isGreaterThanAndNotEqualTo isSpaceChar isDigit lowerBound &&
    self.isLessThanAndNotEqualTo isSpaceChar isDigit upperBound

/-- Whether the bracket at the front, or at the back, leaves out the bound itself. -/
def strictness (exclusive inclusive : Char) (problem : RangeProblem) (bracket : Option Char) :
    Except RangeProblem Bool :=
  if bracket = some exclusive then .ok true
  else if bracket = some inclusive then .ok false
  else .error problem

/-- `isInRange` of a text. -/
def isInRangeText (range : List Char) : Except RangeProblem Bool := do
  let r := trim range
  let strictLeft ← strictness '(' '[' .mustStartWithBracket r.head?
  let strictRight ← strictness ')' ']' .mustEndWithBracket r.getLast?
  if ',' ∉ r then .error .mustContainComma
  else
    let left := trim (r.tail.takeWhile (· ≠ ','))
    let right := trim ((r.dropWhile (· ≠ ',')).drop 1).dropLast
    let order := self.compareTo isSpaceChar isDigit
    .ok
      (if left ≠ [] ∧ (if strictLeft then order left ≤ 0 else order left < 0) then false
      else if right ≠ [] ∧ (if strictRight then order right ≥ 0 else order right > 0) then false
      else true)

end Ranges

section Equal
variable {isSpaceChar isDigit : Char → Bool}

theorem compareRight_self (text : List Char) : compareRight isDigit 0 text text = 0 := by
  induction text with
  | nil => rfl
  | cons c rest ih =>
    rw [compareRight, if_neg (Char.lt_irrefl c), if_neg (Char.lt_irrefl c), ih]
    cases isDigit c <;> rfl

/-- A version is equal to itself. -/
theorem naturalOrder_self (text : List Char) : naturalOrder isSpaceChar isDigit text text = 0 := by
  induction size : text.length using Nat.strongRecOn generalizing text with
  | _ size ih =>
    rw [naturalOrder]
    have even : (if startsWithDigit isDigit (skipLeading isSpaceChar 0 text).1 &&
        startsWithDigit isDigit (skipLeading isSpaceChar 0 text).1 then
          compareRight isDigit 0 (skipLeading isSpaceChar 0 text).1
            (skipLeading isSpaceChar 0 text).1
        else 0) = 0 := by
      rw [compareRight_self, ite_self]
    dsimp only
    rw [even, if_neg (not_not_intro rfl), dif_neg (Char.lt_irrefl _), dif_neg (Char.lt_irrefl _)]
    split
    · exact Int.sub_self _
    next more =>
      have shorter := length_skipLeading isSpaceChar 0 text
      cases left : (skipLeading isSpaceChar 0 text).1 with
      | nil => exact absurd (by rw [left]; exact ⟨rfl, rfl⟩) more
      | cons c rest =>
        rw [left, List.length_cons] at shorter
        exact ih rest.length (by omega) rest rfl

end Equal

section Bounds
variable {isSpaceChar isDigit : Char → Bool}

/-- A text without commas, brackets and white space. -/
structure BoundText (text : List Char) : Prop where
  nonempty : text ≠ []
  visible : Visible text
  plain : ∀ c ∈ text, c ∉ [',', '(', ')', '[', ']']

/-- The text of a range with both its bounds. -/
def closedRange (lower upper : List Char) : List Char := '[' :: (lower ++ ',' :: (upper ++ [']']))

theorem isInRangeText_closed (self : ComparableVersion) {lower upper : List Char}
    (low : BoundText lower) (high : BoundText upper) :
    self.isInRangeText isSpaceChar isDigit (closedRange lower upper) =
      .ok (self.isGreaterThanOrEqualTo isSpaceChar isDigit lower &&
        self.isLessThanOrEqualTo isSpaceChar isDigit upper) := by
  have no_comma : ∀ c ∈ lower, decide (c ≠ ',') = true := fun c member =>
    decide_eq_true fun comma => low.plain c member (by rw [comma]; exact List.mem_cons_self)
  have last : (closedRange lower upper).getLast? = some ']' := by
    have split : closedRange lower upper = ('[' :: (lower ++ ',' :: upper)) ++ [']'] := by
      simp [closedRange]
    rw [split, List.getLast?_concat]
  have trimmed : trim (closedRange lower upper) = closedRange lower upper := by
    refine trim_eq_self (fun c head => ?_) fun c back => ?_
    · cases head
      decide
    · rw [last] at back
      cases back
      decide
  have front : (lower ++ ',' :: (upper ++ [']'])).takeWhile (· ≠ ',') = lower := by
    rw [List.takeWhile_append_of_pos no_comma]
    simp
  have behind : (closedRange lower upper).dropWhile (· ≠ ',') = ',' :: (upper ++ [']']) := by
    rw [closedRange, List.dropWhile_cons_of_pos (by decide), List.dropWhile_append_of_pos no_comma]
    simp
  have comma : ',' ∈ closedRange lower upper := by simp [closedRange]
  have opening : strictness '(' '[' .mustStartWithBracket (closedRange lower upper).head? =
      .ok false := by simp [strictness, closedRange]
  have closing : strictness ')' ']' .mustEndWithBracket (some ']') = .ok false := by
    simp [strictness]
  rw [isInRangeText, trimmed, last]
  simp only [opening, closing, bind, Except.bind]
  rw [if_neg (not_not_intro comma), behind, List.drop_one, List.tail_cons, List.dropLast_concat,
    closedRange, List.tail_cons, front, low.visible.trim, high.visible.trim]
  rw [isGreaterThanOrEqualTo, isLessThanOrEqualTo]
  congr 1
  by_cases below : self.compareTo isSpaceChar isDigit lower < 0
  · simp [low.nonempty, below, Int.not_le.mpr below]
  · by_cases above : self.compareTo isSpaceChar isDigit upper > 0
    · simp [high.nonempty, above, Int.not_le.mpr above]
    · simp [below, above, Int.not_lt.mp below, Int.not_lt.mp above]

/-- The two forms agree unless the version is one of the bounds and not outside of the other. -/
theorem isInRange_closed_iff (self : ComparableVersion) {lower upper : List Char}
    (low : BoundText lower) (high : BoundText upper) :
    self.isInRangeText isSpaceChar isDigit (closedRange lower upper) =
        .ok (self.isInRange isSpaceChar isDigit lower upper) ↔
      (self.compareTo isSpaceChar isDigit lower = 0 →
          self.compareTo isSpaceChar isDigit upper > 0) ∧
        (self.compareTo isSpaceChar isDigit upper = 0 →
          self.compareTo isSpaceChar isDigit lower < 0) := by
  rw [isInRangeText_closed self low high, Except.ok.injEq, Bool.eq_iff_iff, isInRange,
    Bool.and_eq_true, Bool.and_eq_true, isGreaterThanOrEqualTo, isLessThanOrEqualTo,
    isGreaterThanAndNotEqualTo, isLessThanAndNotEqualTo]
  simp only [decide_eq_true_eq]
  omega

theorem boundText_digit {c : Char} (digit : c.isDigit = true) : BoundText [c] := by
  have large : '0' ≤ c := by
    simp only [Char.isDigit, Bool.and_eq_true, decide_eq_true_eq] at digit
    exact digit.1
  refine ⟨List.cons_ne_nil _ _, fun d member => ?_, fun d member => ?_⟩
  · rw [List.mem_singleton.mp member]
    exact UInt32.lt_of_lt_of_le (show ' '.val < '0'.val by decide) large
  · rw [List.mem_singleton.mp member]
    intro special
    simp only [List.mem_cons, List.not_mem_nil, or_false] at special
    rcases special with rfl | rfl | rfl | rfl | rfl <;> cases digit

/-- Version 2 is between 1 and 3 in both forms. -/
theorem two_in_range :
    ComparableVersion.isInRangeText (· = ' ') Char.isDigit ⟨['2']⟩ (closedRange ['1'] ['3']) =
      .ok (ComparableVersion.isInRange (· = ' ') Char.isDigit ⟨['2']⟩ ['1'] ['3']) := by
  have above : naturalOrder (· = ' ') Char.isDigit ['2'] ['1'] = 1 := by
    rw [naturalOrder]
    decide
  have below : naturalOrder (· = ' ') Char.isDigit ['2'] ['3'] = -1 := by
    rw [naturalOrder]
    decide
  refine (isInRange_closed_iff ⟨['2']⟩ (boundText_digit (by decide))
    (boundText_digit (by decide))).mpr ⟨fun same => ?_, fun same => ?_⟩
  · rw [compareTo, above] at same
    cases same
  · rw [compareTo, below] at same
    cases same

/-- Version 1 is not between the bounds 1 and 2, but it is in the range of the text. -/
theorem lower_bound_left_out :
    ComparableVersion.isInRange (· = ' ') Char.isDigit ⟨['1']⟩ ['1'] ['2'] = false ∧
      ComparableVersion.isInRangeText (· = ' ') Char.isDigit ⟨['1']⟩ (closedRange ['1'] ['2']) =
        .ok true := by
  have same : naturalOrder (· = ' ') Char.isDigit ['1'] ['1'] = 0 := naturalOrder_self ['1']
  have below : naturalOrder (· = ' ') Char.isDigit ['1'] ['2'] = -1 := by
    rw [naturalOrder]
    decide
  constructor
  · rw [isInRange, isGreaterThanAndNotEqualTo, compareTo, same]
    rfl
  · rw [isInRangeText_closed _ (boundText_digit (by decide)) (boundText_digit (by decide)),
      isGreaterThanOrEqualTo, isLessThanOrEqualTo, compareTo, compareTo, same, below]
    rfl

end Bounds
end ComparableVersion
end Brooklyn
