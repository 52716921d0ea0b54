import Brooklyn.NetworkUtils
import Brooklyn.WildcardGlobs

/-!
`WildcardGlobs` where numeric ranges are allowed: an alternative that is a range of numbers
stands for each of the numbers. `rounds` bounds the turns of every loop; an outcome is missing
where they do not suffice.
-/

namespace Brooklyn.WildcardGlobs

inductive ExpansionFailure
  | invalidPattern (exception : InvalidPatternException)
  | numberFormat (text : List Char)
  deriving DecidableEq

section Tokens

/-- `\s` -/
def isSpace (c : Char) : Bool := c ∈ [' ', '\t', '\n', '\x0b', '\x0c', '\r']

/-- `\s*[0-9]+\s*`: what comes after it. -/
def afterDigits (text : List Char) : Option (List Char) :=
  let digits := text.dropWhile isSpace
  if (digits.takeWhile Char.isDigit).isEmpty then none
  else some ((digits.dropWhile Char.isDigit).dropWhile isSpace)

/-- `\s*[0-9]+\s*-\s*[0-9]+\s*` -/
def isNumericRange (token : List Char) : Bool :=
  match afterDigits token with
  | some ('-' :: rest) => afterDigits rest == some []
  | _ => false

def startText (token : List Char) : List Char := trim (token.takeWhile (· ≠ '-'))

def endText (token : List Char) : List Char := trim ((token.dropWhile (· ≠ '-')).drop 1)

def withoutMinus : List Char → List Char
  | '-' :: rest => trim rest
  | text => text

def minLen (token : List Char) : Nat :=
  min (withoutMinus (startText token)).length (withoutMinus (endText token)).length

def intText (n : Int32) : List Char :=
  (if n < 0 then ['-'] else []) ++ Nat.toDigits 10 n.toInt.natAbs

/-- `Math.abs`, which leaves the least `int` as it is. -/
def mathAbs (n : Int32) : Int32 := if n < 0 then -n else n

/-- Zeros in front, up to a length. -/
def padded (length : Nat) (text : List Char) : List Char :=
  List.replicate (length - text.length) '0' ++ text

def tokenOf (minLen : Nat) (ti : Int32) : List Char :=
  (if ti < 0 then ['-'] else []) ++ padded minLen (intText (mathAbs ti))

/-- The loop over the numbers of a range, which counts with an `int`. -/
def countUp (minLen : Nat) (last : Int32) : Nat → Int32 → Option (List (List Char))
  | 0, _ => none
  | rounds + 1, ti =>
      if ti ≤ last then (countUp minLen last rounds (ti + 1)).map (tokenOf minLen ti :: ·)
      else some []

def rangeTokens (rounds : Nat) (token : List Char) :
    Option (Except ExpansionFailure (List (List Char))) :=
  match NetworkUtils.parseInt (startText token) with
  | none => some (.error (.numberFormat (startText token)))
  | some first =>
      match NetworkUtils.parseInt (endText token) with
      | none => some (.error (.numberFormat (endText token)))
      | some last =>
          (countUp (minLen token) (Int32.ofInt last.1) rounds (Int32.ofInt first.1)).map .ok

variable (allowNumericRanges : Bool)

/-- What an alternative is replaced by. -/
def expandToken (rounds : Nat) (token : List Char) :
    Option (Except ExpansionFailure (List (List Char))) :=
  if allowNumericRanges && isNumericRange token then rangeTokens rounds token
  else some (.ok [token])

def expandTokens (rounds : Nat) :
    List (List Char) → Option (Except ExpansionFailure (List (List Char)))
  | [] => some (.ok [])
  | token :: tokens =>
      match expandToken allowNumericRanges rounds token with
      | none => none
      | some (.error failure) => some (.error failure)
      | some (.ok first) =>
          match expandTokens rounds tokens with
          | some (.ok more) => some (.ok (first ++ more))
          | other => other

end Tokens

section Expansion
variable (quoteTreatment parenthesesTreatment : PhraseTreatment)

/-- An expression without a choice, or its first choice. -/
inductive Scanned
  | glob (resultSoFar : List Char)
  | choice (resultSoFar : List Char) (tokens : List (List Char)) (suffix operatorStack : List Char)

/-- The loop over the characters of an expression, up to its first choice. -/
def scan : List Char → Option Char → List Char → Bool → List Char →
    Except InvalidPatternException Scanned
  | [], _, resultSoFar, _, operatorStack =>
      if operatorStack ≠ [] then .error (.unclosedOperators operatorStack resultSoFar)
      else .ok (.glob resultSoFar)
  | c :: rest, previous, resultSoFar, inQuote, operatorStack =>
      match phrase quoteTreatment parenthesesTreatment previous c inQuote operatorStack with
      | .inside inQuote operatorStack =>
          scan rest (some c) (resultSoFar ++ [c]) inQuote operatorStack
      | .invalidQuote => .error (.quotedContents (resultSoFar ++ [c]))
      | .invalidParenthesis => .error (.parentheticalContents (resultSoFar ++ [c]))
      | .outside =>
          if c ≠ '{' then scan rest (some c) (resultSoFar ++ [c]) inQuote operatorStack
          else
            match findTokens quoteTreatment parenthesesTreatment operatorStack resultSoFar rest
              (some c) [c] [] inQuote (operatorStack ++ ['{']) [] with
            | .error exception => .error exception
            | .ok (tokens, suffix) => .ok (.choice resultSoFar tokens suffix operatorStack)

def scanExpression (cs : ExpressionToExpand) : Except InvalidPatternException Scanned :=
  scan quoteTreatment parenthesesTreatment cs.todo none cs.resultSoFar
    (cs.operatorStack.contains '"') cs.operatorStack

def choose (resultSoFar suffix operatorStack : List Char) (tokens : List (List Char)) :
    List ExpressionToExpand :=
  tokens.map fun token => ⟨resultSoFar, token ++ suffix, operatorStack⟩

variable (allowNumericRanges : Bool)

def expandAllFor : Nat → List ExpressionToExpand → List (List Char) →
    Option (Except ExpansionFailure (List (List Char)))
  | 0, _, _ => none
  | _ + 1, [], result => some (.ok result)
  | rounds + 1, cs :: patterns, result =>
      match scanExpression quoteTreatment parenthesesTreatment cs with
      | .error exception => some (.error (.invalidPattern exception))
      | .ok (.glob resultSoFar) => expandAllFor rounds patterns (result ++ [resultSoFar])
      | .ok (.choice resultSoFar tokens suffix operatorStack) =>
          match expandTokens allowNumericRanges rounds tokens with
          | none => none
          | some (.error failure) => some (.error failure)
          | some (.ok newTokens) =>
              expandAllFor rounds (choose resultSoFar suffix operatorStack newTokens ++ patterns)
                result

/-- `getGlobsAfterBraceExpansion` with all that it can be asked for. -/
def getGlobsAfterBraceExpansionFor (rounds : Nat) (pattern : List Char) :
    Option (Except ExpansionFailure (List (List Char))) :=
  expandAllFor quoteTreatment parenthesesTreatment allowNumericRanges rounds [⟨[], pattern, []⟩] []

end Expansion

section WithoutRanges
variable {quoteTreatment parenthesesTreatment : PhraseTreatment}

def Scanned.expanded : Scanned → Expanded
  | glob resultSoFar => .glob resultSoFar
  | choice resultSoFar tokens suffix operatorStack =>
      .choice (choose resultSoFar suffix operatorStack tokens)

theorem expand_eq_scan (text : List Char) (previous : Option Char) (resultSoFar : List Char)
    (inQuote : Bool) (operatorStack : List Char) :
    expand quoteTreatment parenthesesTreatment text previous resultSoFar inQuote operatorStack =
      (scan quoteTreatment parenthesesTreatment text previous resultSoFar inQuote
        operatorStack).map Scanned.expanded := by
  induction text generalizing previous resultSoFar inQuote operatorStack with
  | nil =>
    rw [expand, scan]
    split <;> rfl
  | cons c rest ih =>
    rw [expand, scan]
    cases phrase quoteTreatment parenthesesTreatment previous c inQuote operatorStack with
    | inside inQuote operatorStack => exact ih ..
    | invalidQuote => rfl
    | invalidParenthesis => rfl
    | outside =>
      dsimp only
      by_cases plain : c ≠ '{'
      · rw [if_pos plain, if_pos plain]
        exact ih ..
      · rw [if_neg plain, if_neg plain]
        generalize findTokens quoteTreatment parenthesesTreatment operatorStack resultSoFar rest
          (some c) [c] [] inQuote (operatorStack ++ ['{']) [] = found
        cases found <;> rfl

theorem expandTokens_false (rounds : Nat) (tokens : List (List Char)) :
    expandTokens false rounds tokens = some (.ok tokens) := by
  induction tokens with
  | nil => rfl
  | cons token tokens ih => rw [expandTokens, expandToken, Bool.false_and, ih]; rfl

/-- Where ranges are not allowed, a call is one without them. -/
theorem getGlobsAfterBraceExpansionFor_false (rounds : Nat) (pattern : List Char) :
    getGlobsAfterBraceExpansionFor quoteTreatment parenthesesTreatment false rounds pattern =
      (getGlobsAfterBraceExpansionWith quoteTreatment parenthesesTreatment rounds pattern).map
        (Except.mapError ExpansionFailure.invalidPattern) := by
  suffices loops : ∀ rounds patterns result,
      expandAllFor quoteTreatment parenthesesTreatment false rounds patterns result =
        (expandAll quoteTreatment parenthesesTreatment rounds patterns result).map
          (Except.mapError ExpansionFailure.invalidPattern) from loops rounds _ _
  intro rounds
  induction rounds with
  | zero => exact fun _ _ => rfl
  | succ rounds ih =>
    intro patterns result
    cases patterns with
    | nil => rfl
    | cons cs patterns =>
      rw [expandAllFor, expandAll, expand_eq_scan, ← scanExpression]
      cases scanExpression quoteTreatment parenthesesTreatment cs with
      | error exception => rfl
      | ok scanned =>
        cases scanned with
        | glob text => exact ih patterns _
        | choice resultSoFar tokens suffix operatorStack =>
          simp only [expandTokens_false]
          exact ih _ _

end WithoutRanges
end Brooklyn.WildcardGlobs
