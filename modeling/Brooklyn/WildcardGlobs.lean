import Mathlib.Data.List.Basic

/-!
`WildcardGlobs`: the globs of a pattern, with the alternatives of every choice in braces written
out. Numeric ranges are not allowed here.
-/

namespace Brooklyn.WildcardGlobs

inductive PhraseTreatment
  | notASpecialChar
  | interiorExpandable
  | interiorNotExpandable
  deriving DecidableEq

inductive InvalidPatternException
  | quotedContents (parsed : List Char)
  | parentheticalContents (parsed : List Char)
  | notClosed (braced resultSoFar : List Char)
  | mismatchedOperators (operatorStack parsed : List Char)
  | unclosedOperators (operatorStack resultSoFar : List Char)
  deriving DecidableEq

structure ExpressionToExpand where
  resultSoFar : List Char
  todo : List Char
  operatorStack : List Char

section Phrases

/-- What a character is for the quotes and parentheses around it. -/
inductive Phrase
  | inside (inQuote : Bool) (operatorStack : List Char)
  | invalidQuote
  | invalidParenthesis
  | outside

def lastIndexOf (c : Char) (text : List Char) : Int :=
  text.length - 1 - (text.reverse.idxOf c : Int)

def inParen (inQuote : Bool) (operatorStack : List Char) : Bool :=
  operatorStack.contains '(' &&
    (!inQuote || lastIndexOf '"' operatorStack < lastIndexOf '(' operatorStack)

variable (quoteTreatment parenthesesTreatment : PhraseTreatment)

/-- A character in quotes. -/
def quoted (previous : Option Char) (c : Char) (operatorStack : List Char) : Phrase :=
  if c = '"' then
    if previous = some '\\' then .inside true operatorStack
    else if operatorStack.getLast? ≠ some '"' then .invalidQuote
    else .inside false operatorStack.dropLast
  else if quoteTreatment = .interiorNotExpandable then .inside true operatorStack
  else .outside

/-- A character in parentheses. -/
def parenthesized (c : Char) (inQuote : Bool) (operatorStack : List Char) : Phrase :=
  if c = ')' then
    if operatorStack.getLast? ≠ some '(' then .invalidParenthesis
    else .inside inQuote operatorStack.dropLast
  else if parenthesesTreatment = .interiorNotExpandable then
    .inside inQuote (if c = '(' then operatorStack ++ ['('] else operatorStack)
  else .outside

/-- A character that may open a phrase. -/
def opening (c : Char) (inQuote : Bool) (operatorStack : List Char) : Phrase :=
  if c = '"' ∧ quoteTreatment ≠ .notASpecialChar then .inside true (operatorStack ++ ['"'])
  else if c = '(' ∧ parenthesesTreatment ≠ .notASpecialChar then
    .inside inQuote (operatorStack ++ ['('])
  else .outside

/-- The checks that both loops over a pattern make first. -/
def phrase (previous : Option Char) (c : Char) (inQuote : Bool) (operatorStack : List Char) :
    Phrase :=
  let inParen := inParen inQuote operatorStack
  let quoted :=
    if inQuote ∧ ¬ (inParen ∧ parenthesesTreatment = .interiorNotExpandable) then
      quoted quoteTreatment previous c operatorStack
    else .outside
  match quoted with
  | .outside =>
      let parenthesized :=
        if inParen then parenthesized parenthesesTreatment c inQuote operatorStack else .outside
      match parenthesized with
      | .outside => opening quoteTreatment parenthesesTreatment c inQuote operatorStack
      | found => found
  | found => found

end Phrases

section Expansion

variable (quoteTreatment parenthesesTreatment : PhraseTreatment)

/-- The tokens between an opening brace and its close, and what follows it. `before` is the stack
before the brace, `braced` the text since the brace. -/
def findTokens (before resultSoFar : List Char) :
    List Char → Option Char → List Char → List Char → Bool → List Char → List (List Char) →
      Except InvalidPatternException (List (List Char) × List Char)
  | [], _, braced, _, _, _, _ => .error (.notClosed braced resultSoFar)
  | c :: rest, previous, braced, token, inQuote, operatorStack, tokens =>
      match phrase quoteTreatment parenthesesTreatment previous c inQuote operatorStack with
      | .inside inQuote operatorStack =>
          findTokens before resultSoFar rest (some c) (braced ++ [c]) (token ++ [c]) inQuote
            operatorStack tokens
      | .invalidQuote => .error (.quotedContents (resultSoFar ++ braced))
      | .invalidParenthesis => .error (.parentheticalContents (resultSoFar ++ braced))
      | .outside =>
          if c = '}' then
            if operatorStack.getLast? ≠ some '{' then
              .error (.mismatchedOperators operatorStack (resultSoFar ++ braced))
            else if operatorStack.dropLast = before then .ok (tokens ++ [token], rest)
            else
              findTokens before resultSoFar rest (some c) (braced ++ [c]) (token ++ [c]) inQuote
                operatorStack.dropLast tokens
          else if c = ',' ∧ operatorStack.length = before.length + 1 then
            findTokens before resultSoFar rest (some c) (braced ++ [c]) [] inQuote operatorStack
              (tokens ++ [token])
          else
            findTokens before resultSoFar rest (some c) (braced ++ [c]) (token ++ [c]) inQuote
              (if c = '{' then operatorStack ++ ['{'] else operatorStack) tokens

/-- What became of an expression: a glob, or expressions for the alternatives of a choice. -/
inductive Expanded
  | glob (resultSoFar : List Char)
  | choice (newPatterns : List ExpressionToExpand)

def expand : List Char → Option Char → List Char → Bool → List Char →
    Except InvalidPatternException Expanded
  | [], _, resultSoFar, _, operatorStack =>
      if operatorStack ≠ [] then .error (.unclosedOperators operatorStack resultSoFar)
      else .ok (.glob resultSoFar)
  | c :: rest, previous, resultSoFar, inQuote, operatorStack =>
      match phrase quoteTreatment parenthesesTreatment previous c inQuote operatorStack with
      | .inside inQuote operatorStack =>
          expand rest (some c) (resultSoFar ++ [c]) inQuote operatorStack
      | .invalidQuote => .error (.quotedContents (resultSoFar ++ [c]))
      | .invalidParenthesis => .error (.parentheticalContents (resultSoFar ++ [c]))
      | .outside =>
          if c ≠ '{' then expand rest (some c) (resultSoFar ++ [c]) inQuote operatorStack
          else
            match findTokens quoteTreatment parenthesesTreatment operatorStack resultSoFar rest
              (some c) [c] [] inQuote (operatorStack ++ ['{']) [] with
            | .error exception => .error exception
            | .ok (tokens, suffix) =>
                .ok (.choice (tokens.map fun token =>
                  ⟨resultSoFar, token ++ suffix, operatorStack⟩))

/-- The loop over the patterns, as far as so many rounds go. -/
def expandAll : Nat → List ExpressionToExpand → List (List Char) →
    Option (Except InvalidPatternException (List (List Char)))
  | 0, _, _ => none
  | _ + 1, [], result => some (.ok result)
  | rounds + 1, cs :: patterns, result =>
      match expand quoteTreatment parenthesesTreatment cs.todo none cs.resultSoFar
        (cs.operatorStack.contains '"') cs.operatorStack with
      | .error exception => some (.error exception)
      | .ok (.glob resultSoFar) => expandAll rounds patterns (result ++ [resultSoFar])
      | .ok (.choice newPatterns) => expandAll rounds (newPatterns ++ patterns) result

def getGlobsAfterBraceExpansionWith (rounds : Nat) (pattern : List Char) :
    Option (Except InvalidPatternException (List (List Char))) :=
  expandAll quoteTreatment parenthesesTreatment rounds [⟨[], pattern, []⟩] []

end Expansion

/-- With the treatment of quotes and parentheses that the caller gets without asking. -/
def getGlobsAfterBraceExpansion (rounds : Nat) (pattern : List Char) :
    Option (Except InvalidPatternException (List (List Char))) :=
  getGlobsAfterBraceExpansionWith .notASpecialChar .notASpecialChar rounds pattern

end Brooklyn.WildcardGlobs
