import Brooklyn.BashStringEscapes

/-!
`StringEscapes`: Java strings in quotes with escapes, and what takes quotes and escapes away, for
Java strings and for bash. A text in quotes is read with one character of memory, whether a
backslash stands before.
-/

namespace Brooklyn.StringEscapes
open BashStringEscapes (appendEscaped)

/-- What is wrong with a string. -/
inductive Problem
  | mustStartWithDoubleQuote
  | unsupportedEscapeChar (c : Char) (position : Nat)
  | unescapedInteriorDoubleQuote (position : Nat)
  | unterminatedString
  | invalidSeparators (separator : List Char)
  deriving DecidableEq

inductive StringFailure
  | indexOutOfBounds
  | illegalArgument (s : List Char) (mode : String) (problem : Problem)
  deriving DecidableEq

section Unwrapping

def unescapedChar (c : Char) : Option Char :=
  if c = '\\' ∨ c = '"' ∨ c = '\'' then some c
  else if c = 'n' then some '\n'
  else if c = 't' then some '\t'
  else if c = 'r' then some '\r'
  else none

/-- The loop of `applyUnquoteAndUnescape`. -/
def unquoteAndUnescape (allowMultipleQuotes : Bool) :
    Nat → Bool → Bool → List Char → List Char → Except Problem (List Char)
  | _, _, quoted, result, [] => if quoted then .error .unterminatedString else .ok result
  | i, escaped, quoted, result, c :: rest =>
      if ¬ quoted then
        if c = '"' then unquoteAndUnescape allowMultipleQuotes (i + 1) escaped true result rest
        else if ¬ allowMultipleQuotes then .error .mustStartWithDoubleQuote
        else unquoteAndUnescape allowMultipleQuotes (i + 1) escaped quoted (result ++ [c]) rest
      else if escaped then
        match unescapedChar c with
        | some d =>
            unquoteAndUnescape allowMultipleQuotes (i + 1) false quoted (result ++ [d]) rest
        | none => .error (.unsupportedEscapeChar c i)
      else if c = '\\' then
        unquoteAndUnescape allowMultipleQuotes (i + 1) true quoted result rest
      else if c = '"' then
        -- the index is before the last one
        if ¬ allowMultipleQuotes ∧ rest ≠ [] then .error (.unescapedInteriorDoubleQuote i)
        else unquoteAndUnescape allowMultipleQuotes (i + 1) escaped false result rest
      else unquoteAndUnescape allowMultipleQuotes (i + 1) escaped quoted (result ++ [c]) rest

def applyUnquoteAndUnescape (s : List Char) (mode : String) (allowMultipleQuotes : Bool) :
    Except StringFailure (List Char) :=
  (unquoteAndUnescape allowMultipleQuotes 0 false false [] s).mapError (.illegalArgument s mode)

def unwrapBashQuotesAndEscapes (s : List Char) : Except StringFailure (List Char) :=
  applyUnquoteAndUnescape s "Bash" true

def unwrapJavaString (s : List Char) : Except StringFailure (List Char) :=
  applyUnquoteAndUnescape s "Java" false

end Unwrapping

section Wrapping

/-- `String.replace` of two characters by nothing. -/
def without (first second : Char) : List Char → List Char
  | c :: d :: rest =>
      if c = first ∧ d = second then without first second rest
      else c :: without first second (d :: rest)
  | text => text

def isWrappedInDoubleQuotes (s : List Char) : Except StringFailure Bool :=
  if s = [] then .ok false
  else if s.head? ≠ some '"' ∨ s.getLast? ≠ some '"' then .ok false
  else if s.length < 2 then .error .indexOutOfBounds
  else .ok (¬ (without '\\' '"' (without '\\' '\\' s.tail.dropLast)).contains '"')

def unwrapJavaStringIfWrapped (s : List Char) : Except StringFailure (List Char) :=
  match isWrappedInDoubleQuotes s with
  | .error failure => .error failure
  | .ok wrapped => if wrapped then unwrapJavaString s else .ok s

def escapeJavaString : List Char → List Char
  | [] => []
  | c :: rest =>
      (if c = '\\' ∨ c = '"' ∨ c = '\'' then appendEscaped c
      else if c = '\n' then appendEscaped 'n'
      else if c = '\t' then appendEscaped 't'
      else if c = '\r' then appendEscaped 'r'
      else [c]) ++ escapeJavaString rest

def wrapJavaString (value : List Char) : List Char := '"' :: (escapeJavaString value ++ ['"'])

end Wrapping

section Lists

/-- The loop of `findNextClosingQuoteOf`. -/
def closingQuote : Nat → Bool → Bool → List Char → Except Problem Nat
  | _, _, _, [] => .error .unterminatedString
  | i, escaped, quoted, c :: rest =>
      if ¬ quoted then
        if c = '"' then closingQuote (i + 1) escaped true rest
        else .error .mustStartWithDoubleQuote
      else if escaped then closingQuote (i + 1) false quoted rest
      else if c = '\\' then closingQuote (i + 1) true quoted rest
      else if c = '"' then .ok i
      else closingQuote (i + 1) escaped quoted rest

def findNextClosingQuoteOf (s : List Char) : Except StringFailure Nat :=
  (closingQuote 0 false false s).mapError (.illegalArgument s "Java")

/-- The loop of `unwrapQuotedJavaStringList`. -/
def unwrapRemaining (s separator remaining : List Char) :
    Except StringFailure (List (List Char)) :=
  if _more : remaining = [] then .ok []
  else
    match findNextClosingQuoteOf remaining with
    | .error failure => .error failure
    | .ok endIndex =>
        match unwrapJavaString (remaining.take (endIndex + 1)) with
        | .error failure => .error failure
        | .ok value =>
            let behind := trim (remaining.drop (endIndex + 1))
            if separator <+: behind then
              (unwrapRemaining s separator (trim (behind.drop separator.length))).map (value :: ·)
            else if behind ≠ [] then
              .error (.illegalArgument s "Java" (.invalidSeparators separator))
            else .ok [value]
termination_by remaining.length
decreasing_by
  have rest := length_trim_le (remaining.drop (endIndex + 1))
  have later := length_trim_le ((trim (remaining.drop (endIndex + 1))).drop separator.length)
  have some_text := List.length_pos_iff.mpr _more
  rw [List.length_drop] at rest later
  omega

def unwrapQuotedJavaStringList (s separator : List Char) :
    Except StringFailure (List (List Char)) :=
  unwrapRemaining s separator (trim s)

end Lists
section Steps
variable (allow : Bool) (i : Nat) (escaped : Bool) (result rest : List Char)

attribute [local simp] unquoteAndUnescape

theorem unescape_open : unquoteAndUnescape allow i escaped false result ('"' :: rest) =
    unquoteAndUnescape allow (i + 1) escaped true result rest := by
  simp

theorem unescape_outside {c : Char} (unquoted : c ≠ '"') :
    unquoteAndUnescape true i escaped false result (c :: rest) =
      unquoteAndUnescape true (i + 1) escaped false (result ++ [c]) rest := by
  simp [unquoted]

theorem unescape_backslash : unquoteAndUnescape allow i false true result ('\\' :: rest) =
    unquoteAndUnescape allow (i + 1) true true result rest := by
  simp

theorem unescape_plain {c : Char} (unescaped : c ≠ '\\') (unquoted : c ≠ '"') :
    unquoteAndUnescape allow i false true result (c :: rest) =
      unquoteAndUnescape allow (i + 1) false true (result ++ [c]) rest := by
  simp [unescaped, unquoted]

theorem unescape_supported {c d : Char} (supported : unescapedChar c = some d) :
    unquoteAndUnescape allow i true true result (c :: rest) =
      unquoteAndUnescape allow (i + 1) false true (result ++ [d]) rest := by
  simp [supported]

theorem unescape_unsupported {c : Char} (unsupported : unescapedChar c = none) :
    unquoteAndUnescape allow i true true result (c :: rest) =
      .error (.unsupportedEscapeChar c i) := by
  simp [unsupported]

theorem unescape_close : unquoteAndUnescape true i false true result ('"' :: rest) =
    unquoteAndUnescape true (i + 1) false false result rest := by
  simp

theorem unescape_last : unquoteAndUnescape false i false true result ['"'] = .ok result := by
  simp

end Steps

section Wrapped

/-- Whether a text leaves a backslash that escapes what comes next. There is no answer for a text
with an unescaped quote. -/
def pendingEscape : Bool → List Char → Option Bool
  | escaped, [] => some escaped
  | true, _ :: rest => pendingEscape false rest
  | false, c :: rest =>
      if c = '\\' then pendingEscape true rest
      else if c = '"' then none
      else pendingEscape false rest

/-- One opening quote, a body without an unescaped quote, one unescaped closing quote. -/
def WellWrapped (s : List Char) : Prop :=
  ∃ body, s = '"' :: (body ++ ['"']) ∧ pendingEscape false body = some false

/-- Quotes around a body without an unescaped quote, whose last backslash escapes the quote that
would close it. -/
def ClosedByEscape (s : List Char) : Prop :=
  ∃ body, s = '"' :: (body ++ ['"']) ∧ pendingEscape false body = some true

theorem without_removed (first second : Char) (rest : List Char) :
    without first second (first :: second :: rest) = without first second rest := by
  simp [without]

theorem without_other {first second c : Char} (rest : List Char) (other : c ≠ first) :
    without first second (c :: rest) = c :: without first second rest := by
  cases rest with
  | nil => rfl
  | cons d rest => simp [without, other]

theorem without_kept {first second d : Char} (rest : List Char) (other : d ≠ second) :
    without first second (first :: d :: rest) = first :: without first second (d :: rest) := by
  simp [without, other]

/-- What is left of a body without its escaped backslashes and quotes has a quote exactly if the
body has an unescaped one. -/
theorem quote_left : ∀ body : List Char,
    '"' ∈ without '\\' '"' (without '\\' '\\' body) ↔ pendingEscape false body = none
  | [] => by simp [without, pendingEscape]
  | [c] => by
      by_cases backslash : c = '\\'
      · subst backslash
        simp [without, pendingEscape]
      · simp [without, pendingEscape, backslash, eq_comm]
  | c :: d :: rest => by
      by_cases backslash : c = '\\'
      · subst backslash
        have escaped : pendingEscape false ('\\' :: d :: rest) = pendingEscape false rest := by
          simp [pendingEscape]
        rw [escaped, ← quote_left rest]
        -- Two characters are read at once, and none of them leaves a quote.
        by_cases second : d = '\\'
        · rw [second, without_removed]
        · rw [without_kept rest second, without_other rest second]
          by_cases quote : d = '"'
          · rw [quote, without_removed]
          · rw [without_kept _ quote, without_other _ second]
            simp [Ne.symm quote]
      · rw [without_other _ backslash, without_other _ backslash, List.mem_cons,
          quote_left (d :: rest)]
        conv_rhs => rw [pendingEscape.eq_def]
        by_cases quote : '"' = c
        · simp [← quote]
        · simp [backslash, quote, Ne.symm quote]

theorem isWrapped_quoted (body : List Char) :
    isWrappedInDoubleQuotes ('"' :: (body ++ ['"'])) = .ok (pendingEscape false body).isSome := by
  have left := quote_left body
  have ends : ¬ (('"' :: (body ++ ['"'])).head? ≠ some '"' ∨
      ('"' :: (body ++ ['"'])).getLast? ≠ some '"') := by
    rw [← List.cons_append, List.getLast?_concat]
    simp
  rw [isWrappedInDoubleQuotes, if_neg (List.cons_ne_nil _ _), if_neg ends, if_neg (by simp),
    List.tail_cons, List.dropLast_concat]
  cases scanned : pendingEscape false body with
  | none => simp [left.mpr scanned]
  | some pending =>
    have none_left : '"' ∉ without '\\' '"' (without '\\' '\\' body) := by
      rw [left, scanned]
      exact Option.some_ne_none pending
    simp [none_left]

theorem isWrapped_unquoted {s : List Char} (ends : s.head? ≠ some '"' ∨ s.getLast? ≠ some '"') :
    isWrappedInDoubleQuotes s = .ok false := by
  rw [isWrappedInDoubleQuotes, if_pos ends, ite_self]

theorem not_wellWrapped {s : List Char} (ends : s.head? ≠ some '"' ∨ s.getLast? ≠ some '"') :
    ¬ WellWrapped s := by
  rintro ⟨body, rfl, -⟩
  rw [← List.cons_append, List.getLast?_concat] at ends
  simp at ends

/-- A text in two quotes, a lone quote, or a text that has no quote at its start or at its end. -/
theorem quoted_cases (s : List Char) :
    (∃ body, s = '"' :: (body ++ ['"'])) ∨ s = ['"'] ∨
      s.head? ≠ some '"' ∨ s.getLast? ≠ some '"' := by
  cases s with
  | nil => simp
  | cons c rest =>
    by_cases first : c = '"'
    · rcases List.eq_nil_or_concat rest with rfl | ⟨body, d, rfl⟩
      · exact Or.inr (Or.inl (by rw [first]))
      · by_cases last : d = '"'
        · exact Or.inl ⟨body, by rw [first, last, List.concat_eq_append]⟩
        · refine Or.inr (Or.inr (Or.inr ?_))
          rw [List.concat_eq_append, ← List.cons_append, List.getLast?_concat]
          simpa using last
    · exact Or.inr (Or.inr (Or.inl (by simpa using first)))

/-- A body without an unescaped quote is read up to its end, or up to a character that no
backslash may stand before. -/
theorem unescape_body (allow : Bool) {body : List Char} {escaped pending : Bool}
    (scanned : pendingEscape escaped body = some pending) (i : Nat) (result rest : List Char) :
    (∃ c position, unquoteAndUnescape allow i escaped true result (body ++ rest) =
      .error (.unsupportedEscapeChar c position)) ∨
    ∃ read, unquoteAndUnescape allow i escaped true result (body ++ rest) =
      unquoteAndUnescape allow (i + body.length) pending true read rest := by
  induction body generalizing escaped i result with
  | nil =>
    obtain rfl : escaped = pending := by simpa [pendingEscape] using scanned
    exact Or.inr ⟨result, rfl⟩
  | cons c body ih =>
    have position : i + (c :: body).length = i + 1 + body.length := by
      rw [List.length_cons]
      omega
    rw [List.cons_append, position]
    cases escaped with
    | true =>
      -- Only here can the reader refuse, whatever was read before.
      rw [pendingEscape] at scanned
      cases supported : unescapedChar c with
      | none => exact Or.inl ⟨c, i, unescape_unsupported allow i result _ supported⟩
      | some d =>
        rw [unescape_supported allow i result _ supported]
        exact ih scanned (i + 1) (result ++ [d])
    | false =>
      rw [pendingEscape] at scanned
      by_cases backslash : c = '\\'
      · rw [if_pos backslash] at scanned
        rw [backslash, unescape_backslash]
        exact ih scanned (i + 1) result
      · rw [if_neg backslash] at scanned
        by_cases quote : c = '"'
        · rw [if_pos quote] at scanned
          cases scanned
        · rw [if_neg quote] at scanned
          rw [unescape_plain allow i result _ backslash quote]
          exact ih scanned (i + 1) (result ++ [c])

/-- The failures that are not about a character behind a backslash. -/
def Problem.isAboutQuotes : Problem → Bool
  | .unescapedInteriorDoubleQuote _ => true
  | .unterminatedString => true
  | _ => false

/-- The check answers as it says, and what it lets through is not refused for its quotes. -/
def WrappedAsPromised (s : List Char) : Prop :=
  (∃ wrapped, isWrappedInDoubleQuotes s = .ok wrapped ∧ (wrapped = true ↔ WellWrapped s)) ∧
    ∀ text mode problem,
      unwrapJavaStringIfWrapped s = .error (.illegalArgument text mode problem) →
        problem.isAboutQuotes = false

theorem pending_unique {s body : List Char} (quoted : s = '"' :: (body ++ ['"'])) :
    (WellWrapped s ↔ pendingEscape false body = some false) ∧
      (ClosedByEscape s ↔ pendingEscape false body = some true) := by
  have same : ∀ other, s = '"' :: (other ++ ['"']) → other = body := by
    intro other written
    rw [quoted, List.cons.injEq, List.append_left_inj] at written
    exact written.2.symm
  exact ⟨⟨fun ⟨other, written, scanned⟩ => same other written ▸ scanned,
      fun scanned => ⟨body, quoted, scanned⟩⟩,
    ⟨fun ⟨other, written, scanned⟩ => same other written ▸ scanned,
      fun scanned => ⟨body, quoted, scanned⟩⟩⟩

/-- A well-wrapped string is unwrapped, or refused for a character behind a backslash. -/
theorem unwrap_wellWrapped {s : List Char} (wrapped : WellWrapped s) :
    (∃ value, unwrapJavaString s = .ok value) ∨
      ∃ c position, unwrapJavaString s =
        .error (.illegalArgument s "Java" (.unsupportedEscapeChar c position)) := by
  obtain ⟨body, rfl, scanned⟩ := wrapped
  rw [unwrapJavaString, applyUnquoteAndUnescape, unescape_open]
  rcases unescape_body false scanned (0 + 1) [] ['"'] with ⟨c, position, refused⟩ | ⟨read, same⟩
  · exact Or.inr ⟨c, position, by rw [refused]; rfl⟩
  · exact Or.inl ⟨read, by rw [same, unescape_last]; rfl⟩

theorem wrappedAsPromised_of_wellWrapped {s : List Char} (wrapped : WellWrapped s) :
    WrappedAsPromised s := by
  have answer : isWrappedInDoubleQuotes s = .ok true := by
    obtain ⟨body, rfl, scanned⟩ := wrapped
    rw [isWrapped_quoted, scanned]
    rfl
  refine ⟨⟨true, answer, iff_of_true rfl wrapped⟩, fun text mode problem failed => ?_⟩
  rw [unwrapJavaStringIfWrapped, answer] at failed
  dsimp only at failed
  rw [if_pos rfl] at failed
  rcases unwrap_wellWrapped wrapped with ⟨value, read⟩ | ⟨c, position, refused⟩
  · rw [read] at failed
    cases failed
  · rw [refused] at failed
    cases failed
    rfl

theorem wrappedAsPromised_of_not_wrapped {s : List Char} (unwrapped : ¬ WellWrapped s)
    (answer : isWrappedInDoubleQuotes s = .ok false) : WrappedAsPromised s := by
  refine ⟨⟨false, answer, iff_of_false Bool.false_ne_true unwrapped⟩,
    fun text mode problem failed => ?_⟩
  rw [unwrapJavaStringIfWrapped, answer] at failed
  dsimp only at failed
  rw [if_neg Bool.false_ne_true] at failed
  cases failed

theorem not_promised_of_closedByEscape {s : List Char} (escaped : ClosedByEscape s) :
    ¬ WrappedAsPromised s := by
  rintro ⟨⟨wrapped, answer, exact_answer⟩, -⟩
  obtain ⟨body, quoted, scanned⟩ := escaped
  have accepted : isWrappedInDoubleQuotes s = .ok true := by
    rw [quoted, isWrapped_quoted, scanned]
    rfl
  rw [accepted] at answer
  cases answer
  have whole := (pending_unique quoted).1.mp (exact_answer.mp rfl)
  rw [scanned] at whole
  cases whole

/-- The check keeps its promise exactly for the strings that are not a lone quote and whose last
quote is not escaped in a body without unescaped quotes. -/
theorem wrapped_as_promised_iff (s : List Char) :
    WrappedAsPromised s ↔ s ≠ ['"'] ∧ ¬ ClosedByEscape s := by
  constructor
  · intro promised
    refine ⟨?_, fun escaped => not_promised_of_closedByEscape escaped promised⟩
    rintro rfl
    obtain ⟨⟨wrapped, answer, -⟩, -⟩ := promised
    simp [isWrappedInDoubleQuotes] at answer
  · rintro ⟨more, closed⟩
    rcases quoted_cases s with ⟨body, quoted⟩ | lone | ends
    · -- The body decides: the check refuses an unescaped quote in it, and misses a last escape.
      have unique := pending_unique quoted
      rw [unique.2] at closed
      cases scanned : pendingEscape false body with
      | none =>
        refine wrappedAsPromised_of_not_wrapped ?_ ?_
        · rw [unique.1, scanned]
          exact (Option.some_ne_none false).symm
        · rw [quoted, isWrapped_quoted, scanned]
          rfl
      | some pending =>
        have settled : pending = false := Bool.eq_false_iff.mpr fun open_ =>
          closed (by rw [scanned, open_])
        exact wrappedAsPromised_of_wellWrapped (unique.1.mpr (by rw [scanned, settled]))
    · exact absurd lone more
    · exact wrappedAsPromised_of_not_wrapped (not_wellWrapped ends) (isWrapped_unquoted ends)

/-- For a lone quote the check throws. -/
theorem lone_quote_throws : ¬ ∀ s, WrappedAsPromised s := by
  intro promised
  obtain ⟨⟨wrapped, answer, -⟩, -⟩ := promised ['"']
  have thrown : isWrappedInDoubleQuotes ['"'] = .error .indexOutOfBounds := by decide
  rw [thrown] at answer
  cases answer

end Wrapped

end Brooklyn.StringEscapes
