import Brooklyn.JavaText
import Brooklyn.ShellWords

/-!
`StringEscapes.BashStringEscapes`: text wrapped in double quotes for bash, with backslashes
before what is special there and exclamation marks in single quotes of their own. The shell
reads each argument back as one word of literal characters.
-/

namespace Brooklyn.BashStringEscapes
open ShellWords

def appendEscaped (c : Char) : List Char := ['\\', c]

def escapeLiteralForDoubleQuotedBash : List Char → List Char
  | [] => []
  | c :: rest =>
      (if c = '\\' ∨ c = '"' ∨ c = '$' ∨ c = '`' then appendEscaped c
      else if c = '!' then ['"', '\'', '!', '\'', '"']
      else [c]) ++ escapeLiteralForDoubleQuotedBash rest

def wrapBash (value : List Char) : List Char :=
  '"' :: escapeLiteralForDoubleQuotedBash value ++ ['"']

/-- The loop of `doubleQuoteLiteralsForBash`, with the text so far. -/
def quoteArgs : List Char → List (List Char) → List Char
  | result, [] => result
  | result, arg :: args =>
      quoteArgs
        (result ++ (if result.isEmpty then [] else [' ']) ++ ['"'] ++
          escapeLiteralForDoubleQuotedBash arg ++ ['"'])
        args

def doubleQuoteLiteralsForBash (args : List (List Char)) : List Char :=
  quoteArgs [] args

/-- The word that has just these characters, each for itself. -/
def literals (value : List Char) : Word := value.map .literal

/-- Inside double quotes one escaped character adds itself to the word. -/
theorem splitWords_escapeChar (c : Char) (rest : List Char) (word : Word) :
    splitWords .double (some word) (escapeLiteralForDoubleQuotedBash [c] ++ rest) =
      splitWords .double (some (word ++ [.literal c])) rest := by
  unfold escapeLiteralForDoubleQuotedBash appendEscaped escapeLiteralForDoubleQuotedBash
  rw [List.append_nil]
  split
  · next special =>
    have escapable : isEscapable c = true := by
      rcases special with rfl | rfl | rfl | rfl <;> decide
    exact splitWords_escaped (some word) rest escapable
  · next plain =>
    have unescapable : isEscapable c = false := by
      rw [isEscapable, decide_eq_false_iff_not]
      rintro (same | same | same | same)
      · exact plain (Or.inr (Or.inr (Or.inl same)))
      · exact plain (Or.inr (Or.inr (Or.inr same)))
      · exact plain (Or.inr (Or.inl same))
      · exact plain (Or.inl same)
    split
    · next exclamation =>
      subst exclamation
      -- The quotes are closed, the mark stands in single quotes, and they are opened again.
      simp only [List.cons_append, List.nil_append]
      rw [splitWords_close, splitWords_single, splitWords_open]
      rfl
    · exact splitWords_plain (some word) rest unescapable

theorem escape_cons (c : Char) (value : List Char) :
    escapeLiteralForDoubleQuotedBash (c :: value) =
      escapeLiteralForDoubleQuotedBash [c] ++ escapeLiteralForDoubleQuotedBash value := by
  simp [escapeLiteralForDoubleQuotedBash]

theorem splitWords_escape (value rest : List Char) (word : Word) :
    splitWords .double (some word) (escapeLiteralForDoubleQuotedBash value ++ rest) =
      splitWords .double (some (word ++ literals value)) rest := by
  induction value generalizing word with
  | nil => simp [escapeLiteralForDoubleQuotedBash, literals]
  | cons c value ih =>
    rw [escape_cons, List.append_assoc, splitWords_escapeChar, ih, List.append_assoc]
    rfl

/-- A wrapped argument adds its characters to the word, whatever comes after it. -/
theorem splitWords_wrapBash (value rest : List Char) (word : Option Word) :
    splitWords .unquoted word (wrapBash value ++ rest) =
      splitWords .unquoted (some (word.getD [] ++ literals value)) rest := by
  rw [wrapBash, List.append_assoc, List.cons_append, splitWords_open, open_, splitWords_escape,
    List.singleton_append, splitWords_close]

def spaced (args : List (List Char)) : List Char :=
  args.flatMap fun arg => ' ' :: wrapBash arg

theorem quoteArgs_spaced (args : List (List Char)) {result : List Char} (begun : result ≠ []) :
    quoteArgs result args = result ++ spaced args := by
  induction args generalizing result with
  | nil => simp [quoteArgs, spaced]
  | cons arg args ih =>
    rw [quoteArgs, ih (by simp), if_neg (by simpa using begun)]
    simp [spaced, wrapBash]

theorem doubleQuoteLiterals_cons (arg : List Char) (args : List (List Char)) :
    doubleQuoteLiteralsForBash (arg :: args) = wrapBash arg ++ spaced args := by
  rw [doubleQuoteLiteralsForBash, quoteArgs, quoteArgs_spaced args (by simp)]
  simp [wrapBash]

/-- The quoted literals are the wrapped arguments with spaces between them. -/
theorem doubleQuoteLiterals_eq_wrapped (args : List (List Char)) :
    doubleQuoteLiteralsForBash args = [' '].intercalate (args.map wrapBash) := by
  cases args with
  | nil => rfl
  | cons arg args =>
    rw [doubleQuoteLiterals_cons, List.map_cons, intercalate_cons_flatMap, List.flatMap_map]
    rfl

theorem splitWords_spaced (args : List (List Char)) (word : Word) :
    splitWords .unquoted (some word) (spaced args) = some (word :: args.map literals) := by
  induction args generalizing word with
  | nil => rfl
  | cons arg args ih =>
    have next : spaced (arg :: args) = ' ' :: (wrapBash arg ++ spaced args) := rfl
    rw [next, splitWords_space, splitWords_wrapBash, ih]
    rfl

theorem splitWords_doubleQuoteLiterals (args : List (List Char)) :
    splitWords .unquoted none (doubleQuoteLiteralsForBash args) = some (args.map literals) := by
  cases args with
  | nil => rfl
  | cons arg args =>
    rw [doubleQuoteLiterals_cons, splitWords_wrapBash, splitWords_spaced]
    rfl

/-- The shell splits the text for any arguments, wrapped one by one or all at once, into just
these words, and every character of a word is literal: none starts an expansion. -/
theorem wrapped_args_read_back (args : List (List Char)) :
    splitWords .unquoted none ([' '].intercalate (args.map wrapBash)) = some (args.map literals) ∧
      splitWords .unquoted none (doubleQuoteLiteralsForBash args) = some (args.map literals) :=
  ⟨doubleQuoteLiterals_eq_wrapped args ▸ splitWords_doubleQuoteLiterals args,
    splitWords_doubleQuoteLiterals args⟩

end Brooklyn.BashStringEscapes
