import Mathlib.Data.List.Basic

/-!
The words of a shell command line, by the rules for backslashes, single and double quotes. A
character of a word is literal, or it is active: one that has a meaning to the shell where
it stands, such as a dollar sign that is neither escaped nor in single quotes. History
expansion is off.
-/

namespace Brooklyn.ShellWords

inductive Item where
  | literal (c : Char)
  | active (c : Char)
  deriving DecidableEq

abbrev Word : Type := List Item

inductive Quoting where
  | unquoted | double | single

def isBlank (c : Char) : Bool := c = ' ' ∨ c = '\t'

/-- Characters that start an expansion, also in double quotes. -/
def isExpansion (c : Char) : Bool := c = '$' ∨ c = '`'

/-- Characters whose backslash in double quotes is taken away. -/
def isEscapable (c : Char) : Bool := c = '$' ∨ c = '`' ∨ c = '"' ∨ c = '\\'

/-- Operators, patterns and other characters that mean something outside quotes. -/
def isSpecial (c : Char) : Bool :=
  isExpansion c ∨ c ∈ ['|', '&', ';', '<', '>', '(', ')', '*', '?', '[', ']', '#', '~', '=', '%',
    '\x7b', '\x7d', '!', '\n']

def item (special : Bool) (c : Char) : Item := if special then .active c else .literal c

/-- The word that has begun, if any, with one item more. -/
def extend (word : Option Word) (item : Item) : Option Word := some (word.getD [] ++ [item])

def open_ (word : Option Word) : Option Word := some (word.getD [])

/-- `none` where a quote is not closed. An escaped newline is left out. -/
def splitWords : Quoting → Option Word → List Char → Option (List Word)
  | .unquoted, word, [] => some word.toList
  | .unquoted, word, '\\' :: c :: rest =>
      splitWords .unquoted (if c = '\n' then word else extend word (.literal c)) rest
  | .unquoted, word, c :: rest =>
      if isBlank c then (splitWords .unquoted none rest).map (word.toList ++ ·)
      else if c = '"' then splitWords .double (open_ word) rest
      else if c = '\'' then splitWords .single (open_ word) rest
      else splitWords .unquoted (extend word (item (isSpecial c) c)) rest
  | .double, _, [] => none
  | .double, word, '\\' :: c :: rest =>
      if c = '\n' then splitWords .double word rest
      else if isEscapable c then splitWords .double (extend word (.literal c)) rest
      else splitWords .double (extend (extend word (.literal '\\')) (.literal c)) rest
  | .double, word, c :: rest =>
      if c = '"' then splitWords .unquoted word rest
      else splitWords .double (extend word (item (isExpansion c) c)) rest
  | .single, _, [] => none
  | .single, word, c :: rest =>
      if c = '\'' then splitWords .unquoted word rest
      else splitWords .single (extend word (.literal c)) rest

section Steps
variable (word : Option Word) (rest : List Char) {c : Char}

attribute [local simp] splitWords

theorem splitWords_escaped (escapable : isEscapable c = true) :
    splitWords .double word ('\\' :: c :: rest) =
      splitWords .double (extend word (.literal c)) rest := by
  have no_newline : c ≠ '\n' := by
    rintro rfl
    exact absurd escapable (by decide)
  rw [splitWords, if_neg no_newline, if_pos escapable]

theorem splitWords_plain (unescapable : isEscapable c = false) :
    splitWords .double word (c :: rest) = splitWords .double (extend word (.literal c)) rest := by
  obtain ⟨no_expansion, no_quote, no_backslash⟩ :
      isExpansion c = false ∧ c ≠ '"' ∧ c ≠ '\\' := by
    simp_all [isEscapable, isExpansion]
  simp [no_backslash, no_quote, no_expansion, item]

theorem splitWords_close :
    splitWords .double word ('"' :: rest) = splitWords .unquoted word rest := by
  simp

theorem splitWords_open :
    splitWords .unquoted word ('"' :: rest) = splitWords .double (open_ word) rest := by
  simp [isBlank]

theorem splitWords_single :
    splitWords .unquoted word ('\'' :: '!' :: '\'' :: rest) =
      splitWords .unquoted (extend (open_ word) (.literal '!')) rest := by
  simp [isBlank]

theorem splitWords_space :
    splitWords .unquoted word (' ' :: rest) =
      (splitWords .unquoted none rest).map (word.toList ++ ·) := by
  simp [isBlank]

end Steps
end Brooklyn.ShellWords
