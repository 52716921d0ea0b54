import Brooklyn.StringEscapes

/-!
`JavaStringEscapes`, there and back: a string that is escaped and wrapped is unwrapped to itself,
alone or as one of a list, whatever stands in the strings and in the separator between them.
-/

namespace Brooklyn.StringEscapes

section Characters

theorem escapeJavaString_cons (c : Char) (value : List Char) :
    escapeJavaString (c :: value) = escapeJavaString [c] ++ escapeJavaString value := by
  simp [escapeJavaString]

/-- A character is written behind a backslash that the reader knows, or as it is. -/
theorem escape_char (c : Char) :
    (∃ e, escapeJavaString [c] = ['\\', e] ∧ unescapedChar e = some c) ∨
      escapeJavaString [c] = [c] ∧ c ≠ '\\' ∧ c ≠ '"' := by
  unfold escapeJavaString escapeJavaString
  rw [List.append_nil]
  split
  next special =>
    refine Or.inl ⟨c, rfl, ?_⟩
    rw [unescapedChar, if_pos special]
  next plain =>
    rw [not_or, not_or] at plain
    split
    next newline => exact Or.inl ⟨'n', rfl, by rw [newline]; rfl⟩
    next =>
      split
      next tab => exact Or.inl ⟨'t', rfl, by rw [tab]; rfl⟩
      next =>
        split
        next return_ => exact Or.inl ⟨'r', rfl, by rw [return_]; rfl⟩
        next => exact Or.inr ⟨rfl, plain.1, plain.2.1⟩

theorem unescape_escape (allow : Bool) (value : List Char) (i : Nat) (result rest : List Char) :
    unquoteAndUnescape allow i false true result (escapeJavaString value ++ rest) =
      unquoteAndUnescape allow (i + (escapeJavaString value).length) false true
        (result ++ value) rest := by
  induction value generalizing i result with
  | nil => simp [escapeJavaString]
  | cons c value ih =>
    -- A character is read from one position or from two.
    have read : ∀ later, unquoteAndUnescape allow i false true result
        (escapeJavaString [c] ++ later) =
          unquoteAndUnescape allow (i + (escapeJavaString [c]).length) false true
            (result ++ [c]) later := by
      intro later
      rcases escape_char c with ⟨e, written, supported⟩ | ⟨written, unescaped, unquoted⟩
      · rw [written]
        exact (unescape_backslash allow i result _).trans
          (unescape_supported allow (i + 1) result later supported)
      · rw [written]
        exact unescape_plain allow i result later unescaped unquoted
    rw [escapeJavaString_cons, List.append_assoc, read, ih, List.length_append, List.append_assoc,
      Nat.add_assoc]
    rfl

/-- A wrapped string is unwrapped to itself. -/
theorem unwrap_wrapJavaString (value : List Char) :
    unwrapJavaString (wrapJavaString value) = .ok value := by
  rw [unwrapJavaString, applyUnquoteAndUnescape, wrapJavaString, unescape_open, unescape_escape,
    unescape_last]
  rfl

/-- The closing quote is looked for behind all that is escaped. -/
theorem closingQuote_escape (value : List Char) (i : Nat) (rest : List Char) :
    closingQuote i false true (escapeJavaString value ++ '"' :: rest) =
      .ok (i + (escapeJavaString value).length) := by
  induction value generalizing i with
  | nil => simp [escapeJavaString, closingQuote]
  | cons c value ih =>
    have passed : ∀ later, closingQuote i false true (escapeJavaString [c] ++ later) =
        closingQuote (i + (escapeJavaString [c]).length) false true later := by
      intro later
      rcases escape_char c with ⟨e, written, -⟩ | ⟨written, unescaped, unquoted⟩
      · simp [written, closingQuote]
      · simp [written, closingQuote, unescaped, unquoted]
    rw [escapeJavaString_cons, List.append_assoc, passed, ih, List.length_append, Nat.add_assoc]

theorem closingQuote_wrapped (value tail : List Char) :
    findNextClosingQuoteOf (wrapJavaString value ++ tail) =
      .ok ((escapeJavaString value).length + 1) := by
  have opened : wrapJavaString value ++ tail =
      '"' :: (escapeJavaString value ++ '"' :: tail) := by simp [wrapJavaString]
  have first : closingQuote 0 false false ('"' :: (escapeJavaString value ++ '"' :: tail)) =
      closingQuote 1 false true (escapeJavaString value ++ '"' :: tail) := by
    rw [closingQuote]
    simp
  rw [findNextClosingQuoteOf, opened, first, closingQuote_escape, Nat.add_comm]
  rfl

theorem length_wrapJavaString (value : List Char) :
    (wrapJavaString value).length = (escapeJavaString value).length + 1 + 1 := by
  simp [wrapJavaString]

end Characters

section Joined
variable {separator : List Char}

/-- Wrapped strings, a separator before all but the first. -/
def chained (separator value : List Char) (values : List (List Char)) : List Char :=
  wrapJavaString value ++ values.flatMap fun next => separator ++ wrapJavaString next

theorem intercalate_wrapped (separator value : List Char) (values : List (List Char)) :
    separator.intercalate ((value :: values).map wrapJavaString) =
      chained separator value values := by
  rw [List.map_cons, intercalate_cons_flatMap, List.flatMap_map, chained]

theorem last_chained (separator value : List Char) (values : List (List Char)) :
    ∃ front, chained separator value values = front ++ ['"'] := by
  induction values generalizing value with
  | nil => exact ⟨'"' :: escapeJavaString value, by simp [chained, wrapJavaString]⟩
  | cons next values ih =>
    obtain ⟨front, last⟩ := ih next
    refine ⟨wrapJavaString value ++ separator ++ front, ?_⟩
    rw [List.append_assoc, ← last]
    simp [chained]

theorem trim_last_quote {text front : List Char} (last : text = front ++ ['"'])
    (first : ∀ c ∈ text.head?, ' ' < c) : trim text = text := by
  refine trim_eq_self first fun c end_ => ?_
  rw [last, List.getLast?_concat] at end_
  obtain rfl : '"' = c := by simpa using end_
  decide

theorem trim_chained (separator value : List Char) (values : List (List Char)) :
    trim (chained separator value values) = chained separator value values := by
  obtain ⟨front, last⟩ := last_chained separator value values
  refine trim_last_quote last fun c first => ?_
  obtain rfl : '"' = c := by simpa [chained, wrapJavaString] using first
  decide

theorem trim_separated (visible : ∀ c ∈ separator.head?, ' ' < c) (value : List Char)
    (values : List (List Char)) :
    trim (separator ++ chained separator value values) =
      separator ++ chained separator value values := by
  obtain ⟨front, last⟩ := last_chained separator value values
  refine trim_last_quote (show _ = separator ++ front ++ ['"'] by rw [last, List.append_assoc]) ?_
  -- Without a separator the next opening quote comes first.
  cases separator with
  | nil =>
    intro c first
    obtain rfl : '"' = c := by simpa [chained, wrapJavaString] using first
    decide
  | cons d rest =>
    intro c first
    exact visible c first

theorem unwrapRemaining_nil (s separator : List Char) :
    unwrapRemaining s separator [] = .ok [] := by
  rw [unwrapRemaining, dif_pos rfl]

/-- One round of the loop takes the first string off. -/
theorem unwrapRemaining_wrapped (s value tail : List Char) :
    unwrapRemaining s separator (wrapJavaString value ++ tail) =
      if separator <+: trim tail then
        (unwrapRemaining s separator (trim ((trim tail).drop separator.length))).map (value :: ·)
      else if trim tail ≠ [] then .error (.illegalArgument s "Java" (.invalidSeparators separator))
      else .ok [value] := by
  have more : wrapJavaString value ++ tail ≠ [] := List.cons_ne_nil _ _
  rw [unwrapRemaining, dif_neg more, closingQuote_wrapped]
  dsimp only
  rw [← length_wrapJavaString, List.take_left, List.drop_left, unwrap_wrapJavaString]

theorem unwrapRemaining_chained (s : List Char) (visible : ∀ c ∈ separator.head?, ' ' < c)
    (value : List Char) (values : List (List Char)) :
    unwrapRemaining s separator (chained separator value values) = .ok (value :: values) := by
  induction values generalizing value with
  | nil =>
    rw [chained, List.flatMap_nil, unwrapRemaining_wrapped, trim_nil, List.drop_nil, trim_nil]
    -- An empty separator is found once more, and nothing is left to read.
    split
    next => rw [unwrapRemaining_nil]; rfl
    next => rfl
  | cons next values ih =>
    have tail : chained separator value (next :: values) =
        wrapJavaString value ++ (separator ++ chained separator next values) := by
      simp [chained]
    rw [tail, unwrapRemaining_wrapped, trim_separated visible,
      if_pos (List.prefix_append separator _), List.drop_left, trim_chained, ih]
    rfl

/-- Wrapped strings that are joined with a separator come back, and so does one alone. -/
theorem unwrap_joined (separator : List Char) (trimmed : trim separator = separator) :
    (∀ values, unwrapQuotedJavaStringList
        (separator.intercalate (values.map wrapJavaString)) separator = .ok values) ∧
      ∀ value, unwrapJavaString (wrapJavaString value) = .ok value := by
  refine ⟨fun values => ?_, unwrap_wrapJavaString⟩
  cases values with
  | nil => exact unwrapRemaining_nil [] separator
  | cons value values =>
    rw [unwrapQuotedJavaStringList, intercalate_wrapped, trim_chained,
      unwrapRemaining_chained _ (head_of_trim trimmed)]

/-- The separator may look like the end of a string. -/
theorem quote_and_backslash_joined :
    unwrapQuotedJavaStringList
        (['"', '\\'].intercalate ([['a', '"'], ['\\']].map wrapJavaString)) ['"', '\\'] =
      .ok [['a', '"'], ['\\']] :=
  (unwrap_joined ['"', '\\'] (by decide)).1 _

end Joined
end Brooklyn.StringEscapes
