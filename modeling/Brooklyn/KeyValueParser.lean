import Brooklyn.JavaText
import Brooklyn.LinkedCollections
import Brooklyn.QuotedSegments
import Mathlib.Data.List.TakeWhile

/-!
`KeyValueParser`: a map as one line of quoted keys and values, and the map that is read from
such a line. A token is split at its first equals sign, also where that stands inside the
quotes of the key.
-/

namespace Brooklyn.KeyValueParser
open QuotedStringTokenizer

abbrev Parts : Type := LinkedMap (List Char) (Option (List Char))

def quote : List Char → List Char := quoteToken defaultQuoteChars

def unquote : List Char → List Char := unquoteToken defaultQuoteChars

/-- The text of one entry. -/
def entryText (entry : List Char × Option (List Char)) : List Char :=
  quote entry.1 ++
    match entry.2 with
    | some value => '=' :: quote value
    | none => []

/-- The space after the last comma is deleted, the comma stays. -/
def toLine (parts : Parts) : List Char :=
  (parts.entries.flatMap fun entry => entryText entry ++ [',', ' ']).dropLast

/-- The entry that a token says, split at the first equals sign. -/
def parseToken (token : List Char) : List Char × Option (List Char) :=
  let key := token.takeWhile (· ≠ '=')
  match token.dropWhile (· ≠ '=') with
  | [] => (unquote token, none)
  | [_] => (unquote (trim key), some [])
  | _ :: value => (unquote (trim key), some (unquote (trim value)))

def parseTokens (tokenizer : QuotedStringTokenizer) (result : Parts) : Parts :=
  match _more : tokenizer.nextToken with
  | none => result
  | some (token, next) =>
      parseTokens next (result.put (parseToken (trim token)).1 (parseToken (trim token)).2)
termination_by tokenizer.remaining
decreasing_by exact tokenizer.remaining_nextToken _more

def parseMap (line : List Char) : Parts :=
  parseTokens (create line defaultQuoteChars [',']) .empty

section Segments

theorem no_backslash_quotes : '\\' ∉ defaultQuoteChars := by decide

theorem comma_apart : ∀ c ∈ [','], c ≠ '\\' ∧ c ∉ defaultQuoteChars := by simp [defaultQuoteChars]

/-- A character that is no delimiter, quote or backslash reads nothing. -/
theorem guarded_plain {c : Char} (plain : c ≠ ',' ∧ c ≠ '\\' ∧ c ∉ defaultQuoteChars)
    (text : List Char) :
    (Guarded defaultQuoteChars [','] .start (c :: text) ↔
      Guarded defaultQuoteChars [','] .start text) ∧
    Reading.start.readAll defaultQuoteChars (c :: text) =
      Reading.start.readAll defaultQuoteChars text := by
  obtain ⟨no_comma, no_backslash, no_quote⟩ := plain
  have same : Reading.start.read defaultQuoteChars c = .start := by
    simp [Reading.read, Reading.start, no_backslash, no_quote]
  constructor
  · rw [Guarded, same, and_iff_right]
    exact fun comma => absurd (List.mem_singleton.mp comma) no_comma
  · rw [Reading.readAll, List.foldl_cons, same]
    rfl

theorem guarded_entryText (entry : List Char × Option (List Char)) :
    Guarded defaultQuoteChars [','] .start (entryText entry) ∧
      Reading.start.readAll defaultQuoteChars (entryText entry) = .start := by
  obtain ⟨key, value⟩ := entry
  have quoted := guarded_quoteToken no_backslash_quotes comma_apart
  obtain ⟨in_key, after_key⟩ := quoted key
  cases value with
  | none =>
    rw [entryText, List.append_nil]
    exact ⟨in_key, after_key⟩
  | some value =>
    obtain ⟨in_value, after_value⟩ := quoted value
    have equals := guarded_plain (show '=' ≠ ',' ∧ '=' ≠ '\\' ∧ '=' ∉ defaultQuoteChars by decide)
      (quote value)
    rw [entryText, guarded_append, readAll_append]
    have after : Reading.start.readAll defaultQuoteChars (quote key) = .start := after_key
    rw [after]
    exact ⟨⟨in_key, equals.1.mpr in_value⟩, equals.2.trans after_value⟩

theorem head_entryText (entry : List Char × Option (List Char)) :
    ∃ rest, entryText entry = '"' :: rest := ⟨_, rfl⟩

theorem last_entryText (entry : List Char × Option (List Char)) :
    ∃ rest, entryText entry = rest ++ ['"'] := by
  obtain ⟨key, value⟩ := entry
  cases value with
  | none => exact ⟨_, List.append_nil _⟩
  | some value =>
    refine ⟨quote key ++ '=' :: '"' :: escape defaultQuoteChars value, ?_⟩
    simp [entryText, quote, quoteToken, defaultQuoteChars]

theorem segment_entryText (entry : List Char × Option (List Char)) :
    Segment defaultQuoteChars [','] (entryText entry) := by
  obtain ⟨guarded, after⟩ := guarded_entryText entry
  obtain ⟨rest, head⟩ := head_entryText entry
  exact ⟨⟨'"', by rw [head]; rfl, by decide⟩, guarded, by rw [after]; rfl⟩

theorem segment_space (entry : List Char × Option (List Char)) :
    Segment defaultQuoteChars [','] (' ' :: entryText entry) := by
  obtain ⟨guarded, after⟩ := guarded_entryText entry
  have space := guarded_plain (show ' ' ≠ ',' ∧ ' ' ≠ '\\' ∧ ' ' ∉ defaultQuoteChars by decide)
    (entryText entry)
  exact ⟨⟨' ', rfl, by decide⟩, space.1.mpr guarded, by rw [space.2, after]; rfl⟩

/-- The line without its commas. -/
def lineSegments : List (List Char × Option (List Char)) → List (List Char)
  | [] => []
  | entry :: entries => entryText entry :: entries.map fun entry => ' ' :: entryText entry

theorem flatMap_entryText (entry : List Char × Option (List Char))
    (entries : List (List Char × Option (List Char))) :
    ((entry :: entries).flatMap fun entry => entryText entry ++ [',', ' ']) =
      ((lineSegments (entry :: entries)).flatMap fun text => text ++ [',']) ++ [' '] := by
  induction entries generalizing entry with
  | nil => simp [lineSegments]
  | cons next entries ih =>
    rw [List.flatMap_cons, ih next]
    simp [lineSegments]

theorem toLine_segments (parts : Parts) :
    toLine parts = (lineSegments parts.entries).flatMap fun text => text ++ [','] := by
  unfold toLine
  cases parts.entries with
  | nil => rfl
  | cons entry entries => rw [flatMap_entryText, List.dropLast_concat]

theorem all_segments (entries : List (List Char × Option (List Char))) :
    ∀ text ∈ lineSegments entries, Segment defaultQuoteChars [','] text := by
  cases entries with
  | nil => simp [lineSegments]
  | cons entry entries =>
    intro text member
    rcases List.mem_cons.mp member with rfl | later
    · exact segment_entryText entry
    · obtain ⟨other, -, rfl⟩ := List.mem_map.mp later
      exact segment_space other

theorem trim_entryText (entry : List Char × Option (List Char)) :
    trim (entryText entry) = entryText entry ∧ trim (' ' :: entryText entry) = entryText entry := by
  obtain ⟨rest, head⟩ := head_entryText entry
  obtain ⟨init, last⟩ := last_entryText entry
  have front : (entryText entry).dropWhile (· ≤ ' ') = entryText entry := by
    rw [head]
    rfl
  have back : ((entryText entry).reverse.dropWhile (· ≤ ' ')).reverse = entryText entry := by
    rw [last, List.reverse_append]
    simp
  constructor
  · rw [trim, front, back]
  · rw [trim, List.dropWhile_cons_of_pos (by decide), front, back]

/-- The entries of a tokenizer that returns one segment after another. -/
theorem parseTokens_listed {listed : List (List Char) → QuotedStringTokenizer}
    (ended : nextToken (listed []) = none)
    (next : ∀ text segments, (∀ later ∈ segments, Segment defaultQuoteChars [','] later) →
      nextToken (listed (text :: segments)) = some (text, listed segments))
    {segments : List (List Char)} (all : ∀ text ∈ segments, Segment defaultQuoteChars [','] text)
    (result : Parts) :
    parseTokens (listed segments) result =
      result.putAll (segments.map fun text => parseToken (trim text)) := by
  induction segments generalizing result with
  | nil =>
    rw [parseTokens]
    split
    · rfl
    · next token after more =>
      rw [ended] at more
      cases more
  | cons text segments ih =>
    have later := fun text member => all text (List.mem_cons_of_mem _ member)
    rw [parseTokens]
    split
    · next none_left =>
      rw [next text segments later] at none_left
      cases none_left
    · next token after more =>
      rw [next text segments later] at more
      cases more
      exact ih later _

theorem parseTokens_segments {segments : List (List Char)}
    (all : ∀ text ∈ segments, Segment defaultQuoteChars [','] text) (result : Parts) :
    parseTokens (atSegments defaultQuoteChars [','] ',' segments) result =
      result.putAll (segments.map fun text => parseToken (trim text)) :=
  parseTokens_listed rfl
    (fun _ _ later =>
      nextToken_segments no_backslash_quotes comma_apart (List.mem_singleton_self ',') later)
    all result

theorem parseMap_toLine (parts : Parts) :
    parseMap (toLine parts) =
      LinkedMap.empty.putAll (parts.entries.map fun entry => parseToken (entryText entry)) := by
  have trimmed : ((lineSegments parts.entries).map fun text => parseToken (trim text)) =
      parts.entries.map fun entry => parseToken (entryText entry) := by
    cases parts.entries with
    | nil => rfl
    | cons entry entries =>
      simp [lineSegments, (trim_entryText _).1, (trim_entryText _).2, Function.comp_def]
  rw [parseMap, toLine_segments, create_segments no_backslash_quotes comma_apart
    (List.mem_singleton_self ',') (all_segments _), parseTokens_segments (all_segments _), trimmed]

end Segments

section RoundTrip

/-- Quoting it and unquoting it leaves the closing quote. -/
def KeepsQuote (text : List Char) : Prop := text ≠ [] ∧ OnlyBackslashes text

/-- What can be read back of an entry. -/
def Readable (entry : List Char × Option (List Char)) : Prop :=
  '=' ∉ entry.1 ∧ ¬ KeepsQuote entry.1 ∧ ∀ value, entry.2 = some value → ¬ KeepsQuote value

instance (text : List Char) : Decidable (KeepsQuote text) :=
  inferInstanceAs (Decidable (text ≠ [] ∧ OnlyBackslashes text))

theorem unquote_quote (text : List Char) :
    unquote (quote text) = if KeepsQuote text then text ++ ['"'] else text :=
  unquoteToken_quoteToken no_backslash_quotes text

theorem unquote_quote_of_not {text : List Char} (plain : ¬ KeepsQuote text) :
    unquote (quote text) = text := by
  rw [unquote_quote, if_neg plain]

/-- No text of backslashes only comes back from quoting and unquoting. -/
theorem not_keepsQuote_unquote_quote (text : List Char) : ¬ KeepsQuote (unquote (quote text)) := by
  rw [unquote_quote]
  split
  · rintro ⟨-, only⟩
    exact absurd (only '"' (by simp)) (by decide)
  · assumption

theorem not_mem_quote {key : List Char} (missing : '=' ∉ key) : '=' ∉ quote key := by
  have in_escape : '=' ∉ escape defaultQuoteChars key := not_mem_escape missing (by decide)
  have quoted : quote key = '"' :: (escape defaultQuoteChars key ++ ['"']) := rfl
  rw [quoted]
  simp [in_escape]

theorem trim_quote (text : List Char) : trim (quote text) = quote text := by
  have trimmed := (trim_entryText (text, none)).1
  rwa [entryText, List.append_nil] at trimmed

/-- Without an equals sign in the key, the entry is split where it was joined. -/
theorem parseToken_entryText {entry : List Char × Option (List Char)} (missing : '=' ∉ entry.1) :
    parseToken (entryText entry) =
      (unquote (quote entry.1), entry.2.map fun value => unquote (quote value)) := by
  obtain ⟨key, value⟩ := entry
  have passes : ∀ c ∈ quote key, decide (c ≠ '=') = true := fun c member =>
    decide_eq_true fun same => not_mem_quote missing (same ▸ member)
  cases value with
  | none =>
    have none_left : (quote key).dropWhile (· ≠ '=') = [] :=
      List.dropWhile_eq_nil_iff.mpr passes
    rw [entryText, List.append_nil, parseToken, none_left]
    rfl
  | some value =>
    have before : (quote key ++ '=' :: quote value).takeWhile (· ≠ '=') = quote key := by
      rw [List.takeWhile_append_of_pos passes]
      simp
    have after : (quote key ++ '=' :: quote value).dropWhile (· ≠ '=') = '=' :: quote value := by
      rw [List.dropWhile_append_of_pos passes]
      simp
    obtain ⟨first, rest, quoted⟩ : ∃ first rest, quote value = first :: rest := ⟨_, _, rfl⟩
    rw [entryText, parseToken, before, after, quoted]
    dsimp only
    rw [← quoted, trim_quote, trim_quote]
    rfl

/-- The key of a token ends before the first equals sign. -/
theorem not_mem_parseToken (token : List Char) : '=' ∉ (parseToken token).1 := by
  have in_key : '=' ∉ token.takeWhile (· ≠ '=') := fun member =>
    absurd (List.mem_takeWhile_imp member) (by simp)
  have from_key : '=' ∉ unquote (trim (token.takeWhile (· ≠ '='))) := fun member =>
    in_key (trim_subset _ (unquoteToken_subset _ member))
  unfold parseToken
  split
  · next none_left =>
    have no_equals := List.dropWhile_eq_nil_iff.mp none_left
    exact fun member => absurd (no_equals '=' (unquoteToken_subset _ member)) (by simp)
  · exact from_key
  · exact from_key

theorem parse_of_readable {entry : List Char × Option (List Char)} (readable : Readable entry) :
    parseToken (entryText entry) = entry := by
  obtain ⟨key, value⟩ := entry
  obtain ⟨missing, plain_key, plain_value⟩ := readable
  rw [parseToken_entryText missing, unquote_quote_of_not plain_key]
  cases value with
  | none => rfl
  | some value => rw [Option.map_some, unquote_quote_of_not (plain_value value rfl)]

/-- Each entry of a map that is read back comes from an entry with the same key. -/
theorem readable_of_same {parts : Parts} (same : parseMap (toLine parts) = parts)
    {entry : List Char × Option (List Char)} (member : entry ∈ parts.entries) :
    Readable entry := by
  have comes : ∀ entry ∈ parts.entries, ∃ other ∈ parts.entries,
      parseToken (entryText other) = entry := by
    intro entry member
    have found := (parts.mem_entries entry.1 entry.2).mp member
    rw [← same, parseMap_toLine] at found
    rcases LinkedMap.mem_of_get_putAll found with there | nothing
    · exact List.mem_map.mp there
    · cases nothing
  have missing : ∀ entry ∈ parts.entries, '=' ∉ entry.1 := by
    intro entry member
    obtain ⟨other, -, rfl⟩ := comes entry member
    exact not_mem_parseToken _
  have plain : ∀ entry ∈ parts.entries, ¬ KeepsQuote entry.1 := by
    intro entry member
    obtain ⟨other, there, rfl⟩ := comes entry member
    rw [parseToken_entryText (missing other there)]
    exact not_keepsQuote_unquote_quote _
  obtain ⟨⟨key, value⟩, there, parsed⟩ := comes entry member
  refine ⟨missing entry member, plain entry member, fun text found => ?_⟩
  subst parsed
  rw [parseToken_entryText (missing _ there)] at found
  obtain ⟨written, -, rfl⟩ := Option.map_eq_some_iff.mp found
  exact not_keepsQuote_unquote_quote _

/-- The map is read back from its line, in its order, exactly when no key has an equals sign and
no key or value consists of backslashes. -/
theorem parseMap_toLine_iff (parts : Parts) :
    parseMap (toLine parts) = parts ↔ ∀ entry ∈ parts.entries, Readable entry := by
  constructor
  · exact fun same entry member => readable_of_same same member
  · intro readable
    have parsed : (parts.entries.map fun entry => parseToken (entryText entry)) = parts.entries :=
      (List.map_congr_left fun entry member => parse_of_readable (readable entry member)).trans
        (List.map_id _)
    rw [parseMap_toLine, parsed, LinkedMap.putAll_entries]

/-- A value of one backslash comes back with a quote. -/
theorem backslash_not_read_back :
    parseMap (toLine (LinkedMap.empty.put ['a'] (some ['\\']))) ≠
      LinkedMap.empty.put ['a'] (some ['\\']) := by
  intro same
  have member : (['a'], some ['\\']) ∈ (LinkedMap.empty.put ['a'] (some ['\\'])).entries := by
    decide
  obtain ⟨-, -, plain⟩ := readable_of_same same member
  exact plain _ rfl (by simp [KeepsQuote, OnlyBackslashes])

end RoundTrip
end Brooklyn.KeyValueParser
