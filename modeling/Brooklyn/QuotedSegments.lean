import Brooklyn.QuotedStringTokenizer
import Mathlib.Data.List.TakeWhile

/-!
The tokenizer on a line of segments, each with a delimiter after it. Reading a segment
character by character shows whether a quote is open; where every delimiter in it is read
inside a quote, and no quote is open at its end, the segment is one token. On any other text the
tokens leave out exactly the delimiters that are read outside of quotes.
-/

namespace Brooklyn.QuotedStringTokenizer

structure Reading where
  opened : Option Char
  escaped : Bool

def Reading.start : Reading := ⟨none, false⟩

def matchQuote (opened : Option Char) (c : Char) : Option Char :=
  match opened with
  | none => some c
  | some other => if c = other then none else some other

def Reading.read (quoteChars : List Char) (reading : Reading) (c : Char) : Reading :=
  if reading.escaped then { reading with escaped := false }
  else if c = '\\' then { reading with escaped := true }
  else if c ∈ quoteChars then { reading with opened := matchQuote reading.opened c }
  else reading

def Reading.readAll (quoteChars : List Char) (reading : Reading) (text : List Char) : Reading :=
  text.foldl (Reading.read quoteChars) reading

section Open
variable {quoteChars : List Char}

theorem foldl_matchQuote_some (c : Char) (quotes : List Char) :
    quotes.foldl matchQuote (some c) =
      if c ∈ quotes then (quotes.drop (quotes.idxOf c + 1)).foldl matchQuote none else some c := by
  induction quotes with
  | nil => rfl
  | cons other quotes ih =>
    rw [List.foldl_cons, matchQuote]
    by_cases same : other = c
    · subst same
      simp
    · rw [if_neg same, ih]
      simp [Ne.symm same, List.idxOf_cons_ne _ same]

theorem unmatched_iff (quotes : List Char) :
    unmatched quotes = (quotes.foldl matchQuote none).isSome := by
  induction quotes using unmatched.induct with
  | case1 => rw [unmatched]; rfl
  | case2 c rest member ih =>
    rw [unmatched, if_pos member, ih, List.foldl_cons, matchQuote, foldl_matchQuote_some,
      if_pos member]
  | case3 c rest missing =>
    rw [unmatched, if_neg missing, List.foldl_cons, matchQuote, foldl_matchQuote_some,
      if_neg missing]
    rfl

theorem opened_readAll (unquoted : '\\' ∉ quoteChars) (text : List Char) (opened : Option Char) :
    (Reading.readAll quoteChars ⟨opened, false⟩ text).opened =
      (unescapedQuotes quoteChars text).foldl matchQuote opened := by
  induction text using unescapedQuotes.induct quoteChars generalizing opened with
  | case1 => rfl
  | case2 c rest ih => exact ih opened
  | case3 c rest single quote ih =>
    have plain : c ≠ '\\' := fun same => unquoted (same ▸ quote)
    have next : Reading.read quoteChars ⟨opened, false⟩ c = ⟨matchQuote opened c, false⟩ := by
      simp [Reading.read, plain, quote]
    rw [Reading.readAll, List.foldl_cons, next, unescapedQuotes, if_pos quote, List.foldl_cons]
    · exact ih (matchQuote opened c)
    · exact single
  | case4 c rest single no_quote ih =>
    rw [unescapedQuotes, if_neg no_quote, Reading.readAll, List.foldl_cons]
    · by_cases backslash : c = '\\'
      · cases rest with
        | nil => simp [Reading.read, backslash, unescapedQuotes]
        | cons head tail => exact absurd rfl (single head tail backslash)
      · have next : Reading.read quoteChars ⟨opened, false⟩ c = ⟨opened, false⟩ := by
          simp [Reading.read, backslash, no_quote]
        rw [next]
        exact ih opened
    · exact single

theorem hasOpenQuote_iff (unquoted : '\\' ∉ quoteChars) (text : List Char) :
    hasOpenQuote quoteChars text = (Reading.readAll quoteChars .start text).opened.isSome := by
  rw [hasOpenQuote, unmatched_iff, Reading.start, opened_readAll unquoted]

/-- Every delimiter of the text is read inside a quote, and not as an escaped character. -/
def Guarded (quoteChars delimiters : List Char) : Reading → List Char → Prop
  | _, [] => True
  | reading, c :: rest =>
      (c ∈ delimiters → reading.opened.isSome ∧ reading.escaped = false) ∧
        Guarded quoteChars delimiters (reading.read quoteChars c) rest

variable {delimiters : List Char}

theorem guarded_append {reading : Reading} {text rest : List Char} :
    Guarded quoteChars delimiters reading (text ++ rest) ↔
      Guarded quoteChars delimiters reading text ∧
        Guarded quoteChars delimiters (reading.readAll quoteChars text) rest := by
  induction text generalizing reading with
  | nil => exact (and_iff_right trivial).symm
  | cons c text ih =>
    rw [List.cons_append, Guarded, ih, Guarded, and_assoc]
    rfl

theorem readAll_append (reading : Reading) (text rest : List Char) :
    reading.readAll quoteChars (text ++ rest) =
      (reading.readAll quoteChars text).readAll quoteChars rest :=
  List.foldl_append

theorem readAll_delimiter {reading : Reading} {c : Char} (unescaped : reading.escaped = false)
    (no_backslash : c ≠ '\\') (no_quote : c ∉ quoteChars) :
    reading.readAll quoteChars [c] = reading := by
  simp [Reading.readAll, Reading.read, unescaped, no_backslash, no_quote]

theorem stringTokens_cons_delimiter {c : Char} (delimiter : c ∈ delimiters) (rest : List Char) :
    stringTokens delimiters (c :: rest) = [c] :: stringTokens delimiters rest := by
  rw [stringTokens, if_pos delimiter]

/-- A run of other characters before a delimiter is one token. -/
theorem stringTokens_run {run rest : List Char} (nonempty : run ≠ [])
    (plain : ∀ c ∈ run, c ∉ delimiters) (ends : ∀ c ∈ rest.head?, c ∈ delimiters) :
    stringTokens delimiters (run ++ rest) = run :: stringTokens delimiters rest := by
  induction run with
  | nil => exact absurd rfl nonempty
  | cons c run ih =>
    obtain ⟨here, later⟩ := List.forall_mem_cons.mp plain
    rw [List.cons_append, stringTokens, if_neg here]
    cases run with
    | nil =>
      cases rest with
      | nil => rfl
      | cons d rest =>
        have delimiter := ends d rfl
        rw [List.nil_append, stringTokens_cons_delimiter delimiter]
        exact if_pos delimiter
    | cons d run =>
      rw [ih (List.cons_ne_nil d run) later]
      exact if_neg (later d List.mem_cons_self)

/-- A text that starts with another character starts with a run. -/
theorem exists_run {c : Char} (plain : c ∉ delimiters) (text : List Char) :
    ∃ run rest, c :: text = run ++ rest ∧ run.head? = some c ∧ (∀ d ∈ run, d ∉ delimiters) ∧
      ∀ d ∈ rest.head?, d ∈ delimiters := by
  refine ⟨(c :: text).takeWhile (· ∉ delimiters), (c :: text).dropWhile (· ∉ delimiters),
    List.takeWhile_append_dropWhile.symm, ?_, fun d member => ?_, fun d head => ?_⟩
  · rw [List.takeWhile_cons, if_pos (by simpa using plain)]
    rfl
  · simpa using List.mem_takeWhile_imp member
  · have stopped := List.head?_dropWhile_not (· ∉ delimiters) (c :: text)
    rw [Option.mem_def.mp head] at stopped
    simpa using stopped

/-- A first token that is a delimiter, or goes to the next one. -/
theorem stringTokens_split (delimiters : List Char) {text : List Char} (nonempty : text ≠ []) :
    ∃ token rest, text = token ++ rest ∧
      stringTokens delimiters text = token :: stringTokens delimiters rest ∧
      ((∃ c ∈ delimiters, token = [c]) ∨
        (∀ c ∈ rest.head?, c ∈ delimiters) ∧ ∃ c ∉ delimiters, token.head? = some c) := by
  cases text with
  | nil => exact absurd rfl nonempty
  | cons c text =>
    by_cases delimiter : c ∈ delimiters
    · exact ⟨[c], text, rfl, stringTokens_cons_delimiter delimiter text,
        Or.inl ⟨c, delimiter, rfl⟩⟩
    · obtain ⟨run, rest, split, head, plain, ends⟩ := exists_run delimiter text
      have some_run : run ≠ [] := fun nothing => by simp [nothing] at head
      refine ⟨run, rest, split, ?_, Or.inr ⟨ends, c, delimiter, head⟩⟩
      rw [split, stringTokens_run some_run plain ends]

/-- The tokens of a text with a delimiter after it. -/
theorem stringTokens_append {d : Char} (delimiter : d ∈ delimiters) (text rest : List Char) :
    stringTokens delimiters (text ++ d :: rest) =
      stringTokens delimiters text ++ [d] :: stringTokens delimiters rest := by
  induction text with
  | nil => exact stringTokens_cons_delimiter delimiter rest
  | cons c text ih =>
    by_cases here : c ∈ delimiters
    · rw [List.cons_append, stringTokens_cons_delimiter here, stringTokens_cons_delimiter here, ih]
      rfl
    · rw [List.cons_append, stringTokens, if_neg here, ih, stringTokens, if_neg here]
      cases text with
      | nil => simp [stringTokens, delimiter]
      | cons e text =>
        obtain ⟨token, later, -, tokens, kind⟩ :=
          stringTokens_split delimiters (List.cons_ne_nil e text)
        rw [tokens]
        rcases kind with ⟨e, there, rfl⟩ | ⟨-, e, plain, head⟩
        · simp [there]
        · cases token with
          | nil => cases head
          | cons first token =>
            cases head
            simp [plain]

section Pull
variable (unquoted : '\\' ∉ quoteChars) (apart : ∀ c ∈ delimiters, c ≠ '\\' ∧ c ∉ quoteChars)
include unquoted apart

/-- The tokens of the rest of a segment are pulled, and no more. -/
theorem pullUntilValid_segment (text : List Char) (current : List Char) (later : List (List Char))
    (guarded : Guarded quoteChars delimiters (Reading.start.readAll quoteChars current) text)
    (closed : (Reading.start.readAll quoteChars (current ++ text)).opened = none)
    (inside : text ≠ [] → (Reading.start.readAll quoteChars current).opened.isSome) :
    pullUntilValid quoteChars current (stringTokens delimiters text ++ later) =
      (current ++ text, later) := by
  induction length : text.length using Nat.strongRecOn generalizing text current with
  | _ size ih =>
    by_cases empty : text = []
    · subst empty
      rw [List.append_nil] at closed ⊢
      cases later <;> simp [stringTokens, pullUntilValid, hasOpenQuote_iff unquoted, closed]
    · obtain ⟨token, rest, rfl, tokens, kind⟩ := stringTokens_split delimiters empty
      obtain ⟨in_token, in_rest⟩ := guarded_append.mp guarded
      rw [tokens, List.cons_append, pullUntilValid, hasOpenQuote_iff unquoted,
        if_pos (inside empty), ← List.append_assoc]
      have shorter : rest.length < size := by
        have token_nonempty : 0 < token.length := by
          rcases kind with ⟨c, -, rfl⟩ | ⟨-, c, -, head⟩
          · exact Nat.one_pos
          · exact List.length_pos_of_ne_nil fun nothing => by simp [nothing] at head
        rw [← length, List.length_append]
        omega
      rw [← List.append_assoc] at closed
      rw [← readAll_append] at in_rest
      refine ih rest.length shorter rest (current ++ token) in_rest closed (fun more_left => ?_) rfl
      rcases kind with ⟨c, delimiter, rfl⟩ | ⟨before, -⟩
      · obtain ⟨opened, unescaped⟩ := in_token.1 delimiter
        obtain ⟨no_backslash, no_quote⟩ := apart c delimiter
        rw [readAll_append, readAll_delimiter unescaped no_backslash no_quote]
        exact opened
      · cases rest with
        | nil => exact absurd rfl more_left
        | cons e rest => exact (in_rest.1 (before e rfl)).1

/-- A text that is one token: it starts with no delimiter, has its delimiters in quotes, and has
no quote open at its end. -/
structure Segment (quoteChars delimiters text : List Char) : Prop where
  head : ∃ c ∈ text.head?, c ∉ delimiters
  guarded : Guarded quoteChars delimiters .start text
  closed : (Reading.start.readAll quoteChars text).opened = none

theorem updateNextToken_segment {text : List Char} (segment : Segment quoteChars delimiters text)
    (later : List (List Char)) (peeked : Option (List Char)) :
    updateNextToken ⟨quoteChars, delimiters, stringTokens delimiters text ++ later, peeked⟩ =
      ⟨quoteChars, delimiters, later, some text⟩ := by
  obtain ⟨first, head, no_delimiter⟩ := segment.head
  have nonempty : text ≠ [] := fun nothing => by simp [nothing] at head
  obtain ⟨token, rest, split, tokens, kind⟩ := stringTokens_split delimiters nonempty
  have guarded := segment.guarded
  have closed := segment.closed
  rw [split] at guarded closed head
  obtain ⟨-, in_rest⟩ := guarded_append.mp guarded
  rcases kind with ⟨c, delimiter, rfl⟩ | ⟨before, c, plain, token_head⟩
  · cases head
    exact absurd delimiter no_delimiter
  · have no_delimiters : isDelimiters delimiters token = false := by
      cases token with
      | nil => cases token_head
      | cons first token =>
        cases token_head
        simp [isDelimiters, plain]
    have pulled := pullUntilValid_segment unquoted apart rest token later in_rest closed
      fun more_left => by
        cases rest with
        | nil => exact absurd rfl more_left
        | cons e rest => exact (in_rest.1 (before e rfl)).1
    rw [updateNextToken, tokens, List.cons_append]
    dsimp only
    rw [List.dropWhile_cons_of_neg (by simp [no_delimiters])]
    dsimp only
    rw [pulled, split]

/-- The tokens of the segments, each with the delimiter after it. -/
def segmentTokens (delimiters : List Char) (d : Char) (segments : List (List Char)) :
    List (List Char) :=
  segments.flatMap fun text => stringTokens delimiters text ++ [[d]]

omit unquoted apart in
theorem stringTokens_segments {d : Char} (delimiter : d ∈ delimiters)
    (segments : List (List Char)) :
    stringTokens delimiters (segments.flatMap fun text => text ++ [d]) =
      segmentTokens delimiters d segments := by
  induction segments with
  | nil => rfl
  | cons text segments ih =>
    have line : ((text :: segments).flatMap fun text => text ++ [d]) =
        text ++ d :: segments.flatMap fun text => text ++ [d] := by simp
    rw [line, stringTokens_append delimiter, ih]
    simp [segmentTokens]

/-- The tokenizer that has these segments still to return. -/
def atSegments (quoteChars delimiters : List Char) (d : Char) :
    List (List Char) → QuotedStringTokenizer
  | [] => ⟨quoteChars, delimiters, [], none⟩
  | text :: segments =>
      ⟨quoteChars, delimiters, [d] :: segmentTokens delimiters d segments, some text⟩

theorem updateNextToken_segments {d : Char} {segments : List (List Char)}
    (all : ∀ text ∈ segments, Segment quoteChars delimiters text) (peeked : Option (List Char)) :
    updateNextToken ⟨quoteChars, delimiters, segmentTokens delimiters d segments, peeked⟩ =
      atSegments quoteChars delimiters d segments := by
  cases segments with
  | nil => rfl
  | cons text segments =>
    have tokens : segmentTokens delimiters d (text :: segments) =
        stringTokens delimiters text ++ [d] :: segmentTokens delimiters d segments := by
      simp [segmentTokens]
    rw [tokens, updateNextToken_segment unquoted apart (all text List.mem_cons_self)]
    rfl

/-- A line of segments, each with a delimiter after it, has the segments as its tokens. -/
theorem create_segments {d : Char} (delimiter : d ∈ delimiters) {segments : List (List Char)}
    (all : ∀ text ∈ segments, Segment quoteChars delimiters text) :
    create (segments.flatMap fun text => text ++ [d]) quoteChars delimiters =
      atSegments quoteChars delimiters d segments := by
  rw [create, stringTokens_segments delimiter, updateNextToken_segments unquoted apart all]

theorem nextToken_segments {d : Char} (delimiter : d ∈ delimiters) {text : List Char}
    {segments : List (List Char)} (all : ∀ text ∈ segments, Segment quoteChars delimiters text) :
    nextToken (atSegments quoteChars delimiters d (text :: segments)) =
      some (text, atSegments quoteChars delimiters d segments) := by
  have skipped : isDelimiters delimiters [d] = true := by simp [isDelimiters, delimiter]
  have updated := updateNextToken_segments unquoted apart (d := d) all (some text)
  rw [← updated, nextToken, atSegments]
  dsimp only [Option.map_some]
  rw [updateNextToken]
  dsimp only
  rw [List.dropWhile_cons_of_pos skipped]
  rfl

end Pull

section Quoted
variable {q : Char} {others : List Char}

/-- Escaped text inside its quotes: the quote stays open, and delimiters are guarded. -/
theorem readAll_escape (text : List Char) :
    Reading.readAll (q :: others) ⟨some q, false⟩ (escape (q :: others) text) =
      ⟨some q, false⟩ := by
  induction text with
  | nil => rfl
  | cons c text ih =>
    by_cases special : c = '\\' ∨ c ∈ q :: others
    · rw [escape_special special]
      exact ih
    · rw [escape_plain special]
      obtain ⟨no_backslash, no_quote⟩ := not_or.mp special
      rw [Reading.readAll, List.foldl_cons, Reading.read]
      simp only [no_backslash, no_quote, Bool.false_eq_true, if_false]
      exact ih

theorem guarded_escape (apart : ∀ c ∈ delimiters, c ≠ '\\' ∧ c ∉ q :: others) (text : List Char) :
    Guarded (q :: others) delimiters ⟨some q, false⟩ (escape (q :: others) text) := by
  induction text with
  | nil => trivial
  | cons c text ih =>
    by_cases special : c = '\\' ∨ c ∈ q :: others
    · rw [escape_special special]
      refine ⟨fun _ => ⟨rfl, rfl⟩, fun delimiter => ?_, ih⟩
      obtain ⟨no_backslash, no_quote⟩ := apart c delimiter
      exact absurd special (not_or.mpr ⟨no_backslash, no_quote⟩)
    · rw [escape_plain special]
      obtain ⟨no_backslash, no_quote⟩ := not_or.mp special
      have same : Reading.read (q :: others) ⟨some q, false⟩ c = ⟨some q, false⟩ := by
        simp only [Reading.read, no_backslash, no_quote, Bool.false_eq_true, if_false]
      exact ⟨fun _ => ⟨rfl, rfl⟩, same.symm ▸ ih⟩

/-- A quoted text opens its quote, guards its delimiters, and closes the quote again. -/
theorem guarded_quoteToken (unquoted : '\\' ∉ q :: others)
    (apart : ∀ c ∈ delimiters, c ≠ '\\' ∧ c ∉ q :: others) (text : List Char) :
    Guarded (q :: others) delimiters .start (quoteToken (q :: others) text) ∧
      Reading.start.readAll (q :: others) (quoteToken (q :: others) text) = .start := by
  have no_backslash : q ≠ '\\' := fun same => unquoted (same ▸ List.mem_cons_self)
  have opens : Reading.read (q :: others) .start q = ⟨some q, false⟩ := by
    simp [Reading.read, Reading.start, matchQuote, no_backslash]
  have closes : Reading.read (q :: others) ⟨some q, false⟩ q = .start := by
    simp [Reading.read, Reading.start, matchQuote, no_backslash]
  have quoted : quoteToken (q :: others) text = q :: (escape (q :: others) text ++ [q]) := rfl
  have no_delimiter : q ∈ delimiters → False := fun delimiter =>
    (apart q delimiter).2 List.mem_cons_self
  constructor
  · rw [quoted]
    refine ⟨fun delimiter => absurd delimiter no_delimiter, ?_⟩
    rw [opens, guarded_append]
    exact ⟨guarded_escape apart text, fun delimiter => absurd delimiter no_delimiter, trivial⟩
  · rw [quoted, Reading.readAll, List.foldl_cons, opens]
    have inside : Reading.readAll (q :: others) ⟨some q, false⟩ (escape (q :: others) text) = _ :=
      readAll_escape text
    rw [Reading.readAll] at inside
    rw [List.foldl_append, inside]
    exact closes

end Quoted
section Kept

/-- A text without its delimiters outside of quotes. The reading starts again after each. -/
def withoutDelimiters (quoteChars delimiters : List Char) : Reading → List Char → List Char
  | _, [] => []
  | reading, c :: rest =>
      if reading.opened = none ∧ c ∈ delimiters then
        withoutDelimiters quoteChars delimiters .start rest
      else c :: withoutDelimiters quoteChars delimiters (reading.read quoteChars c) rest

/-- Every delimiter of the text is in a quoted section. -/
def DelimitersQuoted (quoteChars delimiters : List Char) : Reading → List Char → Prop
  | _, [] => True
  | reading, c :: rest =>
      (c ∈ delimiters → reading.opened.isSome) ∧
        DelimitersQuoted quoteChars delimiters (reading.read quoteChars c) rest

theorem delimitersQuoted_append {reading : Reading} {text rest : List Char} :
    DelimitersQuoted quoteChars delimiters reading (text ++ rest) ↔
      DelimitersQuoted quoteChars delimiters reading text ∧
        DelimitersQuoted quoteChars delimiters (reading.readAll quoteChars text) rest := by
  induction text generalizing reading with
  | nil => exact (and_iff_right trivial).symm
  | cons c text ih =>
    rw [List.cons_append, DelimitersQuoted, ih, DelimitersQuoted, and_assoc]
    rfl

theorem delimitersQuoted_plain (reading : Reading) {text : List Char}
    (plain : ∀ c ∈ text, c ∉ delimiters) :
    DelimitersQuoted quoteChars delimiters reading text := by
  induction text generalizing reading with
  | nil => trivial
  | cons c text ih =>
    obtain ⟨here, later⟩ := List.forall_mem_cons.mp plain
    exact ⟨fun delimiter => absurd delimiter here, ih _ later⟩

theorem withoutDelimiters_append {reading : Reading} {text : List Char}
    (inside : DelimitersQuoted quoteChars delimiters reading text) (rest : List Char) :
    withoutDelimiters quoteChars delimiters reading (text ++ rest) =
      text ++ withoutDelimiters quoteChars delimiters (reading.readAll quoteChars text) rest := by
  induction text generalizing reading with
  | nil => rfl
  | cons c text ih =>
    have kept : ¬ (reading.opened = none ∧ c ∈ delimiters) := by
      rintro ⟨closed, delimiter⟩
      have opened := inside.1 delimiter
      rw [closed] at opened
      cases opened
    rw [List.cons_append, withoutDelimiters, if_neg kept, ih inside.2]
    rfl

/-- At the end of a token the reading starts again. -/
theorem withoutDelimiters_start {reading : Reading} (closed : reading.opened = none)
    {rest : List Char} (ends : ∀ c ∈ rest.head?, c ∈ delimiters) :
    withoutDelimiters quoteChars delimiters reading rest =
      withoutDelimiters quoteChars delimiters .start rest := by
  cases rest with
  | nil => rfl
  | cons c rest =>
    have delimiter := ends c rfl
    rw [withoutDelimiters, if_pos ⟨closed, delimiter⟩, withoutDelimiters, if_pos ⟨rfl, delimiter⟩]

/-- No delimiter opens a quote that is read over. -/
def OpenedBeside (delimiters : List Char) (reading : Reading) : Prop :=
  ∀ q ∈ reading.opened, q ∉ delimiters

theorem matchQuote_some {opened : Option Char} {c q : Char}
    (matched : matchQuote opened c = some q) : q = c ∨ opened = some q := by
  cases opened with
  | none => exact Or.inl (Option.some.inj matched).symm
  | some other =>
    rw [matchQuote] at matched
    exact Or.inr (Option.ite_none_left_eq_some.mp matched).2

theorem openedBeside_readAll {reading : Reading} (beside : OpenedBeside delimiters reading)
    {text : List Char} (plain : ∀ c ∈ text, c ∉ delimiters) :
    OpenedBeside delimiters (reading.readAll quoteChars text) := by
  induction text generalizing reading with
  | nil => exact beside
  | cons c text ih =>
    obtain ⟨here, later⟩ := List.forall_mem_cons.mp plain
    refine ih ?_ later
    rw [Reading.read]
    split
    · exact beside
    · split
      · exact beside
      · split
        · intro q opened
          rcases matchQuote_some opened with rfl | held
          · exact here
          · exact beside q held
        · exact beside

/-- A delimiter does not close the quote that it is in. -/
theorem opened_read_delimiter {reading : Reading} {q c : Char} (opened : reading.opened = some q)
    (beside : q ∉ delimiters) (delimiter : c ∈ delimiters) :
    (reading.read quoteChars c).opened = some q := by
  have other : c ≠ q := fun same => beside (same ▸ delimiter)
  rw [Reading.read]
  split
  · exact opened
  · split
    · exact opened
    · split
      · rw [opened, matchQuote, if_neg other]
      · exact opened

section Pulled
variable (unquoted : '\\' ∉ quoteChars)
include unquoted

omit unquoted in
/-- The next token inside a quote: a delimiter, which the quote is around, or a run. -/
theorem stringTokens_quoted {reading : Reading} {q : Char} (opened : reading.opened = some q)
    (beside : OpenedBeside delimiters reading) (c : Char) (text : List Char) :
    ∃ token rest, c :: text = token ++ rest ∧ token ≠ [] ∧
      stringTokens delimiters (c :: text) = token :: stringTokens delimiters rest ∧
      DelimitersQuoted quoteChars delimiters reading token ∧
      OpenedBeside delimiters (reading.readAll quoteChars token) ∧
      ((reading.readAll quoteChars token).opened = none → ∀ d ∈ rest.head?, d ∈ delimiters) := by
  by_cases delimiter : c ∈ delimiters
  · -- A delimiter is a token of its own, and the quote stays open behind it.
    have still : (reading.readAll quoteChars [c]).opened = some q :=
      opened_read_delimiter opened (beside q opened) delimiter
    refine ⟨[c], text, rfl, List.cons_ne_nil _ _, stringTokens_cons_delimiter delimiter text,
      ⟨fun _ => by rw [opened]; rfl, trivial⟩, fun other held => ?_, fun closed => ?_⟩
    · rw [still] at held
      cases held
      exact beside q opened
    · rw [still] at closed
      cases closed
  · obtain ⟨run, rest, split, head, plain, ends⟩ := exists_run delimiter text
    have some_run : run ≠ [] := fun nothing => by simp [nothing] at head
    refine ⟨run, rest, split, some_run, ?_, delimitersQuoted_plain reading plain,
      openedBeside_readAll beside plain, fun _ => ends⟩
    rw [split, stringTokens_run some_run plain ends]

/-- What is pulled ends before a delimiter outside of quotes, or with the text. -/
theorem pullUntilValid_text (text current : List Char)
    (beside : OpenedBeside delimiters (Reading.start.readAll quoteChars current))
    (ends : (Reading.start.readAll quoteChars current).opened = none →
      ∀ c ∈ text.head?, c ∈ delimiters) :
    ∃ front rest, text = front ++ rest ∧
      pullUntilValid quoteChars current (stringTokens delimiters text) =
        (current ++ front, stringTokens delimiters rest) ∧
      DelimitersQuoted quoteChars delimiters (Reading.start.readAll quoteChars current) front ∧
      ((Reading.start.readAll quoteChars (current ++ front)).opened = none ∧
          (∀ c ∈ rest.head?, c ∈ delimiters) ∨ rest = []) := by
  induction length : text.length using Nat.strongRecOn generalizing text current with
  | _ size ih =>
    cases opened : (Reading.start.readAll quoteChars current).opened with
    | none =>
      -- No quote is open, so nothing more is pulled.
      refine ⟨[], text, rfl, ?_, trivial, Or.inl ⟨by rw [List.append_nil, opened], ends opened⟩⟩
      rw [List.append_nil]
      cases stringTokens delimiters text with
      | nil => rfl
      | cons token later => rw [pullUntilValid, hasOpenQuote_iff unquoted, opened]; rfl
    | some q =>
      cases text with
      | nil => exact ⟨[], [], rfl, by rw [List.append_nil]; rfl, trivial, Or.inr rfl⟩
      | cons c text =>
        obtain ⟨token, rest, split, some_token, tokens, in_token, beside, ends⟩ :=
          stringTokens_quoted opened beside c text
        rw [← readAll_append] at beside ends
        have shorter : rest.length < size := by
          have some_length := List.length_pos_of_ne_nil some_token
          rw [← length, split, List.length_append]
          omega
        obtain ⟨front, later, rest_split, pulled, in_front, stops⟩ :=
          ih rest.length shorter rest (current ++ token) beside ends rfl
        refine ⟨token ++ front, later, ?_, ?_, ?_, ?_⟩
        · rw [split, rest_split, List.append_assoc]
        · rw [tokens, pullUntilValid, hasOpenQuote_iff unquoted, opened, Option.isSome_some,
            if_pos rfl, pulled, List.append_assoc]
        · rw [readAll_append] at in_front
          exact delimitersQuoted_append.mpr ⟨in_token, in_front⟩
        · rwa [← List.append_assoc]

/-- The next token, and the text after it. -/
theorem updateNextToken_text (text : List Char) (peeked : Option (List Char)) :
    (updateNextToken ⟨quoteChars, delimiters, stringTokens delimiters text, peeked⟩ =
        ⟨quoteChars, delimiters, [], none⟩ ∧
      withoutDelimiters quoteChars delimiters .start text = []) ∨
    ∃ token rest, rest.length < text.length ∧
      updateNextToken ⟨quoteChars, delimiters, stringTokens delimiters text, peeked⟩ =
        ⟨quoteChars, delimiters, stringTokens delimiters rest, some token⟩ ∧
      withoutDelimiters quoteChars delimiters .start text =
        token ++ withoutDelimiters quoteChars delimiters .start rest ∧
      DelimitersQuoted quoteChars delimiters .start token := by
  induction text with
  | nil => exact Or.inl ⟨rfl, rfl⟩
  | cons c text ih =>
    by_cases delimiter : c ∈ delimiters
    · -- Delimiters before a token are read over.
      have skipped : updateNextToken
          ⟨quoteChars, delimiters, stringTokens delimiters (c :: text), peeked⟩ =
            updateNextToken ⟨quoteChars, delimiters, stringTokens delimiters text, peeked⟩ := by
        rw [stringTokens_cons_delimiter delimiter, updateNextToken, updateNextToken]
        dsimp only
        rw [List.dropWhile_cons_of_pos (by simp [isDelimiters, delimiter])]
      rw [skipped, withoutDelimiters, if_pos ⟨rfl, delimiter⟩]
      refine ih.imp_right fun ⟨token, rest, shorter, found⟩ => ?_
      exact ⟨token, rest, Nat.lt_succ_of_lt shorter, found⟩
    · obtain ⟨run, after, split, head, plain, ends⟩ := exists_run delimiter text
      have some_run : run ≠ [] := fun nothing => by simp [nothing] at head
      have beside : OpenedBeside delimiters (Reading.start.readAll quoteChars run) :=
        openedBeside_readAll (fun q held => by cases held) plain
      obtain ⟨front, rest, after_split, pulled, in_front, stops⟩ :=
        pullUntilValid_text unquoted after run beside fun _ => ends
      have inside : DelimitersQuoted quoteChars delimiters .start (run ++ front) :=
        delimitersQuoted_append.mpr ⟨delimitersQuoted_plain .start plain, in_front⟩
      refine Or.inr ⟨run ++ front, rest, ?_, ?_, ?_, inside⟩
      · have some_length := List.length_pos_of_ne_nil some_run
        rw [split, after_split, List.length_append, List.length_append]
        omega
      · have no_delimiters : isDelimiters delimiters run = false := by
          cases run with
          | nil => cases head
          | cons d run => simp [isDelimiters, plain d List.mem_cons_self]
        rw [split, stringTokens_run some_run plain ends, updateNextToken]
        dsimp only
        rw [List.dropWhile_cons_of_neg (by simp [no_delimiters])]
        dsimp only
        rw [pulled]
      · rw [split, after_split, ← List.append_assoc, withoutDelimiters_append inside]
        rcases stops with ⟨closed, before⟩ | rfl
        · rw [withoutDelimiters_start closed before]
        · rfl

/-- All the tokens from a text on. -/
theorem remainder_text (text : List Char) (peeked : Option (List Char)) :
    let tokens := remainderAsList true
      (updateNextToken ⟨quoteChars, delimiters, stringTokens delimiters text, peeked⟩)
    tokens.flatten = withoutDelimiters quoteChars delimiters .start text ∧
      ∀ token ∈ tokens, DelimitersQuoted quoteChars delimiters .start token := by
  induction length : text.length using Nat.strongRecOn generalizing text peeked with
  | _ size ih =>
    rcases @updateNextToken_text quoteChars delimiters unquoted text peeked with
      ⟨updated, nothing⟩ | ⟨token, rest, shorter, updated, kept, inside⟩
    · rw [updated, nothing, remainderAsList]
      exact ⟨rfl, fun token member => by cases member⟩
    · rw [updated, kept, remainderAsList]
      obtain ⟨joined, all⟩ := ih rest.length (length ▸ shorter) rest (some token) rfl
      dsimp only [nextToken, Option.map_some]
      exact ⟨congrArg (token ++ ·) joined, List.forall_mem_cons.mpr ⟨inside, all⟩⟩

end Pulled

/-- Quote characters and delimiters that mean themselves in the patterns made of them. -/
structure Literal (quoteChars delimiters : List Char) : Prop where
  quotes : '\\' ∉ quoteChars
  nonempty : delimiters ≠ []
  delimiters : ∀ c ∈ delimiters, c ∉ ['\\', '[', ']', '^', '-', '&']

/-- The tokens, with their quotes, are the text without its delimiters outside of quotes. -/
theorem tokens_text (literal : Literal quoteChars delimiters) (stringToTokenize : List Char) :
    let tokens := remainderAsList true (create stringToTokenize quoteChars delimiters)
    tokens.flatten = withoutDelimiters quoteChars delimiters .start stringToTokenize ∧
      ∀ token ∈ tokens, DelimitersQuoted quoteChars delimiters .start token :=
  remainder_text literal.quotes stringToTokenize none

theorem default_literal : Literal defaultQuoteChars defaultDelimiters :=
  ⟨by decide, by decide, by simp [defaultDelimiters]⟩

/-- The space in the quotes stays, and the one outside of them does not. -/
theorem tokens_quoted_space :
    (remainderAsList true
      (create ['a', ' ', '"', 'b', ' ', 'c', '"'] defaultQuoteChars defaultDelimiters)).flatten =
        ['a', '"', 'b', ' ', 'c', '"'] :=
  (tokens_text default_literal ['a', ' ', '"', 'b', ' ', 'c', '"']).1.trans (by decide)

end Kept
end Open
end Brooklyn.QuotedStringTokenizer
