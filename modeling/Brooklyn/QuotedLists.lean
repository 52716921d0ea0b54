import Brooklyn.JavaText
import Brooklyn.QuotedSegments

/-!
The tokenizer on segments with one delimiter between them, and so on quoted texts that are joined
with spaces: it reads each of them back, but for the texts that quoting itself does not keep.
-/

namespace Brooklyn.QuotedStringTokenizer

section Joined
variable {quoteChars delimiters : List Char}

/-- The tokens of segments that have a delimiter before each. -/
def tokensBehind (delimiters : List Char) (d : Char) (segments : List (List Char)) :
    List (List Char) :=
  segments.flatMap fun text => [d] :: stringTokens delimiters text

theorem stringTokens_joined {d : Char} (delimiter : d ∈ delimiters) (text : List Char)
    (segments : List (List Char)) :
    stringTokens delimiters (text ++ segments.flatMap (d :: ·)) =
      stringTokens delimiters text ++ tokensBehind delimiters d segments := by
  induction segments generalizing text with
  | nil => simp [tokensBehind]
  | cons next segments ih =>
    have line : text ++ (next :: segments).flatMap (d :: ·) =
        text ++ d :: (next ++ segments.flatMap (d :: ·)) := by simp
    rw [line, stringTokens_append delimiter, ih]
    simp [tokensBehind]

/-- The tokenizer that has these segments still to return, the delimiters before all but the
first of them. -/
def atJoined (quoteChars delimiters : List Char) (d : Char) :
    List (List Char) → QuotedStringTokenizer
  | [] => ⟨quoteChars, delimiters, [], none⟩
  | text :: segments => ⟨quoteChars, delimiters, tokensBehind delimiters d segments, some text⟩

variable (unquoted : '\\' ∉ quoteChars) (apart : ∀ c ∈ delimiters, c ≠ '\\' ∧ c ∉ quoteChars)
  {d : Char} (delimiter : d ∈ delimiters)
include unquoted apart delimiter

theorem create_joined {segments : List (List Char)}
    (all : ∀ text ∈ segments, Segment quoteChars delimiters text) :
    create ([d].intercalate segments) quoteChars delimiters =
      atJoined quoteChars delimiters d segments := by
  cases segments with
  | nil => rfl
  | cons text segments =>
    have segment := all text List.mem_cons_self
    have joined : [d].intercalate (text :: segments) = text ++ segments.flatMap (d :: ·) :=
      intercalate_cons_flatMap [d] text segments
    rw [create, joined, stringTokens_joined delimiter,
      updateNextToken_segment unquoted apart segment]
    rfl

theorem nextToken_joined {text : List Char} {segments : List (List Char)}
    (all : ∀ text ∈ segments, Segment quoteChars delimiters text) :
    nextToken (atJoined quoteChars delimiters d (text :: segments)) =
      some (text, atJoined quoteChars delimiters d segments) := by
  have skipped : isDelimiters delimiters [d] = true := by simp [isDelimiters, delimiter]
  cases segments with
  | nil => rfl
  | cons next segments =>
    have updated := updateNextToken_segment unquoted apart (all next List.mem_cons_self)
      (tokensBehind delimiters d segments) (some text)
    have tokens : tokensBehind delimiters d (next :: segments) =
        [d] :: (stringTokens delimiters next ++ tokensBehind delimiters d segments) := by
      simp [tokensBehind]
    rw [nextToken, atJoined, tokens]
    dsimp only [Option.map_some]
    rw [updateNextToken]
    dsimp only
    rw [List.dropWhile_cons_of_pos skipped]
    exact congrArg (fun left => some (text, left)) updated

theorem remainder_joined {segments : List (List Char)}
    (all : ∀ text ∈ segments, Segment quoteChars delimiters text) (includeQuotes : Bool) :
    remainderAsList includeQuotes (atJoined quoteChars delimiters d segments) =
      segments.map fun token => if includeQuotes then token else unquoteToken quoteChars token := by
  induction segments with
  | nil =>
    rw [remainderAsList]
    rfl
  | cons text segments ih =>
    have later := fun other member => all other (List.mem_cons_of_mem text member)
    have next : nextToken (atJoined quoteChars delimiters d (text :: segments)) = _ :=
      nextToken_joined unquoted apart delimiter later
    rw [remainderAsList]
    split
    next none_left => rw [next] at none_left; cases none_left
    next token left more =>
      rw [next] at more
      cases more
      rw [ih later]
      rfl

end Joined

section Quoted
variable {q : Char} {others delimiters : List Char}

theorem segment_quoteToken (unquoted : '\\' ∉ q :: others)
    (apart : ∀ c ∈ delimiters, c ≠ '\\' ∧ c ∉ q :: others) (text : List Char) :
    Segment (q :: others) delimiters (quoteToken (q :: others) text) := by
  obtain ⟨guarded, after⟩ := guarded_quoteToken unquoted apart text
  refine ⟨⟨q, rfl, fun delimiter => ?_⟩, guarded, by rw [after]; rfl⟩
  exact (apart q delimiter).2 List.mem_cons_self

/-- A quoted text is unquoted to itself exactly if it is empty or has another character than a
backslash. -/
theorem unquoteToken_eq_iff (unquoted : '\\' ∉ q :: others) (text : List Char) :
    unquoteToken (q :: others) (quoteToken (q :: others) text) = text ↔
      ¬ (text ≠ [] ∧ OnlyBackslashes text) := by
  rw [unquoteToken_quoteToken unquoted]
  split
  next kept => exact iff_of_false (fun same => by simp at same) fun plain => plain kept
  next plain => exact iff_of_true rfl plain

theorem remainder_quoted (unquoted : '\\' ∉ q :: others)
    (apart : ∀ c ∈ delimiters, c ≠ '\\' ∧ c ∉ q :: others) {d : Char} (delimiter : d ∈ delimiters)
    (texts : List (List Char)) :
    remainderAsList false
        (create ([d].intercalate (texts.map (quoteToken (q :: others)))) (q :: others) delimiters) =
      texts.map fun text => unquoteToken (q :: others) (quoteToken (q :: others) text) := by
  have all : ∀ text ∈ texts.map (quoteToken (q :: others)),
      Segment (q :: others) delimiters text := by
    intro quoted member
    obtain ⟨text, -, rfl⟩ := List.mem_map.mp member
    exact segment_quoteToken unquoted apart text
  rw [create_joined unquoted apart delimiter all, remainder_joined unquoted apart delimiter all,
    List.map_map]
  rfl

end Quoted

theorem unquoted_defaults : '\\' ∉ defaultQuoteChars := by decide

theorem apart_defaults : ∀ c ∈ defaultDelimiters, c ≠ '\\' ∧ c ∉ defaultQuoteChars := by
  simp [defaultDelimiters, defaultQuoteChars]

/-- Texts that are quoted and joined with spaces are read back exactly if none of them is made of
backslashes only. -/
theorem quoted_list_iff (texts : List (List Char)) :
    remainderAsList false
        (create ([' '].intercalate (texts.map (quoteToken defaultQuoteChars))) defaultQuoteChars
          defaultDelimiters) = texts ↔
      ∀ text ∈ texts, ¬ (text ≠ [] ∧ OnlyBackslashes text) := by
  have read : remainderAsList false
      (create ([' '].intercalate (texts.map (quoteToken defaultQuoteChars))) defaultQuoteChars
        defaultDelimiters) =
      texts.map fun text => unquoteToken defaultQuoteChars (quoteToken defaultQuoteChars text) :=
    remainder_quoted unquoted_defaults apart_defaults (by decide) texts
  have each : (texts.map fun text => unquoteToken defaultQuoteChars
        (quoteToken defaultQuoteChars text)) = texts.map id ↔
      ∀ text ∈ texts, ¬ (text ≠ [] ∧ OnlyBackslashes text) := by
    rw [List.map_inj_left]
    exact forall₂_congr fun text _ => unquoteToken_eq_iff unquoted_defaults text
  rw [read, ← each, List.map_id]

/-- A single backslash comes back with the closing quote. -/
theorem backslash_keeps_quote :
    ¬ ∀ texts, remainderAsList false
        (create ([' '].intercalate (texts.map (quoteToken defaultQuoteChars))) defaultQuoteChars
          defaultDelimiters) = texts := by
  intro round_trips
  have read := remainder_quoted unquoted_defaults apart_defaults
    (show ' ' ∈ defaultDelimiters by decide) [['\\']]
  have back := unquoteToken_quoteToken unquoted_defaults ['\\']
  rw [if_pos ⟨by decide, by simp [OnlyBackslashes]⟩] at back
  have kept := read.symm.trans (round_trips [['\\']])
  rw [List.map_singleton, back] at kept
  exact absurd kept (by decide)

end Brooklyn.QuotedStringTokenizer
