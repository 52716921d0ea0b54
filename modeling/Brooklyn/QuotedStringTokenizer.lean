import Mathlib.Data.List.Basic

/-!
`QuotedStringTokenizer`, over a `StringTokenizer` that returns its delimiters too: tokens in
which a quote is open are joined with the following ones. `quoteToken` escapes a text and
puts it in quotes, and `unquoteToken` takes quotes and escapes away. The replacements by
regular expressions are written out as scans of the text.
-/

namespace Brooklyn

def defaultQuoteChars : List Char := ['"', '\'']

def defaultDelimiters : List Char := [' ', '\t', '\n', '\r', '\x0c']

/-- `delegate` has the tokens that are left. Quotes are included in the tokens that are returned,
delimiters are not. -/
structure QuotedStringTokenizer where
  quoteChars : List Char
  delimiters : List Char
  delegate : List (List Char)
  peekedNextToken : Option (List Char)

namespace QuotedStringTokenizer

section Text
variable (quoteChars : List Char)

/-- Every backslash is doubled, and every quote character gets a backslash. -/
def escape : List Char → List Char
  | [] => []
  | c :: rest => (if c = '\\' ∨ c ∈ quoteChars then ['\\', c] else [c]) ++ escape rest

/-- Wrapped in the first quote character. -/
def quoteToken (unescapedText : List Char) : List Char :=
  quoteChars.take 1 ++ escape quoteChars unescapedText ++ quoteChars.take 1

/-- `(\\\\)*`: pairs of backslashes, and what comes after them. -/
def backslashPairs : List Char → List Char × List Char
  | '\\' :: '\\' :: rest => ('\\' :: '\\' :: (backslashPairs rest).1, (backslashPairs rest).2)
  | rest => ([], rest)

/-- `(\\\\)*["']+`: the pairs, and what comes after the quotes. -/
def matchQuotes (text : List Char) : Option (List Char × List Char) :=
  let (pairs, rest) := backslashPairs text
  if (rest.takeWhile fun c => c ∈ quoteChars).isEmpty then none
  else some (pairs, rest.dropWhile fun c => c ∈ quoteChars)

theorem length_backslashPairs (text : List Char) :
    (backslashPairs text).2.length ≤ text.length := by
  induction text using backslashPairs.induct with
  | case1 rest ih =>
    simp only [backslashPairs, List.length_cons]
    omega
  | case2 rest => simp [backslashPairs]

theorem length_matchQuotes {text pairs rest : List Char}
    (found : matchQuotes quoteChars text = some (pairs, rest)) : rest.length ≤ text.length := by
  obtain ⟨-, same⟩ := Option.ite_none_left_eq_some.mp found
  cases same
  exact Nat.le_trans (List.dropWhile_sublist _).length_le (length_backslashPairs text)

/-- `[^\\](\\\\)*["']+` replaced by all but the quotes. -/
def removeQuotesAfter (word : List Char) : List Char :=
  match word with
  | [] => []
  | c :: text =>
      match _found : if c = '\\' then none else matchQuotes quoteChars text with
      | some (pairs, rest) => c :: pairs ++ removeQuotesAfter rest
      | none => c :: removeQuotesAfter text
termination_by word.length
decreasing_by
  · obtain ⟨-, found⟩ := Option.ite_none_left_eq_some.mp _found
    exact Nat.lt_succ_of_le (length_matchQuotes quoteChars found)
  · exact Nat.lt_succ_self _

/-- `((\A|[^\\])(\\\\)*)["']+` replaced by its first group. -/
def removeQuotes (word : List Char) : List Char :=
  match matchQuotes quoteChars word with
  | some (pairs, rest) => pairs ++ removeQuotesAfter quoteChars rest
  | none => removeQuotesAfter quoteChars word

/-- Any backslash before a backslash or a quote is left out. -/
def unescape : List Char → List Char
  | [] => []
  | '\\' :: c :: rest =>
      if c = '\\' ∨ c ∈ quoteChars then c :: unescape rest else '\\' :: unescape (c :: rest)
  | c :: rest => c :: unescape rest

def unquoteToken (word : List Char) : List Char := unescape quoteChars (removeQuotes quoteChars word)

/-- The quotes that no backslash stands before. -/
def unescapedQuotes : List Char → List Char
  | [] => []
  | '\\' :: _ :: rest => unescapedQuotes rest
  | c :: rest => if c ∈ quoteChars then c :: unescapedQuotes rest else unescapedQuotes rest

/-- Each quote in turn is matched with the next of its kind. -/
def unmatched (quotes : List Char) : Bool :=
  match quotes with
  | [] => false
  | c :: rest =>
      if c ∈ rest then unmatched (rest.drop (rest.idxOf c + 1)) else true
termination_by quotes.length
decreasing_by
  rw [List.length_drop, List.length_cons]
  omega

def hasOpenQuote (stringToCheck : List Char) : Bool :=
  unmatched (unescapedQuotes quoteChars stringToCheck)

end Text

section Tokens
variable (quoteChars delimiters : List Char)

/-- The tokens of `StringTokenizer`: each delimiter is one, and each run of other characters. -/
def stringTokens : List Char → List (List Char)
  | [] => []
  | c :: rest =>
      if c ∈ delimiters then [c] :: stringTokens rest
      else
        match stringTokens rest with
        | (d :: token) :: more =>
            if d ∈ delimiters then [c] :: (d :: token) :: more else (c :: d :: token) :: more
        | more => [c] :: more

/-- The token with as many of the following ones as it takes until no quote is open. -/
def pullUntilValid (nextToken : List Char) : List (List Char) → List Char × List (List Char)
  | [] => (nextToken, [])
  | token :: delegate =>
      if hasOpenQuote quoteChars nextToken then pullUntilValid (nextToken ++ token) delegate
      else (nextToken, token :: delegate)

theorem length_pullUntilValid (nextToken : List Char) (delegate : List (List Char)) :
    (pullUntilValid quoteChars nextToken delegate).2.length ≤ delegate.length := by
  induction delegate generalizing nextToken with
  | nil => exact Nat.le_refl _
  | cons token delegate ih =>
    unfold pullUntilValid
    split
    · exact Nat.le_succ_of_le (ih _)
    · exact Nat.le_refl _

end Tokens

section Tokenizer
variable (tokenizer : QuotedStringTokenizer)

def isDelimiters (delimiters token : List Char) : Bool :=
  !token.isEmpty && token.all fun c => c ∈ delimiters

def updateNextToken : QuotedStringTokenizer :=
  match tokenizer.delegate.dropWhile (isDelimiters tokenizer.delimiters) with
  | [] => { tokenizer with delegate := [], peekedNextToken := none }
  | token :: delegate =>
      let pulled := pullUntilValid tokenizer.quoteChars token delegate
      { tokenizer with delegate := pulled.2, peekedNextToken := some pulled.1 }

def create (stringToTokenize quoteChars delimiters : List Char) : QuotedStringTokenizer :=
  updateNextToken
    { quoteChars, delimiters, delegate := stringTokens delimiters stringToTokenize
      peekedNextToken := none }

/-- `none` where `hasMoreTokens` is false. -/
def nextToken : Option (List Char × QuotedStringTokenizer) :=
  tokenizer.peekedNextToken.map fun lastToken => (lastToken, tokenizer.updateNextToken)

/-- As many tokens as there can still be. -/
def remaining : Nat :=
  tokenizer.delegate.length + if tokenizer.peekedNextToken.isSome then 1 else 0

theorem remaining_updateNextToken :
    tokenizer.updateNextToken.remaining ≤ tokenizer.delegate.length := by
  have dropped := (List.dropWhile_sublist (isDelimiters tokenizer.delimiters)
    (l := tokenizer.delegate)).length_le
  unfold updateNextToken
  split
  · exact Nat.zero_le _
  · next token delegate left =>
    have pulled := length_pullUntilValid tokenizer.quoteChars token delegate
    rw [left, List.length_cons] at dropped
    exact Nat.le_trans (Nat.succ_le_succ pulled) dropped

theorem remaining_nextToken {token : List Char} {next : QuotedStringTokenizer}
    (more : tokenizer.nextToken = some (token, next)) : next.remaining < tokenizer.remaining := by
  obtain ⟨lastToken, peeked, same⟩ := Option.map_eq_some_iff.mp more
  cases same
  have updated := tokenizer.remaining_updateNextToken
  rw [remaining.eq_def tokenizer, peeked]
  exact Nat.lt_succ_of_le updated

/-- `nextToken` until there are no more. -/
def remainderAsList (includeQuotes : Bool) (tokenizer : QuotedStringTokenizer) :
    List (List Char) :=
  match _more : tokenizer.nextToken with
  | none => []
  | some (token, next) =>
      (if includeQuotes then token else unquoteToken tokenizer.quoteChars token) ::
        remainderAsList includeQuotes next
termination_by tokenizer.remaining
decreasing_by exact tokenizer.remaining_nextToken _more

end Tokenizer
end QuotedStringTokenizer
end Brooklyn

/-!
What `unquoteToken` makes of a quoted text: the text, except that the closing quote stays
where there are only backslashes before it, because the opening quote was matched already.
And what the tokenizer makes of quoted texts between delimiters.
-/

namespace Brooklyn.QuotedStringTokenizer

def OnlyBackslashes (text : List Char) : Prop := ∀ c ∈ text, c = '\\'

instance (text : List Char) : Decidable (OnlyBackslashes text) :=
  inferInstanceAs (Decidable (∀ c ∈ text, c = '\\'))

section Quotes
variable {q : Char} {others : List Char}

theorem onlyBackslashes_cons {c : Char} {text : List Char} :
    OnlyBackslashes (c :: text) ↔ c = '\\' ∧ OnlyBackslashes text :=
  List.forall_mem_cons

theorem escape_special {c : Char} (special : c = '\\' ∨ c ∈ q :: others) (text : List Char) :
    escape (q :: others) (c :: text) = '\\' :: c :: escape (q :: others) text := by
  rw [escape, if_pos special]
  rfl

theorem escape_plain {c : Char} (plain : ¬ (c = '\\' ∨ c ∈ q :: others)) (text : List Char) :
    escape (q :: others) (c :: text) = c :: escape (q :: others) text := by
  rw [escape, if_neg plain]
  rfl

theorem not_mem_escape {c : Char} {text : List Char} (missing : c ∉ text) (plain : c ≠ '\\') :
    c ∉ escape (q :: others) text := by
  induction text with
  | nil => exact List.not_mem_nil
  | cons d text ih =>
    obtain ⟨other, missing⟩ := not_or.mp (List.mem_cons.not.mp missing)
    by_cases special : d = '\\' ∨ d ∈ q :: others
    · rw [escape_special special]
      simp [plain, other, ih missing]
    · rw [escape_plain special]
      simp [other, ih missing]

theorem matchQuotes_of_not_quote {c : Char} {text : List Char} (no_quote : c ∉ q :: others)
    (single : ∀ rest, c :: text ≠ '\\' :: '\\' :: rest) :
    matchQuotes (q :: others) (c :: text) = none := by
  have pairs : backslashPairs (c :: text) = ([], c :: text) := by
    unfold backslashPairs
    split
    · next rest same => exact absurd same (single rest)
    · rfl
  rw [matchQuotes, pairs]
  simp only [List.takeWhile_cons, no_quote]
  rfl

theorem matchQuotes_pair (text : List Char) :
    matchQuotes (q :: others) ('\\' :: '\\' :: text) =
      (matchQuotes (q :: others) text).map fun found => ('\\' :: '\\' :: found.1, found.2) := by
  unfold matchQuotes
  rw [backslashPairs]
  dsimp only
  split <;> rfl

/-- The closing quote is matched from before the text where there are only backslashes. -/
theorem matchQuotes_escape (unquoted : '\\' ∉ q :: others) (text : List Char) :
    matchQuotes (q :: others) (escape (q :: others) text ++ [q]) =
      if OnlyBackslashes text then some (escape (q :: others) text, []) else none := by
  induction text with
  | nil =>
    have no_backslash : q ≠ '\\' := fun same => unquoted (same ▸ List.mem_cons_self)
    have pairs : backslashPairs [q] = ([], [q]) := by
      unfold backslashPairs
      split
      · next same => exact absurd (List.cons.inj same).1 no_backslash
      · rfl
    simp [escape, matchQuotes, pairs, OnlyBackslashes]
  | cons c text ih =>
    by_cases backslash : c = '\\'
    · subst backslash
      rw [escape_special (Or.inl rfl), List.cons_append, List.cons_append, matchQuotes_pair, ih]
      by_cases only : OnlyBackslashes text
      · rw [if_pos only, if_pos (onlyBackslashes_cons.mpr ⟨rfl, only⟩)]
        rfl
      · rw [if_neg only, if_neg fun both => only (onlyBackslashes_cons.mp both).2]
        rfl
    · rw [if_neg fun only => backslash (onlyBackslashes_cons.mp only).1]
      by_cases special : c = '\\' ∨ c ∈ q :: others
      · rw [escape_special special, List.cons_append]
        refine matchQuotes_of_not_quote unquoted fun rest same => ?_
        exact backslash (List.cons.inj (List.cons.inj same).2).1
      · rw [escape_plain special, List.cons_append]
        refine matchQuotes_of_not_quote (fun quote => special (Or.inr quote)) fun rest same => ?_
        exact backslash (List.cons.inj same).1

theorem removeQuotesAfter_backslash (text : List Char) :
    removeQuotesAfter (q :: others) ('\\' :: text) =
      '\\' :: removeQuotesAfter (q :: others) text := by
  rw [removeQuotesAfter]
  split
  · next found => cases found
  · rfl

theorem removeQuotesAfter_matched {c : Char} {text pairs rest : List Char} (plain : c ≠ '\\')
    (matched : matchQuotes (q :: others) text = some (pairs, rest)) :
    removeQuotesAfter (q :: others) (c :: text) =
      c :: pairs ++ removeQuotesAfter (q :: others) rest := by
  rw [removeQuotesAfter]
  split
  · next found =>
    rw [if_neg plain, matched] at found
    cases found
    rfl
  · next found =>
    rw [if_neg plain, matched] at found
    cases found

theorem removeQuotesAfter_unmatched {c : Char} {text : List Char}
    (unmatched : matchQuotes (q :: others) text = none) :
    removeQuotesAfter (q :: others) (c :: text) =
      c :: removeQuotesAfter (q :: others) text := by
  rw [removeQuotesAfter]
  split
  · next found =>
    obtain ⟨-, found⟩ := Option.ite_none_left_eq_some.mp found
    rw [unmatched] at found
    cases found
  · rfl

/-- A character that is no backslash, then escaped text and the closing quote. -/
theorem removeQuotesAfter_cons {c : Char} {text : List Char} (unquoted : '\\' ∉ q :: others)
    (plain : c ≠ '\\')
    (later : removeQuotesAfter (q :: others) (escape (q :: others) text ++ [q]) =
      if OnlyBackslashes text then escape (q :: others) text ++ [q]
      else escape (q :: others) text) :
    removeQuotesAfter (q :: others) (c :: (escape (q :: others) text ++ [q])) =
      c :: escape (q :: others) text := by
  have matched := matchQuotes_escape unquoted text
  by_cases only : OnlyBackslashes text
  · rw [if_pos only] at matched
    rw [removeQuotesAfter_matched plain matched]
    simp [removeQuotesAfter]
  · rw [if_neg only] at matched
    rw [removeQuotesAfter_unmatched matched, later, if_neg only]

/-- Escaped text keeps its own quotes; the closing quote goes, unless only backslashes precede
it, for none of them starts a match. -/
theorem removeQuotesAfter_escape (unquoted : '\\' ∉ q :: others) (text : List Char) :
    removeQuotesAfter (q :: others) (escape (q :: others) text ++ [q]) =
      if OnlyBackslashes text then escape (q :: others) text ++ [q]
      else escape (q :: others) text := by
  induction text with
  | nil =>
    have unmatched : matchQuotes (q :: others) [] = none := rfl
    simp [escape, removeQuotesAfter_unmatched unmatched, removeQuotesAfter, OnlyBackslashes]
  | cons c text ih =>
    by_cases backslash : c = '\\'
    · subst backslash
      rw [escape_special (Or.inl rfl), List.cons_append, List.cons_append,
        removeQuotesAfter_backslash, removeQuotesAfter_backslash, ih]
      by_cases only : OnlyBackslashes text
      · rw [if_pos only, if_pos (onlyBackslashes_cons.mpr ⟨rfl, only⟩)]
      · rw [if_neg only, if_neg fun both => only (onlyBackslashes_cons.mp both).2]
    · rw [if_neg fun only => backslash (onlyBackslashes_cons.mp only).1]
      by_cases special : c = '\\' ∨ c ∈ q :: others
      · rw [escape_special special, List.cons_append, removeQuotesAfter_backslash,
          List.cons_append, removeQuotesAfter_cons unquoted backslash ih]
      · rw [escape_plain special, List.cons_append, removeQuotesAfter_cons unquoted backslash ih]

theorem unescape_escape (text rest : List Char) :
    unescape (q :: others) (escape (q :: others) text ++ rest) =
      text ++ unescape (q :: others) rest := by
  induction text with
  | nil => rfl
  | cons c text ih =>
    by_cases special : c = '\\' ∨ c ∈ q :: others
    · rw [escape_special special, List.cons_append, List.cons_append, unescape, if_pos special, ih]
      rfl
    · have plain : c ≠ '\\' := fun same => special (Or.inl same)
      rw [escape_plain special, List.cons_append]
      simp [unescape, plain, ih]

/-- The opening quote, before text that starts with none. -/
theorem matchQuotes_open (unquoted : '\\' ∉ q :: others) {text : List Char}
    (head : ∀ c ∈ text.head?, c ∉ q :: others) :
    matchQuotes (q :: others) (q :: text) = some ([], text) := by
  have no_backslash : q ≠ '\\' := fun same => unquoted (same ▸ List.mem_cons_self)
  have pairs : backslashPairs (q :: text) = ([], q :: text) := by
    unfold backslashPairs
    split
    · next same => exact absurd (List.cons.inj same).1 no_backslash
    · rfl
  have dropped : text.dropWhile (fun c => c ∈ q :: others) = text := by
    cases text with
    | nil => rfl
    | cons c text => exact List.dropWhile_cons_of_neg (by simpa using head c rfl)
  have opens : decide (q ∈ q :: others) = true := decide_eq_true List.mem_cons_self
  rw [matchQuotes, pairs]
  dsimp only
  rw [List.takeWhile_cons, List.dropWhile_cons, opens, if_pos rfl, if_pos rfl, dropped]
  rfl

theorem removeQuotes_quoteToken (unquoted : '\\' ∉ q :: others) (text : List Char) :
    removeQuotes (q :: others) (quoteToken (q :: others) text) =
      if text ≠ [] ∧ OnlyBackslashes text then escape (q :: others) text ++ [q]
      else escape (q :: others) text := by
  have no_backslash : q ≠ '\\' := fun same => unquoted (same ▸ List.mem_cons_self)
  cases text with
  | nil =>
    have pairs : backslashPairs [q, q] = ([], [q, q]) := by
      unfold backslashPairs
      split
      · next same => exact absurd (List.cons.inj same).1 no_backslash
      · rfl
    simp [quoteToken, escape, removeQuotes, matchQuotes, pairs, removeQuotesAfter]
  | cons c text =>
    have quoted : quoteToken (q :: others) (c :: text) =
        q :: (escape (q :: others) (c :: text) ++ [q]) := rfl
    have head : ∀ first ∈ (escape (q :: others) (c :: text) ++ [q]).head?, first ∉ q :: others := by
      by_cases special : c = '\\' ∨ c ∈ q :: others
      · rw [escape_special special]
        rintro first ⟨⟩
        exact unquoted
      · rw [escape_plain special]
        rintro first ⟨⟩
        exact fun quote => special (Or.inr quote)
    rw [quoted, removeQuotes, matchQuotes_open unquoted head]
    dsimp only
    rw [List.nil_append, removeQuotesAfter_escape unquoted]
    simp only [ne_eq, reduceCtorEq, not_false_eq_true, true_and]

/-- Quoting and unquoting give the text back, unless it is backslashes only: then the closing
quote stays. -/
theorem unquoteToken_quoteToken (unquoted : '\\' ∉ q :: others) (text : List Char) :
    unquoteToken (q :: others) (quoteToken (q :: others) text) =
      if text ≠ [] ∧ OnlyBackslashes text then text ++ [q] else text := by
  have no_backslash : q ≠ '\\' := fun same => unquoted (same ▸ List.mem_cons_self)
  have closing : unescape (q :: others) [q] = [q] := by simp [unescape]
  rw [unquoteToken, removeQuotes_quoteToken unquoted]
  split
  · rw [unescape_escape, closing]
  · have whole : unescape (q :: others) (escape (q :: others) text ++ []) = _ :=
      unescape_escape text []
    simpa [unescape] using whole

theorem backslashPairs_append (text : List Char) :
    (backslashPairs text).1 ++ (backslashPairs text).2 = text := by
  induction text using backslashPairs.induct with
  | case1 rest ih => simpa [backslashPairs] using ih
  | case2 rest single => rw [backslashPairs]; exacts [rfl, single]

theorem matchQuotes_subset {text pairs rest : List Char}
    (found : matchQuotes (q :: others) text = some (pairs, rest)) :
    pairs ⊆ text ∧ rest ⊆ text := by
  obtain ⟨-, same⟩ := Option.ite_none_left_eq_some.mp found
  cases same
  have whole := backslashPairs_append text
  constructor
  · intro c member
    exact whole ▸ List.mem_append_left _ member
  · intro c member
    exact whole ▸ List.mem_append_right _ ((List.dropWhile_sublist _).subset member)

theorem removeQuotesAfter_subset (word : List Char) :
    removeQuotesAfter (q :: others) word ⊆ word := by
  induction word using removeQuotesAfter.induct (q :: others) with
  | case1 =>
    rw [removeQuotesAfter]
    exact List.Subset.refl _
  | case2 c text pairs rest found ih =>
    obtain ⟨plain, matched⟩ := Option.ite_none_left_eq_some.mp found
    obtain ⟨in_pairs, in_rest⟩ := matchQuotes_subset matched
    rw [removeQuotesAfter_matched plain matched]
    intro d member
    rcases List.mem_append.mp member with before | after
    · exact List.cons_subset_cons c in_pairs before
    · exact List.mem_cons_of_mem _ (in_rest (ih after))
  | case3 c text found ih =>
    have unmatched : (if c = '\\' then none else matchQuotes (q :: others) text) = none := found
    have kept : removeQuotesAfter (q :: others) (c :: text) =
        c :: removeQuotesAfter (q :: others) text := by
      rw [removeQuotesAfter]
      split
      · next other =>
        rw [unmatched] at other
        cases other
      · rfl
    rw [kept]
    exact List.cons_subset_cons c ih

theorem unescape_subset (word : List Char) : unescape (q :: others) word ⊆ word := by
  induction word using unescape.induct (q :: others) with
  | case1 => exact List.Subset.refl _
  | case2 c rest special ih =>
    rw [unescape, if_pos special]
    exact fun d member => List.mem_cons_of_mem _ (List.cons_subset_cons c ih member)
  | case3 c rest plain ih =>
    rw [unescape, if_neg plain]
    exact List.cons_subset_cons _ ih
  | case4 c rest single ih =>
    rw [unescape]
    · exact List.cons_subset_cons c ih
    · exact single

/-- Nothing comes into a text by unquoting. -/
theorem unquoteToken_subset (word : List Char) : unquoteToken (q :: others) word ⊆ word := by
  refine List.Subset.trans (unescape_subset _) ?_
  unfold removeQuotes
  split
  · next pairs rest matched =>
    obtain ⟨in_pairs, in_rest⟩ := matchQuotes_subset matched
    exact List.append_subset.mpr
      ⟨in_pairs, List.Subset.trans (removeQuotesAfter_subset rest) in_rest⟩
  · exact removeQuotesAfter_subset word

end Quotes
end Brooklyn.QuotedStringTokenizer
