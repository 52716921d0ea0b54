import Brooklyn.BraceGrammar
import Brooklyn.Rounds
import Brooklyn.WildcardGlobs

/-!
`LocationRegistry.expandCommaSeparateLocationList`: the list is put in braces and expanded, with
neither the inside of quotes nor that of parentheses expanded.
-/

namespace Brooklyn.LocationRegistry
open Rounds WildcardGlobs
open BraceGrammar (BraceFree braceFree_cons)

def expandCommaSeparateLocationList (rounds : Nat) (id : List Char) :
    Option (Except InvalidPatternException (List (List Char))) :=
  getGlobsAfterBraceExpansionWith .interiorNotExpandable .interiorNotExpandable rounds
    ('{' :: (id ++ ['}']))

section Places

/-- What is open around a character: a quote, and so many parentheses. -/
structure Place where
  inQuote : Bool
  depth : Nat
  deriving DecidableEq

def outside : Place := ⟨false, 0⟩

variable (counts : Nat → Bool)

/-- `counts` says whether a quote is one, by the number of parentheses around it. A quote behind a
backslash does not close, and parentheses in quotes are none. -/
def Place.next (place : Place) (previous : Option Char) (c : Char) : Place :=
  if place.inQuote then
    if c = '"' ∧ previous ≠ some '\\' then ⟨false, place.depth⟩ else place
  else if c = '"' ∧ counts place.depth = true then ⟨true, place.depth⟩
  else if c = '(' then ⟨false, place.depth + 1⟩
  else if c = ')' then ⟨false, place.depth - 1⟩
  else place

/-- Every quote and every parenthesis that is opened is closed. -/
def Closed : Place → Option Char → List Char → Prop
  | place, _, [] => place = outside
  | place, previous, c :: rest => Closed (place.next counts previous c) (some c) rest

/-- No parenthesis closes that was not opened. -/
def Opened : Place → Option Char → List Char → Prop
  | _, _, [] => True
  | place, previous, c :: rest =>
      ¬ (c = ')' ∧ place = outside) ∧ Opened (place.next counts previous c) (some c) rest

def Balanced (id : List Char) : Prop :=
  Closed counts outside none id ∧ Opened counts outside none id

/-- The text cut at the commas outside of quotes and parentheses; `piece` is what there is of the
first piece. -/
def cut : Place → Option Char → List Char → List Char → List (List Char)
  | _, _, piece, [] => [piece]
  | place, previous, piece, c :: rest =>
      if c = ',' ∧ place = outside then piece :: cut outside (some c) [] rest
      else cut (place.next counts previous c) (some c) (piece ++ [c]) rest

def pieces (id : List Char) : List (List Char) := cut counts outside none [] id

end Places

section Phrases
variable {base : List Char}

/-- Quotes count outside of parentheses only. -/
def outsideParentheses (depth : Nat) : Bool := depth == 0

/-- What is in the expander's stack, over what it had before. -/
def stack (base : List Char) (place : Place) : List Char :=
  base ++ if place.inQuote then ['"'] else List.replicate place.depth '('

/-- Parentheses around a quote are never in the stack. -/
def Place.Flat (place : Place) : Prop := place.inQuote = true → place.depth = 0

theorem Place.Flat.next {place : Place} (flat : place.Flat) (previous : Option Char) (c : Char) :
    (place.next outsideParentheses previous c).Flat := by
  unfold Place.next Place.Flat
  split
  next quoted => split <;> simp_all [Place.Flat]
  next =>
    split
    next opens => intro; exact beq_iff_eq.mp opens.2
    next => split <;> [skip; split] <;> simp_all [Place.Flat]

/-- The expander follows the places: only outside of everything it looks for braces and commas. -/
theorem phrase_next (no_parenthesis : '(' ∉ base) {place : Place} (flat : place.Flat)
    (previous : Option Char) (c : Char) :
    phrase .interiorNotExpandable .interiorNotExpandable previous c place.inQuote
        (stack base place) =
      if place = outside ∧ c ≠ '"' ∧ c ≠ '(' then .outside
      else .inside (place.next outsideParentheses previous c).inQuote
        (stack base (place.next outsideParentheses previous c)) := by
  obtain ⟨inQuote, depth⟩ := place
  cases inQuote with
  | true =>
    obtain rfl : depth = 0 := flat rfl
    have no_paren : inParen true (base ++ ['"']) = false := by simp [inParen, no_parenthesis]
    by_cases quote : c = '"'
    · subst quote
      by_cases escaped : previous = some '\\'
      · simp [phrase, quoted, stack, no_paren, Place.next, outside, escaped]
      · simp [phrase, quoted, stack, no_paren, Place.next, outside, escaped]
    · simp [phrase, quoted, stack, no_paren, Place.next, outside, quote]
  | false =>
    cases depth with
    | zero =>
      have no_paren : inParen false base = false := by simp [inParen, no_parenthesis]
      by_cases quote : c = '"'
      · simp [phrase, opening, stack, no_paren, Place.next, outside, outsideParentheses, quote]
      by_cases opens : c = '('
      · simp [phrase, opening, stack, no_paren, Place.next, outside, opens]
      · simp [phrase, opening, stack, no_paren, outside, quote, opens]
    | succ depth =>
      have paren : inParen false (base ++ List.replicate (depth + 1) '(') = true := by
        simp [inParen]
      have last : (List.replicate (depth + 1) '(').getLast? = some '(' := by
        rw [List.replicate_succ', List.getLast?_concat]
      by_cases closes : c = ')'
      · simp [phrase, parenthesized, stack, paren, Place.next, outside, outsideParentheses, closes,
          last]
      by_cases opens : c = '('
      · have pushed : List.replicate (depth + 1) '(' ++ ['('] = List.replicate (depth + 1 + 1) '(' :=
          List.replicate_succ'.symm
        simp [phrase, parenthesized, stack, paren, Place.next, outside, outsideParentheses, opens,
          pushed]
      · simp [phrase, parenthesized, stack, paren, Place.next, outside, outsideParentheses, closes,
          opens]

end Phrases

section Expansion

/-- The search for the end of the list finds its pieces. -/
theorem findTokens_cut {text : List Char} (free : BraceFree text) {place : Place}
    (flat : place.Flat) {previous : Option Char}
    (closed : Closed outsideParentheses place previous text) (resultSoFar braced piece : List Char)
    (tokens : List (List Char)) :
    findTokens .interiorNotExpandable .interiorNotExpandable [] resultSoFar (text ++ ['}']) previous
        braced piece place.inQuote (stack ['{'] place) tokens =
      .ok (tokens ++ cut outsideParentheses place previous piece text, []) := by
  induction text generalizing place previous braced piece tokens with
  | nil =>
    obtain rfl : place = outside := closed
    rw [List.nil_append, findTokens, phrase_next (by decide) flat]
    rfl
  | cons c text ih =>
    obtain ⟨no_open, no_close, rest_free⟩ := braceFree_cons.mp free
    rw [List.cons_append, findTokens, phrase_next (by decide) flat, cut]
    by_cases plain : place = outside ∧ c ≠ '"' ∧ c ≠ '('
    -- Only here a comma cuts; inside of a phrase the character is taken as it is.
    · obtain ⟨rfl, no_quote, no_parenthesis⟩ := plain
      have stays : outside.next outsideParentheses previous c = outside := by
        simp [Place.next, outside, no_quote, no_parenthesis]
      have later : Closed outsideParentheses outside (some c) text := stays ▸ closed
      rw [if_pos ⟨rfl, no_quote, no_parenthesis⟩]
      dsimp only
      rw [if_neg no_close]
      by_cases comma : c = ','
      · subst comma
        rw [if_pos ⟨rfl, by simp [stack, outside]⟩, if_pos ⟨rfl, rfl⟩, ih rest_free flat later]
        simp
      · rw [if_neg fun both => comma both.1, if_neg no_open, if_neg fun both => comma both.1, stays,
          ih rest_free flat later]
    · have inside : ¬ (c = ',' ∧ place = outside) := by
        rintro ⟨rfl, rfl⟩
        exact plain ⟨rfl, by decide, by decide⟩
      rw [if_neg plain, if_neg inside]
      exact ih rest_free (flat.next previous c) closed _ _ _

/-- What comes before does not matter outside of quotes. -/
theorem closed_outside {counts : Nat → Bool} {previous other : Option Char} {text : List Char} :
    Closed counts outside previous text ↔ Closed counts outside other text := by
  cases text <;> exact Iff.rfl

theorem cut_outside (counts : Nat → Bool) (previous other : Option Char) (piece text : List Char) :
    cut counts outside previous piece text = cut counts outside other piece text := by
  cases text <;> rfl

/-- Every piece is closed as the whole text is. -/
theorem cut_closed {counts : Nat → Bool} {text : List Char} {place : Place} {previous : Option Char}
    {piece : List Char} (closed : Closed counts place previous text)
    (begun : ∀ rest, Closed counts place previous rest → Closed counts outside none (piece ++ rest)) :
    ∀ part ∈ cut counts place previous piece text, Closed counts outside none part := by
  induction text generalizing place previous piece with
  | nil =>
    intro part member
    rw [List.mem_singleton.mp member, ← List.append_nil piece]
    exact begun [] closed
  | cons c text ih =>
    intro part member
    rw [cut] at member
    split at member
    next comma =>
      obtain ⟨rfl, rfl⟩ := comma
      rcases List.mem_cons.mp member with rfl | later
      · rw [← List.append_nil part]
        exact begun [] rfl
      · have stays : Closed counts outside (some ',') text := closed
        exact ih stays (fun rest behind => closed_outside.mp behind) part later
    next =>
      refine ih closed (fun rest behind => ?_) part member
      rw [List.append_assoc]
      exact begun (c :: rest) behind

theorem cut_subset {counts : Nat → Bool} {text : List Char} {place : Place} {previous : Option Char}
    {piece : List Char} :
    ∀ part ∈ cut counts place previous piece text, part ⊆ piece ++ text := by
  induction text generalizing place previous piece with
  | nil =>
    intro part member
    rw [List.mem_singleton.mp member, List.append_nil]
    exact List.Subset.refl _
  | cons c text ih =>
    intro part member
    rw [cut] at member
    split at member
    next =>
      rcases List.mem_cons.mp member with rfl | later
      · exact List.subset_append_left _ _
      · refine List.Subset.trans (ih part later) fun other inside => ?_
        exact List.mem_append_right _ (List.mem_cons_of_mem _ inside)
    next => simpa using ih part member

theorem cut_ne_nil (counts : Nat → Bool) (text : List Char) (place : Place)
    (previous : Option Char) (piece : List Char) : cut counts place previous piece text ≠ [] := by
  induction text generalizing place previous piece with
  | nil => exact List.cons_ne_nil _ _
  | cons c text ih =>
    rw [cut]
    split
    next => exact List.cons_ne_nil _ _
    next => exact ih _ _ _

/-- The pieces with the commas between them are the text. -/
theorem cut_joined (counts : Nat → Bool) (text : List Char) (place : Place)
    (previous : Option Char) (piece : List Char) :
    [','].intercalate (cut counts place previous piece text) = piece ++ text := by
  induction text generalizing place previous piece with
  | nil => simp [cut, List.intercalate]
  | cons c text ih =>
    rw [cut]
    split
    next comma =>
      obtain ⟨rfl, -⟩ := comma
      rw [List.intercalate_cons_of_ne_nil (cut_ne_nil _ _ _ _ _), ih, List.nil_append, List.append_assoc]
      rfl
    next => rw [ih, List.append_assoc]; rfl

theorem expand_piece {text : List Char} (free : BraceFree text) {place : Place} (flat : place.Flat)
    {previous : Option Char} (closed : Closed outsideParentheses place previous text)
    (resultSoFar : List Char) :
    expand .interiorNotExpandable .interiorNotExpandable text previous resultSoFar place.inQuote
        (stack [] place) = .ok (.glob (resultSoFar ++ text)) := by
  induction text generalizing place previous resultSoFar with
  | nil =>
    obtain rfl : place = outside := closed
    rw [List.append_nil]
    rfl
  | cons c text ih =>
    obtain ⟨no_open, -, rest_free⟩ := braceFree_cons.mp free
    rw [expand, phrase_next (by decide) flat]
    by_cases plain : place = outside ∧ c ≠ '"' ∧ c ≠ '('
    · obtain ⟨rfl, no_quote, no_parenthesis⟩ := plain
      have stays : outside.next outsideParentheses previous c = outside := by
        simp [Place.next, outside, no_quote, no_parenthesis]
      have later : Closed outsideParentheses outside (some c) text := stays ▸ closed
      rw [if_pos ⟨rfl, no_quote, no_parenthesis⟩]
      dsimp only
      rw [if_pos no_open, ih rest_free flat later, List.append_assoc]
      rfl
    · rw [if_neg plain]
      dsimp only
      rw [ih rest_free (flat.next previous c) closed, List.append_assoc]
      rfl

/-- Pieces that are expanded after the split are left as they are. -/
theorem pieces_settle {parts : List (List Char)}
    (all : ∀ part ∈ parts, BraceFree part ∧ Closed outsideParentheses outside none part)
    (result : List (List Char)) :
    Settles (fun rounds => expandAll .interiorNotExpandable .interiorNotExpandable rounds
      (parts.map fun part => ⟨[], part ++ [], []⟩) result) (.ok (result ++ parts)) := by
  induction parts generalizing result with
  | nil =>
    rw [List.append_nil]
    exact Settles.of_succ rfl (Settles.of_always fun _ => rfl)
  | cons part parts ih =>
    obtain ⟨free, closed⟩ := all part List.mem_cons_self
    have glob : expand .interiorNotExpandable .interiorNotExpandable (part ++ []) none [] false [] =
        .ok (.glob part) := by
      rw [List.append_nil]
      exact expand_piece free (fun quoted => rfl) closed []
    have later := ih (fun other member => all other (List.mem_cons_of_mem _ member))
      (result ++ [part])
    refine Settles.of_succ rfl ?_
    simp only [List.map_cons, expandAll, List.contains_nil, glob]
    simpa using later

theorem pieces_settled {id : List Char} (free : BraceFree id)
    (closed : Closed outsideParentheses outside none id) :
    Settles (fun rounds => expandCommaSeparateLocationList rounds id)
      (.ok (pieces outsideParentheses id)) := by
  have inside : Closed outsideParentheses outside (some '{') id := closed_outside.mp closed
  have found : findTokens .interiorNotExpandable .interiorNotExpandable [] [] (id ++ ['}'])
      (some '{') ['{'] [] false ['{'] [] = .ok (pieces outsideParentheses id, []) := by
    have tokens := findTokens_cut free (fun _ => rfl) inside [] ['{'] [] []
    rwa [cut_outside _ _ none, List.nil_append] at tokens
  have first : expand .interiorNotExpandable .interiorNotExpandable ('{' :: (id ++ ['}'])) none []
      false [] = .ok (.choice ((pieces outsideParentheses id).map fun part =>
        ⟨[], part ++ [], []⟩)) := by
    have braces : phrase .interiorNotExpandable .interiorNotExpandable none '{' false [] =
        .outside := rfl
    rw [expand, braces]
    dsimp only
    rw [if_neg (by decide), List.nil_append, found]
  have parts : ∀ part ∈ pieces outsideParentheses id,
      BraceFree part ∧ Closed outsideParentheses outside none part := by
    intro part member
    have subset : part ⊆ id := cut_subset part member
    exact ⟨⟨fun opens => free.1 (subset opens), fun closes => free.2 (subset closes)⟩,
      cut_closed closed (fun rest behind => by rwa [List.nil_append]) part member⟩
  refine Settles.of_succ rfl ?_
  simp only [expandCommaSeparateLocationList, getGlobsAfterBraceExpansionWith, expandAll,
    List.contains_nil, first, List.append_nil]
  simpa using pieces_settle parts []

end Expansion

/-- The list is cut at the commas outside of quotes and parentheses, and only there; the pieces
with commas between them are the list. -/
theorem location_list_cut {id : List Char} (free : BraceFree id)
    (balanced : Balanced outsideParentheses id) :
    Settles (fun rounds => expandCommaSeparateLocationList rounds id)
        (.ok (pieces outsideParentheses id)) ∧
      [','].intercalate (pieces outsideParentheses id) = id :=
  ⟨pieces_settled free balanced.1, cut_joined outsideParentheses id outside none []⟩

/-- Two locations, the first with a comma in its parentheses. -/
theorem two_locations_cut :
    Settles (fun rounds => expandCommaSeparateLocationList rounds
        ['a', '(', ',', ')', ',', 'b'])
        (.ok [['a', '(', ',', ')'], ['b']]) ∧
      [','].intercalate [['a', '(', ',', ')'], ['b']] = ['a', '(', ',', ')', ',', 'b'] :=
  location_list_cut ⟨by decide, by decide⟩ ⟨rfl, by simp [Opened, Place.next, outside]⟩

/-- A quote counts everywhere. -/
def anywhere (_depth : Nat) : Bool := true

/-- Where quotes in parentheses count, a list is cut at a comma in quotes. -/
theorem cut_in_quotes :
    ¬ ∀ id, BraceFree id → Balanced anywhere id →
      ∃ rounds, expandCommaSeparateLocationList rounds id = some (.ok (pieces anywhere id)) := by
  intro splits
  let id := ['(', '"', 'a', ')', ',', '(', 'b', '"', ')']
  have free : BraceFree id := ⟨by decide, by decide⟩
  have balanced : Balanced anywhere id :=
    ⟨rfl, by simp [id, Opened, Place.next, outside, anywhere]⟩
  obtain ⟨rounds, returned⟩ := splits id free balanced
  have code := (pieces_settled free rfl).only rounds _ returned
  exact absurd code (by decide)

end Brooklyn.LocationRegistry
