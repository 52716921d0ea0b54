import Brooklyn.BraceGrammar
import Brooklyn.WildcardGlobs

/-!
The expansion of a pattern against what the pattern denotes. Where neither quotes nor
parentheses are special, the search for the end of a choice only counts braces.
-/

namespace Brooklyn.WildcardGlobs
open BraceGrammar

section Tokens

/-- The search for the tokens of a choice, with a count for the stack. -/
def splitTokens : Nat → List Char → List Char → List (List Char) →
    Option (List (List Char) × List Char)
  | _, [], _, _ => none
  | inner, c :: rest, token, tokens =>
      if c = '{' then splitTokens (inner + 1) rest (token ++ [c]) tokens
      else if c = '}' then
        match inner with
        | 0 => some (tokens ++ [token], rest)
        | fewer + 1 => splitTokens fewer rest (token ++ [c]) tokens
      else if c = ',' ∧ inner = 0 then splitTokens inner rest [] (tokens ++ [token])
      else splitTokens inner rest (token ++ [c]) tokens

section Steps

variable (inner : Nat) {c : Char} (text token : List Char) (tokens : List (List Char))

theorem splitTokens_open :
    splitTokens inner ('{' :: text) token tokens =
      splitTokens (inner + 1) text (token ++ ['{']) tokens := by
  cases inner <;> rfl

theorem splitTokens_close_zero :
    splitTokens 0 ('}' :: text) token tokens = some (tokens ++ [token], text) := rfl

theorem splitTokens_close_succ :
    splitTokens (inner + 1) ('}' :: text) token tokens =
      splitTokens inner text (token ++ ['}']) tokens := rfl

theorem splitTokens_comma :
    splitTokens 0 (',' :: text) token tokens = splitTokens 0 text [] (tokens ++ [token]) := rfl

theorem splitTokens_other (opens : c ≠ '{') (closes : c ≠ '}')
    (apart : ¬ (c = ',' ∧ inner = 0)) :
    splitTokens inner (c :: text) token tokens =
      splitTokens inner text (token ++ [c]) tokens := by
  cases inner with
  | zero =>
    have no_comma : c ≠ ',' := fun comma => apart ⟨comma, rfl⟩
    simp [splitTokens, opens, closes, no_comma]
  | succ inner => simp [splitTokens, opens, closes]

end Steps

abbrev braces (inner : Nat) : List Char := List.replicate inner '{'

theorem pushed_eq (inner : Nat) : braces inner ++ ['{'] = braces (inner + 1) :=
  List.replicate_succ'.symm

theorem phrase_outside (previous : Option Char) (c : Char) (inner : Nat) :
    phrase .notASpecialChar .notASpecialChar previous c false (braces inner) = .outside := by
  have no_paren : inParen false (braces inner) = false := by
    simp [inParen]
  simp [phrase, no_paren, opening]

theorem findTokens_default (resultSoFar text : List Char) (previous : Option Char)
    (braced token : List Char) (inner : Nat) (tokens : List (List Char)) :
    findTokens .notASpecialChar .notASpecialChar [] resultSoFar text previous braced token false
        (braces (inner + 1)) tokens =
      match splitTokens inner text token tokens with
      | none => .error (.notClosed (braced ++ text) resultSoFar)
      | some found => .ok found := by
  induction text generalizing previous braced token inner tokens with
  | nil => simp [findTokens, splitTokens]
  | cons c rest ih =>
    have last : (braces (inner + 1)).getLast? = some '{' := by
      rw [← pushed_eq, List.getLast?_concat]
    have popped : (braces (inner + 1)).dropLast = braces inner := by
      rw [← pushed_eq, List.dropLast_concat]
    rw [findTokens, phrase_outside]
    dsimp only
    by_cases opens : c = '{'
    · subst opens
      rw [if_neg (by decide), if_neg (by simp), if_pos rfl, pushed_eq, ih, splitTokens_open]
      simp
    by_cases closes : c = '}'
    · subst closes
      rw [if_pos rfl, if_neg (by simp [last]), popped]
      cases inner with
      | zero => rfl
      | succ fewer =>
        rw [if_neg (by simp), ih, splitTokens_close_succ]
        simp
    rw [if_neg closes, if_neg opens]
    by_cases comma : c = ',' ∧ inner = 0
    · obtain ⟨rfl, rfl⟩ := comma
      rw [if_pos (by simp), ih, splitTokens_comma]
      simp
    · rw [if_neg (by simpa using comma), ih, splitTokens_other inner rest token tokens opens closes
        comma]
      simp

theorem splitTokens_none {inner : Nat} {text : List Char} (closed : closeAt inner text = none)
    (token : List Char) (tokens : List (List Char)) :
    splitTokens inner text token tokens = none := by
  induction text generalizing inner token tokens with
  | nil => cases inner <;> rfl
  | cons c rest ih =>
    by_cases opens : c = '{'
    · subst opens
      rw [closeAt_open] at closed
      rw [splitTokens_open, ih closed]
    by_cases closes : c = '}'
    · subst closes
      cases inner with
      | zero => rw [closeAt_close_zero] at closed; cases closed
      | succ fewer =>
        rw [closeAt_close_succ] at closed
        rw [splitTokens_close_succ, ih closed]
    rw [closeAt_other _ _ opens closes] at closed
    by_cases comma : c = ',' ∧ inner = 0
    · obtain ⟨rfl, rfl⟩ := comma
      rw [splitTokens_comma, ih closed]
    · rw [splitTokens_other inner rest token tokens opens closes comma, ih closed]

mutual

theorem splitTokens_glob (inner : Nat) (text token : List Char) (tokens : List (List Char))
    (glob : Glob) (plain : glob.Plain true) :
    splitTokens inner (glob.text ++ text) token tokens =
      splitTokens inner text (token ++ glob.text) tokens := by
  match glob, plain with
  | .empty, _ => simp [Glob.text]
  | .literal c rest, plain =>
    rw [Glob.text, List.cons_append,
      splitTokens_other inner _ _ _ plain.1 (plain.2.1 rfl).2
        (fun comma => (plain.2.1 rfl).1 comma.1),
      splitTokens_glob inner text _ tokens rest plain.2.2]
    simp
  | .choice alternatives rest, plain =>
    rw [Glob.text, List.cons_append, List.append_assoc, splitTokens_open,
      splitTokens_nested inner _ _ tokens alternatives plain.1, List.cons_append,
      splitTokens_close_succ, splitTokens_glob inner text _ tokens rest plain.2]
    simp

theorem splitTokens_nested (inner : Nat) (text token : List Char) (tokens : List (List Char))
    (alternatives : Alternatives) (plain : alternatives.Plain) :
    splitTokens (inner + 1) (alternatives.text ++ text) token tokens =
      splitTokens (inner + 1) text (token ++ alternatives.text) tokens := by
  match alternatives, plain with
  | .last only, plain => exact splitTokens_glob (inner + 1) text token tokens only plain
  | .more first rest, plain =>
    rw [Alternatives.text, List.append_assoc,
      splitTokens_glob (inner + 1) _ token tokens first plain.1, List.cons_append,
      splitTokens_other _ _ _ _ (by decide) (by decide) (by simp),
      splitTokens_nested inner text _ tokens rest plain.2]
    simp

end

/-- The tokens of a choice are its alternatives. -/
theorem splitTokens_alternatives (after : List Char) (tokens : List (List Char))
    (alternatives : Alternatives) (plain : alternatives.Plain) :
    splitTokens 0 (alternatives.text ++ '}' :: after) [] tokens =
      some (tokens ++ alternatives.globs.map Glob.text, after) := by
  match alternatives, plain with
  | .last only, plain =>
    rw [Alternatives.text, splitTokens_glob 0 _ [] tokens only plain, splitTokens_close_zero]
    rfl
  | .more first rest, plain =>
    rw [Alternatives.text, List.append_assoc, splitTokens_glob 0 _ [] tokens first plain.1,
      List.cons_append, splitTokens_comma, splitTokens_alternatives after _ rest plain.2]
    simp [Alternatives.globs]

end Tokens

section Expressions

/-- An expression without open operators. -/
abbrev expression (resultSoFar todo : List Char) : ExpressionToExpand := ⟨resultSoFar, todo, []⟩

abbrev expandDefault (text : List Char) (previous : Option Char) (resultSoFar : List Char) :
    Except InvalidPatternException Expanded :=
  expand .notASpecialChar .notASpecialChar text previous resultSoFar false []

theorem expand_literal {c : Char} (plain : c ≠ '{') (rest : List Char) (previous : Option Char)
    (resultSoFar : List Char) :
    expandDefault (c :: rest) previous resultSoFar =
      expandDefault rest (some c) (resultSoFar ++ [c]) := by
  have outside : phrase .notASpecialChar .notASpecialChar previous c false [] = .outside :=
    phrase_outside previous c 0
  rw [expandDefault, expand, outside]
  exact if_pos plain

theorem expand_open (rest : List Char) (previous : Option Char) (resultSoFar : List Char) :
    expandDefault ('{' :: rest) previous resultSoFar =
      match splitTokens 0 rest [] [] with
      | none => .error (.notClosed ('{' :: rest) resultSoFar)
      | some (tokens, suffix) =>
          .ok (.choice (tokens.map fun token => expression resultSoFar (token ++ suffix))) := by
  have found := findTokens_default resultSoFar rest (some '{') ['{'] [] 0 []
  have outside : phrase .notASpecialChar .notASpecialChar previous '{' false [] = .outside :=
    phrase_outside previous '{' 0
  rw [expandDefault, expand, outside]
  dsimp only
  rw [if_neg (by decide), show ([] ++ ['{'] : List Char) = braces (0 + 1) from rfl, found]
  cases splitTokens 0 rest [] [] <;> rfl

/-- A glob is written out, or its first choice is. -/
theorem expand_glob (glob : Glob) (plain : glob.Plain false) (previous : Option Char)
    (resultSoFar : List Char) :
    (expandDefault glob.text previous resultSoFar = .ok (.glob (resultSoFar ++ glob.text)) ∧
        glob.expansions = [glob.text]) ∨
      ∃ (front : List Char) (globs : List Glob),
        expandDefault glob.text previous resultSoFar =
            .ok (.choice (globs.map fun other : Glob =>
              expression (resultSoFar ++ front) other.text)) ∧
          glob.expansions = globs.flatMap (fun other => other.expansions.map (front ++ ·)) ∧
          ∀ other ∈ globs, other.Plain false ∧ other.text.length < glob.text.length := by
  match glob, plain with
  | .empty, _ => exact Or.inl ⟨by simp [Glob.text, expand], rfl⟩
  | .literal c rest, plain =>
    rw [Glob.text, expand_literal plain.1]
    rcases expand_glob rest plain.2.2 (some c) (resultSoFar ++ [c]) with
      ⟨expanded, same⟩ | ⟨front, globs, expanded, same, smaller⟩
    · exact Or.inl ⟨by simpa using expanded, by simp [Glob.expansions, same]⟩
    · refine Or.inr ⟨c :: front, globs, by simpa using expanded, ?_, fun other member => ?_⟩
      · simp [Glob.expansions, same, List.map_flatMap, Function.comp_def]
      · exact ⟨(smaller other member).1, Nat.lt_succ_of_lt (smaller other member).2⟩
  | .choice alternatives rest, plain =>
    refine Or.inr ⟨[], alternatives.globs.map (Glob.append · rest), ?_, ?_, ?_⟩
    · rw [Glob.text, expand_open, splitTokens_alternatives _ _ _ plain.1]
      simp
    · simp [Glob.expansions, alternatives.expansions_eq, Glob.expansions_append,
        List.flatMap_map, List.flatMap_assoc]
    · rintro _ member
      obtain ⟨first, inside, rfl⟩ := List.mem_map.mp member
      refine ⟨(Alternatives.plain_of_mem plain.1 first inside).outside.append plain.2, ?_⟩
      have part := Alternatives.length_of_mem alternatives first inside
      simp [Glob.text]
      omega

/-- A text with an unclosed brace is refused, or its first alternative has it too. -/
theorem expand_unclosed {text : List Char} (unclosed : Unclosed text) (previous : Option Char)
    (resultSoFar : List Char) :
    (∃ exception, expandDefault text previous resultSoFar = .error exception) ∨
      ∃ front todo others,
        expandDefault text previous resultSoFar =
            .ok (.choice (expression front todo :: others)) ∧
          Unclosed todo ∧ todo.length < text.length := by
  induction text generalizing previous resultSoFar with
  | nil => exact absurd unclosed not_unclosed_nil
  | cons c rest ih =>
    by_cases opens : c = '{'
    · subst opens
      rw [expand_open]
      match closed : closeAt 0 rest with
      | none =>
        rw [splitTokens_none closed]
        exact Or.inl ⟨_, rfl⟩
      | some suffix =>
        have behind := (unclosed_cons.mp unclosed).resolve_left fun first => by
          rw [closed] at first
          cases first.2
        obtain ⟨alternatives, plain, rfl⟩ := exists_alternatives closed
        have later := (unclosed_cons.mp (unclosed_of_alternatives _ alternatives plain behind))
        have in_suffix := later.resolve_left fun first => absurd first.1 (by decide)
        rw [splitTokens_alternatives _ _ _ plain]
        obtain ⟨first, globs, same⟩ := alternatives.exists_first
        have part := Alternatives.length_of_mem alternatives first (by simp [same])
        refine Or.inr ⟨resultSoFar, first.text ++ suffix, _, by rw [same]; rfl,
          in_suffix.append first.text, ?_⟩
        simp
        omega
    · rw [expand_literal opens]
      have behind := (unclosed_cons.mp unclosed).resolve_left fun first => opens first.1
      rcases ih behind (some c) (resultSoFar ++ [c]) with
        refused | ⟨front, todo, others, expanded, inside, shorter⟩
      · exact Or.inl refused
      · exact Or.inr ⟨front, todo, others, expanded, inside, Nat.lt_succ_of_lt shorter⟩

end Expressions

section Rounds

abbrev expandAllDefault (rounds : Nat) (patterns : List ExpressionToExpand)
    (result : List (List Char)) : Option (Except InvalidPatternException (List (List Char))) :=
  expandAll .notASpecialChar .notASpecialChar rounds patterns result

/-- So many rounds take the loop from one state to another. -/
def Reaches (patterns : List ExpressionToExpand) (result : List (List Char))
    (later : List ExpressionToExpand) (longer : List (List Char)) : Prop :=
  ∃ taken, ∀ rounds, expandAllDefault (taken + rounds) patterns result =
    expandAllDefault rounds later longer

theorem Reaches.refl (patterns : List ExpressionToExpand) (result : List (List Char)) :
    Reaches patterns result patterns result :=
  ⟨0, fun rounds => by rw [Nat.zero_add]⟩

theorem Reaches.trans {patterns later last : List ExpressionToExpand}
    {result longer longest : List (List Char)} (first : Reaches patterns result later longer)
    (second : Reaches later longer last longest) : Reaches patterns result last longest := by
  obtain ⟨taken, before⟩ := first
  obtain ⟨more, after⟩ := second
  refine ⟨taken + more, fun rounds => ?_⟩
  rw [Nat.add_assoc, before, after]

theorem expandAll_succ (rounds : Nat) (resultSoFar todo : List Char)
    (patterns : List ExpressionToExpand) (result : List (List Char)) :
    expandAllDefault (rounds + 1) (expression resultSoFar todo :: patterns) result =
      match expandDefault todo none resultSoFar with
      | .error exception => some (.error exception)
      | .ok (.glob resultSoFar) => expandAllDefault rounds patterns (result ++ [resultSoFar])
      | .ok (.choice newPatterns) =>
          expandAllDefault rounds (newPatterns ++ patterns) result := rfl

/-- What a glob stands for is added to the result, and the loop is behind it. -/
theorem glob_expanded (glob : Glob) (plain : glob.Plain false) (resultSoFar : List Char)
    (patterns : List ExpressionToExpand) (result : List (List Char)) :
    Reaches (expression resultSoFar glob.text :: patterns) result patterns
      (result ++ glob.expansions.map (resultSoFar ++ ·)) := by
  rcases expand_glob glob plain none resultSoFar with
    ⟨expanded, same⟩ | ⟨front, globs, expanded, same, smaller⟩
  · refine ⟨1, fun rounds => ?_⟩
    rw [Nat.add_comm, expandAll_succ, expanded, same]
    rfl
  · have choice : Reaches (expression resultSoFar glob.text :: patterns) result
        (globs.map (fun other : Glob => expression (resultSoFar ++ front) other.text) ++ patterns)
        result := by
      refine ⟨1, fun rounds => ?_⟩
      rw [Nat.add_comm, expandAll_succ, expanded]
    refine choice.trans ?_
    have all : (globs.flatMap (fun other => other.expansions.map (front ++ ·))).map
        (resultSoFar ++ ·) =
        globs.flatMap fun other => other.expansions.map (resultSoFar ++ front ++ ·) := by
      simp [List.map_flatMap, Function.comp_def]
    rw [same, all]
    clear expanded same choice all
    induction globs generalizing result with
    | nil => simpa using Reaches.refl patterns result
    | cons first globs ih =>
      have shorter := (smaller first List.mem_cons_self).2
      have one := glob_expanded first (smaller first List.mem_cons_self).1 (resultSoFar ++ front)
        (globs.map (fun other : Glob => expression (resultSoFar ++ front) other.text) ++ patterns)
        result
      refine one.trans ?_
      have others := ih (result ++ first.expansions.map (resultSoFar ++ front ++ ·))
        fun other member => smaller other (List.mem_cons_of_mem _ member)
      simpa using others
termination_by glob.text.length

/-- An unclosed brace ends the loop. -/
theorem unclosed_refused {text : List Char} (unclosed : Unclosed text) (resultSoFar : List Char)
    (patterns : List ExpressionToExpand) (result : List (List Char)) :
    ∃ rounds exception,
      expandAllDefault rounds (expression resultSoFar text :: patterns) result =
        some (.error exception) := by
  rcases expand_unclosed unclosed none resultSoFar with
    ⟨exception, expanded⟩ | ⟨front, todo, others, expanded, inside, shorter⟩
  · refine ⟨1, exception, ?_⟩
    rw [expandAll_succ 0, expanded]
  · obtain ⟨rounds, exception, refused⟩ :=
      unclosed_refused inside front (others ++ patterns) result
    refine ⟨rounds + 1, exception, ?_⟩
    rw [expandAll_succ, expanded]
    exact refused
termination_by text.length

/-- More rounds change nothing about a call that has returned. -/
theorem expandAll_mono {rounds more : Nat} (enough : rounds ≤ more)
    {patterns : List ExpressionToExpand} {result : List (List Char)}
    {outcome : Except InvalidPatternException (List (List Char))}
    (returned : expandAllDefault rounds patterns result = some outcome) :
    expandAllDefault more patterns result = some outcome := by
  induction rounds generalizing more patterns result with
  | zero => cases returned
  | succ rounds ih =>
    obtain ⟨more, rfl⟩ : ∃ fewer, more = fewer + 1 := ⟨more - 1, by omega⟩
    have fewer : rounds ≤ more := Nat.le_of_succ_le_succ enough
    cases patterns with
    | nil => exact returned
    | cons cs patterns =>
      unfold expandAllDefault expandAll at returned ⊢
      split at returned
      next => exact returned
      next => exact ih fewer returned
      next => exact ih fewer returned

end Rounds

section Outcomes
variable {pattern : List Char}

theorem denoted_expanded {glob : Glob} (denotes : Denotes pattern glob) :
    ∃ rounds, getGlobsAfterBraceExpansion rounds pattern = some (.ok glob.expansions) := by
  obtain ⟨plain, rfl⟩ := denotes
  obtain ⟨taken, reached⟩ := glob_expanded glob plain [] [] []
  refine ⟨taken + 1, (reached 1).trans ?_⟩
  simp [expandAll]

theorem pattern_refused (unclosed : Unclosed pattern) :
    ∃ rounds exception, getGlobsAfterBraceExpansion rounds pattern = some (.error exception) :=
  unclosed_refused unclosed [] [] []

/-- A call has one outcome, in however many rounds. -/
theorem outcome_unique {rounds more : Nat}
    {outcome other : Except InvalidPatternException (List (List Char))}
    (returned : getGlobsAfterBraceExpansion rounds pattern = some outcome)
    (again : getGlobsAfterBraceExpansion more pattern = some other) : outcome = other := by
  have first := expandAll_mono (Nat.le_max_left rounds more) returned
  have second := expandAll_mono (Nat.le_max_right rounds more) again
  exact Option.some.inj (first.symm.trans second)

end Outcomes

/-- Every call returns. It refuses a pattern for an unclosed brace only; any other pattern denotes
something, and what it stands for is returned in order. -/
theorem globs_after_brace_expansion (pattern : List Char) :
    (∃ rounds outcome, getGlobsAfterBraceExpansion rounds pattern = some outcome) ∧
      ((∃ rounds exception,
          getGlobsAfterBraceExpansion rounds pattern = some (.error exception)) ↔
        Unclosed pattern) ∧
      (Unclosed pattern ∨ ∃ glob, Denotes pattern glob) ∧
      ∀ glob, Denotes pattern glob →
        ∃ rounds, getGlobsAfterBraceExpansion rounds pattern = some (.ok glob.expansions) := by
  refine ⟨?_, ⟨?_, pattern_refused⟩, unclosed_or_denotes pattern, fun glob => denoted_expanded⟩
  · rcases unclosed_or_denotes pattern with unclosed | ⟨glob, denotes⟩
    · obtain ⟨rounds, exception, returned⟩ := pattern_refused unclosed
      exact ⟨rounds, _, returned⟩
    · obtain ⟨rounds, returned⟩ := denoted_expanded denotes
      exact ⟨rounds, _, returned⟩
  · rintro ⟨rounds, exception, returned⟩
    refine (unclosed_or_denotes pattern).resolve_right ?_
    rintro ⟨glob, denotes⟩
    obtain ⟨more, other⟩ := denoted_expanded denotes
    cases outcome_unique returned other

example : getGlobsAfterBraceExpansion 5 ['a', '{', ',', 'b', ',', 'c', '}'] =
    some (.ok [['a'], ['a', 'b'], ['a', 'c']]) := rfl

end Brooklyn.WildcardGlobs
