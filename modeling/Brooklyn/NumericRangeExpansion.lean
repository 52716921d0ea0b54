import Brooklyn.DepthFirst
import Brooklyn.NumericRangeTokens

/-!
The expansion of a pattern with numeric ranges as a tree: an expression opens one expression for
each thing that its first choice stands for. The loop over the patterns walks through it.
-/

namespace Brooklyn.WildcardGlobs
open DepthFirst Rounds

section Lengths

theorem decimalValue_lt {text : List Char} (all : ∀ c ∈ text, c.isDigit = true) :
    decimalValue text < 10 ^ text.length := by
  induction text with
  | nil => exact Nat.one_pos
  | cons c rest ih =>
    have later := ih fun other member => all other (List.mem_cons_of_mem _ member)
    have digit := all c List.mem_cons_self
    simp only [Char.isDigit, Bool.and_eq_true, decide_eq_true_eq] at digit
    have small : c.toNat - '0'.toNat ≤ 9 := by
      have := UInt32.le_iff_toNat_le.mp digit.2
      change c.val.toNat - 48 ≤ 9
      change c.val.toNat ≤ 57 at this
      omega
    have scaled := Nat.mul_le_mul_left (10 ^ rest.length) small
    rw [decimalValue, Nat.ofDigitChars_cons, Nat.ofDigitChars_eq_ofDigitChars_zero,
      Nat.mul_zero, Nat.zero_add, List.length_cons, Nat.pow_succ]
    unfold decimalValue at later
    omega

theorem length_padded (length : Nat) (text : List Char) :
    (padded length text).length = max length text.length := by
  rw [padded, List.length_append, List.length_replicate]
  omega

variable {token : List Char}

/-- Nothing that a token stands for is longer than the token. -/
theorem length_alternatives {text : List Char} (member : text ∈ alternatives token) :
    text.length ≤ token.length := by
  unfold alternatives at member
  split at member
  next range =>
    obtain ⟨-, last, shorter⟩ := range_texts range
    obtain ⟨n, inside, rfl⟩ := List.mem_map.mp member
    obtain ⟨above, below⟩ := List.mem_range'_1.mp inside
    have last_lt : lastNumber token < 10 ^ (endText token).length := decimalValue_lt last.2
    have digits : (Nat.toDigits 10 n).length ≤ (endText token).length :=
      (Nat.length_toDigits_le_iff (by decide) (List.length_pos_iff.mpr last.1)).mpr (by omega)
    rw [length_padded]
    omega
  next =>
    rw [List.mem_singleton.mp member]

variable {quoteTreatment parenthesesTreatment : PhraseTreatment}

/-- Each token, with what follows the choice, is shorter than the choice. -/
theorem length_findTokens {before resultSoFar text : List Char} {previous : Option Char}
    {braced token : List Char} {inQuote : Bool} {operatorStack : List Char}
    {tokens : List (List Char)} {found : List (List Char)} {suffix : List Char} {bound : Nat}
    (closed : findTokens quoteTreatment parenthesesTreatment before resultSoFar text previous braced
      token inQuote operatorStack tokens = .ok (found, suffix))
    (current : token.length + text.length ≤ bound)
    (earlier : ∀ other ∈ tokens, other.length + text.length ≤ bound) :
    ∀ other ∈ found, other.length + suffix.length < bound := by
  induction text generalizing previous braced token inQuote operatorStack tokens with
  | nil => cases closed
  | cons c rest ih =>
    have longer : (token ++ [c]).length + rest.length ≤ bound := by
      simp only [List.length_append, List.length_cons, List.length_nil] at current ⊢
      omega
    have shorter : ∀ other ∈ tokens, other.length + rest.length ≤ bound := fun other member => by
      have := earlier other member
      simp only [List.length_cons] at this
      omega
    have extended : ∀ other ∈ tokens ++ [token], other.length + rest.length < bound := by
      intro other member
      simp only [List.length_cons] at current earlier
      rcases List.mem_append.mp member with there | here
      · have := earlier other there
        omega
      · rw [List.mem_singleton.mp here]
        omega
    rw [findTokens] at closed
    split at closed
    next => exact ih closed longer shorter
    next => cases closed
    next => cases closed
    next =>
      split at closed
      next =>
        split at closed
        next => cases closed
        next =>
          split at closed
          next =>
            cases closed
            exact extended
          next => exact ih closed longer shorter
      next =>
        split at closed
        next =>
          refine ih closed ?_ fun other member => (extended other member).le
          simp only [List.length_cons] at current
          simp only [List.length_nil]
          omega
        next => exact ih closed longer shorter

theorem length_scan {text : List Char} {previous : Option Char} {resultSoFar : List Char}
    {inQuote : Bool} {operatorStack : List Char} {front : List Char} {tokens : List (List Char)}
    {suffix stack : List Char}
    (scanned : scan quoteTreatment parenthesesTreatment text previous resultSoFar inQuote
      operatorStack = .ok (.choice front tokens suffix stack)) :
    ∀ token ∈ tokens, token.length + suffix.length < text.length := by
  induction text generalizing previous resultSoFar inQuote operatorStack with
  | nil =>
    rw [scan] at scanned
    split at scanned <;> cases scanned
  | cons c rest ih =>
    rw [scan] at scanned
    split at scanned
    next => exact fun token member => (ih scanned token member).trans (Nat.lt_succ_self _)
    next => cases scanned
    next => cases scanned
    next =>
      split at scanned
      next => exact fun token member => (ih scanned token member).trans (Nat.lt_succ_self _)
      next =>
        split at scanned
        next => cases scanned
        next found behind closed =>
          cases scanned
          refine fun token member => Nat.lt_succ_of_lt ?_
          exact length_findTokens closed (by simp) (by simp) token member

end Lengths

section Tree
variable (quoteTreatment parenthesesTreatment : PhraseTreatment)

/-- Where a way through the alternatives of a pattern ends. -/
inductive Ending
  | glob (text : List Char)
  | refused (exception : InvalidPatternException)
  | uncountable
  deriving DecidableEq

namespace Ending

def stops : Ending → Bool
  | glob _ => false
  | _ => true

def glob? : Ending → Option (List Char)
  | glob text => some text
  | _ => none

end Ending

def visit (cs : ExpressionToExpand) : Visit ExpressionToExpand Ending :=
  match scanExpression quoteTreatment parenthesesTreatment cs with
  | .error exception => .ends (.refused exception)
  | .ok (.glob resultSoFar) => .ends (.glob resultSoFar)
  | .ok (.choice resultSoFar tokens suffix operatorStack) =>
      if ∀ token ∈ tokens, Countable token then
        .opens (choose resultSoFar suffix operatorStack (tokens.flatMap alternatives))
      else .ends .uncountable

variable {quoteTreatment parenthesesTreatment} {cs : ExpressionToExpand}

theorem visit_opens {children : List ExpressionToExpand}
    (visited : visit quoteTreatment parenthesesTreatment cs = .opens children) :
    ∃ resultSoFar tokens suffix operatorStack,
      scanExpression quoteTreatment parenthesesTreatment cs =
          .ok (.choice resultSoFar tokens suffix operatorStack) ∧
        (∀ token ∈ tokens, Countable token) ∧
        children = choose resultSoFar suffix operatorStack (tokens.flatMap alternatives) := by
  unfold visit at visited
  split at visited
  next => cases visited
  next => cases visited
  next resultSoFar tokens suffix operatorStack scanned =>
    split at visited
    next countable =>
      cases visited
      exact ⟨resultSoFar, tokens, suffix, operatorStack, scanned, countable, rfl⟩
    next => cases visited

theorem visit_ends {ending : Ending}
    (visited : visit quoteTreatment parenthesesTreatment cs = .ends ending) :
    match ending with
    | .glob text => scanExpression quoteTreatment parenthesesTreatment cs = .ok (.glob text)
    | .refused exception =>
        scanExpression quoteTreatment parenthesesTreatment cs = .error exception
    | .uncountable =>
        ∃ resultSoFar tokens suffix operatorStack,
          scanExpression quoteTreatment parenthesesTreatment cs =
              .ok (.choice resultSoFar tokens suffix operatorStack) ∧
            ¬ ∀ token ∈ tokens, Countable token := by
  unfold visit at visited
  split at visited
  next exception scanned => cases visited; exact scanned
  next text scanned => cases visited; exact scanned
  next resultSoFar tokens suffix operatorStack scanned =>
    split at visited
    next => cases visited
    next uncountable =>
      cases visited
      exact ⟨resultSoFar, tokens, suffix, operatorStack, scanned, uncountable⟩

theorem visit_smaller {children : List ExpressionToExpand}
    (visited : visit quoteTreatment parenthesesTreatment cs = .opens children) :
    ∀ child ∈ children, child.todo.length < cs.todo.length := by
  obtain ⟨resultSoFar, tokens, suffix, operatorStack, scanned, -, rfl⟩ := visit_opens visited
  intro child member
  obtain ⟨text, chosen, rfl⟩ := List.mem_map.mp member
  obtain ⟨token, inside, stands⟩ := List.mem_flatMap.mp chosen
  have shorter := length_scan scanned token inside
  have short := length_alternatives stands
  simp only [List.length_append]
  omega

variable (quoteTreatment parenthesesTreatment)

def ways : Tree ExpressionToExpand Ending :=
  ⟨visit quoteTreatment parenthesesTreatment, fun cs => cs.todo.length, visit_smaller⟩

/-- The ends of all ways through the alternatives of a pattern, from left to right. -/
def endings (pattern : List Char) : List Ending :=
  (ways quoteTreatment parenthesesTreatment).endings ⟨[], pattern, []⟩

/-- Some way comes to an end, and none ends at a range that cannot be counted, unless one
before it is refused. -/
def Expands (endings : List Ending) : Prop :=
  endings ≠ [] ∧ endings.find? Ending.stops ≠ some .uncountable

end Tree

section Loop
variable {quoteTreatment parenthesesTreatment : PhraseTreatment} {cs : ExpressionToExpand}
  {rest : List ExpressionToExpand} {result : List (List Char)}
  {outcome : Except ExpansionFailure (List (List Char))}

/-- The rest of a round in which a choice is found. -/
def chosen (quoteTreatment parenthesesTreatment : PhraseTreatment)
    (resultSoFar suffix operatorStack : List Char) (rest : List ExpressionToExpand)
    (result : List (List Char)) (rounds : Nat) :
    Except ExpansionFailure (List (List Char)) →
      Option (Except ExpansionFailure (List (List Char)))
  | .error failure => some (.error failure)
  | .ok tokens =>
      expandAllFor quoteTreatment parenthesesTreatment true rounds
        (choose resultSoFar suffix operatorStack tokens ++ rest) result

theorem expandAllFor_glob {text : List Char} (rounds : Nat)
    (scanned : scanExpression quoteTreatment parenthesesTreatment cs = .ok (.glob text)) :
    expandAllFor quoteTreatment parenthesesTreatment true (rounds + 1) (cs :: rest) result =
      expandAllFor quoteTreatment parenthesesTreatment true rounds rest (result ++ [text]) := by
  rw [expandAllFor, scanned]

theorem expandAllFor_refused {exception : InvalidPatternException} (rounds : Nat)
    (scanned : scanExpression quoteTreatment parenthesesTreatment cs = .error exception) :
    expandAllFor quoteTreatment parenthesesTreatment true (rounds + 1) (cs :: rest) result =
      some (.error (.invalidPattern exception)) := by
  rw [expandAllFor, scanned]

theorem expandAllFor_choice {resultSoFar suffix operatorStack : List Char}
    {tokens : List (List Char)} (rounds : Nat)
    (scanned : scanExpression quoteTreatment parenthesesTreatment cs =
      .ok (.choice resultSoFar tokens suffix operatorStack)) :
    expandAllFor quoteTreatment parenthesesTreatment true (rounds + 1) (cs :: rest) result =
      (expandTokens true rounds tokens).bind
        (chosen quoteTreatment parenthesesTreatment resultSoFar suffix operatorStack rest result
          rounds) := by
  rw [expandAllFor, scanned]
  dsimp only
  cases expandTokens true rounds tokens with
  | none => rfl
  | some expanded => cases expanded <;> rfl

/-- The loop takes what a visit opens before the rest. -/
theorem settles_of_opens {children : List ExpressionToExpand}
    (visited : visit quoteTreatment parenthesesTreatment cs = .opens children)
    (later : Settles (fun rounds => expandAllFor quoteTreatment parenthesesTreatment true rounds
      (children ++ rest) result) outcome) :
    Settles (fun rounds => expandAllFor quoteTreatment parenthesesTreatment true rounds
      (cs :: rest) result) outcome := by
  obtain ⟨resultSoFar, tokens, suffix, operatorStack, scanned, countable, rfl⟩ :=
    visit_opens visited
  refine Settles.of_succ rfl ?_
  simp only [expandAllFor_choice _ scanned]
  exact (expandTokens_settles countable).bind later

/-- Where a range cannot be counted, the call ends with the one exception or does not end. -/
def Uncounted (quoteTreatment parenthesesTreatment : PhraseTreatment)
    (items : List ExpressionToExpand) (result : List (List Char)) : Prop :=
  ∀ rounds outcome,
    expandAllFor quoteTreatment parenthesesTreatment true rounds items result = some outcome →
      ∃ text, outcome = .error (.numberFormat text)

theorem uncounted_of_opens {children : List ExpressionToExpand}
    (visited : visit quoteTreatment parenthesesTreatment cs = .opens children)
    (later : Uncounted quoteTreatment parenthesesTreatment (children ++ rest) result) :
    Uncounted quoteTreatment parenthesesTreatment (cs :: rest) result := by
  obtain ⟨resultSoFar, tokens, suffix, operatorStack, scanned, countable, rfl⟩ :=
    visit_opens visited
  intro rounds outcome returned
  cases rounds with
  | zero => cases returned
  | succ rounds =>
    rw [expandAllFor_choice rounds scanned] at returned
    obtain ⟨expanded, here, there⟩ := Option.bind_eq_some_iff.mp returned
    obtain rfl := (expandTokens_settles countable).only rounds expanded here
    exact later rounds outcome there

theorem uncounted_of_uncountable
    (visited : visit quoteTreatment parenthesesTreatment cs = .ends .uncountable) :
    Uncounted quoteTreatment parenthesesTreatment (cs :: rest) result := by
  obtain ⟨resultSoFar, tokens, suffix, operatorStack, scanned, uncountable⟩ := visit_ends visited
  intro rounds outcome returned
  cases rounds with
  | zero => cases returned
  | succ rounds =>
    rw [expandAllFor_choice rounds scanned] at returned
    obtain ⟨expanded, here, there⟩ := Option.bind_eq_some_iff.mp returned
    obtain ⟨text, rfl⟩ := expandTokens_uncountable uncountable here
    exact ⟨text, (Option.some.inj there).symm⟩

variable (quoteTreatment parenthesesTreatment)

/-- The loop settles on what the globs of its ways are, or on the first refusal. -/
theorem settles_of_endings (stopped : Ending → Prop)
    (refusal : ∀ ending, stopped ending →
      ∃ exception, ending = .refused exception ∧ outcome = .error (.invalidPattern exception))
    (items : List ExpressionToExpand) (passed : List Ending)
    (comes : match (items.flatMap (ways quoteTreatment parenthesesTreatment).endings).find?
        Ending.stops with
      | none => outcome = .ok ((passed ++ items.flatMap
          (ways quoteTreatment parenthesesTreatment).endings).filterMap Ending.glob?)
      | some ending => stopped ending) :
    Settles (fun rounds => expandAllFor quoteTreatment parenthesesTreatment true rounds items
      (passed.filterMap Ending.glob?)) outcome := by
  refine walk_rule (ways quoteTreatment parenthesesTreatment)
    (fun items passed => Settles (fun rounds => expandAllFor quoteTreatment parenthesesTreatment
      true rounds items (passed.filterMap Ending.glob?)) outcome)
    Ending.stops stopped settles_of_opens ?_ ?_ items passed ?_
  · intro cs ending rest passed visited goes_on later
    have scanned := visit_ends visited
    cases ending with
    | glob text =>
      refine Settles.of_succ rfl ?_
      simp only [expandAllFor_glob _ scanned]
      rwa [List.filterMap_append] at later
    | refused exception => cases goes_on
    | uncountable => cases goes_on
  · intro cs ending rest passed visited _ here
    obtain ⟨exception, rfl, rfl⟩ := refusal ending here
    refine Settles.of_succ rfl (Settles.of_always fun rounds => ?_)
    exact expandAllFor_refused rounds (visit_ends visited)
  · split at comes
    next none_here =>
      rw [none_here, comes]
      exact Settles.of_succ rfl (Settles.of_always fun _ => rfl)
    next ending found =>
      rw [found]
      exact comes

theorem uncounted_of_endings (items : List ExpressionToExpand) (passed : List Ending)
    (comes : (items.flatMap (ways quoteTreatment parenthesesTreatment).endings).find?
      Ending.stops = some .uncountable) :
    Uncounted quoteTreatment parenthesesTreatment items (passed.filterMap Ending.glob?) := by
  refine walk_rule (ways quoteTreatment parenthesesTreatment)
    (fun items passed => Uncounted quoteTreatment parenthesesTreatment items
      (passed.filterMap Ending.glob?))
    Ending.stops (· = .uncountable) uncounted_of_opens ?_ ?_ items passed ?_
  · intro cs ending rest passed visited goes_on later
    have scanned := visit_ends visited
    cases ending with
    | glob text =>
      intro rounds outcome returned
      cases rounds with
      | zero => cases returned
      | succ rounds =>
        rw [expandAllFor_glob rounds scanned] at returned
        rw [List.filterMap_append] at later
        exact later rounds outcome returned
    | refused exception => cases goes_on
    | uncountable => cases goes_on
  · rintro cs ending rest passed visited - rfl
    exact uncounted_of_uncountable visited
  · rw [comes]

theorem globs_ne_nil {found : List Ending} (all : ∀ ending ∈ found, ending.stops = false) :
    found.filterMap Ending.glob? ≠ [] ↔ found ≠ [] := by
  cases found with
  | nil => simp
  | cons ending found =>
    cases ending with
    | glob text => simp [Ending.glob?]
    | refused exception => cases all _ List.mem_cons_self
    | uncountable => cases all _ List.mem_cons_self

variable (pattern : List Char)

/-- Every outcome is a list of globs, at least one, or a refusal, and there is an outcome, exactly
where some way comes to an end and no range that cannot be counted comes first. -/
theorem expands_iff :
    (∃ rounds outcome,
      getGlobsAfterBraceExpansionFor quoteTreatment parenthesesTreatment true rounds pattern =
          some outcome ∧
        ((∃ globs, outcome = .ok globs ∧ globs ≠ []) ∨
          ∃ exception, outcome = .error (.invalidPattern exception))) ↔
      Expands (endings quoteTreatment parenthesesTreatment pattern) := by
  have whole : [(⟨[], pattern, []⟩ : ExpressionToExpand)].flatMap
      (ways quoteTreatment parenthesesTreatment).endings =
        endings quoteTreatment parenthesesTreatment pattern := by
    rw [List.flatMap_singleton, endings]
  rw [Expands]
  match first : (endings quoteTreatment parenthesesTreatment pattern).find? Ending.stops with
  | none =>
    have all_globs : ∀ ending ∈ endings quoteTreatment parenthesesTreatment pattern,
        ending.stops = false := fun ending member =>
      Bool.eq_false_iff.mpr (List.find?_eq_none.mp first ending member)
    have settles := settles_of_endings quoteTreatment parenthesesTreatment (fun _ => False)
      (fun _ stopped => stopped.elim) [⟨[], pattern, []⟩] [] (by rw [whole, first])
    have some_glob := globs_ne_nil all_globs
    constructor
    · rintro ⟨rounds, outcome, returned, ⟨globs, rfl, more⟩ | ⟨exception, rfl⟩⟩
      · cases settles.only rounds _ returned
        exact ⟨some_glob.mp more, by simp⟩
      · cases settles.only rounds _ returned
    · rintro ⟨more, -⟩
      obtain ⟨rounds, returned⟩ := settles.returns
      exact ⟨rounds, _, returned, Or.inl ⟨_, rfl, some_glob.mpr more⟩⟩
  | some (.glob text) =>
    cases List.find?_some first
  | some (.refused exception) =>
    have settles := settles_of_endings quoteTreatment parenthesesTreatment (· = .refused exception)
      (fun ending stopped => ⟨exception, stopped, rfl⟩) [⟨[], pattern, []⟩] [] (by rw [whole, first])
    obtain ⟨rounds, returned⟩ := settles.returns
    refine iff_of_true ⟨rounds, _, returned, Or.inr ⟨exception, rfl⟩⟩ ⟨fun nothing => ?_, by simp⟩
    rw [nothing] at first
    cases first
  | some .uncountable =>
    have uncounted := uncounted_of_endings quoteTreatment parenthesesTreatment
      [⟨[], pattern, []⟩] [] (by rw [whole, first])
    refine iff_of_false ?_ fun expands => expands.2 rfl
    rintro ⟨rounds, outcome, returned, ⟨globs, rfl, -⟩ | ⟨exception, rfl⟩⟩
    · obtain ⟨text, same⟩ := uncounted rounds _ returned
      cases same
    · obtain ⟨text, same⟩ := uncounted rounds _ returned
      cases same

end Loop

section Padding

/-- With zeros in front. -/
def Padded (text : List Char) : Prop := text.head? = some '0' ∧ 1 < text.length

instance (text : List Char) : Decidable (Padded text) := inferInstanceAs (Decidable (_ ∧ _))

/-- A number in as many digits as the first bound, if that has zeros in front. -/
def asFirst (first : List Char) (n : Nat) : List Char :=
  if Padded first then padded first.length (Nat.toDigits 10 n) else Nat.toDigits 10 n

variable {token : List Char}

theorem length_digits_lt {first : List Char} (digit_text : DigitText first)
    (zeros : Padded first) : (Nat.toDigits 10 (decimalValue first)).length < first.length := by
  obtain ⟨more, all⟩ := digit_text
  obtain ⟨c, rest, rfl⟩ := List.exists_cons_of_ne_nil more
  obtain ⟨head, long⟩ := zeros
  obtain rfl : c = '0' := Option.some.inj head
  have rest_more : 0 < rest.length := Nat.lt_of_succ_lt_succ long
  have same : decimalValue ('0' :: rest) = decimalValue rest := by
    rw [decimalValue, Nat.ofDigitChars_cons]
    rfl
  have small := decimalValue_lt fun c member => all c (List.mem_cons_of_mem _ member)
  rw [same]
  exact Nat.lt_succ_of_le ((Nat.length_toDigits_le_iff (by decide) rest_more).mpr small)

/-- A bound without zeros in front is no longer than any number from it on. -/
theorem length_le_digits {first : List Char} (digit_text : DigitText first)
    (plain : ¬ Padded first) {n : Nat} (from_first : decimalValue first ≤ n) :
    first.length ≤ (Nat.toDigits 10 n).length := by
  obtain ⟨more, all⟩ := digit_text
  by_cases long : 1 < first.length
  · obtain ⟨c, rest, rfl⟩ := List.exists_cons_of_ne_nil more
    have no_zero : c ≠ '0' := fun zero => plain ⟨by rw [zero]; rfl, long⟩
    have positive : 0 < c.toNat - '0'.toNat := by
      have digit := all c List.mem_cons_self
      simp only [Char.isDigit, Bool.and_eq_true, decide_eq_true_eq] at digit
      have low := UInt32.le_iff_toNat_le.mp digit.1
      have other : c.val.toNat ≠ 48 := fun same => no_zero (Char.ext (UInt32.toNat_inj.mp same))
      change 0 < c.val.toNat - 48
      change 48 ≤ c.val.toNat at low
      omega
    have large : 10 ^ rest.length ≤ decimalValue (c :: rest) := by
      have scaled := Nat.mul_le_mul_left (10 ^ rest.length) positive
      rw [decimalValue, Nat.ofDigitChars_cons, Nat.ofDigitChars_eq_ofDigitChars_zero, Nat.mul_zero,
        Nat.zero_add]
      omega
    have rest_more : 0 < rest.length := Nat.lt_of_succ_lt_succ long
    by_contra short
    have fewer : (Nat.toDigits 10 n).length ≤ rest.length := by
      rw [List.length_cons] at short
      omega
    have below := (Nat.length_toDigits_le_iff (by decide) rest_more).mp fewer
    omega
  · have digits : 0 < (Nat.toDigits 10 n).length := List.length_pos_iff.mpr Nat.toDigits_ne_nil
    omega

theorem padded_of_le {length : Nat} {text : List Char} (enough : length ≤ text.length) :
    padded length text = text := by
  rw [padded, Nat.sub_eq_zero_of_le enough]
  rfl

/-- What the tokens of a range are, and what they should be. -/
theorem numbers_eq_iff (range : isNumericRange token = true)
    (ordered : firstNumber token ≤ lastNumber token) :
    alternatives token =
        (List.range' (firstNumber token) (lastNumber token + 1 - firstNumber token)).map
          (asFirst (startText token)) ↔
      (Padded (startText token) → (startText token).length ≤ (endText token).length) := by
  obtain ⟨first, last, -⟩ := range_texts range
  rw [alternatives, if_pos range, numbers, List.map_inj_left]
  constructor
  · intro same zeros
    have inside : firstNumber token ∈
        List.range' (firstNumber token) (lastNumber token + 1 - firstNumber token) :=
      List.mem_range'_1.mpr ⟨Nat.le_refl _, by omega⟩
    have lengths := congrArg List.length (same _ inside)
    have short := length_digits_lt first zeros
    rw [asFirst, if_pos zeros, length_padded, length_padded, firstNumber] at lengths
    omega
  · intro wide n inside
    by_cases zeros : Padded (startText token)
    · rw [asFirst, if_pos zeros, Nat.min_eq_left (wide zeros)]
    · have enough := length_le_digits first zeros (List.mem_range'_1.mp inside).1
      rw [asFirst, if_neg zeros, padded_of_le (by omega)]

/-- A range from one number to a greater one is replaced by these numbers, in the digits of its
first bound, exactly where it can be counted and its second bound has as many digits. -/
theorem range_exact_iff (range : isNumericRange token = true)
    (ordered : firstNumber token ≤ lastNumber token) :
    (∃ rounds, expandToken true rounds token =
        some (.ok ((List.range' (firstNumber token)
          (lastNumber token + 1 - firstNumber token)).map (asFirst (startText token))))) ↔
      lastNumber token < maxInt ∧
        (Padded (startText token) → (startText token).length ≤ (endText token).length) := by
  rw [← numbers_eq_iff range ordered]
  constructor
  · rintro ⟨rounds, returned⟩
    by_cases countable : Countable token
    · have same := (expandToken_settles countable).only rounds _ returned
      exact ⟨(countable range).2, (Except.ok.inj same).symm⟩
    · obtain ⟨text, other⟩ := expandToken_uncountable countable returned
      cases other
  · rintro ⟨below, same⟩
    have countable : Countable token := fun _ => ⟨by omega, below⟩
    obtain ⟨rounds, returned⟩ := (expandToken_settles countable).returns
    exact ⟨rounds, same ▸ returned⟩

end Padding

/-- With numeric ranges allowed, and any treatment of quotes and parentheses, a call returns globs
or refuses the pattern exactly where some way through the alternatives comes to an end and none
ends at a range that cannot be counted, unless one before it is refused. And a range from a number
to a greater one stands for these numbers, in the digits of its first bound, exactly where the
second bound is below the greatest `int` and no shorter than a first bound with zeros in front. -/
theorem numeric_ranges_iff (quoteTreatment parenthesesTreatment : PhraseTreatment) :
    (∀ pattern,
      (∃ rounds outcome,
        getGlobsAfterBraceExpansionFor quoteTreatment parenthesesTreatment true rounds pattern =
            some outcome ∧
          ((∃ globs, outcome = .ok globs ∧ globs ≠ []) ∨
            ∃ exception, outcome = .error (.invalidPattern exception))) ↔
        Expands (endings quoteTreatment parenthesesTreatment pattern)) ∧
      ∀ token, isNumericRange token = true → firstNumber token ≤ lastNumber token →
        ((∃ rounds, expandToken true rounds token =
            some (.ok ((List.range' (firstNumber token)
              (lastNumber token + 1 - firstNumber token)).map (asFirst (startText token))))) ↔
          lastNumber token < maxInt ∧
            (Padded (startText token) → (startText token).length ≤ (endText token).length)) :=
  ⟨expands_iff quoteTreatment parenthesesTreatment, fun _ => range_exact_iff⟩

/-- A range of three numbers with a zero in front. -/
theorem one_to_three_exact :
    (∃ rounds, expandToken true rounds ['0', '1', '-', '0', '3'] =
        some (.ok [['0', '1'], ['0', '2'], ['0', '3']])) ↔
      3 < maxInt ∧ (Padded ['0', '1'] → 2 ≤ 2) :=
  (numeric_ranges_iff .notASpecialChar .notASpecialChar).2 ['0', '1', '-', '0', '3'] (by decide)
    (by decide)

/-- A reversed range stands for nothing, and there is no glob. -/
theorem reversed_range_no_glob :
    ¬ ∀ pattern, ∃ rounds outcome,
      getGlobsAfterBraceExpansionFor .notASpecialChar .notASpecialChar true rounds pattern =
          some outcome ∧
        ((∃ globs, outcome = .ok globs ∧ globs ≠ []) ∨
          ∃ exception, outcome = .error (.invalidPattern exception)) := by
  intro expands
  have opened : (ways .notASpecialChar .notASpecialChar).visit
      ⟨[], ['{', '3', '-', '1', '}'], []⟩ = .opens [] := rfl
  have some_end := ((expands_iff _ _ _).mp (expands ['{', '3', '-', '1', '}'])).1
  exact some_end (Tree.endings_opens opened)

end Brooklyn.WildcardGlobs
