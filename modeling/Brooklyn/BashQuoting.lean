import Mathlib.Algebra.Ring.Parity
import Mathlib.Data.List.DropRight
import Brooklyn.CharacterClasses
import Brooklyn.StringEscapes

/-!
`BashStringEscapes`, the way back. What `wrapBash` wrote is unwrapped by a reader that knows the
escapes of Java, and a text that is to stand in double quotes is checked by two patterns, each
matched against the whole of it.
-/

namespace Brooklyn.BashStringEscapes
open StringEscapes CharacterClasses

section Unwrapping

/-- What the reader makes of a wrapped character that it does not refuse. The single quotes
around an exclamation mark stand outside of the double ones and are taken as they are. -/
def shown (c : Char) : List Char := if c = '!' then ['\'', '!', '\''] else [c]

/-- No backslash may stand before these for Java. -/
def isForeign (c : Char) : Bool := c = '$' ∨ c = '`'

theorem unescape_escaped_char {c : Char} (native : isForeign c = false) (i : Nat)
    (result rest : List Char) :
    unquoteAndUnescape true i false true result (escapeLiteralForDoubleQuotedBash [c] ++ rest) =
      unquoteAndUnescape true (i + (escapeLiteralForDoubleQuotedBash [c]).length) false true
        (result ++ shown c) rest := by
  rw [isForeign, decide_eq_false_iff_not, not_or] at native
  unfold escapeLiteralForDoubleQuotedBash escapeLiteralForDoubleQuotedBash
  rw [List.append_nil]
  split
  · next special =>
    -- Of the four escapes Java has these two.
    obtain rfl | rfl : c = '\\' ∨ c = '"' := by tauto
    · exact (unescape_backslash true i result _).trans
        (unescape_supported true (i + 1) result rest rfl)
    · exact (unescape_backslash true i result _).trans
        (unescape_supported true (i + 1) result rest rfl)
  · next plain =>
    rw [not_or, not_or] at plain
    split
    · next exclamation =>
      -- The double quotes are closed and opened again, the single ones stay.
      subst exclamation
      simp only [List.cons_append, List.nil_append]
      rw [unescape_close, unescape_outside _ _ _ _ (by decide), unescape_outside _ _ _ _ (by decide),
        unescape_outside _ _ _ _ (by decide), unescape_open]
      simp [shown]
    · next other =>
      rw [shown, if_neg other]
      exact unescape_plain true i result rest plain.1 plain.2.1

theorem unescape_foreign {c : Char} (foreign : isForeign c = true) (i : Nat)
    (result rest : List Char) :
    unquoteAndUnescape true i false true result (escapeLiteralForDoubleQuotedBash [c] ++ rest) =
      .error (.unsupportedEscapeChar c (i + 1)) := by
  obtain rfl | rfl : c = '$' ∨ c = '`' := of_decide_eq_true foreign
  · exact (unescape_backslash true i result _).trans
      (unescape_unsupported true (i + 1) result rest rfl)
  · exact (unescape_backslash true i result _).trans
      (unescape_unsupported true (i + 1) result rest rfl)

theorem unescape_escaped {value : List Char} (native : ∀ c ∈ value, isForeign c = false) (i : Nat)
    (result rest : List Char) :
    unquoteAndUnescape true i false true result (escapeLiteralForDoubleQuotedBash value ++ rest) =
      unquoteAndUnescape true (i + (escapeLiteralForDoubleQuotedBash value).length) false true
        (result ++ value.flatMap shown) rest := by
  induction value generalizing i result with
  | nil => simp [escapeLiteralForDoubleQuotedBash]
  | cons c value ih =>
    rw [List.forall_mem_cons] at native
    rw [escape_cons, List.append_assoc, unescape_escaped_char native.1, ih native.2,
      List.length_append, List.flatMap_cons, List.append_assoc, Nat.add_assoc]

theorem unescape_refused {value : List Char} {c : Char} (member : c ∈ value)
    (foreign : isForeign c = true) (i : Nat) (result rest : List Char) :
    ∃ problem, unquoteAndUnescape true i false true result
      (escapeLiteralForDoubleQuotedBash value ++ rest) = .error problem := by
  induction value generalizing i result with
  | nil => cases member
  | cons d value ih =>
    rw [escape_cons, List.append_assoc]
    by_cases refused : isForeign d = true
    · exact ⟨_, unescape_foreign refused i result _⟩
    · rw [unescape_escaped_char (Bool.eq_false_iff.mpr refused)]
      refine ih ((List.mem_cons.mp member).resolve_left ?_) _ _
      rintro rfl
      exact refused foreign

theorem unwrap_wrapBash {value : List Char} (native : ∀ c ∈ value, isForeign c = false) :
    unwrapBashQuotesAndEscapes (wrapBash value) = .ok (value.flatMap shown) := by
  rw [unwrapBashQuotesAndEscapes, applyUnquoteAndUnescape, wrapBash, List.cons_append,
    unescape_open, unescape_escaped native, unescape_close]
  rfl

theorem unwrap_wrapBash_refused {value : List Char} {c : Char} (member : c ∈ value)
    (foreign : isForeign c = true) :
    ∃ failure, unwrapBashQuotesAndEscapes (wrapBash value) = .error failure := by
  obtain ⟨problem, refused⟩ := unescape_refused member foreign (0 + 1) [] ['"']
  rw [unwrapBashQuotesAndEscapes, applyUnquoteAndUnescape, wrapBash, List.cons_append,
    unescape_open, refused]
  exact ⟨_, rfl⟩

theorem length_shown (value : List Char) :
    (value.flatMap shown).length = value.length + 2 * value.count '!' := by
  induction value with
  | nil => rfl
  | cons c value ih =>
    rw [List.flatMap_cons, List.length_append, ih, shown]
    by_cases exclamation : c = '!'
    · rw [if_pos exclamation, exclamation, List.count_cons_self]
      simp only [List.length_cons, List.length_nil]
      omega
    · rw [if_neg exclamation, List.count_cons_of_ne exclamation]
      simp only [List.length_cons, List.length_nil]
      omega

theorem shown_eq_self_iff (value : List Char) : value.flatMap shown = value ↔ '!' ∉ value := by
  constructor
  · intro same
    have lengths := length_shown value
    rw [same] at lengths
    exact List.count_eq_zero.mp (by omega)
  · intro plain
    induction value with
    | nil => rfl
    | cons c value ih =>
      rw [List.mem_cons, not_or] at plain
      rw [List.flatMap_cons, ih plain.2, shown, if_neg (Ne.symm plain.1)]
      rfl

/-- What `wrapBash` wrapped is unwrapped to itself exactly if it has none of the characters that
only bash has escapes for. -/
theorem unwrap_wrapBash_iff (value : List Char) :
    unwrapBashQuotesAndEscapes (wrapBash value) = .ok value ↔
      '$' ∉ value ∧ '`' ∉ value ∧ '!' ∉ value := by
  by_cases native : ∀ c ∈ value, isForeign c = false
  · have dollar : '$' ∉ value := fun member => absurd (native _ member) (by decide)
    have backquote : '`' ∉ value := fun member => absurd (native _ member) (by decide)
    rw [unwrap_wrapBash native, Except.ok.injEq, shown_eq_self_iff]
    exact ⟨fun plain => ⟨dollar, backquote, plain⟩, fun plain => plain.2.2⟩
  · push Not at native
    obtain ⟨c, member, refused⟩ := native
    have foreign : isForeign c = true := Bool.ne_false_iff.mp refused
    obtain ⟨failure, failed⟩ := unwrap_wrapBash_refused member foreign
    rw [failed]
    refine iff_of_false (by simp) fun ⟨dollar, backquote, _⟩ => ?_
    rcases of_decide_eq_true foreign with rfl | rfl
    · exact dollar member
    · exact backquote member

theorem dollar_not_unwrapped :
    ¬ ∀ value, unwrapBashQuotesAndEscapes (wrapBash value) = .ok value := by
  intro round_trips
  exact absurd (round_trips ['$']) (by decide)

end Unwrapping

section Checking

/-- What the patterns tell apart. -/
inductive Kind
  | backslash | doubleQuote | ampersand | lineTerminator | other
  deriving DecidableEq

def Kind.all : List Kind := [.backslash, .doubleQuote, .ampersand, .lineTerminator, .other]

/-- What a dot does not take. -/
def isLineTerminator (c : Char) : Bool :=
  c = '\n' ∨ c = '\r' ∨ c = '\u0085' ∨ c = '\u2028' ∨ c = '\u2029'

def kind (c : Char) : Kind :=
  if c = '\\' then .backslash
  else if c = '"' then .doubleQuote
  else if c = '&' then .ampersand
  else if isLineTerminator c then .lineTerminator
  else .other

/-- `[^...]*(\\\\)*` and then a special character and `.*` -/
def unescaped (skipped : List Kind) (special : Kind) : RegularExpression Kind :=
  let backslash : RegularExpression Kind := .char .backslash
  (noneOf Kind.all skipped).star * (backslash * backslash).star * .char special *
    (noneOf Kind.all [.lineTerminator]).star

/-- `[^\\\"]*(\\\\)*\".*` -/
def unescapedDoubleQuote : RegularExpression Kind :=
  unescaped [.backslash, .doubleQuote] .doubleQuote

/-- `[^\\\\]*(\\\\)*&.*` -/
def unescapedAmpersand : RegularExpression Kind := unescaped [.backslash] .ampersand

def checkValidForDoubleQuotingInBash (x : List Char) : Option String :=
  if unescapedDoubleQuote.rmatch (x.map kind) then some "unescaped double quote"
  else if unescapedAmpersand.rmatch (x.map kind) then some "unescaped ampersand"
  else none

def isValidForDoubleQuotingInBash (x : List Char) : Bool :=
  (checkValidForDoubleQuotingInBash x).isNone

def isBackslash (c : Char) : Bool := c = '\\'

/-- How many backslashes stand right before what comes after a text. -/
def backslashesBefore (front : List Char) : Nat := (front.rtakeWhile isBackslash).length

def isSpecialForBash (c : Char) : Bool := c = '"' ∨ c = '&'

/-- A special character of a text, after an even number of backslashes. -/
structure Unescaped (x front : List Char) (c : Char) (behind : List Char) : Prop where
  place : x = front ++ c :: behind
  special : isSpecialForBash c = true
  even : Even (backslashesBefore front)

/-- The pattern looks past nothing but its own backslashes: no other stand before them, no quote
does where a quote is looked for, and no line ends behind the special character. -/
structure InSight (front : List Char) (c : Char) (behind : List Char) : Prop where
  first : ∀ d ∈ front.rdropWhile isBackslash, d ≠ '\\' ∧ (c = '"' → d ≠ '"')
  sameLine : ∀ d ∈ behind, isLineTerminator d = false

theorem kind_eq_backslash {c : Char} : kind c = .backslash ↔ c = '\\' := by
  -- One case for each kind of character.
  unfold kind
  repeat' split
  all_goals simp_all

theorem kind_eq_doubleQuote {c : Char} : kind c = .doubleQuote ↔ c = '"' := by
  unfold kind
  repeat' split
  all_goals simp_all

theorem kind_eq_ampersand {c : Char} : kind c = .ampersand ↔ c = '&' := by
  unfold kind
  repeat' split
  all_goals simp_all

theorem kind_eq_lineTerminator {c : Char} : kind c = .lineTerminator ↔ isLineTerminator c := by
  unfold kind isLineTerminator
  repeat' split
  all_goals simp_all

/-- A text that one of the patterns takes, by its parts. -/
theorem rmatch_unescaped {skipped : List Kind} {special : Kind} {x : List Char} :
    (unescaped skipped special).rmatch (x.map kind) = true ↔
      ∃ front n c behind, x = front ++ List.replicate (n + n) '\\' ++ c :: behind ∧
        kind c = special ∧ (∀ d ∈ front, kind d ∉ skipped) ∧
          ∀ d ∈ behind, isLineTerminator d = false := by
  have complete : ∀ kind, kind ∈ Kind.all := fun kind => by cases kind <;> decide
  have plain : ∀ {text : List Char} {kinds : List Kind},
      text.map kind ∈ (noneOf Kind.all kinds).star.matches' ↔ ∀ d ∈ text, kind d ∉ kinds := by
    intro text kinds
    rw [mem_star_noneOf complete, List.forall_mem_map]
  have sameLine : ∀ {text : List Char}, text.map kind ∈
      (noneOf Kind.all [.lineTerminator]).star.matches' ↔ ∀ d ∈ text, isLineTerminator d = false := by
    intro text
    refine plain.trans (forall₂_congr fun d _ => ?_)
    rw [List.mem_singleton, kind_eq_lineTerminator, Bool.not_eq_true]
  have backslashes : ∀ {text : List Char} {n}, text.map kind = List.replicate n .backslash ↔
      text = List.replicate n '\\' := by
    intro text n
    rw [List.eq_replicate_iff, List.eq_replicate_iff, List.length_map, List.forall_mem_map]
    exact and_congr_right fun _ => forall₂_congr fun c _ => kind_eq_backslash
  rw [RegularExpression.rmatch_iff_matches']
  simp only [unescaped, RegularExpression.matches'_mul, Language.mem_mul]
  constructor
  -- The word of kinds falls into four, and the text does where they meet.
  · rintro ⟨_, ⟨_, ⟨first, skips, run, even, rfl⟩, _, rfl, rfl⟩, last, line, whole⟩
    obtain ⟨n, rfl⟩ := mem_star_pair.mp even
    obtain ⟨read, behind, rfl, read_kinds, rfl⟩ := List.map_eq_append_iff.mp whole.symm
    obtain ⟨read, special_text, rfl, read_kinds, one⟩ := List.map_eq_append_iff.mp read_kinds
    obtain ⟨front, run, rfl, rfl, run_kinds⟩ := List.map_eq_append_iff.mp read_kinds
    obtain ⟨c, rest, rfl, special_kind, none_left⟩ := List.map_eq_cons_iff.mp one
    obtain rfl : rest = [] := List.map_eq_nil_iff.mp none_left
    rw [backslashes] at run_kinds
    exact ⟨front, n, c, behind, by simp [run_kinds], special_kind, plain.mp skips,
      sameLine.mp line⟩
  · rintro ⟨front, n, c, behind, rfl, special_kind, skips, line⟩
    refine ⟨_, ⟨_, ⟨front.map kind, plain.mpr skips, _, mem_star_pair.mpr ⟨n, rfl⟩, rfl⟩, _,
      rfl, rfl⟩, behind.map kind, sameLine.mpr line, ?_⟩
    rw [← backslashes.mpr rfl, ← special_kind]
    simp

/-- The backslashes before what comes after a text, taken off it. -/
theorem front_parts (front : List Char) :
    front = front.rdropWhile isBackslash ++ List.replicate (backslashesBefore front) '\\' := by
  have run : front.rtakeWhile isBackslash = List.replicate (backslashesBefore front) '\\' :=
    List.eq_replicate_iff.mpr ⟨rfl, fun c member => by
      have taken : isBackslash c = true := List.mem_rtakeWhile_imp member
      exact of_decide_eq_true taken⟩
  rw [← run, List.rdropWhile_append_rtakeWhile]

theorem backslashes_behind {front : List Char} (none_in : ∀ c ∈ front, c ≠ '\\') (n : Nat) :
    backslashesBefore (front ++ List.replicate n '\\') = n ∧
      (front ++ List.replicate n '\\').rdropWhile isBackslash = front := by
  induction n with
  | zero =>
    have last : ∀ more : front ≠ [], ¬ isBackslash (front.getLast more) = true := fun more =>
      by simpa [isBackslash] using none_in _ (List.getLast_mem more)
    rw [List.replicate_zero, List.append_nil, backslashesBefore]
    exact ⟨by rw [List.rtakeWhile_eq_nil_iff.mpr last]; rfl, List.rdropWhile_eq_self_iff.mpr last⟩
  | succ n ih =>
    rw [List.replicate_succ', ← List.append_assoc]
    constructor
    · rw [backslashesBefore, List.rtakeWhile_concat_pos isBackslash _ _ rfl, List.length_append]
      exact congrArg (· + 1) ih.1
    · rw [List.rdropWhile_concat_pos isBackslash _ _ rfl]
      exact ih.2

/-- The check refuses a text exactly if an unescaped special character is in sight. -/
theorem refused_iff (x : List Char) :
    isValidForDoubleQuotingInBash x = false ↔
      ∃ front c behind, Unescaped x front c behind ∧ InSight front c behind := by
  have either : isValidForDoubleQuotingInBash x = false ↔
      unescapedDoubleQuote.rmatch (x.map kind) = true ∨
        unescapedAmpersand.rmatch (x.map kind) = true := by
    unfold isValidForDoubleQuotingInBash checkValidForDoubleQuotingInBash
    split
    · simp_all
    · split <;> simp_all
  rw [either, unescapedDoubleQuote, unescapedAmpersand, rmatch_unescaped, rmatch_unescaped]
  constructor
  · rintro (⟨front, n, c, behind, place, special, skipped, line⟩ |
      ⟨front, n, c, behind, place, special, skipped, line⟩)
    · have none_in : ∀ d ∈ front, d ≠ '\\' ∧ d ≠ '"' := by
        simpa [kind_eq_backslash, kind_eq_doubleQuote] using skipped
      obtain ⟨count, left⟩ := backslashes_behind (fun d member => (none_in d member).1) (n + n)
      obtain rfl := kind_eq_doubleQuote.mp special
      refine ⟨_, '"', behind, ⟨place, by decide, by rw [count]; exact ⟨n, rfl⟩⟩, ?_, line⟩
      rw [left]
      exact fun d member => ⟨(none_in d member).1, fun _ => (none_in d member).2⟩
    · have none_in : ∀ d ∈ front, d ≠ '\\' := by simpa [kind_eq_backslash] using skipped
      obtain ⟨count, left⟩ := backslashes_behind none_in (n + n)
      obtain rfl := kind_eq_ampersand.mp special
      refine ⟨_, '&', behind, ⟨place, by decide, by rw [count]; exact ⟨n, rfl⟩⟩, ?_, line⟩
      rw [left]
      exact fun d member => ⟨none_in d member, fun quote => absurd quote (by decide)⟩
  · rintro ⟨front, c, behind, ⟨place, special, n, even⟩, first, line⟩
    -- The backslashes are split off, what is before them is what the pattern skips.
    have parts := front_parts front
    rw [even] at parts
    rw [parts] at place
    rcases of_decide_eq_true special with rfl | rfl
    · refine Or.inl ⟨_, n, '"', behind, place, by decide, fun d member => ?_, line⟩
      obtain ⟨not_backslash, not_quote⟩ := first d member
      simpa [kind_eq_backslash, kind_eq_doubleQuote] using ⟨not_backslash, not_quote rfl⟩
    · refine Or.inr ⟨_, n, '&', behind, place, by decide, fun d member => ?_, line⟩
      simpa [kind_eq_backslash] using (first d member).1

/-- Every special character of the text is escaped. -/
def AllEscaped (x : List Char) : Prop :=
  ∀ front c behind, x = front ++ c :: behind → isSpecialForBash c = true →
    Odd (backslashesBefore front)

theorem allEscaped_iff (x : List Char) :
    AllEscaped x ↔ ¬ ∃ front c behind, Unescaped x front c behind := by
  constructor
  · rintro escaped ⟨front, c, behind, place, special, even⟩
    exact Nat.not_even_iff_odd.mpr (escaped front c behind place special) even
  · intro escaped front c behind place special
    exact Nat.not_even_iff_odd.mp fun even => escaped ⟨front, c, behind, place, special, even⟩

/-- The check tells whether every special character is escaped exactly for the texts of which one
unescaped character is in sight, if they have any. -/
theorem valid_iff_escaped_iff (x : List Char) :
    (isValidForDoubleQuotingInBash x = true ↔ AllEscaped x) ↔
      ((∃ front c behind, Unescaped x front c behind) →
        ∃ front c behind, Unescaped x front c behind ∧ InSight front c behind) := by
  rw [← refused_iff, allEscaped_iff, ← Bool.not_eq_true]
  constructor
  · intro tells unescaped valid
    exact tells.mp valid unescaped
  · intro seen
    refine ⟨fun valid unescaped => seen unescaped valid, fun escaped => ?_⟩
    by_contra refused
    obtain ⟨front, c, behind, unescaped, -⟩ := (refused_iff x).mp (Bool.eq_false_iff.mpr refused)
    exact escaped ⟨front, c, behind, unescaped⟩

/-- Behind an escaped quote an unescaped one goes unseen. -/
theorem second_quote_accepted :
    ¬ ∀ x, isValidForDoubleQuotingInBash x = true ↔ AllEscaped x := by
  intro tells
  let x := ['\\', '"', 'a', '"']
  have accepted : isValidForDoubleQuotingInBash x = true := by decide
  have odd := (tells x).mp accepted ['\\', '"', 'a'] '"' [] rfl (by decide)
  exact absurd odd (by decide)

end Checking

end Brooklyn.BashStringEscapes
