import Brooklyn.Rounds
import Brooklyn.XmlNames

/-!
The helpers of `Strings` that loop until nothing is left to do: replacing, stripping, padding. Each
goes on forever where a turn leaves the string as it was, which takes an empty argument. `rounds`
bounds the turns of a loop; an outcome is missing where they do not suffice.
-/

namespace Brooklyn.Strings
open Rounds

/-- The loop of `replaceAll`: the index and what has been written. -/
structure Replacing where
  i : Nat
  result : JavaString

def replaceTurn (source pattern replacement : JavaString) (state : Replacing) :
    Replacing ⊕ JavaString :=
  if inside : state.i < source.length then
    if pattern.isPrefixOf (source.drop state.i) then
      .inl ⟨state.i + pattern.length, state.result ++ replacement⟩
    else .inl ⟨state.i + 1, state.result ++ [source[state.i]]⟩
  else .inr state.result

def replaceAll (rounds : Nat) (source : Option JavaString) (pattern replacement : JavaString) :
    Option (Option JavaString) :=
  match source with
  | none => some none
  | some source => (loop (replaceTurn source pattern replacement) rounds ⟨0, []⟩).map some

/-- `startsWith` and the `substring` behind. -/
def stripStart (start string : JavaString) : Option JavaString :=
  if start.isPrefixOf string then some (string.drop start.length) else none

/-- `endsWith` and the `substring` in front. -/
def stripEnd (suffix string : JavaString) : Option JavaString :=
  if suffix.isSuffixOf string then some (string.take (string.length - suffix.length)) else none

section Stripping
variable (strip : JavaString → JavaString → Option JavaString)

def removeFrom (string : Option JavaString) (affixes : List JavaString) : Option JavaString :=
  match string with
  | none => none
  | some string =>
      if string.isEmpty then some string
      else some ((affixes.findSome? fun affix => strip affix string).getD string)

def removeTurn (affixes : List JavaString) (string : Option JavaString) :
    Option JavaString ⊕ Option JavaString :=
  match string with
  | none => .inr none
  | some string =>
      if string.isEmpty then .inr (some string)
      else
        match affixes.findSome? fun affix => strip affix string with
        | some shorter => .inl (some shorter)
        | none => .inr (some string)

def removeAll (rounds : Nat) (string : Option JavaString) (affixes : List JavaString) :
    Option (Option JavaString) :=
  loop (removeTurn strip affixes) rounds string

end Stripping

def removeFromStart (string : Option JavaString) (prefixes : List JavaString) : Option JavaString :=
  removeFrom stripStart string prefixes

def removeFromEnd (string : Option JavaString) (suffixes : List JavaString) : Option JavaString :=
  removeFrom stripEnd string suffixes

def removeAllFromStart (rounds : Nat) (string : Option JavaString) (prefixes : List JavaString) :
    Option (Option JavaString) :=
  removeAll stripStart rounds string prefixes

def removeAllFromEnd (rounds : Nat) (string : Option JavaString) (suffixes : List JavaString) :
    Option (Option JavaString) :=
  removeAll stripEnd rounds string suffixes

/-- A string in a concatenation. -/
def shown (string : Option JavaString) : JavaString :=
  string.getD (JavaString.ofChars "null".toList)

def padTurn (len : Int) (left_pad right_pad : Option JavaString) (s : JavaString) :
    JavaString ⊕ JavaString :=
  if (s.length : Int) < len then .inl (shown left_pad ++ s ++ shown right_pad) else .inr s

def makePaddedString (rounds : Nat) (base : Option JavaString) (len : Int)
    (left_pad right_pad : Option JavaString) : Option JavaString :=
  loop (padTurn len left_pad right_pad) rounds (base.getD [])

/-- A helper comes to an end. -/
def Returns {Outcome : Type} (run : Nat → Option Outcome) : Prop :=
  ∃ outcome, Settles run outcome

theorem not_returns {Outcome : Type} {run : Nat → Option Outcome}
    (endless : ∀ rounds, run rounds = none) : ¬ Returns run := by
  rintro ⟨outcome, settles⟩
  obtain ⟨rounds, returned⟩ := settles.returns
  rw [endless rounds] at returned
  cases returned

section Replace
variable {source pattern replacement : JavaString}

/-- The leftmost occurrence is replaced, then those behind it. -/
inductive Replaced (pattern replacement : JavaString) : JavaString → JavaString → Prop
  | absent {source : JavaString} (nowhere : ∀ k, ¬ pattern <+: source.drop k) :
      Replaced pattern replacement source source
  | leftmost {before after replaced : JavaString}
      (first : ∀ k < before.length, ¬ pattern <+: (before ++ (pattern ++ after)).drop k)
      (rest : Replaced pattern replacement after replaced) :
      Replaced pattern replacement (before ++ (pattern ++ after))
        (before ++ (replacement ++ replaced))

theorem Replaced.cons {c : UInt16} {rest replaced : JavaString}
    (here : ¬ pattern <+: c :: rest) (later : Replaced pattern replacement rest replaced) :
    Replaced pattern replacement (c :: rest) (c :: replaced) := by
  cases later with
  | absent nowhere =>
    refine .absent fun k => ?_
    cases k with
    | zero => exact here
    | succ k => exact nowhere k
  | @leftmost before after replaced first rest =>
    refine @Replaced.leftmost _ _ (c :: before) after replaced (fun k below => ?_) rest
    cases k with
    | zero => exact here
    | succ k => exact first k (Nat.lt_of_succ_lt_succ below)

theorem Replaced.front (after : JavaString) {replaced : JavaString}
    (later : Replaced pattern replacement after replaced) :
    Replaced pattern replacement (pattern ++ after) (replacement ++ replaced) :=
  @Replaced.leftmost _ _ [] after replaced (fun _ below => absurd below (Nat.not_lt_zero _)) later

theorem occurs (before after : JavaString) :
    pattern <+: (before ++ (pattern ++ after)).drop before.length := by
  rw [List.drop_left]
  exact List.prefix_append pattern after

/-- There is one leftmost occurrence. -/
theorem leftmost_unique {before after before' after' : JavaString}
    (first : ∀ k < before.length, ¬ pattern <+: (before ++ (pattern ++ after)).drop k)
    (first' : ∀ k < before'.length, ¬ pattern <+: (before' ++ (pattern ++ after')).drop k)
    (same : before' ++ (pattern ++ after') = before ++ (pattern ++ after)) :
    before' = before ∧ after' = after := by
  have no_shorter : ¬ before.length < before'.length := fun below =>
    first' _ below (same ▸ occurs before after)
  have no_longer : ¬ before'.length < before.length := fun below =>
    first _ below (same ▸ occurs before' after')
  obtain ⟨rfl, rest⟩ := List.append_inj same (by omega)
  exact ⟨rfl, List.append_cancel_left rest⟩

theorem Replaced.unique {replaced other same : JavaString}
    (one : Replaced pattern replacement source replaced)
    (another : Replaced pattern replacement same other) (equal : same = source) :
    other = replaced := by
  induction one generalizing same other with
  | absent nowhere =>
    cases another with
    | absent _ => exact equal
    | @leftmost before after _ first rest =>
      exact absurd (equal ▸ occurs before after) (nowhere before.length)
  | @leftmost before after replaced first rest ih =>
    cases another with
    | absent nowhere => exact absurd (equal ▸ occurs before after) (nowhere before.length)
    | leftmost first' rest' =>
      obtain ⟨rfl, rfl⟩ := leftmost_unique first first' equal
      rw [ih rest' rfl]

/-- From an index on, what is left of the source is replaced behind what has been written. -/
theorem loop_replaceTurn (nonempty : pattern ≠ []) (left : Nat) :
    ∀ i result, source.length - i = left →
      ∃ replaced, Replaced pattern replacement (source.drop i) replaced ∧
        Settles (fun rounds => loop (replaceTurn source pattern replacement) rounds ⟨i, result⟩)
          (result ++ replaced) := by
  -- A turn takes the pattern off what is left, or one character.
  induction left using Nat.strongRecOn with
  | ind left ih =>
    intro i result counted
    have positive : 0 < pattern.length := List.length_pos_iff.mpr nonempty
    by_cases inside : i < source.length
    · by_cases starts : pattern.isPrefixOf (source.drop i) = true
      · have on : replaceTurn source pattern replacement ⟨i, result⟩ =
            .inl ⟨i + pattern.length, result ++ replacement⟩ := by
          simp only [replaceTurn, dif_pos inside, if_pos starts]
        obtain ⟨after, split⟩ := List.isPrefixOf_iff_prefix.mp starts
        obtain ⟨replaced, later, settles⟩ :=
          ih _ (by omega) (i + pattern.length) (result ++ replacement) rfl
        have behind : source.drop (i + pattern.length) = after := by
          rw [← List.drop_drop, ← split, List.drop_left]
        rw [behind] at later
        refine ⟨replacement ++ replaced, split ▸ later.front after, ?_⟩
        rw [← List.append_assoc]
        exact loop_settles_next on settles
      · have on : replaceTurn source pattern replacement ⟨i, result⟩ =
            .inl ⟨i + 1, result ++ [source[i]]⟩ := by
          simp only [replaceTurn, dif_pos inside, if_neg starts]
        obtain ⟨replaced, later, settles⟩ := ih _ (by omega) (i + 1) (result ++ [source[i]]) rfl
        have rest := List.drop_eq_getElem_cons inside
        have here : ¬ pattern <+: source[i] :: source.drop (i + 1) := fun found =>
          starts (List.isPrefixOf_iff_prefix.mpr (rest ▸ found))
        refine ⟨source[i] :: replaced, rest ▸ later.cons here, ?_⟩
        rw [← List.append_cons] at settles
        exact loop_settles_next on settles
    · have done : replaceTurn source pattern replacement ⟨i, result⟩ = .inr result := by
        simp only [replaceTurn, dif_neg inside]
      have nothing : source.drop i = [] := List.drop_eq_nil_of_le (Nat.not_lt.mp inside)
      refine ⟨[], ?_, ?_⟩
      · rw [nothing]
        refine .absent fun k found => nonempty ?_
        rw [List.drop_nil] at found
        exact List.prefix_nil.mp found
      · rw [List.append_nil]
        exact loop_settles_left done

theorem exists_replaced (nonempty : pattern ≠ []) (source replacement : JavaString) :
    ∃ replaced, Replaced pattern replacement source replaced ∧
      Settles (fun rounds => replaceAll rounds (some source) pattern replacement)
        (some replaced) := by
  obtain ⟨replaced, later, settles⟩ :=
    @loop_replaceTurn source pattern replacement nonempty _ 0 [] rfl
  exact ⟨replaced, later, settles.map some⟩

theorem replaceAll_settles_iff (nonempty : pattern ≠ []) (source replacement result : JavaString) :
    Settles (fun rounds => replaceAll rounds (some source) pattern replacement) (some result) ↔
      Replaced pattern replacement source result := by
  obtain ⟨replaced, one, settles⟩ := exists_replaced nonempty source replacement
  constructor
  · intro again
    obtain ⟨rounds, returned⟩ := again.returns
    cases settles.only rounds _ returned
    exact one
  · intro another
    cases one.unique another rfl
    exact settles

theorem replaceAll_returns_iff (source : Option JavaString) (pattern replacement : JavaString) :
    Returns (fun rounds => replaceAll rounds source pattern replacement) ↔
      source.getD [] = [] ∨ pattern ≠ [] := by
  cases source with
  | none => exact iff_of_true ⟨none, .of_always fun _ => rfl⟩ (Or.inl rfl)
  | some source =>
    by_cases nonempty : pattern ≠ []
    · obtain ⟨replaced, -, settles⟩ := exists_replaced nonempty source replacement
      exact iff_of_true ⟨_, settles⟩ (Or.inr nonempty)
    obtain rfl := not_not.mp nonempty
    cases source with
    | nil =>
      have left : replaceTurn [] [] replacement ⟨0, []⟩ = .inr [] := rfl
      exact iff_of_true ⟨_, (loop_settles_left left).map some⟩ (Or.inl rfl)
    | cons c rest =>
      -- The index stays at the first character.
      refine iff_of_false (not_returns fun rounds => ?_) (by simp)
      have endless : loop (replaceTurn (c :: rest) [] replacement) rounds ⟨0, []⟩ = none := by
        refine @loop_endless _ _ _ _ (fun state => state.i = 0) ?_ rfl rounds
        rintro ⟨i, result⟩ rfl
        exact ⟨⟨0, result ++ replacement⟩, by simp [replaceTurn], rfl⟩
      simp only [replaceAll, endless, Option.map_none]

end Replace

section Strip

/-- What stripping does: nothing for an empty affix, and nothing else takes off fewer. -/
structure Strips (strip : JavaString → JavaString → Option JavaString) : Prop where
  nothing : ∀ string, strip [] string = some string
  length : ∀ affix string shorter, strip affix string = some shorter →
    shorter.length + affix.length = string.length

theorem strips_start : Strips stripStart where
  nothing _ := rfl
  length affix string shorter stripped := by
    obtain ⟨starts, same⟩ := Option.ite_none_right_eq_some.mp stripped
    obtain ⟨rest, rfl⟩ := List.isPrefixOf_iff_prefix.mp starts
    cases same
    rw [List.drop_left, List.length_append, Nat.add_comm]

theorem strips_end : Strips stripEnd where
  nothing string := by simp [stripEnd]
  length affix string shorter stripped := by
    obtain ⟨ends, same⟩ := Option.ite_none_right_eq_some.mp stripped
    obtain ⟨rest, rfl⟩ := List.isSuffixOf_iff_suffix.mp ends
    cases same
    simp

variable {strip : JavaString → JavaString → Option JavaString} {affixes : List JavaString}

/-- Nothing is left of the string when affixes that are not empty are taken off, the first listed
that there is each time. -/
inductive Consumed (strip : JavaString → JavaString → Option JavaString)
    (affixes : List JavaString) : JavaString → Prop
  | nil : Consumed strip affixes []
  | more {string affix shorter : JavaString}
      (listed : affixes.find? (fun affix => (strip affix string).isSome) = some affix)
      (nonempty : affix ≠ []) (stripped : strip affix string = some shorter)
      (rest : Consumed strip affixes shorter) : Consumed strip affixes string

theorem findSome?_of_find? {string affix shorter : JavaString}
    (listed : affixes.find? (fun affix => (strip affix string).isSome) = some affix)
    (stripped : strip affix string = some shorter) :
    affixes.findSome? (fun affix => strip affix string) = some shorter := by
  obtain ⟨-, before, after, rfl, others⟩ := List.find?_eq_some_iff_append.mp listed
  refine List.findSome?_eq_some_iff.mpr
    ⟨before, affix, after, rfl, stripped, fun other member => ?_⟩
  have none_there := others other member
  rwa [Bool.not_eq_true', Option.isSome_eq_false_iff, Option.isNone_iff_eq_none] at none_there

theorem removeTurn_more {string shorter : JavaString} (some_left : string ≠ [])
    (found : affixes.findSome? (fun affix => strip affix string) = some shorter) :
    removeTurn strip affixes (some string) = .inl (some shorter) := by
  have not_empty : ¬ string.isEmpty = true := mt List.isEmpty_iff.mp some_left
  simp only [removeTurn, if_neg not_empty, found]

/-- An affix that is not empty is there only where the string has become shorter. -/
theorem removeTurn_shorter (strips : Strips strip) (no_empty : [] ∉ affixes)
    {string next : Option JavaString} (on : removeTurn strip affixes string = .inl next) :
    (next.getD []).length < (string.getD []).length := by
  cases string with
  | none => cases on
  | some string =>
    simp only [removeTurn] at on
    split_ifs at on
    split at on
    next shorter found =>
      cases on
      obtain ⟨affix, listed, stripped⟩ := List.exists_of_findSome?_eq_some found
      have more : affix.length ≠ 0 := fun none_there =>
        no_empty (List.eq_nil_of_length_eq_zero none_there ▸ listed)
      have whole := strips.length affix string shorter stripped
      simp only [Option.getD_some]
      omega
    next => cases on

theorem Consumed.settles {string : JavaString} (consumed : Consumed strip affixes string) :
    ∃ outcome, Settles (fun rounds => removeAll strip rounds (some string) affixes) outcome := by
  induction consumed with
  | nil => exact ⟨some [], loop_settles_left rfl⟩
  | @more string affix shorter listed nonempty stripped rest ih =>
    obtain ⟨outcome, settles⟩ := ih
    by_cases some_left : string = []
    · subst some_left
      exact ⟨some [], loop_settles_left rfl⟩
    · exact ⟨outcome, loop_settles_next
        (removeTurn_more some_left (findSome?_of_find? listed stripped)) settles⟩

/-- With an empty affix every turn finds one, and only the empty one is left in the end. -/
theorem removeAll_endless (strips : Strips strip) (empty : [] ∈ affixes) {string : JavaString}
    (remains : ¬ Consumed strip affixes string) (rounds : Nat) :
    removeAll strip rounds (some string) affixes = none := by
  refine @loop_endless _ _ _ _
    (fun state => ∃ string, state = some string ∧ ¬ Consumed strip affixes string) ?_
    ⟨string, rfl, remains⟩ rounds
  rintro - ⟨string, rfl, remains⟩
  have some_left : string ≠ [] := by
    rintro rfl
    exact remains .nil
  have found : (affixes.find? fun affix => (strip affix string).isSome).isSome = true :=
    List.find?_isSome.mpr ⟨[], empty, by rw [strips.nothing]; rfl⟩
  obtain ⟨affix, listed⟩ := Option.isSome_iff_exists.mp found
  obtain ⟨shorter, stripped⟩ := Option.isSome_iff_exists.mp
    (List.find?_eq_some_iff_append.mp listed).1
  refine ⟨some shorter, removeTurn_more some_left (findSome?_of_find? listed stripped), shorter,
    rfl, fun consumed => ?_⟩
  by_cases nonempty : affix = []
  · -- The turn leaves the string as it is.
    subst nonempty
    cases (strips.nothing string).symm.trans stripped
    exact remains consumed
  · exact remains (.more listed nonempty stripped consumed)

theorem removeAll_returns_iff (strips : Strips strip) (string : Option JavaString)
    (affixes : List JavaString) :
    Returns (fun rounds => removeAll strip rounds string affixes) ↔
      [] ∉ affixes ∨ ∀ text ∈ string, Consumed strip affixes text := by
  by_cases no_empty : [] ∉ affixes
  · refine iff_of_true ?_ (Or.inl no_empty)
    exact @exists_loop_settles _ _ _ _ (fun _ => True) (fun string => (string.getD []).length)
      (fun _ _ _ on => ⟨trivial, removeTurn_shorter strips no_empty on⟩) trivial
  have empty : [] ∈ affixes := not_not.mp no_empty
  cases string with
  | none => exact iff_of_true ⟨none, loop_settles_left rfl⟩ (Or.inr fun _ => nofun)
  | some text =>
    by_cases consumed : Consumed strip affixes text
    · exact iff_of_true consumed.settles (Or.inr fun _ same => Option.some.inj same ▸ consumed)
    · refine iff_of_false (not_returns (removeAll_endless strips empty consumed)) ?_
      rintro (none_empty | all)
      · exact none_empty empty
      · exact consumed (all text rfl)

theorem removeTurn_left {string outcome : Option JavaString}
    (left : removeTurn strip affixes string = .inr outcome) :
    outcome = string ∧ removeFrom strip string affixes = string := by
  cases string with
  | none =>
    cases left
    exact ⟨rfl, rfl⟩
  | some string =>
    simp only [removeTurn] at left
    split_ifs at left with empty
    · cases left
      exact ⟨rfl, by simp only [removeFrom, if_pos empty]⟩
    · split at left
      next => cases left
      next none_there =>
        cases left
        refine ⟨rfl, ?_⟩
        simp only [removeFrom, if_neg empty, none_there, Option.getD_none]

/-- All affixes are gone: `removeFromStart` or `removeFromEnd` takes no more off what comes out. -/
theorem removeFrom_fixed (rounds : Nat) {string outcome : Option JavaString}
    (returned : removeAll strip rounds string affixes = some outcome) :
    removeFrom strip outcome affixes = outcome := by
  induction rounds generalizing string with
  | zero => cases returned
  | succ rounds ih =>
    rw [removeAll, loop] at returned
    cases turn : removeTurn strip affixes string with
    | inl next =>
      rw [turn] at returned
      exact ih returned
    | inr here =>
      rw [turn] at returned
      cases returned
      obtain ⟨rfl, fixed⟩ := removeTurn_left turn
      exact fixed

end Strip

section Pad

theorem makePaddedString_returns_iff (base : Option JavaString) (len : Int)
    (left_pad right_pad : Option JavaString) :
    Returns (fun rounds => makePaddedString rounds base len left_pad right_pad) ↔
      len ≤ (base.getD []).length ∨ shown left_pad ++ shown right_pad ≠ [] := by
  by_cases enough : len ≤ (base.getD []).length
  · have left : padTurn len left_pad right_pad (base.getD []) = .inr (base.getD []) := by
      simp only [padTurn, if_neg (Int.not_lt.mpr enough)]
    exact iff_of_true ⟨_, loop_settles_left left⟩ (Or.inl enough)
  by_cases padding : shown left_pad ++ shown right_pad = []
  · -- Two empty paddings: the string stays as short as it is.
    refine iff_of_false (not_returns fun rounds => ?_) (by simp [enough, padding])
    refine @loop_endless _ _ _ _ (fun s => (s.length : Int) < len) ?_ (Int.not_le.mp enough) rounds
    intro s short
    obtain ⟨left, right⟩ := List.append_eq_nil_iff.mp padding
    exact ⟨s, by simp [padTurn, short, left, right], short⟩
  · refine iff_of_true ?_ (Or.inr padding)
    refine @exists_loop_settles _ _ _ _ (fun _ => True) (fun s => (len - s.length).toNat) ?_ trivial
    intro s next _ on
    obtain ⟨short, same⟩ : (s.length : Int) < len ∧
        shown left_pad ++ s ++ shown right_pad = next := by
      rw [padTurn] at on
      split_ifs at on with short
      exact ⟨short, Sum.inl.inj on⟩
    have longer : s.length < next.length := by
      have more : 0 < (shown left_pad ++ shown right_pad).length := List.length_pos_iff.mpr padding
      simp only [← same, List.length_append] at more ⊢
      omega
    exact ⟨trivial, by omega⟩

end Pad

/-- Which arguments the helpers come to an end for, and what `replaceAll` makes of a source. -/
theorem helpers_return_iff (source string base left_pad right_pad : Option JavaString)
    (pattern replacement : JavaString) (prefixes suffixes : List JavaString) (len : Int) :
    (Returns (fun rounds => replaceAll rounds source pattern replacement) ↔
      source.getD [] = [] ∨ pattern ≠ []) ∧
    (Returns (fun rounds => removeAllFromStart rounds string prefixes) ↔
      [] ∉ prefixes ∨ ∀ text ∈ string, Consumed stripStart prefixes text) ∧
    (Returns (fun rounds => removeAllFromEnd rounds string suffixes) ↔
      [] ∉ suffixes ∨ ∀ text ∈ string, Consumed stripEnd suffixes text) ∧
    (Returns (fun rounds => makePaddedString rounds base len left_pad right_pad) ↔
      len ≤ (base.getD []).length ∨ shown left_pad ++ shown right_pad ≠ []) ∧
    (pattern ≠ [] → ∀ text result,
      (Settles (fun rounds => replaceAll rounds (some text) pattern replacement) (some result) ↔
        Replaced pattern replacement text result)) :=
  ⟨replaceAll_returns_iff source pattern replacement,
    removeAll_returns_iff strips_start string prefixes,
    removeAll_returns_iff strips_end string suffixes,
    makePaddedString_returns_iff base len left_pad right_pad,
    fun nonempty text result => replaceAll_settles_iff nonempty text replacement result⟩

theorem one_char_replaced :
    Settles (fun rounds => replaceAll rounds (some (JavaString.ofChars ['x']))
      (JavaString.ofChars ['x']) (JavaString.ofChars ['y', 'x']))
        (some (JavaString.ofChars ['y', 'x'])) := by
  have replaced : Replaced (JavaString.ofChars ['x']) (JavaString.ofChars ['y', 'x'])
      (JavaString.ofChars ['x'] ++ []) (JavaString.ofChars ['y', 'x'] ++ []) :=
    .front [] (.absent fun k found => by simp [JavaString.ofChars] at found)
  exact ((helpers_return_iff none none none none none (JavaString.ofChars ['x'])
    (JavaString.ofChars ['y', 'x']) [] [] 0).2.2.2.2 (by simp [JavaString.ofChars]) _ _).mpr
      replaced

/-- An empty pattern is found at the start again and again. -/
theorem empty_pattern_endless :
    ¬ Returns (fun rounds => replaceAll rounds (some (JavaString.ofChars ['a'])) []
      (JavaString.ofChars ['x'])) := by
  rw [replaceAll_returns_iff]
  simp [JavaString.ofChars]

end Brooklyn.Strings
