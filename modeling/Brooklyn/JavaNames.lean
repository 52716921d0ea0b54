import Brooklyn.StringCoercions
import Mathlib.Data.List.Chain

/-!
`Strings.makeValidJavaName` and `makeValidUniqueJavaName`. The names that are put together are
identifiers, but a hash code behind one may have a minus sign, which is no part of an identifier.
-/

namespace Brooklyn.Strings

def unit (c : Char) : UInt16 := UInt16.ofNat c.toNat

/-- What these functions rely on `java.lang.Character` for. -/
structure JavaCharacter where
  isJavaIdentifierStart : UInt16 → Bool
  isJavaIdentifierPart : UInt16 → Bool
  part_of_start : ∀ c, isJavaIdentifierStart c = true → isJavaIdentifierPart c = true
  letter : ∀ c : Char, c.isAlpha = true → isJavaIdentifierStart (unit c) = true
  underscore : isJavaIdentifierStart (unit '_') = true
  digit : ∀ c : Char, c.isDigit = true → isJavaIdentifierPart (unit c) = true
  minus : isJavaIdentifierPart (unit '-') = false
  apostrophe : isJavaIdentifierPart (unit '\'') = false
  space : isJavaIdentifierPart (unit ' ') = false

/-- `String.hashCode`, which wraps around. -/
def hashCode (s : JavaString) : Int32 := s.foldl (fun h c => 31 * h + Int32.ofNat c.toNat) 0

def shownInt (n : Int32) : JavaString := JavaString.ofChars (Boxed.intText n.toInt)

section Names
variable (character : JavaCharacter)

structure ValidName where
  sb : JavaString
  lastWas_ : Bool

def validTurn (state : ValidName) (c : UInt16) : ValidName :=
  if state.sb.length = 0 then
    if character.isJavaIdentifierStart c then ⟨state.sb ++ [c], state.lastWas_⟩
    else if character.isJavaIdentifierPart c then ⟨state.sb ++ [unit '_'] ++ [c], state.lastWas_⟩
    else ⟨state.sb ++ [unit '_'], true⟩
  else if character.isJavaIdentifierPart c then ⟨state.sb ++ [c], false⟩
  else if c = unit '\'' then state
  else ⟨if !state.lastWas_ then state.sb ++ [unit '_'] else state.sb, true⟩

def makeValidJavaName : Option JavaString → JavaString
  | none => JavaString.ofChars "__null".toList
  | some s =>
      if s.length = 0 then [unit '_']
      else
        let sb := (s.foldl (validTurn character) ⟨[], false⟩).sb
        if sb = [unit '_'] then JavaString.ofChars "__hash".toList ++ shownInt (hashCode s) else sb

structure UniqueName where
  sb : JavaString
  lastWas_ : Bool
  needsHashCode : Bool

def uniqueTurn (state : UniqueName) (c : UInt16) : UniqueName :=
  if state.sb.length = 0 then
    if character.isJavaIdentifierStart c then { state with sb := state.sb ++ [c] }
    else if character.isJavaIdentifierPart c then
      { state with needsHashCode := true, sb := state.sb ++ [unit '_'] ++ [c] }
    else { needsHashCode := true, sb := state.sb ++ [unit '_'], lastWas_ := true }
  else if character.isJavaIdentifierPart c then
    { state with sb := state.sb ++ [c], lastWas_ := false }
  else if c = unit '\'' then { state with needsHashCode := true }
  else if !state.lastWas_ then
    { needsHashCode := if c ≠ unit ' ' then true else state.needsHashCode
      sb := state.sb ++ [unit '_']
      lastWas_ := true }
  else { state with needsHashCode := true }

def makeValidUniqueJavaName : Option JavaString → JavaString
  | none => JavaString.ofChars "__null".toList
  | some s =>
      if s.length = 0 then JavaString.ofChars "__empty".toList
      else
        let name := s.foldl (uniqueTurn character) ⟨[], false, false⟩
        name.sb ++ if name.needsHashCode then unit '_' :: shownInt (hashCode s) else []

/-- A character that an identifier may start with, then characters that it may have. -/
def IsIdentifier (name : JavaString) : Prop :=
  ∃ first rest, name = first :: rest ∧ character.isJavaIdentifierStart first = true ∧
    ∀ c ∈ rest, character.isJavaIdentifierPart c = true

/-- No character is kept: none is a part, or only apostrophes follow an underscore. -/
def Lost (s : JavaString) : Prop :=
  (∀ c ∈ s, character.isJavaIdentifierPart c = false) ∨
    ∃ rest, s = unit '_' :: rest ∧ ∀ c ∈ rest, c = unit '\''

/-- Needs no hash code: all characters are kept but single spaces. -/
def Simple (s : JavaString) : Prop :=
  ∃ first rest, s = first :: rest ∧ character.isJavaIdentifierStart first = true ∧
    (∀ c ∈ rest, character.isJavaIdentifierPart c = true ∨ c = unit ' ') ∧
    rest.IsChain fun c next => ¬ (c = unit ' ' ∧ next = unit ' ')

end Names

section Identifiers

variable {character : JavaCharacter} {name : JavaString}

theorem isIdentifier_append (identifier : IsIdentifier character name) {behind : JavaString} :
    IsIdentifier character (name ++ behind) ↔
      ∀ c ∈ behind, character.isJavaIdentifierPart c = true := by
  obtain ⟨first, rest, rfl, start, parts⟩ := identifier
  constructor
  · rintro ⟨_, _, same, -, all⟩ c member
    obtain ⟨-, rfl⟩ := List.cons.inj same
    exact all c (List.mem_append_right rest member)
  · intro all
    exact ⟨first, rest ++ behind, rfl, start, List.forall_mem_append.mpr ⟨parts, all⟩⟩

theorem isIdentifier_snoc (identifier : IsIdentifier character name) {c : UInt16}
    (part : character.isJavaIdentifierPart c = true) : IsIdentifier character (name ++ [c]) :=
  (isIdentifier_append identifier).mpr (List.forall_mem_singleton.mpr part)

theorem isIdentifier_start {c : UInt16} (start : character.isJavaIdentifierStart c = true) :
    IsIdentifier character [c] := ⟨c, [], rfl, start, List.forall_mem_nil _⟩

theorem underscore_part : character.isJavaIdentifierPart (unit '_') = true :=
  character.part_of_start _ character.underscore

/-- The names that are there for a string without any characters. -/
theorem isIdentifier_word (word : List Char) (letters : word.all Char.isAlpha = true) :
    IsIdentifier character (JavaString.ofChars ('_' :: '_' :: word)) := by
  refine ⟨unit '_', unit '_' :: JavaString.ofChars word, rfl, character.underscore,
    List.forall_mem_cons.mpr ⟨underscore_part, fun c member => ?_⟩⟩
  obtain ⟨letter, among, rfl⟩ := List.mem_map.mp member
  exact character.part_of_start _ (character.letter letter
    (List.all_eq_true.mp letters letter among))

/-- A minus sign is no part of an identifier. -/
theorem shownInt_parts (n : Int32) :
    (∀ c ∈ shownInt n, character.isJavaIdentifierPart c = true) ↔ 0 ≤ n := by
  by_cases negative : n.toInt < 0
  · refine iff_of_false (fun parts => ?_) (fun nonneg => ?_)
    · have minus : unit '-' ∈ shownInt n := by
        rw [shownInt, Boxed.intText, if_pos negative]
        exact List.mem_cons_self
      exact absurd (parts _ minus) (by rw [character.minus]; decide)
    · exact absurd (Int32.le_iff_toInt_le.mp nonneg) (Int.not_le.mpr negative)
  · refine iff_of_true (fun c member => ?_) ?_
    · rw [shownInt, Boxed.intText, if_neg negative] at member
      obtain ⟨digit, among, rfl⟩ := List.mem_map.mp member
      exact character.digit digit (isDigit_toDigits digit among)
    · exact Int32.le_iff_toInt_le.mpr (Int.not_lt.mp negative)

end Identifiers

section Valid

variable {character : JavaCharacter}

theorem validTurn_first (c : UInt16) :
    validTurn character ⟨[], false⟩ c =
      if character.isJavaIdentifierStart c then ⟨[c], false⟩
      else if character.isJavaIdentifierPart c then ⟨[unit '_', c], false⟩
      else ⟨[unit '_'], true⟩ := by
  simp [validTurn]

theorem validTurn_identifier {state : ValidName} (identifier : IsIdentifier character state.sb)
    (c : UInt16) : IsIdentifier character (validTurn character state c).sb := by
  have begun : ¬ state.sb.length = 0 := by
    obtain ⟨first, rest, same, -⟩ := identifier
    simp [same]
  rw [validTurn, if_neg begun]
  split_ifs with part apostrophe last
  · exact isIdentifier_snoc identifier part
  · exact identifier
  · exact isIdentifier_snoc identifier underscore_part
  · exact identifier

theorem foldl_validTurn_identifier (rest : JavaString) :
    ∀ {state : ValidName}, IsIdentifier character state.sb →
      IsIdentifier character (rest.foldl (validTurn character) state).sb := by
  induction rest with
  | nil => exact id
  | cons c rest ih => exact fun identifier => ih (validTurn_identifier identifier c)

theorem valid_identifier (s : JavaString) (some_left : s ≠ []) :
    IsIdentifier character (s.foldl (validTurn character) ⟨[], false⟩).sb := by
  obtain ⟨c, rest, rfl⟩ := List.exists_cons_of_ne_nil some_left
  refine foldl_validTurn_identifier rest ?_
  rw [validTurn_first]
  split_ifs with start part
  · exact isIdentifier_start start
  · exact isIdentifier_snoc (isIdentifier_start character.underscore) part
  · exact isIdentifier_start character.underscore

theorem snoc_ne_singleton {sb : JavaString} (begun : sb ≠ []) (c only : UInt16) :
    sb ++ [c] ≠ [only] := by
  intro same
  have sizes := congrArg List.length same
  have more := List.length_pos_iff.mpr begun
  simp only [List.length_append, List.length_singleton] at sizes
  omega

/-- Once begun, a name stays an underscore only where no character adds to it. -/
theorem foldl_validTurn_underscore (rest : JavaString) :
    ∀ {state : ValidName}, state.sb ≠ [] →
      ((rest.foldl (validTurn character) state).sb = [unit '_'] ↔
        state.sb = [unit '_'] ∧ ∀ c ∈ rest, character.isJavaIdentifierPart c = false ∧
          (c = unit '\'' ∨ state.lastWas_ = true)) := by
  induction rest with
  | nil => exact fun _ => ⟨fun same => ⟨same, List.forall_mem_nil _⟩, And.left⟩
  | cons c rest ih =>
    intro state begun
    have added (c : UInt16) := snoc_ne_singleton begun c (unit '_')
    rw [List.foldl_cons, validTurn, if_neg (mt List.eq_nil_of_length_eq_zero begun)]
    split_ifs with part apostrophe fresh
    · rw [ih (List.append_ne_nil_of_left_ne_nil begun _)]
      exact iff_of_false (fun same => added c same.1) fun ⟨_, all⟩ =>
        absurd part (by rw [(all c List.mem_cons_self).1]; decide)
    · -- An apostrophe is skipped.
      rw [ih begun, List.forall_mem_cons]
      simp [apostrophe, character.apostrophe]
    · rw [ih (List.append_ne_nil_of_left_ne_nil begun _)]
      refine iff_of_false (fun same => added _ same.1) fun ⟨_, all⟩ => ?_
      rcases (all c List.mem_cons_self).2 with same | last
      · exact apostrophe same
      · simp [last] at fresh
    · -- Another underscore is not written.
      have last : state.lastWas_ = true := by simpa using fresh
      have no_part := Bool.eq_false_iff.mpr part
      have rest_iff := @ih ⟨state.sb, true⟩ begun
      rw [rest_iff, List.forall_mem_cons]
      simp [no_part, last]

theorem valid_underscore_iff (s : JavaString) (some_left : s ≠ []) :
    (s.foldl (validTurn character) ⟨[], false⟩).sb = [unit '_'] ↔ Lost character s := by
  obtain ⟨c, rest, rfl⟩ := List.exists_cons_of_ne_nil some_left
  rw [List.foldl_cons, validTurn_first]
  split_ifs with start part
  · have part := character.part_of_start c start
    rw [foldl_validTurn_underscore rest (List.cons_ne_nil _ _)]
    constructor
    · rintro ⟨same, all⟩
      obtain rfl : c = unit '_' := List.singleton_inj.mp same
      exact Or.inr ⟨rest, rfl, fun d member => ((all d member).2).resolve_right nofun⟩
    · rintro (none_part | ⟨others, same, all⟩)
      · exact absurd part (by rw [none_part c List.mem_cons_self]; decide)
      · obtain ⟨rfl, rfl⟩ := List.cons.inj same
        exact ⟨rfl, fun d member => ⟨all d member ▸ character.apostrophe, Or.inl (all d member)⟩⟩
  · rw [foldl_validTurn_underscore rest (List.cons_ne_nil _ _)]
    refine iff_of_false (fun both => by simpa using both.1) ?_
    rintro (none_part | ⟨others, same, all⟩)
    · exact absurd part (by rw [none_part c List.mem_cons_self]; decide)
    · exact start ((List.cons.inj same).1 ▸ character.underscore)
  · rw [foldl_validTurn_underscore rest (List.cons_ne_nil _ _)]
    have no_part := Bool.eq_false_iff.mpr part
    constructor
    · rintro ⟨-, all⟩
      exact Or.inl (List.forall_mem_cons.mpr ⟨no_part, fun d member => (all d member).1⟩)
    · rintro (none_part | ⟨others, same, all⟩)
      · exact ⟨rfl, fun d member => ⟨none_part d (List.mem_cons_of_mem _ member), Or.inr rfl⟩⟩
      · exact absurd ((List.cons.inj same).1 ▸ character.underscore) start

theorem makeValidJavaName_iff (s : JavaString) :
    IsIdentifier character (makeValidJavaName character (some s)) ↔
      (Lost character s → 0 ≤ hashCode s) := by
  by_cases empty : s = []
  · subst empty
    exact iff_of_true (isIdentifier_start character.underscore) fun _ => by decide
  have some_left : ¬ s.length = 0 := mt List.eq_nil_of_length_eq_zero empty
  have hash : IsIdentifier character (JavaString.ofChars "__hash".toList) :=
    isIdentifier_word "hash".toList (by decide)
  have underscore := @valid_underscore_iff character s empty
  simp only [makeValidJavaName, if_neg some_left]
  split_ifs with only
  · rw [isIdentifier_append hash, shownInt_parts]
    exact ⟨fun nonneg _ => nonneg, fun all => all (underscore.mp only)⟩
  · exact iff_of_true (valid_identifier s empty) fun lost => absurd (underscore.mpr lost) only

end Valid

section Unique

variable {character : JavaCharacter}

def UniqueName.valid (name : UniqueName) : ValidName := ⟨name.sb, name.lastWas_⟩

/-- Both functions translate alike. -/
theorem uniqueTurn_valid (state : UniqueName) (c : UInt16) :
    (uniqueTurn character state c).valid = validTurn character state.valid c := by
  simp only [uniqueTurn, validTurn, UniqueName.valid]
  split_ifs <;> simp_all

theorem foldl_uniqueTurn_valid (s : JavaString) :
    ∀ state : UniqueName, (s.foldl (uniqueTurn character) state).valid =
      s.foldl (validTurn character) state.valid := by
  induction s with
  | nil => exact fun _ => rfl
  | cons c s ih =>
    intro state
    rw [List.foldl_cons, List.foldl_cons, ih, uniqueTurn_valid]

theorem needsHashCode_stays (rest : JavaString) :
    ∀ {state : UniqueName}, state.needsHashCode = true →
      (rest.foldl (uniqueTurn character) state).needsHashCode = true := by
  induction rest with
  | nil => exact id
  | cons c rest ih =>
    intro state needs
    refine ih ?_
    rw [uniqueTurn]
    split_ifs <;> simp [needs]

/-- What needs no hash code once a name has begun. -/
theorem foldl_uniqueTurn_simple (rest : JavaString) :
    ∀ {state : UniqueName}, state.sb ≠ [] →
      ((rest.foldl (uniqueTurn character) state).needsHashCode = false ↔
        state.needsHashCode = false ∧
        (∀ c ∈ rest, character.isJavaIdentifierPart c = true ∨ c = unit ' ') ∧
        (rest.IsChain fun c next => ¬ (c = unit ' ' ∧ next = unit ' ')) ∧
        (state.lastWas_ = true → ∀ c ∈ rest.head?, c ≠ unit ' ')) := by
  induction rest with
  | nil => simp
  | cons c rest ih =>
    intro state begun
    have needed {state : UniqueName} (needs : state.needsHashCode = true) :
        ¬ (rest.foldl (uniqueTurn character) state).needsHashCode = false := by
      rw [needsHashCode_stays rest needs]
      decide
    have longer (c : UInt16) : state.sb ++ [c] ≠ [] := List.append_ne_nil_of_left_ne_nil begun _
    rw [List.foldl_cons, uniqueTurn, if_neg (mt List.eq_nil_of_length_eq_zero begun)]
    simp only [List.forall_mem_cons, List.isChain_cons, List.head?_cons, Option.mem_some_iff,
      forall_eq']
    split_ifs with part apostrophe fresh foreign
    · have no_space : c ≠ unit ' ' := by
        rintro rfl
        exact absurd part (by rw [character.space]; decide)
      rw [ih (longer c)]
      simp [part, no_space]
    · refine iff_of_false (needed rfl) ?_
      rintro ⟨-, ⟨kept | space, -⟩, -⟩
      · exact part kept
      · exact absurd (apostrophe.symm.trans space) (by decide)
    · refine iff_of_false (needed rfl) ?_
      rintro ⟨-, ⟨kept | space, -⟩, -⟩
      · exact part kept
      · exact foreign space
    · -- A single space becomes an underscore and needs no hash code.
      have space : c = unit ' ' := not_not.mp foreign
      have last : state.lastWas_ = false := by simpa using fresh
      have rest_iff := @ih ⟨state.sb ++ [unit '_'], true, state.needsHashCode⟩ (longer _)
      rw [rest_iff]
      simp only [space, last, or_true, true_and, forall_const, Bool.false_eq_true, false_implies,
        and_true, ne_eq]
      tauto
    · -- Anything that follows an underscore and is no part needs one.
      refine iff_of_false (needed rfl) ?_
      have last : state.lastWas_ = true := by simpa using fresh
      rintro ⟨-, ⟨kept | space, -⟩, -, no_space⟩
      · exact part kept
      · exact no_space last space

theorem uniqueTurn_first (c : UInt16) :
    uniqueTurn character ⟨[], false, false⟩ c =
      if character.isJavaIdentifierStart c then ⟨[c], false, false⟩
      else if character.isJavaIdentifierPart c then ⟨[unit '_', c], false, true⟩
      else ⟨[unit '_'], true, true⟩ := by
  simp [uniqueTurn]

theorem unique_simple_iff (s : JavaString) (some_left : s ≠ []) :
    (s.foldl (uniqueTurn character) ⟨[], false, false⟩).needsHashCode = false ↔
      Simple character s := by
  obtain ⟨c, rest, rfl⟩ := List.exists_cons_of_ne_nil some_left
  rw [List.foldl_cons, uniqueTurn_first]
  split_ifs with start part
  · rw [foldl_uniqueTurn_simple rest (List.cons_ne_nil _ _)]
    constructor
    · rintro ⟨-, all, spaced, -⟩
      exact ⟨c, rest, rfl, start, all, spaced⟩
    · rintro ⟨_, _, same, -, all, spaced⟩
      obtain ⟨rfl, rfl⟩ := List.cons.inj same
      exact ⟨rfl, all, spaced, nofun⟩
  all_goals
    refine iff_of_false (by rw [needsHashCode_stays rest rfl]; decide) ?_
    rintro ⟨_, _, same, first, -⟩
    exact start ((List.cons.inj same).1 ▸ first)

theorem makeValidUniqueJavaName_iff (s : JavaString) :
    IsIdentifier character (makeValidUniqueJavaName character (some s)) ↔
      Simple character s ∨ 0 ≤ hashCode s := by
  by_cases empty : s = []
  · subst empty
    exact iff_of_true (isIdentifier_word "empty".toList (by decide)) (Or.inr (by decide))
  have some_left : ¬ s.length = 0 := mt List.eq_nil_of_length_eq_zero empty
  have identifier : IsIdentifier character
      (s.foldl (uniqueTurn character) ⟨[], false, false⟩).sb := by
    have translated : (s.foldl (uniqueTurn character) ⟨[], false, false⟩).sb =
        (s.foldl (validTurn character) ⟨[], false⟩).sb :=
      congrArg ValidName.sb (foldl_uniqueTurn_valid s ⟨[], false, false⟩)
    rw [translated]
    exact valid_identifier s empty
  have simple := @unique_simple_iff character s empty
  simp only [makeValidUniqueJavaName, if_neg some_left]
  rw [isIdentifier_append identifier]
  split_ifs with needs
  · have not_simple : ¬ Simple character s := fun now => by
      rw [simple.mpr now] at needs
      cases needs
    rw [List.forall_mem_cons, shownInt_parts]
    exact ⟨fun both => Or.inr both.2, fun either =>
      ⟨underscore_part, either.resolve_left not_simple⟩⟩
  · exact iff_of_true (List.forall_mem_nil _)
      (Or.inl (simple.mp (Bool.eq_false_iff.mpr needs)))

end Unique

/-- The names are identifiers where there is no hash code in them, or one without a minus sign. -/
theorem names_identifier_iff (character : JavaCharacter) (s : Option JavaString) :
    (IsIdentifier character (makeValidJavaName character s) ↔
      ∀ text ∈ s, Lost character text → 0 ≤ hashCode text) ∧
    (IsIdentifier character (makeValidUniqueJavaName character s) ↔
      ∀ text ∈ s, Simple character text ∨ 0 ≤ hashCode text) := by
  cases s with
  | none =>
    have null : IsIdentifier character (JavaString.ofChars "__null".toList) :=
      isIdentifier_word "null".toList (by decide)
    exact ⟨iff_of_true null fun _ => nofun, iff_of_true null fun _ => nofun⟩
  | some s =>
    refine ⟨(makeValidJavaName_iff s).trans ?_, (makeValidUniqueJavaName_iff s).trans ?_⟩
    all_goals exact ⟨fun holds text same => Option.some.inj same ▸ holds, fun all => all s rfl⟩

section Ascii

def isAsciiStart (c : UInt16) : Bool :=
  (65 ≤ c.toNat && c.toNat ≤ 90) || (97 ≤ c.toNat && c.toNat ≤ 122) || c.toNat == 95 ||
    c.toNat == 36

/-- Ignorable control characters are parts, too. -/
def isAsciiPart (c : UInt16) : Bool :=
  isAsciiStart c || (48 ≤ c.toNat && c.toNat ≤ 57) || c.toNat ≤ 8 ||
    (14 ≤ c.toNat && c.toNat ≤ 27) || c.toNat == 127

theorem toNat_unit {c : Char} (small : c.toNat < 65536) : (unit c).toNat = c.toNat :=
  UInt16.toNat_ofNat_of_lt small

/-- `java.lang.Character` on ASCII. -/
def asciiCharacter : JavaCharacter where
  isJavaIdentifierStart := isAsciiStart
  isJavaIdentifierPart := isAsciiPart
  part_of_start c start := by simp only [isAsciiPart, start, Bool.true_or]
  letter c letter := by
    have codes : 65 ≤ c.toNat ∧ c.toNat ≤ 90 ∨ 97 ≤ c.toNat ∧ c.toNat ≤ 122 := by
      change (decide (c.val ≥ 65 ∧ c.val ≤ 90) || (c.val ≥ 97 && c.val ≤ 122)) = true at letter
      simpa [UInt32.le_iff_toNat_le] using letter
    have same := @toNat_unit c (by omega)
    simp only [isAsciiStart, same, Bool.or_eq_true, Bool.and_eq_true, decide_eq_true_eq]
    exact Or.inl (Or.inl codes)
  underscore := rfl
  digit c digit := by
    have codes : 48 ≤ c.toNat ∧ c.toNat ≤ 57 := by
      simpa [Char.isDigit, UInt32.le_iff_toNat_le] using digit
    have same := @toNat_unit c (by omega)
    simp only [isAsciiPart, same, Bool.or_eq_true, Bool.and_eq_true, decide_eq_true_eq]
    exact Or.inl (Or.inl (Or.inl (Or.inr codes)))
  minus := rfl
  apostrophe := rfl
  space := rfl

/-- Six tildes: none is part of an identifier, and their hash code is negative. -/
theorem tildes_not_identifier :
    ¬ IsIdentifier asciiCharacter
      (makeValidJavaName asciiCharacter (some (JavaString.ofChars (List.replicate 6 '~')))) := by
  rw [makeValidJavaName_iff]
  intro valid
  refine absurd (valid (Or.inl fun c member => ?_)) (by decide)
  obtain ⟨tilde, among, rfl⟩ := List.mem_map.mp member
  obtain rfl := List.eq_of_mem_replicate among
  rfl

end Ascii

end Brooklyn.Strings
