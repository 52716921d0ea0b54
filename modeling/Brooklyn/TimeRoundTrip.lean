import Brooklyn.TimeStrings

/-!
What comes back of an elapsed time that was printed. The parser of doubles takes the letter of
the days for a suffix, so a time of a day or more comes back as a few milliseconds.
-/

namespace Brooklyn.TimeStrings
open ParsedDouble

section ParsedTerms

/-- A unit that the parser of doubles does not know. -/
structure ShownUnit (unit : List Char) (factor : Nat) : Prop where
  word : Visible unit
  lower : toLowerCase unit = unit
  stops : ∀ c ∈ unit.head?, (decide (c = '.') || c.isDigit) = false
  scaled : multiplier unit = some factor
  foreign : ∃ c ∈ unit, Foreign c

theorem foreign_s : Foreign 's' := ⟨by decide, by decide, by decide⟩

theorem foreign_m : Foreign 'm' := ⟨by decide, by decide, by decide⟩

theorem foreign_h : Foreign 'h' := ⟨by decide, by decide, by decide⟩

theorem shown_ms : ShownUnit ['m', 's'] 1 :=
  ⟨by simp [Visible], by decide, by simp, by decide, 's', by simp, foreign_s⟩

theorem shown_s : ShownUnit ['s'] 1000 :=
  ⟨by simp [Visible], by decide, by simp, by decide, 's', by simp, foreign_s⟩

theorem shown_m : ShownUnit ['m'] 60000 :=
  ⟨by simp [Visible], by decide, by simp, by decide, 'm', by simp, foreign_m⟩

theorem shown_h : ShownUnit ['h'] 3600000 :=
  ⟨by simp [Visible], by decide, by simp, by decide, 'h', by simp, foreign_h⟩

theorem numeral_decimal (n : Nat) : Numeral (decimal n) :=
  ⟨Nat.toDigits_ne_nil, fun c member => Or.inr (isDigit_toDigits c member)⟩

variable {num unit front : List Char} {factor : Nat} {value : ℚ}
  (numeral : Numeral num) (shown : ShownUnit unit factor)

include numeral shown

omit shown in
theorem term_more (unit : List Char) : num ++ unit ≠ [] :=
  List.append_ne_nil_of_left_ne_nil numeral.more _

omit numeral in
theorem term_foreign (num front : List Char) : parseDouble (front ++ (num ++ unit)) = none := by
  obtain ⟨c, member, foreign⟩ := shown.foreign
  exact parseDouble_foreign foreign
    (List.mem_append_right _ (List.mem_append_right _ member))

variable (read : parseDouble num = some (.finite value))
include read

theorem parse_single :
    parseTimeStringAsDouble (num ++ unit) = .ok (.finite (value * factor)) := by
  have word := numeral.word.append shown.word
  have refused := term_foreign shown num []
  have found : lastTerm ([] ++ (num ++ unit)) = _ :=
    lastTerm_attached (by simp) shown.scaled numeral
      fun c head => word c (List.mem_of_mem_head? head)
  exact parse_found refused shown.scaled numeral.more read found

theorem parse_after (before : Visible front) (more : front ≠ []) {earlier : ℚ}
    (parsed : parseTimeStringAsDouble front = .ok (.finite earlier)) (positive : 0 ≤ earlier) :
    parseTimeStringAsDouble (front ++ ' ' :: (num ++ unit)) =
      .ok (.finite (value * factor + earlier)) := by
  have refused := term_foreign shown num (front ++ [' '])
  have start : ∀ c ∈ (front ++ [' '] ++ (num ++ unit)).head?, ' ' < c := by
    intro c head
    rw [List.append_assoc, List.head?_append_of_ne_nil _ more] at head
    exact before c (List.mem_of_mem_head? head)
  have found := lastTerm_attached (by simp) shown.scaled numeral start
  rw [trim_word_space before] at found
  have no_word : ParsedDouble.finite earlier ≠ .finite (-1) := by
    rintro ⟨rfl⟩
    linarith
  have whole := parse_found refused shown.scaled numeral.more read found
  rw [if_neg more, parsed] at whole
  dsimp only at whole
  rw [if_neg no_word, List.append_assoc] at whole
  exact whole

end ParsedTerms

section Printed

theorem withoutLastSpace_space (before front : List Char) (c : Char) :
    withoutLastSpace (before ++ (front ++ [c, ' '])) = before ++ (front ++ [c]) := by
  rw [show before ++ (front ++ [c, ' ']) = before ++ (front ++ [c]) ++ [' '] by simp]
  simp only [withoutLastSpace, List.getLast?_concat, if_true, List.dropLast_concat]

theorem withoutLastSpace_unit {unit : List Char} {factor : Nat} (shown : ShownUnit unit factor)
    (before front : List Char) :
    withoutLastSpace (before ++ (front ++ unit)) = before ++ (front ++ unit) := by
  refine if_neg fun space => ?_
  obtain ⟨first, member, -⟩ := shown.foreign
  have some_unit : unit.getLast?.isSome :=
    List.getLast?_isSome.mpr (List.ne_nil_of_mem member)
  obtain ⟨last, ends⟩ := Option.isSome_iff_exists.mp some_unit
  rw [List.getLast?_append, List.getLast?_append, ends, Option.some_or, Option.some_or] at space
  cases space
  exact Char.lt_irrefl _ (shown.word ' ' (List.mem_of_getLast? ends))

section Units

variable {d dr h m mr s sr : Nat}

theorem units_days (days : 0 < d) :
    units d dr h m mr s sr =
      decimal d ++ ['d', ' '] ++ if h > 0 ∨ dr > 0 then decimal h ++ ['h', ' '] else [] := by
  simp [units, days, days.ne']

theorem units_hours (hours : 0 < h) :
    units 0 dr h m mr s sr =
      decimal h ++ ['h', ' '] ++ if m > 0 ∨ mr > 0 then decimal m ++ ['m', ' '] else [] := by
  simp [units, hours]

theorem units_minutes (minutes : 0 < m) :
    units 0 dr 0 m mr s sr =
      decimal m ++ ['m', ' '] ++ if mr > 0 then decimal s ++ ['s'] else [] := by
  simp [units, minutes]

theorem units_seconds (seconds : 30 ≤ s) : units 0 dr 0 0 mr s sr = decimal s ++ ['s'] := by
  simp [units, seconds]

theorem units_tens (tens : 10 ≤ s) (few : s < 30) :
    units 0 dr 0 0 mr s sr =
      if sr > 0 then decimal ((s * 10 + sr / 100) / 10) ++ '.' :: (decimal (s % 10) ++ ['s'])
      else decimal s ++ ['s'] := by
  simp [units, tens, few]

theorem units_small (small : s < 10) :
    units 0 dr 0 0 mr s sr =
      (if s > 0 then decimal s ++ ['s', ' '] else []) ++
        if sr > 0 then decimal sr ++ ['m', 's'] else if s = 0 then ['0', 'm', 's'] else [] := by
  have few : ¬ s ≥ 30 := by omega
  have fewer : ¬ s ≥ 10 := by omega
  simp [units, few, fewer, Nat.one_le_iff_ne_zero, Nat.pos_iff_ne_zero]

end Units

theorem elapsed_eq (t : Nat) :
    elapsed t = withoutLastSpace (units (t / 86400000) (t % 86400000) (t % 86400000 / 3600000)
      (t % 3600000 / 60000) (t % 60000) (t % 60000 / 1000) (t % 1000)) := by
  have hours : t % 86400000 % 3600000 = t % 3600000 := Nat.mod_mod_of_dvd _ (by decide)
  have minutes : t % 3600000 % 60000 = t % 60000 := Nat.mod_mod_of_dvd _ (by decide)
  have seconds : t % 60000 % 1000 = t % 1000 := Nat.mod_mod_of_dvd _ (by decide)
  simp only [elapsed, millisInDay, millisInHour, millisInMinute, millisInSecond, Nat.reduceMul,
    hours, minutes, seconds]

/-- A first unit, and a second one where there is something left. -/
def oneOrTwo (first second : List Char) (more : Prop) [Decidable more] : List Char :=
  if more then first ++ ' ' :: second else first

theorem withoutLastSpace_two {front back kept : List Char} (c : Char) (more : Prop)
    [Decidable more]
    (ends : ∀ before, withoutLastSpace (before ++ back) = before ++ kept) :
    withoutLastSpace (front ++ [c, ' '] ++ if more then back else []) =
      oneOrTwo (front ++ [c]) kept more := by
  unfold oneOrTwo
  split
  next =>
    rw [ends]
    simp
  next =>
    rw [List.append_nil]
    exact withoutLastSpace_space [] front c

variable {t : Nat}

theorem elapsed_days (days : 86400000 ≤ t) :
    elapsed t = oneOrTwo (decimal (t / 86400000) ++ ['d'])
      (decimal (t % 86400000 / 3600000) ++ ['h']) (t % 86400000 > 0) := by
  have some_part : (t % 86400000 / 3600000 > 0 ∨ t % 86400000 > 0) = (t % 86400000 > 0) := by
    rw [eq_iff_iff]; omega
  rw [elapsed_eq, units_days (by omega)]
  simp only [some_part]
  exact withoutLastSpace_two _ _ fun before => withoutLastSpace_space before _ _

theorem elapsed_hours (hours : 3600000 ≤ t) (below : t < 86400000) :
    elapsed t = oneOrTwo (decimal (t / 3600000) ++ ['h'])
      (decimal (t % 3600000 / 60000) ++ ['m']) (t % 3600000 > 0) := by
  have no_days : t / 86400000 = 0 := by omega
  have all : t % 86400000 = t := by omega
  have some_part : (t % 3600000 / 60000 > 0 ∨ t % 60000 > 0) = (t % 3600000 > 0) := by
    rw [eq_iff_iff]; omega
  rw [elapsed_eq, no_days, all, units_hours (by omega)]
  simp only [some_part]
  exact withoutLastSpace_two _ _ fun before => withoutLastSpace_space before _ _

theorem elapsed_minutes (minutes : 60000 ≤ t) (below : t < 3600000) :
    elapsed t = oneOrTwo (decimal (t / 60000) ++ ['m'])
      (decimal (t % 60000 / 1000) ++ ['s']) (t % 60000 > 0) := by
  have no_days : t / 86400000 = 0 := by omega
  have no_hours : t % 86400000 / 3600000 = 0 := by omega
  have all : t % 3600000 = t := by omega
  rw [elapsed_eq, no_days, no_hours, all, units_minutes (by omega)]
  exact withoutLastSpace_two _ _ fun before => withoutLastSpace_unit shown_s before _

theorem elapsed_seconds (seconds : 30000 ≤ t) (below : t < 60000) :
    elapsed t = decimal (t / 1000) ++ ['s'] := by
  have no_days : t / 86400000 = 0 := by omega
  have no_hours : t % 86400000 / 3600000 = 0 := by omega
  have no_minutes : t % 3600000 / 60000 = 0 := by omega
  have all : t % 60000 = t := by omega
  rw [elapsed_eq, no_days, no_hours, no_minutes, all, units_seconds (by omega)]
  exact withoutLastSpace_unit shown_s [] _

/-- The decimal that is shown is the last digit of the seconds. -/
theorem elapsed_tens (tens : 10000 ≤ t) (below : t < 30000) :
    elapsed t =
      if t % 1000 > 0 then decimal (t / 1000) ++ '.' :: decimal (t / 1000 % 10) ++ ['s']
      else decimal (t / 1000) ++ ['s'] := by
  have no_days : t / 86400000 = 0 := by omega
  have no_hours : t % 86400000 / 3600000 = 0 := by omega
  have no_minutes : t % 3600000 / 60000 = 0 := by omega
  have all : t % 60000 = t := by omega
  have rounded : (t / 1000 * 10 + t % 1000 / 100) / 10 = t / 1000 := by omega
  rw [elapsed_eq, no_days, no_hours, no_minutes, all, units_tens (by omega) (by omega), rounded]
  split
  next =>
    have shown := withoutLastSpace_unit shown_s (decimal (t / 1000))
      ('.' :: decimal (t / 1000 % 10))
    simpa using shown
  next => exact withoutLastSpace_unit shown_s [] _

theorem elapsed_millis (positive : 0 < t) (below : t < 1000) :
    elapsed t = decimal t ++ ['m', 's'] := by
  have no_days : t / 86400000 = 0 := by omega
  have no_hours : t % 86400000 / 3600000 = 0 := by omega
  have no_minutes : t % 3600000 / 60000 = 0 := by omega
  have all : t % 60000 = t := by omega
  have no_seconds : t / 1000 = 0 := by omega
  have rest : t % 1000 = t := by omega
  rw [elapsed_eq, no_days, no_hours, no_minutes, all, no_seconds, rest, units_small (by omega),
    if_neg (by decide), if_pos positive]
  exact withoutLastSpace_unit shown_ms [] _

theorem elapsed_small (seconds : 1000 ≤ t) (below : t < 10000) :
    elapsed t = oneOrTwo (decimal (t / 1000) ++ ['s']) (decimal (t % 1000) ++ ['m', 's'])
      (t % 1000 > 0) := by
  have no_days : t / 86400000 = 0 := by omega
  have no_hours : t % 86400000 / 3600000 = 0 := by omega
  have no_minutes : t % 3600000 / 60000 = 0 := by omega
  have all : t % 60000 = t := by omega
  have some_seconds : t / 1000 > 0 := by omega
  rw [elapsed_eq, no_days, no_hours, no_minutes, all, units_small (by omega), if_pos some_seconds,
    if_neg some_seconds.ne']
  exact withoutLastSpace_two _ _ fun before => withoutLastSpace_unit shown_ms before _

end Printed

section ReadBack

theorem parse_first (n : Nat) {unit : List Char} {factor : Nat} (shown : ShownUnit unit factor) :
    parseTimeStringAsDouble (decimal n ++ unit) = .ok (.finite (n * factor : Nat)) := by
  have read := parseDouble_numeral n (Or.inl rfl)
  rw [List.append_nil] at read
  rw [parse_single (numeral_decimal n) shown read, Nat.cast_mul]

/-- The parser of doubles reads the days. -/
theorem parse_days (n : Nat) :
    parseTimeStringAsDouble (decimal n ++ ['d']) = .ok (.finite n) := by
  rw [parseTimeStringAsDouble, parseDouble_numeral n (Or.inr rfl)]

theorem parse_oneOrTwo (n k : Nat) {unit other : List Char} (word : Visible unit)
    {earlier factor : Nat}
    (parsed : parseTimeStringAsDouble (decimal n ++ unit) = .ok (.finite earlier))
    (shown : ShownUnit other factor) (more : Prop) [Decidable more] :
    parseTimeStringAsDouble (oneOrTwo (decimal n ++ unit) (decimal k ++ other) more) =
      .ok (.finite (earlier + (if more then k * factor else 0) : Nat)) := by
  have numeral := numeral_decimal n
  have first_word : Visible (decimal n ++ unit) := numeral.word.append word
  unfold oneOrTwo
  split
  next =>
    have read := parseDouble_numeral k (Or.inl rfl)
    rw [List.append_nil] at read
    rw [parse_after (numeral_decimal k) shown read first_word (term_more numeral unit) parsed
      (Nat.cast_nonneg _)]
    push_cast
    rw [add_comm]
  next => rw [parsed, Nat.add_zero]

theorem parse_tenths (n : Nat) {k : Nat} (small : k < 10) :
    parseTimeStringAsDouble (decimal n ++ '.' :: decimal k ++ ['s']) =
      .ok (.finite (n * 1000 + k * 100 : Nat)) := by
  have numeral : Numeral (decimal n ++ '.' :: decimal k) := by
    refine ⟨by simp, fun c member => ?_⟩
    rcases List.mem_append.mp member with whole | fraction
    · exact Or.inr (isDigit_toDigits c whole)
    · exact (List.mem_cons.mp fraction).imp_right (isDigit_toDigits c)
  rw [parse_single numeral shown_s (parseDouble_decimal n small)]
  push_cast
  ring_nf

/-- The milliseconds that are read from the text of a time. -/
def readBack (t : Nat) : Nat :=
  if t < 10000 then t
  else if t < 30000 then
    if t % 1000 > 0 then t / 1000 * 1000 + t / 1000 % 10 * 100 else t / 1000 * 1000
  else if t < 3600000 then t / 1000 * 1000
  else if t < 86400000 then t / 60000 * 60000
  else t / 86400000 + t % 86400000 / 3600000 * 3600000

theorem parse_elapsed {t : Nat} (positive : 0 < t) :
    parseTimeStringAsDouble (elapsed t) = .ok (.finite (readBack t)) := by
  unfold readBack
  split
  next small =>
    rcases Nat.lt_or_ge t 1000 with below | seconds
    · rw [elapsed_millis positive below, parse_first t shown_ms, Nat.mul_one]
    · rw [elapsed_small seconds small,
        parse_oneOrTwo _ _ shown_s.word (parse_first _ shown_s) shown_ms]
      refine congrArg (fun n : Nat => Except.ok (finite n)) ?_
      split <;> omega
  next =>
  split
  next tens =>
    rw [elapsed_tens (by omega) tens]
    split
    next => exact parse_tenths _ (Nat.mod_lt _ (by decide))
    next => exact parse_first _ shown_s
  next =>
  split
  next below_hour =>
    rcases Nat.lt_or_ge t 60000 with below | minutes
    · rw [elapsed_seconds (by omega) below, parse_first _ shown_s]
    · rw [elapsed_minutes minutes below_hour,
        parse_oneOrTwo _ _ shown_m.word (parse_first _ shown_m) shown_s]
      refine congrArg (fun n : Nat => Except.ok (finite n)) ?_
      split <;> omega
  next hours =>
  split
  next below_day =>
    rw [elapsed_hours (by omega) below_day,
      parse_oneOrTwo _ _ shown_h.word (parse_first _ shown_h) shown_m]
    refine congrArg (fun n : Nat => Except.ok (finite n)) ?_
    split <;> omega
  next days =>
    rw [elapsed_days (by omega),
      parse_oneOrTwo _ _ (by simp [Visible]) (parse_days _) shown_h]
    refine congrArg (fun n : Nat => Except.ok (finite n)) ?_
    split <;> omega

end ReadBack

section RoundTrip

/-- The unit that the format drops to. -/
def precision (t : Int) : Int :=
  if 86400000 ≤ t then 3600000
  else if 3600000 ≤ t then 60000
  else if 30000 ≤ t then 1000
  else if 10000 ≤ t then 100
  else 1

/-- The call ends, with this text. -/
def Printed (t : Int64) (printed : List Char) : Prop :=
  ∃ depth, makeTimeString depth t = some printed

/-- What is read from the text of a time is the time up to the unit that is dropped. -/
def ReadsBack (t : Int64) : Prop :=
  ∃ printed parsed, Printed t printed ∧ parseTimeString (some printed) = .ok parsed ∧
    0 ≤ t.toInt - parsed ∧ t.toInt - parsed < precision t.toInt

theorem toLong_natCast {n : Nat} (bound : (n : Int) ≤ maxLong) : toLong (.finite n) = n := by
  simp [toLong, minLong]
  omega

section Printing

variable {t : Int64} (depth : Nat)

theorem makeTimeString_zero : makeTimeString (depth + 1) 0 = some ['0', 'm', 's'] := by
  rw [makeTimeString, if_pos rfl]

theorem makeTimeString_positive (positive : 0 < t.toInt) :
    makeTimeString (depth + 1) t = some (elapsed t.toInt.toNat) := by
  have nonzero : t ≠ 0 := by rintro rfl; exact absurd positive (by decide)
  have no_less : ¬ t < 0 := fun less => by
    have below := Int64.lt_iff_toInt_lt.mp less
    rw [Int64.toInt_zero] at below
    omega
  rw [makeTimeString, if_neg nonzero, if_neg no_less]

theorem makeTimeString_negative (negative : t.toInt < 0) :
    makeTimeString (depth + 1) t = (makeTimeString depth (-t)).map ('-' :: ·) := by
  have nonzero : t ≠ 0 := by rintro rfl; exact absurd negative (by decide)
  rw [makeTimeString, if_neg nonzero, if_pos (Int64.lt_iff_toInt_lt.mpr negative)]

/-- The smallest `long` is its own negation. -/
theorem makeTimeString_minValue : makeTimeString depth Int64.minValue = none := by
  induction depth with
  | zero => rfl
  | succ depth ih =>
    have same : -Int64.minValue = Int64.minValue := by decide
    rw [makeTimeString_negative depth (by decide), same, ih]
    rfl

theorem toInt_neg_pos (other : t ≠ Int64.minValue) (negative : t.toInt < 0) :
    0 < (-t).toInt := by
  have above : t.toInt ≠ -2 ^ 63 := fun same =>
    other (Int64.toInt_inj.mp (same.trans Int64.toInt_minValue.symm))
  have bound := Int64.le_toInt t
  rw [Int64.toInt_neg, Int.bmod_def]
  omega

theorem ends_iff : (∃ printed, Printed t printed) ↔ t ≠ Int64.minValue := by
  constructor
  · rintro ⟨printed, depth, ends⟩ rfl
    rw [makeTimeString_minValue] at ends
    cases ends
  · intro other
    rcases Int.lt_trichotomy t.toInt 0 with negative | zero | positive
    · refine ⟨'-' :: elapsed (-t).toInt.toNat, 2, ?_⟩
      rw [makeTimeString_negative 1 negative,
        makeTimeString_positive 0 (toInt_neg_pos other negative)]
      rfl
    · obtain rfl : t = 0 := Int64.toInt_inj.mp zero
      exact ⟨_, 1, makeTimeString_zero 0⟩
    · exact ⟨_, 1, makeTimeString_positive 0 positive⟩

/-- What is read from the text of a time. -/
theorem parseTimeString_printed {printed : List Char} (nonneg : 0 ≤ t.toInt)
    (shown : Printed t printed) :
    parseTimeString (some printed) =
      .ok (toLong (.finite (readBack t.toInt.toNat))) := by
  obtain ⟨_ | depth, shown⟩ := shown
  · cases shown
  rcases nonneg.lt_or_eq with positive | zero
  · rw [makeTimeString_positive depth positive] at shown
    cases shown
    rw [parseTimeString, parse_elapsed (by omega)]
    rfl
  · obtain rfl : t = 0 := Int64.toInt_inj.mp zero.symm
    rw [makeTimeString_zero] at shown
    cases shown
    have parsed := parse_first 0 shown_ms
    rw [parseTimeString, show ['0', 'm', 's'] = decimal 0 ++ ['m', 's'] by decide, parsed]
    rfl

end Printing

theorem toLong_readBack {t : Int64} (nonneg : 0 ≤ t.toInt) :
    toLong (.finite (readBack t.toInt.toNat)) = readBack t.toInt.toNat := by
  have bound := Int64.toInt_lt t
  refine toLong_natCast ?_
  unfold readBack maxLong
  split_ifs <;> omega

theorem readsBack_iff {t : Int64} (nonneg : 0 ≤ t.toInt) :
    ReadsBack t ↔ 0 ≤ t.toInt - readBack t.toInt.toNat ∧
      t.toInt - readBack t.toInt.toNat < precision t.toInt := by
  constructor
  · rintro ⟨printed, parsed, shown, read, within⟩
    rw [parseTimeString_printed nonneg shown, toLong_readBack nonneg] at read
    cases read
    exact within
  · intro within
    obtain ⟨printed, shown⟩ := ends_iff.mpr fun (same : t = Int64.minValue) => by
      rw [same] at nonneg
      exact absurd nonneg (by decide)
    refine ⟨printed, _, shown, parseTimeString_printed nonneg shown, ?_⟩
    rwa [toLong_readBack nonneg]

theorem readBack_within_iff (t : Nat) :
    (0 ≤ (t : Int) - readBack t ∧ (t : Int) - readBack t < precision t) ↔
      t < 86400000 ∧
        (10000 ≤ t → t < 30000 → t % 1000 = 0 ∨ t % 1000 / 100 = t / 1000 % 10) := by
  unfold readBack precision
  split_ifs <;> omega

/-- Every call ends that is not for the smallest time, and what is printed is read back unless it
has days, or a tenth of a second that is not the last digit of the seconds. -/
theorem time_strings_iff (t : Int64) :
    ((∃ printed, Printed t printed) ∧ (0 ≤ t.toInt → ReadsBack t)) ↔
      t ≠ Int64.minValue ∧ t.toInt < 86400000 ∧
        (10000 ≤ t.toInt → t.toInt < 30000 →
          t.toInt % 1000 = 0 ∨ t.toInt % 1000 / 100 = t.toInt / 1000 % 10) := by
  rw [ends_iff]
  refine and_congr_right fun _ => ?_
  rcases lt_or_ge t.toInt 0 with negative | nonneg
  · refine iff_of_true (fun nonneg => absurd nonneg (by omega)) ⟨by omega, by omega⟩
  · obtain ⟨n, same⟩ := Int.eq_ofNat_of_zero_le nonneg
    have within := readBack_within_iff n
    rw [readsBack_iff nonneg, same, Int.toNat_natCast, within]
    omega

/-- A day is read as a millisecond. -/
theorem day_read_as_millisecond :
    ¬ ∀ t : Int64, (∃ printed, Printed t printed) ∧ (0 ≤ t.toInt → ReadsBack t) := by
  intro all
  have back := (all 86400000).2 (by decide)
  rw [readsBack_iff (by decide)] at back
  exact absurd back (by decide)

end RoundTrip

end Brooklyn.TimeStrings
