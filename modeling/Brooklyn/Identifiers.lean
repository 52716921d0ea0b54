import Brooklyn.JavaText
import Mathlib.Data.Fin.Tuple.Basic
import Mathlib.SetTheory.Cardinal.Finite
import Mathlib.Tactic.Ring

/-!
`Identifiers.makeRandomId` peels its characters off bounded random integers, several off each, by
remainder and division. The source of random numbers is the list of the integers that it gives.
-/

namespace Brooklyn.Identifiers

section Digits

variable {Rest : Type}

/-- One digit of a number that is a multiple of the base away from its bound: what has this digit is
as much as what is left when the digit is taken off. -/
theorem card_peeled {base count digit : Nat} (below : digit < base)
    (leaves : Nat → Rest → Prop) :
    Nat.card {x : Fin (base * count) × Rest // x.1 % base = digit ∧ leaves (x.1 / base) x.2} =
      Nat.card {x : Fin count × Rest // leaves x.1 x.2} := by
  have bound (upper : Fin count) : digit + base * upper < base * count :=
    calc digit + base * upper < base * (upper + 1) := by rw [Nat.mul_succ]; omega
      _ ≤ base * count := Nat.mul_le_mul_left base upper.isLt
  have positive : 0 < base := Nat.zero_lt_of_lt below
  refine Nat.card_congr
    { toFun := fun x => ⟨(⟨x.1.1 / base, Nat.div_lt_of_lt_mul x.1.1.isLt⟩, x.1.2), x.2.2⟩
      invFun := fun x => ⟨(⟨digit + base * x.1.1, bound x.1.1⟩, x.1.2), ?_, ?_⟩
      left_inv := fun x => ?_
      right_inv := fun x => ?_ }
  · exact (Nat.add_mul_mod_self_left ..).trans (Nat.mod_eq_of_lt below)
  · show leaves ((digit + base * x.1.1) / base) x.1.2
    rw [Nat.add_mul_div_left _ _ positive, Nat.div_eq_of_lt below, Nat.zero_add]
    exact x.2
  · obtain ⟨⟨number, rest⟩, same, -⟩ := x
    have whole : number % base + base * (number / base) = number := Nat.mod_add_div ..
    simp only [same] at whole
    simp [whole]
  · obtain ⟨⟨upper, rest⟩, -⟩ := x
    have off : (digit + base * upper) / base = upper := by
      rw [Nat.add_mul_div_left _ _ positive, Nat.div_eq_of_lt below, Nat.zero_add]
    simp [off]

/-- A number with no digit left says nothing, and the first of the numbers that follow takes its
place. -/
theorem card_next {bound count : Nat} (leaves : Nat → (Fin count → Fin bound) → Prop) :
    Nat.card {x : Fin 1 × (Fin (count + 1) → Fin bound) // leaves (x.2 0) (Fin.tail x.2)} =
      Nat.card {x : Fin bound × (Fin count → Fin bound) // leaves x.1 x.2} := by
  refine Nat.card_congr
    { toFun := fun x => ⟨(x.1.2 0, Fin.tail x.1.2), x.2⟩
      invFun := fun x => ⟨(0, Fin.cons x.1.1 x.1.2), x.2⟩
      left_inv := fun x => ?_
      right_inv := fun x => rfl }
  obtain ⟨⟨unit, numbers⟩, -⟩ := x
  simp [Fin.cons_self_tail, Subsingleton.elim unit 0]

end Digits

/-- `ID_VALID_START_CHARS` -/
def idValidStartChars : List Char := "ABCDEFGHIJKLMNOPQRSTUVWXYZabcdefghijklmnopqrstuvwxyz".toList

/-- `ID_VALID_NONSTART_CHARS` -/
def idValidNonstartChars : List Char := idValidStartChars ++ "1234567890".toList

/-- `JAVA_GENERATED_IDENTIFIER_START_CHARS` -/
def javaGeneratedIdentifierStartChars : List Char :=
  "ABCDEFGHIJKLMNOPQRSTUVWXYZabcdefghijklmnopqrstuvwxyz".toList

/-- `JAVA_GENERATED_IDENTIFIERNONSTART_CHARS` -/
def javaGeneratedIdentifierNonstartChars : List Char :=
  javaGeneratedIdentifierStartChars ++ "1234567890".toList

/-- `random.nextInt(bound)`, the next of the numbers drawn. -/
def nextInt (bound : Nat) : List Nat → Option (Nat × List Nat)
  | [] => none
  | d :: draws => if d < bound then some (d, draws) else none

/-- The loop of `makeRandomId` at the index `i`. -/
def idLoop (nonstartChars : List Char) (l i d : Nat) (draws : List Nat) : Option (List Char) :=
  match nonstartChars[d % (26 + 26 + 10)]? with
  | none => none
  | some c =>
      if l ≤ i + 1 then some [c]
      else if (i + 1) % 5 = 0 then
        match nextInt ((26 + 26 + 10) * (26 + 26 + 10) * (26 + 26 + 10) * (26 + 26 + 10) *
            (26 + 26 + 10)) draws with
        | none => none
        | some (d, draws) => (c :: ·) <$> idLoop nonstartChars l (i + 1) d draws
      else (c :: ·) <$> idLoop nonstartChars l (i + 1) (d / (26 + 26 + 10)) draws
termination_by l - i

/-- What `makeRandomId` and `makeRandomJavaId` do, each with its own characters. -/
def randomId (startChars nonstartChars : List Char) (l : Int) (draws : List Nat) :
    Option (List Char) :=
  if l ≤ 0 then some []
  else
    match nextInt ((26 + 26) * (26 + 26 + 10) * (26 + 26 + 10) * (26 + 26 + 10) * (26 + 26 + 10))
        draws with
    | none => none
    | some (d, draws) =>
        match startChars[d % (26 + 26)]? with
        | none => none
        | some c =>
            if 1 < l then (c :: ·) <$> idLoop nonstartChars l.toNat 1 (d / (26 + 26)) draws
            else some [c]

def makeRandomId (l : Int) (draws : List Nat) : Option (List Char) :=
  randomId idValidStartChars idValidNonstartChars l draws

def makeRandomJavaId (l : Int) (draws : List Nat) : Option (List Char) :=
  randomId javaGeneratedIdentifierStartChars javaGeneratedIdentifierNonstartChars l draws

section Draws

/-- The numbers that are drawn for an id of the length. -/
def Draws (l : Nat) : Type := Fin (52 * 62 ^ 4) × (Fin ((l - 1) / 5) → Fin (62 ^ 5))

def later {count : Nat} (numbers : Fin count → Fin (62 ^ 5)) : List Nat :=
  List.ofFn fun k => (numbers k : Nat)

def Draws.toList {l : Nat} (draws : Draws l) : List Nat := draws.1 :: later draws.2

theorem nextInt_later {bound count : Nat} (wide : 62 ^ 5 ≤ bound)
    (numbers : Fin (count + 1) → Fin (62 ^ 5)) :
    nextInt bound (later numbers) = some ((numbers 0 : Nat), later (Fin.tail numbers)) := by
  have below : (numbers 0 : Nat) < bound := Nat.lt_of_lt_of_le (numbers 0).isLt wide
  simp [later, nextInt, List.ofFn_succ, below, Fin.tail]

end Draws

theorem exists_digit {chars : List Char} {base : Nat} (many : chars.length = base)
    (positive : 0 < base) (d : Nat) : ∃ c ∈ chars, chars[d % base]? = some c := by
  subst many
  exact ⟨_, List.getElem_mem _, List.getElem?_eq_getElem (Nat.mod_lt d positive)⟩

section Loop

variable {nonstartChars : List Char} {l i d : Nat} {draws : List Nat} {c : Char} {rest : List Char}

theorem idLoop_last (last : l = i + 1) :
    idLoop nonstartChars l i d draws = some (c :: rest) ↔
      nonstartChars[d % 62]? = some c ∧ rest = [] := by
  rw [idLoop]
  cases nonstartChars[d % 62]? with
  | none => simp
  | some first => simp [last, eq_comm]

theorem idLoop_inside (more : i + 1 < l) (inside : (i + 1) % 5 ≠ 0) :
    idLoop nonstartChars l i d draws = some (c :: rest) ↔
      nonstartChars[d % 62]? = some c ∧
        idLoop nonstartChars l (i + 1) (d / 62) draws = some rest := by
  rw [idLoop]
  cases nonstartChars[d % 62]? with
  | none => simp
  | some first => simp [Nat.not_le.mpr more, inside, and_comm]

theorem idLoop_next {count : Nat} (more : i + 1 < l) (next : (i + 1) % 5 = 0)
    (numbers : Fin (count + 1) → Fin (62 ^ 5)) :
    idLoop nonstartChars l i d (later numbers) = some (c :: rest) ↔
      nonstartChars[d % 62]? = some c ∧
        idLoop nonstartChars l (i + 1) (numbers 0) (later (Fin.tail numbers)) = some rest := by
  rw [idLoop]
  cases nonstartChars[d % 62]? with
  | none => simp
  | some first => simp [Nat.not_le.mpr more, next, nextInt_later, and_comm]

/-- The digit that stands for a character. -/
theorem getElem?_digit (distinct : nonstartChars.Nodup) {digit : Nat}
    (at_digit : nonstartChars[digit]? = some c) (number : Nat) :
    nonstartChars[number]? = some c ↔ number = digit := by
  refine ⟨fun found => ?_, fun same => same ▸ at_digit⟩
  obtain ⟨below, -⟩ := List.getElem?_eq_some_iff.mp found
  exact (List.getElem?_inj below distinct).mp (found.trans at_digit.symm)

/-- As many draws from the index on as there are digits that no character takes. The induction is
on the characters still to come, the indices and what is drawn go with them. -/
theorem card_idLoop (distinct : nonstartChars.Nodup) (many : nonstartChars.length = 62)
    (id : List Char) (among : ∀ c ∈ id, c ∈ nonstartChars) (some_left : id ≠ []) :
    ∀ i bound count, l = i + id.length → bound = 62 ^ (5 - i % 5) →
      count = (l - 1) / 5 - i / 5 →
      Nat.card {x : Fin bound × (Fin count → Fin (62 ^ 5)) //
        idLoop nonstartChars l i x.1 (later x.2) = some id} =
          62 ^ (5 * ((l - 1) / 5 + 1) - l) := by
  induction id with
  | nil => exact absurd rfl some_left
  | cons c rest ih =>
    intro i bound count ends bounded counted
    obtain ⟨digit, at_digit⟩ := List.getElem?_of_mem (among c List.mem_cons_self)
    have below : digit < 62 := many ▸ (List.getElem?_eq_some_iff.mp at_digit).1
    have digits := getElem?_digit distinct at_digit
    obtain rfl : bound = 62 * 62 ^ (4 - i % 5) := by
      rw [bounded, ← Nat.pow_succ']
      congr 1
      omega
    cases rest with
    | nil =>
      have last : l = i + 1 := ends
      obtain rfl : count = 0 := by omega
      simp only [idLoop_last last, digits]
      calc _ = Nat.card {x : Fin (62 ^ (4 - i % 5)) × (Fin 0 → Fin (62 ^ 5)) // True} :=
            card_peeled below fun _ _ => True
        _ = 62 ^ (4 - i % 5) := by simp
        _ = _ := by congr 1; omega
    | cons next others =>
      have more : i + 1 < l := by simp only [List.length_cons] at ends; omega
      have among := fun c member => among c (List.mem_cons_of_mem _ member)
      have ends : l = i + 1 + (next :: others).length := by
        simp only [List.length_cons] at ends ⊢
        omega
      by_cases drawn : (i + 1) % 5 = 0
      · -- the last digit of its number, so that the next number is drawn
        obtain ⟨fewer, rfl⟩ : ∃ fewer, count = fewer + 1 := ⟨count - 1, by omega⟩
        have single : 62 ^ (4 - i % 5) = 1 := by
          rw [show 4 - i % 5 = 0 by omega, Nat.pow_zero]
        generalize 62 ^ (4 - i % 5) = left at single ⊢
        subst single
        simp only [idLoop_next more drawn, digits]
        rw [card_peeled below fun _ (numbers : Fin (fewer + 1) → Fin (62 ^ 5)) =>
          idLoop nonstartChars l (i + 1) (numbers 0) (later (Fin.tail numbers)) =
            some (next :: others)]
        rw [card_next fun number numbers =>
          idLoop nonstartChars l (i + 1) number (later numbers) = some (next :: others)]
        refine ih among (List.cons_ne_nil _ _) (i + 1) _ fewer ends ?_ ?_
        · rw [drawn]
        · omega
      · simp only [idLoop_inside more drawn, digits]
        rw [card_peeled below fun number numbers =>
          idLoop nonstartChars l (i + 1) number (later numbers) = some (next :: others)]
        refine ih among (List.cons_ne_nil _ _) (i + 1) _ count ends ?_ ?_
        · congr 1
          omega
        · omega

/-- The numbers drawn are enough, the last of them is still being peeled when the id is full. -/
theorem idLoop_total (many : nonstartChars.length = 62) (remaining : Nat) :
    ∀ i d count (numbers : Fin count → Fin (62 ^ 5)), l = i + 1 + remaining →
      count = (l - 1) / 5 - i / 5 →
      ∃ id, idLoop nonstartChars l i d (later numbers) = some id ∧ i + id.length = l ∧
        ∀ c ∈ id, c ∈ nonstartChars := by
  induction remaining with
  | zero =>
    intro i d count numbers ends _
    obtain ⟨c, among, found⟩ := exists_digit many (by decide) d
    exact ⟨[c], (idLoop_last ends).mpr ⟨found, rfl⟩, ends.symm, by simpa using among⟩
  | succ remaining ih =>
    intro i d count numbers ends counted
    obtain ⟨c, first_among, found⟩ := exists_digit many (by decide) d
    have more : i + 1 < l := by omega
    by_cases drawn : (i + 1) % 5 = 0
    · obtain ⟨fewer, rfl⟩ : ∃ fewer, count = fewer + 1 := ⟨count - 1, by omega⟩
      obtain ⟨rest, made, full, among⟩ :=
        ih (i + 1) (numbers 0) fewer (Fin.tail numbers) (by omega) (by omega)
      refine ⟨c :: rest, (idLoop_next more drawn numbers).mpr ⟨found, made⟩, ?_,
        List.forall_mem_cons.mpr ⟨first_among, among⟩⟩
      rw [List.length_cons]
      omega
    · obtain ⟨rest, made, full, among⟩ :=
        ih (i + 1) (d / 62) count numbers (by omega) (by omega)
      refine ⟨c :: rest, (idLoop_inside more drawn).mpr ⟨found, made⟩, ?_,
        List.forall_mem_cons.mpr ⟨first_among, among⟩⟩
      rw [List.length_cons]
      omega

end Loop

section RandomId

variable {startChars nonstartChars : List Char} {l d : Nat} {draws : List Nat} {c : Char}
  {rest : List Char}

theorem randomId_single (below : d < 52 * 62 ^ 4) :
    randomId startChars nonstartChars (1 : Nat) (d :: draws) = some (c :: rest) ↔
      startChars[d % 52]? = some c ∧ rest = [] := by
  have below : d < 768369472 := below
  cases found : startChars[d % 52]? with
  | none => simp [randomId, nextInt, below, found]
  | some first => simp [randomId, nextInt, below, found, eq_comm]

theorem randomId_longer (below : d < 52 * 62 ^ 4) (more : 1 < l) :
    randomId startChars nonstartChars l (d :: draws) = some (c :: rest) ↔
      startChars[d % 52]? = some c ∧
        idLoop nonstartChars l 1 (d / 52) draws = some rest := by
  have below : d < 768369472 := below
  have positive : l ≠ 0 := by omega
  cases found : startChars[d % 52]? with
  | none => simp [randomId, nextInt, below, found]
  | some first => simp [randomId, nextInt, below, found, positive, more, and_comm]

/-- An id of the length: its characters are among those allowed first and those allowed next. -/
structure Among (startChars nonstartChars : List Char) (l : Nat) (id : List Char) : Prop where
  length : id.length = l
  first : ∃ c ∈ id.head?, c ∈ startChars
  rest : ∀ c ∈ id.tail, c ∈ nonstartChars

theorem randomId_total (starts : startChars.length = 52) (many : nonstartChars.length = 62)
    (positive : 1 ≤ l) (draws : Draws l) :
    ∃ id, randomId startChars nonstartChars l draws.toList = some id ∧
      Among startChars nonstartChars l id := by
  obtain ⟨first, numbers⟩ := draws
  obtain ⟨c, among, found⟩ := exists_digit starts (by decide) first
  obtain single | more := Nat.eq_or_lt_of_le positive
  · subst single
    exact ⟨[c], (randomId_single first.isLt).mpr ⟨found, rfl⟩, rfl, ⟨c, rfl, among⟩, by simp⟩
  · obtain ⟨rest, made, full, rest_among⟩ := idLoop_total (l := l) many (l - 2) 1 (first / 52)
      ((l - 1) / 5) numbers (by omega) (by omega)
    exact ⟨c :: rest, (randomId_longer first.isLt more).mpr ⟨found, made⟩,
      by rw [List.length_cons]; omega, ⟨c, rfl, among⟩, rest_among⟩

theorem card_randomId (start_distinct : startChars.Nodup) (starts : startChars.length = 52)
    (distinct : nonstartChars.Nodup) (many : nonstartChars.length = 62) (positive : 1 ≤ l)
    {id : List Char} (legal : Among startChars nonstartChars l id) :
    Nat.card {draws : Draws l // randomId startChars nonstartChars l draws.toList = some id} =
      62 ^ (5 * ((l - 1) / 5 + 1) - l) := by
  obtain ⟨full, ⟨c, head, among⟩, rest_among⟩ := legal
  obtain ⟨rest, rfl⟩ := List.head?_eq_some_iff.mp head
  obtain ⟨digit, at_digit⟩ := List.getElem?_of_mem among
  have below : digit < 52 := starts ▸ (List.getElem?_eq_some_iff.mp at_digit).1
  have digits := getElem?_digit start_distinct at_digit
  obtain single | more := Nat.eq_or_lt_of_le positive
  · subst single
    obtain rfl : rest = [] := List.eq_nil_of_length_eq_zero (by simpa using full)
    simp only [Draws, Draws.toList, randomId_single (Fin.isLt _), digits]
    calc _ = Nat.card {x : Fin (62 ^ 4) × (Fin 0 → Fin (62 ^ 5)) // True} :=
          card_peeled below fun _ _ => True
      _ = 62 ^ 4 := by simp
  · have some_left : rest ≠ [] := by
      rintro rfl
      simp only [List.length_singleton] at full
      omega
    simp only [Draws, Draws.toList, randomId_longer (Fin.isLt _) more, digits]
    calc _ = Nat.card {x : Fin (62 ^ 4) × (Fin ((l - 1) / 5) → Fin (62 ^ 5)) //
            idLoop nonstartChars l 1 x.1 (later x.2) = some rest} :=
          card_peeled below fun number (numbers : Fin ((l - 1) / 5) → Fin (62 ^ 5)) =>
            idLoop nonstartChars l 1 number (later numbers) = some rest
      _ = _ := card_idLoop distinct many rest rest_among some_left 1 _ _
            (by rw [List.length_cons] at full; omega) rfl (by omega)

end RandomId

section Ids

/-- A letter or digit is below the code of the first character after the small letters. -/
theorem toNat_lt_of_isAlphanum {c : Char} (legal : c.isAlphanum = true) : c.toNat < 123 := by
  change ((decide (c.val ≥ 65 ∧ c.val ≤ 90) || (c.val ≥ 97 && c.val ≤ 122)) ||
    (c.val ≥ 48 && c.val ≤ 57)) = true at legal
  simp only [Bool.or_eq_true, Bool.and_eq_true, decide_eq_true_eq] at legal
  rcases legal with (⟨-, below⟩ | ⟨-, below⟩) | ⟨-, below⟩
  all_goals exact Nat.lt_of_le_of_lt below (by decide)

theorem mem_idValidStartChars {c : Char} : c ∈ idValidStartChars ↔ c.isAlpha = true := by
  have letters : ∀ code < 123, (Char.ofNat code).isAlpha = true →
      idValidStartChars.contains (Char.ofNat code) = true := by decide +kernel
  refine ⟨forall_of_all (p := fun c => c.isAlpha = true) (by decide) c, fun letter => ?_⟩
  have below := toNat_lt_of_isAlphanum (c := c) (by simp [Char.isAlphanum, letter])
  have found := letters c.toNat below
  rw [Char.ofNat_toNat] at found
  exact List.contains_iff_mem.mp (found letter)

theorem mem_idValidNonstartChars {c : Char} :
    c ∈ idValidNonstartChars ↔ c.isAlphanum = true := by
  have legal : ∀ code < 123, (Char.ofNat code).isAlphanum = true →
      idValidNonstartChars.contains (Char.ofNat code) = true := by decide +kernel
  refine ⟨forall_of_all (p := fun c => c.isAlphanum = true) (by decide) c, fun letter => ?_⟩
  have found := legal c.toNat (toNat_lt_of_isAlphanum letter)
  rw [Char.ofNat_toNat] at found
  exact List.contains_iff_mem.mp (found letter)

/-- Letters and digits, a letter first. -/
structure LegalId (l : Nat) (id : List Char) : Prop where
  length : id.length = l
  first : ∃ c ∈ id.head?, c.isAlpha = true
  rest : ∀ c ∈ id.tail, c.isAlphanum = true

theorem among_iff {l : Nat} {id : List Char} :
    Among idValidStartChars idValidNonstartChars l id ↔ LegalId l id := by
  constructor
  · intro ⟨length, ⟨c, head, among⟩, rest⟩
    exact ⟨length, ⟨c, head, mem_idValidStartChars.mp among⟩,
      fun c member => mem_idValidNonstartChars.mp (rest c member)⟩
  · intro ⟨length, ⟨c, head, letter⟩, rest⟩
    exact ⟨length, ⟨c, head, mem_idValidStartChars.mpr letter⟩,
      fun c member => mem_idValidNonstartChars.mpr (rest c member)⟩

/-- Every draw makes a legal id and every legal id is made by the same number of draws, which is
that of the digits left over in the last number. -/
theorem makeRandomId_uniform (l : Nat) (positive : 1 ≤ l) :
    (∀ draws : Draws l, ∃ id, makeRandomId l draws.toList = some id ∧ LegalId l id) ∧
      ∀ id, LegalId l id →
        Nat.card {draws : Draws l // makeRandomId l draws.toList = some id} =
          62 ^ (5 * ((l - 1) / 5 + 1) - l) := by
  have starts : idValidStartChars.length = 52 := by decide
  have many : idValidNonstartChars.length = 62 := by decide
  constructor
  · intro draws
    obtain ⟨id, made, among⟩ := randomId_total starts many positive draws
    exact ⟨id, made, among_iff.mp among⟩
  · intro id legal
    exact card_randomId (by decide) starts (by decide) many positive (among_iff.mpr legal)

/-- Four letters or digits, 62 ^ 4 draws, are not looked at. -/
theorem makeRandomId_uniform_one :
    Nat.card {draws : Draws 1 // makeRandomId (1 : Nat) draws.toList = some ['a']} = 62 ^ 4 :=
  (makeRandomId_uniform 1 (Nat.le_refl 1)).2 ['a'] ⟨rfl, ⟨'a', rfl, rfl⟩, by simp⟩

/-- `Identifiers.isValidToken`, the token may be `null`. -/
def isValidToken (token : Option (List Char)) (validStartChars validSubsequentChars : List Char) :
    Bool :=
  match token with
  | none => false
  | some [] => false
  | some (c :: rest) => validStartChars.contains c && rest.all (validSubsequentChars.contains ·)

def javaValidStartChars : List Char :=
  "ABCDEFGHIJKLMNOPQRSTUVWXYZabcdefghijklmnopqrstuvwxyz_".toList

def javaValidNonstartChars : List Char := javaValidStartChars ++ "1234567890".toList

def isValidJavaToken (s : Option (List Char)) : Bool :=
  isValidToken s javaValidStartChars javaValidNonstartChars

/-- A random id for Java is a token that `isValidJavaToken` takes. -/
theorem isValidJavaToken_makeRandomJavaId (l : Nat) (positive : 1 ≤ l) (draws : Draws l) :
    ∃ id, makeRandomJavaId l draws.toList = some id ∧ isValidJavaToken (some id) = true := by
  have starts : javaGeneratedIdentifierStartChars.length = 52 := by decide
  have many : javaGeneratedIdentifierNonstartChars.length = 62 := by decide
  have first_valid : ∀ c ∈ javaGeneratedIdentifierStartChars, c ∈ javaValidStartChars :=
    forall_of_all (by decide)
  have rest_valid : ∀ c ∈ javaGeneratedIdentifierNonstartChars, c ∈ javaValidNonstartChars :=
    forall_of_all (by decide)
  obtain ⟨id, made, -, ⟨c, head, first⟩, rest⟩ := randomId_total starts many positive draws
  obtain ⟨others, rfl⟩ := List.head?_eq_some_iff.mp head
  refine ⟨_, made, Bool.and_eq_true_iff.mpr ⟨?_, List.all_eq_true.mpr fun c member => ?_⟩⟩
  · exact List.contains_iff_mem.mpr (first_valid c first)
  · exact List.contains_iff_mem.mpr (rest_valid c (rest c member))

end Ids

end Brooklyn.Identifiers
