import Brooklyn.NumericRangeTokens

/-!
`PortRanges`: single ports, linear ranges with an iterator of their own, and aggregates of ranges.
An `int` wraps around. A range that is printed and read again loses its nesting only.
-/

namespace Brooklyn.PortRanges
open WildcardGlobs (intText DigitText)

/-- `MAX_PORT` -/
def maxPort : Int32 := 65535

/-- `stop` is the source's `end`. -/
structure LinearPortRange where
  start : Int32
  stop : Int32
  delta : Int32
  moves : delta ≠ 0

/-- The public constructor. -/
def LinearPortRange.create (start stop : Int32) : LinearPortRange where
  start := start
  stop := stop
  delta := if start ≤ stop then 1 else -1
  moves := by split <;> decide

structure LinearIterator where
  next : Int32
  hasNext : Bool

def LinearPortRange.iterator (range : LinearPortRange) : LinearIterator := ⟨range.start, true⟩

/-- `next()`, nothing where it throws `NoSuchElementException`. -/
def LinearPortRange.next (range : LinearPortRange) (iterator : LinearIterator) :
    Option (Int32 × LinearIterator) :=
  if iterator.hasNext then
    let next := iterator.next + range.delta
    let passed := (range.delta > 0 && next > range.stop) || (range.delta < 0 && next < range.stop)
    some (iterator.next, ⟨next, !passed⟩)
  else none

inductive PortRange where
  | single (port : Int32)
  | linear (range : LinearPortRange)
  | aggregate (ranges : List PortRange)

open PortRange

@[elab_as_elim, induction_eliminator]
theorem PortRange.induct {motive : PortRange → Prop} (single : ∀ port, motive (single port))
    (linear : ∀ range, motive (linear range))
    (aggregate : ∀ ranges, (∀ range ∈ ranges, motive range) → motive (aggregate ranges)) :
    ∀ range, motive range
  | .single port => single port
  | .linear range => linear range
  | .aggregate ranges => aggregate ranges fun range _ => induct single linear aggregate range

/-- What an iterator gives until it has no more. -/
def Yields {State Item : Type} (next : State → Option (Item × State)) : List Item → State → Prop
  | [], state => next state = none
  | item :: items, state => ∃ later, next state = some (item, later) ∧ Yields next items later

mutual

/-- The ports that the iterator of a range gives. -/
def Iterates : PortRange → List Int32 → Prop
  | single port, ports => ports = [port]
  | linear range, ports => Yields range.next ports range.iterator
  | aggregate ranges, ports => IteratesAll ranges ports

/-- `Iterables.concat` -/
def IteratesAll : List PortRange → List Int32 → Prop
  | [], ports => ports = []
  | range :: ranges, ports =>
      ∃ front back, ports = front ++ back ∧ Iterates range front ∧ IteratesAll ranges back

end

mutual

def isEmpty : PortRange → Bool
  | single _ => false
  | linear _ => false
  | aggregate ranges => allEmpty ranges

def allEmpty : List PortRange → Bool
  | [] => true
  | range :: ranges => if !isEmpty range then false else allEmpty ranges

end

mutual

def toString : PortRange → List Char
  | single port => intText port
  | linear range => intText range.start ++ '-' :: intText range.stop
  | aggregate ranges => appendAll ranges []

/-- The loop of an aggregate's `toString`. -/
def appendAll : List PortRange → List Char → List Char
  | [], s => s
  | range :: ranges, s =>
      appendAll ranges ((if s.length > 0 then s ++ [','] else s) ++ toString range)

end

def fromInteger (x : Int32) : PortRange := single x

/-- `Integer.parseInt`, which may throw. -/
def parseInt (text : List Char) : Option Int32 :=
  (NetworkUtils.parseInt text).map fun n => Int32.ofInt n.1

/-- One turn of the loop of `fromString`: no range, where the part is blank. -/
def fromPart (si : List Char) : Option (Option PortRange) :=
  let si := trim si
  if si.getLast? = some '+' then
    (parseInt (trim si.dropLast)).map fun start => some (linear (.create start maxPort))
  else
    let v := si.idxOf '-'
    if 0 < v ∧ v < si.length then
      match parseInt (trim (si.take v)) with
      | none => none
      | some start =>
          (parseInt (trim (si.drop (v + 1)))).map fun stop => some (linear (.create start stop))
    else if si.length = 0 then some none
    else (parseInt si).map fun port => some (single port)

def fromParts : List (List Char) → Option (List PortRange)
  | [] => some []
  | si :: parts =>
      match fromPart si with
      | none => none
      | some range => (fromParts parts).map (range.toList ++ ·)

def fromString (s : List Char) : Option PortRange :=
  match fromParts (NetworkUtils.split ',' s) with
  | none => none
  | some [range] => some range
  | some ranges => some (aggregate ranges)

/-- An element of a collection. What `TypeCoercions.coerce` makes of any other object is given with
the object, a range is left as it is. -/
inductive Element where
  | integer (x : Int32)
  | string (s : List Char)
  | collection (c : List Element)
  | other (coerced : Option PortRange)

mutual

def fromElement : Element → Option PortRange
  | .integer x => some (fromInteger x)
  | .string s => fromString s
  | .collection c => (fromElements c).map aggregate
  | .other coerced => coerced

def fromElements : List Element → Option (List PortRange)
  | [] => some []
  | o :: c =>
      match fromElement o with
      | none => none
      | some range => (fromElements c).map (range :: ·)

end

def fromCollection (c : List Element) : Option PortRange := (fromElements c).map aggregate

section Iteration

theorem Yields.unique {State Item : Type} {next : State → Option (Item × State)} {items : List Item}
    {state : State} (yields : Yields next items state) :
    ∀ {others : List Item}, Yields next others state → others = items := by
  induction items generalizing state with
  | nil =>
    intro others again
    cases others with
    | nil => rfl
    | cons other others =>
      obtain ⟨later, given, -⟩ := again
      cases given.symm.trans yields
  | cons item items ih =>
    intro others again
    obtain ⟨later, given, rest⟩ := yields
    cases others with
    | nil => cases given.symm.trans again
    | cons other others =>
      obtain ⟨after, given_again, rest_again⟩ := again
      cases given.symm.trans given_again
      rw [ih rest rest_again]

theorem iteratesAll_append {ranges others : List PortRange} {ports : List Int32} :
    IteratesAll (ranges ++ others) ports ↔
      ∃ front back, ports = front ++ back ∧ IteratesAll ranges front ∧ IteratesAll others back := by
  induction ranges generalizing ports with
  | nil =>
    refine ⟨fun all => ⟨[], ports, rfl, rfl, all⟩, ?_⟩
    rintro ⟨front, back, rfl, rfl, all⟩
    exact all
  | cons range ranges ih =>
    constructor
    · rintro ⟨front, back, rfl, first, all⟩
      obtain ⟨middle, last, rfl, rest, others⟩ := ih.mp all
      exact ⟨front ++ middle, last, (List.append_assoc ..).symm, ⟨front, middle, rfl, first, rest⟩,
        others⟩
    · rintro ⟨front, back, rfl, ⟨first, middle, rfl, iterates, rest⟩, others⟩
      exact ⟨first, middle ++ back, List.append_assoc .., iterates,
        ih.mpr ⟨middle, back, rfl, rest, others⟩⟩

theorem iteratesAll_singleton {range : PortRange} {ports : List Int32} :
    IteratesAll [range] ports ↔ Iterates range ports := by
  refine ⟨?_, fun iterates => ⟨ports, [], (List.append_nil _).symm, iterates, rfl⟩⟩
  rintro ⟨front, back, rfl, iterates, rfl⟩
  rwa [List.append_nil]

mutual

/-- The ranges of an aggregate and of the aggregates in it that are none themselves. -/
def leaves : PortRange → List PortRange
  | single port => [single port]
  | linear range => [linear range]
  | aggregate ranges => allLeaves ranges

def allLeaves : List PortRange → List PortRange
  | [] => []
  | range :: ranges => leaves range ++ allLeaves ranges

end

theorem allLeaves_eq (ranges : List PortRange) : allLeaves ranges = ranges.flatMap leaves := by
  induction ranges with
  | nil => rfl
  | cons range ranges ih => rw [allLeaves, ih, List.flatMap_cons]

/-- Nesting does not show in the iteration. -/
theorem iterates_leaves (range : PortRange) :
    ∀ ports, IteratesAll (leaves range) ports ↔ Iterates range ports := by
  induction range with
  | single port => exact fun ports => iteratesAll_singleton
  | linear range => exact fun ports => iteratesAll_singleton
  | aggregate ranges ih =>
    show ∀ ports, IteratesAll (allLeaves ranges) ports ↔ IteratesAll ranges ports
    induction ranges with
    | nil => exact fun ports => Iff.rfl
    | cons range ranges rest =>
      intro ports
      obtain ⟨first, others⟩ := List.forall_mem_cons.mp ih
      rw [allLeaves, iteratesAll_append, IteratesAll]
      simp only [first, rest others]

theorem iterates_unique {range : PortRange} {ports : List Int32} (iterates : Iterates range ports) :
    ∀ {others : List Int32}, Iterates range others → others = ports := by
  induction range generalizing ports with
  | single port =>
    intro others again
    exact Eq.trans again iterates.symm
  | linear range => exact fun again => Yields.unique iterates again
  | aggregate ranges ih =>
    have unique : ∀ ports others, IteratesAll ranges ports → IteratesAll ranges others →
        others = ports := by
      clear iterates ports
      induction ranges with
      | nil => exact fun ports others iterates again => Eq.trans again iterates.symm
      | cons range ranges rest =>
        rintro - - ⟨front, back, rfl, first, all⟩ ⟨front', back', rfl, first', all'⟩
        obtain ⟨one, others⟩ := List.forall_mem_cons.mp ih
        rw [one first first', rest others back back' all all']
    exact fun {others} again => unique ports others iterates again

theorem isEmpty_iff (range : PortRange) : isEmpty range = true ↔ Iterates range [] := by
  induction range with
  | single port => simp [isEmpty, Iterates]
  | linear range => simp [isEmpty, Iterates, Yields, LinearPortRange.next, LinearPortRange.iterator]
  | aggregate ranges ih =>
    show allEmpty ranges = true ↔ IteratesAll ranges []
    induction ranges with
    | nil => simp [allEmpty, IteratesAll]
    | cons range ranges rest =>
      obtain ⟨first, others⟩ := List.forall_mem_cons.mp ih
      have both : allEmpty (range :: ranges) = true ↔
          isEmpty range = true ∧ allEmpty ranges = true := by
        cases empty : isEmpty range <;> simp [allEmpty, empty]
      rw [both, first, rest others, IteratesAll]
      refine ⟨fun ⟨one, all⟩ => ⟨[], [], rfl, one, all⟩, ?_⟩
      rintro ⟨front, back, nothing, one, all⟩
      obtain ⟨rfl, rfl⟩ := List.append_eq_nil_iff.mp nothing.symm
      exact ⟨one, all⟩

end Iteration

section Linear

/-- The numbers of ports. -/
def IsPort (port : Int32) : Prop := 0 ≤ port ∧ port ≤ maxPort

theorem IsPort.toInt {port : Int32} (is_port : IsPort port) :
    0 ≤ port.toInt ∧ port.toInt ≤ 65535 :=
  ⟨Int32.le_iff_toInt_le.mp is_port.1, Int32.le_iff_toInt_le.mp is_port.2⟩

/-- As many numbers as there are from one to the other, up or down. -/
def consecutive (start stop : Int32) : List Int32 :=
  (List.range ((stop.toInt - start.toInt).natAbs + 1)).map fun k : Nat =>
    Int32.ofInt (if start ≤ stop then start.toInt + k else start.toInt - k)

theorem toInt_ofInt_near {n : Int} (low : -1 ≤ n) (high : n ≤ 65536) :
    (Int32.ofInt n).toInt = n :=
  Int32.toInt_ofInt_of_le (by omega) (by omega)

variable {range : LinearPortRange} {d : Int}

/-- The next number and whether the end is not yet passed by the one after it. -/
theorem next_linear (direction : d = 1 ∧ range.delta = 1 ∨ d = -1 ∧ range.delta = -1)
    {s e : Int} (low : 0 ≤ s) (high : s ≤ 65535) (end_low : 0 ≤ e) (end_high : e ≤ 65535)
    (stop : range.stop = Int32.ofInt e) :
    range.next ⟨Int32.ofInt s, true⟩ =
      some (Int32.ofInt s, ⟨Int32.ofInt (s + d), decide (0 ≤ d * (e - (s + d)))⟩) := by
  have ending := toInt_ofInt_near (n := e) (by omega) (by omega)
  rw [LinearPortRange.next, if_pos rfl, stop]
  rcases direction with ⟨rfl, delta⟩ | ⟨rfl, delta⟩
  · have after := toInt_ofInt_near (n := s + 1) (by omega) (by omega)
    have moved : Int32.ofInt s + 1 = Int32.ofInt (s + 1) := (Int32.ofInt_add s 1).symm
    have passed : Int32.ofInt (s + 1) > Int32.ofInt e ↔ ¬ 0 ≤ 1 * (e - (s + 1)) := by
      rw [gt_iff_lt, Int32.lt_iff_toInt_lt, ending, after]
      omega
    have up : decide ((1 : Int32) > 0) = true := rfl
    have down : decide ((1 : Int32) < 0) = false := rfl
    simp only [delta, moved, up, down, Bool.true_and, Bool.false_and, Bool.or_false, passed,
      decide_not, Bool.not_not]
  · have after := toInt_ofInt_near (n := s + -1) (by omega) (by omega)
    have minus : (-1 : Int32) = Int32.ofInt (-1) := by decide
    have moved : Int32.ofInt s + -1 = Int32.ofInt (s + -1) := by rw [minus, Int32.ofInt_add]
    have passed : Int32.ofInt (s + -1) < Int32.ofInt e ↔ ¬ 0 ≤ -1 * (e - (s + -1)) := by
      rw [Int32.lt_iff_toInt_lt, ending, after]
      omega
    have up : decide ((-1 : Int32) > 0) = false := rfl
    have down : decide ((-1 : Int32) < 0) = true := rfl
    simp only [delta, moved, up, down, Bool.true_and, Bool.false_and, Bool.false_or, passed,
      decide_not, Bool.not_not]

/-- One number after another, `d` is the direction and `n` how many are left after the next. -/
theorem yields_linear (direction : d = 1 ∧ range.delta = 1 ∨ d = -1 ∧ range.delta = -1) (n : Nat) :
    ∀ s : Int, 0 ≤ s → s ≤ 65535 → 0 ≤ s + d * n → s + d * n ≤ 65535 →
      range.stop = Int32.ofInt (s + d * n) →
      Yields range.next ((List.range (n + 1)).map fun k : Nat => Int32.ofInt (s + d * k))
        ⟨Int32.ofInt s, true⟩ := by
  have square : d * d = 1 := by rcases direction with ⟨rfl, -⟩ | ⟨rfl, -⟩ <;> rfl
  induction n with
  | zero =>
    intro s low high end_low end_high stop
    have next := next_linear direction low high end_low end_high stop
    -- The number after the last one passes the end.
    have last : ¬ 0 ≤ d * (s + d * (0 : Nat) - (s + d)) := by
      rw [show d * (s + d * (0 : Nat) - (s + d)) = -(d * d) by push_cast; ring, square]
      decide
    rw [decide_eq_false last] at next
    have here : s + d * (0 : Nat) = s := by rw [Nat.cast_zero, mul_zero, add_zero]
    refine ⟨⟨Int32.ofInt (s + d), false⟩, ?_, rfl⟩
    show _ = some (Int32.ofInt (s + d * (0 : Nat)), _)
    rw [next, here]
  | succ n ih =>
    intro s low high end_low end_high stop
    have next := next_linear direction low high end_low end_high stop
    have more : 0 ≤ d * (s + d * (n + 1 : Nat) - (s + d)) := by
      rw [show d * (s + d * (n + 1 : Nat) - (s + d)) = d * d * n by push_cast; ring, square]
      omega
    rw [decide_eq_true more] at next
    have shifted (k : Nat) : s + d + d * k = s + d * (k + 1 : Nat) := by push_cast; ring
    have rest := ih (s + d) (by rcases direction with ⟨rfl, -⟩ | ⟨rfl, -⟩ <;> omega)
      (by rcases direction with ⟨rfl, -⟩ | ⟨rfl, -⟩ <;> omega)
      (by rw [shifted]; exact end_low) (by rw [shifted]; exact end_high)
      (by rw [shifted]; exact stop)
    rw [List.range_succ_eq_map, List.map_cons, List.map_map]
    have here : s + d * (0 : Nat) = s := by rw [Nat.cast_zero, mul_zero, add_zero]
    refine ⟨⟨Int32.ofInt (s + d), true⟩, ?_, ?_⟩
    · rw [next, here]
    · simp only [shifted] at rest
      exact rest

theorem iterates_consecutive {start stop : Int32} (first : IsPort start) (last : IsPort stop) :
    Iterates (linear (.create start stop)) (consecutive start stop) := by
  obtain ⟨low, high⟩ := first.toInt
  obtain ⟨end_low, end_high⟩ := last.toInt
  -- The direction, which the sign of the difference decides, and the terms in it.
  obtain ⟨d, direction, reached, terms⟩ : ∃ d : Int,
      (d = 1 ∧ (LinearPortRange.create start stop).delta = 1 ∨
        d = -1 ∧ (LinearPortRange.create start stop).delta = -1) ∧
      start.toInt + d * (stop.toInt - start.toInt).natAbs = stop.toInt ∧
      ∀ k : Nat, (if start ≤ stop then start.toInt + k else start.toInt - k) =
        start.toInt + d * k := by
    by_cases up : start ≤ stop
    · have upward := Int32.le_iff_toInt_le.mp up
      refine ⟨1, Or.inl ⟨rfl, if_pos up⟩, by omega, fun k => ?_⟩
      rw [if_pos up, one_mul]
    · have downward : stop.toInt < start.toInt := Int32.lt_iff_toInt_lt.mp (Int32.not_le.mp up)
      refine ⟨-1, Or.inr ⟨rfl, if_neg up⟩, by omega, fun k => ?_⟩
      rw [if_neg up, neg_one_mul, sub_eq_add_neg]
  have yields := yields_linear direction (stop.toInt - start.toInt).natAbs start.toInt low high
    (by rw [reached]; exact end_low) (by rw [reached]; exact end_high)
    (by rw [reached]; exact (Int32.ofInt_toInt stop).symm)
  rw [Int32.ofInt_toInt] at yields
  show Yields _ (consecutive start stop) _
  rw [consecutive]
  simp only [terms]
  exact yields

end Linear

section Reading

theorem IsPort.digitText {port : Int32} (is_port : IsPort port) :
    DigitText (intText port) ∧ parseInt (intText port) = some port := by
  obtain ⟨low, high⟩ := is_port.toInt
  have nonneg : ¬ port < 0 := Int32.not_lt.mpr is_port.1
  have digits : intText port = Nat.toDigits 10 port.toInt.natAbs := by
    rw [intText, if_neg nonneg, List.nil_append]
  have digit_text : DigitText (Nat.toDigits 10 port.toInt.natAbs) :=
    ⟨Nat.toDigits_ne_nil, isDigit_toDigits⟩
  have value := decimalValue_toDigits port.toInt.natAbs
  refine ⟨digits ▸ digit_text, ?_⟩
  rw [digits, parseInt, digit_text.parseInt_some (by rw [value, WildcardGlobs.maxInt]; omega),
    Option.map_some, Option.some.injEq]
  simp only [value]
  rw [show (port.toInt.natAbs : Int) = port.toInt by omega, Int32.ofInt_toInt]

theorem not_mem_digits {text : List Char} (digit_text : DigitText text) {c : Char}
    (other : c.isDigit = false) : c ∉ text := fun member =>
  ne_of_isDigit (digit_text.2 c member) other rfl

theorem visible_digits {text : List Char} (digit_text : DigitText text) : Visible text :=
  fun c member => visible_of_isDigit (digit_text.2 c member)

theorem fromPart_single {port : Int32} (is_port : IsPort port) :
    fromPart (intText port) = some (some (single port)) := by
  obtain ⟨digit_text, parsed⟩ := is_port.digitText
  have no_plus : (intText port).getLast? ≠ some '+' := fun last =>
    not_mem_digits digit_text (by decide) (List.mem_of_mem_getLast? last)
  have no_dash : (intText port).idxOf '-' = (intText port).length :=
    List.idxOf_eq_length (not_mem_digits digit_text (by decide))
  have some_digit : (intText port).length ≠ 0 := mt List.eq_nil_of_length_eq_zero digit_text.1
  simp [fromPart, (visible_digits digit_text).trim, no_plus, no_dash, some_digit, parsed]

theorem fromPart_linear {start stop : Int32} (first : IsPort start) (last : IsPort stop) :
    fromPart (intText start ++ '-' :: intText stop) =
      some (some (linear (.create start stop))) := by
  obtain ⟨first_digits, first_parsed⟩ := first.digitText
  obtain ⟨last_digits, last_parsed⟩ := last.digitText
  have visible : Visible (intText start ++ '-' :: intText stop) :=
    (visible_digits first_digits).append (List.forall_mem_cons.mpr
      ⟨by decide, visible_digits last_digits⟩)
  have no_plus : (intText start ++ '-' :: intText stop).getLast? ≠ some '+' := fun ends => by
    rcases List.mem_append.mp (List.mem_of_mem_getLast? ends) with among | among
    · exact not_mem_digits first_digits (by decide) among
    · exact not_mem_digits last_digits (by decide)
        ((List.mem_cons.mp among).resolve_left (by decide))
  have dash : (intText start ++ '-' :: intText stop).idxOf '-' = (intText start).length := by
    rw [List.idxOf_append_of_notMem (not_mem_digits first_digits (by decide)), List.idxOf_cons_self,
      Nat.add_zero]
  have some_digit : 0 < (intText start).length := List.length_pos_iff.mpr first_digits.1
  have inside : (intText start).length < (intText start ++ '-' :: intText stop).length := by
    rw [List.length_append, List.length_cons]
    omega
  have before : (intText start ++ '-' :: intText stop).take (intText start).length =
      intText start := List.take_left
  have behind : (intText start ++ '-' :: intText stop).drop ((intText start).length + 1) =
      intText stop := List.drop_length_add_append 1
  simp only [fromPart, visible.trim, if_neg no_plus, dash, if_pos (And.intro some_digit inside),
    before, behind, (visible_digits first_digits).trim, (visible_digits last_digits).trim,
    first_parsed, last_parsed, Option.map_some]

theorem fromParts_append (parts others : List (List Char)) :
    fromParts (parts ++ others) =
      (fromParts parts).bind fun ranges => (fromParts others).map (ranges ++ ·) := by
  induction parts with
  | nil => simp [fromParts]
  | cons si parts ih =>
    rw [List.cons_append, fromParts, fromParts, ih]
    cases fromPart si with
    | none => rfl
    | some range =>
      cases fromParts parts with
      | none => rfl
      | some ranges => cases fromParts others <;> simp

theorem fromParts_blank {parts : List (List Char)} (blank : ∀ si ∈ parts, si = []) :
    fromParts parts = some [] := by
  induction parts with
  | nil => rfl
  | cons si parts ih =>
    obtain ⟨rfl, rest⟩ := List.forall_mem_cons.mp blank
    rw [fromParts, ih rest]
    rfl

/-- The empty parts that `split` drops are blank. -/
theorem fromParts_split (s : List Char) :
    fromParts (NetworkUtils.split ',' s) = fromParts (s.splitOn ',') := by
  rw [NetworkUtils.split]
  split
  next =>
    have parts := List.takeWhile_append_dropWhile (p := List.isEmpty) (l := (s.splitOn ',').reverse)
    have blank : ∀ si ∈ ((s.splitOn ',').reverse.takeWhile List.isEmpty).reverse, si = [] :=
      fun si member => List.isEmpty_iff.mp (List.mem_takeWhile_imp (List.mem_reverse.mp member))
    have whole : s.splitOn ',' = ((s.splitOn ',').reverse.dropWhile List.isEmpty).reverse ++
        ((s.splitOn ',').reverse.takeWhile List.isEmpty).reverse := by
      rw [← List.reverse_append, parts, List.reverse_reverse]
    rw [whole, fromParts_append, fromParts_blank blank, ← whole]
    cases fromParts ((s.splitOn ',').reverse.dropWhile List.isEmpty).reverse <;> simp
  next outside => rw [List.splitOn_eq_singleton outside]

/-- Made of ports, with the step that goes from the first to the last. -/
def IsLeafOfPorts : PortRange → Prop
  | single port => IsPort port
  | linear range =>
      range = .create range.start range.stop ∧ IsPort range.start ∧ IsPort range.stop
  | aggregate _ => False

theorem fromPart_leaf {leaf : PortRange} (of_ports : IsLeafOfPorts leaf) :
    fromPart (toString leaf) = some (some leaf) ∧ ',' ∉ toString leaf := by
  cases leaf with
  | single port =>
    exact ⟨fromPart_single of_ports, not_mem_digits of_ports.digitText.1 (by decide)⟩
  | linear range =>
    obtain ⟨made, first, last⟩ := of_ports
    refine ⟨(fromPart_linear first last).trans (by rw [← made]), fun comma => ?_⟩
    rcases List.mem_append.mp comma with among | among
    · exact not_mem_digits first.digitText.1 (by decide) among
    · exact not_mem_digits last.digitText.1 (by decide)
        ((List.mem_cons.mp among).resolve_left (by decide))
  | aggregate ranges => exact of_ports.elim

/-- What is printed is read as the leaves, an aggregate without any prints nothing. -/
theorem fromParts_toString (range : PortRange)
    (of_ports : ∀ leaf ∈ leaves range, IsLeafOfPorts leaf) :
    fromParts ((toString range).splitOn ',') = some (leaves range) := by
  have leaf_read (leaf : PortRange) (of_ports : IsLeafOfPorts leaf) :
      fromParts ((toString leaf).splitOn ',') = some [leaf] := by
    obtain ⟨read, no_comma⟩ := fromPart_leaf of_ports
    rw [List.splitOn_eq_singleton no_comma, fromParts, read]
    rfl
  induction range with
  | single port => exact leaf_read _ (of_ports _ List.mem_cons_self)
  | linear range => exact leaf_read _ (of_ports _ List.mem_cons_self)
  | aggregate ranges ih =>
    -- The loop of `toString` puts a comma only where something has been written.
    have loop : ∀ s before, fromParts (s.splitOn ',') = some before →
        fromParts ((appendAll ranges s).splitOn ',') = some (before ++ allLeaves ranges) := by
      induction ranges with
      | nil =>
        intro s before read
        rw [allLeaves, List.append_nil]
        exact read
      | cons range ranges rest =>
        intro s before read
        obtain ⟨one, others⟩ := List.forall_mem_cons.mp ih
        obtain ⟨of_first, of_rest⟩ := List.forall_mem_append.mp of_ports
        have first := one of_first
        rw [appendAll, allLeaves, ← List.append_assoc]
        refine rest others of_rest _ _ ?_
        split
        next =>
          rw [List.append_assoc, List.singleton_append, List.splitOn_append_cons_self,
            fromParts_append, read, first]
          rfl
        next empty =>
          obtain rfl : s = [] := List.length_eq_zero_iff.mp (Nat.le_zero.mp (Nat.not_lt.mp empty))
          obtain rfl : before = [] := (Option.some.inj read).symm
          exact first
    exact loop [] [] rfl

theorem fromString_toString {range : PortRange}
    (of_ports : ∀ leaf ∈ leaves range, IsLeafOfPorts leaf) :
    ∃ again, fromString (toString range) = some again ∧
      ∀ ports, Iterates again ports ↔ Iterates range ports := by
  have read := (fromParts_split (toString range)).trans (fromParts_toString range of_ports)
  have same := iterates_leaves range
  rw [fromString, read]
  -- A single part is returned as it is, without an aggregate around it.
  match leaves range, same with
  | [leaf], same => exact ⟨leaf, rfl, fun ports => iteratesAll_singleton.symm.trans (same ports)⟩
  | [], same => exact ⟨aggregate [], rfl, same⟩
  | leaf :: next :: rest, same => exact ⟨aggregate (leaf :: next :: rest), rfl, same⟩

theorem exists_iterates {range : PortRange}
    (of_ports : ∀ leaf ∈ leaves range, IsLeafOfPorts leaf) : ∃ ports, Iterates range ports := by
  suffices all : ∀ ranges : List PortRange, (∀ leaf ∈ ranges, IsLeafOfPorts leaf) →
      ∃ ports, IteratesAll ranges ports by
    obtain ⟨ports, iterates⟩ := all (leaves range) of_ports
    exact ⟨ports, (iterates_leaves range ports).mp iterates⟩
  intro ranges of_ports
  induction ranges with
  | nil => exact ⟨[], rfl⟩
  | cons leaf ranges ih =>
    obtain ⟨of_leaf, of_rest⟩ := List.forall_mem_cons.mp of_ports
    obtain ⟨back, rest⟩ := ih of_rest
    cases leaf with
    | single port => exact ⟨_, [port], back, rfl, rfl, rest⟩
    | linear range =>
      obtain ⟨made, first, last⟩ := of_leaf
      have iterates := iterates_consecutive first last
      rw [← made] at iterates
      exact ⟨_, _, back, rfl, iterates, rest⟩
    | aggregate ranges => exact of_leaf.elim

end Reading

section Built

mutual

/-- The ranges that other objects in an element are coerced to. -/
def others : Element → List PortRange
  | .integer _ => []
  | .string _ => []
  | .collection c => allOthers c
  | .other coerced => coerced.toList

def allOthers : List Element → List PortRange
  | [] => []
  | o :: c => others o ++ allOthers c

end

/-- What the public operations make. -/
inductive Built : PortRange → Prop
  | create (start stop : Int32) : Built (linear (.create start stop))
  | fromInteger (x : Int32) : Built (fromInteger x)
  | fromString {s : List Char} {range : PortRange} (read : fromString s = some range) : Built range
  | fromCollection {c : List Element} {range : PortRange} (made : fromCollection c = some range)
      (parts : ∀ part ∈ allOthers c, Built part) : Built range

/-- The step of a linear range goes from its first port to its last. -/
def IsConstructed : PortRange → Prop
  | single _ => True
  | linear range => range = .create range.start range.stop
  | aggregate _ => True

def Constructed (range : PortRange) : Prop := ∀ leaf ∈ leaves range, IsConstructed leaf

theorem constructed_single (port : Int32) : Constructed (single port) :=
  List.forall_mem_singleton.mpr trivial

theorem constructed_create (start stop : Int32) : Constructed (linear (.create start stop)) :=
  List.forall_mem_singleton.mpr rfl

theorem constructed_aggregate {ranges : List PortRange}
    (all : ∀ range ∈ ranges, Constructed range) : Constructed (aggregate ranges) := by
  intro leaf member
  have among : leaf ∈ ranges.flatMap leaves := allLeaves_eq ranges ▸ member
  obtain ⟨range, inside, among⟩ := List.mem_flatMap.mp among
  exact all range inside leaf among

theorem fromPart_constructed {si : List Char} {range : PortRange}
    (read : fromPart si = some (some range)) : Constructed range := by
  simp only [fromPart] at read
  split_ifs at read with plus dash empty
  · obtain ⟨start, -, same⟩ := Option.map_eq_some_iff.mp read
    exact Option.some.inj same ▸ constructed_create start maxPort
  · split at read
    next => cases read
    next start _ =>
      obtain ⟨stop, -, same⟩ := Option.map_eq_some_iff.mp read
      exact Option.some.inj same ▸ constructed_create start stop
  · cases read
  · obtain ⟨port, -, same⟩ := Option.map_eq_some_iff.mp read
    exact Option.some.inj same ▸ constructed_single port

theorem fromParts_constructed {parts : List (List Char)} {ranges : List PortRange}
    (read : fromParts parts = some ranges) : ∀ range ∈ ranges, Constructed range := by
  induction parts generalizing ranges with
  | nil =>
    cases read
    exact List.forall_mem_nil _
  | cons si parts ih =>
    rw [fromParts] at read
    cases part : fromPart si with
    | none => simp [part] at read
    | some range =>
      simp only [part] at read
      obtain ⟨rest, read_rest, rfl⟩ := Option.map_eq_some_iff.mp read
      refine List.forall_mem_append.mpr ⟨fun first member => ?_, ih read_rest⟩
      obtain rfl := Option.mem_toList.mp member
      exact fromPart_constructed part

theorem fromString_constructed {s : List Char} {range : PortRange}
    (read : fromString s = some range) : Constructed range := by
  rw [fromString] at read
  split at read
  next => cases read
  next single parts =>
    cases read
    exact fromParts_constructed parts _ List.mem_cons_self
  next ranges _ parts =>
    cases read
    exact constructed_aggregate (fromParts_constructed parts)

mutual

theorem fromElement_constructed : ∀ (o : Element) (range : PortRange),
    fromElement o = some range → (∀ part ∈ others o, Constructed part) → Constructed range
  | .integer x, _, rfl, _ => constructed_single x
  | .string _, _, read, _ => fromString_constructed read
  | .collection c, range, made, parts => by
    obtain ⟨ranges, all, rfl⟩ := Option.map_eq_some_iff.mp made
    exact constructed_aggregate (fromElements_constructed c ranges all parts)
  | .other _, range, made, parts => parts range (Option.mem_toList.mpr made)

theorem fromElements_constructed : ∀ (c : List Element) (ranges : List PortRange),
    fromElements c = some ranges → (∀ part ∈ allOthers c, Constructed part) →
      ∀ range ∈ ranges, Constructed range
  | [], _, rfl, _ => List.forall_mem_nil _
  | o :: c, ranges, made, parts => by
    obtain ⟨of_first, of_rest⟩ := List.forall_mem_append.mp parts
    rw [fromElements] at made
    cases first : fromElement o with
    | none => simp [first] at made
    | some range =>
      simp only [first] at made
      obtain ⟨rest, read_rest, rfl⟩ := Option.map_eq_some_iff.mp made
      exact List.forall_mem_cons.mpr ⟨fromElement_constructed o range first of_first,
        fromElements_constructed c rest read_rest of_rest⟩

end

theorem Built.constructed {range : PortRange} (built : Built range) : Constructed range := by
  induction built with
  | create start stop => exact constructed_create start stop
  | fromInteger x => exact constructed_single x
  | fromString read => exact fromString_constructed read
  | fromCollection made _ parts =>
    obtain ⟨ranges, all, rfl⟩ := Option.map_eq_some_iff.mp made
    exact constructed_aggregate (fromElements_constructed _ ranges all parts)

def leafBounds : PortRange → List Int32
  | single port => [port]
  | linear range => [range.start, range.stop]
  | aggregate _ => []

/-- The numbers that a range is made from. -/
def bounds (range : PortRange) : List Int32 := (leaves range).flatMap leafBounds

theorem leaves_not_aggregate (range : PortRange) :
    ∀ ranges, aggregate ranges ∉ leaves range := by
  induction range with
  | single port => simp [leaves]
  | linear range => simp [leaves]
  | aggregate nested ih =>
    intro ranges member
    have among : aggregate ranges ∈ nested.flatMap leaves := allLeaves_eq nested ▸ member
    obtain ⟨range, inside, among⟩ := List.mem_flatMap.mp among
    exact ih range inside ranges among

theorem Built.of_ports {range : PortRange} (built : Built range)
    (ports : ∀ port ∈ bounds range, IsPort port) : ∀ leaf ∈ leaves range, IsLeafOfPorts leaf := by
  intro leaf member
  have constructed := built.constructed leaf member
  have within : ∀ port ∈ leafBounds leaf, IsPort port := fun port inside =>
    ports port (List.mem_flatMap.mpr ⟨leaf, member, inside⟩)
  cases leaf with
  | single port => exact within port List.mem_cons_self
  | linear range =>
    exact ⟨constructed, within _ List.mem_cons_self,
      within _ (List.mem_cons_of_mem _ List.mem_cons_self)⟩
  | aggregate ranges => exact absurd member (leaves_not_aggregate range ranges)

/-- A range made from ports is printed and read back to one with the same ports, it is empty where
there are none, and a linear range in it goes through all ports between its ends. -/
theorem round_trip {range : PortRange} (built : Built range)
    (ports : ∀ port ∈ bounds range, IsPort port) :
    (∃ again iterated, fromString (toString range) = some again ∧
      ∀ others, (Iterates range others ↔ others = iterated) ∧
        (Iterates again others ↔ others = iterated)) ∧
    (isEmpty range = true ↔ Iterates range []) ∧
    ∀ linearRange, linear linearRange ∈ leaves range →
      Iterates (linear linearRange) (consecutive linearRange.start linearRange.stop) := by
  have of_ports := built.of_ports ports
  refine ⟨?_, isEmpty_iff range, fun linearRange member => ?_⟩
  · obtain ⟨again, read, same⟩ := fromString_toString of_ports
    obtain ⟨iterated, iterates⟩ := exists_iterates of_ports
    have unique (others : List Int32) : Iterates range others ↔ others = iterated :=
      ⟨iterates_unique iterates, fun equal => equal ▸ iterates⟩
    exact ⟨again, iterated, read, fun others =>
      ⟨unique others, (same others).trans (unique others)⟩⟩
  · obtain ⟨made, first, last⟩ := of_ports _ member
    have iterates := iterates_consecutive first last
    rwa [← made] at iterates

/-- A single port, nothing, and three ports downwards. -/
theorem round_trip_nested :
    let range := aggregate [single 80, aggregate [], linear (.create 8002 8000)]
    ∃ again iterated, fromString (toString range) = some again ∧
      ∀ others, (Iterates range others ↔ others = iterated) ∧
        (Iterates again others ↔ others = iterated) := by
  have made : fromCollection
      [.integer 80, .collection [], .other (some (linear (.create 8002 8000)))] =
        some (aggregate [single 80, aggregate [], linear (.create 8002 8000)]) := rfl
  have built := Built.fromCollection made (List.forall_mem_singleton.mpr (Built.create 8002 8000))
  refine (round_trip built fun port member => ?_).1
  have listed : port ∈ ([80, 8002, 8000] : List Int32) := member
  rcases List.mem_cons.mp listed with rfl | listed
  · exact ⟨by decide, by decide⟩
  rcases List.mem_pair.mp listed with rfl | rfl
  · exact ⟨by decide, by decide⟩
  · exact ⟨by decide, by decide⟩

end Built

end Brooklyn.PortRanges
