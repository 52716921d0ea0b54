import Brooklyn.Timeline
import Mathlib.Data.Int.Order.Basic
import Mathlib.Data.List.TakeWhile

/-!
`TimeWindowedList`: timestamped values in the order of their adds, pruned on
every add and on every query of the values. Times and periods are milliseconds as
integers, without the overflow of `long`; the two minimum counts are natural
numbers, where a subtraction that would go negative prunes nothing, as the
source's loop does. The synchronized methods are atomic. `history` in the results
is every value added, in order.
-/

namespace Brooklyn
open Timeline

structure TimestampedValue (Value : Type) where
  value : Value
  timestamp : Int
deriving DecidableEq

structure TimeWindowedList (Value : Type) where
  values : List (TimestampedValue Value)
  timePeriod : Int
  minVals : Nat
  minExpiredVals : Nat

namespace TimeWindowedList
variable {Value : Type}

def new (timePeriod : Int) (minVals minExpiredVals : Nat) : TimeWindowedList Value :=
  ⟨[], timePeriod, minVals, minExpiredVals⟩

def getLatestValue (list : TimeWindowedList Value) : Option Value :=
  list.values.getLast?.map TimestampedValue.value

def expired (list : TimeWindowedList Value) (now : Int) (val : TimestampedValue Value) : Bool :=
  list.timePeriod == 0 || decide (val.timestamp < now - list.timePeriod)

def expiredValsCount (list : TimeWindowedList Value) (now : Int) : Nat :=
  (list.values.takeWhile (list.expired now)).length

def numToPrune (list : TimeWindowedList Value) (now : Int) : Nat :=
  min (list.expiredValsCount now - list.minExpiredVals) (list.values.length - list.minVals)

def pruneValues (list : TimeWindowedList Value) (now : Int) : TimeWindowedList Value :=
  { list with values := list.values.drop (list.numToPrune now) }

def getValues (list : TimeWindowedList Value) (now : Int) :
    TimeWindowedList Value × List (TimestampedValue Value) :=
  let pruned := list.pruneValues now
  (pruned, pruned.values)

def getValuesInWindow (list : TimeWindowedList Value) (now subTimePeriod : Int) :
    List (TimestampedValue Value) :=
  let recent := since TimestampedValue.timestamp (now - subTimePeriod) list.values
  let mostRecentExpired := inEffect TimestampedValue.timestamp (now - subTimePeriod) list.values
  let result :=
    if list.minExpiredVals > 0 then mostRecentExpired.toList ++ recent else recent
  if result.length < list.minVals then list.values.drop (list.values.length - list.minVals)
  else result

def add (list : TimeWindowedList Value) (val : Value) (timestamp : Int) : TimeWindowedList Value :=
  let added := { list with values := list.values ++ [(⟨val, timestamp⟩ : TimestampedValue Value)] }
  added.pruneValues timestamp

theorem window_seen (list : TimeWindowedList Value) (noMinimum : list.minVals = 0)
    (keepsExpired : list.minExpiredVals > 0) (now subTimePeriod : Int) :
    list.getValuesInWindow now subTimePeriod =
      seen TimestampedValue.timestamp (now - subTimePeriod) list.values := by
  simp [getValuesInWindow, noMinimum, keepsExpired, seen]

theorem mem_of_window {list : TimeWindowedList Value} {now subTimePeriod : Int}
    {val : TimestampedValue Value} (member : val ∈ list.getValuesInWindow now subTimePeriod) :
    val ∈ list.values := by
  unfold getValuesInWindow at member
  dsimp only at member
  split at member
  · split at member
    · exact List.mem_of_mem_drop member
    · exact mem_of_seen member
  · split at member
    · exact List.mem_of_mem_drop member
    · exact (mem_since.mp member).1

section Pruning

theorem expired_later {list : TimeWindowedList Value} {now later : Int} (passed : now ≤ later)
    {val : TimestampedValue Value} (past : list.expired now val = true) :
    list.expired later val = true := by
  simp only [expired, Bool.or_eq_true, beq_iff_eq, decide_eq_true_eq] at past ⊢
  omega

theorem takeWhile_length_mono {Entry : Type} {weak strong : Entry → Bool}
    (implied : ∀ entry, strong entry = true → weak entry = true) (entries more : List Entry) :
    (entries.takeWhile strong).length ≤ ((entries ++ more).takeWhile weak).length := by
  induction entries with
  | nil => simp
  | cons first rest ih =>
      by_cases holds : strong first = true
      · simpa [List.takeWhile_cons, holds, implied first holds] using ih
      · simp [holds]

theorem takeWhile_length_drop {Entry : Type} (test : Entry → Bool) (entries : List Entry)
    (count : Nat) :
    (entries.takeWhile test).length ≤ ((entries.drop count).takeWhile test).length + count := by
  induction entries generalizing count with
  | nil => simp
  | cons first rest ih =>
      cases count with
      | zero => simp
      | succ count =>
          by_cases holds : test first = true
          · simpa [List.takeWhile_cons, holds, ← Nat.add_assoc] using ih count
          · simp [holds]

/-- What pruning keeps of a history: everything, or a suffix of it that still has
the two minimum counts. -/
def Retains (list : TimeWindowedList Value) (history : List (TimestampedValue Value))
    (now : Int) : Prop :=
  ∃ dropped, history = dropped ++ list.values ∧
    (dropped ≠ [] → list.minVals ≤ list.values.length ∧
      list.minExpiredVals ≤ list.expiredValsCount now)

theorem retains_new (timePeriod : Int) (minVals minExpiredVals : Nat) (now : Int) :
    (new timePeriod minVals minExpiredVals : TimeWindowedList Value).Retains [] now :=
  ⟨[], rfl, fun some => absurd rfl some⟩

theorem retains_later {list : TimeWindowedList Value} {history : List (TimestampedValue Value)}
    {now later : Int} (retains : list.Retains history now) (passed : now ≤ later) :
    list.Retains history later := by
  obtain ⟨dropped, split, counts⟩ := retains
  refine ⟨dropped, split, fun some => ⟨(counts some).1, (counts some).2.trans ?_⟩⟩
  have lasting : ∀ val, list.expired now val = true → list.expired later val = true :=
    fun _ past => expired_later passed past
  have grows := takeWhile_length_mono lasting list.values []
  simpa [expiredValsCount] using grows

theorem pruneValues_retains {list : TimeWindowedList Value}
    {history : List (TimestampedValue Value)} {now : Int} (retains : list.Retains history now) :
    (list.pruneValues now).Retains history now := by
  obtain ⟨dropped, split, counts⟩ := retains
  refine ⟨dropped ++ list.values.take (list.numToPrune now), ?_, fun _ => ?_⟩
  · simp [pruneValues, split]
  -- The counts are only about a list that dropped something.
  · by_cases nothing : list.numToPrune now = 0
    · have unchanged : list.pruneValues now = list := by simp [pruneValues, nothing]
      rw [unchanged]
      apply counts
      rintro rfl
      simp_all
    · have remaining := takeWhile_length_drop (list.expired now) list.values (list.numToPrune now)
      have expiredLeft : (list.pruneValues now).expiredValsCount now =
          ((list.values.drop (list.numToPrune now)).takeWhile (list.expired now)).length := rfl
      have valuesLeft : (list.pruneValues now).values.length =
          list.values.length - list.numToPrune now := by simp [pruneValues]
      have bound : list.numToPrune now =
          min (list.expiredValsCount now - list.minExpiredVals)
            (list.values.length - list.minVals) := rfl
      have before : list.expiredValsCount now =
          (list.values.takeWhile (list.expired now)).length := rfl
      rw [expiredLeft, valuesLeft]
      change list.minVals ≤ _ ∧ list.minExpiredVals ≤ _
      omega

theorem appended_retains {list : TimeWindowedList Value}
    {history : List (TimestampedValue Value)} {now timestamp : Int}
    (retains : list.Retains history now) (passed : now ≤ timestamp)
    (added : TimestampedValue Value) :
    { list with values := list.values ++ [added] }.Retains (history ++ [added]) timestamp := by
  obtain ⟨dropped, split, counts⟩ := retains_later retains passed
  refine ⟨dropped, by simp [split], fun some => ⟨?_, ?_⟩⟩
  · have room := (counts some).1
    simp only [List.length_append, List.length_singleton]
    omega
  · exact (counts some).2.trans (takeWhile_length_mono (fun _ past => past) _ _)

theorem add_retains {list : TimeWindowedList Value} {history : List (TimestampedValue Value)}
    {now timestamp : Int} (retains : list.Retains history now) (passed : now ≤ timestamp)
    (val : Value) : (list.add val timestamp).Retains (history ++ [⟨val, timestamp⟩]) timestamp :=
  pruneValues_retains (appended_retains retains passed _)

theorem mem_of_mem_add {list : TimeWindowedList Value} {val : Value} {timestamp : Int}
    {entry : TimestampedValue Value} (member : entry ∈ (list.add val timestamp).values) :
    entry ∈ list.values ∨ entry = ⟨val, timestamp⟩ := by
  have appended := List.mem_of_mem_drop member
  simpa using appended

theorem expiredValsCount_le (list : TimeWindowedList Value) (now : Int) :
    list.expiredValsCount now ≤ list.values.length :=
  (List.takeWhile_prefix _).length_le

/-- A list that keeps an expired value never prunes the latest one. -/
theorem add_keeps_latest (list : TimeWindowedList Value) (keepsExpired : list.minExpiredVals > 0)
    (val : Value) (timestamp : Int) :
    ∃ earlier, (list.add val timestamp).values = earlier ++ [⟨val, timestamp⟩] := by
  let added : TimeWindowedList Value := { list with values := list.values ++ [⟨val, timestamp⟩] }
  have counted := expiredValsCount_le added timestamp
  have size : added.values.length = list.values.length + 1 := by simp [added]
  have few : added.numToPrune timestamp ≤ list.values.length := by
    have kept : added.minExpiredVals = list.minExpiredVals := rfl
    simp only [numToPrune]
    omega
  refine ⟨list.values.drop (added.numToPrune timestamp), ?_⟩
  exact List.drop_append_of_le_length few

theorem first_expired {list : TimeWindowedList Value} {now : Int}
    (some : 1 ≤ list.expiredValsCount now) :
    ∃ val ∈ list.values, list.expired now val = true := by
  obtain ⟨val, member⟩ := List.exists_mem_of_length_pos some
  exact ⟨val, (List.takeWhile_prefix _).subset member, List.mem_takeWhile_imp member⟩

end Pruning

section Windows

inductive Call (Value : Type)
  | add (val : Value) (timestamp : Int)
  | pruneValues (now : Int)
  | getValues (now : Int)
  | getValuesInWindow (now subTimePeriod : Int)

def Call.time : Call Value → Int
  | .add _ timestamp => timestamp
  | .pruneValues now | .getValues now | .getValuesInWindow now _ => now

/-- What the calls of `getValuesInWindow` return. -/
def windows (list : TimeWindowedList Value) :
    List (Call Value) → List (List (TimestampedValue Value))
  | [] => []
  | .add val timestamp :: calls => (list.add val timestamp).windows calls
  | .pruneValues now :: calls => (list.pruneValues now).windows calls
  | .getValues now :: calls => (list.getValues now).1.windows calls
  | .getValuesInWindow now subTimePeriod :: calls =>
      list.getValuesInWindow now subTimePeriod :: list.windows calls

/-- What they would return if nothing was ever pruned. -/
def unprunedWindows (list : TimeWindowedList Value) :
    List (Call Value) → List (List (TimestampedValue Value))
  | [] => []
  | .add val timestamp :: calls =>
      unprunedWindows { list with values := list.values ++ [⟨val, timestamp⟩] } calls
  | .pruneValues _ :: calls => list.unprunedWindows calls
  | .getValues _ :: calls => list.unprunedWindows calls
  | .getValuesInWindow now subTimePeriod :: calls =>
      list.getValuesInWindow now subTimePeriod :: list.unprunedWindows calls

/-- What of a history in the order of its times is not in the list is expired, and the list has
the two minimum counts if anything is not. -/
structure Hides (list : TimeWindowedList Value) (history : List (TimestampedValue Value))
    (now : Int) : Prop where
  retains : list.Retains history now
  dropped : ∀ dropped, history = dropped ++ list.values →
    ∀ val ∈ dropped, list.expired now val = true
  ordered : Ordered TimestampedValue.timestamp history
  past : ∀ val ∈ history, val.timestamp ≤ now

variable {list : TimeWindowedList Value} {history : List (TimestampedValue Value)} {now later : Int}

theorem take_expired {count : Nat} (few : count ≤ list.expiredValsCount now)
    {val : TimestampedValue Value} (member : val ∈ list.values.take count) :
    list.expired now val = true := by
  have front : list.values.take count <+: list.values.takeWhile (list.expired now) :=
    List.prefix_of_prefix_length_le (List.take_prefix _ _) (List.takeWhile_prefix _)
      ((List.length_take_le _ _).trans few)
  exact List.mem_takeWhile_imp (front.subset member)

theorem Hides.still (hides : list.Hides history now) (passed : now ≤ later) :
    list.Hides history later where
  retains := retains_later hides.retains passed
  dropped dropped split val member := expired_later passed (hides.dropped dropped split val member)
  ordered := hides.ordered
  past val member := (hides.past val member).trans passed

theorem Hides.pruneValues (hides : list.Hides history now) :
    (list.pruneValues now).Hides history now where
  retains := pruneValues_retains hides.retains
  dropped := by
    intro dropped split val member
    obtain ⟨earlier, before, -⟩ := hides.retains
    have whole : dropped = earlier ++ list.values.take (list.numToPrune now) := by
      have pieces : earlier ++ list.values =
          (earlier ++ list.values.take (list.numToPrune now)) ++ (list.pruneValues now).values := by
        rw [List.append_assoc, TimeWindowedList.pruneValues, List.take_append_drop]
      rw [← before, split] at pieces
      exact List.append_cancel_right pieces
    rw [whole] at member
    rcases List.mem_append.mp member with already | pruned
    · exact hides.dropped earlier before val already
    · have few : list.numToPrune now ≤ list.expiredValsCount now :=
        (Nat.min_le_left _ _).trans (Nat.sub_le _ _)
      exact take_expired few pruned
  ordered := hides.ordered
  past := hides.past

theorem Hides.add (hides : list.Hides history now) (passed : now ≤ later) (val : Value) :
    (list.add val later).Hides (history ++ [⟨val, later⟩]) later := by
  apply Hides.pruneValues
  have still := hides.still passed
  refine ⟨appended_retains hides.retains passed _, ?_, ?_, ?_⟩
  · intro dropped grown
    rw [← List.append_assoc] at grown
    exact still.dropped dropped (List.append_cancel_right grown)
  · refine List.pairwise_append.mpr ⟨hides.ordered, List.pairwise_singleton _ _, ?_⟩
    intro earlier member last new
    rw [List.mem_singleton.mp new]
    exact still.past earlier member
  · intro entry member
    rcases List.mem_append.mp member with there | here
    · exact still.past entry there
    · rw [List.mem_singleton.mp here]

/-- A window within the time period shows of a list what it would show of the whole history. -/
theorem window_hides (hides : list.Hides history now) (positive : 0 < list.timePeriod)
    (passed : now ≤ later) {subTimePeriod : Int} (within : subTimePeriod ≤ list.timePeriod) :
    { list with values := history }.getValuesInWindow later subTimePeriod =
      list.getValuesInWindow later subTimePeriod := by
  obtain ⟨dropped, rfl, counts⟩ := (hides.still passed).retains
  by_cases nothing : dropped = []
  · subst nothing
    rfl
  obtain ⟨room, kept⟩ := counts nothing
  have early : ∀ val ∈ dropped, val.timestamp < later - subTimePeriod := by
    intro val member
    have past := (hides.still passed).dropped dropped rfl val member
    simp only [expired, Bool.or_eq_true, beq_iff_eq, decide_eq_true_eq] at past
    omega
  have recent : since TimestampedValue.timestamp (later - subTimePeriod) dropped = [] := by
    rw [List.eq_nil_iff_forall_not_mem]
    intro val member
    obtain ⟨there, late⟩ := mem_since.mp member
    exact absurd (early val there) (not_lt.mpr late)
  have tail : (dropped ++ list.values).drop ((dropped ++ list.values).length - list.minVals) =
      list.values.drop (list.values.length - list.minVals) := by
    rw [List.length_append, Nat.add_sub_assoc room, List.drop_append]
    simp
  unfold getValuesInWindow
  dsimp only
  rw [since_append, recent, List.nil_append, tail]
  by_cases keeps : list.minExpiredVals > 0
  · -- A kept value from before the window is the one in effect at its start.
    obtain ⟨val, member, past⟩ := first_expired (Nat.le_trans keeps kept)
    have before : val.timestamp < later - subTimePeriod := by
      simp only [expired, Bool.or_eq_true, beq_iff_eq, decide_eq_true_eq] at past
      omega
    rw [inEffect_of_kept_before dropped member before]
  · rw [if_neg keeps, if_neg keeps]

/-- Every call finds a list that hides nothing from a later window. -/
theorem windows_hides (hides : list.Hides history now) (positive : 0 < list.timePeriod)
    (calls : List (Call Value)) (passed : ∀ call ∈ calls, now ≤ call.time)
    (ordered : (calls.map Call.time).Pairwise (· ≤ ·))
    (within : ∀ now subTimePeriod, .getValuesInWindow now subTimePeriod ∈ calls →
      subTimePeriod ≤ list.timePeriod) :
    list.windows calls = unprunedWindows { list with values := history } calls := by
  induction calls generalizing list history now with
  | nil => rfl
  | cons call calls ih =>
    obtain ⟨next, ordered_rest⟩ := List.pairwise_cons.mp ordered
    have later : ∀ other ∈ calls, call.time ≤ other.time := fun other member =>
      next _ (List.mem_map_of_mem member)
    have reached := passed call List.mem_cons_self
    have within_rest : ∀ now subTimePeriod, .getValuesInWindow now subTimePeriod ∈ calls →
        subTimePeriod ≤ list.timePeriod := fun now subTimePeriod member =>
      within now subTimePeriod (List.mem_cons_of_mem _ member)
    have pruned := (hides.still reached).pruneValues
    cases call with
    | add val timestamp => exact ih (hides.add reached val) positive later ordered_rest within_rest
    | pruneValues now => exact ih pruned positive later ordered_rest within_rest
    | getValues now => exact ih pruned positive later ordered_rest within_rest
    | getValuesInWindow now subTimePeriod =>
      -- A window prunes nothing, the list goes on as it is.
      have shown : { list with values := history }.getValuesInWindow now subTimePeriod =
          list.getValuesInWindow now subTimePeriod :=
        window_hides hides positive reached (within now subTimePeriod List.mem_cons_self)
      have rest := ih (hides.still reached) positive later ordered_rest within_rest
      rw [windows, unprunedWindows, shown, rest]

/-- Pruning is not seen by any window within the time period. -/
theorem windows_eq_unpruned (timePeriod : Int) (minVals minExpiredVals : Nat)
    (positive : 0 < timePeriod) (calls : List (Call Value))
    (ordered : (calls.map Call.time).Pairwise (· ≤ ·))
    (within : ∀ now subTimePeriod, .getValuesInWindow now subTimePeriod ∈ calls →
      subTimePeriod ≤ timePeriod) :
    (new timePeriod minVals minExpiredVals).windows calls =
      (new timePeriod minVals minExpiredVals).unprunedWindows calls := by
  cases calls with
  | nil => rfl
  | cons call calls =>
    have fresh : (new timePeriod minVals minExpiredVals : TimeWindowedList Value).Hides []
        call.time := by
      refine ⟨retains_new _ _ _ _, fun dropped split val member => ?_, List.Pairwise.nil, by simp⟩
      rw [(List.nil_eq_append_iff.mp split).1] at member
      cases member
    refine windows_hides fresh positive (call :: calls) (fun other member => ?_) ordered within
    rcases List.mem_cons.mp member with rfl | later
    · exact Int.le_refl _
    · exact (List.pairwise_cons.mp ordered).1 _ (List.mem_map_of_mem later)

/-- The value at 0 is pruned by the query at 25, and the window from 20 starts with the value
at 10. -/
theorem windows_of_three_values :
    (new 10 1 1).windows
        [.add 'a' 0, .add 'b' 10, .getValues 25, .add 'c' 30, .getValuesInWindow 30 10] =
      [[⟨'b', 10⟩, ⟨'c', 30⟩]] :=
  (windows_eq_unpruned 10 1 1 (by decide) _ (by decide) (by simp)).trans (by decide)

end Windows
end TimeWindowedList
end Brooklyn
