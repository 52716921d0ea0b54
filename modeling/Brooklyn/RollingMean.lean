import Brooklyn.StepFunctions
import Mathlib.Tactic.FieldSimp

/-!
`RollingTimeWindowMeanEnricher` over exact numbers. Each event is added, and asks for the average at
its own time; anybody may ask at another time. Asking discards what has left the window. Left out
is the sensor that the average is published under.
-/

namespace Brooklyn
namespace RollingTimeWindowMeanEnricher

structure Sample where
  timestamp : Int
  value : Rat
deriving DecidableEq

structure ConfidenceQualifiedNumber where
  value : Rat
  confidence : Rat
deriving DecidableEq

structure Enricher where
  samples : List Sample := []
  lastAverage : ConfidenceQualifiedNumber := ⟨0, 0⟩
deriving DecidableEq

variable (timePeriod : Int)

/-- Discards out-of-date values, but keeps at least one value. -/
def pruneValues (now : Int) : List Sample → List Sample
  | first :: second :: rest =>
      if first.timestamp < now - timePeriod then pruneValues now (second :: rest)
      else first :: second :: rest
  | samples => samples

/-- The loop of `getAverage` over the values. -/
def addWeighted (confidence : Rat) (start : Int) (weightedAverage : Rat) : List Sample → Rat
  | [] => weightedAverage
  | sample :: rest =>
      -- Out-of-date values are passed over, and so are those out of order.
      if sample.timestamp ≥ start then
        let stop := sample.timestamp
        addWeighted confidence sample.timestamp
          (weightedAverage + (stop - start) / (confidence * timePeriod) * sample.value) rest
      else addWeighted confidence start weightedAverage rest

def getAverage (now : Int) (enricher : Enricher) : Enricher :=
  let samples := pruneValues timePeriod now enricher.samples
  match samples.getLast? with
  | none => ⟨samples, ⟨enricher.lastAverage.value, 0⟩⟩
  | some last =>
      let confidence : Rat := (timePeriod - (now - last.timestamp)) / timePeriod
      if confidence ≤ 0 then ⟨samples, ⟨last.value, 0⟩⟩
      else ⟨samples, ⟨addWeighted timePeriod confidence (now - timePeriod) 0 samples, confidence⟩⟩

def onEvent (value : Rat) (eventTime : Int) (enricher : Enricher) : Enricher :=
  let samples := pruneValues timePeriod eventTime (enricher.samples ++ [⟨eventTime, value⟩])
  getAverage timePeriod eventTime { enricher with samples }

inductive Call where
  | onEvent (value : Rat) (eventTime : Int)
  | getAverage (now : Int)

def Call.take : Call → Enricher → Enricher
  | .onEvent value eventTime => RollingTimeWindowMeanEnricher.onEvent timePeriod value eventTime
  | .getAverage now => RollingTimeWindowMeanEnricher.getAverage timePeriod now

def run (calls : List Call) : Enricher :=
  calls.foldl (fun enricher call => call.take timePeriod enricher) {}

def Call.event : Call → Option Sample
  | .onEvent value eventTime => some ⟨eventTime, value⟩
  | .getAverage _ => none

/-- The time that the average is asked for at. -/
def Call.time : Call → Int
  | .onEvent _ eventTime => eventTime
  | .getAverage now => now

def events (calls : List Call) : List Sample := calls.filterMap Call.event

section Loop
open StepFunction

def Sample.point (sample : Sample) : Rat × Rat := (sample.timestamp, sample.value)

theorem addWeighted_eq (confidence : Rat) (start : Int) (weightedAverage : Rat)
    (samples : List Sample) :
    addWeighted timePeriod confidence start weightedAverage samples =
      weightedAverage +
        area (start : Rat) (samples.map Sample.point) / (confidence * timePeriod) := by
  induction samples generalizing start weightedAverage with
  | nil => simp [addWeighted, area]
  | cons sample rest ih =>
    rw [List.map_cons, addWeighted, Sample.point, area]
    simp only [Int.cast_le]
    split
    · rw [ih]
      ring
    · exact ih start weightedAverage

end Loop

/-- All that happened is kept, but for what has left the window by some time. -/
structure Retains (times : List Int) (happened : List Sample) (enricher : Enricher) : Prop where
  discarded : ∃ discarded, happened = discarded ++ enricher.samples ∧
    ∀ sample ∈ discarded, ∃ time ∈ times, sample.timestamp < time - timePeriod
  kept : enricher.samples = [] → happened = []
  unset : happened = [] → enricher.lastAverage.value = 0

section Pruning
variable {timePeriod}

/-- What is discarded has left the window, and something is kept. -/
theorem pruneValues_spec (now : Int) (samples : List Sample) :
    ∃ discarded, samples = discarded ++ pruneValues timePeriod now samples ∧
      (∀ sample ∈ discarded, sample.timestamp < now - timePeriod) ∧
      (pruneValues timePeriod now samples = [] → samples = []) := by
  fun_induction pruneValues timePeriod now samples with
  | case1 first second rest expired ih =>
    obtain ⟨discarded, same, before, kept⟩ := ih
    refine ⟨first :: discarded, congrArg (first :: ·) same, fun sample member => ?_, fun none => ?_⟩
    · rcases List.mem_cons.mp member with rfl | further
      · exact expired
      · exact before sample further
    · cases kept none
  | case2 first second rest valid => exact ⟨[], rfl, fun _ member => (nomatch member), id⟩
  | case3 samples short => exact ⟨[], rfl, fun _ member => (nomatch member), id⟩

theorem Retains.mono {times more : List Int} {happened : List Sample} {enricher : Enricher}
    (retains : Retains timePeriod times happened enricher) (among : times ⊆ more) :
    Retains timePeriod more happened enricher := by
  obtain ⟨discarded, same, before⟩ := retains.discarded
  refine ⟨⟨discarded, same, fun sample member => ?_⟩, retains.kept, retains.unset⟩
  obtain ⟨time, asked, left⟩ := before sample member
  exact ⟨time, among asked, left⟩

theorem Retains.prune {times : List Int} {happened : List Sample} {enricher : Enricher}
    (retains : Retains timePeriod times happened enricher) {now : Int} (asked : now ∈ times) :
    Retains timePeriod times happened
      { enricher with samples := pruneValues timePeriod now enricher.samples } := by
  obtain ⟨discarded, same, before⟩ := retains.discarded
  obtain ⟨further, rest, left, kept⟩ := @pruneValues_spec timePeriod now enricher.samples
  refine ⟨⟨discarded ++ further, ?_, fun sample member => ?_⟩, fun none => retains.kept (kept none),
    retains.unset⟩
  · rw [List.append_assoc, ← rest]
    exact same
  · rcases List.mem_append.mp member with old | new
    · exact before sample old
    · exact ⟨now, asked, left sample new⟩

theorem Retains.event {times : List Int} {happened : List Sample} {enricher : Enricher}
    (retains : Retains timePeriod times happened enricher) (sample : Sample) :
    Retains timePeriod times (happened ++ [sample])
      { enricher with samples := enricher.samples ++ [sample] } := by
  obtain ⟨discarded, same, before⟩ := retains.discarded
  refine ⟨⟨discarded, ?_, before⟩, fun none => ?_, fun none => ?_⟩
  · rw [same, List.append_assoc]
  · exact absurd none (by simp)
  · exact absurd none (by simp)

end Pruning

section Answer
variable {timePeriod}

theorem getAverage_samples (now : Int) (enricher : Enricher) :
    (getAverage timePeriod now enricher).samples =
      pruneValues timePeriod now enricher.samples := by
  unfold getAverage
  dsimp only
  split
  · rfl
  · split <;> rfl

theorem getAverage_of_empty {now : Int} {enricher : Enricher}
    (none : pruneValues timePeriod now enricher.samples = []) :
    (getAverage timePeriod now enricher).lastAverage = ⟨enricher.lastAverage.value, 0⟩ := by
  unfold getAverage
  dsimp only
  rw [none]
  rfl

/-- How sure the average is at a time. -/
def confidenceAt (timePeriod now : Int) (last : Sample) : Rat :=
  (timePeriod - (now - last.timestamp)) / timePeriod

theorem getAverage_of_last {now : Int} {enricher : Enricher} {last : Sample}
    (ends : (pruneValues timePeriod now enricher.samples).getLast? = some last) :
    (getAverage timePeriod now enricher).lastAverage =
      if confidenceAt timePeriod now last ≤ 0 then ⟨last.value, 0⟩
      else ⟨addWeighted timePeriod (confidenceAt timePeriod now last) (now - timePeriod) 0
        (pruneValues timePeriod now enricher.samples), confidenceAt timePeriod now last⟩ := by
  unfold getAverage
  dsimp only
  rw [ends]
  exact apply_ite Enricher.lastAverage _ _ _

section Unset
variable {times : List Int} {enricher : Enricher} {now : Int}

/-- Without events there is nothing to average. -/
theorem getAverage_unset (retains : Retains timePeriod times [] enricher) (asked : now ∈ times) :
    (getAverage timePeriod now enricher).lastAverage = ⟨0, 0⟩ := by
  obtain ⟨discarded, same, _⟩ := (retains.prune asked).discarded
  rw [getAverage_of_empty (List.append_eq_nil_iff.mp same.symm).2, retains.unset rfl]

end Unset

theorem retains_getAverage {times : List Int} {happened : List Sample} {enricher : Enricher}
    (retains : Retains timePeriod times happened enricher) {now : Int} (asked : now ∈ times) :
    Retains timePeriod times happened (getAverage timePeriod now enricher) := by
  have pruned := retains.prune asked
  refine ⟨?_, ?_, ?_⟩
  · rw [getAverage_samples]
    exact pruned.discarded
  · rw [getAverage_samples]
    exact pruned.kept
  · rintro rfl
    rw [getAverage_unset retains asked]

/-- Each call ends by asking for the average at its time. -/
theorem take_eq {times : List Int} {happened : List Sample} {enricher : Enricher}
    (retains : Retains timePeriod times happened enricher) (call : Call) :
    ∃ asked, call.take timePeriod enricher = getAverage timePeriod call.time asked ∧
      Retains timePeriod (times ++ [call.time]) (happened ++ call.event.toList) asked := by
  have more := retains.mono (List.subset_append_left times [call.time])
  cases call with
  | getAverage now =>
    refine ⟨enricher, rfl, ?_⟩
    rw [Call.event, Option.toList_none, List.append_nil]
    exact more
  | onEvent value eventTime =>
    exact ⟨_, rfl, (more.event ⟨eventTime, value⟩).prune (by simp [Call.time])⟩

theorem events_append (calls : List Call) (call : Call) :
    events (calls ++ [call]) = events calls ++ call.event.toList := by
  rw [events, List.filterMap_append]
  refine congrArg (events calls ++ ·) ?_
  cases call <;> rfl

theorem run_append (calls : List Call) (call : Call) :
    run timePeriod (calls ++ [call]) = call.take timePeriod (run timePeriod calls) := by
  rw [run, List.foldl_append]
  rfl

theorem retains_run (calls : List Call) :
    Retains timePeriod (calls.map Call.time) (events calls) (run timePeriod calls) := by
  induction calls using List.reverseRecOn with
  | nil => exact ⟨⟨[], rfl, fun _ member => (nomatch member)⟩, fun _ => rfl, fun _ => rfl⟩
  | append_singleton calls call ih =>
    obtain ⟨asked, taken, retains⟩ := take_eq ih call
    rw [List.map_append, events_append, run_append, taken]
    exact retains_getAverage retains (by simp)

end Answer

section Mean
open StepFunction

/-- The steps of the values: each holds from the event before up to its own. -/
noncomputable def valueAt (happened : List Sample) : ℝ → ℝ :=
  stepFunction (happened.map fun sample => ((sample.timestamp : ℝ), (sample.value : ℝ)))

/-- What an average should be when the last event is given. -/
structure IsRollingMean (timePeriod now : Int) (happened : List Sample) (last : Sample)
    (average : ConfidenceQualifiedNumber) : Prop where
  expired : confidenceAt timePeriod now last ≤ 0 → average = ⟨last.value, 0⟩
  confident : 0 < confidenceAt timePeriod now last →
    average.confidence = confidenceAt timePeriod now last
  mean : 0 < confidenceAt timePeriod now last →
    (average.value : ℝ) =
      (∫ t in (now - timePeriod : ℝ)..last.timestamp, valueAt happened t) /
        (last.timestamp - (now - timePeriod))
  between : ∃ least ∈ happened, ∃ greatest ∈ happened,
    (∀ sample ∈ happened, least.value ≤ sample.value ∧ sample.value ≤ greatest.value) ∧
      least.value ≤ average.value ∧ average.value ≤ greatest.value

variable {timePeriod}

/-- The length that is covered. -/
theorem confidenceAt_mul (positive : 0 < timePeriod) (now : Int) (last : Sample) :
    confidenceAt timePeriod now last * timePeriod = last.timestamp - (now - timePeriod) := by
  have nonzero : (timePeriod : Rat) ≠ 0 := by exact_mod_cast positive.ne'
  rw [confidenceAt, div_mul_cancel₀ _ nonzero]
  ring

theorem exists_bounds {happened : List Sample} {last : Sample} (member : last ∈ happened) :
    ∃ least ∈ happened, ∃ greatest ∈ happened,
      ∀ sample ∈ happened, least.value ≤ sample.value ∧ sample.value ≤ greatest.value := by
  have nonempty : happened.toFinset.Nonempty := ⟨last, List.mem_toFinset.mpr member⟩
  obtain ⟨least, least_mem, below⟩ := happened.toFinset.exists_min_image Sample.value nonempty
  obtain ⟨greatest, greatest_mem, above⟩ :=
    happened.toFinset.exists_max_image Sample.value nonempty
  exact ⟨least, List.mem_toFinset.mp least_mem, greatest, List.mem_toFinset.mp greatest_mem,
    fun sample there => ⟨below sample (List.mem_toFinset.mpr there),
      above sample (List.mem_toFinset.mpr there)⟩⟩

section Covered
variable {now : Int} {happened : List Sample} {last : Sample}
  (ordered : happened.Pairwise fun sample later => sample.timestamp ≤ later.timestamp)
  (ends : happened.getLast? = some last) (before : now - timePeriod ≤ last.timestamp)
include ordered ends before

theorem finish_events {K : Type} [Field K] [LinearOrder K] [IsStrictOrderedRing K]
    (value : Sample → K) :
    finish ((now - timePeriod : Int) : K)
      (happened.map fun sample => ((sample.timestamp : K), value sample)) = last.timestamp := by
  refine @finish_eq_last K _ _ _ ((last.timestamp : K), value last) ?_ ?_ (Int.cast_le.mpr before)
  · exact List.pairwise_map.mpr (ordered.imp fun earlier => Int.cast_le.mpr earlier)
  · rw [List.getLast?_map, ends]
    rfl

/-- The integral of the values is the area of the steps. -/
theorem integral_events :
    ∫ t in (now - timePeriod : ℝ)..last.timestamp, valueAt happened t =
      (area ((now - timePeriod : Int) : Rat) (happened.map Sample.point) : Rat) := by
  have ends := finish_events ordered ends before fun sample => (sample.value : ℝ)
  have integral := (integral_stepFunction ((now - timePeriod : Int) : ℝ)
    (happened.map fun sample => ((sample.timestamp : ℝ), (sample.value : ℝ)))).2
  have points : (happened.map Sample.point).map (fun point => ((point.1 : ℝ), (point.2 : ℝ))) =
      happened.map fun sample => ((sample.timestamp : ℝ), (sample.value : ℝ)) := by
    rw [List.map_map]
    refine List.map_congr_left fun sample _ => ?_
    exact Prod.ext (Rat.cast_intCast _) rfl
  rw [ends] at integral
  rw [cast_area, points, Rat.cast_intCast, ← integral, Int.cast_sub]
  rfl

/-- The mean over the steps lies between the bounds of the values. -/
theorem mean_between {least greatest : Rat}
    (bounds : ∀ sample ∈ happened, least ≤ sample.value ∧ sample.value ≤ greatest)
    (length : (0 : Rat) < last.timestamp - (now - timePeriod)) :
    least ≤ area ((now - timePeriod : Int) : Rat) (happened.map Sample.point) /
        (last.timestamp - (now - timePeriod)) ∧
      area ((now - timePeriod : Int) : Rat) (happened.map Sample.point) /
        (last.timestamp - (now - timePeriod)) ≤ greatest := by
  have finishes : finish ((now - timePeriod : Int) : Rat) (happened.map Sample.point) =
      last.timestamp := finish_events ordered ends before Sample.value
  have within : ∀ point ∈ happened.map Sample.point, least ≤ point.2 ∧ point.2 ≤ greatest := by
    intro point member
    obtain ⟨sample, there, rfl⟩ := List.mem_map.mp member
    exact bounds sample there
  obtain ⟨lower, upper⟩ := area_bounds within ((now - timePeriod : Int) : Rat)
  rw [finishes, Int.cast_sub] at lower upper
  rw [le_div_iff₀ length, div_le_iff₀ length, Int.cast_sub]
  exact ⟨lower, upper⟩

end Covered

section Retained
variable {times : List Int} {now : Int} {happened : List Sample} {enricher : Enricher}
  (retains : Retains timePeriod times happened enricher)
include retains

/-- What is discarded has no part in the area. -/
theorem area_retained (latest : ∀ time ∈ times, time ≤ now) :
    area ((now - timePeriod : Int) : Rat) (enricher.samples.map Sample.point) =
      area ((now - timePeriod : Int) : Rat) (happened.map Sample.point) := by
  obtain ⟨discarded, same, left⟩ := retains.discarded
  have passed : ∀ point ∈ discarded.map Sample.point,
      point.1 < ((now - timePeriod : Int) : Rat) := by
    intro point member
    obtain ⟨sample, there, rfl⟩ := List.mem_map.mp member
    obtain ⟨time, earlier, out⟩ := left sample there
    exact Int.cast_lt.mpr (out.trans_le (sub_le_sub_right (latest time earlier) timePeriod))
  rw [same, List.map_append, area_append_passed passed]

theorem last_retained {last : Sample} (ends : happened.getLast? = some last) :
    enricher.samples.getLast? = some last := by
  obtain ⟨discarded, same, _⟩ := retains.discarded
  cases found : enricher.samples.getLast? with
  | none =>
    rw [retains.kept (List.getLast?_eq_none_iff.mp found)] at ends
    cases ends
  | some other =>
    rw [same, List.getLast?_append, found] at ends
    exact ends

end Retained

/-- The average that is answered, when it is asked for no earlier than before. -/
theorem getAverage_right (positive : 0 < timePeriod) {times : List Int} {happened : List Sample}
    {enricher : Enricher} (retains : Retains timePeriod times happened enricher) {now : Int}
    (asked : now ∈ times) (latest : ∀ time ∈ times, time ≤ now)
    (ordered : happened.Pairwise fun sample later => sample.timestamp ≤ later.timestamp)
    {last : Sample} (ends : happened.getLast? = some last) :
    IsRollingMean timePeriod now happened last
      (getAverage timePeriod now enricher).lastAverage := by
  have pruned := retains.prune asked
  have member := List.mem_of_getLast? ends
  obtain ⟨least, least_mem, greatest, greatest_mem, bounds⟩ := exists_bounds member
  rw [getAverage_of_last (last_retained pruned ends)]
  by_cases expired : confidenceAt timePeriod now last ≤ 0
  · -- Nothing of the window is covered.
    rw [if_pos expired]
    exact ⟨fun _ => rfl, fun valid => absurd expired valid.not_ge,
      fun valid => absurd expired valid.not_ge,
      least, least_mem, greatest, greatest_mem, bounds, bounds last member⟩
  · have covered := confidenceAt_mul positive now last
    have length : (0 : Rat) < last.timestamp - (now - timePeriod) := by
      rw [← covered]
      exact mul_pos (not_le.mp expired) (Int.cast_pos.mpr positive)
    have before : now - timePeriod ≤ last.timestamp := by
      have positive_length : 0 < last.timestamp - (now - timePeriod) := by exact_mod_cast length
      exact (sub_pos.mp positive_length).le
    have value : addWeighted timePeriod (confidenceAt timePeriod now last) (now - timePeriod) 0
        (pruneValues timePeriod now enricher.samples) =
          area ((now - timePeriod : Int) : Rat) (happened.map Sample.point) /
            (last.timestamp - (now - timePeriod)) := by
      rw [addWeighted_eq, zero_add, covered, area_retained pruned latest]
    rw [if_neg expired, value]
    refine ⟨fun gone => absurd gone expired, fun _ => rfl, fun _ => ?_,
      least, least_mem, greatest, greatest_mem, bounds,
      mean_between ordered ends before bounds length⟩
    rw [integral_events ordered ends before]
    push_cast
    rfl

end Mean

variable {timePeriod}

/-- Along every run of events in order: an average that is asked for no earlier than those before it
is the integral of the values over what the window covers, divided by its length; it is the last
value when the window is empty, and lies between the least and the greatest value so far. -/
theorem rolling_mean (positive : 0 < timePeriod) (earlier : List Call) (call : Call)
    (ordered : (events (earlier ++ [call])).Pairwise fun event later =>
      event.timestamp ≤ later.timestamp)
    (latest : ∀ before ∈ earlier, before.time ≤ call.time) :
    (events (earlier ++ [call]) = [] →
      (run timePeriod (earlier ++ [call])).lastAverage = ⟨0, 0⟩) ∧
    ∀ last, (events (earlier ++ [call])).getLast? = some last →
      IsRollingMean timePeriod call.time (events (earlier ++ [call])) last
        (run timePeriod (earlier ++ [call])).lastAverage := by
  obtain ⟨asked, taken, retains⟩ := take_eq (@retains_run timePeriod earlier) call
  have now : call.time ∈ earlier.map Call.time ++ [call.time] := by simp
  rw [run_append, taken]
  rw [← events_append] at retains
  constructor
  · intro unset
    rw [unset] at retains
    exact getAverage_unset retains now
  · intro last ends
    refine getAverage_right positive retains now (fun time member => ?_) ordered ends
    rcases List.mem_append.mp member with before | here
    · obtain ⟨other, there, rfl⟩ := List.mem_map.mp before
      exact latest other there
    · exact (List.mem_singleton.mp here).le

/-- A value of 4 up to 10 and one of 8 up to 16, seen from 18 through a window of 10. -/
theorem mean_of_two :
    (run 10 [.onEvent 4 10, .onEvent 8 16, .getAverage 17, .getAverage 18]).lastAverage =
        ⟨7, 4 / 5⟩ ∧
      IsRollingMean 10 18 [⟨10, 4⟩, ⟨16, 8⟩] ⟨16, 8⟩
        (run 10 [.onEvent 4 10, .onEvent 8 16, .getAverage 17, .getAverage 18]).lastAverage := by
  refine ⟨by decide +kernel, ?_⟩
  exact (rolling_mean (by decide) [.onEvent 4 10, .onEvent 8 16, .getAverage 17] (.getAverage 18)
    (by decide) (by decide)).2 ⟨16, 8⟩ rfl

end RollingTimeWindowMeanEnricher
end Brooklyn
