import Mathlib.Data.List.Basic
import Mathlib.Order.Lattice

/-!
Entries recorded in the order of their times. At a time `start` the entry in
effect is the latest one from before it; a window opened at `start` shows that
entry and then every entry from `start` on. The results say what of a window is
still seen once the oldest entries were dropped.
-/

namespace Brooklyn.Timeline
universe u v
variable {Entry : Type u} {Time : Type v} [LinearOrder Time]

def Ordered (time : Entry → Time) (entries : List Entry) : Prop :=
  entries.Pairwise fun earlier later => time earlier ≤ time later

def before (time : Entry → Time) (start : Time) (entries : List Entry) : List Entry :=
  entries.filter fun entry => decide (time entry < start)

def since (time : Entry → Time) (start : Time) (entries : List Entry) : List Entry :=
  entries.filter fun entry => !decide (time entry < start)

def inEffect (time : Entry → Time) (start : Time) (entries : List Entry) : Option Entry :=
  (before time start entries).getLast?

/-- What a window opened at `start` shows. -/
def seen (time : Entry → Time) (start : Time) (entries : List Entry) : List Entry :=
  (inEffect time start entries).toList ++ since time start entries

/-- The window is covered: what it shows reaches back to its start. -/
def Covered (time : Entry → Time) (start : Time) (shown : List Entry) : Prop :=
  ∃ first ∈ shown.head?, time first ≤ start

variable {time : Entry → Time}

theorem mem_before {start : Time} {entries : List Entry} {entry : Entry} :
    entry ∈ before time start entries ↔ entry ∈ entries ∧ time entry < start := by
  simp [before]

theorem mem_since {start : Time} {entries : List Entry} {entry : Entry} :
    entry ∈ since time start entries ↔ entry ∈ entries ∧ start ≤ time entry := by
  simp [since]

theorem mem_of_inEffect {start : Time} {entries : List Entry} {entry : Entry}
    (effective : inEffect time start entries = some entry) :
    entry ∈ entries ∧ time entry < start :=
  mem_before.mp (List.mem_of_getLast? effective)

theorem mem_of_seen {start : Time} {entries : List Entry} {entry : Entry}
    (shown : entry ∈ seen time start entries) : entry ∈ entries := by
  rcases List.mem_append.mp shown with effective | recent
  · exact (mem_of_inEffect (Option.mem_toList.mp effective)).1
  · exact (mem_since.mp recent).1

/-- The latest entry is shown by every window. -/
theorem latest_seen (start : Time) (entries : List Entry) (latest : Entry) :
    latest ∈ seen time start (entries ++ [latest]) := by
  by_cases old : time latest < start
  · have effective : inEffect time start (entries ++ [latest]) = some latest := by
      simp [inEffect, before, old]
    exact List.mem_append_left _ (Option.mem_toList.mpr effective)
  · refine List.mem_append_right _ (mem_since.mpr ⟨by simp, not_lt.mp old⟩)

theorem before_idempotent {start later : Time} (passed : start ≤ later) (entries : List Entry) :
    before time start (before time later entries) = before time start entries := by
  rw [before, before, List.filter_filter]
  refine List.filter_congr fun entry _ => ?_
  by_cases early : time entry < start
  · simp [early, lt_of_lt_of_le early passed]
  · simp [early]

theorem inEffect_earlier {start later : Time} (passed : start ≤ later) {entries : List Entry}
    {entry : Entry} (effective : inEffect time later entries = some entry)
    (early : time entry < start) : inEffect time start entries = some entry := by
  obtain ⟨sooner, split⟩ := List.getLast?_eq_some_iff.mp effective
  rw [inEffect, ← before_idempotent passed, split, before, List.filter_append]
  simp [early]

/-- A window opened later shows nothing new. -/
theorem seen_of_seen_later {start later : Time} (passed : start ≤ later) {entries : List Entry}
    {entry : Entry} (shown : entry ∈ seen time later entries) :
    entry ∈ seen time start entries := by
  rcases List.mem_append.mp shown with effective | recent
  · have effective := Option.mem_toList.mp effective
    by_cases early : time entry < start
    · exact List.mem_append_left _ (Option.mem_toList.mpr (inEffect_earlier passed effective early))
    · exact List.mem_append_right _
        (mem_since.mpr ⟨(mem_of_inEffect effective).1, not_lt.mp early⟩)
  · obtain ⟨member, late⟩ := mem_since.mp recent
    exact List.mem_append_right _ (mem_since.mpr ⟨member, passed.trans late⟩)

theorem before_of_recent {start : Time} {entries : List Entry}
    (recent : ∀ entry ∈ entries, start ≤ time entry) : before time start entries = [] := by
  rw [List.eq_nil_iff_forall_not_mem]
  intro entry member
  have bounds := mem_before.mp member
  exact absurd bounds.2 (not_lt.mpr (recent entry bounds.1))

theorem since_of_recent {start : Time} {entries : List Entry}
    (recent : ∀ entry ∈ entries, start ≤ time entry) : since time start entries = entries := by
  refine List.filter_eq_self.mpr fun entry member => ?_
  simpa using recent entry member

theorem seen_of_recent {start : Time} {entries : List Entry}
    (recent : ∀ entry ∈ entries, start ≤ time entry) : seen time start entries = entries := by
  simp [seen, inEffect, before_of_recent recent, since_of_recent recent]

/-- A covered window stays covered as it moves on. -/
theorem covered_later {start later : Time} (passed : start ≤ later) {entries : List Entry}
    (covered : Covered time start (seen time start entries)) :
    Covered time later (seen time later entries) := by
  cases effective : inEffect time later entries with
  | some entry =>
      refine ⟨entry, by simp [seen, effective], (mem_of_inEffect effective).2.le⟩
  | none =>
      -- Nothing is older than `later`, so both windows show every entry.
      have none : before time later entries = [] := List.getLast?_eq_none_iff.mp effective
      have recent : ∀ entry ∈ entries, later ≤ time entry := by
        intro entry member
        refine not_lt.mp fun early => ?_
        have held := mem_before.mpr ⟨member, early⟩
        simp [none] at held
      rw [seen_of_recent fun entry member => passed.trans (recent entry member)] at covered
      rw [seen_of_recent recent]
      obtain ⟨first, head, early⟩ := covered
      exact ⟨first, head, early.trans passed⟩

theorem before_append (start : Time) (dropped kept : List Entry) :
    before time start (dropped ++ kept) = before time start dropped ++ before time start kept :=
  List.filter_append ..

theorem since_append (start : Time) (dropped kept : List Entry) :
    since time start (dropped ++ kept) = since time start dropped ++ since time start kept :=
  List.filter_append ..

theorem since_of_superseded {start : Time} {dropped kept : List Entry}
    (ordered : Ordered time (dropped ++ kept)) {witness : Entry}
    (later : witness ∈ kept) (early : time witness < start) : since time start dropped = [] := by
  rw [List.eq_nil_iff_forall_not_mem]
  intro entry member
  have bounds := mem_since.mp member
  have sooner := (List.pairwise_append.mp ordered).2.2 entry bounds.1 witness later
  exact absurd (lt_of_le_of_lt sooner early) (not_lt.mpr bounds.2)

theorem inEffect_of_kept_before {start : Time} (dropped : List Entry) {kept : List Entry}
    {witness : Entry} (later : witness ∈ kept) (early : time witness < start) :
    inEffect time start (dropped ++ kept) = inEffect time start kept := by
  have held : before time start kept ≠ [] :=
    List.ne_nil_of_mem (mem_before.mpr ⟨later, early⟩)
  rw [inEffect, inEffect, before_append, List.getLast?_append_of_ne_nil _ held]

/-- Dropping the oldest entries is invisible to a window once an entry from
before its start is kept. -/
theorem seen_of_kept_before {start : Time} {dropped kept : List Entry}
    (ordered : Ordered time (dropped ++ kept)) {witness : Entry}
    (later : witness ∈ kept) (early : time witness < start) :
    seen time start (dropped ++ kept) = seen time start kept := by
  have unseen := since_of_superseded ordered later early
  rw [seen, seen, inEffect_of_kept_before dropped later early, since_append, unseen,
    List.nil_append]

/-- Without a kept entry from before the start, the window misses exactly what
it would have shown of the dropped entries. -/
theorem seen_of_kept_since {start : Time} {dropped kept : List Entry}
    (recent : ∀ entry ∈ kept, start ≤ time entry) :
    seen time start (dropped ++ kept) = seen time start dropped ++ seen time start kept := by
  have effective : inEffect time start (dropped ++ kept) = inEffect time start dropped := by
    rw [inEffect, inEffect, before_append, before_of_recent recent, List.append_nil]
  rw [seen_of_recent recent, seen, seen, effective, since_append, since_of_recent recent,
    List.append_assoc]

/-- Every entry a window misses is superseded by the first one it shows. -/
theorem seen_of_dropped {dropped kept : List Entry}
    (ordered : Ordered time (dropped ++ kept)) (start : Time) (remains : kept ≠ []) :
    ∃ missed, seen time start (dropped ++ kept) = missed ++ seen time start kept ∧
      (missed ≠ [] → dropped ≠ [] ∧ (∀ entry ∈ kept, start ≤ time entry) ∧
        ∃ first ∈ (seen time start kept).head?, ∀ entry ∈ missed, time entry ≤ time first) := by
  by_cases early : ∃ entry ∈ kept, time entry < start
  · obtain ⟨witness, later, early⟩ := early
    exact ⟨[], by rw [seen_of_kept_before ordered later early, List.nil_append], by simp⟩
  · have recent : ∀ entry ∈ kept, start ≤ time entry := by
      intro entry member
      exact not_lt.mp fun sooner => early ⟨entry, member, sooner⟩
    refine ⟨seen time start dropped, seen_of_kept_since recent, fun missing => ⟨?_, recent, ?_⟩⟩
    · rintro rfl
      exact missing (by simp [seen, inEffect, before, since])
    · cases kept with
      | nil => exact absurd rfl remains
      | cons first rest =>
          refine ⟨first, by rw [seen_of_recent recent]; rfl, ?_⟩
          intro entry shown
          exact (List.pairwise_append.mp ordered).2.2 entry (mem_of_seen shown) first (by simp)

end Brooklyn.Timeline
