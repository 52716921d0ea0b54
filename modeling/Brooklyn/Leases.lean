import Mathlib.Data.List.Induction

/-!
Histories of things that are taken and given back. A thing is held from when an event takes
it to the next that gives it back. If nothing is taken while it is held, there is between
any two events that take one thing an event that gives it back.
-/

namespace Brooklyn.Leases

universe u v
variable {Event : Type u} {Key : Type v}
variable (takes gives : Event → Key → Bool)

def held (history : List Event) (key : Key) : Bool :=
  history.foldl (fun held event => !gives event key && (held || takes event key)) false

/-- Between two events that take one thing there is one that gives it back. -/
def Exclusive (history : List Event) : Prop :=
  ∀ earlier one between another later key,
    history = earlier ++ one :: (between ++ another :: later) →
    takes one key = true → takes another key = true →
    ∃ event ∈ between, gives event key = true

variable {takes gives} {history : List Event} {event : Event} {key : Key}

theorem held_concat :
    held takes gives (history ++ [event]) key =
      (!gives event key && (held takes gives history key || takes event key)) := by
  simp [held]

/-- A thing that was taken is held as long as nothing gives it back. -/
theorem held_since {earlier between : List Event} {one : Event}
    (apart : gives one key = false) (taken : takes one key = true)
    (kept : ∀ event ∈ between, gives event key = false) :
    held takes gives (earlier ++ one :: between) key = true := by
  induction between using List.reverseRecOn with
  | nil => simp [held_concat, apart, taken]
  | append_singleton between last ih =>
    have before := ih fun event member => kept event (List.mem_append_left _ member)
    have last_kept := kept last (List.mem_append_right _ List.mem_cons_self)
    rw [← List.cons_append, ← List.append_assoc, held_concat, before, last_kept]
    rfl

theorem exclusive_nil : Exclusive takes gives ([] : List Event) := by
  intro earlier one between another later key split
  exact absurd split (by simp)

/-- An event that takes only what nobody holds. -/
theorem Exclusive.concat (exclusive : Exclusive takes gives history)
    (apart : ∀ event key, takes event key = true → gives event key = false)
    (free : ∀ key, takes event key = true → held takes gives history key = false) :
    Exclusive takes gives (history ++ [event]) := by
  intro earlier one between another later key split first second
  rcases List.eq_nil_or_concat later with rfl | ⟨later, last, rfl⟩
  · have parts : history = earlier ++ one :: between ∧ event = another := by
      rw [← List.cons_append, ← List.append_assoc] at split
      obtain ⟨before, same⟩ := List.append_inj' split rfl
      exact ⟨before, List.singleton_inj.mp same⟩
    obtain ⟨rfl, rfl⟩ := parts
    by_contra none_gives
    push Not at none_gives
    have holds := @held_since _ _ takes gives key earlier between one (apart one key first) first
      fun event member => Bool.eq_false_iff.mpr (none_gives event member)
    rw [free key second] at holds
    cases holds
  · refine exclusive earlier one between another later key ?_ first second
    have parts : history ++ [event] =
        (earlier ++ one :: (between ++ another :: later)) ++ [last] := by
      rw [split]
      simp
    exact (List.append_inj' parts rfl).1

end Brooklyn.Leases
