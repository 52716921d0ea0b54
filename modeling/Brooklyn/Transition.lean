import Mathlib.Data.Option.Basic
import Mathlib.Logic.Function.Basic

/-!
Runs of calls that always come to an end. `Throughout` holds in every state of a run, `Each` of
every call in the state that it is made in. Where a call keeps what holds exactly if it fits, a
run keeps it throughout exactly if each of its calls fits.
-/

namespace Brooklyn.CallRuns

universe u v
variable {State : Type u} {Call : Type v} (perform : Call → State → State)

def Throughout (holds : State → Prop) : List Call → State → Prop
  | [], state => holds state
  | call :: rest, state => holds state ∧ Throughout holds rest (perform call state)

def Each (fits : State → Call → Prop) : List Call → State → Prop
  | [], _ => True
  | call :: rest, state => fits state call ∧ Each fits rest (perform call state)

variable {perform} {holds : State → Prop} {fits : State → Call → Prop}

theorem throughout_iff_each
    (step : ∀ state call, holds state → (holds (perform call state) ↔ fits state call))
    (calls : List Call) {state : State} (start : holds state) :
    Throughout perform holds calls state ↔ Each perform fits calls state := by
  induction calls generalizing state with
  | nil => exact iff_of_true start trivial
  | cons call rest ih =>
    have here := step state call start
    constructor
    · rintro ⟨-, later⟩
      have next : holds (perform call state) := by
        cases rest with
        | nil => exact later
        | cons _ _ => exact later.1
      exact ⟨here.mp next, (ih next).mp later⟩
    · rintro ⟨fit, later⟩
      exact ⟨start, (ih (here.mpr fit)).mpr later⟩

/-- What each call does where it starts and ends in a state that holds. -/
theorem Throughout.each (calls : List Call) {state : State}
    (does : ∀ state call, holds state → holds (perform call state) → fits state call)
    (always : Throughout perform holds calls state) : Each perform fits calls state := by
  induction calls generalizing state with
  | nil => trivial
  | cons call rest ih =>
    obtain ⟨start, later⟩ := always
    have next : holds (perform call state) := by
      cases rest with
      | nil => exact later
      | cons _ _ => exact later.1
    exact ⟨does state call start next, ih later⟩

end Brooklyn.CallRuns

/-!
Guarded transition systems. A step is a partial function of a state and an
action, so one definition is replayed on a concrete schedule and reasoned about
over every schedule. `Reached system guard` holds the states of the runs whose
steps all meet `guard`; `anyStep` is the guard that every step meets.

The second half is about shared-memory threads: program counters are a function
of the thread, and one step of a thread overwrites one value of it.
-/

namespace Brooklyn.Transition

universe u v
variable {State : Type u} {Action : Type v}

structure System (State : Type u) (Action : Type v) where
  initial : State
  step : State → Action → Option State

def anyStep : State → Action → Bool := fun _ _ => true

inductive Reached (system : System State Action) (guard : State → Action → Bool) :
    State → Prop where
  | initial : Reached system guard system.initial
  | next {before after : State} (action : Action) (prior : Reached system guard before)
      (allowed : guard before action = true) (moved : system.step before action = some after) :
      Reached system guard after

/-- The run rule: what holds initially and survives every allowed step holds
in every reached state. The step may use that its source is reached. -/
theorem reached_invariant {system : System State Action} {guard : State → Action → Bool}
    (holds : State → Prop) (start : holds system.initial)
    (preserved : ∀ before action after, Reached system guard before → holds before →
      guard before action = true → system.step before action = some after → holds after)
    {state : State} (run : Reached system guard state) : holds state := by
  induction run with
  | initial => exact start
  | next action prior allowed moved ih =>
      exact preserved _ action _ prior ih allowed moved

/-- The runs of a stronger guard are runs of a weaker one. -/
theorem Reached.weaken {system : System State Action} {stronger weaker : State → Action → Bool}
    (implies : ∀ state action, stronger state action = true → weaker state action = true)
    {state : State} (run : Reached system stronger state) : Reached system weaker state := by
  induction run with
  | initial => exact .initial
  | next action _ allowed moved ih => exact ih.next action (implies _ _ allowed) moved

def replay (system : System State Action) (guard : State → Action → Bool) :
    State → List Action → Option State
  | state, [] => some state
  | state, action :: rest =>
      if guard state action then
        match system.step state action with
        | some after => replay system guard after rest
        | none => none
      else none

/-- A schedule that replays to the end reaches the state it ends in. -/
theorem replay_reached {system : System State Action} {guard : State → Action → Bool}
    (schedule : List Action)
    {before after : State} (prior : Reached system guard before)
    (played : replay system guard before schedule = some after) :
    Reached system guard after := by
  induction schedule generalizing before with
  | nil =>
      cases played
      exact prior
  | cons action rest ih =>
      simp only [replay] at played
      split at played
      · next allowed =>
        cases moved : system.step before action with
        | none => simp [moved] at played
        | some middle =>
            rw [moved] at played
            exact ih (.next action prior allowed moved) played
      · cases played

theorem replay_shows (system : System State Action) (guard : State → Action → Bool)
    (schedule : List Action) (shows : State → Bool)
    (played : (replay system guard system.initial schedule).map shows = some true) :
    ∃ state, Reached system guard state ∧ shows state = true := by
  obtain ⟨state, finished, shown⟩ := Option.map_eq_some_iff.mp played
  exact ⟨state, replay_reached schedule .initial finished, shown⟩

section Threads
variable {Thread Pc : Type} [DecidableEq Thread]

/-- A thread that satisfies `wakes` either was not the one that stepped, or its
new counter must account for it. -/
theorem exists_after_update (pc : Thread → Pc) (thread : Thread) (next : Pc)
    (wakes : Pc → Prop) {goal : Prop} (some_thread : ∃ other, wakes (pc other))
    (accounted : wakes (pc thread) → goal ∨ wakes next) :
    goal ∨ ∃ other, wakes (Function.update pc thread next other) := by
  obtain ⟨other, awake⟩ := some_thread
  by_cases same : other = thread
  · subst other
    rcases accounted awake with reached | awake
    · exact Or.inl reached
    · exact Or.inr ⟨thread, by simpa using awake⟩
  · exact Or.inr ⟨other, by simpa [Function.update_of_ne same] using awake⟩

theorem forall_after_update (pc : Thread → Pc) (thread : Thread) (next : Pc)
    (holds : Pc → Prop) (others : ∀ other, holds (pc other)) (stepped : holds next) :
    ∀ other, holds (Function.update pc thread next other) := by
  intro other
  by_cases same : other = thread
  · subst other
    simpa using stepped
  · simpa [Function.update_of_ne same] using others other

/-- What every thread asserts of the shared state at its own counter still holds
after a step of one of them that establishes its own next assertion and interferes
with no other one. -/
theorem forall_after_step (pc : Thread → Pc) (thread : Thread) (next : Pc)
    {before after : Thread → Pc → Prop} (asserted : ∀ other, before other (pc other))
    (stepped : after thread next)
    (spared : ∀ other, other ≠ thread → before other (pc other) → after other (pc other)) :
    ∀ other, after other (Function.update pc thread next other) := by
  intro other
  by_cases same : other = thread
  · subst other
    simpa using stepped
  · simpa [Function.update_of_ne same] using spared other same (asserted other)

/-- The threads that a mark on their counters tells, after a step of one of them. -/
theorem marks_after_step (pc : Thread → Pc) (thread : Thread) (next : Pc) (mark : Pc → Bool)
    {before after : Thread → Prop} (marked : ∀ other, mark (pc other) = true ↔ before other)
    (stepped : mark next = true ↔ after thread)
    (others : ∀ other, other ≠ thread → (after other ↔ before other)) :
    ∀ other, mark (Function.update pc thread next other) = true ↔ after other := by
  intro other
  by_cases same : other = thread
  · subst other
    simpa using stepped
  · rw [Function.update_of_ne same, marked, others other same]

/-- The thread in the monitor is the one whose counter says so. -/
def Monitored (inside : Pc → Bool) (monitor : Option Thread) (pc : Thread → Pc) : Prop :=
  ∀ thread, inside (pc thread) = true ↔ monitor = some thread

theorem monitored_same {inside : Pc → Bool} {monitor : Option Thread} {pc : Thread → Pc}
    {thread : Thread} {next : Pc} (monitored : Monitored inside monitor pc)
    (same : inside next = inside (pc thread)) :
    Monitored inside monitor (Function.update pc thread next) :=
  marks_after_step pc thread next inside monitored (by rw [same, monitored thread])
    fun _ _ => Iff.rfl

theorem monitored_enter {inside : Pc → Bool} {pc : Thread → Pc} {thread : Thread} {next : Pc}
    (monitored : Monitored inside none pc) (entered : inside next = true) :
    Monitored inside (some thread) (Function.update pc thread next) :=
  marks_after_step pc thread next inside monitored (by simp [entered]) fun other different => by
    simp [Ne.symm different]

theorem monitored_leave {inside : Pc → Bool} {pc : Thread → Pc} {thread : Thread} {next : Pc}
    (monitored : Monitored inside (some thread) pc) (left : inside next = false) :
    Monitored inside none (Function.update pc thread next) :=
  marks_after_step pc thread next inside monitored (by simp [left]) fun other different => by
    simp [Ne.symm different]

/-- A step of a thread that stays on its side of the monitor, enters it or leaves it. -/
inductive Passes (thread : Thread) (before after : Option Thread) (was is : Bool) : Prop where
  | stays (same : after = before) (side : is = was)
  | enters (free : before = none) (taken : after = some thread) (inside : is = true)
  | leaves (inside : was = true) (free : after = none) (outside : is = false)

theorem monitored_step {inside : Pc → Bool} {before after : Option Thread} {pc : Thread → Pc}
    {thread : Thread} {next : Pc} (monitored : Monitored inside before pc)
    (passes : Passes thread before after (inside (pc thread)) (inside next)) :
    Monitored inside after (Function.update pc thread next) := by
  cases passes with
  | stays same side => exact same ▸ monitored_same monitored side
  | enters free taken entered =>
    rw [taken]
    exact monitored_enter (free ▸ monitored) entered
  | leaves within free left =>
    rw [free]
    exact monitored_leave ((monitored thread).mp within ▸ monitored) left

end Threads
end Brooklyn.Transition
