/-!
Computations that are given a number of rounds and have no outcome where these do not suffice.
-/

namespace Brooklyn.Rounds

universe u v
variable {Outcome : Type u} {Later : Type v}

/-- Enough rounds give the outcome, and none give another. -/
structure Settles (run : Nat → Option Outcome) (outcome : Outcome) : Prop where
  enough : ∃ least, ∀ rounds, least ≤ rounds → run rounds = some outcome
  only : ∀ rounds other, run rounds = some other → other = outcome

variable {run : Nat → Option Outcome} {outcome : Outcome}

theorem Settles.returns (settles : Settles run outcome) : ∃ rounds, run rounds = some outcome := by
  obtain ⟨least, enough⟩ := settles.enough
  exact ⟨least, enough least (Nat.le_refl least)⟩

theorem Settles.of_always (always : ∀ rounds, run rounds = some outcome) : Settles run outcome :=
  ⟨⟨0, fun rounds _ => always rounds⟩, fun rounds _ returned =>
    Option.some.inj (returned.symm.trans (always rounds))⟩

/-- The first round is needed to get started. -/
theorem Settles.of_succ (start : run 0 = none)
    (later : Settles (fun rounds => run (rounds + 1)) outcome) : Settles run outcome := by
  obtain ⟨⟨least, enough⟩, only⟩ := later
  refine ⟨⟨least + 1, fun rounds many => ?_⟩, fun rounds other returned => ?_⟩
  · obtain ⟨fewer, rfl⟩ := Nat.exists_eq_add_of_le many
    exact Nat.add_right_comm least 1 fewer ▸ enough (least + fewer) (Nat.le_add_right _ _)
  · cases rounds with
    | zero => rw [start] at returned; cases returned
    | succ rounds => exact only rounds other returned

theorem Settles.map (settles : Settles run outcome) (change : Outcome → Later) :
    Settles (fun rounds => (run rounds).map change) (change outcome) := by
  obtain ⟨⟨least, enough⟩, only⟩ := settles
  refine ⟨⟨least, fun rounds many => ?_⟩, fun rounds other returned => ?_⟩
  · rw [enough rounds many, Option.map_some]
  · obtain ⟨found, here, rfl⟩ := Option.map_eq_some_iff.mp returned
    rw [only rounds found here]

/-- One computation after another. -/
theorem Settles.bind {next : Outcome → Nat → Option Later} {last : Later}
    (settles : Settles run outcome) (later : Settles (next outcome) last) :
    Settles (fun rounds => (run rounds).bind fun found => next found rounds) last := by
  obtain ⟨⟨least, enough⟩, only⟩ := settles
  obtain ⟨⟨more, suffices_⟩, last_only⟩ := later
  refine ⟨⟨max least more, fun rounds many => ?_⟩, fun rounds other returned => ?_⟩
  · rw [enough rounds (Nat.le_trans (Nat.le_max_left _ _) many), Option.bind_some]
    exact suffices_ rounds (Nat.le_trans (Nat.le_max_right _ _) many)
  · obtain ⟨found, here, there⟩ := Option.bind_eq_some_iff.mp returned
    rw [only rounds found here] at there
    exact last_only rounds other there

section Loop

variable {State : Type u} {Outcome : Type v}

/-- A loop whose turn goes on with another state or leaves the loop. -/
def loop (turn : State → State ⊕ Outcome) : Nat → State → Option Outcome
  | 0, _ => none
  | rounds + 1, state =>
      match turn state with
      | .inl next => loop turn rounds next
      | .inr outcome => some outcome

variable {turn : State → State ⊕ Outcome} {state next : State} {outcome : Outcome}

theorem loop_settles_left (left : turn state = .inr outcome) :
    Settles (fun rounds => loop turn rounds state) outcome :=
  .of_succ rfl (.of_always fun rounds => by simp only [loop, left])

theorem loop_settles_next (on : turn state = .inl next)
    (settles : Settles (fun rounds => loop turn rounds next) outcome) :
    Settles (fun rounds => loop turn rounds state) outcome :=
  .of_succ rfl (by simpa only [loop, on] using settles)

/-- A loop is left where every turn takes something from the state. -/
theorem exists_loop_settles {Fits : State → Prop} (size : State → Nat)
    (smaller : ∀ state next, Fits state → turn state = .inl next →
      Fits next ∧ size next < size state) (fits : Fits state) :
    ∃ outcome, Settles (fun rounds => loop turn rounds state) outcome := by
  induction bound : size state using Nat.strongRecOn generalizing state with
  | ind bound ih =>
    subst bound
    cases here : turn state with
    | inr outcome => exact ⟨outcome, loop_settles_left here⟩
    | inl next =>
      obtain ⟨next_fits, below⟩ := smaller state next fits here
      obtain ⟨outcome, settles⟩ := ih (size next) below next_fits rfl
      exact ⟨outcome, loop_settles_next here settles⟩

/-- A loop is never left where every turn leads to a state like the one before. -/
theorem loop_endless {Stuck : State → Prop}
    (stays : ∀ state, Stuck state → ∃ next, turn state = .inl next ∧ Stuck next)
    (stuck : Stuck state) (rounds : Nat) : loop turn rounds state = none := by
  induction rounds generalizing state with
  | zero => rfl
  | succ rounds ih =>
    obtain ⟨next, on, stuck_next⟩ := stays state stuck
    rw [loop, on]
    exact ih stuck_next

end Loop

end Brooklyn.Rounds
