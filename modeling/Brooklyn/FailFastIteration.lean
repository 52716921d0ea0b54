import Brooklyn.Effect

/-!
A loop over a collection whose iterator is fail-fast. The iterator has its next element from
the moment it gives out the one before; only when that next element is taken does it compare
the collection's count of changes with the one it began with. So a loop may change the
collection in its last round, and in no other.
-/

namespace Brooklyn.Effect

universe u
variable {State Fault Item Result : Type u}

/-- `changes` is the collection's count, `expected` the one that the iterator began with. -/
def iterateFrom (changes : State → Nat) (concurrent : Fault)
    (body : Result → Item → Effect State Fault Result) (expected : Nat) :
    List Item → Result → Effect State Fault Result
  | [], result => pure result
  | item :: rest, result => fun state =>
      if changes state = expected then
        (body result item >>= iterateFrom changes concurrent body expected rest) state
      else some (.error concurrent, state)

/-- The elements are those that the collection has at the start: as long as it is not changed
it has the same ones. -/
def iterate (changes : State → Nat) (concurrent : Fault)
    (body : Result → Item → Effect State Fault Result) (items : List Item) (result : Result) :
    Effect State Fault Result := fun state =>
  iterateFrom changes concurrent body (changes state) items result state

variable {changes : State → Nat} {concurrent : Fault}
  {body : Result → Item → Effect State Fault Result}

theorem iterate_one (item : Item) (result : Result) (state : State) :
    iterate changes concurrent body [item] result state = body result item state := by
  unfold iterate iterateFrom
  rw [if_pos rfl]
  cases ran : body result item state with
  | none =>
    change andThen _ _ _ = _
    rw [andThen, ran]
  | some outcome =>
    obtain ⟨fault | value, after⟩ := outcome
    · exact bind_thrown _ ran
    · exact bind_apply _ ran

/-- Where the first round changes the collection, a loop over two elements or more throws. -/
theorem iterate_changing {first second : Item} {rest : List Item} {result : Result} {before : State}
    (moves : ∀ value after, body result first before = some (.ok value, after) →
      changes after ≠ changes before) (value : Result) (after : State) :
    iterate changes concurrent body (first :: second :: rest) result before ≠
      some (.ok value, after) := by
  intro ran
  unfold iterate iterateFrom at ran
  rw [if_pos rfl] at ran
  obtain ⟨counted, middle, round, later⟩ := bind_returned ran
  unfold iterateFrom at later
  rw [if_neg (moves counted middle round)] at later
  cases later

end Brooklyn.Effect
