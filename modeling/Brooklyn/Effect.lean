import Mathlib.Order.Defs.Unbundled

/-!
Computations that change a state, may throw, and may fail to return: a result is
`none` when the computation does not return, and an exception leaves the state as
it was when it was thrown. `Moves` bounds what a computation does to the state on
every way out of it; `bind_returned` takes apart the runs that return normally.
-/

namespace Brooklyn

universe u
variable {State Fault Value Result Item : Type u}

def Effect (State Fault Value : Type u) : Type u :=
  State → Option (Except Fault Value × State)

namespace Effect

def throw (fault : Fault) : Effect State Fault Value :=
  fun state => some (.error fault, state)

def diverge : Effect State Fault Value :=
  fun _ => none

def read (reads : State → Value) : Effect State Fault Value :=
  fun state => some (.ok (reads state), state)

def modify (change : State → State) : Effect State Fault PUnit :=
  fun state => some (.ok ⟨⟩, change state)

def andThen (first : Effect State Fault Value) (next : Value → Effect State Fault Result) :
    Effect State Fault Result :=
  fun state =>
    match first state with
    | none => none
    | some (.error fault, after) => some (.error fault, after)
    | some (.ok value, after) => next value after

instance : Monad (Effect State Fault) where
  pure value := fun state => some (.ok value, state)
  bind := andThen

def forEach (items : List Item) (body : Item → Effect State Fault PUnit) :
    Effect State Fault PUnit :=
  match items with
  | [] => pure ⟨⟩
  | item :: rest => do
      body item
      forEach rest body

theorem bind_apply {first : Effect State Fault Value} {before middle : State} {value : Value}
    (next : Value → Effect State Fault Result)
    (ran : first before = some (.ok value, middle)) :
    (first >>= next) before = next value middle := by
  change andThen first next before = _
  rw [andThen, ran]

theorem bind_thrown {first : Effect State Fault Value} {before after : State} {fault : Fault}
    (next : Value → Effect State Fault Result)
    (ran : first before = some (.error fault, after)) :
    (first >>= next) before = some (.error fault, after) := by
  change andThen first next before = _
  rw [andThen, ran]

theorem bind_assoc {Last : Type u} (first : Effect State Fault Value)
    (middle : Value → Effect State Fault Result) (last : Result → Effect State Fault Last)
    (state : State) :
    ((first >>= middle) >>= last) state = (first >>= fun value => middle value >>= last) state := by
  change andThen (andThen first middle) last state =
    andThen first (fun value => andThen (middle value) last) state
  unfold andThen
  rcases first state with _ | ⟨_ | _, _⟩ <;> rfl

@[simp] theorem read_bind (reads : State → Value)
    (next : Value → Effect State Fault Result) (state : State) :
    (read reads >>= next) state = next (reads state) state := rfl

@[simp] theorem modify_bind (change : State → State)
    (next : PUnit → Effect State Fault Result) (state : State) :
    (modify change >>= next) state = next ⟨⟩ (change state) := rfl

theorem bind_cases {first : Effect State Fault Value}
    {next : Value → Effect State Fault Result} {before after : State}
    {out : Except Fault Result} (ran : (first >>= next) before = some (out, after)) :
    (∃ fault, first before = some (.error fault, after) ∧ out = .error fault) ∨
      ∃ value middle, first before = some (.ok value, middle) ∧
        next value middle = some (out, after) := by
  change andThen first next before = _ at ran
  unfold andThen at ran
  cases started : first before with
  | none =>
    rw [started] at ran
    cases ran
  | some result =>
    rw [started] at ran
    obtain ⟨fault | value, middle⟩ := result
    · cases ran
      exact Or.inl ⟨fault, rfl, rfl⟩
    · exact Or.inr ⟨value, middle, rfl, ran⟩

theorem bind_returned {first : Effect State Fault Value}
    {next : Value → Effect State Fault Result} {before after : State} {result : Result}
    (ran : (first >>= next) before = some (.ok result, after)) :
    ∃ value middle, first before = some (.ok value, middle) ∧
      next value middle = some (.ok result, after) := by
  rcases bind_cases ran with ⟨fault, _, thrown⟩ | returned
  · cases thrown
  · exact returned

theorem forEach_skips {body : Item → Effect State Fault PUnit} {items : List Item} {state : State}
    (skips : ∀ item ∈ items, body item state = some (.ok ⟨⟩, state)) :
    forEach items body state = some (.ok ⟨⟩, state) := by
  induction items with
  | nil => rfl
  | cons item rest ih =>
    unfold forEach
    rw [bind_apply _ (skips item List.mem_cons_self)]
    exact ih fun other member => skips other (List.mem_cons_of_mem item member)

theorem forEach_append {body : Item → Effect State Fault PUnit} {items others : List Item}
    {before middle : State} {result : Option (Except Fault PUnit × State)}
    (first : forEach items body before = some (.ok ⟨⟩, middle))
    (rest : forEach others body middle = result) :
    forEach (items ++ others) body before = result := by
  induction items generalizing before with
  | nil =>
    cases first
    exact rest
  | cons item items ih =>
    obtain ⟨_, reached, ran, later⟩ := bind_returned first
    rw [List.cons_append]
    unfold forEach
    exact (bind_apply _ ran).trans (ih later)

/-- The invariant of a loop says which items it is through with. -/
theorem forEach_returns {body : Item → Effect State Fault PUnit} (holds : List Item → State → Prop)
    {items : List Item} {state : State} (start : holds [] state)
    (steps : ∀ done item rest state, items = done ++ item :: rest → holds done state →
      ∃ after, body item state = some (.ok ⟨⟩, after) ∧ holds (done ++ [item]) after) :
    ∃ after, forEach items body state = some (.ok ⟨⟩, after) ∧ holds items after := by
  have from_here (done todo : List Item) (state : State) (split : items = done ++ todo)
      (so_far : holds done state) :
      ∃ after, forEach todo body state = some (.ok ⟨⟩, after) ∧ holds items after := by
    induction todo generalizing done state with
    | nil =>
      rw [List.append_nil] at split
      exact ⟨state, rfl, split ▸ so_far⟩
    | cons item rest ih =>
      obtain ⟨middle, ran, further⟩ := steps done item rest state split so_far
      obtain ⟨after, returned, all⟩ :=
        ih (done ++ [item]) middle (by rw [split, List.append_assoc]; rfl) further
      exact ⟨after, (bind_apply _ ran).trans returned, all⟩
  exact from_here [] items state rfl start

/-- What each round that returns does to a loop that returns. -/
theorem forEach_kept {body : Item → Effect State Fault PUnit} (holds : List Item → State → Prop)
    {items : List Item} {state after : State} (start : holds [] state)
    (steps : ∀ done item state after, item ∈ items → holds done state →
      body item state = some (.ok ⟨⟩, after) → holds (done ++ [item]) after)
    (returned : forEach items body state = some (.ok ⟨⟩, after)) : holds items after := by
  have from_here (done todo : List Item) (state : State) (among : ∀ item ∈ todo, item ∈ items)
      (so_far : holds done state) (returned : forEach todo body state = some (.ok ⟨⟩, after)) :
      holds (done ++ todo) after := by
    induction todo generalizing done state with
    | nil =>
      cases returned
      exact (List.append_nil done).symm ▸ so_far
    | cons item rest ih =>
      obtain ⟨_, middle, round, others⟩ := bind_returned returned
      have further := ih (done ++ [item]) middle
        (fun other later => among other (List.mem_cons_of_mem _ later))
        (steps done item state middle (among item List.mem_cons_self) so_far round) others
      rwa [List.append_assoc] at further
  exact from_here [] items state (fun _ member => member) start returned

section Extends
variable {Step : Type*} {holds : List Step → State → Prop} {all steps others : List Step}

/-- What is true of the steps so far, with `all` of them in the end, is true of those of the
effect too when it has returned. -/
def Extends (holds : List Step → State → Prop) (all : List Step)
    (effect : Effect State Fault PUnit) (steps : List Step) : Prop :=
  ∀ earlier state, earlier ++ steps <+: all → holds earlier state →
    ∃ after, effect state = some (.ok ⟨⟩, after) ∧ holds (earlier ++ steps) after

theorem extends_nothing : Extends holds all (pure ⟨⟩ : Effect State Fault PUnit) [] := by
  intro earlier state _ so_far
  rw [List.append_nil]
  exact ⟨state, rfl, so_far⟩

theorem Extends.andThen {first second : Effect State Fault PUnit}
    (head : Extends holds all first steps) (tail : Extends holds all second others) :
    Extends holds all (first >>= fun _ => second) (steps ++ others) := by
  intro earlier state fits so_far
  rw [← List.append_assoc] at fits
  obtain ⟨middle, ran, further⟩ := head earlier state ((List.prefix_append _ _).trans fits) so_far
  obtain ⟨after, later, done⟩ := tail _ middle fits further
  exact ⟨after, (bind_apply _ ran).trans later, List.append_assoc _ _ _ ▸ done⟩

theorem extends_forEach {body : Item → Effect State Fault PUnit} {steps : Item → List Step}
    {items : List Item} (each : ∀ item ∈ items, Extends holds all (body item) (steps item)) :
    Extends holds all (forEach items body) (items.flatMap steps) := by
  induction items with
  | nil => exact extends_nothing
  | cons item rest ih =>
    exact (each item List.mem_cons_self).andThen
      (ih fun other member => each other (List.mem_cons_of_mem item member))

end Extends

section Embed
variable {Part PartFault : Type u}

/-- The same on one part of a larger state. -/
def embed (part : State → Part) (replace : State → Part → State) (fault : PartFault → Fault)
    (effect : Effect Part PartFault Value) : Effect State Fault Value :=
  fun state => (effect (part state)).map fun ran => (ran.1.mapError fault, replace state ran.2)

variable {part : State → Part} {replace : State → Part → State} {fault : PartFault → Fault}
  {effect : Effect Part PartFault Value} {state after : State} {changed : Part}

theorem embed_returned {value : Value} (returned : effect (part state) = some (.ok value, changed)) :
    embed part replace fault effect state = some (.ok value, replace state changed) := by
  unfold embed
  rw [returned]
  rfl

theorem embed_cases {out : Except Fault Value}
    (ran : embed part replace fault effect state = some (out, after)) :
    ∃ result changed, effect (part state) = some (result, changed) ∧
      out = result.mapError fault ∧ after = replace state changed := by
  unfold embed at ran
  obtain ⟨⟨result, changed⟩, started, same⟩ := Option.map_eq_some_iff.mp ran
  cases same
  exact ⟨result, changed, started, rfl, rfl⟩

theorem embed_ok {value : Value}
    (ran : embed part replace fault effect state = some (.ok value, after)) :
    ∃ changed, effect (part state) = some (.ok value, changed) ∧ after = replace state changed := by
  obtain ⟨result, changed, started, same, rfl⟩ := embed_cases ran
  cases result with
  | error _ => cases same
  | ok _ =>
    cases same
    exact ⟨changed, started, rfl⟩

end Embed

section Moves
variable {relation : State → State → Prop}

/-- On every way out, the states before and after are related. -/
def Moves (relation : State → State → Prop) (effect : Effect State Fault Value) : Prop :=
  ∀ before out after, effect before = some (out, after) → relation before after

theorem Moves.weaken {weaker : State → State → Prop} {effect : Effect State Fault Value}
    (moves : Moves relation effect)
    (implied : ∀ before after, relation before after → weaker before after) :
    Moves weaker effect :=
  fun before out after ran => implied before after (moves before out after ran)

theorem moves_diverge : Moves relation (diverge : Effect State Fault Value) :=
  fun _ _ _ ran => by cases ran

theorem moves_modify {change : State → State} (changes : ∀ state, relation state (change state)) :
    Moves relation (modify change : Effect State Fault PUnit) := by
  intro before out after ran
  cases ran
  exact changes before

section Refl
variable [Std.Refl relation]

theorem moves_pure (value : Value) : Moves relation (pure value : Effect State Fault Value) := by
  intro before out after ran
  cases ran
  exact refl before

theorem moves_throw (fault : Fault) :
    Moves relation (throw fault : Effect State Fault Value) := by
  intro before out after ran
  cases ran
  exact refl before

theorem moves_read (reads : State → Value) :
    Moves relation (read reads : Effect State Fault Value) := by
  intro before out after ran
  cases ran
  exact refl before

end Refl

section Trans
variable [IsTrans State relation]

/-- The second part may use how the first one returned. -/
theorem moves_bind_of {first : Effect State Fault Value}
    {next : Value → Effect State Fault Result} (head : Moves relation first)
    (tail : ∀ before value middle out after, first before = some (.ok value, middle) →
      next value middle = some (out, after) → relation middle after) :
    Moves relation (first >>= next) := by
  intro before out after ran
  rcases bind_cases ran with ⟨fault, thrown, _⟩ | ⟨value, middle, returned, rest⟩
  · exact head before _ after thrown
  · exact Trans.trans (head before _ middle returned)
      (tail before value middle out after returned rest)

theorem moves_bind {first : Effect State Fault Value}
    {next : Value → Effect State Fault Result} (head : Moves relation first)
    (tail : ∀ value, Moves relation (next value)) : Moves relation (first >>= next) :=
  moves_bind_of head fun _ value middle out after _ ran => tail value middle out after ran

theorem moves_forEach [Std.Refl relation] {body : Item → Effect State Fault PUnit}
    (steps : ∀ item, Moves relation (body item)) (items : List Item) :
    Moves relation (forEach items body) := by
  induction items with
  | nil => exact moves_pure _
  | cons item rest ih => exact moves_bind (steps item) fun _ => ih

/-- What one round of a loop settles for its item, and no later round undoes, holds
for every item when the loop returns. `holds` is what the rounds may rely on. -/
theorem forEach_settles [Std.Refl relation] {body : Item → Effect State Fault PUnit}
    {holds : State → Prop} (settled : Item → State → Prop)
    (steps : ∀ item, Moves relation (body item))
    (holds_kept : ∀ before after, relation before after → holds before → holds after)
    (settled_kept : ∀ item before after, relation before after →
      settled item before → settled item after)
    (settles : ∀ item before after, holds before →
      body item before = some (.ok ⟨⟩, after) → settled item after)
    {items : List Item} {before after : State} (start : holds before)
    (returned : forEach items body before = some (.ok ⟨⟩, after)) :
    ∀ item ∈ items, settled item after := by
  induction items generalizing before with
  | nil => exact fun _ member => absurd member List.not_mem_nil
  | cons item rest ih =>
    obtain ⟨_, middle, round, others⟩ := bind_returned returned
    intro other member
    rcases List.mem_cons.mp member with rfl | later
    · exact settled_kept other middle after (moves_forEach steps rest middle _ after others)
        (settles other before middle start round)
    · exact ih (holds_kept before middle (steps item before _ middle round) start) others
        other later

end Trans
end Moves
end Effect
end Brooklyn
