import Brooklyn.Transition
import Mathlib.Data.List.Basic

/-!
`waitInTaskForAttributeReady`: a task that waits for an attribute, the updates of it, one at a
time, and the thread that delivers the events. `onEvent` sets the data and then releases the
semaphore, in two steps. A null is `none`; a predicate that throws has no answer. An event that
is in flight when the task unsubscribes is still delivered.
-/

namespace Brooklyn.DependentConfiguration
open Transition

variable {Value : Type}

abbrev Predicate (Value : Type) : Type := Option Value → Option Bool

inductive CurrentTask where
  | withoutContext
  | absent
  | withoutEntity
  | ofEntity
deriving DecidableEq

/-- What the call is given: `ready` may be null, and is Groovy's truth then. -/
structure Waiting (Value : Type) where
  ready : Option (Predicate Value)
  truthPredicate : Predicate Value
  current : CurrentTask

def Waiting.predicate (waiting : Waiting Value) : Predicate Value :=
  waiting.ready.getD waiting.truthPredicate

inductive Fault where
  | nullPointer
  | illegalState
  | noSuchElement
  | subscribing
  | predicate
  | interrupted
deriving DecidableEq

inductive Outcome (Value : Type) where
  | returned (value : Option Value)
  | threw (fault : Fault)
deriving DecidableEq

/-- `sampling` to `leaving` are inside the `try`, with a subscription. -/
inductive Pc (Value : Type) where
  | reading
  | checking (value : Option Value)
  | entering
  | subscribing
  | sampling
  | testing (value : Option Value)
  | acquiring
  | getting
  | leaving (outcome : Outcome Value)
  | done (outcome : Outcome Value)
deriving DecidableEq

def Pc.inside : Pc Value → Bool
  | .sampling | .testing _ | .acquiring | .getting | .leaving _ => true
  | _ => false

/-- `publishing` is the update that has put its value and not yet published it, `releasing`
says that a callback has set the data and not yet released. `held` are the values that the
attribute has had. -/
structure State (Value : Type) where
  attr : Option Value
  held : List (Option Value)
  publishing : Option (Option Value)
  subscribed : Bool
  inFlight : List (Option Value)
  data : Option Value
  releasing : Bool
  permits : Nat
  isInterrupted : Bool
  pc : Pc Value

inductive Action (Value : Type) where
  | put (value : Option Value)
  | publish
  | setData
  | release
  | interrupt
  | exec
  | subscribeFails
  | acquireInterrupted

/-- A step of the task. `acquire` waits while there is no permit. -/
def exec (waiting : Waiting Value) (state : State Value) : Option (State Value) :=
  match state.pc with
  | .reading => some { state with pc := .checking state.attr }
  | .checking value =>
      some { state with pc :=
        match waiting.predicate value with
        | none => .done (.threw .predicate)
        | some true => .done (.returned value)
        | some false => .entering }
  | .entering =>
      some { state with pc :=
        match waiting.current with
        | .withoutContext => .done (.threw .nullPointer)
        | .absent => .done (.threw .illegalState)
        | .withoutEntity => .done (.threw .noSuchElement)
        | .ofEntity => .subscribing }
  | .subscribing => some { state with subscribed := true, pc := .sampling }
  | .sampling => some { state with pc := .testing state.attr }
  | .testing value =>
      some { state with pc :=
        match waiting.predicate value with
        | none => .leaving (.threw .predicate)
        | some true => .leaving (.returned value)
        | some false => .acquiring }
  | .acquiring =>
      if 0 < state.permits then
        some { state with permits := state.permits - 1, pc := .getting }
      else none
  | .getting => some { state with pc := .testing state.data }
  | .leaving outcome => some { state with subscribed := false, pc := .done outcome }
  | .done _ => none

def step (waiting : Waiting Value) (state : State Value) : Action Value → Option (State Value)
  | .put value =>
      match state.publishing with
      | some _ => none
      | none =>
          some { state with
            attr := value, held := value :: state.held, publishing := some value }
  | .publish =>
      state.publishing.map fun value =>
        { state with
          publishing := none
          inFlight := if state.subscribed then state.inFlight ++ [value] else state.inFlight }
  | .setData =>
      match state.releasing, state.inFlight with
      | false, value :: rest =>
          some { state with inFlight := rest, data := value, releasing := true }
      | _, _ => none
  | .release =>
      if state.releasing then
        some { state with releasing := false, permits := state.permits + 1 }
      else none
  | .interrupt => some { state with isInterrupted := true }
  | .exec => exec waiting state
  | .subscribeFails =>
      match state.pc with
      | .subscribing => some { state with pc := .done (.threw .subscribing) }
      | _ => none
  | .acquireInterrupted =>
      -- the flag is cleared by `acquire` and set again where the exception is caught
      match state.isInterrupted, state.pc with
      | true, .acquiring => some { state with pc := .leaving (.threw .interrupted) }
      | _, _ => none

/-- The attribute has a value when the call begins. -/
def waitInTaskForAttributeReady (waiting : Waiting Value) (initially : Option Value) :
    System (State Value) (Action Value) where
  initial :=
    { attr := initially, held := [initially], publishing := none, subscribed := false,
      inFlight := [], data := none, releasing := false, permits := 0, isInterrupted := false,
      pc := .reading }
  step := step waiting

namespace State

/-- No update is in progress and no event is in flight. -/
def Quiescent (state : State Value) : Prop :=
  state.publishing = none ∧ state.inFlight = [] ∧ state.releasing = false

/-- The task waits for a permit. -/
def Blocked (state : State Value) : Prop := state.pc = .acquiring ∧ state.permits = 0

/-- The value that the attribute has is still to be delivered. -/
def Arriving (state : State Value) : Prop :=
  state.publishing.isSome = true ∨ state.inFlight.getLast? = some state.attr

def Arrived (state : State Value) : Prop := state.inFlight = [] ∧ state.data = state.attr

def Wakes (state : State Value) : Prop := state.releasing = true ∨ 0 < state.permits

end State

/-- The task knows that the value is not ready, or will be told. -/
def Aware (ready : Predicate Value) (state : State Value) : Pc Value → Prop
  | .testing value =>
      value = state.attr ∨ ready state.attr ≠ some true ∨ state.Arriving ∨
        state.Arrived ∧ state.Wakes
  | .acquiring => ready state.attr ≠ some true ∨ state.Arriving ∨ state.Arrived ∧ state.Wakes
  | .getting => ready state.attr ≠ some true ∨ state.Arriving ∨ state.Arrived
  | _ => True

/-- What the task has read was a value of the attribute, and what it returns is ready. -/
def Reads (ready : Predicate Value) (held : List (Option Value)) : Pc Value → Prop
  | .checking value | .testing value => value ∈ held
  | .leaving (.returned value) | .done (.returned value) =>
      value ∈ held ∧ ready value = some true
  | _ => True

structure Sound (ready : Predicate Value) (state : State Value) : Prop where
  newest : ∀ value, state.publishing = some value → value = state.attr
  current : state.attr ∈ state.held
  arriving : ∀ value ∈ state.inFlight, value ∈ state.held
  fetched : state.Wakes ∨ state.pc = .getting → state.data ∈ state.held
  reads : Reads ready state.held state.pc
  inside : state.subscribed = state.pc.inside
  aware : Aware ready state state.pc

theorem Reads.mono {ready : Predicate Value} {held more : List (Option Value)} {pc : Pc Value}
    (reads : Reads ready held pc) (subset : ∀ value ∈ held, value ∈ more) :
    Reads ready more pc := by
  cases pc with
  | checking value => exact subset value reads
  | testing value => exact subset value reads
  | leaving outcome =>
    cases outcome with
    | returned value => exact ⟨subset value reads.1, reads.2⟩
    | threw fault => trivial
  | done outcome =>
    cases outcome with
    | returned value => exact ⟨subset value reads.1, reads.2⟩
    | threw fault => trivial
  | _ => trivial

/-- A task that will be told is aware. -/
theorem aware_of_arriving {ready : Predicate Value} {state : State Value}
    (arriving : state.Arriving) (pc : Pc Value) : Aware ready state pc := by
  cases pc with
  | testing value => exact Or.inr (Or.inr (Or.inl arriving))
  | acquiring => exact Or.inr (Or.inl arriving)
  | getting => exact Or.inr (Or.inl arriving)
  | _ => trivial

/-- A step of another thread, after which what was to arrive or has arrived still is. -/
theorem Aware.mono {ready : Predicate Value} {before after : State Value} {pc : Pc Value}
    (aware : Aware ready before pc) (same : after.attr = before.attr)
    (arriving : before.Arriving → after.Arriving ∨ after.Arrived ∧ after.Wakes)
    (arrived : before.Arrived → after.Arrived) (wakes : before.Wakes → after.Wakes) :
    Aware ready after pc := by
  have told : before.Arriving ∨ before.Arrived ∧ before.Wakes →
      after.Arriving ∨ after.Arrived ∧ after.Wakes
    | .inl waits => arriving waits
    | .inr both => Or.inr (both.imp arrived wakes)
  cases pc with
  | testing value =>
    unfold Aware at aware ⊢
    rw [same]
    exact aware.imp_right (Or.imp_right told)
  | acquiring =>
    unfold Aware at aware ⊢
    rw [same]
    exact aware.imp_right told
  | getting =>
    unfold Aware at aware ⊢
    rw [same]
    exact aware.imp_right fun
      | .inl waits => (arriving waits).imp_right And.left
      | .inr there => Or.inr (arrived there)
  | _ => trivial

section Others
variable {ready : Predicate Value} {state : State Value}

theorem Sound.put (sound : Sound ready state) (value : Option Value) :
    Sound ready { state with
      attr := value, held := value :: state.held, publishing := some value } where
  newest := fun _ same => (Option.some.inj same).symm
  current := List.mem_cons_self
  arriving := fun other there => List.mem_cons_of_mem _ (sound.arriving other there)
  fetched := fun fetched => List.mem_cons_of_mem _ (sound.fetched fetched)
  reads := sound.reads.mono fun _ => List.mem_cons_of_mem _
  inside := sound.inside
  aware := aware_of_arriving (Or.inl rfl) _

theorem Sound.publish (sound : Sound ready state) {value : Option Value}
    (publishing : state.publishing = some value) :
    Sound ready { state with
      publishing := none
      inFlight := if state.subscribed then state.inFlight ++ [value] else state.inFlight } := by
  have newest := sound.newest value publishing
  refine ⟨nofun, sound.current, fun other there => ?_, sound.fetched, sound.reads, sound.inside,
    ?_⟩
  · dsimp only at there
    split at there
    · rcases List.mem_append.mp there with there | there
      · exact sound.arriving other there
      · obtain rfl := List.mem_singleton.mp there
        exact newest ▸ sound.current
    · exact sound.arriving other there
  · cases here : state.pc.inside with
    | true =>
      refine aware_of_arriving (Or.inr ?_) _
      simp [sound.inside, here, newest]
    | false =>
      -- outside the `try` the task does not wait for anything
      dsimp only
      cases pc : state.pc <;> simp_all [Pc.inside, Aware]

theorem Sound.setData (sound : Sound ready state) {value : Option Value}
    {rest : List (Option Value)} (inFlight : state.inFlight = value :: rest) :
    Sound ready { state with inFlight := rest, data := value, releasing := true } where
  newest := sound.newest
  current := sound.current
  arriving := fun other there =>
    sound.arriving other (inFlight ▸ List.mem_cons_of_mem _ there)
  fetched := fun _ => sound.arriving value (inFlight ▸ List.mem_cons_self)
  reads := sound.reads
  inside := sound.inside
  aware := by
    refine sound.aware.mono rfl (fun waits => ?_) (fun there => ?_) fun _ => Or.inl rfl
    · rcases waits with updating | last
      · exact Or.inl (Or.inl updating)
      · rw [inFlight] at last
        cases rest with
        | nil => exact Or.inr ⟨⟨rfl, Option.some.inj last⟩, Or.inl rfl⟩
        | cons next rest => exact Or.inl (Or.inr last)
    · rw [State.Arrived, inFlight] at there
      cases there.1

theorem Sound.release (sound : Sound ready state) (releasing : state.releasing = true) :
    Sound ready { state with releasing := false, permits := state.permits + 1 } where
  newest := sound.newest
  current := sound.current
  arriving := sound.arriving
  fetched := fun _ => sound.fetched (Or.inl (Or.inl releasing))
  reads := sound.reads
  inside := sound.inside
  aware := sound.aware.mono rfl Or.inl id fun _ => Or.inr (Nat.succ_pos _)

end Others

section Task
variable {waiting : Waiting Value} {state : State Value}

/-- A step of the task to a place that asserts nothing of the attribute. -/
theorem Sound.goto {ready : Predicate Value} (sound : Sound ready state) (next : Pc Value)
    (reads : Reads ready state.held next) (inside : next.inside = state.pc.inside)
    (aware : Aware ready state next) (elsewhere : next ≠ .getting) :
    Sound ready { state with pc := next } where
  newest := sound.newest
  current := sound.current
  arriving := sound.arriving
  fetched := fun fetched => sound.fetched (fetched.imp_right fun here => absurd here elsewhere)
  reads := reads
  inside := sound.inside.trans inside.symm
  aware := aware

theorem Sound.exec (sound : Sound waiting.predicate state) {after : State Value}
    (moved : exec waiting state = some after) : Sound waiting.predicate after := by
  have reads := sound.reads
  have aware := sound.aware
  have fetched := sound.fetched
  have inside := sound.inside
  cases pc : state.pc with
  | reading =>
    rw [pc] at inside
    simp only [DependentConfiguration.exec, pc, Option.some.injEq] at moved
    subst moved
    exact sound.goto _ sound.current (by rw [pc]; rfl) trivial nofun
  | checking value =>
    rw [pc] at reads
    simp only [DependentConfiguration.exec, pc, Option.some.injEq] at moved
    subst moved
    cases answer : waiting.predicate value with
    | none => exact sound.goto _ trivial (by rw [pc]; rfl) trivial nofun
    | some isReady =>
      cases isReady with
      | true => exact sound.goto _ ⟨reads, answer⟩ (by rw [pc]; rfl) trivial nofun
      | false => exact sound.goto _ trivial (by rw [pc]; rfl) trivial nofun
  | entering =>
    simp only [DependentConfiguration.exec, pc, Option.some.injEq] at moved
    subst moved
    cases waiting.current with
    | _ => exact sound.goto _ trivial (by rw [pc]; rfl) trivial nofun
  | subscribing =>
    simp only [DependentConfiguration.exec, pc, Option.some.injEq] at moved
    subst moved
    exact ⟨sound.newest, sound.current, sound.arriving,
      fun fetched => sound.fetched (fetched.imp_right nofun), trivial, rfl, trivial⟩
  | sampling =>
    simp only [DependentConfiguration.exec, pc, Option.some.injEq] at moved
    subst moved
    exact sound.goto _ sound.current (by rw [pc]; rfl) (Or.inl rfl) nofun
  | testing value =>
    rw [pc] at reads aware
    simp only [DependentConfiguration.exec, pc, Option.some.injEq] at moved
    subst moved
    cases answer : waiting.predicate value with
    | none => exact sound.goto _ trivial (by rw [pc]; rfl) trivial nofun
    | some isReady =>
      cases isReady with
      | true => exact sound.goto _ ⟨reads, answer⟩ (by rw [pc]; rfl) trivial nofun
      | false =>
        refine sound.goto _ trivial (by rw [pc]; rfl) ?_ nofun
        rcases aware with rfl | aware
        · exact Or.inl (by rw [answer]; nofun)
        · exact aware
  | acquiring =>
    rw [pc] at aware
    simp only [DependentConfiguration.exec, pc] at moved
    split at moved
    next permit =>
      obtain rfl := Option.some.inj moved
      refine ⟨sound.newest, sound.current, sound.arriving,
        fun _ => sound.fetched (Or.inl (Or.inr permit)), trivial, ?_, ?_⟩
      · exact inside.trans (by rw [pc]; rfl)
      · exact aware.imp_right (Or.imp_right And.left)
    · cases moved
  | getting =>
    rw [pc] at aware
    simp only [DependentConfiguration.exec, pc, Option.some.injEq] at moved
    subst moved
    refine sound.goto _ (sound.fetched (Or.inr pc)) (by rw [pc]; rfl) ?_ nofun
    rcases aware with unready | arriving | arrived
    · exact Or.inr (Or.inl unready)
    · exact Or.inr (Or.inr (Or.inl arriving))
    · exact Or.inl arrived.2
  | leaving outcome =>
    rw [pc] at reads
    simp only [DependentConfiguration.exec, pc, Option.some.injEq] at moved
    subst moved
    refine ⟨sound.newest, sound.current, sound.arriving,
      fun fetched => sound.fetched (fetched.imp_right nofun), ?_, rfl, trivial⟩
    cases outcome with
    | returned value => exact reads
    | threw fault => trivial
  | done outcome => simp [DependentConfiguration.exec, pc] at moved

theorem sound_of_reached {initially : Option Value}
    (run : Reached (waitInTaskForAttributeReady waiting initially) anyStep state) :
    Sound waiting.predicate state := by
  refine reached_invariant (Sound waiting.predicate) ?_ ?_ run
  · exact ⟨nofun, List.mem_cons_self, nofun, by rintro ((⟨⟨⟩⟩ | ⟨⟨⟩⟩) | ⟨⟨⟩⟩), trivial, rfl, trivial⟩
  · intro before action after _ sound _ moved
    cases action with
    | put value =>
      cases publishing : before.publishing with
      | some other => simp [waitInTaskForAttributeReady, step, publishing] at moved
      | none =>
        simp only [waitInTaskForAttributeReady, step, publishing, Option.some.injEq] at moved
        subst moved
        exact sound.put value
    | publish =>
      obtain ⟨value, publishing, rfl⟩ := Option.map_eq_some_iff.mp moved
      exact sound.publish publishing
    | setData =>
      cases releasing : before.releasing with
      | true => simp [waitInTaskForAttributeReady, step, releasing] at moved
      | false =>
        cases inFlight : before.inFlight with
        | nil => simp [waitInTaskForAttributeReady, step, releasing, inFlight] at moved
        | cons value rest =>
          simp only [waitInTaskForAttributeReady, step, releasing, inFlight,
            Option.some.injEq] at moved
          subst moved
          exact sound.setData inFlight
    | release =>
      simp only [waitInTaskForAttributeReady, step] at moved
      split at moved
      next releasing =>
        obtain rfl := Option.some.inj moved
        exact sound.release releasing
      · cases moved
    | interrupt =>
      obtain rfl := Option.some.inj moved
      exact ⟨sound.newest, sound.current, sound.arriving, sound.fetched, sound.reads,
        sound.inside, sound.aware⟩
    | exec => exact sound.exec moved
    | subscribeFails =>
      simp only [waitInTaskForAttributeReady, step] at moved
      split at moved
      next pc =>
        obtain rfl := Option.some.inj moved
        exact sound.goto _ trivial (by rw [pc]; rfl) trivial nofun
      · cases moved
    | acquireInterrupted =>
      simp only [waitInTaskForAttributeReady, step] at moved
      split at moved
      next pc =>
        obtain rfl := Option.some.inj moved
        exact sound.goto _ trivial (by rw [pc]; rfl) trivial nofun
      · cases moved

/-- The task misses no wake-up, returns a ready value that the attribute had, and leaves no
subscription. -/
theorem waits_until_ready {initially : Option Value}
    (run : Reached (waitInTaskForAttributeReady waiting initially) anyStep state) :
    ¬ (state.Quiescent ∧ state.Blocked ∧ waiting.predicate state.attr = some true) ∧
      (∀ value, state.pc = .done (.returned value) →
        value ∈ state.held ∧ waiting.predicate value = some true) ∧
      (∀ outcome, state.pc = .done outcome → state.subscribed = false) := by
  have sound := sound_of_reached run
  refine ⟨?_, fun value finished => ?_, fun outcome finished => ?_⟩
  · rintro ⟨⟨updated, delivered, released⟩, ⟨pc, permits⟩, isReady⟩
    have aware := sound.aware
    rw [pc] at aware
    rcases aware with unready | arriving | ⟨-, wakes⟩
    · exact unready isReady
    · simp [State.Arriving, updated, delivered] at arriving
    · simp [State.Wakes, released, permits] at wakes
  · have reads := sound.reads
    rw [finished] at reads
    exact reads
  · rw [sound.inside, finished]
    rfl

end Task

/-- The value becomes ready after the task has read it, and is not ready any more when the
task wakes: the task waits again, and is interrupted. -/
theorem interrupted_wait_unsubscribes : ∃ state : State Nat,
    state.pc = .done (.threw .interrupted) ∧ state.subscribed = false := by
  let waiting : Waiting Nat := ⟨none, fun value => some (value.any (0 < ·)), .ofEntity⟩
  have shown := replay_shows (waitInTaskForAttributeReady waiting none) anyStep
    [.exec, .exec, .put (some 1), .publish, .exec, .put (some 0), .exec, .exec, .publish, .exec,
      .setData, .release, .exec, .exec, .exec, .interrupt, .acquireInterrupted, .exec]
    (fun state => decide (state.pc = .done (.threw .interrupted)))
    (by decide +kernel)
  obtain ⟨state, run, shown⟩ := shown
  have finished := of_decide_eq_true shown
  exact ⟨state, finished, (waits_until_ready run).2.2 _ finished⟩

end Brooklyn.DependentConfiguration
