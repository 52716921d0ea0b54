import Brooklyn.OwnershipReached
import Brooklyn.PreorderWalk

/-!
`recursively` as a walk through the ownership references. Each id is resolved in the world
of its turn, and the actions of the earlier turns may have registered more entities by
then. A pass that returns has performed its action on a list of entities that contains
every walk with fewer lookups; a pass whose lookups are those of a known walk performs its
action on exactly that walk.
-/

namespace Brooklyn
open PreorderWalk

variable {Ref Id : Type}

namespace World

def references (world : World Ref Id) (owner : Ref) : List Id :=
  (world.entity owner).ownedChildren.entityRefs.elements

/-- `ref.peek(id)`, or else `getEntity(id)`. -/
def lookup (world : World Ref Id) (owner : Ref) (id : Id) : Option Ref :=
  ((world.entity owner).ownedChildren.peek id).or (world.getEntity id)

end World

section Inversion
variable {action : Ref → Operation Ref Id Bool} {before after : World Ref Id} {bound : Nat}
  {e : Ref} {out : Except (Fault Ref) Unit}

theorem visit_unknown {recurse : Ref → Operation Ref Id Unit} {id : Id}
    (unknown : before.lookup e id = none) :
    visit recurse e id before = some (.ok (), before) := by
  unfold World.lookup at unknown
  unfold visit
  rw [Effect.read_bind, unknown]
  rfl

theorem visit_known {recurse : Ref → Operation Ref Id Unit} {id : Id} {child : Ref}
    (found : before.lookup e id = some child) :
    visit recurse e id before = recurse child before := by
  unfold World.lookup at found
  unfold visit
  rw [Effect.read_bind, found]

theorem recursively_thrown {fault : Fault Ref}
    (thrown : action e before = some (.error fault, after)) :
    recursively action (bound + 1) e before = some (.error fault, after) := by
  unfold recursively
  exact Effect.bind_thrown _ thrown

theorem recursively_acted {value : Bool} {middle : World Ref Id}
    (acted : action e before = some (.ok value, middle)) :
    recursively action (bound + 1) e before =
      Effect.forEach (middle.references e) (visit (recursively action bound) e) middle := by
  unfold recursively
  rw [Effect.bind_apply _ acted, Effect.read_bind]
  rfl

theorem recursively_cases (ran : recursively action (bound + 1) e before = some (out, after)) :
    (∃ fault, action e before = some (.error fault, after) ∧ out = .error fault) ∨
      ∃ value middle, action e before = some (.ok value, middle) ∧
        Effect.forEach (middle.references e) (visit (recursively action bound) e) middle =
          some (out, after) := by
  unfold recursively at ran
  rcases Effect.bind_cases ran with thrown | ⟨value, middle, acted, rest⟩
  · exact Or.inl thrown
  · rw [Effect.read_bind] at rest
    exact Or.inr ⟨value, middle, acted, rest⟩

/-- Passes with different bounds that both end do the same. -/
theorem recursively_more (ran : recursively action bound e before = some (out, after)) :
    recursively action (bound + 1) e before = some (out, after) := by
  induction bound generalizing e before out after with
  | zero => cases ran
  | succ bound ih =>
      rcases recursively_cases ran with ⟨fault, thrown, rfl⟩ | ⟨value, middle, acted, rest⟩
      · exact recursively_thrown thrown
      · rw [recursively_acted acted]
        clear acted ran
        generalize middle.references e = ids at rest
        induction ids generalizing middle with
        | nil => exact rest
        | cons id ids others =>
            have further {result : Except (Fault Ref) Unit} {reached : World Ref Id}
                (ran : visit (recursively action bound) e id middle = some (result, reached)) :
                visit (recursively action (bound + 1)) e id middle = some (result, reached) := by
              cases found : middle.lookup e id with
              | none =>
                  rw [visit_unknown found] at ran ⊢
                  exact ran
              | some child =>
                  rw [visit_known found] at ran ⊢
                  exact ih ran
            unfold Effect.forEach at rest ⊢
            rcases Effect.bind_cases rest with ⟨fault, thrown, rfl⟩ | ⟨_, reached, visited, later⟩
            · exact Effect.bind_thrown _ (further thrown)
            · rw [Effect.bind_apply _ (further visited)]
              exact others reached later

theorem recursively_unique {least most : Nat} {other : Except (Fault Ref) Unit}
    {reached : World Ref Id}
    (ran : recursively action least e before = some (out, after))
    (also : recursively action most e before = some (other, reached)) :
    (out, after) = (other, reached) := by
  have raised {bound : Nat} {result : Except (Fault Ref) Unit} {world : World Ref Id}
      (ran : recursively action bound e before = some (result, world)) (extra : Nat) :
      recursively action (bound + extra) e before = some (result, world) := by
    induction extra with
    | zero => exact ran
    | succ extra ih => exact recursively_more ih
  have first := raised ran most
  have second := raised also least
  rw [Nat.add_comm] at first
  exact Option.some.inj (first.symm.trans second)

end Inversion

section Visits

/-- The references are as they were, and what was known is. -/
structure World.Extends (before after : World Ref Id) : Prop where
  references : after.references = before.references
  lookup : ∀ owner id child, before.lookup owner id = some child →
    after.lookup owner id = some child

theorem World.Extends.trans {before middle after : World Ref Id} (first : before.Extends middle)
    (second : middle.Extends after) : before.Extends after :=
  ⟨second.references.trans first.references,
    fun owner id child found => second.lookup owner id child (first.lookup owner id child found)⟩

def perform (action : Ref → Operation Ref Id Bool) (e : Ref) : Operation Ref Id Unit := do
  let _ ← action e

theorem perform_returned {action : Ref → Operation Ref Id Bool} {e : Ref} {value : Bool}
    {before after : World Ref Id} (acted : action e before = some (.ok value, after)) :
    perform action e before = some (.ok (), after) := by
  unfold perform
  rw [Effect.bind_apply _ acted]
  rfl

variable {action : Ref → Operation Ref Id Bool}

/-- What a part of a pass that returned has done. -/
structure Visits (action : Ref → Operation Ref Id Bool) (before after : World Ref Id)
    (visited : List Ref) : Prop where
  extended : before.Extends after
  performed : Effect.forEach visited (perform action) before = some (.ok (), after)

theorem Visits.append {before middle after : World Ref Id} {visited others : List Ref}
    (first : Visits action before middle visited) (second : Visits action middle after others) :
    Visits action before after (visited ++ others) :=
  ⟨first.extended.trans second.extended, Effect.forEach_append first.performed second.performed⟩

theorem visits_nothing (world : World Ref Id) : Visits action world world [] :=
  ⟨⟨rfl, fun _ _ _ found => found⟩, rfl⟩

theorem forEach_visits {bound : Nat} {e : Ref} {ids : List Id} {before after : World Ref Id}
    (below : ∀ child before after, recursively action bound child before = some (.ok (), after) →
      ∃ visited, Visits action before after visited ∧
        ∀ look : Ref → Id → Option Ref,
          (∀ owner id found, look owner id = some found → before.lookup owner id = some found) →
          ∃ part, walk look before.references bound child = some part ∧ part.Sublist visited)
    (returned : Effect.forEach ids (visit (recursively action bound) e) before =
      some (.ok (), after)) :
    ∃ visited, Visits action before after visited ∧
      ∀ look : Ref → Id → Option Ref,
        (∀ owner id found, look owner id = some found → before.lookup owner id = some found) →
        ∃ part, collect (walk look before.references bound) (look e) ids = some part ∧
          part.Sublist visited := by
  induction ids generalizing before with
  | nil =>
      cases returned
      exact ⟨[], visits_nothing _, fun _ _ => ⟨[], rfl, List.Sublist.refl []⟩⟩
  | cons id rest ih =>
      obtain ⟨_, middle, visited, others⟩ := Effect.bind_returned returned
      cases found : before.lookup e id with
      | none =>
          rw [visit_unknown found] at visited
          cases visited
          obtain ⟨later, visits, parts⟩ := ih others
          refine ⟨later, visits, fun look known => ?_⟩
          obtain ⟨part, collected, within⟩ := parts look known
          have absent : look e id = none := by
            cases present : look e id with
            | none => rfl
            | some child =>
                rw [known e id child present] at found
                cases found
          exact ⟨part, (collect_skip absent).trans collected, within⟩
      | some child =>
          rw [visit_known found] at visited
          obtain ⟨own, ownVisits, ownParts⟩ := below child before middle visited
          obtain ⟨later, visits, parts⟩ := ih others
          refine ⟨own ++ later, ownVisits.append visits, fun look known => ?_⟩
          obtain ⟨part, collected, within⟩ := parts look fun owner id found present =>
            ownVisits.extended.lookup owner id found (known owner id found present)
          rw [ownVisits.extended.references] at collected
          cases present : look e id with
          | none =>
              exact ⟨part, (collect_skip present).trans collected,
                within.trans (List.sublist_append_right own later)⟩
          | some other =>
              have same := (known e id other present).symm.trans found
              cases same
              obtain ⟨ownPart, walked, ownWithin⟩ := ownParts look known
              exact ⟨ownPart ++ part, collect_cons present walked collected,
                ownWithin.append within⟩

/-- A pass that returns has gone through every walk of what was known at its start. -/
theorem recursively_visits
    (acts : ∀ e before value after, action e before = some (.ok value, after) →
      before.Extends after)
    {bound : Nat} {e : Ref} {before after : World Ref Id}
    (returned : recursively action bound e before = some (.ok (), after)) :
    ∃ visited, Visits action before after visited ∧
      ∀ look : Ref → Id → Option Ref,
        (∀ owner id found, look owner id = some found → before.lookup owner id = some found) →
        ∃ part, walk look before.references bound e = some part ∧ part.Sublist visited := by
  induction bound generalizing e before after with
  | zero => cases returned
  | succ bound ih =>
      rcases recursively_cases returned with ⟨_, _, thrown⟩ | ⟨value, middle, acted, rest⟩
      · cases thrown
      · have extended := acts e before value middle acted
        obtain ⟨later, visits, parts⟩ := forEach_visits (fun _ _ _ returned => ih returned) rest
        refine ⟨[e] ++ later, Visits.append ⟨extended, ?_⟩ visits, fun look known => ?_⟩
        · exact Effect.bind_apply _ (perform_returned acted)
        · obtain ⟨part, collected, within⟩ := parts look fun owner id found present =>
            extended.lookup owner id found (known owner id found present)
          rw [extended.references] at collected
          exact ⟨e :: part, congrArg (Option.map (e :: ·)) collected, within.cons_cons e⟩

end Visits

section Follows
variable {action : Ref → Operation Ref Id Bool} {look : Ref → Id → Option Ref}
  {labels : Ref → List Id} {holds : List Ref → World Ref Id → Prop} {inside : Ref → Prop}

theorem forEach_follows {bound : Nat} {e : Ref} {ids : List Id} {visited todo : List Ref}
    {before : World Ref Id}
    (looks : ∀ todo world, holds todo world → ∀ id ∈ ids, world.lookup e id = look e id)
    (below : ∀ child visited todo before, walk look labels bound child = some visited →
      (∀ other ∈ visited, inside other) → holds (visited ++ todo) before →
      ∃ after, recursively action bound child before = some (.ok (), after) ∧ holds todo after)
    (collected : collect (walk look labels bound) (look e) ids = some visited)
    (within : ∀ other ∈ visited, inside other) (ready : holds (visited ++ todo) before) :
    ∃ after, Effect.forEach ids (visit (recursively action bound) e) before =
      some (.ok (), after) ∧ holds todo after := by
  induction ids generalizing visited before with
  | nil =>
      cases collected
      exact ⟨before, rfl, ready⟩
  | cons id rest ih =>
      have later := fun todo world ready id member =>
        looks todo world ready id (List.mem_cons_of_mem _ member)
      have here := looks _ _ ready id List.mem_cons_self
      rcases collect_cases collected with ⟨unknown, others⟩ | ⟨child, own, others, found, walked,
        further, rfl⟩
      · obtain ⟨after, returned, next⟩ := ih later others within ready
        refine ⟨after, ?_, next⟩
        unfold Effect.forEach
        rw [Effect.bind_apply _ (visit_unknown (here.trans unknown)), returned]
      · rw [List.append_assoc] at ready
        obtain ⟨middle, visits, next⟩ := below child own (others ++ todo) before walked
          (fun other member => within other (List.mem_append_left _ member)) ready
        obtain ⟨after, returned, next⟩ := ih later further
          (fun other member => within other (List.mem_append_right _ member)) next
        refine ⟨after, ?_, next⟩
        unfold Effect.forEach
        rw [Effect.bind_apply _ ((visit_known (here.trans found)).trans visits), returned]

/-- A pass through a known walk, when what holds before the rest of it has each action
return and fixes the references and lookups of the entities inside. -/
theorem recursively_follows (holds : List Ref → World Ref Id → Prop) (inside : Ref → Prop)
    (todo : List Ref) (refers : ∀ todo world owner, holds todo world → world.references owner = labels owner)
    (looks : ∀ todo world owner id, holds todo world → inside owner → id ∈ labels owner →
      world.lookup owner id = look owner id)
    (steps : ∀ e todo world, inside e → holds (e :: todo) world →
      ∃ value after, action e world = some (.ok value, after) ∧ holds todo after)
    {bound : Nat} {e : Ref} {visited : List Ref} {before : World Ref Id}
    (walked : walk look labels bound e = some visited) (within : ∀ other ∈ visited, inside other)
    (ready : holds (visited ++ todo) before) :
    ∃ after, recursively action bound e before = some (.ok (), after) ∧ holds todo after := by
  induction bound generalizing e visited todo before with
  | zero => cases walked
  | succ bound ih =>
      obtain ⟨below, collected, rfl⟩ := walk_cases walked
      have here := within e List.mem_cons_self
      obtain ⟨value, middle, acted, next⟩ := steps e (below ++ todo) before here ready
      rw [recursively_acted acted, refers _ _ _ next]
      exact forEach_follows
        (fun todo world ready id member => looks todo world e id ready here member)
        (fun _ _ todo _ walked within ready => ih todo walked within ready) collected
        (fun other member => within other (List.mem_cons_of_mem e member)) next

/-- A pass ends when its walk is finite and every action ends. -/
theorem recursively_ends (holds : World Ref Id → Prop)
    (refers : ∀ world, holds world → world.references = labels)
    (looks : ∀ world, holds world → world.lookup = look)
    (ends : ∀ e world, holds world → ∃ out after, action e world = some (out, after) ∧ holds after)
    {bound : Nat} {e : Ref} {visited : List Ref} {before : World Ref Id}
    (walked : walk look labels bound e = some visited) (ready : holds before) :
    ∃ out after, recursively action bound e before = some (out, after) ∧ holds after := by
  induction bound generalizing e visited before with
  | zero => cases walked
  | succ bound ih =>
      obtain ⟨below, collected, rfl⟩ := walk_cases walked
      obtain ⟨out, middle, acted, next⟩ := ends e before ready
      cases out with
      | error fault => exact ⟨.error fault, middle, recursively_thrown acted, next⟩
      | ok value =>
          rw [recursively_acted acted, refers middle next]
          clear acted walked ready
          generalize labels e = ids at collected
          induction ids generalizing below middle with
          | nil => exact ⟨.ok (), middle, rfl, next⟩
          | cons id rest others =>
              unfold Effect.forEach
              have known := congrFun (congrFun (looks middle next) e) id
              rcases collect_cases collected with ⟨unknown, later⟩ | ⟨child, own, later, found,
                ownWalked, further, rfl⟩
              · rw [Effect.bind_apply _ (visit_unknown (known.trans unknown))]
                exact others below middle next later
              · obtain ⟨result, reached, ran, further_ready⟩ := ih ownWalked next
                have visited := (visit_known (known.trans found)).trans ran
                cases result with
                | error fault => exact ⟨.error fault, reached, Effect.bind_thrown _ visited,
                    further_ready⟩
                | ok _ =>
                    rw [Effect.bind_apply _ visited]
                    exact others later reached further_ready further

end Follows

section Stops
variable {action : Ref → Operation Ref Id Bool} {look : Ref → Id → Option Ref}
  {labels : Ref → List Id} {stops : Ref → Bool} {halts : Ref → Prop}
  {holds grown spoiled : World Ref Id → Prop}

/-- As long as `holds`, the walk is the same, and an action returns unless the walk stops
at its entity. `halts` is about the entities whose action throws and changes nothing. -/
structure Stopping (action : Ref → Operation Ref Id Bool) (look : Ref → Id → Option Ref)
    (labels : Ref → List Id) (stops : Ref → Bool) (halts : Ref → Prop)
    (holds : World Ref Id → Prop) : Prop where
  refers : ∀ world, holds world → world.references = labels
  looks : ∀ world, holds world → world.lookup = look
  passes : ∀ e world, stops e = false → holds world →
    ∃ value after, action e world = some (.ok value, after) ∧ holds after
  halted : ∀ e world, halts e → holds world →
    ∃ fault after, action e world = some (.error fault, after) ∧ holds after

theorem Stopping.visit_eq (stopping : Stopping action look labels stops halts holds)
    {world : World Ref Id} (ready : holds world) (recurse : Ref → Operation Ref Id Unit)
    (e : Ref) (id : Id) :
    visit recurse e id world =
      match look e id with
      | none => some (.ok (), world)
      | some child => recurse child world := by
  rw [← stopping.looks world ready]
  cases found : world.lookup e id with
  | none => exact visit_unknown found
  | some child => exact visit_known found

/-- How a pass that changes nothing ends: at the end of its walk or where it halts. -/
inductive Ends (halts : Ref → Prop) : Option Ref → Except (Fault Ref) Unit → Prop where
  | returns : Ends halts none (.ok ())
  | halts {e : Ref} (fault : Fault Ref) (halted : halts e) : Ends halts (some e) (.error fault)

theorem forEach_stops (stopping : Stopping action look labels stops halts holds) {bound : Nat}
    {e : Ref} {ids : List Id} {found : Option Ref} {before : World Ref Id}
    (below : ∀ child found before, first stops look labels bound child = some found →
      (∀ e ∈ found, halts e) → holds before →
      ∃ out after, recursively action bound child before = some (out, after) ∧ holds after ∧
        Ends halts found out)
    (searched : firstAmong (first stops look labels bound) (look e) ids = some found)
    (refused : ∀ e ∈ found, halts e) (ready : holds before) :
    ∃ out after, Effect.forEach ids (visit (recursively action bound) e) before =
      some (out, after) ∧ holds after ∧ Ends halts found out := by
  induction ids generalizing before with
  | nil =>
      cases searched
      exact ⟨.ok (), before, rfl, ready, .returns⟩
  | cons id rest ih =>
      unfold Effect.forEach
      have visited := stopping.visit_eq ready (recursively action bound) e id
      unfold firstAmong at searched
      cases known : look e id with
      | none =>
          rw [known] at searched visited
          rw [Effect.bind_apply _ visited]
          exact ih searched ready
      | some child =>
          rw [known] at searched visited
          dsimp only at searched visited
          cases inner : first stops look labels bound child with
          | none =>
              rw [inner] at searched
              cases searched
          | some result =>
              rw [inner] at searched
              cases result with
              | none =>
                  have nowhere : ∀ e ∈ (none : Option Ref), halts e :=
                    fun _ member => absurd member (Option.not_mem_none _)
                  obtain ⟨out, middle, ran, next, ends⟩ :=
                    below child none before inner nowhere ready
                  cases ends
                  rw [Effect.bind_apply _ (visited.trans ran)]
                  exact ih searched next
              | some stopped =>
                  cases searched
                  obtain ⟨out, after, ran, next, ends⟩ :=
                    below child (some stopped) before inner refused ready
                  cases ends with
                  | halts fault halted =>
                      exact ⟨.error fault, after, Effect.bind_thrown _ (visited.trans ran), next,
                        .halts fault halted⟩

/-- A pass whose walk stops nowhere, or first at an entity that halts it, changes nothing. -/
theorem recursively_stops (stopping : Stopping action look labels stops halts holds) {bound : Nat}
    {e : Ref} {found : Option Ref} {before : World Ref Id}
    (searched : first stops look labels bound e = some found) (refused : ∀ e ∈ found, halts e)
    (ready : holds before) :
    ∃ out after, recursively action bound e before = some (out, after) ∧ holds after ∧
      Ends halts found out := by
  induction bound generalizing e found before with
  | zero => cases searched
  | succ bound ih =>
      unfold first at searched
      split at searched
      · cases searched
        have halted := refused e rfl
        obtain ⟨fault, after, thrown, next⟩ := stopping.halted e before halted ready
        exact ⟨.error fault, after, recursively_thrown thrown, next, .halts fault halted⟩
      · next passes =>
        obtain ⟨value, middle, acted, next⟩ :=
          stopping.passes e before (Bool.eq_false_iff.mpr passes) ready
        rw [recursively_acted acted, stopping.refers middle next]
        exact forEach_stops stopping (fun _ _ _ searched refused ready => ih searched refused ready)
          searched refused next

theorem forEach_stopped (stopping : Stopping action look labels stops halts holds)
    (kept : ∀ e, Effect.Moves (fun before after => grown before → grown after) (action e))
    {bound : Nat} {e : Ref} {ids : List Id} {before after : World Ref Id}
    {out : Except (Fault Ref) Unit}
    (below : ∀ child before out after, holds before →
      recursively action bound child before = some (out, after) →
      grown after ∨ (spoiled after ∧ ∃ fault, out = .error fault) ∨
        holds after ∧ ∃ found, first stops look labels bound child = some found ∧
          Ends halts found out)
    (ready : holds before)
    (ran : Effect.forEach ids (visit (recursively action bound) e) before = some (out, after)) :
    grown after ∨ (spoiled after ∧ ∃ fault, out = .error fault) ∨
      holds after ∧ ∃ found, firstAmong (first stops look labels bound) (look e) ids = some found ∧
        Ends halts found out := by
  have trans : IsTrans (World Ref Id) fun before after => grown before → grown after :=
    ⟨fun _ _ _ first second => second ∘ first⟩
  have reflexive : Std.Refl fun before after : World Ref Id => grown before → grown after :=
    ⟨fun _ => id⟩
  induction ids generalizing before with
  | nil =>
      cases ran
      exact Or.inr (Or.inr ⟨ready, none, rfl, .returns⟩)
  | cons id rest ih =>
      unfold Effect.forEach at ran
      unfold firstAmong
      have visited := stopping.visit_eq ready (recursively action bound) e id
      cases known : look e id with
      | none =>
          rw [known] at visited
          rw [Effect.bind_apply _ visited] at ran
          exact ih ready ran
      | some child =>
          rw [known] at visited
          rcases Effect.bind_cases ran with ⟨fault, thrown, rfl⟩ | ⟨_, middle, returned, later⟩
          · rw [visited] at thrown
            rcases below child before _ after ready thrown with grew | ⟨spoilt, _⟩ | ⟨next, found,
              searched, ends⟩
            · exact Or.inl grew
            · exact Or.inr (Or.inl ⟨spoilt, fault, rfl⟩)
            · refine Or.inr (Or.inr ⟨next, found, ?_, ?_⟩)
              · cases ends with
                | halts fault halted => simp only [searched]
              · cases ends with
                | halts fault halted => exact .halts fault halted
          · rw [visited] at returned
            rcases below child before _ middle ready returned with grew | ⟨_, _, thrown⟩ | ⟨next,
              found, searched, ends⟩
            · exact Or.inl (Effect.moves_forEach (moves_visit (moves_recursively kept bound) e) rest
                middle out after later grew)
            · cases thrown
            · cases ends
              simp only [searched]
              exact ih next later

/-- How a pass ends in general: unless it grew or spoiled what it started with, it changed
nothing, and its walk stopped nowhere or first at an entity that halts it. -/
theorem recursively_stopped (stopping : Stopping action look labels stops halts holds)
    (kept : ∀ e, Effect.Moves (fun before after => grown before → grown after) (action e))
    (stopped : ∀ e before out after, stops e = true → holds before →
      action e before = some (out, after) →
      ((∃ fault, out = .error fault) ∧ halts e ∧ holds after) ∨
        ((∃ value, out = .ok value) ∧ grown after) ∨ ((∃ fault, out = .error fault) ∧ spoiled after))
    {bound : Nat} {e : Ref} {before after : World Ref Id} {out : Except (Fault Ref) Unit}
    (ready : holds before) (ran : recursively action bound e before = some (out, after)) :
    grown after ∨ (spoiled after ∧ ∃ fault, out = .error fault) ∨
      holds after ∧ ∃ found, first stops look labels bound e = some found ∧
        Ends halts found out := by
  have trans : IsTrans (World Ref Id) fun before after => grown before → grown after :=
    ⟨fun _ _ _ first second => second ∘ first⟩
  have reflexive : Std.Refl fun before after : World Ref Id => grown before → grown after :=
    ⟨fun _ => id⟩
  induction bound generalizing e before after out with
  | zero => cases ran
  | succ bound ih =>
      unfold first
      by_cases stop : stops e = true
      · rw [if_pos stop]
        rcases recursively_cases ran with ⟨fault, thrown, rfl⟩ | ⟨value, middle, acted, rest⟩
        · rcases stopped e before _ after stop ready thrown with ⟨_, halted, next⟩ |
            ⟨⟨_, returned⟩, _⟩ | ⟨_, spoilt⟩
          · exact Or.inr (Or.inr ⟨next, some e, rfl, .halts fault halted⟩)
          · cases returned
          · exact Or.inr (Or.inl ⟨spoilt, fault, rfl⟩)
        · rcases stopped e before _ middle stop ready acted with ⟨⟨_, thrown⟩, _⟩ | ⟨_, grew⟩ |
            ⟨⟨_, thrown⟩, _⟩
          · cases thrown
          · exact Or.inl (Effect.moves_forEach (moves_visit (moves_recursively kept bound) e) _
              middle out after rest grew)
          · cases thrown
      · rw [if_neg stop]
        obtain ⟨value, middle, acted, next⟩ :=
          stopping.passes e before (Bool.eq_false_iff.mpr stop) ready
        rw [recursively_acted acted, stopping.refers middle next] at ran
        exact forEach_stopped stopping kept (fun _ _ _ _ ready ran => ih ready ran) next ran

end Stops
end Brooklyn
