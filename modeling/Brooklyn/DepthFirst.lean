import Mathlib.Data.List.Basic

/-!
Trees that are walked through with a list of what is still to be visited: a visit ends there, or
opens more to visit before everything else. `endings` lists what the visits come to, from left to
right, and `walk_rule` is the rule for a loop that takes the first of the list in each round and
may stop at an ending.
-/

namespace Brooklyn.DepthFirst

universe u v

inductive Visit (Item : Type u) (Ending : Type v)
  | ends (ending : Ending)
  | opens (items : List Item)

/-- What is opened by a visit is smaller. -/
structure Tree (Item : Type u) (Ending : Type v) where
  visit : Item → Visit Item Ending
  size : Item → Nat
  smaller : ∀ {item : Item} {items : List Item}, visit item = .opens items →
    ∀ child ∈ items, size child < size item

variable {Item : Type u} {Ending : Type v}

def Tree.endings (tree : Tree Item Ending) (item : Item) : List Ending :=
  match _visited : tree.visit item with
  | .ends ending => [ending]
  | .opens items => items.attach.flatMap fun child => tree.endings child.1
termination_by tree.size item
decreasing_by exact tree.smaller _visited child.1 child.2

section Equations
variable {tree : Tree Item Ending}

theorem Tree.endings_ends {item : Item} {ending : Ending}
    (visited : tree.visit item = .ends ending) : tree.endings item = [ending] := by
  rw [Tree.endings]
  split
  next other found => rw [visited] at found; cases found; rfl
  next found => rw [visited] at found; cases found

theorem Tree.endings_opens {item : Item} {items : List Item}
    (visited : tree.visit item = .opens items) :
    tree.endings item = items.flatMap tree.endings := by
  rw [Tree.endings]
  split
  next found => rw [visited] at found; cases found
  next children found =>
    rw [visited] at found
    cases found
    rw [← List.flatMap_map (fun child : {child // child ∈ items} => child.1) tree.endings,
      List.attach_map_subtype_val]

end Equations

/-- The induction rule: what holds of an item if it holds of all that its visit opens. -/
theorem Tree.induction (tree : Tree Item Ending) {holds : Item → Prop}
    (ends : ∀ item ending, tree.visit item = .ends ending → holds item)
    (opens : ∀ item items, tree.visit item = .opens items →
      (∀ child ∈ items, holds child) → holds item)
    (item : Item) : holds item :=
  match visited : tree.visit item with
  | .ends _ => ends _ _ visited
  | .opens _ => opens _ _ visited fun child _member =>
      Tree.induction tree ends opens child
termination_by tree.size item
decreasing_by exact tree.smaller visited child _member

section Walk
variable (tree : Tree Item Ending) (behaves : List Item → List Ending → Prop)
  (stops : Ending → Bool) (stopped : Ending → Prop)

/-- The rule for the loop. `behaves items passed` says how the loop goes on from the items, with
the endings it has passed; it is shown for the end of the list, or for the first ending at which
the loop stops. -/
theorem walk_rule
    (opened : ∀ {item children rest passed}, tree.visit item = .opens children →
      behaves (children ++ rest) passed → behaves (item :: rest) passed)
    (ended : ∀ {item ending rest passed}, tree.visit item = .ends ending → stops ending = false →
      behaves rest (passed ++ [ending]) → behaves (item :: rest) passed)
    (stop : ∀ {item ending rest passed}, tree.visit item = .ends ending → stops ending = true →
      stopped ending → behaves (item :: rest) passed)
    (items : List Item) (passed : List Ending)
    (outcome : match (items.flatMap tree.endings).find? stops with
      | none => behaves [] (passed ++ items.flatMap tree.endings)
      | some ending => stopped ending) :
    behaves items passed := by
  -- one item first, with any rest behind it
  have one : ∀ item rest passed,
      (match (tree.endings item).find? stops with
        | none => behaves rest (passed ++ tree.endings item)
        | some ending => stopped ending) → behaves (item :: rest) passed := by
    intro item
    induction item using tree.induction with
    | ends item ending visited =>
      intro rest passed outcome
      rw [Tree.endings_ends visited] at outcome
      cases stops_here : stops ending with
      | false =>
        rw [List.find?_cons_of_neg (by simp [stops_here])] at outcome
        exact ended visited stops_here outcome
      | true =>
        rw [List.find?_cons_of_pos stops_here] at outcome
        exact stop visited stops_here outcome
    | opens item children visited inside =>
      intro rest passed outcome
      refine opened visited ?_
      rw [Tree.endings_opens visited] at outcome
      clear visited
      induction children generalizing passed with
      | nil => simpa using outcome
      | cons child children ih =>
        refine inside child List.mem_cons_self (children ++ rest) passed ?_
        rw [List.flatMap_cons, List.find?_append] at outcome
        split
        next none_here =>
          rw [none_here, Option.none_or] at outcome
          refine ih (fun other member => inside other (List.mem_cons_of_mem _ member)) _ ?_
          rwa [List.append_assoc]
        next ending found =>
          rw [found] at outcome
          exact outcome
  induction items generalizing passed with
  | nil => simpa using outcome
  | cons item items ih =>
    refine one item items passed ?_
    rw [List.flatMap_cons, List.find?_append] at outcome
    split
    next none_here =>
      rw [none_here, Option.none_or] at outcome
      refine ih _ ?_
      rwa [List.append_assoc]
    next ending found =>
      rw [found] at outcome
      exact outcome

end Walk
end Brooklyn.DepthFirst
