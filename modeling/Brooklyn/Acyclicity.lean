import Mathlib.Logic.Relation

/-!
Relations without cycles. A link may be added exactly when its end does not already lead to
its start, and taking links away never closes a cycle. The same holds of relations whose
ways all come to an end, which have no cycles.
-/

namespace Brooklyn.Acyclicity
open Relation

universe u
variable {Node : Type u} {links others : Node → Node → Prop}

def Acyclic (links : Node → Node → Prop) : Prop :=
  ∀ node, ¬ TransGen links node node

def withLink (links : Node → Node → Prop) (start finish : Node) : Node → Node → Prop :=
  fun node next => links node next ∨ (node = start ∧ next = finish)

theorem Acyclic.mono (acyclic : Acyclic links)
    (fewer : ∀ node next, others node next → links node next) : Acyclic others :=
  fun node cycle => acyclic node (TransGen.mono fewer node node cycle)

theorem acyclic_empty : Acyclic fun _ _ : Node => False := by
  intro node cycle
  obtain ⟨_, none, _⟩ := TransGen.head'_iff.mp cycle
  exact none

/-- A way through the new link comes to its start, and goes on from its end, by old links. -/
theorem transGen_withLink {start finish node next : Node}
    (way : TransGen (withLink links start finish) node next) :
    TransGen links node next ∨ (ReflTransGen links node start ∧ ReflTransGen links finish next) := by
  induction way with
  | single link =>
    rcases link with old | ⟨rfl, rfl⟩
    · exact Or.inl (.single old)
    · exact Or.inr ⟨.refl, .refl⟩
  | tail _ link ih =>
    rcases link with old | ⟨rfl, rfl⟩
    · rcases ih with before | ⟨toStart, fromFinish⟩
      · exact Or.inl (before.tail old)
      · exact Or.inr ⟨toStart, fromFinish.tail old⟩
    · rcases ih with before | ⟨toStart, _⟩
      · exact Or.inr ⟨before.to_reflTransGen, .refl⟩
      · exact Or.inr ⟨toStart, .refl⟩

theorem acyclic_withLink_iff (start finish : Node) :
    Acyclic (withLink links start finish) ↔
      Acyclic links ∧ ¬ ReflTransGen links finish start := by
  constructor
  · intro acyclic
    refine ⟨acyclic.mono fun _ _ => Or.inl, fun way => ?_⟩
    have back : ReflTransGen (withLink links start finish) finish start :=
      ReflTransGen.mono (fun _ _ => Or.inl) _ _ way
    exact acyclic start (TransGen.head' (Or.inr ⟨rfl, rfl⟩) back)
  · rintro ⟨acyclic, apart⟩ node cycle
    rcases transGen_withLink cycle with old | ⟨toStart, fromFinish⟩
    · exact acyclic node old
    · exact apart (fromFinish.trans toStart)

/-- Every way along the links comes to an end. -/
def Ends (links : Node → Node → Prop) : Prop :=
  ∀ node, Acc (fun next node => links node next) node

theorem Ends.acyclic (ends : Ends links) : Acyclic links := by
  intro node
  induction ends node with
  | intro node _ ih =>
    intro cycle
    obtain ⟨next, link, back⟩ := TransGen.head'_iff.mp cycle
    exact ih next link (TransGen.tail' back link)

theorem Ends.mono (ends : Ends links) (fewer : ∀ node next, others node next → links node next) :
    Ends others :=
  fun node => Subrelation.accessible (fun link => fewer _ _ link) (ends node)

theorem ends_empty : Ends fun _ _ : Node => False :=
  fun _ => Acc.intro _ fun _ none => none.elim

theorem ends_withLink {start finish : Node} (ends : Ends links)
    (apart : ¬ ReflTransGen links finish start) : Ends (withLink links start finish) := by
  -- First the nodes that do not lead to the start of the new link, `finish` among them.
  have away (node : Node) (apart : ¬ ReflTransGen links node start) :
      Acc (fun next node => withLink links start finish node next) node := by
    induction ends node with
    | intro node _ ih =>
      refine Acc.intro _ fun next link => ?_
      rcases link with old | ⟨rfl, _⟩
      · exact ih next old fun way => apart (way.head old)
      · exact absurd .refl apart
  intro node
  induction ends node with
  | intro node _ ih =>
    refine Acc.intro _ fun next link => ?_
    rcases link with old | ⟨_, rfl⟩
    · exact ih next old
    · exact away _ apart

end Brooklyn.Acyclicity
