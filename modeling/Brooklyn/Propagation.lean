import Mathlib.Data.Nat.Periodic
import Mathlib.Data.Set.Finite.Basic
import Mathlib.Order.WellFoundedSet

/-!
Finitely many points that act in rounds, each driven by others. If a point comes to
rest once its drivers have, and nothing drives itself around a cycle, all of them
come to rest. A relation with a cycle has a shortest closed walk, which no chord
cuts short.
-/

namespace Brooklyn.Propagation
universe u
variable {Point : Type u}

section Rest
variable {acts : ℕ → Point → Prop}

def Rests (acts : ℕ → Point → Prop) (point : Point) : Prop :=
  ∃ start, ∀ round, start ≤ round → ¬acts round point

/-- A measure that each act lowers, from some round on, is used up. -/
theorem rests_of_falling {point : Point} (measure : ℕ → ℕ) (start : ℕ)
    (falls : ∀ round, start ≤ round → acts round point → measure (round + 1) < measure round)
    (steady : ∀ round, start ≤ round → ¬acts round point → measure (round + 1) = measure round) :
    Rests acts point := by
  generalize bound : measure start = height
  induction height using Nat.strong_induction_on generalizing start with
  | _ height ih =>
      -- Strong induction on the measure: after an act it is lower, and the rest of the
      -- rounds are those of a smaller measure.
      by_cases active : ∃ round, start ≤ round ∧ acts round point
      · obtain ⟨round, later, acted⟩ := active
        have never_rises (other : ℕ) (after : start ≤ other) : measure other ≤ measure start := by
          induction other, after using Nat.le_induction with
          | base => exact le_rfl
          | succ other after held =>
              refine le_trans ?_ held
              by_cases acting : acts other point
              · exact (falls other after acting).le
              · exact (steady other after acting).le
        have lower : measure (round + 1) < height :=
          (falls round later acted).trans_le ((never_rises round later).trans_eq bound)
        exact ih _ lower (round + 1)
          (fun other after => falls other (by omega))
          (fun other after => steady other (by omega)) rfl
      · exact ⟨start, fun round later acted => active ⟨round, later, acted⟩⟩

theorem rests_together (points : List Point) (rest : ∀ point ∈ points, Rests acts point) :
    ∃ start, ∀ round, start ≤ round → ∀ point ∈ points, ¬acts round point := by
  induction points with
  | nil => exact ⟨0, fun _ _ point member => (List.not_mem_nil member).elim⟩
  | cons first points ih =>
      obtain ⟨early, rested⟩ := rest first List.mem_cons_self
      obtain ⟨start, others⟩ := ih fun point member => rest point (List.mem_cons_of_mem _ member)
      refine ⟨max early start, fun round later point member => ?_⟩
      rcases List.mem_cons.mp member with rfl | member
      · exact rested round (le_trans (le_max_left _ _) later)
      · exact others round (le_trans (le_max_right _ _) later) point member

end Rest

section Cycles
variable {drives : Point → Point → Prop}

/-- What drives something is one of finitely many points, so without a cycle
there is no endless chain of drivers. -/
theorem wellFounded_of_acyclic (finite : {point | ∃ other, drives point other}.Finite)
    (acyclic : ∀ point, ¬Relation.TransGen drives point point) : WellFounded drives := by
  have irrefl : Std.Irrefl (Relation.TransGen drives) := ⟨acyclic⟩
  have strict : IsStrictOrder Point (Relation.TransGen drives) := {}
  have founded : Set.WellFoundedOn _ (Relation.TransGen drives) := finite.wellFoundedOn
  refine ⟨fun point => (Set.WellFoundedOn.acc_iff_wellFoundedOn.out 0 2).mpr ?_⟩
  refine founded.mono (fun _ _ => Relation.TransGen.single) fun driver path => ?_
  obtain ⟨other, driven, _⟩ := Relation.TransGen.head'_iff.mp path
  exact ⟨other, driven⟩

/-- A walk that comes back to where it was after every period. -/
structure ClosedWalk (drives : Point → Point → Prop) where
  period : ℕ
  point : ℕ → Point
  positive : 0 < period
  periodic : Function.Periodic point period
  edge : ∀ index, drives (point index) (point (index + 1))

namespace ClosedWalk

/-- Goes around a finite walk that ends where it starts. -/
def around (period : ℕ) (point : ℕ → Point) (positive : 0 < period)
    (closed : point period = point 0)
    (edge : ∀ index < period, drives (point index) (point (index + 1))) : ClosedWalk drives where
  period := period
  point index := point (index % period)
  positive := positive
  periodic index := by simp
  edge index := by
    have within := Nat.mod_lt index positive
    have step := edge _ within
    rw [← Nat.mod_add_mod]
    rcases Nat.lt_or_ge (index % period + 1) period with inside | last
    · rwa [Nat.mod_eq_of_lt inside]
    · have full : index % period + 1 = period := by omega
      rw [full] at step
      rwa [full, Nat.mod_self, ← closed]

def mono {weaker : Point → Point → Prop} (walk : ClosedWalk drives)
    (implied : ∀ first last, drives first last → weaker first last) : ClosedWalk weaker where
  period := walk.period
  point := walk.point
  positive := walk.positive
  periodic := walk.periodic
  edge index := implied _ _ (walk.edge index)

theorem nonempty_of_cycle {point : Point} (cycle : Relation.TransGen drives point point) :
    Nonempty (ClosedWalk drives) := by
  have walk {start stop : Point} (path : Relation.TransGen drives start stop) :
      ∃ (period : ℕ) (walk : ℕ → Point), 0 < period ∧ walk 0 = start ∧ walk period = stop ∧
        ∀ index < period, drives (walk index) (walk (index + 1)) := by
    induction path with
    | @single stop edge =>
        refine ⟨1, fun index => if index = 0 then start else stop, one_pos, rfl, rfl, ?_⟩
        intro index first
        obtain rfl : index = 0 := by omega
        exact edge
    | @tail middle stop _ edge ih =>
        obtain ⟨period, walk, positive, first, last, edges⟩ := ih
        refine ⟨period + 1, fun index => if index ≤ period then walk index else stop,
          Nat.succ_pos period, by simp [first], by simp, ?_⟩
        intro index within
        rcases Nat.lt_or_ge index period with inside | ended
        · simpa [inside.le, inside] using edges index inside
        · obtain rfl : index = period := by omega
          simpa [last] using edge
  obtain ⟨period, points, positive, first, last, edges⟩ := walk cycle
  exact ⟨around period points positive (last.trans first.symm) edges⟩

/-- A chord of a walk, with the part of the walk from where it ends to where it starts. -/
theorem exists_shortcut (walk : ClosedWalk drives) {first last : ℕ} (ordered : first ≤ last)
    (chord : drives (walk.point last) (walk.point first)) :
    ∃ other : ClosedWalk drives, other.period = last - first + 1 := by
  let points (index : ℕ) : Point :=
    if index ≤ last - first then walk.point (first + index) else walk.point first
  refine ⟨around (last - first + 1) points (Nat.succ_pos _) (by simp [points]) ?_, rfl⟩
  intro index within
  rcases Nat.lt_or_ge index (last - first) with inside | ended
  · simpa [points, inside.le, inside, Nat.add_assoc] using walk.edge (first + index)
  -- The last edge is the chord.
  · obtain rfl : index = last - first := by omega
    simpa [points, Nat.add_sub_cancel' ordered] using chord

theorem exists_shortest (walk : Nonempty (ClosedWalk drives)) :
    ∃ shortest : ClosedWalk drives, ∀ other : ClosedWalk drives, shortest.period ≤ other.period := by
  obtain ⟨walk⟩ := walk
  obtain ⟨shortest, _, least⟩ :=
    (measure fun walk : ClosedWalk drives => walk.period).wf.has_min Set.univ ⟨walk, trivial⟩
  exact ⟨shortest, fun other => Nat.le_of_not_lt (least other trivial)⟩

/-- On a shortest closed walk every edge between its points is one of the walk's. -/
theorem chordless {shortest : ClosedWalk drives}
    (least : ∀ other : ClosedWalk drives, shortest.period ≤ other.period) {first last : ℕ}
    (chord : drives (shortest.point first) (shortest.point (last + 1))) :
    shortest.point first = shortest.point last := by
  have positive := shortest.positive
  have same {one two : ℕ} (congruent : one % shortest.period = two % shortest.period) :
      shortest.point one = shortest.point two := by
    rw [← Function.Periodic.map_mod_nat shortest.periodic one,
      ← Function.Periodic.map_mod_nat shortest.periodic two, congruent]
  -- `shift` takes `first` to the next index, within a period, that stands for `last`.
  let shift := (last + (shortest.period * first - first)) % shortest.period
  have small : shift < shortest.period := Nat.mod_lt _ positive
  have reaches : (first + shift) % shortest.period = last % shortest.period := by
    have enough : first ≤ shortest.period * first := Nat.le_mul_of_pos_left first positive
    have total : first + (last + (shortest.period * first - first)) =
        last + shortest.period * first := by omega
    rw [Nat.add_mod_mod, total, Nat.add_mul_mod_self_left]
  have target : shortest.point (first + shift + 1) = shortest.point (last + 1) :=
    same (by rw [← Nat.mod_add_mod, reaches, Nat.mod_add_mod])
  obtain ⟨other, short⟩ := shortest.exists_shortcut
    (show first + shift + 1 ≤ first + shortest.period by omega)
    (by rwa [shortest.periodic first, target])
  -- Otherwise the chord would close a walk shorter than a shortest one.
  have none : shift = 0 := by
    have longer := least other
    omega
  exact same (by rw [← reaches, none, Nat.add_zero])

end ClosedWalk
end Cycles
end Brooklyn.Propagation
