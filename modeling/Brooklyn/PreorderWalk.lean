import Mathlib.Data.List.Nodup
import Mathlib.Data.List.Perm.Subperm
import Mathlib.Logic.Relation

/-!
Walks through a forest that is given by labels: a node has labels, and a lookup says which
node, if any, a label stands for. `walk` lists the nodes in preorder and `first` looks for
the first of them where a walk stops; both have a bound on the depth and are `none` beyond
it. A lookup that knows more labels walks through everything the smaller one does, and
meets once more each node that only the larger one finds under a label.
-/

namespace Brooklyn.PreorderWalk

universe u v
variable {Node : Type u} {Label : Type v}

def collect (visit : Node → Option (List Node)) (look : Label → Option Node) :
    List Label → Option (List Node)
  | [] => some []
  | label :: rest =>
      match look label with
      | none => collect visit look rest
      | some child =>
          (visit child).bind fun visited => (collect visit look rest).map (visited ++ ·)

def walk (look : Node → Label → Option Node) (labels : Node → List Label) :
    Nat → Node → Option (List Node)
  | 0, _ => none
  | bound + 1, node =>
      (collect (walk look labels bound) (look node) (labels node)).map (node :: ·)

def firstAmong (visit : Node → Option (Option Node)) (look : Label → Option Node) :
    List Label → Option (Option Node)
  | [] => some none
  | label :: rest =>
      match look label with
      | none => firstAmong visit look rest
      | some child =>
          match visit child with
          | some none => firstAmong visit look rest
          | found => found

/-- `some none` when the walk comes to its end. -/
def first (stops : Node → Bool) (look : Node → Label → Option Node) (labels : Node → List Label) :
    Nat → Node → Option (Option Node)
  | 0, _ => none
  | bound + 1, node =>
      if stops node then some (some node)
      else firstAmong (first stops look labels bound) (look node) (labels node)

section Inversion
variable {visit : Node → Option (List Node)} {look : Label → Option Node} {label : Label}
  {rest : List Label} {visited : List Node}

theorem collect_cases (collected : collect visit look (label :: rest) = some visited) :
    (look label = none ∧ collect visit look rest = some visited) ∨
      ∃ child below others, look label = some child ∧ visit child = some below ∧
        collect visit look rest = some others ∧ visited = below ++ others := by
  cases found : look label with
  | none => exact Or.inl ⟨rfl, by simpa [collect, found] using collected⟩
  | some child =>
      simp only [collect, found, Option.bind_eq_some_iff, Option.map_eq_some_iff] at collected
      obtain ⟨below, visits, others, collected, same⟩ := collected
      exact Or.inr ⟨child, below, others, rfl, visits, collected, same.symm⟩

theorem collect_skip (unknown : look label = none) :
    collect visit look (label :: rest) = collect visit look rest := by
  simp [collect, unknown]

theorem collect_cons {child : Node} {below others : List Node} (found : look label = some child)
    (visits : visit child = some below) (collected : collect visit look rest = some others) :
    collect visit look (label :: rest) = some (below ++ others) := by
  simp [collect, found, visits, collected]

variable {looks : Node → Label → Option Node} {labels : Node → List Label} {bound : Nat}
  {node : Node}

theorem walk_cases (walked : walk looks labels (bound + 1) node = some visited) :
    ∃ below, collect (walk looks labels bound) (looks node) (labels node) = some below ∧
      visited = node :: below := by
  obtain ⟨below, collected, same⟩ := Option.map_eq_some_iff.mp walked
  exact ⟨below, collected, same.symm⟩

theorem walk_root (walked : walk looks labels bound node = some visited) : node ∈ visited := by
  cases bound with
  | zero => cases walked
  | succ bound =>
      obtain ⟨_, _, rfl⟩ := walk_cases walked
      exact List.mem_cons_self

/-- A search that comes to the end has walked through everything. -/
theorem walk_of_first {stops : Node → Bool} (searched : first stops looks labels bound node = some none) :
    ∃ visited, walk looks labels bound node = some visited := by
  induction bound generalizing node with
  | zero => cases searched
  | succ bound ih =>
      unfold first at searched
      split at searched
      · cases searched
      · have collected (names : List Label)
            (among : firstAmong (first stops looks labels bound) (looks node) names = some none) :
            ∃ below, collect (walk looks labels bound) (looks node) names = some below := by
          induction names with
          | nil => exact ⟨[], rfl⟩
          | cons name rest others =>
              unfold firstAmong at among
              cases found : looks node name with
              | none =>
                  rw [found] at among
                  obtain ⟨below, collected⟩ := others among
                  exact ⟨below, (collect_skip found).trans collected⟩
              | some child =>
                  rw [found] at among
                  dsimp only at among
                  cases inner : first stops looks labels bound child with
                  | none => rw [inner] at among; cases among
                  | some result =>
                      rw [inner] at among
                      cases result with
                      | some stopped => cases among
                      | none =>
                          obtain ⟨visited, walked⟩ := ih inner
                          obtain ⟨below, collected⟩ := others among
                          exact ⟨_, collect_cons found walked collected⟩
        obtain ⟨below, collected⟩ := collected _ searched
        exact ⟨_, congrArg (Option.map (node :: ·)) collected⟩

end Inversion

section Lookups
variable [DecidableEq Node] {less more : Node → Label → Option Node} {labels : Node → List Label}

/-- `part` is the walk of the smaller lookup through what `all` walks through. A child that
only the larger lookup finds under a label of `part` is counted once more in `all`. -/
structure Within (less more : Node → Label → Option Node) (labels : Node → List Label)
    (part all : List Node) : Prop where
  sublist : part.Sublist all
  again : ∀ owner ∈ part, ∀ label ∈ labels owner, less owner label = none →
    ∀ child, more owner label = some child → part.count child < all.count child

theorem Within.append {part all others rest : List Node} (within : Within less more labels part all)
    (after : Within less more labels others rest) :
    Within less more labels (part ++ others) (all ++ rest) where
  sublist := within.sublist.append after.sublist
  again := by
    intro owner member label named unknown child found
    rw [List.count_append, List.count_append]
    have fewer := within.sublist.count_le child
    have fewerAfter := after.sublist.count_le child
    rcases List.mem_append.mp member with here | there
    · have more := within.again owner here label named unknown child found
      omega
    · have more := after.again owner there label named unknown child found
      omega

theorem Within.prepend {part all : List Node} (within : Within less more labels part all)
    (above : List Node) : Within less more labels part (above ++ all) :=
  have nothing : Within less more labels [] above :=
    ⟨List.nil_sublist above, fun _ member => absurd member List.not_mem_nil⟩
  nothing.append within

/-- The walks below one node. The last part is about the labels of the node itself. -/
theorem collect_within {bound : Nat} {owner : Node} {names : List Label} {all : List Node}
    (kept : ∀ label child, less owner label = some child → more owner label = some child)
    (below : ∀ node all, walk more labels bound node = some all →
      ∃ part, walk less labels bound node = some part ∧ Within less more labels part all)
    (collected : collect (walk more labels bound) (more owner) names = some all) :
    ∃ part, collect (walk less labels bound) (less owner) names = some part ∧
      Within less more labels part all ∧
      ∀ label ∈ names, less owner label = none → ∀ child, more owner label = some child →
        part.count child < all.count child := by
  induction names generalizing all with
  | nil =>
      cases collected
      exact ⟨[], rfl, ⟨List.Sublist.refl [], fun _ member => absurd member List.not_mem_nil⟩,
        fun _ member => absurd member List.not_mem_nil⟩
  | cons name rest ih =>
      rcases collect_cases collected with ⟨unknown, others⟩ | ⟨child, visited, others, found,
        visits, later, rfl⟩
      · obtain ⟨part, walked, within, again⟩ := ih others
        have absent : less owner name = none := by
          cases present : less owner name with
          | none => rfl
          | some child =>
              rw [kept name child present] at unknown
              cases unknown
        refine ⟨part, (collect_skip absent).trans walked, within, ?_⟩
        intro label member lacking child found
        rcases List.mem_cons.mp member with rfl | member
        · rw [unknown] at found
          cases found
        · exact again label member lacking child found
      · obtain ⟨part, walked, within, again⟩ := ih later
        cases present : less owner name with
        | none =>
            refine ⟨part, (collect_skip present).trans walked, within.prepend visited, ?_⟩
            intro label member lacking other also
            rw [List.count_append]
            rcases List.mem_cons.mp member with rfl | member
            · rw [found] at also
              cases also
              have once : 0 < visited.count child := List.count_pos_iff.mpr (walk_root visits)
              have fewer := within.sublist.count_le child
              omega
            · have more := again label member lacking other also
              omega
        | some known =>
            have same := (kept name known present).symm.trans found
            cases same
            obtain ⟨own, ownWalked, ownWithin⟩ := below child visited visits
            refine ⟨own ++ part, collect_cons present ownWalked walked, ownWithin.append within, ?_⟩
            intro label member lacking other also
            rw [List.count_append, List.count_append]
            have fewer := ownWithin.sublist.count_le other
            rcases List.mem_cons.mp member with rfl | member
            · rw [present] at lacking
              cases lacking
            · have more := again label member lacking other also
              omega

theorem walk_within
    (kept : ∀ owner label child, less owner label = some child → more owner label = some child)
    {bound : Nat} {node : Node} {all : List Node} (walked : walk more labels bound node = some all) :
    ∃ part, walk less labels bound node = some part ∧ Within less more labels part all := by
  induction bound generalizing node all with
  | zero => cases walked
  | succ bound ih =>
      obtain ⟨below, collected, rfl⟩ := walk_cases walked
      obtain ⟨part, walked, within, again⟩ :=
        collect_within (kept node) (fun _ _ walked => ih walked) collected
      refine ⟨node :: part, congrArg (Option.map (node :: ·)) walked, within.sublist.cons_cons node, ?_⟩
      intro owner member label named lacking child found
      rw [List.count_cons, List.count_cons]
      rcases List.mem_cons.mp member with rfl | member
      · have more := again label named lacking child found
        omega
      · have more := within.again owner member label named lacking child found
        omega

/-- If the larger walk meets no node twice, the labels that only the larger lookup knows
stand for nothing in the smaller walk. -/
theorem unknown_outside {part all : List Node} (within : Within less more labels part all)
    (distinct : all.Nodup) {owner child : Node} (member : owner ∈ part) {label : Label}
    (named : label ∈ labels owner) (lacking : less owner label = none)
    (found : more owner label = some child) : child ∉ part := by
  intro inside
  have once : 0 < part.count child := List.count_pos_iff.mpr inside
  have again := within.again owner member label named lacking child found
  have most := List.nodup_iff_count_le_one.mp distinct child
  omega

end Lookups
section Reached
open Relation
variable {look : Node → Label → Option Node} {labels : Node → List Label} {bound : Nat}
  {node : Node} {visited : List Node}

/-- A node and one that stands under a label of it. -/
def Down (look : Node → Label → Option Node) (labels : Node → List Label) (node child : Node) :
    Prop :=
  ∃ label ∈ labels node, look node label = some child

theorem mem_collect {visit : Node → Option (List Node)} {looks : Label → Option Node}
    {reached : Node → Node → Prop}
    (each : ∀ child visited, visit child = some visited → ∀ other, other ∈ visited ↔ reached child other)
    {names : List Label} (collected : collect visit looks names = some visited) (other : Node) :
    other ∈ visited ↔ ∃ child, (∃ label ∈ names, looks label = some child) ∧ reached child other := by
  induction names generalizing visited with
  | nil =>
      cases collected
      simp
  | cons label rest ih =>
      simp only [List.exists_mem_cons_iff, or_and_right, exists_or]
      rcases collect_cases collected with ⟨unknown, later⟩ | ⟨child, below, others, found, visits,
        later, rfl⟩
      · rw [ih later, unknown]
        simp
      · rw [List.mem_append, each child below visits, ih later, found]
        simp

/-- A walk comes to what is below its node. -/
theorem mem_walk (walked : walk look labels bound node = some visited) (other : Node) :
    other ∈ visited ↔ ReflTransGen (Down look labels) node other := by
  induction bound generalizing node visited other with
  | zero => cases walked
  | succ bound ih =>
      obtain ⟨below, collected, rfl⟩ := walk_cases walked
      rw [List.mem_cons, mem_collect (fun _ _ visits => ih visits) collected,
        ReflTransGen.cases_head_iff, @eq_comm _ node]
      rfl

variable (acyclic : ∀ node, ¬ TransGen (Down look labels) node node)
include acyclic

/-- A walk among finitely many nodes ends: those it passed on its way down are different. -/
theorem walk_ends_from {everyone passed : List Node}
    (closed : ∀ node child, Down look labels node child → child ∈ everyone)
    (distinct : passed.Nodup) (old : ∀ other ∈ passed, other ∈ everyone)
    (above : ∀ other ∈ passed, TransGen (Down look labels) other node) (listed : node ∈ everyone)
    (enough : everyone.length < bound + passed.length) :
    ∃ visited, walk look labels bound node = some visited := by
  induction bound generalizing node passed with
  | zero =>
      have fits := (distinct.subperm old).length_le
      omega
  | succ bound ih =>
      have fresh : (node :: passed).Nodup :=
        List.nodup_cons.mpr ⟨fun seen => acyclic node (above node seen), distinct⟩
      have below (child : Node) (down : Down look labels node child) :
          ∃ visited, walk look labels bound child = some visited :=
        ih fresh
          (fun other seen => (List.mem_cons.mp seen).elim (fun same => same ▸ listed) (old other))
          (fun other seen => (List.mem_cons.mp seen).elim (fun same => same ▸ .single down)
            fun earlier => (above other earlier).tail down)
          (closed node child down) (by rw [List.length_cons]; omega)
      have collected (names : List Label) (among : ∀ label ∈ names, label ∈ labels node) :
          ∃ visited, collect (walk look labels bound) (look node) names = some visited := by
        induction names with
        | nil => exact ⟨[], rfl⟩
        | cons label rest others =>
            obtain ⟨later, further⟩ := others fun name member => among name (List.mem_cons_of_mem _ member)
            cases found : look node label with
            | none => exact ⟨later, (collect_skip found).trans further⟩
            | some child =>
                obtain ⟨visited, walked⟩ := below child ⟨label, among label List.mem_cons_self, found⟩
                exact ⟨_, collect_cons found walked further⟩
      obtain ⟨below, all⟩ := collected (labels node) fun _ member => member
      exact ⟨_, congrArg (Option.map (node :: ·)) all⟩

theorem walk_ends {everyone : List Node}
    (closed : ∀ node child, Down look labels node child → child ∈ everyone) (listed : node ∈ everyone)
    (enough : everyone.length < bound) : ∃ visited, walk look labels bound node = some visited :=
  walk_ends_from acyclic closed List.nodup_nil (fun _ member => absurd member List.not_mem_nil)
    (fun _ member => absurd member List.not_mem_nil) listed enough

variable (single : ∀ node other child, Down look labels node child → Down look labels other child →
    node = other)
  (once : ∀ node, ∀ label ∈ labels node, ∀ other ∈ labels node, ∀ child,
    look node label = some child → look node other = some child → label = other)
  (named : ∀ node, (labels node).Nodup)
include single once named

/-- Where no node is below two others, or below one under two labels, a walk meets none twice. -/
theorem nodup_walk (walked : walk look labels bound node = some visited) : visited.Nodup := by
  induction bound generalizing node visited with
  | zero => cases walked
  | succ bound ih =>
      obtain ⟨below, collected, rfl⟩ := walk_cases walked
      -- Of two ways up from one node, one goes through the end of the other.
      have apart {child other last : Node} (down : Down look labels node child)
          (downToo : Down look labels node other) (way : ReflTransGen (Down look labels) child last)
          (wayToo : ReflTransGen (Down look labels) other last) : child = other := by
        have noWay {child other : Node} (down : Down look labels node child)
            (downToo : Down look labels node other)
            (way : ReflTransGen (Down look labels) child other) : child = other := by
          rcases way.cases_tail with same | ⟨middle, up, last⟩
          · exact same.symm
          · obtain rfl := single _ _ _ last downToo
            exact absurd (TransGen.head' down up) (acyclic middle)
        have unique : Relator.RightUnique (Function.swap (Down look labels)) :=
          fun last first second one other => single _ _ _ one other
        rcases ReflTransGen.total_of_right_unique unique (reflTransGen_swap.mpr way)
            (reflTransGen_swap.mpr wayToo) with up | up
        · exact (noWay downToo down (reflTransGen_swap.mp up)).symm
        · exact noWay down downToo (reflTransGen_swap.mp up)
      have fresh (names : List Label) (distinct : names.Nodup)
          (among : ∀ label ∈ names, label ∈ labels node) {visited : List Node}
          (collected : collect (walk look labels bound) (look node) names = some visited) :
          visited.Nodup := by
        induction names generalizing visited with
        | nil =>
            cases collected
            exact List.nodup_nil
        | cons label rest others =>
            obtain ⟨new, distinct⟩ := List.nodup_cons.mp distinct
            have later := fun name member => among name (List.mem_cons_of_mem label member)
            rcases collect_cases collected with ⟨_, further⟩ | ⟨child, part, all, found, walked,
              further, rfl⟩
            · exact others distinct later further
            · refine List.nodup_append.mpr ⟨ih walked, others distinct later further, ?_⟩
              rintro last here _ there rfl
              obtain ⟨other, ⟨name, member, known⟩, way⟩ :=
                (mem_collect (fun _ _ visits => mem_walk visits) further last).mp there
              obtain rfl := apart ⟨label, among label List.mem_cons_self, found⟩
                ⟨name, later name member, known⟩ ((mem_walk walked last).mp here) way
              exact new (once node label (among label List.mem_cons_self) name (later name member) child
                found known ▸ member)
      refine List.nodup_cons.mpr ⟨fun member => ?_, fresh _ (named node) (fun _ member => member) collected⟩
      obtain ⟨child, down, way⟩ :=
        (mem_collect (fun _ _ visits => mem_walk visits) collected node).mp member
      exact acyclic node (TransGen.head' down way)

end Reached
end Brooklyn.PreorderWalk
