import Mathlib.Computability.RegularExpressions

/-!
Patterns over an alphabet of kinds of letters. A bracket is a sum of letters, and a starred bracket
takes the words of its kinds.
-/

namespace Brooklyn.CharacterClasses

section Classes
variable {Kind : Type}

/-- `[...]` -/
def oneOf (kinds : List Kind) : RegularExpression Kind := (kinds.map .char).foldr (· + ·) 0

/-- `[^...]` -/
def noneOf [DecidableEq Kind] (alphabet kinds : List Kind) : RegularExpression Kind :=
  oneOf (alphabet.filter (· ∉ kinds))

theorem mem_char {kind : Kind} {word : List Kind} :
    word ∈ (RegularExpression.char kind).matches' ↔ word = [kind] := Iff.rfl

theorem mem_alternatives {Index : Type} (alternatives : List Index)
    (regex : Index → RegularExpression Kind) (word : List Kind) :
    word ∈ ((alternatives.map regex).foldr (· + ·) 0).matches' ↔
      ∃ index ∈ alternatives, word ∈ (regex index).matches' := by
  induction alternatives with
  | nil =>
    simp only [List.map_nil, List.foldr_nil, List.not_mem_nil, false_and, exists_false, iff_false]
    exact Language.notMem_zero word
  | cons index rest ih =>
    simp only [List.map_cons, List.foldr_cons, List.exists_mem_cons_iff, ← ih]
    exact Language.mem_add _ _ word

theorem mem_star_oneOf {kinds word : List Kind} :
    word ∈ (oneOf kinds).star.matches' ↔ ∀ kind ∈ word, kind ∈ kinds := by
  rw [RegularExpression.matches'_star, Language.mem_kstar]
  constructor
  · rintro ⟨words, rfl, each⟩ kind member
    obtain ⟨single, listed, inside⟩ := List.mem_flatten.mp member
    obtain ⟨index, allowed, rfl⟩ := (mem_alternatives kinds _ single).mp (each single listed)
    rwa [List.mem_singleton.mp inside]
  · intro allowed
    refine ⟨word.map fun kind => [kind], ?_, fun single listed => ?_⟩
    · rw [← List.flatMap_def, List.flatMap_singleton']
    · obtain ⟨kind, member, rfl⟩ := List.mem_map.mp listed
      exact (mem_alternatives kinds _ _).mpr ⟨kind, allowed kind member, rfl⟩

theorem mem_star_noneOf [DecidableEq Kind] {alphabet : List Kind}
    (complete : ∀ kind, kind ∈ alphabet) {kinds word : List Kind} :
    word ∈ (noneOf alphabet kinds).star.matches' ↔ ∀ kind ∈ word, kind ∉ kinds := by
  refine mem_star_oneOf.trans (forall₂_congr fun kind _ => ?_)
  rw [List.mem_filter, decide_eq_true_iff]
  exact and_iff_right (complete kind)

/-- A letter twice, any number of times. -/
theorem mem_star_pair {kind : Kind} {word : List Kind} :
    word ∈ (RegularExpression.char kind * RegularExpression.char kind).star.matches' ↔
      ∃ n, word = List.replicate (n + n) kind := by
  rw [RegularExpression.matches'_star, Language.mem_kstar]
  have pair : ∀ {two}, two ∈ (RegularExpression.char kind * RegularExpression.char kind).matches' ↔
      two = [kind, kind] := by
    intro two
    rw [RegularExpression.matches'_mul, Language.mem_mul]
    constructor
    · rintro ⟨_, rfl, _, rfl, rfl⟩
      rfl
    · rintro rfl
      exact ⟨[kind], rfl, [kind], rfl, rfl⟩
  have flat : ∀ n, (List.replicate n [kind, kind]).flatten = List.replicate (n + n) kind := by
    intro n
    induction n with
    | zero => rfl
    | succ n ih =>
      rw [List.replicate_succ, List.flatten_cons, ih, show n + 1 + (n + 1) = n + n + 1 + 1 by omega,
        List.replicate_succ, List.replicate_succ]
      rfl
  constructor
  · rintro ⟨words, rfl, each⟩
    have all : words = List.replicate words.length [kind, kind] :=
      List.eq_replicate_iff.mpr ⟨rfl, fun two listed => pair.mp (each two listed)⟩
    exact ⟨words.length, by rw [← flat, ← all]⟩
  · rintro ⟨n, rfl⟩
    exact ⟨List.replicate n [kind, kind], (flat n).symm,
      fun two listed => pair.mpr (List.eq_of_mem_replicate listed)⟩

end Classes

end Brooklyn.CharacterClasses
