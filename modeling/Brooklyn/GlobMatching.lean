import Brooklyn.WildcardGlobs
import Mathlib.Data.List.TakeWhile

/-!
`WildcardGlobs.isNoBraceGlobMatched`: whether a text matches a glob without choices. The matcher
reads both with an index, the text also with the index into the glob; a star starts it again on
what is left of both.
-/

namespace Brooklyn.WildcardGlobs

/-- The texts that a glob without choices stands for. -/
inductive Matches : List Char → List Char → Prop
  | nil : Matches [] []
  | any {rest text : List Char} (c : Char) (later : Matches rest text) :
      Matches ('?' :: rest) (c :: text)
  | star {rest text : List Char} (front : List Char) (later : Matches rest text) :
      Matches ('*' :: rest) (front ++ text)
  | literal {c : Char} {rest text : List Char} (no_any : c ≠ '?') (no_star : c ≠ '*')
      (later : Matches rest text) : Matches (c :: rest) (c :: text)

section Meaning
variable {rest text : List Char} {c d : Char}

end Meaning

section Code

/-- The loops behind the main one: stars that are left match nothing. -/
def matchedAtEnd (globPattern target : List Char) (pi ti : Nat) : Bool :=
  let stars := ((globPattern.drop pi).takeWhile (· = '*')).length
  pi + stars == globPattern.length && ti == target.length

mutual

/-- The main loop from two indices on; `none` where an index is out of bounds. -/
def matchFrom (globPattern target : List Char) (pi ti : Nat) : Option Bool :=
  if _inside : pi < globPattern.length ∧ ti < target.length then
    match globPattern[pi]?, target[pi]? with
    | some pc, some tc =>
        if pc = '?' then matchFrom globPattern target (pi + 1) (ti + 1)
        else if pc ≠ '*' then
          if pc ≠ tc then some false
          else matchFrom globPattern target (pi + 1) (ti + 1)
        else matchStar (globPattern.drop (pi + 1)) target ti
    | _, _ => none
  else some (matchedAtEnd globPattern target pi ti)
termination_by (globPattern.length - pi, 0, 0)
decreasing_by
  · left; omega
  · left; omega
  · left
    rw [List.length_drop]
    omega

/-- The loop for a star: the rest of the glob at every place of the text. -/
def matchStar (prest target : List Char) (ti : Nat) : Option Bool :=
  if _inside : ti ≤ target.length then
    match matchFrom prest (target.drop ti) 0 0 with
    | none => none
    | some true => some true
    | some false => matchStar prest target (ti + 1)
  else some false
termination_by (prest.length, 1, target.length + 1 - ti)
decreasing_by
  · right; left; omega
  · right; right; omega

end

end Code
section Answers

/-- There is an answer, and it is the right one. -/
def Answers (outcome : Option Bool) (right : Prop) : Prop :=
  ∃ answer, outcome = some answer ∧ (answer = true ↔ right)

theorem Answers.congr {outcome : Option Bool} {right same : Prop} (answers : Answers outcome right)
    (iff : right ↔ same) : Answers outcome same := by
  obtain ⟨answer, returned, correct⟩ := answers
  exact ⟨answer, returned, correct.trans iff⟩

variable {globPattern target : List Char} {i : Nat}

end Answers
end Brooklyn.WildcardGlobs
