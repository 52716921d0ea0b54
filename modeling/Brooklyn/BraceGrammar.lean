import Mathlib.Data.List.Basic

/-!
Texts with choices between braces. A `Glob` is what a text says: characters, and choices whose
alternatives are globs again. Its meaning is the list of the texts without choices that it
stands for, from left to right.
-/

namespace Brooklyn.BraceGrammar

mutual

inductive Glob
  | empty
  | literal (c : Char) (rest : Glob)
  | choice (alternatives : Alternatives) (rest : Glob)

inductive Alternatives
  | last (only : Glob)
  | more (first : Glob) (rest : Alternatives)

end

section Meaning

mutual

def Glob.text : Glob → List Char
  | .empty => []
  | .literal c rest => c :: rest.text
  | .choice alternatives rest => '{' :: (alternatives.text ++ '}' :: rest.text)

def Alternatives.text : Alternatives → List Char
  | .last only => only.text
  | .more first rest => first.text ++ ',' :: rest.text

end

mutual

/-- The characters of an alternative end neither it nor the choice. -/
def Glob.Plain (inside : Bool) : Glob → Prop
  | .empty => True
  | .literal c rest => c ≠ '{' ∧ (inside = true → c ≠ ',' ∧ c ≠ '}') ∧ rest.Plain inside
  | .choice alternatives rest => alternatives.Plain ∧ rest.Plain inside

def Alternatives.Plain : Alternatives → Prop
  | .last only => only.Plain true
  | .more first rest => first.Plain true ∧ rest.Plain

end

mutual

def Glob.expansions : Glob → List (List Char)
  | .empty => [[]]
  | .literal c rest => rest.expansions.map (c :: ·)
  | .choice alternatives rest =>
      alternatives.expansions.flatMap fun front => rest.expansions.map (front ++ ·)

def Alternatives.expansions : Alternatives → List (List Char)
  | .last only => only.expansions
  | .more first rest => first.expansions ++ rest.expansions

end

/-- What a text stands for, outside of braces. -/
def Denotes (pattern : List Char) (glob : Glob) : Prop :=
  glob.Plain false ∧ glob.text = pattern

def Alternatives.globs : Alternatives → List Glob
  | .last only => [only]
  | .more first rest => first :: rest.globs

theorem Alternatives.expansions_eq (alternatives : Alternatives) :
    alternatives.expansions = alternatives.globs.flatMap Glob.expansions := by
  match alternatives with
  | .last only => simp [expansions, globs]
  | .more first rest => simp [expansions, globs, rest.expansions_eq]

theorem Alternatives.plain_of_mem {alternatives : Alternatives} (plain : alternatives.Plain) :
    ∀ glob ∈ alternatives.globs, glob.Plain true := by
  match alternatives, plain with
  | .last only, plain =>
    intro glob member
    obtain rfl := List.mem_singleton.mp member
    exact plain
  | .more first rest, plain =>
    intro glob member
    rcases List.mem_cons.mp member with rfl | later
    · exact plain.1
    · exact Alternatives.plain_of_mem plain.2 glob later

theorem Alternatives.length_of_mem (alternatives : Alternatives) :
    ∀ glob ∈ alternatives.globs, glob.text.length ≤ alternatives.text.length := by
  match alternatives with
  | .last only =>
    intro glob member
    obtain rfl := List.mem_singleton.mp member
    exact Nat.le_refl _
  | .more first rest =>
    intro glob member
    rw [text, List.length_append, List.length_cons]
    rcases List.mem_cons.mp member with rfl | later
    · omega
    · have part := length_of_mem rest glob later
      omega

theorem Alternatives.exists_first (alternatives : Alternatives) :
    ∃ first rest, alternatives.globs = first :: rest := by
  cases alternatives with
  | last only => exact ⟨only, [], rfl⟩
  | more first rest => exact ⟨first, rest.globs, rfl⟩

def Glob.append : Glob → Glob → Glob
  | .empty, other => other
  | .literal c rest, other => .literal c (rest.append other)
  | .choice alternatives rest, other => .choice alternatives (rest.append other)

@[simp] theorem Glob.text_append (glob other : Glob) :
    (glob.append other).text = glob.text ++ other.text := by
  match glob with
  | .empty => rfl
  | .literal c rest => simp [append, text, rest.text_append other]
  | .choice alternatives rest => simp [append, text, rest.text_append other]

theorem Glob.Plain.append {inside : Bool} {glob other : Glob} (plain : glob.Plain inside)
    (also : other.Plain inside) : (glob.append other).Plain inside := by
  match glob, plain with
  | .empty, _ => exact also
  | .literal c rest, plain => exact ⟨plain.1, plain.2.1, plain.2.2.append also⟩
  | .choice alternatives rest, plain => exact ⟨plain.1, plain.2.append also⟩

theorem Glob.Plain.outside {glob : Glob} (plain : glob.Plain true) : glob.Plain false := by
  match glob, plain with
  | .empty, _ => trivial
  | .literal c rest, plain =>
    exact ⟨plain.1, fun inside => Bool.noConfusion inside, plain.2.2.outside⟩
  | .choice alternatives rest, plain => exact ⟨plain.1, plain.2.outside⟩

theorem Glob.expansions_append (glob other : Glob) :
    (glob.append other).expansions =
      glob.expansions.flatMap fun front => other.expansions.map (front ++ ·) := by
  match glob with
  | .empty => simp [append, expansions]
  | .literal c rest =>
    simp [append, expansions, rest.expansions_append other, List.flatMap_map, List.map_flatMap,
      Function.comp_def]
  | .choice alternatives rest =>
    simp [append, expansions, rest.expansions_append other, List.flatMap_map, List.map_flatMap,
      List.flatMap_assoc, Function.comp_def]

end Meaning

section Matching

/-- How many braces are open behind a text that starts with so many open. -/
def depth : Nat → List Char → Option Nat
  | open_braces, [] => some open_braces
  | open_braces, c :: rest =>
      if c = '{' then depth (open_braces + 1) rest
      else if c = '}' then
        match open_braces with
        | 0 => none
        | outer + 1 => depth outer rest
      else depth open_braces rest

def Balanced (text : List Char) : Prop := depth 0 text = some 0

/-- An opening brace without a matching close. -/
def Unclosed (pattern : List Char) : Prop :=
  ∃ front rest, pattern = front ++ '{' :: rest ∧
    ∀ body after, rest = body ++ '}' :: after → ¬ Balanced body

/-- What follows the brace that closes the outermost of the open ones. -/
def closeAt : Nat → List Char → Option (List Char)
  | _, [] => none
  | inner, c :: rest =>
      if c = '{' then closeAt (inner + 1) rest
      else if c = '}' then
        match inner with
        | 0 => some rest
        | fewer + 1 => closeAt fewer rest
      else closeAt inner rest

section Steps

variable (inner : Nat) {c : Char} (text : List Char)

attribute [local simp] closeAt

@[simp] theorem closeAt_open : closeAt inner ('{' :: text) = closeAt (inner + 1) text := by
  simp

@[simp] theorem closeAt_close_zero : closeAt 0 ('}' :: text) = some text := by
  simp

@[simp] theorem closeAt_close_succ : closeAt (inner + 1) ('}' :: text) = closeAt inner text := by
  simp

theorem closeAt_other (no_open : c ≠ '{') (no_close : c ≠ '}') :
    closeAt inner (c :: text) = closeAt inner text := by
  simp [no_open, no_close]

end Steps

theorem closeAt_eq_some_iff {inner : Nat} {text after : List Char} :
    closeAt inner text = some after ↔
      ∃ body, text = body ++ '}' :: after ∧ depth inner body = some 0 := by
  induction text generalizing inner with
  | nil => simp [closeAt]
  | cons c text ih =>
    -- a body that is not empty starts with the first character
    have longer : ∀ {deeper : Nat}, closeAt inner (c :: text) = closeAt deeper text →
        (∀ body, depth inner (c :: body) = depth deeper body) →
        depth inner [] ≠ some 0 ∨ c ≠ '}' →
        (closeAt inner (c :: text) = some after ↔
          ∃ body, c :: text = body ++ '}' :: after ∧ depth inner body = some 0) := by
      intro deeper closes deepens apart
      rw [closes, ih]
      constructor
      · rintro ⟨body, rfl, balanced⟩
        exact ⟨c :: body, rfl, (deepens body).trans balanced⟩
      · rintro ⟨_ | ⟨first, body⟩, same, balanced⟩
        · rcases apart with open_brace | no_close
          · exact absurd balanced open_brace
          · exact absurd (List.cons_eq_cons.mp same).1 no_close
        · obtain ⟨rfl, rfl⟩ := List.cons_eq_cons.mp same
          exact ⟨body, rfl, (deepens body).symm.trans balanced⟩
    by_cases opens : c = '{'
    · subst opens
      exact longer (closeAt_open inner text) (fun body => by simp [depth]) (Or.inr (by decide))
    by_cases closes : c = '}'
    · subst closes
      cases inner with
      | zero =>
        rw [closeAt_close_zero]
        constructor
        · rintro ⟨⟩
          exact ⟨[], rfl, rfl⟩
        · rintro ⟨_ | ⟨first, body⟩, same, balanced⟩
          · exact congrArg some (List.cons_eq_cons.mp same).2
          · obtain ⟨rfl, -⟩ := List.cons_eq_cons.mp same
            simp [depth] at balanced
      | succ fewer =>
        exact longer (closeAt_close_succ fewer text) (fun body => by simp [depth])
          (Or.inl (by simp [depth]))
    · exact longer (closeAt_other inner text opens closes)
        (fun body => by simp [depth, opens, closes]) (Or.inr closes)

theorem length_closeAt {inner : Nat} {text after : List Char}
    (closed : closeAt inner text = some after) : after.length < text.length := by
  obtain ⟨body, rfl, -⟩ := closeAt_eq_some_iff.mp closed
  simp only [List.length_append, List.length_cons]
  omega

/-- No balanced text in front of a closing brace says that nothing closes. -/
theorem unclosed_iff {pattern : List Char} :
    Unclosed pattern ↔
      ∃ front rest, pattern = front ++ '{' :: rest ∧ closeAt 0 rest = none := by
  refine exists_congr fun front => exists_congr fun rest => and_congr_right fun _ => ?_
  rw [Option.eq_none_iff_forall_ne_some]
  constructor
  · intro open_brace after closed
    obtain ⟨body, same, balanced⟩ := closeAt_eq_some_iff.mp closed
    exact open_brace body after same balanced
  · intro open_brace body after same balanced
    exact open_brace after (closeAt_eq_some_iff.mpr ⟨body, same, balanced⟩)

theorem unclosed_cons {c : Char} {text : List Char} :
    Unclosed (c :: text) ↔ (c = '{' ∧ closeAt 0 text = none) ∨ Unclosed text := by
  simp only [unclosed_iff]
  constructor
  · rintro ⟨_ | ⟨first, front⟩, rest, same, closed⟩
    · obtain ⟨rfl, rfl⟩ := List.cons_eq_cons.mp same
      exact Or.inl ⟨rfl, closed⟩
    · obtain ⟨-, rfl⟩ := List.cons_eq_cons.mp same
      exact Or.inr ⟨front, rest, rfl, closed⟩
  · rintro (⟨rfl, closed⟩ | ⟨front, rest, rfl, closed⟩)
    · exact ⟨[], text, rfl, closed⟩
    · exact ⟨c :: front, rest, rfl, closed⟩

theorem not_unclosed_nil : ¬ Unclosed [] := by
  rintro ⟨front, rest, same, -⟩
  cases front <;> cases same

theorem Unclosed.append {text : List Char} (unclosed : Unclosed text) (front : List Char) :
    Unclosed (front ++ text) := by
  induction front with
  | nil => exact unclosed
  | cons c front ih => exact unclosed_cons.mpr (Or.inr ih)

/-- The outermost brace closes after the innermost. -/
theorem closeAt_succ (inner : Nat) (text : List Char) :
    closeAt (inner + 1) text = (closeAt 0 text).bind (closeAt inner) := by
  suffices nested : ∀ outer deeper, closeAt (outer + deeper + 1) text =
      (closeAt deeper text).bind (closeAt outer) from nested inner 0
  intro outer deeper
  induction text generalizing deeper with
  | nil => rfl
  | cons c text ih =>
    by_cases opens : c = '{'
    · subst opens
      rw [closeAt_open, closeAt_open, ← ih (deeper + 1)]
      rfl
    by_cases closes : c = '}'
    · subst closes
      cases deeper with
      | zero => rw [closeAt_close_succ, closeAt_close_zero]; rfl
      | succ deeper =>
        rw [closeAt_close_succ, closeAt_close_succ, ← ih deeper]
        rfl
    · rw [closeAt_other _ _ opens closes, closeAt_other _ _ opens closes, ih]

end Matching

section Reading

mutual

theorem closeAt_glob (inner : Nat) (text : List Char) (glob : Glob) (plain : glob.Plain true) :
    closeAt inner (glob.text ++ text) = closeAt inner text := by
  match glob, plain with
  | .empty, _ => rfl
  | .literal c rest, plain =>
    rw [Glob.text, List.cons_append, closeAt_other _ _ plain.1 (plain.2.1 rfl).2,
      closeAt_glob inner text rest plain.2.2]
  | .choice alternatives rest, plain =>
    rw [Glob.text, List.cons_append, List.append_assoc, closeAt_open,
      closeAt_alternatives _ _ alternatives plain.1, List.cons_append, closeAt_close_succ,
      closeAt_glob inner text rest plain.2]

theorem closeAt_alternatives (inner : Nat) (text : List Char) (alternatives : Alternatives)
    (plain : alternatives.Plain) :
    closeAt inner (alternatives.text ++ text) = closeAt inner text := by
  match alternatives, plain with
  | .last only, plain => exact closeAt_glob inner text only plain
  | .more first rest, plain =>
    rw [Alternatives.text, List.append_assoc, closeAt_glob inner _ first plain.1, List.cons_append,
      closeAt_other _ _ (by decide) (by decide), closeAt_alternatives inner text rest plain.2]

end

mutual

theorem unclosed_of_glob {inside : Bool} (text : List Char) (glob : Glob)
    (plain : glob.Plain inside) (unclosed : Unclosed (glob.text ++ text)) : Unclosed text := by
  match glob, plain with
  | .empty, _ => exact unclosed
  | .literal c rest, plain =>
    refine unclosed_of_glob text rest plain.2.2 ((unclosed_cons.mp unclosed).resolve_left ?_)
    exact fun opens => plain.1 opens.1
  | .choice alternatives rest, plain =>
    rw [Glob.text, List.cons_append, List.append_assoc] at unclosed
    have later := (unclosed_cons.mp unclosed).resolve_left (by
      rw [closeAt_alternatives _ _ alternatives plain.1, List.cons_append, closeAt_close_zero]
      rintro ⟨-, ⟨⟩⟩)
    have behind := unclosed_of_alternatives _ alternatives plain.1 later
    exact unclosed_of_glob text rest plain.2
      ((unclosed_cons.mp behind).resolve_left fun opens => absurd opens.1 (by decide))

theorem unclosed_of_alternatives (text : List Char) (alternatives : Alternatives)
    (plain : alternatives.Plain) (unclosed : Unclosed (alternatives.text ++ text)) :
    Unclosed text := by
  match alternatives, plain with
  | .last only, plain => exact unclosed_of_glob text only plain unclosed
  | .more first rest, plain =>
    rw [Alternatives.text, List.append_assoc] at unclosed
    have behind := unclosed_of_glob _ first plain.1 unclosed
    exact unclosed_of_alternatives text rest plain.2
      ((unclosed_cons.mp behind).resolve_left fun opens => absurd opens.1 (by decide))

end

/-- The first alternative with something in front of it. -/
def Alternatives.onFirst (change : Glob → Glob) : Alternatives → Alternatives
  | .last only => .last (change only)
  | .more first rest => .more (change first) rest

theorem Alternatives.onFirst_spec (change : Glob → Glob) (front : List Char)
    {alternatives : Alternatives} (plain : alternatives.Plain)
    (texts : ∀ glob : Glob, (change glob).text = front ++ glob.text)
    (kept : ∀ glob : Glob, glob.Plain true → (change glob).Plain true) :
    (alternatives.onFirst change).Plain ∧
      (alternatives.onFirst change).text = front ++ alternatives.text := by
  cases alternatives with
  | last only => exact ⟨kept only plain, texts only⟩
  | more first rest =>
    refine ⟨⟨kept first plain.1, plain.2⟩, ?_⟩
    rw [onFirst, Alternatives.text, texts, Alternatives.text, List.append_assoc]

/-- What stands before the closing brace is a list of alternatives. -/
theorem exists_alternatives {text after : List Char} (closed : closeAt 0 text = some after) :
    ∃ alternatives : Alternatives, alternatives.Plain ∧
      text = alternatives.text ++ '}' :: after := by
  match text with
  | [] => cases closed
  | c :: rest =>
    by_cases opens : c = '{'
    · subst opens
      rw [closeAt_open, closeAt_succ] at closed
      obtain ⟨suffix, inner, outer⟩ := Option.bind_eq_some_iff.mp closed
      have shorter := length_closeAt inner
      obtain ⟨choices, choices_plain, within⟩ := exists_alternatives inner
      obtain ⟨alternatives, plain, behind⟩ := exists_alternatives outer
      obtain ⟨kept, texts⟩ := Alternatives.onFirst_spec (.choice choices)
        ('{' :: (choices.text ++ ['}'])) plain (fun glob => by simp [Glob.text])
        fun glob inside => ⟨choices_plain, inside⟩
      exact ⟨_, kept, by simp [texts, within, behind]⟩
    by_cases closes : c = '}'
    · subst closes
      rw [closeAt_close_zero] at closed
      cases closed
      exact ⟨.last .empty, trivial, rfl⟩
    rw [closeAt_other _ _ opens closes] at closed
    obtain ⟨alternatives, plain, rfl⟩ := exists_alternatives closed
    by_cases comma : c = ','
    · subst comma
      exact ⟨.more .empty alternatives, ⟨trivial, plain⟩, rfl⟩
    · obtain ⟨kept, texts⟩ := Alternatives.onFirst_spec (.literal c) [c]
        plain (fun glob => by simp [Glob.text])
        fun glob inside => ⟨opens, fun _ => ⟨comma, closes⟩, inside⟩
      exact ⟨_, kept, by simp [texts]⟩
termination_by text.length
decreasing_by all_goals (simp only [List.length_cons]; omega)

/-- A text has an unclosed brace, or it denotes something. -/
theorem unclosed_or_denotes (pattern : List Char) :
    Unclosed pattern ∨ ∃ glob, Denotes pattern glob := by
  match pattern with
  | [] => exact Or.inr ⟨.empty, trivial, rfl⟩
  | c :: rest =>
    by_cases opens : c = '{'
    · subst opens
      match closed : closeAt 0 rest with
      | none => exact Or.inl (unclosed_cons.mpr (Or.inl ⟨rfl, closed⟩))
      | some after =>
        have shorter := length_closeAt closed
        obtain ⟨alternatives, plain, within⟩ := exists_alternatives closed
        rw [within]
        rcases unclosed_or_denotes after with unclosed | ⟨glob, outside, same⟩
        · have behind := unclosed.append ('{' :: (alternatives.text ++ ['}']))
          exact Or.inl (by simpa using behind)
        · exact Or.inr ⟨.choice alternatives glob, ⟨plain, outside⟩, by rw [← same]; rfl⟩
    · rcases unclosed_or_denotes rest with unclosed | ⟨glob, plain, rfl⟩
      · exact Or.inl (unclosed.append [c])
      · refine Or.inr ⟨.literal c glob, ⟨opens, ?_, plain⟩, rfl⟩
        exact fun inside => Bool.noConfusion inside
termination_by pattern.length
decreasing_by all_goals (simp only [List.length_cons]; omega)

end Reading

section Braces

@[simp] theorem depth_open (inner : Nat) (text : List Char) :
    depth inner ('{' :: text) = depth (inner + 1) text := by
  simp [depth]

@[simp] theorem depth_close_succ (inner : Nat) (text : List Char) :
    depth (inner + 1) ('}' :: text) = depth inner text := by
  simp [depth]

theorem depth_other (inner : Nat) {c : Char} (text : List Char) (no_open : c ≠ '{')
    (no_close : c ≠ '}') : depth inner (c :: text) = depth inner text := by
  simp [depth, no_open, no_close]

mutual

theorem depth_glob (inner : Nat) (text : List Char) (glob : Glob) (plain : glob.Plain true) :
    depth inner (glob.text ++ text) = depth inner text := by
  match glob, plain with
  | .empty, _ => rfl
  | .literal c rest, plain =>
    rw [Glob.text, List.cons_append, depth_other _ _ plain.1 (plain.2.1 rfl).2,
      depth_glob inner text rest plain.2.2]
  | .choice alternatives rest, plain =>
    rw [Glob.text, List.cons_append, List.append_assoc, depth_open,
      depth_alternatives _ _ alternatives plain.1, List.cons_append, depth_close_succ,
      depth_glob inner text rest plain.2]

theorem depth_alternatives (inner : Nat) (text : List Char) (alternatives : Alternatives)
    (plain : alternatives.Plain) :
    depth inner (alternatives.text ++ text) = depth inner text := by
  match alternatives, plain with
  | .last only, plain => exact depth_glob inner text only plain
  | .more first rest, plain =>
    rw [Alternatives.text, List.append_assoc, depth_glob inner _ first plain.1, List.cons_append,
      depth_other _ _ (by decide) (by decide), depth_alternatives inner text rest plain.2]

end

def BraceFree (text : List Char) : Prop := '{' ∉ text ∧ '}' ∉ text

theorem braceFree_cons {c : Char} {text : List Char} :
    BraceFree (c :: text) ↔ c ≠ '{' ∧ c ≠ '}' ∧ BraceFree text := by
  simp only [BraceFree, List.mem_cons, not_or]
  constructor
  · rintro ⟨⟨no_open, opens⟩, no_close, closes⟩
    exact ⟨Ne.symm no_open, Ne.symm no_close, opens, closes⟩
  · rintro ⟨no_open, no_close, opens, closes⟩
    exact ⟨⟨Ne.symm no_open, opens⟩, Ne.symm no_close, closes⟩

theorem braceFree_append {front back : List Char} :
    BraceFree (front ++ back) ↔ BraceFree front ∧ BraceFree back := by
  simp only [BraceFree, List.mem_append, not_or]
  exact and_and_and_comm

mutual

theorem expansions_ne_nil (glob : Glob) : glob.expansions ≠ [] := by
  match glob with
  | .empty => exact List.cons_ne_nil _ _
  | .literal c rest => exact fun nothing => expansions_ne_nil rest (List.map_eq_nil_iff.mp nothing)
  | .choice alternatives rest =>
    obtain ⟨front, member⟩ := List.exists_mem_of_ne_nil _ (alternatives_ne_nil alternatives)
    intro nothing
    exact expansions_ne_nil rest
      (List.map_eq_nil_iff.mp (List.flatMap_eq_nil_iff.mp nothing front member))

theorem alternatives_ne_nil (alternatives : Alternatives) : alternatives.expansions ≠ [] := by
  match alternatives with
  | .last only => exact expansions_ne_nil only
  | .more first rest =>
    exact fun nothing => expansions_ne_nil first (List.append_eq_nil_iff.mp nothing).1

end

mutual

/-- Inside a choice every brace belongs to a choice. -/
theorem braceFree_glob (glob : Glob) (plain : glob.Plain true) :
    ∀ text ∈ glob.expansions, BraceFree text := by
  match glob, plain with
  | .empty, _ => simp [Glob.expansions, BraceFree]
  | .literal c rest, plain =>
    intro text member
    obtain ⟨behind, inside, rfl⟩ := List.mem_map.mp member
    exact braceFree_cons.mpr
      ⟨plain.1, (plain.2.1 rfl).2, braceFree_glob rest plain.2.2 behind inside⟩
  | .choice alternatives rest, plain =>
    intro text member
    obtain ⟨front, chosen, later⟩ := List.mem_flatMap.mp member
    obtain ⟨behind, inside, rfl⟩ := List.mem_map.mp later
    exact braceFree_append.mpr ⟨braceFree_alternatives alternatives plain.1 front chosen,
      braceFree_glob rest plain.2 behind inside⟩

theorem braceFree_alternatives (alternatives : Alternatives) (plain : alternatives.Plain) :
    ∀ text ∈ alternatives.expansions, BraceFree text := by
  match alternatives, plain with
  | .last only, plain => exact braceFree_glob only plain
  | .more first rest, plain =>
    intro text member
    rcases List.mem_append.mp member with before | after
    · exact braceFree_glob first plain.1 text before
    · exact braceFree_alternatives rest plain.2 text after

end

end Braces

end Brooklyn.BraceGrammar
