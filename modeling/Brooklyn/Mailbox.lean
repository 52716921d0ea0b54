import Mathlib.Data.List.Basic

/-!
Mail that is read in the order it was sent. Each letter brings news of a subject; what a reader
will have heard last of a subject is `latest`, so a reader that keeps the last news of each
subject is right as soon as its box is empty.
-/

namespace Brooklyn.Mailbox

universe u v
variable {Subject : Type u} {News : Type v} [DecidableEq Subject]

/-- The last news of the subject that is still to be read. -/
def latest (subject : Subject) : List (Subject × News) → Option News
  | [] => none
  | letter :: rest =>
      (latest subject rest).or (if letter.1 = subject then some letter.2 else none)

@[simp] theorem latest_nil (subject : Subject) :
    latest subject ([] : List (Subject × News)) = none := rfl

theorem latest_append (subject : Subject) (earlier later : List (Subject × News)) :
    latest subject (earlier ++ later) = (latest subject later).or (latest subject earlier) := by
  induction earlier with
  | nil => simp
  | cons letter rest ih => rw [List.cons_append, latest, ih, latest, Option.or_assoc]

theorem latest_isSome_iff (subject : Subject) (mail : List (Subject × News)) :
    (latest subject mail).isSome ↔ ∃ news, (subject, news) ∈ mail := by
  induction mail with
  | nil => simp
  | cons letter rest ih =>
    rw [latest, Option.isSome_or, Bool.or_eq_true, ih]
    obtain ⟨about, news⟩ := letter
    constructor
    · rintro (⟨later, there⟩ | here)
      · exact ⟨later, List.mem_cons_of_mem _ there⟩
      · split at here
        · next same => exact ⟨news, List.mem_cons.mpr (Or.inl (by rw [← same]))⟩
        · cases here
    · rintro ⟨other, there⟩
      rcases List.mem_cons.mp there with same | later
      · cases same
        exact Or.inr (by simp)
      · exact Or.inl ⟨other, later⟩

theorem latest_mem {subject : Subject} {mail : List (Subject × News)} {news : News}
    (last : latest subject mail = some news) : (subject, news) ∈ mail := by
  induction mail with
  | nil => cases last
  | cons letter rest ih =>
    rw [latest] at last
    rcases Option.or_eq_some_iff.mp last with later | ⟨-, here⟩
    · exact List.mem_cons_of_mem _ (ih later)
    · split at here
      · next same =>
        cases here
        cases same
        exact List.mem_cons_self
      · cases here

/-- One letter is read: it was the last of its subject, or the last is still to come. -/
theorem latest_read {subject about : Subject} {news : News} {rest : List (Subject × News)}
    {last : News} (before : latest subject ((about, news) :: rest) = some last) :
    latest subject rest = some last ∨
      (latest subject rest = none ∧ about = subject ∧ news = last) := by
  rw [latest] at before
  rcases Option.or_eq_some_iff.mp before with later | ⟨none, here⟩
  · exact Or.inl later
  · split at here
    · next same => exact Or.inr ⟨none, same, Option.some.inj here⟩
    · cases here

theorem latest_of_rest {subject : Subject} {letter : Subject × News} {rest : List (Subject × News)}
    {news : News} (later : latest subject rest = some news) :
    latest subject (letter :: rest) = some news := by
  rw [latest, later, Option.some_or]

/-- Copies of one letter to some of the subjects. -/
theorem latest_copies (subject : Subject) (receivers : List Subject) (news : News) :
    latest subject (receivers.map fun receiver => (receiver, news)) =
      if subject ∈ receivers then some news else none := by
  induction receivers with
  | nil => simp
  | cons receiver rest ih =>
    rw [List.map_cons, latest, ih]
    by_cases later : subject ∈ rest
    · simp [later]
    · by_cases same : receiver = subject
      · subst same
        simp [later]
      · simp [later, same, Ne.symm same]

section Readers
variable {Letter : Type u} {reads : Letter → Option (Subject × News)} {subject : Subject}

/-- A reader takes news from some of the letters only. -/
theorem latest_filterMap_append (earlier later : List Letter) :
    latest subject ((earlier ++ later).filterMap reads) =
      (latest subject (later.filterMap reads)).or (latest subject (earlier.filterMap reads)) := by
  rw [List.filterMap_append, latest_append]

theorem latest_filterMap_silent {letters : List Letter}
    (silent : ∀ letter ∈ letters, reads letter = none) :
    latest subject (letters.filterMap reads) = none := by
  rw [List.filterMap_eq_nil_iff.mpr silent, latest_nil]

theorem mem_of_latest_filterMap {letters : List Letter} {news : News}
    (last : latest subject (letters.filterMap reads) = some news) :
    ∃ letter ∈ letters, reads letter = some (subject, news) :=
  List.mem_filterMap.mp (latest_mem last)

end Readers

end Brooklyn.Mailbox
