import Brooklyn.AbstractAggregatingEnricher
import Brooklyn.Mailbox

/-!
What a run of an aggregating enricher is for one producer that the filter accepts: its
membership, its sensor, the events about it that are in flight, and its value. The invariant is
about one such view, and each change of a view keeps it.
-/

namespace Brooklyn.AbstractAggregatingEnricher
open Transition Mailbox

/-- How far `setEntity` is; from `ahead` on it has still to add the producer, is adding it, or
has nothing to do with it any more. -/
inductive Stage where
  | beginning
  | subscribedToAdded
  | subscribedToRemoved
  | ahead
  | adding
  | behind
deriving DecidableEq

inductive Mail (Value : Type) where
  | added
  | removed
  | updated (value : Value)
deriving DecidableEq

inductive Handling where
  | adding
  | removing
deriving DecidableEq

structure View (Value : Type) where
  stage : Stage
  member : Bool
  current : Option Value
  updating : Bool
  mail : List (Mail Value)
  delivering : Option Handling
  value : Option (Option Value)

variable {Value : Type}

namespace Mail

def corrects : Mail Value → Bool
  | .added => false
  | _ => true

def membership : Mail Value → Option (Unit × Bool)
  | .added => some ((), true)
  | .removed => some ((), false)
  | .updated _ => none

/-- What the last event about the membership means. -/
def lastNews (mail : List (Mail Value)) : Option Bool := latest () (mail.filterMap membership)

theorem lastNews_append (earlier later : List (Mail Value)) :
    lastNews (earlier ++ later) = (lastNews later).or (lastNews earlier) :=
  latest_filterMap_append earlier later

theorem lastNews_cons (letter : Mail Value) (rest : List (Mail Value)) :
    lastNews (letter :: rest) = (lastNews rest).or (lastNews [letter]) :=
  lastNews_append [letter] rest

theorem lastNews_updates (copies : Nat) (value : Value) :
    lastNews (List.replicate copies (.updated value)) = none :=
  latest_filterMap_silent fun letter there => by rw [(List.mem_replicate.mp there).2]; rfl

/-- The last event about the membership is in the mail. -/
theorem mem_of_lastNews {mail : List (Mail Value)} {told : Bool}
    (last : lastNews mail = some told) : (if told then .added else .removed) ∈ mail := by
  obtain ⟨letter, there, news⟩ := mem_of_latest_filterMap last
  cases letter with
  | added =>
    cases news
    exact there
  | removed =>
    cases news
    exact there
  | updated value => cases news

end Mail

namespace View
variable (view : View Value)

def early : Prop := view.stage = .beginning ∨ view.stage = .subscribedToAdded

/-- The second half of `addProducer`. -/
def initial : View Value :=
  if view.value.join.isNone then { view with value := some view.current } else view

/-- The value is still to be set or removed. -/
def Corrected : Prop :=
  view.mail.any Mail.corrects = true ∨ view.updating = true ∨ view.delivering = some .removing

end View

/-- The membership events end with what holds; a member is there or will be added; who is there
is a member or will be removed; and the value is current or will be corrected. -/
structure Right (view : View Value) : Prop where
  beginning : view.stage = .beginning →
    .added ∉ view.mail ∧ view.delivering ≠ some .adding ∧ view.value = none
  early : view.early → .removed ∉ view.mail ∧ view.delivering ≠ some .removing
  news : ∀ told, Mail.lastNews view.mail = some told → view.member = told
  followed : view.member = true → .added ∈ view.mail ∨ view.delivering = some .adding ∨
    view.stage ≠ .behind ∨ view.value.isSome = true
  removing : view.delivering = some .removing → view.member = true → .added ∈ view.mail
  kept : view.value.isSome = true ∨ view.delivering = some .adding →
    view.member = true ∨ .removed ∈ view.mail ∨ view.delivering = some .removing
  right : ∀ value, view.value = some value → value = view.current ∨ view.Corrected

section Changes
variable {view : View Value} {rest : List (Mail Value)}

/-- There is no news about the membership where there is none of its events. -/
theorem Right.no_news (right : Right view) (early : view.early) (unheard : .added ∉ view.mail)
    {told : Bool} : Mail.lastNews view.mail ≠ some told := by
  intro last
  have there := Mail.mem_of_lastNews last
  cases told with
  | true => exact unheard there
  | false => exact (right.early early).1 there

theorem Right.join (right : Right view) :
    Right { view with
      member := true
      mail := if view.stage = .beginning then view.mail else view.mail ++ [.added] } := by
  by_cases starts : view.stage = .beginning
  · rw [if_pos starts]
    have quiet := right.beginning starts
    refine ⟨fun _ => quiet, right.early, fun told last => ?_, fun _ => Or.inr (Or.inr (Or.inl ?_)),
      fun removing => ?_, fun _ => Or.inl rfl, right.right⟩
    · exact absurd last (right.no_news (Or.inl starts) quiet.1)
    · exact fun behind => nomatch starts.symm.trans behind
    · exact absurd removing (right.early (Or.inl starts)).2
  · rw [if_neg starts]
    refine ⟨fun is => absurd is starts, fun early => ?_, fun told last => ?_,
      fun _ => Or.inl (by simp), fun _ _ => by simp, fun _ => Or.inl rfl, fun value has => ?_⟩
    · simpa using right.early early
    · rw [Mail.lastNews_append] at last
      exact Option.some.inj last
    · refine (right.right value has).imp_right (Or.imp_left fun any => ?_)
      rw [List.any_append, any, Bool.true_or]

theorem Right.leave (right : Right view)
    (quiet : view.stage = .subscribedToAdded →
      .added ∉ view.mail ∧ view.delivering ≠ some .adding ∧ view.value = none) :
    Right { view with
      member := false
      mail :=
        if view.stage = .beginning ∨ view.stage = .subscribedToAdded then view.mail
        else view.mail ++ [.removed] } := by
  by_cases early : view.stage = .beginning ∨ view.stage = .subscribedToAdded
  · rw [if_pos early]
    obtain ⟨unheard, idle, absent⟩ := early.elim right.beginning quiet
    refine ⟨right.beginning, right.early, fun told last => ?_, nofun, fun _ => nofun,
      fun there => ?_, right.right⟩
    · exact absurd last (right.no_news early unheard)
    · rcases there with value | adding
      · rw [show view.value = none from absent] at value
        cases value
      · exact absurd adding idle
  · rw [if_neg early]
    refine ⟨fun starts => absurd (Or.inl starts) early, fun is => absurd is early,
      fun told last => ?_, nofun, fun _ => nofun, fun _ => Or.inr (Or.inl (by simp)),
      fun value has => ?_⟩
    · rw [Mail.lastNews_append] at last
      exact Option.some.inj last
    · exact Or.inr (Or.inl (by simp [Mail.corrects]))

theorem Right.put (right : Right view) (value : Option Value) :
    Right { view with current := value, updating := true } :=
  ⟨right.beginning, right.early, right.news, right.followed, right.removing, right.kept,
    fun _ _ => Or.inr (Or.inr (Or.inl rfl))⟩

theorem Right.publish (right : Right view) {copies : Nat} {value : Value} {updating : Bool}
    (may : 0 < copies ∨ (∀ old, view.value = some old → old = view.current) ∨
      View.Corrected { view with updating := updating }) :
    Right { view with
      updating := updating
      mail := view.mail ++ List.replicate copies (.updated value) } := by
  have added : .added ∈ view.mail ++ List.replicate copies (.updated value) ↔
      .added ∈ view.mail := by
    simp [List.mem_replicate]
  have removed : .removed ∈ view.mail ++ List.replicate copies (.updated value) ↔
      .removed ∈ view.mail := by
    simp [List.mem_replicate]
  refine ⟨?_, ?_, fun told last => ?_, ?_, ?_, ?_, fun old has => ?_⟩
  · rw [added]
    exact right.beginning
  · rw [removed]
    exact right.early
  · rw [Mail.lastNews_append, Mail.lastNews_updates] at last
    exact right.news told last
  · rw [added]
    exact right.followed
  · rw [added]
    exact right.removing
  · rw [removed]
    exact right.kept
  · rcases may with heard | current | mail | still
    · right; left
      obtain ⟨fewer, rfl⟩ := Nat.exists_eq_succ_of_ne_zero (Nat.pos_iff_ne_zero.mp heard)
      simp [List.replicate_succ, Mail.corrects]
    · exact Or.inl (current old has)
    · refine Or.inr (Or.inl ?_)
      dsimp only at mail ⊢
      rw [List.any_append, mail, Bool.true_or]
    · exact Or.inr (Or.inr still)

/-- An event that is no longer in the mail and was none of a membership. -/
theorem Right.deliverUpdated (right : Right view) {value : Value}
    (mail : view.mail = .updated value :: rest)
    (may : view.value = none ∨ view.current = some value ∨
      View.Corrected { view with mail := rest }) :
    Right { view with
      mail := rest
      value := if view.value.isSome then some (some value) else view.value } := by
  have there : ∀ letter : Mail Value, Mail.membership letter ≠ none →
      (letter ∈ rest ↔ letter ∈ view.mail) := by
    rintro letter news
    rw [mail, List.mem_cons, or_iff_right]
    rintro rfl
    exact news rfl
  have added := there .added nofun
  have removed := there .removed nofun
  have isSome : (if view.value.isSome then some (some value) else view.value).isSome =
      view.value.isSome := by
    cases view.value with
    | none => rfl
    | some old => rfl
  refine ⟨fun starts => ?_, ?_, fun told last => ?_, ?_, ?_, ?_, fun new has => ?_⟩
  · obtain ⟨unheard, idle, absent⟩ := right.beginning starts
    exact ⟨fun is => unheard (added.mp is), idle, by rw [absent]; rfl⟩
  · rw [removed]
    exact right.early
  · refine right.news told ?_
    rw [mail, Mail.lastNews_cons, show Mail.lastNews rest = some told from last]
    rfl
  · rw [added, isSome]
    exact right.followed
  · rw [added]
    exact right.removing
  · rw [removed, isSome]
    exact right.kept
  · dsimp only at has
    split at has
    · rcases may with absent | current | corrected
      · next inside =>
        rw [absent] at inside
        cases inside
      · rw [← current] at has
        exact Or.inl (Option.some.inj has).symm
      · exact Or.inr corrected
    · next inside =>
      rw [has] at inside
      exact absurd rfl inside

theorem any_corrects_of_added (mail : view.mail = .added :: rest) :
    view.mail.any Mail.corrects = rest.any Mail.corrects := by
  rw [mail, List.any_cons, Mail.corrects, Bool.false_or]

/-- `addProducer` of an event begins: the member is there, or it has left since. -/
theorem Right.deliverAdded (right : Right view) (mail : view.mail = .added :: rest)
    (idle : view.delivering = none) :
    Right { view with mail := rest, delivering := some .adding } := by
  have heard : .added ∈ view.mail := mail ▸ List.mem_cons_self
  have removed : .removed ∈ rest ↔ .removed ∈ view.mail := by simp [mail]
  refine ⟨fun starts => absurd heard (right.beginning starts).1, fun early => ⟨?_, nofun⟩,
    fun told last => ?_, fun _ => Or.inr (Or.inl rfl), nofun, fun _ => ?_, fun value has => ?_⟩
  · exact fun there => (right.early early).1 (removed.mp there)
  · refine right.news told ?_
    rw [mail, Mail.lastNews_cons, show Mail.lastNews rest = some told from last]
    rfl
  · cases last : Mail.lastNews rest with
    | none =>
      refine Or.inl (right.news true ?_)
      rw [mail, Mail.lastNews_cons, last]
      rfl
    | some told =>
      cases told with
      | true =>
        refine Or.inl (right.news true ?_)
        rw [mail, Mail.lastNews_cons, last]
        rfl
      | false => exact Or.inr (Or.inl (Mail.mem_of_lastNews last))
  · refine (right.right value has).imp_right fun corrected => ?_
    rcases corrected with any | updating | removing
    · exact Or.inl (any_corrects_of_added mail ▸ any)
    · exact Or.inr (Or.inl updating)
    · rw [idle] at removing
      cases removing

/-- `removeProducer` of an event begins: a member will be added again. -/
theorem Right.deliverRemoved (right : Right view) (mail : view.mail = .removed :: rest) :
    Right { view with mail := rest, delivering := some .removing } := by
  have heard : .removed ∈ view.mail := mail ▸ List.mem_cons_self
  have late : ¬ view.early := fun early => (right.early early).1 heard
  have again : view.member = true → .added ∈ rest := by
    intro member
    cases last : Mail.lastNews rest with
    | none =>
      have left := right.news false (by rw [mail, Mail.lastNews_cons, last]; rfl)
      rw [member] at left
      cases left
    | some told =>
      have now := right.news told (by rw [mail, Mail.lastNews_cons, last]; rfl)
      rw [member] at now
      subst now
      exact Mail.mem_of_lastNews last
  refine ⟨fun starts => absurd (Or.inl starts) late, fun early => absurd early late,
    fun told last => ?_, fun member => Or.inl (again member), fun _ => again,
    fun _ => Or.inr (Or.inr rfl), fun _ _ => Or.inr (Or.inr (Or.inr rfl))⟩
  refine right.news told ?_
  rw [mail, Mail.lastNews_cons, show Mail.lastNews rest = some told from last]
  rfl

theorem Right.handleRemoved (right : Right view) (removing : view.delivering = some .removing) :
    Right { view with value := none, delivering := none } :=
  ⟨fun starts => ⟨(right.beginning starts).1, nofun, rfl⟩,
    fun early => absurd removing (right.early early).2, right.news,
    fun member => Or.inl (right.removing removing member), nofun,
    fun there => there.elim nofun nofun, nofun⟩

theorem initial_eq (view : View Value) :
    view.initial.value.isSome = true ∧
      view.initial = { view with value := view.initial.value } ∧
      ∀ value, view.initial.value = some value →
        value = view.current ∨ view.value = some value := by
  unfold View.initial
  split
  · next => exact ⟨rfl, rfl, fun value is => Or.inl (Option.some.inj is).symm⟩
  · next present =>
    refine ⟨?_, rfl, fun value is => Or.inr is⟩
    cases value : view.value with
    | none =>
      rw [value] at present
      exact absurd rfl present
    | some value => rfl

/-- `addProducer` ends: the value is the current one, or was there. -/
theorem Right.initial (right : Right view) {stage : Stage} {delivering : Option Handling}
    (stage_is : stage = view.stage ∨ (stage ≠ .beginning ∧ stage ≠ .subscribedToAdded))
    (delivering_is : delivering = view.delivering ∨
      (view.delivering = some .adding ∧ delivering = none))
    (begun : view.stage ≠ .beginning)
    (there : view.member = true ∨ .removed ∈ view.mail ∨ view.delivering = some .removing) :
    Right { view.initial with stage := stage, delivering := delivering } := by
  obtain ⟨isSome, same, value_is⟩ := initial_eq view
  rw [same]
  generalize view.initial.value = value at isSome value_is
  have removing : delivering = some .removing ↔ view.delivering = some .removing := by
    rcases delivering_is with rfl | ⟨adding, rfl⟩
    · rfl
    · rw [adding]
      exact iff_of_false nofun nofun
  refine ⟨fun starts => ?_, fun early => ?_, right.news, fun _ => Or.inr (Or.inr (Or.inr isSome)),
    fun is => right.removing (removing.mp is), fun _ => ?_, fun new has => ?_⟩
  · rcases stage_is with rfl | ⟨begins, -⟩
    · exact absurd starts begun
    · exact absurd starts begins
  · have before : view.early := by
      rcases stage_is with rfl | ⟨begins, window⟩
      · exact early
      · exact early.elim (fun is => absurd is begins) fun is => absurd is window
    exact ⟨(right.early before).1, fun is => (right.early before).2 (removing.mp is)⟩
  · exact there.imp_right (Or.imp_right removing.mpr)
  · rcases value_is new has with current | old
    · exact Or.inl current
    · refine (right.right new old).imp_right fun corrected => ?_
      exact corrected.imp_right (Or.imp_right removing.mpr)

theorem Right.handleAdded (right : Right view) (adding : view.delivering = some .adding) :
    Right { view.initial with stage := view.stage, delivering := none } := by
  refine right.initial (Or.inl rfl) (Or.inr ⟨adding, rfl⟩) (fun starts => ?_)
    (right.kept (Or.inr adding))
  exact (right.beginning starts).2.1 adding

/-- `setEntity` goes on, and leaves no member behind that is still to be added. -/
theorem Right.restage (right : Right view) {stage : Stage}
    (late : stage ≠ .beginning ∧ stage ≠ .subscribedToAdded)
    (left : stage = .behind → view.stage = .behind ∨ view.member = false) :
    Right { view with stage := stage } := by
  refine ⟨fun starts => absurd starts late.1, fun early => ?_, right.news, fun member => ?_,
    right.removing, right.kept, right.right⟩
  · exact early.elim (fun is => absurd is late.1) fun is => absurd is late.2
  · by_cases behind : stage = .behind
    · rcases left behind with before | out
      · exact (right.followed member).imp_right (Or.imp_right
          (Or.imp_left fun is => absurd before is))
      · rw [show view.member = true from member] at out
        cases out
    · exact Or.inr (Or.inr (Or.inl behind))

theorem Right.subscribeToAdded (right : Right view) (starts : view.stage = .beginning) :
    Right { view with stage := .subscribedToAdded } :=
  ⟨nofun, fun _ => right.early (Or.inl starts), right.news,
    fun _ => Or.inr (Or.inr (Or.inl nofun)), right.removing, right.kept, right.right⟩

end Changes

end Brooklyn.AbstractAggregatingEnricher
