import Brooklyn.Mailbox
import Brooklyn.WorkerPoolContainers

/-!
What a run of a worker pool is for one container: its membership, its `SERVICE_UP`, the events
about it that are in flight, and what the pool has of it. The steps of the pool are steps of
each of these views, and the invariant is about one view.
-/

namespace Brooklyn.WorkerPool
open Transition Mailbox

/-- How far `setContents` is; from `subscribedToRemoved` on it has still to process the
container, or has nothing to do with it any more. -/
inductive Phase where
  | beginning
  | subscribedToAdded
  | subscribedToRemoved
  | ahead
  | behind
deriving DecidableEq

inductive Mail where
  | added
  | removed
  | serviceUp (value : Option Bool)
deriving DecidableEq

structure View where
  phase : Phase
  member : Bool
  serviceUp : Option Bool
  publishing : Option (Option Bool)
  mail : List Mail
  subscriptions : Nat
  contained : Bool

namespace Mail

def decides : Mail → Bool
  | .added => false
  | _ => true

def membership : Mail → Option (Unit × Bool)
  | .added => some ((), true)
  | .removed => some ((), false)
  | .serviceUp _ => none

/-- What the last event about the membership means. -/
def lastNews (mail : List Mail) : Option Bool := latest () (mail.filterMap membership)

theorem lastNews_send (mail : List Mail) (letter : Mail) :
    lastNews (mail ++ [letter]) = (lastNews [letter]).or (lastNews mail) :=
  latest_filterMap_append mail [letter]

theorem lastNews_services (mail : List Mail) (copies : Nat) (value : Option Bool) :
    lastNews (mail ++ List.replicate copies (.serviceUp value)) = lastNews mail := by
  have silent : lastNews (List.replicate copies (.serviceUp value)) = none :=
    latest_filterMap_silent fun letter there => by rw [(List.mem_replicate.mp there).2]; rfl
  have appended : lastNews (mail ++ List.replicate copies (.serviceUp value)) = _ :=
    latest_filterMap_append mail _
  rw [appended]
  exact congrArg (Option.or · _) silent

theorem lastNews_cons (letter : Mail) (rest : List Mail) :
    lastNews (letter :: rest) = (lastNews rest).or (lastNews [letter]) :=
  latest_filterMap_append [letter] rest

theorem added_of_lastNews {mail : List Mail} (last : lastNews mail = some true) :
    .added ∈ mail := by
  obtain ⟨letter, there, news⟩ := mem_of_latest_filterMap last
  cases letter with
  | added => exact there
  | removed => cases news
  | serviceUp value => cases news

theorem removed_of_lastNews {mail : List Mail} (last : lastNews mail = some false) :
    .removed ∈ mail := by
  obtain ⟨letter, there, news⟩ := mem_of_latest_filterMap last
  cases letter with
  | added => cases news
  | removed => exact there
  | serviceUp value => cases news

end Mail

namespace View
variable (startable : Bool) (view : View)

def wanted : Bool := !startable || view.serviceUp = some true

def add : View :=
  { view with
    subscriptions := view.subscriptions + 1
    contained := view.contained || view.wanted startable }

def handle : Mail → View
  | .added => view.add startable
  | .removed => { view with subscriptions := 0, contained := false }
  | .serviceUp value => { view with contained := value.getD view.contained }

/-- An event decides, or an update that is still to be published will. -/
def Corrected : Prop :=
  view.mail.any Mail.decides = true ∨ (view.publishing.isSome = true ∧ 0 < view.subscriptions)

/-- The pool will still add the container. -/
def Awaited : Prop :=
  .added ∈ view.mail ∨ view.phase = .ahead ∨ (view.member = true ∧ view.phase ≠ .behind)

def MayApply (rest : List Mail) (value : Option Bool) : Prop :=
  rest.any Mail.decides = true ∨ (view.publishing.isSome = true ∧ 0 < view.subscriptions) ∨
    ((value = none → view.contained = false) ∧
      if 0 < view.subscriptions then
        (value = some true ↔ view.serviceUp = some true) ∧ (startable = true ∨ value = some true)
      else value ≠ some true)

end View

/-- The steps of a view, those of a run in order. -/
inductive ViewStep (startable : Bool) : View → View → Prop where
  | same (view : View) : ViewStep startable view view
  | join {view : View} (out : view.member = false) :
      ViewStep startable view { view with
        member := true
        mail := if view.phase = .beginning then view.mail else view.mail ++ [.added] }
  | leave {view : View} (inside : view.member = true)
      (unheard : view.phase = .subscribedToAdded → .added ∉ view.mail ∧ view.subscriptions = 0) :
      ViewStep startable view { view with
        member := false
        mail :=
          if view.phase = .beginning ∨ view.phase = .subscribedToAdded then view.mail
          else view.mail ++ [.removed] }
  | put {view : View} (value : Option Bool) :
      ViewStep startable view { view with serviceUp := value, publishing := some value }
  | publish {view : View} {value : Option Bool} (publishing : view.publishing = some value) :
      ViewStep startable view { view with
        publishing := none
        mail := view.mail ++ List.replicate view.subscriptions (.serviceUp value) }
  | deliver {view : View} {letter : Mail} {rest : List Mail} (mail : view.mail = letter :: rest)
      (may : ∀ value, letter = .serviceUp value → view.MayApply startable rest value) :
      ViewStep startable view ({ view with mail := rest }.handle startable letter)
  | process {view : View} (next : Phase) (ahead : view.phase = .ahead)
      (next_is : next = .ahead ∨ next = .behind)
      (there : view.member = true ∨ .removed ∈ view.mail) :
      ViewStep startable view { view.add startable with phase := next }
  | subscribeToAdded {view : View} (phase : view.phase = .beginning) :
      ViewStep startable view { view with phase := .subscribedToAdded }
  | subscribeToRemoved {view : View} (phase : view.phase = .subscribedToAdded) :
      ViewStep startable view { view with phase := .subscribedToRemoved }
  | getMembers {view : View} (phase : view.phase = .subscribedToRemoved) :
      ViewStep startable view { view with
        phase := if view.member then .ahead else .behind }

structure Sound (startable : Bool) (view : View) : Prop where
  beginning : view.phase = .beginning →
    view.mail = [] ∧ view.subscriptions = 0 ∧ view.contained = false
  window : view.phase = .subscribedToAdded →
    .removed ∉ view.mail ∧ (view.mail.any Mail.decides = true → 0 < view.subscriptions)
  news : ∀ told, Mail.lastNews view.mail = some told → view.member = told
  followed : view.member = true → view.Awaited ∨ 0 < view.subscriptions
  kept : 0 < view.subscriptions → view.member = true ∨ .removed ∈ view.mail
  backed : view.contained = true → 0 < view.subscriptions ∨ view.mail.any Mail.decides = true
  right : view.Corrected ∨ view.contained = (view.member && view.wanted startable) ∨
    (view.Awaited ∧ view.contained = false)

section Steps
variable {startable : Bool} {view : View}

theorem any_decides_of_removed {mail : List Mail} (there : .removed ∈ mail) :
    mail.any Mail.decides = true := List.any_eq_true.mpr ⟨.removed, there, rfl⟩

theorem Sound.join (sound : Sound startable view) (out : view.member = false) :
    Sound startable { view with
      member := true
      mail := if view.phase = .beginning then view.mail else view.mail ++ [.added] } := by
  have awaited : View.Awaited { view with
      member := true
      mail := if view.phase = .beginning then view.mail else view.mail ++ [.added] } := by
    by_cases starts : view.phase = .beginning
    · exact Or.inr (Or.inr ⟨rfl, by simp [starts]⟩)
    · exact Or.inl (by simp [starts])
  have decides : (if view.phase = .beginning then view.mail
      else view.mail ++ [.added]).any Mail.decides = view.mail.any Mail.decides := by
    split
    · rfl
    · simp [Mail.decides]
  refine ⟨fun phase => ?_, fun phase => ?_, fun told last => ?_, fun _ => Or.inl awaited,
    fun _ => Or.inl rfl, fun contained => ?_, ?_⟩
  · simpa [show view.phase = .beginning from phase] using sound.beginning phase
  · dsimp only at phase ⊢
    rw [decides]
    simpa [phase] using sound.window phase
  · dsimp only at last
    split at last
    · next starts =>
      rw [(sound.beginning starts).1] at last
      cases last
    · rw [Mail.lastNews_send] at last
      exact Option.some.inj last
  · dsimp only
    rw [decides]
    exact sound.backed contained
  · rcases sound.right with corrected | right | ⟨-, empty⟩
    · refine Or.inl (corrected.imp_left fun any => ?_)
      dsimp only
      rwa [decides]
    · rw [out, Bool.false_and] at right
      exact Or.inr (Or.inr ⟨awaited, right⟩)
    · exact Or.inr (Or.inr ⟨awaited, empty⟩)

theorem Sound.leave (sound : Sound startable view) (inside : view.member = true)
    (unheard : view.phase = .subscribedToAdded →
      .added ∉ view.mail ∧ view.subscriptions = 0) :
    Sound startable { view with
      member := false
      mail :=
        if view.phase = .beginning ∨ view.phase = .subscribedToAdded then view.mail
        else view.mail ++ [.removed] } := by
  by_cases early : view.phase = .beginning ∨ view.phase = .subscribedToAdded
  · -- nothing was heard of the container, and nothing is
    have unsubscribed : view.subscriptions = 0 :=
      early.elim (fun starts => (sound.beginning starts).2.1) fun window => (unheard window).2
    have quiet : view.mail.any Mail.decides = false := by
      rcases early with starts | window
      · simp [(sound.beginning starts).1]
      · rw [Bool.eq_false_iff]
        intro decides
        have := (sound.window window).2 decides
        omega
    have empty : view.contained = false := by
      rw [Bool.eq_false_iff]
      intro contained
      rcases sound.backed contained with subscribed | decides
      · omega
      · rw [quiet] at decides
        cases decides
    rw [if_pos early]
    refine ⟨sound.beginning, sound.window, fun told last => ?_, nofun, fun subscribed => ?_,
      fun contained => ?_, Or.inr (Or.inl ?_)⟩
    · rw [sound.news told last] at inside
      subst inside
      rcases early with starts | window
      · rw [(sound.beginning starts).1] at last
        cases last
      · exact absurd (Mail.added_of_lastNews last) (unheard window).1
    · dsimp only at subscribed
      omega
    · rw [show view.contained = true from contained] at empty
      cases empty
    · exact empty
  · rw [if_neg early]
    have removed : (view.mail ++ [Mail.removed]).any Mail.decides = true :=
      any_decides_of_removed (by simp)
    exact ⟨fun starts => absurd (Or.inl starts) early, fun window => absurd (Or.inr window) early,
      fun told last => by
        rw [Mail.lastNews_send] at last
        exact Option.some.inj last,
      nofun, fun _ => Or.inr (by simp), fun _ => Or.inr removed, Or.inl (Or.inl removed)⟩

theorem Sound.put (sound : Sound startable view) (value : Option Bool) :
    Sound startable { view with serviceUp := value, publishing := some value } := by
  refine ⟨sound.beginning, sound.window, sound.news, sound.followed, sound.kept, sound.backed, ?_⟩
  by_cases subscribed : 0 < view.subscriptions
  · exact Or.inl (Or.inr ⟨rfl, subscribed⟩)
  by_cases contained : view.contained = true
  · exact Or.inl (Or.inl ((sound.backed contained).resolve_left subscribed))
  have empty := Bool.eq_false_iff.mpr contained
  by_cases member : view.member = true
  · exact Or.inr (Or.inr ⟨(sound.followed member).resolve_right subscribed, empty⟩)
  · refine Or.inr (Or.inl (empty.trans ?_))
    dsimp only
    rw [Bool.eq_false_iff.mpr member, Bool.false_and]

theorem Sound.publish (sound : Sound startable view) {value : Option Bool} :
    Sound startable { view with
      publishing := none
      mail := view.mail ++ List.replicate view.subscriptions (.serviceUp value) } := by
  have old {letter : Mail} (there : letter ∈ view.mail) :
      letter ∈ view.mail ++ List.replicate view.subscriptions (.serviceUp value) :=
    List.mem_append_left _ there
  have removed_iff : .removed ∈ view.mail ++ List.replicate view.subscriptions (.serviceUp value) ↔
      .removed ∈ view.mail := by
    simp [List.mem_replicate]
  have decides_iff : (view.mail ++ List.replicate view.subscriptions
      (Mail.serviceUp value)).any Mail.decides = true ↔
        view.mail.any Mail.decides = true ∨ 0 < view.subscriptions := by
    rw [List.any_append, Bool.or_eq_true, List.any_replicate]
    by_cases none : view.subscriptions = 0
    · simp [none]
    · rw [if_neg none]
      exact iff_of_true (Or.inr rfl) (Or.inr (Nat.pos_of_ne_zero none))
  refine ⟨fun starts => ?_, fun window => ?_, fun told last => ?_, fun member => ?_,
    fun subscribed => ?_, fun contained => ?_, ?_⟩
  · obtain ⟨mail, unsubscribed, empty⟩ := sound.beginning starts
    simp [mail, unsubscribed, empty]
  · dsimp only
    rw [removed_iff, decides_iff]
    exact ⟨(sound.window window).1, fun either => either.elim (sound.window window).2 id⟩
  · dsimp only at last
    rw [Mail.lastNews_services] at last
    exact sound.news told last
  · exact (sound.followed member).imp_left (Or.imp_left old)
  · exact (sound.kept subscribed).imp_right old
  · dsimp only
    rw [decides_iff]
    exact (sound.backed contained).imp_right Or.inl
  · rcases sound.right with (decides | ⟨-, subscribed⟩) | right | ⟨awaited, empty⟩
    · exact Or.inl (Or.inl (decides_iff.mpr (Or.inl decides)))
    · exact Or.inl (Or.inl (decides_iff.mpr (Or.inr subscribed)))
    · exact Or.inr (Or.inl right)
    · exact Or.inr (Or.inr ⟨awaited.imp_left old, empty⟩)

/-- `onContainerAdded` of a member, or of a container whose removal is in flight. -/
theorem Sound.add (sound : Sound startable view) {rest : List Mail} {next : Phase}
    (later : next ≠ .beginning) (window : next = .subscribedToAdded → .removed ∉ rest)
    (news : ∀ told, Mail.lastNews rest = some told → view.member = told)
    (there : view.member = true ∨ .removed ∈ rest)
    (decides : view.mail.any Mail.decides = true → rest.any Mail.decides = true) :
    Sound startable { view.add startable with mail := rest, phase := next } := by
  refine ⟨fun starts => absurd starts later, fun is => ⟨window is, fun _ => Nat.succ_pos _⟩, news,
    fun _ => Or.inr (Nat.succ_pos _), fun _ => there, fun _ => Or.inl (Nat.succ_pos _), ?_⟩
  rcases there with member | removed
  · rcases sound.right with corrected | right | ⟨-, empty⟩
    · exact Or.inl (corrected.imp decides fun both => ⟨both.1, Nat.succ_pos _⟩)
    · refine Or.inr (Or.inl ?_)
      change (view.contained || view.wanted startable) = (view.member && view.wanted startable)
      rw [right, member, Bool.true_and, Bool.or_self]
    · refine Or.inr (Or.inl ?_)
      change (view.contained || view.wanted startable) = (view.member && view.wanted startable)
      rw [empty, member, Bool.true_and, Bool.false_or]
  · exact Or.inl (Or.inl (any_decides_of_removed removed))

section Letters
variable {rest : List Mail}

theorem Sound.begun (sound : Sound startable view) {letter : Mail}
    (mail : view.mail = letter :: rest) : view.phase ≠ .beginning := by
  intro starts
  rw [(sound.beginning starts).1] at mail
  cases mail

theorem Sound.news_rest (sound : Sound startable view) {letter : Mail}
    (mail : view.mail = letter :: rest) (told : Bool) (last : Mail.lastNews rest = some told) :
    view.member = told :=
  sound.news told (by rw [mail, Mail.lastNews_cons, last, Option.some_or])

/-- What the letter says of the membership holds, or a later one says what does. -/
theorem Sound.news_now (sound : Sound startable view) {letter : Mail} {told : Bool}
    (mail : view.mail = letter :: rest) (here : Mail.lastNews [letter] = some told) :
    view.member = told ∨ Mail.lastNews rest = some view.member := by
  cases last : Mail.lastNews rest with
  | none => exact Or.inl (sound.news told (by rw [mail, Mail.lastNews_cons, last, here]; rfl))
  | some news => exact Or.inr (by rw [sound.news_rest mail news last])

theorem Sound.deliverAdded (sound : Sound startable view) (mail : view.mail = .added :: rest) :
    Sound startable ({ view with mail := rest }.handle startable .added) := by
  refine sound.add (sound.begun mail) (fun window removed => ?_) (sound.news_rest mail) ?_ ?_
  · exact (sound.window window).1 (mail ▸ List.mem_cons_of_mem _ removed)
  · rcases sound.news_now mail rfl with member | last
    · exact Or.inl member
    · cases member : view.member with
      | true => exact Or.inl rfl
      | false =>
        rw [member] at last
        exact Or.inr (Mail.removed_of_lastNews last)
  · rw [mail, List.any_cons]
    exact id

theorem Sound.deliverRemoved (sound : Sound startable view)
    (mail : view.mail = .removed :: rest) :
    Sound startable ({ view with mail := rest }.handle startable .removed) := by
  have awaited (member : view.member = true) : .added ∈ rest := by
    rcases sound.news_now mail rfl with out | last
    · rw [member] at out
      cases out
    · rw [member] at last
      exact Mail.added_of_lastNews last
  refine ⟨fun starts => absurd starts (sound.begun mail), fun window => ?_, sound.news_rest mail,
    fun member => Or.inl (Or.inl (awaited member)), nofun, nofun, ?_⟩
  · exact absurd (mail ▸ List.mem_cons_self) (sound.window window).1
  · by_cases member : view.member = true
    · exact Or.inr (Or.inr ⟨Or.inl (awaited member), rfl⟩)
    · refine Or.inr (Or.inl ?_)
      change false = (view.member && _)
      rw [Bool.eq_false_iff.mpr member, Bool.false_and]

theorem Sound.deliverServiceUp (sound : Sound startable view) {value : Option Bool}
    (mail : view.mail = .serviceUp value :: rest) (may : view.MayApply startable rest value) :
    Sound startable ({ view with mail := rest }.handle startable (.serviceUp value)) := by
  have stays {letter : Mail} (there : letter ∈ view.mail) (other : letter ≠ .serviceUp value) :
      letter ∈ rest := (List.mem_cons.mp (mail ▸ there)).resolve_left other
  have awaited (was : view.Awaited) :
      ({ view with mail := rest }.handle startable (.serviceUp value)).Awaited :=
    was.imp_left fun there => stays there nofun
  refine ⟨fun starts => absurd starts (sound.begun mail), fun window => ⟨fun removed => ?_,
      fun _ => ?_⟩, sound.news_rest mail, fun member => (sound.followed member).imp_left awaited,
    fun subscribed => (sound.kept subscribed).imp_right fun there => stays there nofun,
    fun contained => ?_, ?_⟩
  · exact (sound.window window).1 (mail ▸ List.mem_cons_of_mem _ removed)
  · exact (sound.window window).2 (by rw [mail]; rfl)
  · change value.getD view.contained = true at contained
    rcases may with decides | ⟨-, subscribed⟩ | ⟨empty, fits⟩
    · exact Or.inr decides
    · exact Or.inl subscribed
    · by_cases subscribed : 0 < view.subscriptions
      · exact Or.inl subscribed
      · rw [if_neg subscribed] at fits
        cases value with
        | none =>
          rw [Option.getD_none, empty rfl] at contained
          cases contained
        | some up =>
          rw [Option.getD_some] at contained
          exact absurd (congrArg some contained) fits
  · rcases may with decides | publishes | ⟨empty, fits⟩
    · exact Or.inl (Or.inl decides)
    · exact Or.inl (Or.inr publishes)
    have applied : value.getD view.contained = decide (value = some true) := by
      cases value with
      | none => simp [empty rfl]
      | some up => simp
    by_cases subscribed : 0 < view.subscriptions
    · rw [if_pos subscribed] at fits
      obtain ⟨current, fitting⟩ := fits
      rcases sound.kept subscribed with member | removed
      · refine Or.inr (Or.inl (applied.trans ?_))
        change _ = (view.member && (!startable || decide (view.serviceUp = some true)))
        rw [member, Bool.true_and, decide_eq_decide.mpr current]
        rcases fitting with isStartable | up
        · simp [isStartable]
        · rw [decide_eq_true (current.mp up), Bool.or_true]
      · exact Or.inl (Or.inl (any_decides_of_removed (stays removed nofun)))
    · rw [if_neg subscribed] at fits
      rw [decide_eq_false fits] at applied
      by_cases member : view.member = true
      · exact Or.inr (Or.inr ⟨awaited ((sound.followed member).resolve_right subscribed), applied⟩)
      · refine Or.inr (Or.inl (applied.trans ?_))
        change false = (view.member && _)
        rw [Bool.eq_false_iff.mpr member, Bool.false_and]

end Letters

/-- `setContents` goes on, and leaves nothing out that it had still to do. -/
theorem Sound.advance (sound : Sound startable view) {next : Phase} (later : next ≠ .beginning)
    (window : next = .subscribedToAdded → view.phase = .beginning)
    (awaited : view.member = true → view.Awaited → View.Awaited { view with phase := next }) :
    Sound startable { view with phase := next } := by
  refine ⟨fun starts => absurd starts later, fun is => ?_, sound.news,
    fun member => (sound.followed member).imp_left (awaited member), sound.kept, sound.backed,
    ?_⟩
  · have none := (sound.beginning (window is)).1
    dsimp only
    rw [none]
    exact ⟨List.not_mem_nil, nofun⟩
  · rcases sound.right with corrected | right | ⟨was, empty⟩
    · exact Or.inl corrected
    · exact Or.inr (Or.inl right)
    · by_cases member : view.member = true
      · exact Or.inr (Or.inr ⟨awaited member was, empty⟩)
      · refine Or.inr (Or.inl (empty.trans ?_))
        change false = (view.member && _)
        rw [Bool.eq_false_iff.mpr member, Bool.false_and]

theorem Sound.step {after : View} (sound : Sound startable view)
    (moved : ViewStep startable view after) : Sound startable after := by
  cases moved with
  | same => exact sound
  | join out => exact sound.join out
  | leave inside unheard => exact sound.leave inside unheard
  | put value => exact sound.put value
  | publish publishing => exact sound.publish
  | @deliver letter rest mail may =>
    cases letter with
    | added => exact sound.deliverAdded mail
    | removed => exact sound.deliverRemoved mail
    | serviceUp value => exact sound.deliverServiceUp mail (may value rfl)
  | process next ahead next_is there =>
    refine sound.add ?_ ?_ sound.news there id
    · rcases next_is with rfl | rfl <;> nofun
    · rcases next_is with rfl | rfl <;> nofun
  | subscribeToAdded phase =>
    refine sound.advance nofun (fun _ => phase) fun member _ => Or.inr (Or.inr ⟨member, nofun⟩)
  | subscribeToRemoved phase =>
    refine sound.advance nofun nofun fun member _ => Or.inr (Or.inr ⟨member, nofun⟩)
  | getMembers phase =>
    refine sound.advance ?_ ?_ fun member _ => Or.inr (Or.inl ?_)
    · split <;> nofun
    · split <;> nofun
    · rw [if_pos member]

end Steps

end Brooklyn.WorkerPool
