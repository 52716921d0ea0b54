/-!
A record that is brought up to date again and again and published only when it changed.
The place it is published to may refuse; whether the last attempt was refused is `owed`.
Nothing in a later round looks at `owed`, so a round that finds no change pays no debt.
-/

namespace Brooklyn

universe u

structure Publication (Content : Type u) where
  recorded : Content
  published : Content
  owed : Bool

namespace Publication
variable {Content : Type u}

inductive Attempt where
  | unmade
  | refused
  | accepted
  deriving DecidableEq

def refresh (publication : Publication Content) (found : Content) :
    Attempt → Publication Content
  | .unmade => { publication with recorded := found }
  | .refused => { publication with recorded := found, owed := true }
  | .accepted => ⟨found, found, false⟩

/-- What is published is what is recorded, unless the last attempt was refused. -/
def Settled (publication : Publication Content) : Prop :=
  publication.owed = false → publication.published = publication.recorded

/-- A round settles when it attempts to publish every change. -/
theorem refresh_settled {publication : Publication Content} {found : Content} {attempt : Attempt}
    (settled : publication.Settled)
    (attempted : attempt = .unmade → found = publication.recorded) :
    (publication.refresh found attempt).Settled := by
  intro paid
  cases attempt with
  | unmade => exact (settled paid).trans (attempted rfl).symm
  | refused => cases paid
  | accepted => rfl

/-- After a round that was not refused the find is published, unless the round made no
attempt while one was owed. -/
theorem published_refresh {publication : Publication Content} {found : Content}
    {attempt : Attempt} (settled : publication.Settled)
    (attempted : attempt = .unmade → found = publication.recorded)
    (agreed : attempt ≠ .refused) (paid : attempt = .unmade → publication.owed = false) :
    (publication.refresh found attempt).published = found := by
  cases attempt with
  | unmade => exact (settled (paid rfl)).trans (attempted rfl).symm
  | refused => exact absurd rfl agreed
  | accepted => rfl

end Publication
end Brooklyn
