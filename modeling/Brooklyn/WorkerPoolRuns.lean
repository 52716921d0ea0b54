import Brooklyn.WorkerPoolViews

/-!
The steps of a worker pool, seen from one container, are steps of its view. So the containers of
a pool are right whenever nothing is in progress, as long as no `SERVICE_UP` event is applied
that is out of date, and no member leaves unheard. The events that the pool emits alternate in
every run.
-/

namespace Brooklyn.WorkerPool
open Transition

variable {Entity : Type} [DecidableEq Entity]

section Projection

def SetContents.phase (container : Entity) : SetContents Entity → Phase
  | .beginning => .beginning
  | .subscribedToAdded => .subscribedToAdded
  | .subscribedToRemoved => .subscribedToRemoved
  | .processing rest => if container ∈ rest then .ahead else .behind
  | .finished | .classCast => .behind

def mailOf (container : Entity) : PoolEvent Entity → Option Mail
  | .memberAdded member => if member = container then some .added else none
  | .memberRemoved member => if member = container then some .removed else none
  | .serviceUp source value => if source = container then some (.serviceUp value) else none

def viewOf (state : State Entity) (container : Entity) : View where
  phase := state.setContents.phase container
  member := decide (container ∈ state.members)
  serviceUp := state.serviceUp container
  publishing := state.publishing container
  mail := state.inFlight.filterMap (mailOf container)
  subscriptions := state.pool.subscriptions container
  contained := decide (container ∈ state.pool.containers)

variable {container other : Entity} {events : List (PoolEvent Entity)}

theorem added_mem : .added ∈ events.filterMap (mailOf container) ↔
    .memberAdded container ∈ events := by
  rw [List.mem_filterMap]
  constructor
  · rintro ⟨event, there, about⟩
    cases event with
    | memberAdded member =>
      obtain rfl : member = container := by simpa [mailOf] using about
      exact there
    | memberRemoved member => simp [mailOf] at about
    | serviceUp source value => simp [mailOf] at about
  · exact fun there => ⟨_, there, by simp [mailOf]⟩

theorem removed_mem : .removed ∈ events.filterMap (mailOf container) ↔
    .memberRemoved container ∈ events := by
  rw [List.mem_filterMap]
  constructor
  · rintro ⟨event, there, about⟩
    cases event with
    | memberAdded member => simp [mailOf] at about
    | memberRemoved member =>
      obtain rfl : member = container := by simpa [mailOf] using about
      exact there
    | serviceUp source value => simp [mailOf] at about
  · exact fun there => ⟨_, there, by simp [mailOf]⟩

theorem any_decides (events : List (PoolEvent Entity)) :
    (events.filterMap (mailOf container)).any Mail.decides = events.any (decides container) := by
  induction events with
  | nil => rfl
  | cons event rest ih =>
    rw [List.any_cons, ← ih]
    cases event with
    | memberAdded member =>
      by_cases same : member = container <;> simp [mailOf, decides, Mail.decides, same]
    | memberRemoved member =>
      by_cases same : member = container <;> simp [mailOf, decides, Mail.decides, same]
    | serviceUp source value =>
      by_cases same : source = container <;> simp [mailOf, decides, Mail.decides, same]

end Projection

section Operations
variable {kinds : ContainerKinds Entity} {pool : Pool Entity} {container other : Entity}

theorem mem_onContainerUp : other ∈ (pool.onContainerUp container).containers ↔
    other ∈ pool.containers ∨ other = container := by
  unfold Pool.onContainerUp
  split
  · next there =>
    refine (or_iff_left_of_imp ?_).symm
    rintro rfl
    exact there
  · exact LinkedSet.mem_add ..

theorem mem_onContainerDown : other ∈ (pool.onContainerDown container).containers ↔
    other ∈ pool.containers ∧ other ≠ container := by
  unfold Pool.onContainerDown
  split
  · exact LinkedSet.mem_remove ..
  · next absent =>
    refine (and_iff_left_of_imp ?_).symm
    rintro there rfl
    exact absent there

theorem subscriptions_onContainerUp :
    (pool.onContainerUp container).subscriptions = pool.subscriptions := by
  unfold Pool.onContainerUp
  split <;> rfl

theorem subscriptions_onContainerDown :
    (pool.onContainerDown container).subscriptions = pool.subscriptions := by
  unfold Pool.onContainerDown
  split <;> rfl

theorem mem_onContainerAdded (serviceUp : Entity → Option Bool) :
    other ∈ (pool.onContainerAdded kinds serviceUp container).containers ↔
      other ∈ pool.containers ∨
        (other = container ∧ Pool.wanted kinds (serviceUp container) container = true) := by
  unfold Pool.onContainerAdded
  dsimp only
  split
  · next wanted =>
    rw [mem_onContainerUp]
    simp [wanted]
  · next unwanted => simp [unwanted]

theorem subscriptions_onContainerAdded (serviceUp : Entity → Option Bool) :
    (pool.onContainerAdded kinds serviceUp container).subscriptions =
      Function.update pool.subscriptions container (pool.subscriptions container + 1) := by
  unfold Pool.onContainerAdded
  dsimp only
  split
  · rw [subscriptions_onContainerUp]
  · rfl

theorem mem_onContainerRemoved : other ∈ (pool.onContainerRemoved container).containers ↔
    other ∈ pool.containers ∧ other ≠ container :=
  mem_onContainerDown

theorem subscriptions_onContainerRemoved :
    (pool.onContainerRemoved container).subscriptions =
      Function.update pool.subscriptions container 0 :=
  subscriptions_onContainerDown

/-- The events that the pool has emitted alternate, and lead to its containers. -/
def Followed (pool : Pool Entity) : Prop :=
  ∀ container, pool.emitted.foldlM (follow container) false =
    some (decide (container ∈ pool.containers))

theorem Followed.up (followed : Followed pool) (container : Entity) :
    Followed (pool.onContainerUp container) := by
  unfold Pool.onContainerUp
  split
  · exact followed
  · next absent =>
    intro other
    dsimp only
    rw [List.foldlM_append, followed other]
    by_cases same : container = other
    · subst same
      simp [follow, absent]
    · simp [follow, same, Ne.symm same]

theorem Followed.down (followed : Followed pool) (container : Entity) :
    Followed (pool.onContainerDown container) := by
  unfold Pool.onContainerDown
  split
  · next there =>
    intro other
    dsimp only
    rw [List.foldlM_append, followed other]
    by_cases same : container = other
    · subst same
      simp [follow, there]
    · simp [follow, same, Ne.symm same]
  · exact followed

theorem Followed.resubscribed (followed : Followed pool)
    (subscriptions : Entity → Nat) : Followed { pool with subscriptions := subscriptions } :=
  followed

theorem Followed.added (followed : Followed pool) (serviceUp : Entity → Option Bool)
    (container : Entity) : Followed (pool.onContainerAdded kinds serviceUp container) := by
  unfold Pool.onContainerAdded
  dsimp only
  split
  · exact (followed.resubscribed _).up container
  · exact followed.resubscribed _

theorem Followed.onEvent (followed : Followed pool) (poolClass : PoolClass)
    (serviceUp : Entity → Option Bool) (event : PoolEvent Entity) :
    Followed (pool.onEvent kinds poolClass serviceUp event) := by
  cases event with
  | memberAdded member =>
    dsimp only [Pool.onEvent]
    split
    · exact followed.added serviceUp member
    · exact followed
  | memberRemoved member =>
    dsimp only [Pool.onEvent]
    split
    · exact (followed.resubscribed _).down member
    · exact followed
  | serviceUp source value =>
    cases value with
    | none => exact followed
    | some up =>
      cases up with
      | true => exact followed.up source
      | false => exact followed.down source

end Operations

section Views
variable {kinds : ContainerKinds Entity} {poolClass : PoolClass} {before after : State Entity}
  {container : Entity}

theorem phase_beginning (setContents : SetContents Entity) :
    setContents.phase container = .beginning ↔ hearsAdded setContents = false := by
  cases setContents with
  | processing rest =>
    dsimp only [SetContents.phase, hearsAdded]
    split <;> simp
  | _ => simp [SetContents.phase, hearsAdded]

theorem phase_early (setContents : SetContents Entity) :
    (setContents.phase container = .beginning ∨ setContents.phase container = .subscribedToAdded) ↔
      hearsRemoved setContents = false := by
  cases setContents with
  | processing rest =>
    dsimp only [SetContents.phase, hearsRemoved]
    split <;> simp
  | _ => simp [SetContents.phase, hearsRemoved]

theorem phase_subscribedToAdded {setContents : SetContents Entity}
    (phase : setContents.phase container = .subscribedToAdded) :
    setContents = .subscribedToAdded := by
  cases setContents with
  | subscribedToAdded => rfl
  | processing rest =>
    dsimp only [SetContents.phase] at phase
    split at phase <;> cases phase
  | _ => cases phase

/-- A step that is about another container. -/
theorem step_elsewhere (startable : Bool)
    (setContents : after.setContents.phase container = before.setContents.phase container)
    (members : container ∈ after.members ↔ container ∈ before.members)
    (serviceUp : after.serviceUp container = before.serviceUp container)
    (publishing : after.publishing container = before.publishing container)
    (mail : after.inFlight.filterMap (mailOf container) =
      before.inFlight.filterMap (mailOf container))
    (subscriptions : after.pool.subscriptions container = before.pool.subscriptions container)
    (contained : container ∈ after.pool.containers ↔ container ∈ before.pool.containers) :
    ViewStep startable (viewOf before container) (viewOf after container) := by
  have same : viewOf after container = viewOf before container := by
    unfold viewOf
    rw [setContents, serviceUp, publishing, mail, subscriptions, decide_eq_decide.mpr members,
      decide_eq_decide.mpr contained]
  rw [same]
  exact .same _

theorem view_join {member : Entity} (out : member ∉ before.members) (startable : Bool) :
    ViewStep startable (viewOf before container) (viewOf { before with
      members := before.members.add member
      inFlight :=
        if hearsAdded before.setContents then before.inFlight ++ [.memberAdded member]
        else before.inFlight } container) := by
  by_cases same : member = container
  · subst same
    have is : viewOf { before with
        members := before.members.add member
        inFlight :=
          if hearsAdded before.setContents then before.inFlight ++ [.memberAdded member]
          else before.inFlight } member =
        { viewOf before member with
          member := true
          mail :=
            if (viewOf before member).phase = .beginning then (viewOf before member).mail
            else (viewOf before member).mail ++ [.added] } := by
      unfold viewOf
      simp only [LinkedSet.mem_add, or_true, decide_true, phase_beginning]
      cases hears : hearsAdded before.setContents <;> simp [mailOf]
    rw [is]
    exact .join (decide_eq_false out)
  · refine step_elsewhere startable rfl ?_ rfl rfl ?_ rfl Iff.rfl
    · exact (LinkedSet.mem_add ..).trans (or_iff_left (Ne.symm same))
    · dsimp only
      split
      · simp [mailOf, same]
      · rfl

theorem view_leave {member : Entity} (inside : member ∈ before.members)
    (unheard : before.setContents = .subscribedToAdded →
      .memberAdded member ∉ before.inFlight ∧ before.pool.subscriptions member = 0)
    (startable : Bool) :
    ViewStep startable (viewOf before container) (viewOf { before with
      members := before.members.remove member
      inFlight :=
        if hearsRemoved before.setContents then before.inFlight ++ [.memberRemoved member]
        else before.inFlight } container) := by
  by_cases same : member = container
  · subst same
    have is : viewOf { before with
        members := before.members.remove member
        inFlight :=
          if hearsRemoved before.setContents then before.inFlight ++ [.memberRemoved member]
          else before.inFlight } member =
        { viewOf before member with
          member := false
          mail :=
            if (viewOf before member).phase = .beginning ∨
              (viewOf before member).phase = .subscribedToAdded then (viewOf before member).mail
            else (viewOf before member).mail ++ [.removed] } := by
      unfold viewOf
      simp only [LinkedSet.mem_remove, ne_eq, not_true, and_false, decide_false, phase_early]
      cases hears : hearsRemoved before.setContents <;> simp [mailOf]
    rw [is]
    refine .leave (decide_eq_true inside) fun phase => ?_
    obtain ⟨absent, unsubscribed⟩ := unheard (phase_subscribedToAdded phase)
    exact ⟨mt added_mem.mp absent, unsubscribed⟩
  · refine step_elsewhere startable rfl ?_ rfl rfl ?_ rfl Iff.rfl
    · exact (LinkedSet.mem_remove ..).trans (and_iff_left (Ne.symm same))
    · dsimp only
      split
      · simp [mailOf, same]
      · rfl

theorem view_put (entity : Entity) (value : Option Bool) (startable : Bool) :
    ViewStep startable (viewOf before container) (viewOf { before with
      serviceUp := Function.update before.serviceUp entity value
      publishing := Function.update before.publishing entity (some value) } container) := by
  by_cases same : entity = container
  · subst same
    have is : viewOf { before with
        serviceUp := Function.update before.serviceUp entity value
        publishing := Function.update before.publishing entity (some value) } entity =
        { viewOf before entity with serviceUp := value, publishing := some value } := by
      unfold viewOf
      simp only [Function.update_self]
    rw [is]
    exact .put value
  · exact step_elsewhere startable rfl Iff.rfl (Function.update_of_ne (Ne.symm same) ..)
      (Function.update_of_ne (Ne.symm same) ..) rfl rfl Iff.rfl

theorem view_publish {entity : Entity} {value : Option Bool}
    (publishing : before.publishing entity = some value) (startable : Bool) :
    ViewStep startable (viewOf before container) (viewOf { before with
      publishing := Function.update before.publishing entity none
      inFlight := before.inFlight ++
        List.replicate (before.pool.subscriptions entity) (.serviceUp entity value)
      } container) := by
  by_cases same : entity = container
  · subst same
    have is : viewOf { before with
        publishing := Function.update before.publishing entity none
        inFlight := before.inFlight ++
          List.replicate (before.pool.subscriptions entity) (.serviceUp entity value) } entity =
        { viewOf before entity with
          publishing := none
          mail := (viewOf before entity).mail ++
            List.replicate (viewOf before entity).subscriptions (.serviceUp value) } := by
      have here : mailOf entity (.serviceUp entity value) = some (.serviceUp value) := by
        simp [mailOf]
      unfold viewOf
      simp only [Function.update_self, List.filterMap_append]
      rw [List.filterMap_replicate_of_some here]
    rw [is]
    exact .publish publishing
  · refine step_elsewhere startable rfl Iff.rfl rfl (Function.update_of_ne (Ne.symm same) ..) ?_ rfl
      Iff.rfl
    dsimp only
    rw [List.filterMap_append, List.filterMap_replicate_of_none (by simp [mailOf, same]),
      List.append_nil]

/-- `onContainerAdded` in the views. -/
theorem viewOf_added (existing : Entity) (next : SetContents Entity)
    (rest : List (PoolEvent Entity)) :
    viewOf { before with
      inFlight := rest
      pool := before.pool.onContainerAdded kinds before.serviceUp existing
      setContents := next } existing =
    { (viewOf before existing).add (kinds.isStartable existing) with
      mail := rest.filterMap (mailOf existing), phase := next.phase existing } := by
  have contained : decide (existing ∈
      (before.pool.onContainerAdded kinds before.serviceUp existing).containers) =
        (decide (existing ∈ before.pool.containers) ||
          (!kinds.isStartable existing || decide (before.serviceUp existing = some true))) := by
    rw [decide_eq_decide.mpr (mem_onContainerAdded before.serviceUp), Bool.decide_or]
    simp [Pool.wanted]
  unfold viewOf
  dsimp only
  rw [contained, subscriptions_onContainerAdded, Function.update_self]
  rfl

theorem mayApply_view {rest : List (PoolEvent Entity)} {source : Entity} {value : Option Bool}
    (may : mayApply kinds before rest source value = true) :
    (viewOf before source).MayApply (kinds.isStartable source) (rest.filterMap (mailOf source))
      value := by
  unfold mayApply at may
  unfold View.MayApply
  rw [any_decides, ← or_assoc]
  rw [Bool.or_eq_true, Bool.or_eq_true] at may
  refine may.imp (Or.imp_right fun publishes => ?_) fun fits => ?_
  · simpa [viewOf] using publishes
  rw [Bool.and_eq_true] at fits
  refine ⟨?_, ?_⟩
  · rintro rfl
    simpa [viewOf] using fits.1
  · have applies := fits.2
    by_cases subscribed : 0 < before.pool.subscriptions source
    · rw [if_pos subscribed] at applies
      rw [if_pos (show 0 < (viewOf before source).subscriptions from subscribed)]
      simpa [viewOf] using applies
    · rw [if_neg subscribed] at applies
      rw [if_neg (show ¬ 0 < (viewOf before source).subscriptions from subscribed)]
      exact of_decide_eq_true applies

theorem view_deliver {event : PoolEvent Entity} {rest : List (PoolEvent Entity)}
    (inFlight : before.inFlight = event :: rest)
    (accepted : ∀ member, event = .memberAdded member ∨ event = .memberRemoved member →
      poolClass.accepts kinds member = true)
    (may : ∀ source value, event = .serviceUp source value →
      mayApply kinds before rest source value = true) :
    ViewStep (kinds.isStartable container) (viewOf before container) (viewOf { before with
      inFlight := rest
      pool := before.pool.onEvent kinds poolClass before.serviceUp event } container) := by
  have mail_elsewhere (silent : mailOf container event = none) :
      rest.filterMap (mailOf container) = before.inFlight.filterMap (mailOf container) := by
    rw [inFlight, List.filterMap_cons_none silent]
  have mail_here {letter : Mail} (here : mailOf container event = some letter) :
      (viewOf before container).mail = letter :: rest.filterMap (mailOf container) := by
    unfold viewOf
    dsimp only
    rw [inFlight, List.filterMap_cons_some here]
  cases event with
  | memberAdded member =>
    dsimp only [Pool.onEvent]
    rw [if_pos (accepted member (Or.inl rfl))]
    by_cases same : member = container
    · subst same
      rw [viewOf_added]
      exact .deliver (@mail_here .added (by simp [mailOf])) nofun
    · refine step_elsewhere _ rfl Iff.rfl rfl rfl (mail_elsewhere (by simp [mailOf, same])) ?_ ?_
      · dsimp only
        rw [subscriptions_onContainerAdded, Function.update_of_ne (Ne.symm same)]
      · exact (mem_onContainerAdded ..).trans (by simp [Ne.symm same])
  | memberRemoved member =>
    dsimp only [Pool.onEvent]
    rw [if_pos (accepted member (Or.inr rfl))]
    by_cases same : member = container
    · subst same
      have is : viewOf { before with
          inFlight := rest, pool := before.pool.onContainerRemoved member } member =
          View.handle (kinds.isStartable member)
            { viewOf before member with mail := rest.filterMap (mailOf member) } .removed := by
        unfold viewOf
        dsimp only [View.handle]
        rw [subscriptions_onContainerRemoved, Function.update_self,
          decide_eq_false fun there => (mem_onContainerRemoved.mp there).2 rfl]
      rw [is]
      exact .deliver (@mail_here .removed (by simp [mailOf])) nofun
    · refine step_elsewhere _ rfl Iff.rfl rfl rfl (mail_elsewhere (by simp [mailOf, same])) ?_ ?_
      · dsimp only
        rw [subscriptions_onContainerRemoved, Function.update_of_ne (Ne.symm same)]
      · exact mem_onContainerRemoved.trans (and_iff_left (Ne.symm same))
  | serviceUp source value =>
    have subscriptions : (before.pool.onEvent kinds poolClass before.serviceUp
        (.serviceUp source value)).subscriptions = before.pool.subscriptions := by
      rcases value with _ | _ | _
      · rfl
      · exact subscriptions_onContainerDown
      · exact subscriptions_onContainerUp
    by_cases same : source = container
    · subst same
      have is : viewOf { before with
          inFlight := rest
          pool := before.pool.onEvent kinds poolClass before.serviceUp (.serviceUp source value)
          } source =
          View.handle (kinds.isStartable source)
            { viewOf before source with mail := rest.filterMap (mailOf source) }
            (.serviceUp value) := by
        unfold viewOf
        dsimp only [View.handle]
        rw [subscriptions]
        rcases value with _ | _ | _
        · rfl
        · simp [Pool.onEvent, mem_onContainerDown]
        · simp [Pool.onEvent, mem_onContainerUp]
      rw [is]
      refine .deliver (@mail_here (.serviceUp value) (by simp [mailOf])) ?_
      rintro _ ⟨⟩
      exact mayApply_view (may source value rfl)
    · refine step_elsewhere _ rfl Iff.rfl rfl rfl (mail_elsewhere (by simp [mailOf, same])) ?_ ?_
      · exact congrFun subscriptions container
      · rcases value with _ | _ | _
        · exact Iff.rfl
        · exact mem_onContainerDown.trans (and_iff_left (Ne.symm same))
        · exact mem_onContainerUp.trans (or_iff_left (Ne.symm same))

theorem view_process {existing : Entity} {rest : List Entity}
    (processing : before.setContents = .processing (existing :: rest))
    (there : existing ∈ before.members ∨ .memberRemoved existing ∈ before.inFlight) :
    ViewStep (kinds.isStartable container) (viewOf before container) (viewOf { before with
      pool := before.pool.onContainerAdded kinds before.serviceUp existing
      setContents := .processing rest } container) := by
  by_cases same : existing = container
  · subst same
    have is : viewOf { before with
        pool := before.pool.onContainerAdded kinds before.serviceUp existing
        setContents := .processing rest } existing =
        { (viewOf before existing).add (kinds.isStartable existing) with
          phase := (SetContents.processing rest).phase existing } :=
      viewOf_added existing (.processing rest) before.inFlight
    rw [is]
    refine .process _ ?_ ?_ ?_
    · simp [viewOf, processing, SetContents.phase]
    · dsimp only [SetContents.phase]
      split
      · exact Or.inl rfl
      · exact Or.inr rfl
    · exact there.imp decide_eq_true removed_mem.mpr
  · refine step_elsewhere _ ?_ Iff.rfl rfl rfl rfl ?_ ?_
    · simp [processing, SetContents.phase, Ne.symm same]
    · dsimp only
      rw [subscriptions_onContainerAdded, Function.update_of_ne (Ne.symm same)]
    · exact (mem_onContainerAdded ..).trans (by simp [Ne.symm same])

/-- The members that there are, and have been, can be cast. -/
structure Accepted (kinds : ContainerKinds Entity) (poolClass : PoolClass)
    (state : State Entity) : Prop where
  members : ∀ member ∈ state.members, poolClass.accepts kinds member = true
  events : ∀ member, .memberAdded member ∈ state.inFlight ∨ .memberRemoved member ∈ state.inFlight →
    poolClass.accepts kinds member = true
  rest : ∀ rest, state.setContents = .processing rest → ∀ member ∈ rest,
    poolClass.accepts kinds member = true
  cast : state.setContents ≠ .classCast

theorem view_setContents (accepted : Accepted kinds poolClass before)
    (allowed : orderly kinds poolClass before .setContents = true)
    (moved : setContentsStep kinds poolClass before = some after) :
    (∀ container, ViewStep (kinds.isStartable container) (viewOf before container)
      (viewOf after container)) ∧ Accepted kinds poolClass after := by
  unfold setContentsStep at moved
  cases pc : before.setContents with
  | beginning =>
    simp only [pc, Option.some.injEq] at moved
    subst moved
    exact ⟨fun container => .subscribeToAdded (by simp [viewOf, pc, SetContents.phase]),
      accepted.members, accepted.events, nofun, nofun⟩
  | subscribedToAdded =>
    simp only [pc, Option.some.injEq] at moved
    subst moved
    exact ⟨fun container => .subscribeToRemoved (by simp [viewOf, pc, SetContents.phase]),
      accepted.members, accepted.events, nofun, nofun⟩
  | subscribedToRemoved =>
    simp only [pc, Option.some.injEq] at moved
    subst moved
    refine ⟨fun container => ?_, accepted.members, accepted.events, ?_, nofun⟩
    · have is : viewOf { before with setContents := .processing before.members.elements } container =
          { viewOf before container with
            phase := if (viewOf before container).member then .ahead else .behind } := by
        simp only [viewOf, SetContents.phase, decide_eq_true_eq]
        rfl
      rw [is]
      exact .getMembers (by simp [viewOf, pc, SetContents.phase])
    · rintro rest ⟨⟩ member there
      exact accepted.members member there
  | processing rest =>
    cases rest with
    | nil =>
      simp only [pc, Option.some.injEq] at moved
      subst moved
      refine ⟨fun container => ?_, accepted.members, accepted.events, nofun, nofun⟩
      exact step_elsewhere _ (by simp [pc, SetContents.phase]) Iff.rfl rfl rfl rfl rfl Iff.rfl
    | cons existing rest =>
      have fits := accepted.rest _ pc existing List.mem_cons_self
      simp only [pc, if_pos fits, Option.some.injEq] at moved
      subst moved
      refine ⟨fun container => view_process pc ?_, accepted.members, accepted.events, ?_, nofun⟩
      · simpa [orderly, pc] using allowed
      · rintro _ ⟨⟩ member there
        exact accepted.rest _ pc member (List.mem_cons_of_mem _ there)
  | finished => simp [pc] at moved
  | classCast => simp [pc] at moved

/-- A step of the run is a step of each view, in order. -/
theorem view_step (accepted : Accepted kinds poolClass before) {action : Action Entity}
    (allowed : orderly kinds poolClass before action = true)
    (moved : step kinds poolClass before action = some after) :
    (∀ container, ViewStep (kinds.isStartable container) (viewOf before container)
      (viewOf after container)) ∧ Accepted kinds poolClass after := by
  cases action with
  | join member =>
    simp only [step] at moved
    split at moved
    · cases moved
    next out =>
    obtain rfl := Option.some.inj moved
    refine ⟨fun container => view_join out _, ?_, ?_, accepted.rest, accepted.cast⟩
    · intro other there
      rcases (LinkedSet.mem_add ..).mp there with before | rfl
      · exact accepted.members other before
      · exact allowed
    · intro other there
      dsimp only at there
      split at there
      · simp only [List.mem_append, List.mem_singleton, PoolEvent.memberAdded.injEq,
          reduceCtorEq, or_false] at there
        rcases there with (earlier | rfl) | earlier
        · exact accepted.events other (Or.inl earlier)
        · exact allowed
        · exact accepted.events other (Or.inr earlier)
      · exact accepted.events other there
  | leave member =>
    simp only [step] at moved
    split at moved
    next inside =>
      obtain rfl := Option.some.inj moved
      refine ⟨fun container => view_leave inside ?_ _, ?_, ?_, accepted.rest, accepted.cast⟩
      · exact of_decide_eq_true allowed
      · exact fun other there => accepted.members other ((LinkedSet.mem_remove ..).mp there).1
      · intro other there
        dsimp only at there
        split at there
        · simp only [List.mem_append, List.mem_singleton, PoolEvent.memberRemoved.injEq,
            reduceCtorEq, or_false] at there
          rcases there with earlier | earlier | rfl
          · exact accepted.events other (Or.inl earlier)
          · exact accepted.events other (Or.inr earlier)
          · exact accepted.members other inside
        · exact accepted.events other there
    · cases moved
  | put entity value =>
    cases publishing : before.publishing entity with
    | some other => simp [step, publishing] at moved
    | none =>
      simp only [step, publishing, Option.some.injEq] at moved
      subst moved
      exact ⟨fun container => view_put entity value _, accepted.members, accepted.events,
        accepted.rest, accepted.cast⟩
  | publish entity =>
    obtain ⟨value, publishing, rfl⟩ := Option.map_eq_some_iff.mp moved
    refine ⟨fun container => view_publish publishing _, accepted.members, ?_, accepted.rest,
      accepted.cast⟩
    intro other there
    simp only [List.mem_append, List.mem_replicate, reduceCtorEq, and_false, or_false] at there
    exact accepted.events other there
  | deliver =>
    cases inFlight : before.inFlight with
    | nil => simp [step, inFlight] at moved
    | cons event rest =>
      simp only [step, inFlight, Option.some.injEq] at moved
      subst moved
      refine ⟨fun container => view_deliver inFlight ?_ ?_, accepted.members, ?_, accepted.rest,
        accepted.cast⟩
      · intro member is
        refine accepted.events member ?_
        rw [inFlight]
        rcases is with rfl | rfl
        · exact Or.inl List.mem_cons_self
        · exact Or.inr List.mem_cons_self
      · rintro source value rfl
        simpa [orderly, inFlight] using allowed
      · intro member there
        refine accepted.events member ?_
        rw [inFlight]
        exact there.imp (List.mem_cons_of_mem _) (List.mem_cons_of_mem _)
  | setContents => exact view_setContents accepted allowed moved

end Views

section Runs
variable {kinds : ContainerKinds Entity} {poolClass : PoolClass} {serviceUp : Entity → Option Bool}
  {state : State Entity}

theorem sound_initial (container : Entity) : Sound (kinds.isStartable container)
    (viewOf (tracking kinds poolClass serviceUp).initial container) :=
  ⟨fun _ => ⟨rfl, rfl, rfl⟩, nofun, nofun, nofun, nofun, nofun, Or.inr (Or.inl rfl)⟩

theorem sound_of_reached
    (run : Reached (tracking kinds poolClass serviceUp) (orderly kinds poolClass) state) :
    (∀ container, Sound (kinds.isStartable container) (viewOf state container)) ∧
      Accepted kinds poolClass state := by
  refine reached_invariant (fun state =>
    (∀ container, Sound (kinds.isStartable container) (viewOf state container)) ∧
      Accepted kinds poolClass state) ⟨sound_initial, ?_⟩ ?_ run
  · exact ⟨fun _ none => absurd none (LinkedSet.not_mem_empty _), by
      rintro _ (none | none) <;> exact absurd none List.not_mem_nil, nofun, nofun⟩
  · rintro before action after - ⟨sound, accepted⟩ allowed moved
    obtain ⟨steps, accepted⟩ := view_step accepted allowed moved
    exact ⟨fun container => (sound container).step (steps container), accepted⟩

theorem followed_of_reached {guard : State Entity → Action Entity → Bool}
    (run : Reached (tracking kinds poolClass serviceUp) guard state) : Followed state.pool := by
  refine reached_invariant (fun state => Followed state.pool) (fun container => rfl) ?_ run
  intro before action after _ followed _ moved
  cases action with
  | join member =>
    simp only [tracking, step] at moved
    split at moved
    · cases moved
    · obtain rfl := Option.some.inj moved
      exact followed
  | leave member =>
    simp only [tracking, step] at moved
    split at moved
    · obtain rfl := Option.some.inj moved
      exact followed
    · cases moved
  | put entity value =>
    cases publishing : before.publishing entity with
    | some other => simp [tracking, step, publishing] at moved
    | none =>
      simp only [tracking, step, publishing, Option.some.injEq] at moved
      subst moved
      exact followed
  | publish entity =>
    obtain ⟨value, publishing, rfl⟩ := Option.map_eq_some_iff.mp moved
    exact followed
  | deliver =>
    cases inFlight : before.inFlight with
    | nil => simp [tracking, step, inFlight] at moved
    | cons event rest =>
      simp only [tracking, step, inFlight, Option.some.injEq] at moved
      subst moved
      exact followed.onEvent poolClass before.serviceUp event
  | setContents =>
    simp only [tracking, step, setContentsStep] at moved
    split at moved
    · obtain rfl := Option.some.inj moved
      exact followed
    · obtain rfl := Option.some.inj moved
      exact followed
    · obtain rfl := Option.some.inj moved
      exact followed
    · obtain rfl := Option.some.inj moved
      exact followed
    · obtain rfl := Option.some.inj moved
      split
      · exact followed.added before.serviceUp _
      · exact followed
    · cases moved
    · cases moved

/-- In orderly runs the containers are right whenever nothing is in progress. -/
theorem tracks_containers
    (run : Reached (tracking kinds poolClass serviceUp) (orderly kinds poolClass) state)
    (quiescent : Quiescent state) : Tracks kinds state := by
  obtain ⟨sound, accepted⟩ := sound_of_reached run
  have followed := followed_of_reached run
  intro container
  refine ⟨?_, followed container⟩
  have finished : state.setContents = .finished := quiescent.ended.resolve_right accepted.cast
  have mail : (viewOf state container).mail = [] := by
    simp [viewOf, quiescent.delivered]
  have phase : (viewOf state container).phase = .behind := by
    simp [viewOf, finished, SetContents.phase]
  have right : (viewOf state container).contained =
      ((viewOf state container).member &&
        (viewOf state container).wanted (kinds.isStartable container)) := by
    rcases (sound container).right with (decides | ⟨publishes, -⟩) | right | ⟨awaited, -⟩
    · rw [mail] at decides
      cases decides
    · rw [show (viewOf state container).publishing = none from quiescent.updated container]
        at publishes
      cases publishes
    · exact right
    · unfold View.Awaited at awaited
      rw [mail, phase] at awaited
      simp at awaited
  have contained_iff : (viewOf state container).contained = true ↔
      container ∈ state.pool.containers := decide_eq_true_iff
  rw [← contained_iff, right, Bool.and_eq_true]
  exact and_congr_left' decide_eq_true_iff

end Runs

section Schedules

def startables : ContainerKinds Bool := ⟨fun _ => true, fun _ => true⟩

/-- `setContents` without members. -/
def contents : List (Action Bool) := List.replicate 4 .setContents

/-- The member leaves and comes up, and the pool hears of both in this order. -/
theorem service_event_after_removal :
    ¬ ∀ (poolClass : PoolClass) (state : State Bool),
      Reached (tracking startables poolClass fun _ => none) anyStep state →
        Quiescent state → Tracks startables state := by
  intro claimed
  have shown := replay_shows (tracking startables .balanceableWorkerPool fun _ => none) anyStep
    (contents ++ [.join true, .deliver, .leave true, .put true (some true), .publish true,
      .deliver, .deliver])
    (fun state => decide (state.setContents = .finished ∧ state.inFlight = [] ∧
      state.publishing true = none ∧ state.publishing false = none ∧
      true ∈ state.pool.containers ∧ true ∉ state.members))
    (by decide +kernel)
  obtain ⟨state, run, shown⟩ := shown
  obtain ⟨finished, delivered, first, second, there, left⟩ := of_decide_eq_true shown
  have quiescent : Quiescent state := ⟨Or.inl finished, fun entity => by
    cases entity
    · exact second
    · exact first, delivered⟩
  exact left (((claimed .balanceableWorkerPool state run quiescent) true).1.mp there).1

/-- A member joins during `setContents`, comes up and leaves; another stays. -/
theorem members_tracked : ∃ state : State Bool,
    state.pool.emitted = [.containerAdded false, .containerAdded true, .containerRemoved true] ∧
      Tracks startables state := by
  have shown := replay_shows
    (tracking startables .followTheSunPool fun entity => some !entity)
    (orderly startables .followTheSunPool)
    ([.join false, .setContents, .join true, .setContents, .setContents, .setContents,
      .setContents, .setContents, .put true (some true), .publish true, .deliver, .deliver,
      .leave true, .deliver])
    (fun state => decide (state.setContents = .finished ∧ state.inFlight = [] ∧
      state.publishing true = none ∧ state.publishing false = none ∧ state.pool.emitted =
        [.containerAdded false, .containerAdded true, .containerRemoved true]))
    (by decide +kernel)
  obtain ⟨state, run, shown⟩ := shown
  obtain ⟨finished, delivered, first, second, emitted⟩ := of_decide_eq_true shown
  have quiescent : Quiescent state := ⟨Or.inl finished, fun entity => by
    cases entity
    · exact second
    · exact first, delivered⟩
  exact ⟨state, emitted, tracks_containers run quiescent⟩

end Schedules

end Brooklyn.WorkerPool
