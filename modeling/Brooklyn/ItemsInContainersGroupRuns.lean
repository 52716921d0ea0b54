import Brooklyn.DynamicGroupStop
import Brooklyn.ItemsInContainersGroup

/-!
The runs of a group of items in containers. For each item the membership is right, or something
is still to come that has the item looked at again, as long as no `CONTAINER` event that is the
last for now puts an item into the group that is not managed, or is older than the container
that a managed item has.
-/

namespace Brooklyn

namespace DynamicGroup

/-- A running group with its filter that hears once of what is added and removed. -/
structure Active {Ref Sensor Value : Type} (group : DynamicGroup Ref Sensor Value Unit) :
    Prop where
  running : group.running = true
  entityFilter : group.entityFilter = some ()
  listener : group.entitySetListeners = [0]

variable {Ref Sensor Value : Type} [DecidableEq Ref] {self : Ref}
  {group : DynamicGroup Ref Sensor Value Unit}

theorem Active.addMember (active : Active group) (member : Ref) :
    Active (group.addMember self member) := ⟨active.running, active.entityFilter, active.listener⟩

theorem Active.removeMember (active : Active group) (member : Ref) :
    Active (group.removeMember self member) :=
  ⟨active.running, active.entityFilter, active.listener⟩

variable (self) in
theorem mem_foldl_addMember (current : List Ref) (accepted : List Ref)
    (group : DynamicGroup Ref Sensor Value Unit) (active : Active group) (item : Ref) :
    let added := accepted.foldl (fun group it =>
      if current.contains it then group else group.addMember self it) group
    Active added ∧ (item ∈ added.members self ↔
      item ∈ group.members self ∨ (item ∈ accepted ∧ item ∉ current)) := by
  induction accepted generalizing group with
  | nil => simpa using active
  | cons first rest ih =>
    rw [List.foldl_cons]
    by_cases there : first ∈ current
    · have skipped := ih group active
      rw [if_pos (List.contains_iff_mem.mpr there)]
      refine ⟨skipped.1, skipped.2.trans (or_congr_right ?_)⟩
      rw [List.mem_cons]
      constructor
      · rintro ⟨later, out⟩
        exact ⟨Or.inr later, out⟩
      · rintro ⟨rfl | later, out⟩
        · exact absurd there out
        · exact ⟨later, out⟩
    · have added := ih (group.addMember self first) (active.addMember first)
      rw [if_neg (by simpa using there)]
      refine ⟨added.1, added.2.trans ?_⟩
      rw [members_addMember, LinkedSet.mem_add, List.mem_cons]
      constructor
      · rintro ((before | rfl) | ⟨later, out⟩)
        · exact Or.inl before
        · exact Or.inr ⟨Or.inl rfl, there⟩
        · exact Or.inr ⟨Or.inr later, out⟩
      · rintro (before | ⟨rfl | later, out⟩)
        · exact Or.inl (Or.inl before)
        · exact Or.inl (Or.inr rfl)
        · exact Or.inr ⟨later, out⟩

variable (self) in
theorem mem_foldl_removeMember (toRemove : List Ref) (group : DynamicGroup Ref Sensor Value Unit)
    (active : Active group) (item : Ref) :
    let left := toRemove.foldl (fun group it => group.removeMember self it) group
    Active left ∧ (item ∈ left.members self ↔ item ∈ group.members self ∧ item ∉ toRemove) := by
  induction toRemove generalizing group with
  | nil => simpa using active
  | cons first rest ih =>
    rw [List.foldl_cons]
    have left := ih (group.removeMember self first) (active.removeMember first)
    refine ⟨left.1, left.2.trans ?_⟩
    rw [members_removeMember, LinkedSet.mem_remove, List.mem_cons, not_or, and_assoc]

variable (self) in
/-- A scan makes the members exactly the accepted ones of what it finds. -/
theorem Active.mem_rescanEntities (active : Active group) (entities : List Ref)
    (apply : Unit → Ref → Bool) (item : Ref) :
    Active (group.rescanEntities self ⟨true, true, entities, apply⟩) ∧
      (item ∈ (group.rescanEntities self ⟨true, true, entities, apply⟩).members self ↔
        item ∈ entities ∧ apply () item = true) := by
  have accepts : ∀ it, group.acceptsEntity apply it = apply () it := by
    intro it
    simp [acceptsEntity, active.entityFilter]
  unfold rescanEntities
  simp only [active.running, active.entityFilter, Bool.not_true, Bool.or_self, Bool.false_eq_true,
    if_false, Option.isNone_some, accepts]
  have added := mem_foldl_addMember self (group.members self).elements
    (entities.filter fun it => apply () it) group active item
  have left := mem_foldl_removeMember self ((group.members self).elements.filter fun it =>
    !(entities.filter fun it => apply () it).contains it) _ added.1 item
  refine ⟨left.1, left.2.trans ?_⟩
  rw [added.2]
  have inside : item ∈ group.members self ↔ item ∈ (group.members self).elements := Iff.rfl
  simp only [inside, List.mem_filter, Bool.not_eq_true', List.contains_eq_mem,
    decide_eq_false_iff_not]
  tauto

variable (self) in
theorem Active.itemAdded [DecidableEq Sensor] (active : Active group) (item other : Ref)
    (apply : Unit → Ref → Bool) :
    Active (group.notify self (.itemAdded item apply)) ∧
      (other ∈ (group.notify self (.itemAdded item apply)).members self ↔
        other ∈ group.members self ∨ (other = item ∧ apply () item = true)) := by
  have accepts : group.acceptsEntity apply item = apply () item := by
    simp [acceptsEntity, active.entityFilter]
  simp only [notify, active.listener, List.foldl_cons, List.foldl_nil, onEntityAdded, accepts]
  cases accepted : apply () item with
  | true =>
    rw [if_pos rfl, members_addMember, LinkedSet.mem_add]
    exact ⟨active.addMember item, by simp⟩
  | false => exact ⟨active, by simp⟩

variable (self) in
theorem Active.itemRemoved [DecidableEq Sensor] (active : Active group) (item other : Ref) :
    Active (group.notify self (.itemRemoved item)) ∧
      (other ∈ (group.notify self (.itemRemoved item)).members self ↔
        other ∈ group.members self ∧ other ≠ item) := by
  simp only [notify, active.listener, List.foldl_cons, List.foldl_nil, onEntityRemoved]
  rw [members_removeMember, LinkedSet.mem_remove]
  exact ⟨active.removeMember item, Iff.rfl⟩

end DynamicGroup

namespace ItemsInContainersGroup
open Transition

variable {Entity : Type} [DecidableEq Entity] {kinds : ItemKinds Entity} {self : Entity}
  {state : State Entity}

section Pending

theorem due_iff {rest : List (Event Entity)} {item : Entity} : due state rest item = true ↔
    rest.any (concerns item) = true ∨
      (state.publishing item ≠ [] ∧ state.stage item ∈ [Stage.starting, .managed, .started]) ∨
      (state.queued item ≠ [] ∧ state.stage item ∈ [Stage.starting, .managed]) ∨
      state.setContainers ≠ .finished := by
  simp [due, or_assoc]

theorem due_unfinished {rest : List (Event Entity)} (item : Entity)
    (unfinished : state.setContainers ≠ .finished) : due state rest item = true :=
  due_iff.mpr (Or.inr (Or.inr (Or.inr unfinished)))

theorem due_of_mem {rest : List (Event Entity)} {item : Entity} {event : Event Entity}
    (there : event ∈ rest) (concerned : concerns item event = true) :
    due state rest item = true :=
  due_iff.mpr (Or.inl (List.any_eq_true.mpr ⟨event, there, concerned⟩))

end Pending

/-- The membership of the item is right, or the item will be looked at again. -/
def Right (kinds : ItemKinds Entity) (self : Entity) (state : State Entity) (item : Entity) :
    Prop :=
  due state state.inFlight item = true ∨
    (item ∈ state.group.members self ↔
      item ∈ state.entities ∧ acceptsEntity kinds state item = true)

/-- What is not about the item keeps it. -/
theorem Right.elsewhere {before after : State Entity} {item : Entity}
    (right : Right kinds self before item)
    (events : before.inFlight.any (concerns item) = true →
      after.inFlight.any (concerns item) = true)
    (publishing : after.publishing item = before.publishing item)
    (queued : after.queued item = before.queued item)
    (stage : after.stage item = before.stage item)
    (container : after.container item = before.container item)
    (containers : after.containers = before.containers)
    (setContainers : after.setContainers = before.setContainers)
    (entities : item ∈ after.entities ↔ item ∈ before.entities)
    (members : item ∈ after.group.members self ↔ item ∈ before.group.members self) :
    Right kinds self after item := by
  refine right.imp (fun before_due => ?_) fun agrees => ?_
  · rw [due_iff] at before_due ⊢
    rw [publishing, queued, stage, setContainers]
    exact before_due.imp_left events
  · rw [members, entities, agrees, acceptsEntity, acceptsEntity, acceptsItem, acceptsItem,
      container, containers, setContainers]

/-- The entities are those whose management has begun and not ended, the group hears of them,
and each item is right. -/
structure Sound (kinds : ItemKinds Entity) (itself : Entity) (state : State Entity) : Prop where
  active : state.group.Active
  managed : ∀ entity, entity ∈ state.entities ↔
    state.stage entity = .managed ∨ state.stage entity = .started
  movable : ∀ item ∈ state.group.members itself, kinds.isMovable item = true
  right : ∀ item, Right kinds itself state item

section Steps

theorem Sound.addContainer (sound : Sound kinds self state) (member : Entity) :
    Sound kinds self { state with
      containers := state.containers.add member
      inFlight :=
        if hearsAdded state.setContainers then state.inFlight ++ [.memberAdded member]
        else state.inFlight } := by
  refine ⟨sound.active, sound.managed, sound.movable, fun item => Or.inl ?_⟩
  by_cases finished : state.setContainers = .finished
  · refine due_of_mem ?_ (rfl : concerns item (.memberAdded member) = true)
    simp [finished, hearsAdded]
  · exact due_unfinished item finished

theorem Sound.removeContainer (sound : Sound kinds self state) (member : Entity) :
    Sound kinds self { state with
      containers := state.containers.remove member
      inFlight :=
        if hearsRemoved state.setContainers then state.inFlight ++ [.memberRemoved member]
        else state.inFlight } := by
  refine ⟨sound.active, sound.managed, sound.movable, fun item => Or.inl ?_⟩
  by_cases finished : state.setContainers = .finished
  · refine due_of_mem ?_ (rfl : concerns item (.memberRemoved member) = true)
    simp [finished, hearsRemoved]
  · exact due_unfinished item finished

/-- An update of an item that is not managed changes nothing, one of an item that is will be
published. -/
theorem Sound.put (sound : Sound kinds self state) (item : Entity) (value : Option Entity) :
    Sound kinds self { state with
      container := Function.update state.container item value
      publishing := Function.update state.publishing item (state.publishing item ++ [value]) } := by
  refine ⟨sound.active, sound.managed, sound.movable, fun other => ?_⟩
  by_cases same : other = item
  · subst same
    by_cases handled : state.stage other ∈ [Stage.starting, .managed, .started]
    · exact Or.inl (due_iff.mpr (Or.inr (Or.inl ⟨by simp, handled⟩)))
    · have unmanaged : other ∉ state.entities := by
        rw [sound.managed other]
        rintro (is | is) <;> simp [is] at handled
      refine (sound.right other).imp (fun before => ?_) fun right => ?_
      · rcases due_iff.mp before with events | ⟨-, is⟩ | queue | unfinished
        · exact due_iff.mpr (Or.inl events)
        · exact absurd is handled
        · exact due_iff.mpr (Or.inr (Or.inr (Or.inl queue)))
        · exact due_unfinished other unfinished
      · rw [right]
        exact iff_of_false (fun both => unmanaged both.1) fun both => unmanaged both.1
  · exact (sound.right other).elsewhere id (Function.update_of_ne same ..) rfl rfl
      (Function.update_of_ne same ..) rfl rfl Iff.rfl Iff.rfl

/-- What is published reaches the group, or `setContainers` has still to scan. -/
theorem heard_or_unfinished {item : Entity} {values : List (Option Entity)}
    (some_value : values ≠ []) :
    (state.inFlight ++ heard state item values).any (concerns item) = true ∨
      state.setContainers ≠ .finished := by
  by_cases finished : state.setContainers = .finished
  · obtain ⟨value, rest, rfl⟩ := List.exists_cons_of_ne_nil some_value
    refine Or.inl (List.any_eq_true.mpr ⟨.container item value, ?_, decide_eq_true rfl⟩)
    simp [heard, finished, hearsContainer]
  · exact Or.inr finished

theorem any_append {item : Entity} {earlier : List (Event Entity)} (later : List (Event Entity))
    (any : earlier.any (concerns item) = true) : (earlier ++ later).any (concerns item) = true := by
  rw [List.any_append, any, Bool.true_or]

theorem Sound.publishQueued (sound : Sound kinds self state) {item : Entity} {which : Nat}
    {value : Option Entity} (stage : state.stage item = .nonDeployment) :
    Sound kinds self { state with
      publishing := Function.update state.publishing item ((state.publishing item).eraseIdx which)
      queued := Function.update state.queued item (state.queued item ++ [value]) } := by
  refine ⟨sound.active, sound.managed, sound.movable, fun other => ?_⟩
  by_cases same : other = item
  · subst same
    refine (sound.right other).imp_left fun before => ?_
    rcases due_iff.mp before with events | ⟨-, is⟩ | ⟨-, is⟩ | unfinished
    · exact due_iff.mpr (Or.inl events)
    · simp [stage] at is
    · simp [stage] at is
    · exact due_unfinished other unfinished
  · exact (sound.right other).elsewhere id (Function.update_of_ne same ..)
      (Function.update_of_ne same ..) rfl rfl rfl rfl Iff.rfl Iff.rfl

theorem Sound.publish (sound : Sound kinds self state) {item : Entity} {which : Nat}
    {value : Option Entity} :
    Sound kinds self { state with
      publishing := Function.update state.publishing item ((state.publishing item).eraseIdx which)
      inFlight := state.inFlight ++ heard state item [value] } := by
  refine ⟨sound.active, sound.managed, sound.movable, fun other => ?_⟩
  by_cases same : other = item
  · subst same
    refine Or.inl (due_iff.mpr ?_)
    rcases heard_or_unfinished (List.cons_ne_nil value []) with
      events | unfinished
    · exact Or.inl events
    · exact Or.inr (Or.inr (Or.inr unfinished))
  · exact (sound.right other).elsewhere (any_append _) (Function.update_of_ne same ..) rfl rfl rfl
      rfl rfl Iff.rfl Iff.rfl

/-- The entities are followed where the stage of one of them changes. -/
theorem Sound.managed_update (sound : Sound kinds self state) {entity : Entity} {stage : Stage}
    {entities : LinkedSet Entity}
    (here : entity ∈ entities ↔ stage = .managed ∨ stage = .started)
    (others : ∀ other, other ≠ entity → (other ∈ entities ↔ other ∈ state.entities))
    (other : Entity) : other ∈ entities ↔
      Function.update state.stage entity stage other = .managed ∨
        Function.update state.stage entity stage other = .started := by
  by_cases same : other = entity
  · subst same
    rw [Function.update_self]
    exact here
  · rw [Function.update_of_ne same, others other same]
    exact sound.managed other

theorem Sound.onManagementStarting (sound : Sound kinds self state) {entity : Entity}
    (stage : state.stage entity = .nonDeployment) :
    Sound kinds self { state with stage := Function.update state.stage entity .starting } := by
  refine ⟨sound.active, sound.managed_update ?_ fun _ _ => Iff.rfl, sound.movable,
    fun other => ?_⟩
  · rw [sound.managed entity, stage]
    simp
  · by_cases same : other = entity
    · subst same
      refine (sound.right other).imp_left fun before => ?_
      rcases due_iff.mp before with events | ⟨-, is⟩ | ⟨-, is⟩ | unfinished
      · exact due_iff.mpr (Or.inl events)
      · simp [stage] at is
      · simp [stage] at is
      · exact due_unfinished other unfinished
    · exact (sound.right other).elsewhere id rfl rfl (Function.update_of_ne same ..) rfl rfl rfl
        Iff.rfl Iff.rfl

theorem Sound.manage (sound : Sound kinds self state) {entity : Entity}
    (stage : state.stage entity = .starting) :
    Sound kinds self { state with
      stage := Function.update state.stage entity .managed
      entities := state.entities.add entity
      group :=
        state.group.notify self (.itemAdded entity fun _ => acceptsEntity kinds state) } := by
  have notified := fun other => sound.active.itemAdded self entity other
    fun _ => acceptsEntity kinds state
  refine ⟨(notified entity).1, sound.managed_update (by simp) fun other same => ?_,
    fun item member => ?_, fun other => ?_⟩
  · rw [LinkedSet.mem_add, or_iff_left same]
  · rcases (notified item).2.mp member with before | ⟨rfl, accepted⟩
    · exact sound.movable item before
    · exact (Bool.and_eq_true _ _ ▸ accepted).1
  · by_cases same : other = entity
    · subst same
      have unmanaged : other ∉ state.entities := by
        rw [sound.managed other, stage]
        simp
      rcases sound.right other with before | right
      · left
        rcases due_iff.mp before with events | ⟨publishing, -⟩ | ⟨queued, -⟩ | unfinished
        · exact due_iff.mpr (Or.inl events)
        · exact due_iff.mpr (Or.inr (Or.inl ⟨publishing, by simp⟩))
        · exact due_iff.mpr (Or.inr (Or.inr (Or.inl ⟨queued, by simp⟩)))
        · exact due_unfinished other unfinished
      · right
        have outside : other ∉ state.group.members self := fun member =>
          unmanaged (right.mp member).1
        rw [(notified other).2, or_iff_right outside]
        refine and_congr_left' (iff_of_true rfl ?_)
        exact (LinkedSet.mem_add ..).mpr (Or.inr rfl)
    · refine (sound.right other).elsewhere id rfl rfl (Function.update_of_ne same ..) rfl rfl rfl
        ?_ ?_
      · rw [LinkedSet.mem_add, or_iff_left same]
      · rw [(notified other).2, or_iff_left fun both => same both.1]

theorem Sound.onManagementStarted (sound : Sound kinds self state) {entity : Entity}
    (stage : state.stage entity = .managed) :
    Sound kinds self { state with
      stage := Function.update state.stage entity .started
      queued := Function.update state.queued entity []
      inFlight := state.inFlight ++ heard state entity (state.queued entity) } := by
  refine ⟨sound.active, sound.managed_update ?_ fun _ _ => Iff.rfl, sound.movable,
    fun other => ?_⟩
  · rw [sound.managed entity, stage]
    simp
  · by_cases same : other = entity
    · subst same
      refine (sound.right other).imp_left fun before => ?_
      rcases due_iff.mp before with events | ⟨publishing, -⟩ | ⟨queued, -⟩ | unfinished
      · exact due_iff.mpr (Or.inl (any_append _ events))
      · exact due_iff.mpr (Or.inr (Or.inl ⟨publishing, by simp⟩))
      · rcases heard_or_unfinished queued with events | unfinished
        · exact due_iff.mpr (Or.inl events)
        · exact due_unfinished other unfinished
      · exact due_unfinished other unfinished
    · exact (sound.right other).elsewhere (any_append _) rfl (Function.update_of_ne same ..)
        (Function.update_of_ne same ..) rfl rfl rfl Iff.rfl Iff.rfl

theorem Sound.unmanage (sound : Sound kinds self state) (entity : Entity) :
    Sound kinds self { state with
      stage := Function.update state.stage entity .stopping
      entities := state.entities.remove entity
      group := state.group.notify self (.itemRemoved entity) } := by
  have notified := fun other => sound.active.itemRemoved self entity other
  refine ⟨(notified entity).1, sound.managed_update (by simp) fun other same => ?_,
    fun item member => ?_, fun other => ?_⟩
  · rw [LinkedSet.mem_remove, and_iff_left same]
  · exact sound.movable item ((notified item).2.mp member).1
  · by_cases same : other = entity
    · subst same
      refine Or.inr (iff_of_false (fun member => ?_) fun both => ?_)
      · exact ((notified other).2.mp member).2 rfl
      · exact ((LinkedSet.mem_remove ..).mp both.1).2 rfl
    · refine (sound.right other).elsewhere id rfl rfl (Function.update_of_ne same ..) rfl rfl rfl
        ?_ ?_
      · rw [LinkedSet.mem_remove, and_iff_left same]
      · rw [(notified other).2, and_iff_left same]

theorem Sound.onManagementStopped (sound : Sound kinds self state) {entity : Entity}
    (stage : state.stage entity = .stopping) :
    Sound kinds self
      { state with stage := Function.update state.stage entity .nonDeployment } := by
  refine ⟨sound.active, sound.managed_update ?_ fun _ _ => Iff.rfl, sound.movable,
    fun other => ?_⟩
  · rw [sound.managed entity, stage]
    simp
  · by_cases same : other = entity
    · subst same
      refine (sound.right other).imp_left fun before => ?_
      rcases due_iff.mp before with events | ⟨-, is⟩ | ⟨-, is⟩ | unfinished
      · exact due_iff.mpr (Or.inl events)
      · simp [stage] at is
      · simp [stage] at is
      · exact due_unfinished other unfinished
    · exact (sound.right other).elsewhere id rfl rfl (Function.update_of_ne same ..) rfl rfl rfl
        Iff.rfl Iff.rfl

/-- A scan makes every item right. -/
theorem sound_rescanEntities (active : state.group.Active)
    (managed : ∀ entity, entity ∈ state.entities ↔
      state.stage entity = .managed ∨ state.stage entity = .started) :
    Sound kinds self (rescanEntities kinds self state) := by
  have scanned := active.mem_rescanEntities self state.entities.elements
    fun _ => acceptsEntity kinds state
  refine ⟨(scanned self).1, managed, fun item member => ?_, fun item => Or.inr (scanned item).2⟩
  exact (Bool.and_eq_true _ _ ▸ ((scanned item).2.mp member).2).1

/-- The item that an event is about is as the event says. -/
theorem mem_onItemMoved {item : Entity} {value : Option Entity} (other : Entity) :
    other ∈ (onItemMoved kinds self state item value).group.members self ↔
      if other = item then acceptsItem kinds state item value = true
      else other ∈ state.group.members self := by
  unfold onItemMoved
  by_cases member : item ∈ state.group.members self
  · have has : state.group.hasMember self item = true := decide_eq_true member
    rw [if_pos has]
    cases accepted : acceptsItem kinds state item value with
    | true =>
      by_cases same : other = item
      · subst same
        simpa using member
      · simp [same]
    | false =>
      simp only [Bool.false_eq_true, if_false]
      rw [DynamicGroup.members_removeMember, LinkedSet.mem_remove]
      by_cases same : other = item <;> simp [same]
  · rw [if_neg (by simpa [DynamicGroup.hasMember] using member)]
    cases accepted : acceptsItem kinds state item value with
    | true =>
      rw [if_pos rfl, DynamicGroup.members_addMember, LinkedSet.mem_add]
      by_cases same : other = item <;> simp [same]
    | false =>
      by_cases same : other = item
      · subst same
        simpa using member
      · simp [same]

variable (kinds self state) in
theorem onItemMoved_same (item : Entity) (value : Option Entity) (active : state.group.Active) :
    ∃ group, group.Active ∧
      onItemMoved kinds self state item value = { state with group := group } := by
  unfold onItemMoved
  split_ifs
  · exact ⟨state.group, active, rfl⟩
  · exact ⟨_, active.removeMember item, rfl⟩
  · exact ⟨_, active.addMember item, rfl⟩
  · exact ⟨state.group, active, rfl⟩

theorem any_concerns_tail {item source : Entity} {value : Option Entity}
    {rest : List (Event Entity)} (inFlight : state.inFlight = .container source value :: rest)
    (other : item ≠ source) (any : state.inFlight.any (concerns item) = true) :
    rest.any (concerns item) = true := by
  rw [inFlight, List.any_cons] at any
  simpa [concerns, Ne.symm other] using any

theorem Sound.onItemMoved (sound : Sound kinds self state) {source : Entity}
    {value : Option Entity} {rest : List (Event Entity)}
    (inFlight : state.inFlight = .container source value :: rest)
    (movable : kinds.isMovable source = true)
    (last : due state rest source = true ∨ (acceptsItem kinds state source value = true ↔
      source ∈ state.entities ∧
        acceptsItem kinds state source (state.container source) = true)) :
    Sound kinds self
      (onItemMoved kinds self { state with inFlight := rest } source value) := by
  have members : ∀ other, other ∈ (ItemsInContainersGroup.onItemMoved kinds self
      { state with inFlight := rest } source value).group.members self ↔
        if other = source then acceptsItem kinds state source value = true
        else other ∈ state.group.members self := mem_onItemMoved
  obtain ⟨group, active, moved⟩ :=
    onItemMoved_same kinds self { state with inFlight := rest } source value sound.active
  rw [moved] at members ⊢
  refine ⟨active, sound.managed, fun item member => ?_, fun item => ?_⟩
  · have before := (members item).mp member
    split at before
    · next same => exact same ▸ movable
    · exact sound.movable item before
  · by_cases same : item = source
    · subst same
      refine last.imp id fun agrees => ?_
      rw [members item, if_pos rfl, acceptsEntity, movable, Bool.true_and]
      exact agrees
    · refine (sound.right item).elsewhere (any_concerns_tail inFlight same) rfl rfl rfl rfl rfl
        rfl Iff.rfl ?_
      rw [members item, if_neg same]

theorem Sound.deliver (sound : Sound kinds self state) {event : Event Entity}
    {rest : List (Event Entity)} (inFlight : state.inFlight = event :: rest)
    (allowed : orderly kinds state .deliver = true) :
    Sound kinds self (onEvent kinds self { state with inFlight := rest } event) := by
  cases event with
  | memberAdded member => exact sound_rescanEntities sound.active sound.managed
  | memberRemoved member => exact sound_rescanEntities sound.active sound.managed
  | container source value =>
    cases movable : kinds.isMovable source with
    | true =>
      simp only [onEvent, movable, if_true]
      refine sound.onItemMoved inFlight movable ?_
      rw [orderly, inFlight] at allowed
      dsimp only at allowed
      rw [movable, Bool.not_true, Bool.false_or, Bool.or_eq_true, beq_iff_eq] at allowed
      refine allowed.imp_right fun agrees => ?_
      rw [agrees, Bool.and_eq_true, decide_eq_true_iff]
    | false =>
      simp only [onEvent, movable, Bool.false_eq_true, if_false]
      refine ⟨sound.active, sound.managed, sound.movable, fun item => ?_⟩
      by_cases same : item = source
      · subst same
        refine Or.inr (iff_of_false (fun member => ?_) fun both => ?_)
        · rw [sound.movable item member] at movable
          cases movable
        · rw [acceptsEntity, movable, Bool.false_and] at both
          exact absurd both.2 Bool.false_ne_true
      · exact (sound.right item).elsewhere (any_concerns_tail inFlight same) rfl rfl rfl rfl rfl
          rfl Iff.rfl Iff.rfl

theorem Sound.setContainers (sound : Sound kinds self state) {after : State Entity}
    (moved : setContainersStep kinds self state = some after) : Sound kinds self after := by
  unfold setContainersStep at moved
  have unfinished : ∀ next, next ≠ SetContainers.finished →
      Sound kinds self { state with setContainers := next } := fun next later =>
    ⟨sound.active, sound.managed, sound.movable, fun item => Or.inl (due_unfinished item later)⟩
  split at moved
  · obtain rfl := Option.some.inj moved
    exact unfinished _ nofun
  · obtain rfl := Option.some.inj moved
    exact unfinished _ nofun
  · obtain rfl := Option.some.inj moved
    exact unfinished _ nofun
  · obtain rfl := Option.some.inj moved
    exact unfinished _ nofun
  · next phase =>
    obtain rfl := Option.some.inj moved
    have scanned : Sound kinds self (ItemsInContainersGroup.rescanEntities kinds self state) :=
      sound_rescanEntities sound.active sound.managed
    refine ⟨scanned.active, sound.managed, scanned.movable, fun item => Or.inr ?_⟩
    have accepts : acceptsEntity kinds state item =
        acceptsEntity kinds { state with setContainers := .finished } item := by
      simp [acceptsEntity, acceptsItem, phase]
    have members := (sound.active.mem_rescanEntities self state.entities.elements
      (fun _ => acceptsEntity kinds state) item).2
    rw [accepts] at members
    exact members
  · cases moved

/-- Every step that is orderly keeps the items right. -/
theorem Sound.step (sound : Sound kinds self state) {action : Action Entity}
    (allowed : orderly kinds state action = true) {after : State Entity}
    (moved : ItemsInContainersGroup.step kinds self state action = some after) :
    Sound kinds self after := by
  cases action with
  | addContainer member =>
    simp only [ItemsInContainersGroup.step] at moved
    split at moved
    · cases moved
    · obtain rfl := Option.some.inj moved
      exact sound.addContainer member
  | removeContainer member =>
    simp only [ItemsInContainersGroup.step] at moved
    split at moved
    · obtain rfl := Option.some.inj moved
      exact sound.removeContainer member
    · cases moved
  | put item value =>
    obtain rfl := Option.some.inj moved
    exact sound.put item value
  | publish item which =>
    obtain ⟨value, -, rfl⟩ := Option.map_eq_some_iff.mp moved
    dsimp only
    split
    · next stage => exact sound.publishQueued stage
    · exact sound.publish
  | onManagementStarting entity =>
    simp only [ItemsInContainersGroup.step] at moved
    split at moved
    · next stage =>
      obtain rfl := Option.some.inj moved
      exact sound.onManagementStarting stage
    · cases moved
  | manage entity =>
    simp only [ItemsInContainersGroup.step] at moved
    split at moved
    · next stage =>
      obtain rfl := Option.some.inj moved
      exact sound.manage stage
    · cases moved
  | onManagementStarted entity =>
    simp only [ItemsInContainersGroup.step] at moved
    split at moved
    · next stage =>
      obtain rfl := Option.some.inj moved
      exact sound.onManagementStarted stage
    · cases moved
  | unmanage entity =>
    simp only [ItemsInContainersGroup.step] at moved
    split at moved
    · obtain rfl := Option.some.inj moved
      exact sound.unmanage entity
    · cases moved
  | onManagementStopped entity =>
    simp only [ItemsInContainersGroup.step] at moved
    split at moved
    · next stage =>
      obtain rfl := Option.some.inj moved
      exact sound.onManagementStopped stage
    · cases moved
  | deliver =>
    cases inFlight : state.inFlight with
    | nil => simp [ItemsInContainersGroup.step, inFlight] at moved
    | cons event rest =>
      simp only [ItemsInContainersGroup.step, inFlight, Option.some.injEq] at moved
      subst moved
      exact sound.deliver inFlight allowed
  | setContainers => exact sound.setContainers moved

end Steps

section Runs

theorem sound_of_reached (run : Reached (following kinds self) (orderly kinds) state) :
    Sound kinds self state := by
  refine reached_invariant (Sound kinds self) ?_ (fun before action after _ sound allowed moved =>
    sound.step allowed moved) run
  refine ⟨⟨rfl, rfl, rfl⟩, fun entity => ?_, fun item member => ?_, fun item =>
    Or.inl (due_unfinished item nofun)⟩
  · exact iff_of_false (LinkedSet.not_mem_empty entity) (by rintro (is | is) <;> cases is)
  · exact absurd member (LinkedSet.not_mem_empty item)

/-- In orderly runs the members are exact whenever nothing is in progress. -/
theorem members_exact (run : Reached (following kinds self) (orderly kinds) state)
    (quiescent : Quiescent state) : Exact kinds self state := by
  intro item
  have right := (sound_of_reached run).right item
  rcases right with pending | right
  · rcases due_iff.mp pending with events | ⟨publishing, -⟩ | ⟨-, stage⟩ | unfinished
    · rw [quiescent.delivered] at events
      cases events
    · exact absurd (quiescent.updated item) publishing
    · rcases quiescent.settled item with is | is <;> simp [is] at stage
    · exact absurd quiescent.ended unfinished
  · rw [right]
    refine and_congr_right fun _ => ?_
    rw [acceptsEntity, Bool.and_eq_true, acceptsItem, quiescent.ended]
    cases state.container item with
    | none => simp
    | some container => simp

end Runs

section Schedules

/-- The group, a container and an item. -/
inductive Part where
  | group
  | container
  | item
deriving DecidableEq

def movables : ItemKinds Part := ⟨fun entity => entity = .item, fun _ => true⟩

/-- The group has its containers, and the item is managed. -/
def itemManaged : List (Action Part) :=
  List.replicate 5 .setContainers ++
    [.onManagementStarting .item, .manage .item, .onManagementStarted .item,
      .addContainer .container, .deliver]

def isQuiescent (state : State Part) : Bool :=
  decide (state.setContainers = .finished ∧ state.inFlight = []) &&
    [Part.group, .container, .item].all fun entity =>
      decide (state.publishing entity = [] ∧
        (state.stage entity = .nonDeployment ∨ state.stage entity = .started))

theorem quiescent_of {state : State Part} (is : isQuiescent state = true) :
    Quiescent state := by
  obtain ⟨rested, each⟩ := Bool.and_eq_true _ _ ▸ is
  obtain ⟨ended, delivered⟩ := of_decide_eq_true rested
  have all : ∀ entity, state.publishing entity = [] ∧
      (state.stage entity = .nonDeployment ∨ state.stage entity = .started) := fun entity =>
    of_decide_eq_true (List.all_eq_true.mp each entity (by cases entity <;> simp))
  exact ⟨ended, fun entity => (all entity).2, fun entity => (all entity).1, delivered⟩

/-- The event of a move is handled when the item is no longer managed. -/
theorem move_event_after_unmanage :
    ¬ ∀ (kinds : ItemKinds Part) (self : Part) (state : State Part),
      Reached (following kinds self) anyStep state → Quiescent state → Exact kinds self state := by
  intro claimed
  have shown := replay_shows (following movables .group) anyStep
    (itemManaged ++ [.put .item (some .container), .publish .item 0, .unmanage .item,
      .onManagementStopped .item, .deliver])
    (fun state => isQuiescent state &&
      decide (.item ∈ state.group.members .group ∧ .item ∉ state.entities))
    (by decide +kernel)
  obtain ⟨state, run, shown⟩ := shown
  obtain ⟨quiescent, ghost⟩ := Bool.and_eq_true _ _ ▸ shown
  obtain ⟨inside, unmanaged⟩ := of_decide_eq_true ghost
  exact unmanaged ((claimed movables .group state run (quiescent_of quiescent) .item).mp inside).1

/-- Two updates of an item that overlap, and a container that leaves and comes back. -/
theorem moves_followed : ∃ state : State Part,
    (state.group.members .group).elements = [.item] ∧ Exact movables .group state := by
  have shown := replay_shows (following movables .group) (orderly movables)
    (itemManaged ++ [.put .item none, .put .item (some .container), .publish .item 0,
      .publish .item 0, .deliver, .deliver, .removeContainer .container,
      .addContainer .container, .deliver, .deliver])
    (fun state => isQuiescent state && decide ((state.group.members .group).elements = [.item]))
    (by decide +kernel)
  obtain ⟨state, run, shown⟩ := shown
  obtain ⟨quiescent, members⟩ := Bool.and_eq_true _ _ ▸ shown
  exact ⟨state, of_decide_eq_true members, members_exact run (quiescent_of quiescent)⟩

end Schedules

end ItemsInContainersGroup
end Brooklyn
