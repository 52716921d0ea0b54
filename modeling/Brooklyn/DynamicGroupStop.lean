import Brooklyn.DynamicGroup

/-!
A dynamic group after `stop`. It hears no more of entities that appear and disappear; an event
of a subscription still changes the membership where the filter says otherwise.
-/

namespace Brooklyn.DynamicGroup

variable {Ref Sensor Value Filter : Type} [DecidableEq Ref] {self : Ref}
  {group later : DynamicGroup Ref Sensor Value Filter}

section Changes

variable {apply : Filter → Ref → Bool} {item : Ref}

theorem members_addMember :
    (group.addMember self item).members self = (group.members self).add item :=
  Function.update_self ..

theorem members_removeMember :
    (group.removeMember self item).members self = (group.members self).remove item :=
  Function.update_self ..

/-- A change of an entity is none of the group where the filter says what the group has. -/
theorem onEntityChanged_same_iff :
    (group.onEntityChanged self apply item).members self = group.members self ↔
      group.acceptsEntity apply item = group.hasMember self item := by
  unfold onEntityChanged
  dsimp only
  by_cases member : item ∈ group.members self
  · have has : group.hasMember self item = true := decide_eq_true member
    cases accepts : group.acceptsEntity apply item with
    | true => simp [has]
    | false =>
      refine iff_of_false (fun same => ?_) (by simp [has])
      simp only [has, Bool.not_false, Bool.and_self, if_true, members_removeMember] at same
      rw [← same] at member
      exact ((LinkedSet.mem_remove _ item item).mp member).2 rfl
  · have has : group.hasMember self item = false := decide_eq_false member
    cases accepts : group.acceptsEntity apply item with
    | true =>
      refine iff_of_false (fun same => ?_) (by simp [has])
      simp only [has, Bool.not_true, Bool.and_self, Bool.false_eq_true, if_false, Bool.not_false,
        if_true, members_addMember] at same
      rw [← same] at member
      exact member ((LinkedSet.mem_add _ item item).mpr (Or.inr rfl))
    | false => simp [has]

end Changes

section Routes

/-- The same ways by which a group hears of entities. -/
structure SameRoutes (group later : DynamicGroup Ref Sensor Value Filter) : Prop where
  entityFilter : later.entityFilter = group.entityFilter
  setChangeListener : later.setChangeListener = group.setChangeListener
  entitySetListeners : later.entitySetListeners = group.entitySetListeners
  subscriptions : later.subscriptions = group.subscriptions

omit [DecidableEq Ref] in
theorem SameRoutes.refl (group : DynamicGroup Ref Sensor Value Filter) : SameRoutes group group :=
  ⟨rfl, rfl, rfl, rfl⟩

omit [DecidableEq Ref] in
theorem SameRoutes.trans {last : DynamicGroup Ref Sensor Value Filter}
    (first : SameRoutes group later) (second : SameRoutes later last) : SameRoutes group last :=
  ⟨second.entityFilter.trans first.entityFilter,
    second.setChangeListener.trans first.setChangeListener,
    second.entitySetListeners.trans first.entitySetListeners,
    second.subscriptions.trans first.subscriptions⟩

omit [DecidableEq Ref] in
theorem sameRoutes_foldl {Item : Type}
    {change : DynamicGroup Ref Sensor Value Filter → Item → DynamicGroup Ref Sensor Value Filter}
    (keeps : ∀ group item, SameRoutes group (change group item)) (items : List Item)
    (group : DynamicGroup Ref Sensor Value Filter) :
    SameRoutes group (items.foldl change group) := by
  induction items generalizing group with
  | nil => exact .refl group
  | cons item items ih => exact (keeps group item).trans (ih _)

theorem sameRoutes_addMember (member : Ref) : SameRoutes group (group.addMember self member) :=
  ⟨rfl, rfl, rfl, rfl⟩

theorem sameRoutes_removeMember (member : Ref) :
    SameRoutes group (group.removeMember self member) :=
  ⟨rfl, rfl, rfl, rfl⟩

theorem sameRoutes_onEntityChanged (apply : Filter → Ref → Bool) (item : Ref) :
    SameRoutes group (group.onEntityChanged self apply item) := by
  unfold onEntityChanged
  dsimp only
  split_ifs
  · exact sameRoutes_removeMember item
  · exact sameRoutes_addMember item
  · exact .refl group

theorem sameRoutes_rescanEntities (found : ManagedEntities Ref Filter) :
    SameRoutes group (group.rescanEntities self found) := by
  unfold rescanEntities
  split_ifs
  · exact .refl group
  · exact .refl group
  · exact .refl group
  · refine .trans (sameRoutes_foldl (fun group it => ?_) _ group)
      (sameRoutes_foldl (fun group it => sameRoutes_removeMember it) _ _)
    split_ifs
    · exact .refl group
    · exact sameRoutes_addMember it

variable [DecidableEq Sensor]

theorem sameRoutes_notify (notification : Notification Ref Sensor Value Filter) :
    SameRoutes group (group.notify self notification) := by
  cases notification with
  | itemAdded item apply =>
    refine sameRoutes_foldl (fun group _ => ?_) _ group
    unfold onEntityAdded
    split_ifs
    · exact sameRoutes_addMember item
    · exact .refl group
  | itemRemoved item => exact sameRoutes_foldl (fun group _ => sameRoutes_removeMember item) _ group
  | event number event apply =>
    simp only [notify, onEvent]
    split
    next =>
      split_ifs
      · split
        · exact sameRoutes_onEntityChanged apply _
        · exact .refl group
      · exact .refl group
      · exact .refl group
    next => exact .refl group

/-- The context has no other listener of the group than the one that the group knows. -/
def Registered (group : DynamicGroup Ref Sensor Value Filter) : Prop :=
  group.entitySetListeners = [] ∨
    group.entitySetListeners = group.setChangeListener.toList

omit [DecidableEq Ref] [DecidableEq Sensor] in
theorem Registered.same (registered : Registered group) (same : SameRoutes group later) :
    Registered later := by
  rw [Registered, same.entitySetListeners, same.setChangeListener]
  exact registered

omit [DecidableEq Ref] [DecidableEq Sensor] in
/-- A group that has stopped is not told of the entities. -/
theorem Registered.stop (registered : Registered group) : group.stop.entitySetListeners = [] := by
  unfold DynamicGroup.stop
  rcases registered with none_left | listed
  · cases listener : group.setChangeListener <;> simp [none_left]
  · cases listener : group.setChangeListener <;> simp [listed, listener]

theorem Registered.perform (registered : Registered group) (call : Call Ref Sensor Value Filter) :
    Registered (group.perform self call) := by
  cases call with
  | notify notification => exact registered.same (sameRoutes_notify notification)
  | addSubscription subscription => exact registered
  | setEntityFilter filter found =>
    have changed : Registered { group with entityFilter := filter } := registered
    exact changed.same (sameRoutes_rescanEntities found)
  | rescanEntities found => exact registered.same (sameRoutes_rescanEntities found)
  | onManagementBecomingMaster found =>
    unfold DynamicGroup.perform onManagementBecomingMaster
    cases listener : group.setChangeListener with
    | some old => exact registered
    | none =>
      have no_listener : group.entitySetListeners = [] := by
        rcases registered with none_left | listed
        · exact none_left
        · rw [listed, listener]; rfl
      refine Registered.same (Or.inr ?_) (sameRoutes_rescanEntities found)
      rw [no_listener]
      rfl
  | onManagementNoLongerMaster =>
    unfold DynamicGroup.perform onManagementNoLongerMaster
    cases listener : group.setChangeListener with
    | none => exact registered
    | some old =>
      rcases registered with none_left | listed
      · exact Or.inl (by simp [none_left])
      · exact Or.inl (by simp [listed, listener])
  | stop => exact Or.inl registered.stop

theorem registered_run (memberships : Memberships Ref) (entityFilter : Option Filter)
    (calls : List (Call Ref Sensor Value Filter)) :
    Registered (run self calls (created memberships entityFilter)) := by
  suffices kept : ∀ group : DynamicGroup Ref Sensor Value Filter, Registered group →
      Registered (run self calls group) from kept _ (Or.inl rfl)
  intro group registered
  unfold run
  induction calls generalizing group with
  | nil => exact registered
  | cons call calls ih => exact ih _ (registered.perform call)

end Routes

section Stopped

variable [DecidableEq Sensor]

variable (self) in
/-- What a subscription passes on comes from an entity for which the filter says what the group
has. -/
def Agrees (group : DynamicGroup Ref Sensor Value Filter) :
    Notification Ref Sensor Value Filter → Prop
  | .event number event apply =>
      ∀ subscription, group.subscriptions[number]? = some subscription →
        reaches subscription event = true → subscription.filter event = true →
        ∀ source, event.source = some source →
          group.acceptsEntity apply source = group.hasMember self source
  | _ => True

theorem Agrees.congr (same : SameRoutes group later)
    (members : later.members self = group.members self)
    (notification : Notification Ref Sensor Value Filter) :
    Agrees self later notification ↔ Agrees self group notification := by
  cases notification with
  | itemAdded item apply => rfl
  | itemRemoved item => rfl
  | event number event apply =>
    simp only [Agrees, acceptsEntity, hasMember, same.subscriptions, same.entityFilter, members]

theorem notify_same_iff (unheard : group.entitySetListeners = [])
    (notification : Notification Ref Sensor Value Filter) :
    (group.notify self notification).members self = group.members self ↔
      Agrees self group notification := by
  cases notification with
  | itemAdded item apply => simp [notify, unheard, Agrees]
  | itemRemoved item => simp [notify, unheard, Agrees]
  | event number event apply =>
    simp only [notify, onEvent, Agrees]
    cases found : group.subscriptions[number]? with
    | none => simp
    | some subscription =>
      cases reached : reaches subscription event with
      | false => simp [reached]
      | true =>
        cases passed : subscription.filter event with
        | false => simp [passed]
        | true =>
          cases source : event.source with
          | none => simp [reached]
          | some item => simp [reached, passed, onEntityChanged_same_iff]

/-- The membership stays as it is for every part of the notifications if and only if none of
them disagrees with it. -/
theorem frozen_iff (unheard : group.entitySetListeners = [])
    (notifications : List (Notification Ref Sensor Value Filter)) :
    (∀ front back, notifications = front ++ back →
        (runNotifications self front group).members self = group.members self) ↔
      ∀ notification ∈ notifications, Agrees self group notification := by
  induction notifications generalizing group with
  | nil =>
    refine iff_of_true (fun front back same => ?_) (by simp)
    obtain rfl := (List.append_eq_nil_iff.mp same.symm).1
    rfl
  | cons notification notifications ih =>
    have routes : SameRoutes group (group.notify self notification) :=
      sameRoutes_notify notification
    have behind := @ih (group.notify self notification) (routes.entitySetListeners.trans unheard)
    rw [List.forall_mem_cons, ← notify_same_iff unheard notification]
    constructor
    · intro frozen
      have first := frozen [notification] notifications rfl
      refine ⟨first, fun other member => ?_⟩
      refine (Agrees.congr routes first other).mp
        (behind.mp (fun front back same => ?_) other member)
      exact (frozen (notification :: front) back (by rw [same]; rfl)).trans first.symm
    · rintro ⟨first, others⟩ front back same
      cases front with
      | nil => rfl
      | cons head front =>
        obtain ⟨rfl, rest⟩ := List.cons_eq_cons.mp same
        have later := behind.mpr fun other member =>
          (Agrees.congr routes first other).mpr (others other member)
        exact (later front back rest).trans first

/-- After a run that ends with `stop`, no notification changes the membership if and only if no
subscription passes on an event of an entity that the filter and the group disagree about. -/
theorem stopped_group_frozen_iff (self : Ref) (memberships : Memberships Ref)
    (entityFilter : Option Filter) (calls : List (Call Ref Sensor Value Filter))
    (notifications : List (Notification Ref Sensor Value Filter)) :
    let stopped := (run self calls (created memberships entityFilter)).stop
    (∀ front back, notifications = front ++ back →
        (runNotifications self front stopped).members self = stopped.members self) ↔
      ∀ notification ∈ notifications, Agrees self stopped notification :=
  frozen_iff (registered_run memberships entityFilter calls).stop notifications

/-- A group without members that accepts every entity, with one subscription. -/
def subscribed : List (Call Nat Unit Unit Unit) :=
  [.onManagementBecomingMaster ⟨true, true, [], fun _ _ => true⟩,
    .addSubscription ⟨some 1, none, fun _ => true⟩]

/-- An event of a subscription that was there before `stop` adds a member. -/
theorem event_after_stop_adds :
    ¬ ∀ (calls : List (Call Nat Unit Unit Unit))
        (notifications : List (Notification Nat Unit Unit Unit)),
      let stopped := (run 0 calls (created ⟨fun _ => .empty, fun _ => .empty, []⟩ (some ()))).stop
      ∀ front back, notifications = front ++ back →
        (runNotifications 0 front stopped).members 0 = stopped.members 0 := by
  intro frozen
  have same := frozen subscribed [.event 0 ⟨some 1, none, ()⟩ fun _ _ => true]
    [.event 0 ⟨some 1, none, ()⟩ fun _ _ => true] [] rfl
  have added : 1 ∈ (runNotifications 0 [.event 0 ⟨some 1, none, ()⟩ fun _ _ => true]
      (run 0 subscribed (created ⟨fun _ => .empty, fun _ => .empty, []⟩ (some ()))).stop).members
        0 := by
    decide
  rw [same] at added
  exact absurd added (by decide)

end Stopped

end Brooklyn.DynamicGroup
