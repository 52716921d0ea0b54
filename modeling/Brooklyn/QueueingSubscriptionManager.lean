import Brooklyn.SubscriptionRouting

/-!
`QueueingSubscriptionManager` over a `LocalSubscriptionManager` as its delegate. Subscriptions
wait in the queue or are the delegate's; `unsubscribe` looks in the one place that the flag
names, so it misses what went to the delegate before `stopDelegatingForSubscribing`. Events
are never missed: those passed to the delegate and those queued are those published.
-/

namespace Brooklyn

variable {Entity Sensor Object Predicate : Type}

/-- `passed` are the events given to the delegate so far. -/
structure QueueingSubscriptionManager (Entity Sensor Object Predicate : Type) where
  delegate : SubscriptionWorld Entity Sensor Object Predicate
  useDelegateForSubscribing : Bool
  useDelegateForPublishing : Bool
  queuedSubscriptions : List (SubscriptionFlags Entity Object Predicate × Nat)
  queuedSensorEvents : List (SensorEvent Entity Sensor Object)
  passed : List (SensorEvent Entity Sensor Object)

namespace QueueingSubscriptionManager
variable [DecidableEq Entity] [DecidableEq Sensor] [DecidableEq Object]

def start : QueueingSubscriptionManager Entity Sensor Object Predicate :=
  ⟨.start, false, false, [], [], []⟩

/-- `subscribe` of a new subscription. -/
def subscribe (arguments : SubscribeArguments Entity Sensor Object Predicate)
    (manager : QueueingSubscriptionManager Entity Sensor Object Predicate) :
    QueueingSubscriptionManager Entity Sensor Object Predicate :=
  let id := manager.delegate.made
  let made := manager.delegate.make arguments.producer arguments.sensor arguments.listener
  if manager.useDelegateForSubscribing then
    { manager with delegate := LocalSubscriptionManager.subscribe arguments.flags id made }
  else
    let s := made.subscription id
    let named := s.getSubscriber arguments.flags
    { manager with
      delegate :=
        { made with
          subscription := Function.update made.subscription id { s with subscriber := named.1 } }
      queuedSubscriptions := manager.queuedSubscriptions ++ [(named.2, id)] }

/-- `delegate.publish(event)` -/
def pass (surroundings : Surroundings Entity Sensor Object Predicate)
    (manager : QueueingSubscriptionManager Entity Sensor Object Predicate)
    (event : SensorEvent Entity Sensor Object) :
    QueueingSubscriptionManager Entity Sensor Object Predicate :=
  { manager with
    delegate := LocalSubscriptionManager.publish surroundings event manager.delegate
    passed := manager.passed ++ [event] }

def publish (surroundings : Surroundings Entity Sensor Object Predicate)
    (event : SensorEvent Entity Sensor Object)
    (manager : QueueingSubscriptionManager Entity Sensor Object Predicate) :
    QueueingSubscriptionManager Entity Sensor Object Predicate :=
  if manager.useDelegateForPublishing then manager.pass surroundings event
  else { manager with queuedSensorEvents := manager.queuedSensorEvents ++ [event] }

def startDelegatingForSubscribing
    (manager : QueueingSubscriptionManager Entity Sensor Object Predicate) :
    QueueingSubscriptionManager Entity Sensor Object Predicate :=
  { manager with
    delegate := manager.queuedSubscriptions.foldl
      (fun world queued => LocalSubscriptionManager.subscribe queued.1 queued.2 world)
      manager.delegate
    queuedSubscriptions := []
    useDelegateForSubscribing := true }

def startDelegatingForPublishing (surroundings : Surroundings Entity Sensor Object Predicate)
    (manager : QueueingSubscriptionManager Entity Sensor Object Predicate) :
    QueueingSubscriptionManager Entity Sensor Object Predicate :=
  { manager.queuedSensorEvents.foldl (pass surroundings) manager with
    queuedSensorEvents := []
    useDelegateForPublishing := true }

def unsubscribe (handle : Nat)
    (manager : QueueingSubscriptionManager Entity Sensor Object Predicate) :
    Except SubscriptionFault (Bool × QueueingSubscriptionManager Entity Sensor Object Predicate) :=
  if manager.useDelegateForSubscribing then
    if handle < manager.delegate.made then
      let removed := LocalSubscriptionManager.unsubscribe handle manager.delegate
      .ok (removed.1, { manager with delegate := removed.2 })
    else .error .illegalArgument
  else if handle ∈ manager.queuedSubscriptions.map Prod.snd then
    .ok (true, { manager with
      queuedSubscriptions := manager.queuedSubscriptions.eraseP fun queued => queued.2 = handle })
  else .ok (false, manager)

inductive Call (Entity Sensor Object Predicate : Type) where
  | subscribe (call : SubscribeCall Entity Sensor Object Predicate)
  | unsubscribe (handle : Nat)
  | publish (surroundings : Surroundings Entity Sensor Object Predicate)
      (event : SensorEvent Entity Sensor Object)
  | startDelegatingForSubscribing
  | stopDelegatingForSubscribing
  | startDelegatingForPublishing (surroundings : Surroundings Entity Sensor Object Predicate)
  | stopDelegatingForPublishing
  | elsewhere (producer : Option Entity) (sensor : Option Sensor) (listener : Option Object)

def perform (manager : QueueingSubscriptionManager Entity Sensor Object Predicate) :
    Call Entity Sensor Object Predicate →
      Except SubscriptionFault (QueueingSubscriptionManager Entity Sensor Object Predicate)
  | .subscribe call => call.arguments.map (subscribe · manager)
  | .unsubscribe handle => (unsubscribe handle manager).map Prod.snd
  | .publish surroundings event => .ok (publish surroundings event manager)
  | .startDelegatingForSubscribing => .ok (startDelegatingForSubscribing manager)
  | .stopDelegatingForSubscribing => .ok { manager with useDelegateForSubscribing := false }
  | .startDelegatingForPublishing surroundings =>
      .ok (startDelegatingForPublishing surroundings manager)
  | .stopDelegatingForPublishing => .ok { manager with useDelegateForPublishing := false }
  | .elsewhere producer sensor listener =>
      .ok { manager with delegate := manager.delegate.make producer sensor listener }

/-- A call that throws has changed nothing. -/
def next (manager : QueueingSubscriptionManager Entity Sensor Object Predicate)
    (call : Call Entity Sensor Object Predicate) :
    QueueingSubscriptionManager Entity Sensor Object Predicate :=
  match perform manager call with
  | .ok after => after
  | .error _ => manager

end QueueingSubscriptionManager
end Brooklyn

/-!
What was asked of a `QueueingSubscriptionManager` and where it is. The subscriptions asked
for and not taken back are the delegate's and the queued ones, as long as none is taken back
that the delegate has while the manager does not delegate.
-/

namespace Brooklyn

variable {Entity Sensor Object Predicate : Type}

/-- What a subscription asks for. -/
structure SubscriptionRequest (Entity Sensor Object Predicate : Type) where
  producer : Option Entity
  sensor : Option Sensor
  listener : Option Object
  eventFilter : Option (EventFilter Entity Predicate)

def Subscription.request (s : Subscription Entity Sensor Object Predicate) :
    SubscriptionRequest Entity Sensor Object Predicate :=
  ⟨s.producer, s.sensor, s.listener, s.eventFilter⟩

def SubscribeArguments.request (arguments : SubscribeArguments Entity Sensor Object Predicate) :
    SubscriptionRequest Entity Sensor Object Predicate :=
  ⟨arguments.producer, arguments.sensor, arguments.listener, arguments.flags.eventFilter⟩

namespace QueueingSubscriptionManager
open LocalSubscriptionManager (Describes)

/-- How many subscriptions were made, those asked for here and not since taken back, and the
events published. -/
structure History (Entity Sensor Object Predicate : Type) where
  made : Nat
  active : List (Nat × SubscriptionRequest Entity Sensor Object Predicate)
  published : List (SensorEvent Entity Sensor Object)

def History.next (history : History Entity Sensor Object Predicate) :
    Call Entity Sensor Object Predicate → History Entity Sensor Object Predicate
  | .subscribe call =>
      match call.arguments with
      | .error _ => history
      | .ok arguments =>
          { history with
            made := history.made + 1
            active := history.active ++ [(history.made, arguments.request)] }
  | .unsubscribe handle =>
      { history with active := history.active.filter fun entry => entry.1 ≠ handle }
  | .publish _ event => { history with published := history.published ++ [event] }
  | .elsewhere _ _ _ => { history with made := history.made + 1 }
  | _ => history

/-- Every active subscription waits or is the delegate's, and no other does; while the manager
delegates they are the delegate's, as they were asked for. The events passed on and those
queued are those published, in order, and none is queued while the manager passes them on. -/
structure Right (manager : QueueingSubscriptionManager Entity Sensor Object Predicate)
    (history : History Entity Sensor Object Predicate) : Prop where
  effective : ∀ id, (id ∈ manager.delegate.manager.allSubscriptions ∨
    id ∈ manager.queuedSubscriptions.map Prod.snd) ↔ ∃ request, (id, request) ∈ history.active
  delegated : manager.useDelegateForSubscribing → ∀ id request,
    (id, request) ∈ history.active ↔ id ∈ manager.delegate.manager.allSubscriptions ∧
      (manager.delegate.subscription id).request = request
  events : manager.passed ++ manager.queuedSensorEvents = history.published
  passing : manager.useDelegateForPublishing → manager.queuedSensorEvents = []

/-- No subscription that the delegate has is taken back while the manager does not delegate. -/
def Fits (manager : QueueingSubscriptionManager Entity Sensor Object Predicate) :
    Call Entity Sensor Object Predicate → Prop
  | .unsubscribe handle => manager.useDelegateForSubscribing ∨
      handle ∉ manager.delegate.manager.allSubscriptions
  | _ => True

section Steps
variable {manager : QueueingSubscriptionManager Entity Sensor Object Predicate}
  {history : History Entity Sensor Object Predicate}
  {live : LiveSubscriptions Entity Sensor Object Predicate}

/-- The delegate's indexes describe `live`; the queue has other subscriptions. -/
structure Placed (manager : QueueingSubscriptionManager Entity Sensor Object Predicate)
    (history : History Entity Sensor Object Predicate)
    (live : LiveSubscriptions Entity Sensor Object Predicate) : Prop where
  made : manager.delegate.made = history.made
  describes : Describes manager.delegate live
  known : ∀ queued ∈ manager.queuedSubscriptions, queued.2 < manager.delegate.made
  waiting : ∀ queued ∈ manager.queuedSubscriptions, ∀ s, (queued.2, s) ∉ live
  distinct : (manager.queuedSubscriptions.map Prod.snd).Nodup
  active : ∀ id request, (id, request) ∈ history.active ↔
    (∃ s, (id, s) ∈ live ∧ s.request = request) ∨
      ∃ flags, (flags, id) ∈ manager.queuedSubscriptions ∧
        ((manager.delegate.subscription id).subscribed flags).request = request
  delegating : manager.useDelegateForSubscribing → manager.queuedSubscriptions = []
  events : manager.passed ++ manager.queuedSensorEvents = history.published
  passing : manager.useDelegateForPublishing → manager.queuedSensorEvents = []

theorem Placed.right (placed : Placed manager history live) : Right manager history := by
  refine ⟨fun id => ?_, fun delegating id request => ?_, placed.events, placed.passing⟩
  · rw [placed.describes.byId]
    constructor
    · rintro (⟨s, member⟩ | queued)
      · exact ⟨s.request, (placed.active id _).mpr (Or.inl ⟨s, member, rfl⟩)⟩
      · obtain ⟨⟨flags, _⟩, member, rfl⟩ := List.mem_map.mp queued
        exact ⟨_, (placed.active _ _).mpr (Or.inr ⟨flags, member, rfl⟩)⟩
    · rintro ⟨request, member⟩
      rcases (placed.active id request).mp member with ⟨s, there, _⟩ | ⟨flags, there, _⟩
      · exact Or.inl ⟨s, there⟩
      · exact Or.inr (List.mem_map_of_mem there)
  · rw [placed.active, placed.delegating delegating, placed.describes.byId]
    constructor
    · rintro (⟨s, member, same⟩ | ⟨flags, member, _⟩)
      · exact ⟨⟨s, member⟩, by rw [placed.describes.fields id s member]; exact same⟩
      · cases member
    · rintro ⟨⟨s, member⟩, same⟩
      rw [placed.describes.fields id s member] at same
      exact Or.inl ⟨s, member, same⟩

variable [DecidableEq Entity] [DecidableEq Sensor] [DecidableEq Object]

omit [DecidableEq Entity] [DecidableEq Sensor] [DecidableEq Object] in
theorem getSubscriber_request (arguments : SubscribeArguments Entity Sensor Object Predicate) :
    let s := Subscription.create arguments.producer arguments.sensor arguments.listener
    (({ s with subscriber := (s.getSubscriber arguments.flags).1 } :
      Subscription Entity Sensor Object Predicate).subscribed
        (s.getSubscriber arguments.flags).2).request = arguments.request := by
  simp only [Subscription.getSubscriber, Subscription.create]
  cases arguments.flags.subscriber with
  | none => rfl
  | some subscriber => rfl

theorem subscribe_placed (placed : Placed manager history live)
    (arguments : SubscribeArguments Entity Sensor Object Predicate) :
    ∃ live, Placed (subscribe arguments manager)
      { history with
        made := history.made + 1
        active := history.active ++ [(history.made, arguments.request)] } live := by
  have made := LocalSubscriptionManager.make_describes placed.describes arguments.producer
    arguments.sensor arguments.listener
  have fresh (s) : (manager.delegate.made, s) ∉ live :=
    fun member => Nat.lt_irrefl _ (placed.describes.made _ s member)
  have new : (manager.delegate.make arguments.producer arguments.sensor arguments.listener).subscription
      manager.delegate.made = .create arguments.producer arguments.sensor arguments.listener :=
    Function.update_self ..
  by_cases delegating : manager.useDelegateForSubscribing
  · have nobody := placed.delegating delegating
    have subscribed := LocalSubscriptionManager.subscribe_describes made arguments.flags
      (Nat.lt_succ_self _) fresh
    rw [new] at subscribed
    simp only [subscribe, if_pos delegating]
    refine ⟨_, congrArg Nat.succ placed.made, subscribed, ?_, ?_, placed.distinct,
      fun id request => ?_, placed.delegating, placed.events, placed.passing⟩
    · simp [nobody]
    · simp [nobody]
    · rw [List.mem_append, placed.active, LocalSubscriptionManager.mem_live_append, nobody]
      simp [← placed.made, Subscription.request, SubscribeArguments.request, eq_comm,
        Subscription.subscribed, Subscription.create]
  · simp only [subscribe, if_neg delegating, new]
    refine ⟨live, congrArg Nat.succ placed.made, made.update fresh _, ?_, ?_, ?_, fun id request => ?_,
      fun delegating' => absurd delegating' delegating, placed.events, placed.passing⟩
    · intro queued member
      rcases List.mem_append.mp member with older | last
      · exact Nat.lt_succ_of_lt (placed.known queued older)
      · rw [List.mem_singleton.mp last]
        exact Nat.lt_succ_self _
    · intro queued member s
      rcases List.mem_append.mp member with older | last
      · exact placed.waiting queued older s
      · rw [List.mem_singleton.mp last]
        exact fresh s
    · rw [List.map_append, List.nodup_append]
      refine ⟨placed.distinct, List.nodup_singleton _, fun id older new last => ?_⟩
      obtain ⟨queued, member, rfl⟩ := List.mem_map.mp older
      rw [List.mem_singleton.mp last]
      exact Nat.ne_of_lt (placed.known queued member)
    · rw [List.mem_append, placed.active, or_assoc]
      refine or_congr_right ?_
      constructor
      · rintro (⟨flags, member, same⟩ | last)
        · refine ⟨flags, List.mem_append_left _ member, ?_⟩
          have older : id ≠ manager.delegate.made := Nat.ne_of_lt (placed.known _ member)
          simpa [Function.update_of_ne older, SubscriptionWorld.make] using same
        · cases List.mem_singleton.mp last
          rw [← placed.made]
          refine ⟨_, List.mem_append_right _ (List.mem_singleton_self _), ?_⟩
          simp only [Function.update_self]
          exact getSubscriber_request arguments
      · rintro ⟨flags, member, same⟩
        rcases List.mem_append.mp member with there | last
        · have older : id ≠ manager.delegate.made := Nat.ne_of_lt (placed.known _ there)
          refine Or.inl ⟨flags, there, ?_⟩
          simpa [Function.update_of_ne older, SubscriptionWorld.make] using same
        · cases List.mem_singleton.mp last
          simp only [Function.update_self] at same
          have asked := same.symm.trans (getSubscriber_request arguments)
          exact Or.inr (List.mem_singleton.mpr (Prod.ext placed.made asked))

omit [DecidableEq Entity] [DecidableEq Sensor] [DecidableEq Object] in
/-- Taking back what is not active changes nothing. -/
theorem Placed.inactive (placed : Placed manager history live) {handle : Nat}
    (absent : ∀ s, (handle, s) ∉ live)
    (unqueued : handle ∉ manager.queuedSubscriptions.map Prod.snd) :
    history.next (.unsubscribe handle) = history := by
  have all : history.active.filter (fun entry => entry.1 ≠ handle) = history.active := by
    refine List.filter_eq_self.mpr fun entry member => decide_eq_true fun same => ?_
    rcases (placed.active entry.1 entry.2).mp member with ⟨s, there, _⟩ | ⟨flags, there, _⟩
    · exact absent s (same ▸ there)
    · exact unqueued (same ▸ List.mem_map_of_mem there)
  rw [History.next, all]

omit [DecidableEq Entity] [DecidableEq Sensor] [DecidableEq Object] in
/-- The iterator removes the one entry of the handle. -/
theorem mem_eraseP_handle {queue : List (SubscriptionFlags Entity Object Predicate × Nat)}
    (distinct : (queue.map Prod.snd).Nodup) (handle : Nat)
    (entry : SubscriptionFlags Entity Object Predicate × Nat) :
    entry ∈ queue.eraseP (fun queued => queued.2 = handle) ↔ entry ∈ queue ∧ entry.2 ≠ handle := by
  induction queue with
  | nil => simp
  | cons first rest ih =>
    rw [List.map_cons, List.nodup_cons] at distinct
    by_cases same : first.2 = handle
    · rw [List.eraseP_cons_of_pos (by simpa using same), List.mem_cons]
      constructor
      · intro later
        refine ⟨Or.inr later, fun again => distinct.1 ?_⟩
        rw [same, ← again]
        exact List.mem_map_of_mem later
      · rintro ⟨rfl | later, different⟩
        · exact absurd same different
        · exact later
    · rw [List.eraseP_cons_of_neg (by simpa using same), List.mem_cons, List.mem_cons,
        ih distinct.2]
      constructor
      · rintro (rfl | ⟨later, different⟩)
        · exact ⟨Or.inl rfl, same⟩
        · exact ⟨Or.inr later, different⟩
      · rintro ⟨rfl | later, different⟩
        · exact Or.inl rfl
        · exact Or.inr ⟨later, different⟩

theorem unsubscribe_placed (placed : Placed manager history live) {handle : Nat}
    (fits : manager.Fits (.unsubscribe handle)) :
    ∃ live, Placed (manager.next (.unsubscribe handle)) (history.next (.unsubscribe handle)) live := by
  by_cases delegating : manager.useDelegateForSubscribing
  · have nobody := placed.delegating delegating
    by_cases known : handle < manager.delegate.made
    · simp only [next, perform, unsubscribe, if_pos delegating, if_pos known, Except.map]
      have removed := (LocalSubscriptionManager.unsubscribe_describes placed.describes handle).2
      refine ⟨_, placed.made, removed, placed.known, ?_, placed.distinct, fun id request => ?_,
        placed.delegating, placed.events, placed.passing⟩
      · simp [nobody]
      · rw [LocalSubscriptionManager.mem_live_filter, History.next, List.mem_filter, placed.active]
        simp [nobody]
    · simp only [next, perform, unsubscribe, if_pos delegating, if_neg known, Except.map]
      rw [placed.inactive (fun s member => known (placed.describes.made _ s member))
        (by simp [nobody])]
      exact ⟨live, placed⟩
  · have absent (s) : (handle, s) ∉ live := fun member =>
      (fits.resolve_left delegating) ((placed.describes.byId handle).mpr ⟨s, member⟩)
    by_cases queued : handle ∈ manager.queuedSubscriptions.map Prod.snd
    · simp only [next, perform, unsubscribe, if_neg delegating, if_pos queued, Except.map]
      have left (queued) (member : queued ∈ manager.queuedSubscriptions.eraseP
          fun queued => queued.2 = handle) : queued ∈ manager.queuedSubscriptions :=
        List.mem_of_mem_eraseP member
      refine ⟨live, placed.made, placed.describes, fun queued member => placed.known _ (left _ member),
        fun queued member => placed.waiting _ (left _ member), ?_, fun id request => ?_,
        fun delegating' => absurd delegating' delegating, placed.events, placed.passing⟩
      · exact placed.distinct.sublist (List.eraseP_sublist.map _)
      · rw [History.next, List.mem_filter, placed.active, or_and_right]
        refine or_congr ?_ ?_
        · refine and_iff_left_of_imp fun ⟨s, member, _⟩ => decide_eq_true ?_
          rintro rfl
          exact absent s member
        · simp only [mem_eraseP_handle placed.distinct, decide_eq_true_eq]
          exact ⟨fun ⟨⟨flags, member, same⟩, different⟩ => ⟨flags, ⟨member, different⟩, same⟩,
            fun ⟨flags, ⟨member, different⟩, same⟩ => ⟨⟨flags, member, same⟩, different⟩⟩
    · simp only [next, perform, unsubscribe, if_neg delegating, if_neg queued, Except.map]
      rw [placed.inactive absent queued]
      exact ⟨live, placed⟩

/-- The queued subscriptions go to the delegate as they wait. -/
theorem foldl_describes {world : SubscriptionWorld Entity Sensor Object Predicate}
    (describes : Describes world live)
    {queue : List (SubscriptionFlags Entity Object Predicate × Nat)}
    (known : ∀ queued ∈ queue, queued.2 < world.made)
    (waiting : ∀ queued ∈ queue, ∀ s, (queued.2, s) ∉ live)
    (distinct : (queue.map Prod.snd).Nodup) :
    (queue.foldl (fun world queued => LocalSubscriptionManager.subscribe queued.1 queued.2 world)
      world).made = world.made ∧
    Describes (queue.foldl (fun world queued =>
        LocalSubscriptionManager.subscribe queued.1 queued.2 world) world)
      (live ++ queue.map fun queued =>
        (queued.2, (world.subscription queued.2).subscribed queued.1)) := by
  induction queue generalizing world live with
  | nil => exact ⟨rfl, by simpa using describes⟩
  | cons first rest ih =>
    rw [List.map_cons, List.nodup_cons] at distinct
    have here := LocalSubscriptionManager.subscribe_describes describes first.1
      (known first List.mem_cons_self) (waiting first List.mem_cons_self)
    have apart (queued) (later : queued ∈ rest) : queued.2 ≠ first.2 :=
      fun same => distinct.1 (same ▸ List.mem_map_of_mem later)
    obtain ⟨made, described⟩ := ih here
      (fun queued later => known queued (List.mem_cons_of_mem _ later))
      (fun queued later s member => by
        rcases List.mem_append.mp member with there | last
        · exact waiting queued (List.mem_cons_of_mem _ later) s there
        · exact apart queued later (congrArg Prod.fst (List.mem_singleton.mp last)))
      distinct.2
    refine ⟨made, ?_⟩
    have same : rest.map (fun queued => (queued.2, ((LocalSubscriptionManager.subscribe first.1
        first.2 world).subscription queued.2).subscribed queued.1)) =
        rest.map fun queued => (queued.2, (world.subscription queued.2).subscribed queued.1) := by
      refine List.map_congr_left fun queued later => ?_
      simp only [LocalSubscriptionManager.subscribe, Function.update_of_ne (apart queued later)]
    rw [List.append_assoc, List.singleton_append, same] at described
    exact described

theorem startDelegatingForSubscribing_placed (placed : Placed manager history live) :
    ∃ live, Placed manager.startDelegatingForSubscribing history live := by
  obtain ⟨made, describes⟩ := foldl_describes placed.describes placed.known placed.waiting
    placed.distinct
  refine ⟨_, made.trans placed.made, describes, fun _ member => absurd member List.not_mem_nil,
    fun _ member => absurd member List.not_mem_nil, List.nodup_nil, fun id request => ?_,
    fun _ => rfl, placed.events, placed.passing⟩
  rw [placed.active]
  constructor
  · rintro (⟨s, member, same⟩ | ⟨flags, member, same⟩)
    · exact Or.inl ⟨s, List.mem_append_left _ member, same⟩
    · exact Or.inl ⟨_, List.mem_append_right _ (List.mem_map_of_mem member), same⟩
  · rintro (⟨s, member, same⟩ | ⟨flags, member, _⟩)
    · rcases List.mem_append.mp member with there | moved
      · exact Or.inl ⟨s, there, same⟩
      · obtain ⟨⟨flags, _⟩, queued, moved⟩ := List.mem_map.mp moved
        obtain ⟨rfl, rfl⟩ := Prod.mk.inj moved
        exact Or.inr ⟨flags, queued, same⟩
    · cases member

omit [DecidableEq Sensor] [DecidableEq Object] in
/-- Passing events on changes nothing but what is submitted and passed. -/
theorem foldl_pass (surroundings : Surroundings Entity Sensor Object Predicate)
    (events : List (SensorEvent Entity Sensor Object))
    (manager : QueueingSubscriptionManager Entity Sensor Object Predicate) :
    ∃ submitted, events.foldl (pass surroundings) manager =
      { manager with
        delegate := { manager.delegate with submitted := submitted }
        passed := manager.passed ++ events } := by
  induction events generalizing manager with
  | nil => exact ⟨manager.delegate.submitted, by simp⟩
  | cons event rest ih =>
    obtain ⟨submitted, passed⟩ := ih (manager.pass surroundings event)
    refine ⟨submitted, ?_⟩
    rw [List.foldl_cons, passed]
    simp [pass, LocalSubscriptionManager.publish]

omit [DecidableEq Entity] [DecidableEq Sensor] [DecidableEq Object] in
theorem Placed.passed (placed : Placed manager history live)
    (submitted : List (Submission Entity Sensor Object))
    {passed queued : List (SensorEvent Entity Sensor Object)}
    {published : List (SensorEvent Entity Sensor Object)} {passing : Bool}
    (events : passed ++ queued = published) (empty : passing → queued = []) :
    Placed { manager with
      delegate := { manager.delegate with submitted := submitted }
      useDelegateForPublishing := passing
      queuedSensorEvents := queued
      passed := passed } { history with published := published } live :=
  ⟨placed.made, ⟨placed.describes.made, placed.describes.fields, placed.describes.byId,
    placed.describes.byToken, placed.describes.bySubscriber⟩, placed.known, placed.waiting,
    placed.distinct, placed.active, placed.delegating, events, empty⟩

theorem next_placed (placed : Placed manager history live)
    {call : Call Entity Sensor Object Predicate} (fits : manager.Fits call) :
    ∃ live, Placed (manager.next call) (history.next call) live := by
  cases call with
  | subscribe call =>
    cases asked : call.arguments with
    | error fault =>
      simp only [next, perform, History.next, asked, Except.map]
      exact ⟨live, placed⟩
    | ok arguments =>
      simp only [next, perform, History.next, asked, Except.map]
      exact subscribe_placed placed arguments
  | unsubscribe handle => exact unsubscribe_placed placed fits
  | publish surroundings event =>
    by_cases passing : manager.useDelegateForPublishing
    · have events := placed.events
      rw [placed.passing passing, List.append_nil] at events
      simp only [next, perform, publish, if_pos passing]
      refine ⟨live, placed.passed _ ?_ placed.passing⟩
      rw [placed.passing passing, List.append_nil, events]
    · simp only [next, perform, publish, if_neg passing]
      refine ⟨live, placed.passed manager.delegate.submitted ?_ fun again => absurd again passing⟩
      rw [← List.append_assoc, placed.events]
  | startDelegatingForSubscribing => exact startDelegatingForSubscribing_placed placed
  | stopDelegatingForSubscribing =>
    exact ⟨live, placed.made, placed.describes, placed.known, placed.waiting, placed.distinct,
      placed.active, (fun same => by cases same), placed.events, placed.passing⟩
  | startDelegatingForPublishing surroundings =>
    obtain ⟨submitted, passed⟩ := foldl_pass surroundings manager.queuedSensorEvents manager
    simp only [next, perform, startDelegatingForPublishing, passed]
    refine ⟨live, placed.passed submitted ?_ fun _ => rfl⟩
    rw [List.append_nil]
    exact placed.events
  | stopDelegatingForPublishing =>
    exact ⟨live, placed.passed manager.delegate.submitted placed.events fun same => by cases same⟩
  | elsewhere producer sensor listener =>
    refine ⟨live, congrArg Nat.succ placed.made,
      LocalSubscriptionManager.make_describes placed.describes producer sensor listener,
      fun queued member => Nat.lt_succ_of_lt (placed.known queued member), placed.waiting,
      placed.distinct, fun id request => ?_, placed.delegating, placed.events, placed.passing⟩
    refine (placed.active id request).trans (or_congr_right (exists_congr fun flags =>
      and_congr_right fun member => ?_))
    have older : (manager.delegate.make producer sensor listener).subscription id =
        manager.delegate.subscription id :=
      Function.update_of_ne (Nat.ne_of_lt (placed.known _ member)) _ _
    change _ ↔ (((manager.delegate.make producer sensor listener).subscription id).subscribed
      flags).request = request
    rw [older]

end Steps

section Runs
variable [DecidableEq Entity] [DecidableEq Sensor] [DecidableEq Object]

def AlwaysRight (manager : QueueingSubscriptionManager Entity Sensor Object Predicate)
    (history : History Entity Sensor Object Predicate) :
    List (Call Entity Sensor Object Predicate) → Prop
  | [] => Right manager history
  | call :: rest => Right manager history ∧ AlwaysRight (manager.next call) (history.next call) rest

def AlwaysFit (manager : QueueingSubscriptionManager Entity Sensor Object Predicate) :
    List (Call Entity Sensor Object Predicate) → Prop
  | [] => True
  | call :: rest => manager.Fits call ∧ AlwaysFit (manager.next call) rest

variable {manager : QueueingSubscriptionManager Entity Sensor Object Predicate}
  {history : History Entity Sensor Object Predicate}
  {live : LiveSubscriptions Entity Sensor Object Predicate}

/-- A subscription of the delegate that is taken back elsewhere stays with the delegate. -/
theorem Right.fits {call : Call Entity Sensor Object Predicate}
    (after : Right (manager.next call) (history.next call)) : manager.Fits call := by
  cases call with
  | unsubscribe handle =>
    by_cases delegating : manager.useDelegateForSubscribing
    · exact Or.inl delegating
    · refine Or.inr fun there => ?_
      have still : handle ∈ (manager.next (.unsubscribe handle)).delegate.manager.allSubscriptions := by
        by_cases queued : handle ∈ manager.queuedSubscriptions.map Prod.snd
        · simpa only [next, perform, unsubscribe, if_neg delegating, if_pos queued, Except.map]
            using there
        · simpa only [next, perform, unsubscribe, if_neg delegating, if_neg queued, Except.map]
            using there
      obtain ⟨request, active⟩ := (after.effective handle).mp (Or.inl still)
      exact of_decide_eq_true (List.mem_filter.mp active).2 rfl
  | _ => trivial

theorem always_right_iff (placed : Placed manager history live)
    (calls : List (Call Entity Sensor Object Predicate)) :
    AlwaysRight manager history calls ↔ AlwaysFit manager calls := by
  induction calls generalizing manager history live with
  | nil => exact iff_of_true placed.right trivial
  | cons call rest ih =>
    constructor
    · rintro ⟨_, always⟩
      have after : Right (manager.next call) (history.next call) := by
        cases rest with
        | nil => exact always
        | cons next rest => exact always.1
      obtain ⟨live, later⟩ := next_placed placed after.fits
      exact ⟨after.fits, (ih later).mp always⟩
    · rintro ⟨fits, others⟩
      obtain ⟨live, later⟩ := next_placed placed fits
      exact ⟨placed.right, (ih later).mpr others⟩

omit [DecidableEq Entity] [DecidableEq Sensor] [DecidableEq Object] in
theorem start_placed : Placed (start : QueueingSubscriptionManager Entity Sensor Object Predicate)
    ⟨0, [], []⟩ [] :=
  ⟨rfl, LocalSubscriptionManager.start_describes, fun _ member => absurd member List.not_mem_nil,
    fun _ member => absurd member List.not_mem_nil, List.nodup_nil, fun _ _ => by simp [start],
    fun _ => rfl, rfl, fun _ => rfl⟩

/-- The subscriptions and events are where they have to be after every call, exactly as long as
no subscription that the delegate has is taken back while the manager does not delegate. -/
theorem delegation_right_iff (calls : List (Call Entity Sensor Object Predicate)) :
    AlwaysRight (start : QueueingSubscriptionManager Entity Sensor Object Predicate) ⟨0, [], []⟩
      calls ↔
      AlwaysFit (start : QueueingSubscriptionManager Entity Sensor Object Predicate) calls :=
  always_right_iff start_placed calls

/-- A subscription made while delegating stays with the delegate when it is taken back after
`stopDelegatingForSubscribing`, and is there when the manager delegates again. -/
theorem stopped_delegate_keeps_subscription :
    ∃ calls : List (Call Nat Nat Nat Nat),
      (calls.foldl next start).useDelegateForSubscribing ∧
      0 ∈ (calls.foldl next start).delegate.manager.allSubscriptions ∧
      (calls.foldl History.next ⟨0, [], []⟩).active.length = 0 ∧
      ¬ AlwaysRight start ⟨0, [], []⟩ calls := by
  refine ⟨[.startDelegatingForSubscribing, .subscribe (.subscribe none none none (some 7)),
    .stopDelegatingForSubscribing, .unsubscribe 0, .startDelegatingForSubscribing], by decide,
    by decide, by decide, fun always => ?_⟩
  have fits := always.2.2.2.2.1.fits
  exact absurd fits (by unfold Fits; decide)

end Runs
end QueueingSubscriptionManager
end Brooklyn
