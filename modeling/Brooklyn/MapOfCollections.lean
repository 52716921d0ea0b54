import Brooklyn.Transition

/-!
`addToMapOfSets`, `addToMapOfLists` and `removeFromMapOfCollections` of `LanguageUtils`, by any
threads on one map. One action enters or leaves a monitor, or does one operation on the map
or on a collection. A collection is an object of its own, in the map or not. The log has
the additions and removals in the order in which the collections took them.
-/

namespace Brooklyn.MapOfCollections
open Transition

variable {Key Value Thread : Type}

/-- `LinkedHashSet` or `ArrayList`. -/
inductive Kind where
  | sets | lists

/-- `started` is the length of the log when the call began. -/
structure Call (Key Value : Type) where
  id : Nat
  started : Nat
  key : Key
  value : Value

/-- The `add` methods: `coll` is the collection that they work on. -/
inductive AddPc where
  | enterMap
  | get
  | put
  | isEmptyInMap (coll : Nat)
  | enterCollInMap (coll : Nat)
  | addInMap (coll : Nat)
  | exitCollInMap (coll : Nat)
  | returnFromMap (coll : Nat)
  | exitMap (coll : Nat)
  | enterColl (coll : Nat)
  | isEmpty (coll : Nat)
  | add (coll : Nat)
  | returnFromColl (coll : Nat)
  | recurse (coll : Nat)

inductive RemovePc where
  | enterMap
  | get
  | returnAbsent
  | exitMap (coll : Nat)
  | enterColl (coll : Nat)
  | remove (coll : Nat)
  | exitColl (coll : Nat) (result : Bool)
  | isEmpty (coll : Nat) (result : Bool)
  | enterMapAgain (coll : Nat) (result : Bool)
  | enterCollAgain (coll : Nat) (result : Bool)
  | isEmptyAgain (coll : Nat) (result : Bool)
  | getAgain (coll : Nat) (result : Bool)
  | removeKey (coll : Nat) (result : Bool)
  | exitCollAgain (coll : Nat) (result : Bool)
  | exitMapAgain (result : Bool)

inductive Pc (Key Value : Type) where
  | idle
  | add (call : Call Key Value) (pc : AddPc)
  | remove (call : Call Key Value) (pc : RemovePc)

inductive Change where
  | added | removed
  deriving DecidableEq

structure Effect (Key Value : Type) where
  call : Nat
  change : Change
  key : Key
  value : Value

/-- An `add` returns its collection and a removal whether it removed something; `finished` is
the length of the log at the return. -/
inductive Outcome where
  | added (coll : Nat)
  | removed (result : Bool)

structure Returned (Key Value : Type) where
  call : Call Key Value
  outcome : Outcome
  finished : Nat

/-- `collections` has the elements of each object; `keyOf` is the key for which it was made, and
`caller` the thread that made a call. -/
structure Shared (Key Value Thread : Type) where
  map : Key → Option Nat
  collections : Nat → List Value
  keyOf : Nat → Option Key
  created : Nat
  mapMonitor : Option Thread
  collMonitor : Nat → Option Thread
  calls : Nat
  caller : Nat → Option Thread
  log : List (Effect Key Value)
  returned : List (Returned Key Value)

structure State (Key Value Thread : Type) where
  shared : Shared Key Value Thread
  pc : Thread → Pc Key Value

inductive Action (Key Value Thread : Type) where
  | add (thread : Thread) (key : Key) (value : Value)
  | remove (thread : Thread) (key : Key) (value : Value)
  | next (thread : Thread)

def Action.thread : Action Key Value Thread → Thread
  | .add thread _ _ | .remove thread _ _ | .next thread => thread

section Steps
variable [DecidableEq Value]

/-- `coll.add` -/
def Kind.add : Kind → List Value → Value → List Value
  | .sets, coll, value => if value ∈ coll then coll else coll ++ [value]
  | .lists, coll, value => coll ++ [value]

/-- `==` of two collections, which compares the elements. -/
def Kind.equal : Kind → List Value → List Value → Bool
  | .sets, coll, other => coll.length == other.length && coll.all fun value => value ∈ other
  | .lists, coll, other => coll == other

namespace Shared

def enterMap (shared : Shared Key Value Thread) (thread : Thread) :
    Option (Shared Key Value Thread) :=
  if shared.mapMonitor.isNone then some { shared with mapMonitor := some thread } else none

def exitMap (shared : Shared Key Value Thread) : Shared Key Value Thread :=
  { shared with mapMonitor := none }

def enterColl (shared : Shared Key Value Thread) (thread : Thread) (coll : Nat) :
    Option (Shared Key Value Thread) :=
  if (shared.collMonitor coll).isNone then
    some { shared with collMonitor := Function.update shared.collMonitor coll (some thread) }
  else none

def exitColl (shared : Shared Key Value Thread) (coll : Nat) : Shared Key Value Thread :=
  { shared with collMonitor := Function.update shared.collMonitor coll none }

def isEmpty (shared : Shared Key Value Thread) (coll : Nat) : Bool :=
  (shared.collections coll).isEmpty

variable [DecidableEq Key]

/-- A new collection is put into the map. -/
def put (shared : Shared Key Value Thread) (key : Key) : Shared Key Value Thread :=
  { shared with
    map := Function.update shared.map key (some shared.created)
    keyOf := Function.update shared.keyOf shared.created (some key)
    created := shared.created + 1 }

def removeKey (shared : Shared Key Value Thread) (key : Key) : Shared Key Value Thread :=
  { shared with map := Function.update shared.map key none }

/-- The collection's new elements, with what the log has of it. -/
def write (shared : Shared Key Value Thread) (coll : Nat) (elements : List Value)
    (effect : Effect Key Value) : Shared Key Value Thread :=
  { shared with
    collections := Function.update shared.collections coll elements
    log := shared.log ++ [effect] }

def add (shared : Shared Key Value Thread) (kind : Kind) (call : Call Key Value) (coll : Nat) :
    Shared Key Value Thread :=
  shared.write coll (kind.add (shared.collections coll) call.value)
    ⟨call.id, .added, call.key, call.value⟩

/-- `coll.remove`, of the first occurrence of the value. -/
def remove (shared : Shared Key Value Thread) (call : Call Key Value) (coll : Nat) :
    Bool × Shared Key Value Thread :=
  if call.value ∈ shared.collections coll then
    (true, shared.write coll ((shared.collections coll).erase call.value)
      ⟨call.id, .removed, call.key, call.value⟩)
  else (false, shared)

def finish (shared : Shared Key Value Thread) (call : Call Key Value) (outcome : Outcome) :
    Shared Key Value Thread :=
  { shared with returned := shared.returned ++ [⟨call, outcome, shared.log.length⟩] }

/-- `map.get(key)==coll` -/
def equalsMapped (shared : Shared Key Value Thread) (kind : Kind) (key : Key) (coll : Nat) :
    Bool :=
  (shared.map key).any fun mapped =>
    mapped == coll || kind.equal (shared.collections mapped) (shared.collections coll)

end Shared

variable [DecidableEq Key]

abbrev Moved (Key Value Thread : Type) : Type := Shared Key Value Thread × Pc Key Value

def execAdd (kind : Kind) (thread : Thread) (call : Call Key Value)
    (shared : Shared Key Value Thread) : AddPc → Option (Moved Key Value Thread)
  | .enterMap => (shared.enterMap thread).map (·, .add call .get)
  | .get =>
      some
        (shared, .add call
          (match shared.map call.key with
          | none => .put
          | some coll => .isEmptyInMap coll))
  | .put => some (shared.put call.key, .add call (.isEmptyInMap shared.created))
  | .isEmptyInMap coll =>
      some
        (shared, .add call (if shared.isEmpty coll then .enterCollInMap coll else .exitMap coll))
  | .enterCollInMap coll => (shared.enterColl thread coll).map (·, .add call (.addInMap coll))
  | .addInMap coll => some (shared.add kind call coll, .add call (.exitCollInMap coll))
  | .exitCollInMap coll => some (shared.exitColl coll, .add call (.returnFromMap coll))
  | .returnFromMap coll => some (shared.exitMap.finish call (.added coll), .idle)
  | .exitMap coll => some (shared.exitMap, .add call (.enterColl coll))
  | .enterColl coll => (shared.enterColl thread coll).map (·, .add call (.isEmpty coll))
  | .isEmpty coll =>
      some (shared, .add call (if shared.isEmpty coll then .recurse coll else .add coll))
  | .add coll => some (shared.add kind call coll, .add call (.returnFromColl coll))
  | .returnFromColl coll => some ((shared.exitColl coll).finish call (.added coll), .idle)
  | .recurse coll => some (shared.exitColl coll, .add call .enterMap)

def execRemove (kind : Kind) (thread : Thread) (call : Call Key Value)
    (shared : Shared Key Value Thread) : RemovePc → Option (Moved Key Value Thread)
  | .enterMap => (shared.enterMap thread).map (·, .remove call .get)
  | .get =>
      some
        (shared, .remove call
          (match shared.map call.key with
          | none => .returnAbsent
          | some coll => .exitMap coll))
  | .returnAbsent => some (shared.exitMap.finish call (.removed false), .idle)
  | .exitMap coll => some (shared.exitMap, .remove call (.enterColl coll))
  | .enterColl coll => (shared.enterColl thread coll).map (·, .remove call (.remove coll))
  | .remove coll =>
      some
        ((shared.remove call coll).2, .remove call (.exitColl coll (shared.remove call coll).1))
  | .exitColl coll result => some (shared.exitColl coll, .remove call (.isEmpty coll result))
  | .isEmpty coll result =>
      some
        (if shared.isEmpty coll then (shared, .remove call (.enterMapAgain coll result))
        else (shared.finish call (.removed result), .idle))
  | .enterMapAgain coll result =>
      (shared.enterMap thread).map (·, .remove call (.enterCollAgain coll result))
  | .enterCollAgain coll result =>
      (shared.enterColl thread coll).map (·, .remove call (.isEmptyAgain coll result))
  | .isEmptyAgain coll result =>
      some
        (shared, .remove call
          (if shared.isEmpty coll then .getAgain coll result else .exitCollAgain coll result))
  | .getAgain coll result =>
      some
        (shared, .remove call
          (if shared.equalsMapped kind call.key coll then .removeKey coll result
          else .exitCollAgain coll result))
  | .removeKey coll result =>
      some (shared.removeKey call.key, .remove call (.exitCollAgain coll result))
  | .exitCollAgain coll result =>
      some (shared.exitColl coll, .remove call (.exitMapAgain result))
  | .exitMapAgain result => some (shared.exitMap.finish call (.removed result), .idle)

/-- A call begins. -/
def enter (shared : Shared Key Value Thread) (thread : Thread) (key : Key) (value : Value)
    (entry : Call Key Value → Pc Key Value) : Moved Key Value Thread :=
  ({ shared with
      calls := shared.calls + 1
      caller := Function.update shared.caller shared.calls (some thread) },
    entry ⟨shared.calls, shared.log.length, key, value⟩)

def perform (kind : Kind) (shared : Shared Key Value Thread) (pc : Pc Key Value) :
    Action Key Value Thread → Option (Moved Key Value Thread)
  | .add thread key value =>
      match pc with
      | .idle => some (enter shared thread key value (.add · .enterMap))
      | _ => none
  | .remove thread key value =>
      match pc with
      | .idle => some (enter shared thread key value (.remove · .enterMap))
      | _ => none
  | .next thread =>
      match pc with
      | .idle => none
      | .add call pc => execAdd kind thread call shared pc
      | .remove call pc => execRemove kind thread call shared pc

variable [DecidableEq Thread]

def State.goto (state : State Key Value Thread) (thread : Thread)
    (moved : Moved Key Value Thread) : State Key Value Thread :=
  { shared := moved.1, pc := Function.update state.pc thread moved.2 }

def step (kind : Kind) (state : State Key Value Thread) (action : Action Key Value Thread) :
    Option (State Key Value Thread) :=
  (perform kind state.shared (state.pc action.thread) action).map (state.goto action.thread)

/-- On an empty map. -/
def mapOfCollections (kind : Kind) (Key Value Thread : Type) [DecidableEq Key]
    [DecidableEq Value] [DecidableEq Thread] :
    System (State Key Value Thread) (Action Key Value Thread) where
  initial :=
    { shared :=
        { map := fun _ => none, collections := fun _ => [], keyOf := fun _ => none, created := 0
          mapMonitor := none, collMonitor := fun _ => none, calls := 0, caller := fun _ => none
          log := [], returned := [] }
      pc := fun _ => .idle }
  step := step kind

end Steps
end Brooklyn.MapOfCollections
