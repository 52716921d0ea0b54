import Brooklyn.Transition

/-!
`SingleThreadedScheduler` at the grain of its accesses. `submit` and `onEnd` run in
the monitor of the scheduler; `cancel` does not. The monitor is taken with the first
access inside it and left with the last one, and the accesses of all threads are
taken in one order, as if `cancelled` were volatile.

A submission is named by its number, given by the first access of `submit` in the
monitor: a call that returned before another one began has the smaller number. The
executor accepts every callable and later runs it on a worker thread, unless its
future was cancelled before; a future that is cancelled while its callable runs does
not stop it. The callable may end either way, and calls of `submit` and `cancel` that
it makes are taken as calls of another thread.

`started`, `skipped` and `cancelledUnstarted` are history: the callables begun, the
submissions that `onEnd` passed over, and those whose `cancel` returned true before
they began.
-/

namespace Brooklyn.SingleThreadedScheduler
open Transition

/-- The state of a future of the executor; `new` until its callable has ended. -/
inductive FutureTask where
  | new
  | cancelled
  | ran
deriving DecidableEq

inductive Pc where
  | idle
  | submit
  | submitExecuteNow (id : Nat)
  | submitAdd (id : Nat)
  | call (id : Nat)
  | onEnd (id : Nat)
  | onEndIsEmpty (id : Nat)
  | onEndClear (id : Nat)
  | onEndRemove (id : Nat)
  | onEndIsCancelled (id head : Nat)
  | onEndExecuteNow (id head : Nat)
  | onEndSetDelegate (id head : Nat)
  | set (id : Nat)
  | cancelGetDelegate (id : Nat)
  | cancelFuture (id : Nat)
  | cancelSetCancelled (id : Nat)
  | cancelReturn (id : Nat)
deriving DecidableEq

/-- `queue` has the callables that the executor accepted and has not begun; `direct`
and `wrapped` have the submissions that returned the executor's own future and those
that returned a `WrappingFuture`. -/
structure Shared (Thread : Type) where
  monitor : Option Thread
  running : Bool
  order : List Nat
  submitted : Nat
  queue : List Nat
  future : Nat → Option FutureTask
  direct : List Nat
  wrapped : List Nat
  delegate : Nat → Bool
  cancelled : Nat → Bool
  started : List Nat
  skipped : List Nat
  cancelledUnstarted : List Nat

structure State (Thread : Type) where
  shared : Shared Thread
  pc : Thread → Pc

inductive Action (Thread : Type) where
  | submit (thread : Thread)
  | cancel (thread : Thread) (id : Nat)
  | start (thread : Thread) (id : Nat)
  | next (thread : Thread)

variable {Thread : Type}

namespace Shared

/-- `executeNow`, in the monitor: the executor accepts the callable. -/
def executeNow (shared : Shared Thread) (id : Nat) : Shared Thread :=
  { shared with
    queue := shared.queue ++ [id]
    future := Function.update shared.future id (some .new) }

/-- `WrappingFuture.isCancelled`. -/
def isCancelled (shared : Shared Thread) (id : Nat) : Bool :=
  if shared.delegate id then decide (shared.future id = some .cancelled) else shared.cancelled id

end Shared

/-- The condition of the loop of `onEnd`. -/
def onEndIsEmpty (shared : Shared Thread) (id : Nat) : Pc :=
  if shared.order = [] then .onEndClear id else .onEndRemove id

/-- The accesses of a thread that is inside a call; `none` while it waits. -/
def exec (thread : Thread) (shared : Shared Thread) : Pc → Option (Shared Thread × Pc)
  | .submit =>
      match shared.monitor with
      | some _ => none
      | none =>
        let entered :=
          { shared with monitor := some thread, submitted := shared.submitted + 1, running := true }
        if shared.running then some (entered, .submitAdd shared.submitted)
        else some (entered, .submitExecuteNow shared.submitted)
  | .submitExecuteNow id =>
      some ({ shared.executeNow id with monitor := none, direct := shared.direct ++ [id] }, .idle)
  | .submitAdd id =>
      some ({ shared with
        order := shared.order ++ [id], monitor := none, wrapped := shared.wrapped ++ [id] }, .idle)
  | .call id => some (shared, .onEnd id)
  | .onEnd id =>
      match shared.monitor with
      | some _ => none
      | none => some ({ shared with monitor := some thread }, onEndIsEmpty shared id)
  | .onEndIsEmpty id => some (shared, onEndIsEmpty shared id)
  | .onEndClear id => some ({ shared with running := false, monitor := none }, .set id)
  | .onEndRemove id =>
      match shared.order with
      -- `remove` throws; the exception takes the place of the result.
      | [] => some ({ shared with monitor := none }, .set id)
      | head :: rest => some ({ shared with order := rest }, .onEndIsCancelled id head)
  | .onEndIsCancelled id head =>
      if shared.isCancelled head then
        some ({ shared with skipped := shared.skipped ++ [head] }, .onEndIsEmpty id)
      else some (shared, .onEndExecuteNow id head)
  | .onEndExecuteNow id head => some (shared.executeNow head, .onEndSetDelegate id head)
  | .onEndSetDelegate id head =>
      some ({ shared with
        delegate := Function.update shared.delegate head true, monitor := none }, .set id)
  | .set id =>
      if shared.future id = some .new then
        some ({ shared with future := Function.update shared.future id (some .ran) }, .idle)
      else some (shared, .idle)
  | .cancelGetDelegate id =>
      some (shared, if shared.delegate id then .cancelFuture id else .cancelSetCancelled id)
  | .cancelFuture id =>
      if shared.future id = some .new then
        some ({ shared with future := Function.update shared.future id (some .cancelled) },
          .cancelReturn id)
      else some (shared, .idle)
  | .cancelSetCancelled id =>
      some ({ shared with cancelled := Function.update shared.cancelled id true },
        .cancelReturn id)
  | .cancelReturn id =>
      if id ∈ shared.started then some (shared, .idle)
      else some ({ shared with cancelledUnstarted := shared.cancelledUnstarted ++ [id] }, .idle)
  | .idle => none

/-- A call on the future that `submit` returned. -/
def cancel (shared : Shared Thread) (id : Nat) : Pc → Option (Shared Thread × Pc)
  | .idle =>
      if id ∈ shared.direct then some (shared, .cancelFuture id)
      else if id ∈ shared.wrapped then some (shared, .cancelGetDelegate id)
      else none
  | _ => none

/-- A worker of the executor begins a callable. -/
def start (shared : Shared Thread) (id : Nat) : Pc → Option (Shared Thread × Pc)
  | .idle =>
      if id ∈ shared.queue ∧ shared.future id = some .new then
        some ({ shared with
          queue := shared.queue.erase id, started := shared.started ++ [id] }, .call id)
      else none
  | _ => none

def submit (shared : Shared Thread) : Pc → Option (Shared Thread × Pc)
  | .idle => some (shared, .submit)
  | _ => none

def Action.thread : Action Thread → Thread
  | .submit thread | .cancel thread _ | .start thread _ | .next thread => thread

def perform (thread : Thread) (shared : Shared Thread) (pc : Pc) :
    Action Thread → Option (Shared Thread × Pc)
  | .submit _ => submit shared pc
  | .cancel _ id => cancel shared id pc
  | .start _ id => start shared id pc
  | .next _ => exec thread shared pc

section System
variable [DecidableEq Thread]

def State.goto (state : State Thread) (thread : Thread) (moved : Shared Thread × Pc) :
    State Thread :=
  { shared := moved.1, pc := Function.update state.pc thread moved.2 }

def step (state : State Thread) (action : Action Thread) : Option (State Thread) :=
  (perform action.thread state.shared (state.pc action.thread) action).map
    (state.goto action.thread)

def singleThreadedScheduler (Thread : Type) [DecidableEq Thread] :
    System (State Thread) (Action Thread) where
  initial :=
    { shared :=
        { monitor := none, running := false, order := [], submitted := 0, queue := []
          future := fun _ => none, direct := [], wrapped := []
          delegate := fun _ => false, cancelled := fun _ => false
          started := [], skipped := [], cancelledUnstarted := [] }
      pc := fun _ => .idle }
  step := step

end System
end Brooklyn.SingleThreadedScheduler
