import FlatMachine.Service.Running

/-! # The event loop

Scheduled work and waiters take their turns in the order in which they became ready.  Work that
has pauses left goes to the back of the queue with one fewer; otherwise its body is called, and
its end settles its future.  A future that is settled makes its waiters ready, in the order in
which they came.

A waiter's failure has no caller to go to; it is noted, and the loop goes on. -/

namespace FlatMachine

/-- There is a future at that place among the futures, and it is not settled yet. -/
def World.isPending (w : World) (n : Nat) : Bool :=
  match w.futures[n]?.bind (w.awaitables.lookup ·) with
  | some (.future none _) => true
  | _ => false

namespace Run

/-- Settle a future by its place among the futures; says whether it was there and not settled
yet. -/
def settleFuture (n : Nat) (settlement : Settlement) : Run Bool := do
  match (← get).futures[n]? with
  | some a => settleAwaitable a settlement
  | none => return false

/-- Take the first in the ready queue. -/
def takeReady : Run (Option Ready) := do
  let w ← get
  match w.ready with
  | [] => return none
  | r :: rest =>
    set { w with ready := rest }
    return some r

/-- Run a body inside the event loop; invocations can be scheduled meanwhile. -/
def onLoop {α : Type} (body : Run α) : Run α := do
  let outside := (← get).looping
  modify fun w => { w with looping := true }
  let a ← body
  modify fun w => { w with looping := outside }
  return a

end Run

/-- How work ended that failed: its cancellation, or the failure. -/
def Settlement.ofFailure (f : Failure) : Settlement :=
  if f.kind = .cancelled then .cancelled else .failed f

namespace Engine

open Run

variable (g : Engine)

/-- Call the body of scheduled work and say how it ended. -/
def callBody (owner : Owner) (body : Value) (args : List Object) : Run Settlement :=
  tryCatch (do return .value (← g.invoke owner .body body args).value) fun
    | .raised f => return .ofFailure f
    | .exhausted => throw .exhausted

/-- Tell a waiter how its awaitable ended; a failure is noted. -/
def complete (w : Waiter) (a : AwaitableId) : Run Unit := do
  match (← get).awaitables.lookup a with
  | some (.future (some settlement) _) =>
    tryCatch (g.deliver w a settlement) fun
      | .raised f => note (.escaped f)
      | .exhausted => throw .exhausted
  | _ => return

/-- Take one turn. -/
def turn : Ready → Run Unit
  | .step a (pauses + 1) body args => modify fun w =>
    { w with ready := w.ready ++ [Ready.step a pauses body args] }
  | .step a 0 body args => do discard (settleAwaitable a (← g.callBody a.1 body args))
  | .complete w a => g.complete w a

/-- Let the first in the ready queue take its turn; says whether there was one. -/
def takeTurn : Run Bool := do
  match ← takeReady with
  | none => return false
  | some r => g.turn r; return true

/-- Take turns until nothing is ready. -/
def runLoop : Nat → Run Unit
  | 0 => throw .exhausted
  | fuel + 1 => do if ← g.takeTurn then runLoop fuel

/-- Run the event loop until it is idle. -/
def flush : Run Unit := onLoop (g.runLoop g.bound)

end Engine
end FlatMachine
