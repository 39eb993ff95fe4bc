import FlatMachine.Service.Lifecycle
import FlatMachine.Callback.Book

/-! # Running programs

**`Engine.answer`** performs an effect by what services do, **`Engine.exec`** runs a program with
its pending context, and **`Engine.ofBook`** is the engine whose callbacks run the programs of a
book.

Callbacks call services, which call callbacks, without end if they like; fuel bounds the depth of
such calls and the number of items of one drain.  Running out of fuel is told apart from failing. -/

namespace FlatMachine

namespace Run

/-- Make an awaitable, and number it. -/
def addAwaitable (owner : Owner) (x : Awaitable) : Run AwaitableId := do
  let a := (owner, ← mint owner)
  modify fun w => { w with awaitables := w.awaitables ++ [(a, x)] }
  return a

/-- Make a future, which gets a place among the futures. -/
def addFuture (owner : Owner) : Run AwaitableId := do
  let a ← addAwaitable owner (.future none [])
  modify fun w => { w with futures := w.futures ++ [a] }
  return a

/-- Advance and read the clock. -/
def tick : Run Nat := do
  let w ← get
  set { w with clock := w.clock + 1 }
  return w.clock + 1

end Run

namespace Engine

open Run

variable (g : Engine)

/-- Send on an owner's behalf; on the bench, events are put into the tray as they are. -/
def sendFor : Owner → Value → Run Unit
  | .service i, event => g.send i event
  | .bench, event => modify fun w => { w with tray := w.tray ++ [event] }

/-- Perform an effect on an owner's behalf. -/
def answer (owner : Owner) : (r : Effect) → Run r.Reply
  | .log label values => note (.logged owner label values)
  | .call f args => g.invoke owner .nested f args
  | .send sender event => g.sendFor sender event
  | .start i => g.start i .null
  | .stop i => g.stop i
  | .subscribe i name => do discard (subscribe i (← listenerNamed name none))
  | .unsubscribe n => unsubscribe n
  | .isActive i t => do return (← service i).slot.isActive t
  | .cancelInvocation i t => g.revoke i t
  | .liveState i => do return (← currentSnapshot i false).toValue
  | .state i => do return (← service i).snapshot.toValue
  | .status i => do return .str (← service i).status.name
  | .future => addFuture owner
  | .settle a settlement => discard (settleAwaitable a settlement)
  | .sharedFuture n => do
    match (← get).futures[n]? with
    | some a => return a
    | none => fail (.missingIndex "list")
  | .coroutine pauses body args => addAwaitable owner (.coroutine pauses body args)
  | .now => tick
  | .origin => do return (owner, ← mint owner)

/-- Run a program on an owner's behalf.  Only an action has a pending context. -/
def exec (owner : Owner) {α : Type} : Prog α → Option Context → Run (α × Option Context)
  | .done a, c => pure (a, c)
  | .fail f, _ => Run.fail f
  | .pending _, none => Run.fail (.noMember "NoneType" "context")
  | .pending next, some c => exec owner (next c) (some c)
  | .write _ _, none => Run.fail (.noMember "NoneType" "set_context")
  | .write o next, some _ => do exec owner next (some (← adopt owner o))
  | .ask r next, c => do exec owner (next (← g.answer owner r)) c
  | .handle r next, c => do exec owner (next (← Run.attempt (g.answer owner r))) c

/-- The engine of a book, for the given fuel. -/
def ofBook (book : Book) : Nat → Engine
  | 0 => { call := fun _ _ _ _ => throw .exhausted, bound := 0 }
  | fuel + 1 =>
    { call := fun owner f args c => (ofBook book fuel).exec owner (book f args) c
      bound := fuel + 1 }

end Engine
end FlatMachine
