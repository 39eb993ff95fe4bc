import FlatMachine.Slot
import FlatMachine.Event

/-! # Callbacks as programs

What a callback does is a **`Prog`**: a tree of effects on its surroundings, each with a
continuation for every possible reply, ending in a result or a failure.  A callback may log,
send, start, stop, subscribe, cancel, create awaitables, call other callables and read the clock,
in any order and depending on all it has learned, and it may go on where something that it asked
for failed (**`Prog.handle`**).

* **`Context`** is a context as an object, told from an equal one by its stamp.
* **`Object`** is a value in a callback's hands, which may still be the very context it was
  given.  Callbacks are called with objects and return one.
* **`Effect`** and **`Effect.Reply`** are what a program can ask for and what it gets.

Reading and writing the pending context are apart from the effects: they concern only the running
action.

What has no effect here, a callback cannot do.

* It starts a service without an override of the context; whoever commands the services may give
  one.
* It subscribes a listener by name and is handed no function to unsubscribe with; it can end any
  subscription by number.
* It changes no value in place, so a value is the same in every hand that holds it.
* It reads and writes the pending context only while its action runs, and cannot keep the handle
  for later. -/

namespace FlatMachine

/-- A context as an object. -/
structure Context where
  stamp : Nat
  value : Value
  deriving Inhabited

/-- A value in a callback's hands, with its stamp if it is a context it was given. -/
structure Object where
  stamp : Option Nat
  value : Value
  deriving Inhabited

namespace Object

/-- A new object. -/
def fresh (v : Value) : Object := ⟨none, v⟩

/-- A context handed on. -/
def held (c : Context) : Object := ⟨some c.stamp, c.value⟩

end Object

/-- Names an awaitable by its origin. -/
abbrev AwaitableId := Origin

/-- An awaitable as a value. -/
def AwaitableId.toValue (a : AwaitableId) : Value := .awaitable a.1 a.2

/-- How awaited work ended. -/
inductive Settlement where
  | value (v : Value)
  | failed (f : Failure)
  | cancelled
  deriving Inhabited

/-- What a program can ask for. -/
inductive Effect where
  | log (label : Value) (values : List Value)
  | call (f : Value) (args : List Object)
  | send (owner : Owner) (event : Value)
  | start (service : Nat)
  | stop (service : Nat)
  | subscribe (service : Nat) (listener : String)
  | unsubscribe (subscription : Nat)
  | isActive (service : Nat) (token : Token)
  | cancelInvocation (service : Nat) (token : Token)
  /-- a snapshot of the service as it is -/
  | liveState (service : Nat)
  /-- the last published snapshot -/
  | state (service : Nat)
  | status (service : Nat)
  /-- a new future -/
  | future
  /-- settle an awaitable -/
  | settle (a : AwaitableId) (settlement : Settlement)
  /-- a future made before, by number -/
  | sharedFuture (n : Nat)
  /-- work that pauses some times, then calls the body -/
  | coroutine (pauses : Nat) (body : Value) (args : List Object)
  /-- the clock, which advances with each reading -/
  | now
  /-- an origin that nothing has yet -/
  | origin

/-- The type of the reply to an effect. -/
def Effect.Reply : Effect → Type
  | call .. => Object
  | isActive .. => Bool
  | liveState _ | state _ | status _ => Value
  | future | sharedFuture _ | coroutine .. => AwaitableId
  | now => Nat
  | origin => Origin
  | _ => Unit

/-- What a callback does. -/
inductive Prog (α : Type) where
  | done (a : α)
  | fail (f : Failure)
  /-- read the pending context -/
  | pending (next : Context → Prog α)
  /-- replace the pending context -/
  | write (o : Object) (next : Prog α)
  | ask (r : Effect) (next : r.Reply → Prog α)
  /-- ask, and go on with the failure too -/
  | handle (r : Effect) (next : Except Failure r.Reply → Prog α)

namespace Prog

variable {α β : Type}

/-- Run one program after another. -/
def bind : Prog α → (α → Prog β) → Prog β
  | done a, k => k a
  | fail f, _ => fail f
  | pending next, k => pending fun c => (next c).bind k
  | write o next, k => write o (next.bind k)
  | ask r next, k => ask r fun x => (next x).bind k
  | handle r next, k => handle r fun x => (next x).bind k

instance : Monad Prog where
  pure := done
  bind := bind

/-- One effect. -/
def perform (r : Effect) : Prog r.Reply := ask r done

/-- A program with its own failure as a result; the failure of what it asks for still ends it. -/
def attempt : Prog α → Prog (Except Failure α)
  | done a => done (.ok a)
  | fail f => done (.error f)
  | pending next => pending fun c => (next c).attempt
  | write o next => write o next.attempt
  | ask r next => ask r fun x => (next x).attempt
  | handle r next => handle r fun x => (next x).attempt

/-- The result of a computation that may fail. -/
def ofExcept : Except Failure α → Prog α
  | .ok a => done a
  | .error f => fail f

/-- Set the pending context.  A callable is not stored: it is called with the pending context, and
its result is. -/
def setContext (o : Object) : Prog Unit :=
  if o.value.isCallable then
    pending fun c => ask (.call o.value [.held c]) fun result => write result (done ())
  else write o (done ())

end Prog
end FlatMachine
