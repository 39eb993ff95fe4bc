import FlatMachine.Service.Step
import FlatMachine.Machine.Check
import FlatMachine.Machine.Override

/-! # The life of a service

* **`Run.create`** makes a service for a configuration; it is inert until it is started.
* **`Engine.start`** merges an override into the context, enters the initial state and publishes.
* **`Engine.send`** accepts an event and drains the queue, unless a drain is in progress.
* **`Engine.stop`** cancels the invocation, and drops pending events and listeners, for good.
* **`Run.subscribe`** and **`Run.unsubscribe`** add and remove listeners.
* **`Engine.deliver`** accepts the outcome of an invocation. -/

namespace FlatMachine

namespace Run

/-- Make a service, and number it. -/
def create (config : Value) (validator : Validator) (hooks : List Hook) (ownLoop : Bool) :
    Run Nat := do
  let machine ← ofExcept (Machine.create config validator)
  let context ← ofExcept machine.context.copy
  let i := (← get).services.length
  let fresh : Service := {
    machine, hooks, ownLoop
    context := ⟨0, .null⟩
    status := .notStarted
    stateName := machine.initial
    queue := .empty
    slot := .empty
    listeners := []
    snapshot := default
    supply := firstNumber }
  modify fun w => { w with services := w.services ++ [fresh] }
  let context ← adopt (.service i) (.fresh context)
  update i fun s => { s with context }
  let snapshot ← currentSnapshot i false
  update i fun s => { s with snapshot }
  return i

/-- The listener of a name.  A callback given with the name counts only the first time the name
is used. -/
def listenerNamed (name : String) (callback : Option Value) : Run Listener := do
  match (← get).listeners.find? (·.name = name) with
  | some listener => return listener
  | none =>
    let listener : Listener := ⟨name, callback⟩
    modify fun w => { w with listeners := w.listeners ++ [listener] }
    return listener

/-- Register a listener; the number of the subscription. -/
def subscribe (i : Nat) (listener : Listener) : Run Nat := do
  discard (service i)
  let n := (← get).subscriptions.length
  update i fun s => { s with listeners := s.listeners ++ [listener] }
  modify fun w => { w with subscriptions := w.subscriptions ++ [(i, listener)] }
  return n

/-- Remove the first registration of a subscription's listener, or of the same one, if one is
left. -/
def unsubscribe (n : Nat) : Run Unit := do
  match (← get).subscriptions[n]? with
  | some (i, listener) => update i fun s =>
    { s with listeners := s.listeners.eraseP (·.same listener) }
  | none => fail (.missingIndex "list")

end Run

namespace Engine

open Run

variable (g : Engine)

/-- Accept an item and drain the queue. -/
def accept (i : Nat) (item : Item) : Run Unit := do
  update i fun s => { s with queue := s.queue.enqueue item }
  note (.accepted i item)
  g.runQueue i

/-- Send an event, in any of its spellings; only a running service takes it. -/
def send (i : Nat) (event : Value) : Run Unit := do
  if (← service i).status = .running then
    g.accept i (.event (← ofExcept (Event.coerce event)))

/-- Start a service, perhaps with an override of the context, null for none; only a service that
was not started yet is. -/
def start (i : Nat) (override : Value) : Run Unit := do
  let s ← service i
  if s.status = .notStarted then
    let base ← ofExcept s.machine.context.copy
    let merged ← ofExcept (base.override override)
    let context ← adopt (.service i) (.fresh merged)
    update i fun s => { s with context, stateName := s.machine.initial, status := .running }
    record .debug
      ("Starting machine " ++ s.machine.id.shown ++ " in state " ++ s.machine.initial.shown)
    draining i do
      g.enter i .init
      g.publish i
      g.processPending i g.bound

/-- Stop a service for good; only a running service is. -/
def stop (i : Nat) : Run Unit := do
  if (← service i).status = .running then
    update i fun s => { s with status := .stopped }
    g.cancelInvocation i
    update i fun s => { s with queue := s.queue.clear, listeners := [] }
    let s ← service i
    record .debug ("Stopped machine " ++ s.machine.id.shown ++ " in state " ++ s.stateName.shown)

/-- Accept the outcome of an invocation; only a running service takes it. -/
def deliver (w : Waiter) (a : AwaitableId) (settlement : Settlement) : Run Unit := do
  if (← service w.service).status = .running then
    g.accept w.service (.outcome (.ofSettlement w.token w.event a settlement))

end Engine
end FlatMachine
