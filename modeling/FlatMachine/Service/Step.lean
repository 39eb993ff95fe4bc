import FlatMachine.Service.Invoking

/-! # Processing items

A service processes its items one at a time, each to completion.

* **`Engine.apply`** takes a transition.  An external one exits, cancels the invocation, runs its
  actions and enters; an internal one only runs its actions.
* **`Engine.processEvent`** and **`Engine.settle`** process the two sorts of items.
* **`Engine.processPending`** takes items until none waits or the service is no longer running,
  and publishes a snapshot after each that changed the state or replaced the context.
* **`Engine.runQueue`** does so unless somebody is draining already. -/

namespace FlatMachine

/-- Replace the live context. -/
def Run.commit (i : Nat) (c : Context) : Run Unit := update i fun s => { s with context := c }

namespace Engine

open Run

variable (g : Engine)

/-- Run actions on the live context. -/
def act (i : Nat) (actions : Value) (e : Event) : Run Unit := do
  commit i (← g.runActionsOf (.service i) actions (← service i).context e)

/-- Call the hooks of a service. -/
def observeService (i : Nat) (m : Moment) (args : List Object) : Run Unit := do
  g.observe (.service i) (← service i).hooks m args

/-- Enter the live state. -/
def enter (i : Nat) (e : Event) : Run Unit := do
  let n ← node i
  g.act i (← member n "entry") e
  let s ← service i
  g.observeService i .enter [.fresh s.stateName, .held s.context]
  let invocation ← member n "invoke"
  if !invocation.isNull then
    if (← member invocation "auto_start").truth then g.startInvocation i invocation e

/-- Leave the live state: exit actions and hooks, then the invocation is cancelled. -/
def exit (i : Nat) (e : Event) : Run Unit := do
  g.act i (← member (← node i) "exit") e
  let s ← service i
  g.observeService i .exit [.fresh s.stateName, .held s.context]
  note (.exited i s.stateName)
  g.cancelInvocation i

/-- Move to the target and enter it. -/
def move (i : Nat) (source target : Value) (e : Event) : Run Unit := do
  update i fun s => { s with stateName := target }
  note (.moved i source target)
  let s ← service i
  record .debug
    ("Machine " ++ s.machine.id.shown ++ ": " ++ source.shown ++ " -> " ++ target.shown ++ " on " ++
    Text.quote e.type)
  g.observeService i .transition [.fresh source, .fresh target, .fresh e.toValue]
  g.enter i e

/-- Take a candidate on an event.  The candidate's own actions see the event `seen`, all else sees
the event itself. -/
def apply (i : Nat) (candidate : Value) (e seen : Event) : Run Unit := do
  let s ← service i
  if (← g.internality (.service i) candidate s.stateName).truth then
    g.act i (← member candidate "actions") seen
  else do
    let target ← member candidate "target"
    lookUp i (s.machine.demand target)
    g.exit i e
    g.act i (← member candidate "actions") seen
    g.move i s.stateName target e

/-- Process an event. -/
def processEvent (i : Nat) (e : Event) : Run Unit := do
  let candidates ← g.candidatesFor (.service i) (← node i) e.type
  match ← g.resolve (.service i) candidates (← service i).context e with
  | some (_, t) => g.apply i t e e
  | none =>
    record .debug
      ("No transition for " ++ Text.quote e.type ++ " in state " ++ (← service i).stateName.shown)

/-- What an outcome that is still wanted leads to: the candidates tried, with the event extended
by the outcome. -/
def settleWanted (i : Nat) (o : Outcome) : Run Unit := do
  let invocation ← member (← node i) "invoke"
  let candidates ← member invocation (if o.failed then "on_error" else "on_done")
  let seen ← ofExcept
    (o.event.withPayload [if o.failed then ("error", o.error) else ("data", o.data)])
  match ← g.resolve (.service i) (← ofExcept candidates.items) (← service i).context seen with
  | some (_, t) => g.apply i t o.event seen
  | none =>
    if o.failed then
      record .info ("Unhandled invocation error in state " ++ (← service i).stateName.shown ++
        ": " ++ o.error.shown)
      g.observeService i .error [.fresh o.error]

/-- Process an outcome.  It is wanted only if the slot still holds its token. -/
def settle (i : Nat) (o : Outcome) : Run Unit := do
  if ← retire i o.token then
    if !o.cancelled then g.settleWanted i o
  else
    record .debug ("Ignoring stale invocation <token> in state " ++ (← service i).stateName.shown)

/-- Process one item. -/
def process (i : Nat) : Item → Run Unit
  | .event e => g.processEvent i e
  | .outcome o => g.settle i o

/-- Notify a listener of a published snapshot. -/
def notify (i : Nat) (s : Snapshot) (listener : Listener) : Run Unit :=
  match listener.callback with
  | some f => discard (g.invoke (.service i) .listener f [.fresh s.toValue])
  | none => note (.notified i listener.name s)

/-- Publish a snapshot and notify the listeners registered now. -/
def publish (i : Nat) : Run Unit := do
  let snapshot ← currentSnapshot i true
  update i fun s => { s with snapshot }
  note (.published i snapshot)
  (← service i).listeners.forM (g.notify i snapshot)

/-- Take one item and process it; publish if it changed the state or replaced the context.  Says
whether the service goes on. -/
def processNext (i : Nat) (before : Service) (item : Item) : Run Bool := do
  update i fun s => { s with queue := s.queue.dequeue.2 }
  note (.taken i item)
  g.process i item
  let after ← service i
  if after.status = .running then
    if !after.stateName.same before.stateName || after.context.stamp ≠
      before.context.stamp then g.publish i
    return true
  else return false

/-- Process items until none waits or the service is no longer running. -/
def processPending (i : Nat) : Nat → Run Unit
  | 0 => throw .exhausted
  | fuel + 1 => do
    let s ← service i
    match s.queue.items with
    | [] => return
    | item :: _ =>
      if s.status = .running then
        if ← g.processNext i s item then processPending i fuel

/-- Drain the queue, unless a drain is in progress. -/
def runQueue (i : Nat) : Run Unit := do
  if (← service i).queue.draining then return
  draining i (g.processPending i g.bound)

end Engine
end FlatMachine
