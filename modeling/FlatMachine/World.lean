import FlatMachine.Service.Basic

/-! # The world of the services

All that callbacks can reach lives in one **`World`**: the services, the event loop with its
ready queue and its awaitables, the clock, the listeners by name, and the journal.

The **journal** is the history, latest entry first.  Some entries can be seen from outside: what
callbacks log, notifications, log records, and failures that escape into the event loop.  The
others record what the services did: which callback was called in which role, which items were
accepted and taken, how states were left and invocations began and ended, what was published, and
when a queue was drained.

Each entry is written at a **`Point`**, which keeps the services as they were then, in a
**`Setting`**, which keeps all else.  `World.passed` lists the points of the history and the
present one, so a statement about all of them is about every moment of a run at which something
happened.

A computation in the world is a **`Run`**: it may be halted by a failure, or for want of fuel,
and what it did until then stays done.

Stamps, serials, tokens and the numbers of awaitables are handed out by each owner for itself, so
what one service does leaves no trace in the numbers of another. -/

namespace FlatMachine

/-- Why a callback is called. -/
inductive Role where
  | guard
  | action
  | hook (m : Moment)
  | source (t : Token)
  | cancel (t : Option Token)
  | listener
  | body
  /-- by another callback -/
  | nested
  /-- as a member of a value that serves as a node or a transition -/
  | member (name : String)
  deriving DecidableEq, Repr

/-- The level of a log record. -/
inductive Level where
  | debug
  | info
  | warning
  deriving DecidableEq, Repr

/-- The visible name of a level. -/
def Level.name : Level → String
  | debug => "DEBUG"
  | info => "INFO"
  | warning => "WARNING"

/-- Why a computation ends early. -/
inductive Halt where
  | raised (f : Failure)
  /-- the fuel is used up -/
  | exhausted
  deriving Repr, Inhabited

/-- One entry of the journal. -/
inductive Entry where
  /-- a callback logged values -/
  | logged (owner : Owner) (label : Value) (values : List Value)
  /-- a listener without a callback was notified -/
  | notified (service : Nat) (listener : String) (s : Snapshot)
  /-- a failure escaped into the event loop -/
  | escaped (f : Failure)
  /-- a log record was written -/
  | record (level : Level) (text : String)
  | called (owner : Owner) (role : Role) (f : Value) (args : List Object)
  | accepted (service : Nat) (item : Item)
  | taken (service : Nat) (item : Item)
  /-- the live state was exited, and its invocation is cancelled -/
  | exited (service : Nat) (name : Value)
  /-- the live state became another one -/
  | moved (service : Nat) (source target : Value)
  /-- an invocation became the active one, in place of what the slot held before -/
  | activated (service : Nat) (token : Token) (invocation : Value) (before : Slot)
  /-- the source of an invocation returned a cancel callback -/
  | attached (service : Nat) (token : Token) (cancel : Value)
  /-- the active invocation ended by its outcome, or because it could not be started -/
  | retired (service : Nat) (token : Token)
  /-- the interface of an invocation was used to cancel it -/
  | revoked (service : Nat) (token : Token)
  /-- the active invocation was cancelled -/
  | cancelled (service : Nat) (token : Token)
  | published (service : Nat) (s : Snapshot)
  /-- a drain of the queue began -/
  | began (service : Nat)
  /-- a drain of the queue ended, on its own or by being halted -/
  | ended (service : Nat) (halt : Option Halt)
  /-- the definition has no node for the live state, or no state for a target -/
  | faulted (service : Nat) (f : Failure)

/-- A point of the history: the services as they were when an entry was written, and the journal
up to it. -/
structure Point where
  services : List Service
  journal : List Entry
  deriving Inhabited

/-- Who waits for an awaitable: an invocation of a service, with the event that entered its
state. -/
structure Waiter where
  service : Nat
  token : Token
  event : Event
  deriving Inhabited

/-- An awaitable: work that is not scheduled yet, or a future with all who ever waited for it. -/
inductive Awaitable where
  | coroutine (pauses : Nat) (body : Value) (args : List Object)
  | future (settled : Option Settlement) (waiters : List Waiter)

/-- What waits for its turn in the event loop. -/
inductive Ready where
  /-- scheduled work, with the pauses it has left -/
  | step (a : AwaitableId) (pauses : Nat) (body : Value) (args : List Object)
  /-- a waiter, to be told how the awaitable ended -/
  | complete (w : Waiter) (a : AwaitableId)

/-- What callbacks can reach besides the services, as it was when an entry was written, and the
journal up to it. -/
structure Setting where
  journal : List Entry
  looping : Bool
  ready : List Ready
  awaitables : List (AwaitableId × Awaitable)
  futures : List AwaitableId
  clock : Nat
  supply : Nat
  listeners : List Listener
  subscriptions : List (Nat × Listener)
  sourceCalls : List (Nat × Token)
  tray : List Value
  deriving Inhabited

/-- Everything that callbacks can reach. -/
structure World where
  services : List Service
  /-- an event loop is running now -/
  looping : Bool
  ready : List Ready
  awaitables : List (AwaitableId × Awaitable)
  /-- the awaitables that are futures, in the order of their making -/
  futures : List AwaitableId
  clock : Nat
  /-- the numbers handed out on the bench are below it -/
  supply : Nat
  /-- the listeners by name; the first one given under a name stays -/
  listeners : List Listener
  /-- service and listener of each subscription -/
  subscriptions : List (Nat × Listener)
  /-- service and token of each call of a host's invocation source -/
  sourceCalls : List (Nat × Token)
  /-- events sent by actions that run on the bench -/
  tray : List Value
  journal : List Entry
  /-- the points passed, one for each entry of the journal -/
  points : List Point
  /-- how all else was at these points -/
  settings : List Setting
  deriving Inhabited

/-- The stamp of the contexts that are the same object wherever they occur.  Whether two other
equal values are one object, as small numbers, short texts or the empty tuple may be, is left to
the program: it hands on the object it holds, or a new one. -/
def sharedStamp? : Value → Option Nat
  | .null => some 0
  | .bool false => some 1
  | .bool true => some 2
  | _ => none

/-- The first number that is handed out; the stamps of shared contexts are below it. -/
def firstNumber : Nat := 3

/-- A world without services. -/
def World.start (looping : Bool) : World where
  services := []
  looping
  ready := []
  awaitables := []
  futures := []
  clock := 0
  supply := firstNumber
  listeners := []
  subscriptions := []
  sourceCalls := []
  tray := []
  journal := []
  points := []
  settings := []

/-- Change a service. -/
def World.change (w : World) (i : Nat) (f : Service → Service) : World :=
  { w with services := w.services.modify i f }

/-- What callbacks can reach besides the services when an entry is written. -/
def World.setting (w : World) (e : Entry) : Setting where
  journal := e :: w.journal
  looping := w.looping
  ready := w.ready
  awaitables := w.awaitables
  futures := w.futures
  clock := w.clock
  supply := w.supply
  listeners := w.listeners
  subscriptions := w.subscriptions
  sourceCalls := w.sourceCalls
  tray := w.tray

/-- Write an entry into the journal. -/
def World.noted (w : World) (e : Entry) : World :=
  { w with
    journal := e :: w.journal
    points := ⟨w.services, e :: w.journal⟩ :: w.points
    settings := w.setting e :: w.settings }

/-- The world as a point of its history. -/
def World.now (w : World) : Point := ⟨w.services, w.journal⟩

/-- The points passed, and the world as it is. -/
def World.passed (w : World) : List Point := w.now :: w.points

/-- Change an awaitable. -/
def World.setAwaitable (w : World) (a : AwaitableId) (x : Awaitable) : World :=
  { w with awaitables := w.awaitables.map fun p => if p.1 = a then (a, x) else p }

/-- A computation in the world. -/
abbrev Run := ExceptT Halt (StateM World)

namespace Run

variable {α : Type}

/-- Fail. -/
def fail (f : Failure) : Run α := throw (.raised f)

/-- The result of a computation that may fail. -/
def ofExcept : Except Failure α → Run α
  | .ok a => pure a
  | .error f => fail f

/-- Handle ordinary failures; all else passes. -/
def rescue (body : Run α) (handle : Failure → Run α) : Run α :=
  tryCatch body fun
    | .raised f => if f.isOrdinary then handle f else throw (.raised f)
    | .exhausted => throw .exhausted

/-- A computation with its own failure as a result. -/
def attempt (body : Run α) : Run (Except Failure α) :=
  tryCatch (do return .ok (← body)) fun
    | .raised f => return .error f
    | .exhausted => throw .exhausted

/-- Write an entry into the journal. -/
def note (e : Entry) : Run Unit := modify (·.noted e)

/-- Write a log record. -/
def record (level : Level) (text : String) : Run Unit := note (.record level text)

/-- A service by number. -/
def service (i : Nat) : Run Service := do
  match (← get).services[i]? with
  | some s => return s
  | none => fail (.missingIndex "list")

/-- Change a service. -/
def update (i : Nat) (f : Service → Service) : Run Unit := modify (·.change i f)

/-- Settle an awaitable, if it is a future that is not settled yet; says whether it was. -/
def settleAwaitable (a : AwaitableId) (settlement : Settlement) : Run Bool := do
  let w ← get
  match w.awaitables.lookup a with
  | some (.future none waiters) =>
    set { w.setAwaitable a (.future (some settlement) waiters) with
      ready := w.ready ++ waiters.map fun waiter => Ready.complete waiter a }
    return true
  | _ => return false

/-- A number that the owner has not handed out before. -/
def mint : Owner → Run Nat
  | .service i => do
    let n := (← service i).supply
    update i fun s => { s with supply := n + 1 }
    return n
  | .bench => do
    let n := (← get).supply
    modify fun w => { w with supply := n + 1 }
    return n

/-- Take an object as context: a context it already is, or a new one. -/
def adopt (owner : Owner) (o : Object) : Run Context := do
  let n ← mint owner
  return ⟨(o.stamp <|> sharedStamp? o.value).getD n, o.value⟩

/-- The result of looking something up in a service's definition; what is not there is noted as a
fault. -/
def lookUp (i : Nat) : Except Failure α → Run α
  | .ok a => pure a
  | .error f => do
    note (.faulted i f)
    fail f

/-- The node of a service's live state. -/
def node (i : Nat) : Run Value := do
  let s ← service i
  lookUp i (s.machine.node s.stateName)

/-- A member of a value. -/
def member (v : Value) (name : String) : Run Value := ofExcept (v.member name)

/-- A snapshot of a service as it is. -/
def currentSnapshot (i : Nat) (changed : Bool) : Run Snapshot := do
  let tags ← member (← node i) "tags"
  let s ← service i
  return ⟨s.stateName, s.context, changed, tags, ← mint (.service i)⟩

/-- Make the token of an invocation the active one of a service. -/
def activate (i : Nat) (t : Token) (invocation : Value) : Run Unit := do
  let before := (← service i).slot
  update i fun s => { s with slot := before.activate t }
  note (.activated i t invocation before)

/-- Retire a token of a service; says whether it was the active one. -/
def retire (i : Nat) (t : Token) : Run Bool := do
  let (slot, active) := (← service i).slot.retire t
  update i fun s => { s with slot }
  if active then note (.retired i t)
  return active

/-- Empty the slot of a service: the token that was active, and the callback to be run. -/
def clear (i : Nat) : Run (Option Token × Option Value) := do
  let before := (← service i).slot
  update i fun s => { s with slot := before.clear.1 }
  if let some t := before.token then note (.cancelled i t)
  return (before.token, before.clear.2)

/-- Record the cancel callback of a token; handed back if it is to be run at once. -/
def attach (i : Nat) (t : Token) (cancel : Value) : Run (Option Value) := do
  let (slot, callback) := (← service i).slot.attach t cancel
  update i fun s => { s with slot }
  if !cancel.isNull then note (.attached i t cancel)
  return callback

/-- Drain a service's queue: hold the draining flag while the body runs. -/
def draining (i : Nat) (body : Run Unit) : Run Unit := do
  update i fun s => { s with queue := s.queue.enter }
  note (.began i)
  tryCatch body fun halt => do
    update i fun s => { s with queue := s.queue.leave true }
    note (.ended i (some halt))
    throw halt
  update i fun s => { s with queue := s.queue.leave false }
  note (.ended i none)

end Run
end FlatMachine
