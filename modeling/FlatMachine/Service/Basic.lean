import FlatMachine.Machine.Basic
import FlatMachine.Queue
import FlatMachine.Callback.Program

/-! # Services

A service is a machine at work.  It has a lifecycle status, a live state and context, the last
published snapshot, a queue of pending items, an invocation slot, and its listeners in order of
registration.

What waits in the queue is an event that was sent or the outcome of an invocation. -/

namespace FlatMachine

/-- The lifecycle of a service; nothing follows `stopped`. -/
inductive Status where
  | notStarted
  | running
  | stopped
  deriving DecidableEq, Repr, Inhabited

/-- The visible name of a status. -/
def Status.name : Status → String
  | notStarted => "NOT_STARTED"
  | running => "RUNNING"
  | stopped => "STOPPED"

/-- How the work of an invocation ended, with the event that entered the state which started it. -/
structure Outcome where
  token : Token
  event : Event
  data : Value
  error : Value
  cancelled : Bool
  deriving Inhabited

namespace Outcome

/-- The outcome holds an error. -/
def failed (o : Outcome) : Bool := !o.error.isNull

/-- The outcome that the settlement of an awaitable makes.  An awaitable fails once, so its
failure has its origin. -/
def ofSettlement (token : Token) (event : Event) (a : AwaitableId) : Settlement → Outcome
  | .value v => ⟨token, event, v, .null, false⟩
  | .failed f => ⟨token, event, .null, .failure a f, false⟩
  | .cancelled => ⟨token, event, .null, .null, true⟩

end Outcome

/-- What waits in a service's queue. -/
inductive Item where
  | event (e : Event)
  | outcome (o : Outcome)

/-- A view of a service at one time.  The serial number tells publications apart. -/
structure Snapshot where
  stateName : Value
  context : Context
  changed : Bool
  tags : Value
  serial : Nat
  deriving Inhabited

/-- A snapshot as a value. -/
def Snapshot.toValue (s : Snapshot) : Value :=
  .snapshot s.stateName s.context.value (.bool s.changed) s.tags

namespace Snapshot

/-- A snapshot, as a value, was taken in that state. -/
def valueMatches (v name : Value) : Bool :=
  match v with
  | .snapshot stateName _ _ _ => stateName.same name
  | _ => false

/-- A tag is among the tags of a snapshot, as a value. -/
def valueHasTag (v tag : Value) : Except Failure Bool :=
  match v with
  | .snapshot _ _ _ tags => tag.isWithin tags
  | v => .error (.noMember v.typeName "has_tag")

end Snapshot

/-- The lifecycle moments that hooks observe. -/
inductive Moment where
  | enter
  | exit
  | transition
  | error
  deriving DecidableEq, Repr

/-- The hook method of a moment. -/
def Moment.method : Moment → String
  | enter => "on_enter"
  | exit => "on_exit"
  | transition => "on_transition"
  | error => "on_error"

/-- An observer: callables under the methods it defines. -/
abbrev Hook := Fields

/-- What the hook does at a moment, if anything. -/
def Hook.method? (h : Hook) (m : Moment) : Option Value :=
  match h.get? m.method with
  | none | some .null => none
  | some f => some f

/-- A listener.  One without a callback has its notifications journalled. -/
structure Listener where
  name : String
  callback : Option Value
  deriving Inhabited

namespace Listener

/-- Two listeners are the same if they have the same name, or callbacks that are equal. -/
def same (a b : Listener) : Bool :=
  a.name == b.name ||
    match a.callback, b.callback with
    | some f, some g => f.same g
    | _, _ => false

theorem same_self (a : Listener) : a.same a = true := by simp [same]

end Listener

/-- A machine at work. -/
structure Service where
  machine : Machine
  hooks : List Hook
  /-- the service has an event loop of its own to schedule on -/
  ownLoop : Bool
  status : Status
  stateName : Value
  context : Context
  queue : Queue Item
  slot : Slot
  listeners : List Listener
  snapshot : Snapshot
  /-- the stamps, serials and tokens handed out so far are below it -/
  supply : Nat
  deriving Inhabited

/-- A service as a message shows it. -/
def Service.shown (s : Service) : String :=
  "<Service " ++ s.machine.id.shown ++ " " ++ s.status.name ++ " state=" ++ s.stateName.shown ++ ">"

/-- The awaitable that a source returned, and its cancel callback, null for none: the source
returns the awaitable alone or a pair of the two. -/
def awaitableOf (result : Value) : Except Failure (AwaitableId × Value) :=
  match result with
  | .awaitable o n => .ok ((o, n), .null)
  | .tuple [.awaitable o n, cancel] =>
    if cancel.isNull || cancel.isCallable then .ok ((o, n), cancel) else .error
      (.cancelShape cancel.shown)
  | v => .error (.sourceResult v.typeName)

end FlatMachine
