import FlatMachine.Event
import FlatMachine.Value.Member
import FlatMachine.Value.Record

/-! # Machine definitions

A flat machine is a mapping from state names to state nodes, with an initial state and an initial
context.  A node lists candidate transitions by event type, entry and exit actions, perhaps one
invocation, and tags.  Parts of a definition are dynamic values, so each of the four structures
here has a view on values: **`ofValue?`** recognises the value of such an object and
**`toValue`** builds it.  Whoever only reads a part takes any value that has a member of that
name.

Ready-made transitions and invocations are built from named arguments by **`ofArguments`**, with
exactly the conversions that the objects themselves make: sequences become tuples. -/

namespace FlatMachine

namespace Fields

/-- The arguments of a maker with the given parameters, each perhaps with a default, in the order of
the parameters. -/
def arguments (maker : String) (parameters : List (String × Option Value)) (args : Fields) :
    Except Failure (List Value) := do
  Value.checkFields maker (parameters.map Prod.fst) args
  parameters.mapM fun (name, default) =>
    match args.get? name <|> default with
    | some v => .ok v
    | none => .error (.wrongArguments (maker ++ ".__init__"))

end Fields

/-- One candidate path out of a state.  Without a target, or with the current state as target, it
is internal. -/
structure Transition where
  target : Value
  actions : List Value
  guard : Value
  deriving Inhabited

namespace Transition

def toValue (t : Transition) : Value := .transition t.target t.actions t.guard

def ofValue? : Value → Option Transition
  | .transition target actions guard => some ⟨target, actions, guard⟩
  | _ => none

@[simp] theorem ofValue?_toValue (t : Transition) : ofValue? t.toValue = some t := rfl

/-- A transition from its target, its actions in any sequence, and its guard. -/
def make (target actions guard : Value) : Except Failure Transition := do
  return ⟨target, ← actions.items, guard⟩

/-- A ready-made transition. -/
def ofArguments (args : Fields) : Except Failure Value := do
  match ← args.arguments "Transition" [("target", some .null), ("actions", some (.tuple [])),
      ("guard", some .null)] with
  | [target, actions, guard] => return (← make target actions guard).toValue
  | _ => throw (.wrongArguments "Transition.__init__")

/-- Taking the candidate keeps the machine in its state. -/
def isInternal (t : Transition) (current : Value) : Bool := t.target.isNull || t.target.same current

end Transition

/-- The asynchronous operation tied to being in a state: its source, the candidates tried when it
succeeds and when it fails, and whether entry starts it. -/
structure Invocation where
  src : Value
  onDone : List Value
  onError : List Value
  autoStart : Value
  deriving Inhabited

namespace Invocation

def toValue (i : Invocation) : Value := .invocation i.src i.onDone i.onError i.autoStart

def ofValue? : Value → Option Invocation
  | .invocation src onDone onError autoStart => some ⟨src, onDone, onError, autoStart⟩
  | _ => none

@[simp] theorem ofValue?_toValue (i : Invocation) : ofValue? i.toValue = some i := rfl

/-- A ready-made invocation. -/
def ofArguments (args : Fields) : Except Failure Value := do
  match ← args.arguments "Invocation" [("src", none), ("on_done", some (.tuple [])),
      ("on_error", some (.tuple [])), ("auto_start", some (.bool true))] with
  | [src, onDone, onError, autoStart] =>
    return Invocation.toValue ⟨src, ← onDone.items, ← onError.items, autoStart⟩
  | _ => throw (.wrongArguments "Invocation.__init__")

end Invocation

/-- A state: its candidates by event type, entry and exit actions, invocation and tags. -/
structure Node where
  on : Value.Entries
  entry : List Value
  exit : List Value
  invoke : Value
  tags : List Value
  deriving Inhabited

namespace Node

def toValue (n : Node) : Value := .node n.on n.entry n.exit n.invoke n.tags

def ofValue? : Value → Option Node
  | .node on entry exit invoke tags => some ⟨on, entry, exit, invoke, tags⟩
  | _ => none

@[simp] theorem ofValue?_toValue (n : Node) : ofValue? n.toValue = some n := rfl

/-- One entry of `on`: an event type with any sequence of candidates. -/
def onEntry (entry : Value × Value) : Except Failure (Value × Value) := do
  return (entry.1, .tuple (← entry.2.items))

/-- The entries of `on` from a sequence of pairs. -/
def onPairs (items : List Value) : Except Failure Value.Entries :=
  items.foldlM (fun on item => do
    let (type, candidates) ← onEntry (← item.pair)
    return Value.insert type candidates on) []

/-- A node from its parts; actions and tags are any sequences. -/
def make (on : Value.Entries) (entry exit invoke tags : Value) : Except Failure Node := do
  let entry ← entry.items
  let exit ← exit.items
  let tags ← Value.distinct (← tags.items)
  return ⟨on, entry, exit, invoke, tags⟩

/-- The candidates registered for an event type, in order. -/
def candidatesFor (n : Node) (type : String) : List Value :=
  match Value.field type n.on with
  | some (.tuple candidates) => candidates
  | _ => []

end Node

/-- A machine: its name, initial state, initial context, and nodes by state name. -/
structure Machine where
  id : Value
  initial : Value
  context : Value
  states : Value.Entries
  deriving Inhabited

namespace Machine

def toValue (m : Machine) : Value := .machine .own m.id m.initial m.context m.states

def ofValue? : Value → Option Machine
  | .machine _ id initial context states => some ⟨id, initial, context, states⟩
  | _ => none

@[simp] theorem ofValue?_toValue (m : Machine) : ofValue? m.toValue = some m := rfl

/-- A state of that name is defined. -/
def defines (m : Machine) (name : Value) : Except Failure Bool := Value.hasKeyChecked name m.states

/-- Refuse a name under which no state is defined. -/
def demand (m : Machine) (name : Value) : Except Failure Unit := do
  if !(← m.defines name) then throw (.undefinedState name.shown)

/-- The node of a state. -/
def node (m : Machine) (name : Value) : Except Failure Value := do
  Value.checkKey name
  match Value.lookup name m.states with
  | some v => return v
  | none => throw (.missingKey name.shown)

/-- A machine as a message shows it: its name and its states. -/
def shown (m : Machine) : String := m.toValue.shown

end Machine
end FlatMachine
