import FlatMachine.Decimal
import FlatMachine.Failure

/-! # Values

Contexts, event payloads and configurations are dynamic: a machine's author may put anything into
them.  **`Value`** is the closed type of what can be there.

* Data: null, booleans, integers, floating-point numbers (and the one that is no number),
  strings, lists, tuples, mappings (in the order of their entries) and records of a declared
  record type.
* The library's own objects: events, failures, snapshots, transitions, invocations, state nodes,
  machine definitions, awaitables (by owner and number), and the two interfaces that actions and
  invocation sources are called with.
* Callables: a function known by its **`Code`**, with the values it closes over; an assigning
  action built from an updater; a record type, which makes records.

A callable is data here: what it does when called is given elsewhere, by a table over codes.

Two objects that are written alike may still be two.  Those that are told apart by where they
come from carry their **`Origin`**: functions, assigning actions, failures, machine definitions,
and what is no number.  Record types carry a number for the same purpose. -/

namespace FlatMachine

/-- The callbacks of the stock machine that tracks one request. -/
inductive RequestCode where
  /-- take a new input -/
  | accept
  /-- note when the request was started -/
  | start
  | succeed
  | fail
  /-- make the request -/
  | fetch
  deriving DecidableEq, Repr

/-- The callbacks of the stock machine that drives a form. -/
inductive FormCode where
  /-- record a changed field -/
  | change
  /-- record the messages of a validation -/
  | validate
  /-- whether a validation finds nothing -/
  | isValid
  /-- forget the last outcome -/
  | clear
  | succeed
  | fail
  /-- submit the values -/
  | submit
  deriving DecidableEq, Repr

/-- Where the behaviour of a function is found: with the embedding program, by number, or with
one of the stock machines. -/
inductive Code where
  | host (n : Nat)
  | request (c : RequestCode)
  | form (c : FormCode)
  deriving DecidableEq, Repr

/-- On whose behalf something is done: a service by number, or nobody, on the bench. -/
inductive Owner where
  | service (i : Nat)
  | bench
  deriving DecidableEq, Repr

/-- Names an object: who made it, and a number that its maker gave to nothing else. -/
abbrev Origin := Owner × Nat

/-- The origin of what the library makes itself, where nothing has to be told apart; no maker
gives that number. -/
def Origin.own : Origin := (.bench, 0)

/-- Names one activation of a service's invocation slot. -/
abbrev Token := Int

/-- Dynamic values. -/
inductive Value where
  | null
  | bool (b : Bool)
  | int (i : Int)
  | float (x : Decimal)
  /-- the float that is no number -/
  | nan (origin : Origin)
  | str (s : String)
  | list (items : List Value)
  | tuple (items : List Value)
  | map (entries : List (Value × Value))
  | event (type : String) (payload : List (String × Value))
  | failure (origin : Origin) (f : Failure)
  /-- a function with its name, if it has one, and the values it closes over -/
  | function (origin : Origin) (name : Option String) (code : Code) (held : List Value)
  /-- the action that replaces the context by the updater's result -/
  | assign (origin : Origin) (updater : Value)
  /-- a record type by number, with its fields and their defaults, or why there is none; fixed
  fields are not arguments of its maker -/
  | recordType (n : Nat) (name : String) (defaults : List (String × Except Failure Value))
      (fixed : List String)
  /-- a record of the type with that number; fixed fields have their defaults -/
  | record (n : Nat) (name : String) (fixed : List String) (fields : List (String × Value))
  | snapshot (stateName context changed tags : Value)
  | transition (target : Value) (actions : List Value) (guard : Value)
  | invocation (src : Value) (onDone onError : List Value) (autoStart : Value)
  /-- a state node; each event type has a tuple of candidates -/
  | node (on : List (Value × Value)) (entry exit : List Value) (invoke : Value) (tags : List Value)
  | machine (origin : Origin) (id initial context : Value) (states : List (Value × Value))
  /-- an awaitable, numbered by the owner who made it -/
  | awaitable (owner : Owner) (n : Nat)
  /-- the interface of actions: it reads and writes the pending context and sends -/
  | actionAccess (owner : Owner)
  /-- the interface of invocation sources: it watches and cancels its invocation and sends -/
  | sourceAccess (service : Nat) (token : Token)
  deriving Inhabited, Repr

namespace Value

/-- The name of the value's type, as messages give it. -/
def typeName : Value → String
  | null => "NoneType"
  | bool _ => "bool"
  | int _ => "int"
  | float _ | nan _ => "float"
  | str _ => "str"
  | list _ => "list"
  | tuple _ => "tuple"
  | map _ => "dict"
  | event .. => "Event"
  | failure _ f => f.kind.name
  | function .. | assign .. => "function"
  | recordType .. => "type"
  | record _ name .. => name
  | snapshot .. => "Snapshot"
  | transition .. => "Transition"
  | invocation .. => "Invocation"
  | node .. => "StateNode"
  | machine .. => "MachineDefinition"
  | awaitable .. => "Future"
  | actionAccess _ => "ActionAPI"
  | sourceAccess .. => "InvokeAPI"

/-- Only functions, assigning actions and record types can be called. -/
def isCallable : Value → Bool
  | function .. | assign .. | recordType .. => true
  | _ => false

/-- A value counts as true unless it is null, false, a zero, or empty text or an empty
collection. -/
def truth : Value → Bool
  | null => false
  | bool b => b
  | int i => i != 0
  | float x => !x.isZero
  | str s => !s.isEmpty
  | list items | tuple items => !items.isEmpty
  | map entries => !entries.isEmpty
  | _ => true

/-- The null test that optional parts of a definition use. -/
def isNull : Value → Bool
  | null => true
  | _ => false

theorem isNull_iff {v : Value} : v.isNull = true ↔ v = null := by
  cases v <;> simp [isNull]

/-- The name of the action that `assign` makes from an updater, which takes up the updater's
name.  A record goes by the name of its type if it has a field for a name. -/
def assignedName : Value → String
  | function _ name .. => "assign(" ++ name.getD "updater" ++ ")"
  | assign _ updater => "assign(" ++ updater.assignedName ++ ")"
  | recordType _ name .. => "assign(" ++ name ++ ")"
  | record _ name _ fields =>
    if fields.any (·.1 == "__name__") then "assign(" ++ name ++ ")" else "assign(updater)"
  | _ => "assign(updater)"

/-- Mappings are read as entries in order; an event is a mapping of its type and its payload. -/
def entries? : Value → Option (List (Value × Value))
  | map entries => some entries
  | event type payload => some ((str "type", str type) :: payload.map fun (k, v) => (str k, v))
  | _ => none

/-- The characters of a string, as strings. -/
def characters (s : String) : List Value := s.toList.map fun c => str (String.singleton c)

/-- The items in the order of iteration: the characters of a string, the keys of a mapping. -/
def items (v : Value) : Except Failure (List Value) :=
  match v with
  | list items | tuple items => .ok items
  | str s => .ok (characters s)
  | v => match v.entries? with
    | some entries => .ok (entries.map Prod.fst)
    | none => .error (.notIterable v.typeName)

end Value
end FlatMachine
