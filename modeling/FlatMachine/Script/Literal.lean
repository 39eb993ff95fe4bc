import FlatMachine.Callback.Maker

/-! # Literals

A **`Literal`** is a value as it is written in a script, or handed in by a host.
**`Literal.eval`** builds the value: parts from left to right, each part with the checks of its
own maker.

Every evaluation builds the value anew, so what is told apart by its origin has a new one each
time. -/

namespace FlatMachine

/-- Values as written. -/
inductive Literal where
  | null
  | bool (b : Bool)
  | int (i : Int)
  | float (x : Decimal)
  | nan
  | str (s : String)
  | list (items : List Literal)
  | tuple (items : List Literal)
  | map (entries : List (Literal × Literal))
  | event (type payload : Literal)
  | failure (kind : Kind) (message : String)
  /-- a function of the host by number -/
  | function (name : Option String) (n : Nat)
  | assign (updater : Literal)
  /-- a record type by number, with its fields' defaults -/
  | recordType (n : Nat) (name : String) (defaults : List (String × Literal)) (fixed : List String)
  /-- a record whose fields have their defaults -/
  | record (n : Nat) (name : String) (defaults : List (String × Literal)) (fixed : List String)
  | transition (args : List (String × Literal))
  | invocation (args : List (String × Literal))
  | node (args : List (String × Literal))
  | machine (args : List (String × Literal))
  deriving Inhabited

namespace Literal

mutual

/-- The value that is written. -/
def eval : Literal → Prog Value
  | null => .done .null
  | bool b => .done (.bool b)
  | int i => .done (.int i)
  | float x => .done (.float x)
  | nan => do return .nan (← .perform .origin)
  | str s => .done (.str s)
  | list items => do return .list (← evalItems items)
  | tuple items => do return .tuple (← evalItems items)
  | map entries => do return .map (← evalEntries [] entries)
  | event type payload => do
    let type ← type.eval
    let payload ← .spread (← payload.eval)
    return (← .ofExcept (Event.make type payload)).toValue
  | failure kind message => do return .failure (← .perform .origin) (.raised kind message)
  | function name n => do return .function (← .perform .origin) name (.host n) []
  | assign updater => do
    let updater ← updater.eval
    return .assign (← .perform .origin) updater
  | recordType n name defaults fixed => do
    .ofExcept (Value.checkNames (defaults.map Prod.fst))
    return .recordType n name (← evalDefaults defaults) fixed
  | record n name defaults fixed => do
    .ofExcept (Value.checkNames (defaults.map Prod.fst))
    return .record n name fixed (← evalFields defaults)
  | transition args => do .ofExcept (Transition.ofArguments (← evalFields args))
  | invocation args => do .ofExcept (Invocation.ofArguments (← evalFields args))
  | node args => do Node.build (← evalFields args)
  | machine args => do Machine.build (← evalFields args)
termination_by structural l => l

/-- The items, in order. -/
def evalItems : List Literal → Prog (List Value)
  | [] => .done []
  | l :: rest => do
    let v ← l.eval
    return v :: (← evalItems rest)
termination_by structural ls => ls

/-- The entries of a mapping, added to those that are there; an equal key keeps its place and its
first spelling. -/
def evalEntries (entries : Value.Entries) : List (Literal × Literal) → Prog Value.Entries
  | [] => .done entries
  | (k, v) :: rest => do
    let k ← k.eval
    let v ← v.eval
    .ofExcept (Value.checkKey k)
    evalEntries (Value.insert k v entries) rest
termination_by structural ls => ls

/-- The defaults of a record type, or why one cannot be made. -/
def evalDefaults : List (String × Literal) → Prog (List (String × Except Failure Value))
  | [] => .done []
  | (name, l) :: rest => do
    let v ← l.eval.attempt
    return (name, v) :: (← evalDefaults rest)
termination_by structural ls => ls

/-- The named values, in order. -/
def evalFields : List (String × Literal) → Prog Fields
  | [] => .done []
  | (name, l) :: rest => do
    let v ← l.eval
    return (name, v) :: (← evalFields rest)
termination_by structural ls => ls

end

end Literal
end FlatMachine
