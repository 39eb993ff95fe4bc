import FlatMachine.Callback.Program
import FlatMachine.Machine.Parts

/-! # Makers that ask

Where a mapping is wanted, a value that has the right member may stand in for it: the member is
called, and what it gives is read.  So these makers are programs.

* **`Prog.entries`** and **`Prog.spread`** read a value as entries, and as named values.  A value
  that is no mapping may have a member that lists its keys; nothing can be looked up in it, so it
  has to list none.
* **`Prog.toEntries`** takes a sequence of pairs as well.
* **`Node.build`** and **`Machine.build`** make nodes and machine definitions from named
  arguments; the candidates of a node may come from a member that lists them.
* **`Value.put`** sets a key of a mapping, or a part of a value made of named parts. -/

namespace FlatMachine
namespace Prog

/-- What a member of a value gives when it is called, item by item. -/
def listing (v : Value) (name : String) : Prog (List Value) := do
  let given ← perform (.call (← ofExcept (v.member name)) [])
  ofExcept given.value.items

/-- The entries of a value that lists its keys. -/
def listed (v : Value) : Prog Value.Entries := do
  match ← listing v "keys" with
  | [] => return []
  | _ => fail (.notSubscriptable v.typeName)

/-- The value has a member that lists its keys. -/
def listsKeys (v : Value) : Bool := (v.member "keys").isOk

/-- The entries of a value that stands for a mapping. -/
def entries (v : Value) : Prog Value.Entries :=
  match v.entries? with
  | some entries => done entries
  | none => if listsKeys v then listed v else fail (.notMapping v.typeName)

/-- The named values of a value that stands for a mapping. -/
def spread (v : Value) : Prog Fields := do
  match Fields.ofEntries? (← entries v) with
  | some fields => return fields
  | none => fail .keywordsNotStrings

/-- The entries that a mapping is made with: of a mapping, or of a sequence of pairs. -/
def toEntries (v : Value) : Prog Value.Entries :=
  if v.entries?.isNone && listsKeys v then listed v else ofExcept v.toEntries

end Prog

namespace Node

/-- The entries of `on`, from a mapping or what lists its entries. -/
def candidateEntries (on : Value) : Prog Value.Entries :=
  match on.entries? with
  | some entries => .ofExcept (entries.mapM onEntry)
  | none => do .ofExcept (onPairs (← .listing on "items"))

/-- A ready-made node: sequences become tuples, and tags lose repetitions. -/
def build (args : Fields) : Prog Value := do
  let parts ← .ofExcept
    (args.arguments "StateNode" [("on", some (.map [])), ("entry", some (.tuple [])),
    ("exit", some (.tuple [])), ("invoke", some .null), ("tags", some (.tuple []))])
  match parts with
  | [on, entry, exit, invoke, tags] => do
    let on ← candidateEntries on
    return (← .ofExcept (make on entry exit invoke tags)).toValue
  | _ => .fail (.wrongArguments "StateNode.__init__")

end Node

namespace Machine

/-- A ready-made machine definition. -/
def build (args : Fields) : Prog Value := do
  let parts ← .ofExcept (args.arguments "MachineDefinition" [("initial", none), ("states", none),
    ("context", some .null), ("id", some (.str "machine"))])
  match parts with
  | [initial, states, context, id] => do
    let states ← .toEntries states
    return .machine (← .perform .origin) id initial context states
  | _ => .fail (.wrongArguments "MachineDefinition.__init__")

end Machine

namespace Value

/-- A value like a given one with one part changed; a value without named parts gives way to a
mapping. -/
def putPart (name : String) (base value : Value) : Prog Value :=
  match base with
  | node .. => Node.build (Fields.merge (base.parts?.getD []) [(name, value)])
  | machine .. => Machine.build (Fields.merge (base.parts?.getD []) [(name, value)])
  | _ => .ofExcept ((base.rebuild? [(name, value)]).getD (.ok (map [(str name, value)])))

/-- A mapping with one key set, or a value with one of its parts changed; anything else is
replaced by a mapping of that key. -/
def put (key base value : Value) : Prog Value :=
  match base, key with
  | map entries, key => do
    .ofExcept (checkKey key)
    return map (insert key value entries)
  | base, str name => putPart name base value
  | base, key =>
    if base.parts?.isSome then .fail .keywordsNotStrings
    else do
      .ofExcept (checkKey key)
      return map [(key, value)]

end Value
end FlatMachine
