import FlatMachine.Callback.Program
import FlatMachine.Value.Record

/-! # What callables do

A **`Book`** says for every value and arguments what calling does; **`Book.ofCodes`** makes one
from the behaviour of each code.

* A function does what its code says.
* An assigning action replaces the pending context by its updater's result; it takes a context,
  an event and the interface of actions, nothing else.
* A record type makes a record.
* Any other value cannot be called. -/

namespace FlatMachine

/-- What calling a value with arguments does. -/
abbrev Book := Value → List Object → Prog Object

/-- The behaviour of codes; the first list holds the values a function closes over. -/
abbrev Codes := Code → List Value → List Object → Prog Object

/-- The assigning action of an updater. -/
def assign (updater : Value) : List Object → Prog Object
  | [_, event, access] =>
    match access.value with
    | .actionAccess _ =>
      .pending fun c => .ask (.call updater [.held c, event]) fun result =>
        .write result (.done (.fresh .null))
    | other => .fail (.noMember other.typeName "set_context")
  | _ => .fail (.wrongArguments "assign")

/-- Call a record type. -/
def instantiate (n : Nat) (name : String) (defaults : List (String × Except Failure Value))
    (fixed : List String) (args : List Object) : Prog Object := do
  return .fresh (← .ofExcept (Value.makeRecord n name defaults fixed (args.map Object.value)))

/-- The book of the given codes. -/
def Book.ofCodes (codes : Codes) : Book
  | .function _ _ code held, args => codes code held args
  | .assign _ updater, args => assign updater args
  | .recordType n name defaults fixed, args => instantiate n name defaults fixed args
  | v, _ => .fail (.notCallable v.typeName)

end FlatMachine
