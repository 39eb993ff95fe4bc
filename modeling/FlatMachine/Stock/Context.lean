import FlatMachine.Callback.Book
import FlatMachine.Callback.Maker

/-! # Building blocks of the stock machines

The stock machines keep a mapping as context and replace it by copies with some keys set.  Their
configurations are written with the two abbreviations here. -/

namespace FlatMachine
namespace Stock

/-- The value at a name of a context, which has to be there. -/
def required (name : String) (v : Value) : Prog Value :=
  match v.entries? with
  | none => .fail (.notSubscriptable v.typeName)
  | some entries => match Value.field name entries with
    | some w => .done w
    | none => .fail (.missingKey (Text.quote name))

/-- The event that an argument is. -/
def eventOf (o : Object) : Prog Event :=
  match Event.ofValue? o.value with
  | some e => .done e
  | none => .fail (.notSubscriptable o.value.typeName)

/-- The value under a name of an event, which has to be there. -/
def eventItem (e : Event) (name : String) : Prog Value := .ofExcept (e.getItem (.str name))

/-- A context with some names set. -/
def withFields (base : Value.Entries) (changes : Fields) : Object :=
  .fresh (.map (Value.merge base changes.toEntries))

/-- Call a callable with one value. -/
def callWith (f v : Value) : Prog Object := .perform (.call f [.fresh v])

/-- A mapping written with names. -/
def mapping (fields : Fields) : Value := .map fields.toEntries

/-- An assigning action with an updater that closes over values. -/
def updating (code : Code) (held : List Value) : Value :=
  .assign .own (.function .own none code held)

end Stock
end FlatMachine
