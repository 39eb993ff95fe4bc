import FlatMachine.Machine.Basic

/-! # Values with some parts changed

**`Value.rebuild?`** makes a record, snapshot, transition or invocation like a given one, with
some of its named parts changed.  A name that is no part is refused before anything else. -/

namespace FlatMachine
namespace Value

/-- A snapshot from its named parts; without tags it has none. -/
def snapshotOfArguments (args : Fields) : Except Failure Value := do
  match ← args.arguments "Snapshot" [("state_name", none), ("context", none), ("changed", none),
      ("tags", some (.tuple []))] with
  | [stateName, context, changed, tags] => return .snapshot stateName context changed tags
  | _ => throw (.wrongArguments "Snapshot.__init__")

/-- The same sort of value with some parts changed; none if the value is of another sort. -/
def rebuild? (v : Value) (changes : Fields) : Option (Except Failure Value) :=
  let parts := Fields.merge (v.parts?.getD []) changes
  match v with
  | record n name fixed fields => some (replaceFields n name fixed fields changes)
  | snapshot .. => some (snapshotOfArguments parts)
  | transition .. => some (Transition.ofArguments parts)
  | invocation .. => some (Invocation.ofArguments parts)
  | _ => none

end Value
end FlatMachine
