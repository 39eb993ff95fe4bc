import FlatMachine.Value.Fields

/-! # Records

A record type lists its fields with their defaults.  Fixed fields always have their default; the
others are the arguments of the type's maker, in order.  The names of the fields are identifiers,
all different.

* **`Value.makeRecord`** calls a record type with positional arguments.  A default is made only
  where no argument is given, so one that cannot be made does no harm elsewhere.
* **`Value.replaceFields`** copies a record with some fields changed.  The changes are checked in
  their own order: a fixed field is refused first of all, then an unknown one. -/

namespace FlatMachine
namespace Value

/-- The names of the fields that the maker takes, in order. -/
def openNames (names fixed : List String) : List String := names.filter (!fixed.contains ·)

/-- A letter, or the underscore; letters beyond the first 128 characters are not told from other
characters. -/
def isNameStart (c : Char) : Bool := c.isAlpha || c == '_' || 128 ≤ c.toNat

/-- A name that begins like one and goes on with letters, underscores and digits. -/
def isIdentifier (name : String) : Bool :=
  match name.toList with
  | [] => false
  | c :: cs => isNameStart c && cs.all fun d => isNameStart d || d.isDigit

/-- Refuse field names that are no identifiers or repeat one. -/
def checkNames : List String → Except Failure Unit
  | [] => .ok ()
  | name :: rest =>
    if isIdentifier name && !rest.contains name then checkNames rest else .error (.fieldName name)

/-- A record from positional arguments; the remaining fields have their defaults. -/
def makeRecord (n : Nat) (name : String) (defaults : List (String × Except Failure Value))
    (fixed : List String) (args : List Value) : Except Failure Value := do
  let names := openNames (defaults.map Prod.fst) fixed
  if names.length < args.length then throw (.wrongArguments (name ++ ".__init__"))
  let given : Fields := names.zip args
  let fields ← defaults.mapM fun (field, default) => do
    match given.get? field with
    | some v => return (field, v)
    | none => return (field, ← default)
  return .record n name fixed fields

/-- Refuse the first change that is not to a field the maker takes. -/
def checkFields (name : String) (names : List String) : Fields → Except Failure Unit
  | [] => .ok ()
  | (k, _) :: rest =>
    if names.contains k then checkFields name names rest
    else if k = "self" then .error (.repeatedReceiver (name ++ ".__init__"))
    else .error (.unexpectedField name k)

/-- A record of the same type with the changes made. -/
def replaceFields (n : Nat) (name : String) (fixed : List String) (fields changes : Fields) :
    Except Failure Value :=
  match fixed.find? fun f => (changes.get? f).isSome with
  | some f => .error (.fixedField f)
  | none => do
    checkFields name (openNames fields.names fixed) changes
    return .record n name fixed (Fields.merge fields changes)

end Value
end FlatMachine
