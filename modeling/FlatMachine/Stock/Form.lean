import FlatMachine.Stock.Context

/-! # A machine for a form

The machine drives a form through editing, validation and submission.  A `CHANGE` carries a name
and a value; `SUBMIT` validates the values and goes on to `submitting` if no message counts as
true, else to `invalid`; a failed submission lands in `failure`, from which `RETRY` submits
again.  The context holds the values, the validation messages, the names touched, and the outcome
of the last submission. -/

namespace FlatMachine
namespace Form

open Stock

/-- The messages that the result of a validation holds: the values of a mapping, or what its
member for them gives. -/
def messages (v : Value) : Prog (List Value) :=
  match v.entries? with
  | some entries => .done (entries.map Prod.snd)
  | none => .listing v "values"

/-- One part of the context, a mapping, with a key set. -/
def withKey (context name value : Value) (part : String) : Prog (String × Value) := do
  let inner ← .entries (← required part context)
  .ofExcept (Value.checkKey name)
  return (part, .map (Value.insert name value inner))

/-- What the machine's callbacks do; the value closed over is the validating or the submitting
function. -/
def behaviour : FormCode → List Value → List Object → Prog Object
  | .change, _, [context, event] => do
    let e ← eventOf event
    let name ← eventItem e "name"
    let base ← .entries context.value
    let inner ← .entries (← required "values" context.value)
    let value ← eventItem e "value"
    .ofExcept (Value.checkKey name)
    let touched ← withKey context.value name (.bool true) "touched"
    let errors ← withKey context.value name .null "errors"
    return withFields base [("values", .map (Value.insert name value inner)), touched, errors]
  | .validate, [validate], [context, _] => do
    let base ← .entries context.value
    let result ← callWith validate (← required "values" context.value)
    return withFields base [("errors", result.value)]
  | .isValid, [validate], [context, _] => do
    let result ← callWith validate (← required "values" context.value)
    let found ← messages result.value
    return .fresh (.bool (!found.any Value.truth))
  | .clear, _, [context, _] => do
    let base ← .entries context.value
    return withFields base [("submit_result", .null), ("submit_error", .null)]
  | .succeed, _, [context, event] => do
    let base ← .entries context.value
    let data ← eventItem (← eventOf event) "data"
    return withFields base [("submit_result", data)]
  | .fail, _, [context, event] => do
    let base ← .entries context.value
    let error ← eventItem (← eventOf event) "error"
    return withFields base [("submit_error", error)]
  | .submit, [submit], [context, _, _] => do callWith submit (← required "values" context.value)
  | _, _, _ => .fail (.wrongArguments "form")

/-- An assigning action of the machine, with the values it closes over. -/
def action (code : FormCode) (held : List Value) : Value := updating (.form code) held

/-- The candidate that submits valid values. -/
def submitCandidate (validate : Value) : Value :=
  mapping [("target", .str "submitting"), ("actions", .list [action .validate [validate]]),
    ("guard", .function .own none (.form .isValid) [validate])]

/-- The candidates of `SUBMIT` while editing. -/
def submitFromEditing (validate : Value) : Value :=
  .list [submitCandidate validate,
    mapping [("target", .str "invalid"), ("actions", .list [action .validate [validate]])]]

/-- The candidate that records a change and goes to `dirty`. -/
def changeToDirty : Value :=
  mapping [("target", .str "dirty"), ("actions", .list [action .change []])]

/-- The candidate that records a change where the form is. -/
def changeInPlace : Value := mapping [("actions", .list [action .change []])]

/-- The initial context. -/
def context (values : Value.Entries) : Value :=
  mapping [("values", .map values), ("errors", .map []), ("touched", .map []),
    ("submit_result", .null),
    ("submit_error", .null)]

/-- The nodes by name. -/
def states (validate submit : Value) : Value :=
  mapping [
    ("idle", mapping
      [("on", mapping [("CHANGE", changeToDirty), ("SUBMIT", submitFromEditing validate)])]),
    ("dirty", mapping
      [("on", mapping [("CHANGE", changeInPlace), ("SUBMIT", submitFromEditing validate)])]),
    ("invalid", mapping [
      ("on", mapping [("CHANGE", changeToDirty),
        ("SUBMIT", .list
          [submitCandidate validate, mapping [("actions", .list [action .validate [validate]])]])]),
      ("tags", .list [.str "error"])]),
    ("submitting", mapping [
      ("entry", .list [action .clear []]),
      ("invoke", mapping [
        ("src", .function .own none (.form .submit) [submit]),
        ("on_done", mapping [("target", .str "success"), ("actions", .list [action .succeed []])]),
        ("on_error", mapping [("target", .str "failure"), ("actions", .list [action .fail []])])]),
      ("on", mapping [("CHANGE", changeInPlace)]),
      ("tags", .list [.str "loading"])]),
    ("success", mapping
      [("on", mapping [("CHANGE", changeToDirty)]), ("tags", .list [.str "success"])]),
    ("failure", mapping [
      ("on", mapping
        [("RETRY", mapping [("target", .str "submitting")]), ("CHANGE", changeToDirty)]),
      ("tags", .list [.str "error"])])]

/-- The configuration, for initial values, a validating and a submitting function, and a name. -/
def config (values : Value.Entries) (validate submit id : Value) : Value :=
  mapping [("id", id), ("initial", .str "idle"), ("context", context values),
    ("states", states validate submit)]

end Form

end FlatMachine
