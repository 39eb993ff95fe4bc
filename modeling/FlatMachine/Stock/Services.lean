import FlatMachine.Stock.Request
import FlatMachine.Stock.Form
import FlatMachine.Service.Running

/-! # Services of the stock machines

**`codesOf`** completes the behaviour of a host's functions by that of the stock machines'
callbacks. **`Request.open`** and **`Form.open`** make services of the two stock machines. -/

namespace FlatMachine

/-- The behaviour of all codes, given that of the host's functions. -/
def codesOf (host : Nat → List Object → Prog Object) : Codes
  | .host n, _, args => host n args
  | .request c, held, args => Request.behaviour c held args
  | .form c, held, args => Form.behaviour c held args

/-- A service that tracks one request made by a function. -/
def Request.open (requestFn : Value) (validator : Validator) (hooks : List Hook) (ownLoop : Bool) :
    Run Nat := do
  let machine ← Run.ofExcept (Machine.create (Request.config requestFn) .standard)
  Run.create machine.toValue validator hooks ownLoop

/-- A service that drives a form with initial values, which are a mapping or a sequence of pairs. -/
def Form.open (g : Engine) (values validate submit id : Value) (validator : Validator)
    (hooks : List Hook) (ownLoop : Bool) : Run Nat := do
  let (entries, _) ← g.exec .bench (.toEntries values) none
  let machine ← Run.ofExcept (Machine.create (Form.config entries validate submit id) .standard)
  Run.create machine.toValue validator hooks ownLoop

/-- Several services of one definition. -/
def openAll (config : Value) (validator : Validator) (hooks : List Hook) (ownLoop : Bool)
    (count : Nat) : Run Unit := do
  let machine ← Run.ofExcept (Machine.create config validator)
  for _ in List.range count do
    discard (Run.create machine.toValue validator hooks ownLoop)

end FlatMachine
