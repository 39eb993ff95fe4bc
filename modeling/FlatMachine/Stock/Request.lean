import FlatMachine.Stock.Context

/-! # A machine for one request

The machine tracks a single cancellable request: `idle`, then `loading`, then `success` or
`failure`.  A `FETCH` carries the input; `CANCEL` while loading goes back to `idle`, and a late
result finds nobody waiting; `RETRY` or `FETCH` after a failure tries again.  The context records
the input, the response or the error, and when the request was started and finished. -/

namespace FlatMachine
namespace Request

open Stock

/-- What the machine's callbacks do; the value closed over is the function that makes a request. -/
def behaviour : RequestCode → List Value → List Object → Prog Object
  | .accept, _, [context, event] => do
    let base ← .entries context.value
    let e ← eventOf event
    let input ← .ofExcept (e.get (.str "input") .null)
    return withFields base [("request_input", input), ("response", .null), ("error", .null)]
  | .start, _, [context, _] => do
    let base ← .entries context.value
    let now ← .perform .now
    return withFields base [("started_at", .int (Int.ofNat now))]
  | .succeed, _, [context, event] => do
    let base ← .entries context.value
    let data ← eventItem (← eventOf event) "data"
    let now ← .perform .now
    return withFields base [("response", data), ("finished_at", .int (Int.ofNat now))]
  | .fail, _, [context, event] => do
    let base ← .entries context.value
    let error ← eventItem (← eventOf event) "error"
    let now ← .perform .now
    return withFields base [("error", error), ("finished_at", .int (Int.ofNat now))]
  | .fetch, [requestFn], [context, _, _] =>
    do callWith requestFn (← required "request_input" context.value)
  | _, _, _ => .fail (.wrongArguments "request")

/-- An assigning action of the machine. -/
def action (code : RequestCode) : Value := updating (.request code) []

/-- The candidate that starts a request with a new input. -/
def fetchCandidate : Value :=
  mapping [("target", .str "loading"), ("actions", .list [action .accept])]

/-- The configuration, for a function that makes a request from its input. -/
def config (requestFn : Value) : Value :=
  mapping [
    ("id", .str "request"),
    ("initial", .str "idle"),
    ("context", mapping
      [("request_input", .null), ("response", .null), ("error", .null), ("started_at", .null),
      ("finished_at", .null)]),
    ("states", mapping [
      ("idle", mapping [("on", mapping [("FETCH", fetchCandidate)])]),
      ("loading", mapping [
        ("entry", .list [action .start]),
        ("invoke", mapping [
          ("src", .function .own none (.request .fetch) [requestFn]),
          ("on_done", mapping [("target", .str "success"),
            ("actions", .list [action .succeed])]),
          ("on_error", mapping [("target", .str "failure"),
            ("actions", .list [action .fail])])]),
        ("on", mapping [("CANCEL", mapping [("target", .str "idle")])]),
        ("tags", .list [.str "loading"])]),
      ("success", mapping
        [("on", mapping [("FETCH", fetchCandidate)]), ("tags", .list [.str "success"])]),
      ("failure", mapping [
        ("on", mapping
          [("RETRY", mapping [("target", .str "loading")]), ("FETCH", fetchCandidate)]),
        ("tags", .list [.str "error"])])])]

end Request
end FlatMachine
