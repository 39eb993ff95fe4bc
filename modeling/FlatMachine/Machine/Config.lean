import FlatMachine.Machine.Basic

/-! # Machine configurations

A machine can be written as nested mappings with room for shorthand.

* A state is a mapping, a ready-made node, or null for a state with nothing in it.
* Candidates are one candidate or a list or tuple of them; a candidate is a mapping, a ready-made
  transition, or a string for its target alone.
* A sequence of actions or tags may be a single callable or string, or null for none.
* `guard` may be written `cond`; an invocation's keys may be written in either of two styles; the
  first spelling that is present counts.

**`Machine.ofConfig`** reads the mapping; what has the wrong shape is refused with the place
where it stands. -/

namespace FlatMachine
namespace Config

open Value

/-- A sequence, with its shorthands. -/
def sequence (v : Value) : Except Failure (List Value) :=
  match v with
  | .null => .ok []
  | .str _ => .ok [v]
  | v => if v.isCallable then .ok [v] else v.items

/-- The value at the first key that is present. -/
def firstKey (entries : Entries) (default : Value) : List String → Value
  | [] => default
  | k :: ks => (field k entries).getD (firstKey entries default ks)

/-- One candidate. -/
def candidate (place : String) (v : Value) : Except Failure Value :=
  match v with
  | .transition .. => .ok v
  | .str _ => .ok (.transition v [] .null)
  | v => match v.entries? with
    | none => .error (.candidateShape place v.typeName)
    | some entries => do
      let actions ← sequence (fieldD "actions" entries)
      return .transition (fieldD "target" entries) actions
        (firstKey entries .null ["guard", "cond"])

/-- A list of candidates, with its shorthands. -/
def candidates (place : String) (v : Value) : Except Failure (List Value) :=
  match v with
  | .null => .ok []
  | .list items | .tuple items => items.mapM (candidate place)
  | v => do return [← candidate place v]

/-- The candidates of one event type. -/
def eventEntry (state : Value) (entry : Value × Value) : Except Failure (Value × Value) := do
  let found ← candidates (state.text ++ ".on[" ++ entry.1.shown ++ "]") entry.2
  return (entry.1, .tuple found)

/-- The entries of `on`; anything that counts as false stands for none. -/
def onEntries (state v : Value) : Except Failure Entries :=
  if v.truth then
    match v.entries? with
    | some entries => .ok entries
    | none => .error (.onShape state.shown)
  else .ok []

/-- An invocation. -/
def invocation (state v : Value) : Except Failure Value :=
  match v with
  | .invocation .. => .ok v
  | v => match v.entries? with
    | none => .error (.invokeShape state.shown)
    | some entries => match field "src" entries with
      | none => .error (.invokeShape state.shown)
      | some src => do
        let onDone ← candidates (state.text ++ ".invoke.on_done")
          (firstKey entries .null ["on_done", "onDone"])
        let onError ← candidates (state.text ++ ".invoke.on_error")
          (firstKey entries .null ["on_error", "onError"])
        let autoStart := firstKey entries (.bool true) ["auto_start", "autoStart"]
        return .invocation src onDone onError (.bool autoStart.truth)

/-- An optional invocation. -/
def invocation? (state v : Value) : Except Failure Value :=
  match v with
  | .null => .ok .null
  | v => invocation state v

/-- The node that a mapping describes. -/
def nodeOfEntries (state : Value) (entries : Entries) : Except Failure Value := do
  let on ← (← onEntries state (fieldD "on" entries)).mapM (eventEntry state)
  let entry ← sequence (fieldD "entry" entries)
  let exit ← sequence (fieldD "exit" entries)
  let invoke ← invocation? state (fieldD "invoke" entries)
  let tags ← distinct (← sequence (fieldD "tags" entries))
  return .node on entry exit invoke tags

/-- One state. -/
def node (state v : Value) : Except Failure Value :=
  match v with
  | .node .. => .ok v
  | .null => .ok (.node [] [] [] .null [])
  | v => match v.entries? with
    | none => .error (.stateShape state.shown v.typeName)
    | some entries => nodeOfEntries state entries

/-- One entry of `states`. -/
def stateEntry (entry : Value × Value) : Except Failure (Value × Value) := do
  return (entry.1, ← node entry.1 entry.2)

end Config

namespace Machine

/-- The machine that a configuration mapping describes. -/
def ofConfig (entries : Value.Entries) : Except Failure Machine :=
  match Value.field "initial" entries with
  | none => .error .noInitial
  | some initial => match (Value.fieldD "states" entries).entries? with
    | none => .error .noStates
    | some states => do
      let states ← states.mapM Config.stateEntry
      return {
        id := (Value.field "id" entries).getD (.str "machine")
        initial
        context := Value.fieldD "context" entries
        states }

end Machine
end FlatMachine
