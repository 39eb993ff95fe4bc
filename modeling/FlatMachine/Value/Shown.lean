import FlatMachine.Value.Basic

/-! # Values in messages

**`Value.shown`** is how a message shows a value: strings quoted, collections in their brackets
(a one-item tuple with a comma), events and records like calls of their makers.  **`Value.text`**
is how a value stands in running text: a string as it is, a failure by its wording, all else as
shown. -/

namespace FlatMachine
namespace Value

/-- Pieces separated by commas. -/
def commas (pieces : List String) : String := ", ".intercalate pieces

/-- A tuple from its shown items. -/
def tupleShown : List String → String
  | [x] => "(" ++ x ++ ",)"
  | xs => "(" ++ commas xs ++ ")"

mutual

/-- A value as a message shows it. -/
def shown : Value → String
  | null => "None"
  | bool b => if b then "True" else "False"
  | int i => toString i
  | float x => x.text
  | nan _ => "nan"
  | str s => Text.quote s
  | list xs => "[" ++ commas (shownItems xs) ++ "]"
  | tuple xs => tupleShown (shownItems xs)
  | map entries => "\x7b" ++ commas (shownEntries entries) ++ "\x7d"
  | event type payload => "Event(" ++ commas (Text.quote type :: shownFields payload) ++ ")"
  | failure _ f => f.shown
  | function _ name _ _ => "<function " ++ name.getD "?" ++ ">"
  | assign _ updater => "<function " ++ updater.assignedName ++ ">"
  | recordType _ name _ _ => "<class '" ++ name ++ "'>"
  | record _ name _ fields => name ++ "(" ++ commas (shownFields fields) ++ ")"
  | snapshot stateName context changed tags =>
    "Snapshot(" ++ commas ["state_name=" ++ shown stateName, "context=" ++ shown context,
      "changed=" ++ shown changed, "tags=" ++ shown tags] ++ ")"
  | transition target actions guard =>
    "Transition(" ++
      commas ["target=" ++ shown target, "actions=" ++ tupleShown (shownItems actions),
      "guard=" ++ shown guard] ++ ")"
  | invocation src onDone onError autoStart =>
    "Invocation(" ++ commas ["src=" ++ shown src, "on_done=" ++ tupleShown (shownItems onDone),
      "on_error=" ++ tupleShown (shownItems onError), "auto_start=" ++ shown autoStart] ++ ")"
  | node on entry exit invoke tags =>
    "StateNode(" ++ commas ["on=mappingproxy(\x7b" ++ commas (shownEntries on) ++ "\x7d)",
      "entry=" ++ tupleShown (shownItems entry), "exit=" ++ tupleShown (shownItems exit),
      "invoke=" ++ shown invoke, "tags=" ++ tupleShown (shownItems tags)] ++ ")"
  | machine _ id initial _ states =>
    "MachineDefinition(" ++ commas ["id=" ++ shown id, "initial=" ++ shown initial,
      "states=[" ++ commas (shownKeys states) ++ "]"] ++ ")"
  | awaitable _ n => "<awaitable " ++ toString n ++ ">"
  | actionAccess _ => "<ActionAPI object>"
  | sourceAccess .. => "<InvokeAPI object>"
termination_by structural v => v

/-- Each item as shown. -/
def shownItems : List Value → List String
  | [] => []
  | x :: xs => shown x :: shownItems xs
termination_by structural xs => xs

/-- Each entry as shown, with a colon. -/
def shownEntries : List (Value × Value) → List String
  | [] => []
  | (k, v) :: rest => (shown k ++ ": " ++ shown v) :: shownEntries rest
termination_by structural xs => xs

/-- Each key as shown. -/
def shownKeys : List (Value × Value) → List String
  | [] => []
  | (k, _) :: rest => shown k :: shownKeys rest
termination_by structural xs => xs

/-- Each field as shown, with an equals sign. -/
def shownFields : List (String × Value) → List String
  | [] => []
  | (k, v) :: rest => (k ++ "=" ++ shown v) :: shownFields rest
termination_by structural xs => xs

end

/-- A value in running text. -/
def text : Value → String
  | str s => s
  | failure _ f => f.plain
  | v => v.shown

end Value
end FlatMachine
