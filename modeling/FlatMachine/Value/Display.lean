import FlatMachine.Value.Basic

/-! # Values as an observer sees them

An observer of a machine sees values as trees of plain data.  Data is shown as it is; everything
else is an object with a key that starts with a dollar sign and names what it is.  A mapping is
an object if its keys are strings that start with no dollar sign, and a list of pairs otherwise;
the members of an object have no order, so they are kept sorted.  Invocations and machine
definitions are shown as records; only in its place in a state node is an invocation an object of
its parts.

**`Value.display`** is that tree, and **`Value.alike`** is sameness of trees: it tells true from
one and a float from an integer, and functions apart by their names only. -/

namespace FlatMachine

/-- A tree of plain data. -/
inductive Display where
  | null
  | bool (b : Bool)
  | int (i : Int)
  | str (s : String)
  | array (items : List Display)
  | object (members : List (String × Display))
  deriving Inhabited, BEq, Repr

namespace Display

/-- An object, its members in ascending order of their names. -/
def ofMembers (members : List (String × Display)) : Display :=
  object (members.mergeSort fun a b => a.1 ≤ b.1)

/-- An object with one member that says what it is. -/
def tagged (tag : String) (d : Display) : Display := object [("$" ++ tag, d)]

/-- A tuple as a list, where the place says that it is a tuple. -/
def row : Display → Display
  | object [("$tuple", d)] => d
  | d => d

/-- Pairs, each as a list of two. -/
def pairs (entries : List (Display × Display)) : List Display :=
  entries.map fun (k, v) => array [k, v]

/-- The names of the keys, if every key is a string that starts with no dollar sign. -/
def plainNames? : List (Display × Display) → Option (List (String × Display))
  | [] => some []
  | (str s, v) :: rest =>
    if s.toList.head? = some '$' then none else (plainNames? rest).map ((s, v) :: ·)
  | _ => none

/-- A mapping: an object where the keys allow it, else a list of pairs in the mapping's order. -/
def ofEntries (entries : List (Display × Display)) : Display :=
  match plainNames? entries with
  | some members => ofMembers members
  | none => tagged "map" (array (pairs entries))

/-- A record: the name of its type, and its fields in order. -/
def ofRecord (type : String) (fields : List (Display × Display)) : Display :=
  object [("$dc", str type), ("fields", array (pairs fields))]

/-- A state node: each event type with its candidates, the actions, the invocation and the tags. -/
def ofNode (on entry exit : List Display) (invoke : Display) (tags : List Display) : Display :=
  tagged "state"
    (ofMembers [("on", array on), ("entry", array entry), ("exit", array exit), ("invoke", invoke),
    ("tags", array tags)])

/-- A failure: its kind, and its message if it has one to see. -/
def ofFailure (f : Failure) : Display :=
  object (("$exc", str f.kind.name) :: (f.message?.map fun m => ("message", str m)).toList)

end Display

namespace Value

mutual

/-- The tree that an observer sees. -/
def display : Value → Display
  | null => .null
  | bool b => .bool b
  | int i => .int i
  | float x => .tagged "float" (.str x.text)
  | nan _ => .tagged "float" (.str "nan")
  | str s => .str s
  | list xs => .array (displayItems xs)
  | tuple xs => .tagged "tuple" (.array (displayItems xs))
  | map entries => .ofEntries (displayEntries entries)
  | event type payload =>
    .tagged "event"
      (.ofMembers [("type", .str type), ("payload", .ofEntries (displayFields payload))])
  | failure _ f => .ofFailure f
  | function _ name _ _ => .tagged "fn" ((name.map .str).getD .null)
  | assign _ updater => .tagged "fn" (.str updater.assignedName)
  | recordType _ name _ _ => .tagged "type" (.str name)
  | record _ name _ fields => .ofRecord name (displayFields fields)
  | snapshot stateName context changed tags =>
    .tagged "snapshot" (.ofMembers [("state_name", display stateName), ("context", display context),
      ("changed", display changed), ("tags", .array (displaySequence tags))])
  | transition target actions guard =>
    .tagged "transition"
      (.ofMembers [("target", display target), ("actions", .array (displayItems actions)),
      ("guard", display guard)])
  | invocation src onDone onError autoStart =>
    .ofRecord "Invocation" [(.str "src", display src),
      (.str "on_done", .tagged "tuple" (.array (displayItems onDone))),
      (.str "on_error", .tagged "tuple" (.array (displayItems onError))),
      (.str "auto_start", display autoStart)]
  | node on entry exit (invocation src onDone onError autoStart) tags =>
    .ofNode (displayRows on) (displayItems entry) (displayItems exit)
      (.ofMembers [("src", display src), ("on_done", .array (displayItems onDone)),
        ("on_error", .array (displayItems onError)), ("auto_start", display autoStart)])
      (displayItems tags)
  | node on entry exit invoke tags =>
    .ofNode (displayRows on) (displayItems entry) (displayItems exit) (display invoke)
      (displayItems tags)
  | machine _ id initial context states =>
    .ofRecord "MachineDefinition" [(.str "initial", display initial),
      (.str "states", .ofEntries (displayEntries states)), (.str "context", display context),
      (.str "id", display id)]
  | awaitable .. => .tagged "awaitable" .null
  | actionAccess _ => .tagged "object" (.str "ActionAPI")
  | sourceAccess .. => .tagged "object" (.str "InvokeAPI")
termination_by structural v => v

/-- The items of a sequence as seen: the characters of a string, the keys of a mapping. -/
def displaySequence : Value → List Display
  | list xs | tuple xs => displayItems xs
  | str s => s.toList.map fun c => .str (String.singleton c)
  | map entries => displayKeys entries
  | event _ payload => .str "type" :: payload.map fun p => .str p.1
  | _ => []
termination_by structural v => v

/-- Each item as seen. -/
def displayItems : List Value → List Display
  | [] => []
  | x :: xs => display x :: displayItems xs
termination_by structural xs => xs

/-- Each entry as seen. -/
def displayEntries : List (Value × Value) → List (Display × Display)
  | [] => []
  | (k, v) :: rest => (display k, display v) :: displayEntries rest
termination_by structural xs => xs

/-- Each key as seen. -/
def displayKeys : List (Value × Value) → List Display
  | [] => []
  | (k, _) :: rest => display k :: displayKeys rest
termination_by structural xs => xs

/-- Each entry as a list of its key and its tuple. -/
def displayRows : List (Value × Value) → List Display
  | [] => []
  | (k, v) :: rest => .array [display k, (display v).row] :: displayRows rest
termination_by structural xs => xs

/-- Each field as seen. -/
def displayFields : List (String × Value) → List (Display × Display)
  | [] => []
  | (k, v) :: rest => (.str k, display v) :: displayFields rest
termination_by structural xs => xs

end

/-- Sameness to an observer. -/
def alike (v w : Value) : Bool := v.display == w.display

end Value
end FlatMachine
