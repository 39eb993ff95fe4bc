import FlatMachine.Value.Fields

/-! # Events

An event is a type, a non-empty string, with a payload of named values; no payload name is
`type`.  It can be read as a mapping: the type under `type`, then the payload.

* **`Event.make`** builds an event from any value as type and any payload.
* **`Event.coerce`** reads the three spellings of an event: an event, its bare type, or a mapping
  with a `type` entry whose keys are strings.
* **`Event.withPayload`** extends or overrides the payload.
* **`Event.entries`** is the mapping view, which `getItem`, `get` and `contains` look into. -/

namespace FlatMachine

/-- A signal sent to a running service. -/
structure Event where
  type : String
  payload : Fields
  deriving Inhabited

namespace Event

/-- The event with which a service enters its initial state. -/
def init : Event := ⟨"@@init", []⟩

/-- An event as a value. -/
def toValue (e : Event) : Value := .event e.type e.payload

/-- The event that a value is, if it is one. -/
def ofValue? : Value → Option Event
  | .event type payload => some ⟨type, payload⟩
  | _ => none

@[simp] theorem ofValue?_toValue (e : Event) : ofValue? e.toValue = some e := rfl

/-! ### Making events -/

/-- An event of the given type, which has to be a non-empty string, and payload, which cannot
hold a `type`. -/
def make (type : Value) (payload : Fields) : Except Failure Event :=
  match type with
  | .str s =>
    if s = "" then .error (.eventType type.shown)
    else if (payload.get? "type").isSome then .error .payloadType
    else .ok ⟨s, payload⟩
  | _ => .error (.eventType type.shown)

theorem eq_of_make {type : String} {payload : Fields} {e : Event}
    (h : make (.str type) payload = .ok e) : e = ⟨type, payload⟩ := by
  unfold make at h
  dsimp only at h
  split at h
  · cases h
  · split at h
    · cases h
    · exact (Except.ok.inj h).symm

/-- The keys that are not strings. -/
def foreignKeys (entries : Value.Entries) : List Value :=
  entries.filterMap fun
    | (.str _, _) => none
    | (k, _) => some k

/-- The event that a mapping spells. -/
def ofEntries (entries : Value.Entries) : Except Failure Event :=
  match Value.field "type" entries with
  | none => .error .eventWithoutType
  | some type => match Fields.ofEntries? entries with
    | none => .error (.eventKeys (Value.list (foreignKeys entries)).shown)
    | some fields => make type (fields.erase "type")

/-- Read any spelling of an event. -/
def coerce (v : Value) : Except Failure Event :=
  match v with
  | .event type payload => .ok ⟨type, payload⟩
  | .str _ => make v []
  | .map entries => ofEntries entries
  | _ => .error (.notEvent v.shown)

/-- The event of the same type with named values set in the payload.  The receiver's name cannot
be one of them. -/
def withPayload (e : Event) (extra : Fields) : Except Failure Event :=
  if (extra.get? "self").isSome then .error (.repeatedReceiver "Event.with_payload")
  else make (.str e.type) (Fields.merge e.payload extra)

theorem eq_of_withPayload {e seen : Event} {extra : Fields} (h : e.withPayload extra = .ok seen) :
    seen = ⟨e.type, Fields.merge e.payload extra⟩ := by
  unfold withPayload at h
  split at h
  · cases h
  · exact eq_of_make h

/-! ### The mapping view -/

/-- The entries: the type, then the payload. -/
def entries (e : Event) : Value.Entries := Fields.toEntries (("type", .str e.type) :: e.payload)

/-- Look up a key; what cannot be a key is refused. -/
def find (e : Event) (key : Value) : Except Failure (Option Value) := do
  Value.checkKey key
  return Value.lookup key e.entries

/-- The value at a key that is present. -/
def getItem (e : Event) (key : Value) : Except Failure Value := do
  match ← e.find key with
  | some v => return v
  | none => throw (.missingKey key.shown)

/-- The value at a key, or the default. -/
def get (e : Event) (key default : Value) : Except Failure Value :=
  return (← e.find key).getD default

/-- The key is present. -/
def contains (e : Event) (key : Value) : Except Failure Bool := return (← e.find key).isSome

/-- An event as a message shows it. -/
def shown (e : Event) : String := e.toValue.shown

end Event
end FlatMachine
