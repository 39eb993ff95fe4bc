import FlatMachine.Text.Quoted

/-! # Failures

What can go wrong, by cause.  A failure is raised either by a callback, with a kind and a message
of its own choice, or by this library.  The library's own complaints about events, configurations,
overrides and invocations carry a message; the faults of ill-typed callbacks and values (calling
what is not callable, hashing a list, a missing key) are known by their kind alone.

* **`Failure.kind`**: the kind, whose **`Kind.name`** is what an observer sees.
* **`Failure.message?`**: the message, where there is one to see.
* **`Kind.isOrdinary`**: whether a handler of ordinary failures catches it; aborts and
  cancellations pass such handlers. -/

namespace FlatMachine

/-- The kinds of failure. -/
inductive Kind where
  | value
  | key
  | runtime
  | type
  | timeout
  | connection
  | index
  | member
  | frozen
  | abort
  | cancelled
  | configuration
  | validation
  | stateNotFound
  | invalidEvent
  | invocation
  deriving DecidableEq, Repr

namespace Kind

/-- The visible name of a kind. -/
def name : Kind → String
  | value => "ValueError"
  | key => "KeyError"
  | runtime => "RuntimeError"
  | type => "TypeError"
  | timeout => "TimeoutError"
  | connection => "ConnectionError"
  | index => "IndexError"
  | member => "AttributeError"
  | frozen => "FrozenInstanceError"
  | abort => "Abort"
  | cancelled => "CancelledError"
  | configuration => "ConfigurationError"
  | validation => "ValidationError"
  | stateNotFound => "StateNotFoundError"
  | invalidEvent => "InvalidEventError"
  | invocation => "InvocationError"

/-- Every kind. -/
def all : List Kind :=
  [value, key, runtime, type, timeout, connection, index, member, frozen, abort, cancelled,
    configuration, validation, stateNotFound, invalidEvent, invocation]

/-- The kind of that name. -/
def ofName? (s : String) : Option Kind := all.find? (·.name == s)

/-- Aborts and cancellations are not ordinary. -/
def isOrdinary : Kind → Bool
  | abort | cancelled => false
  | _ => true

/-- Complaints about a configuration: the general kind and its two special cases. -/
def isConfiguration : Kind → Bool
  | configuration | validation | stateNotFound => true
  | _ => false

end Kind

/-- The causes of failure.  Values are present by the text that a message shows. -/
inductive Failure where
  /-- raised by a callback -/
  | raised (kind : Kind) (message : String)
  /-- calling a value of another type -/
  | notCallable (type : String)
  /-- calling with a number of arguments that the callable does not take -/
  | wrongArguments (callable : String)
  /-- a list, a mapping or the like as a key -/
  | unhashable (type : String)
  /-- iterating over a value of another type -/
  | notIterable (type : String)
  /-- spreading a value that is not a mapping -/
  | notMapping (type : String)
  /-- looking inside a value that has no parts -/
  | notSubscriptable (type : String)
  /-- copying what cannot be copied -/
  | notCopyable (type : String)
  /-- spreading a mapping that has other keys than strings -/
  | keywordsNotStrings
  /-- a field that the record does not have -/
  | unexpectedField (record field : String)
  /-- an argument named like the receiver -/
  | repeatedReceiver (callable : String)
  /-- a field of a record type whose name is none, or is taken -/
  | fieldName (field : String)
  /-- a field that keeps its default -/
  | fixedField (field : String)
  /-- a mapping built from items that are not pairs -/
  | notPair
  | missingKey (shown : String)
  /-- an index outside of a sequence -/
  | missingIndex (sequence : String)
  /-- looking up in a sequence what is no index -/
  | notIndex (sequence type : String)
  | noMember (type name : String)
  /-- assigning to a field of a snapshot -/
  | frozenField (field : String)
  | eventType (shown : String)
  | payloadType
  | eventWithoutType
  | eventKeys (shown : String)
  | notEvent (shown : String)
  | notMachine (type : String)
  | noInitial
  | noStates
  | stateShape (state type : String)
  | onShape (state : String)
  | invokeShape (state : String)
  | candidateShape (place type : String)
  | invalidMachine (problems : List String)
  | overrideOfNothing
  | overrideShape (type : String)
  | overrideRejected (reason : String)
  | overrideTarget (type : String)
  | undefinedState (shown : String)
  | cancelShape (shown : String)
  | sourceResult (type : String)
  | noLoop
  deriving DecidableEq, Repr

namespace Failure

/-- The kind of each cause. -/
def kind : Failure → Kind
  | raised kind _ => kind
  | notCallable _ | wrongArguments _ | unhashable _ | notIterable _ | notMapping _
  | notSubscriptable _ | notIndex .. | notCopyable _ | keywordsNotStrings | unexpectedField ..
  | repeatedReceiver _ | fieldName _ => .type
  | fixedField _ | notPair => .value
  | missingKey _ => .key
  | missingIndex _ => .index
  | noMember .. => .member
  | frozenField _ => .frozen
  | eventType _ | payloadType | eventWithoutType | eventKeys _ | notEvent _ => .invalidEvent
  | notMachine _ | noInitial | noStates | stateShape .. | onShape _ | invokeShape
    _ | candidateShape ..
  | overrideOfNothing | overrideShape _ | overrideRejected _ | overrideTarget _ => .configuration
  | invalidMachine _ => .validation
  | undefinedState _ => .stateNotFound
  | cancelShape _ | sourceResult _ | noLoop => .invocation

/-- The full wording of each cause. -/
def text : Failure → String
  | raised _ message => message
  | notCallable type => s!"'{type}' object is not callable"
  | wrongArguments callable => s!"{callable}() takes another number of arguments"
  | unhashable type => s!"unhashable type: '{type}'"
  | notIterable type => s!"'{type}' object is not iterable"
  | notMapping type => s!"'{type}' object is not a mapping"
  | notSubscriptable type => s!"'{type}' object is not subscriptable"
  | notCopyable type => s!"cannot pickle '{type}' object"
  | keywordsNotStrings => "keywords must be strings"
  | unexpectedField record field =>
    s!"{record}.__init__() got an unexpected keyword argument '{field}'"
  | repeatedReceiver callable => s!"{callable}() got multiple values for argument 'self'"
  | fieldName field => s!"Field names must be different identifiers: {field}"
  | fixedField field =>
    s!"field {field} is declared with init=False, it cannot be specified with replace()"
  | notPair => "dictionary update sequence element has the wrong length; 2 is required"
  | missingKey shown => shown
  | missingIndex sequence => s!"{sequence} index out of range"
  | notIndex "string" type => s!"string indices must be integers, not '{type}'"
  | notIndex sequence type => s!"{sequence} indices must be integers or slices, not {type}"
  | noMember type name => s!"'{type}' object has no attribute '{name}'"
  | frozenField field => s!"cannot assign to field '{field}'"
  | eventType shown => s!"Event type must be a non-empty string, got {shown}"
  | payloadType => "Event payload cannot contain a 'type' key."
  | eventWithoutType => "Event mappings must contain a 'type' key."
  | eventKeys shown => s!"Event payload keys must be strings, got {shown}"
  | notEvent shown => s!"Cannot interpret {shown} as an event."
  | notMachine type => s!"Cannot build a machine from {type}."
  | noInitial => "Machine config requires an 'initial' state."
  | noStates => "Machine config requires a 'states' mapping."
  | stateShape state type => s!"State {state} must be a mapping, got {type}."
  | onShape state => s!"State {state}: 'on' must map event types to transitions."
  | invokeShape state => s!"State {state}: 'invoke' requires a 'src'."
  | candidateShape place type => s!"{place}: expected a transition mapping, got {type}."
  | invalidMachine problems => "\n".intercalate problems
  | overrideOfNothing => "A context override for an empty context must be a mapping."
  | overrideShape type => s!"Context override must be a mapping, got {type}."
  | overrideRejected reason => s!"Invalid context override: {reason}"
  | overrideTarget type => s!"Cannot merge a context override into {type}."
  | undefinedState shown => s!"State {shown} is not defined in the machine."
  | cancelShape shown => s!"Invocation cancel callback must be callable, got {shown}."
  | sourceResult type =>
    s!"Invocation source must return an awaitable or an (awaitable, cancel) pair, got {type}."
  | noLoop => "Invocations require a running event loop or an explicit loop."

/-- Faults of ill-typed callbacks and values, whose wording is not part of what they report. -/
def isBare : Failure → Bool
  | notCallable _ | wrongArguments _ | unhashable _ | notIterable _ | notMapping _
  | notSubscriptable _ | notIndex .. | notCopyable _ | keywordsNotStrings | unexpectedField
    .. | repeatedReceiver _
  | fieldName _ | fixedField _ | notPair | missingKey _ | missingIndex _ | noMember
    .. | frozenField _ => true
  | _ => false

/-- The message that goes with the failure. -/
def message? (f : Failure) : Option String := if f.isBare then none else some f.text

/-- A failure as a message shows it.  A missing key is shown as the key, all else as quoted text. -/
def shown : Failure → String
  | missingKey key => s!"KeyError({key})"
  | f => f.kind.name ++ "(" ++ Text.quote f.text ++ ")"

/-- A failure in running text: its wording, which for a missing key is the key as shown. -/
def plain : Failure → String
  | raised .key message => Text.quote message
  | f => f.text

/-- Handlers of ordinary failures catch it. -/
def isOrdinary (f : Failure) : Bool := f.kind.isOrdinary

end Failure
end FlatMachine
