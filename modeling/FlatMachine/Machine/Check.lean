import FlatMachine.Machine.Config

/-! # Checking machine definitions

A definition is sound if it has states, its initial state and every target are among them, and
everything that will be called is callable.  **`Machine.problems`** lists what is wrong, one
entry for each defect: the machine first, then the states in order, and in each state its
candidates by event type, entry and exit actions, the source, and the candidates of its
invocation.

**`Machine.create`** reads a configuration and accepts it only if its validator finds nothing. -/

namespace FlatMachine

/-- A defect of a machine definition.  A place is the state's name with the part that is meant. -/
inductive Problem where
  | noStates
  | initialUndefined (shown : String)
  | notNode (state type : String)
  | notTransition (place type : String)
  | targetUndefined (place shown : String)
  | guardNotCallable (place : String)
  | actionNotCallable (place shown : String)
  | sourceNotCallable (place : String)
  deriving DecidableEq, Repr

namespace Problem

/-- The wording of each defect. -/
def text : Problem → String
  | noStates => "Machine must define at least one state."
  | initialUndefined shown => s!"Initial state {shown} is not defined."
  | notNode state type => s!"State {state} must be a StateNode, got {type}."
  | notTransition place type => s!"{place}: expected a Transition, got {type}."
  | targetUndefined place shown => s!"{place}: target {shown} is not defined."
  | guardNotCallable place => s!"{place}: guard is not callable."
  | actionNotCallable place shown => s!"{place}: action {shown} is not callable."
  | sourceNotCallable place => s!"{place}: src is not callable."

end Problem

namespace Machine

/-- The actions that are not callable. -/
def actionProblems (place : String) (actions : List Value) : List Problem :=
  (actions.filter (!·.isCallable)).map fun a => .actionNotCallable place a.shown

/-- The target is absent or defined. -/
def targetProblems (m : Machine) (place : String) (target : Value) :
    Except Failure (List Problem) :=
  if target.isNull then .ok []
  else do return if ← m.defines target then [] else [.targetUndefined place target.shown]

/-- The guard is absent or callable. -/
def guardProblems (place : String) (guard : Value) : List Problem :=
  if guard.isNull || guard.isCallable then [] else [.guardNotCallable place]

/-- The defects of one candidate. -/
def candidateProblems (m : Machine) (place : String) (v : Value) : Except Failure (List Problem) :=
  match Transition.ofValue? v with
  | none => .ok [.notTransition place v.typeName]
  | some t => do
    return (← m.targetProblems place t.target) ++ guardProblems place t.guard ++
      actionProblems place t.actions

/-- The defects of candidates, in order. -/
def candidatesProblems (m : Machine) (place : String) (candidates : List Value) :
    Except Failure (List Problem) :=
  return (← candidates.mapM (m.candidateProblems place)).flatten

/-- The defects of an optional invocation. -/
def invokeProblems (m : Machine) (name : String) (invoke : Value) : Except Failure (List Problem) :=
  if invoke.isNull then .ok []
  else do
    let src ← invoke.member "src"
    let source := if src.isCallable then [] else [Problem.sourceNotCallable (name ++ ".invoke")]
    let done ← m.candidatesProblems (name ++ ".invoke.on_done")
      (← (← invoke.member "on_done").items)
    let failed ← m.candidatesProblems (name ++ ".invoke.on_error")
      (← (← invoke.member "on_error").items)
    return source ++ done ++ failed

theorem invokeProblems_toValue (m : Machine) (name : String) (i : Invocation) :
    m.invokeProblems name i.toValue = do
      let done ← m.candidatesProblems (name ++ ".invoke.on_done") i.onDone
      let failed ← m.candidatesProblems (name ++ ".invoke.on_error") i.onError
      return (if i.src.isCallable then [] else [.sourceNotCallable (name ++ ".invoke")]) ++ done ++
        failed := rfl

/-- The defects of one entry of `on`. -/
def onProblems (m : Machine) (name : String) (entry : Value × Value) :
    Except Failure (List Problem) := do
  m.candidatesProblems (name ++ ".on[" ++ entry.1.shown ++ "]") (← entry.2.items)

/-- The defects of a node. -/
def nodeProblems (m : Machine) (name : String) (n : Node) : Except Failure (List Problem) := do
  let on ← n.on.mapM (m.onProblems name)
  let invoke ← m.invokeProblems name n.invoke
  return on.flatten ++ actionProblems (name ++ ".entry") n.entry ++
    actionProblems (name ++ ".exit") n.exit ++ invoke

/-- The defects of one state. -/
def stateProblems (m : Machine) (entry : Value × Value) : Except Failure (List Problem) :=
  match Node.ofValue? entry.2 with
  | none => .ok [.notNode entry.1.shown entry.2.typeName]
  | some n => m.nodeProblems entry.1.text n

/-- Every defect of a definition.  Names that cannot be keys are refused. -/
def problems (m : Machine) : Except Failure (List Problem) := do
  let initial := if ← m.defines m.initial then [] else [Problem.initialUndefined m.initial.shown]
  let states ← m.states.mapM m.stateProblems
  return (if m.states.isEmpty then [.noStates] else []) ++ initial ++ states.flatten

end Machine

/-- How definitions are checked: by the rules above, not at all, or by a list of complaints given
beforehand. -/
inductive Validator where
  | standard
  | permissive
  | complaining (messages : List String)
  deriving Repr

namespace Validator

/-- The complaints about a definition. -/
def complaints (v : Validator) (m : Machine) : Except Failure (List String) :=
  match v with
  | standard => return (← m.problems).map Problem.text
  | permissive => .ok []
  | complaining messages => .ok messages

/-- Refuse a definition with complaints. -/
def check (v : Validator) (m : Machine) : Except Failure Unit := do
  let messages ← v.complaints m
  if messages.isEmpty then return () else throw (.invalidMachine messages)

end Validator

namespace Machine

/-- The definition that a value is or describes. -/
def ofValue (config : Value) : Except Failure Machine :=
  match ofValue? config with
  | some m => .ok m
  | none => match config.entries? with
    | some entries => ofConfig entries
    | none => .error (.notMachine config.typeName)

/-- Build a definition and have it checked. -/
def create (config : Value) (validator : Validator) : Except Failure Machine := do
  let m ← ofValue config
  validator.check m
  return m

/-- The definition that a value gives to a check: its initial state and its states, which have to
be a mapping that the initial state can be looked up in. -/
def ofMembers (v : Value) : Except Failure Machine := do
  let states ← v.member "states"
  let initial ← v.member "initial"
  match states.entries? with
  | some entries => return { id := .null, initial, context := .null, states := entries }
  | none => do
    discard (initial.isWithin states)
    throw (.noMember states.typeName "items")

/-- The complaints of the standard rules about a definition, or about a value with the members of
one. -/
def complaintsAbout (v : Value) : Except Failure (List String) := do
  Validator.standard.complaints (← ofMembers v)

theorem problems_congr {m n : Machine} (hi : m.initial = n.initial) (hs : m.states = n.states) :
    m.problems = n.problems := by
  have hd : m.defines = n.defines := by funext name; simp [defines, hs]
  have ht : m.targetProblems = n.targetProblems := by funext place target; simp [targetProblems, hd]
  have hc : m.candidatesProblems = n.candidatesProblems := by
    funext place candidates
    have : m.candidateProblems = n.candidateProblems := by
      funext place v; simp [candidateProblems, ht]
    simp [candidatesProblems, this]
  have hn : m.stateProblems = n.stateProblems := by
    funext entry
    have h1 : m.onProblems = n.onProblems := by funext name entry; simp [onProblems, hc]
    have h2 : m.invokeProblems = n.invokeProblems := by
      funext name invoke; simp [invokeProblems, hc]
    have : m.nodeProblems = n.nodeProblems := by funext name node; simp [nodeProblems, h1, h2]
    simp [stateProblems, this]
  simp [problems, hd, hi, hs, hn]

theorem complaintsAbout_toValue (m : Machine) :
    complaintsAbout m.toValue = Validator.standard.complaints m := by
  have : (⟨.null, m.initial, .null, m.states⟩ : Machine).problems = m.problems :=
    problems_congr rfl rfl
  simp only [complaintsAbout, Validator.complaints, ← this]
  rfl

end Machine
end FlatMachine
