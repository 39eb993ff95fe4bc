import FlatMachine.World

/-! # Running actions, guards and hooks

An **`Engine`** knows how to run a callback.  Everything a service does is defined over an
arbitrary engine; the engine that runs programs is tied in at the end.

* **`Engine.runActions`** threads a context through actions, each of which sees what the earlier
  ones wrote.
* **`Engine.resolve`** finds the first candidate that may be taken.  A candidate is a transition,
  or a value with members that answer in its place.
* **`Engine.observe`** calls the hooks of one moment, in order.
* **`Engine.callCancel`** runs a cancel callback and hands back an ordinary failure instead of
  raising it. -/

namespace FlatMachine

/-- How callbacks run: a callable is called on an owner's behalf with arguments and, if it is an
action, a pending context, which it hands back.  `bound` limits how many items one drain takes. -/
structure Engine where
  call : Owner → Value → List Object → Option Context → Run (Object × Option Context)
  bound : Nat

namespace Engine

open Run

variable (g : Engine)

/-- Call a callback in a role. -/
def invoke (owner : Owner) (role : Role) (f : Value) (args : List Object) : Run Object := do
  note (.called owner role f args)
  return (← g.call owner f args none).1

/-- Call a member of a value. -/
def callMember (owner : Owner) (v : Value) (name : String) (args : List Object) : Run Value := do
  return (← g.invoke owner (.member name) (← member v name) args).value

/-! ### Actions -/

/-- Run one action on a context. -/
def runAction (owner : Owner) (e : Event) (c : Context) (f : Value) : Run Context := do
  let args := [.held c, .fresh e.toValue, .fresh (.actionAccess owner)]
  note (.called owner .action f args)
  return (← g.call owner f args (some c)).2.getD c

/-- Run actions in order; without any, the context is the very same object. -/
def runActions (owner : Owner) (actions : List Value) (c : Context) (e : Event) : Run Context :=
  actions.foldlM (g.runAction owner e) c

@[simp] theorem runActions_nil (owner : Owner) (c : Context) (e : Event) :
    g.runActions owner [] c e = pure c := rfl

theorem runActions_append (owner : Owner) (xs ys : List Value) (c : Context) (e : Event) :
    g.runActions owner (xs ++ ys) c e =
      (g.runActions owner xs c e >>= fun c => g.runActions owner ys c e) :=
  List.foldlM_append

/-- Run the actions that any value holds; a value that counts as false holds none. -/
def runActionsOf (owner : Owner) (actions : Value) (c : Context) (e : Event) : Run Context :=
  if actions.truth then do g.runActions owner (← ofExcept actions.items) c e else pure c

@[simp] theorem runActionsOf_tuple (owner : Owner) (actions : List Value) (c : Context)
    (e : Event) :
    g.runActionsOf owner (.tuple actions) c e = g.runActions owner actions c e := by
  cases actions <;> rfl

/-! ### Candidates -/

/-- The guard of a transition holds: it has none, or its guard's result counts as true. -/
def guardHolds (owner : Owner) (t : Transition) (c : Context) (e : Event) : Run Bool :=
  if t.guard.isNull then pure true
  else return (← g.invoke owner .guard t.guard [.held c, .fresh e.toValue]).value.truth

/-- A candidate may be taken. -/
def isEligible (owner : Owner) (candidate : Value) (c : Context) (e : Event) : Run Bool :=
  match Transition.ofValue? candidate with
  | some t => g.guardHolds owner t c e
  | none => return (← g.callMember owner candidate "is_eligible" [.held c, .fresh e.toValue]).truth

@[simp] theorem isEligible_toValue (owner : Owner) (t : Transition) (c : Context) (e : Event) :
    g.isEligible owner t.toValue c e = g.guardHolds owner t c e := rfl

/-- Whether taking a candidate keeps the machine in its state, as the candidate answers. -/
def internality (owner : Owner) (candidate current : Value) : Run Value :=
  match Transition.ofValue? candidate with
  | some t => pure (.bool (t.isInternal current))
  | none => g.callMember owner candidate "is_internal" [.fresh current]

@[simp] theorem internality_toValue (owner : Owner) (t : Transition) (current : Value) :
    g.internality owner t.toValue current = pure (.bool (t.isInternal current)) := rfl

/-- The first candidate that may be taken, with its position counted from `n`. -/
def resolveFrom (owner : Owner) (c : Context) (e : Event) :
    Nat → List Value → Run (Option (Nat × Value))
  | _, [] => pure none
  | n, v :: rest => do
    if ← g.isEligible owner v c e then return some (n, v) else resolveFrom owner c e (n + 1) rest

/-- The first candidate that may be taken, with its position. -/
def resolve (owner : Owner) (candidates : List Value) (c : Context) (e : Event) :
    Run (Option (Nat × Value)) :=
  g.resolveFrom owner c e 0 candidates

/-- The candidates that a node has for an event type. -/
def candidatesFor (owner : Owner) (node : Value) (type : String) : Run (List Value) :=
  match Node.ofValue? node with
  | some n => pure (n.candidatesFor type)
  | none => do ofExcept (← g.callMember owner node "candidates_for" [.fresh (.str type)]).items

@[simp] theorem candidatesFor_toValue (owner : Owner) (n : Node) (type : String) :
    g.candidatesFor owner n.toValue type = pure (n.candidatesFor type) := rfl

/-! ### Hooks and cancel callbacks -/

/-- Call the hooks of a moment, in order; a hook that does not define the method is passed over. -/
def observe (owner : Owner) (hooks : List Hook) (m : Moment) (args : List Object) : Run Unit :=
  hooks.forM fun h =>
    match h.method? m with
    | none => pure ()
    | some f => discard (g.invoke owner (.hook m) f args)

/-- Run the cancel callback of a token.  An ordinary failure of it is handed back. -/
def callCancel (owner : Owner) (t : Option Token) (f : Value) : Run (Option Failure) :=
  rescue (do discard (g.invoke owner (.cancel t) f []); return none) fun failure => do
    record .warning "Invocation cancel callback failed; ignoring"
    return some failure

/-- Run the callback that a slot handed back, if there is one. -/
def callCancel? (owner : Owner) (t : Option Token) : Option Value → Run (Option Failure)
  | none => pure none
  | some f => g.callCancel owner t f

end Engine
end FlatMachine
