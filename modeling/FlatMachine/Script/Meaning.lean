import FlatMachine.Script.Basic
import FlatMachine.Value.Display

/-! # The meaning of scripts

**`Expr.eval`** and **`Script.run`** turn expressions and scripts into programs.  A script ends
with the first step that returns; without one its result is null. -/

namespace FlatMachine

namespace Value

/-- The item at an index; a negative index counts from the end. -/
def itemAt (items : List Value) (i : Int) : Option Value :=
  if 0 ≤ i then items[i.toNat]? else if -i ≤
    items.length then items[(items.length + i).toNat]? else none

/-- The index that a key is; a truth value is one or zero. -/
def index? : Value → Option Int
  | int i => some i
  | bool b => some (if b then 1 else 0)
  | _ => none

/-- The part of a value under a key, if there is one; the items of a sequence are counted from
zero. -/
def part (v key : Value) : Option Value :=
  match v with
  | list items | tuple items => key.index?.bind fun i => if 0 ≤ i then items[i.toNat]? else none
  | v => match v.entries?, v.parts?, key with
    | some entries, _, key => if key.isKey then lookup key entries else none
    | none, some parts, str name => Fields.get? name parts
    | _, _, _ => none

/-- Follow keys into a value; null where something is missing. -/
def follow (v : Value) : List Value → Value
  | [] => v
  | key :: rest => match v.part key with
    | some w => w.follow rest
    | none => null
termination_by structural keys => keys

/-- The item at a key that has to be an index of one. -/
def requireItem (sequence : String) (items : List Value) (key : Value) : Except Failure Value :=
  match key.index? with
  | none => .error (.notIndex sequence key.typeName)
  | some i => match itemAt items i with
    | some w => .ok w
    | none => .error (.missingIndex sequence)

/-- The part of a value under a key that has to be there. -/
def require (v key : Value) : Except Failure Value :=
  match v with
  | list items => requireItem "list" items key
  | tuple items => requireItem "tuple" items key
  | str s => requireItem "string" (characters s) key
  | v => match v.entries? with
    | none => .error (.notSubscriptable v.typeName)
    | some entries => do
      checkKey key
      match lookup key entries with
      | some w => return w
      | none => throw (.missingKey key.shown)

/-- The integer that a value is; anything else counts as zero. -/
def integer : Value → Int
  | int i => i
  | _ => 0

/-- Null and false do not hold. -/
def holds : Value → Bool
  | null | bool false => false
  | _ => true

/-- A list with one more item. -/
def push (items item : Value) : Value :=
  match items with
  | list xs => list (xs ++ [item])
  | _ => list [item]

end Value

namespace Script

open Value

/-- The argument at a position, null if there is none. -/
def argument (args : List Object) (i : Nat) : Object := args[i]?.getD (.fresh .null)

/-- Follow keys into an argument. -/
def followArgument (o : Object) (path : List Value) : Prog Object :=
  match o.value, path with
  | _, [] => .done o
  | .actionAccess _, [.str "context"] => .pending fun c => .done (.held c)
  | .actionAccess _, .str "context" :: rest => .pending fun c =>
    .done (.fresh (c.value.follow rest))
  | .sourceAccess i t, .str "active" :: rest =>
    .ask (.isActive i t) fun b => .done (.fresh ((Value.bool b).follow rest))
  | .sourceAccess i _, .str "state" :: rest => .ask (.liveState i) fun v =>
    .done (.fresh (v.follow rest))
  | v, path => .done (.fresh (v.follow path))

/-- The value of an expression. -/
def Expr.eval (args : List Object) : Expr → Prog Object
  | .lit l => do return .fresh (← l.eval)
  | .arg i path => followArgument (argument args i) path
  | .item i key => do
    match args[i]? with
    | some o => return .fresh (← .ofExcept (o.value.require key))
    | none => .fail (.missingIndex "tuple")
  | .put key base value => do
    let base ← base.eval args
    let value ← value.eval args
    return .fresh (← Value.put (← key.eval) base.value value.value)
  | .push items last => do
    let items ← items.eval args
    let last ← last.eval args
    return .fresh (Value.push items.value last.value)
  | .add a b => do
    let a ← a.eval args
    let b ← b.eval args
    return .fresh (.int (a.value.integer + b.value.integer))
  | .less a b => do
    let a ← a.eval args
    let b ← b.eval args
    return .fresh (.bool (a.value.integer < b.value.integer))
  | .alike a b => do
    let a ← a.eval args
    let b ← b.eval args
    return .fresh (.bool (a.value.alike b.value))
  | .not a => do return .fresh (.bool (!(← a.eval args).value.holds))
  | .status i => do return .fresh (← .perform (.status i))
  | .state i => do return .fresh (← .perform (.state i))

/-- The awaitable that is written.  A future is there before the value that it is settled with. -/
def Work.make (args : List Object) : Work → Prog AwaitableId
  | .future => .perform .future
  | .resolved e => do
    let a ← .perform .future
    let v ← e.eval args
    let () ← .perform (.settle a (.value v.value))
    return a
  | .rejected kind message => do
    let a ← .perform .future
    let () ← .perform (.settle a (.failed (.raised kind message)))
    return a
  | .coroutine pauses body => .perform (.coroutine pauses body args)
  | .shared n => .perform (.sharedFuture n)

/-- The third argument, which has to be there. -/
def interface (args : List Object) : Prog Value :=
  match args[2]? with
  | some o => .done o.value
  | none => .fail (.missingIndex "tuple")

/-- A member of what stands in for an interface. -/
def standIn (v : Value) (name : String) : Prog Value := .ofExcept (v.member name)

mutual

/-- Run one step; the object that it returns, if it does. -/
def Step.run (args : List Object) : Step → Prog (Option Object)
  | .log label values => do
    let values ← values.mapM (Expr.eval args)
    let () ← .perform (.log label (values.map (·.value)))
    return none
  | .set e => do
    match ← interface args with
    | .actionAccess _ => .setContext (← e.eval args)
    | v => do
      let f ← standIn v "set_context"
      discard (.perform (.call f [← e.eval args]))
    return none
  | .update e => do
    match ← interface args with
    | .actionAccess _ => do
      let c ← .pending .done
      let o ← e.eval (.held c :: args.drop 1)
      .write o (.done ())
    | v => .fail (.noMember v.typeName "set_context")
    return none
  | .send e => do
    match ← interface args with
    | .actionAccess owner => .perform (.send owner (← e.eval args).value)
    | .sourceAccess i _ => .perform (.send (.service i) (← e.eval args).value)
    | v => do
      let f ← standIn v "send"
      discard (.perform (.call f [← e.eval args]))
    return none
  | .ret e => do return some (← e.eval args)
  | .raise kind message => .fail (.raised kind message)
  | .cond e holds fails => do
    if (← e.eval args).value.holds then runSteps args holds else runSteps args fails
  | .cancelInvocation => do
    match ← interface args with
    | .sourceAccess i t => .perform (.cancelInvocation i t)
    | v => do discard (.perform (.call (← standIn v "cancel_invoke") []))
    return none
  | .startInvocation => do
    match ← interface args with
    | .sourceAccess .. => return none
    | v => do discard (.perform (.call (← standIn v "start_invoke") []))
    return none
  | .sendTo e i => do
    let v ← e.eval args
    let () ← .perform (.send (.service i) v.value)
    return none
  | .stop i => do
    let () ← .perform (.stop i)
    return none
  | .start i => do
    let () ← .perform (.start i)
    return none
  | .subscribe listener i => do
    let () ← .perform (.subscribe i listener)
    return none
  | .unsubscribe n => do
    let () ← .perform (.unsubscribe n)
    return none
  | .await work rest => do
    let a ← work.make args
    let rest ← rest.mapM Literal.eval
    return some (.fresh (if rest.isEmpty then a.toValue else .tuple (a.toValue :: rest)))
termination_by structural s => s

/-- Run steps until one returns. -/
def runSteps (args : List Object) : List Step → Prog (Option Object)
  | [] => .done none
  | s :: rest => do
    match ← s.run args with
    | some o => return some o
    | none => runSteps args rest
termination_by structural steps => steps

end

/-- Run a script. -/
def run (steps : List Step) (args : List Object) : Prog Object :=
  (runSteps args steps).bind fun result => .done (result.getD (.fresh .null))

end Script
end FlatMachine
