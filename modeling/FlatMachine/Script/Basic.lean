import FlatMachine.Script.Literal

/-! # Scripts

A small language for writing callbacks down.  A script is a list of steps, run in order on the
callback's arguments; expressions, literals among them, are evaluated afresh each time. -/

namespace FlatMachine.Script

/-- Expressions over the arguments of the callback. -/
inductive Expr where
  | lit (l : Literal)
  /-- an argument, followed along keys; null where something is missing -/
  | arg (i : Nat) (path : List Value)
  /-- a key of an argument, which has to be there -/
  | item (i : Nat) (key : Value)
  /-- a mapping or record with one key or field set -/
  | put (key : Literal) (base value : Expr)
  /-- a list with one more item -/
  | push (items item : Expr)
  | add (a b : Expr)
  | less (a b : Expr)
  | alike (a b : Expr)
  | not (a : Expr)
  | status (service : Nat)
  | state (service : Nat)
  deriving Inhabited

/-- Awaitables as written. -/
inductive Work where
  | future
  | resolved (value : Expr)
  | rejected (kind : Kind) (message : String)
  | coroutine (pauses : Nat) (body : Value)
  | shared (n : Nat)
  deriving Inhabited

/-- Steps. -/
inductive Step where
  | log (label : Value) (values : List Expr)
  | set (e : Expr)
  | update (e : Expr)
  | send (e : Expr)
  | ret (e : Expr)
  | raise (kind : Kind) (message : String)
  | cond (e : Expr) (holds fails : List Step)
  | cancelInvocation
  | startInvocation
  | sendTo (e : Expr) (service : Nat)
  | stop (service : Nat)
  | start (service : Nat)
  | subscribe (listener : String) (service : Nat)
  | unsubscribe (subscription : Nat)
  /-- return an awaitable, in a tuple with further values if there are any -/
  | await (work : Work) (rest : List Literal)
  deriving Inhabited

end FlatMachine.Script
