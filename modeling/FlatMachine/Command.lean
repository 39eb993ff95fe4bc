import FlatMachine.Loop

/-! # Commands of a host

A host is the program that services are embedded in.  It makes services, starts and stops them,
sends them events, listens to them, cancels invocations through the interface that their source
received, settles the futures that callbacks made, and lets the event loop run.

* **`Engine.obey`** carries out one command.
* **`World.after`** is the world after a history of commands.  A failure goes to the host, which
  carries on with its next command. -/

namespace FlatMachine

/-- What a host can do. -/
inductive Command where
  | create (config : Value) (validator : Validator) (hooks : List Hook) (ownLoop : Bool)
  | start (service : Nat) (override : Value)
  | stop (service : Nat)
  | send (service : Nat) (event : Value)
  | subscribe (service : Nat) (listener : String) (callback : Option Value)
  | unsubscribe (subscription : Nat)
  | cancelInvocation (service : Nat) (token : Token)
  | settle (future : Nat) (settlement : Settlement)
  /-- let the event loop take one turn -/
  | turn
  /-- run the event loop until it is idle -/
  | flush

/-- The type of the reply to a command: the number of a service or a subscription, or whether
there was something to settle or to run. -/
def Command.Reply : Command → Type
  | create .. | subscribe .. => Nat
  | settle .. | turn => Bool
  | _ => Unit

namespace Engine

open Run

variable (g : Engine)

/-- Carry out a command. -/
def obey : (c : Command) → Run c.Reply
  | .create config validator hooks ownLoop => create config validator hooks ownLoop
  | .start i override => g.start i override
  | .stop i => g.stop i
  | .send i event => g.send i event
  | .subscribe i name callback => do subscribe i (← listenerNamed name callback)
  | .unsubscribe n => unsubscribe n
  | .cancelInvocation i t => g.revoke i t
  | .settle n settlement => settleFuture n settlement
  | .turn => onLoop g.takeTurn
  | .flush => g.flush

end Engine

namespace World

/-- The world after a history of commands. -/
def after (g : Engine) (w : World) (history : List Command) : World :=
  history.foldl (fun w c => ((g.obey c).run w).2) w

theorem after_cons (g : Engine) (w : World) (c : Command) (history : List Command) :
    w.after g (c :: history) = World.after g ((g.obey c).run w).2 history := rfl

theorem after_append (g : Engine) (w : World) (xs ys : List Command) :
    w.after g (xs ++ ys) = (w.after g xs).after g ys := List.foldl_append

end World
end FlatMachine
