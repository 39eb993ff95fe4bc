import FlatMachine.Service.Callback

/-! # Invocations of a service

Entering a state with an invocation calls its source, schedules what the source returned and
waits for it.  The slot of the service says whether the result is still wanted.

* **`Engine.startInvocation`** activates a new token, calls the source and schedules the
  awaitable.  If either fails in an ordinary way, the token is retired.
* **`Engine.cancelInvocation`** empties the slot and runs the cancel callback; its failure goes
  to the error hooks and stops there. -/

namespace FlatMachine

namespace Run

/-- Tell a waiter when an awaitable ends; if it has ended, at the next turn. -/
def whenSettled (a : AwaitableId) (w : Waiter) : Run Unit := do
  match (← get).awaitables.lookup a with
  | some (.future none waiters) =>
    modify fun world => world.setAwaitable a (.future none (waiters ++ [w]))
  | some (.future (some settlement) waiters) => modify fun world =>
    { world.setAwaitable a (.future (some settlement) (waiters ++ [w])) with
      ready := world.ready ++ [Ready.complete w a] }
  | _ => fail (.missingIndex "list")

/-- Schedule an awaitable of a service.  Work that was not scheduled yet becomes a future, and
its first step is ready. -/
def schedule (i : Nat) (a : AwaitableId) : Run Unit := do
  let s ← service i
  let w ← get
  if w.looping || s.ownLoop then
    match w.awaitables.lookup a with
    | some (.future ..) => return
    | some (.coroutine pauses body args) =>
      set { w.setAwaitable a (.future none []) with
        ready := w.ready ++ [Ready.step a pauses body args] }
    | none => fail (.missingIndex "list")
  else fail .noLoop

end Run

namespace Engine

open Run

variable (g : Engine)

/-- Report the failed cancel callback of a token to the error hooks; ordinary failures of theirs
end here.  The callback is called once, so its failure can have the token's number. -/
def reportCancelFailure (i : Nat) (t : Option Token) (failure : Failure) : Run Unit :=
  let error := Value.failure (.service i, (t.getD 0).toNat) failure
  rescue (do g.observe (.service i) (← service i).hooks .error [.fresh error]) fun _ =>
    record .warning "on_error hook failed while reporting a cancel error; ignoring"

/-- Report a failed cancel callback, if it failed. -/
def reportCancelFailure? (i : Nat) (t : Option Token) : Option Failure → Run Unit
  | none => pure ()
  | some failure => g.reportCancelFailure i t failure

/-- Cancel the active invocation. -/
def cancelInvocation (i : Nat) : Run Unit := do
  let (t, callback) ← clear i
  g.reportCancelFailure? i t (← g.callCancel? (.service i) t callback)

/-- Cancel the invocation of a token, if it is the active one. -/
def cancelIfActive (i : Nat) (t : Token) : Run Unit := do
  if (← service i).slot.isActive t then g.cancelInvocation i

/-- Cancel the invocation of a token through its interface. -/
def revoke (i : Nat) (t : Token) : Run Unit := do
  note (.revoked i t)
  g.cancelIfActive i t

/-- Call the source of an invocation. -/
def callSource (i : Nat) (src : Value) (e : Event) (t : Token) : Run Value := do
  if let .function _ _ (.host _) _ := src then
    modify fun w => { w with sourceCalls := w.sourceCalls ++ [(i, t)] }
  let c := (← service i).context
  return (← g.invoke (.service i)
    (.source t) src [.held c, .fresh e.toValue, .fresh (.sourceAccess i t)]).value

/-- Call the source of an invocation, read its result and schedule the awaitable: the awaitable
and the cancel callback. -/
def launch (i : Nat) (invocation : Value) (e : Event) (t : Token) : Run (AwaitableId × Value) := do
  let (a, cancel) ← ofExcept (awaitableOf (← g.callSource i (← member invocation "src") e t))
  schedule i a
  return (a, cancel)

/-- Start the invocation of the state just entered. -/
def startInvocation (i : Nat) (invocation : Value) (e : Event) : Run Unit := do
  let t : Token := Int.ofNat (← mint (.service i))
  activate i t invocation
  record .debug ("Starting invocation <token> in state " ++ (← service i).stateName.shown)
  let (a, cancel) ← rescue (g.launch i invocation e t) fun failure => do
    discard (retire i t)
    fail failure
  let callback ← attach i t cancel
  g.reportCancelFailure? i (some t) (← g.callCancel? (.service i) (some t) callback)
  whenSettled a ⟨i, t, e⟩

end Engine
end FlatMachine
