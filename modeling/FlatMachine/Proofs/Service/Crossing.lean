import FlatMachine.Proofs.Service.Stages

/-! # How a candidate is taken

Taking a candidate that is not internal has nine stages: exit actions, exit hooks, the
cancellation of the invocation, the candidate's own actions, the move, transition hooks, entry
actions, enter hooks, and the start of an invocation.  Each commits its part of the state when it
is done, so a failure leaves behind what the stages before it committed.

* **`Trace.Crosses`**: what is told when a candidate is taken, and the service that comes of it.
* **`Trace.Breaks`**: what is told when that is halted, stage by stage, and the service that is
  left behind.
* **`Engine.Leaving.concludes_apply`**: taking a candidate does the one or the other. -/

namespace FlatMachine

/-- The invocation that entering a state starts by itself, if there is one. -/
def Machine.automatic? (m : Machine) (name : Value) : Except Failure (Option Value) := do
  let n ← m.node name
  let invocation ← n.member "invoke"
  if !invocation.isNull then
    if (← invocation.member "auto_start").truth then return some invocation else return none
  else return none

namespace Trace

variable (g : Engine) (i : Nat)

/-! ### Stages -/

/-- The live state is exited, but for its invocation. -/
def leaving (s : Service) (e : Event) : Trace Context := do
  let c ← stateActions g i s.machine s.stateName "exit" e s.context
  hooks g i .exit [.fresh s.stateName, .held c] s.hooks
  tell (.exited i s.stateName)
  return c

/-- The live state is exited. -/
def exit (s : Service) (e : Event) : Trace Context := do
  let c ← leaving g i s e
  cancelling g i s.hooks s.slot
  return c

/-- A candidate's own actions are run. -/
def ownActions (v : Value) (seen : Event) (c : Context) : Trace Context := do
  actionsOf g i seen (← ofExcept (v.member "actions")) c

/-- The live state becomes the target of a candidate. -/
def moving (s : Service) (v : Value) (e seen : Event) (target : Value) : Trace Context := do
  let c ← ownActions g i v seen (← exit g i s e)
  tell (.moved i s.stateName target)
  return c

/-- The target is reached, and not entered yet. -/
def passing (s : Service) (v : Value) (e seen : Event) (target : Value) : Trace Context := do
  let c ← moving g i s v e seen target
  hooks g i .transition [.fresh s.stateName, .fresh target, .fresh e.toValue] s.hooks
  return c

/-- The live state is entered, but for its invocation. -/
def entering (s : Service) (e : Event) : Trace Context := do
  let c ← stateActions g i s.machine s.stateName "entry" e s.context
  hooks g i .enter [.fresh s.stateName, .held c] s.hooks
  return c

/-- A candidate that leads out of the live state is taken, but for the invocation of its target:
the state is exited, with its invocation, the candidate's own actions are run, and the target is
entered. -/
def crossing (s : Service) (v : Value) (e seen : Event) (target : Value) : Trace Context := do
  let c ← stateActions g i s.machine s.stateName "exit" e s.context
  hooks g i .exit [.fresh s.stateName, .held c] s.hooks
  tell (.exited i s.stateName)
  cancelling g i s.hooks s.slot
  let c ← ownActions g i v seen c
  tell (.moved i s.stateName target)
  hooks g i .transition [.fresh s.stateName, .fresh target, .fresh e.toValue] s.hooks
  let c ← stateActions g i s.machine target "entry" e c
  hooks g i .enter [.fresh target, .held c] s.hooks
  return c

/-- The target is entered once it is reached. -/
theorem crossing_of_passing {s : Service} {v : Value} {e seen : Event} {target : Value}
    {es es' : List Entry} {c c' : Context} (passed : passing g i s v e seen target es (.ok c))
    (entered : entering g i { s with stateName := target, context := c, slot := .empty } e
      es' (.ok c')) :
    crossing g i s v e seen target (es ++ es') (.ok c') := by
  have parts : crossing g i s v e seen target = (do
      let c ← passing g i s v e seen target
      entering g i { s with stateName := target, context := c, slot := .empty } e) := by
    unfold passing moving exit leaving entering crossing
    simp only [bind_assoc, pure_bind]
  rw [parts]
  exact .ok passed entered

/-- A new token is made the active one. -/
def activation (invocation : Value) : Trace Token :=
  fun es r => ∃ t, es = [.activated i t invocation .empty] ∧ r = .ok t

/-- An awaitable is scheduled, or is not for want of a loop, or because it is unknown. -/
def scheduling : Trace Unit := fun es r =>
  es = [] ∧ (r = .ok () ∨ r = .error (.raised .noLoop) ∨
    r = .error (.raised (.missingIndex "list")))

/-- The source of an invocation is called. -/
def callSource (src : Value) (e : Event) (t : Token) (c : Context) : Trace Value := do
  return (← invoke g i (.source t) src
    [.held c, .fresh e.toValue, .fresh (.sourceAccess i t)]).value

/-- The source of an invocation is called, and what it returned is scheduled. -/
def launch (invocation : Value) (e : Event) (t : Token) (c : Context) :
    Trace (AwaitableId × Value) := do
  let (a, cancel) ← ofExcept
    (awaitableOf (← callSource g i (← ofExcept (invocation.member "src")) e t c))
  scheduling
  return (a, cancel)

/-! ### Starting and entering -/

/-- An invocation is started: what is told, how it ends, and the slot that is left behind. -/
inductive Starts (invocation : Value) (e : Event) (c : Context) :
    List Entry → Except Halt Unit → Slot → Prop where
  | begun {t : Token} {es es' : List Entry} {a : AwaitableId} {cancel : Value}
      (activated : activation i invocation es (.ok t))
      (launched : launch g i invocation e t c es' (.ok (a, cancel))) :
      Starts invocation e c (es ++ (es' ++ if cancel.isNull then [] else [.attached i t cancel]))
        (.ok ()) ((Slot.empty.activate t).attach t cancel).1
  /-- an ordinary failure -/
  | dropped {t : Token} {es es' : List Entry} {f : Failure}
      (activated : activation i invocation es (.ok t))
      (failed : launch g i invocation e t c es' (.error (.raised f)))
      (ordinary : f.isOrdinary = true) :
      Starts invocation e c (es ++ (es' ++ [.retired i t])) (.error (.raised f)) .empty
  | lost {t : Token} {es es' : List Entry} {halt : Halt}
      (activated : activation i invocation es (.ok t))
      (failed : launch g i invocation e t c es' (.error halt))
      (other : ∀ f, halt = .raised f → f.isOrdinary = false) :
      Starts invocation e c (es ++ es') (.error halt) (Slot.empty.activate t)

/-- The live state is entered: what is told, and the service that comes of it. -/
inductive Enters (s : Service) (e : Event) : List Entry → Service → Prop where
  | rests {es : List Entry} {c : Context} (entered : entering g i s e es (.ok c))
      (none : s.machine.automatic? s.stateName = .ok none) : Enters s e es { s with context := c }
  | starts {es es' : List Entry} {c : Context} {invocation : Value} {slot : Slot}
      (entered : entering g i s e es (.ok c))
      (some : s.machine.automatic? s.stateName = .ok (some invocation))
      (started : Starts g i invocation e c es' (.ok ()) slot) :
      Enters s e (es ++ es') { s with context := c, slot }

/-- The source of an invocation is called.  Nothing is said of what was done from then on. -/
inductive Sources (invocation : Value) (e : Event) (c : Context) : List Entry → Prop where
  | called {t : Token} {src : Value} {later : List Entry}
      (source : invocation.member "src" = .ok src) :
      Sources invocation e c (.activated i t invocation .empty ::
        .called (.service i) (.source t) src
          [.held c, .fresh e.toValue, .fresh (.sourceAccess i t)] :: later)

/-- The live state is entered, and the source of its invocation is called, if it has one that
starts by itself. -/
inductive Reaches (s : Service) (e : Event) : List Entry → Service → Prop where
  | rests {es : List Entry} {c : Context} (entered : entering g i s e es (.ok c))
      (none : s.machine.automatic? s.stateName = .ok none) : Reaches s e es { s with context := c }
  | starts {es es' : List Entry} {c : Context} {invocation : Value} {slot : Slot}
      (entered : entering g i s e es (.ok c))
      (some : s.machine.automatic? s.stateName = .ok (some invocation))
      (sources : Sources i invocation e c es') :
      Reaches s e (es ++ es') { s with context := c, slot }

/-- The live state is not entered to the end: what is told, what halted it, and the service that
is left behind. -/
inductive BreaksEntering (s : Service) (e : Event) : Halt → List Entry → Service → Prop where
  /-- in an entry action -/
  | action {es : List Entry} {halt : Halt}
      (failed : stateActions g i s.machine s.stateName "entry" e s.context es (.error halt)) :
      BreaksEntering s e halt es s
  /-- in an enter hook -/
  | hook {es es' : List Entry} {c : Context} {halt : Halt}
      (entry : stateActions g i s.machine s.stateName "entry" e s.context es (.ok c))
      (failed : hooks g i .enter [.fresh s.stateName, .held c] s.hooks es' (.error halt)) :
      BreaksEntering s e halt (es ++ es') { s with context := c }
  /-- in looking for an invocation -/
  | automatic {es : List Entry} {c : Context} {f : Failure} (entered : entering g i s e es (.ok c))
      (failed : s.machine.automatic? s.stateName = .error f) :
      BreaksEntering s e (.raised f) es { s with context := c }
  /-- in starting it -/
  | source {es es' : List Entry} {c : Context} {invocation : Value} {slot : Slot} {halt : Halt}
      (entered : entering g i s e es (.ok c))
      (some : s.machine.automatic? s.stateName = .ok (some invocation))
      (failed : Starts g i invocation e c es' (.error halt) slot) :
      BreaksEntering s e halt (es ++ es') { s with context := c, slot }

/-- The live state is not exited to the end. -/
inductive BreaksLeaving (s : Service) (e : Event) : Halt → List Entry → Service → Prop where
  /-- in an exit action -/
  | action {es : List Entry} {halt : Halt}
      (failed : stateActions g i s.machine s.stateName "exit" e s.context es (.error halt)) :
      BreaksLeaving s e halt es s
  /-- in an exit hook -/
  | hook {es es' : List Entry} {c : Context} {halt : Halt}
      (exited : stateActions g i s.machine s.stateName "exit" e s.context es (.ok c))
      (failed : hooks g i .exit [.fresh s.stateName, .held c] s.hooks es' (.error halt)) :
      BreaksLeaving s e halt (es ++ es') { s with context := c }
  /-- in the cancel callback or an error hook, which only failures do that are not ordinary -/
  | cancel {es es' : List Entry} {c : Context} {halt : Halt} (left : leaving g i s e es (.ok c))
      (failed : cancelling g i s.hooks s.slot es' (.error halt)) :
      BreaksLeaving s e halt (es ++ es') { s with context := c, slot := .empty }

/-! ### Crossing -/

/-- The candidate is asked, and leads out of the live state to a target that is defined. -/
structure Aims (s : Service) (v target : Value) (es : List Entry) : Prop where
  external : ∃ internal, internality g i v s.stateName es (.ok internal) ∧ internal.truth = false
  aims : v.member "target" = .ok target
  defined : s.machine.demand target = .ok ()

/-- A candidate is taken on an event, its own actions seeing another one: what is told, and the
service that comes of it.  The target is entered as `Entered` says. -/
inductive Crosses (Entered : Service → Event → List Entry → Service → Prop) (s : Service)
    (v : Value) (e seen : Event) :
    List Entry → Service → Prop where
  | internal {es es' : List Entry} {internal : Value} {c : Context}
      (asked : internality g i v s.stateName es (.ok internal))
      (holds : internal.truth = true) (run : ownActions g i v seen s.context es' (.ok c)) :
      Crosses Entered s v e seen (es ++ es') { s with context := c }
  | external {es es' es'' : List Entry} {target : Value} {c : Context} {s' : Service}
      (aims : Aims g i s v target es)
      (passed : passing g i s v e seen target es' (.ok c))
      (entered : Entered { s with stateName := target, context := c, slot := .empty } e es'' s') :
      Crosses Entered s v e seen (es ++ (es' ++ es'')) s'

/-- A candidate is not taken to the end: what is told, what halted it, and the service that is
left behind. -/
inductive Breaks (s : Service) (v : Value) (e seen : Event) :
    Halt → List Entry → Service → Prop where
  /-- in asking whether the candidate is internal -/
  | internality {es : List Entry} {halt : Halt}
      (failed : internality g i v s.stateName es (.error halt)) :
      Breaks s v e seen halt es s
  /-- in an action of an internal candidate -/
  | internal {es es' : List Entry} {internal : Value} {halt : Halt}
      (asked : Trace.internality g i v s.stateName es (.ok internal))
      (holds : internal.truth = true) (failed : ownActions g i v seen s.context es' (.error halt)) :
      Breaks s v e seen halt (es ++ es') s
  /-- since the target is not defined -/
  | target {es : List Entry} {internal : Value} {f : Failure}
      (asked : Trace.internality g i v s.stateName es (.ok internal))
      (fails : internal.truth = false)
      (failed : (do s.machine.demand (← v.member "target")) = .error f) :
      Breaks s v e seen (.raised f) es s
  /-- in exiting the live state -/
  | leaving {es es' : List Entry} {target : Value} {halt : Halt} {s' : Service}
      (aims : Aims g i s v target es)
      (failed : BreaksLeaving g i s e halt es' s') : Breaks s v e seen halt (es ++ es') s'
  /-- in an action of the candidate -/
  | action {es es' es'' : List Entry} {target : Value} {c : Context} {halt : Halt}
      (aims : Aims g i s v target es)
      (exited : exit g i s e es' (.ok c)) (failed : ownActions g i v seen c es'' (.error halt)) :
      Breaks s v e seen halt (es ++ (es' ++ es'')) { s with context := c, slot := .empty }
  /-- in a transition hook -/
  | hook {es es' es'' : List Entry} {target : Value} {c : Context} {halt : Halt}
      (aims : Aims g i s v target es)
      (moved : moving g i s v e seen target es' (.ok c))
      (failed : hooks g i .transition [.fresh s.stateName, .fresh target, .fresh e.toValue] s.hooks
        es'' (.error halt)) :
      Breaks s v e seen halt (es ++ (es' ++ es''))
        { s with stateName := target, context := c, slot := .empty }
  /-- in entering the target -/
  | entering {es es' es'' : List Entry} {target : Value} {c : Context} {halt : Halt} {s' : Service}
      (aims : Aims g i s v target es)
      (passed : passing g i s v e seen target es' (.ok c))
      (failed : BreaksEntering g i { s with stateName := target, context := c, slot := .empty } e
        halt es'' s') :
      Breaks s v e seen halt (es ++ (es' ++ es'')) s'

/-! ### Events -/

/-- The candidate that an event finds is taken, or nothing is done. -/
inductive Processes (s : Service) (e : Event) : List Entry → Service → Prop where
  | unmatched {es : List Entry} (found : choice g i s e es (.ok none)) : Processes s e es s
  | taken {es es' : List Entry} {k : Nat} {v : Value} {s' : Service}
      (found : choice g i s e es (.ok (some (k, v))))
      (crosses : Crosses g i (Enters g i) s v e e es' s') : Processes s e (es ++ es') s'

/-- An event is not processed to the end. -/
inductive Fails (s : Service) (e : Event) : Halt → List Entry → Service → Prop where
  /-- in choosing among the candidates -/
  | choice {es : List Entry} {halt : Halt} (failed : choice g i s e es (.error halt)) :
      Fails s e halt es s
  /-- in taking the one that was found -/
  | taken {es es' : List Entry} {k : Nat} {v : Value} {halt : Halt} {s' : Service}
      (found : Trace.choice g i s e es (.ok (some (k, v))))
      (breaks : Breaks g i s v e e halt es' s') : Fails s e halt (es ++ es') s'

end Trace

end FlatMachine
