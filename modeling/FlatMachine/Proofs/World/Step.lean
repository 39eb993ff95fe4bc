import FlatMachine.Proofs.Run
import FlatMachine.Proofs.Machine.Checked
import FlatMachine.Machine.Override
import Mathlib.Logic.Relation

/-! # What can happen to a world

All that services, callbacks and the event loop do to a world is made of steps.  Each says what
it needs: a candidate's target is defined when the state is moved there, the slot is empty when
an invocation becomes the active one, what is published is the live state, and so on.  So what
holds of every world that a run passes is proved once for each sort of step.

* **`Turn`**: what can happen to one service, what it becomes and what is written into the
  journal.
* **`Step`**: a turn of a service, or what concerns no service or a new one.  Two sorts of steps
  write before they change a service: a drain begins with what it is for (**`Opening`**), and the
  slot is emptied for a reason (**`Cause`**).
* **Labels.**  A step is *free*, or it is a *stop*, or it belongs to a service: it does the
  *work* of processing one item, it gives a *view* of the service, it *takes* an item, or it
  *frames* a drain.  Any callback may take a free step or stop a service; the others are taken by
  the drain of their service alone.
* **`Service.Busy`**: somebody drains the queue of the service.
* **`Service.Current`**: the snapshot shows the live state and context and the tags of the live
  node.  **`Service.Settled`**: it does, or what it does not show was left behind by a drain that
  was halted. -/

namespace FlatMachine

/-! ### Snapshots and what they show -/

/-- Equal, perhaps through a chain of equal values. -/
def Value.Alike : Value → Value → Prop := Relation.EqvGen fun a b => a.same b = true

/-- The tags of a state. -/
def Machine.tags (m : Machine) (name : Value) : Except Failure Value := do
  (← m.node name).member "tags"

namespace Service

/-- The snapshot shows the live state and context, and the tags of the live node. -/
structure Current (s : Service) : Prop where
  name : s.stateName.Alike s.snapshot.stateName
  context : s.context.stamp = s.snapshot.context.stamp
  tags : s.machine.tags s.snapshot.stateName = .ok s.snapshot.tags

/-- One snapshot, and nothing between the two that it should show. -/
structure SameView (s s' : Service) : Prop where
  machine : s'.machine = s.machine
  snapshot : s'.snapshot = s.snapshot
  name : s'.stateName.Alike s.stateName
  context : s'.context.stamp = s.context.stamp

/-- Somebody drains the queue. -/
structure Busy (s : Service) : Prop where
  draining : s.queue.draining = true
  started : s.status ≠ .notStarted

theorem Busy.alike {s s' : Service} (h : s.Busy) (status : s'.status = s.status)
    (draining : s'.queue.draining = s.queue.draining) : s'.Busy :=
  ⟨draining.trans h.draining, status ▸ h.started⟩

/-- A service as it is made. -/
structure Fresh (s : Service) : Prop where
  status : s.status = .notStarted
  name : s.stateName = s.machine.initial
  slot : s.slot = .empty
  queue : s.queue = .empty
  copied : s.machine.context.copyable = true

end Service

/-- A drain of the service was halted here, and left it like this. -/
structure Point.Broke (p : Point) (i : Nat) (s : Service) : Prop where
  halted : ∃ halt, p.journal.head? = some (.ended i (some halt))
  service : p.services[i]? = some s

/-- The service published here, or a drain of it was halted. -/
def Point.Announces (p : Point) (i : Nat) : Prop :=
  (∃ sn, p.journal.head? = some (.published i sn)) ∨
    ∃ halt, p.journal.head? = some (.ended i (some halt))

/-- The snapshot is current, or it is out of date since a drain was halted. -/
structure Service.Settled (s : Service) (i : Nat) (points : List Point) : Prop where
  announced : ∃ p ∈ points, p.Announces i
  view : s.Current ∨ ∃ p ∈ points, ∃ s', p.Broke i s' ∧ ¬ s'.Current ∧ s'.SameView s

/-! ### Entries of the journal -/

namespace Role

/-- The definition of a machine decides what is called in the role. -/
def isVetted : Role → Bool
  | guard | action | source _ => true
  | _ => false

/-- The role of a cancel callback. -/
def isCancel : Role → Bool
  | cancel _ => true
  | _ => false

end Role

namespace Entry

/-- What callbacks, observers and the users of interfaces leave in the journal. -/
def isReport : Entry → Bool
  | logged .. | notified .. | escaped _ | record .. | revoked .. => true
  | _ => false

/-- The service whose doing the entry is.  Of the calls on its behalf, only those count in which
its definition or its slot has a say. -/
def service? : Entry → Option Nat
  | called (.service i) role .. => if role.isVetted || role.isCancel then some i else none
  | accepted i _ | taken i _ | exited i _ | moved i .. | activated i .. | attached i .. | retired i
    _ | cancelled i _
  | published i _ | began i | ended i _ | faulted i _ => some i
  | _ => none

/-- The service whose drain writes such entries, and nobody else. -/
def driver : Entry → Option Nat
  | taken i _ | exited i _ | moved i .. | activated i .. | attached i .. | retired i _ | published
    i _ | began i
  | ended i _ => some i
  | _ => none

end Entry

/-- The token's invocation was started, and its drain has written nothing since. -/
def Opened (i : Nat) (t : Token) (journal : List Entry) : Prop :=
  ∃ later earlier invocation before,
    journal = later ++ .activated i t invocation before :: earlier ∧
    ∀ e ∈ later, e.driver ≠ some i

/-- Why a token is retired: its source has not returned yet, or its outcome was taken just now. -/
def Dismissed (i : Nat) (t : Token) (journal : List Entry) : Prop :=
  Opened i t journal ∨ ∃ o : Outcome, o.token = t ∧ journal.head? = some (.taken i (.outcome o))

namespace Slot

/-- What is written when the slot of a service is emptied: the token that was active, and the
call of the callback. -/
def farewell (slot : Slot) (i : Nat) : List Entry :=
  (slot.cancel.map fun f => .called (.service i) (.cancel slot.token) f []).toList ++
    (slot.token.map (.cancelled i)).toList

/-- What is written when a cancel callback is recorded for a token: it is called at once if the
token is no longer active. -/
def welcome (slot : Slot) (i : Nat) (t : Token) (f : Value) : List Entry :=
  ((slot.attach t f).2.map fun g => .called (.service i) (.cancel (some t)) g []).toList ++
    [.attached i t f]

end Slot

namespace World

/-- The service is in a state of its machine. -/
def Live (w : World) (i : Nat) (m : Machine) (name : Value) : Prop :=
  ∃ s, w.services[i]? = some s ∧ s.machine = m ∧ s.stateName = name

/-- Somebody drains the queue of the service. -/
def Busy (w : World) (i : Nat) : Prop := ∃ s, w.services[i]? = some s ∧ s.Busy

/-- What is called on a service's behalf, in a role that its definition decides, is called by its
drain, and can be called if the definition is checked and the live state one of its states. -/
def Sanctions (w : World) (owner : Owner) (role : Role) (f : Value) : Prop :=
  ∀ i, owner = .service i → role.isVetted = true →
    w.Busy i ∧ ∃ m name, w.Live i m name ∧ (m.Covers name → f.isCallable = true)

/-- A service is changed, and entries are written, latest first. -/
def turned (w : World) (i : Nat) (f : Service → Service) (entries : List Entry) : World :=
  entries.foldr (fun e w => w.noted e) (w.change i f)

/-- A drain of a service begins, after a change that an entry tells of. -/
def entered (w : World) (i : Nat) (f : Service → Service) (e : Entry) : World :=
  (((w.change i f).noted e).change i fun s => { s with queue := s.queue.enter }).noted (.began i)

/-- An item is accepted while nobody drains the queue, and a drain begins for it. -/
def prompted (w : World) (i : Nat) (item : Item) : World :=
  w.entered i (fun s => { s with queue := s.queue.enqueue item }) (.accepted i item)

/-- A drain of the service is over, with the failure that ended it if there was one. -/
def left (w : World) (i : Nat) (halt : Option Halt) : World :=
  (w.change i fun s => { s with queue := s.queue.leave halt.isSome }).noted (.ended i halt)

/-- For a reason that an entry tells, the slot of a service is emptied. -/
def emptied (w : World) (i : Nat) (slot : Slot) (e : Entry) : World :=
  (w.noted e).turned i (fun s => { s with slot := .empty }) (slot.farewell i)

end World

/-! ### Steps -/

/-- Whose step it is. -/
inductive Label where
  | free
  /-- of any service; what waits in its queue is still to be dropped -/
  | stop
  /-- of processing one item of the service -/
  | work (i : Nat)
  /-- of giving the service a snapshot -/
  | view (i : Nat)
  /-- between the items of the service -/
  | take (i : Nat)
  /-- at an end of a drain -/
  | frame (i : Nat)

/-- The service that a step belongs to. -/
def Label.service? : Label → Option Nat
  | .free | .stop => none
  | .work i | .view i | .take i | .frame i => some i

/-- What a drain begins with: the start of the service, or an item that is accepted while nobody
drains the queue. -/
inductive Opening (i : Nat) (s : Service) : Service → Entry → Prop where
  | start (c : Context) (text : String) (notStarted : s.status = .notStarted) :
      Opening i s { s with context := c, stateName := s.machine.initial, status := .running }
        (.record .debug text)
  | accept (item : Item) (running : s.status = .running) :
      Opening i s { s with queue := s.queue.enqueue item } (.accepted i item)

/-- Why the slot is emptied: the live state is exited, or the interface of the active invocation
is used. -/
inductive Cause (i : Nat) (s : Service) : Label → Entry → Prop where
  | exit (busy : s.Busy) : Cause i s (.work i) (.exited i s.stateName)
  | revoke {t : Token} (active : s.slot.isActive t = true) : Cause i s .free (.revoked i t)

/-- What can happen to a service: what it becomes, and what is written. -/
inductive Turn (i : Nat) (w : World) (s : Service) : Label → Service → List Entry → Prop where
  | supply : Turn i w s .free { s with supply := s.supply + 1 } []
  | listeners (f : List Listener → List Listener) :
      Turn i w s .free { s with listeners := f s.listeners } []
  | fault (f : Failure) (uncovered : ¬ s.machine.Covers s.stateName) :
      Turn i w s .free s [.faulted i f]
  | accept (item : Item) (running : s.status = .running) (busy : s.queue.draining = true) :
      Turn i w s .free { s with queue := s.queue.enqueue item } [.accepted i item]
  | stop (running : s.status = .running) :
      Turn i w s .stop { s with status := .stopped, slot := .empty } (s.slot.farewell i)
  | drop (stopped : s.status = .stopped) :
      Turn i w s .free { s with queue := s.queue.clear, listeners := [] } []
  | prepare (c : Context) (sn : Snapshot) (notStarted : s.status = .notStarted) :
      Turn i w s (.view i) { s with context := c, snapshot := sn } []
  | leave (halt : Option Halt) (busy : s.Busy)
      (drained : halt = none → s.status = .running → s.queue.items = [])
      (settled : halt = none → s.status = .running → s.Settled i w.points) :
      Turn i w s (.frame i) { s with queue := s.queue.leave halt.isSome } [.ended i halt]
  | take {item : Item} {rest : List Item} (busy : s.Busy) (running : s.status = .running)
      (settled : s.Settled i w.points) (items : s.queue.items = item :: rest) :
      Turn i w s (.take i) { s with queue := s.queue.dequeue.2 } [.taken i item]
  | publish {sn : Snapshot} (busy : s.Busy) (name : sn.stateName = s.stateName)
      (context : sn.context = s.context)
      (changed : sn.changed = true) (tags : s.machine.tags s.stateName = .ok sn.tags) :
      Turn i w s (.view i) { s with snapshot := sn } [.published i sn]
  | commit (c : Context) (busy : s.Busy) : Turn i w s (.work i) { s with context := c } []
  | move {target : Value} (busy : s.Busy) (vacant : s.slot = .empty)
      (defined : s.machine.defines target = .ok true) :
      Turn i w s (.work i) { s with stateName := target } [.moved i s.stateName target]
  | activate {n invocation : Value} (busy : s.Busy) (vacant : s.slot = .empty)
      (node : s.machine.node s.stateName = .ok n) (invoke : n.member "invoke" = .ok invocation)
      (present : invocation.isNull = false) :
      Turn i w s (.work i)
        { s with supply := s.supply + 1, slot := s.slot.activate (Int.ofNat s.supply) }
        [.activated i (Int.ofNat s.supply) invocation s.slot]
  | attach {t : Token} {f : Value} (busy : s.Busy) (present : f.isNull = false)
      (opened : Opened i t w.journal) :
      Turn i w s (.work i) { s with slot := (s.slot.attach t f).1 } (s.slot.welcome i t f)
  | retire {t : Token} (busy : s.Busy) (active : s.slot.isActive t = true)
      (dismissed : Dismissed i t w.journal) :
      Turn i w s (.work i) { s with slot := .empty } [.retired i t]

/-- What can happen to a world. -/
inductive Step : Label → World → World → Prop where
  /-- the event loop, the clock, names and numbers apart from the services -/
  | aside {w w' : World} (services : w'.services = w.services) (journal : w'.journal = w.journal)
      (points : w'.points = w.points) : Step .free w w'
  | report {w : World} {e : Entry} (report : e.isReport = true) : Step .free w (w.noted e)
  | call {w : World} {owner : Owner} {role : Role} {f : Value} {args : List Object}
      (other : role.isCancel = false)
      (sanctioned : w.Sanctions owner role f) : Step .free w (w.noted (.called owner role f args))
  | create {w : World} {s : Service} (fresh : s.Fresh) :
      Step .free w { w with services := w.services ++ [s] }
  | enter {w : World} {i : Nat} {s : Service} {f : Service → Service} {e : Entry}
      (service : w.services[i]? = some s)
      (opening : Opening i s (f s) e) (idle : s.queue.draining = false) :
      Step (.frame i) w (w.entered i f e)
  | cancel {w : World} {i : Nat} {s : Service} {l : Label} {e : Entry}
      (service : w.services[i]? = some s)
      (cause : Cause i s l e) : Step l w (w.emptied i s.slot e)
  | turn {w : World} {i : Nat} {s : Service} {l : Label} {f : Service → Service}
      {entries : List Entry}
      (service : w.services[i]? = some s) (turn : Turn i w s l (f s) entries) :
      Step l w (w.turned i f entries)

end FlatMachine
