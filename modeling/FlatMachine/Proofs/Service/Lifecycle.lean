import FlatMachine.Service.Lifecycle
import FlatMachine.Proofs.Service.Step

/-! # Where a service's life goes

Whatever can be done to a service from outside can be done by anybody, at any time: it makes a
drain of its own, or it leaves what it brings to the drain in progress.

* **`Run.walk_entered`**: a drain ends as it has to, whether its body is halted or not.
* **`Engine.tame_start`**, **`Engine.tame_send`**, **`Engine.tame_stop`**,
  **`Engine.tame_deliver`**: the four things that can be done to a service. -/

namespace FlatMachine

namespace Run

variable {i : Nat}

/-! ### Drains -/

/-- What is left to do of a stop once the invocation is cancelled. -/
def finishStop (i : Nat) : Run Unit := do
  update i fun s => { s with queue := s.queue.clear, listeners := [] }
  let s ← service i
  record .debug ("Stopped machine " ++ s.machine.id.shown ++ " in state " ++ s.stateName.shown)

/-- What is left to do of a drain once it has begun. -/
def drained (i : Nat) (body : Run Unit) : Run Unit := do
  tryCatch body fun halt => do
    update i fun s => { s with queue := s.queue.leave true }
    note (.ended i (some halt))
    throw halt
  update i fun s => { s with queue := s.queue.leave false }
  note (.ended i none)

theorem run_draining (body : Run Unit) (w : World) : (draining i body).run w =
    (drained i body).run
      ((w.change i fun s => { s with queue := s.queue.enter }).noted (.began i)) := by
  unfold draining drained
  rw [run_bind, run_update]
  dsimp only
  rw [run_bind, run_note]

/-- A drain ends as its body does. -/
theorem run_drained (body : Run Unit) (w : World) : (drained i body).run w = match body.run w with
    | (.ok (), w') => (.ok (), w'.left i none)
    | (.error halt, w') => (.error halt, w'.left i (some halt)) := by
  unfold drained
  rw [run_bind, run_tryCatch]
  generalize body.run w = out
  obtain ⟨halt | u, w'⟩ := out <;> rfl

/-- A drain that has begun is left on every way out of its body. -/
theorem walk_entered {body : Run Unit} {P : World → Prop}
    (hbody : body.Goes (.drain i) P fun _ => World.Finished i) {w : World} {s : Service}
    {f : Service → Service} {e : Entry} (hs : w.services[i]? = some s)
    (opening : Opening i s (f s) e) (idle : s.queue.draining = false) (hv : P (w.entered i f e)) :
    Walk .outside w ((drained i body).run (w.entered i f e)).2 := by
  have running := opening.running
  have begun : Step (.frame i) w (w.entered i f e) := .enter hs opening idle
  have entered : (w.entered i f e).services[i]? = some { f s with queue := (f s).queue.enter } :=
    World.entered_self hs
  have idle := (World.not_draining hs).mpr idle
  generalize w.entered i f e = v at *
  have busy : v.Busy i := ⟨_, entered, rfl, by rw [running]; exact nofun⟩
  obtain ⟨hp, hq⟩ := hbody v hv
  rw [run_drained]
  cases hr : body.run v with
  | mk r v' =>
    rw [hr] at hp hq
    obtain ⟨s', hs', hbusy⟩ := hp.path.busy busy
    have left (halt : Option Halt) : ¬ (v'.left i halt).Draining i :=
      (World.not_draining (World.left_self hs' halt)).mpr (Queue.draining_leave _ _)
    cases r with
    | ok u =>
      obtain ⟨⟨-, s₁, hs₁, -, settled⟩, drained⟩ := hq u rfl
      cases hs'.symm.trans hs₁
      have step : Step (.frame i) v' (v'.left i none) :=
        .wrote hs' (.leave none hbusy (fun _ => drained s' hs') fun _ => settled)
      exact .drain idle begun hp step (left none)
    | error halt =>
      have step : Step (.frame i) v' (v'.left i (some halt)) :=
        .wrote hs' (.leave (some halt) hbusy nofun nofun)
      exact .drain idle begun hp step (left (some halt))

end Run

namespace World

/-- A service that was not started yet. -/
structure Inert (i : Nat) (w : World) : Prop where
  sane : w.Sane
  service : ∃ s, w.services[i]? = some s ∧ s.status = .notStarted

/-- A running service is stopped and its slot emptied, and nothing else has happened. -/
def stopped (w : World) (i : Nat) (slot : Slot) : World :=
  w.turned i (fun s => { s with status := .stopped, slot := .empty }) (slot.farewell i)

theorem stopped_self {w : World} {i : Nat} {s : Service} (hs : w.services[i]? = some s)
    (slot : Slot) :
    (w.stopped i slot).services[i]? = some { s with status := .stopped, slot := .empty } := by
  rw [stopped, turned_services, change_self _ hs]

/-- A service that is stopped. -/
structure Over (i : Nat) (w : World) : Prop where
  sane : w.Sane
  service : ∃ s, w.services[i]? = some s ∧ s.status = .stopped

theorem Inert.notBusy {i : Nat} {w : World} (h : w.Inert i) : ¬ w.Busy i := by
  rintro ⟨s, hs, hb⟩
  obtain ⟨s', hs', hn⟩ := h.service
  cases hs.symm.trans hs'
  exact hb.started hn

theorem Inert.supplied {i : Nat} {w : World} {s : Service} (h : w.Inert i)
    (hs : w.services[i]? = some s) :
    World.Inert i (w.change i fun s => { s with supply := s.supply + 1 }) := by
  obtain ⟨s', hs', hn⟩ := h.service
  cases hs.symm.trans hs'
  exact ⟨Firm.ofSane.supplied h.sane hs, _, change_self _ hs, hn⟩

end World

/-- A service that has neither a context nor a snapshot yet. -/
def Service.blank (m : Machine) (hooks : List Hook) (ownLoop : Bool) : Service where
  machine := m
  hooks := hooks
  ownLoop := ownLoop
  status := .notStarted
  stateName := m.initial
  context := ⟨0, .null⟩
  queue := .empty
  slot := .empty
  listeners := []
  snapshot := default
  supply := firstNumber

theorem Firm.ofOver {i : Nat} : Firm (World.Over i) :=
  ⟨World.Over.sane, fun ⟨hw, _, hs, hstop⟩ hp => ⟨hp.sane hw, hp.path.stopped hs hstop⟩⟩

namespace Run

variable {sc : Scope} {i : Nat}

/-! ### Making services and listening to them -/

/-- Before a service is started, its context and snapshot are given to it. -/
theorem goes_prepare {f : Service → Service}
    (hf : ∀ s : Service, ∃ c sn, f s = { s with context := c, snapshot := sn }) :
    (update i f).Goes sc (World.Inert i) fun _ => World.Inert i := by
  intro w hw
  obtain ⟨s, hs, hn⟩ := hw.service
  obtain ⟨c, sn, hfs⟩ := hf s
  have step : Step (.view i) w (w.change i f) := .changed hs (hfs ▸ .prepare c sn hn)
  refine ⟨.step (l := .view i) (Or.inr fun j hj => ?_) nofun step, fun _ _ => ?_⟩
  · cases hj
    exact hw.notBusy
  · refine ⟨step.sane hw.sane, f s, World.change_self f hs, ?_⟩
    rw [hfs]
    exact hn

/-- What is left to do of making a service once it is there. -/
def finishCreate (i : Nat) (context : Value) : Run Nat := do
  let context ← adopt (.service i) (.fresh context)
  update i fun s => { s with context }
  let snapshot ← currentSnapshot i false
  update i fun s => { s with snapshot }
  return i

/-- Making a service fails at once, unless its machine is sound and has a context that can be
copied. -/
theorem run_create_refused (config : Value) (validator : Validator) (hooks : List Hook)
    (ownLoop : Bool) (w : World) :
    (∃ f, (create config validator hooks ownLoop).run w = (.error (.raised f), w)) ∨
      ∃ m, Machine.create config validator = .ok m ∧ m.context.copyable = true := by
  unfold create
  cases made : Machine.create config validator with
  | error f => exact Or.inl ⟨f, rfl⟩
  | ok m =>
    cases copied : m.context.copy with
    | error f =>
      refine Or.inl ⟨f, ?_⟩
      rw [run_bind, run_ofExcept_ok]
      dsimp only
      rw [copied]
      rfl
    | ok context => exact Or.inr ⟨m, rfl, (Value.copy_eq_ok_iff.mp copied).1⟩

/-- If a definition is made and its context can be copied, the service is put behind the others
before anything else is done. -/
theorem run_create_made {config : Value} {validator : Validator} {m : Machine}
    (made : Machine.create config validator = .ok m) (copied : m.context.copyable = true)
    (hooks : List Hook) (ownLoop : Bool) (w : World) :
    (create config validator hooks ownLoop).run w = (finishCreate w.services.length m.context).run
      { w with services := w.services ++ [.blank m hooks ownLoop] } := by
  unfold create
  rw [made, run_bind, run_ofExcept_ok]
  dsimp only
  rw [run_bind, Value.copy_eq_ok_iff.mpr ⟨copied, rfl⟩, run_ofExcept_ok]
  rfl

theorem tame_create (config : Value) (validator : Validator) (hooks : List Hook) (ownLoop : Bool) :
    (create config validator hooks ownLoop).Tame := by
  unfold create
  refine .learn .ofExcept fun machine _ => ?_
  refine .learn .ofExcept fun context copied => .bind .get fun v => ?_
  refine .bind (Q := fun _ => World.Inert v.services.length) (.modified fun w h => ?_) fun _ => ?_
  · obtain ⟨hw, rfl⟩ := h
    have step : Step .free v { v with services := v.services ++ [_] } :=
      .create (s := .blank machine hooks ownLoop)
      ⟨rfl, rfl, rfl, rfl, (Value.copy_eq_ok_iff.mp copied).1⟩
    exact ⟨.free step, step.sane hw, _, List.getElem?_concat_length, rfl⟩
  · refine .bind (Q := fun _ => World.Inert v.services.length) ?_ fun c => ?_
    · exact .bind (.mint fun _ _ hw hs => hw.supplied hs) fun _ => .pure fun _ => id
    · refine .bind (goes_prepare fun s => ⟨c, s.snapshot, rfl⟩) fun _ => ?_
      refine .bind ((goes_currentSnapshot false fun _ _ hw hs => hw.supplied hs).post fun _ _ h =>
        h.1) fun sn => ?_
      exact .bind (goes_prepare fun s => ⟨s.context, sn, rfl⟩) fun _ => .pure fun _ h => h.sane

theorem tame_listenerNamed (name : String) (callback : Option Value) :
    (listenerNamed name callback).Tame := by
  unfold listenerNamed
  refine .look fun v => ?_
  split
  · exact .pure fun _ => id
  · exact .bind (.aside .ofSane fun _ => ⟨rfl, rfl, rfl⟩) fun _ => .pure fun _ => id

theorem tame_subscribe (listener : Listener) : (subscribe i listener).Tame := by
  unfold subscribe
  refine .bind (.discard (Q := fun _ => World.Sane) (Goes.service.post fun _ _ h => h.1))
    fun _ => ?_
  refine .bind (Goes.get.post fun _ _ h => h.1) fun v => ?_
  refine .bind (.turned .ofSane fun _ _ _ _ => .listeners (· ++ [listener])) fun _ => ?_
  exact .bind (.aside .ofSane fun _ => ⟨rfl, rfl, rfl⟩) fun _ => .pure fun _ => id

theorem tame_unsubscribe (n : Nat) : (unsubscribe n).Tame := by
  unfold unsubscribe
  refine .look fun v => ?_
  split
  · rename_i listener _
    exact .turned .ofSane fun _ _ _ _ => .listeners (·.eraseP (·.same listener))
  · exact .fail _

end Run

namespace Engine

open Run

variable {g : Engine} {i : Nat}

/-! ### Sending, starting and stopping -/

theorem run_accept {w : World} (item : Item) : (g.accept i item).run w =
    (g.runQueue i).run
      ((w.change i fun s => { s with queue := s.queue.enqueue item }).noted
        (.accepted i item)) := by
  unfold accept
  rw [run_bind, run_update]
  dsimp only
  rw [run_bind, run_note]

/-- An item that is accepted is left to the drain in progress. -/
theorem run_accept_busy {w : World} {s : Service} {item : Item} (hs : w.services[i]? = some s)
    (busy : s.queue.draining = true) : (g.accept i item).run w =
      (.ok (), (w.change i fun s => { s with queue := s.queue.enqueue item }).noted
        (.accepted i item)) := by
  have enqueued := World.change_self (fun s => { s with queue := s.queue.enqueue item }) hs
  rw [run_accept]
  unfold runQueue
  rw [run_bind, run_service (by rw [World.noted_services]; exact enqueued)]
  dsimp only
  rw [Queue.draining_enqueue, if_pos busy]
  rfl

/-- An item that is accepted while nobody drains the queue begins a drain. -/
theorem run_accept_idle {w : World} {s : Service} {item : Item} (hs : w.services[i]? = some s)
    (idle : s.queue.draining = false) :
    (g.accept i item).run w = (drained i (g.processPending i g.bound)).run
      (w.prompted i item) := by
  have enqueued := World.change_self (fun s => { s with queue := s.queue.enqueue item }) hs
  rw [run_accept]
  unfold runQueue
  rw [run_bind, run_service (by rw [World.noted_services]; exact enqueued)]
  dsimp only
  rw [if_neg (by rw [Queue.draining_enqueue, idle]; exact nofun), run_draining]
  rfl

theorem goes_accept (hg : g.Tame) (item : Item) : (g.accept i item).Goes .outside
    (fun w => w.Sane ∧ ∃ s, w.services[i]? = some s ∧ s.status = .running) fun _ => World.Sane := by
  refine .tamed (fun _ h => h.1) fun w ⟨hw, s, hs, running⟩ => ?_
  cases draining : s.queue.draining with
  | true =>
    rw [run_accept_busy hs draining]
    exact .free (.wrote hs (.accept item running draining))
  | false =>
    have opening : Opening i s { s with queue := s.queue.enqueue item } (.accepted i item) :=
      .accept item running
    have begun := Step.prompted item hs running draining
    rw [run_accept_idle hs draining]
    refine walk_entered (goes_processPending hg g.bound) hs opening draining ?_
    refine ⟨begun.sane hw, _, World.prompted_self item hs, ⟨rfl, by rw [running]; exact nofun⟩,
      fun hr => ?_⟩
    exact ((hw i s hs).settled running draining).mono begun.points.subset ⟨rfl, rfl, .refl _, rfl⟩

theorem tame_send (hg : g.Tame) (event : Value) : (g.send i event).Tame := by
  unfold send
  refine .bind .service fun s => .ite (fun running => ?_) fun _ => .pure fun _ h => h.1
  refine .learn .ofExcept fun e _ => (goes_accept hg _).pre fun w h => ?_
  exact ⟨h.1, s, h.2, running⟩

theorem tame_deliver (hg : g.Tame) (waiter : Waiter) (a : AwaitableId) (settlement : Settlement) :
    (g.deliver waiter a settlement).Tame := by
  unfold deliver
  refine .bind .service fun s => .ite (fun running => ?_) fun _ => .pure fun _ h => h.1
  exact (goes_accept hg _).pre fun w h => ⟨h.1, s, h.2, running⟩

/-- The first drain of a service: it enters the initial state and publishes, whatever that
changed. -/
theorem goes_begin (hg : g.Tame) {m : Machine} {name : Value} : (do
      g.enter i .init
      g.publish i
      g.processPending i g.bound).Goes (.drain i) (World.At i m name True) fun _ =>
        World.Finished i := by
  refine .bind ((goes_enter hg).widen fun h => .ofRound (.ofItem h)) fun _ => ?_
  refine .bind (((goes_publish hg).pre fun _ h => h.drains).widen Path.ofRound) fun _ => ?_
  exact goes_processPending hg g.bound

theorem tame_start (hg : g.Tame) (override : Value) : (g.start i override).Tame := by
  unfold start
  refine .bind .service fun s => .ite (fun notStarted => ?_) fun _ => .pure fun _ h => h.1
  refine .learn .ofExcept fun base _ => ?_
  refine .learn .ofExcept fun merged _ => ?_
  refine .bind (Q := fun _ w => w.Sane ∧ ∃ s', w.services[i]? = some s' ∧ s'.status = .notStarted ∧
    s'.machine = s.machine) ?_ fun c => ?_
  · refine .bind (.mint fun w s' h hs' => ?_) fun _ => .pure fun _ => id
    cases h.2.symm.trans hs'
    exact ⟨Firm.ofSane.supplied h.1 hs', _, World.change_self _ hs', notStarted, rfl⟩
  · generalize "Starting machine " ++ s.machine.id.shown ++ " in state " ++
      s.machine.initial.shown = text
    refine .tamed (fun _ h => h.1) fun w ⟨hw, s', hs', hn, hm⟩ => ?_
    have opening :
        Opening i s' { s' with context := c, stateName := s'.machine.initial, status := .running }
        (.record .debug text) := .start c text hn
    have idle := (hw i s' hs').unopened hn
    have begun := Step.enter
      (f := fun s => { s with context := c, stateName := s.machine.initial, status := .running })
      hs' opening idle
    rw [run_bind, run_update, World.change_congr (g := fun s => { s with
      context := c, stateName := s.machine.initial, status := .running }) hs' (by rw [hm])]
    dsimp only
    unfold record
    rw [run_bind, run_note]
    dsimp only
    rw [run_draining]
    exact walk_entered (goes_begin hg) hs' opening idle
      ⟨begun.sane hw, _, World.entered_self hs', ⟨rfl, nofun⟩, rfl, rfl,
      fun _ => (hw i s' hs').vacant hn⟩

theorem run_stop {w : World} {s : Service} (hs : w.services[i]? = some s)
    (running : s.status = .running) :
    (g.stop i).run w = (g.cancelInvocation i >>= fun _ => finishStop i).run
      (w.change i fun s => { s with status := .stopped }) := by
  unfold stop
  rw [run_bind, run_service hs]
  dsimp only
  rw [if_pos running]
  rfl

/-- The service is stopped and its slot emptied, before anything else happens. -/
theorem run_stop_turned {w : World} {s : Service} (hs : w.services[i]? = some s)
    (running : s.status = .running) :
    (g.stop i).run w = (g.finishCancelling i s.slot >>= fun _ => finishStop i).run
      (w.stopped i s.slot) := by
  have changed := World.change_self (fun s => { s with status := .stopped }) hs
  rw [run_stop hs running, run_bind, run_cancelInvocation changed, run_bind]
  unfold World.stopped World.turned
  rw [World.change_change]
  rfl

/-- When a service is stopped and its slot emptied, the cancel callback is called; then its queue
is cleared, unless a failure that is not ordinary comes between. -/
theorem walk_stopped (hg : g.Tame) {w : World} {s : Service} (hw : w.Sane)
    (hs : w.services[i]? = some s) (running : s.status = .running) :
    Walk .outside w ((g.stop i).run w).2 := by
  have step : Step .stop w (w.stopped i s.slot) := .turn hs (.stop running)
  have self := World.stopped_self hs s.slot
  have cancelling := (tame_finishCancelling (i := i) hg s.slot).walk (step.sane hw)
  have stopping : Walk .outside w (w.stopped i s.slot) :=
    .step (l := .stop) (Or.inr nofun) nofun step
  rw [run_stop_turned hs running, run_bind]
  generalize (g.finishCancelling i s.slot).run (w.stopped i s.slot) = out at *
  obtain ⟨r, v⟩ := out
  cases r with
  | error halt => exact stopping.trans cancelling
  | ok u =>
    obtain ⟨s', hs', ended⟩ := cancelling.path.stopped self rfl
    have drop : Step .free v
        (v.change i fun s => { s with queue := s.queue.clear, listeners := [] }) :=
      .changed hs' (.drop ended)
    have reports : (do
        let s ← service i
        record .debug
          ("Stopped machine " ++ s.machine.id.shown ++ " in state " ++ s.stateName.shown) :
        Run Unit).Tame := .peek fun s => .record .ofSane
    have rest := reports.walk (drop.sane (cancelling.sane (step.sane hw)))
    exact stopping.trans (cancelling.trans ((Walk.free drop).trans rest))

theorem tame_stop (hg : g.Tame) : (g.stop i).Tame := by
  refine .tamed (fun _ => id) fun w hw => ?_
  cases hs : w.services[i]? with
  | none =>
    unfold stop
    rw [run_bind, run_service_none hs]
    exact .refl .outside w
  | some s =>
    by_cases running : s.status = .running
    · exact walk_stopped hg hw hs running
    · unfold stop
      rw [run_bind, run_service hs]
      dsimp only
      rw [if_neg running]
      exact .refl .outside w

end Engine

end FlatMachine
