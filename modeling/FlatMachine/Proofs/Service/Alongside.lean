import FlatMachine.Command
import FlatMachine.Proofs.Service.TwinService

/-! # What programs and hosts do in two worlds

Two worlds may have all in common but what concerns their services.  What does so neither,
**`Run.Aside`**, matches then.

* **`Engine.CallsWith`**: so does what is called on two engines.
* **`Engine.ServesWith`**: besides, so does whatever services are asked to do.
* **`Engine.OpensWith`**: services show the same as well.  If so, every program matches
  (**`Engine.OpensWith.exec`**), so all callbacks of a book do (**`Engine.calls_ofBook`**).
* **`Engine.HeedsWith`**: outcomes are delivered and services made alike, and then every command
  of a host is carried out alike (**`Engine.HeedsWith.obey`**).
* **`Bond.Open`**: the services are the same, and whatever is done in both worlds leaves them
  tied.  Then all of this is so.

The bond that ties no worlds is open.  What is left of matching then is that journals grow
(**`Engine.grows_obey`**). -/

namespace FlatMachine

/-- All that does not concern services as in the one world, and all that does as in the other. -/
def World.beside (u w : World) : World :=
  { u with
    services := w.services
    subscriptions := w.subscriptions
    journal := w.journal
    points := w.points
    settings := w.settings }

/-- A listener was registered. -/
def World.subscribed (w : World) (i : Nat) (listener : Listener) : World :=
  { w.change i fun s => { s with listeners := s.listeners ++ [listener] } with
    subscriptions := w.subscriptions ++ [(i, listener)] }

/-- The computation has nothing to do with what concerns services. -/
def Run.Aside {α : Type} (x : Run α) : Prop :=
  ∀ w v : World, x.run (w.beside v) = ((x.run w).1, (x.run w).2.beside v)

namespace Run

variable {α β : Type} {x : Run α}

namespace Aside

theorem modify {f : World → World} (h : ∀ w v, f (World.beside w v) = (f w).beside v) :
    Aside (modify f : Run PUnit) := by
  intro w v
  show (Except.ok PUnit.unit, f (w.beside v)) = _
  rw [h]
  rfl

/-- The world is looked at, and what follows looks at nothing that concerns services. -/
theorem look {f : World → Run α} (h : ∀ u w v : World, (f (u.beside v)).run (w.beside v) =
      (((f u).run w).1, ((f u).run w).2.beside v)) : Aside (MonadState.get >>= f) := by
  intro w v
  rw [run_bind, run_bind, run_get, run_get]
  exact h w w v

theorem still (h : x.Aside) (w : World) : (x.run w).2.journal = w.journal := by
  have still : (x.run w).2 = (x.run w).2.beside w := congrArg Prod.snd (h w w)
  rw [still]
  rfl

theorem grows (h : x.Aside) : x.Grows := by
  intro w
  have still : (x.run w).2 = (x.run w).2.beside w := congrArg Prod.snd (h w w)
  rw [still]
  exact .same rfl rfl rfl

theorem services (h : x.Aside) (w : World) : (x.run w).2.services = w.services := by
  have still : (x.run w).2 = (x.run w).2.beside w := congrArg Prod.snd (h w w)
  rw [still]
  rfl

end Aside

theorem aside_settleAwaitable (a : AwaitableId) (settlement : Settlement) :
    Aside (settleAwaitable a settlement) := by
  refine .look fun u w v => ?_
  dsimp only [World.beside]
  generalize u.awaitables.lookup a = found
  obtain _ | _ | ⟨_ | _, _⟩ := found <;> rfl

theorem aside_whenSettled (a : AwaitableId) (waiter : Waiter) : Aside (whenSettled a waiter) := by
  refine .look fun u w v => ?_
  dsimp only [World.beside]
  generalize u.awaitables.lookup a = found
  obtain _ | _ | ⟨_ | _, _⟩ := found <;> rfl

theorem aside_listenerNamed (name : String) (callback : Option Value) :
    Aside (listenerNamed name callback) := by
  refine .look fun u w v => ?_
  dsimp only [World.beside]
  generalize u.listeners.find? (·.name = name) = found
  cases found <;> rfl

theorem aside_tick : Aside tick := .look fun _ _ _ => rfl

theorem aside_takeReady : Aside takeReady := by
  refine .look fun u w v => ?_
  dsimp only [World.beside]
  generalize u.ready = ready
  cases ready <;> rfl

theorem aside_settleFuture (n : Nat) (settlement : Settlement) :
    Aside (settleFuture n settlement) := by
  refine .look fun u w v => ?_
  dsimp only [World.beside]
  generalize u.futures[n]? = found
  cases found with
  | none => rfl
  | some a => exact aside_settleAwaitable a settlement w v

/-- A service's awaitable is scheduled, given that it has a loop of its own or not. -/
theorem aside_scheduling (ownLoop : Bool) (a : AwaitableId) : Aside (do
    let w ← get
    if w.looping || ownLoop then
      match w.awaitables.lookup a with
      | some (.future ..) => return
      | some (.coroutine pauses body args) =>
        set { w.setAwaitable a (.future none []) with
          ready := w.ready ++ [Ready.step a pauses body args] }
      | none => fail (.missingIndex "list")
    else fail .noLoop) := by
  refine .look fun u w v => ?_
  dsimp only [World.beside]
  generalize u.awaitables.lookup a = found, (u.looping || ownLoop) = free
  cases free <;> obtain _ | _ | _ := found <;> rfl

end Run

/-- The worlds have all in common that does not concern services, and whatever that becomes
leaves them tied. -/
structure Bond.Sides (B : Bond) : Prop where
  beside : ∀ {w v}, B.ties w v → v = w.beside v
  moved : ∀ {w v} (u : World), B.ties w v → B.ties (u.beside w) (u.beside v)

namespace Bond.Sides

open Run

variable {B : Bond} {lax : Prop}

theorem modified (h : B.Sides) {f : World → World}
    (hf : ∀ w v, f (World.beside w v) = (f w).beside v) {w v : World} (tied : B.ties w v) :
    B.ties (f w) (f v) := by
  have hw : f w = (f w).beside w := hf w w
  have hv : f v = (f w).beside v := by
    rw [← hf, ← h.beside tied]
  rw [hw, hv]
  exact h.moved _ tied

/-- What has nothing to do with services matches. -/
theorem echoes (h : B.Sides) {α : Type} {x : Run α} (hx : x.Aside) : Echoes B lax x x := by
  have still (w : World) : (x.run w).2 = (x.run w).2.beside w := congrArg Prod.snd (hx w w)
  refine .ofGrows hx.grows fun w v tied => ?_
  have hv : x.run v = ((x.run w).1, (x.run w).2.beside v) := by
    rw [← hx, ← h.beside tied]
  rw [hv]
  have tied := h.moved (x.run w).2 tied
  rw [← still] at tied
  generalize x.run w = out at tied
  obtain ⟨halt | a, w'⟩ := out
  · exact .error tied
  · exact .ok tied

end Bond.Sides

namespace Engine

open Run

variable {g g' : Engine} {B : Bond} {lax : Prop}

/-- What is called leaves the worlds tied, on the one engine in the first world and on the other
in the second. -/
structure CallsWith (g g' : Engine) (B : Bond) (lax : Prop) : Prop where
  bound : g.bound = g'.bound
  called : ∀ owner role f args c, (∀ t, role ≠ .cancel t) → Echoes B lax
    (do note (.called owner role f args); g.call owner f args c)
    (do note (.called owner role f args); g'.call owner f args c)
  dismissed : ∀ i t callback, Twins B lax (fun w v => B.ties w v ∧ w.services[i]?.isSome = true)
    (g.dismiss i t callback) (g'.dismiss i t callback) fun _ => B.ties
  grows : ∀ owner f args c, Grows (g.call owner f args c)

/-- Calls leave the worlds tied if they do so in every role, that of a cancel callback included. -/
theorem CallsWith.ofCalled (bound : g.bound = g'.bound) (found : ∀ i, B.Finds i)
    (noted : ∀ {w v} (e : Entry), (∀ k sn, e ≠ .published k sn) → B.ties w v →
      B.ties (w.noted e) (v.noted e))
    (called : ∀ owner role f args c,
      Echoes B lax (do note (.called owner role f args); g.call owner f args c)
      (do note (.called owner role f args); g'.call owner f args c))
    (grows : ∀ owner f args c, Grows (g.call owner f args c)) : g.CallsWith g' B lax where
  bound := bound
  called := fun owner role f args c _ => called owner role f args c
  dismissed := fun i => dismiss_echoes (φ := fun _ _ => True) (found i)
    (fun of other => noted _ (Entry.unpublished of other))
    fun role f args c _ => (called _ role f args c).matches.post fun _ _ _ tied => ⟨tied, trivial⟩
  grows := grows

/-- Calls leave the worlds tied if they do so apart from the entry that is written of them. -/
theorem CallsWith.ofCalls (bound : g.bound = g'.bound) (found : ∀ i, B.Finds i)
    (noted : ∀ {w v} (e : Entry), (∀ k sn, e ≠ .published k sn) → B.ties w v →
      B.ties (w.noted e) (v.noted e))
    (calls : ∀ owner f args c, Echoes B lax (g.call owner f args c) (g'.call owner f args c)) :
    g.CallsWith g' B lax :=
  .ofCalled bound found noted
    (fun _ _ _ _ _ => .bind (Twins.note fun _ _ => noted _ nofun) fun _ => calls _ _ _ _)
    fun owner f args c => (calls owner f args c).grows

theorem CallsWith.invoke (h : g.CallsWith g' B lax) (owner : Owner) (role : Role)
    (hr : ∀ t, role ≠ .cancel t) (f : Value) (args : List Object) :
    Echoes B lax (g.invoke owner role f args) (g'.invoke owner role f args) := by
  rw [invoke_eq, invoke_eq]
  exact .bind (h.called owner role f args none hr) fun _ => .pure

/-- All that does not concern services is the same, and so is whatever services and callbacks are
asked to do. -/
structure ServesWith (g g' : Engine) (B : Bond) (lax : Prop) :
    Prop extends B.Sides, g.CallsWith g' B lax where
  noted : ∀ {w v} (e : Entry), (∀ k sn, e ≠ .published k sn) → B.ties w v →
    B.ties (w.noted e) (v.noted e)
  announced : ∀ {w v} i sn, B.ties w v → B.ties (w.announcing i sn) (v.announcing i sn)
  found : ∀ i, B.Finds i
  changed : ∀ {w v i f}, Service.Stroke f → B.ties w v → B.ties (w.change i f) (v.change i f)
  start : ∀ i override, Echoes B lax (g.start i override) (g'.start i override)
  stop : ∀ i, Echoes B lax (g.stop i) (g'.stop i)
  send : ∀ i event, Echoes B lax (g.send i event) (g'.send i event)
  subscribe : ∀ i listener, Echoes B lax (subscribe i listener) (subscribe i listener)
  unsubscribe : ∀ n, Echoes B lax (unsubscribe n) (unsubscribe n)

/-- All that does not concern services is the same, whatever services and callbacks are asked to do
is too, and so are the snapshots that services show. -/
structure OpensWith (g g' : Engine) (B : Bond) (lax : Prop) :
    Prop extends g.ServesWith g' B lax where
  shown : ∀ i, B.Shows i

/-- Whatever services and callbacks are asked for matches. -/
abbrev Opens (g : Engine) (B : Bond) : Prop := g.OpensWith g B False

/-- Engines whose calls leave worlds tied attend to a service, if all that does not concern services
is the same in the worlds. -/
theorem attends_ofSides (sides : B.Sides)
    (noted : ∀ {w v} (e : Entry), (∀ k sn, e ≠ .published k sn) → B.ties w v →
      B.ties (w.noted e) (v.noted e))
    (announced : ∀ {w v} i sn, B.ties w v → B.ties (w.announcing i sn) (v.announcing i sn))
    (found : ∀ i, B.Finds i) (calls : g.CallsWith g' B lax) (i : Nat) :
    g.AttendsWith g' B lax i fun _ => True where
  noted := fun of other => noted _ (Entry.unpublished of other)
  announced := announced i
  called := fun role f args c hr =>
    (calls.called (.service i) role f args c (Role.ne_cancel hr)).matches.post fun _ _ _ tied =>
      ⟨tied, fun _ _ _ _ _ => trivial⟩
  dismissed := calls.dismissed i
  sourced := fun t => sides.modified
    (f := fun w => { w with sourceCalls := w.sourceCalls ++ [(i, t)] }) fun _ _ => rfl
  schedule := fun a => by
    have scheduled : Echoes B lax (schedule i a) (schedule i a) :=
      (found i).peek (fun _ _ => rfl) fun s => sides.echoes (aside_scheduling s.ownLoop a)
    exact scheduled.matches.pre fun _ _ hw => hw.1
  whenSettled :=
    fun a t e => (sides.echoes (aside_whenSettled a ⟨i, t, e⟩)).matches.pre fun _ _ hw => hw.1.1
  grows := calls.grows

namespace ServesWith

theorem reflects (h : g.ServesWith g' B lax) (i : Nat) :
    g.ReflectsWith g' B lax i fun _ => True where
  toAttendsWith := attends_ofSides h.toSides h.noted h.announced h.found h.toCallsWith i
  found := h.found i
  changed := h.changed

theorem note (h : g.ServesWith g' B lax) (e : Entry) (other : ∀ k sn, e ≠ .published k sn) :
    Echoes B lax (note e) (note e) :=
  Twins.note fun _ _ => h.noted e other

theorem modify (h : g.ServesWith g' B lax) {f : World → World}
    (hf : ∀ w v, f (World.beside w v) = (f w).beside v) :
    Echoes B lax (modify f : Run PUnit) (modify f : Run PUnit) := h.echoes (.modify hf)

theorem mint (h : g.ServesWith g' B lax) (owner : Owner) :
    Echoes B lax (mint owner) (mint owner) := by
  cases owner with
  | service i => exact (h.reflects i).mint
  | bench => exact h.echoes (.look fun _ _ _ => rfl)

theorem adopt (h : g.ServesWith g' B lax) (owner : Owner) (o : Object) :
    Echoes B lax (adopt owner o) (adopt owner o) :=
  .bind (h.mint owner) fun _ => .pure

theorem addAwaitable (h : g.ServesWith g' B lax) (owner : Owner) (x : Awaitable) :
    Echoes B lax (addAwaitable owner x) (addAwaitable owner x) :=
  .bind (h.mint owner) fun _ => .bind (h.modify fun _ _ => rfl) fun _ => .pure

/-- Effects are performed alike, if what services show is the same or not asked for. -/
theorem answer (h : g.ServesWith g' B lax) (owner : Owner) (r : Effect)
    (shown : ∀ i, r = .state i → B.Shows i) :
    Echoes B lax (g.answer owner r) (g'.answer owner r) := by
  cases r with
  | log label values => exact h.note _ nofun
  | call f args => exact h.invoke owner .nested nofun f args
  | send sender event =>
    cases sender with
    | service i => exact h.send i event
    | bench => exact h.modify fun _ _ => rfl
  | start i => exact h.start i .null
  | stop i => exact h.stop i
  | subscribe i name =>
    exact .bind (h.echoes (aside_listenerNamed name none)) fun listener =>
      .discard (h.subscribe i listener)
  | unsubscribe n => exact h.unsubscribe n
  | isActive i t => exact (h.reflects i).peek (fun _ _ => rfl) fun _ => .pure
  | cancelInvocation i t => exact (h.reflects i).revoke t
  | liveState i => exact .bind ((h.reflects i).currentSnapshot false) fun _ => .pure
  | state i => exact (shown i rfl).read Snapshot.toValue
  | status i => exact (h.reflects i).peek (fun _ _ => rfl) fun _ => .pure
  | future =>
    exact .bind (h.addAwaitable owner _) fun _ => .bind (h.modify fun _ _ => rfl) fun _ => .pure
  | settle a settlement => exact .discard (h.echoes (aside_settleAwaitable a settlement))
  | sharedFuture n =>
    refine h.echoes (.look fun u w v => ?_)
    dsimp only [World.beside]
    generalize u.futures[n]? = found
    cases found <;> rfl
  | coroutine pauses body args => exact h.addAwaitable owner _
  | now => exact h.echoes aside_tick
  | origin => exact .bind (h.mint owner) fun _ => .pure

end ServesWith

namespace OpensWith

/-- Effects are performed alike, whatever they are. -/
theorem answer (h : g.OpensWith g' B lax) (owner : Owner) (r : Effect) :
    Echoes B lax (g.answer owner r) (g'.answer owner r) :=
  h.toServesWith.answer owner r fun i _ => h.shown i

/-- A program runs alike. -/
theorem exec (h : g.OpensWith g' B lax) (owner : Owner) {α : Type} (p : Prog α)
    (c : Option Context) :
    Echoes B lax (g.exec owner p c) (g'.exec owner p c) := by
  induction p generalizing c with
  | done a => exact .pure
  | fail f => exact .fail
  | pending next ih =>
    cases c with
    | none => exact .fail
    | some c => exact ih c (some c)
  | write o next ih =>
    cases c with
    | none => exact .fail
    | some c => exact .bind (h.adopt owner o) fun c => ih (some c)
  | ask r next ih => exact .bind (h.answer owner r) fun reply => ih reply c
  | handle r next ih => exact .bind (h.answer owner r).attempt fun reply => ih reply c

end OpensWith

/-- By induction on the fuel, for several bonds at a time: if programs match given that callbacks
do, then callbacks match. -/
theorem calls_ofBook {ι : Type} {B : ι → Bond} {book : Book}
    (h : ∀ n, (∀ k owner f args c, Mirrors (B k) ((ofBook book n).call owner f args c)) →
      ∀ k, (ofBook book n).Opens (B k))
    (fuel : Nat) (k : ι) (owner : Owner) (f : Value) (args : List Object) (c : Option Context) :
    Mirrors (B k) ((ofBook book fuel).call owner f args c) := by
  induction fuel generalizing k owner f args c with
  | zero => exact .throw
  | succ fuel ih => exact (h fuel ih k).exec owner (book f args) c

end Engine

theorem Run.run_subscribe_found {i : Nat} {w : World} {s : Service} (hs : w.services[i]? = some s)
    (listener : Listener) :
    (subscribe i listener).run w = (.ok w.subscriptions.length, w.subscribed i listener) := by
  unfold subscribe
  rw [run_bind, run_discard, run_service hs]
  rfl

/-- The world does not change for somebody who registers with a service that is not there. -/
theorem Run.run_subscribe_none {i : Nat} {w : World} (hs : w.services[i]? = none)
    (listener : Listener) :
    (subscribe i listener).run w = (.error (.raised (.missingIndex "list")), w) := by
  unfold subscribe
  rw [run_bind, run_discard, run_service_none hs]

theorem Run.grows_subscribe (i : Nat) (listener : Listener) : Grows (subscribe i listener) := by
  intro w
  cases hs : w.services[i]? with
  | none => rw [run_subscribe_none hs]; exact .refl w
  | some s => rw [run_subscribe_found hs]; exact .same rfl rfl rfl

theorem Run.grows_unsubscribe (n : Nat) : Grows (unsubscribe n) := by
  intro w
  unfold unsubscribe
  rw [run_bind, run_get]
  dsimp only
  cases w.subscriptions[n]? <;> exact .same rfl rfl rfl

namespace Bond

open Run

variable {B : Bond} {lax : Prop}

/-- A service that is found takes listeners, if that leaves the worlds tied. -/
theorem Finds.subscribe {i : Nat} (h : B.Finds i)
    (heard : ∀ {w v}, B.ties w v → w.subscriptions = v.subscriptions)
    (subscribed : ∀ {w v} listener, B.ties w v →
      B.ties (w.subscribed i listener) (v.subscribed i listener)) (listener : Listener) :
    Echoes B lax (subscribe i listener) (subscribe i listener) := by
  refine .ofGrows (grows_subscribe i listener) fun w v tied => ?_
  obtain ⟨hw, hv⟩ | ⟨s, veil, hw, hv⟩ := h w v tied
  · rw [run_subscribe_none hw, run_subscribe_none hv]
    exact .error tied
  · rw [run_subscribe_found hw, run_subscribe_found hv, heard tied]
    exact .ok (subscribed listener tied)

/-- Listeners are removed, if that leaves the worlds tied. -/
theorem unsubscribe (heard : ∀ {w v}, B.ties w v → w.subscriptions = v.subscriptions)
    (removed : ∀ {w v} i listener, B.ties w v →
      B.ties (w.change i fun s => { s with listeners := s.listeners.eraseP (·.same listener) })
          (v.change i fun s => { s with listeners := s.listeners.eraseP (·.same listener) }))
    (n : Nat) :
    Echoes B lax (Run.unsubscribe n) (Run.unsubscribe n) := by
  refine .look (fun w v tied => by rw [heard tied]) fun u => ?_
  split
  · exact Twins.update fun _ _ => removed _ _
  · exact .fail

end Bond

/-! ### The event loop and the host -/

namespace Engine

open Run

variable {g g' : Engine} {B : Bond} {lax : Prop}

/-- Besides, services take what the event loop has for them, and further ones may be made. -/
structure HeedsWith (g g' : Engine) (B : Bond) (lax : Prop) :
    Prop extends g.ServesWith g' B lax where
  deliver : ∀ waiter a settlement,
    Echoes B lax (g.deliver waiter a settlement) (g'.deliver waiter a settlement)
  counted : ∀ {w v}, B.ties w v → w.services.length = v.services.length
  created : ∀ {w v} (s : Service), s.listeners = [] → B.ties w v →
    B.ties { w with services := w.services ++ [s] } { v with services := v.services ++ [s] }

namespace HeedsWith

theorem create (h : g.HeedsWith g' B lax) (config : Value) (validator : Validator)
    (hooks : List Hook) (ownLoop : Bool) : Echoes B lax (create config validator hooks ownLoop)
      (create config validator hooks ownLoop) := by
  refine .bind .ofExcept fun machine => .bind .ofExcept fun context =>
    .look (fun w v tied => by rw [h.counted tied]) fun u => ?_
  have own := h.reflects u.services.length
  refine .bind (Twins.modify (fun _ => .same rfl rfl rfl) fun _ _ => h.created _ rfl) fun _ =>
    .bind (own.adopt _) fun c => ?_
  refine .bind (own.update (.context c)) fun _ => .bind (own.currentSnapshot false) fun sn => ?_
  exact .bind (own.update (.snapshot sn)) fun _ => .pure

theorem turn (h : g.HeedsWith g' B lax) (r : Ready) : Echoes B lax (g.turn r) (g'.turn r) := by
  cases r with
  | step a pauses body args =>
    cases pauses with
    | succ pauses => exact h.echoes (.modify fun _ _ => rfl)
    | zero =>
      refine .bind (.tryCatch (.bind (h.invoke _ .body nofun _ _) fun _ => .pure) (fun _ _ => rfl)
        fun halt => ?_)
        fun settlement => .discard (h.echoes (aside_settleAwaitable a settlement))
      cases halt with
      | raised f => exact .pure
      | exhausted => exact .throw
  | complete waiter a =>
    refine .look (fun w v tied => by rw [h.beside tied]; rfl) fun u => ?_
    split
    · refine .tryCatch (h.deliver _ a _) (fun _ _ => rfl) fun halt => ?_
      cases halt with
      | raised f => exact h.note _ nofun
      | exhausted => exact .throw
    · exact .pure

theorem takeTurn (h : g.HeedsWith g' B lax) : Echoes B lax g.takeTurn g'.takeTurn := by
  refine .bind (h.echoes aside_takeReady) fun r => ?_
  cases r with
  | none => exact .pure
  | some r => exact .bind (h.turn r) fun _ => .pure

theorem onLoop (h : g.HeedsWith g' B lax) {α : Type} {body body' : Run α}
    (hb : Echoes B lax body body') :
    Echoes B lax (onLoop body) (onLoop body') := by
  refine .look (fun w v tied => by rw [h.beside tied]; rfl) fun u =>
    .bind (h.echoes (.modify fun _ _ => rfl)) fun _ => ?_
  exact .bind hb fun _ => .bind (h.echoes (.modify fun _ _ => rfl)) fun _ => .pure

theorem runLoop (h : g.HeedsWith g' B lax) (fuel : Nat) :
    Echoes B lax (g.runLoop fuel) (g'.runLoop fuel) := by
  induction fuel with
  | zero => exact .throw
  | succ fuel ih => exact .bind h.takeTurn fun more => .ite (fun _ => ih) fun _ => .pure

/-- Commands are carried out alike. -/
theorem obey (h : g.HeedsWith g' B lax) (c : Command) : Echoes B lax (g.obey c) (g'.obey c) := by
  cases c with
  | create config validator hooks ownLoop => exact h.create config validator hooks ownLoop
  | start i override => exact h.start i override
  | stop i => exact h.stop i
  | send i event => exact h.send i event
  | subscribe i name callback =>
    exact .bind (h.echoes (aside_listenerNamed name callback)) fun listener =>
      h.subscribe i listener
  | unsubscribe n => exact h.unsubscribe n
  | cancelInvocation i t => exact (h.reflects i).revoke t
  | settle n settlement => exact h.echoes (aside_settleFuture n settlement)
  | turn => exact h.onLoop h.takeTurn
  | flush => exact h.onLoop (h.bound ▸ h.runLoop g.bound)

end HeedsWith
end Engine

/-! ### The same services -/

/-- The worlds have all in common but their histories, and whatever is done in both leaves them
tied. -/
structure Bond.Open (B : Bond) : Prop extends B.Sides where
  same : ∀ {w v}, B.ties w v → w.services = v.services
  heard : ∀ {w v}, B.ties w v → w.subscriptions = v.subscriptions
  noted : ∀ {w v} (e : Entry), B.ties w v → B.ties (w.noted e) (v.noted e)
  changed : ∀ {w v i f}, Service.Modest f → B.ties w v → B.ties (w.change i f) (v.change i f)
  subscribed : ∀ {w v} (i : Nat) (listener : Listener), B.ties w v →
    B.ties (w.subscribed i listener) (v.subscribed i listener)
  created : ∀ {w v} (s : Service), s.listeners = [] → B.ties w v →
    B.ties { w with services := w.services ++ [s] } { v with services := v.services ++ [s] }

namespace Bond.Open

open Run

variable {g g' : Engine} {B : Bond} {lax : Prop}

theorem found (h : B.Open) (i : Nat) : B.Finds i :=
  Bond.finds_of_same fun _ _ tied => congrArg (·[i]?) (h.same tied)

theorem calling (h : B.Open) (calls : ∀ owner f args c, Mirrors B (g.call owner f args c)) :
    g.CallsWith g B False :=
  .ofCalls rfl h.found (fun e _ => h.noted e) calls

theorem announced (h : B.Open) {w v : World} (i : Nat) (sn : Snapshot) (tied : B.ties w v) :
    B.ties (w.announcing i sn) (v.announcing i sn) :=
  h.noted _ (h.changed (Service.Stroke.snapshot sn).modest tied)

theorem wholly (h : B.Open) (calls : g.CallsWith g' B lax) (i : Nat) :
    g.WhollyWith g' B lax i fun _ => True where
  toAttendsWith :=
    Engine.attends_ofSides h.toSides (fun e _ => h.noted e) h.announced h.found calls i
  bound := calls.bound
  same := fun _ _ tied => congrArg (·[i]?) (h.same tied)
  changed := h.changed

theorem opens (h : B.Open) (calls : g.CallsWith g' B lax) : g.OpensWith g' B lax where
  toSides := h.toSides
  toCallsWith := calls
  noted := fun e _ => h.noted e
  announced := h.announced
  found := h.found
  changed := fun hf => h.changed hf.modest
  start := fun i => (h.wholly calls i).start
  stop := fun i => (h.wholly calls i).stop
  send := fun i => (h.wholly calls i).send
  subscribe := fun i listener => (h.found i).subscribe h.heard (h.subscribed i) listener
  unsubscribe := Bond.unsubscribe h.heard fun _ _ => h.changed fun _ => ⟨rfl, List.eraseP_sublist⟩
  shown := fun i => Bond.shows_of_same fun _ _ tied => congrArg (·[i]?) (h.same tied)

theorem call (h : B.Open) (book : Book) (fuel : Nat) (owner : Owner) (f : Value)
    (args : List Object) (c : Option Context) :
    Mirrors B ((Engine.ofBook book fuel).call owner f args c) :=
  Engine.calls_ofBook (fun _ calls _ => h.opens (h.calling (calls ()))) fuel () owner f args c

theorem calls (h : B.Open) (book : Book) (fuel : Nat) :
    (Engine.ofBook book fuel).CallsWith (.ofBook book fuel) B False :=
  h.calling (h.call book fuel)

theorem heeds (h : B.Open) (calls : g.CallsWith g' B lax) : g.HeedsWith g' B lax where
  toServesWith := (h.opens calls).toServesWith
  deliver := fun waiter => (h.wholly calls waiter.service).deliver waiter.token waiter.event
  counted := fun tied => congrArg List.length (h.same tied)
  created := h.created

/-- Commands are carried out alike. -/
theorem obey (h : B.Open) (calls : g.CallsWith g' B lax) (c : Command) :
    Echoes B lax (g.obey c) (g'.obey c) :=
  (h.heeds calls).obey c

end Bond.Open

/-! ### Journals grow -/

/-- The bond that ties no worlds, so that what is said of the first world alone remains. -/
def Bond.void : Bond := ⟨fun _ _ => False, fun _ => False, id⟩

theorem Bond.void_open : Bond.void.Open where
  beside := False.elim
  moved := fun _ => False.elim
  same := False.elim
  heard := False.elim
  noted := fun _ => False.elim
  changed := fun _ => False.elim
  subscribed := fun _ _ => False.elim
  created := fun _ _ => False.elim

namespace Engine

theorem grows_call (book : Book) (fuel : Nat) (owner : Owner) (f : Value) (args : List Object)
    (c : Option Context) :
    Run.Grows ((ofBook book fuel).call owner f args c) :=
  (Bond.void_open.calls book fuel).grows owner f args c

theorem grows_exec (book : Book) (fuel : Nat) (owner : Owner) {α : Type} (p : Prog α)
    (c : Option Context) :
    Run.Grows ((ofBook book fuel).exec owner p c) :=
  ((Bond.void_open.opens (Bond.void_open.calls book fuel)).exec owner p c).grows

/-- Whatever a service does, journals grow. -/
theorem wholly_void (book : Book) (fuel i : Nat) :
    (ofBook book fuel).Wholly Bond.void i fun _ => True :=
  Bond.void_open.wholly (Bond.void_open.calls book fuel) i

theorem grows_obey (book : Book) (fuel : Nat) (c : Command) :
    Run.Grows ((ofBook book fuel).obey c) :=
  (Bond.void_open.obey (Bond.void_open.calls book fuel) c).grows

end Engine

/-- What was written stays written in the course of a history. -/
theorem World.grows_after (book : Book) (fuel : Nat) (history : List Command) (w : World) :
    w.Precedes (w.after (.ofBook book fuel) history) := by
  induction history generalizing w with
  | nil => exact .refl w
  | cons c rest ih => exact (Engine.grows_obey book fuel c w).trans (ih _)

end FlatMachine
