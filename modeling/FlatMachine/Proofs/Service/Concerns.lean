import FlatMachine.Command
import FlatMachine.Proofs.Service.OtherServices

/-! # What concerns one service

Whatever callbacks, hosts and the event loop do, only a few things concern a given service: that
it is called from outside, or changed as anybody may change it.

* **`Engine.Heeds`**: the assertion outlasts what concerns the service while callbacks run, and
  whatever is not about it.  If so, it outlasts every program (**`Engine.Heeds.exec`**), so all
  callbacks of a book (**`Engine.sustains_ofBook`**).
* **`Engine.Regards`**: it outlasts as well the outcomes that come in.  If so, it outlasts all
  histories (**`World.respects_after`**).
* **`Engine.Sparing`**: callbacks spare the services that are drained.  This is so for every book
  (**`Engine.sparing_ofBook`**).
* **`World.Steady`**: the assertion is about a service that is drained, and outlasts what spares
  it.  **`World.Stays`** is such an assertion about the service and all points passed. -/

namespace FlatMachine

/-- What anybody may do to a service, but for calling it.  Its queue is cleared only if it ever
ran. -/
inductive Service.Outer (ever : Prop) (s : Service) : Service → Prop where
  | free {s' : Service} (free : s.Public s') : Outer ever s s'
  | listeners (listeners : List Listener) : Outer ever s { s with listeners }
  | stop (running : s.status = .running) : Outer ever s { s with status := .stopped }
  | drop (ran : ever) : Outer ever s { s with queue := s.queue.clear, listeners := [] }
  | prepare (context : Context) (snapshot : Snapshot) (notStarted : s.status = .notStarted) :
      Outer ever s { s with context, snapshot }

theorem Service.Outer.imp {ever ever' : Prop} {s s' : Service} (h : s.Outer ever s')
    (ran : ever → ever') :
    s.Outer ever' s' := by
  cases h with
  | free free => exact .free free
  | listeners listeners => exact .listeners listeners
  | stop running => exact .stop running
  | drop ever => exact .drop (ran ever)
  | prepare context snapshot notStarted => exact .prepare context snapshot notStarted

/-- The service is running in some world of which the assertion holds. -/
def World.Ran (i : Nat) (K : World → Prop) : Prop :=
  ∃ w s, K w ∧ w.services[i]? = some s ∧ s.status = .running

namespace Engine

open Run

/-- The assertion outlasts what concerns the service while callbacks run: it may be sent events,
and be started with the overrides that are permitted. -/
structure Heeds (g : Engine) (i : Nat) (permitted : Value → Prop) (K : World → Prop) :
    Prop extends g.Bystands i K where
  own : ∀ {w : World} {s : Service} {f : Service → Service}, w.services[i]? = some s →
    s.Outer (World.Ran i K) (f s) → K w → K (w.change i f)
  sent : ∀ {w : World} {s : Service} (e : Event), w.services[i]? = some s →
    s.status = .running → K w →
    K ((g.accept i (.event e)).run w).2
  start : ∀ {w : World} {s : Service} {override : Value}, permitted override →
    w.services[i]? = some s →
    s.status = .notStarted → K w → K ((g.start i override).run w).2

/-- The assertion outlasts what concerns the service, and whatever is not about it. -/
structure Regards (g : Engine) (i : Nat) (permitted : Value → Prop) (K : World → Prop) : Prop
    extends g.Heeds i permitted K where
  arrived : ∀ {w : World} (j : Nat) (o : Outcome), K w → K (w.noted (.accepted j (.outcome o)))
  settled : ∀ {w : World} {s : Service} (o : Outcome), w.services[i]? = some s →
    s.status = .running → K w →
    K ((g.accept i (.outcome o)).run w).2

/-- What outlasts a turn of the event loop outlasts any number of turns. -/
theorem respects_runLoop {g : Engine} {K : World → Prop} (turns : Respects K g.takeTurn)
    (fuel : Nat) : Respects K (g.runLoop fuel) := by
  induction fuel with
  | zero => exact .throw
  | succ fuel ih => exact .bind turns fun more => .ite (fun _ => ih) fun _ => .pure

/-- What is about no service outlasts what concerns any of them, if other services are bystanders
for each. -/
theorem Bystands.heeds {g : Engine} {K : World → Prop} (h : ∀ i, g.Bystands i K)
    (hc : g.Sustains K) (i : Nat) :
    g.Heeds i (fun _ => True) K := by
  have other (i : Nat) : i ≠ i + 1 := Nat.ne_of_lt (Nat.lt_succ_self i)
  refine ⟨h i, fun {_ _ f} _ _ hw => (h (i + 1)).others f (other i) hw, fun e _ _ hw => ?_,
    fun _ _ _ hw => ?_⟩
  · exact ((h (i + 1)).accept hc (other i) ((h (i + 1)).note nofun rfl)).run hw
  · exact ((h (i + 1)).start hc (other i) _).run hw

namespace Heeds

variable {g : Engine} {i j : Nat} {permitted : Value → Prop} {K : World → Prop}

theorem free (h : g.Heeds i permitted K) (hc : g.Sustains K) : g.Public j K where
  aside := h.aside
  noted := by
    intro w e he
    refine h.noted ?_ (by cases he <;> rfl)
    cases he with
    | cancel | error => exact Entry.deed?_of_other rfl
    | _ => exact nofun
  changed := by
    intro w f hf hw
    by_cases hij : j = i
    · subst hij
      cases hs : w.services[j]? with
      | none => rwa [World.change_none f hs]
      | some s => exact h.own hs (.free (hf s)) hw
    · exact h.others f hij hw
  calls := hc

/-! ### Calling services -/

/-- What the service is called for on its own account, if it is called in its present state. -/
theorem owned {x : Run Unit} {s : Service}
    (own : ∀ {w}, w.services[j]? = some s → K w → K (x.run w).2) :
    Meets (fun w => K w ∧ w.services[j]? = some s) x (fun _ => K) K := by
  rintro w ⟨hw, hs⟩
  have done := own hs hw
  generalize x.run w = out at done
  obtain ⟨halt | u, w'⟩ := out <;> exact done

theorem acceptOf (h : g.Heeds i permitted K) (hc : g.Sustains K) {s : Service} (e : Event)
    (running : s.status = .running) :
    Meets (fun w => K w ∧ w.services[j]? = some s) (g.accept j (.event e)) (fun _ => K) K := by
  by_cases hij : j = i
  · subst hij
    exact owned fun hs hw => h.sent e hs running hw
  · exact (h.accept hc hij (h.note nofun rfl)).meets.pre fun _ hw => hw.1

theorem send (h : g.Heeds i permitted K) (hc : g.Sustains K) (event : Value) :
    Respects K (g.send j event) := by
  refine .read fun s => .ite (fun running => ?_) fun _ => .pure fun _ hw => hw.1
  refine .bind (Q := fun _ w => K w ∧ w.services[j]? = some s)
    (.ofExcept (fun _ _ _ => id) fun _ hw => hw.1) fun e => ?_
  exact h.acceptOf hc e running

theorem startOf (h : g.Heeds i permitted K) (hc : g.Sustains K) {override : Value}
    (allowed : j = i → permitted override) : Respects K (g.start j override) := by
  by_cases hij : j = i
  · subst hij
    refine .ofRun fun w hw => ?_
    cases hs : w.services[j]? with
    | none =>
      unfold Engine.start
      rw [run_bind, run_service_none hs]
      exact hw
    | some s =>
      by_cases notStarted : s.status = .notStarted
      · exact h.start (allowed rfl) hs notStarted hw
      · unfold Engine.start
        rw [run_bind, run_service hs]
        dsimp only
        rw [if_neg notStarted]
        exact hw
  · exact Bystands.start h.toBystands hc hij override

/-- What a change by anybody needs to know of the service is read just before it. -/
theorem outer (h : g.Heeds i permitted K) {s : Service} {f : Service → Service}
    (hf : j = i → s.Outer (World.Ran i K) (f s)) :
    Meets (fun w => K w ∧ w.services[j]? = some s) (update j f) (fun _ => K) K := by
  rintro w ⟨hw, hs⟩
  by_cases hij : j = i
  · subst hij
    exact h.own hs (hf rfl) hw
  · exact h.others f hij hw

/-- What is left to do once the service is stopped. -/
theorem stopping (h : g.Heeds i permitted K) (hc : g.Sustains K)
    (dropped : j = i → ∀ {w : World} {s : Service}, w.services[j]? = some s → K w →
      K (w.change j fun s => { s with queue := s.queue.clear, listeners := [] })) :
    Respects K (g.cancelInvocation j >>= fun _ => finishStop j) := by
  refine .bind (h.free hc).cancelInvocation fun _ => ?_
  refine .bind (fun w hw => ?_) fun _ => .peek fun s => h.note nofun rfl
  cases hs : w.services[j]? with
  | none => rwa [run_update, World.change_none _ hs]
  | some s =>
    by_cases hij : j = i
    · exact dropped hij hs hw
    · exact h.others _ hij hw

theorem stop (h : g.Heeds i permitted K) (hc : g.Sustains K) : Respects K (g.stop j) := by
  refine .read fun s => .ite (fun running => ?_) fun _ => .pure fun _ hw => hw.1
  refine .given (φ := World.Ran j K) (fun w hw => ⟨w, s, hw.1, hw.2, running⟩) fun ran => ?_
  refine .bind (h.outer fun _ => .stop running) fun _ => h.stopping hc fun hij => ?_
  subst hij
  exact fun hs hw => h.own hs (.drop ran) hw

theorem revoke (h : g.Heeds i permitted K) (hc : g.Sustains K) (t : Token) :
    Respects K (g.revoke j t) := by
  refine .bind (h.note nofun rfl) fun _ => .peek fun s => ?_
  exact .ite (fun _ => (h.free hc).cancelInvocation) fun _ => .pure

theorem ofListeners (h : g.Heeds i permitted K) (f : List Listener → List Listener) :
    Respects K (update j fun s => { s with listeners := f s.listeners }) := by
  intro w hw
  cases hs : w.services[j]? with
  | none => rwa [run_update, World.change_none _ hs]
  | some s => exact h.outer (s := s) (fun _ => .listeners (f s.listeners)) w ⟨hw, hs⟩

theorem subscribe (h : g.Heeds i permitted K) (listener : Listener) :
    Respects K (subscribe j listener) := by
  refine .bind (.discard .service) fun _ => .look fun v =>
    .bind (h.ofListeners (· ++ [listener])) fun _ => ?_
  exact .bind (fun _ => h.aside (.plain rfl rfl rfl (Nat.le_refl _) rfl rfl List.prefix_rfl))
    fun _ => .pure

theorem unsubscribe (h : g.Heeds i permitted K) (n : Nat) : Respects K (unsubscribe n) := by
  refine .look fun v => ?_
  split
  · rename_i listener _
    exact h.ofListeners (·.eraseP (·.same listener))
  · exact .fail

theorem listenerNamed (h : g.Heeds i permitted K) (name : String) (callback : Option Value) :
    Respects K (listenerNamed name callback) := by
  refine .look fun v => ?_
  split
  · exact .pure
  · exact .bind (fun _ => h.aside (.plain rfl rfl rfl (Nat.le_refl _) rfl rfl List.prefix_rfl))
      fun _ => .pure

/-! ### Making services -/

theorem mint (h : g.Heeds i permitted K) (hc : g.Sustains K) (owner : Owner) :
    Respects K (mint owner) := by
  cases owner with
  | service j => exact (h.free hc).mint
  | bench =>
    exact .look fun v => .bind
      (fun _ => h.aside (.plain rfl rfl rfl (Nat.le_refl _) rfl rfl List.prefix_rfl)) fun _ => .pure

theorem adopt (h : g.Heeds i permitted K) (hc : g.Sustains K) (owner : Owner) (o : Object) :
    Respects K (adopt owner o) :=
  .bind (h.mint hc owner) fun _ => .pure

/-- A service that was not started yet is changed as it may be until then. -/
theorem prepare (h : g.Heeds i permitted K) {f : Service → Service}
    (hf : ∀ s : Service, s.status = .notStarted →
    s.Outer (World.Ran i K) (f s) ∧ (f s).status = .notStarted) :
    Meets (fun w => K w ∧ ∃ s, w.services[j]? = some s ∧ s.status = .notStarted) (update j f)
      (fun _ w => K w ∧ ∃ s, w.services[j]? = some s ∧ s.status = .notStarted) K := by
  rintro w ⟨hw, s, hs, notStarted⟩
  obtain ⟨outer, still⟩ := hf s notStarted
  exact ⟨h.outer (fun _ => outer) w ⟨hw, hs⟩, f s, World.change_self f hs, still⟩

/-- Until it is started, a service is given its context and its first snapshot. -/
theorem create (h : g.Heeds i permitted K) (hc : g.Sustains K) (config : Value)
    (validator : Validator) (hooks : List Hook) (ownLoop : Bool) :
    Respects K (create config validator hooks ownLoop) := by
  refine .bind .ofExcept fun machine =>
    .learn (.ofExcept (fun _ _ copied hw => ⟨hw, copied⟩) fun _ => id) fun context copied => ?_
  refine Meets.bind (Q := fun v w => K w ∧ w = v) (.get fun w hw => ⟨hw, rfl⟩) fun v => ?_
  let Inert (w : World) : Prop :=
    K w ∧ ∃ s, w.services[v.services.length]? = some s ∧ s.status = .notStarted
  have supplied (w : World) (s : Service) (hw : Inert w)
      (hs : w.services[v.services.length]? = some s) :
      Inert (w.change v.services.length fun s => { s with supply := s.supply + 1 }) := by
    exact h.prepare (fun s notStarted => ⟨.free (.supply (s.supply + 1)), notStarted⟩) w hw
  refine .bind (Q := fun _ => Inert) ?_ fun _ => .bind (Q := fun _ => Inert) ?_ fun c => ?_
  · rintro w ⟨hw, rfl⟩
    exact ⟨h.created ⟨rfl, rfl, rfl, rfl, (Value.copy_eq_ok_iff.mp copied).1⟩ hw, _,
      List.getElem?_concat_length, rfl⟩
  · refine .bind (Q := fun _ => Inert) (fun w hw => ?_) fun n => .pure fun _ => id
    obtain ⟨-, s, hs, -⟩ := id hw
    rw [run_mint hs]
    exact supplied w s hw hs
  · refine .bind (h.prepare fun s notStarted => ⟨.prepare c s.snapshot notStarted, notStarted⟩)
      fun _ => ?_
    have snapshot := ((h.free (j := v.services.length) hc).currentSnapshot false).meets.pre
      (P := Inert) fun _ hw => hw.1
    refine .bind (snapshot.goes (goes_currentSnapshot false supplied : Run.Goes .outside _ _ _))
      fun sn => ?_
    refine .bind ((h.prepare fun s notStarted => ⟨.prepare s.context sn notStarted, notStarted⟩).pre
      fun w hw => hw.2.1) fun _ => ?_
    exact .pure fun w hw => hw.1

/-! ### Programs -/

theorem addAwaitable (h : g.Heeds i permitted K) (hc : g.Sustains K) (owner : Owner)
    (x : Awaitable) :
    Respects K (addAwaitable owner x) :=
  .bind (h.mint hc owner) fun _ => .bind (fun _ => h.aside (.added _ x)) fun _ => .pure

theorem settleAwaitable (h : g.Heeds i permitted K) (a : AwaitableId) (settlement : Settlement) :
    Respects K (settleAwaitable a settlement) := by
  refine .lookNow fun v hv => ?_
  split
  · rename_i found
    refine .bind (Q := fun _ => K) (.modify fun _ _ => h.aside (.settles found settlement) hv)
      fun _ => ?_
    exact .pure fun _ => id
  · exact .pure fun _ hw => hw ▸ hv

/-- A callback that another one calls, or the event loop. -/
theorem invoke (h : g.Heeds i permitted K) (hc : g.Sustains K) {owner : Owner}
    {role : Role} {f : Value} {args : List Object} (other : role.isOwn = false) :
    Respects K (g.invoke owner role f args) :=
  .bind (h.note (Entry.deed?_of_other other) rfl) fun _ => .bind (hc _ _ _ _) fun _ => .pure

theorem answer (h : g.Heeds i permitted K) (hc : g.Sustains K) (plain : permitted .null)
    (owner : Owner) (r : Effect) :
    Respects K (g.answer owner r) := by
  cases r with
  | log label values => exact h.note nofun rfl
  | call f args => exact h.invoke hc rfl
  | send sender event =>
    cases sender with
    | service j => exact h.send hc event
    | bench => exact fun _ => h.aside (.plain rfl rfl rfl (Nat.le_refl _) rfl rfl
      (List.prefix_append _ _))
  | start j => exact h.startOf hc fun _ => plain
  | stop j => exact h.stop hc
  | subscribe j name =>
    exact .bind (h.listenerNamed name none) fun listener => .discard (h.subscribe listener)
  | unsubscribe n => exact h.unsubscribe n
  | isActive j t => exact .peek fun _ => .pure
  | cancelInvocation j t => exact h.revoke hc t
  | liveState j => exact .bind ((h.free hc).currentSnapshot false) fun _ => .pure
  | state j => exact .peek fun _ => .pure
  | status j => exact .peek fun _ => .pure
  | future =>
    refine .bind (h.addAwaitable hc owner _) fun _ => ?_
    exact .bind (fun _ => h.aside (.plain rfl rfl rfl (Nat.le_refl _) rfl rfl List.prefix_rfl))
      fun _ => .pure
  | settle a settlement => exact .discard (h.settleAwaitable a settlement)
  | sharedFuture n =>
    refine .look fun v => ?_
    split
    · exact .pure
    · exact .fail
  | coroutine pauses body args => exact h.addAwaitable hc owner _
  | now => exact .lookAt fun v hv => .bind (fun _ _ => h.aside (.ticked v) hv) fun _ => .pure
  | origin => exact .bind (h.mint hc owner) fun _ => .pure

theorem exec (h : g.Heeds i permitted K) (hc : g.Sustains K) (plain : permitted .null)
    (owner : Owner) {α : Type} (p : Prog α) (c : Option Context) :
    Respects K (g.exec owner p c) := by
  induction p generalizing c with
  | done a => exact .pure
  | fail f => exact .fail
  | pending next ih =>
    cases c with
    | none => exact .fail
    | some c => exact ih c (some c)
  | write o next ih =>
    cases c with
    | none => exact .fail
    | some c => exact .bind (h.adopt hc owner o) fun c => ih (some c)
  | ask r next ih => exact .bind (h.answer hc plain owner r) fun reply => ih reply c
  | handle r next ih => exact .bind (h.answer hc plain owner r).attempt fun reply => ih reply c

/-! ### The event loop and the host -/

theorem takeReady (h : g.Heeds i permitted K) : Respects K takeReady := by
  refine .lookNow fun v hv => ?_
  split
  · exact .pure fun _ hw => hw ▸ hv
  · rename_i ready
    exact .bind (Q := fun _ => K) (.modify fun _ _ => h.aside (.dequeued ready) hv) fun _ =>
      .pure fun _ => id

/-- Scheduled work takes its turn. -/
theorem stepTurn (h : g.Heeds i permitted K) (hc : g.Sustains K) (a : AwaitableId) (pauses : Nat)
    (body : Value) (args : List Object) : Respects K (g.turn (.step a pauses body args)) := by
  cases pauses with
  | succ pauses => exact fun _ => h.aside (.queued pauses body args)
  | zero =>
    refine .bind (.tryCatch (.bind (h.invoke hc rfl) fun _ => .pure) fun halt => ?_)
        fun settlement => .discard (h.settleAwaitable a settlement)
    cases halt with
    | raised f => exact .pure
    | exhausted => exact .throw

theorem onLoop (h : g.Heeds i permitted K) {α : Type} {body : Run α} (hb : Respects K body) :
    Respects K (onLoop body) :=
  .look fun _ =>
    .bind (fun _ => h.aside (.plain rfl rfl rfl (Nat.le_refl _) rfl rfl List.prefix_rfl)) fun _ =>
      .bind hb fun _ =>
    .bind (fun _ => h.aside (.plain rfl rfl rfl (Nat.le_refl _) rfl rfl List.prefix_rfl))
      fun _ => .pure

/-- Commands that leave the event loop alone are carried out. -/
theorem obey_outside (h : g.Heeds i permitted K) (hc : g.Sustains K) {c : Command}
    (turn : c ≠ .turn) (flush : c ≠ .flush)
    (allowed : ∀ override, c = .start i override → permitted override) : Respects K (g.obey c) := by
  cases c with
  | create config validator hooks ownLoop => exact h.create hc config validator hooks ownLoop
  | start j override => exact h.startOf hc fun hij => allowed override (hij ▸ rfl)
  | stop j => exact h.stop hc
  | send j event => exact h.send hc event
  | subscribe j name callback =>
    exact .bind (h.listenerNamed name callback) fun listener => h.subscribe listener
  | unsubscribe n => exact h.unsubscribe n
  | cancelInvocation j t => exact h.revoke hc t
  | settle n settlement =>
    refine .look fun v => ?_
    split
    · exact h.settleAwaitable _ settlement
    · exact .pure
  | turn => exact absurd rfl turn
  | flush => exact absurd rfl flush

theorem obey (h : g.Heeds i permitted K) (hc : g.Sustains K) (turns : Respects K g.takeTurn)
    (c : Command) (allowed : ∀ override, c = .start i override → permitted override) :
    Respects K (g.obey c) := by
  cases c with
  | turn => exact h.onLoop turns
  | flush => exact h.onLoop (respects_runLoop turns _)
  | _ => exact h.obey_outside hc nofun nofun allowed

end Heeds

namespace Regards

variable {g : Engine} {i : Nat} {permitted : Value → Prop} {K : World → Prop}

theorem deliver (h : g.Regards i permitted K) (hc : g.Sustains K) (waiter : Waiter)
    (a : AwaitableId) (settlement : Settlement) : Respects K (g.deliver waiter a settlement) := by
  refine .read fun s => .ite (fun running => ?_) fun _ => .pure fun _ hw => hw.1
  by_cases own : waiter.service = i
  · rw [own]
    exact Heeds.owned fun hs hw => h.settled _ hs running hw
  · exact (h.accept hc own fun _ => h.arrived _ _).meets.pre fun _ hw => hw.1

theorem takeTurn (h : g.Regards i permitted K) (hc : g.Sustains K) : Respects K g.takeTurn := by
  have turn (r : Ready) : Respects K (g.turn r) := by
    cases r with
    | step a pauses body args => exact h.stepTurn hc a pauses body args
    | complete waiter a =>
      refine .look fun v => ?_
      split
      · refine .tryCatch (h.deliver hc waiter a _) fun halt => ?_
        cases halt with
        | raised f => exact h.note nofun rfl
        | exhausted => exact .throw
      · exact .pure
  refine .bind h.takeReady fun r => ?_
  cases r with
  | none => exact .pure
  | some r => exact .bind (turn r) fun _ => .pure

end Regards

/-! ### Callbacks and histories -/

variable {book : Book} {i : Nat} {permitted : Value → Prop} {K : World → Prop}

/-- By induction on the fuel: what outlasts whatever concerns the service outlasts callbacks. -/
theorem sustains_ofBook (h : ∀ n, (ofBook book n).Sustains K → (ofBook book n).Heeds i permitted K)
    (plain : permitted .null) (fuel : Nat) : (ofBook book fuel).Sustains K := by
  induction fuel with
  | zero => exact fun _ _ _ _ => .throw
  | succ fuel ih => exact fun owner f args c => (h fuel ih).exec ih plain owner (book f args) c

end Engine

namespace World

open Run

variable {book : Book} {i : Nat} {permitted : Value → Prop} {K : World → Prop}

/-- What outlasts whatever concerns the service, and the turns of the event loop, outlasts
histories. -/
theorem heeds_after
    (h : ∀ n, (Engine.ofBook book n).Sustains K → (Engine.ofBook book n).Heeds i permitted K)
    (turns : ∀ n, (Engine.ofBook book n).Sustains K → Respects K (Engine.ofBook book n).takeTurn)
    (plain : permitted .null) (fuel : Nat) {history : List Command}
    (allowed : ∀ override, .start i override ∈ history → permitted override) {w : World}
    (hw : K w) :
    K (w.after (.ofBook book fuel) history) := by
  have sustained := Engine.sustains_ofBook h plain fuel
  induction history generalizing w with
  | nil => exact hw
  | cons c rest ih =>
    have obeyed := (h fuel sustained).obey sustained (turns fuel sustained) c fun override hc =>
      allowed override (hc ▸ List.mem_cons_self)
    exact ih (fun override hc => allowed override (List.mem_cons_of_mem c hc)) (obeyed.run hw)

/-- What outlasts whatever concerns the service outlasts histories. -/
theorem respects_after (h : ∀ n, (Engine.ofBook book n).Regards i permitted K)
    (plain : permitted .null) (fuel : Nat) {history : List Command}
    (allowed : ∀ override, .start i override ∈ history → permitted override) {w : World}
    (hw : K w) : K (w.after (.ofBook book fuel) history) :=
  heeds_after (fun n _ => (h n).toHeeds) (fun n hc => (h n).takeTurn hc) plain fuel allowed hw

end World

/-! ### Services that are drained -/

namespace Engine

open Run

/-- Callbacks spare the services that are drained. -/
def Sparing (g : Engine) : Prop :=
  ∀ (i : Nat) (w : World), w.Busy i → g.Sustains fun v => w.Spares i v

/-- A service that is drained takes no calls. -/
theorem heeds_busy {g : Engine} {i : Nat} {w : World} (hw : w.Busy i) (permitted : Value → Prop) :
    g.Heeds i permitted fun v => w.Spares i v where
  aside := fun advances hv => hv.trans (.advanced advances)
  noted := fun deed _ hv => hv.trans (.noted deed)
  others := fun f hij hv => hv.trans (.aside (World.change_ne _ f hij) rfl rfl (Nat.le_refl _))
  created := by
    intro v s _ hv
    obtain ⟨s', hs', -⟩ := hv.busy hw
    exact hv.trans
      (.aside ((List.getElem?_append_left (List.getElem?_eq_some_iff.mp hs').1)) rfl rfl
        (Nat.le_refl _))
  own := by
    intro v s f hs outer hv
    obtain ⟨s', hs', busy⟩ := hv.busy hw
    cases hs.symm.trans hs'
    refine hv.trans (.changed hs ?_)
    generalize f s = s'' at outer
    cases outer with
    | free free =>
      cases free with
      | supply => exact ⟨⟨rfl, rfl, rfl, rfl, rfl, Or.inl rfl, Or.inl rfl⟩, rfl⟩
      | vacate => exact ⟨⟨rfl, rfl, rfl, rfl, rfl, Or.inr rfl, Or.inl rfl⟩, rfl⟩
    | listeners => exact ⟨⟨rfl, rfl, rfl, rfl, rfl, Or.inl rfl, Or.inl rfl⟩, rfl⟩
    | stop running => exact ⟨⟨rfl, rfl, rfl, rfl, rfl, Or.inl rfl, Or.inr ⟨running, rfl⟩⟩, rfl⟩
    | drop => exact ⟨⟨rfl, rfl, rfl, rfl, rfl, Or.inl rfl, Or.inl rfl⟩, rfl⟩
    | prepare _ _ notStarted => exact absurd notStarted busy.started
  sent := by
    intro v s e hs running hv
    obtain ⟨s', hs', busy⟩ := hv.busy hw
    cases hs.symm.trans hs'
    rw [run_accept_busy hs busy.draining]
    refine hv.trans
      (.trans (.changed hs ⟨⟨rfl, rfl, rfl, rfl, rfl, Or.inl rfl, Or.inl rfl⟩, rfl⟩) (.noted nofun))
  start := by
    intro v s override _ hs notStarted hv
    obtain ⟨s', hs', busy⟩ := hv.busy hw
    cases hs.symm.trans hs'
    exact absurd notStarted busy.started

theorem sparing_ofBook (book : Book) (fuel : Nat) : (ofBook book fuel).Sparing := by
  intro i w hw
  exact sustains_ofBook (fun n _ => heeds_busy hw fun _ => True) trivial fuel

end Engine

/-- The assertion is about a service that is drained, and outlasts what spares it. -/
structure World.Steady (i : Nat) (K : World → Prop) : Prop where
  busy : ∀ {w}, K w → w.Busy i
  spared : ∀ {w w'}, w.Spares i w' → K w → K w'

namespace World.Steady

open Run

variable {i : Nat} {K : World → Prop} {g : Engine}

theorem sustained (h : Steady i K) (hg : g.Sparing) : g.Sustains K := by
  intro owner f args c
  refine .ofRun fun w hw => ?_
  exact h.spared ((hg i w (h.busy hw) owner f args c).run (.refl w)) hw

/-- What is steady is kept by what anybody may do. -/
theorem free (h : Steady i K) (hg : g.Sparing) : g.Public i K where
  aside := fun advances => h.spared (.advanced advances)
  noted := by
    intro w e he
    refine h.spared (.noted ?_)
    cases he with
    | cancel | error => exact Entry.deed?_of_other rfl
    | _ => exact nofun
  changed := by
    intro w f hf hw
    obtain ⟨s, hs, -⟩ := h.busy hw
    refine h.spared (.changed hs ?_) hw
    have free := hf s
    generalize f s = s' at free
    cases free with
    | supply => exact ⟨⟨rfl, rfl, rfl, rfl, rfl, Or.inl rfl, Or.inl rfl⟩, rfl⟩
    | vacate => exact ⟨⟨rfl, rfl, rfl, rfl, rfl, Or.inr rfl, Or.inl rfl⟩, rfl⟩
  calls := h.sustained hg

end World.Steady

/-- The service is drained and is as is said, given the time and the journal, and so are all
points passed. -/
def World.Stays (i : Nat) (φ : Nat → Service → List Entry → Prop) (S : Point → Prop)
    (w : World) : Prop :=
  (∃ s, w.services[i]? = some s ∧ s.Busy ∧ φ w.clock s w.journal) ∧ ∀ p ∈ w.points, S p

/-- An assertion about the service and the points passed is steady, if what it says of the service
outlasts what others do, and what it says of points holds of those that show others doing it. -/
theorem World.Stays.steady {i : Nat} {φ : Nat → Service → List Entry → Prop} {S : Point → Prop}
    (spared : ∀ {time time' : Nat} {s s' : Service} {later journal : List Entry}, time ≤ time' →
      s.Spared s' →
      (∀ e ∈ later, e.deed? ≠ some i) → φ time s journal → φ time' s' (later ++ journal))
    (seen : ∀ {time : Nat} {s : Service} {p : Point} {e : Entry}, p.journal.head? = some e →
      e.deed? ≠ some i →
      p.services[i]? = some s → φ time s p.journal → S p) : Steady i (World.Stays i φ S) where
  busy := fun ⟨⟨s, hs, busy, _⟩, _⟩ => ⟨s, hs, busy⟩
  spared := by
    rintro w w' spares ⟨⟨s, hs, busy, said⟩, points⟩
    obtain ⟨s', hs', held⟩ := spares.service s hs
    obtain ⟨later, journal, others⟩ := spares.journal
    obtain ⟨between, hp, shown⟩ := spares.points
    refine ⟨⟨s', hs', held.holds.busy busy, journal ▸ spared spares.clock held others said⟩, ?_⟩
    rw [hp]
    refine List.forall_mem_append.mpr ⟨fun p hp => ?_, points⟩
    obtain ⟨⟨e, entries, written, none⟩, held⟩ := shown p hp
    obtain ⟨s', hs', held⟩ := held s hs
    have head : p.journal.head? = some e := by
      rw [written]
      rfl
    have said : φ w.clock s' p.journal := written ▸ spared (Nat.le_refl _) held none said
    exact seen head (none e List.mem_cons_self) hs' said

end FlatMachine
