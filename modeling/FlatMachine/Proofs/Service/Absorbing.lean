import FlatMachine.Proofs.Service.Order
import FlatMachine.Proofs.Service.Concerns

/-! # A stopped service is called in vain

Once a service is stopped and no drain of it is in progress, nothing that it is asked for has an
effect, but that its listeners may be registered and removed, which nobody notifies any more
(**`Engine.run_visits`**).  Whatever else happens then, no deed of the service is done, and what
it shows stays as it is (**`World.stopped_absorbs`**).  So does its queue: what a halted stop
left in it is neither taken nor dropped any more. -/

namespace FlatMachine

/-- What a service can be asked for from outside. -/
inductive Visit where
  | start (override : Value)
  | send (event : Value)
  | stop
  | subscribe (listener : Listener)
  | unsubscribe (subscription : Nat)
  | deliver (token : Token) (event : Event) (a : AwaitableId) (settlement : Settlement)

/-- Only subscriptions that were made before are ended; so many were made already. -/
def Visit.possible : Nat → List Visit → Prop
  | _, [] => True
  | n, .subscribe _ :: rest => possible (n + 1) rest
  | n, .unsubscribe k :: rest => k < n ∧ possible n rest
  | n, _ :: rest => possible n rest

namespace Engine

open Run

variable {g : Engine} {i : Nat} {w : World} {s : Service}

/-- Ask a service for something. -/
def visit (g : Engine) (i : Nat) : Visit → Run Unit
  | .start override => g.start i override
  | .send event => g.send i event
  | .stop => g.stop i
  | .subscribe listener => discard (subscribe i listener)
  | .unsubscribe n => unsubscribe n
  | .deliver token event a settlement => g.deliver ⟨i, token, event⟩ a settlement

/-- A service that was started already is not started again. -/
theorem run_start_idle (hs : w.services[i]? = some s) (started : s.status ≠ .notStarted)
    (override : Value) :
    (g.start i override).run w = (.ok (), w) := by
  unfold start
  rw [run_bind, run_service hs]
  dsimp only
  rw [if_neg started]
  rfl

/-- A service that is not running is not stopped. -/
theorem run_stop_idle (hs : w.services[i]? = some s) (other : s.status ≠ .running) :
    (g.stop i).run w = (.ok (), w) := by
  unfold stop
  rw [run_bind, run_service hs]
  dsimp only
  rw [if_neg other]
  rfl

theorem run_subscribe (hs : w.services[i]? = some s) (listener : Listener) :
    (discard (subscribe i listener)).run w =
    (.ok (), { w.change i fun s => { s with listeners := s.listeners ++ [listener] } with
      subscriptions := w.subscriptions ++ [(i, listener)] }) := by
  unfold subscribe
  rw [run_discard, run_bind, run_discard, run_service hs]
  rfl

theorem run_unsubscribe {n j : Nat} {listener : Listener}
    (h : w.subscriptions[n]? = some (j, listener)) :
    (unsubscribe n).run w =
      (.ok (), w.change j fun s =>
        { s with listeners := s.listeners.eraseP (·.same listener) }) := by
  unfold unsubscribe
  rw [run_bind, run_get]
  dsimp only
  rw [h]
  rfl

/-- The world differs in the listeners of the service at most, and in what is noted of
subscriptions. -/
structure Unmoved (i : Nat) (s : Service) (w w' : World) : Prop where
  service : ∃ listeners, w'.services[i]? = some { s with listeners }
  journal : w'.journal = w.journal
  points : w'.points = w.points

/-- One after the other, whatever a stopped service is asked for, nothing fails, and nothing
comes of it. -/
theorem run_visits (hs : w.services[i]? = some s) (stopped : s.status = .stopped)
    {visits : List Visit} (possible : Visit.possible w.subscriptions.length visits) :
    ∃ w', (visits.forM (g.visit i)).run w = (.ok (), w') ∧ Unmoved i s w w' := by
  have started : s.status ≠ .notStarted := by rw [stopped]; exact nofun
  have other : s.status ≠ .running := by rw [stopped]; exact nofun
  induction visits generalizing w s with
  | nil => exact ⟨w, rfl, ⟨s.listeners, hs⟩, rfl, rfl⟩
  | cons visit rest ih =>
    -- What is asked for leaves a world in which the rest is asked for.
    have next {w₁ : World} {listeners : List Listener}
        (run : (g.visit i visit).run w = (.ok (), w₁))
        (hs₁ : w₁.services[i]? = some { s with listeners }) (journal : w₁.journal = w.journal)
        (points : w₁.points = w.points) (possible₁ : Visit.possible w₁.subscriptions.length rest) :
        ∃ w', ((visit :: rest).forM (g.visit i)).run w = (.ok (), w') ∧ Unmoved i s w w' := by
      obtain ⟨w', run', ⟨listeners', hs'⟩, journal', points'⟩ :=
        ih hs₁ stopped possible₁ started other
      refine ⟨w', ?_, ⟨listeners', hs'⟩, journal'.trans journal, points'.trans points⟩
      show (g.visit i visit >>= fun _ => rest.forM (g.visit i)).run w = _
      rw [run_bind, run]
      exact run'
    cases visit with
    | start override => exact next (run_start_idle hs started override) hs rfl rfl possible
    | send event => exact next (run_send_idle hs other event) hs rfl rfl possible
    | stop => exact next (run_stop_idle hs other) hs rfl rfl possible
    | deliver token event a settlement =>
      exact next (run_deliver_idle hs other token event a settlement) hs rfl rfl possible
    | subscribe listener =>
      refine next (run_subscribe hs listener) (World.change_self _ hs) rfl rfl ?_
      show Visit.possible (w.subscriptions ++ [(i, listener)]).length rest
      rw [List.length_append]
      exact possible
    | unsubscribe n =>
      obtain ⟨bound, possible⟩ := possible
      obtain ⟨⟨j, listener⟩, made⟩ : ∃ p, w.subscriptions[n]? = some p :=
        ⟨_, List.getElem?_eq_getElem bound⟩
      have run : (g.visit i (.unsubscribe n)).run w = _ := run_unsubscribe made
      by_cases hij : j = i
      · subst hij
        exact next run (World.change_self _ hs) rfl rfl possible
      · exact next run ((World.change_ne w _ hij).trans hs) rfl rfl possible

end Engine

/-! ### Whatever happens -/

/-- Nothing that a stopped service shows is another, nothing more waits for it, and no deed of it
was done. -/
structure World.Absorbed (i : Nat) (s : Service) (w w' : World) : Prop where
  service : ∃ s', w'.services[i]? = some s' ∧ s'.status = .stopped ∧ s'.stateName = s.stateName ∧
    s'.context = s.context ∧ s'.snapshot = s.snapshot ∧ s'.queue = s.queue
  journal : ∃ later, w'.journal = later ++ w.journal ∧ ∀ e ∈ later, e.deed? ≠ some i

namespace World.Absorbed

variable {i : Nat} {s : Service} {w v v' : World}

theorem refl (hs : w.services[i]? = some s) (stopped : s.status = .stopped) : w.Absorbed i s w :=
  ⟨⟨s, hs, stopped, rfl, rfl, rfl, rfl⟩, [], rfl, List.forall_mem_nil _⟩

theorem alike (h : w.Absorbed i s v) (services : v'.services[i]? = v.services[i]?)
    (journal : v'.journal = v.journal) :
    w.Absorbed i s v' :=
  ⟨services ▸ h.service, journal ▸ h.journal⟩

theorem noted {e : Entry} (h : w.Absorbed i s v) (deed : e.deed? ≠ some i) :
    w.Absorbed i s (v.noted e) := by
  obtain ⟨later, journal, others⟩ := h.journal
  refine ⟨h.service, e :: later, ?_, List.forall_mem_cons.mpr ⟨deed, others⟩⟩
  rw [World.noted_journal, journal]
  rfl

/-- A stopped service is changed by nobody but for its listeners, its slot, and the numbers it
hands out. -/
theorem changed {s₁ : Service} {f : Service → Service} (h : w.Absorbed i s v)
    (hs₁ : v.services[i]? = some s₁) (outer : s₁.Outer False (f s₁)) :
    w.Absorbed i s (v.change i f) := by
  obtain ⟨s', hs', stopped, name, context, snapshot, queue⟩ := h.service
  cases hs'.symm.trans hs₁
  refine ⟨⟨f s₁, World.change_self f hs₁, ?_⟩, h.journal⟩
  generalize f s₁ = s'' at outer
  cases outer with
  | free free => cases free <;> exact ⟨stopped, name, context, snapshot, queue⟩
  | listeners => exact ⟨stopped, name, context, snapshot, queue⟩
  | stop => exact ⟨rfl, name, context, snapshot, queue⟩
  | drop never => exact never.elim
  | prepare _ _ notStarted =>
    rw [stopped] at notStarted
    cases notStarted

theorem never_ran : ¬ World.Ran i (w.Absorbed i s) := by
  rintro ⟨v, s₁, hv, hs₁, running⟩
  obtain ⟨s', hs', stopped, -⟩ := hv.service
  cases hs'.symm.trans hs₁
  exact nomatch running.symm.trans stopped

/-- A stopped service takes nothing. -/
theorem not_running {v : World} {s₁ : Service} (hv : w.Absorbed i s v)
    (hs₁ : v.services[i]? = some s₁) :
    s₁.status = .stopped := by
  obtain ⟨s', hs', stopped, -⟩ := hv.service
  cases hs'.symm.trans hs₁
  exact stopped

theorem regards {g : Engine} (permitted : Value → Prop) :
    g.Regards i permitted fun v => w.Absorbed i s v where
  aside := fun advances hv => hv.alike (congrArg (·[i]?) advances.services) advances.journal
  noted := fun deed _ hv => hv.noted deed
  others := fun f hij hv => hv.alike (World.change_ne _ f hij) rfl
  created := by
    intro v _ _ hv
    obtain ⟨s', hs', -⟩ := hv.service
    exact hv.alike (List.getElem?_append_left (List.getElem?_eq_some_iff.mp hs').1) rfl
  own := fun hs₁ outer hv => hv.changed hs₁ (outer.imp never_ran)
  sent := fun _ hs₁ running hv => nomatch running.symm.trans (hv.not_running hs₁)
  arrived := fun _ _ hv => hv.noted nofun
  settled := fun _ hs₁ running hv => nomatch running.symm.trans (hv.not_running hs₁)
  start := fun _ hs₁ notStarted hv => nomatch notStarted.symm.trans (hv.not_running hs₁)

end World.Absorbed

namespace World

/-- Whatever a stopped service is asked for while no drain of it is in progress, nothing fails,
nothing is called or written, and only its listeners may become others.  And whatever is done
after a history in which it was stopped, by anybody, it stays stopped in the same state with the
same context, snapshot and queue, and none of its guards, actions, sources and listeners is
called, nor any hook but for the failures of cancel callbacks. -/
theorem stopped_absorbs (book : Book) (fuel : Nat) (looping : Bool)
    (history : List Command) (i : Nat) :
    let w := (World.start looping).after (.ofBook book fuel) history
    (∀ (g : Engine) (v : World) s, v.services[i]? = some s → s.status = .stopped →
      ∀ visits, Visit.possible v.subscriptions.length visits →
        ∃ v', (visits.forM (g.visit i)).run v = (.ok (), v') ∧ v'.journal = v.journal ∧
          ∃ listeners, v'.services[i]? = some { s with listeners }) ∧
    ∀ s, w.services[i]? = some s → s.status = .stopped → ∀ further,
      w.Absorbed i s (w.after (.ofBook book fuel) further) := by
  intro w
  refine ⟨fun g v s hs stopped visits possible => ?_, fun s hs stopped further => ?_⟩
  · obtain ⟨v', run, ⟨listeners, hs'⟩, journal, -⟩ := Engine.run_visits (g := g) hs stopped possible
    exact ⟨v', run, journal, listeners, hs'⟩
  · have regards (n : Nat) : (Engine.ofBook book n).Regards i (fun _ => True) fun v =>
      w.Absorbed i s v :=
      Absorbed.regards _
    exact respects_after regards trivial fuel (fun _ _ => trivial) (.refl hs stopped)

end World

/-! ### A service that was stopped with an event in its queue -/

namespace Cutoff

/-- Everything that a service can be asked for, with an outcome of its first invocation. -/
def visits : List Visit :=
  [.start (.map []), .send .null, .stop, .subscribe ⟨"late", none⟩, .unsubscribe 0,
    .deliver 4 .init (.service 0, 5) .cancelled]

theorem visits_possible (n : Nat) : Visit.possible n visits := ⟨Nat.succ_pos n, trivial⟩

/-- The service is stopped, and somebody goes on as if it were not; the event that was left still
waits. -/
theorem left_item_kept :
    ∃ s, world.services[0]? = some s ∧ s.status = .stopped ∧ s.queue.items.length = 1 ∧
    (∃ v', (visits.forM ((Engine.ofBook book 6).visit 0)).run world = (.ok (), v') ∧
      v'.journal = world.journal) ∧
    world.Absorbed 0 s (world.after (.ofBook book 6)
      [.start 0 (.map []), .send 0 .null, .settle 0 (.value .null), .flush, .stop 0]) := by
  have left : world.services[0]?.any (fun s => s.status == .stopped && s.queue.items.length == 1) =
      true := by
    decide +kernel
  obtain ⟨s, hs, left⟩ := (Option.any_eq_true _ _).mp left
  obtain ⟨stopped, one⟩ : s.status = .stopped ∧ s.queue.items.length = 1 := by simpa using left
  obtain ⟨vain, absorbs⟩ := World.stopped_absorbs book 6 true history 0
  obtain ⟨v', run, journal, -⟩ :=
    vain (.ofBook book 6) world s hs stopped visits (visits_possible _)
  exact ⟨s, hs, stopped, one, ⟨v', run, journal⟩, absorbs s hs stopped _⟩

end Cutoff

end FlatMachine
