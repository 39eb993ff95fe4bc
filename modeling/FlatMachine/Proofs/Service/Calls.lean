import FlatMachine.Proofs.Service.Concerns

/-! # Calls that begin a drain

A service that nobody drains begins a drain when it is started, or accepts an item.  What holds
after the call follows from what the body of the drain reaches, and from what is left of it when
a failure ends it.

* **`Run.meets_drained`**: a drain writes how it ended, and gives the flag of the queue back.
* **`Engine.meets_accept`**, **`Engine.meets_start`**: the rules of the two calls.
* **`Engine.Rounds.ends_processPending`**: a drain takes item after item; the rule has one
  premise for each part of what it does with one. -/

namespace FlatMachine

namespace Run

/-- A drain is over, whether or not a failure ended its body. -/
theorem meets_drained {i : Nat} {body : Run Unit} {P Q J : World → Prop} {E : Halt → World → Prop}
    (hb : Ends P body (fun _ => Q) E) (ok : ∀ v, Q v → J (v.left i none))
    (halted : ∀ v halt, E halt v → J (v.left i (some halt))) :
    Meets P (drained i body) (fun _ => J) J := by
  refine Ends.bind (Q := fun _ => Q) (.tryCatch hb fun halt => ?_) fun _ => fun v hv => ok v hv
  exact fun v hv => halted v halt hv

theorem run_adopt {i : Nat} {w : World} {s : Service} (hs : w.services[i]? = some s) (o : Object) :
    (adopt (.service i) o).run w = (.ok ⟨(o.stamp <|> sharedStamp? o.value).getD s.supply, o.value⟩,
      w.change i fun s => { s with supply := s.supply + 1 }) := by
  unfold adopt
  rw [run_bind, run_mint hs]
  rfl

end Run

namespace Engine

open Run

variable {g : Engine} {i : Nat} {w : World} {s : Service}

/-- A service as it is when it is started with a context. -/
def started (context : Context) (s : Service) : Service :=
  { s with context, stateName := s.machine.initial, status := .running }

/-- What is left to do of a start once its drain has begun. -/
def startBody (g : Engine) (i : Nat) : Run Unit := do
  g.enter i .init
  g.publish i
  g.processPending i g.bound

/-- The context that the service makes of a value. -/
def taking (s : Service) (value : Value) : Context := ⟨(sharedStamp? value).getD s.supply, value⟩

/-- What is recorded of the start of a service. -/
def greeting (s : Service) : String :=
  "Starting machine " ++ s.machine.id.shown ++ " in state " ++ s.machine.initial.shown

/-- A service that was given a context has started, and nobody drains it yet. -/
def greeted (w : World) (i : Nat) (context : Context) (text : String) : World :=
  ((w.change i fun s => { s with supply := s.supply + 1 }).change i (started context)).noted
    (.record .debug text)

/-- The world in which the first drain of a service begins. -/
def opened (w : World) (i : Nat) (context : Context) (text : String) : World :=
  (w.change i fun s => { s with supply := s.supply + 1 }).entered i (started context)
    (.record .debug text)

theorem opened_self (hs : w.services[i]? = some s) (context : Context) (text : String) :
    (opened w i context text).services[i]? =
      some { started context { s with supply := s.supply + 1 } with queue := s.queue.enter } :=
  World.entered_self (World.change_self _ hs)

/-- A start with an override that cannot be merged fails at once. -/
theorem run_start_refused (hs : w.services[i]? = some s) (notStarted : s.status = .notStarted)
    {base override : Value} {f : Failure} (copied : s.machine.context.copy = .ok base)
    (refused : base.override override = .error f) :
    (g.start i override).run w = (.error (.raised f), w) := by
  unfold start
  rw [run_bind, run_service hs]
  dsimp only
  rw [if_pos notStarted, copied, run_bind, run_ofExcept_ok]
  dsimp only
  rw [refused]
  rfl

/-- Any other start gives the service the merged context, and drains it from the initial entry
on. -/
theorem run_start_merged (hs : w.services[i]? = some s) (notStarted : s.status = .notStarted)
    {base override value : Value} (copied : s.machine.context.copy = .ok base)
    (merged : base.override override = .ok value) :
    (g.start i override).run w =
      (draining i (g.startBody i)).run (greeted w i (taking s value) (greeting s)) := by
  unfold start
  rw [run_bind, run_service hs]
  dsimp only
  rw [if_pos notStarted, copied, run_bind, run_ofExcept_ok]
  dsimp only
  rw [merged, run_bind, run_ofExcept_ok]
  dsimp only
  rw [run_bind, run_adopt hs]
  dsimp only [Object.fresh]
  rw [run_bind, run_update]
  dsimp only
  unfold record
  rw [run_bind, run_note]
  rfl

/-- A start fails at once, or it begins the first drain, with a context made of the machine's and
the override. -/
theorem run_start (hs : w.services[i]? = some s) (notStarted : s.status = .notStarted)
    (override : Value) :
    (∃ f, (g.start i override).run w = (.error (.raised f), w)) ∨
      ∃ base context text, s.machine.context.copy = .ok base ∧ base.override override =
        .ok context.value ∧
        (g.start i override).run w = (drained i (g.startBody i)).run (opened w i context text) := by
  cases copied : s.machine.context.copy with
  | error f =>
    refine Or.inl ⟨f, ?_⟩
    unfold start
    rw [run_bind, run_service hs]
    dsimp only
    rw [if_pos notStarted, copied]
    rfl
  | ok base =>
    cases merged : base.override override with
    | error f => exact Or.inl ⟨f, run_start_refused hs notStarted copied merged⟩
    | ok value =>
      refine Or.inr ⟨base, taking s value, greeting s, rfl, merged,
        (run_start_merged hs notStarted copied merged).trans ?_⟩
      rw [run_draining]
      rfl

/-- What holds before a start that fails at once, and after the first drain otherwise, holds
after the start. -/
theorem meets_start {J P Q : World → Prop} {E : Halt → World → Prop} (hs : w.services[i]? = some s)
    (notStarted : s.status = .notStarted) {override : Value} (hw : J w)
    (begun : ∀ base context text, s.machine.context.copy = .ok base → base.override override =
      .ok context.value →
      P (opened w i context text))
    (hb : Ends P (g.startBody i) (fun _ => Q) E) (ok : ∀ v, Q v → J (v.left i none))
    (halted : ∀ v halt, E halt v → J (v.left i (some halt))) :
    J ((g.start i override).run w).2 := by
  rcases run_start
    (g := g) hs notStarted override with ⟨f, run⟩ | ⟨base, context, text, copied, merged, run⟩
  · rw [run]
    exact hw
  · rw [run]
    exact (meets_drained hb ok halted).after (begun base context text copied merged)

/-- What holds after the drain that an item begins holds after it is accepted. -/
theorem meets_accept {J P Q : World → Prop} {E : Halt → World → Prop} (hs : w.services[i]? = some s)
    (idle : s.queue.draining = false) {item : Item}
    (begun : P (w.entered i (fun s => { s with queue := s.queue.enqueue item }) (.accepted i item)))
    (hb : Ends P (g.processPending i g.bound) (fun _ => Q) E) (ok : ∀ v, Q v → J (v.left i none))
    (halted : ∀ v halt, E halt v → J (v.left i (some halt))) : J ((g.accept i item).run w).2 := by
  rw [run_accept_idle hs idle]
  exact (meets_drained hb ok halted).after begun

/-! ### Item after item -/

/-- What one item of a drain leads to, from `Between` again to `Between`: it is taken, and
processed; then the drain goes on, with nothing to be published, or stops, or what changed is
published.  What halts the drain leaves `E`. -/
structure Rounds (g : Engine) (i : Nat) (Between : World → Prop)
    (Done : Service → Item → World → Prop) (E : Halt → World → Prop) : Prop where
  halted : ∀ {w} halt, Between w → E halt w
  processed : ∀ {w s} item, Between w → w.services[i]? = some s → s.status = .running →
    s.queue.items.head? = some item →
    Ends (· = w.taken i item) (g.process i item) (fun _ => Done s item) E
  skipped : ∀ {w s s' item}, Done s item w → w.services[i]? = some s' →
    (s'.status = .running → s'.stateName.same s.stateName = true ∧
      s'.context.stamp = s.context.stamp) → Between w
  published : ∀ {w s s' item}, Done s item w → w.services[i]? = some s' → s'.status = .running →
    (s'.stateName.same s.stateName = true → s'.context.stamp ≠ s.context.stamp) →
    Ends (· = w) (g.publish i) (fun _ => Between) E
  lost : ∀ {w s item} halt, Done s item w → w.services[i]? = none → E halt w

namespace Rounds

variable {Between : World → Prop} {Done : Service → Item → World → Prop} {E : Halt → World → Prop}

/-- Looking at a service finds it, or ends the computation where the service is not there. -/
theorem known {P : World → Prop} (he : ∀ halt w, P w → w.services[i]? = none → E halt w) :
    Ends P (Run.service i) (fun s w => P w ∧ w.services[i]? = some s) E := by
  intro w hw
  cases hs : w.services[i]? with
  | none =>
    rw [run_service_none hs]
    exact he _ w hw hs
  | some s =>
    rw [run_service hs]
    exact ⟨hw, hs⟩

theorem ends_processTaken (h : g.Rounds i Between Done E) {item : Item}
    (processed : Ends (· = w.taken i item) (g.process i item) (fun _ => Done s item) E) :
    Ends (· = w.taken i item) (g.processTaken i s item) (fun _ => Between) E := by
  refine .bind processed fun _ => .bind (known fun halt _ => h.lost halt) fun s' =>
    .ite (fun running =>
    .ite (fun changed => ?_) fun same => ?_) fun other => ?_
  · refine .bind (Q := fun _ => Between) (fun w hw => ?_) fun _ => .pure fun _ => id
    refine h.published hw.1 hw.2 running (fun same stamp => ?_) w rfl
    rw [same, stamp] at changed
    simp at changed
  · refine .pure fun w hw => h.skipped hw.1 hw.2 fun _ => ?_
    simpa using same
  · exact .pure fun w hw => h.skipped hw.1 hw.2 fun running => absurd running other

/-- A drain goes from between two items to between two items, however many it takes. -/
theorem ends_processPending (h : g.Rounds i Between Done E) (fuel : Nat) :
    Ends Between (g.processPending i fuel) (fun _ => Between) E := by
  induction fuel with
  | zero => exact .throw fun _ => h.halted _
  | succ fuel ih =>
    refine .bind (known fun halt _ hw _ => h.halted halt hw) fun s => ?_
    split
    · exact .pure fun _ hw => hw.1
    · rename_i item rest items
      have next : s.queue.items.head? = some item := by rw [items]; rfl
      refine .ite (fun running => ?_) fun _ => .pure fun _ hw => hw.1
      refine .bind (Q := fun _ => Between) ?_ fun more => .ite (fun _ => ih) fun _ =>
        .pure fun _ => id
      rintro w ⟨hw, hs⟩
      rw [run_processNext]
      exact h.ends_processTaken (h.processed item hw hs running next) _ rfl

end Rounds

end Engine

end FlatMachine
