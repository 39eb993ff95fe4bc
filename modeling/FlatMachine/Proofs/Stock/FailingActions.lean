import FlatMachine.Proofs.Stock.ChartStep

/-! # Actions that fail at once

An action that fails at once, whatever world it is called in, leaves behind nothing but entries
(**`Engine.Balks`**).  If it is the first one of an edge, an event on which that is taken leaves
the service in its state, with its context, its slot and its snapshot (**`Chart.ends_refused`**):
hooks may be told on the way that the state is left, but nothing else was done by then. -/

namespace FlatMachine

open Run Engine World

/-- The service is drained, and nothing was done to it but what others may do; its slot is as it
was. -/
def World.Still (i : Nat) (s : Service) (w : World) : Prop :=
  ∃ s', w.services[i]? = some s' ∧ s'.Busy ∧ s.Resembles s' ∧ s'.slot = s.slot

/-- As an action on the context, the callable fails at once. -/
def Engine.Balks (g : Engine) (i : Nat) (f : Value) (context : Context) (e : Event)
    (failure : Failure) : Prop :=
  ∀ {K : World → Prop}, (∀ {w : World} (entry : Entry), K w → K (w.noted entry)) →
    Ends K (g.call (.service i) f
      [.held context, .fresh e.toValue, .fresh (.actionAccess (.service i))] (some context))
      (fun _ _ => False) fun halt w => K w ∧ (halt = .raised failure ∨ halt = .exhausted)

/-- An assigning action fails at once if its updater does. -/
theorem Engine.balks_updating {codes : Codes} {code : Code} {held : List Value} {context : Context}
    {e : Event} {failure : Failure}
    (fails : codes code held [.held context, .fresh e.toValue] = .fail failure) (fuel i : Nat) :
    (ofBook (.ofCodes codes) fuel).Balks i (Stock.updating code held) context e failure := by
  intro K noted
  cases fuel with
  | zero => exact .throw fun _ h => ⟨h, Or.inr rfl⟩
  | succ fuel =>
    have updater :
        Ends K ((ofBook (.ofCodes codes) fuel).call (.service i) (.function .own none code held)
          [.held context, .fresh e.toValue] none) (fun _ _ => False)
        fun halt w => K w ∧ (halt = .raised failure ∨ halt = .exhausted) := by
      cases fuel with
      | zero => exact .throw fun _ h => ⟨h, Or.inr rfl⟩
      | succ fuel =>
        show Ends K ((ofBook (.ofCodes codes) fuel).exec (.service i)
          (codes code held [.held context, .fresh e.toValue]) none) _ _
        rw [fails]
        exact .fail fun _ h => ⟨h, Or.inl rfl⟩
    refine .bind (Q := fun _ _ => False)
      (.bind (Q := fun _ => K) (.note fun _ => noted _) fun _ => ?_) fun _ _ => False.elim
    exact .bind updater fun _ _ => False.elim

namespace World.Still

variable {i : Nat} {s : Service} {w : World} {g : Engine} {E : Halt → World → Prop}

theorem noted (h : w.Still i s) (e : Entry) : (w.noted e).Still i s := h

/-- With nothing in the slot, others cannot do anything to the service. -/
theorem steady (vacant : s.slot = .empty) : Steady i (World.Still i s) where
  busy := fun ⟨s', hs, busy, _⟩ => ⟨s', hs, busy⟩
  spared := by
    rintro w w' spares ⟨s', hs, busy, same, slot⟩
    obtain ⟨s'', hs', spared⟩ := spares.service s' hs
    have slot' : s''.slot = s.slot := by
      rcases spared.holds.slot with kept | empty
      · exact kept.trans slot
      · exact empty.trans vacant.symm
    refine ⟨s'', hs', spared.holds.busy busy, ?_, slot'⟩
    exact {
      machine := spared.holds.machine.trans same.machine
      hooks := spared.hooks.trans same.hooks
      stateName := spared.holds.stateName.trans same.stateName
      context := spared.holds.context.trans same.context
      snapshot := spared.holds.snapshot.trans same.snapshot
      slot := Or.inl slot' }

/-- Looking at the service finds it as it was, but for what others may do to it. -/
theorem ends_service :
    Ends (World.Still i s) (Run.service i) (fun s' w => w.Still i s ∧ s'.machine = s.machine ∧
    s'.stateName = s.stateName ∧ s'.context = s.context) E :=
  .service fun _ h => by
    obtain ⟨s', hs, busy, same, slot⟩ := id h
    exact ⟨s', hs, h, same.machine, same.stateName, same.context⟩

/-- Without actions, the context stays the same. -/
theorem ends_act_nil (e : Event) :
    Ends (World.Still i s) (g.act i (.tuple []) e) (fun _ => World.Still i s) E := by
  refine .learn ends_service fun s' ⟨_, _, context⟩ => ?_
  rw [runActionsOf_tuple, runActions_nil, pure_bind, context]
  refine .update fun w ⟨s', hs, busy, same, slot⟩ => ?_
  exact ⟨_, change_self _ hs, busy.alike rfl rfl,
    ⟨same.machine, same.hooks, same.stateName, rfl, same.snapshot, same.slot⟩, slot⟩

/-- The first action fails at once. -/
theorem ends_act_balks {f : Value} {e : Event} {failure : Failure}
    (balks : g.Balks i f s.context e failure) (rest : List Value) :
    Ends (World.Still i s) (g.act i (.tuple (f :: rest)) e) (fun _ _ => False)
      fun halt w => w.Still i s ∧ (halt = .raised failure ∨ halt = .exhausted) := by
  refine .learn ends_service fun s' ⟨_, _, context⟩ => ?_
  rw [runActionsOf_tuple, context]
  refine .bind (Q := fun _ _ => False) (.bind (Q := fun _ _ => False) ?_ fun _ _ => False.elim)
    fun _ _ => False.elim
  refine .bind (Q := fun _ => World.Still i s) (.note fun _ h => h.noted _) fun _ => ?_
  exact .bind (balks fun e h => h.noted e) fun _ _ => False.elim

/-- With nothing in the slot, nothing is cancelled. -/
theorem ends_cancelInvocation (vacant : s.slot = .empty) :
    Ends (World.Still i s) (g.cancelInvocation i) (fun _ => World.Still i s) E := by
  rintro w ⟨s', hs, busy, same, slot⟩
  rw [run_cancelInvocation hs, slot.trans vacant]
  refine ⟨_, change_self _ hs, busy.alike rfl rfl, ?_, vacant.symm⟩
  exact ⟨same.machine, same.hooks, same.stateName, same.context, same.snapshot, Or.inr rfl⟩

end World.Still

namespace Chart

variable {ρ Act Guard : Type} {c : Chart ρ Act Guard} {g : Engine} {i : Nat} {s : Service}
  {name : String} {place : Place Act Guard}

theorem known_of_still (machine : s.machine = c.machine) (named : s.stateName = .str name)
    (w : World) (h : w.Still i s) :
    ∃ s', w.services[i]? = some s' ∧ s'.stateName = .str name ∧ s'.machine = c.machine := by
  obtain ⟨s', hs, -, same, -⟩ := h
  exact ⟨s', hs, same.stateName.trans named, same.machine.trans machine⟩

/-- The state is left, and its exit hooks are told so. -/
theorem ends_exit_vacant (hg : g.Sparing) (machine : s.machine = c.machine)
    (named : s.stateName = .str name) (there : c.place name = some place) (vacant : s.slot = .empty)
    (e : Event) :
    Ends (World.Still i s) (g.exit i e) (fun _ => World.Still i s) fun halt w =>
      w.Still i s ∧ Spoils i halt w.journal := by
  refine ends_nodeOf there (known_of_still machine named) (.reads (a := .tuple []) rfl ?_)
  refine .bind (World.Still.ends_act_nil e) fun _ =>
    .bind (World.Still.ends_service.post fun _ _ h => h.1) fun s' => ?_
  refine .bind (Engine.ends_observeService hg (World.Still.steady vacant) (fun _ _ _ h => h.noted _)
    (by decide) _) fun _ => ?_
  exact .bind (Q := fun _ => World.Still i s) (.note fun _ h => h.noted _) fun _ =>
    World.Still.ends_cancelInvocation vacant

/-- An event is refused if it is taken on an edge without a guard whose first action fails at
once: the service stays as it is, and the failure is raised, unless a hook is in the way, or the
fuel is used up.  If the edge leaves, nothing may be in the slot. -/
theorem ends_refused (hg : g.Sparing) (machine : s.machine = c.machine)
    (named : s.stateName = .str name) (there : c.place name = some place) {e : Event}
    {edge : Edge Act Guard} {others : List (Edge Act Guard)}
    (offered : place.offers e.type = edge :: others) (unguarded : edge.guard = none) {a : Act}
    {rest : List Act} (acts : edge.actions = a :: rest)
    (vacant : edge.stays name = false → s.slot = .empty) {failure : Failure}
    (balks : g.Balks i (c.action a) s.context e failure) :
    Ends (World.Still i s) (g.processEvent i e) (fun _ _ => False)
      fun halt w => w.Still i s ∧ (halt = .raised failure ∨ Spoils i halt w.journal) := by
  have refused :
      Ends (World.Still i s) (g.act i (.tuple (edge.actions.map c.action)) e) (fun _ _ => False)
        fun halt w => w.Still i s ∧ (halt = .raised failure ∨ Spoils i halt w.journal) := by
    rw [acts]
    exact (World.Still.ends_act_balks balks _).weaken fun halt w h =>
      h.imp_right (Or.imp_right Or.inl)
  refine ends_nodeOf there (known_of_still machine named) ?_
  rw [candidatesFor_toValue, pure_bind, candidatesFor_node, offered]
  refine .bind (World.Still.ends_service.post fun _ _ h => h.1) fun s' => ?_
  have found : g.resolve (.service i) (c.candidates (edge :: others)) s'.context e =
      pure (some (0, (c.transition edge).toValue)) := by
    have passes : (c.transition edge).guard.isNull = true := by
      unfold transition
      rw [unguarded]
      rfl
    have eligible : g.isEligible (.service i) (c.transition edge).toValue s'.context e =
      pure true := if_pos passes
    show (g.isEligible (.service i) (c.transition edge).toValue s'.context e >>= _) = _
    rw [eligible]
    rfl
  rw [found, pure_bind]
  refine .learn World.Still.ends_service fun s' ⟨machine', name', _⟩ => ?_
  rw [name', named, internality_toValue, isInternal_transition, pure_bind]
  refine .ite (fun _ => .reads (a := .tuple (edge.actions.map c.action)) rfl refused)
    fun leaves => ?_
  have leaves := Bool.eq_false_iff.mpr leaves
  obtain ⟨target, aim, -⟩ := Edge.aim_of_leaves leaves
  obtain ⟨there', placed⟩ :=
    place_of_aim there (Place.mem_edges_of_offers (offered ▸ List.mem_cons_self)) aim
  refine .reads (member_target c aim) ?_
  rw [machine', machine, demand_of_place placed]
  refine .bind (Q := fun _ => World.Still i s) (.pure fun _ => id) fun _ => ?_
  refine .bind ((ends_exit_vacant hg machine named there (vacant leaves) e).weaken fun halt w h =>
    h.imp_right Or.inr) fun _ =>
      .reads (a := .tuple (edge.actions.map c.action)) rfl (.bind refused fun _ _ => False.elim)

end Chart
end FlatMachine
