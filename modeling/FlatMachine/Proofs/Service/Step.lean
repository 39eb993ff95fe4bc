import FlatMachine.Service.Step
import FlatMachine.Proofs.Service.Invoking

/-! # Where processing goes

* **`Engine.goes_apply`**, **`Engine.goes_process`**: taking a transition and processing an item
  are work of the service's drain, from one state to a state, which is defined if the first one
  was.
* **`Engine.goes_publish`**: a publication leaves a snapshot that is current.
* **`Engine.goes_processPending`**: items are taken one after the other; what one of them changed
  is published before the next is taken. -/

namespace FlatMachine

/-- A transition of a covered state has a guard that can be called. -/
theorem World.At.sanctionsGuard {w : World} {i : Nat} {m : Machine} {name v : Value} {vacant : Prop}
    (h : w.At i m name vacant) (hv : m.Covers name → m.Admits v) :
    w.SanctionsGuard (.service i) v := by
  intro t ht hn
  refine h.sanctions fun hc => ?_
  obtain ⟨t', rfl, takes⟩ := hv hc
  cases ht
  rcases takes.guard with hnull | hcall
  · rw [hn] at hnull
    cases hnull
  · exact hcall

namespace Engine

open Run

variable {g : Engine} {sc : Scope} {i : Nat} {m : Machine} {name : Value} {vacant : Prop}

theorem goes_node_at : (node i).Goes sc (World.At i m name vacant) fun n w =>
    World.At i m name vacant w ∧ m.node name = .ok n := by
  refine goes_node.post fun n w ⟨hw, s, hs, hn⟩ => ⟨hw, ?_⟩
  obtain ⟨s', hs', -, rfl, rfl, -⟩ := hw.service
  cases hs.symm.trans hs'
  exact hn

theorem goes_service_at : (service i).Goes sc (World.At i m name vacant) fun s w =>
    World.At i m name vacant w ∧ s.machine = m ∧ s.stateName = name := by
  refine Goes.service.post fun s w ⟨hw, hs⟩ => ⟨hw, ?_⟩
  obtain ⟨s', hs', -, hm, hn, -⟩ := hw.service
  cases hs.symm.trans hs'
  exact ⟨hm, hn⟩

/-- A target that is demanded is defined, since the candidates of a covered state have such
targets. -/
theorem goes_demand {target : Value} (hc : m.Covers name → m.defines target = .ok true) :
    (lookUp i (m.demand target)).Goes sc (World.At i m name vacant) fun _ w =>
      World.At i m name vacant w ∧ m.defines target = .ok true := by
  intro w hw
  cases hd : m.demand target with
  | ok u =>
    refine ⟨.refl sc w, fun _ _ => ⟨hw, ?_⟩⟩
    unfold Machine.demand at hd
    cases hdef : m.defines target with
    | error f => rw [hdef] at hd; cases hd
    | ok defined =>
      cases defined with
      | true => rfl
      | false => rw [hdef] at hd; cases hd
  | error f =>
    obtain ⟨s, hs, -, rfl, rfl, -⟩ := hw.service
    have uncovered : ¬ s.machine.Covers s.stateName := fun h => by
      unfold Machine.demand at hd
      rw [hc h] at hd
      cases hd
    have step : Step .free w ((w.change i id).noted (.faulted i f)) :=
      .wrote hs (.fault f uncovered)
    rw [World.change_id hs rfl] at step
    exact ⟨.free step, nofun⟩

theorem goes_observeService (hg : g.Tame) {P : World → Prop} (hP : Firm P) {moment : Moment}
    {args : List Object} :
    (g.observeService i moment args).Goes sc P fun _ => P :=
  .peek fun _ => goes_observe hg hP

/-! ### Transitions -/

theorem goes_commit (c : Context) :
    (commit i c).Goes (.item i) (World.At i m name vacant) fun _ => World.At i m name vacant := by
  intro w hw
  obtain ⟨s, hs, hb, hm, hn, hv⟩ := hw.service
  have step : Step (.work i) w (w.change i fun s => { s with context := c }) :=
    .changed hs (.commit c hb)
  exact ⟨.work step, fun _ _ =>
    ⟨step.sane hw.sane, _, World.change_self _ hs, ⟨hb.draining, hb.started⟩, hm, hn, hv⟩⟩

theorem goes_act (hg : g.Tame) {actions : Value} {e : Event}
    (hf : m.Covers name → ∀ fs, actions.items = .ok fs → ∀ f ∈ fs, f.isCallable = true) :
    (g.act i actions e).Goes (.item i) (World.At i m name vacant) fun _ =>
      World.At i m name vacant := by
  unfold act
  refine .peek fun s => .bind ?_ fun c => goes_commit c
  exact goes_runActionsOf hg .ofAt fun w hw fs hfs f hmem =>
    hw.sanctions fun hc => hf hc fs hfs f hmem

theorem goes_enter (hg : g.Tame) {e : Event} :
    (g.enter i e).Goes (.item i) (World.At i m name True) fun _ => World.At i m name False := by
  unfold enter
  refine .learn goes_node_at fun n hn => .learn .member fun actions hactions => ?_
  refine .bind (goes_act hg fun hc fs hfs => hc.entry hn hactions hfs) fun _ => ?_
  refine .peek fun s => .bind (goes_observeService hg .ofAt) fun _ => ?_
  refine .learn .member fun invocation hi => ?_
  refine .ite (fun hpresent => ?_) fun _ => .pure fun _ h => h.weaken
  refine .learn .member fun auto _ => .ite (fun _ => ?_) fun _ => .pure fun _ h => h.weaken
  exact goes_startInvocation hg hn hi (by simpa using hpresent)

theorem goes_exit (hg : g.Tame) {e : Event} :
    (g.exit i e).Goes (.item i) (World.At i m name vacant) fun _ => World.At i m name True := by
  unfold exit
  refine .learn goes_node_at fun n hn => .learn .member fun actions hactions => ?_
  refine .bind (goes_act hg fun hc fs hfs => hc.exit hn hactions hfs) fun _ => ?_
  refine .learn goes_service_at fun s hs => .bind (goes_observeService hg .ofAt) fun _ => ?_
  rw [hs.2]
  exact goes_abandon hg

/-- The state is moved where the slot is empty, to a target that is defined. -/
theorem goes_moved {α : Type} {target : Value} {k : Run α} {Q : α → World → Prop}
    (hd : m.defines target = .ok true) (hk : k.Goes (.item i) (World.At i m target True) Q) :
    (do update i fun s => { s with stateName := target }; note (.moved i name target); k).Goes
      (.item i) (World.At i m name True) Q := by
  intro w hw
  obtain ⟨s, hs, hb, rfl, rfl, hv⟩ := hw.service
  have step : Step (.work i) w ((w.change i fun s => { s with stateName := target }).noted
      (.moved i s.stateName target)) := .wrote hs (.move hb (hv trivial) hd)
  obtain ⟨hp, hq⟩ :=
    hk _ ⟨step.sane hw.sane, _, World.change_self _ hs, ⟨hb.draining, hb.started⟩, rfl, rfl, hv⟩
  exact ⟨.trans (.work step) hp, hq⟩

theorem goes_move (hg : g.Tame) {target : Value} {e : Event} (hd : m.defines target = .ok true) :
    (g.move i name target e).Goes (.item i) (World.At i m name True) fun _ =>
      World.At i m target False := by
  unfold move
  refine goes_moved hd (.peek fun s => .bind (.record .ofAt) fun _ => ?_)
  exact .bind (goes_observeService hg .ofAt) fun _ => goes_enter hg

theorem goes_apply (hg : g.Tame) {candidate : Value} {e seen : Event}
    (hc : m.Covers name → m.Admits candidate) :
    (g.apply i candidate e seen).Goes (.item i) (World.At i m name False) fun _ =>
      World.Somewhere i m := by
  unfold apply
  refine .learn goes_service_at fun s hs => ?_
  obtain ⟨rfl, rfl⟩ := hs
  refine .learn (goes_internality hg .ofAt) fun internal hi => ?_
  refine .ite (fun _ => ?_) fun hext => ?_
  · refine .learn .member fun actions ha => ?_
    exact (goes_act hg fun hcov fs hfs => (hc hcov).actions ha hfs).post fun _ w h => ⟨_, h⟩
  · have external :
        ∀ t, Transition.ofValue? candidate = some t → t.isInternal s.stateName = false := by
      intro t h
      rw [hi t h] at hext
      simpa [Value.truth] using hext
    refine .learn .member fun target ht => ?_
    refine .learn (goes_demand fun hcov => (hc hcov).target external ht) fun _ hd => ?_
    refine .bind (goes_exit hg) fun _ => ?_
    refine .learn .member fun actions ha => ?_
    refine .bind (goes_act hg fun hcov fs hfs => (hc hcov).actions ha hfs) fun _ => ?_
    exact (goes_move hg hd).post fun _ w h => ⟨_, h⟩

/-! ### Items -/

theorem goes_processEvent (hg : g.Tame) {e : Event} :
    (g.processEvent i e).Goes (.item i) (World.At i m name False) fun _ => World.Somewhere i m := by
  unfold processEvent
  refine .learn goes_node_at fun n hn => ?_
  refine .learn (goes_candidatesFor hg .ofAt) fun candidates hcs => ?_
  have admits : m.Covers name → ∀ v ∈ candidates, m.Admits v := by
    intro hcov
    obtain ⟨node, hnode, equips⟩ := hcov.node
    cases hnode.symm.trans hn
    rw [hcs node rfl]
    exact equips.on e.type
  refine .peek fun s => ?_
  have sanctioned :
      ∀ w, World.At i m name False w → ∀ v ∈ candidates, w.SanctionsGuard (.service i) v :=
    fun w hw v hv => hw.sanctionsGuard fun hcov => admits hcov v hv
  refine .learn (goes_resolve hg .ofAt sanctioned) fun found hfound => ?_
  split
  · exact goes_apply hg fun hcov => admits hcov _ (hfound _ rfl)
  · refine .peek fun s => ?_
    exact (Goes.record .ofAt).post fun _ w h => ⟨_, h⟩

theorem goes_settleWanted (hg : g.Tame) {o : Outcome} :
    (g.settleWanted i o).Goes (.item i) (World.At i m name False) fun _ => World.Somewhere i m := by
  unfold settleWanted
  refine .learn goes_node_at fun n hn => ?_
  refine .learn .member fun invocation hi => ?_
  refine .learn .member fun candidates hcs => ?_
  refine .learn .ofExcept fun seen _ => ?_
  refine .learn .ofExcept fun vs hvs => ?_
  have admits : m.Covers name → ∀ v ∈ vs, m.Admits v := by
    intro hcov
    have present : invocation.isNull = false := by
      cases invocation with
      | null => cases hcs
      | _ => rfl
    obtain ⟨ready, rfl, starts⟩ := hcov.invoke hn hi present
    cases hfailed : o.failed with
    | true =>
      rw [hfailed] at hcs
      cases hcs
      cases hvs
      exact starts.onError
    | false =>
      rw [hfailed] at hcs
      cases hcs
      cases hvs
      exact starts.onDone
  refine .peek fun s => ?_
  have sanctioned : ∀ w, World.At i m name False w → ∀ v ∈ vs, w.SanctionsGuard (.service i) v :=
    fun w hw v hv => hw.sanctionsGuard fun hcov => admits hcov v hv
  refine .learn (goes_resolve hg .ofAt sanctioned) fun found hfound => ?_
  split
  · exact goes_apply hg fun hcov => admits hcov _ (hfound _ rfl)
  · refine .ite (fun _ => ?_) fun _ => .pure fun w h => ⟨_, h⟩
    refine .peek fun s => .bind (.record .ofAt) fun _ => ?_
    exact (goes_observeService hg .ofAt).post fun _ w h => ⟨_, h⟩

/-- An outcome retires its token as soon as it is taken. -/
theorem goes_settle (hg : g.Tame) {o : Outcome} : (g.settle i o).Goes (.item i)
    (fun w => World.At i m name False w ∧ w.journal.head? = some (.taken i (.outcome o))) fun _ =>
      World.Somewhere i m := by
  unfold settle
  refine .bind (goes_retire.pre fun w hw => ⟨hw.1, Or.inr ⟨o, rfl, hw.2⟩⟩) fun active =>
    .ite (fun _ => ?_) fun _ => ?_
  · exact .ite (fun _ => goes_settleWanted hg) fun _ => .pure fun w h => ⟨_, h⟩
  · refine .peek fun s => ?_
    exact (Goes.record .ofAt).post fun _ w h => ⟨_, h⟩

theorem goes_process (hg : g.Tame) (item : Item) : (g.process i item).Goes (.item i)
    (fun w => World.At i m name False w ∧ w.journal.head? = some (.taken i item)) fun _ =>
      World.Somewhere i m := by
  cases item with
  | event e => exact (goes_processEvent hg).pre fun _ hw => hw.1
  | outcome o => exact goes_settle hg

/-! ### Publications -/

theorem tame_notify (hg : g.Tame) {sn : Snapshot} {listener : Listener} :
    (g.notify i sn listener).Tame := by
  unfold notify
  split
  · exact .discard (goes_invoke hg .ofSane rfl fun _ _ => .ofUnvetted rfl)
  · exact .noted .ofSane fun _ _ => .report rfl

/-- What is published is what the service shows now. -/
theorem goes_published {α : Type} {sn : Snapshot} {k : Run α} {Q : α → World → Prop}
    (hk : k.Goes (.round i) (World.Rests i) Q) :
    (do update i fun s => { s with snapshot := sn }; note (.published i sn); k).Goes (.round i)
      (fun w => World.Drains i w ∧ ∃ s : Service, w.services[i]? = some s ∧
        sn.stateName = s.stateName ∧ sn.context = s.context ∧ sn.changed = true ∧
        s.machine.tags s.stateName = Except.ok sn.tags) Q := by
  rintro w ⟨hw, s, hs, hname, hcontext, hchanged, htags⟩
  obtain ⟨s', hs', hb⟩ := hw.busy
  cases hs.symm.trans hs'
  have step : Step (.view i) w
      ((w.change i fun s => { s with snapshot := sn }).noted (.published i sn)) :=
    .wrote hs (.publish hb hname hcontext hchanged htags)
  have current : Service.Current { s with snapshot := sn } := by
    refine ⟨?_, congrArg Context.stamp hcontext.symm, ?_⟩
    · show s.stateName.Alike sn.stateName
      rw [hname]
      exact .refl _
    · show s.machine.tags sn.stateName = Except.ok sn.tags
      rw [hname]
      exact htags
  obtain ⟨hp, hq⟩ :=
    hk _ ⟨step.sane hw.sane, _, World.change_self _ hs, ⟨hb.draining, hb.started⟩, fun _ =>
      ⟨⟨_, List.mem_cons_self, Or.inl ⟨sn, rfl⟩⟩, Or.inl current⟩⟩
  exact ⟨.trans (.publish step) hp, hq⟩

theorem goes_publish (hg : g.Tame) :
    (g.publish i).Goes (.round i) (World.Drains i) fun _ => World.Rests i := by
  unfold publish
  refine .bind (goes_currentSnapshot true fun _ _ => Firm.ofDrains.supplied) fun sn => ?_
  refine goes_published (.peek fun s => ?_)
  exact .forM fun listener _ => .frame .ofRests (tame_notify hg)

/-! ### Drains -/

end Engine

namespace World

variable {w w' : World} {i : Nat} {s after : Service} {item : Item}

/-- An item of the service is off its queue. -/
def taken (w : World) (i : Nat) (item : Item) : World :=
  (w.change i fun s => { s with queue := s.queue.dequeue.2 }).noted (.taken i item)

theorem taken_self (item : Item) (hs : w.services[i]? = some s) :
    (w.taken i item).services[i]? = some { s with queue := s.queue.dequeue.2 } :=
  change_self _ hs

/-- The drain of a running service is about to take an item. -/
structure Next (w : World) (i : Nat) (s : Service) (item : Item) : Prop where
  sane : w.Sane
  service : w.services[i]? = some s
  busy : s.Busy
  running : s.status = .running
  settled : s.Settled i w.points
  items : ∃ rest, s.queue.items = item :: rest

theorem Rests.next (hw : w.Rests i) (hs : w.services[i]? = some s) (running : s.status = .running)
    {rest : List Item} (items : s.queue.items = item :: rest) : w.Next i s item := by
  obtain ⟨s', hs', busy, settled⟩ := hw.service
  cases hs.symm.trans hs'
  exact ⟨hw.sane, hs, busy, running, settled running, rest, items⟩

namespace Next

theorem turn (h : w.Next i s item) :
    Turn i w s (.take i) { s with queue := s.queue.dequeue.2 } [.taken i item] := by
  obtain ⟨rest, items⟩ := h.items
  exact .take h.busy h.running h.settled items

theorem step (h : w.Next i s item) : Step (.take i) w (w.taken i item) := .wrote h.service h.turn

theorem busy_taken (h : w.Next i s item) : Service.Busy { s with queue := s.queue.dequeue.2 } :=
  h.turn.busy nofun h.busy

theorem at_taken (h : w.Next i s item) : At i s.machine s.stateName False (w.taken i item) where
  sane := h.step.sane h.sane
  service := ⟨_, taken_self item h.service, h.busy_taken, rfl, rfl, False.elim⟩

/-- After an item that changes nothing of what a snapshot shows, the one of before is as settled
as it was. -/
theorem settled_after (h : w.Next i s item) (hp : Path (.item i) (w.taken i item) w')
    (hafter : w'.services[i]? = some after) (hname : after.stateName.same s.stateName = true)
    (hstamp : after.context.stamp = s.context.stamp) : after.Settled i w'.points := by
  obtain ⟨s₁, hs₁, hm, hsn⟩ := hp.snapshot (taken_self item h.service) h.busy_taken
  cases hs₁.symm.trans hafter
  have earlier := (h.step.points.trans hp.points).subset
  exact h.settled.mono earlier ⟨hm.symm, hsn.symm, .symm _ _ (.rel _ _ hname), hstamp.symm⟩

end Next

end World

/-! ### Points at which an item is taken -/

theorem Turn.eq_of_taken {i j : Nat} {w : World} {s s' : Service} {l : Label} {entries : List Entry}
    {item : Item} (h : Turn j w s l s' entries) (he : .taken i item ∈ entries) :
    i = j ∧ l = .take i ∧ entries = [.taken i item] := by
  cases h with
  | take =>
    cases List.mem_singleton.mp he
    exact ⟨rfl, rfl, rfl⟩
  | stop => exact absurd rfl (Slot.driver_of_farewell he)
  | attach _ present => rcases Slot.mem_welcome present he with h | h <;> cases h
  | _ => first | cases List.mem_singleton.mp he | cases he

/-- An item is taken as the next one of a drain, and nothing else is done by that step. -/
theorem Step.of_taken {l : Label} {w w' : World} (h : Step l w w') (hw : w.Sane) {p : Point}
    {earlier : List Point} (hp : p :: earlier <:+ w'.points) {i : Nat} {item : Item}
    (head : p.journal.head? = some (.taken i item)) :
    p :: earlier <:+ w.points ∨ ∃ s, w.Next i s item ∧ p = (w.taken i item).now ∧
    earlier = w.points := by
  cases h with
  | aside _ _ points => exact Or.inl (points ▸ hp)
  | create => exact Or.inl hp
  | report report =>
    rcases List.suffix_cons_iff.mp hp with hc | hp
    · cases hc
      cases head
      cases report
    · exact Or.inl hp
  | call =>
    rcases List.suffix_cons_iff.mp hp with hc | hp
    · cases hc
      cases head
    · exact Or.inl hp
  | enter _ opening =>
    rcases List.suffix_cons_iff.mp hp with hc | hp
    · cases hc
      cases head
    · rcases List.suffix_cons_iff.mp hp with hc | hp
      · cases hc
        cases head
        cases opening.driver
      · exact Or.inl hp
  | cancel _ cause =>
    rcases World.turned_points_suffix _ _ _ _ hp with hp | ⟨-, -, later, e, es, he, hpj⟩
    · rcases List.suffix_cons_iff.mp hp with hc | hp
      · cases hc
        cases head
        cases cause
      · exact Or.inl hp
    · rw [hpj] at head
      cases head
      exact absurd rfl
        (Slot.driver_of_farewell (he ▸ List.mem_append_right later List.mem_cons_self))
  | @turn _ j s _ f entries service turn =>
    rcases World.turned_points_suffix _ _ _ _ hp with hp' | ⟨-, -, later, e, es, he, hpj⟩
    · exact Or.inl hp'
    · rw [hpj] at head
      cases head
      obtain ⟨rfl, rfl, rfl⟩ :=
        turn.eq_of_taken (he ▸ List.mem_append_right later List.mem_cons_self)
      generalize hs' : f s = s' at turn
      cases turn with
      | take busy running settled items =>
        have taken : w.turned i f [.taken i item] = w.taken i item := by
          unfold World.turned World.taken
          rw [World.change_congr (g := fun s => { s with queue := s.queue.dequeue.2 }) service hs']
          rfl
        rw [taken] at hp
        rcases List.suffix_cons_iff.mp hp with hc | hp
        · obtain ⟨rfl, rfl⟩ := List.cons.inj hc
          exact Or.inr ⟨s, ⟨hw, service, busy, running, settled, _, items⟩, rfl, rfl⟩
        · exact Or.inl hp

namespace Engine

open Run

variable {g : Engine} {i : Nat}

/-- What is left to do of an item once it is taken. -/
def processTaken (g : Engine) (i : Nat) (before : Service) (item : Item) : Run Bool := do
  g.process i item
  let after ← service i
  if after.status = .running then
    if !after.stateName.same before.stateName || after.context.stamp ≠
      before.context.stamp then g.publish i
    return true
  else return false

theorem run_processNext (before : Service) (item : Item) (w : World) :
    (g.processNext i before item).run w = (g.processTaken i before item).run (w.taken i item) := by
  unfold processNext processTaken
  rw [run_bind, run_update]
  dsimp only
  rw [run_bind, run_note]
  rfl

/-- What an item changed is published, or nothing is to be published; the service goes on if it
is still running. -/
theorem goes_processTaken (hg : g.Tame) {before : Service} {item : Item} :
    (g.processTaken i before item).Goes (.round i)
    (fun w' => ∃ w : World, w.Next i before item ∧ w' = w.taken i item)
      fun more w => World.Rests i w ∧
        (more = false → ∀ s, w.services[i]? = some s → s.status ≠ .running) := by
  refine .ofExists fun w => .given (fun _ h => h.1) fun next => ?_
  have start : ∀ w', (w.Next i before item ∧ w' = w.taken i item) →
      World.At i before.machine before.stateName False w' ∧
      w'.journal.head? = some (.taken i item) := by
    rintro _ ⟨-, rfl⟩
    exact ⟨next.at_taken, rfl⟩
  unfold processTaken
  refine .bind (((goes_process hg item).pre start).along.widen Path.ofItem) fun _ => ?_
  refine .bind .service fun after => .ite (fun _ => ?_) fun stopped => .pure fun w' h => ?_
  · refine .ite (fun _ => ?_) fun same => .pure fun w' h => ?_
    · refine .bind ((goes_publish hg).pre fun w' h => ?_) fun _ => .pure fun _ h => ⟨h, nofun⟩
      obtain ⟨⟨⟨name, h⟩, -⟩, -⟩ := h
      exact h.drains
    · obtain ⟨⟨⟨name, hat⟩, _, ⟨-, rfl⟩, hp⟩, hafter⟩ := h
      obtain ⟨_, hs₁, hb₁, -⟩ := hat.service
      cases hs₁.symm.trans hafter
      have same : after.stateName.same before.stateName = true ∧
          after.context.stamp = before.context.stamp := by
        simpa using same
      exact ⟨⟨hat.sane, after, hafter, hb₁, fun _ => next.settled_after hp hafter same.1 same.2⟩,
        nofun⟩
  · obtain ⟨⟨⟨name, hat⟩, -⟩, hafter⟩ := h
    obtain ⟨_, hs₁, hb₁, -⟩ := hat.service
    cases hs₁.symm.trans hafter
    refine ⟨⟨hat.sane, after, hafter, hb₁, fun hr => absurd hr stopped⟩, fun _ s hs => ?_⟩
    cases hs.symm.trans hafter
    exact stopped

theorem goes_processNext (hg : g.Tame) {s : Service} {item : Item} {rest : List Item}
    (running : s.status = .running) (items : s.queue.items = item :: rest) :
    (g.processNext i s item).Goes (.drain i)
      (fun w => World.Rests i w ∧ w.services[i]? = some s) fun more w =>
        World.Rests i w ∧ (more = false → ∀ s, w.services[i]? = some s → s.status ≠ .running) := by
  rintro w ⟨hw, hs⟩
  have next := hw.next hs running items
  rw [run_processNext]
  obtain ⟨hp, hq⟩ := goes_processTaken hg _ ⟨w, next, rfl⟩
  exact ⟨.trans (.take next.step) (hp.widen .ofRound), hq⟩

/-- When no item is left to be processed, none waits, or the service was stopped. -/
theorem goes_processPending (hg : g.Tame) (fuel : Nat) :
    (g.processPending i fuel).Goes (.drain i) (World.Rests i) fun _ => World.Finished i := by
  induction fuel with
  | zero => exact .throw _
  | succ fuel ih =>
    unfold processPending
    refine .bind .service fun s => ?_
    split
    · rename_i items
      refine .pure fun w ⟨hw, hs⟩ => ⟨hw, fun s' hs' _ => ?_⟩
      cases hs.symm.trans hs'
      exact items
    · rename_i item rest items
      refine .ite (fun running => ?_) fun stopped => .pure fun w ⟨hw, hs⟩ =>
        ⟨hw, fun s' hs' running => ?_⟩
      · refine .bind (goes_processNext hg running items) fun more =>
          .ite (fun _ => ih.pre fun _ h => h.1) fun last => ?_
        refine .pure fun w ⟨hw, stopped⟩ => ⟨hw, fun s hs running => ?_⟩
        exact absurd running (stopped (by simpa using last) s hs)
      · cases hs.symm.trans hs'
        exact absurd running stopped

end Engine

end FlatMachine
