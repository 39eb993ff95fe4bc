import FlatMachine.Proofs.Service.OutcomeOrigin
import FlatMachine.Proofs.Service.Account
import FlatMachine.Proofs.Invocation.Cancel

/-! # What a service does springs from one event

A service takes an item on account of an event: the one that was sent, or the one on whose
account the invocation was started whose outcome is taken (**`impulse`**).  Sources, transition
hooks and entry actions are called with that event (**`Threaded`**), and with nothing that was
made of it for the candidates of an outcome.  As the outcome of an invocation comes in with the
event that its source was called with, all of them are called with the event that was sent at
first, however many states lie between (**`Springs`**). -/

namespace FlatMachine

/-! ### Journals -/

/-- The event on whose account an item is taken. -/
def Item.impulse : Item → Event
  | .event e => e
  | .outcome o => o.event

/-- The event on whose account the service does what it does next: that of the item it took last,
or the one it starts with. -/
def impulse (i : Nat) : List Entry → Event
  | [] => .init
  | .taken j item :: journal => if j = i then item.impulse else impulse i journal
  | _ :: journal => impulse i journal

/-- The service came to another state since it took an item, or took none yet.  So the actions
that it runs are those of entering a state. -/
def arriving (i : Nat) : List Entry → Bool
  | [] => true
  | .taken j _ :: journal => if j = i then false else arriving i journal
  | .moved j .. :: journal => if j = i then true else arriving i journal
  | _ :: journal => arriving i journal

/-- What is called next on entering a state, or of a transition hook, is called with the impulse;
a source is called right after its invocation became the active one. -/
def Entry.Heeds (i : Nat) (journal : List Entry) : Entry → Prop
  | .called (.service j) (.source t) _ args => j = i →
    (∃ c, args = [.held c, .fresh (impulse i journal).toValue, .fresh (.sourceAccess i t)]) ∧
      ∃ level text invocation before earlier, journal = .record level text ::
        .activated i t invocation before :: earlier
  | .called (.service j) .action _ args => j = i → arriving i journal = true →
    ∃ c, args = [.held c, .fresh (impulse i journal).toValue, .fresh (.actionAccess (.service i))]
  | .called (.service j) (.hook .transition) _ args => j = i →
    ∃ source target, args = [.fresh source, .fresh target, .fresh (impulse i journal).toValue]
  | _ => True

/-- Whatever the journal tells of, sources, transition hooks and entry actions were called with the
event on whose account the service worked. -/
def Threaded (i : Nat) : List Entry → Prop
  | [] => True
  | e :: journal => e.Heeds i journal ∧ Threaded i journal

/-- What the service does next springs from the event: it took it last, or the invocation whose
outcome it took last was started by what sprang from it; before it took anything, from the event
that services start with. -/
inductive Springs (i : Nat) : List Entry → Event → Prop where
  | init : Springs i [] .init
  | event {e : Event} {journal : List Entry} : Springs i (.taken i (.event e) :: journal) e
  | outcome {o : Outcome} {later journal : List Entry} {invocation : Value} {before : Slot}
      {e : Event} (springs : Springs i journal e) :
      Springs i (.taken i (.outcome o) ::
        (later ++ .activated i o.token invocation before :: journal)) e
  | other {x : Entry} {journal : List Entry} {e : Event} (untaken : ∀ item, x ≠ .taken i item)
      (springs : Springs i journal e) :
      Springs i (x :: journal) e

section Journals

variable {i : Nat} {x : Entry} {later journal : List Entry} {e : Event}

theorem impulse_cons (untaken : ∀ item, x ≠ .taken i item) :
    impulse i (x :: journal) = impulse i journal := by
  cases x with
  | taken j item =>
    refine if_neg ?_
    rintro rfl
    exact untaken item rfl
  | _ => rfl

theorem impulse_taken (item : Item) : impulse i (.taken i item :: journal) = item.impulse :=
  if_pos rfl

theorem arriving_cons (untaken : ∀ item, x ≠ .taken i item)
    (unmoved : ∀ source target, x ≠ .moved i source target) :
    arriving i (x :: journal) = arriving i journal := by
  cases x with
  | taken j item =>
    refine if_neg ?_
    rintro rfl
    exact untaken item rfl
  | moved j source target =>
    refine if_neg ?_
    rintro rfl
    exact unmoved source target rfl
  | _ => rfl

theorem arriving_taken (item : Item) : arriving i (.taken i item :: journal) = false := if_pos rfl

/-- What is no deed of the service does not matter. -/
theorem Entry.heeds_of_other (h : x.deed? ≠ some i) : x.Heeds i journal := by
  have other {j : Nat} {role : Role} {f : Value} {args : List Object} (own : role.isOwn = true)
      (h : (Entry.called (.service j) role f args).deed? ≠ some i) : j ≠ i := fun same =>
    h (Entry.deed?_called.mpr ⟨congrArg Owner.service same, own⟩)
  unfold Entry.Heeds
  split
  · exact fun same => absurd same (other rfl h)
  · exact fun same => absurd same (other rfl h)
  · exact fun same => absurd same (other rfl h)
  · trivial

theorem impulse_append (h : ∀ x ∈ later, x.deed? ≠ some i) :
    impulse i (later ++ journal) = impulse i journal := by
  induction later with
  | nil => rfl
  | cons x rest ih =>
    obtain ⟨here, others⟩ := List.forall_mem_cons.mp h
    exact (impulse_cons (i := i) fun item same => here (congrArg Entry.deed? same)).trans
      (ih others)

theorem arriving_append (h : ∀ x ∈ later, x.deed? ≠ some i) :
    arriving i (later ++ journal) = arriving i journal := by
  induction later with
  | nil => rfl
  | cons x rest ih =>
    obtain ⟨here, others⟩ := List.forall_mem_cons.mp h
    exact (arriving_cons (i := i) (fun item same => here (congrArg Entry.deed? same))
      fun source target same => here (congrArg Entry.deed? same)).trans (ih others)

theorem Threaded.append (threaded : Threaded i journal) (h : ∀ x ∈ later, x.deed? ≠ some i) :
    Threaded i (later ++ journal) := by
  induction later with
  | nil => exact threaded
  | cons x rest ih =>
    obtain ⟨here, others⟩ := List.forall_mem_cons.mp h
    exact ⟨Entry.heeds_of_other here, ih others⟩

theorem Threaded.suffix (h : Threaded i journal) {earlier : List Entry}
    (suffix : earlier <:+ journal) : Threaded i earlier := by
  obtain ⟨later, rfl⟩ := suffix
  induction later with
  | nil => exact h
  | cons x rest ih => exact ih h.2

theorem Silent.threaded {points : List Point} (h : Silent i journal points) :
    Threaded i journal := by
  have threaded : Threaded i (journal ++ []) := Threaded.append trivial h.journal
  rwa [List.append_nil] at threaded

theorem Silent.impulse {points : List Point} (h : Silent i journal points) :
    impulse i journal = .init := by
  have same : FlatMachine.impulse i (journal ++ []) = .init := impulse_append h.journal
  rwa [List.append_nil] at same

end Journals

/-! ### While the service is drained -/

namespace World

open Run Engine

/-- The service is drained on account of an event, and what it called was called so.  It may be
said that it did not come to another state yet. -/
structure Heeding (i : Nat) (e : Event) (there : Bool) (w : World) : Prop where
  busy : w.Busy i
  impulse : impulse i w.journal = e
  still : there = false → arriving i w.journal = false
  threaded : Threaded i w.journal

namespace Heeding

variable {i : Nat} {e : Event} {there : Bool} {w : World}

theorem anyway (h : w.Heeding i e there) : w.Heeding i e true := { h with still := nofun }

theorem noted (h : w.Heeding i e there) {x : Entry} (untaken : ∀ item, x ≠ .taken i item)
    (unmoved : ∀ source target, x ≠ .moved i source target) (heeds : x.Heeds i w.journal) :
    (w.noted x).Heeding i e there where
  busy := h.busy
  impulse := (impulse_cons untaken).trans h.impulse
  still := fun held => (arriving_cons untaken unmoved).trans (h.still held)
  threaded := ⟨heeds, h.threaded⟩

/-- The service comes to another state. -/
theorem moved (h : w.Heeding i e there) (source target : Value) :
    (w.noted (.moved i source target)).Heeding i e true where
  busy := h.busy
  impulse := (impulse_cons (x := .moved i source target) nofun).trans h.impulse
  still := nofun
  threaded := ⟨trivial, h.threaded⟩

/-- The service takes an item. -/
theorem taken (h : w.Heeding i e there) (item : Item) :
    (w.taken i item).Heeding i item.impulse false where
  busy := by
    obtain ⟨s, hs, busy⟩ := h.busy
    exact ⟨_, taken_self item hs, busy.alike rfl (Queue.draining_dequeue _)⟩
  impulse := impulse_taken item
  still := fun _ => arriving_taken item
  threaded := ⟨trivial, h.threaded⟩

theorem changed (h : w.Heeding i e there) {f : Service → Service}
    (hf : ∀ s : Service, (f s).status = s.status ∧ (f s).queue.draining = s.queue.draining) :
    (w.change i f).Heeding i e there := by
  obtain ⟨s, hs, busy⟩ := h.busy
  exact ⟨⟨f s, change_self f hs, busy.alike (hf s).1 (hf s).2⟩, h.impulse, h.still, h.threaded⟩

theorem steady (i : Nat) (e : Event) (there : Bool) : Steady i (Heeding i e there) where
  busy := Heeding.busy
  spared := by
    intro w w' spares h
    obtain ⟨later, journal, others⟩ := spares.journal
    refine ⟨spares.busy h.busy, ?_, fun held => ?_, ?_⟩
    · rw [journal, impulse_append others]
      exact h.impulse
    · rw [journal, arriving_append others]
      exact h.still held
    · rw [journal]
      exact h.threaded.append others

variable {g : Engine}

theorem quiet (hg : g.Sparing) : g.Quiet i (Heeding i e there) where
  aside := ((steady i e there).free hg).aside
  noted := fun {w x} hx h => by
    have heeds : x.Heeds i w.journal := by
      cases hx with
      | free free => cases free <;> trivial
      | _ => trivial
    cases hx with
    | free free => cases free <;> exact h.noted nofun nofun heeds
    | _ => exact h.noted nofun nofun heeds
  changed := fun hf h => h.changed fun s => by
    obtain ⟨_, _, eq⟩ := hf s
    rw [eq]
    exact ⟨rfl, rfl⟩
  calls := (steady i e there).sustained hg

theorem context (c : Context) (h : w.Heeding i e there) :
    (w.change i fun s => { s with context := c }).Heeding i e there :=
  h.changed fun _ => ⟨rfl, rfl⟩

/-- Actions are run on account of the event. -/
theorem act (hg : g.Sparing) (actions : Value) :
    Respects (Heeding i e there) (g.act i actions e) := by
  refine Engine.act_of_noted (fun {w f c} h => h.noted nofun nofun fun _ _ => ⟨c, ?_⟩)
    (quiet hg).calls context actions
  rw [h.impulse]

/-- A candidate's own actions may be run with another event than the one that the item is processed
on account of. -/
theorem ownAct (hg : g.Sparing) (actions : Value) (seen : Event) :
    Respects (Heeding i e false) (g.act i actions seen) :=
  Engine.act_of_noted (fun h => h.noted nofun nofun fun _ arriving =>
    nomatch (h.still rfl).symm.trans arriving) (quiet hg).calls context actions

theorem observeService (hg : g.Sparing) {m : Moment} {args : List Object}
    (about : m = .transition → ∃ source target,
      args = [.fresh source, .fresh target, .fresh e.toValue]) :
    Respects (Heeding i e there) (g.observeService i m args) := by
  refine (quiet hg).observeService fun {w f} h => h.noted nofun nofun ?_
  cases m with
  | transition =>
    intro _
    rw [h.impulse]
    exact about rfl
  | _ => trivial

/-- The source is called right after its invocation became the active one. -/
theorem callSource (hg : g.Sparing) (src : Value) (t : Token) :
    Meets (fun w => w.Heeding i e there ∧ ∃ level text invocation before earlier,
      w.journal = .record level text :: .activated i t invocation before :: earlier)
      (g.callSource i src e t) (fun _ => Heeding i e there) (Heeding i e there) := by
  have called (c : Context) :
      Meets (fun w => w.Heeding i e there ∧ ∃ level text invocation before earlier,
        w.journal = .record level text :: .activated i t invocation before :: earlier) (do
        return (← g.invoke (.service i) (.source t) src
          [.held c, .fresh e.toValue, .fresh (.sourceAccess i t)]).value)
        (fun _ => Heeding i e there) (Heeding i e there) := by
    refine .bind (.bind (Q := fun _ => Heeding i e there) (.note fun w hw => ?_) fun _ =>
      .bind ((quiet hg).calls _ _ _ _).meets fun _ =>
      .pure fun _ => id) fun _ => .pure fun _ => id
    refine hw.1.noted nofun nofun fun _ => ⟨⟨c, ?_⟩, hw.2⟩
    rw [hw.1.impulse]
  unfold Engine.callSource
  split
  · refine .bind (Q := fun _ w => w.Heeding i e there ∧ ∃ level text invocation before earlier,
      w.journal = .record level text :: .activated i t invocation before :: earlier)
        (.modify fun w hw => ⟨?_, hw.2⟩) fun _ => ?_
    · exact (quiet hg).aside (w := w)
        (.plain rfl rfl rfl (Nat.le_refl _) rfl rfl List.prefix_rfl) hw.1
    · exact .bind (.service (fun _ _ hw _ => hw) fun _ => And.left) fun s => called s.context
  · exact .bind (.service (fun _ _ hw _ => hw) fun _ => And.left) fun s => called s.context

theorem startInvocation (hg : g.Sparing) (invocation : Value) :
    Respects (Heeding i e there) (g.startInvocation i invocation e) := by
  have quiet : g.Quiet i (Heeding i e there) := quiet hg
  refine .bind quiet.free.mint fun n => ?_
  refine Meets.bind (Q := fun _ w => w.Heeding i e there ∧
      ∃ before earlier, w.journal = .activated i (Int.ofNat n) invocation before :: earlier)
    (.bind (.service (Q := fun _ => Heeding i e there) (fun _ _ hw _ => hw) fun _ => id) fun s =>
      ?_) fun _ => ?_
  · refine .bind (Q := fun _ => Heeding i e there)
      (.update fun w hw => hw.changed fun _ => ⟨rfl, rfl⟩) fun _ => .note fun w hw => ?_
    exact ⟨hw.noted nofun nofun trivial, _, _, rfl⟩
  · refine .bind (.service (fun _ _ hw _ => hw) fun _ => And.left) fun s => ?_
    refine .bind (Q := fun _ w => w.Heeding i e there ∧ ∃ level text invocation before earlier,
      w.journal = .record level text :: .activated i (Int.ofNat n) invocation before :: earlier)
        (.note fun w hw => ?_) fun _ => ?_
    · obtain ⟨hw, before, earlier, journal⟩ := hw
      exact ⟨hw.noted nofun nofun trivial, _, _, invocation, before, earlier, congrArg _ journal⟩
    · refine .bind (Q := fun _ => Heeding i e there)
        (.rescue (F := Heeding i e there) ?_ (fun f => ?_) fun _ => id) fun (a, cancel) => ?_
      · refine .bind (.member (fun _ _ _ hw => hw) fun _ => And.left) fun src =>
          .bind (callSource hg src _) fun result => ?_
        exact Respects.meets
          (.bind .ofExcept fun (a, cancel) => .bind (quiet.free.schedule a) fun _ => .pure)
      · exact Respects.meets (.bind (.discard (quiet.retire _)) fun _ => .fail)
      · refine Respects.meets (.bind (quiet.attach _ cancel) fun callback =>
          .bind (quiet.free.callCancel? _ callback) fun failure => ?_)
        exact .bind (quiet.free.reportCancelFailure? _ failure) fun _ => quiet.free.whenSettled a _

theorem enter (hg : g.Sparing) : Respects (Heeding i e there) (g.enter i e) := by
  refine .bind (quiet hg).free.node fun n => .bind .member fun actions =>
    .bind (act hg actions) fun _ => ?_
  refine .peek fun s => .bind (observeService hg nofun) fun _ =>
    .bind .member fun invocation => .ite (fun _ => ?_) fun _ => .pure
  exact .bind .member fun auto => .ite (fun _ => startInvocation hg invocation) fun _ => .pure

theorem exit (hg : g.Sparing) : Respects (Heeding i e there) (g.exit i e) := by
  refine .bind (quiet hg).free.node fun n => .bind .member fun actions =>
    .bind (act hg actions) fun _ => ?_
  refine .peek fun s => .bind (observeService hg nofun) fun _ => ?_
  exact .bind (fun w hw => hw.noted nofun nofun trivial) fun _ => (quiet hg).free.cancelInvocation

theorem move (hg : g.Sparing) (source target : Value) :
    Meets (Heeding i e there) (g.move i source target e)
    (fun _ => Heeding i e true) (Heeding i e true) := by
  refine .bind (Q := fun _ => Heeding i e there)
    (.update fun w hw => hw.changed fun _ => ⟨rfl, rfl⟩) fun _ => ?_
  refine .bind (Q := fun _ => Heeding i e true) (.note fun w hw => hw.moved source target)
    fun _ => ?_
  refine Respects.meets (.peek fun s => .bind (quiet hg).free.record fun _ =>
    .bind (observeService hg fun _ => ⟨_, _, rfl⟩) fun _ => ?_)
  exact enter hg

/-- The candidate's own actions are run before the service comes to another state. -/
theorem apply (hg : g.Sparing) (v : Value) (seen : Event) :
    Meets (Heeding i e false) (g.apply i v e seen)
    (fun _ => Heeding i e true) (Heeding i e true) := by
  have lax {α : Type} {x : Run α} (hx : Respects (Heeding i e false) x) :
      Meets (Heeding i e false) x (fun _ => Heeding i e false) (Heeding i e true) :=
    hx.meets.conseq (fun _ => id) (fun _ _ => id) fun _ => anyway
  refine .bind (lax .service) fun s => .bind (lax ((quiet hg).internality _ _)) fun internal =>
    .ite (fun _ => ?_) fun _ => ?_
  · exact (lax (.bind .member fun actions => ownAct hg actions seen)).post fun _ _ => anyway
  · refine .bind (lax .member) fun target => .bind (lax (quiet hg).free.lookUp) fun _ =>
      .bind (lax (exit hg)) fun _ => ?_
    exact .bind (lax .member) fun actions => .bind (lax (ownAct hg actions seen)) fun _ =>
      move hg _ target

/-- Whatever the item, it is processed on account of its event. -/
theorem process (hg : g.Sparing) (item : Item) :
    Meets (Heeding i item.impulse false) (g.process i item)
    (fun _ => Heeding i item.impulse true) (Heeding i item.impulse true) := by
  have quiet : g.Quiet i (Heeding i item.impulse false) := quiet hg
  have lax {α : Type} {x : Run α} (hx : Respects (Heeding i item.impulse false) x) :
      Meets (Heeding i item.impulse false) x (fun _ => Heeding i item.impulse false)
        (Heeding i item.impulse true) :=
    hx.meets.conseq (fun _ => id) (fun _ _ => id) fun _ => anyway
  cases item with
  | event e =>
    refine .bind (lax quiet.free.node) fun n =>
      .bind (lax (quiet.candidatesFor n e.type)) fun candidates => ?_
    refine .bind (lax .service) fun s => .bind (lax (quiet.resolve candidates _ e)) fun found => ?_
    split
    · exact apply hg _ e
    · exact (lax (.peek fun _ => quiet.free.record)).post fun _ _ => anyway
  | outcome o =>
    refine .bind (lax (quiet.retire o.token)) fun active =>
      .ite (fun _ => .ite (fun _ => ?_) fun _ => ?_) fun _ => ?_
    · refine .bind (lax quiet.free.node) fun n => .bind (lax .member) fun invocation =>
        .bind (lax .member) fun candidates => ?_
      refine .bind (lax .ofExcept) fun seen => .bind (lax .ofExcept) fun vs =>
        .bind (lax .service) fun s => ?_
      refine .bind (lax (quiet.resolve vs _ seen)) fun found => ?_
      split
      · exact apply hg _ seen
      · refine (lax (.ite (fun _ => .peek fun _ => .bind quiet.free.record fun _ => ?_) fun _ =>
          .pure)).post fun _ _ => anyway
        exact observeService hg nofun
    · exact .pure fun _ => anyway
    · exact (lax (.peek fun _ => quiet.free.record)).post fun _ _ => anyway

theorem publish (hg : g.Sparing) : Respects (Heeding i e there) (g.publish i) :=
  (quiet hg).free.publish
      (fun announcing h => by cases announcing <;> exact h.noted nofun nofun trivial) fun _ h =>
        h.changed fun _ => ⟨rfl, rfl⟩

/-- Drains go on, on account of one event after the other. -/
theorem rounds (hg : g.Sparing) :
    g.Rounds i (fun w => ∃ e, w.Heeding i e true) (fun _ _ w => ∃ e, w.Heeding i e true)
    fun _ w => ∃ e, w.Heeding i e true where
  halted := fun _ => id
  lost := fun _ h _ => h
  skipped := fun h _ _ => h
  processed := by
    rintro w s item ⟨e, h⟩ _ _ _
    refine (process hg item).conseq (fun v hv => ?_) (fun _ _ hw => ⟨_, hw⟩) fun _ hw => ⟨_, hw⟩
    subst hv
    exact h.taken item
  published := by
    rintro w s s' item ⟨e, h⟩ _ _ _
    have published : Respects (Heeding i e true) (g.publish i) := publish hg
    refine published.meets.conseq (fun v hv => ?_) (fun _ _ hw => ⟨_, hw⟩) fun _ hw => ⟨_, hw⟩
    subst hv
    exact h

end Heeding

/-- Nobody but the drains of the service calls as they do. -/
theorem enduring_threaded (i : Nat) : Enduring i fun _ _ journal _ => Threaded i journal where
  noted := fun deed _ _ threaded => ⟨Entry.heeds_of_other deed, threaded⟩
  same := fun _ => id
  later := fun _ => id

theorem regards_threaded {g : Engine} {i : Nat} (hg : g.Sparing) :
    g.Regards i (fun _ => True) (Upholds i fun _ _ journal _ => Threaded i journal) := by
  have started : Respects (Heeding i .init true) (g.enter i .init >>= fun _ => g.publish i) :=
    .bind (Heeding.enter hg) fun _ => Heeding.publish hg
  have body : Ends (Heeding i .init true) (g.startBody i) (fun _ w => ∃ e, w.Heeding i e true)
      fun _ w => ∃ e, w.Heeding i e true := by
    unfold startBody
    rw [← bind_assoc]
    refine .bind (started.ends fun _ w hw => ⟨_, hw⟩) fun _ =>
      ((Heeding.rounds hg).ends_processPending _).pre fun w hw => ⟨_, hw⟩
  have heeding {w : World} {s : Service} {f : Service → Service} {x : Entry}
      (hs : w.services[i]? = some s)
      (started : (f s).status ≠ .notStarted) (other : x.deed? ≠ some i)
      (threaded : Threaded i w.journal) :
      (w.entered i f x).Heeding i (impulse i w.journal) true := {
    busy := ⟨_, entered_self hs, ⟨rfl, started⟩⟩
    impulse := (impulse_cons (x := .began i) nofun).trans
      (impulse_cons fun item same => other (congrArg Entry.deed? same))
    still := nofun
    threaded := ⟨trivial, Entry.heeds_of_other other, threaded⟩ }
  refine regards_upholds hg (enduring_threaded i) ?_ ?_ body
    ((Heeding.rounds hg).ends_processPending _) ?_ ?_
  · intro w s item hs running _ threaded
    refine ⟨_, heeding hs ?_ nofun threaded⟩
    show s.status ≠ .notStarted
    rw [running]
    exact nofun
  · intro w s base override context text _ hs _ _ asleep _ _
    have supplied := change_self (fun s => { s with supply := s.supply + 1 }) hs
    have begun := heeding (f := Engine.started context)
      (x := .record .debug text) supplied nofun nofun asleep.silent.threaded
    rw [show impulse i (w.change i _).journal = .init from asleep.silent.impulse] at begun
    exact begun
  · rintro v s p ⟨e, h⟩ _ head _
    rw [head]
    exact ⟨trivial, h.threaded⟩
  · rintro v s p halt ⟨e, h⟩ _ head _
    rw [head]
    exact ⟨trivial, h.threaded⟩

/-- Sources, transition hooks and entry actions are called on account of the item that was taken. -/
theorem threaded_after (book : Book) (fuel : Nat) (looping : Bool)
    (history : List Command) (i : Nat) :
    Threaded i ((World.start looping).after (.ofBook book fuel) history).journal := by
  have upholds : ((World.start looping).after (.ofBook book fuel) history).Upholds i
      fun _ _ journal _ => Threaded i journal :=
    upholds_after (fun n => regards_threaded (Engine.sparing_ofBook book n)) trivial fuel looping
      history fun _ _ => trivial
  cases hs : ((World.start looping).after (.ofBook book fuel) history).services[i]? with
  | none => exact (upholds.unborn hs).threaded
  | some s => exact (upholds.now s hs).either.elim Silent.threaded id

end World

/-! ### What it all springs from -/

section Springs

variable {i : Nat} {journal : List Entry} {e e' : Event}

/-- The outcome that is taken comes with the impulse on account of which its invocation was
started, which sprang from an event before. -/
theorem Threaded.outcome {o : Outcome} (threaded : Threaded i journal)
    (sourced : Sourced i o.token o.event journal)
    (earlier : ∀ later first, journal = later ++ first → later ≠ [] →
      Springs i first (impulse i first)) :
    Springs i (.taken i (.outcome o) :: journal) o.event := by
  obtain ⟨src, c, mem⟩ := sourced
  obtain ⟨later, rest, rfl⟩ := List.append_of_mem mem
  obtain ⟨heeds, -⟩ := threaded.suffix ⟨later, rfl⟩
  obtain ⟨⟨c', args⟩, level, text, invocation, before, first, rfl⟩ := heeds rfl
  have same : impulse i first = o.event := by
    have first_eq :
        impulse i (.record level text :: .activated i o.token invocation before :: first) =
          impulse i first := rfl
    rw [first_eq] at args
    injection args with _ args
    injection args with event _
    exact Option.some.inj (congrArg (fun x : Object => Event.ofValue? x.value) event).symm
  have springs :=
    earlier (later ++ [_, _, _]) first (List.append_assoc later [_, _, _] first).symm (by simp)
  rw [same] at springs
  have split :
      later ++ (.called (.service i) (.source o.token) src
        [.held c, .fresh o.event.toValue, .fresh (.sourceAccess i o.token)] ::
        .record level text :: .activated i o.token invocation before :: first) =
        (later ++ [.called (.service i) (.source o.token) src
          [.held c, .fresh o.event.toValue, .fresh (.sourceAccess i o.token)],
          .record level text]) ++ .activated i o.token invocation before :: first :=
        (List.append_assoc later [_, _] _).symm
  rw [split]
  exact .outcome springs

/-- What a service does springs from its impulse.  By induction on the length of the journal, as
an outcome leads far back. -/
theorem Threaded.springs (threaded : Threaded i journal)
    (sourced : ∀ o earlier, .taken i (.outcome o) :: earlier <:+ journal →
      Sourced i o.token o.event earlier) :
    Springs i journal (impulse i journal) := by
  induction length : journal.length using Nat.strongRecOn generalizing journal with
  | ind n ih =>
    have earlier (later first : List Entry) (split : journal = later ++ first) (some : later ≠ []) :
        Springs i first (impulse i first) := by
      have suffix : first <:+ journal := ⟨later, split.symm⟩
      refine ih first.length ?_ (threaded.suffix suffix)
        (fun o rest taken => sourced o rest (taken.trans suffix)) rfl
      rw [← length, split, List.length_append]
      exact Nat.lt_add_of_pos_left (List.length_pos_iff.mpr some)
    cases journal with
    | nil => exact .init
    | cons x rest =>
      by_cases untaken : ∀ item, x ≠ .taken i item
      · rw [impulse_cons untaken]
        exact .other untaken (earlier [x] rest rfl (List.cons_ne_nil _ _))
      · obtain ⟨item, taken⟩ := Classical.not_forall.mp untaken
        cases Classical.not_not.mp taken
        rw [impulse_taken]
        cases item with
        | event e => exact .event
        | outcome o =>
          refine threaded.2.outcome (sourced o rest List.suffix_rfl) fun later first split _ => ?_
          exact earlier (.taken i (.outcome o) :: later) first (congrArg _ split)
            (List.cons_ne_nil _ _)

/-- Of what is there once at most, there is one place at most. -/
theorem split_once {α : Type} {p : α → Bool} {a b : α} {xs xs' ys ys' : List α} (ha : p a = true)
    (hb : p b = true) (once : (xs ++ a :: ys).countP p ≤ 1)
    (same : xs ++ a :: ys = xs' ++ b :: ys') : ys = ys' := by
  have beyond {between zs : List α} (hz : a :: ys = between ++ b :: zs) (once : ys.countP p = 0) :
      ys = zs := by
    cases between with
    | nil => exact (List.cons.inj hz).2
    | cons c rest =>
      obtain ⟨-, rfl⟩ := List.cons.inj hz
      exact absurd hb (List.countP_eq_zero.mp once b (List.mem_append_right _ List.mem_cons_self))
  rw [List.countP_append, List.countP_cons_of_pos ha] at once
  rcases List.append_eq_append_iff.mp same with ⟨between, -, hb'⟩ | ⟨between, rfl, ha'⟩
  · exact beyond hb' (by omega)
  · cases between with
    | nil => exact (List.cons.inj ha').2.symm
    | cons c rest =>
      obtain ⟨rfl, rfl⟩ := List.cons.inj ha'
      rw [List.countP_append, List.countP_cons_of_pos hb] at once
      omega

theorem suffix_once {α : Type} {p : α → Bool} {a b : α} {ys ys' zs : List α} (ha : p a = true)
    (hb : p b = true) (once : zs.countP p ≤ 1) (h : a :: ys <:+ zs) (h' : b :: ys' <:+ zs) :
    ys = ys' := by
  obtain ⟨xs, split⟩ := h
  obtain ⟨xs', split'⟩ := h'
  exact split_once ha hb (split ▸ once) (split.trans split'.symm)

/-- What a service does springs from one event only, as each invocation is started once. -/
theorem Springs.unique (once : ∀ t, journal.countP (Entry.activates i t) ≤ 1)
    (h : Springs i journal e) (h' : Springs i journal e') :
    e' = e := by
  induction h with
  | init =>
    cases h'
    rfl
  | event =>
    cases h' with
    | event => rfl
    | other untaken => exact absurd rfl (untaken _)
  | @outcome o later journal invocation before e springs ih =>
    generalize whole : Entry.taken i (.outcome o) ::
      (later ++ .activated i o.token invocation before :: journal) = found at h'
    cases h' with
    | init | event => cases whole
    | other untaken =>
      obtain ⟨rfl, -⟩ := List.cons.inj whole
      exact absurd rfl (untaken _)
    | outcome springs' =>
      obtain ⟨same, whole⟩ := List.cons.inj whole
      cases same
      have activates {invocation : Value} {before : Slot} :
          (Entry.activated i o.token invocation before).activates i o.token = true := by
        simp [Entry.activates]
      have within (t : Token) : journal.countP (Entry.activates i t) ≤ 1 :=
        Nat.le_trans
          ((List.suffix_cons _ _).trans
            ((List.suffix_append later _).trans (List.suffix_cons _ _))).sublist.countP_le (once t)
      have once := Nat.le_trans (List.sublist_cons_self _ _).countP_le (once o.token)
      cases split_once activates activates once whole
      exact ih within springs'
  | @other x journal e untaken springs ih =>
    have within (t : Token) : journal.countP (Entry.activates i t) ≤ 1 :=
      Nat.le_trans (List.sublist_cons_self x journal).countP_le (once t)
    cases h' with
    | other _ springs' => exact ih within springs'
    | event | outcome => exact absurd rfl (untaken _)

end Springs

end FlatMachine
