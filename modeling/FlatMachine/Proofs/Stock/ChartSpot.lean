import FlatMachine.Proofs.Stock.Chart

/-! # Standing on a chart

While a service is drained whose machine a chart draws, it stands at a spot (**`Chart.At`**),
whatever callbacks do (**`Chart.At.steady`**).  Its hooks leave it there; its actions give it
another record, as they are meant to (**`Chart.Performs`**, **`Chart.ends_act`**); and only the
slot is another as invocations are retired, attached and cancelled.

Every point passed on the way shows the service at such a spot.  So what is wanted of points is
so at all of them, if it is so wherever one of these spots is shown (**`Chart.Admits`**). -/

namespace FlatMachine
namespace Chart

open Run Engine World

variable {ρ Act Guard : Type} (c : Chart ρ Act Guard)

/-- The slot holds the invocation that was begun last, for the task of the place. -/
def Fits (x : Spot ρ) (slot : Slot) : Prop :=
  ∃ t, slot.token = some t ∧ calling x.story = some t ∧ c.Tasked x.name

/-- The service is at the spot. -/
structure Shown (i : Nat) (x : Spot ρ) (s : Service) (journal : List Entry) : Prop where
  machine : s.machine = c.machine
  name : s.stateName = .str x.name
  placed : ∃ place, c.place x.name = some place
  record : s.context.value = c.shows x.record
  story : story i journal = x.story

/-- Points that show the service at the spot are as is wanted; as an item is taken, its slot is
empty or fits. -/
def Admits (i : Nat) (S : Point → Prop) (x : Spot ρ) : Prop :=
  ∀ p s, p.services[i]? = some s → c.Shown i x s p.journal →
  (∀ item, p.journal.head? = some (.taken i item) → s.slot = .empty ∨ c.Fits x s.slot) → S p

/-- The service is drained, at the spot; its slot is empty, or as it is said to be; and all
points passed are as is wanted. -/
structure At (i : Nat) (S : Point → Prop) (σ : Slot → Prop) (x : Spot ρ) (w : World) : Prop where
  service : ∃ s, w.services[i]? = some s ∧ s.Busy ∧ c.Shown i x s w.journal ∧
    (s.slot = .empty ∨ σ s.slot)
  time : x.time ≤ w.clock
  points : ∀ p ∈ w.points, S p

/-- The engine does as actions and guards of the chart what they are meant to do. -/
structure Performs (g : Engine) : Prop where
  sparing : g.Sparing
  acts : ∀ {i : Nat} {K : World → Prop}, Steady i K →
    ∀ (a : Act) (e : Event) (r : ρ) (time : Nat) (context : Context),
    context.value = c.shows r → Ends (fun w => K w ∧ time ≤ w.clock)
      (g.call (.service i) (c.action a)
        [.held context, .fresh e.toValue, .fresh (.actionAccess (.service i))] (some context))
      (fun out w => K w ∧ ∃ y, c.does a e (r, time) y ∧ (out.2.getD context).value = c.shows y.1 ∧
        y.2 ≤ w.clock)
      (fun halt w => K w ∧ ∀ f, halt = .raised f → c.fails a e r f)
  guards : ∀ {i : Nat} {K : World → Prop}, Steady i K →
    ∀ (gd : Guard) (e : Event) (r : ρ) (context : Context),
    context.value = c.shows r →
    Ends K (g.call (.service i) (c.guard gd) [.held context, .fresh e.toValue] none)
      (fun out w => K w ∧ out.1.value.truth = c.holds gd r) fun _ => K

variable {c} {i : Nat} {S : Point → Prop} {σ τ : Slot → Prop} {x x' : Spot ρ} {w w' : World}
  {g : Engine}

/-! ### Being at a spot -/

theorem Shown.alike {s s' : Service} {journal journal' : List Entry} (h : c.Shown i x s journal)
    (machine : s'.machine = s.machine) (name : s'.stateName = s.stateName)
    (context : s'.context.value = s.context.value)
    (same : FlatMachine.story i journal' = FlatMachine.story i journal) : c.Shown i x s' journal' :=
  ⟨machine.trans h.machine, name.trans h.name, h.placed, context.trans h.record, same.trans h.story⟩

namespace At

theorem mono (h : c.At i S σ x w) (hσ : ∀ slot, σ slot → τ slot) : c.At i S τ x w := by
  obtain ⟨s, hs, busy, shown, slot⟩ := h.service
  exact ⟨⟨s, hs, busy, shown, slot.imp_right (hσ _)⟩, h.time, h.points⟩

theorem vacant (h : c.At i S (fun _ => False) x w) : c.At i S σ x w := h.mono fun _ => False.elim

/-- What is written shows the service where it is. -/
theorem noted {e : Entry} (h : c.At i S σ x w) (admits : c.Admits i S x) (plain : e.Plain i) :
    c.At i S σ x (w.noted e) := by
  obtain ⟨s, hs, busy, shown, slot⟩ := h.service
  have shown : c.Shown i x s (e :: w.journal) := shown.alike rfl rfl rfl (story_plain plain)
  refine ⟨⟨s, hs, busy, shown, slot⟩, h.time, List.forall_mem_cons.mpr ⟨?_, h.points⟩⟩
  refine admits _ s hs shown fun item head => ?_
  cases head
  exact absurd rfl plain

/-- What is written is a part of the story. -/
theorem told {e : Entry} {ch : Chapter} (h : c.At i S σ x w) (chapter : e.chapter? i = some ch)
    (admits : c.Admits i S (x.told ch)) (untaken : ∀ item, e ≠ .taken i item) :
    c.At i S σ (x.told ch) (w.noted e) := by
  obtain ⟨s, hs, busy, shown, slot⟩ := h.service
  have shown : c.Shown i (x.told ch) s (e :: w.journal) :=
    ⟨shown.machine, shown.name, shown.placed, shown.record,
      (story_told chapter).trans (congrArg (ch :: ·) shown.story)⟩
  refine ⟨⟨s, hs, busy, shown, slot⟩, h.time, List.forall_mem_cons.mpr ⟨?_, h.points⟩⟩
  exact admits _ s hs shown fun item head => absurd (Option.some.inj head) (untaken item)

/-- The service is changed, but stays where it is. -/
theorem changed {f : Service → Service} (h : c.At i S σ x w)
    (hf : ∀ s : Service, (f s).machine = s.machine ∧
    (f s).stateName = s.stateName ∧ (f s).context = s.context ∧ (f s).status = s.status ∧
    (f s).queue.draining = s.queue.draining)
    (slot : ∀ s, w.services[i]? = some s → s.slot = .empty ∨ σ s.slot → (f s).slot = .empty ∨
      τ (f s).slot) :
    c.At i S τ x (w.change i f) := by
  obtain ⟨s, hs, busy, shown, held⟩ := h.service
  obtain ⟨machine, name, context, status, draining⟩ := hf s
  exact ⟨⟨f s, change_self f hs, busy.alike status draining,
    shown.alike machine name (congrArg Context.value context) rfl, slot s hs held⟩,
    h.time, h.points⟩

theorem iff_stays :
    c.At i S σ x w ↔ w.Stays i (fun time s journal => x.time ≤ time ∧ c.Shown i x s journal ∧
    (s.slot = .empty ∨ σ s.slot)) S := by
  constructor
  · rintro ⟨⟨s, hs, busy, shown⟩, time, points⟩
    exact ⟨⟨s, hs, busy, time, shown⟩, points⟩
  · rintro ⟨⟨s, hs, busy, time, shown⟩, points⟩
    exact ⟨⟨s, hs, busy, shown⟩, time, points⟩

theorem steady (admits : c.Admits i S x) : Steady i (c.At i S σ x) := by
  rw [show c.At i S σ x = _ from funext fun w => propext iff_stays]
  refine World.Stays.steady
    (fun after spared others ⟨time, shown, slot⟩ => ⟨Nat.le_trans time after, ?_, ?_⟩)
    fun {_ s p e} head deed hs ⟨_, shown, _⟩ => ?_
  · exact shown.alike spared.holds.machine spared.holds.stateName
      (congrArg Context.value spared.holds.context) (story_append others)
  · rcases spared.holds.slot with same | empty
    · rw [same]
      exact slot
    · exact Or.inl empty
  · refine admits p s hs shown fun item taken => ?_
    cases head.symm.trans taken
    exact absurd rfl deed

theorem placed (h : c.At i S σ x w) : ∃ place, c.place x.name = some place := by
  obtain ⟨s, -, -, shown, -⟩ := h.service
  exact shown.placed

theorem there (h : c.At i S σ x w) :
    ∃ s, w.services[i]? = some s ∧ s.stateName = .str x.name ∧ s.machine = c.machine ∧
    s.context.value = c.shows x.record := by
  obtain ⟨s, hs, -, shown, -⟩ := h.service
  exact ⟨s, hs, shown.name, shown.machine, shown.record⟩

end At

variable {E : Halt → World → Prop}

/-- Looking at the service finds it in the place of the spot, with its record. -/
theorem ends_service : Ends (c.At i S σ x) (Run.service i)
    (fun s w => c.At i S σ x w ∧ s.stateName = .str x.name ∧ s.machine = c.machine ∧
      s.context.value = c.shows x.record) E :=
  .service fun _ h => by
    obtain ⟨s, hs, name, machine, record⟩ := h.there
    exact ⟨s, hs, h, name, machine, record⟩

/-- Looking at the service changes nothing. -/
theorem ends_peek {α : Type} {f : Service → Run α} {Q : α → World → Prop}
    (hf : ∀ s, Ends (c.At i S σ x) (f s) Q E) :
    Ends (c.At i S σ x) (Run.service i >>= f) Q E :=
  .bind (ends_service.post fun _ _ h => h.1) hf

/-- The node is that of the place, where the service is known to be in it. -/
theorem ends_nodeOf {α : Type} {K : World → Prop} {name : String} {place : Place Act Guard}
    (there : c.place name = some place)
    (known : ∀ w, K w → ∃ s, w.services[i]? = some s ∧ s.stateName = .str name ∧
      s.machine = c.machine) {f : Value → Run α} {Q : α → World → Prop}
    (hf : Ends K (f (c.node place).toValue) Q E) : Ends K (Run.node i >>= f) Q E := by
  have found : Ends K (Run.node i) (fun n w => K w ∧ n = (c.node place).toValue) E := by
    have looked :
        Ends K (Run.service i)
          (fun s w => K w ∧ s.stateName = .str name ∧ s.machine = c.machine) E :=
      .service fun w h => by
        obtain ⟨s, hs, said⟩ := known w h
        exact ⟨s, hs, h, said⟩
    refine .learn looked fun s ⟨name, machine⟩ => ?_
    rw [name, machine, node_of_place there]
    exact .pure fun _ h => ⟨h, rfl⟩
  exact .learn found fun n same => same ▸ hf

/-- The node is that of the place. -/
theorem ends_node {α : Type} {f : Value → Run α} {Q : α → World → Prop}
    (hf : ∀ place, c.place x.name = some place →
    Ends (c.At i S σ x) (f (c.node place).toValue) Q E) :
    Ends (c.At i S σ x) (Run.node i >>= f) Q E :=
  .given (fun _ h => h.placed) fun ⟨place, there⟩ => ends_nodeOf there (fun _ h => by
    obtain ⟨s, hs, name, machine, -⟩ := h.there
    exact ⟨s, hs, name, machine⟩) (hf place there)

theorem ends_record (admits : c.Admits i S x) {level : Level} {text : String} :
    Ends (c.At i S σ x) (Run.record level text) (fun _ => c.At i S σ x) E :=
  .note fun _ h => h.noted admits trivial

/-! ### Hooks and actions -/

theorem ends_observeService (hg : c.Performs g) (admits : c.Admits i S x) {m : Moment}
    (other : m ≠ .error) (args : List Object) :
    Ends (c.At i S σ x) (g.observeService i m args) (fun _ => c.At i S σ x)
      fun halt w => c.At i S σ x w ∧ Spoils i halt w.journal :=
  Engine.ends_observeService hg.sparing (At.steady admits)
    (fun _ _ _ h => h.noted admits trivial) other args

/-- Actions do to the pending context what they are meant to do, one after the other. -/
theorem ends_runActions (hg : c.Performs g) (admits : c.Admits i S x) (e : Event)
    (actions : List Act) {y : ρ × Nat} {context : Context} (shown : context.value = c.shows y.1) :
    Ends (fun w => c.At i S σ x w ∧ y.2 ≤ w.clock)
      (g.runActions (.service i) (actions.map c.action) context e)
        (fun context' w => c.At i S σ x w ∧ ∃ y', c.Runs e actions y y' ∧
        context'.value = c.shows y'.1 ∧ y'.2 ≤ w.clock)
          (fun halt w => c.At i S σ x w ∧ ∀ f, halt = .raised f → c.Fails e actions y f) := by
  induction actions generalizing y context with
  | nil => exact .pure fun _ h => ⟨h.1, y, .done y, shown, h.2⟩
  | cons a rest ih =>
    refine .bind (Q := fun context' w => c.At i S σ x w ∧ ∃ y', c.does a e y y' ∧
      context'.value = c.shows y'.1 ∧ y'.2 ≤ w.clock) ?_ fun context' => ?_
    · refine .bind (Q := fun _ w => c.At i S σ x w ∧ y.2 ≤ w.clock)
        (.note fun _ h => ⟨h.1.noted admits trivial, h.2⟩) fun _ => ?_
      refine .bind (.weaken (hg.acts (At.steady admits) a e y.1 y.2 context shown) fun halt w h =>
        ?_) fun out => .pure fun _ => id
      exact ⟨h.1, fun f raised => .here (h.2 f raised)⟩
    · refine .pre
        (.ofExists (P := fun y' w => (c.does a e y y' ∧ context'.value = c.shows y'.1) ∧
          c.At i S σ x w ∧ y'.2 ≤ w.clock)
        fun y' => .given (fun _ h => h.1) fun ⟨here, shown'⟩ => ?_)
          fun w ⟨h, y', here, shown', time⟩ => ⟨y', ⟨here, shown'⟩, h, time⟩
      refine (ih shown').conseq (fun w h => h.2) (fun _ w ⟨h, y'', ran, rest⟩ => ?_)
        fun halt w h => ?_
      · exact ⟨h, y'', .more here ran, rest⟩
      · exact ⟨h.1, fun f raised => .later here (h.2 f raised)⟩

theorem ends_act (hg : c.Performs g) (admits : c.Admits i S x) (actions : List Act) (e : Event) :
    Ends (c.At i S σ x) (g.act i (.tuple (actions.map c.action)) e)
      (fun _ w => ∃ y, c.Runs e actions x.state y ∧ c.At i S σ (x.acted y) w)
      (fun halt w => c.At i S σ x w ∧ ∀ f, halt = .raised f → c.Fails e actions x.state f) := by
  refine .learn ends_service fun s ⟨_, _, record⟩ => ?_
  rw [runActionsOf_tuple]
  refine .bind ((ends_runActions hg admits e actions (y := x.state) record).pre fun _ h =>
    ⟨h, h.time⟩) fun context => ?_
  refine .update fun w ⟨h, y, ran, shown, time⟩ => ⟨y, ran, ?_⟩
  obtain ⟨s, hs, busy, there, slot⟩ := h.service
  exact ⟨⟨_, change_self _ hs, busy.alike rfl rfl,
    ⟨there.machine, there.name, there.placed, shown, there.story⟩, slot⟩, time,
    h.points⟩

/-! ### The slot -/

/-- Looking after the slot: the token is retired if it was in it. -/
theorem ends_retire (admits : c.Admits i S x) (t : Token) :
    Ends (c.At i S σ x) (retire i t) (fun active w => c.At i S σ x w ∧
    (active = true → (∃ slot, σ slot ∧ slot.token = some t) ∧ c.At i S (fun _ => False) x w))
      E := by
  intro w h
  obtain ⟨s, hs, -, -, slot⟩ := h.service
  cases active : s.slot.isActive t with
  | false =>
    rw [run_retire_inactive hs active]
    exact ⟨h, nofun⟩
  | true =>
    rw [run_retire_active hs active]
    have vacant :
        c.At i S (fun _ => False) x
          ((w.change i fun s => { s with slot := .empty }).noted (.retired i t)) :=
      At.noted (e := .retired i t)
        (h.changed (fun _ => ⟨rfl, rfl, rfl, rfl, rfl⟩) fun _ _ _ => Or.inl rfl) admits trivial
    refine ⟨vacant.vacant, fun _ =>
      ⟨⟨s.slot, slot.resolve_left fun empty => ?_, Slot.isActive_iff.mp active⟩, vacant⟩⟩
    rw [empty] at active
    cases active

/-- A cancel callback is put into the slot, which is told by its token. -/
theorem ends_attach (admits : c.Admits i S x)
    (hσ : ∀ slot slot' : Slot, slot'.token = slot.token → σ slot → σ slot') (t : Token)
    (f : Value) : Ends (c.At i S σ x) (attach i t f) (fun _ => c.At i S σ x) E := by
  intro w h
  obtain ⟨s, hs, -⟩ := h.service
  cases null : f.isNull with
  | true =>
    rw [run_attach_null hs null]
    exact h
  | false =>
    rw [run_attach hs null]
    refine At.noted (e := .attached i t f)
      (h.changed (fun _ => ⟨rfl, rfl, rfl, rfl, rfl⟩) fun s _ slot => ?_) admits trivial
    show (s.slot.attach t f).1 = .empty ∨ σ (s.slot.attach t f).1
    cases active : s.slot.isActive t with
    | false =>
      rw [Slot.attach_of_inactive null active]
      exact slot
    | true =>
      rw [Slot.attach_of_active null active]
      refine slot.elim (fun empty => ?_) fun held =>
        Or.inr (hσ s.slot ⟨s.slot.token, some f⟩ rfl held)
      rw [empty] at active
      cases active

/-- Whatever was awaited is not any more; only what is awaited can be halted in being cancelled. -/
theorem ends_cancelInvocation (hg : c.Performs g) (admits : c.Admits i S x)
    (tasked : ∀ slot, σ slot → c.Tasked x.name) :
    Ends (c.At i S σ x) (g.cancelInvocation i) (fun _ => c.At i S (fun _ => False) x)
      (fun _ w => c.At i S (fun _ => False) x w ∧ c.Tasked x.name) := by
  intro w h
  obtain ⟨s, hs, -, -, slot⟩ := h.service
  have cleared :
      c.At i S (fun _ => False) x
        (w.turned i (fun s => { s with slot := .empty }) (s.slot.farewell i)) := by
    have emptied : c.At i S (fun _ => False) x (w.change i fun s => { s with slot := .empty }) :=
      h.changed (fun _ => ⟨rfl, rfl, rfl, rfl, rfl⟩) fun _ _ _ => Or.inl rfl
    have plain : ∀ e ∈ s.slot.farewell i, e.Plain i := fun e he => by
      rcases Slot.mem_farewell he with ⟨t, -, rfl⟩ | ⟨f, -, rfl⟩ <;> trivial
    unfold turned
    generalize s.slot.farewell i = entries at plain
    induction entries with
    | nil => exact emptied
    | cons e rest ih =>
      obtain ⟨here, others⟩ := List.forall_mem_cons.mp plain
      exact (ih others).noted admits here
  have free := (At.steady (σ := fun _ => False) admits).free hg.sparing
  rw [run_cancelInvocation hs]
  unfold finishCancelling
  cases held : s.slot.cancel with
  | none => exact cleared
  | some f =>
    have tasked : c.Tasked x.name :=
      tasked s.slot (slot.resolve_left fun empty => by rw [empty] at held; cases held)
    have finished : Respects (c.At i S (fun _ => False) x)
        (do g.reportCancelFailure? i s.slot.token (← g.finishCancel (.service i) f)) := by
      refine .bind (.rescue ?_ fun _ => .bind free.record fun _ => .pure) fun _ =>
        free.reportCancelFailure? _ _
      exact .bind (.discard (free.calls _ _ _ _)) fun _ => .pure
    exact finished.ends (fun _ _ h => ⟨h, tasked⟩) _ cleared

end Chart
end FlatMachine
