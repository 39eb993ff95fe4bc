import FlatMachine.Proofs.Stock.ChartSpot

/-! # Following a chart

A service whose machine a chart draws follows it: if it is at a spot as it takes an item,
processing the item leads it where the chart says, or is halted at a spot, and for a reason, that
the chart knows of (**`Chart.ends_process`**).  That is put together from what is done on leaving
and entering a place, with the start of its task, and on taking an edge. -/

namespace FlatMachine
namespace Chart

open Run Engine World

variable {ρ Act Guard : Type} {c : Chart ρ Act Guard} {i : Nat} {S : Point → Prop} {σ : Slot → Prop}
  {x : Spot ρ} {g : Engine} {E : Halt → World → Prop}

/-! ### States -/

theorem ends_exit (hg : c.Performs g) (admits : c.Admits i S x)
    (tasked : ∀ slot, σ slot → c.Tasked x.name) (e : Event) :
    Ends (c.At i S σ x) (g.exit i e) (fun _ => c.At i S (fun _ => False) x)
      fun halt w => c.At i S σ x w ∧ (Spoils i halt w.journal ∨ c.Tasked x.name) := by
  refine ends_node fun place there => .reads (a := .tuple []) rfl ?_
  refine .bind (Q := fun _ => c.At i S σ x)
    ((ends_act hg admits [] e).conseq (fun _ => id) (fun _ w ⟨y, ran, h⟩ => ?_)
    fun halt w ⟨h, fails⟩ => ?_) fun _ => ?_
  · cases ran
    exact h
  · refine ⟨h, Or.inl ?_⟩
    cases halt with
    | exhausted => exact Or.inl rfl
    | raised f => exact nomatch fails f rfl
  refine ends_peek fun s =>
    .bind ((ends_observeService hg admits (by decide) _).weaken fun halt w h => ⟨h.1, Or.inl h.2⟩)
    fun _ => ?_
  refine .bind (Q := fun _ => c.At i S σ x) (.note fun _ h => h.noted admits trivial) fun _ => ?_
  exact (ends_cancelInvocation hg admits tasked).weaken fun halt w h => ⟨h.1.vacant, Or.inr h.2⟩

/-- The task is begun, and its invocation is in the slot. -/
def Called (c : Chart ρ Act Guard) (i : Nat) (S : Point → Prop) (x : Spot ρ) (w : World) : Prop :=
  ∃ x', c.Calls x x' ∧ c.At i S (c.Fits x') x' w

theorem steady_called (calls : ∀ x', c.Calls x x' → c.Admits i S x') :
    Steady i (c.Called i S x) where
  busy := fun ⟨x', called, h⟩ => (At.steady (calls x' called)).busy h
  spared := fun spares ⟨x', called, h⟩ =>
    ⟨x', called, (At.steady (calls x' called)).spared spares h⟩

theorem ends_callSource (hg : c.Performs g) (admits : c.Admits i S x)
    (calls : ∀ x', c.Calls x x' → c.Admits i S x') {place : Place Act Guard} {task : Task Act Guard}
    (there : c.place x.name = some place) (awaits : place.task = some task) (e : Event)
    (t : Token) :
    Ends (c.At i S (·.token = some t) x) (g.callSource i task.source e t) (fun _ => c.Called i S x)
      fun _ => c.Called i S x := by
  have steady := steady_called calls
  have called (s : Service) (record : s.context.value = c.shows x.record) :
      Ends (c.At i S (·.token = some t) x) (do
      return (← g.invoke (.service i) (.source t) task.source
        [.held s.context, .fresh e.toValue, .fresh (.sourceAccess i t)]).value)
      (fun _ => c.Called i S x) fun _ => c.Called i S x := by
    have call : c.Calls x
        (x.told (.called t task.source
          [.held s.context, .fresh e.toValue, .fresh (.sourceAccess i t)])) :=
      .mk t there awaits record
    refine .bind
      (.bind (Q := fun _ => c.Called i S x) (.note fun w h => ⟨_, call, ?_⟩) fun _ => .bind
      ((steady.sustained hg.sparing _ _ _ _).ends fun _ _ => id) fun _ => .pure fun _ => id)
        fun _ => .pure fun _ => id
    have told := h.told (Entry.chapter?_called i t task.source _) (calls _ call) fun _ => nofun
    exact told.mono fun slot token => ⟨t, token, rfl, place, there, by rw [awaits]; rfl⟩
  have looked : Ends (c.At i S (·.token = some t) x) (do
      let context := (← Run.service i).context
      return (← g.invoke (.service i) (.source t) task.source
        [.held context, .fresh e.toValue, .fresh (.sourceAccess i t)]).value)
      (fun _ => c.Called i S x) fun _ => c.Called i S x :=
    .learn ends_service fun s ⟨_, _, record⟩ => called s record
  unfold Engine.callSource
  split
  · have free := (At.steady admits).free (K := c.At i S (·.token = some t) x) hg.sparing
    exact .bind (Q := fun _ => c.At i S (·.token = some t) x)
      (fun _ => free.aside (.plain rfl rfl rfl (Nat.le_refl _) rfl rfl List.prefix_rfl))
      fun _ => looked
  · exact looked

theorem ends_startInvocation (hg : c.Performs g) (admits : c.Admits i S x)
    (calls : ∀ x', c.Calls x x' → c.Admits i S x') {place : Place Act Guard} {task : Task Act Guard}
    (there : c.place x.name = some place) (awaits : place.task = some task) (e : Event) :
    Ends (c.At i S (fun _ => False) x) (g.startInvocation i (c.invocation task).toValue e)
      (fun _ => c.Called i S x) fun _ => c.Called i S x := by
  have steady := steady_called calls
  have free := steady.free hg.sparing
  have activated (t : Token) (invocation : Value) :
      Ends (c.At i S (fun _ => False) x) (activate i t invocation)
        (fun _ => c.At i S (·.token = some t) x) fun _ => c.Called i S x := by
    refine ends_peek fun s =>
      .bind (Q := fun _ => c.At i S (·.token = some t) x) (.update fun w h => ?_) fun _ =>
      .note fun _ h => h.noted admits trivial
    exact h.changed (fun _ => ⟨rfl, rfl, rfl, rfl, rfl⟩) fun _ _ _ => Or.inr rfl
  have launched (t : Token) :
      Ends (c.At i S (·.token = some t) x) (g.launch i (c.invocation task).toValue e t)
        (fun _ => c.Called i S x) fun _ => c.Called i S x := by
    refine .reads (a := task.source) rfl
      (.bind (ends_callSource hg admits calls there awaits e t) fun result => ?_)
    refine .bind (Respects.ofExcept.ends fun _ _ => id) fun (a, cancel) => ?_
    exact .bind ((free.schedule a).ends fun _ _ => id) fun _ => .pure fun _ => id
  refine .bind (Q := fun _ => c.At i S (fun _ => False) x) ?_ fun n =>
    .bind (activated _ _) fun _ => ?_
  · refine ends_peek fun s => .bind (Q := fun _ => c.At i S (fun _ => False) x)
      (.update fun w h => ?_) fun _ => .pure fun _ => id
    exact h.changed (fun _ => ⟨rfl, rfl, rfl, rfl, rfl⟩) fun _ _ => id
  refine ends_peek fun s => .bind (ends_record admits) fun _ => ?_
  refine .bind (Q := fun _ => c.Called i S x) (.rescue (launched _) (fun f => ?_) fun _ _ => id)
    fun (a, cancel) => ?_
  · refine .bind (Q := fun _ => c.Called i S x)
      (.discard (.ofExists fun x' => .given (fun _ h => h.1) fun call => ?_))
      fun _ => .fail fun _ => id
    exact (ends_retire (calls x' call) _).conseq (fun _ h => h.2) (fun _ _ h => ⟨x', call, h.1⟩)
      fun _ _ => id
  · refine .bind (Q := fun _ => c.Called i S x)
      (.ofExists fun x' => .given (fun _ h => h.1) fun call => ?_) fun callback => ?_
    · refine (ends_attach (calls x' call) (fun slot slot' token fits => ?_) _ cancel).conseq
        (fun _ h => h.2) (fun _ _ h => ⟨x', call, h⟩) fun _ _ => id
      obtain ⟨u, held, rest⟩ := fits
      exact ⟨u, token.trans held, rest⟩
    · refine .bind ((free.callCancel? _ callback).ends fun _ _ => id) fun failure => ?_
      exact .bind ((free.reportCancelFailure? _ failure).ends fun _ _ => id) fun _ =>
        (free.whenSettled a _).ends fun _ _ => id

/-- What is done on entering a place is done, and its task is begun, if it has one. -/
def Entered (c : Chart ρ Act Guard) (i : Nat) (S : Point → Prop) (e : Event) (x : Spot ρ)
    (w : World) : Prop :=
  ∃ x', c.Enters e x x' ∧ (¬ c.Tasked x'.name ∧ c.At i S (fun _ => False) x' w ∨ c.Called i S x' w)

theorem ends_enter (hg : c.Performs g) (admits : c.Admits i S x) (e : Event)
    (enters : ∀ x', c.Enters e x x' → c.Admits i S x')
    (calls : ∀ x' x'', c.Enters e x x' → c.Calls x' x'' → c.Admits i S x'') :
    Ends (c.At i S (fun _ => False) x) (g.enter i e) (fun _ => c.Entered i S e x) fun halt w =>
      (c.At i S (fun _ => False) x w ∧ Spoils i halt w.journal) ∨
        ∃ x', c.Enters e x x' ∧ (c.At i S (fun _ => False) x' w ∨ c.Called i S x' w) := by
  refine ends_node fun place there => .reads (a := .tuple (place.entry.map c.action)) rfl ?_
  refine .bind ((ends_act hg admits place.entry e).weaken fun halt w ⟨h, fails⟩ => Or.inl ⟨h, ?_⟩)
      fun _ => .ofExists fun y => .given (fun _ h => h.1) fun ran => ?_
  · cases halt with
    | exhausted => exact Or.inl rfl
    | raised f => exact absurd (fails f rfl) (not_fails_entry there)
  have entered : c.Enters e x (x.acted y) := .mk there ran
  have admits := enters _ entered
  refine Ends.pre (ends_peek fun s => (?_ : Ends (c.At i S (fun _ => False) (x.acted y)) _ _ _))
    fun _ h => h.2
  refine .bind ((ends_observeService hg admits (by decide) _).weaken fun halt w h =>
    Or.inr ⟨_, entered, Or.inl h.1⟩) fun _ => ?_
  refine .reads (a := (c.node place).invoke) rfl ?_
  unfold Chart.node
  cases awaits : place.task with
  | none =>
    refine .pure fun w h => ⟨_, entered, Or.inl ⟨?_, h⟩⟩
    rintro ⟨place', there', some⟩
    cases there.symm.trans there'
    rw [awaits] at some
    cases some
  | some task =>
    have started :=
      ends_startInvocation hg admits (fun x'' call => calls _ x'' entered call) there awaits e
    exact started.conseq (fun _ => id) (fun _ _ h => ⟨_, entered, Or.inr h⟩) fun _ _ h =>
      Or.inr ⟨_, entered, Or.inr h⟩

theorem ends_move (hg : c.Performs g) {target : String}
    (placed : ∃ place, c.place target = some place) (admits : c.Admits i S (x.moved target))
    {Q : World → Prop} {e : Event}
    (entered : Ends (c.At i S (fun _ => False) (x.moved target)) (g.enter i e) (fun _ => Q) E)
    (spoiled : ∀ halt w, c.At i S (fun _ => False) (x.moved target) w →
      Spoils i halt w.journal → E halt w) :
    Ends (c.At i S (fun _ => False) x) (g.move i (.str x.name) (.str target) e) (fun _ => Q) E := by
  refine .bind
    (Q := fun _ w =>
      c.At i S (fun _ => False) (x.moved target) (w.noted (.moved i (.str x.name) (.str target))))
    (.update fun w h => ?_) fun _ => .bind
      (Q := fun _ => c.At i S (fun _ => False) (x.moved target)) (.note fun _ => id) fun _ => ?_
  · obtain ⟨s, hs, busy, shown, slot⟩ := h.service
    have self := change_self (fun s => { s with stateName := .str target }) hs
    have shown : c.Shown i (x.moved target) { s with stateName := .str target }
        (.moved i (.str x.name) (.str target) :: w.journal) :=
      ⟨shown.machine, rfl, placed, shown.record,
        (story_told (Entry.chapter?_moved i _ _)).trans
          (congrArg (Chapter.moved (.str x.name) (.str target) :: ·) shown.story)⟩
    refine ⟨⟨_, self, busy.alike rfl rfl, shown, slot⟩, h.time,
      List.forall_mem_cons.mpr ⟨?_, h.points⟩⟩
    exact admits _ _ self shown fun item head => nomatch head
  · refine ends_peek fun s => .bind (ends_record admits) fun _ => ?_
    exact .bind ((ends_observeService hg admits (by decide) _).weaken fun halt w h =>
      spoiled halt w h.1 h.2) fun _ => entered

/-! ### Edges -/

/-- A drain was halted at a spot, for a reason. -/
def Broken (c : Chart ρ Act Guard) (i : Nat) (S : Point → Prop) (R : Spot ρ → Hitch → Prop)
    (halt : Halt) (w : World) : Prop :=
  ∃ x hitch, R x hitch ∧ c.At i S (c.Fits x) x w ∧ hitch.Explains i halt w.journal

theorem Broken.imp {R R' : Spot ρ → Hitch → Prop} {halt : Halt} {w : World}
    (h : c.Broken i S R halt w) (hR : ∀ x hitch, R x hitch → R' x hitch) :
    c.Broken i S R' halt w := by
  obtain ⟨x, hitch, breaks, rest⟩ := h
  exact ⟨x, hitch, hR x hitch breaks, rest⟩

theorem broken_act {edge : Edge Act Guard} {e seen : Event} {halt : Halt} {w : World}
    (h : c.At i S (c.Fits x) x w)
    (fails : ∀ f, halt = .raised f → c.Fails seen edge.actions x.state f) :
    c.Broken i S (c.Breaks edge e seen x) halt w := by
  cases halt with
  | exhausted => exact ⟨x, .disturbed, .disturbed, h, Or.inl rfl⟩
  | raised f => exact ⟨x, .failed f, .failed (fails f rfl), h, rfl⟩

/-- Taking an edge leads where it leads. -/
theorem ends_apply (hg : c.Performs g) {place : Place Act Guard} {edge : Edge Act Guard}
    (there : c.place x.name = some place) (he : edge ∈ place.edges) (e seen : Event)
    (admits : ∀ x' hitch, c.Breaks edge e seen x x' hitch → c.Admits i S x') :
    Ends (c.At i S (c.Fits x) x) (g.apply i (c.transition edge).toValue e seen)
      (fun _ w => ∃ x', c.Leads edge e seen x x' ∧ c.At i S (c.Fits x') x' w)
        (c.Broken i S (c.Breaks edge e seen x)) := by
  have here := admits x _ .disturbed
  refine .learn ends_service fun s ⟨name, machine, _⟩ => ?_
  rw [name, machine, internality_toValue, isInternal_transition, pure_bind]
  refine .ite (fun stays => ?_) fun leaves => ?_
  · refine .reads (a := .tuple (edge.actions.map c.action)) rfl ?_
    exact (ends_act hg here edge.actions seen).conseq (fun _ => id)
      (fun _ w ⟨y, ran, h⟩ => ⟨_, .inside stays ran, h⟩)
      fun halt w h => broken_act h.1 h.2
  · have leaves := Bool.eq_false_iff.mpr leaves
    obtain ⟨target, aim, other⟩ := Edge.aim_of_leaves leaves
    obtain ⟨there', placed⟩ := place_of_aim there he aim
    refine .reads (member_target c aim) ?_
    rw [demand_of_place placed]
    refine .bind (Q := fun _ => c.At i S (c.Fits x) x) (.pure fun _ => id) fun _ => ?_
    refine .bind ((ends_exit hg here (fun _ ⟨_, _, _, tasked⟩ => tasked) e).weaken
      fun halt w ⟨h, why⟩ => ?_) fun _ => ?_
    · rcases why with spoils | tasked
      · exact ⟨x, .disturbed, .disturbed, h, spoils⟩
      · exact ⟨x, .other, .cancelling leaves tasked, h, trivial⟩
    refine .reads (a := .tuple (edge.actions.map c.action)) rfl ?_
    refine .bind ((ends_act hg here edge.actions seen).weaken fun halt w h =>
        broken_act h.1.vacant h.2) fun _ =>
      .ofExists fun y => .given (fun _ h => h.1) fun ran => ?_
    -- From here on the slot is vacant, and a halt leaves the service between two states or in the
    -- new one.
    have arrives : c.Arrives edge seen x ((x.acted y).moved target) := .mk aim other ran
    have arrived := admits _ _ (.arrived arrives (e := e))
    have entered :=
      (ends_enter hg arrived e (fun x' enters => admits _ _ (.entered arrives enters))
        fun x' x'' enters call => admits _ _ (.called arrives enters call))
    refine .pre (ends_move (x := x.acted y) hg ⟨there', placed⟩ arrived
      (entered.conseq (fun _ => id) (fun _ w h => ?_) fun halt w h => ?_)
      fun halt w h spoils => ?_) fun _ h => h.2
    · obtain ⟨x', enters, ⟨idle, h⟩ | ⟨x'', call, h⟩⟩ := h
      · exact ⟨x', .across arrives enters idle, h.vacant⟩
      · exact ⟨x'', .calling arrives enters call, h⟩
    · obtain ⟨h, spoils⟩ | ⟨x', enters, h | ⟨x'', call, h⟩⟩ := h
      · exact ⟨_, .disturbed, .arrived arrives, h.vacant, spoils⟩
      · exact ⟨x', .other, .entered arrives enters, h.vacant, trivial⟩
      · exact ⟨x'', .other, .called arrives enters call, h, trivial⟩
    · exact ⟨_, .disturbed, .arrived arrives, h.vacant, spoils⟩

/-- A candidate is eligible if the guard of its edge holds; only a guard can be halted. -/
theorem ends_isEligible (hg : c.Performs g) (admits : c.Admits i S x) (edge : Edge Act Guard)
    {context : Context} (shown : context.value = c.shows x.record) (e : Event) :
    Ends (c.At i S σ x) (g.isEligible (.service i) (c.transition edge).toValue context e)
      (fun yes w => c.At i S σ x w ∧ yes = edge.guard.all (c.holds · x.record))
      (fun _ w => c.At i S σ x w ∧ edge.guard.isSome = true) := by
  rw [isEligible_toValue]
  unfold guardHolds transition
  cases edge.guard with
  | none => exact .pure fun _ h => ⟨h, rfl⟩
  | some gd =>
    have present : ¬ (c.guard gd).isNull = true := Bool.eq_false_iff.mp (c.guarded gd)
    have called :
        Ends (c.At i S σ x)
          (g.invoke (.service i) .guard (c.guard gd) [.held context, .fresh e.toValue])
          (fun r w => c.At i S σ x w ∧ r.value.truth = c.holds gd x.record)
            (fun _ => c.At i S σ x) := by
      refine .bind (Q := fun _ => c.At i S σ x) (.note fun _ h => h.noted admits trivial)
        fun _ => ?_
      exact .bind (hg.guards (At.steady admits) gd e x.record context shown) fun r =>
        .pure fun _ => id
    refine .ite (fun null => absurd null present) fun _ => ?_
    exact .bind (called.weaken fun _ _ h => ⟨h, rfl⟩) fun r => .pure fun _ => id

/-- No candidate is found, or the transition that the chosen edge draws. -/
theorem found_of_choice {r : ρ} {edges : List (Edge Act Guard)} {found : Option (Nat × Value)}
    (chosen : found.map Prod.snd = (c.choice r edges).map fun edge => (c.transition edge).toValue) :
    (found = none ∧ c.choice r edges = none) ∨
      ∃ n edge, c.choice r edges = some edge ∧ found = some (n, (c.transition edge).toValue) := by
  cases found with
  | none => exact .inl ⟨rfl, Option.map_eq_none_iff.mp chosen.symm⟩
  | some p =>
    obtain ⟨edge, some, same⟩ := Option.map_eq_some_iff.mp chosen.symm
    exact .inr ⟨p.1, edge, some, by rw [same]⟩

/-- Of the candidates, the edge is found that is taken; only a guard can be halted. -/
theorem ends_resolve (hg : c.Performs g) (admits : c.Admits i S x) (edges : List (Edge Act Guard))
    {context : Context} (shown : context.value = c.shows x.record) (e : Event) :
    Ends (c.At i S σ x) (g.resolve (.service i) (c.candidates edges) context e)
      (fun found w => c.At i S σ x w ∧
        found.map Prod.snd = (c.choice x.record edges).map fun edge => (c.transition edge).toValue)
      (fun _ w => c.At i S σ x w ∧ ∃ edge ∈ edges, edge.guard.isSome = true) := by
  unfold Engine.resolve
  -- Along the candidates; their numbers only count up.
  generalize 0 = n
  induction edges generalizing n with
  | nil => exact .pure fun _ h => ⟨h, rfl⟩
  | cons edge rest ih =>
    refine .bind ((ends_isEligible hg admits edge shown e).weaken fun _ w h =>
        ⟨h.1, edge, List.mem_cons_self, h.2⟩) fun yes =>
      .given (fun _ h => h.2) fun passes => ?_
    rw [choice_cons, ← passes]
    refine .ite (fun holds => .pure fun _ h => ⟨h.1, by rw [if_pos holds]; rfl⟩) fun holds => ?_
    rw [if_neg holds]
    refine (ih (n + 1)).conseq (fun _ h => h.1) (fun _ _ => id)
      fun _ w ⟨h, other, mem, guarded⟩ => ?_
    exact ⟨h, other, List.mem_cons_of_mem _ mem, guarded⟩

/-! ### Items -/

/-- Taking the edge that is chosen for an item leads where the chart says. -/
theorem ends_chosen (hg : c.Performs g) {place : Place Act Guard} {edge : Edge Act Guard}
    {item : Item} {e seen : Event} (there : c.place x.name = some place) (mem : edge ∈ place.edges)
    (chooses : c.Chooses x item edge e seen)
    (admits : ∀ x' hitch, c.Stops x item x' hitch → c.Admits i S x') :
    Ends (c.At i S (c.Fits x) (x.told (.taken item))) (g.apply i (c.transition edge).toValue e seen)
      (fun _ w => ∃ x', c.Takes x item x' ∧ c.At i S (c.Fits x') x' w)
        (c.Broken i S (c.Stops x item)) := by
  refine (ends_apply (x := x.told (.taken item)) hg there mem e seen fun x' hitch breaks =>
    ?_).conseq (fun _ => id) (fun _ w ⟨x', leads, h⟩ => ⟨x', .led chooses leads, h⟩) fun halt w h =>
      h.imp fun x' hitch breaks => ?_
  · exact admits _ _ (.broken chooses breaks)
  · exact .broken chooses breaks

/-- An event leads where the chart says. -/
theorem ends_processEvent (hg : c.Performs g) (e : Event)
    (admits : ∀ x' hitch, c.Stops x (.event e) x' hitch → c.Admits i S x') :
    Ends (c.At i S (c.Fits x) (x.told (.taken (.event e)))) (g.processEvent i e)
      (fun _ w => ∃ x', c.Takes x (.event e) x' ∧ c.At i S (c.Fits x') x' w)
        (c.Broken i S (c.Stops x (.event e))) := by
  have here := admits _ _ (.taken _)
  refine ends_node fun place there => ?_
  rw [candidatesFor_toValue, pure_bind, candidatesFor_node]
  refine .learn ends_service fun s ⟨_, _, record⟩ =>
    .learn ((ends_resolve hg here (place.offers e.type) record e).weaken
    fun halt w ⟨h, edge, mem, guarded⟩ => ⟨_, .other, .guarding there mem guarded, h, trivial⟩)
      fun found chosen => ?_
  rcases found_of_choice chosen with ⟨rfl, none⟩ | ⟨n, edge, some, rfl⟩
  · exact ends_peek fun s => (ends_record here).post fun _ w h => ⟨_, .ignored there none, h⟩
  · exact ends_chosen hg there (Place.mem_edges_of_offers (mem_of_choice some).1)
      (.event there some) admits

/-- An outcome that is wanted leads where the chart says. -/
theorem ends_settleWanted (hg : c.Performs g) (o : Outcome)
    (wanted : calling x.story = some o.token) (tasked : c.Tasked x.name)
    (valid : o.cancelled = false)
    (admits : ∀ x' hitch, c.Stops x (.outcome o) x' hitch → c.Admits i S x') :
    Ends (c.At i S (c.Fits x) (x.told (.taken (.outcome o)))) (g.settleWanted i o)
      (fun _ w => ∃ x', c.Takes x (.outcome o) x' ∧ c.At i S (c.Fits x') x' w)
        (c.Broken i S (c.Stops x (.outcome o))) := by
  have here := admits _ _ (.taken _)
  have stopped (halt : Halt) (w : World)
      (h : c.At i S (c.Fits x) (x.told (.taken (.outcome o))) w) :
      c.Broken i S (c.Stops x (.outcome o)) halt w := ⟨_, .other, .settling o, h, trivial⟩
  refine ends_node fun place there => ?_
  obtain ⟨place', there', awaits⟩ := tasked
  cases there.symm.trans there'
  obtain ⟨task, awaits⟩ := Option.isSome_iff_exists.mp awaits
  have invoked : (c.node place).toValue.member "invoke" = .ok (c.invocation task).toValue := by
    unfold node
    rw [awaits]
    rfl
  have listed : (c.invocation task).toValue.member (if o.failed then "on_error" else "on_done") =
      .ok (.tuple (c.candidates (task.ends o.failed))) := by
    unfold Task.ends
    cases o.failed <;> rfl
  refine .reads invoked
    (.reads listed (.learn (.ofExcept (fun _ _ made h => ⟨h, made⟩) fun f w _ => stopped _ w)
    fun seen made => ?_))
  refine .bind (Q := fun vs w => c.At i S (c.Fits x) (x.told (.taken (.outcome o))) w ∧
    vs = c.candidates (task.ends o.failed))
    (.pure fun _ h => ⟨h, rfl⟩) fun vs => .given (fun _ h => h.2) fun same => ?_
  subst same
  refine Ends.pre (?_ : Ends (c.At i S (c.Fits x) (x.told (.taken (.outcome o)))) _ _ _)
    fun _ h => h.1
  refine .learn ends_service fun s ⟨_, _, record⟩ =>
    .learn ((ends_resolve hg here (task.ends o.failed) record seen).weaken
    fun halt w h => stopped halt w h.1) fun found chosen => ?_
  rcases found_of_choice chosen with ⟨rfl, -⟩ | ⟨n, edge, some, rfl⟩
  · refine .ite (fun _ => ?_) fun _ => .pure fun _ h => ⟨_, .dropped o, h⟩
    have free := (At.steady (σ := c.Fits x) here).free hg.sparing
    refine ends_peek fun s => .bind (ends_record here) fun _ => ?_
    have observed : Respects (c.At i S (c.Fits x) (x.told (.taken (.outcome o))))
        (g.observeService i .error [.fresh o.error]) :=
      .peek fun s => free.observe s.hooks _
    exact (observed.ends stopped).post fun _ w h => ⟨_, .dropped o, h⟩
  · have settles : c.Settles x o edge seen :=
      ⟨wanted, valid, made, place, task, there, awaits, some⟩
    exact ends_chosen hg there (Place.mem_edges_of_ends awaits (mem_of_choice some).1)
      (.outcome settles) admits

/-- An item leads where the chart says, or the chart knows where and why its processing is
halted. -/
theorem ends_process (hg : c.Performs g) (item : Item)
    (admits : ∀ x' hitch, c.Stops x item x' hitch → c.Admits i S x') :
    Ends (c.At i S (c.Fits x) (x.told (.taken item))) (g.process i item)
      (fun _ w => ∃ x', c.Takes x item x' ∧ c.At i S (c.Fits x') x' w)
        (c.Broken i S (c.Stops x item)) := by
  cases item with
  | event e => exact ends_processEvent hg e admits
  | outcome o =>
    have here := admits _ _ (.taken _)
    refine .bind (ends_retire here o.token) fun active =>
      .ite (fun wanted => .ite (fun valid => ?_) fun _ => ?_) fun stale => ?_
    · refine .given (φ := calling x.story = some o.token ∧ c.Tasked x.name) (fun w h => ?_)
        fun ⟨calls, tasked⟩ => ?_
      · obtain ⟨⟨slot, ⟨t, held, calls, tasked⟩, token⟩, -⟩ := h.2 wanted
        exact ⟨calls.trans (held.symm.trans token), tasked⟩
      · refine (ends_settleWanted hg o calls tasked ?_ admits).pre fun _ h => h.1
        simpa using valid
    · exact .pure fun w h => ⟨_, .dropped o, h.1⟩
    · refine .pre (ends_peek fun s => ?_) fun _ h => h.1
      exact (ends_record here).post fun _ w h => ⟨_, .dropped o, h⟩

end Chart
end FlatMachine
