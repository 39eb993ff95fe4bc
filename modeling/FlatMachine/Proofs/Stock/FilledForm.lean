import FlatMachine.Proofs.Service.Story
import FlatMachine.Proofs.Stock.Nodes

/-! # A form that is filled in

What becomes of a form shows in the journal: in which state it is (**`Form.live`**), and whether
values were changed while their submission was pending (**`Form.edited`**), so that what was
validated is not what is there.  While a form is drained, its state and its values are known
(**`World.Filled`**); they outlast callbacks, and all that a state does on entering and leaving
it, as long as what is submitted was validated (**`World.Filled.enter`**,
**`World.Filled.exit`**, **`World.Filled.move`**). -/

namespace FlatMachine

namespace Form

/-- The live state of a form. -/
def live (i : Nat) : List Entry → Value
  | [] => .str "idle"
  | .moved j _ target :: earlier => if j = i then target else live i earlier
  | _ :: earlier => live i earlier

/-- Values were changed while their submission was pending, and were not validated since: the
form has not gone on to a submission but from one that failed. -/
def edited (i : Nat) : List Entry → Bool
  | [] => false
  | .moved j source target :: earlier =>
    if j = i ∧ target.same (.str "submitting") = true ∧
      source.same (.str "failure") = false then false
    else edited i earlier
  | .taken j (.event e) :: earlier =>
    if j = i ∧ e.type = "CHANGE" ∧ (live i earlier).same (.str "submitting") =
      true then true else edited i earlier
  | _ :: earlier => edited i earlier

variable {i : Nat} {e : Entry} {journal : List Entry}

theorem live_cons (h : e.Plain i) : live i (e :: journal) = live i journal := by
  cases e with
  | moved => exact if_neg h
  | _ => rfl

theorem edited_cons (h : e.Plain i) : edited i (e :: journal) = edited i journal := by
  cases e with
  | moved => exact if_neg fun both => h both.1
  | taken j item =>
    cases item with
    | event => exact if_neg fun both => h both.1
    | outcome => rfl
  | _ => rfl

namespace Design

variable {d : Design} {name : String} {b : Bool} {v : Option Value} {s s' : Service}

/-- The source submits values in which the validation finds nothing. -/
def Submits (d : Design) (f : Value) (args : List Object) : Prop :=
  ∃ u, d.book f args = Stock.callWith d.submit u ∧ Valid d.check u

/-- The validation finds nothing in values that are submitted, or that failed to be, unless they
were edited since. -/
def Vetted (d : Design) (name : String) (b : Bool) (v : Option Value) : Prop :=
  Submitted name → b = false → ∃ u, v = some u ∧ Valid d.check u

/-- The form is in that state, with those values, and what was submitted so far was validated
unless it was edited. -/
structure Tracked (d : Design) (i : Nat) (name : String) (b : Bool) (v : Option Value) (s : Service)
    (journal : List Entry) : Prop where
  there : s.stateName = .str name
  values : values? s.context.value = v
  live : live i journal = .str name
  edited : edited i journal = b
  submitted : ∀ t f args earlier, .called (.service i) (.source t) f args :: earlier <:+ journal →
    Form.edited i earlier = false → d.Submits f args

namespace Tracked

theorem same (h : d.Tracked i name b v s journal) (stateName : s'.stateName = s.stateName)
    (context : s'.context = s.context) : d.Tracked i name b v s' journal :=
  ⟨stateName.trans h.there, (congrArg (fun c : Context => values? c.value) context).trans h.values,
    h.live, h.edited, h.submitted⟩

theorem noted (h : d.Tracked i name b v s journal) (plain : e.Plain i) :
    d.Tracked i name b v s (e :: journal) where
  there := h.there
  values := h.values
  live := (live_cons plain).trans h.live
  edited := (edited_cons plain).trans h.edited
  submitted := by
    intro t f args earlier hp unedited
    rcases List.suffix_cons_iff.mp hp with hp | hp
    · obtain ⟨rfl, rfl⟩ := List.cons.inj hp
      exact absurd rfl plain
    · exact h.submitted t f args earlier hp unedited

theorem append (h : d.Tracked i name b v s journal) {later : List Entry}
    (others : ∀ e ∈ later, e.deed? ≠ some i) :
    d.Tracked i name b v s (later ++ journal) := by
  induction later with
  | nil => exact h
  | cons e rest ih =>
    obtain ⟨other, others⟩ := List.forall_mem_cons.mp others
    exact (ih others).noted (Entry.plain_of_deed other)

/-- A source is called, which submits validated values unless they were edited. -/
theorem called (h : d.Tracked i name b v s journal) {t : Token} {f : Value} {args : List Object}
    (submits : b = false → d.Submits f args) :
    d.Tracked i name b v s (.called (.service i) (.source t) f args :: journal) where
  there := h.there
  values := h.values
  live := h.live
  edited := h.edited
  submitted := by
    intro t f args earlier hp unedited
    rcases List.suffix_cons_iff.mp hp with hp | hp
    · cases hp
      exact submits (h.edited.symm.trans unedited)
    · exact h.submitted t f args earlier hp unedited

/-- A change is taken as such while a submission is pending. -/
theorem taken (h : d.Tracked i name b v s journal) (item : Item) : ∃ b', (b' = false → b = false) ∧
    (∀ e, item = .event e → e.type = "CHANGE" ∧ name = "submitting" → b' = true) ∧
    d.Tracked i name b' v s (.taken i item :: journal) := by
  have submitted (t : Token) (f : Value) (args : List Object) (earlier : List Entry)
      (hp : .called (.service i) (.source t) f args :: earlier <:+ .taken i item :: journal)
      (unedited : Form.edited i earlier = false) : d.Submits f args := by
    rcases List.suffix_cons_iff.mp hp with hp | hp
    · cases hp
    · exact h.submitted t f args earlier hp unedited
  refine ⟨Form.edited i (.taken i item :: journal), ?_, ?_, h.there, h.values, h.live,
    rfl, submitted⟩
  · rw [← h.edited]
    cases item with
    | event e =>
      rw [Form.edited]
      split
      · exact nofun
      · exact id
    | outcome => exact id
  · rintro e rfl ⟨change, pending⟩
    rw [Form.edited, if_pos ⟨rfl, change, by rw [h.live, pending, Value.same_self]⟩]

/-- The form goes on to another state. -/
theorem moved (h : d.Tracked i name b v s journal) (target : String) :
    d.Tracked i target (if target = "submitting" ∧ name ≠ "failure" then false else b) v
      { s with stateName := .str target } (.moved i (.str name) (.str target) :: journal) where
  there := rfl
  values := h.values
  live := if_pos rfl
  edited := by
    rw [Form.edited, h.edited]
    simp
  submitted := by
    intro t f args earlier hp unedited
    rcases List.suffix_cons_iff.mp hp with hp | hp
    · cases hp
    · exact h.submitted t f args earlier hp unedited

end Tracked

/-- The engine does as actions and as the guard of the form what they are meant for. -/
structure Performs (d : Design) (g : Engine) : Prop where
  sparing : g.Sparing
  keeps : ∀ f, Keeper d.validate f → g.KeepsValues f
  vets : g.Vets d.check (guard d.validate)

theorem performs_ofBook (h : d.Validates) (fuel : Nat) : d.Performs (.ofBook d.book fuel) :=
  ⟨Engine.sparing_ofBook d.book fuel, fun _ hf => keepsValues_ofBook hf fuel, vets_ofBook h fuel⟩

end Design

end Form

namespace World

open Run Engine Form

/-- The form is drained, in that state and with those values. -/
def Filled (i : Nat) (d : Design) (name : String) (b : Bool) (v : Option Value)
    (w : World) : Prop :=
  ∃ s, w.services[i]? = some s ∧ s.Busy ∧ s.machine = d.machine ∧ d.Tracked i name b v s w.journal

namespace Filled

variable {i : Nat} {d : Design} {name : String} {b : Bool} {v : Option Value} {w : World}
  {g : Engine}

theorem noted {e : Entry} (h : w.Filled i d name b v) (plain : e.Plain i) :
    (w.noted e).Filled i d name b v := by
  obtain ⟨s, hs, busy, machine, tracked⟩ := h
  exact ⟨s, hs, busy, machine, tracked.noted plain⟩

theorem known (h : w.Filled i d name b v) : ∀ s, w.services[i]? = some s →
    s.machine = d.machine ∧ s.stateName = .str name := by
  intro s hs
  obtain ⟨s', hs', -, machine, tracked⟩ := h
  cases hs.symm.trans hs'
  exact ⟨machine, tracked.there⟩

theorem held (h : w.Filled i d name b v) :
    ∀ s, w.services[i]? = some s → values? s.context.value = v := by
  intro s hs
  obtain ⟨s', hs', -, -, tracked⟩ := h
  cases hs.symm.trans hs'
  exact tracked.values

theorem steady (i : Nat) (d : Design) (name : String) (b : Bool) (v : Option Value) :
    Steady i (Filled i d name b v) where
  busy := fun ⟨s, hs, busy, _⟩ => ⟨s, hs, busy⟩
  spared := by
    rintro w w' spares ⟨s, hs, busy, machine, tracked⟩
    obtain ⟨s', hs', holds, -⟩ := spares.service s hs
    obtain ⟨later, journal, others⟩ := spares.journal
    refine ⟨s', hs', holds.busy busy, holds.machine.trans machine, ?_⟩
    rw [journal]
    exact (tracked.append others).same holds.stateName holds.context

theorem quiet (hg : g.Sparing) : g.Quiet i (Filled i d name b v) where
  aside := ((steady i d name b v).free hg).aside
  noted := fun he h => h.noted (Entry.Acting.quiet he).plain
  changed := by
    rintro w f hf ⟨s, hs, busy, machine, tracked⟩
    obtain ⟨slot, supply, eq⟩ := hf s
    refine ⟨f s, change_self f hs, ?_⟩
    rw [eq]
    exact ⟨busy.alike rfl rfl, machine, tracked.same rfl rfl⟩
  calls := (steady i d name b v).sustained hg

/-! ### Actions -/

theorem committed (h : w.Filled i d name b v) (c : Context) :
    (w.change i fun s => { s with context := c }).Filled i d name b (values? c.value) := by
  obtain ⟨s, hs, busy, machine, tracked⟩ := h
  exact ⟨_, change_self _ hs, busy.alike rfl rfl, machine,
    tracked.there, rfl, tracked.live, tracked.edited, tracked.submitted⟩

/-- Looking at the service finds the form in the state and with the values that are known. -/
theorem service? : Meets (Filled i d name b v) (Run.service i)
    (fun s w => w.Filled i d name b v ∧ s.stateName = .str name ∧ values? s.context.value = v)
      (Filled i d name b v) :=
  .known fun _ hw s hs => ⟨(hw.known s hs).2, hw.held s hs⟩

theorem act (hg : d.Performs g) {actions : List Value} (keeps : ∀ f ∈ actions, Keeper d.validate f)
    (e : Event) :
    Respects (Filled i d name b v) (g.act i (.tuple actions) e) := by
  refine Meets.learn service? fun s ⟨_, same⟩ => ?_
  rw [runActionsOf_tuple]
  have run : Meets (Filled i d name b v) (g.runActions (.service i) actions s.context e)
      (fun c w => w.Filled i d name b v ∧ values? c.value = v) (Filled i d name b v) := by
    refine meets_runActions (φ := fun c => values? c.value = v) (fun hw => hw.noted trivial)
      ((steady i d name b v).sustained hg.sparing) (fun f hf c held => ?_) same
    exact (hg.keeps f (keeps f hf) _ c _ _).post fun _ _ kept => kept.trans held
  refine .bind run fun c => .update fun w hw => ?_
  have kept := hw.1.committed c
  rwa [hw.2] at kept

/-- Other actions may leave other values, if they return. -/
theorem act_any (hg : d.Performs g) (actions : List Value) (e : Event) :
    Meets (Filled i d name b v) (g.act i (.tuple actions) e)
      (fun _ w => ∃ v', w.Filled i d name b v') (Filled i d name b v) := by
  refine .learn service? fun s _ => ?_
  rw [runActionsOf_tuple]
  have run : Meets (Filled i d name b v) (g.runActions (.service i) actions s.context e)
      (fun _ w => w.Filled i d name b v ∧ True) (Filled i d name b v) :=
    meets_runActions (fun hw => hw.noted trivial) ((steady i d name b v).sustained hg.sparing)
      (fun _ _ _ _ => .any) trivial
  exact .bind run fun c => .update fun w hw => ⟨_, hw.1.committed c⟩

/-! ### States -/

theorem node (hg : d.Performs g) : Meets (Filled i d name b v) (Run.node i)
    (fun n w => w.Filled i d name b v ∧ ∃ node, (name, node) ∈ d.nodes ∧ n = node.toValue)
      (Filled i d name b v) :=
  ((quiet hg.sparing).free.nodeOf fun _ hw => hw.known).post fun _ _ hw =>
    ⟨hw.1, Design.mem_nodes hw.2⟩

theorem observeService (hg : d.Performs g) (m : Moment) (args : List Object) :
    Respects (Filled i d name b v) (g.observeService i m args) :=
  (quiet hg.sparing).observeService fun h => h.noted trivial

/-- What is submitted are the values, which were validated unless they were edited. -/
theorem submits {c : Context} (vetted : d.Vetted name b v) (submitted : Submitted name)
    (held : values? c.value = v) (event access : Object) (unedited : b = false) :
    d.Submits (source d.submit) [.held c, event, access] := by
  obtain ⟨u, rfl, valid⟩ := vetted submitted unedited
  exact ⟨u, Design.book_source held event access, valid⟩

/-- Entering a state submits the values, if that is what the state is for. -/
theorem enter (hg : d.Performs g) (vetted : d.Vetted name b v) (e : Event) :
    Respects (Filled i d name b v) (g.enter i e) := by
  have quiet : g.Quiet i (Filled i d name b v) := quiet hg.sparing
  refine Meets.learn (node hg) fun n ⟨node, hn, eq⟩ => ?_
  subst eq
  refine .learn .part fun entry he => ?_
  cases he
  refine .bind (act hg (Design.keeper_entry hn) e).meets fun _ => .bind service? fun s => ?_
  refine Meets.bind (((observeService hg _ _).meets).pre fun _ hw => hw.1) fun _ =>
    .learn .part fun invocation hi => ?_
  cases hi
  rcases Design.invoke_of_mem hn with none | ⟨rfl, some⟩
  · rw [none]
    exact .pure fun _ => id
  · rw [some]
    refine Respects.bind .member fun auto =>
      .ite (fun _ => quiet.startInvocation fun {src t} hsrc => ?_) fun _ => .pure
    cases hsrc
    refine quiet.callSource fun {w s} hw hs => ?_
    obtain ⟨s', hs', busy, machine, tracked⟩ := hw
    cases hs.symm.trans hs'
    exact ⟨s, hs, busy, machine, tracked.called (submits vetted (Or.inl rfl) tracked.values _ _)⟩

theorem exit (hg : d.Performs g) (e : Event) : Respects (Filled i d name b v) (g.exit i e) := by
  refine Meets.learn (node hg) fun n ⟨node, hn, eq⟩ => ?_
  subst eq
  refine .learn .part fun actions ha => ?_
  obtain rfl : Value.tuple node.exit = actions := Except.ok.inj ha
  rw [Design.exit_of_mem hn]
  refine Respects.bind (act hg (List.forall_mem_nil _) e) fun _ =>
    .peek fun s => .bind (observeService hg _ _) fun _ => ?_
  exact .bind (fun _ hw => hw.noted trivial) fun _ => (quiet hg.sparing).free.cancelInvocation

/-- Moving to a state in which the values are vetted leaves the form there with the same values. -/
theorem move (hg : d.Performs g) {target : String} {b' : Bool}
    (hb : (if target = "submitting" ∧ name ≠ "failure" then false else b) = b')
    (vetted : d.Vetted target b' v) (e : Event) :
    Meets (Filled i d name b v) (g.move i (.str name) (.str target) e)
      (fun _ => Filled i d target b' v) (Filled i d target b' v) := by
  refine .bind
    (Q := fun _ w => (w.noted (.moved i (.str name) (.str target))).Filled i d target b' v)
    (.update fun w ⟨s, hs, busy, machine, tracked⟩ => ?_) fun _ =>
    .bind (Q := fun _ => Filled i d target b' v) (.note fun _ hw => hw) fun _ => ?_
  · refine ⟨_, change_self _ hs, busy.alike rfl rfl, machine, ?_⟩
    rw [← hb]
    exact tracked.moved target
  · have rest : Respects (Filled i d target b' v) (do
        let s ← Run.service i
        record .debug
          ("Machine " ++ s.machine.id.shown ++ ": " ++ (Value.str name).shown ++ " -> " ++
          (Value.str target).shown ++ " on " ++ Text.quote e.type)
        g.observeService i .transition [.fresh (.str name), .fresh (.str target), .fresh e.toValue]
        g.enter i e) :=
      .peek fun s => .bind (quiet hg.sparing).free.record fun _ =>
        .bind (observeService hg _ _) fun _ => enter hg vetted e
    exact rest

end Filled

end World

end FlatMachine
