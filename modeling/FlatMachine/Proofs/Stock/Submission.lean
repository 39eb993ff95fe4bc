import Mathlib.Data.List.Infix
import FlatMachine.Proofs.History
import FlatMachine.Proofs.Stock.FilledForm

/-! # What a form submits

On every candidate that a state offers, a form goes on to a state in which its values are vetted
(**`World.Filled.apply`**), so every item leaves it so (**`World.Filled.process`**), and every
drain.  Therefore whatever is submitted was validated, unless values were edited while their
submission was pending, and submitted again when it failed (**`World.submitted_values_valid`**).
The second case does occur (**`Draft.submitted_twice`**). -/

namespace FlatMachine
namespace World

open Run Engine Form

/-- The form is drained, and its values are vetted. -/
def Careful (i : Nat) (d : Design) (w : World) : Prop :=
  ∃ name b v, d.Vetted name b v ∧ w.Filled i d name b v

namespace Filled

variable {i : Nat} {d : Design} {name : String} {b : Bool} {v : Option Value} {w : World}
  {g : Engine}

/-- A failure leaves the values vetted. -/
theorem lax (vetted : d.Vetted name b v) {α : Type} {P : World → Prop} {x : Run α}
    {Q : α → World → Prop} (h : Meets P x Q (Filled i d name b v)) : Meets P x Q (Careful i d) :=
  h.conseq (fun _ => id) (fun _ _ => id) fun _ hw => ⟨name, b, v, vetted, hw⟩

/-! ### Candidates -/

/-- A candidate leads to another state, in which the values that its actions leave are vetted. -/
theorem leg (hg : d.Performs g) (vetted : d.Vetted name b v) {target : String}
    {actions : List Value} {guard : Value} (other : target ≠ name) {φ : Option Value → Prop}
    (e seen : Event) (acts : Meets (Filled i d name b v) (g.act i (.tuple actions) seen)
      (fun _ w => ∃ v', φ v' ∧ w.Filled i d name b v') (Filled i d name b v))
    (arrives : ∀ v', φ v' →
      d.Vetted target (if target = "submitting" ∧ name ≠ "failure" then false else b) v') :
    Meets (Filled i d name b v)
      (g.apply i (Transition.toValue ⟨.str target, actions, guard⟩) e seen) (fun _ => Careful i d)
        (Careful i d) := by
  have external : Transition.isInternal ⟨.str target, actions, guard⟩ (.str name) = false := by
    simp [Transition.isInternal, Value.isNull, other]
  refine .learn (lax vetted service?) fun s found => ?_
  rw [found.1, internality_toValue, external, pure_bind]
  refine .ite (fun internal => absurd internal Bool.false_ne_true) fun _ =>
    .learn (lax vetted .part) fun place ht => ?_
  obtain rfl : Value.str target = place := Except.ok.inj ht
  refine .bind (lax vetted (quiet hg.sparing).free.lookUp.meets) fun _ =>
    .bind (lax vetted (exit hg e).meets) fun _ => ?_
  refine .learn (lax vetted .part) fun list ha => ?_
  obtain rfl : Value.tuple actions = list := Except.ok.inj ha
  refine .bind (lax vetted acts) fun _ => .ofExists fun v' => .given (fun _ hw => hw.1) fun hv => ?_
  refine ((move hg rfl (arrives v' hv) e).pre fun _ hw => hw.2).conseq (fun _ => id)
    (fun _ _ hw => ?_) fun _ hw => ?_
  · exact ⟨_, _, _, arrives v' hv, hw⟩
  · exact ⟨_, _, _, arrives v' hv, hw⟩

/-- Whatever is fair leaves the values vetted. -/
theorem apply (hg : d.Performs g) (vetted : d.Vetted name b v) {t : Transition} {changing : Prop}
    (fair : Fair d.validate name changing t) (changed : changing ∧ name = "submitting" → b = true)
    (passed : t.guard = guard d.validate → ∃ u, v = some u ∧ Valid d.check u) (e seen : Event) :
    Meets (Filled i d name b v) (g.apply i t.toValue e seen) (fun _ => Careful i d)
      (Careful i d) := by
  cases fair with
  | @stay actions h =>
    refine .learn (lax vetted service?) fun s ⟨there, _⟩ => ?_
    rw [there, internality_toValue]
    refine lax vetted ((act_any hg actions seen).post fun _ w ⟨v', hw⟩ =>
      ⟨name, b, v', fun submitted unedited => ?_, hw⟩)
    rw [changed (h submitted)] at unedited
    cases unedited
  | leave other h =>
    refine leg (φ := fun _ => True) hg vetted other e seen ?_ fun v' _ submitted =>
      absurd submitted h
    exact (act_any hg _ seen).post fun _ w ⟨v', hw⟩ => ⟨v', trivial, hw⟩
  | @submit target actions guard other keeps cleared =>
    refine leg (φ := (· = v)) hg vetted other e seen
      ((act hg keeps seen).meets.post fun _ w hw => ⟨v, rfl, hw⟩) ?_
    rintro v' rfl submitted unedited
    rcases cleared with ⟨-, before⟩ | same
    · refine vetted before ?_
      rcases before with rfl | rfl
      · rwa [if_neg fun both => other both.1] at unedited
      · rwa [if_neg fun both => both.2 rfl] at unedited
    · exact passed same

/-- The guard of the form vets the values. -/
theorem isEligible (hg : d.Performs g) {c : Context} (held : values? c.value = v) (t : Transition)
    (e : Event) :
    Meets (Filled i d name b v) (g.isEligible (.service i) t.toValue c e)
      (fun yes w => w.Filled i d name b v ∧
      (yes = true → t.guard = guard d.validate → ∃ u, v = some u ∧ Valid d.check u))
        (Filled i d name b v) := by
  rw [isEligible_toValue]
  unfold guardHolds
  refine .ite (fun null => .pure fun _ hw => ⟨hw, fun _ same => ?_⟩) fun _ => ?_
  · rw [same] at null
    cases null
  refine .bind (Q := fun r w => w.Filled i d name b v ∧
    (r.value.truth = true → t.guard = guard d.validate → ∃ u, v = some u ∧ Valid d.check u))
    (.bind (Q := fun _ => Filled i d name b v) (.note fun _ hw => hw.noted trivial) fun _ =>
      .bind (Q := fun r w => w.Filled i d name b v ∧
        (r.1.value.truth = true → t.guard = guard d.validate → ∃ u, v = some u ∧ Valid d.check u))
          ?_ fun r =>
        .pure fun _ hw => hw) fun r => .pure fun _ hw => hw
  by_cases same : t.guard = guard d.validate
  · have called := (hg.vets (.service i) c (.fresh e.toValue)).and
      ((steady i d name b v).sustained hg.sparing (.service i) (guard d.validate) _ none)
    rw [same]
    refine called.conseq (fun _ hw => ⟨trivial, hw⟩) (fun r w hw => ⟨hw.2, fun passed _ => ?_⟩)
      fun _ hw => hw.2
    obtain ⟨u, hu, valid⟩ := hw.1 passed
    exact ⟨u, held.symm.trans hu, valid⟩
  · exact ((quiet hg.sparing).calls _ _ _ _).meets.post fun _ _ hw =>
      ⟨hw, fun _ is => absurd is same⟩

/-! ### Items -/

/-- Taking whichever candidate was found leaves the values vetted, if all candidates are fair. -/
theorem taken (hg : d.Performs g) (vetted : d.Vetted name b v) {candidates : List Value}
    {changing : Prop}
    (fair : ∀ x ∈ candidates, ∃ t : Transition, x = t.toValue ∧ Fair d.validate name changing t)
    (changed : changing ∧ name = "submitting" → b = true) {c : Context} (held : values? c.value = v)
    (e seen : Event) {rest : Run Unit} (hr : Respects (Filled i d name b v) rest) :
    Meets (Filled i d name b v) (do
      match ← g.resolve (.service i) candidates c seen with
      | some (_, t) => g.apply i t e seen
      | none => rest) (fun _ => Careful i d) (Careful i d) := by
  have found :
    Meets (Filled i d name b v) (g.resolve (.service i) candidates c seen) (fun found w =>
      w.Filled i d name b v ∧ ∀ p ∈ found, p.2 ∈ candidates ∧ ∀ t : Transition, p.2 = t.toValue →
        t.guard = guard d.validate → ∃ u, v = some u ∧ Valid d.check u) (Filled i d name b v) := by
    refine meets_resolve
      (φ := fun x => ∀ t : Transition, x = t.toValue → t.guard = guard d.validate →
      ∃ u, v = some u ∧ Valid d.check u) fun x hx => ?_
    obtain ⟨t, rfl, -⟩ := fair x hx
    refine (isEligible hg held t seen).post fun yes w hw => ⟨hw.1, fun passed t' same => ?_⟩
    have same := congrArg Transition.ofValue? same
    rw [Transition.ofValue?_toValue, Transition.ofValue?_toValue] at same
    exact Option.some.inj same ▸ hw.2 passed
  refine .learn (lax vetted found) fun found hf => ?_
  cases found with
  | none => exact lax vetted (hr.meets.post fun _ w hw => ⟨name, b, v, vetted, hw⟩)
  | some p =>
    obtain ⟨n, x⟩ := p
    obtain ⟨mem, passed⟩ := hf (n, x) rfl
    obtain ⟨t, rfl, fair⟩ := fair x mem
    exact apply hg vetted fair changed (passed t rfl) e seen

theorem processEvent (hg : d.Performs g) (vetted : d.Vetted name b v) (e : Event)
    (changed : e.type = "CHANGE" ∧ name = "submitting" → b = true) :
    Meets (Filled i d name b v) (g.processEvent i e) (fun _ => Careful i d) (Careful i d) := by
  refine .learn (lax vetted (node hg)) fun n ⟨node, mem, eq⟩ => ?_
  subst eq
  rw [candidatesFor_toValue, pure_bind]
  refine .learn (lax vetted service?) fun s ⟨_, held⟩ => ?_
  exact taken hg vetted (fun x => Design.fair_event mem) changed held e e
    (.peek fun _ => (quiet hg.sparing).free.record)

theorem settleWanted (hg : d.Performs g) (vetted : d.Vetted name b v) (o : Outcome) :
    Meets (Filled i d name b v) (g.settleWanted i o) (fun _ => Careful i d) (Careful i d) := by
  refine .learn (lax vetted (node hg)) fun n ⟨node, mem, eq⟩ => ?_
  subst eq
  refine .learn (lax vetted .part) fun invocation hi =>
    .learn (lax vetted .part) fun listed hc => ?_
  obtain rfl : node.invoke = invocation := Except.ok.inj hi
  rcases Design.invoke_of_mem mem with none | ⟨rfl, some⟩
  · rw [none] at hc
    cases o.failed <;> cases hc
  · rw [some] at hc
    refine .bind (lax vetted Respects.ofExcept.meets) fun seen => ?_
    refine .learn (lax vetted (.ofExcept (fun _ _ ha hw => ⟨hw, ha⟩) fun _ => id))
      fun candidates hl => ?_
    refine .learn (lax vetted service?) fun s ⟨_, held⟩ => ?_
    refine taken hg vetted (fun x => Design.fair_outcome o.failed hc hl)
      (fun both => both.1.elim) held o.event seen ?_
    exact .ite (fun _ => .peek fun _ => .bind (quiet hg.sparing).free.record fun _ =>
      .peek fun s => (quiet hg.sparing).free.observe s.hooks _) fun _ => .pure

/-- Every item leaves the values vetted. -/
theorem process (hg : d.Performs g) (vetted : d.Vetted name b v) (item : Item)
    (changed : ∀ e, item = .event e → e.type = "CHANGE" ∧ name = "submitting" → b = true) :
    Meets (Filled i d name b v) (g.process i item) (fun _ => Careful i d) (Careful i d) := by
  have still (w : World) (hw : w.Filled i d name b v) : w.Careful i d := ⟨name, b, v, vetted, hw⟩
  cases item with
  | event e => exact processEvent hg vetted e (changed e rfl)
  | outcome o =>
    refine .bind (lax vetted ((quiet hg.sparing).retire o.token).meets) fun active =>
      .ite (fun _ => .ite (fun _ => settleWanted hg vetted o) fun _ => .pure still) fun _ => ?_
    exact lax vetted
      ((Respects.peek fun _ => (quiet hg.sparing).free.record).meets.post fun _ => still)

/-- Publishing leaves the form as it is. -/
theorem publish (hg : d.Performs g) : Respects (Filled i d name b v) (g.publish i) :=
  (quiet hg.sparing).free.publish (fun announcing h => h.noted (by cases announcing <;> trivial))
    fun _ ⟨s, hs, busy, machine, tracked⟩ =>
      ⟨_, change_self _ hs, busy.alike rfl rfl, machine, tracked.same rfl rfl⟩

end Filled

/-! ### Drains -/

/-- The service is drained, and is no such form. -/
def Foreign (i : Nat) (d : Design) (w : World) : Prop :=
  ∃ s, w.services[i]? = some s ∧ s.Busy ∧ s.machine ≠ d.machine

/-- The service is drained; if it is such a form, its values are vetted. -/
def Tended (i : Nat) (d : Design) (w : World) : Prop := w.Foreign i d ∨ w.Careful i d

namespace Foreign

variable {i : Nat} {d : Design} {w : World} {g : Engine}

theorem changed (h : w.Foreign i d) {f : Service → Service}
    (hf : ∀ s : Service, (f s).status = s.status ∧
    (f s).queue.draining = s.queue.draining ∧ (f s).machine = s.machine) :
    (w.change i f).Foreign i d := by
  obtain ⟨s, hs, busy, other⟩ := h
  obtain ⟨status, draining, machine⟩ := hf s
  exact ⟨f s, change_self f hs, busy.alike status draining, machine ▸ other⟩

theorem steady (i : Nat) (d : Design) : Steady i (Foreign i d) where
  busy := fun ⟨s, hs, busy, _⟩ => ⟨s, hs, busy⟩
  spared := by
    rintro w w' spares ⟨s, hs, busy, other⟩
    obtain ⟨s', hs', holds, -⟩ := spares.service s hs
    exact ⟨s', hs', holds.busy busy, holds.machine ▸ other⟩

theorem working (hg : g.Sparing) : g.Working i (Foreign i d) where
  aside := ((steady i d).free hg).aside
  noted := fun _ h => h
  changed := fun hf h => h.changed fun s => by
    obtain ⟨_, _, _, _, eq⟩ := hf s
    rw [eq]
    exact ⟨rfl, rfl, rfl⟩
  calls := (steady i d).sustained hg

theorem publish (hg : g.Sparing) : Respects (Foreign i d) (g.publish i) :=
  (working hg).quiet.free.publish (fun _ h => h) fun _ h => h.changed fun _ => ⟨rfl, rfl, rfl⟩

end Foreign

theorem Filled.dequeued {i : Nat} {d : Design} {name : String} {b : Bool}
    {v : Option Value} {w : World} (h : w.Filled i d name b v) (item : Item) :
    ∃ b', (b' = false → b = false) ∧
    (∀ e, item = .event e → e.type = "CHANGE" ∧ name = "submitting" → b' = true) ∧
    (w.taken i item).Filled i d name b' v := by
  obtain ⟨s, hs, busy, machine, tracked⟩ := h
  obtain ⟨b', still, changed, tracked⟩ := tracked.taken item
  exact ⟨b', still, changed, _, taken_self item hs, busy.alike rfl (Queue.draining_dequeue _),
    machine, tracked.same rfl rfl⟩

variable {i : Nat} {d : Design} {g : Engine}

theorem rounds_tended (hg : d.Performs g) :
    g.Rounds i (Tended i d) (fun _ _ => Tended i d) (fun _ => Tended i d) where
  halted := fun _ => id
  lost := fun _ h _ => h
  skipped := fun h _ _ => h
  processed := by
    rintro w s item (foreign | ⟨name, b, v, vetted, filled⟩) _ _ _
    · refine ((Foreign.working hg.sparing).process item).meets.conseq (fun v hv => ?_)
        (fun _ _ => Or.inl) fun _ => Or.inl
      subst hv
      exact foreign.changed fun s => ⟨rfl, Queue.draining_dequeue _, rfl⟩
    · obtain ⟨b', still, changed, filled⟩ := filled.dequeued item
      refine (Filled.process hg (fun submitted unedited => vetted submitted (still unedited)) item
        changed).conseq (fun v hv => ?_) (fun _ _ => Or.inr) fun _ => Or.inr
      subst hv
      exact filled
  published := by
    rintro w s s' item (foreign | ⟨name, b, v, vetted, filled⟩) _ _ _
    · exact (Foreign.publish hg.sparing).meets.conseq (fun v hv => hv ▸ foreign) (fun _ _ => Or.inl)
        fun _ => Or.inl
    · refine (Filled.lax vetted (Filled.publish hg).meets).conseq (fun u hu => ?_)
        (fun _ u hu => ?_) fun _ => Or.inr
      · subst hu
        exact filled
      · exact Or.inr ⟨name, b, v, vetted, hu⟩

theorem respects_startBody_tended (hg : d.Performs g) : Respects (Tended i d) (g.startBody i) := by
  have rounds := (rounds_tended (i := i) hg).ends_processPending g.bound
  rintro w (foreign | ⟨name, b, v, vetted, filled⟩)
  · have entered : Meets (Foreign i d) (g.startBody i) (fun _ => Tended i d) (Tended i d) :=
      .bind (((Foreign.working hg.sparing).enter .init).meets.conseq (fun _ => id) (fun _ _ => id)
          fun _ => Or.inl) fun _ =>
        .bind ((Foreign.publish hg.sparing).meets.conseq (fun _ => id) (fun _ _ => Or.inl) fun _ =>
          Or.inl) fun _ => rounds
    exact entered w foreign
  · have lax {x : Run Unit} (h : Respects (Filled i d name b v) x) :
        Meets (Filled i d name b v) x (fun _ => Filled i d name b v) (Tended i d) :=
      h.meets.conseq (fun _ => id) (fun _ _ => id) fun _ hw => Or.inr ⟨name, b, v, vetted, hw⟩
    have entered : Meets (Filled i d name b v) (g.startBody i) (fun _ => Tended i d) (Tended i d) :=
      .bind (lax (Filled.enter hg vetted .init)) fun _ => .bind (lax (Filled.publish hg)) fun _ =>
        rounds.pre fun _ hw => Or.inr ⟨name, b, v, vetted, hw⟩
    exact entered w filled

end World

/-- If the service is such a form, its values are vetted, and so were those that it submitted. -/
def Form.Design.Kept (d : Form.Design) (i : Nat) : Account :=
  fun _ s journal _ => s.machine = d.machine →
  ∃ name b v, d.Vetted name b v ∧ d.Tracked i name b v s journal

theorem Form.Design.enduring_kept (d : Form.Design) (i : Nat) : Enduring i (d.Kept i) where
  noted := by
    intro time s e p journal points deed _ _ kept form
    obtain ⟨name, b, v, vetted, tracked⟩ := kept form
    exact ⟨name, b, v, vetted, tracked.noted (Entry.plain_of_deed deed)⟩
  same := by
    intro time s s' journal points same kept form
    obtain ⟨name, b, v, vetted, tracked⟩ := kept (same.machine.symm.trans form)
    exact ⟨name, b, v, vetted, tracked.same same.stateName same.context⟩
  later := fun _ => id

namespace World

open Run Engine Form

variable {i : Nat} {d : Design} {g : Engine} {w : World} {s : Service}

/-- A drain that begins for a service that was tended is one of a form whose values are vetted. -/
theorem Tended.entered {f : Service → Service} {e : Entry} (hs : w.services[i]? = some s)
    (started : (f s).status ≠ .notStarted) (plain : e.Plain i)
    (kept : d.Kept i w.clock (f s) w.journal w.points) :
    (w.entered i f e).Tended i d := by
  have busy : (w.entered i f e).services[i]? = some { f s with queue := (f s).queue.enter } :=
    entered_self hs
  by_cases form : (f s).machine = d.machine
  · obtain ⟨name, b, v, vetted, tracked⟩ := kept form
    refine Or.inr ⟨name, b, v, vetted, _, busy, ⟨rfl, started⟩, form, ?_⟩
    exact ((tracked.noted plain).noted (e := .began i) trivial).same rfl rfl
  · exact Or.inl ⟨_, busy, ⟨rfl, started⟩, form⟩

/-- What was kept of the form while it was drained is kept when the drain is over. -/
theorem Tended.kept {s' : Service} {halt : Option Halt} {points : List Point} (h : w.Tended i d)
    (hs : w.services[i]? = some s) (same : s.Resembles s') :
    d.Kept i w.clock s' (.ended i halt :: w.journal) points := by
  intro form
  have form := same.machine.symm.trans form
  rcases h with ⟨s₁, hs₁, -, other⟩ | ⟨name, b, v, vetted, s₁, hs₁, -, -,
    tracked⟩ <;> cases hs.symm.trans hs₁
  · exact absurd form other
  · exact ⟨name, b, v, vetted,
      (tracked.noted (e := .ended i halt) trivial).same same.stateName same.context⟩

/-- A form that is made anew is idle, and has submitted nothing. -/
theorem kept_of_silent {time : Nat} {journal : List Entry} {points : List Point}
    (silent : Silent i journal points)
    (initial : s.machine = d.machine → s.stateName = .str "idle") :
    d.Kept i time s journal points := by
  intro form
  refine ⟨"idle", false, values? s.context.value, fun submitted => absurd submitted (by decide), ?_⟩
  have fresh : d.Tracked i "idle" false (values? s.context.value) s [] :=
    ⟨initial form, rfl, rfl, rfl, fun t f args earlier hp => nomatch List.suffix_nil.mp hp⟩
  have told := fresh.append silent.journal
  rwa [List.append_nil] at told

theorem regards_kept (hg : d.Performs g) : g.Regards i (fun _ => True) (Upholds i (d.Kept i)) := by
  refine regards_upholds hg.sparing (d.enduring_kept i) ?_ ?_ (respects_startBody_tended hg)
    ((rounds_tended hg).ends_processPending _) ?_ ?_
  · intro w s item hs running _ kept
    refine Tended.entered hs
      ?_ trivial ((d.enduring_kept i).same (s := s) ⟨rfl, rfl, rfl, rfl, rfl, Or.inl rfl⟩ kept)
    show s.status ≠ .notStarted
    rw [running]
    exact nofun
  · intro w s base override context text _ hs _ _ asleep _ _
    have supplied := change_self (fun s => { s with supply := s.supply + 1 }) hs
    refine Tended.entered supplied nofun trivial (kept_of_silent asleep.silent fun form => ?_)
    exact congrArg Machine.initial form
  · intro v s p tended hs head _
    rw [head]
    exact tended.kept hs ⟨rfl, rfl, rfl, rfl, rfl, Or.inl rfl⟩
  · intro v s p halt tended hs head _
    rw [head]
    exact tended.kept hs ⟨rfl, rfl, rfl, rfl, rfl, Or.inl rfl⟩

/-- A form submits only values in which the validation finds nothing, unless they were edited
while their submission was pending: such values are submitted as they are when the submission
failed and is tried again.  It does so in every history, whatever it is started with, and
whatever its callables and those of other services do. -/
theorem submitted_values_valid {m : Machine} (h : d.Validates)
    (made : Machine.create (config d.values d.validate d.submit d.name) .standard = .ok m)
    (fuel : Nat) (looping : Bool) (history : List Command)
    (hs : ((World.start looping).after (.ofBook d.book fuel) history).services[i]? = some s)
    (form : s.machine = m) :
    ∀ t f args earlier, .called (.service i) (.source t) f args :: earlier <:+
      ((World.start looping).after (.ofBook d.book fuel) history).journal →
      edited i earlier = false →
        ∃ v, d.book f args = Stock.callWith d.submit v ∧ Valid d.check v := by
  have upholds : ((World.start looping).after (.ofBook d.book fuel) history).Upholds i (d.Kept i) :=
    upholds_after (fun n => regards_kept (Design.performs_ofBook h n)) trivial fuel looping history
      fun _ _ => trivial
  intro t f args earlier hp unedited
  rcases (upholds.now s hs).either with silent | kept
  · exact absurd (Entry.deed?_called.mpr ⟨rfl, rfl⟩)
      (silent.journal _ (hp.subset List.mem_cons_self))
  · obtain ⟨name, b, v, -, tracked⟩ := kept (form.trans (Design.machine_of_create d made))
    exact tracked.submitted t f args earlier hp unedited

end World

/-! ### A draft

A form that wants an address.  Its address is deleted while it is submitted; when that fails, it
is submitted without one. -/

namespace Draft

def check (values : Value) : Value.Entries :=
  [(.str "email", .bool !((values.entries?.bind (Value.field "email")).any Value.truth))]

/-- The first function validates, the second submits: it returns a future. -/
def design : Form.Design where
  host
    | 0, [values] => .done (.fresh (.map (check values.value)))
    | _, _ => .ask .future fun a => .done (.fresh a.toValue)
  values := [(.str "email", .str "a@b.c")]
  validate := Swing.function 0
  submit := Swing.function 1
  name := .str "form"
  check := check

def change (address : String) : Value :=
  Stock.mapping [("type", .str "CHANGE"), ("name", .str "email"), ("value", .str address)]

def birth : List Command :=
  [.create (Form.config design.values design.validate design.submit design.name) .standard [] true]

def life : List Command :=
  [.start 0 .null, .send 0 (.str "SUBMIT"), .send 0 (change ""), .settle 0 (.failed .noLoop), .turn,
  .send 0 (.str "RETRY")]

def world : World := (World.start true).after (.ofBook design.book 4) (birth ++ life)

/-- What the last entry says, if it is that values are submitted: whether they were edited, and
whether they are valid. -/
def submission? : List Entry → Option (Bool × Bool)
  | .called (.service 0) (.source _)
    (.function .own none (.form .submit) [.function .own none (.host 1) []])
      [c, _, _] :: earlier => (Form.values? c.value).map fun v =>
        (Form.edited 0 earlier, (check v).all (!·.2.truth))
  | _ => none

theorem of_submission {journal : List Entry} {edited valid : Bool}
    (h : submission? journal = some (edited, valid)) :
    ∃ t f args earlier v, journal = .called (.service 0) (.source t) f args :: earlier ∧
    Form.edited 0 earlier = edited ∧
      design.book f args = Stock.callWith design.submit v ∧
      (valid = true ↔ Form.Valid design.check v) := by
  unfold submission? at h
  split at h
  · obtain ⟨v, hv, eq⟩ := Option.map_eq_some_iff.mp h
    cases eq
    refine ⟨_, _, _, _, v, rfl, rfl, Form.Design.book_source (d := design) hv _ _, ?_⟩
    simp [Form.Valid, design]
  · cases h

theorem created :
    Machine.create (Form.config design.values design.validate design.submit design.name) .standard =
    .ok design.machine := Form.Design.create_of_isOk design (by decide +kernel)

theorem born :
    ((World.start true).after (.ofBook design.book 4) birth).services[0]?.map (·.machine) =
    some design.machine := by
  change ((Run.create (Form.config design.values design.validate design.submit design.name)
    .standard [] true).run (World.start true)).2.services[0]?.map (·.machine) = _
  unfold Run.create
  rw [created]
  rfl

/-- Valid values are submitted first, and invalid ones then. -/
theorem submitted_twice : (∃ s, world.services[0]? = some s ∧ s.machine = design.machine) ∧
    (∃ t f args earlier v, .called (.service 0) (.source t) f args :: earlier <:+ world.journal ∧
      design.book f args = Stock.callWith design.submit v ∧ Form.Valid design.check v) ∧
    ∃ t f args earlier v, .called (.service 0) (.source t) f args :: earlier <:+ world.journal ∧
      Form.edited 0 earlier = true ∧ design.book f args = Stock.callWith design.submit v ∧
      ¬ Form.Valid design.check v := by
  have submitted {s : Service} (hs : world.services[0]? = some s)
      (form : s.machine = design.machine) :
      ∀ t f args earlier, .called (.service 0) (.source t) f args :: earlier <:+ world.journal →
        Form.edited 0 earlier = false → ∃ v, design.book f args = Stock.callWith design.submit v ∧
        Form.Valid design.check v :=
    World.submitted_values_valid (d := design) (fun v => rfl) created 4 true (birth ++ life) hs form
  have grown : world = ((World.start true).after (.ofBook design.book 4) birth).after
      (.ofBook design.book 4) life :=
    World.after_append _ _ birth life
  have told : world.journal.tails.filterMap submission? = [(true, false), (false, true)] := by
    decide +kernel
  obtain ⟨s₀, hs₀, hm₀⟩ := Option.map_eq_some_iff.mp born
  obtain ⟨s, hs, hm⟩ := World.machine_after (Engine.tame_ofBook design.book 4)
    (World.atRest_after design.book 4 true birth) life hs₀
  rw [← grown] at hs
  clear grown
  generalize world = w at *
  have said {b valid : Bool} (h : (b, valid) ∈ w.journal.tails.filterMap submission?) :
      ∃ t f args earlier v, .called (.service 0) (.source t) f args :: earlier <:+ w.journal ∧
      Form.edited 0 earlier = b ∧
        design.book f args = Stock.callWith design.submit v ∧
        (valid = true ↔ Form.Valid design.check v) := by
    obtain ⟨journal, suffix, h⟩ := List.mem_filterMap.mp h
    obtain ⟨t, f, args, earlier, v, rfl, rest⟩ := of_submission h
    exact ⟨t, f, args, earlier, v, (List.mem_tails _ _).mp suffix, rest⟩
  rw [told] at said
  refine ⟨⟨s, hs, hm.trans hm₀⟩, ?_, ?_⟩
  · obtain ⟨t, f, args, earlier, -, hp, unedited, -⟩ :=
      said (List.mem_cons_of_mem _ List.mem_cons_self)
    obtain ⟨v, called, valid⟩ := submitted hs (hm.trans hm₀) t f args earlier hp unedited
    exact ⟨t, f, args, earlier, v, hp, called, valid⟩
  · obtain ⟨t, f, args, earlier, v, hp, edited, called, valid⟩ := said List.mem_cons_self
    exact ⟨t, f, args, earlier, v, hp, edited, called, mt valid.mpr nofun⟩

end Draft
end FlatMachine
