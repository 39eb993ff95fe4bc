import FlatMachine.Proofs.Machine.Checked
import FlatMachine.Proofs.Value.Same
import FlatMachine.Proofs.Service.Concerns

/-! # Items that change nothing

A program **keeps** the context it was given if it writes nothing, or only writes that very
context back (**`Prog.Keeps`**); so the action that runs it does (**`Engine.meets_keeping`**).
If all candidates that a state has for an item are internal, with actions that keep the context,
then the item changes neither the state nor the context, and nothing is published
(**`Engine.respects_processTaken`**). -/

namespace FlatMachine

/-- Nothing is written but the context that was given. -/
def Prog.Keeps {α : Type} (c : Context) : Prog α → Prop
  | done _ | fail _ => True
  | pending next => (next c).Keeps c
  | write o next => o = .held c ∧ next.Keeps c
  | ask _ next => ∀ x, (next x).Keeps c
  | handle _ next => ∀ x, (next x).Keeps c

/-- As an action, the callable keeps the context. -/
def Book.Keeps (book : Book) (f : Value) : Prop :=
  ∀ (c : Context) (args : List Object), (book f (.held c :: args)).Keeps c

/-- The candidates that a state has for an item. -/
def Machine.offers (m : Machine) (name : Value) (item : Item) : Except Failure (List Value) := do
  let node ← m.node name
  match item with
  | .event e => match Node.ofValue? node with
    | some n => return n.candidatesFor e.type
    | none => throw (.noMember node.typeName "candidates_for")
  | .outcome o =>
    (← (← node.member "invoke").member (if o.failed then "on_error" else "on_done")).items

theorem Machine.offers_of_event {m : Machine} {name n : Value} {node : Node} (e : Event)
    (hn : m.node name = .ok n) (hv : Node.ofValue? n = some node) :
    m.offers name (.event e) = .ok (node.candidatesFor e.type) := by
  unfold offers
  rw [hn]
  change (match Node.ofValue? n with
    | some n => Except.ok (n.candidatesFor e.type)
    | none => .error (Failure.noMember n.typeName "candidates_for")) = _
  rw [hv]

theorem Machine.offers_event {m : Machine} {name : Value} {e : Event} {candidates : List Value}
    (offered : m.offers name (.event e) = .ok candidates) :
    ∃ node : Node, m.node name = .ok node.toValue ∧ node.candidatesFor e.type = candidates := by
  cases hn : m.node name with
  | error f =>
    unfold offers at offered
    rw [hn] at offered
    cases offered
  | ok n =>
    cases hv : Node.ofValue? n with
    | some node =>
      exact ⟨node, by
        rw [Node.toValue_of_ofValue? hv],
          Except.ok.inj ((offers_of_event e hn hv).symm.trans offered)⟩
    | none =>
      unfold offers at offered
      rw [hn] at offered
      change (match Node.ofValue? n with
        | some n => Except.ok (n.candidatesFor e.type)
        | none => .error (Failure.noMember n.typeName "candidates_for")) = _ at offered
      rw [hv] at offered
      cases offered

theorem Machine.offers_of_outcome {m : Machine} {name n : Value} {o : Outcome}
    (hn : m.node name = .ok n) {invocation listed : Value} (hi : n.member "invoke" = .ok invocation)
    (hc : invocation.member (if o.failed then "on_error" else "on_done") = .ok listed) :
    m.offers name (.outcome o) = listed.items := by
  unfold offers
  rw [hn]
  change (do (← (← n.member "invoke").member (if o.failed then "on_error" else "on_done")).items) =
    _
  rw [hi]
  change (do (← invocation.member (if o.failed then "on_error" else "on_done")).items) = _
  rw [hc]
  rfl

theorem Machine.offers_outcome {m : Machine} {name : Value} {o : Outcome} {candidates : List Value}
    (offered : m.offers name (.outcome o) = .ok candidates) :
    ∃ n invocation listed, m.node name = .ok n ∧
      n.member "invoke" = .ok invocation ∧
      invocation.member (if o.failed then "on_error" else "on_done") = .ok listed ∧
      listed.items = .ok candidates := by
  unfold offers at offered
  cases hn : m.node name with
  | error f => rw [hn] at offered; cases offered
  | ok n =>
    rw [hn] at offered
    change (do (← (← n.member "invoke").member
      (if o.failed then "on_error" else "on_done")).items) = _ at offered
    cases hi : n.member "invoke" with
    | error f => rw [hi] at offered; cases offered
    | ok invocation =>
      rw [hi] at offered
      change (do (← invocation.member (if o.failed then "on_error" else "on_done")).items) =
        _ at offered
      cases hc : invocation.member (if o.failed then "on_error" else "on_done") with
      | error f => rw [hc] at offered; cases offered
      | ok listed => rw [hc] at offered; exact ⟨n, invocation, listed, rfl, hi, hc, offered⟩

/-- Whatever may be taken on the item is internal, and its actions keep the context. -/
def Service.Unmoved (book : Book) (s : Service) (item : Item) : Prop :=
  ∃ candidates, s.machine.offers s.stateName item = .ok candidates ∧
    ∀ v ∈ candidates, ∃ t : Transition,
    v = t.toValue ∧ t.isInternal s.stateName = true ∧ ∀ f ∈ t.actions, book.Keeps f

/-- The service is drained, in the state and with the context that it had, and has published
nothing since. -/
structure World.Abides (i : Nat) (s : Service) (earlier : List Entry) (w : World) : Prop where
  service : ∃ s', w.services[i]? = some s' ∧ s'.Busy ∧ s'.machine = s.machine ∧
    s'.stateName = s.stateName ∧
    s'.context = s.context
  journal : ∃ later, w.journal = later ++ earlier ∧ ∀ sn, .published i sn ∉ later

namespace World.Abides

variable {i : Nat} {s : Service} {earlier : List Entry} {w w' : World}

theorem noted {e : Entry} (h : w.Abides i s earlier) (other : ∀ sn, e ≠ .published i sn) :
    (w.noted e).Abides i s earlier := by
  obtain ⟨later, journal, unpublished⟩ := h.journal
  refine ⟨h.service, e :: later, by rw [noted_journal, journal]; rfl, fun sn published => ?_⟩
  rcases List.mem_cons.mp published with head | published
  · exact other sn head.symm
  · exact unpublished sn published

theorem changed {f : Service → Service} (h : w.Abides i s earlier)
    (hf : ∀ s : Service, (f s).status = s.status ∧
    (f s).queue.draining = s.queue.draining ∧ (f s).machine = s.machine ∧
    (f s).stateName = s.stateName)
    (context : ∀ s', w.services[i]? = some s' → (f s').context = s'.context) :
    (w.change i f).Abides i s earlier := by
  obtain ⟨s', hs', busy, machine, name, same⟩ := h.service
  obtain ⟨status, draining, machine', name'⟩ := hf s'
  refine ⟨⟨f s', change_self f hs', busy.alike status draining, machine'.trans machine,
    name'.trans name, (context s' hs').trans same⟩, h.journal⟩

theorem known (h : w.Abides i s earlier) : ∀ s', w.services[i]? = some s' →
    s'.machine = s.machine ∧ s'.stateName = s.stateName ∧ s'.context = s.context := by
  intro s' hs'
  obtain ⟨s₁, hs₁, -, same⟩ := h.service
  cases hs₁.symm.trans hs'
  exact same

/-- Looking at the service finds its machine, its live state and its context unchanged. -/
theorem service? :
    Run.Meets (Abides i s earlier) (Run.service i) (fun s' w => w.Abides i s earlier ∧
    s'.machine = s.machine ∧ s'.stateName = s.stateName ∧ s'.context = s.context)
      (Abides i s earlier) :=
  .known fun _ hw => hw.known

theorem steady (i : Nat) (s : Service) (earlier : List Entry) : Steady i (Abides i s earlier) where
  busy := fun h => by
    obtain ⟨s', hs', busy, -⟩ := h.service
    exact ⟨s', hs', busy⟩
  spared := by
    intro w w' spares h
    obtain ⟨s', hs', busy, machine, name, context⟩ := h.service
    obtain ⟨s'', hs'', holds, -⟩ := spares.service s' hs'
    obtain ⟨later, journal, unpublished⟩ := h.journal
    obtain ⟨more, written, others⟩ := spares.journal
    refine ⟨⟨s'', hs'', holds.busy busy, holds.machine.trans machine, holds.stateName.trans name,
      holds.context.trans context⟩, more ++ later, by
      rw [written, journal, List.append_assoc], fun sn published => ?_⟩
    rcases List.mem_append.mp published with published | published
    · exact others _ published rfl
    · exact unpublished sn published

theorem quiet {g : Engine} (hg : g.Sparing) : g.Quiet i (Abides i s earlier) where
  aside := ((steady i s earlier).free hg).aside
  noted := fun he h => h.noted fun sn published => by
    subst published
    cases he with
    | free free => cases free
  changed := fun hf h => by
    refine h.changed (fun s => ?_) fun s' _ => ?_
    · obtain ⟨_, _, eq⟩ := hf s
      rw [eq]
      exact ⟨rfl, rfl, rfl, rfl⟩
    · obtain ⟨_, _, eq⟩ := hf s'
      rw [eq]
  calls := (steady i s earlier).sustained hg

end World.Abides

namespace Engine

open Run World

/-! ### Actions that keep the context -/

/-- As an action, the callable hands the context back. -/
def Keeps (g : Engine) (f : Value) : Prop := ∀ owner c args,
  Meets (fun _ => True) (g.call owner f (.held c :: args) (some c)) (fun r _ => r.2 = some c)
    fun _ => True

theorem meets_adopt_held {K : World → Prop} (owner : Owner) (c : Context) :
    Meets K (adopt owner (.held c)) (fun c' _ => c' = c) fun _ => True :=
  .bind .any fun _ => .pure fun _ _ => rfl

theorem meets_exec_kept (g : Engine) (owner : Owner) {α : Type} {c : Context} (p : Prog α)
    (h : p.Keeps c) :
    Meets (fun _ => True) (g.exec owner p (some c)) (fun r _ => r.2 = some c) fun _ => True := by
  induction p with
  | done a => exact .pure fun _ _ => rfl
  | fail f => exact .fail fun _ => id
  | pending next ih => exact ih c h
  | write o next ih =>
    obtain ⟨rfl, h⟩ := h
    refine .bind (meets_adopt_held owner c) fun c' => .given (fun _ hw => hw) fun same => ?_
    subst same
    exact (ih h).pre fun _ _ => trivial
  | ask r next ih => exact .bind .any fun x => ih x (h x)
  | handle r next ih => exact .bind .any fun x => ih x (h x)

theorem keeps_ofBook {book : Book} {f : Value} (h : book.Keeps f) (fuel : Nat) :
    (ofBook book fuel).Keeps f := by
  intro owner c args
  cases fuel with
  | zero => exact .throw fun _ => id
  | succ fuel => exact meets_exec_kept (ofBook book fuel) owner _ (h c args)

variable {g : Engine} {i : Nat} {s : Service} {earlier : List Entry}

theorem meets_keeping (hg : g.Sparing) {actions : List Value} (h : ∀ f ∈ actions, g.Keeps f)
    (c : Context) (e : Event) : Meets (Abides i s earlier) (g.runActions (.service i) actions c e)
      (fun c' w => w.Abides i s earlier ∧ c' = c) (Abides i s earlier) := by
  refine meets_runActions (φ := (· = c)) (fun hw => hw.noted nofun)
    ((Abides.steady i s earlier).sustained hg) (fun f hf c' same => ?_) rfl
  subst same
  refine (h f hf _ _ _).post fun r _ kept => ?_
  rw [kept]
  rfl

/-! ### Items that leave everything as it is -/

theorem respects_act (hg : g.Sparing) {actions : List Value} (h : ∀ f ∈ actions, g.Keeps f)
    (e : Event) :
    Respects (Abides i s earlier) (g.act i (.tuple actions) e) := by
  refine Meets.learn Abides.service? fun s' ⟨_, _, context⟩ => ?_
  rw [context, runActionsOf_tuple]
  refine .learn (meets_keeping hg h s.context e) fun c same => ?_
  subst same
  exact .update fun w hw => hw.changed (fun _ => ⟨rfl, rfl, rfl, rfl⟩) fun s' hs' =>
    (hw.known s' hs').2.2.symm

theorem respects_apply (hg : g.Sparing) {t : Transition}
    (internal : t.isInternal s.stateName = true) (h : ∀ f ∈ t.actions, g.Keeps f) (e seen : Event) :
    Respects (Abides i s earlier) (g.apply i t.toValue e seen) := by
  refine Meets.learn Abides.service? fun s' ⟨_, name, _⟩ => ?_
  rw [name, internality_toValue, internal]
  exact respects_act hg h seen

/-- Taking whichever candidate was found changes nothing, if all candidates are internal and their
actions keep the context. -/
theorem respects_taken (hg : g.Sparing) {candidates : List Value}
    (h : ∀ v ∈ candidates, ∃ t : Transition,
      v = t.toValue ∧ t.isInternal s.stateName = true ∧ ∀ f ∈ t.actions, g.Keeps f)
    {found : Option (Nat × Value)}
    (mem : ∀ p ∈ found, p.2 ∈ candidates) (e seen : Event) {rest : Run Unit}
    (hr : Respects (Abides i s earlier) rest) :
    Respects (Abides i s earlier)
      (match found with | some (_, t) => g.apply i t e seen | none => rest) := by
  cases found with
  | none => exact hr
  | some p =>
    obtain ⟨n, v⟩ := p
    obtain ⟨t, rfl, internal, keeps⟩ := h v (mem (n, v) rfl)
    exact respects_apply hg internal keeps e seen

theorem respects_process (hg : g.Sparing) {item : Item} {candidates : List Value}
    (offered : s.machine.offers s.stateName item = .ok candidates)
    (h : ∀ v ∈ candidates, ∃ t : Transition,
      v = t.toValue ∧ t.isInternal s.stateName = true ∧ ∀ f ∈ t.actions, g.Keeps f) :
    Respects (Abides i s earlier) (g.process i item) := by
  have quiet : g.Quiet i (Abides i s earlier) := Abides.quiet hg
  have node := quiet.free.nodeOf fun w hw s' hs' => ⟨(hw.known s' hs').1, (hw.known s' hs').2.1⟩
  cases item with
  | event e =>
    refine Meets.learn node fun n hn => ?_
    obtain ⟨node, hnode, same⟩ := Machine.offers_event offered
    cases hnode.symm.trans hn
    rw [candidatesFor_toValue, same, pure_bind]
    refine Respects.peek fun s' =>
      .learn (quiet.resolved candidates s'.context e) fun found mem => ?_
    exact respects_taken hg h mem e e (.peek fun _ => quiet.free.record)
  | outcome o =>
    refine .bind (quiet.retire o.token) fun active =>
      .ite (fun _ => .ite (fun _ => ?_) fun _ => .pure) fun _ => ?_
    · refine Meets.learn node fun n hn => .learn .part fun invocation hi =>
        .learn .part fun listed hc => ?_
      refine Respects.bind .ofExcept fun seen =>
        .learn (.ofExcept (fun _ _ hl hw => ⟨hw, hl⟩) fun _ => id) fun cs hl => ?_
      obtain rfl : candidates = cs :=
        Except.ok.inj (offered.symm.trans ((Machine.offers_of_outcome hn hi hc).trans hl))
      refine Respects.peek fun s' =>
        .learn (quiet.resolved candidates s'.context seen) fun found mem => ?_
      refine respects_taken hg h mem o.event seen
        (.ite (fun _ => .peek fun _ => .bind quiet.free.record fun _ => ?_)
        fun _ => .pure)
      exact .peek fun s' => quiet.free.observe s'.hooks _
    · exact .peek fun _ => quiet.free.record

/-- An item on which nothing but what keeps the state and the context can be taken changes
nothing, and nothing is published. -/
theorem respects_processTaken (hg : g.Sparing) {item : Item} {candidates : List Value}
    (offered : s.machine.offers s.stateName item = .ok candidates)
    (h : ∀ v ∈ candidates, ∃ t : Transition,
      v = t.toValue ∧ t.isInternal s.stateName = true ∧ ∀ f ∈ t.actions, g.Keeps f) :
    Respects (Abides i s earlier) (g.processTaken i s item) := by
  refine .bind (respects_process hg offered h) fun _ =>
    .learn Abides.service? fun s' ⟨_, name, context⟩ => ?_
  rw [name, context, Value.same_self]
  exact Respects.ite (fun _ => .ite (fun changed => by simp at changed) fun _ => .pure)
    fun _ => .pure

end Engine

end FlatMachine
