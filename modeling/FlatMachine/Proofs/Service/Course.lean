import FlatMachine.Proofs.Machine.Soundness
import FlatMachine.Proofs.Service.Lifeline
import FlatMachine.Proofs.Service.Order
import FlatMachine.Proofs.Service.Account

/-! # The course of a service

While a service is drained, it is in some state, and its lifeline is known so far
(**`World.Along`**).  Each part of processing an item adds to it what that part tells: entering a
state, leaving it, moving on (**`World.Along.enter`**, **`World.Along.exit`**,
**`World.Along.move`**).  So an item leads a leg further or nowhere (**`World.Along.process`**),
and whenever nobody drains the service, and none of its drains was halted, its lifeline follows
legs that end in the live state (**`World.lifeline_followed`**). -/

namespace FlatMachine

/-! ### On the way -/

namespace World

/-- The service is drained, in that state, and what it told so far is known, unless a drain of it
was halted. -/
structure Along (i : Nat) (m : Machine) (hooks : List Hook) (name : Value) (R : Line → Prop)
    (w : World) : Prop where
  service : ∃ s, w.services[i]? = some s ∧ s.Busy ∧ s.machine = m ∧ s.hooks = hooks ∧
    s.stateName = name
  begun : .began i ∈ w.journal
  line : Unhalted i w.journal → R (lifeline i w.journal)

namespace Along

variable {i : Nat} {m : Machine} {hooks : List Hook} {name : Value} {R R' : Line → Prop}
  {w w' : World}

theorem mono (h : w.Along i m hooks name R) (hR : ∀ line, R line → R' line) :
    w.Along i m hooks name R' :=
  ⟨h.service, h.begun, fun unhalted => hR _ (h.line unhalted)⟩

theorem noted {e : Entry} (h : w.Along i m hooks name R) (untold : e.told? i = none) :
    (w.noted e).Along i m hooks name R := by
  refine ⟨h.service, List.mem_cons_of_mem _ h.begun, fun unhalted => ?_⟩
  rw [noted_journal, lifeline_cons untold]
  exact h.line unhalted.tail

theorem told {e : Entry} {x : Value × Told} (h : w.Along i m hooks name R)
    (told : e.told? i = some x) :
    (w.noted e).Along i m hooks name (After R [x]) := by
  refine ⟨h.service, List.mem_cons_of_mem _ h.begun, fun unhalted => ?_⟩
  rw [noted_journal, lifeline_told told]
  exact ⟨_, h.line unhalted.tail, rfl⟩

theorem changed {f : Service → Service} (h : w.Along i m hooks name R) {target : Value}
    (hf : ∀ s : Service, (f s).status = s.status ∧ (f s).queue.draining = s.queue.draining ∧
      (f s).machine = s.machine ∧
      (f s).hooks = s.hooks ∧ (s.stateName = name → (f s).stateName = target)) :
    (w.change i f).Along i m hooks target R := by
  obtain ⟨s, hs, busy, machine, same, there⟩ := h.service
  obtain ⟨status, draining, machine', same', target⟩ := hf s
  refine ⟨⟨f s, change_self f hs, busy.alike status draining, machine'.trans machine,
    same'.trans same, target there⟩, h.begun, h.line⟩

theorem steady (i : Nat) (m : Machine) (hooks : List Hook) (name : Value) (R : Line → Prop) :
    Steady i (Along i m hooks name R) where
  busy := fun h => by
    obtain ⟨s, hs, busy, -⟩ := h.service
    exact ⟨s, hs, busy⟩
  spared := by
    intro w w' spares h
    obtain ⟨s, hs, busy, machine, same, there⟩ := h.service
    obtain ⟨s', hs', holds, hooks'⟩ := spares.service s hs
    obtain ⟨later, journal, others⟩ := spares.journal
    refine ⟨⟨s', hs', holds.busy busy, holds.machine.trans machine, hooks'.trans same,
      holds.stateName.trans there⟩, ?_, ?_⟩
    · rw [journal]
      exact List.mem_append_right _ h.begun
    · rw [journal, lifeline_append others]
      exact fun unhalted => h.line unhalted.of_append

theorem known (h : w.Along i m hooks name R) : ∀ s, w.services[i]? = some s →
    s.machine = m ∧ s.stateName = name := by
  intro s hs
  obtain ⟨s', hs', -, machine, -, there⟩ := h.service
  cases hs.symm.trans hs'
  exact ⟨machine, there⟩

theorem acting {g : Engine} (hg : g.Sparing) : g.Acting i (Along i m hooks name R) where
  aside := ((steady i m hooks name R).free hg).aside
  noted := fun he h => h.noted he.untold
  changed := fun hf h => h.changed fun s => by
    obtain ⟨_, _, _, eq⟩ := hf s
    rw [eq]
    exact ⟨rfl, rfl, rfl, rfl, id⟩
  calls := (steady i m hooks name R).sustained hg

/-! ### What is told on the way -/

section Telling

open Run Engine

variable {g : Engine}

theorem invoke (hg : g.Sparing) {role : Role} {f : Value} {args : List Object} {x : Value × Told}
    (told : (Entry.called (.service i) role f args).told? i = some x) :
    Meets (Along i m hooks name R) (g.invoke (.service i) role f args)
      (fun _ => Along i m hooks name (After R [x])) fun _ => True := by
  refine .bind (Q := fun _ => Along i m hooks name (After R [x])) (.note fun _ hw => hw.told told)
    fun _ => ?_
  exact .bind ((acting hg).calls _ _ _ _).meets.loosen fun _ => .pure fun _ => id

/-- Calling the hooks of a moment adds to the lifeline what they hear, in order. -/
theorem observe (hg : g.Sparing) {moment : Moment} (other : moment ≠ .error) (left : List Hook)
    (args : List Object) :
    Meets (Along i m hooks name R) (g.observe (.service i) left moment args)
      (fun _ => Along i m hooks name (After R (heard left moment (moment.about args)))) fun _ =>
        True := by
  induction left generalizing R with
  | nil => exact .pure fun _ hw => hw.mono fun line hr => ⟨line, hr, (List.append_nil line).symm⟩
  | cons hook rest ih =>
    refine .bind (Q := fun _ => Along i m hooks name (After R ((hook.method? moment).toList.map
      (·, .hook moment (moment.about args))))) ?_ fun _ => ih.post fun _ _ hw =>
        hw.mono fun line h => ?_
    · dsimp only
      cases hook.method? moment with
      | none => exact .pure fun _ hw => hw.mono fun line hr =>
        ⟨line, hr, (List.append_nil line).symm⟩
      | some f => exact .discard (invoke hg (if_pos ⟨rfl, other⟩))
    · unfold heard
      rw [List.flatMap_cons]
      exact h.append

/-- Looking at the service finds the machine, the hooks and the live state that are known of it. -/
theorem service? : Meets (Along i m hooks name R) (Run.service i)
    (fun s w => w.Along i m hooks name R ∧ s.machine = m ∧ s.hooks = hooks ∧ s.stateName = name)
      fun _ => True := by
  refine (Meets.known fun w hw s hs => ?_).loosen
  obtain ⟨s', hs', -, known⟩ := hw.service
  cases hs.symm.trans hs'
  exact known

theorem node (hg : g.Sparing) : Meets (Along i m hooks name R) (Run.node i)
    (fun n w => w.Along i m hooks name R ∧ m.node name = .ok n) fun _ => True :=
  ((acting hg).quiet.free.nodeOf fun _ hw => hw.known).loosen

theorem observeService (hg : g.Sparing) {moment : Moment} (other : moment ≠ .error)
    (args : List Object) :
    Meets (Along i m hooks name R) (g.observeService i moment args)
      (fun _ => Along i m hooks name (After R (heard hooks moment (moment.about args)))) fun _ =>
        True := by
  refine .learn service? fun s ⟨_, same, _⟩ => ?_
  rw [same]
  exact observe hg other hooks args

theorem act (hg : g.Sparing) (actions : Value) (e : Event) :
    Meets (Along i m hooks name R) (g.act i actions e)
      (fun _ => Along i m hooks name R) fun _ => True :=
  ((acting hg).act actions e).meets.loosen

theorem callSource (hg : g.Sparing) (src : Value) (e : Event) (t : Token) :
    Meets (Along i m hooks name R) (g.callSource i src e t)
      (fun _ => Along i m hooks name (After R [(src, .source)])) fun _ => True := by
  have called (s : Service) : Meets (Along i m hooks name R) (do
      return (← g.invoke (.service i) (.source t) src
        [.held s.context, .fresh e.toValue, .fresh (.sourceAccess i t)]).value)
      (fun _ => Along i m hooks name (After R [(src, .source)])) fun _ => True :=
    .bind (invoke hg (if_pos rfl)) fun _ => .pure fun _ => id
  unfold Engine.callSource
  split
  · refine .bind (Q := fun _ => Along i m hooks name R) (.modify fun w hw => ?_) fun _ =>
      .learn service? fun s _ => called s
    exact (acting hg).aside (w := w) (.plain rfl rfl rfl (Nat.le_refl _) rfl rfl List.prefix_rfl) hw
  · exact .learn service? fun s _ => called s

/-- The source is called once; if that fails, or what it returned cannot be scheduled, the
failure goes on. -/
theorem startInvocation (hg : g.Sparing) (invocation : Value) (e : Event) :
    Meets (Along i m hooks name R) (g.startInvocation i invocation e) (fun _ w => ∃ f,
      invocation.member "src" = .ok f ∧ w.Along i m hooks name (After R [(f, .source)])) fun _ =>
        True := by
  have quiet (R : Line → Prop) : g.Quiet i (Along i m hooks name R) := (acting hg).quiet
  refine .bind (quiet R).free.mint.meets.loosen fun t =>
    .bind ((quiet R).activate _ invocation).meets.loosen fun _ => ?_
  refine .learn service? fun s _ => .bind (quiet R).free.record.meets.loosen fun _ => ?_
  refine .bind (Q := fun _ w => ∃ f, invocation.member "src" = .ok f ∧
    w.Along i m hooks name (After R [(f, .source)]))
    (.rescue (F := fun _ => True) ?_ (fun f => .bind (.discard .any) fun _ => .fail fun _ => id)
      fun _ => id)
    fun (a, cancel) => .ofExists fun f => .given (fun _ hw => hw.1) fun src => ?_
  · refine .learn Meets.part.loosen fun f src => ?_
    refine .bind (callSource hg f e _) fun result =>
      .bind Respects.ofExcept.meets.loosen fun (a, cancel) => ?_
    exact .bind ((quiet _).free.schedule a).meets.loosen fun _ => .pure fun _ hw => ⟨f, src, hw⟩
  · refine .bind (((quiet _).attach _ cancel).meets.loosen.pre fun _ hw => hw.2) fun callback => ?_
    refine .bind ((quiet _).free.callCancel? _ callback).meets.loosen fun failure => ?_
    refine .bind ((quiet _).free.reportCancelFailure? _ failure).meets.loosen fun _ => ?_
    exact ((quiet _).free.whenSettled a _).meets.loosen.post fun _ _ hw => ⟨f, src, hw⟩

/-! ### From state to state -/

theorem enter (hg : g.Sparing) (e : Event) : Meets (Along i m hooks name R) (g.enter i e)
    (fun _ => Along i m hooks name (After R (m.entrance hooks name))) fun _ => True := by
  refine .learn (node hg) fun n hn => .learn Meets.part.loosen fun actions _ =>
    .bind (act hg actions e) fun _ => ?_
  refine .learn service? fun s ⟨_, _, there⟩ => .bind (observeService hg (by decide) _) fun _ => ?_
  have about : Moment.enter.about [.fresh s.stateName, .held s.context] = [name] :=
    congrArg ([·]) there
  have silent (called : m.source name = .ok none) (w : World)
      (hw : w.Along i m hooks name
        (After R (heard hooks .enter (Moment.enter.about [.fresh s.stateName, .held s.context])))) :
      w.Along i m hooks name (After R (m.entrance hooks name)) := by
    rw [Machine.entrance_of_source called, Option.toList_none, List.map_nil,
      List.append_nil, ← about]
    exact hw
  refine .learn Meets.part.loosen fun invocation hi => ?_
  have source := Machine.source_eq hn hi
  refine .ite (fun present => .learn Meets.part.loosen fun auto ha => ?_) fun absent =>
    .pure fun w hw => silent ?_ w hw
  · rw [if_neg (by simpa using present), ha] at source
    refine .ite (fun yes => ?_) fun no => .pure fun w hw => silent ?_ w hw
    · refine (startInvocation hg invocation e).post fun _ w ⟨f, hf, hw⟩ => hw.mono fun line h => ?_
      have called : m.source name = .ok (some f) := by
        rw [source, hf]
        exact if_pos yes
      rw [Machine.entrance_of_source called, ← about]
      exact h.append
    · rw [source]
      exact if_neg no
  · rw [source]
    exact if_pos (by simpa using absent)

theorem exit (hg : g.Sparing) (e : Event) : Meets (Along i m hooks name R) (g.exit i e)
    (fun _ => Along i m hooks name (After R (heard hooks .exit [name]))) fun _ => True := by
  refine .learn (node hg) fun n _ => .learn Meets.part.loosen fun actions _ =>
    .bind (act hg actions e) fun _ => ?_
  refine .learn service? fun s ⟨_, _, there⟩ => .bind (observeService hg (by decide) _) fun _ => ?_
  have about : Moment.exit.about [.fresh s.stateName, .held s.context] = [name] :=
    congrArg ([·]) there
  rw [about]
  refine .bind (Q := fun _ => Along i m hooks name (After R (heard hooks .exit [name])))
    (.note fun _ hw => hw.noted rfl) fun _ => ?_
  exact (acting hg).quiet.free.cancelInvocation.meets.loosen

theorem move (hg : g.Sparing) (target : Value) (e : Event) :
    Meets (Along i m hooks name R) (g.move i name target e)
    (fun _ => Along i m hooks target (After R (heard hooks .transition [name, target, e.toValue] ++
      m.entrance hooks target))) fun _ => True := by
  refine .bind (Q := fun _ => Along i m hooks target R) (.update fun w hw => ?_) fun _ => ?_
  · exact hw.changed fun s => ⟨rfl, rfl, rfl, rfl, fun _ => rfl⟩
  · refine .bind (Q := fun _ => Along i m hooks target R) (.note fun _ hw => hw.noted rfl)
      fun _ => ?_
    refine .learn service? fun s _ => .bind (acting hg).quiet.free.record.meets.loosen fun _ => ?_
    refine .bind (observeService hg (by decide) _) fun _ => (enter hg e).post fun _ w hw =>
      hw.mono fun line h => ?_
    exact h.append

/-- Asking a transition whether it is internal adds nothing to the lifeline. -/
theorem internality (hg : g.Sparing) (v : Value) :
    Meets (Along i m hooks name R) (g.internality (.service i) v name)
    (fun internal w => w.Along i m hooks name R ∧ ∀ t : Transition, v = t.toValue →
      internal = .bool (t.isInternal name))
    fun _ => True := by
  unfold Engine.internality
  split
  · rename_i t ht
    refine .pure fun w hw => ⟨hw, fun t' ht' => ?_⟩
    rw [ht', Transition.ofValue?_toValue] at ht
    rw [Option.some.inj ht]
  · rename_i other
    refine ((acting hg).quiet.callMember v _ _).meets.loosen.post fun _ w hw => ⟨hw, fun t ht => ?_⟩
    rw [ht, Transition.ofValue?_toValue] at other
    cases other

/-- Publishing tells nothing of the course. -/
theorem publish (hg : g.Sparing) : Respects (Along i m hooks name R) (g.publish i) :=
  (acting hg).quiet.free.publish (fun announcing h => h.noted (by cases announcing <;> rfl))
      fun _ h => h.changed fun _ => ⟨rfl, rfl, rfl, rfl, id⟩

end Telling

end Along

/-- The service is drained, and its lifeline leads to the live state. -/
def Travels (i : Nat) (w : World) : Prop :=
  ∃ m hooks name, w.Along i m hooks name (m.Leads hooks name)

namespace Along

open Run Engine

variable {g : Engine} {i : Nat} {m : Machine} {hooks : List Hook} {name : Value}

/-- A candidate leads a leg further, or nowhere. -/
theorem apply (hg : g.Sparing) {v : Value} (typed : m.Typed → ∃ t : Transition, v = t.toValue)
    (e seen : Event) :
    Meets (Along i m hooks name (m.Leads hooks name)) (g.apply i v e seen)
      (fun _ => Travels i) fun _ => True := by
  refine .learn service? fun s ⟨machine, _, there⟩ => ?_
  rw [there]
  refine .learn (internality hg v) fun internal itself => .ite (fun _ => ?_) fun external => ?_
  · exact .learn Meets.part.loosen fun actions _ => (act hg actions seen).post fun _ w hw =>
      ⟨m, hooks, name, hw⟩
  · refine .learn Meets.part.loosen fun target ht => ?_
    have apart : m.Typed → target.same name = false := fun hm => by
      obtain ⟨t, rfl⟩ := typed hm
      cases ht
      rw [itself t rfl] at external
      have apart : t.isInternal name = false := Bool.eq_false_iff.mpr external
      exact (Bool.or_eq_false_iff.mp apart).2
    refine .bind (acting hg).quiet.free.lookUp.meets.loosen fun _ => .bind (exit hg e) fun _ => ?_
    refine .learn Meets.part.loosen fun actions _ => .bind (act hg actions seen) fun _ =>
      (move hg target e).post fun _ w hw => ?_
    refine ⟨m, hooks, target, hw.mono fun line h =>
      Machine.Leads.leg (l := ⟨name, target, e⟩) apart ?_⟩
    unfold Leg.trace
    rw [List.append_assoc]
    exact h.append

/-- Taking whichever candidate was found leads a leg further or nowhere. -/
theorem taken (hg : g.Sparing) {candidates : List Value} {found : Option (Nat × Value)}
    (typed : m.Typed → ∀ v ∈ candidates, ∃ t : Transition, v = t.toValue)
    (mem : ∀ p ∈ found, p.2 ∈ candidates) (e seen : Event) {rest : Run Unit}
    (hr : Respects (Along i m hooks name (m.Leads hooks name)) rest) :
    Meets (Along i m hooks name (m.Leads hooks name))
      (match found with | some (_, t) => g.apply i t e seen | none => rest)
      (fun _ => Travels i) fun _ => True := by
  cases found with
  | none => exact hr.meets.loosen.post fun _ _ hw => ⟨m, hooks, name, hw⟩
  | some p =>
    obtain ⟨n, v⟩ := p
    exact apply hg (fun hm => typed hm v (mem (n, v) rfl)) e seen

theorem candidatesFor (hg : g.Sparing) {R : Line → Prop} {n : Value} (hn : m.node name = .ok n)
    (e : Event) :
    Meets (Along i m hooks name R) (g.candidatesFor (.service i) n e.type) (fun candidates w =>
      w.Along i m hooks name R ∧ (m.Typed → ∀ v ∈ candidates, ∃ t : Transition, v = t.toValue))
        fun _ => True := by
  unfold Engine.candidatesFor
  split
  · rename_i node hv
    exact .pure fun _ hw => ⟨hw, fun hm => hm.candidate (Machine.offers_of_event e hn hv)⟩
  · rename_i other
    have asked : Respects (Along i m hooks name R) _ :=
      (acting hg).quiet.callMember n "candidates_for" [.fresh (.str e.type)]
    refine .bind asked.meets.loosen fun _ => Respects.ofExcept.meets.loosen.post fun _ _ hw =>
      ⟨hw, fun hm => ?_⟩
    obtain ⟨node, hv⟩ := hm.node hn
    rw [hv] at other
    cases other

theorem processEvent (hg : g.Sparing) (e : Event) :
    Meets (Along i m hooks name (m.Leads hooks name)) (g.processEvent i e)
      (fun _ => Travels i) fun _ => True := by
  refine .learn (node hg) fun n hn => .learn (candidatesFor hg hn e) fun candidates typed => ?_
  refine .learn service? fun s _ =>
    .learn ((acting hg).quiet.resolved candidates s.context e).loosen fun found mem => ?_
  exact taken hg typed mem e e (.peek fun _ => (acting hg).quiet.free.record)

theorem settleWanted (hg : g.Sparing) (o : Outcome) :
    Meets (Along i m hooks name (m.Leads hooks name)) (g.settleWanted i o)
      (fun _ => Travels i) fun _ => True := by
  refine .learn (node hg) fun n hn => .learn Meets.part.loosen fun invocation hi =>
    .learn Meets.part.loosen fun listed hc => ?_
  refine .bind Respects.ofExcept.meets.loosen fun seen => ?_
  refine .learn (.ofExcept (fun _ _ ha hw => ⟨hw, ha⟩) fun _ _ => trivial) fun candidates hl => ?_
  have typed (hm : m.Typed) := hm.candidate ((Machine.offers_of_outcome hn hi hc).trans hl)
  refine .learn service? fun s _ =>
    .learn ((acting hg).quiet.resolved candidates s.context seen).loosen fun found mem => ?_
  refine taken hg typed mem o.event seen
    (.ite (fun _ => .peek fun _ => .bind (acting hg).quiet.free.record fun _ => ?_)
    fun _ => .pure)
  exact .peek fun s => (acting hg).quiet.free.observe s.hooks _

/-- An item leads a leg further, or nowhere. -/
theorem process (hg : g.Sparing) (item : Item) :
    Meets (Along i m hooks name (m.Leads hooks name)) (g.process i item)
      (fun _ => Travels i) fun _ => True := by
  cases item with
  | event e => exact processEvent hg e
  | outcome o =>
    refine .bind ((acting hg).quiet.retire o.token).meets.loosen fun active =>
      .ite (fun _ => .ite (fun _ => ?_) fun _ => ?_)
      fun _ => ?_
    · exact settleWanted hg o
    · exact .pure fun _ hw => ⟨m, hooks, name, hw⟩
    · exact (Respects.peek fun _ => (acting hg).quiet.free.record).meets.loosen.post fun _ _ hw =>
        ⟨m, hooks, name, hw⟩

end Along

end World

/-! ### Whenever nobody drains the service -/

theorem Silent.lifeline {i : Nat} {journal : List Entry} {points : List Point}
    (h : Silent i journal points) :
    lifeline i journal = [] := by
  have told : FlatMachine.lifeline i (journal ++ []) = [] := lifeline_append h.journal
  rwa [List.append_nil] at told

/-- The service was drained, and its lifeline leads to the live state. -/
def Service.Course (i : Nat) : Account := fun _ s journal _ =>
  Unhalted i journal → .began i ∈ journal ∧ s.machine.Leads s.hooks s.stateName (lifeline i journal)

theorem Service.enduring_course (i : Nat) : Enduring i (Service.Course i) where
  noted := by
    intro time s e p journal points deed _ _ course unhalted
    obtain ⟨begun, leads⟩ := course unhalted.tail
    have untold : e.told? i = none :=
      Option.eq_none_iff_forall_ne_some.mpr fun x told => deed (Entry.deed?_of_told told)
    rw [lifeline_cons untold]
    exact ⟨List.mem_cons_of_mem _ begun, leads⟩
  same := by
    intro time s s' journal points same course
    unfold Course
    rw [same.machine, same.hooks, same.stateName]
    exact course
  later := fun _ => id

namespace World

open Run Engine

variable {g : Engine} {i : Nat} {w : World} {s : Service}

/-- A drain begins, after something was written that tells nothing. -/
theorem Along.entered {f : Service → Service} {e : Entry} {R : Line → Prop}
    (hs : w.services[i]? = some s) (started : (f s).status ≠ .notStarted)
    (untold : e.told? i = none) (line : Unhalted i w.journal → R (lifeline i w.journal)) :
    (w.entered i f e).Along i (f s).machine (f s).hooks (f s).stateName R where
  service := ⟨_, entered_self hs, ⟨rfl, started⟩, rfl, rfl, rfl⟩
  begun := List.mem_cons_self
  line := fun unhalted => by
    show R (lifeline i (.began i :: e :: w.journal))
    rw [lifeline_cons rfl, lifeline_cons untold]
    exact line unhalted.tail.tail

theorem rounds_travels (hg : g.Sparing) :
    g.Rounds i (Travels i) (fun _ _ => Travels i) fun _ _ => True where
  halted := fun _ _ => trivial
  lost := fun _ _ _ => trivial
  skipped := fun h _ _ => h
  processed := by
    rintro w s item ⟨m, hooks, name, along⟩ _ _ _
    have processed : Meets (Along i m hooks name (m.Leads hooks name)) (g.process i item)
        (fun _ => Travels i) fun _ => True :=
      Along.process hg item
    refine processed.pre fun v hv => ?_
    subst hv
    have taken := along.changed (f := fun s => { s with queue := s.queue.dequeue.2 }) fun s =>
      ⟨rfl, Queue.draining_dequeue _, rfl, rfl, id⟩
    exact taken.noted rfl
  published := by
    rintro w s s' item ⟨m, hooks, name, along⟩ _ _ _
    have published : Respects (Along i m hooks name (m.Leads hooks name)) (g.publish i) :=
      Along.publish hg
    refine published.meets.conseq (fun v hv => ?_) (fun _ _ hw => ⟨m, hooks, name, hw⟩) fun _ _ =>
      trivial
    subst hv
    exact along

/-- The initial state is entered, and leads to itself. -/
theorem meets_startBody_travels (hg : g.Sparing) :
    Meets (fun w => ∃ m hooks, w.Along i m hooks m.initial (· = []))
    (g.startBody i) (fun _ => Travels i) fun _ => True := by
  refine .ofExists fun m => .ofExists fun hooks => .bind (Along.enter hg .init) fun _ => ?_
  refine .bind ((Along.publish (R := m.Leads hooks m.initial) hg).meets.loosen.pre fun w hw =>
    hw.mono fun line h => ?_)
    fun _ => ((rounds_travels hg).ends_processPending _).pre fun w hw => ⟨m, hooks, m.initial, hw⟩
  obtain ⟨_, rfl, rfl⟩ := h
  exact ⟨[], rfl, fun _ => nofun, (List.append_nil _).symm⟩

theorem regards_course (hg : g.Sparing) :
    g.Regards i (fun _ => True) (Upholds i (Service.Course i)) := by
  refine regards_upholds hg (Service.enduring_course i) ?_ ?_ (meets_startBody_travels hg)
    ((rounds_travels hg).ends_processPending _) ?_ ?_
  · intro w s item hs running _ course
    refine ⟨s.machine, s.hooks, s.stateName,
      Along.entered (f := fun s => { s with queue := s.queue.enqueue item }) hs ?_ rfl
      fun unhalted => (course unhalted).2⟩
    show s.status ≠ .notStarted
    rw [running]
    exact nofun
  · intro w s base override context text _ hs _ _ asleep _ _
    have supplied := change_self (fun s => { s with supply := s.supply + 1 }) hs
    refine ⟨s.machine, s.hooks, Along.entered (s := { s with supply := s.supply + 1 })
      (f := started context) supplied nofun rfl fun _ => asleep.silent.lifeline⟩
  · rintro v s p ⟨m, hooks, name, along⟩ hs head _ unhalted
    rw [head] at unhalted ⊢
    obtain ⟨s', hs', -, rfl, rfl, rfl⟩ := along.service
    cases hs.symm.trans hs'
    rw [lifeline_cons rfl]
    exact ⟨List.mem_cons_of_mem _ along.begun, along.line unhalted.tail⟩
  · intro v s p halt _ _ head _ unhalted
    rw [head] at unhalted
    exact absurd List.mem_cons_self (unhalted halt)

/-- Whenever nobody drains a service, and no drain of it was halted, its lifeline is complete.
Before its first drain nothing was told.  From then on, the hooks were told that the initial
state was entered, and of each leg that its source was exited, that it was passed over to the
target on the event, and that the target was entered; the legs follow one another, and the last
of them ended in the live state.  The source of an invocation that starts by itself was called
after the hooks were told that its state was entered, each time, and no source was called
otherwise.  If the definition is typed, no leg leads back to where it started. -/
theorem lifeline_followed (book : Book) (fuel : Nat) (looping : Bool)
    (history : List Command) (i : Nat) :
    ∀ p ∈ ((World.start looping).after (.ofBook book fuel) history).passed, ∀ s,
      p.services[i]? = some s →
      s.queue.draining = false → Unhalted i p.journal →
      (.began i ∉ p.journal → lifeline i p.journal = []) ∧
      (.began i ∈ p.journal →
        ∃ legs, s.machine.Follows s.hooks legs s.stateName (lifeline i p.journal)) := by
  generalize hw : (World.start looping).after (.ofBook book fuel) history = w
  have upholds : w.Upholds i (Service.Course i) :=
    hw ▸ upholds_after (fun n => regards_course (Engine.sparing_ofBook book n)) trivial fuel looping
      history fun _ _ => trivial
  intro p hp s hs idle unhalted
  have either : ∃ points, Silent i p.journal points ∨ s.Course i w.clock p.journal points := by
    rcases List.mem_cons.mp hp with rfl | hp
    · exact ⟨_, (upholds.now s hs).either⟩
    · obtain ⟨later, earlier, split⟩ := List.append_of_mem hp
      exact ⟨_, upholds.past p earlier ⟨later, split.symm⟩ s hs idle⟩
  obtain ⟨points, silent | course⟩ := either
  · exact ⟨fun _ => silent.lifeline, fun begun => absurd rfl (silent.journal _ begun)⟩
  · obtain ⟨begun, leads⟩ := course unhalted
    exact ⟨fun unbegun => absurd begun unbegun, fun _ => leads⟩

end World

/-- What was told, with the states that it is about. -/
def Told.shown : Told → String × List String
  | hook m about => (m.method, (about.take 2).map (·.text))
  | source => ("source", [])

namespace Swing

/-- A hook that is told of every moment. -/
def observer :
    Hook := [("on_enter", function 5), ("on_exit", function 6), ("on_transition", function 7)]

def birth : List Command := [.create machine.toValue .standard [observer] true]

/-- The swing goes there and comes back. -/
def ride : List Command := [.start 0 .null, .send 0 (.str "GO"), .send 0 (.str "BACK")]

def ridden : World := (World.start true).after (.ofBook book 4) (birth ++ ride)

/-- The observer is told of two legs, and the source is called whenever the swing is here. -/
theorem legs_told_in_order : ∃ s legs, ridden.services[0]? = some s ∧
    s.machine.Follows s.hooks legs s.stateName (lifeline 0 ridden.journal) ∧
    (∀ l ∈ legs, l.target.same l.source = false) ∧
    (lifeline 0 ridden.journal).map (·.2.shown) = [("on_enter", ["here"]), ("source", []),
      ("on_exit", ["here"]), ("on_transition", ["here", "there"]), ("on_enter", ["there"]),
      ("on_exit", ["there"]), ("on_transition", ["there", "here"]), ("on_enter", ["here"]),
        ("source", [])] := by
  have followed {s : Service} (hs : ridden.now.services[0]? = some s) :=
    World.lifeline_followed book 4 true (birth ++ ride) 0 ridden.now List.mem_cons_self s hs
  have quiet {s : Service} (hs : ridden.services[0]? = some s) : s.queue.draining = false :=
    ((World.atRest_after book 4 true (birth ++ ride)).quiet hs).1
  have grown :
      ridden = ((World.start true).after (.ofBook book 4) birth).after (.ofBook book 4) ride :=
    World.after_append _ _ birth ride
  have created : ((World.start true).after (.ofBook book 4) birth).services[0]?.map (·.machine) =
    some machine := by rfl
  have ended : ridden.journal.all (fun e => !e.isHalt) = true := by decide +kernel
  have begun : ridden.journal.any (fun | .began j => j == 0 | _ => false) = true := by
    decide +kernel
  have told : (lifeline 0 ridden.journal).map (·.2.shown) = [("on_enter", ["here"]), ("source", []),
      ("on_exit", ["here"]), ("on_transition", ["here", "there"]), ("on_enter", ["there"]),
      ("on_exit", ["there"]), ("on_transition", ["there", "here"]), ("on_enter", ["here"]),
      ("source", [])] := by
    decide +kernel
  obtain ⟨s₀, hs₀, hm₀⟩ := Option.map_eq_some_iff.mp created
  obtain ⟨s, hs, hm⟩ :=
    World.machine_after (Engine.tame_ofBook book 4) (World.atRest_after book 4 true birth) ride hs₀
  rw [← grown] at hs
  have hm := hm.trans hm₀
  clear grown created
  generalize ridden = w at *
  have unhalted : Unhalted 0 w.journal := unhalted_of_all ended
  have begun : .began 0 ∈ w.journal := by
    obtain ⟨e, he, first⟩ := List.any_eq_true.mp begun
    cases e with
    | began j => exact beq_iff_eq.mp first ▸ he
    | _ => cases first
  obtain ⟨legs, follows⟩ := (followed hs (quiet hs) unhalted).2 begun
  exact ⟨s, legs, hs, follows, follows.apart (hm ▸ checked.typed), told⟩

end Swing

end FlatMachine
