import FlatMachine.Service.Step
import FlatMachine.Proofs.World.Meets
import FlatMachine.Proofs.World.Advances

/-! # What the work of a service respects

Processing an item calls callbacks, writes entries of a few sorts and changes a few fields of its
service.  So an assertion outlasts it if it outlasts those.

* **`Engine.Public`**: the assertion outlasts callbacks, and what anybody may do to the service
  at any time: have it hand out a number, or empty its slot and call the cancel callback that was
  in it.
* **`Engine.Quiet`**: it outlasts as well what the drain does apart from calling actions, hooks
  and sources.
* **`Engine.Acting`**: it outlasts actions, and a new context.
* **`Engine.Working`**: it outlasts the rest too, with a new live state.  So it outlasts the
  processing of any item (**`Engine.Working.process`**).

What is left out is what a drain does between items: taking them, its two ends, and publishing,
for which **`Engine.Public.publish`** says what has to be outlasted. -/

namespace FlatMachine

/-! ### Entries and changes -/

/-- What anybody may write about the service. -/
inductive Entry.Public (i : Nat) : Entry → Prop where
  | record (level : Level) (text : String) : Public i (.record level text)
  | cancel (t : Option Token) (f : Value) (args : List Object) :
      Public i (.called (.service i) (.cancel t) f args)
  | error (f : Value) (args : List Object) : Public i (.called (.service i) (.hook .error) f args)
  | faulted (f : Failure) : Public i (.faulted i f)
  | cancelled (t : Token) : Public i (.cancelled i t)

/-- What is written in processing an item of the service, but for the calls of actions, hooks and
sources. -/
inductive Entry.Quiet (i : Nat) : Entry → Prop where
  | free {e : Entry} (free : e.Public i) : Quiet i e
  | guard (f : Value) (args : List Object) : Quiet i (.called (.service i) .guard f args)
  | member (name : String) (f : Value) (args : List Object) :
      Quiet i (.called (.service i) (.member name) f args)
  | activated (t : Token) (invocation : Value) (before : Slot) :
      Quiet i (.activated i t invocation before)
  | attached (t : Token) (f : Value) : Quiet i (.attached i t f)
  | retired (t : Token) : Quiet i (.retired i t)

/-- What is written in processing an item of the service, but for the calls of hooks and sources. -/
inductive Entry.Acting (i : Nat) : Entry → Prop where
  | quiet {e : Entry} (quiet : e.Quiet i) : Acting i e
  | action (f : Value) (args : List Object) : Acting i (.called (.service i) .action f args)

/-- What is written in processing an item of the service. -/
inductive Entry.Working (i : Nat) : Entry → Prop where
  | acting {e : Entry} (acting : e.Acting i) : Working i e
  | hook (m : Moment) (f : Value) (args : List Object) :
      Working i (.called (.service i) (.hook m) f args)
  | source (t : Token) (f : Value) (args : List Object) :
      Working i (.called (.service i) (.source t) f args)
  | exited (name : Value) : Working i (.exited i name)
  | moved (source target : Value) : Working i (.moved i source target)

/-- What is written in publishing a snapshot of the service. -/
inductive Entry.Announcing (i : Nat) : Entry → Prop where
  | published (sn : Snapshot) : Announcing i (.published i sn)
  | notified (listener : String) (sn : Snapshot) : Announcing i (.notified i listener sn)
  | listener (f : Value) (args : List Object) : Announcing i (.called (.service i) .listener f args)

namespace Service

/-- The slot was emptied, or another number handed out. -/
inductive Public (s : Service) : Service → Prop where
  | supply (n : Nat) : Public s { s with supply := n }
  | vacate : Public s { s with slot := .empty }

/-- Only the slot and the numbers handed out are others. -/
def Quiet (s s' : Service) : Prop := ∃ slot supply, s' = { s with slot, supply }

/-- Only the context, the slot and the numbers handed out are others. -/
def Acting (s s' : Service) : Prop := ∃ context slot supply, s' = { s with context, slot, supply }

/-- Only the live state, the context, the slot and the numbers handed out are others. -/
def Working (s s' : Service) : Prop :=
  ∃ stateName context slot supply, s' = { s with stateName, context, slot, supply }

theorem Public.quiet {s s' : Service} (h : s.Public s') : s.Quiet s' := by
  cases h with
  | supply n => exact ⟨s.slot, n, rfl⟩
  | vacate => exact ⟨.empty, s.supply, rfl⟩

theorem Quiet.acting {s s' : Service} (h : s.Quiet s') : s.Acting s' := by
  obtain ⟨slot, supply, rfl⟩ := h
  exact ⟨s.context, slot, supply, rfl⟩

theorem Acting.working {s s' : Service} (h : s.Acting s') : s.Working s' := by
  obtain ⟨context, slot, supply, rfl⟩ := h
  exact ⟨s.stateName, context, slot, supply, rfl⟩

end Service

namespace Engine

open Run

/-- The assertion outlasts callbacks, and what anybody may do to the service. -/
structure Public (g : Engine) (i : Nat) (K : World → Prop) : Prop where
  aside : ∀ {w w' : World}, w.Advances w' → K w → K w'
  noted : ∀ {w : World} {e : Entry}, e.Public i → K w → K (w.noted e)
  changed : ∀ {w : World} {f : Service → Service}, (∀ s : Service, s.Public (f s)) → K w →
    K (w.change i f)
  calls : ∀ owner f args c, Respects K (g.call owner f args c)

/-- The assertion outlasts callbacks, and what is done quietly in processing an item of the
service. -/
structure Quiet (g : Engine) (i : Nat) (K : World → Prop) : Prop where
  aside : ∀ {w w' : World}, w.Advances w' → K w → K w'
  noted : ∀ {w : World} {e : Entry}, e.Quiet i → K w → K (w.noted e)
  changed : ∀ {w : World} {f : Service → Service}, (∀ s : Service, s.Quiet (f s)) → K w →
    K (w.change i f)
  calls : ∀ owner f args c, Respects K (g.call owner f args c)

/-- The assertion outlasts callbacks, and what is done in processing an item, but for calling
hooks and sources and for moving. -/
structure Acting (g : Engine) (i : Nat) (K : World → Prop) : Prop where
  aside : ∀ {w w' : World}, w.Advances w' → K w → K w'
  noted : ∀ {w : World} {e : Entry}, e.Acting i → K w → K (w.noted e)
  changed : ∀ {w : World} {f : Service → Service}, (∀ s : Service, s.Acting (f s)) → K w →
    K (w.change i f)
  calls : ∀ owner f args c, Respects K (g.call owner f args c)

/-- The assertion outlasts callbacks, and whatever is done in processing an item of the service. -/
structure Working (g : Engine) (i : Nat) (K : World → Prop) : Prop where
  aside : ∀ {w w' : World}, w.Advances w' → K w → K w'
  noted : ∀ {w : World} {e : Entry}, e.Working i → K w → K (w.noted e)
  changed : ∀ {w : World} {f : Service → Service}, (∀ s : Service, s.Working (f s)) → K w →
    K (w.change i f)
  calls : ∀ owner f args c, Respects K (g.call owner f args c)

variable {g : Engine} {i : Nat} {K : World → Prop}

theorem Quiet.free (h : g.Quiet i K) : g.Public i K :=
  ⟨h.aside, fun he => h.noted (.free he), fun hf => h.changed fun s => (hf s).quiet, h.calls⟩

theorem Acting.quiet (h : g.Acting i K) : g.Quiet i K :=
  ⟨h.aside, fun he => h.noted (.quiet he), fun hf => h.changed fun s => (hf s).acting, h.calls⟩

theorem Working.acting (h : g.Working i K) : g.Acting i K :=
  ⟨h.aside, fun he => h.noted (.acting he), fun hf => h.changed fun s => (hf s).working, h.calls⟩

theorem Working.quiet (h : g.Working i K) : g.Quiet i K := h.acting.quiet

/-! ### What anybody may do -/

namespace Public

theorem note (h : g.Public i K) {e : Entry} (he : e.Public i) : Respects K (note e) :=
  fun _ => h.noted he

theorem record (h : g.Public i K) {level : Level} {text : String} :
    Respects K (record level text) :=
  h.note (.record level text)

theorem mint (h : g.Public i K) : Respects K (mint (.service i)) :=
  .peek fun _ => .bind (fun _ => h.changed fun _ => .supply _) fun _ => .pure

theorem lookUp (h : g.Public i K) {α : Type} {e : Except Failure α} : Respects K (lookUp i e) := by
  cases e with
  | ok a => exact .pure
  | error f => exact .bind (h.note (.faulted f)) fun _ => .fail

theorem node (h : g.Public i K) : Respects K (node i) := .peek fun _ => h.lookUp

/-- The node is the one that the definition has for the live state. -/
theorem nodeOf (h : g.Public i K) {m : Machine} {name : Value}
    (known : ∀ w, K w → ∀ s, w.services[i]? = some s → s.machine = m ∧ s.stateName = name) :
    Meets K (Run.node i) (fun n w => K w ∧ m.node name = .ok n) K := by
  refine .learn (.known known) fun s hs => ?_
  rw [hs.1, hs.2]
  cases hn : m.node name with
  | ok n => exact .pure fun _ hw => ⟨hw, rfl⟩
  | error f => exact .bind (h.note (.faulted f)).meets fun _ => .fail fun _ => id

theorem currentSnapshot (h : g.Public i K) (changed : Bool) :
    Respects K (currentSnapshot i changed) :=
  .bind h.node fun _ => .bind .member fun _ => .peek fun _ => .bind h.mint fun _ => .pure

theorem whenSettled (h : g.Public i K) (a : AwaitableId) (waiter : Waiter) :
    Respects K (whenSettled a waiter) := by
  refine .lookNow fun v hv => ?_
  split
  · rename_i found
    exact .modify fun _ hw => hw ▸ h.aside (.joined found waiter) hv
  · rename_i found
    exact .modify fun _ hw => hw ▸ h.aside (.told found waiter) hv
  · exact .fail fun _ hw => hw ▸ hv

theorem schedule (h : g.Public i K) (a : AwaitableId) : Respects K (schedule i a) := by
  unfold Run.schedule
  refine .peek fun s => .lookNow fun v hv => .ite (fun _ => ?_) fun _ => .fail fun _ hw => hw ▸ hv
  split
  · exact .pure fun _ hw => hw ▸ hv
  · rename_i found
    exact .modify fun _ _ => h.aside (.scheduled found) hv
  · exact .fail fun _ hw => hw ▸ hv

/-- A callback that is called in a role in which anybody may have it called. -/
theorem invoke (h : g.Public i K) {role : Role} {f : Value} {args : List Object}
    (he : (Entry.called (.service i) role f args).Public i) :
    Respects K (g.invoke (.service i) role f args) :=
  .bind (h.note he) fun _ => .bind (h.calls _ _ _ _) fun _ => .pure

/-- The error hooks are called. -/
theorem observe (h : g.Public i K) (hooks : List Hook) (args : List Object) :
    Respects K (g.observe (.service i) hooks .error args) := by
  refine .forM fun hook _ => ?_
  split
  · exact .pure
  · exact .discard (h.invoke (.error _ _))

theorem callCancel? (h : g.Public i K) (t : Option Token) (f : Option Value) :
    Respects K (g.callCancel? (.service i) t f) := by
  cases f with
  | none => exact .pure
  | some f =>
    refine .rescue ?_ fun _ => .bind h.record fun _ => .pure
    exact .bind (.discard (h.invoke (.cancel _ _ _))) fun _ => .pure

theorem reportCancelFailure? (h : g.Public i K) (t : Option Token) (failure : Option Failure) :
    Respects K (g.reportCancelFailure? i t failure) := by
  cases failure with
  | none => exact .pure
  | some failure => exact .rescue (.peek fun s => h.observe s.hooks _) fun _ => h.record

theorem cancelInvocation (h : g.Public i K) : Respects K (g.cancelInvocation i) := by
  have clear : Respects K (clear i) := by
    refine .peek fun s => .bind (fun _ => h.changed fun _ => .vacate) fun _ => ?_
    cases s.slot.token with
    | none => exact .pure
    | some t => exact .bind (h.note (.cancelled t)) fun _ => .pure
  exact .bind clear fun _ => .bind (h.callCancel? _ _) fun _ => h.reportCancelFailure? _ _

/-- Publishing writes and calls what it announces, and replaces the snapshot. -/
theorem publish (h : g.Public i K)
    (announced : ∀ {w : World} {e : Entry}, e.Announcing i → K w → K (w.noted e))
    (shown : ∀ {w : World} (sn : Snapshot), K w →
      K (w.change i fun s => { s with snapshot := sn })) :
    Respects K (g.publish i) := by
  refine .bind (h.currentSnapshot true) fun sn => .bind (fun _ => shown sn) fun _ => ?_
  refine .bind (fun _ => announced (.published sn)) fun _ =>
    .peek fun s => .forM fun listener _ => ?_
  unfold notify
  split
  · exact .discard
      (.bind (fun _ => announced (.listener _ _)) fun _ => .bind (h.calls _ _ _ _) fun _ => .pure)
  · exact fun _ => announced (.notified _ _)

end Public

/-! ### Quiet computations -/

/-- What is resolved is one of the candidates, and what is so of those that may be taken is so of
it. -/
theorem meets_resolve {candidates : List Value} {c : Context} {e : Event} {φ : Value → Prop}
    (eligible : ∀ v ∈ candidates,
      Meets K (g.isEligible (.service i) v c e) (fun yes w => K w ∧ (yes = true → φ v)) K) :
    Meets K (g.resolve (.service i) candidates c e)
      (fun found w => K w ∧ ∀ p ∈ found, p.2 ∈ candidates ∧ φ p.2) K := by
  unfold Engine.resolve
  generalize 0 = n
  induction candidates generalizing n with
  | nil => exact .pure fun _ hw => ⟨hw, nofun⟩
  | cons v rest ih =>
    obtain ⟨here, others⟩ := List.forall_mem_cons.mp eligible
    refine .learn here fun yes taken => .ite (fun holds => .pure fun _ hw => ⟨hw, ?_⟩) fun _ => ?_
    · rintro _ ⟨⟩
      exact ⟨List.mem_cons_self, taken holds⟩
    · refine (ih others (n + 1)).post fun _ _ hw => ⟨hw.1, fun p hp => ?_⟩
      obtain ⟨mem, holds⟩ := hw.2 p hp
      exact ⟨List.mem_cons_of_mem v mem, holds⟩

namespace Quiet

theorem note (h : g.Quiet i K) {e : Entry} (he : e.Quiet i) : Respects K (note e) :=
  fun _ => h.noted he

theorem update (h : g.Quiet i K) {f : Service → Service} (hf : ∀ s : Service, s.Quiet (f s)) :
    Respects K (update i f) := fun _ => h.changed hf

/-- A callback that is called in a role in which it is called quietly. -/
theorem invoke (h : g.Quiet i K) {role : Role} {f : Value} {args : List Object}
    (he : (Entry.called (.service i) role f args).Quiet i) :
    Respects K (g.invoke (.service i) role f args) :=
  .bind (h.note he) fun _ => .bind (h.calls _ _ _ _) fun _ => .pure

theorem callMember (h : g.Quiet i K) (v : Value) (name : String) (args : List Object) :
    Respects K (g.callMember (.service i) v name args) :=
  .bind .member fun _ => .bind (h.invoke (.member _ _ _)) fun _ => .pure

theorem guardHolds (h : g.Quiet i K) (t : Transition) (c : Context) (e : Event) :
    Respects K (g.guardHolds (.service i) t c e) :=
  .ite (fun _ => .pure) fun _ => .bind (h.invoke (.guard _ _)) fun _ => .pure

theorem isEligible (h : g.Quiet i K) (candidate : Value) (c : Context) (e : Event) :
    Respects K (g.isEligible (.service i) candidate c e) := by
  unfold Engine.isEligible
  split
  · exact h.guardHolds _ c e
  · exact .bind (h.callMember _ _ _) fun _ => .pure

theorem internality (h : g.Quiet i K) (candidate current : Value) :
    Respects K (g.internality (.service i) candidate current) := by
  unfold Engine.internality
  split
  · exact .pure
  · exact h.callMember _ _ _

/-- What is resolved is one of the candidates. -/
theorem resolved (h : g.Quiet i K) (candidates : List Value) (c : Context) (e : Event) :
    Meets K (g.resolve (.service i) candidates c e)
      (fun found w => K w ∧ ∀ p ∈ found, p.2 ∈ candidates) K := by
  have found := meets_resolve (φ := fun _ => True) fun v (_ : v ∈ candidates) =>
    (h.isEligible v c e).meets.post fun _ _ hw => ⟨hw, fun _ => trivial⟩
  exact found.post fun _ _ hw => ⟨hw.1, fun p hp => (hw.2 p hp).1⟩

theorem resolve (h : g.Quiet i K) (candidates : List Value) (c : Context) (e : Event) :
    Respects K (g.resolve (.service i) candidates c e) :=
  (h.resolved candidates c e).post fun _ _ hw => hw.1

theorem candidatesFor (h : g.Quiet i K) (node : Value) (type : String) :
    Respects K (g.candidatesFor (.service i) node type) := by
  unfold Engine.candidatesFor
  split
  · exact .pure
  · exact .bind (h.callMember _ _ _) fun _ => .ofExcept

theorem retire (h : g.Quiet i K) (t : Token) : Respects K (retire i t) := by
  refine .peek fun s => ?_
  show Respects K (do
    Run.update i fun s' => { s' with slot := (s.slot.retire t).1 }
    if (s.slot.retire t).2 = true then Run.note (.retired i t)
    return (s.slot.retire t).2)
  refine .bind (h.update fun s' => ⟨_, s'.supply, rfl⟩) fun _ => ?_
  exact .ite (fun _ => .bind (h.note (.retired t)) fun _ => .pure) fun _ => .pure

theorem activate (h : g.Quiet i K) (t : Token) (invocation : Value) :
    Respects K (activate i t invocation) :=
  .peek fun s => .bind (h.update fun s' => ⟨_, s'.supply, rfl⟩) fun _ =>
    h.note (.activated t invocation s.slot)

theorem attach (h : g.Quiet i K) (t : Token) (f : Value) : Respects K (attach i t f) := by
  refine .peek fun s => ?_
  show Respects K (do
    Run.update i fun s' => { s' with slot := (s.slot.attach t f).1 }
    if (!f.isNull) = true then Run.note (.attached i t f)
    return (s.slot.attach t f).2)
  refine .bind (h.update fun s' => ⟨_, s'.supply, rfl⟩) fun _ => ?_
  exact .ite (fun _ => .bind (h.note (.attached t f)) fun _ => .pure) fun _ => .pure

/-- The hooks are called, if that may be written. -/
theorem observeService (h : g.Quiet i K) {m : Moment} {args : List Object}
    (hooked : ∀ {w f}, K w → K (w.noted (.called (.service i) (.hook m) f args))) :
    Respects K (g.observeService i m args) := by
  refine .peek fun s => .forM fun hook _ => ?_
  split
  · exact .pure
  · exact .discard (.bind (fun _ => hooked) fun _ => .bind (h.calls _ _ _ _) fun _ => .pure)

/-- A source is called, if that may be written. -/
theorem callSource (h : g.Quiet i K) {src : Value} {e : Event} {t : Token}
    (sourced : ∀ {w s}, K w → w.services[i]? = some s →
      K (w.noted (.called (.service i) (.source t) src
      [.held s.context, .fresh e.toValue, .fresh (.sourceAccess i t)]))) :
    Respects K (g.callSource i src e t) := by
  have called (s : Service) : Meets (fun w => K w ∧ w.services[i]? = some s) (do
      return (← g.invoke (.service i) (.source t) src
        [.held s.context, .fresh e.toValue, .fresh (.sourceAccess i t)]).value)
      (fun _ => K) K :=
    .bind (.bind (.note fun _ hw => sourced hw.1 hw.2) fun _ =>
      .bind (h.calls _ _ _ _).meets fun _ => .pure fun _ => id)
      fun _ => .pure fun _ => id
  unfold Engine.callSource
  split
  · exact .bind (fun _ => h.aside (.plain rfl rfl rfl (Nat.le_refl _) rfl rfl List.prefix_rfl))
      fun _ => .read called
  · exact .read called

/-- An invocation is launched, if its source may be called. -/
theorem launch (h : g.Quiet i K) {invocation : Value} {e : Event} {t : Token}
    (called : ∀ {src t}, invocation.member "src" = .ok src → Respects K (g.callSource i src e t)) :
    Respects K (g.launch i invocation e t) := by
  refine Meets.learn .part fun src hsrc => ?_
  exact Respects.meets (.bind (called hsrc) fun result => .bind .ofExcept fun (a, cancel) =>
    .bind (h.free.schedule a) fun _ => .pure)

/-- An invocation is started, if its source may be called. -/
theorem startInvocation (h : g.Quiet i K) {invocation : Value} {e : Event}
    (called : ∀ {src t}, invocation.member "src" = .ok src → Respects K (g.callSource i src e t)) :
    Respects K (g.startInvocation i invocation e) := by
  refine .bind h.free.mint fun t => .bind (h.activate _ invocation) fun _ => ?_
  refine .peek fun s => .bind h.free.record fun _ => ?_
  refine .bind (.rescue (h.launch called) fun f => .bind (.discard (h.retire _)) fun _ => .fail)
    fun (a, cancel) => ?_
  refine .bind (h.attach _ cancel) fun callback => ?_
  refine .bind (h.free.callCancel? _ callback) fun failure => ?_
  exact .bind (h.free.reportCancelFailure? _ failure) fun _ => h.free.whenSettled a _

end Quiet

/-! ### Work -/

/-- What each action makes of the context, all of them make of it in turn, if they may be
written. -/
theorem meets_runActions {owner : Owner} {actions : List Value} {e : Event} {φ : Context → Prop}
    (noted : ∀ {w f c}, K w → K
      (w.noted (.called owner .action f [.held c, .fresh e.toValue, .fresh (.actionAccess owner)])))
    (calls : ∀ owner f args c, Respects K (g.call owner f args c))
    (acts : ∀ f ∈ actions, ∀ c, φ c → Meets (fun _ => True)
      (g.call owner f [.held c, .fresh e.toValue, .fresh (.actionAccess owner)] (some c))
      (fun r _ => φ (r.2.getD c)) fun _ => True) {c : Context} (hc : φ c) :
    Meets K (g.runActions owner actions c e) (fun c' w => K w ∧ φ c') K := by
  induction actions generalizing c with
  | nil => exact .pure fun _ hw => ⟨hw, hc⟩
  | cons f rest ih =>
    obtain ⟨here, others⟩ := List.forall_mem_cons.mp acts
    refine .bind (Q := fun c' w => K w ∧ φ c')
        (.bind (Q := fun _ => K) (.note fun _ => noted) fun _ => ?_) fun c' =>
      .given (fun _ hw => hw.2) fun hc' => (ih others hc').pre fun _ hw => hw.1
    refine .bind (Q := fun r w => K w ∧ φ (r.2.getD c)) ?_ fun r => .pure fun _ => id
    exact ((here c hc).and (calls _ _ _ _)).conseq (fun _ hw => ⟨trivial, hw⟩) (fun _ _ => And.symm)
      fun _ => And.right

/-- Actions are run on the live context, if their calls may be written, and another context. -/
theorem act_of_noted {e : Event}
    (noted : ∀ {w f c}, K w →
      K (w.noted (.called (.service i) .action f
        [.held c, .fresh e.toValue, .fresh (.actionAccess (.service i))])))
    (calls : ∀ owner f args c, Respects K (g.call owner f args c))
    (committed : ∀ {w} c, K w → K (w.change i fun s => { s with context := c })) (actions : Value) :
    Respects K (g.act i actions e) := by
  refine .peek fun s => .bind ?_ fun c => fun _ => committed c
  refine .ite (fun _ => .bind .ofExcept fun fs => ?_) fun _ => .pure
  have run : Meets K (g.runActions (.service i) fs s.context e) (fun _ w => K w ∧ True) K :=
    meets_runActions noted calls (fun _ _ _ _ => .any) trivial
  exact run.post fun _ _ hw => hw.1

namespace Acting

theorem act (h : g.Acting i K) (actions : Value) (e : Event) : Respects K (g.act i actions e) :=
  act_of_noted (h.noted (.action _ _)) h.calls
    (fun c => h.changed fun s => ⟨c, s.slot, s.supply, rfl⟩) actions

end Acting

namespace Working

theorem note (h : g.Working i K) {e : Entry} (he : e.Working i) : Respects K (note e) :=
  fun _ => h.noted he

theorem observeService (h : g.Working i K) (m : Moment) (args : List Object) :
    Respects K (g.observeService i m args) :=
  h.quiet.observeService fun hw => h.noted (.hook m _ _) hw

theorem startInvocation (h : g.Working i K) (invocation : Value) (e : Event) :
    Respects K (g.startInvocation i invocation e) :=
  h.quiet.startInvocation fun _ => h.quiet.callSource fun hw _ => h.noted (.source _ _ _) hw

theorem enter (h : g.Working i K) (e : Event) : Respects K (g.enter i e) := by
  refine .bind h.quiet.free.node fun n => .bind .member fun actions =>
    .bind (h.acting.act actions e) fun _ => ?_
  refine .peek fun s => .bind (h.observeService _ _) fun _ =>
    .bind .member fun invocation => .ite (fun _ => ?_) fun _ => .pure
  exact .bind .member fun auto => .ite (fun _ => h.startInvocation invocation e) fun _ => .pure

theorem exit (h : g.Working i K) (e : Event) : Respects K (g.exit i e) := by
  refine .bind h.quiet.free.node fun n => .bind .member fun actions =>
    .bind (h.acting.act actions e) fun _ => ?_
  refine .peek fun s => .bind (h.observeService _ _) fun _ => ?_
  exact .bind (h.note (.exited s.stateName)) fun _ => h.quiet.free.cancelInvocation

theorem move (h : g.Working i K) (source target : Value) (e : Event) :
    Respects K (g.move i source target e) := by
  refine .bind (fun _ => h.changed fun s => ⟨target, s.context, s.slot, s.supply, rfl⟩) fun _ => ?_
  refine .bind (h.note (.moved source target)) fun _ => .peek fun s =>
    .bind h.quiet.free.record fun _ => ?_
  exact .bind (h.observeService _ _) fun _ => h.enter e

theorem apply (h : g.Working i K) (candidate : Value) (e seen : Event) :
    Respects K (g.apply i candidate e seen) := by
  refine .peek fun s => .bind (h.quiet.internality _ _) fun internal =>
    .ite (fun _ => ?_) fun _ => ?_
  · exact .bind .member fun actions => h.acting.act actions seen
  · refine .bind .member fun target => .bind h.quiet.free.lookUp fun _ =>
      .bind (h.exit e) fun _ => ?_
    exact .bind .member fun actions => .bind (h.acting.act actions seen) fun _ => h.move _ target e

theorem processEvent (h : g.Working i K) (e : Event) : Respects K (g.processEvent i e) := by
  refine .bind h.quiet.free.node fun n =>
    .bind (h.quiet.candidatesFor n e.type) fun candidates => ?_
  refine .peek fun s => .bind (h.quiet.resolve candidates _ e) fun found => ?_
  split
  · exact h.apply _ e e
  · exact .peek fun _ => h.quiet.free.record

theorem settleWanted (h : g.Working i K) (o : Outcome) : Respects K (g.settleWanted i o) := by
  refine .bind h.quiet.free.node fun n => .bind .member fun invocation =>
    .bind .member fun candidates => ?_
  refine .bind .ofExcept fun seen => .bind .ofExcept fun vs => .peek fun s => ?_
  refine .bind (h.quiet.resolve vs _ seen) fun found => ?_
  split
  · exact h.apply _ o.event seen
  · exact .ite (fun _ => .peek fun _ => .bind h.quiet.free.record fun _ => h.observeService _ _)
      fun _ => .pure

/-- What outlasts callbacks and work outlasts the processing of an item. -/
theorem process (h : g.Working i K) (item : Item) : Respects K (g.process i item) := by
  cases item with
  | event e => exact h.processEvent e
  | outcome o =>
    refine .bind (h.quiet.retire o.token) fun active => .ite (fun _ => ?_) fun _ => ?_
    · exact .ite (fun _ => h.settleWanted o) fun _ => .pure
    · exact .peek fun _ => h.quiet.free.record

end Working

end Engine

end FlatMachine
