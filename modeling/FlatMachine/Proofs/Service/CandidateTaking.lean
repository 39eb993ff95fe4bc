import FlatMachine.Proofs.Service.Commitment
import FlatMachine.Proofs.Service.Crossing

/-! # Taking a candidate, stage by stage

A service takes a candidate as its trace says (**`Trace.Crosses`**), or leaves behind what the
stage in which it is halted found (**`Trace.Breaks`**).

* **`Engine.Leaving.concludes_startInvocation`**: an invocation is started.
* **`Engine.Leaving.concludes_enter`**: a state is entered.
* **`Engine.Leaving.concludes_apply`**: a candidate is taken.
* **`Engine.Leaving.concludes_processEvent`**: an event is processed. -/

namespace FlatMachine

namespace Trace

variable {α β : Type}

theorem ofExcept_bind (a : α) (f : α → Trace β) : (ofExcept (.ok a) >>= f : Trace β) = f a :=
  pure_bind a f

end Trace

/-- The awaitable is a future. -/
def World.Scheduled (w : World) (a : AwaitableId) : Prop :=
  ∃ settled waiters, w.awaitables.lookup a = some (.future settled waiters)

namespace Engine

open Run World Trace

/-- Exit the live state, but for its invocation. -/
def leave (g : Engine) (i : Nat) (e : Event) : Run Unit := do
  g.act i (← member (← node i) "exit") e
  let s ← service i
  g.observeService i .exit [.fresh s.stateName, .held s.context]
  note (.exited i s.stateName)

/-- Make a new token the active one. -/
def activateNext (i : Nat) (invocation : Value) : Run Token := do
  let t ← mint (.service i)
  activate i (Int.ofNat t) invocation
  return Int.ofNat t

/-- Start the invocation of a token that is active. -/
def startActive (g : Engine) (i : Nat) (invocation : Value) (e : Event) (t : Token) : Run Unit := do
  record .debug ("Starting invocation <token> in state " ++ (← service i).stateName.shown)
  let (a, cancel) ← rescue (g.launch i invocation e t) fun failure => do
    discard (retire i t)
    fail failure
  let callback ← attach i t cancel
  g.reportCancelFailure? i (some t) (← g.callCancel? (.service i) (some t) callback)
  whenSettled a ⟨i, t, e⟩

theorem startInvocation_eq (g : Engine) (i : Nat) (invocation : Value) (e : Event) :
    g.startInvocation i invocation e = activateNext i invocation >>=
      g.startActive i invocation e := by
  unfold startInvocation activateNext startActive
  simp only [bind_assoc, pure_bind]

theorem exit_eq (g : Engine) (i : Nat) (e : Event) :
    g.exit i e = (g.leave i e >>= fun _ => g.cancelInvocation i) := by
  unfold Engine.exit leave
  simp only [bind_assoc]

namespace Leaving

variable {g : Engine} {book : Book} {i : Nat} {w : World} {free : Prop} {s : Service} {α : Type}
  {R : Halt → List Entry → Service → Prop} (hg : g.Leaving book)
include hg

/-! ### Exiting -/

/-- The context is committed when all actions are done. -/
theorem commits_act (v : Value) (e : Event)
    (halted : ∀ halt es, actionsOf g i e v s.context es (.error halt) → R halt es s) :
    Commits book i w free s (g.act i v e) (actionsOf g i e v s.context) (fun _ => ())
      (fun c => { s with context := c }) R := by
  refine Stage.read fun s' spared p es => ?_
  rw [spared.holds.context]
  refine .bind ((hg.tells_actionsOf e v s.context p es).weaken fun halt _ told =>
    told.becomes (halted halt)) fun c => ?_
  exact .update fun v ⟨es', told⟩ =>
    ⟨c, rfl, es', told.stroke (.context c) (fun _ => rfl) told.vacant⟩

theorem commits_stateActions {n : Value} {field : String} {e : Event}
    (hn : s.machine.node s.stateName = .ok n)
    (halted : ∀ halt es, stateActions g i s.machine s.stateName field e s.context es (.error halt) →
      R halt es s) :
    Commits book i w free s (member n field >>= fun v => g.act i v e)
      (stateActions g i s.machine s.stateName field e s.context) (fun _ => ())
        (fun c => { s with context := c }) R := by
  unfold stateActions at halted ⊢
  rw [hn] at halted ⊢
  rw [Trace.ofExcept_bind] at halted ⊢
  refine Stage.ofExcept (fun v hv => ?_) fun f hf => ?_
  · rw [hv, Trace.ofExcept_bind] at halted ⊢
    exact hg.commits_act v e halted
  · rw [hf] at halted
    exact halted _ [] (.error ⟨rfl, rfl⟩)

theorem commits_hooks (m : Moment) (args : List Object)
    (halted : ∀ halt es, Trace.hooks g i m args s.hooks es (.error halt) → R halt es s) :
    Commits book i w free s (g.observeService i m args)
      (.hooks g i m args s.hooks) id (fun _ => s) R :=
  (hg.tells_observeService m args).commits halted

theorem commits_leave (e : Event) :
    Commits book i w free s (g.leave i e) (leaving g i s e) (fun _ => ())
    (fun c => { s with context := c }) (BreaksLeaving g i s e) := by
  refine Stage.node (fun n hn => ?_) fun f hf => .action ?_
  · rw [← bind_assoc]
    refine Commits.bind (hg.commits_stateActions hn fun _ _ => .action) fun c =>
      Stage.read fun s' spared => ?_
    rw [spared.holds.stateName, spared.holds.context]
    refine Commits.bind (hg.commits_hooks _ _ fun _ _ failed _ entry => .hook entry failed)
      fun _ => ?_
    exact .giving (.note (e := .exited i s.stateName) (Entry.counts_of_deed rfl) nofun) (fun _ => c)
      (fun _ => rfl) fun _ => rfl
  · unfold stateActions
    rw [hf]
    exact .error ⟨rfl, rfl⟩

/-- The slot is emptied first.  Whether it held what is known of it can be seen by then. -/
theorem commits_cancelInvocation
    (halted : ∀ halt es, cancelling g i s.hooks s.slot es (.error halt) →
      R halt es { s with slot := .empty }) :
    Commits book i w free s (g.cancelInvocation i)
      (cancelling g i s.hooks s.slot) id (fun _ => { s with slot := .empty }) R := by
  intro p es v hv
  obtain ⟨s', hs', spared, slot⟩ := hv.service
  have emptied := hv.stroke (.slot .empty) (fun _ => rfl) fun _ => rfl
  unfold Engine.cancelInvocation
  rw [run_bind, run_clear hs']
  dsimp only
  by_cases same : s'.slot = s.slot
  · rw [same]
    have rest : Tells (ledger book i w free { s with slot := .empty })
        (g.callCancel? (.service i) s.slot.token s.slot.cancel >>=
          g.reportCancelFailure? i s.slot.token)
        (Trace.callCancel g i s.slot.token s.slot.cancel >>=
          Trace.reportFailure g i s.hooks s.slot.token) :=
      .bind (hg.tells_callCancel _ _) fun _ => hg.tells_reportFailure _ _
    have cleared : Recounts (ledger book i w free { s with slot := .empty }) p es
        (s.slot.token.elim (pure ()) fun t => tell (.cancelled i t)) (.ok ())
        (v.turned i (fun s => { s with slot := .empty })
          (s.slot.token.map (Entry.cancelled i)).toList) := by
      cases s.slot.token with
      | none => exact .still ⟨rfl, rfl⟩ emptied
      | some t =>
        have counts : (Entry.cancelled i t).counts i = true :=
          Entry.counts_of_clears (beq_self_eq_true i)
        exact ⟨[.cancelled i t], (emptied.told counts nofun).mono fun hp => ⟨hp, rfl, rfl⟩⟩
    obtain ⟨es', cleared⟩ := cleared
    have whole {es'' : List Entry} {r : Except Halt Unit}
        (told : s.slot.token.elim (pure ()) (fun t => Trace.tell (.cancelled i t)) es' (.ok ()))
        (rest : (Trace.callCancel g i s.slot.token s.slot.cancel >>=
          Trace.reportFailure g i s.hooks s.slot.token) es'' r) :
        cancelling g i s.hooks s.slot (es' ++ es'') r := Seq.ok told rest
    refine (rest _ _).conseq (fun _ => id) (fun _ _ told => ⟨(), rfl, told.trans fun _ => whole⟩)
      (fun halt _ told => ?_) _ cleared
    exact (Recounts.trans (r := .error halt) told fun _ => whole).becomes (halted halt)
  · rw [spared.holds.slot.resolve_left same]
    exact ⟨(), rfl, [], (hv.lost fun held => same (slot held)).stroke (.slot .empty) (fun _ => rfl)
      fun _ => rfl⟩

/-- The live state is exited. -/
theorem commits_exit (e : Event) :
    Commits book i w free s (g.exit i e) (Trace.exit g i s e) (fun _ => ())
    (fun c => { s with context := c, slot := .empty }) (BreaksLeaving g i s e) := by
  rw [exit_eq]
  refine .bind (hg.commits_leave e) fun c => ?_
  exact .giving (hg.commits_cancelInvocation fun _ _ failed _ left => .cancel left failed)
    (fun _ => c) (fun _ => rfl) fun _ => rfl

/-! ### Starting an invocation -/

omit hg in
theorem tells_scheduling (a : AwaitableId) :
    Tells (ledger book i w free s) (schedule i a) Trace.scheduling := by
  refine .peek known fun s' spared p es v hv => ?_
  have still {u : World} (services : u.services[i]? = v.services[i]?)
      (journal : u.journal = v.journal) :
      Recounts (ledger book i w free s) p es Trace.scheduling (.ok ()) u :=
      .still ⟨rfl, .inl rfl⟩ (hv.same services journal)
  rw [run_bind, run_get]
  dsimp only
  by_cases looping : (v.looping || s'.ownLoop) = true
  · rw [if_pos looping]
    match v.awaitables.lookup a with
    | some (.future ..) => exact still rfl rfl
    | some (.coroutine ..) => exact still rfl rfl
    | none => exact .still ⟨rfl, .inr (.inr rfl)⟩ hv
  · rw [if_neg looping]
    exact .still ⟨rfl, .inr (.inl rfl)⟩ hv

theorem tells_callSource (src : Value) (e : Event) (t : Token) :
    Tells (ledger book i w free s) (g.callSource i src e t)
      (Trace.callSource g i src e t s.context) := by
  have called : Tells (ledger book i w free s) (do
      let c := (← service i).context
      return (← g.invoke (.service i) (.source t) src
        [.held c, .fresh e.toValue, .fresh (.sourceAccess i t)]).value)
      (Trace.callSource g i src e t s.context) := by
    refine .peek known fun s' spared => ?_
    rw [spared.holds.context]
    exact .bind (hg.tells_invoke (.inl rfl)) fun _ => .pure
  unfold Engine.callSource
  split
  · exact .skip (fun _ _ _ hv => hv.same rfl rfl) fun _ => called
  · exact called

theorem tells_launch (invocation : Value) (e : Event) (t : Token) :
    Tells (ledger book i w free s) (g.launch i invocation e t)
      (Trace.launch g i invocation e t s.context) :=
  .bind .ofExcept fun src => .bind (hg.tells_callSource src e t) fun _ =>
    .bind .ofExcept fun (a, _) =>
    .bind (tells_scheduling a) fun _ => .pure

omit hg in
/-- An awaitable that was scheduled is a future. -/
theorem scheduled_of_launch {g : Engine} {i : Nat} {invocation : Value} {e : Event} {t : Token}
    {v v' : World} {r : AwaitableId × Value}
    (run : (g.launch i invocation e t).run v = (.ok r, v')) : v'.Scheduled r.1 := by
  have scheduled (a : AwaitableId) :
      Meets (fun _ => True) (schedule i a) (fun _ v => v.Scheduled a) fun _ => True := by
    unfold schedule
    refine .bind .any fun s => .bind (.get (Q := fun v u => u = v) fun _ _ => rfl) fun v =>
      .ite (fun _ => ?_) fun _ => .fail fun _ _ => trivial
    split
    · rename_i settled waiters found
      exact .pure fun u same => same ▸ ⟨settled, waiters, found⟩
    · rename_i found
      refine fun u _ => ⟨none, [], ?_⟩
      show (v.setAwaitable a (.future none [])).awaitables.lookup a = _
      rw [lookup_setAwaitable, if_pos rfl, found]
      rfl
    · exact .fail fun _ _ => trivial
  have launched : Meets (fun _ => True) (g.launch i invocation e t) (fun r v => v.Scheduled r.1)
      fun _ => True := by
    refine .bind .any fun src => .bind .any fun result => .bind .any fun (a, cancel) => ?_
    exact .bind (scheduled a) fun _ => .pure fun _ => id
  exact launched.ok trivial run

omit hg in
theorem run_attached {p : Prop} {es : List Entry} (t : Token) (cancel : Value) {v : World}
    {s' : Service} (hv : Attests book i w False s p es v) (hs' : v.services[i]? = some s')
    (same : s'.slot = s.slot) :
    ∃ v', (attach i t cancel).run v = (.ok (s.slot.attach t cancel).2, v') ∧
    v'.awaitables = v.awaitables ∧
      Attests book i w False { s with slot := (s.slot.attach t cancel).1 } p
        (es ++ if cancel.isNull then [] else [.attached i t cancel]) v' := by
  cases null : cancel.isNull with
  | true =>
    have kept : s.slot.attach t cancel = (s.slot, none) := by
      unfold Slot.attach
      rw [if_pos null]
    rw [kept, if_pos rfl, List.append_nil]
    exact ⟨v, run_attach_null hs' null, rfl, hv⟩
  | false =>
    have run := run_attach (t := t) hs' null
    rw [World.change_congr (g := fun s₀ => { s₀ with slot := (s'.slot.attach t cancel).1 }) hs' rfl,
      same] at run
    exact ⟨_, run, rfl, (hv.stroke (.slot _) (fun _ => rfl) False.elim).told
      (Entry.counts_of_deed rfl) nofun⟩

omit hg in
/-- Whoever waits for a future is told in time. -/
theorem run_whenSettled {p : Prop} {es : List Entry} {a : AwaitableId} (waiter : Waiter) {v : World}
    (scheduled : v.Scheduled a) (hv : Attests book i w free s p es v) :
    ∃ v', (whenSettled a waiter).run v = (.ok (), v') ∧ Attests book i w free s p es v' := by
  obtain ⟨settled, waiters, found⟩ := scheduled
  unfold whenSettled
  rw [run_bind, run_get]
  dsimp only
  rw [found]
  cases settled with
  | none => exact ⟨_, rfl, hv.same rfl rfl⟩
  | some settlement => exact ⟨_, rfl, hv.same rfl rfl⟩

/-- The cancel callback is attached, and the outcome waited for.  If the slot is empty by then,
the service did not stay calm. -/
theorem ends_attach {p : Prop} {es : List Entry} {t : Token}
    (active : s.slot = Slot.empty.activate t) (a : AwaitableId) (cancel : Value) (waiter : Waiter)
    (R : Halt → List Entry → Service → Prop) :
    Ends (fun v => Attests book i w False s p es v ∧ v.Scheduled a) (do
        let callback ← attach i t cancel
        g.reportCancelFailure? i (some t) (← g.callCancel? (.service i) (some t) callback)
        whenSettled a waiter)
      (fun _ => Becomes book i w False p es fun es' s' =>
        es' = (if cancel.isNull then [] else [.attached i t cancel]) ∧
        s' = { s with slot := (s.slot.attach t cancel).1 })
      fun halt => Becomes book i w False p es (R halt) := by
  rintro v ⟨hv, scheduled⟩
  obtain ⟨s', hs', spared, slot⟩ := hv.service
  by_cases same : s'.slot = s.slot
  · obtain ⟨v₁, run, awaitables, hv₁⟩ := run_attached t cancel hv hs' same
    have callback : (s.slot.attach t cancel).2 = none := by
      rw [active]
      unfold Slot.attach
      split
      · rfl
      · rw [if_pos (by rw [Slot.isActive_activate]; exact beq_self_eq_true t)]
    have scheduled₁ : v₁.Scheduled a := by
      unfold World.Scheduled
      rwa [awaitables]
    obtain ⟨v₂, run₂, hv₂⟩ := run_whenSettled waiter scheduled₁ hv₁
    have quiet : (do
        g.reportCancelFailure? i (some t) (← g.callCancel? (.service i) (some t) none)
        whenSettled a waiter : Run Unit).run v₁ = (.ok (), v₂) := run₂
    rw [run_bind, run, callback]
    dsimp only
    rw [quiet]
    exact ⟨_, _, hv₂.mono fun hp => ⟨hp, rfl, rfl⟩⟩
  · have empty := spared.holds.slot.resolve_left same
    have lost : Attests book i w False { s with slot := .empty } False [] v := by
      have lost : Attests book i w False s False [] v := hv.lost fun held => same (slot held)
      have changed := lost.stroke (.slot .empty) (fun _ => rfl) False.elim
      rwa [World.change_id hs' (by rw [← empty])] at changed
    obtain ⟨v₁, run, -, hv₁⟩ := run_attached t cancel lost hs' empty
    have rest (callback : Option Value) : Respects (Adrift book i w) (do
        g.reportCancelFailure? i (some t) (← g.callCancel? (.service i) (some t) callback)
        whenSettled a waiter) := by
      refine .bind (.adrift fun s => hg.tells_callCancel (s := s) _ _) fun failure => ?_
      refine .bind (.adrift fun s => hg.tells_reportFailure (s := s) _ _) fun _ => ?_
      unfold whenSettled
      refine .look fun v => ?_
      split
      · exact Meets.modify fun u ⟨s, es, hu⟩ => ⟨s, es, hu.same rfl rfl⟩
      · exact Meets.modify fun u ⟨s, es, hu⟩ => ⟨s, es, hu.same rfl rfl⟩
      · exact .fail
    rw [run_bind, run]
    exact Ends.conseq (rest _) (fun _ => id) (fun _ _ => Adrift.becomes)
      (fun _ _ => Adrift.becomes) v₁ ⟨_, _, hv₁⟩

omit hg in
/-- An active token is retired. -/
theorem commits_retire {t : Token} (active : s.slot.isActive t = true) :
    Commits book i w False s (discard (retire i t))
      (tell (.retired i t)) id (fun _ => { s with slot := .empty }) R := by
  intro p es v hv
  obtain ⟨s', hs', spared, slot⟩ := hv.service
  rw [run_discard]
  obtain same | empty := spared.holds.slot
  · rw [run_retire_active hs' (by rwa [same])]
    refine ⟨(), rfl, [.retired i t], ?_⟩
    have retired := (hv.stroke (.slot .empty) (fun _ => rfl) False.elim).told (e := .retired i t)
      (Entry.counts_of_deed rfl) nofun
    exact retired.mono fun hp => ⟨hp, rfl, rfl⟩
  · rw [run_retire_inactive hs' (by rw [empty]; rfl)]
    have other : s'.slot ≠ s.slot := fun same => by
      rw [← same, empty] at active
      cases active
    have lost : Attests book i w False s (p ∧ tell (.retired i t) [.retired i t] (.ok ()))
        (es ++ [.retired i t]) v :=
      hv.lost fun held => other (slot held)
    have changed := lost.stroke (.slot .empty) (fun _ => rfl) False.elim
    rw [World.change_id hs' (by rw [← empty])] at changed
    exact ⟨(), rfl, _, changed⟩

/-- The source is called, and what it returned is scheduled; or the token is retired, if that
failed in an ordinary way. -/
theorem ends_launch {p : Prop} {es : List Entry} {invocation : Value} {e : Event} {t : Token}
    (active : s.slot.isActive t = true)
    (dropped : ∀ f es, Trace.launch g i invocation e t s.context es (.error (.raised f)) →
      f.isOrdinary = true →
      R (.raised f) (es ++ [.retired i t]) { s with slot := .empty })
    (lost : ∀ halt es, Trace.launch g i invocation e t s.context es (.error halt) →
      (∀ f, halt = .raised f → f.isOrdinary = false) → R halt es s) :
    Ends ((ledger book i w False s).holds p es)
      (rescue (g.launch i invocation e t) fun failure => do discard (retire i t); fail failure)
        (fun r v => Recounts (ledger book i w False s) p es
          (Trace.launch g i invocation e t s.context) (.ok r) v ∧ v.Scheduled r.1)
      fun halt => Becomes book i w False p es (R halt) := by
  have told : Tells (ledger book i w False s) (g.launch i invocation e t)
      (Trace.launch g i invocation e t s.context) :=
    hg.tells_launch invocation e t
  refine .tryCatch ((told p es).returns fun v r v' _ => scheduled_of_launch) fun halt => ?_
  cases halt with
  | exhausted => exact .throw fun v told => told.becomes fun es' failed => lost _ es' failed nofun
  | raised f =>
    refine .ite (fun ordinary => .ofExists fun es' => ?_) fun other =>
      .throw fun v told => told.becomes fun es' failed => ?_
    · refine Ends.bind ((commits_retire (R := fun _ _ _ => False) active _ _).weaken
        fun halt v left => ?_) fun _ => .fail fun v told => ?_
      · exact left.trans fun _ _ _ => False.elim
      · obtain ⟨_, -, told⟩ := told
        refine (Recounts.becomes (R := fun es'' s' => es'' = [.retired i t] ∧
          s' = { s with slot := .empty }) told ?_).trans ?_
        · exact fun _ retired => ⟨retired.1, rfl⟩
        · rintro _ _ failed ⟨rfl, rfl⟩
          exact dropped f es' failed ordinary
    · refine lost _ es' failed fun f' same => ?_
      cases same
      exact Bool.eq_false_iff.mpr other

omit hg in
/-- A new token is made the active one. -/
theorem commits_activation (vacant : s.slot = .empty) (invocation : Value) :
    Commits book i w False s (activateNext i invocation) (activation i invocation) id
      (fun t => { s with slot := Slot.empty.activate t }) R := by
  intro p es v hv
  obtain ⟨s', hs', spared, slot⟩ := hv.service
  have empty : s'.slot = .empty := spared.holds.slot.elim (fun same => same.trans vacant) id
  unfold activateNext
  rw [run_activate hs' fun n => pure (Int.ofNat n), empty]
  refine ⟨Int.ofNat s'.supply, rfl, [.activated i (Int.ofNat s'.supply) invocation .empty], ?_⟩
  refine Attests.mono (fun hp => ⟨hp, _, rfl, rfl⟩) (.told ?_ (Entry.counts_of_deed rfl) nofun)
  refine hv.changed ⟨hv.busy.draining, hv.busy.started⟩ False.elim (fun s'' hs'' spared => ?_)
    fun _ => ⟨rfl, rfl, rfl⟩
  cases hs'.symm.trans hs''
  obtain ⟨⟨machine, stateName, context, snapshot, draining, -, status⟩, hooks⟩ := spared
  exact ⟨⟨⟨machine, stateName, context, snapshot, draining, .inl rfl, status⟩, hooks⟩, fun _ => rfl⟩

/-- An invocation is started in an empty slot. -/
theorem stage_startInvocation (vacant : s.slot = .empty) (invocation : Value) (e : Event) :
    Stage book i w False s (g.startInvocation i invocation e)
      (fun _ p es => Becomes book i w False p es fun es' s' =>
        ∃ slot, Starts g i invocation e s.context es' (.ok ()) slot ∧ s' = { s with slot })
      fun halt es' s' => ∃ slot, Starts g i invocation e s.context es' (.error halt) slot ∧
      s' = { s with slot } := by
  rw [startInvocation_eq]
  refine Stage.bind (commits_activation vacant invocation)
    (P := fun _ t p es => Becomes book i w False p es fun es' s' =>
    ∀ es, activation i invocation es (.ok t) →
      ∃ slot, Starts g i invocation e s.context (es ++ es') (.ok ()) slot ∧ s' = { s with slot })
    (fun t => Stage.read fun s' spared => Stage.untold (fun p es => ?_) rfl nofun)
      fun t _ p es es' v becomes => ?_
  · have active : (Slot.empty.activate t).isActive t = true := beq_self_eq_true (some t)
    refine Ends.bind (hg.ends_launch active (fun f es' dropped ordinary es activated => ?_)
      fun halt es' lost other es activated => ?_)
      fun (a, cancel) => ?_
    · exact ⟨_, .dropped activated dropped ordinary, rfl⟩
    · exact ⟨_, .lost activated lost other, rfl⟩
    · refine Ends.pre (.ofExists fun es' => ?_) fun v => exists_and_right.mpr
      refine (hg.ends_attach rfl a cancel ⟨i, t, e⟩ fun _ _ _ => False).conseq (fun _ => id)
        (fun _ v becomes => ?_) fun halt v left => ?_
      · refine becomes.trans ?_
        rintro _ _ launched ⟨rfl, rfl⟩ es activated
        exact ⟨_, .begun activated launched, rfl⟩
      · exact left.trans fun _ _ _ => False.elim
  · exact becomes.trans fun es'' s' activated later => later es' activated

/-- Whatever a service does, journals grow. -/
theorem reflects_void (i : Nat) : g.Reflects Bond.void i fun _ => True :=
  (Bond.void_open.wholly (Bond.void_open.calling fun owner f args c =>
    ⟨hg.grows owner f args c, fun _ _ => False.elim⟩) i).reflects

/-- The source is called first of all, apart from a log record. -/
theorem source_of_startActive {invocation : Value} {e : Event} {t : Token} {u u' : World}
    (hs : u.services[i]? = some s) (run : (g.startActive i invocation e t).run u = (.ok (), u')) :
    ∃ src text, invocation.member "src" = .ok src ∧
      .called (.service i)
        (.source t) src [.held s.context, .fresh e.toValue, .fresh (.sourceAccess i t)] ::
        .record .debug text :: u.journal <:+ u'.journal := by
  have parts := hg.reflects_void i
  have scheduled (a : AwaitableId) : Grows (schedule i a) := (parts.schedule a).grows
  let K (w : World) : Prop := ∃ src text, invocation.member "src" = .ok src ∧
    .called (.service i) (.source t) src
      [.held s.context, .fresh e.toValue, .fresh (.sourceAccess i t)] ::
      .record .debug text :: u.journal <:+ w.journal
  have lasts {α : Type} {x : Run α} (hx : x.Grows) : Meets K x (fun _ => K) fun _ => True :=
    (Respects.ofRun fun w ⟨src, text, found, called⟩ =>
      ⟨src, text, found, called.trans (hx w).journal⟩).meets.loosen
  have launched : Meets (fun w => ∃ text, w = u.noted (.record .debug text))
    (g.launch i invocation e t) (fun _ w => True ∧ K w)
      fun _ => True := by
    refine Ends.returns Meets.any fun w r w' ⟨text, same⟩ run => ?_
    subst same
    obtain ⟨s', src, v, o, v', hs', found, now, -, called, -, before⟩ :=
      source_of_launch scheduled run
    cases hs.symm.trans hs'
    have written := (called_of_invoke hg.grows called).trans before.journal
    rw [show v.journal = _ from congrArg Point.journal now] at written
    exact ⟨src, text, found, written⟩
  have started : Meets (· = u) (g.startActive i invocation e t) (fun _ => K) fun _ => True := by
    refine .bind (.service (Q := fun _ w => w = u) (fun _ _ same _ => same) fun _ _ => trivial)
      fun s' => ?_
    refine .bind (.note (Q := fun _ w => ∃ text, w = u.noted (.record .debug text)) fun w same =>
      ⟨_, congrArg (World.noted · _) same⟩) fun _ => ?_
    refine .bind (Q := fun _ => K)
      (.rescue (launched.post fun _ _ => And.right) (fun f => ?_) fun _ => id) fun (a, cancel) => ?_
    · exact .bind .any fun _ => .fail fun _ _ => trivial
    · refine .bind (lasts (parts.attach t cancel).grows) fun callback => ?_
      rw [← bind_assoc]
      exact .bind (lasts (parts.dismissed (some t) callback).grows) fun _ =>
        lasts (parts.whenSettled a t e).grows
  exact started.ok rfl run

/-- Whatever callbacks do, the source is called right after its token was made the active one. -/
theorem sources_startInvocation {invocation : Value} {e : Event} {v v' : World}
    (hs : v.services[i]? = some s) (vacant : s.slot = .empty)
    (run : (g.startInvocation i invocation e).run v = (.ok (), v')) :
    Sources i invocation e s.context (v.deeds i v') := by
  rw [startInvocation_eq] at run
  unfold activateNext at run
  simp only [bind_assoc, pure_bind] at run
  rw [run_activate hs, vacant] at run
  have changed := World.change_self
    (fun s => { s with supply := s.supply + 1, slot := s.slot.activate (Int.ofNat s.supply) }) hs
  obtain ⟨src, text, found, later, called⟩ :=
    hg.source_of_startActive (u := World.noted _ _) changed run
  have since : v'.since v = later ++ [.called (.service i) (.source (Int.ofNat s.supply)) src
      [.held s.context, .fresh e.toValue, .fresh (.sourceAccess i (Int.ofNat s.supply))],
      .record .debug text,
      .activated i (Int.ofNat s.supply) invocation .empty] := by
    refine since_append ?_
    rw [← called, List.append_assoc]
    rfl
  have deeds : v.deeds i v' = .activated i (Int.ofNat s.supply) invocation .empty ::
    .called (.service i) (.source (Int.ofNat s.supply)) src
      [.held s.context, .fresh e.toValue, .fresh (.sourceAccess i (Int.ofNat s.supply))] ::
        (later.filter (Entry.counts i)).reverse := by
    unfold World.deeds
    rw [since, List.filter_append, List.reverse_append]
    rw [List.filter_cons_of_pos (Entry.counts_of_deed rfl),
      List.filter_cons_of_neg (p := Entry.counts i) (a := .record .debug text) nofun,
      List.filter_cons_of_pos (Entry.counts_of_deed rfl)]
    rfl
  rw [deeds]
  exact .called found

/-- An invocation is started in an empty slot. -/
theorem concludes_startInvocation (vacant : s.slot = .empty) (invocation : Value) (e : Event) :
    Concludes book i w free s (g.startInvocation i invocation e)
      (fun es s' => ∃ slot, Starts g i invocation e s.context es (.ok ()) slot ∧
        s' = { s with slot })
      (fun es s' => Sources i invocation e s.context es ∧ s' = s)
      fun halt es s' => ∃ slot, Starts g i invocation e s.context es (.error halt) slot ∧
      s' = { s with slot } := by
  intro p es
  have started := Ends.pre (hg.stage_startInvocation (w := w) vacant invocation e p es)
    fun v (hv : Attests book i w free s p es v) => hv.bound
  refine (started.returns (φ := fun _ v => free → p ∧ ∃ es', Sources i invocation e s.context es' ∧
    w.deeds i v = es ++ es')
    fun v _ v' hv run held => ?_).post fun _ v ⟨becomes, sourced⟩ => ⟨becomes, fun held => ?_⟩
  · obtain ⟨s', hs', spared, -⟩ := hv.service
    obtain ⟨deeds, hp⟩ := hv.deeds (.inr held)
    have empty : s'.slot = .empty := spared.holds.slot.elim (fun same => same.trans vacant) id
    have grown := ((hg.reflects_void i).startInvocation invocation e).grows v
    rw [run] at grown
    refine ⟨hp, v.deeds i v', ?_, by rw [deeds_trans hv.suffix grown.journal, deeds]⟩
    rw [← spared.holds.context]
    exact hg.sources_startInvocation hs' empty run
  · obtain ⟨hp, es', sources, deeds⟩ := sourced held
    exact ⟨hp, es', s, ⟨sources, rfl⟩, deeds⟩

/-! ### Entering -/

theorem commits_entering {n : Value} {e : Event} (hn : s.machine.node s.stateName = .ok n) :
    Commits book i w free s (do
        g.act i (← member n "entry") e
        let s ← service i
        g.observeService i .enter [.fresh s.stateName, .held s.context]) (entering g i s e)
          (fun _ => ())
      (fun c => { s with context := c }) (BreaksEntering g i s e) := by
  rw [← bind_assoc]
  refine .bind (hg.commits_stateActions hn fun _ _ => .action) fun c =>
    Stage.read fun s' spared => ?_
  rw [spared.holds.stateName, spared.holds.context]
  exact Commits.giving (hg.commits_hooks _ _ fun _ _ failed _ entry => .hook entry failed)
    (fun _ => c) (fun _ => rfl) fun _ => rfl

omit hg in
/-- Whether an invocation is started can be told from the definition. -/
theorem starts_automatic (g : Engine) {m : Machine} {name n : Value} (hn : m.node name = .ok n)
    (e : Event) :
    (do
      let invocation ← member n "invoke"
      if !invocation.isNull then
        if (← member invocation "auto_start").truth then g.startInvocation i invocation e) = (do
      match ← Run.ofExcept (m.automatic? name) with
      | some invocation => g.startInvocation i invocation e
      | none => pure ()) := by
  unfold Machine.automatic? member
  rw [hn]
  show _ = Run.ofExcept (n.member "invoke" >>= _) >>= _
  cases n.member "invoke" with
  | error f => rfl
  | ok invocation =>
    show (if _ then _ else _) = Run.ofExcept (if _ then _ else _) >>= _
    cases invocation.isNull with
    | true => rfl
    | false =>
      show Run.ofExcept (invocation.member "auto_start") >>= _ =
        Run.ofExcept (invocation.member "auto_start" >>= _) >>= _
      cases invocation.member "auto_start" with
      | error f => rfl
      | ok auto =>
        show (if _ then _ else _) = Run.ofExcept (if _ then _ else _) >>= _
        cases auto.truth <;> rfl

/-- The live state is entered. -/
theorem concludes_enter (vacant : s.slot = .empty) (e : Event) :
    Concludes book i w free s (g.enter i e) (Enters g i s e) (Reaches g i s e)
      (BreaksEntering g i s e) := by
  refine Stage.node (fun n hn => ?_) fun f hf => .action ?_
  · have parts : ∀ k : Run Unit, (do
        g.act i (← member n "entry") e
        let s ← service i
        g.observeService i .enter [.fresh s.stateName, .held s.context]
        k) = (do
        g.act i (← member n "entry") e
        let s ← service i
        g.observeService i .enter [.fresh s.stateName, .held s.context]) >>= fun _ => k :=
          fun k => by simp only [bind_assoc]
    rw [parts, starts_automatic g hn]
    refine Commits.concludes (hg.commits_entering hn) fun c =>
      Stage.ofExcept (fun auto found => ?_) fun f failed es entered => ?_
    · cases auto with
      | none =>
        refine Concludes.pure (fun es entered => ?_) fun es entered => ?_
        · exact (List.append_nil es).symm ▸ .rests entered found
        · exact (List.append_nil es).symm ▸ .rests entered found
      | some invocation =>
        refine Concludes.conseq
          (hg.concludes_startInvocation (s := { s with context := c }) vacant invocation e) ?_ ?_ ?_
        · rintro es' _ ⟨slot, started, rfl⟩ es entered
          exact .starts entered found started
        · rintro es' _ ⟨sources, rfl⟩ es entered
          exact .starts entered found sources
        · rintro halt es' _ ⟨slot, failed, rfl⟩ es entered
          exact .source entered found failed
    · exact (List.append_nil es).symm ▸ .automatic entered failed
  · unfold stateActions
    rw [hf]
    exact .error ⟨rfl, rfl⟩

/-! ### Crossing -/

theorem commits_ownActions (v : Value) (seen : Event)
    (halted : ∀ halt es, ownActions g i v seen s.context es (.error halt) → R halt es s) :
    Commits book i w free s (member v "actions" >>= fun actions => g.act i actions seen)
      (ownActions g i v seen s.context) (fun _ => ()) (fun c => { s with context := c }) R := by
  unfold ownActions at halted ⊢
  refine Stage.ofExcept (fun actions found => ?_) fun f failed => ?_
  · rw [found, Trace.ofExcept_bind] at halted ⊢
    exact hg.commits_act actions seen halted
  · rw [failed] at halted
    exact halted _ [] (.error ⟨rfl, rfl⟩)

/-- The live state is exited, the candidate's actions are run, and the target is the live state. -/
theorem commits_moving (v : Value) (e seen : Event) (target : Value)
    (halted : ∀ halt es s', BreaksLeaving g i s e halt es s' → R halt es s')
    (acting : ∀ c halt es es', Trace.exit g i s e es (.ok c) →
      ownActions g i v seen c es' (.error halt) →
      R halt (es ++ es') { s with context := c, slot := .empty }) :
    Commits book i w free s (do
        g.exit i e
        g.act i (← member v "actions") seen
        update i fun s => { s with stateName := target }
        note (.moved i s.stateName target)) (moving g i s v e seen target) (fun _ => ())
      (fun c => { s with stateName := target, context := c, slot := .empty }) R := by
  refine Commits.bind ((hg.commits_exit e).weaken halted) fun c => ?_
  rw [← bind_assoc]
  refine Commits.bind (hg.commits_ownActions v seen fun halt es' failed es exited =>
    acting c halt es es' exited failed) fun c' => ?_
  refine Stage.stroke (.stateName target) (fun _ => rfl) id ?_
  exact Commits.giving (.note (e := .moved i s.stateName target) (Entry.counts_of_deed rfl) nofun)
    (fun _ => c') (fun _ => rfl) fun _ => rfl

/-- The target is reached, and not entered yet. -/
theorem commits_passing (v : Value) (e seen : Event) (target : Value)
    (halted : ∀ halt es s', BreaksLeaving g i s e halt es s' → R halt es s')
    (acting : ∀ c halt es es', Trace.exit g i s e es (.ok c) →
      ownActions g i v seen c es' (.error halt) →
      R halt (es ++ es') { s with context := c, slot := .empty })
    (hooked : ∀ c halt es es', moving g i s v e seen target es (.ok c) →
      Trace.hooks g i .transition [.fresh s.stateName, .fresh target, .fresh e.toValue] s.hooks es'
        (.error halt) →
      R halt (es ++ es') { s with stateName := target, context := c, slot := .empty }) :
    Commits book i w free s (do
        g.exit i e
        g.act i (← member v "actions") seen
        update i fun s => { s with stateName := target }
        note (.moved i s.stateName target)
        let s' ← service i
        record .debug ("Machine " ++ s'.machine.id.shown ++ ": " ++ s.stateName.shown ++ " -> " ++
          target.shown ++ " on " ++
          Text.quote e.type)
        g.observeService i .transition [.fresh s.stateName, .fresh target, .fresh e.toValue])
          (passing g i s v e seen target)
      (fun _ => ()) (fun c => { s with stateName := target, context := c, slot := .empty }) R := by
  have parts (k : Run Unit) : (do
      g.exit i e
      g.act i (← member v "actions") seen
      update i fun s => { s with stateName := target }
      note (.moved i s.stateName target)
      k) = (do
      g.exit i e
      g.act i (← member v "actions") seen
      update i fun s => { s with stateName := target }
      note (.moved i s.stateName target)) >>= fun _ => k := by simp only [bind_assoc]
  rw [parts]
  refine Commits.bind (hg.commits_moving v e seen target halted acting) fun c =>
    Stage.read fun s' spared => Stage.untold ?_ rfl nofun
  exact Commits.giving
    (hg.commits_hooks (s := { s with stateName := target, context := c, slot := .empty }) _ _
    fun halt es' failed es moved => hooked c halt es es' moved failed) (fun _ => c) (fun _ => rfl)
      fun _ => rfl

/-- A candidate is taken. -/
theorem concludes_apply (v : Value) (e seen : Event) :
    Concludes book i w free s (g.apply i v e seen) (Crosses g i (Enters g i) s v e seen)
      (Crosses g i (Reaches g i) s v e seen) (Breaks g i s v e seen) := by
  refine Stage.read fun s' spared => ?_
  rw [spared.holds.stateName]
  refine Commits.concludes ((hg.tells_internality v s.stateName).commits fun _ _ => .internality)
    fun internal => ?_
  dsimp only [id]
  split
  · rename_i holds
    refine Commits.final (hg.commits_ownActions v seen ?_) ?_ ?_
    · exact fun halt es' failed es asked => .internal asked holds failed
    · exact fun c es' run es asked => .internal asked holds run
    · exact fun c es' run es asked => .internal asked holds run
  · rename_i fails
    have external := Bool.eq_false_iff.mpr fails
    refine Stage.ofExcept (fun target found => ?_) fun f failed es asked => ?_
    · rw [spared.holds.machine]
      refine Stage.lookUp (fun _ defined => ?_) fun f failed es asked => ?_
      · have aims {es : List Entry}
            (asked : Trace.internality g i v s.stateName es (.ok internal)) :
              Aims g i s v target es :=
          ⟨⟨internal, asked, external⟩, found, defined⟩
        have parts : (do
            g.exit i e
            g.act i (← member v "actions") seen
            g.move i s.stateName target e) = (do
            g.exit i e
            g.act i (← member v "actions") seen
            update i fun s => { s with stateName := target }
            note (.moved i s.stateName target)
            let s' ← service i
            record .debug ("Machine " ++ s'.machine.id.shown ++ ": " ++ s.stateName.shown ++
              " -> " ++ target.shown ++ " on " ++
              Text.quote e.type)
            g.observeService i .transition [.fresh s.stateName, .fresh target,
                .fresh e.toValue]) >>= fun _ => g.enter i e := by
          unfold move
          simp only [bind_assoc]
        rw [parts]
        refine Commits.concludes (hg.commits_passing v e seen target ?_ ?_ ?_) fun c => ?_
        · exact fun halt es' s' failed es asked => .leaving (aims asked) failed
        · exact fun c halt es' es'' exited failed es asked => .action (aims asked) exited failed
        · exact fun c halt es' es'' moved failed es asked => .hook (aims asked) moved failed
        · refine Concludes.conseq
            (hg.concludes_enter (s := { s with stateName := target, context := c, slot := .empty })
              rfl e) ?_ ?_ ?_
          · exact fun es'' s' entered es' passed es asked => .external (aims asked) passed entered
          · exact fun es'' s' entered es' passed es asked => .external (aims asked) passed entered
          · exact fun halt es'' s' failed es' passed es asked =>
              .entering (aims asked) passed failed
      · exact (List.append_nil es).symm ▸ .target asked external (by rw [found]; exact failed)
    · exact (List.append_nil es).symm ▸ .target asked external (by rw [failed]; rfl)

/-- An event is processed. -/
theorem concludes_processEvent (e : Event) :
    Concludes book i w free s (g.processEvent i e) (Processes g i s e) (fun _ _ => True)
      (Fails g i s e) := by
  rw [processEvent_eq]
  refine Commits.concludes ((hg.tells_choose e).commits fun _ _ => .choice) fun found => ?_
  obtain _ | ⟨k, v⟩ := found
  · refine Stage.read fun s' spared => ?_
    rw [← bind_pure (record _ _)]
    exact Stage.untold
      (Concludes.pure (fun es found => (List.append_nil es).symm ▸ .unmatched found) fun _ _ =>
        trivial) rfl nofun
  · refine Concludes.conseq (hg.concludes_apply v e e) ?_ (fun _ _ _ _ _ => trivial) ?_
    · exact fun es' s' crosses es found => .taken found crosses
    · exact fun halt es' s' breaks es found => .taken found breaks

end Leaving

end Engine

end FlatMachine
