import FlatMachine.Proofs.Service.Callback

/-! # Where invocations go

* **`Engine.tame_revoke`**: anybody may use the interface of an invocation.  A state that is
  exited by the service's own drain leaves the slot empty, whatever the cancel callback does
  (**`Engine.goes_abandon`**).
* **`Engine.goes_startInvocation`**: an invocation is started only by the drain of its service,
  in an empty slot.  Its source may do what it likes before it returns, and the slot may be
  emptied meanwhile; no other invocation can be started. -/

namespace FlatMachine

/-! ### Numbers, nodes and snapshots -/

namespace Run

variable {sc : Scope} {P : World → Prop} {i : Nat}

theorem run_mint {w : World} {s : Service} (h : w.services[i]? = some s) :
    (mint (.service i)).run w =
      (.ok s.supply, w.change i fun s => { s with supply := s.supply + 1 }) := by
  unfold mint
  rw [run_bind, run_service h]
  dsimp only
  rw [run_bind, run_update,
    World.change_congr (g := fun s => { s with supply := s.supply + 1 }) h rfl]
  rfl

theorem Goes.mint {Q : Nat → World → Prop}
    (h : ∀ w s, P w → w.services[i]? = some s →
      Q s.supply (w.change i fun s => { s with supply := s.supply + 1 })) :
    (Run.mint (.service i)).Goes sc P Q := by
  intro w hw
  cases hs : w.services[i]? with
  | none =>
    unfold Run.mint
    rw [run_bind, run_service_none hs]
    exact ⟨.refl sc w, nofun⟩
  | some s =>
    rw [run_mint hs]
    refine ⟨.free (.changed hs .supply), fun n hn => ?_⟩
    cases hn
    exact h w s hw hs

theorem tame_mint (owner : Owner) : (mint owner).Tame := by
  cases owner with
  | service i =>
    exact .tame (Q := fun _ _ => True) (.mint fun _ _ _ _ => trivial)
  | bench =>
    refine .bind .get fun v => ?_
    have bump : (modify fun w => { w with supply := v.supply + 1 } : Run Unit).Tame :=
      .aside .ofSane fun _ => ⟨rfl, rfl, rfl⟩
    exact .bind (bump.pre fun _ h => h.1) fun _ => .pure fun _ => id

theorem tame_adopt (owner : Owner) (o : Object) : (adopt owner o).Tame :=
  .bind (tame_mint owner) fun _ => .pure fun _ => id

/-- A node that is missing is one that the definition lacks. -/
theorem goes_node : (node i).Goes sc P fun n w =>
    P w ∧ ∃ s, w.services[i]? = some s ∧ s.machine.node s.stateName = .ok n := by
  unfold node
  refine .bind .service fun s => ?_
  intro w ⟨hw, hs⟩
  cases hn : s.machine.node s.stateName with
  | ok n =>
    refine ⟨.refl sc w, fun a ha => ?_⟩
    cases ha
    exact ⟨hw, s, hs, hn⟩
  | error f =>
    have uncovered : ¬ s.machine.Covers s.stateName := fun hc => by
      obtain ⟨n, hn', -⟩ := hc.node
      rw [hn] at hn'
      cases hn'
    have step : Step .free w ((w.change i id).noted (.faulted i f)) :=
      .wrote hs (.fault f uncovered)
    rw [World.change_id hs rfl] at step
    exact ⟨.free step, nofun⟩

/-- A snapshot shows the service as it is. -/
theorem goes_currentSnapshot (changed : Bool) (hP : ∀ w s, P w → w.services[i]? = some s →
    P (w.change i fun s => { s with supply := s.supply + 1 })) :
    (currentSnapshot i changed).Goes sc P fun sn w =>
      P w ∧ ∃ s, w.services[i]? = some s ∧ sn.stateName = s.stateName ∧ sn.context = s.context ∧
        sn.changed = changed ∧ s.machine.tags s.stateName = .ok sn.tags := by
  unfold currentSnapshot
  refine .bind goes_node fun n => .bind .member fun tags => .bind .service fun s =>
    .bind (Q := fun _ w =>
    P w ∧ ∃ s', w.services[i]? = some s' ∧ s'.stateName = s.stateName ∧ s'.context = s.context ∧
      s'.machine.tags s'.stateName = .ok tags) (.mint fun w s' hw hs' => ?_) fun n =>
        .pure fun w hw => ?_
  · obtain ⟨⟨⟨hw, s₁, hs₁, hn⟩, ht⟩, hs⟩ := hw
    cases hs.symm.trans hs'
    cases hs.symm.trans hs₁
    refine ⟨hP w s hw hs, _, World.change_self _ hs, rfl, rfl, ?_⟩
    show (s.machine.node s.stateName >>= fun n => n.member "tags") = .ok tags
    rw [hn]
    exact ht
  · obtain ⟨hw, s', hs', hname, hc, ht⟩ := hw
    exact ⟨hw, s', hs', hname.symm, hc.symm, rfl, ht⟩

theorem tame_currentSnapshot (changed : Bool) : (currentSnapshot i changed).Tame :=
  .tame (goes_currentSnapshot changed fun _ _ => Firm.ofSane.supplied)

/-! ### Awaitables -/

theorem tame_whenSettled (a : AwaitableId) (waiter : Waiter) : (whenSettled a waiter).Tame := by
  unfold whenSettled
  refine .look fun v => ?_
  split
  · exact .aside .ofSane fun _ => ⟨rfl, rfl, rfl⟩
  · exact .aside .ofSane fun _ => ⟨rfl, rfl, rfl⟩
  · exact .fail _

theorem tame_schedule (a : AwaitableId) : (schedule i a).Tame := by
  unfold schedule
  refine .bind .service fun s => .bind .get fun v => .ite (fun _ => ?_) fun _ => .fail _
  split
  · exact .pure fun _ h => h.1.1
  · refine .set fun w h => ?_
    obtain ⟨⟨hw, -⟩, rfl⟩ := h
    have step : Step .free v { v.setAwaitable a (.future none []) with
        ready := v.ready ++ [Ready.step a ‹_› ‹_› ‹_›] } := .aside rfl rfl rfl
    exact ⟨.free step, step.sane hw⟩
  · exact .fail _

end Run

namespace Engine

open Run

variable {g : Engine} {sc : Scope} {P : World → Prop} {i : Nat} {m : Machine} {name : Value}
  {vacant : Prop}

theorem tame_reportCancelFailure? (hg : g.Tame) (t : Option Token) (failure : Option Failure) :
    (g.reportCancelFailure? i t failure).Tame := by
  cases failure with
  | none => exact .pure fun _ => id
  | some failure =>
    refine .rescue .ofSane ?_ fun _ => .record .ofSane
    exact .peek fun _ => goes_observe hg .ofSane

/-! ### Cancelling -/

/-- What is left to do when the slot is emptied and the call of the callback it held is written
into the journal. -/
def finishCancelling (g : Engine) (i : Nat) (slot : Slot) : Run Unit :=
  match slot.cancel with
  | none => pure ()
  | some f => do g.reportCancelFailure? i slot.token (← g.finishCancel (.service i) f)

theorem tame_finishCancelling (hg : g.Tame) (slot : Slot) : (g.finishCancelling i slot).Tame := by
  unfold finishCancelling
  split
  · exact .pure fun _ => id
  · exact .bind (tame_finishCancel hg) fun _ => tame_reportCancelFailure? hg _ _

theorem run_clear {w : World} {s : Service} (h : w.services[i]? = some s) :
    (clear i).run w = (.ok (s.slot.token, s.slot.cancel),
      w.turned i (fun s => { s with slot := .empty })
        (s.slot.token.map (Entry.cancelled i)).toList) := by
  unfold clear
  rw [run_bind, run_service h]
  dsimp only
  rw [run_bind, run_update]
  cases s.slot.token <;> rfl

/-- The slot is emptied first, and what happens then finds it empty. -/
theorem run_cancelInvocation {w : World} {s : Service} (h : w.services[i]? = some s) :
    (g.cancelInvocation i).run w =
      (g.finishCancelling i s.slot).run
        (w.turned i (fun s => { s with slot := .empty }) (s.slot.farewell i)) := by
  unfold cancelInvocation
  rw [run_bind, run_clear h]
  dsimp only
  rw [run_bind]
  unfold finishCancelling Slot.farewell callCancel?
  cases s.slot.cancel with
  | none => rfl
  | some f =>
    dsimp only
    rw [run_callCancel, run_bind]
    rfl

/-- A live state that is exited loses its invocation. -/
theorem goes_abandon (hg : g.Tame) : (do note (.exited i name); g.cancelInvocation i).Goes (.item i)
    (World.At i m name vacant) fun _ => World.At i m name True := by
  intro w hw
  obtain ⟨s, hs, hb, hm, rfl, -⟩ := hw.service
  have noted : (w.noted (.exited i s.stateName)).services[i]? = some s := hs
  have step : Step (.work i) w (w.emptied i s.slot (.exited i s.stateName)) := .cancel hs (.exit hb)
  have hw' : World.At i m s.stateName True (w.emptied i s.slot (.exited i s.stateName)) := by
    refine ⟨step.sane hw.sane, { s with slot := .empty }, ?_, ⟨hb.draining, hb.started⟩, hm, rfl,
      fun _ => rfl⟩
    rw [World.emptied_services]
    exact World.change_self _ hs
  have finish :
      (g.finishCancelling i s.slot).Goes (.item i) (World.At i m s.stateName True) fun _ =>
        World.At i m s.stateName True := .frame .ofAt (tame_finishCancelling hg s.slot)
  rw [run_bind, run_note]
  dsimp only
  rw [run_cancelInvocation noted]
  obtain ⟨hp, hq⟩ := finish _ hw'
  exact ⟨.trans (.work step) hp, hq⟩

theorem run_cancelIfActive_active {w : World} {s : Service} {t : Token}
    (hs : w.services[i]? = some s) (ht : s.slot.isActive t = true) :
    (g.cancelIfActive i t).run w = (g.cancelInvocation i).run w := by
  unfold cancelIfActive
  rw [run_bind, run_service hs]
  dsimp only
  rw [if_pos ht]

/-- The interface of an invocation that is not the active one does nothing. -/
theorem run_cancelIfActive_inactive {w : World} {s : Service} {t : Token}
    (hs : w.services[i]? = some s) (ht : s.slot.isActive t = false) :
    (g.cancelIfActive i t).run w = (.ok (), w) := by
  unfold cancelIfActive
  rw [run_bind, run_service hs]
  dsimp only
  rw [ht]
  rfl

theorem tame_revoke (hg : g.Tame) (t : Token) : (g.revoke i t).Tame := by
  refine .tame (Q := fun _ _ => True) fun w hw => ⟨?_, fun _ _ => trivial⟩
  have asked : Step .free w (w.noted (.revoked i t)) := .report rfl
  unfold revoke
  rw [run_bind, run_note]
  dsimp only
  cases hs : w.services[i]? with
  | none =>
    unfold cancelIfActive
    rw [run_bind, run_service_none (w := w.noted (.revoked i t)) hs]
    exact .free asked
  | some s =>
    have noted : (w.noted (.revoked i t)).services[i]? = some s := hs
    cases ht : s.slot.isActive t with
    | false =>
      rw [run_cancelIfActive_inactive noted ht]
      exact .free asked
    | true =>
      have step : Step .free w (w.emptied i s.slot (.revoked i t)) := .cancel hs (.revoke ht)
      rw [run_cancelIfActive_active noted ht, run_cancelInvocation noted]
      exact .trans (.free step) ((tame_finishCancelling hg s.slot).walk (step.sane hw))

/-! ### Starting -/

/-- A new token is made the active one. -/
theorem run_activate {α : Type} {w : World} {s : Service} {invocation : Value}
    (h : w.services[i]? = some s) (k : Nat → Run α) :
    (do let t ← mint (.service i); activate i (Int.ofNat t) invocation; k t : Run α).run w =
      (k s.supply).run
        ((w.change i fun s =>
          { s with supply := s.supply + 1, slot := s.slot.activate (Int.ofNat s.supply) }).noted
        (.activated i (Int.ofNat s.supply) invocation s.slot)) := by
  have activated : (activate i (Int.ofNat s.supply) invocation).run
    (w.change i fun s => { s with supply := s.supply + 1 }) =
      (.ok (), (w.change i fun s =>
        { s with supply := s.supply + 1, slot := s.slot.activate (Int.ofNat s.supply) }).noted
          (.activated i (Int.ofNat s.supply) invocation s.slot)) := by
    unfold activate
    rw [run_bind, run_service (World.change_self _ h)]
    dsimp only
    rw [run_bind, run_update]
    dsimp only
    rw [World.change_change, World.change_congr (g := fun s =>
      { s with supply := s.supply + 1, slot := s.slot.activate (Int.ofNat s.supply) }) h rfl]
    rfl
  rw [run_bind, run_mint h]
  dsimp only
  rw [run_bind, activated]

/-- A token that was handed out last is made the active one. -/
theorem goes_activate {α : Type} {n invocation : Value} {k : Nat → Run α} {Q : α → World → Prop}
    (hn : m.node name = .ok n) (hi : n.member "invoke" = .ok invocation)
    (present : invocation.isNull = false)
    (hk : ∀ t, (k t).Goes (.item i)
      (fun w => World.At i m name False w ∧ Opened i (Int.ofNat t) w.journal) Q) :
    (do let t ← mint (.service i); activate i (Int.ofNat t) invocation; k t).Goes (.item i)
      (World.At i m name True) Q := by
  intro w hw
  obtain ⟨s, hs, hb, rfl, rfl, hv⟩ := hw.service
  have step : Step (.work i) w ((w.change i fun s =>
      { s with supply := s.supply + 1, slot := s.slot.activate (Int.ofNat s.supply) }).noted
        (.activated i (Int.ofNat s.supply) invocation s.slot)) :=
        .wrote hs (.activate hb (hv trivial) hn hi present)
  rw [run_activate hs]
  obtain ⟨hp, hq⟩ := hk s.supply _
    ⟨⟨step.sane hw.sane, _, World.change_self _ hs, ⟨hb.draining, hb.started⟩, rfl, rfl,
    False.elim⟩, [], w.journal, invocation, s.slot, rfl, List.forall_mem_nil _⟩
  exact ⟨.trans (.work step) hp, hq⟩

theorem goes_callSource (hg : g.Tame) (hP : Firm P) {src : Value} {e : Event} {t : Token}
    (hs : ∀ w, P w → w.Sanctions (.service i) (.source t) src) :
    (g.callSource i src e t).Goes sc P fun _ => P := by
  have call : (do
      let c := (← service i).context
      return (← g.invoke (.service i) (.source t) src
        [.held c, .fresh e.toValue, .fresh (.sourceAccess i t)]).value :
      Run Value).Goes sc P fun _ => P :=
    .peek fun _ => .bind (goes_invoke hg hP rfl hs) fun _ => .pure fun _ => id
  unfold callSource
  split
  · exact .bind (.aside hP fun _ => ⟨rfl, rfl, rfl⟩) fun _ => call
  · exact call

theorem goes_launch (hg : g.Tame) (hP : Firm P) {invocation : Value} {e : Event} {t : Token}
    (hs : ∀ w, P w → ∀ src, invocation.member "src" = .ok src →
      w.Sanctions (.service i) (.source t) src) :
    (g.launch i invocation e t).Goes sc P fun _ => P := by
  unfold launch
  refine .learn .member fun src hsrc => ?_
  refine .bind (goes_callSource hg hP fun w hw => hs w hw src hsrc) fun result => ?_
  refine .learn .ofExcept fun (a, cancel) _ => ?_
  exact .bind (.frame hP (tame_schedule a)) fun _ => .pure fun _ => id

theorem run_retire_active {w : World} {s : Service} {t : Token} (h : w.services[i]? = some s)
    (ht : s.slot.isActive t = true) :
    (retire i t).run w =
      (.ok true, (w.change i fun s => { s with slot := .empty }).noted (.retired i t)) := by
  unfold retire
  rw [run_bind, run_service h]
  dsimp only
  unfold Slot.retire
  rw [if_pos ht]
  rfl

theorem run_retire_inactive {w : World} {s : Service} {t : Token} (h : w.services[i]? = some s)
    (ht : s.slot.isActive t = false) : (retire i t).run w = (.ok false, w) := by
  have same : w.change i (fun s' => { s' with slot := s.slot }) = w := World.change_id h rfl
  unfold retire
  rw [run_bind, run_service h]
  dsimp only
  unfold Slot.retire
  rw [if_neg (by simp [ht])]
  dsimp only
  rw [run_bind, run_update, same]
  rfl

/-- A token that is active is retired; else nothing happens. -/
theorem goes_retire {t : Token} : (retire i t).Goes (.item i)
    (fun w => World.At i m name vacant w ∧ Dismissed i t w.journal) fun _ =>
      World.At i m name vacant := by
  rintro w ⟨hw, dismissed⟩
  obtain ⟨s, hs, hb, hm, hn, hv⟩ := hw.service
  cases ht : s.slot.isActive t with
  | false =>
    rw [run_retire_inactive hs ht]
    exact ⟨.refl _ w, fun _ _ => hw⟩
  | true =>
    have step : Step (.work i) w
        ((w.change i fun s => { s with slot := .empty }).noted (.retired i t)) :=
      .wrote hs (.retire hb ht dismissed)
    rw [run_retire_active hs ht]
    exact ⟨.work step, fun _ _ =>
      ⟨step.sane hw.sane, _, World.change_self _ hs, ⟨hb.draining, hb.started⟩, hm, hn,
      fun _ => rfl⟩⟩

theorem run_attach_null {w : World} {s : Service} {t : Token} {f : Value}
    (h : w.services[i]? = some s) (hf : f.isNull = true) :
    (attach i t f).run w = (.ok none, w) := by
  have same : w.change i (fun s' => { s' with slot := s.slot }) = w := World.change_id h rfl
  unfold attach
  rw [run_bind, run_service h]
  dsimp only
  unfold Slot.attach
  rw [if_pos hf]
  dsimp only
  rw [run_bind, run_update, same]
  dsimp only
  rw [hf]
  rfl

theorem run_attach {w : World} {s : Service} {t : Token} {f : Value} (h : w.services[i]? = some s)
    (hf : f.isNull = false) : (attach i t f).run w = (.ok (s.slot.attach t f).2,
      (w.change i fun s => { s with slot := (s.slot.attach t f).1 }).noted (.attached i t f)) := by
  unfold attach
  rw [run_bind, run_service h]
  dsimp only
  rw [run_bind, run_update,
    World.change_congr (g := fun s => { s with slot := (s.slot.attach t f).1 }) h rfl]
  dsimp only
  rw [hf]
  rfl

/-- A cancel callback is recorded, or called at once if the slot was emptied meanwhile. -/
theorem goes_attach (hg : g.Tame) {α : Type} {t : Token} {f : Value} {k : Option Failure → Run α}
    {Q : α → World → Prop}
    (hk : ∀ failure, (k failure).Goes (.item i) (World.At i m name False) Q) :
    (do let callback ← attach i t f
        let failure ← g.callCancel? (.service i) (some t) callback
        k failure).Goes (.item i)
      (fun w => World.At i m name False w ∧ Opened i t w.journal) Q := by
  rintro w ⟨hw, ho⟩
  obtain ⟨s, hs, hb, hm, hn, -⟩ := hw.service
  cases hf : f.isNull with
  | true =>
    rw [run_bind, run_attach_null hs hf]
    exact hk none w hw
  | false =>
    have step : Step (.work i) w _ :=
      .turn (f := fun s => { s with slot := (s.slot.attach t f).1 }) hs (.attach hb hf ho)
    have hw' : World.At i m name False
      (w.turned i (fun s => { s with slot := (s.slot.attach t f).1 })
        (s.slot.welcome i t f)) := by
      refine ⟨step.sane hw.sane, { s with slot := (s.slot.attach t f).1 }, ?_,
        ⟨hb.draining, hb.started⟩, hm, hn,
        False.elim⟩
      rw [World.turned_services]
      exact World.change_self _ hs
    rw [run_bind, run_attach hs hf]
    dsimp only
    cases ht : s.slot.isActive t with
    | true =>
      rw [Slot.welcome_of_active hf ht] at step hw'
      rw [Slot.attach_of_active hf ht]
      obtain ⟨hp, hq⟩ := hk none _ hw'
      exact ⟨.trans (.work step) hp, hq⟩
    | false =>
      rw [Slot.welcome_of_inactive hf ht] at step hw'
      rw [Slot.attach_of_inactive hf ht]
      dsimp only [callCancel?]
      rw [run_bind, run_callCancel, ← run_bind]
      obtain ⟨hp, hq⟩ := Goes.bind (Goes.frame .ofAt (tame_finishCancel hg)) hk _ hw'
      exact ⟨.trans (.work step) hp, hq⟩

theorem goes_startInvocation (hg : g.Tame) {n invocation : Value} {e : Event}
    (hn : m.node name = .ok n) (hi : n.member "invoke" = .ok invocation)
    (present : invocation.isNull = false) :
    (g.startInvocation i invocation e).Goes (.item i) (World.At i m name True) fun _ =>
      World.At i m name False := by
  unfold startInvocation
  refine goes_activate hn hi present fun t => ?_
  have firm : Firm fun w => World.At i m name False w ∧ Opened i (Int.ofNat t) w.journal :=
    .opened .ofAt World.At.busy
  have sanctioned {w : World} (hw : World.At i m name False w) (src : Value)
      (hsrc : invocation.member "src" = .ok src) :
      w.Sanctions (.service i) (.source (Int.ofNat t)) src := by
    refine hw.sanctions fun hc => ?_
    obtain ⟨ready, rfl, starts⟩ := hc.invoke hn hi present
    cases hsrc
    exact starts.src
  refine .peek fun s => .bind (.record firm) fun _ => ?_
  refine .bind (.rescue firm (goes_launch hg firm fun w hw => sanctioned hw.1) fun f => ?_)
    fun (a, cancel) => ?_
  · refine .bind (.discard (Q := fun _ => World.At i m name False) ?_) fun _ => .fail f
    exact goes_retire.pre fun w hw => ⟨hw.1, Or.inl hw.2⟩
  · refine goes_attach hg fun failure => ?_
    exact .bind (.frame .ofAt (tame_reportCancelFailure? hg _ _)) fun _ =>
      .frame .ofAt (tame_whenSettled _ _)

end Engine

end FlatMachine
