import FlatMachine.Proofs.Service.WatchedServices
import FlatMachine.Proofs.Service.Absorbing

/-! # What callbacks leave of a service

A service whose queue is drained is in the middle of processing an item while a callback runs.
Whatever the callback does, it leaves the service to go on where it was.

* **`World.Bears`**: no deed of the service was done since, and it was spared.
* **`World.Leaves`**: if moreover nobody stopped the service or used the interface of its
  invocation, or there was no invocation, the slot is as it was, and nothing was told about
  emptying it.
* **`World.Composed`**: nobody did so, and the status and the listeners are the same.
* **`Engine.Leaving`**: callbacks leave services that are drained, and compose them if none of
  those that are called may ask for such things (**`World.Refrains`**).  So do all callbacks of a
  book (**`Engine.leaving_ofBook`**). -/

namespace FlatMachine

/-- The entry tells that the slot of the service is emptied, or what came of it. -/
def Entry.clears (i : Nat) : Entry → Bool
  | called (.service j) (.cancel _) .. | called (.service j) (.hook .error) .. | cancelled j _ =>
    j == i
  | _ => false

/-- The effect stops the service, or has to do with its invocation or its listeners, or may have. -/
def Effect.Meddles (i : Nat) : Effect → Prop
  | .stop j | .cancelInvocation j _ | .subscribe j _ => j = i
  | .unsubscribe _ => True
  | _ => False

/-- The program never asks to meddle with the service. -/
def Prog.Refrains {α : Type} (i : Nat) (p : Prog α) : Prop := p.Asks fun r => ¬ r.Meddles i

/-- The slot of a service. -/
def World.slot? (w : World) (i : Nat) : Option Slot := w.services[i]?.map (·.slot)

namespace World

variable {i : Nat} {w v u : World}

/-- The service is running, and nobody used the interface of an invocation of it since. -/
def Calm (i : Nat) (w v : World) : Prop :=
  (∃ s, v.services[i]? = some s ∧ s.status = .running) ∧ ∀ t, .revoked i t ∉ v.since w

/-- None of the callbacks that were called since may ask to meddle with the service. -/
def Refrains (book : Book) (i : Nat) (w v : World) : Prop :=
  ∀ owner role f args, .called owner role f args ∈ v.since w → (book f args).Refrains i

/-! ### No deed of the service -/

/-- No deed of the service was done since, and it was spared. -/
structure Bears (i : Nat) (w v : World) : Prop where
  service : ∀ s, w.services[i]? = some s → ∃ s', v.services[i]? = some s' ∧ s.Spared s'
  journal : ∃ later, v.journal = later ++ w.journal ∧ ∀ e ∈ later, e.deed? ≠ some i

namespace Bears

theorem ofSpares (h : w.Spares i v) : w.Bears i v := ⟨h.service, h.journal⟩

/-- Nothing happened to the service, and nothing was written. -/
theorem same (services : v.services[i]? = w.services[i]?) (journal : v.journal = w.journal) :
    w.Bears i v where
  service := fun s hs => ⟨s, services.trans hs, .refl s⟩
  journal := ⟨[], journal, List.forall_mem_nil _⟩

theorem noted {e : Entry} (he : e.deed? ≠ some i) : w.Bears i (w.noted e) := ofSpares (.noted he)

theorem changed {s : Service} {f : Service → Service} (hs : w.services[i]? = some s)
    (h : s.Spared (f s)) :
    w.Bears i (w.change i f) := ofSpares (.changed hs h)

theorem trans (h : w.Bears i v) (h' : v.Bears i u) : w.Bears i u where
  service := fun s hs => by
    obtain ⟨s', hs', spared⟩ := h.service s hs
    obtain ⟨s'', hs'', spared'⟩ := h'.service s' hs'
    exact ⟨s'', hs'', spared.trans spared'⟩
  journal := by
    obtain ⟨later, hj, others⟩ := h.journal
    obtain ⟨later', hj', others'⟩ := h'.journal
    exact ⟨later' ++ later, by
      rw [hj', hj, List.append_assoc], List.forall_mem_append.mpr ⟨others', others⟩⟩

theorem busy (h : w.Bears i v) (hb : w.Busy i) : v.Busy i := by
  obtain ⟨s, hs, busy⟩ := hb
  obtain ⟨s', hs', spared⟩ := h.service s hs
  exact ⟨s', hs', spared.holds.busy busy⟩

theorem written (h : w.Bears i v) : v.journal = v.since w ++ w.journal := by
  obtain ⟨later, journal, -⟩ := h.journal
  rw [since_append journal, journal]

theorem others (h : w.Bears i v) : ∀ e ∈ v.since w, e.deed? ≠ some i := by
  obtain ⟨later, journal, others⟩ := h.journal
  rwa [since_append journal]

end Bears

theorem Bears.suffix (h : w.Bears i v) : w.journal <:+ v.journal := ⟨_, h.written.symm⟩

/-- Who is calm to the end was calm all the time. -/
theorem Calm.between (calm : w.Calm i u) (suffix : w.journal <:+ v.journal) (hv : v.Busy i)
    (h : v.Bears i u) :
    w.Calm i v ∧ v.Calm i u := by
  obtain ⟨⟨s', hs', running⟩, unrevoked⟩ := calm
  obtain ⟨s, hs, -⟩ := hv
  obtain ⟨s'', hs'', spared⟩ := h.service s hs
  cases hs'.symm.trans hs''
  rw [since_trans suffix h.suffix] at unrevoked
  refine ⟨⟨⟨s, hs, spared.holds.running running⟩, fun t mem =>
    unrevoked t (List.mem_append_right _ mem)⟩, ?_⟩
  exact ⟨⟨s', hs', running⟩, fun t mem => unrevoked t (List.mem_append_left _ mem)⟩

/-! ### The slot -/

/-- No deed of the service was done, and if it stayed calm, or has no invocation, its slot is as
it was. -/
structure Leaves (i : Nat) (w v : World) : Prop where
  bears : w.Bears i v
  slot : w.Calm i v ∨ w.slot? i = some .empty → v.slot? i = w.slot? i ∧
    ∀ e ∈ v.since w, e.clears i = false

namespace Leaves

/-- Nothing happened to the slot, and nothing was told about it. -/
theorem ofSlot (bears : w.Bears i v) (slot : v.slot? i = w.slot? i)
    (unsaid : ∀ e ∈ v.since w, e.clears i = false) :
    w.Leaves i v := ⟨bears, fun _ => ⟨slot, unsaid⟩⟩

theorem same (services : v.services[i]? = w.services[i]?) (journal : v.journal = w.journal) :
    w.Leaves i v := by
  refine ofSlot (.same services journal) (congrArg (Option.map Service.slot) services) ?_
  rw [since_still journal]
  exact List.forall_mem_nil _

theorem noted {e : Entry} (he : e.deed? ≠ some i) (unsaid : e.clears i = false) :
    w.Leaves i (w.noted e) := by
  refine ofSlot (.noted he) rfl ?_
  rw [since_noted]
  exact List.forall_mem_singleton.mpr unsaid

theorem changed {s : Service} {f : Service → Service} (hs : w.services[i]? = some s)
    (h : s.Spared (f s)) (slot : (f s).slot = s.slot) : w.Leaves i (w.change i f) := by
  refine ofSlot (.changed hs h) ?_ ?_
  · unfold slot?
    rw [change_self f hs, hs]
    exact congrArg some slot
  · rw [since_change]
    exact List.forall_mem_nil _

theorem trans (hv : v.Busy i) (h : w.Leaves i v) (h' : v.Leaves i u) : w.Leaves i u := by
  refine ⟨h.bears.trans h'.bears, fun calm => ?_⟩
  have next : (w.Calm i v ∧ v.Calm i u) ∨ w.slot? i = some .empty :=
    calm.imp (fun calm => calm.between h.bears.suffix hv h'.bears) id
  obtain ⟨same, unsaid⟩ := h.slot (next.imp And.left id)
  obtain ⟨same', unsaid'⟩ := h'.slot (next.imp And.right same.trans)
  refine ⟨same'.trans same, ?_⟩
  rw [since_trans h.bears.suffix h'.bears.suffix]
  exact List.forall_mem_append.mpr ⟨unsaid', unsaid⟩

/-- The slot may have been emptied, if somebody stopped the service or used the interface of its
invocation. -/
theorem disturbed (bears : w.Bears i v) (disturbed : ¬ w.Calm i v)
    (vacant : w.slot? i = some .empty → v.slot? i = some .empty ∧ ∀ e ∈ v.since w, e.clears i =
      false) : w.Leaves i v := by
  refine ⟨bears, fun calm => ?_⟩
  obtain ⟨empty, unsaid⟩ := vacant (calm.resolve_left disturbed)
  exact ⟨empty.trans (calm.resolve_left disturbed).symm, unsaid⟩

end Leaves

/-! ### Whether it was meddled with -/

/-- No deed of the service was done, nobody used the interface of its invocation, and its status
and listeners are the same. -/
structure Composed (i : Nat) (w v : World) : Prop where
  bears : w.Bears i v
  service : ∀ s s', w.services[i]? = some s → v.services[i]? = some s' → s'.status = s.status ∧
    s'.listeners = s.listeners
  unrevoked : ∀ t, .revoked i t ∉ v.since w

namespace Composed

theorem same (services : v.services[i]? = w.services[i]?) (journal : v.journal = w.journal) :
    w.Composed i v where
  bears := .same services journal
  service := fun s s' hs hs' => by
    cases hs.symm.trans (services.symm.trans hs')
    exact ⟨rfl, rfl⟩
  unrevoked := fun t => by
    rw [since_still journal]
    exact List.not_mem_nil

theorem noted {e : Entry} (he : e.deed? ≠ some i) (other : ∀ t, e ≠ .revoked i t) :
    w.Composed i (w.noted e) where
  bears := .noted he
  service := fun s s' hs hs' => by
    cases hs.symm.trans hs'
    exact ⟨rfl, rfl⟩
  unrevoked := fun t mem => by
    rw [since_noted] at mem
    exact other t (List.mem_singleton.mp mem).symm

theorem changed {s : Service} {f : Service → Service} (hs : w.services[i]? = some s)
    (h : s.Spared (f s)) (status : (f s).status = s.status)
    (listeners : (f s).listeners = s.listeners) : w.Composed i (w.change i f) where
  bears := .changed hs h
  service := fun s₁ s₂ hs₁ hs₂ => by
    cases hs.symm.trans hs₁
    cases (change_self f hs).symm.trans hs₂
    exact ⟨status, listeners⟩
  unrevoked := fun t => by
    rw [since_change]
    exact List.not_mem_nil

theorem trans (h : w.Composed i v) (h' : v.Composed i u) : w.Composed i u where
  bears := h.bears.trans h'.bears
  service := fun s s₂ hs hs₂ => by
    obtain ⟨s₁, hs₁, -⟩ := h.bears.service s hs
    obtain ⟨status, listeners⟩ := h.service s s₁ hs hs₁
    obtain ⟨status', listeners'⟩ := h'.service s₁ s₂ hs₁ hs₂
    exact ⟨status'.trans status, listeners'.trans listeners⟩
  unrevoked := fun t mem => by
    rw [since_trans h.bears.suffix h'.bears.suffix] at mem
    exact (List.mem_append.mp mem).elim (h'.unrevoked t) (h.unrevoked t)

end Composed

end World

/-! ### What concerns nobody else -/

section Entries

variable {e : Entry} {i : Nat}

/-- What does not concern a service tells nothing of it. -/
theorem Entry.beside_of_concern? (h : e.concern? ≠ some i) :
    e.deed? ≠ some i ∧ e.clears i = false ∧ ∀ t, e ≠ .revoked i t := by
  refine ⟨fun deed => h ?_, Bool.eq_false_iff.mpr fun clears => h ?_, ?_⟩
  · cases e with
    | called owner role f args =>
      obtain ⟨own, mine⟩ := deed?_called.mp deed
      refine concern?_called.mpr ⟨own, ?_⟩
      cases role <;> first | rfl | cases mine
    | _ => first | exact deed | cases deed
  · unfold Entry.clears at clears
    split at clears
    · exact congrArg some (beq_iff_eq.mp clears)
    · exact congrArg some (beq_iff_eq.mp clears)
    · exact congrArg some (beq_iff_eq.mp clears)
    · cases clears
  · rintro t rfl
    exact h rfl

end Entries

namespace Engine

open Run

variable {book : Book} {n i : Nat} {w v : World}

/-! ### What a service is asked for while it is drained -/

section Busy

variable {g : Engine} {s : Service}

theorem left_send (hs : v.services[i]? = some s) (busy : s.Busy) (event : Value) :
    v.Leaves i ((g.send i event).run v).2 ∧ v.Composed i ((g.send i event).run v).2 := by
  by_cases running : s.status = .running
  · cases he : Event.coerce event with
    | ok e =>
      have spared : s.Spared { s with queue := s.queue.enqueue (.event e) } :=
        ⟨⟨rfl, rfl, rfl, rfl, rfl, Or.inl rfl, Or.inl rfl⟩, rfl⟩
      have still := World.change_self (fun s => { s with queue := s.queue.enqueue (.event e) }) hs
      rw [run_send_busy hs running busy.draining he]
      exact ⟨.trans ⟨_, still, busy.draining, busy.started⟩ (.changed hs spared rfl)
        (.noted nofun rfl),
        .trans (.changed hs spared rfl rfl) (.noted nofun nofun)⟩
    | error f =>
      have run : (g.send i event).run v = (.error (.raised f), v) := by
        unfold send
        rw [run_bind, run_service hs]
        dsimp only
        rw [if_pos running, he]
        rfl
      rw [run]
      exact ⟨.same rfl rfl, .same rfl rfl⟩
  · rw [run_send_idle hs running]
    exact ⟨.same rfl rfl, .same rfl rfl⟩

theorem left_start (hs : v.services[i]? = some s) (busy : s.Busy) :
    v.Leaves i ((g.start i .null).run v).2 ∧ v.Composed i ((g.start i .null).run v).2 := by
  rw [run_start_idle hs busy.started]
  exact ⟨.same rfl rfl, .same rfl rfl⟩

/-- A service without an invocation is stopped without a word about it. -/
theorem run_stop_vacant (hs : v.services[i]? = some s) (running : s.status = .running)
    (vacant : s.slot = .empty) :
    ∃ text, (g.stop i).run v = (.ok (), ((v.change i fun s => { s with
      status := .stopped, slot := .empty, queue := s.queue.clear, listeners := [] })).noted
        (.record .debug text)) := by
  have changed := World.change_self (fun s => { s with status := .stopped, slot := .empty }) hs
  rw [run_stop_turned hs running, vacant]
  show ∃ text,
    (finishStop i).run (v.change i fun s => { s with status := .stopped, slot := .empty }) = _
  unfold finishStop
  rw [run_bind, run_update]
  dsimp only
  rw [World.change_change, run_bind, run_service (World.change_self _ hs)]
  exact ⟨_, rfl⟩

end Busy

/-- Whoever stops a service that is drained leaves it. -/
theorem leaves_stop (hv : v.Busy i) : v.Leaves i (((ofBook book n).stop i).run v).2 := by
  obtain ⟨s, hs, busy⟩ := id hv
  by_cases running : s.status = .running
  · have spares :=
      ((heeds_busy hv fun _ => True).stop (j := i) (sparing_ofBook book n i v hv)).run (.refl v)
    refine .disturbed (.ofSpares spares) (fun calm => ?_) fun vacant => ?_
    · have changed := World.change_self (fun s => { s with status := .stopped }) hs
      have halted : (v.change i fun s => { s with status := .stopped }).Busy i :=
        ⟨_, changed, busy.draining, nofun⟩
      have stopping :=
        ((heeds_busy halted fun _ => True).stopping (j := i) (sparing_ofBook book n i _ halted)
        fun _ _ _ hs hv => hv.trans
          (.changed hs ⟨⟨rfl, rfl, rfl, rfl, rfl, Or.inl rfl, Or.inl rfl⟩, rfl⟩)).run (.refl _)
      obtain ⟨s', hs', held⟩ := stopping.service _ changed
      rw [run_stop hs running] at calm
      obtain ⟨⟨s'', hs'', still⟩, -⟩ := calm
      cases hs'.symm.trans hs''
      exact nomatch (held.holds.running still : Status.stopped = .running)
    · unfold World.slot? at vacant
      rw [hs] at vacant
      obtain ⟨text, run⟩ := run_stop_vacant (g := ofBook book n) hs running (Option.some.inj vacant)
      rw [run]
      unfold World.slot?
      rw [World.noted_services, World.change_self _ hs,
        World.since_append (List.singleton_append.symm)]
      exact ⟨rfl, List.forall_mem_singleton.mpr rfl⟩
  · rw [run_stop_idle hs running]
    exact .same rfl rfl

/-- Whoever uses the interface of an invocation leaves the service. -/
theorem leaves_revoke (hv : v.Busy i) (t : Token) :
    v.Leaves i (((ofBook book n).revoke i t).run v).2 := by
  obtain ⟨s, hs, busy⟩ := id hv
  have spares :=
    ((heeds_busy hv fun _ => True).revoke (j := i) (sparing_ofBook book n i v hv) t).run (.refl v)
  refine .disturbed (.ofSpares spares) (fun calm => calm.2 t ?_) fun vacant => ?_
  · have noted : (v.noted (.revoked i t)).Busy i := ⟨s, hs, busy⟩
    have free := (heeds_busy noted fun _ => True).free (j := i) (sparing_ofBook book n i _ noted)
    have after : (v.noted (.revoked i t)).Spares i (((ofBook book n).revoke i t).run v).2 := by
      refine Respects.run (x := (ofBook book n).cancelIfActive i t) ?_ (.refl _)
      exact .peek fun s => .ite (fun _ => free.cancelInvocation) fun _ => .pure
    rw [World.since_trans (List.suffix_cons (.revoked i t) v.journal)
      (World.Bears.ofSpares after).suffix]
    exact List.mem_append_right _ (World.since_noted v _ ▸ List.mem_cons_self)
  · unfold World.slot? at vacant
    rw [hs] at vacant
    have empty : s.slot = .empty := Option.some.inj vacant
    have inactive : s.slot.isActive t = false := by
      rw [empty]
      rfl
    have run : ((ofBook book n).revoke i t).run v = (.ok (), v.noted (.revoked i t)) :=
      run_cancelIfActive_inactive (w := v.noted (.revoked i t)) hs inactive
    rw [run, World.since_noted]
    unfold World.slot?
    rw [World.noted_services, hs]
    exact ⟨vacant, List.forall_mem_singleton.mpr rfl⟩

/-- Who registers or removes listeners leaves the service. -/
theorem leaves_listeners (hv : v.Busy i) (f : List Listener → List Listener) :
    v.Leaves i (v.change i fun s => { s with listeners := f s.listeners }) := by
  obtain ⟨s, hs, -⟩ := hv
  exact .changed hs ⟨⟨rfl, rfl, rfl, rfl, rfl, Or.inl rfl, Or.inl rfl⟩, rfl⟩ rfl

theorem leaves_subscribe (hv : v.Busy i) (listener : Listener) :
    v.Leaves i ((Functor.discard (subscribe i listener)).run v).2 := by
  obtain ⟨s, hs, busy⟩ := id hv
  rw [run_subscribe hs]
  have left := leaves_listeners hv (· ++ [listener])
  exact left.trans (left.bears.busy hv) (.same rfl rfl)

theorem leaves_unsubscribe (hv : v.Busy i) (m : Nat) : v.Leaves i ((unsubscribe m).run v).2 := by
  cases given : v.subscriptions[m]? with
  | none =>
    have run : (unsubscribe m).run v = (.error (.raised (.missingIndex "list")), v) := by
      unfold unsubscribe
      rw [run_bind, run_get]
      dsimp only
      rw [given]
      rfl
    rw [run]
    exact .same rfl rfl
  | some subscription =>
    obtain ⟨j, listener⟩ := subscription
    rw [run_unsubscribe given]
    by_cases hij : j = i
    · cases hij
      exact leaves_listeners hv (·.eraseP (·.same listener))
    · exact .same (World.change_ne _ _ hij) rfl

/-! ### Callbacks -/

/-- What callbacks do to a service that is drained. -/
structure Leaving (g : Engine) (book : Book) : Prop where
  grows : ∀ owner f args c, Grows (g.call owner f args c)
  leaves : ∀ {i} {w : World}, w.Busy i →
    ∀ owner f args c, w.Leaves i ((g.call owner f args c).run w).2
  composed : ∀ {i} {w : World}, w.Busy i → ∀ owner f args c, (book f args).Refrains i →
    w.Refrains book i ((g.call owner f args c).run w).2 →
    w.Composed i ((g.call owner f args c).run w).2

/-- The slot outlasts what callbacks do. -/
theorem watches_leaves (hw : w.Busy i) :
    (ofBook book n).Watches (· = i) (fun _ => True) fun v => w.Leaves i v where
  aside := fun beside hv =>
    hv.trans (hv.bears.busy hw) (.same (congrArg (·[i]?) beside.services) beside.journal)
  waits := fun {v j t e} a _ hv => by
    have aside := aside_whenSettled a ⟨j, t, e⟩
    exact hv.trans (hv.bears.busy hw) (.same (congrArg (·[i]?) (aside.services v)) (aside.still v))
  noted := fun concern hv => by
    obtain ⟨deed, unsaid, -⟩ := Entry.beside_of_concern? (concern i rfl)
    exact hv.trans (hv.bears.busy hw) (.noted deed unsaid)
  others := fun {v j f} hij hv => hv.trans (hv.bears.busy hw) (.same (World.change_ne _ f hij) rfl)
  supplied := fun {v j} n hij hv => by
    cases hij
    obtain ⟨s, hs, -⟩ := hv.bears.busy hw
    exact hv.trans (hv.bears.busy hw)
      (.changed hs ⟨⟨rfl, rfl, rfl, rfl, rfl, Or.inl rfl, Or.inl rfl⟩, rfl⟩ rfl)
  asked := fun {j} owner r hij concerns _ => by
    cases hij
    have step {α : Type} {x : Run α} (hx : ∀ v : World, v.Busy i → v.Leaves i (x.run v).2) :
        Respects (fun v => w.Leaves i v) x :=
      .ofRun fun v hv => hv.trans (hv.bears.busy hw) (hx v (hv.bears.busy hw))
    cases r with
    | send sender event =>
      cases concerns
      exact step fun v ⟨s, hs, busy⟩ => (left_send hs busy event).1
    | start j =>
      cases concerns
      exact step fun v ⟨s, hs, busy⟩ => (left_start hs busy).1
    | stop j =>
      cases concerns
      exact step fun v hv => leaves_stop hv
    | cancelInvocation j t =>
      cases concerns
      exact step fun v hv => leaves_revoke hv t
    | subscribe j name =>
      cases concerns
      have aside := aside_listenerNamed name none
      refine .bind (step fun v _ => .same (congrArg (·[i]?) (aside.services v)) (aside.still v))
        fun listener => ?_
      exact step fun v hv => leaves_subscribe hv listener
    | unsubscribe m => exact step fun v hv => leaves_unsubscribe hv m
    | _ => cases concerns

/-- That a service is composed outlasts callbacks, as long as nobody asks to meddle with it. -/
theorem watches_composed (hw : w.Busy i) :
    (ofBook book n).Watches (· = i) (fun r => ¬ r.Meddles i) fun v => w.Composed i v where
  aside := fun beside hv => hv.trans (.same (congrArg (·[i]?) beside.services) beside.journal)
  waits := fun {v j t e} a _ hv => by
    have aside := aside_whenSettled a ⟨j, t, e⟩
    exact hv.trans (.same (congrArg (·[i]?) (aside.services v)) (aside.still v))
  noted := fun concern hv => by
    obtain ⟨deed, -, other⟩ := Entry.beside_of_concern? (concern i rfl)
    exact hv.trans (.noted deed other)
  others := fun {v j f} hij hv => hv.trans (.same (World.change_ne _ f hij) rfl)
  supplied := fun {v j} n hij hv => by
    cases hij
    obtain ⟨s, hs, -⟩ := hv.bears.busy hw
    exact hv.trans (.changed hs ⟨⟨rfl, rfl, rfl, rfl, rfl, Or.inl rfl, Or.inl rfl⟩, rfl⟩ rfl rfl)
  asked := fun {j} owner r hij concerns allowed => by
    cases hij
    have step {α : Type} {x : Run α} (hx : ∀ v : World, v.Busy i → v.Composed i (x.run v).2) :
        Respects (fun v => w.Composed i v) x :=
      .ofRun fun v hv => hv.trans (hx v (hv.bears.busy hw))
    cases r with
    | send sender event =>
      cases concerns
      exact step fun v ⟨s, hs, busy⟩ => (left_send hs busy event).2
    | start j =>
      cases concerns
      exact step fun v ⟨s, hs, busy⟩ => (left_start hs busy).2
    | stop j | cancelInvocation j t | subscribe j name => exact absurd concerns allowed
    | unsubscribe m => exact absurd trivial allowed
    | _ => cases concerns

/-- A callback was called since that may ask to meddle with the service. -/
def Strayed (book : Book) (i : Nat) (base : World) (journal : List Entry) : Prop :=
  ∃ later owner role f args, journal = later ++ base.journal ∧ .called owner role f args ∈ later ∧
    ¬ (book f args).Refrains i

theorem Strayed.later {book : Book} {i : Nat} {base : World} {e : Entry} {journal : List Entry}
    (h : Strayed book i base journal) :
    Strayed book i base (e :: journal) := by
  obtain ⟨later, owner, role, f, args, written, mem, strays⟩ := h
  exact ⟨e :: later, owner, role, f, args, by rw [written]; rfl, List.mem_cons_of_mem e mem, strays⟩

/-- All callbacks of a book leave the services that are drained, and compose them if those that
are called refrain from meddling with them. -/
theorem leaving_ofBook (book : Book) (n : Nat) : (ofBook book n).Leaving book where
  grows := grows_call book n
  leaves := fun {i w} hw owner f args c => by
    have left : Mirrors (Bond.alone (fun v => w.Leaves i v) (fun _ => False) id)
        ((ofBook book n).call owner f args c) :=
      watches_ofBook (fun m _ => watches_leaves hw)
        (fun _ strays => absurd (Prog.asks_any _) strays) n owner f args c (Prog.asks_any _)
    exact (left.keeps (.same rfl rfl)).resolve_left id
  composed := fun {i w} hw owner f args c refrains called => by
    have composed : Mirrors (Bond.alone (fun v => w.Composed i v) (Strayed book i w) Strayed.later)
        ((ofBook book n).call owner f args c) := by
      refine watches_ofBook (fun m _ => watches_composed hw)
        (fun {v owner role f args} hv strays => ?_) n owner f args c refrains
      exact ⟨.called owner role f args :: v.since w, owner, role, f, args,
        congrArg _ hv.bears.written, List.mem_cons_self, strays⟩
    refine (composed.keeps (.same rfl rfl)).resolve_left ?_
    rintro ⟨later, owner, role, f, args, written, mem, strays⟩
    exact strays (called owner role f args (World.since_append written ▸ mem))

end Engine

end FlatMachine
