import FlatMachine.Proofs.Service.Lifecycle
import FlatMachine.Proofs.World.Bond
import FlatMachine.Proofs.World.Meets

/-! # What a service does in two worlds

A service that is the same in two worlds, but perhaps for what waits in its queue, what it showed
last and what context its machine has, does the same in both, whatever else differs between them.
That includes the engines that its callbacks run on, as long as what is called does the same.

* **`Bond.Finds`**: so the bond ties a service.
* **`Engine.WeighsWith`**: what the service writes and calls in choosing among candidates leaves
  the worlds tied, so choosing does (**`Engine.WeighsWith.choose`**).
* **`Engine.ReflectsWith`**: so does what it writes, calls and changes in processing an item, so
  processing one does (**`Engine.ReflectsWith.process`**), and so does publishing.
* **`Engine.WorksWith`**: the service is the same with all that waits in its queue, and so does
  what is done between two items.  Then draining does as well, and with it all that is asked of a
  service once it is started.
* **`Engine.WhollyWith`**: the service is the same altogether, and whatever is done to it leaves
  the worlds tied.  Then starting it does as well.

What comes of a cancel callback is looked at as a whole, with the report of its failure
(**`Engine.dismiss`**): it may be that it fails in one world only.

Mostly both engines are the same: the service **weighs**, **reflects**, or does so **wholly**.
The awaitables of a service are those its sources may return; the bond has to be told of them
only. -/

namespace FlatMachine

/-- The service with other items waiting. -/
def Service.withItems (s : Service) (items : List Item) : Service :=
  { s with queue := { s.queue with items } }

/-- What a started service does not look at: the context of its machine, and what it showed last. -/
structure Service.Guise where
  context : Value
  snapshot : Snapshot

/-- The service in another guise. -/
def Service.guised (s : Service) (guise : Guise) : Service :=
  { s with machine := { s.machine with context := guise.context }, snapshot := guise.snapshot }

/-- What makes no difference to the way in which a service processes an item. -/
structure Service.Veil extends Service.Guise where
  items : List Item

/-- The service in another guise, with other items waiting. -/
def Service.veiled (s : Service) (veil : Veil) : Service :=
  (s.guised veil.toGuise).withItems veil.items

/-- The guise in which the service is. -/
def Service.guise (s : Service) : Guise := ⟨s.machine.context, s.snapshot⟩

/-- An assignment to one part of a service, of a value that does not depend on the service. -/
inductive Service.Stroke : (Service → Service) → Prop where
  | stateName (name : Value) : Stroke fun s => { s with stateName := name }
  | context (c : Context) : Stroke fun s => { s with context := c }
  | slot (slot : Slot) : Stroke fun s => { s with slot }
  | snapshot (sn : Snapshot) : Stroke fun s => { s with snapshot := sn }
  | supply (n : Nat) : Stroke fun s => { s with supply := n }

namespace Service.Stroke

variable {f : Service → Service}

theorem withItems (h : Stroke f) (s : Service) (items : List Item) :
    f (s.withItems items) = (f s).withItems items := by
  cases h <;> rfl

theorem queue (h : Stroke f) (s : Service) : (f s).queue = s.queue := by cases h <;> rfl

theorem status (h : Stroke f) (s : Service) : (f s).status = s.status := by cases h <;> rfl

theorem listeners (h : Stroke f) (s : Service) : (f s).listeners = s.listeners := by cases h <;> rfl

end Service.Stroke

/-- What is done to a service between two items. -/
inductive Service.Handling : (Service → Service) → Prop where
  | queue (q : Queue Item → Queue Item) : Handling fun s => { s with queue := q s.queue }
  | stop : Handling fun s => { s with status := .stopped }
  | drop : Handling fun s => { s with queue := s.queue.clear, listeners := [] }

/-- A change that leaves the hooks of a service alone and registers no listener. -/
def Service.Modest (f : Service → Service) : Prop :=
  ∀ s, (f s).hooks = s.hooks ∧ (f s).listeners.Sublist s.listeners

theorem Service.Stroke.modest {f : Service → Service} (h : Stroke f) : Modest f :=
  fun s => ⟨by cases h <;> rfl, h.listeners s ▸ .refl _⟩

theorem Service.Handling.modest {f : Service → Service} (h : Handling f) : Modest f := by
  cases h with
  | drop => exact fun _ => ⟨rfl, List.nil_sublist _⟩
  | _ => exact fun _ => ⟨rfl, .refl _⟩

/-- The owner whose doing the entry is, if it is said. -/
def Entry.owner? : Entry → Option Owner
  | logged owner .. | called owner .. => some owner
  | notified i .. | accepted i _ | taken i _ | exited i _ | moved i .. | activated i .. | attached i
    .. | retired i _
  | revoked i _ | cancelled i _ | published i _ | began i | ended i _ | faulted i _ =>
    some (.service i)
  | escaped _ | record .. => none

/-- The entry is of the service: if it says on whose behalf it is written, it is on behalf of that
service. -/
def Entry.Of (e : Entry) (i : Nat) : Prop := ∀ owner, e.owner? = some owner → owner = .service i

/-- An entry of a service is no publication of another one. -/
theorem Entry.unpublished {e : Entry} {i : Nat} (of : e.Of i) (other : ∀ sn, e ≠ .published i sn)
    (k : Nat) (sn : Snapshot) :
    e ≠ .published k sn := by
  rintro rfl
  cases of _ rfl
  exact other sn rfl

/-- The service shows a snapshot, and it is written that it was published. -/
def World.announcing (w : World) (i : Nat) (sn : Snapshot) : World :=
  (w.change i fun s => { s with snapshot := sn }).noted (.published i sn)

/-- If the entry is a call, its role and what is called pass. -/
def Entry.callsOnly (passes : Role → Value → Bool) : Entry → Bool
  | called _ role f _ => passes role f
  | _ => true

/-- What is called in the role says which candidates there are, or whether one may be taken. -/
def Role.judges : Role → Bool
  | guard | member "is_eligible" | member "candidates_for" => true
  | _ => false

/-- What is called in the role is called in the course of events: neither nested, nor to cancel. -/
def Role.isPlain : Role → Bool
  | nested | cancel _ => false
  | _ => true

theorem Role.isPlain_of_judges {role : Role} (h : role.judges = true) : role.isPlain = true := by
  cases role <;> first | rfl | cases h

theorem Role.ne_nested {role : Role} (h : role.isPlain = true) : role ≠ .nested := by
  rintro rfl
  cases h

theorem Role.ne_cancel {role : Role} (h : role.isPlain = true) (t : Option Token) :
    role ≠ .cancel t := by
  rintro rfl
  cases h

/-- The result of a source is an awaitable of that sort, if it is one at all. -/
def Yields (awaits : AwaitableId → Prop) (v : Value) : Prop :=
  ∀ a cancel, awaitableOf v = .ok (a, cancel) → awaits a

/-- The source of the token's invocation was called with the event. -/
def Sourced (i : Nat) (t : Token) (e : Event) (journal : List Entry) : Prop :=
  ∃ src c, .called (.service i) (.source t) src
    [.held c, .fresh e.toValue, .fresh (.sourceAccess i t)] ∈ journal

theorem Sourced.mono {i : Nat} {t : Token} {e : Event} {journal journal' : List Entry}
    (hp : journal <:+ journal') (h : Sourced i t e journal) : Sourced i t e journal' := by
  obtain ⟨src, c, mem⟩ := h
  exact ⟨src, c, hp.subset mem⟩

/-- The service is in both worlds, the same but for its guise and what waits in its queue, or in
neither. -/
def Bond.Finds (B : Bond) (i : Nat) : Prop :=
  ∀ w v, B.ties w v → (w.services[i]? = none ∧ v.services[i]? = none) ∨
    ∃ s veil, w.services[i]? = some s ∧ v.services[i]? = some (s.veiled veil)

/-- The service is in both worlds, the same but for its guise, or in neither. -/
def Bond.Knows (B : Bond) (i : Nat) : Prop :=
  ∀ w v, B.ties w v → (w.services[i]? = none ∧ v.services[i]? = none) ∨
    ∃ s guise, w.services[i]? = some s ∧ v.services[i]? = some (s.guised guise)

theorem Bond.Knows.finds {B : Bond} {i : Nat} (h : B.Knows i) : B.Finds i := by
  intro w v tied
  obtain absent | ⟨s, guise, hw, hv⟩ := h w v tied
  · exact .inl absent
  · exact .inr ⟨s, ⟨guise, s.queue.items⟩, hw, hv⟩

theorem Bond.knows_of_same {B : Bond} {i : Nat}
    (same : ∀ w v, B.ties w v → w.services[i]? = v.services[i]?) : B.Knows i := by
  intro w v tied
  rw [← same w v tied]
  cases hs : w.services[i]? with
  | none => exact .inl ⟨rfl, rfl⟩
  | some s => exact .inr ⟨s, s.guise, rfl, rfl⟩

theorem Bond.finds_of_same {B : Bond} {i : Nat}
    (same : ∀ w v, B.ties w v → w.services[i]? = v.services[i]?) : B.Finds i :=
  (Bond.knows_of_same same).finds

/-- The service shows the same in both worlds, or is in neither. -/
def Bond.Shows (B : Bond) (i : Nat) : Prop :=
  ∀ w v, B.ties w v → (w.services[i]? = none ∧ v.services[i]? = none) ∨
    ∃ s s', w.services[i]? = some s ∧ v.services[i]? = some s' ∧ s'.snapshot = s.snapshot

/-- What is done with a service leaves the worlds tied if the same is done with the one in the
second world. -/
theorem Bond.look {B : Bond} {lax : Prop} {i : Nat} {α : Type} {f f' : Service → Run α}
    {Q : α → World → World → Prop}
    (found : ∀ w v, B.ties w v → (w.services[i]? = none ∧ v.services[i]? = none) ∨
      ∃ s s', w.services[i]? = some s ∧ v.services[i]? = some s' ∧ f' s' = f' s)
    (hf : ∀ s, Run.Twins B lax B.ties (f s) (f' s) Q) :
    Run.Twins B lax B.ties (Run.service i >>= f) (Run.service i >>= f') Q := by
  refine ⟨fun w => ?_, fun w v tied => ?_⟩
  · rw [Run.run_bind]
    cases hs : w.services[i]? with
    | none =>
      rw [Run.run_service_none hs]
      exact .refl w
    | some s =>
      rw [Run.run_service hs]
      exact (hf s).grows w
  · rw [Run.run_bind, Run.run_bind]
    obtain ⟨hw, hv⟩ | ⟨s, s', hw, hv, same⟩ := found w v tied
    · rw [Run.run_service_none hw, Run.run_service_none hv]
      exact .inr (.error tied)
    · rw [Run.run_service hw, Run.run_service hv]
      dsimp only
      rw [same]
      exact (hf s).alike w v tied

/-- Looking at a service in another guise, with other items waiting, leaves the worlds tied, if what
is then done with it does not depend on guise and queue. -/
theorem Bond.Finds.peek {B : Bond} {lax : Prop} {i : Nat} (h : B.Finds i) {α : Type}
    {f f' : Service → Run α} {Q : α → World → World → Prop}
    (same : ∀ s veil, f' (s.veiled veil) = f' s) (hf : ∀ s, Run.Twins B lax B.ties (f s) (f' s) Q) :
    Run.Twins B lax B.ties (Run.service i >>= f) (Run.service i >>= f') Q := by
  refine Bond.look (fun w v tied => ?_) hf
  obtain absent | ⟨s, veil, hw, hv⟩ := h w v tied
  · exact .inl absent
  · exact .inr ⟨s, s.veiled veil, hw, hv, same s veil⟩

/-- Looking at a service in another guise leaves the worlds tied, if what is then done with it does
not depend on the guise. -/
theorem Bond.Knows.peek {B : Bond} {lax : Prop} {i : Nat} (h : B.Knows i) {α : Type}
    {f f' : Service → Run α} {Q : α → World → World → Prop}
    (same : ∀ s guise, f' (s.guised guise) = f' s)
    (hf : ∀ s, Run.Twins B lax B.ties (f s) (f' s) Q) :
    Run.Twins B lax B.ties (Run.service i >>= f) (Run.service i >>= f') Q := by
  refine Bond.look (fun w v tied => ?_) hf
  obtain absent | ⟨s, guise, hw, hv⟩ := h w v tied
  · exact .inl absent
  · exact .inr ⟨s, s.guised guise, hw, hv, same s guise⟩

/-- What the service shows may be asked for. -/
theorem Bond.Shows.read {B : Bond} {lax : Prop} {i : Nat} (h : B.Shows i) {α : Type}
    (f : Snapshot → α) :
    Run.Echoes B lax (Run.service i >>= fun s => pure (f s.snapshot))
      (Run.service i >>= fun s => pure (f s.snapshot)) := by
  refine Bond.look (fun w v tied => ?_) fun s => Run.Echoes.pure
  obtain absent | ⟨s, s', hw, hv, same⟩ := h w v tied
  · exact .inl absent
  · exact .inr ⟨s, s', hw, hv, congrArg (fun sn => pure (f sn)) same⟩

theorem Bond.shows_of_same {B : Bond} {i : Nat}
    (same : ∀ w v, B.ties w v → w.services[i]? = v.services[i]?) : B.Shows i := by
  intro w v tied
  rw [← same w v tied]
  cases hs : w.services[i]? with
  | none => exact .inl ⟨rfl, rfl⟩
  | some s => exact .inr ⟨s, s, rfl, rfl, rfl⟩

/-- A service that may be found is found in both worlds as it is. -/
theorem Bond.peek {B : Bond} {lax : Prop} {i : Nat}
    (same : ∀ w v, B.ties w v → w.services[i]? = v.services[i]?) {α : Type} {f f' : Service → Run α}
    {Q : α → World → World → Prop} (hf : ∀ s, Run.Twins B lax B.ties (f s) (f' s) Q) :
    Run.Twins B lax B.ties (Run.service i >>= f) (Run.service i >>= f') Q := by
  refine Bond.look (fun w v tied => ?_) hf
  rw [← same w v tied]
  cases w.services[i]? with
  | none => exact .inl ⟨rfl, rfl⟩
  | some s => exact .inr ⟨s, s, rfl, rfl, rfl⟩

namespace Engine

open Run

variable {g g' : Engine} {B : Bond} {lax : Prop} {i : Nat} {awaits : AwaitableId → Prop}

/-- The candidate that an event finds in the present state, with its position. -/
def choose (g : Engine) (i : Nat) (e : Event) : Run (Option (Nat × Value)) := do
  let candidates ← g.candidatesFor (.service i) (← node i) e.type
  g.resolve (.service i) candidates (← service i).context e

theorem choose_bind {α : Type} (g : Engine) (i : Nat) (e : Event)
    (k : Option (Nat × Value) → Run α) :
    g.choose i e >>= k = (do
      let candidates ← g.candidatesFor (.service i) (← node i) e.type
      let chosen ← g.resolve (.service i) candidates (← service i).context e
      k chosen) := by
  simp only [choose, bind_assoc]

theorem processEvent_eq (g : Engine) (i : Nat) (e : Event) : g.processEvent i e = (do
    match ← g.choose i e with
    | some (_, t) => g.apply i t e e
    | none => record .debug ("No transition for " ++ Text.quote e.type ++ " in state " ++
      (← service i).stateName.shown)) :=
  (choose_bind g i e _).symm

theorem invoke_eq (g : Engine) (owner : Owner) (role : Role) (f : Value) (args : List Object) :
    g.invoke owner role f args =
      ((do note (.called owner role f args); g.call owner f args none) >>=
      fun r => pure r.1) := by
  rw [bind_assoc]
  rfl

theorem runAction_eq (g : Engine) (owner : Owner) (e : Event) (c : Context) (f : Value) :
    g.runAction owner e c f = ((do
      note (.called owner .action f [.held c, .fresh e.toValue, .fresh (.actionAccess owner)])
      g.call owner f [.held c, .fresh e.toValue, .fresh (.actionAccess owner)] (some c)) >>=
      fun r => pure (r.2.getD c)) := by
  rw [bind_assoc]
  rfl

/-- The cancel callback of a token is run, if there is one, and its failure is reported. -/
def dismiss (g : Engine) (i : Nat) (t : Option Token) (callback : Option Value) : Run Unit := do
  g.reportCancelFailure? i t (← g.callCancel? (.service i) t callback)

theorem startInvocation_dismiss (g : Engine) (i : Nat) (invocation : Value) (e : Event) :
    g.startInvocation i invocation e = (do
    let t : Token := Int.ofNat (← mint (.service i))
    activate i t invocation
    record .debug ("Starting invocation <token> in state " ++ (← service i).stateName.shown)
    let (a, cancel) ← rescue (g.launch i invocation e t) fun failure => do
      discard (retire i t)
      fail failure
    let callback ← attach i t cancel
    g.dismiss i (some t) callback
    whenSettled a ⟨i, t, e⟩) := by
  simp only [startInvocation, dismiss, bind_assoc]

/-- Where a service was found, there is one, whatever became of it. -/
theorem found_of_service {α : Type} {f : Service → Run α}
    (kept : ∀ s, Respects (fun w => w.services[i]?.isSome = true) (f s)) {w w' : World} {a : α}
    (run : (service i >>= f).run w = (.ok a, w')) : w'.services[i]?.isSome = true := by
  have found : Meets (fun _ => True) (service i >>= f) (fun _ w => w.services[i]?.isSome = true)
      fun _ => True :=
    .bind (.service (fun _ s _ hs => Option.isSome_of_mem hs) fun _ _ => trivial) fun s =>
      (kept s).meets.loosen
  exact found.ok trivial run

theorem respects_found {f : Service → Service} : Respects (fun w => w.services[i]?.isSome = true)
    (update i f) := by
  intro w hw
  obtain ⟨s, hs⟩ := Option.isSome_iff_exists.mp hw
  exact Option.isSome_of_mem (World.change_self f hs)

theorem found_of_clear {w w' : World} {r : Option Token × Option Value}
    (run : (clear i).run w = (.ok r, w')) :
    w'.services[i]?.isSome = true := by
  refine found_of_service (fun s => .bind respects_found fun _ => ?_) run
  cases s.slot.token with
  | none => exact .pure
  | some t => exact .bind (fun _ => id) fun _ => .pure

theorem found_of_attach {w w' : World} {t : Token} {f : Value} {r : Option Value}
    (run : (attach i t f).run w = (.ok r, w')) :
    w'.services[i]?.isSome = true := by
  refine found_of_service (fun s => .bind respects_found fun _ => ?_) run
  exact .ite (fun _ => .bind (fun _ => id) fun _ => .pure) fun _ => .pure

/-- What is called is written first, and stays written. -/
theorem called_of_invoke (grows : ∀ owner f args c, Grows (g.call owner f args c)) {owner : Owner}
    {role : Role} {f : Value} {args : List Object} {u v : World} {o : Object}
    (run : (g.invoke owner role f args).run u = (.ok o, v)) :
    .called owner role f args :: u.journal <:+ v.journal := by
  obtain ⟨_, _, written, run⟩ := bind_returns run
  cases written
  obtain ⟨r, v', called, returned⟩ := bind_returns run
  cases returned
  have grown := grows owner f args none (u.noted (.called owner role f args))
  rw [called] at grown
  exact grown.journal

/-- A source is called with the live context. -/
theorem invoke_of_callSource {src : Value} {e : Event} {t : Token} {w v : World} {result : Value}
    (run : (g.callSource i src e t).run w = (.ok result, v)) :
    ∃ s u o, w.services[i]? = some s ∧ u.now = w.now ∧
      u.points = w.points ∧ result = o.value ∧ (g.invoke (.service i) (.source t) src
        [.held s.context, .fresh e.toValue, .fresh (.sourceAccess i t)]).run u = (.ok o, v) := by
  have invoked {u : World} (run : (do
      let c := (← service i).context
      return (← g.invoke (.service i) (.source t) src
        [.held c, .fresh e.toValue, .fresh (.sourceAccess i t)]).value).run u =
        (.ok result, v)) : ∃ s o, u.services[i]? = some s ∧ result = o.value ∧
        (g.invoke (.service i) (.source t) src
          [.held s.context, .fresh e.toValue, .fresh (.sourceAccess i t)]).run u = (.ok o, v) := by
    obtain ⟨s, u', there, rest⟩ := bind_returns run
    obtain ⟨hs, same⟩ := service_returns there
    subst same
    obtain ⟨o, v', called, returned⟩ := bind_returns rest
    cases returned
    exact ⟨s, o, hs, rfl, called⟩
  unfold Engine.callSource at run
  split at run
  · obtain ⟨_, u, counted, rest⟩ := bind_returns run
    cases counted
    obtain ⟨s, o, hs, same, called⟩ := invoked rest
    exact ⟨s, { w with sourceCalls := w.sourceCalls ++ [(i, t)] }, o, hs, rfl, rfl, same, called⟩
  · obtain ⟨s, o, hs, same, called⟩ := invoked run
    exact ⟨s, w, o, hs, rfl, rfl, same, called⟩

/-- An invocation is launched by calling its source, first of all.  What that returns is read. -/
theorem source_of_launch (scheduled : ∀ a, Grows (schedule i a)) {invocation : Value}
    {e : Event} {t : Token} {w w' : World} {r : AwaitableId × Value}
    (run : (g.launch i invocation e t).run w = (.ok r, w')) :
    ∃ s src u o v, w.services[i]? = some s ∧ invocation.member "src" = .ok src ∧ u.now = w.now ∧
    u.points = w.points ∧
      (g.invoke (.service i) (.source t) src
        [.held s.context, .fresh e.toValue, .fresh (.sourceAccess i t)]).run u = (.ok o, v) ∧
      awaitableOf o.value = .ok r ∧ v.Precedes w' := by
  obtain ⟨src, w₁, found, calling⟩ := bind_returns run
  obtain ⟨member, rfl⟩ := ofExcept_returns found
  obtain ⟨result, v, sourced, reading⟩ := bind_returns calling
  obtain ⟨s, u, o, hs, now, points, rfl, called⟩ := invoke_of_callSource sourced
  obtain ⟨⟨a, cancel⟩, v₁, read, scheduling⟩ := bind_returns reading
  obtain ⟨result, rfl⟩ := ofExcept_returns read
  obtain ⟨_, v', later, returned⟩ := bind_returns scheduling
  cases returned
  have grown := scheduled a v₁
  rw [later] at grown
  exact ⟨s, src, u, o, v₁, hs, member, now, points, called, result, grown⟩

/-- The source of the token's invocation was called with the event, and what it returned was read
as the awaitable. -/
def Launched (g : Engine) (i : Nat) (t : Token) (e : Event) (a : AwaitableId) (w : World) : Prop :=
  ∃ src c u o v cancel, (g.invoke (.service i) (.source t) src
      [.held c, .fresh e.toValue, .fresh (.sourceAccess i t)]).run u = (.ok o, v) ∧
    awaitableOf o.value = .ok (a, cancel) ∧ v.Precedes w

theorem Launched.mono {t : Token} {e : Event} {a : AwaitableId} {w w' : World} (hw : w.Precedes w')
    (h : g.Launched i t e a w) : g.Launched i t e a w' := by
  obtain ⟨src, c, u, o, v, cancel, run, read, before⟩ := h
  exact ⟨src, c, u, o, v, cancel, run, read, before.trans hw⟩

theorem Launched.sourced (grows : ∀ owner f args c, Grows (g.call owner f args c))
    {t : Token} {e : Event} {a : AwaitableId} {w : World} (h : g.Launched i t e a w) :
    Sourced i t e w.journal := by
  obtain ⟨src, c, u, o, v, -, run, -, before⟩ := h
  exact ⟨src, c, ((called_of_invoke grows run).trans before.journal).subset List.mem_cons_self⟩

/-! ### Choosing among candidates -/

/-- What the service writes and calls in choosing among candidates leaves the worlds tied. -/
structure WeighsWith (g g' : Engine) (B : Bond) (lax : Prop) (i : Nat) : Prop where
  found : B.Finds i
  faulted : ∀ {w v} f, B.ties w v → B.ties (w.noted (.faulted i f)) (v.noted (.faulted i f))
  judged : ∀ role f args, role.judges = true →
    Echoes B lax (g.invoke (.service i) role f args) (g'.invoke (.service i) role f args)

/-- The service weighs candidates alike in both worlds. -/
abbrev Weighs (g : Engine) (B : Bond) (i : Nat) : Prop := g.WeighsWith g B False i

namespace WeighsWith

theorem lookUp (h : g.WeighsWith g' B lax i) {α : Type} {e : Except Failure α} :
    Echoes B lax (lookUp i e) (lookUp i e) := by
  cases e with
  | ok a => exact .pure
  | error f => exact .bind (Twins.note fun _ _ => h.faulted f) fun _ => .fail

theorem node (h : g.WeighsWith g' B lax i) : Echoes B lax (node i) (node i) :=
  h.found.peek (fun _ _ => rfl) fun _ => h.lookUp

theorem callMember (h : g.WeighsWith g' B lax i) (v : Value) {name : String}
    (hn : (Role.member name).judges = true) (args : List Object) :
    Echoes B lax (g.callMember (.service i) v name args) (g'.callMember (.service i) v name args) :=
  .bind .member fun _ => .bind (h.judged _ _ _ hn) fun _ => .pure

theorem guardHolds (h : g.WeighsWith g' B lax i) (t : Transition) (c : Context) (e : Event) :
    Echoes B lax (g.guardHolds (.service i) t c e) (g'.guardHolds (.service i) t c e) :=
  .ite (fun _ => .pure) fun _ => .bind (h.judged _ _ _ rfl) fun _ => .pure

theorem isEligible (h : g.WeighsWith g' B lax i) (candidate : Value) (c : Context) (e : Event) :
    Echoes B lax (g.isEligible (.service i) candidate c e)
      (g'.isEligible (.service i) candidate c e) := by
  unfold Engine.isEligible
  split
  · exact h.guardHolds _ c e
  · exact .bind (h.callMember _ rfl _) fun _ => .pure

theorem resolve (h : g.WeighsWith g' B lax i) (candidates : List Value) (c : Context) (e : Event) :
    Echoes B lax (g.resolve (.service i) candidates c e)
      (g'.resolve (.service i) candidates c e) := by
  unfold Engine.resolve
  generalize 0 = n
  induction candidates generalizing n with
  | nil => exact .pure
  | cons v rest ih =>
    exact .bind (h.isEligible v c e) fun _ => .ite (fun _ => .pure) fun _ => ih (n + 1)

theorem candidatesFor (h : g.WeighsWith g' B lax i) (node : Value) (type : String) :
    Echoes B lax (g.candidatesFor (.service i) node type)
      (g'.candidatesFor (.service i) node type) := by
  unfold Engine.candidatesFor
  split
  · exact .pure
  · exact .bind (h.callMember _ rfl _) fun _ => .ofExcept

theorem choose (h : g.WeighsWith g' B lax i) (e : Event) :
    Echoes B lax (g.choose i e) (g'.choose i e) :=
  .bind h.node fun n => .bind (h.candidatesFor n e.type) fun _ =>
    h.found.peek (fun _ _ => rfl) fun _ => h.resolve _ _ e

end WeighsWith

/-! ### Processing an item -/

/-- What the service writes and calls in processing an item and in publishing leaves the worlds
tied. -/
structure AttendsWith (g g' : Engine) (B : Bond) (lax : Prop) (i : Nat)
    (awaits : AwaitableId → Prop) : Prop where
  noted : ∀ {w v e}, e.Of i → (∀ sn, e ≠ .published i sn) → B.ties w v →
    B.ties (w.noted e) (v.noted e)
  announced : ∀ {w v} sn, B.ties w v → B.ties (w.announcing i sn) (v.announcing i sn)
  called : ∀ role f args c, role.isPlain = true → Twins B lax B.ties
    (do note (.called (.service i) role f args); g.call (.service i) f args c)
    (do note (.called (.service i) role f args); g'.call (.service i) f args c)
    fun r w v => B.ties w v ∧ ∀ t, role = .source t → Yields awaits r.1.value
  dismissed : ∀ t callback, Twins B lax (fun w v => B.ties w v ∧ w.services[i]?.isSome = true)
    (g.dismiss i t callback) (g'.dismiss i t callback) fun _ => B.ties
  sourced : ∀ {w v} t, B.ties w v → B.ties { w with sourceCalls := w.sourceCalls ++ [(i, t)] }
    { v with sourceCalls := v.sourceCalls ++ [(i, t)] }
  schedule : ∀ a, Twins B lax (fun w v => B.ties w v ∧ awaits a) (schedule i a) (schedule i a)
    fun _ => B.ties
  whenSettled : ∀ a t e, Twins B lax (fun w v => (B.ties w v ∧ awaits a) ∧ g.Launched i t e a w)
    (whenSettled a ⟨i, t, e⟩) (whenSettled a ⟨i, t, e⟩) fun _ => B.ties
  grows : ∀ owner f args c, Grows (g.call owner f args c)

/-- The service is the same in both worlds, but for what waits in its queue, and what it writes,
calls and changes in processing an item leaves the worlds tied. -/
structure ReflectsWith (g g' : Engine) (B : Bond) (lax : Prop) (i : Nat)
    (awaits : AwaitableId → Prop) : Prop extends g.AttendsWith g' B lax i awaits where
  found : B.Finds i
  changed : ∀ {w v f}, Service.Stroke f → B.ties w v → B.ties (w.change i f) (v.change i f)

/-- The service processes an item alike in both worlds. -/
abbrev Reflects (g : Engine) (B : Bond) (i : Nat) (awaits : AwaitableId → Prop) : Prop :=
  g.ReflectsWith g B False i awaits

theorem observe_echoes {owner : Owner} {m : Moment} {args : List Object}
    (told : ∀ f, Echoes B lax (g.invoke owner (.hook m) f args) (g'.invoke owner (.hook m) f args))
    (hooks : List Hook) :
    Echoes B lax (g.observe owner hooks m args) (g'.observe owner hooks m args) := by
  refine .forM fun hook _ => ?_
  split
  · exact .pure
  · exact .discard (told _)

theorem reported_echoes (found : B.Finds i)
    (noted : ∀ {w v e}, e.Of i → (∀ sn, e ≠ .published i sn) → B.ties w v →
      B.ties (w.noted e) (v.noted e))
    (told : ∀ f args, Echoes B lax (g.invoke (.service i) (.hook .error) f args)
      (g'.invoke (.service i) (.hook .error) f args))
    (t : Option Token) (failure : Failure) :
    Echoes B lax (g.reportCancelFailure i t failure) (g'.reportCancelFailure i t failure) := by
  refine .rescue (found.peek (fun _ _ => rfl) fun s => observe_echoes (fun f => told f _) s.hooks)
    fun _ => ?_
  exact Twins.note fun _ _ => noted nofun nofun

/-- If a cancel callback does the same in both worlds, and error hooks do, so does what comes of
it. -/
theorem dismissed_echoes (found : B.Finds i)
    (noted : ∀ {w v e}, e.Of i → (∀ sn, e ≠ .published i sn) → B.ties w v →
      B.ties (w.noted e) (v.noted e))
    (told : ∀ f args, Echoes B lax (g.invoke (.service i) (.hook .error) f args)
      (g'.invoke (.service i) (.hook .error) f args))
    (t : Option Token) {callback : Option Value} (cancelled : ∀ f, callback = some f →
      Echoes B lax (g.invoke (.service i) (.cancel t) f [])
        (g'.invoke (.service i) (.cancel t) f [])) :
    Echoes B lax (g.dismiss i t callback) (g'.dismiss i t callback) := by
  refine .bind (x := g.callCancel? (.service i) t callback)
    (y := g'.callCancel? (.service i) t callback) ?_ fun failure => ?_
  · cases callback with
    | none => exact .pure
    | some f =>
      refine .rescue (.bind (.discard (cancelled f rfl)) fun _ => .pure) fun _ =>
        .bind ?_ fun _ => .pure
      exact Twins.note fun _ _ => noted nofun nofun
  · cases failure with
    | none => exact .pure
    | some failure => exact reported_echoes found noted told t failure

/-- If all that is called does the same in both worlds, cancel callbacks included, so does what
comes of them. -/
theorem dismiss_echoes {φ : Role → Object × Option Context → Prop} (found : B.Finds i)
    (noted : ∀ {w v e}, e.Of i → (∀ sn, e ≠ .published i sn) → B.ties w v →
      B.ties (w.noted e) (v.noted e))
    (called : ∀ role f args c, role ≠ .nested → Twins B lax B.ties
      (do note (.called (.service i) role f args); g.call (.service i) f args c)
      (do note (.called (.service i) role f args); g'.call (.service i) f args c)
      fun r w v => B.ties w v ∧ φ role r)
    (t : Option Token) (callback : Option Value) :
    Twins B lax (fun w v => B.ties w v ∧ w.services[i]?.isSome = true)
      (g.dismiss i t callback) (g'.dismiss i t callback) fun _ => B.ties := by
  have invoked (role : Role) (f : Value) (args : List Object) (hr : role ≠ .nested) :
      Echoes B lax (g.invoke (.service i) role f args) (g'.invoke (.service i) role f args) := by
    rw [invoke_eq, invoke_eq]
    exact .bind ((called role f args none hr).post fun _ _ _ done => done.1) fun _ => .pure
  exact Twins.pre (dismissed_echoes found noted (fun f args => invoked _ f args nofun) t fun f _ =>
    invoked _ f [] nofun)
    fun _ _ tied => tied.1

namespace ReflectsWith

theorem note (h : g.ReflectsWith g' B lax i awaits) {e : Entry} (he : e.Of i)
    (other : ∀ sn, e ≠ .published i sn) :
    Echoes B lax (note e) (note e) :=
  Twins.note fun _ _ => h.noted he other

theorem own (h : g.ReflectsWith g' B lax i awaits) {e : Entry} (he : e.owner? = some (.service i))
    (other : ∀ sn, e ≠ .published i sn) : Echoes B lax (Run.note e) (Run.note e) :=
  h.note (fun _ owner => Option.some.inj (owner.symm.trans he)) other

theorem record (h : g.ReflectsWith g' B lax i awaits) {level : Level} {text : String} :
    Echoes B lax (record level text) (record level text) :=
  h.note nofun nofun

theorem update (h : g.ReflectsWith g' B lax i awaits) {f : Service → Service}
    (hf : Service.Stroke f) :
    Echoes B lax (update i f) (update i f) :=
  Twins.update fun _ _ => h.changed hf

theorem peek (h : g.ReflectsWith g' B lax i awaits) {α : Type} {f f' : Service → Run α}
    (same : ∀ s veil, f' (s.veiled veil) = f' s) (hf : ∀ s, Echoes B lax (f s) (f' s)) :
    Echoes B lax (service i >>= f) (service i >>= f') :=
  h.found.peek same hf

theorem calls (h : g.ReflectsWith g' B lax i awaits) (role : Role) (f : Value) (args : List Object)
    (hr : role.isPlain = true) :
    Twins B lax B.ties (g.invoke (.service i) role f args) (g'.invoke (.service i) role f args)
      fun o w v => B.ties w v ∧ ∀ t, role = .source t → Yields awaits o.value := by
  rw [invoke_eq, invoke_eq]
  exact .bind (h.called role f args none hr) fun r => .pure fun _ _ => id

theorem invoke (h : g.ReflectsWith g' B lax i awaits) (role : Role) (f : Value) (args : List Object)
    (hr : role.isPlain = true) :
    Echoes B lax (g.invoke (.service i) role f args) (g'.invoke (.service i) role f args) :=
  (h.calls role f args hr).post fun _ _ _ hw => hw.1

theorem weighs (h : g.ReflectsWith g' B lax i awaits) : g.WeighsWith g' B lax i where
  found := h.found
  faulted := fun _ => h.noted (fun _ owner => (Option.some.inj owner).symm) nofun
  judged := fun role f args hr => h.invoke role f args (Role.isPlain_of_judges hr)

/-! ### Numbers and slots -/

theorem mint (h : g.ReflectsWith g' B lax i awaits) :
    Echoes B lax (mint (.service i)) (mint (.service i)) :=
  h.peek (fun _ _ => rfl) fun _ => .bind (h.update (.supply _)) fun _ => .pure

theorem adopt (h : g.ReflectsWith g' B lax i awaits) (o : Object) :
    Echoes B lax (adopt (.service i) o) (adopt (.service i) o) :=
  .bind h.mint fun _ => .pure

theorem currentSnapshot (h : g.ReflectsWith g' B lax i awaits) (changed : Bool) :
    Echoes B lax (currentSnapshot i changed) (currentSnapshot i changed) :=
  .bind h.weighs.node fun _ => .bind .member fun _ => h.peek (fun _ _ => rfl) fun _ =>
    .bind h.mint fun _ => .pure

theorem activate (h : g.ReflectsWith g' B lax i awaits) (t : Token) (invocation : Value) :
    Echoes B lax (activate i t invocation) (activate i t invocation) :=
  h.peek (fun _ _ => rfl) fun _ => .bind (h.update (.slot _)) fun _ => h.own rfl nofun

theorem retire (h : g.ReflectsWith g' B lax i awaits) (t : Token) :
    Echoes B lax (retire i t) (retire i t) := by
  refine h.peek (fun _ _ => rfl) fun s => ?_
  let retired : Run Bool := do
    Run.update i fun s' => { s' with slot := (s.slot.retire t).1 }
    if (s.slot.retire t).2 = true then Run.note (.retired i t)
    return (s.slot.retire t).2
  show Echoes B lax retired retired
  refine .bind (h.update (.slot _)) fun _ => ?_
  exact .ite (fun _ => .bind (h.own rfl nofun) fun _ => .pure) fun _ => .pure

theorem clear (h : g.ReflectsWith g' B lax i awaits) : Echoes B lax (clear i) (clear i) := by
  refine h.peek (fun _ _ => rfl) fun s => .bind (h.update (.slot _)) fun _ => ?_
  cases s.slot.token with
  | none => exact .pure
  | some t => exact .bind (h.own rfl nofun) fun _ => .pure

theorem attach (h : g.ReflectsWith g' B lax i awaits) (t : Token) (f : Value) :
    Echoes B lax (attach i t f) (attach i t f) := by
  refine h.peek (fun _ _ => rfl) fun s => ?_
  let attached : Run (Option Value) := do
    Run.update i fun s' => { s' with slot := (s.slot.attach t f).1 }
    if (!f.isNull) = true then Run.note (.attached i t f)
    return (s.slot.attach t f).2
  show Echoes B lax attached attached
  refine .bind (h.update (.slot _)) fun _ => ?_
  exact .ite (fun _ => .bind (h.own rfl nofun) fun _ => .pure) fun _ => .pure

/-! ### Hooks and invocations -/

theorem observeService (h : g.ReflectsWith g' B lax i awaits) (m : Moment) (args : List Object) :
    Echoes B lax (g.observeService i m args) (g'.observeService i m args) :=
  h.peek (fun _ _ => rfl) fun s => observe_echoes (fun _ => h.invoke _ _ _ rfl) s.hooks

theorem cancelInvocation (h : g.ReflectsWith g' B lax i awaits) :
    Echoes B lax (g.cancelInvocation i) (g'.cancelInvocation i) :=
  Twins.bind (h.clear.matches.returns fun _ _ _ => found_of_clear) fun _ => h.dismissed _ _

theorem revoke (h : g.ReflectsWith g' B lax i awaits) (t : Token) :
    Echoes B lax (g.revoke i t) (g'.revoke i t) :=
  .bind (h.own rfl nofun) fun _ => h.peek (fun _ _ => rfl) fun _ =>
    .ite (fun _ => h.cancelInvocation) fun _ => .pure

/-- What a source returns is an awaitable of the service, if it is one at all. -/
theorem callSource (h : g.ReflectsWith g' B lax i awaits) (src : Value) (e : Event) (t : Token) :
    Twins B lax B.ties (g.callSource i src e t) (g'.callSource i src e t) fun v w w' =>
      B.ties w w' ∧ Yields awaits v := by
  let invoked (g : Engine) (s : Service) : Run Value := do
    return (← g.invoke (.service i) (.source t) src
      [.held s.context, .fresh e.toValue, .fresh (.sourceAccess i t)]).value
  have invokes (s : Service) : Twins B lax B.ties (invoked g s) (invoked g' s) fun v w w' =>
    B.ties w w' ∧ Yields awaits v :=
    .bind (h.calls _ _ _ rfl) fun o => .pure fun _ _ hw => ⟨hw.1, hw.2 t rfl⟩
  unfold Engine.callSource
  split
  · have called : Twins B lax B.ties
        (modify fun w => { w with sourceCalls := w.sourceCalls ++ [(i, t)] })
        (modify fun w => { w with sourceCalls := w.sourceCalls ++ [(i, t)] }) fun _ => B.ties :=
      .modify (fun _ => .same rfl rfl rfl) fun _ _ => h.sourced t
    exact .bind called fun _ => h.found.peek (fun _ _ => rfl) invokes
  · exact h.found.peek (fun _ _ => rfl) invokes

theorem launch (h : g.ReflectsWith g' B lax i awaits) (invocation : Value) (e : Event) (t : Token) :
    Twins B lax B.ties (g.launch i invocation e t) (g'.launch i invocation e t)
      fun r w v => (B.ties w v ∧ awaits r.1) ∧ g.Launched i t e r.1 w := by
  have scheduled (a : AwaitableId) : Grows (schedule i a) := (h.schedule a).grows
  have launched {w w' : World} {r : AwaitableId × Value}
      (run : (g.launch i invocation e t).run w = (.ok r, w')) :
      g.Launched i t e r.1 w' := by
    obtain ⟨s, src, u, o, v, -, -, -, -, called, read, before⟩ := source_of_launch scheduled run
    exact ⟨src, s.context, u, o, v, r.2, called, read, before⟩
  refine .returns ?_ fun w r w' => launched
  refine .bind Echoes.member.matches fun src => .bind (h.callSource src e t) fun result => ?_
  refine .bind (Q := fun r w v => B.ties w v ∧ awaits r.1) (.ofExcept ?_ fun _ _ hw => hw.1)
    fun (a, cancel) => ?_
  · rintro ⟨a, cancel⟩ w v read ⟨tied, yields⟩
    exact ⟨tied, yields a cancel read⟩
  · exact .bind ((h.schedule a).frame.pre fun _ _ hw => ⟨hw, hw.2⟩) fun _ => .pure fun _ _ => id

theorem startInvocation (h : g.ReflectsWith g' B lax i awaits) (invocation : Value) (e : Event) :
    Echoes B lax (g.startInvocation i invocation e) (g'.startInvocation i invocation e) := by
  rw [startInvocation_dismiss, startInvocation_dismiss]
  refine .bind h.mint fun t => .bind (h.activate _ invocation) fun _ =>
    h.peek (fun _ _ => rfl) fun s => ?_
  refine .bind h.record fun _ => ?_
  refine Twins.bind (.rescue (h.launch invocation e _) fun f => ?_) fun (a, cancel) => ?_
  · exact .bind (Q := fun _ => B.ties) (.discard (h.retire _)) fun _ => .fail fun _ _ => id
  · have kept {α : Type} {P : World → World → Prop} {x y : Run α}
        (hx : Twins B lax P x y fun _ => B.ties) :=
      Twins.lasting (@Launched.mono g i t e a) (Twins.frame (φ := awaits a) hx)
    refine .bind ((kept (h.attach _ cancel)).returns fun _ _ _ => found_of_attach)
      fun callback => ?_
    refine .bind (.pre (kept (h.dismissed _ callback)) fun _ _ hw => ?_) fun _ =>
      h.whenSettled a _ e
    exact ⟨⟨⟨hw.1.1.1, hw.2⟩, hw.1.1.2⟩, hw.1.2⟩

/-! ### States -/

theorem act (h : g.ReflectsWith g' B lax i awaits) (actions : Value) (e : Event) :
    Echoes B lax (g.act i actions e) (g'.act i actions e) := by
  refine h.peek (fun _ _ => rfl) fun s => ?_
  refine .bind (.ite (fun _ => .bind .ofExcept fun fs => ?_) fun _ => .pure) fun c =>
    h.update (.context c)
  refine .foldlM (fun c f _ => ?_) s.context
  rw [runAction_eq, runAction_eq]
  exact .bind ((h.called .action _ _ _ rfl).post fun _ _ _ hw => hw.1) fun _ => .pure

theorem enter (h : g.ReflectsWith g' B lax i awaits) (e : Event) :
    Echoes B lax (g.enter i e) (g'.enter i e) := by
  refine .bind h.weighs.node fun n => .bind .member fun actions =>
    .bind (h.act actions e) fun _ => ?_
  refine h.peek (fun _ _ => rfl) fun s => ?_
  refine .bind (h.observeService _ _) fun _ => .bind .member fun invocation =>
    .ite (fun _ => ?_) fun _ => .pure
  exact .bind .member fun auto => .ite (fun _ => h.startInvocation invocation e) fun _ => .pure

theorem exit (h : g.ReflectsWith g' B lax i awaits) (e : Event) :
    Echoes B lax (g.exit i e) (g'.exit i e) := by
  refine .bind h.weighs.node fun n => .bind .member fun actions =>
    .bind (h.act actions e) fun _ => ?_
  refine h.peek (fun _ _ => rfl) fun s => ?_
  exact .bind (h.observeService _ _) fun _ => .bind (h.own rfl nofun) fun _ => h.cancelInvocation

theorem move (h : g.ReflectsWith g' B lax i awaits) (source target : Value) (e : Event) :
    Echoes B lax (g.move i source target e) (g'.move i source target e) := by
  refine .bind (h.update (.stateName target)) fun _ => .bind (h.own rfl nofun) fun _ =>
    h.peek (fun _ _ => rfl) fun s => ?_
  exact .bind h.record fun _ => .bind (h.observeService _ _) fun _ => h.enter e

theorem internality (h : g.ReflectsWith g' B lax i awaits) (candidate current : Value) :
    Echoes B lax (g.internality (.service i) candidate current)
      (g'.internality (.service i) candidate current) := by
  unfold Engine.internality
  split
  · exact .pure
  · exact .bind .member fun _ => .bind (h.invoke _ _ _ rfl) fun _ => .pure

theorem apply (h : g.ReflectsWith g' B lax i awaits) (candidate : Value) (e seen : Event) :
    Echoes B lax (g.apply i candidate e seen) (g'.apply i candidate e seen) := by
  refine h.peek (fun _ _ => rfl) fun s => .bind (h.internality _ _) fun internal =>
    .ite (fun _ => ?_) fun _ => ?_
  · exact .bind .member fun actions => h.act actions seen
  · refine .bind .member fun target => .bind h.weighs.lookUp fun _ => .bind (h.exit e) fun _ => ?_
    exact .bind .member fun actions => .bind (h.act actions seen) fun _ => h.move _ target e

theorem processEvent (h : g.ReflectsWith g' B lax i awaits) (e : Event) :
    Echoes B lax (g.processEvent i e) (g'.processEvent i e) := by
  rw [processEvent_eq, processEvent_eq]
  refine .bind (h.weighs.choose e) fun found => ?_
  split
  · exact h.apply _ e e
  · exact h.peek (fun _ _ => rfl) fun _ => h.record

theorem settleWanted (h : g.ReflectsWith g' B lax i awaits) (o : Outcome) :
    Echoes B lax (g.settleWanted i o) (g'.settleWanted i o) := by
  refine .bind h.weighs.node fun n => .bind .member fun invocation =>
    .bind .member fun candidates => ?_
  refine .bind .ofExcept fun seen => .bind .ofExcept fun vs => h.peek (fun _ _ => rfl) fun s => ?_
  refine .bind (h.weighs.resolve vs _ seen) fun found => ?_
  split
  · exact h.apply _ o.event seen
  · exact .ite (fun _ => h.peek (fun _ _ => rfl) fun _ => .bind h.record fun _ =>
      h.observeService _ _) fun _ => .pure

/-- An item is processed alike. -/
theorem process (h : g.ReflectsWith g' B lax i awaits) (item : Item) :
    Echoes B lax (g.process i item) (g'.process i item) := by
  cases item with
  | event e => exact h.processEvent e
  | outcome o =>
    refine .bind (h.retire o.token) fun active => .ite (fun _ => ?_) fun _ => ?_
    · exact .ite (fun _ => h.settleWanted o) fun _ => .pure
    · exact h.peek (fun _ _ => rfl) fun _ => h.record

/-- A snapshot is published alike. -/
theorem publish (h : g.ReflectsWith g' B lax i awaits) :
    Echoes B lax (g.publish i) (g'.publish i) := by
  refine .bind (h.currentSnapshot true) fun sn => ?_
  refine Twins.bind
    (Q := fun _ w v => B.ties (w.noted (.published i sn)) (v.noted (.published i sn)))
    (.update fun _ _ => h.announced sn) fun _ =>
      .bind (Q := fun _ => B.ties) (.note fun _ _ => id) fun _ => ?_
  refine h.peek (fun _ _ => rfl) fun s => .forM fun listener _ => ?_
  unfold notify
  split
  · exact .discard (h.invoke _ _ _ rfl)
  · exact h.own rfl nofun

end ReflectsWith

/-! ### The service at work -/

/-- The service is the same with all that waits in its queue, and what is done in draining it
leaves the worlds tied. -/
structure WorksWith (g g' : Engine) (B : Bond) (lax : Prop) (i : Nat)
    (awaits : AwaitableId → Prop) : Prop extends g.AttendsWith g' B lax i awaits where
  bound : g.bound = g'.bound
  known : B.Knows i
  stroked : ∀ {w v f}, Service.Stroke f → B.ties w v → B.ties (w.change i f) (v.change i f)
  handled : ∀ {w v f}, Service.Handling f → B.ties w v → B.ties (w.change i f) (v.change i f)

namespace WorksWith

theorem reflects (h : g.WorksWith g' B lax i awaits) : g.ReflectsWith g' B lax i awaits where
  toAttendsWith := h.toAttendsWith
  found := h.known.finds
  changed := h.stroked

theorem look (h : g.WorksWith g' B lax i awaits) {α : Type} {f f' : Service → Run α}
    (same : ∀ s guise, f' (s.guised guise) = f' s) (hf : ∀ s, Echoes B lax (f s) (f' s)) :
    Echoes B lax (service i >>= f) (service i >>= f') :=
  h.known.peek same hf

theorem handle (h : g.WorksWith g' B lax i awaits) {f : Service → Service}
    (hf : Service.Handling f) :
    Echoes B lax (Run.update i f) (Run.update i f) :=
  Twins.update fun _ _ => h.handled hf

/-! ### Drains -/

theorem processNext (h : g.WorksWith g' B lax i awaits) (before : Service) (item : Item) :
    Echoes B lax (g.processNext i before item) (g'.processNext i before item) := by
  refine .bind (h.handle (.queue (·.dequeue.2))) fun _ =>
    .bind (h.reflects.own rfl nofun) fun _ => ?_
  refine .bind (h.reflects.process item) fun _ => h.look (fun _ _ => rfl) fun after =>
    .ite (fun _ => ?_) fun _ => .pure
  exact .ite (fun _ => .bind h.reflects.publish fun _ => .pure) fun _ => .pure

theorem processPending (h : g.WorksWith g' B lax i awaits) (fuel : Nat) :
    Echoes B lax (g.processPending i fuel) (g'.processPending i fuel) := by
  induction fuel with
  | zero => exact .throw
  | succ fuel ih =>
    refine h.look (fun _ _ => rfl) fun s => ?_
    split
    · exact .pure
    · refine .ite (fun _ => .bind (h.processNext s _) fun more => ?_) fun _ => .pure
      exact .ite (fun _ => ih) fun _ => .pure

theorem drained (h : g.WorksWith g' B lax i awaits) {body body' : Run Unit}
    (hb : Echoes B lax body body') :
    Echoes B lax (drained i body) (drained i body') := by
  refine .bind (.tryCatch hb (fun _ _ => rfl) fun halt => ?_) fun _ => ?_
  · exact .bind (h.handle (.queue (·.leave true))) fun _ =>
      .bind (h.reflects.own rfl nofun) fun _ => .throw
  · exact .bind (h.handle (.queue (·.leave false))) fun _ => h.reflects.own rfl nofun

theorem draining (h : g.WorksWith g' B lax i awaits) {body body' : Run Unit}
    (hb : Echoes B lax body body') :
    Echoes B lax (draining i body) (draining i body') :=
  .bind (h.handle (.queue (·.enter))) fun _ => .bind (h.reflects.own rfl nofun) fun _ =>
    h.drained hb

/-- All that is pending is processed alike, with the fuel that both engines have. -/
theorem processAll (h : g.WorksWith g' B lax i awaits) :
    Echoes B lax (g.processPending i g.bound) (g'.processPending i g'.bound) :=
  h.bound ▸ h.processPending g.bound

theorem runQueue (h : g.WorksWith g' B lax i awaits) :
    Echoes B lax (g.runQueue i) (g'.runQueue i) :=
  h.look (fun _ _ => rfl) fun _ => .ite (fun _ => .pure) fun _ => h.draining h.processAll

/-! ### Calls -/

theorem accept (h : g.WorksWith g' B lax i awaits) (item : Item) :
    Echoes B lax (g.accept i item) (g'.accept i item) :=
  .bind (h.handle (.queue (·.enqueue item))) fun _ =>
    .bind (h.reflects.own rfl nofun) fun _ => h.runQueue

theorem send (h : g.WorksWith g' B lax i awaits) (event : Value) :
    Echoes B lax (g.send i event) (g'.send i event) :=
  h.look (fun _ _ => rfl) fun _ =>
    .ite (fun _ => .bind .ofExcept fun e => h.accept (.event e)) fun _ => .pure

theorem deliver (h : g.WorksWith g' B lax i awaits) (t : Token) (e : Event) (a : AwaitableId)
    (settlement : Settlement) :
    Echoes B lax (g.deliver ⟨i, t, e⟩ a settlement) (g'.deliver ⟨i, t, e⟩ a settlement) :=
  h.look (fun _ _ => rfl) fun _ => .ite (fun _ => h.accept _) fun _ => .pure

theorem stop (h : g.WorksWith g' B lax i awaits) : Echoes B lax (g.stop i) (g'.stop i) := by
  refine h.look (fun _ _ => rfl) fun s =>
    .ite (fun _ => .bind (h.handle .stop) fun _ => ?_) fun _ => .pure
  refine .bind h.reflects.cancelInvocation fun _ => .bind (h.handle .drop) fun _ => ?_
  exact h.look (fun _ _ => rfl) fun _ => h.reflects.record

end WorksWith

/-! ### The service as a whole -/

/-- The service is the same, and what is done to it leaves the worlds tied. -/
structure WhollyWith (g g' : Engine) (B : Bond) (lax : Prop) (i : Nat)
    (awaits : AwaitableId → Prop) : Prop extends g.WorksWith g' B lax i awaits where
  same : ∀ w v, B.ties w v → w.services[i]? = v.services[i]?
  changed : ∀ {w v f}, Service.Modest f → B.ties w v → B.ties (w.change i f) (v.change i f)
  known := Bond.knows_of_same same
  stroked := fun hf => changed hf.modest
  handled := fun hf => changed hf.modest

/-- The service does all that it does alike in both worlds. -/
abbrev Wholly (g : Engine) (B : Bond) (i : Nat) (awaits : AwaitableId → Prop) : Prop :=
  g.WhollyWith g B False i awaits

namespace WhollyWith

theorem peek (h : g.WhollyWith g' B lax i awaits) {α : Type} {f f' : Service → Run α}
    (hf : ∀ s, Echoes B lax (f s) (f' s)) :
    Echoes B lax (service i >>= f) (service i >>= f') :=
  Bond.peek h.same hf

theorem update (h : g.WhollyWith g' B lax i awaits) {f : Service → Service}
    (hf : Service.Modest f) :
    Echoes B lax (update i f) (update i f) :=
  Twins.update fun _ _ => h.changed hf

theorem start (h : g.WhollyWith g' B lax i awaits) (override : Value) :
    Echoes B lax (g.start i override) (g'.start i override) := by
  refine h.peek fun s => .ite (fun _ => ?_) fun _ => .pure
  refine .bind .ofExcept fun base => .bind .ofExcept fun merged =>
    .bind (h.reflects.adopt _) fun c => ?_
  refine .bind (h.update fun _ => ⟨rfl, .refl _⟩) fun _ => .bind h.reflects.record fun _ =>
    h.draining ?_
  exact .bind (h.reflects.enter _) fun _ => .bind h.reflects.publish fun _ => h.processAll

end WhollyWith

end Engine
end FlatMachine
