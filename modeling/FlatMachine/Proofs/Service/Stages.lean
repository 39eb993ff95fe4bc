import FlatMachine.Proofs.Service.CallbackFrame
import FlatMachine.Proofs.World.Trace

/-! # What a service does with an item

While it processes an item, a service calls its guards, actions, hooks and sources one after the
other.  The traces here say which, with which arguments, and what becomes of the context, without
a word about the world around.

What is known of the service meanwhile is a ledger, **`World.Attests`**.  Its state and context
are what the service itself made of them, however callbacks interfere.  What it did is known, and
its slot, if nobody stopped it or used the interface of its invocation, or as long as it has
none; and if no callback may ask to meddle with it, its status and its listeners are as they
were.

So each part of processing an item follows its trace (**`Engine.Leaving.tells_choose`** and those
before it). -/

namespace FlatMachine

/-! ### Traces -/

namespace Trace

variable (g : Engine) (i : Nat)

/-- A callback is called on behalf of the service. -/
def invoke (role : Role) (f : Value) (args : List Object) : Trace Object := do
  return (← call g (.service i) role f args none).1

/-- A member of a value is called. -/
def callMember (v : Value) (name : String) (args : List Object) : Trace Value := do
  return (← invoke g i (.member name) (← ofExcept (v.member name)) args).value

/-- Actions are run in order, each on what the earlier ones made of the context. -/
def actions (e : Event) : List Value → Context → Trace Context
  | [], c => pure c
  | f :: rest, c => do
    let r ← call g (.service i) .action f
      [.held c, .fresh e.toValue, .fresh (.actionAccess (.service i))] (some c)
    actions e rest (r.2.getD c)

/-- The actions that a value holds are run. -/
def actionsOf (e : Event) (v : Value) (c : Context) : Trace Context :=
  if v.truth then do actions g i e (← ofExcept v.items) c else pure c

/-- The actions of a state are run. -/
def stateActions (m : Machine) (name : Value) (field : String) (e : Event) (c : Context) :
    Trace Context := do
  let n ← ofExcept (m.node name)
  actionsOf g i e (← ofExcept (n.member field)) c

/-- A hook is called at a moment, unless it does not define the method. -/
def hook (m : Moment) (args : List Object) (h : Hook) : Trace Unit :=
  match h.method? m with
  | none => pure ()
  | some f => do let _ ← invoke g i (.hook m) f args

/-- The hooks of a moment are called in order. -/
def hooks (m : Moment) (args : List Object) : List Hook → Trace Unit
  | [] => pure ()
  | h :: rest => do hook g i m args h; hooks m args rest

/-- Whether a candidate may be taken. -/
def eligible (v : Value) (c : Context) (e : Event) : Trace Bool :=
  match Transition.ofValue? v with
  | some t =>
    if t.guard.isNull then pure true
    else do return (← invoke g i .guard t.guard [.held c, .fresh e.toValue]).value.truth
  | none => do return (← callMember g i v "is_eligible" [.held c, .fresh e.toValue]).truth

/-- Candidates are tried in order, until the first that may be taken. -/
def first (c : Context) (e : Event) : Nat → List Value → Trace (Option (Nat × Value))
  | _, [] => pure none
  | n, v :: rest => do if ← eligible g i v c e then return some (n, v) else first c e (n + 1) rest

/-- The candidates that a node has for an event type. -/
def offers (node : Value) (type : String) : Trace (List Value) :=
  match Node.ofValue? node with
  | some n => pure (n.candidatesFor type)
  | none => do ofExcept (← callMember g i node "candidates_for" [.fresh (.str type)]).items

/-- The candidate that an event finds. -/
def choice (s : Service) (e : Event) : Trace (Option (Nat × Value)) := do
  let candidates ← offers g i (← ofExcept (s.machine.node s.stateName)) e.type
  first g i s.context e 0 candidates

/-- Whether taking a candidate keeps the service in its state. -/
def internality (v current : Value) : Trace Value :=
  match Transition.ofValue? v with
  | some t => pure (.bool (t.isInternal current))
  | none => callMember g i v "is_internal" [.fresh current]

/-- The cancel callback of a token is called, if there is one; an ordinary failure of it is
handed back. -/
def callCancel (t : Option Token) : Option Value → Trace (Option Failure)
  | none => pure none
  | some f => Rescue (do let _ ← invoke g i (.cancel t) f []; return none) fun failure =>
    pure (some failure)

/-- The error hooks are told of the failure of a cancel callback, if it failed; ordinary failures
of theirs end here. -/
def reportFailure (hs : List Hook) (t : Option Token) : Option Failure → Trace Unit
  | none => pure ()
  | some failure =>
    Rescue (hooks g i .error [.fresh (.failure (.service i, (t.getD 0).toNat) failure)] hs) fun _ =>
      pure ()

/-- The slot is emptied, and its cancel callback is called. -/
def cancelling (hs : List Hook) (slot : Slot) : Trace Unit := do
  slot.token.elim (pure ()) fun t => tell (.cancelled i t)
  reportFailure g i hs slot.token (← callCancel g i slot.token slot.cancel)

end Trace

/-! ### What is known meanwhile -/

/-- The entry is a deed of the service, or it tells how its slot is emptied. -/
def Entry.counts (i : Nat) (e : Entry) : Bool := e.deed? == some i || e.clears i

theorem Entry.counts_of_deed {e : Entry} {i : Nat} (h : e.deed? = some i) : e.counts i = true := by
  unfold counts
  rw [h, beq_self_eq_true, Bool.true_or]

theorem Entry.counts_of_clears {e : Entry} {i : Nat} (h : e.clears i = true) :
    e.counts i = true := by
  unfold counts
  rw [h, Bool.or_true]

theorem Entry.counts_of_beside {e : Entry} {i : Nat} (h : e.deed? ≠ some i)
    (h' : e.clears i = false) : e.counts i = false := by
  unfold counts
  rw [h', Bool.or_false]
  exact beq_eq_false_iff_ne.mpr h

namespace World

/-- What the service did since, earliest first. -/
def deeds (i : Nat) (w v : World) : List Entry := ((v.since w).filter (Entry.counts i)).reverse

section Deeds

variable {i : Nat} {w v u : World}

theorem deeds_trans (h : w.journal <:+ v.journal) (h' : v.journal <:+ u.journal) :
    w.deeds i u = w.deeds i v ++ v.deeds i u := by
  unfold deeds
  rw [since_trans h h', List.filter_append, List.reverse_append]

theorem deeds_noted (e : Entry) : v.deeds i (v.noted e) = [e].filter (Entry.counts i) := by
  unfold deeds
  rw [since_noted, ← List.filter_reverse, List.reverse_singleton]

theorem deeds_silent (h : ∀ e ∈ v.since w, e.counts i = false) : w.deeds i v = [] := by
  unfold deeds
  rw [List.filter_eq_nil_iff.mpr fun e he => Bool.eq_false_iff.mp (h e he)]
  rfl

end Deeds

/-- The service is processing an item, and but for what others may do to it, it is as said.  What
is said to have happened did happen, if it stayed calm, or while it is free from invocations. -/
structure Attests (book : Book) (i : Nat) (w : World) (free : Prop) (s : Service) (p : Prop)
    (es : List Entry) (v : World) :
    Prop where
  busy : s.Busy
  vacant : free → s.slot = .empty
  suffix : w.journal <:+ v.journal
  service : ∃ s', v.services[i]? = some s' ∧ s.Spared s' ∧ (w.Calm i v ∨ free → s'.slot = s.slot)
  kept : ∀ s₀ s', w.services[i]? = some s₀ → v.services[i]? = some s' → s'.snapshot = s₀.snapshot ∧
    (w.Refrains book i v → s'.status = s₀.status ∧ s'.listeners = s₀.listeners)
  deeds : w.Calm i v ∨ free → w.deeds i v = es ∧ p
  unrevoked : w.Refrains book i v → ∀ t, .revoked i t ∉ v.since w

namespace Attests

variable {book : Book} {i : Nat} {w v u : World} {free p q : Prop} {s : Service} {es : List Entry}

theorem mono (hp : p → q) (h : Attests book i w free s p es v) : Attests book i w free s q es v :=
  { h with deeds := fun calm => (h.deeds calm).imp id hp }

/-- At the beginning, the service is what it was, and did nothing. -/
theorem begins (hs : w.services[i]? = some s) (busy : s.Busy)
    (vacant : free → s.slot = .empty) (hp : p) :
    Attests book i w free s p [] w where
  busy := busy
  vacant := vacant
  suffix := List.suffix_rfl
  service := ⟨s, hs, .refl s, fun _ => rfl⟩
  kept := fun s₀ s' hs₀ hs' => by
    cases hs₀.symm.trans hs'
    exact ⟨rfl, fun _ => ⟨rfl, rfl⟩⟩
  deeds := fun _ => by
    unfold World.deeds
    rw [since_still rfl]
    exact ⟨rfl, hp⟩
  unrevoked := fun _ t => by
    rw [since_still rfl]
    exact List.not_mem_nil

theorem noted (h : Attests book i w free s p es v) {e : Entry} (other : ∀ t, e ≠ .revoked i t) :
    Attests book i w free s p (es ++ [e].filter (Entry.counts i)) (v.noted e) := by
  have later : v.journal <:+ (v.noted e).journal := List.suffix_cons e _
  have since : (v.noted e).since w = [e] ++ v.since w := by
    rw [since_trans h.suffix later, since_noted]
  have calm (calm : w.Calm i (v.noted e)) : w.Calm i v := by
    obtain ⟨running, unrevoked⟩ := calm
    rw [since] at unrevoked
    exact ⟨running, fun t mem => unrevoked t (List.mem_append_right _ mem)⟩
  have refrains (refrains : w.Refrains book i (v.noted e)) : w.Refrains book i v :=
    fun owner role f args mem => refrains owner role f args (since ▸ List.mem_append_right _ mem)
  obtain ⟨s', hs', spared, slot⟩ := h.service
  refine ⟨h.busy, h.vacant, h.suffix.trans later, ⟨s', hs', spared, ?_⟩, ?_, fun held => ?_,
    fun composed t mem => ?_⟩
  · exact fun held => slot (held.imp calm id)
  · exact fun s₀ s' hs₀ hs' => (h.kept s₀ s' hs₀ hs').imp id fun same composed =>
      same (refrains composed)
  · obtain ⟨deeds, hp⟩ := h.deeds (held.imp calm id)
    exact ⟨by rw [deeds_trans h.suffix later, deeds, deeds_noted], hp⟩
  · rw [since] at mem
    rcases List.mem_append.mp mem with mem | mem
    · exact other t (List.mem_singleton.mp mem).symm
    · exact h.unrevoked (refrains composed) t mem

theorem told (h : Attests book i w free s p es v) {e : Entry} (counts : e.counts i = true)
    (other : ∀ t, e ≠ .revoked i t) :
    Attests book i w free s p (es ++ [e]) (v.noted e) := by
  have noted := h.noted other
  rwa [List.filter_cons_of_pos counts, List.filter_nil] at noted

theorem untold (h : Attests book i w free s p es v) {e : Entry} (counts : e.counts i = false)
    (other : ∀ t, e ≠ .revoked i t) :
    Attests book i w free s p es (v.noted e) := by
  have noted := h.noted other
  rwa [List.filter_cons_of_neg (by rw [counts]; exact nofun), List.filter_nil,
    List.append_nil] at noted

/-- What is known of the service stays known when something is done that leaves the service. -/
theorem left (h : Attests book i w free s p es v) (leaves : v.Leaves i u)
    (composed : w.Refrains book i u → v.Composed i u) :
    Attests book i w free s p es u := by
  obtain ⟨s', hs', spared, slot⟩ := h.service
  obtain ⟨s'', hs'', spared'⟩ := leaves.bears.service s' hs'
  have later := leaves.bears.suffix
  have busy : v.Busy i := ⟨s', hs', spared.holds.busy h.busy⟩
  have calm (calm : w.Calm i u) : w.Calm i v ∧ v.Calm i u := calm.between h.suffix busy leaves.bears
  have refrains (refrains : w.Refrains book i u) : w.Refrains book i v :=
    fun owner role f args mem =>
      refrains owner role f args (since_trans h.suffix later ▸ List.mem_append_right _ mem)
  have left (held : w.Calm i u ∨ free) :
      u.slot? i = v.slot? i ∧ ∀ e ∈ u.since v, e.clears i = false := by
    refine leaves.slot (held.imp (fun held => (calm held).2) fun held => ?_)
    unfold slot?
    rw [hs', Option.map_some, slot (.inr held), h.vacant held]
  refine ⟨h.busy, h.vacant, h.suffix.trans later, ⟨s'', hs'', spared.trans spared', fun held => ?_⟩,
    fun s₀ u₀ hs₀ hu₀ => ?_,
    fun held => ?_, fun composed' t mem => ?_⟩
  · have kept := (left held).1
    unfold slot? at kept
    rw [hs', hs''] at kept
    exact (Option.some.inj kept).trans (slot (held.imp (fun held => (calm held).1) id))
  · cases hs''.symm.trans hu₀
    obtain ⟨snapshot, same⟩ := h.kept s₀ s' hs₀ hs'
    refine ⟨spared'.holds.snapshot.trans snapshot, fun composed' => ?_⟩
    obtain ⟨status, listeners⟩ := same (refrains composed')
    obtain ⟨status', listeners'⟩ := (composed composed').service s' s'' hs' hs''
    exact ⟨status'.trans status, listeners'.trans listeners⟩
  · obtain ⟨deeds, hp⟩ := h.deeds (held.imp (fun held => (calm held).1) id)
    have silent := deeds_silent fun e he =>
      Entry.counts_of_beside (leaves.bears.others e he) ((left held).2 e he)
    exact ⟨by rw [deeds_trans h.suffix later, deeds, silent, List.append_nil], hp⟩
  · rw [since_trans h.suffix later] at mem
    exact (List.mem_append.mp mem).elim ((composed composed').unrevoked t)
      (h.unrevoked (refrains composed') t)

/-- What is known of the service stays known where it is the same and nothing was written. -/
theorem same (h : Attests book i w free s p es v) (services : u.services[i]? = v.services[i]?)
    (journal : u.journal = v.journal) :
    Attests book i w free s p es u :=
  h.left (.same services journal) fun _ => .same services journal

/-- The service itself is changed, in a part that others leave alone or may empty. -/
theorem changed (h : Attests book i w free s p es v) {s₁ : Service} {f : Service → Service}
    (busy : s₁.Busy) (vacant : free → s₁.slot = .empty)
    (hf : ∀ s', v.services[i]? = some s' → s.Spared s' → s₁.Spared (f s') ∧
      (s'.slot = s.slot → (f s').slot = s₁.slot))
    (same : ∀ s', (f s').status = s'.status ∧ (f s').listeners = s'.listeners ∧
      (f s').snapshot = s'.snapshot) :
    Attests book i w free s₁ p es (v.change i f) := by
  obtain ⟨s', hs', spared, slot⟩ := h.service
  obtain ⟨spared', slot'⟩ := hf s' hs' spared
  obtain ⟨status, listeners, snapshot⟩ := same s'
  have calm (calm : w.Calm i (v.change i f)) : w.Calm i v := by
    obtain ⟨⟨s'', hs'', running⟩, unrevoked⟩ := calm
    cases (change_self f hs').symm.trans hs''
    exact ⟨⟨s', hs', status.symm.trans running⟩, unrevoked⟩
  refine ⟨busy, vacant, h.suffix, ⟨f s', change_self f hs', spared', fun held => ?_⟩,
    fun s₀ u₀ hs₀ hu₀ => ?_, fun held => ?_, h.unrevoked⟩
  · exact slot' (slot (held.imp calm id))
  · cases (change_self f hs').symm.trans hu₀
    obtain ⟨snapshot₀, same₀⟩ := h.kept s₀ s' hs₀ hs'
    exact ⟨snapshot.trans snapshot₀, fun composed =>
      (same₀ composed).imp status.trans listeners.trans⟩
  · exact h.deeds (held.imp calm id)

end Attests

/-- What is known of a service that is processing an item. -/
def ledger (book : Book) (i : Nat) (w : World) (free : Prop) (s : Service) : Ledger where
  holds := Attests book i w free s
  mono := Attests.mono

end World

/-! ### Parts that follow their traces -/

namespace Engine.Leaving

open Run World

variable {g : Engine} {book : Book} {i : Nat} {w : World} {free : Prop} {s : Service}

/-- A service of which something is known is there, and was spared. -/
theorem known (p : Prop) (es : List Entry) (v : World)
    (hv : (ledger book i w free s).holds p es v) :
    ∃ s', v.services[i]? = some s' ∧ s.Spared s' := by
  obtain ⟨s', hs', spared, -⟩ := hv.service
  exact ⟨s', hs', spared⟩

theorem tells_record {α : Type} {x : Run α} {T : Trace α} {level : Level} {text : String}
    (hx : Tells (ledger book i w free s) x T) :
    Tells (ledger book i w free s) (do record level text; x) T :=
  .skip (fun _ _ => .note fun _ hw => hw.untold rfl nofun) fun _ => hx

variable (hg : g.Leaving book)

/-- Looking something up in the definition tells nothing. -/
theorem tells_lookUp {α : Type} {e : Except Failure α} : Tells (ledger book i w free s) (lookUp i e)
    (.ofExcept e) := by
  cases e with
  | ok a => exact .pure
  | error f => exact .skip (fun _ _ => .note fun _ hw => hw.untold rfl nofun) fun _ => .throw

theorem tells_node :
    Tells (ledger book i w free s) (node i) (.ofExcept (s.machine.node s.stateName)) := by
  refine .peek known fun s' spared => ?_
  rw [spared.holds.machine, spared.holds.stateName]
  exact tells_lookUp

include hg

/-- A call on behalf of the service tells that it was called, and what it returns. -/
theorem tells_call {role : Role} {f : Value} {args : List Object} (c : Option Context)
    (counts : (Entry.called (.service i) role f args).counts i = true) :
    Tells (ledger book i w free s)
      (do note (.called (.service i) role f args); g.call (.service i) f args c)
      (.call g (.service i) role f args c) := by
  intro p es v hv
  have told := hv.told counts nofun
  obtain ⟨s', hs', spared, -⟩ := told.service
  have busy : (v.noted (.called (.service i) role f args)).Busy i :=
    ⟨s', hs', spared.holds.busy hv.busy⟩
  have leaves := hg.leaves busy (.service i) f args c
  have after := told.left leaves fun refrains => by
    have since := since_trans told.suffix leaves.bears.suffix
    have here : Entry.called (.service i) role f args ∈
        (v.noted (.called (.service i) role f args)).since w := by
      rw [since_trans hv.suffix (List.suffix_cons _ _), since_noted]
      exact List.mem_cons_self
    refine hg.composed busy (.service i) f args c ?_ fun owner role f args mem => ?_
    · exact refrains _ _ _ _ (since ▸ List.mem_append_right _ here)
    · exact refrains _ _ _ _ (since ▸ List.mem_append_left _ mem)
  rw [run_bind, run_note]
  dsimp only
  have ended {r : Except Halt (Object × Option Context)} {v' : World}
      (run : (g.call (.service i) f args c).run (v.noted (.called (.service i) role f args)) =
        (r, v')) :
      Recounts (ledger book i w free s) p es (.call g (.service i) role f args c) r v' := by
    rw [run] at after
    exact ⟨_, after.mono fun hp => ⟨hp, rfl, _, rfl, congrArg Prod.fst run⟩⟩
  generalize run : (g.call (.service i) f args c).run _ = out
  obtain ⟨halt | r, v'⟩ := out <;> exact ended run

theorem tells_invoke {role : Role} {f : Value} {args : List Object}
    (own : role.isOwn = true ∨ role.isCancel = true ∨ role = .hook .error) :
    Tells (ledger book i w free s) (g.invoke (.service i) role f args)
      (.invoke g i role f args) := by
  have counts : (Entry.called (.service i) role f args).counts i = true := by
    rcases own with own | own | rfl
    · exact Entry.counts_of_deed (Entry.deed?_called.mpr ⟨rfl, own⟩)
    · cases role with
      | cancel t => exact Entry.counts_of_clears (beq_self_eq_true i)
      | _ => cases own
    · exact Entry.counts_of_clears (beq_self_eq_true i)
  rw [invoke_eq]
  exact .bind (hg.tells_call none counts) fun _ => .pure

theorem tells_callMember (v : Value) (name : String) (args : List Object) :
    Tells (ledger book i w free s) (g.callMember (.service i) v name args)
      (.callMember g i v name args) :=
  .bind .ofExcept fun _ => .bind (hg.tells_invoke (.inl rfl)) fun _ => .pure

theorem tells_hooks (m : Moment) (args : List Object) (hs : List Hook) :
    Tells (ledger book i w free s) (g.observe (.service i) hs m args) (.hooks g i m args hs) := by
  have own : (Role.hook m).isOwn = true ∨ (Role.hook m).isCancel = true ∨
      Role.hook m = .hook .error := by
    cases m <;> first | exact .inl rfl | exact .inr (.inr rfl)
  induction hs with
  | nil => exact .pure
  | cons h rest ih =>
    refine .bind ?_ fun _ => ih
    dsimp only
    unfold Trace.hook
    cases h.method? m with
    | none => exact .pure
    | some f => exact .discard (hg.tells_invoke own)

theorem tells_observeService (m : Moment) (args : List Object) :
    Tells (ledger book i w free s) (g.observeService i m args) (.hooks g i m args s.hooks) := by
  refine .peek known fun s' spared => ?_
  rw [spared.hooks]
  exact hg.tells_hooks m args s.hooks

theorem tells_actions (e : Event) (fs : List Value) (c : Context) :
    Tells (ledger book i w free s) (g.runActions (.service i) fs c e) (.actions g i e fs c) := by
  induction fs generalizing c with
  | nil => exact .pure
  | cons f rest ih =>
    show Tells _ (g.runAction (.service i) e c f >>= fun c => g.runActions (.service i) rest c e) _
    rw [runAction_eq, bind_assoc]
    refine .bind (hg.tells_call (some c) (Entry.counts_of_deed (Entry.deed?_called.mpr ⟨rfl, rfl⟩)))
      fun r => ?_
    rw [pure_bind]
    exact ih _

theorem tells_actionsOf (e : Event) (v : Value) (c : Context) :
    Tells (ledger book i w free s) (g.runActionsOf (.service i) v c e) (.actionsOf g i e v c) :=
  .ite (.bind .ofExcept fun fs => hg.tells_actions e fs c) .pure

theorem tells_eligible (v : Value) (c : Context) (e : Event) :
    Tells (ledger book i w free s) (g.isEligible (.service i) v c e) (.eligible g i v c e) := by
  unfold Engine.isEligible Trace.eligible
  cases Transition.ofValue? v with
  | none => exact .bind (hg.tells_callMember _ _ _) fun _ => .pure
  | some t => exact .ite .pure (.bind (hg.tells_invoke (.inl rfl)) fun _ => .pure)

theorem tells_first (c : Context) (e : Event) (n : Nat) (vs : List Value) :
    Tells (ledger book i w free s) (g.resolveFrom (.service i) c e n vs) (.first g i c e n vs) := by
  induction vs generalizing n with
  | nil => exact .pure
  | cons v rest ih => exact .bind (hg.tells_eligible v c e) fun _ => .ite .pure (ih (n + 1))

theorem tells_offers (node : Value) (type : String) :
    Tells (ledger book i w free s) (g.candidatesFor (.service i) node type)
      (.offers g i node type) := by
  unfold Engine.candidatesFor Trace.offers
  cases Node.ofValue? node with
  | none => exact .bind (hg.tells_callMember _ _ _) fun _ => .ofExcept
  | some n => exact .pure

theorem tells_choose (e : Event) :
    Tells (ledger book i w free s) (g.choose i e) (.choice g i s e) := by
  refine .bind tells_node fun n => .bind (hg.tells_offers n e.type) fun candidates =>
    .peek known fun s' spared => ?_
  rw [spared.holds.context]
  exact hg.tells_first s.context e 0 candidates

theorem tells_internality (v current : Value) :
    Tells (ledger book i w free s) (g.internality (.service i) v current)
      (.internality g i v current) := by
  unfold Engine.internality Trace.internality
  cases Transition.ofValue? v with
  | none => exact hg.tells_callMember _ _ _
  | some t => exact .pure

theorem tells_callCancel (t : Option Token) (f : Option Value) :
    Tells (ledger book i w free s) (g.callCancel? (.service i) t f) (.callCancel g i t f) := by
  cases f with
  | none => exact .pure
  | some f =>
    refine .rescue ?_ fun failure => tells_record .pure
    exact .after (hg.tells_invoke (.inr (.inl rfl))) .pure

theorem tells_reportFailure (t : Option Token) (failure : Option Failure) :
    Tells (ledger book i w free s) (g.reportCancelFailure? i t failure)
      (.reportFailure g i s.hooks t failure) := by
  cases failure with
  | none => exact .pure
  | some failure => exact .rescue (hg.tells_observeService _ _) fun _ => tells_record .pure

end Engine.Leaving

end FlatMachine
