import FlatMachine.Proofs.Invocation.Life
import FlatMachine.Proofs.Value.Same

/-! # Wanted and stale outcomes

The candidates of an outcome are looked up in the node of the live state, not where its
invocation was started.  That this is the same place is an invariant: while a token is active,
the state whose entry started its invocation has not been left (**`Service.Occupies`**,
**`Service.lasting_occupied`**).

An outcome whose token is active retires the token before anything else is done
(**`Engine.run_settle_wanted`**); any other one leaves nothing but a log record
(**`Engine.run_settle_stale`**).  **`Point.Settles`** says both of the point at which an outcome
is taken, and **`World.outcomes_settled`** that it holds of all of them. -/

namespace FlatMachine

/-- The service whose state the entry leaves, or whose invocation it starts or ends. -/
def Entry.leaves : Entry → Option Nat
  | moved i .. | activated i .. | retired i _ | cancelled i _ => some i
  | _ => none

/-- The invocation of the token was started where the service still is: nothing has left the
state or ended the invocation since, and it is the one that the live node has. -/
structure Service.Occupies (s : Service) (i : Nat) (t : Token) (invocation : Value)
    (journal : List Entry) : Prop where
  started : ∃ later earlier, journal = later ++ .activated i t invocation .empty :: earlier ∧
    ∀ e ∈ later, e.leaves ≠ some i
  live : ∃ n, s.machine.node s.stateName = .ok n ∧ n.member "invoke" = .ok invocation
  present : invocation.isNull = false

theorem Entry.leaves_of_aside {i : Nat} {e : Entry} (h : e.Aside i) : e.leaves ≠ some i := by
  intro hl
  rcases h with h | h
  · exact h (by cases e <;> first | exact hl | cases hl)
  · cases e <;> first | (cases h; done) | cases hl

namespace Service

variable {i : Nat} {s s' : Service} {t : Token} {invocation : Value} {entries journal : List Entry}

theorem Occupies.mono (h : s.Occupies i t invocation journal)
    (hl : ∀ e ∈ entries, e.leaves ≠ some i) (hm : s'.machine = s.machine)
    (hn : s'.stateName = s.stateName) :
    s'.Occupies i t invocation (entries ++ journal) where
  started := by
    obtain ⟨later, earlier, hj, hlater⟩ := h.started
    exact ⟨entries ++ later, earlier, by
      rw [hj, List.append_assoc], List.forall_mem_append.mpr ⟨hl, hlater⟩⟩
  live := by
    rw [hm, hn]
    exact h.live
  present := h.present

/-- An invocation is active where it was started. -/
def Occupied (i : Nat) (s : Service) (journal : List Entry) : Prop :=
  ∀ t, s.slot.isActive t = true → ∃ invocation, s.Occupies i t invocation journal

theorem Occupied.mono (h : s.Occupied i journal) (hl : ∀ e ∈ entries, e.leaves ≠ some i)
    (hm : s'.machine = s.machine) (hn : s'.stateName = s.stateName) (hslot : s'.slot = s.slot) :
    s'.Occupied i (entries ++ journal) := by
  intro t ht
  obtain ⟨invocation, occupies⟩ := h t (hslot ▸ ht)
  exact ⟨invocation, occupies.mono hl hm hn⟩

theorem Occupied.noted {e : Entry} (h : s.Occupied i journal) (hl : e.leaves ≠ some i) :
    s.Occupied i (e :: journal) :=
  h.mono (List.forall_mem_singleton.mpr hl) rfl rfl rfl

theorem Occupied.of_vacant (h : s.slot = .empty) : s.Occupied i journal := by
  intro t ht
  rw [h] at ht
  cases ht

theorem lasting_occupied : Lasting fun i s journal => s.Occupied i journal where
  fresh := fun fresh _ => .of_vacant fresh.slot
  same := fun h hm hn hslot _ => h.mono (List.forall_mem_nil _) hm hn hslot
  aside := fun h haside => h.mono (fun e he => Entry.leaves_of_aside (haside e he)) rfl rfl rfl
  called := fun h _ _ => h.noted nofun
  faulted := fun h _ => h.noted nofun
  started := fun _ vacant => .of_vacant vacant
  cancelled := fun _ => .of_vacant rfl
  moved := fun _ vacant _ => .of_vacant vacant
  activated := by
    intro i s n invocation journal _ vacant hnode hinvoke present t ht
    have ht : Int.ofNat s.supply = t := by simpa using ht
    subst ht
    exact ⟨invocation, ⟨[], journal, by rw [vacant]; rfl, List.forall_mem_nil _⟩,
      ⟨n, hnode, hinvoke⟩, present⟩
  attached := by
    intro i s t f journal h present _ u hu
    have active : s.slot.isActive u = true := by
      cases ht : s.slot.isActive t with
      | true => rw [Slot.attach_of_active present ht] at hu; exact hu
      | false => rw [Slot.attach_of_inactive present ht] at hu; exact hu
    obtain ⟨invocation, occupies⟩ := h u active
    refine ⟨invocation, occupies.mono (fun e he => ?_) rfl rfl⟩
    rcases Slot.mem_welcome present he with rfl | rfl <;> exact nofun
  retired := fun _ _ => .of_vacant rfl

end Service

/-! ### Settling -/

namespace Engine

open Run

variable {g : Engine} {i : Nat} {v : World} {s : Service} {o : Outcome}

/-- The invocation is looked up in the node of the live state. -/
theorem run_invoke_live {invocation : Value} (hs : v.services[i]? = some s)
    (live : ∃ n, s.machine.node s.stateName = .ok n ∧ n.member "invoke" = .ok invocation) :
    (node i >>= fun n => member n "invoke").run v = (.ok invocation, v) := by
  obtain ⟨n, hn, hm⟩ := live
  rw [run_bind, run_node hs, hn]
  show (member n "invoke").run v = _
  unfold member
  rw [hm]
  rfl

/-- An outcome that is wanted retires its token first. -/
theorem run_settle_wanted (hs : v.services[i]? = some s) (ht : s.slot.isActive o.token = true) :
    (g.settle i o).run v = (if o.cancelled then pure () else g.settleWanted i o : Run Unit).run
      ((v.change i fun s => { s with slot := .empty }).noted (.retired i o.token)) := by
  unfold settle
  rw [run_bind, run_retire_active hs ht]
  dsimp only
  cases o.cancelled <;> rfl

/-- An outcome that is stale leaves a record. -/
theorem run_settle_stale (hs : v.services[i]? = some s) (ht : s.slot.isActive o.token = false) :
    (g.settle i o).run v =
      (.ok (), v.noted
        (.record .debug ("Ignoring stale invocation <token> in state " ++ s.stateName.shown))) := by
  unfold settle
  rw [run_bind, run_retire_inactive hs ht]
  dsimp only
  rw [if_neg Bool.false_ne_true, run_bind, run_service hs]
  rfl

/-- An outcome that is stale is dropped, and the drain goes on. -/
theorem run_processNext_stale (hs : v.services[i]? = some s) (running : s.status = .running)
    (ht : s.slot.isActive o.token = false) :
    (g.processNext i s (.outcome o)).run v = (.ok true, (v.taken i (.outcome o)).noted
      (.record .debug ("Ignoring stale invocation <token> in state " ++ s.stateName.shown))) := by
  have taken := World.taken_self (.outcome o) hs
  unfold World.taken at taken ⊢
  unfold processNext process
  rw [run_bind, run_update]
  dsimp only
  rw [run_bind, run_note]
  dsimp only
  rw [run_bind, run_settle_stale (s := { s with queue := s.queue.dequeue.2 }) taken ht]
  dsimp only
  rw [run_bind, run_service (by rw [World.noted_services]; exact taken)]
  dsimp only
  rw [if_pos running, Value.same_self, if_neg (by simp)]
  rfl

end Engine

/-! ### Taking an outcome -/

/-- What an outcome comes to at the point at which it is taken.  If it is wanted, its token was
not retired before and is now, and its candidates are those of the invocation that was started;
if it is stale, nothing comes of it. -/
structure Point.Settles (p : Point) (g : Engine) (i : Nat) (o : Outcome) (s : Service) : Prop where
  running : s.status = .running
  wanted : s.slot.isActive o.token = true → p.journal.countP (Entry.retires i o.token) = 0 ∧
    ∃ invocation, s.Occupies i o.token invocation p.journal ∧ ∀ v, v.now = p → ∃ v',
      v' = (v.change i fun s => { s with slot := .empty }).noted (.retired i o.token) ∧
      (g.settle i o).run v =
        (if o.cancelled then pure () else g.settleWanted i o : Run Unit).run v' ∧
      (Run.node i >>= fun n => Run.member n "invoke").run v' = (.ok invocation, v')
  stale : s.slot.isActive o.token = false → ∀ v, v.now = p → (g.settle i o).run v =
    (.ok (), v.noted
      (.record .debug ("Ignoring stale invocation <token> in state " ++ s.stateName.shown)))

namespace World

variable {book : Book} {fuel : Nat} {looping : Bool} {history : List Command} {p : Point} {i : Nat}
  {s : Service}

theorem running_of_taken (hp : p ∈ ((World.start looping).after (.ofBook book fuel) history).points)
    {item : Item} (head : p.journal.head? = some (.taken i item)) :
    ∃ s, p.services[i]? = some s ∧ s.status = .running := by
  obtain ⟨before, earlier, hp⟩ := List.append_of_mem hp
  obtain ⟨u, s, next, rfl, -⟩ := next_of_taken ⟨before, hp.symm⟩ head
  exact ⟨_, taken_self item next.service, next.running⟩

/-- At the point at which an item is taken, no call is due. -/
theorem has_of_taken {I : Nat → Service → List Entry → Prop} (hI : Lasting I)
    (hp : p ∈ ((World.start looping).after (.ofBook book fuel) history).points) {item : Item}
    (head : p.journal.head? = some (.taken i item)) (hs : p.services[i]? = some s) :
    I i s p.journal := by
  rcases has_of_passed hI (List.mem_cons_of_mem _ hp) hs with has | ⟨t, f, due, -⟩
  · exact has
  · rcases due with due | ⟨f', due⟩ <;> (rw [head] at due; cases due)

/-- Every outcome that is taken goes to where its invocation was started, or comes to nothing; no
token is retired twice. -/
theorem outcomes_settled (book : Book) (fuel : Nat) (looping : Bool) (history : List Command) :
    let w := (World.start looping).after (.ofBook book fuel) history
    (∀ p ∈ w.points, ∀ i o, p.journal.head? = some (.taken i (.outcome o)) →
      ∃ s, p.services[i]? = some s ∧ ∀ g, p.Settles g i o s) ∧
    (∀ i t, w.journal.countP (Entry.retires i t) ≤ 1) ∧
    (∀ (g : Engine) v i s o, v.services[i]? = some s → s.status = .running →
      s.slot.isActive o.token = false →
      (g.processNext i s (.outcome o)).run v =
        (.ok true, ((v.change i fun s => { s with queue := s.queue.dequeue.2 }).noted
          (.taken i (.outcome o))).noted (.record .debug
            ("Ignoring stale invocation <token> in state " ++ s.stateName.shown)))) := by
  refine ⟨fun p hp i o head => ?_, fun i t => ?_, fun g v i s o hs running ht => ?_⟩
  · obtain ⟨s, hs, running⟩ := running_of_taken hp head
    have lived := has_of_taken Service.lasting_lived hp head hs
    have occupied := has_of_taken Service.lasting_occupied hp head hs
    refine ⟨s, hs, fun g => ⟨running, fun ht => ?_, fun ht v hv => ?_⟩⟩
    · obtain ⟨invocation, occupies⟩ := occupied _ ht
      refine ⟨lived.not_retired ht, invocation, occupies, fun v hv => ⟨_, rfl, ?_, ?_⟩⟩
      · subst hv
        exact Engine.run_settle_wanted hs ht
      · subst hv
        exact Engine.run_invoke_live (World.change_self _ hs) occupies.live
    · subst hv
      exact Engine.run_settle_stale hs ht
  · have lasts := lasts_after Service.lasting_lived book fuel looping history
    cases hs : ((World.start looping).after (.ofBook book fuel) history).services[i]? with
    | some s => exact (lasts.now i s hs).retires_le t
    | none =>
      refine le_of_eq_of_le (List.countP_eq_zero.mpr fun e he => ?_) (Nat.zero_le 1)
      exact fun h => lasts.unborn i hs e he (Entry.service?_of_retires h)
  · exact Engine.run_processNext_stale hs running ht

end World

theorem Swing.outcome_taken (active : Bool) : ∃ p ∈ Swing.world.points, ∃ o s,
    p.journal.head? = some (.taken 0 (.outcome o)) ∧ p.services[0]? = some s ∧
    s.slot.token.isSome = true ∧
      s.slot.isActive o.token = active := by
  have taken : Swing.world.points.any (fun p => p.journal.head?.any fun
      | .taken i (.outcome o) => i == 0 && p.services[0]?.any fun s =>
          s.slot.token.isSome && s.slot.isActive o.token == active
      | _ => false) = true := by
    cases active <;> decide +kernel
  obtain ⟨p, hp, h⟩ := List.any_eq_true.mp taken
  obtain ⟨e, head, h⟩ := (Option.any_eq_true _ _).mp h
  split at h
  · obtain ⟨hi, h⟩ := (Bool.and_eq_true _ _).mp h
    obtain ⟨s, hs, h⟩ := (Option.any_eq_true _ _).mp h
    rw [eq_of_beq hi] at head
    rw [Bool.and_eq_true, beq_iff_eq] at h
    exact ⟨p, hp, _, s, head, hs, h⟩
  · cases h

/-- Of the swing's outcomes one comes late, while another invocation is active, and one is
wanted. -/
theorem Swing.late_and_wanted :
    (∃ p ∈ Swing.world.points, ∃ o s, p.services[0]? = some s ∧ s.slot.token.isSome = true ∧
      s.slot.isActive o.token = false ∧ ∀ g, p.Settles g 0 o s) ∧
    ∃ p ∈ Swing.world.points, ∃ o s, p.services[0]? = some s ∧ s.slot.isActive o.token = true ∧
      ∀ g, p.Settles g 0 o s := by
  have settled := (World.outcomes_settled Swing.book 4 true Swing.life).1
  obtain ⟨p, hp, o, s, head, hs, newer, stale⟩ := Swing.outcome_taken false
  obtain ⟨p', hp', o', s', head', hs', -, wanted⟩ := Swing.outcome_taken true
  obtain ⟨u, hu, settles⟩ := settled p hp 0 o head
  obtain ⟨u', hu', settles'⟩ := settled p' hp' 0 o' head'
  cases hs.symm.trans hu
  cases hs'.symm.trans hu'
  exact ⟨⟨p, hp, o, s, hs, newer, stale, settles⟩, p', hp', o', s', hs', wanted, settles'⟩

end FlatMachine
