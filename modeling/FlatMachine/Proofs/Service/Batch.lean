import FlatMachine.Proofs.Service.QueueTail

/-! # One drain for many events

Events that wait in a queue together are processed in a single drain.  That comes to the same as
sending the later ones from outside when the earlier ones are done with, one by one, unless
something is sent to the service meanwhile or the single drain is halted
(**`World.batch_as_sent`**).  A drain that is halted drops what waits, so the two ways part
there, also if no callback failed (**`Swing.batch_dropped`**).

* **`Engine.batch`**: events are put into the queue, and it is drained once.
* **`Service.Even`**: between drains, the two ways have led to the same but for the queue. -/

namespace FlatMachine

/-- All but the queue is the same. -/
def Service.Even (s s' : Service) : Prop := s' = { s with queue := s'.queue }

/-- The service is even, and all others are the same. -/
def Service.EvenAt (i k : Nat) (s s' : Service) : Prop := (k = i → s.Even s') ∧ (k ≠ i → s = s')

namespace World

open Run

variable {book : Book} {fuel i n bound : Nat} {rest : List Item} {u v w w' v' : World}

/-- What is done to the queue of the service in the second world leaves the rest as it is. -/
theorem Tallies.queued {told : Entry → Bool} (h : w.Tallies told (Service.EvenAt i) v)
    (f : Queue Item → Queue Item) :
    w.Tallies told (Service.EvenAt i) (v.change i fun s => { s with queue := f s.queue }) := by
  refine h.across (fun s s' even => ⟨fun same => ?_, fun other => absurd rfl other⟩)
    fun _ _ _ _ => id
  show _ = _
  rw [even.1 same]

/-- Worlds that are even are tied, if the service trails. -/
theorem Tallies.trailing {halted : Bool} {s s' : Service}
    (h : w.Tallies (Entry.isWork i) (Service.EvenAt i) v) (hs : w.services[i]? = some s)
    (hs' : v.services[i]? = some s') (trails : s.Trails rest halted s') :
    w.Tallies (Entry.isWork i) (Service.TrailsAt i rest halted) v where
  beside := h.beside
  services := fun k => by
    by_cases hk : k = i
    · subst hk
      rw [hs, hs']
      exact .some ⟨fun _ => trails, fun other => absurd rfl other⟩
    · have related := h.services k
      generalize w.services[k]? = found, v.services[k]? = found' at related
      cases related with
      | none => exact .none
      | some even => exact .some ⟨fun same => absurd same hk, even.2⟩
  told := h.told

/-- When the drain in the second world is ended, the worlds are even. -/
theorem even_of_trailing {halted : Bool} (tied : (Bond.trailing i n rest halted).ties w v) :
    w.Tallies (Entry.isWork i) (Service.EvenAt i) (v.left i none) := by
  have even : w.Tallies (Entry.isWork i) (Service.EvenAt i) v := tied.1.mono fun k s s' trails =>
    ⟨fun same => by show _ = _; rw [(trails.1 same).same]; rfl, trails.2⟩
  exact (even.queued (·.leave false)).silent (by simp [Entry.isWork])

/-- Nothing comes of what is sent to a service that is not running. -/
theorem sends_idle {g : Engine} {s : Service} (hs : w.services[i]? = some s)
    (other : s.status ≠ .running) (events : List Event) :
    (events.forM fun e => g.send i e.toValue).run w = (.ok (), w) := by
  induction events with
  | nil => rfl
  | cons e events ih =>
    show ExceptT.run (g.send i e.toValue >>= fun _ => events.forM fun e => g.send i e.toValue) w = _
    rw [run_bind, Engine.run_send_idle hs other]
    exact ih

/-- The drain in the second world is done, and another one begins for the first of the items that
remain. -/
theorem begun_trailing {s : Service} {e : Event}
    (tied : (Bond.trailing i n (.event e :: rest) false).ties u v) (hs : u.services[i]? = some s)
    (running : s.status = .running) (items : s.queue.items = .event e :: rest) :
    (∃ s', (v.left i none).services[i]? = some s' ∧ s'.status = .running ∧
      s'.queue.draining = false) ∧
      (Bond.trailing i n rest false).ties u ((v.left i none).prompted i (.event e)) := by
  obtain ⟨none, -⟩ | ⟨s₁, s', hs₁, hs', trails⟩ := Bond.trailing_own tied
  · cases none.symm.trans hs
  cases hs₁.symm.trans hs
  have empty : s'.queue.items = [] := by
    have waits := trails.waits running
    rw [items] at waits
    exact List.self_eq_append_left.mp waits
  have status : s'.status = s.status := by rw [trails.same]; rfl
  have gone := left_self hs' none
  have here : ((v.left i none).prompted i (.event e)).services[i]? =
      some { s' with queue := ⟨[.event e], true⟩ } := by
    rw [prompted_self (.event e) gone]
    simp [Queue.leave, Queue.enqueue, Queue.enter, empty]
  have even : u.Tallies (Entry.isWork i) (Service.EvenAt i)
      ((v.left i none).prompted i (.event e)) := by
    have opened :=
      ((even_of_trailing tied).queued (·.enqueue (.event e))).silent (e := .accepted i (.event e))
      (by simp [Entry.isWork])
    exact (opened.queued (·.enter)).silent (by simp [Entry.isWork])
  refine ⟨⟨_, gone, status.trans running, Queue.draining_leave _ _⟩,
    even.trailing hs here ?_, tied.2⟩
  refine ⟨?_, trails.draining, trails.started, fun _ => items, nofun⟩
  rw [trails.same, ← trails.draining]
  rfl

/-- By induction on the events: what remains is taken by a drain for each event. -/
theorem sends_trailing {events : List Event} {count : Nat}
    (le : count ≤ (Engine.ofBook book fuel).bound)
    (remains : Engine.Remains (.ofBook book fuel) i n (events.map .event) count w' v')
    (unsent : w'.journal.countP (Entry.accepts i) ≤ n) :
    ∃ v'', (events.forM fun e => (Engine.ofBook book fuel).send i e.toValue).run
        (v'.left i none) = (.ok (), v'') ∧
      w'.Tallies (Entry.isWork i) (Service.EvenAt i) v'' := by
  induction events generalizing count v' with
  | nil =>
    refine ⟨_, rfl, ?_⟩
    cases remains with
    | stopped tied => exact even_of_trailing tied
    | @goes left u s le' tied hs running items done =>
      cases left with
      | zero => cases done
      | succ left =>
        rw [Engine.run_processPending_empty hs items] at done
        cases done
        exact even_of_trailing tied
  | cons e events ih =>
    cases remains with
    | @stopped s tied hs stopped =>
      obtain ⟨none, -⟩ | ⟨s₁, s', hs₁, hs', trails⟩ := Bond.trailing_own tied
      · cases none.symm.trans hs
      cases hs₁.symm.trans hs
      have status : s'.status = s.status := by rw [trails.same]; rfl
      have gone := left_self hs' none
      exact ⟨_, sends_idle gone (show s'.status ≠ .running from status ▸ stopped) _,
        even_of_trailing tied⟩
    | @goes left u s le' tied hs running items done =>
      obtain ⟨⟨s', hs', running', idle⟩, begun⟩ := begun_trailing tied hs running items
      obtain ⟨v₁, drained, remains⟩ := Engine.drain_trailing (Nat.le_trans le' le) begun done unsent
      obtain ⟨v'', rest, even⟩ := ih (Nat.le_trans le' le) remains
      refine ⟨v'', ?_, even⟩
      have coerced : Event.coerce e.toValue = .ok e := rfl
      have sent := (Engine.run_send_begins (g := .ofBook book fuel) hs' running' idle coerced).trans
        (run_drained _ _)
      rw [drained] at sent
      show ExceptT.run ((Engine.ofBook book fuel).send i e.toValue >>= fun _ => _) _ = _
      rw [run_bind, sent]
      exact rest

/-- The world in which the drain begins for events that were put into the queue. -/
def given (w : World) (i : Nat) (events : List Event) : World :=
  ((w.change i fun s =>
    { s with queue := { s.queue with items := s.queue.items ++ events.map .event } }).change i
    fun s => { s with queue := s.queue.enter }).noted (.began i)

theorem given_self {s : Service} (hs : w.services[i]? = some s) (quiet : s.queue = .empty)
    (events : List Event) :
    (w.given i events).services[i]? = some { s with queue := ⟨events.map .event, true⟩ } := by
  rw [show (w.given i events).services[i]? = _ from change_self _ (change_self _ hs), quiet]
  rfl

/-- If only the first of the events are put into the queue of a service, the worlds differ in
what waits there. -/
theorem given_trailing {s : Service} (hs : w.services[i]? = some s)
    (started : s.status ≠ .notStarted) (quiet : s.queue = .empty) (first others : List Event) :
    (Bond.trailing i (w.journal.countP (Entry.accepts i)) (others.map .event) false).ties
      (w.given i (first ++ others)) (w.given i first) := by
  have even : (w.given i (first ++ others)).Tallies (Entry.isWork i) (Service.EvenAt i)
      (w.given i first) := by
    refine .noted (.changed ?_ fun s s' even => ?_) (.began i)
    · exact (Tallies.refl (Entry.isWork i) w).remade
        (fun s s' same => ⟨fun _ => same ▸ rfl, fun other => absurd rfl other⟩)
        fun k s s' other same => ⟨fun hk => absurd hk other, fun _ => same⟩
    · exact ⟨fun hk => by show _ = _; rw [even.1 hk], fun other => absurd rfl other⟩
  refine ⟨even.trailing (given_self hs quiet _) (given_self hs quiet _)
    ⟨rfl, rfl, started, fun _ => List.map_append, nofun⟩, ?_⟩
  exact (List.sublist_cons_self _ _).countP_le

end World

namespace Engine

open Run

/-- Put events into the queue of a service, and drain it once. -/
def batch (g : Engine) (i : Nat) (events : List Event) : Run Unit := do
  update i fun s => { s with queue := { s.queue with items := s.queue.items ++ events.map .event } }
  g.runQueue i

/-- The events are processed in one drain. -/
theorem run_batch {g : Engine} {i : Nat} {w : World} {s : Service} (hs : w.services[i]? = some s)
    (idle : s.queue.draining = false) (events : List Event) :
    (g.batch i events).run w = (drained i (g.processPending i g.bound)).run (w.given i events) := by
  unfold batch runQueue
  rw [run_bind, run_update]
  dsimp only
  rw [run_bind, run_service (World.change_self _ hs)]
  dsimp only
  rw [if_neg (by rw [idle]; exact nofun), run_draining]
  rfl

end Engine

namespace World

open Run

/-- A running service whose queue is empty is given events in one go, and is sent nothing else
while it processes them.  If that raises nothing, then giving it the first of them in one go and
sending it the others one by one raises nothing either; all services end up the same but for the
queue of this one, and all that is written is the same in the same order, but for when its drains
began and ended and what they were begun for. -/
theorem batch_as_sent (book : Book) (fuel : Nat) {w w' : World} {i : Nat} {s : Service}
    (hs : w.services[i]? = some s) (running : s.status = .running) (quiet : s.queue = .empty)
    (first others : List Event)
    (done : ((Engine.ofBook book fuel).batch i (first ++ others)).run w = (.ok (), w'))
    (unsent : w'.journal.countP (Entry.accepts i) = w.journal.countP (Entry.accepts i)) :
    ∃ v', (do
        (Engine.ofBook book fuel).batch i first
        others.forM fun e => (Engine.ofBook book fuel).send i e.toValue).run w = (.ok (), v') ∧
      w'.Tallies (Entry.isWork i) (Service.EvenAt i) v' := by
  have idle : s.queue.draining = false := by rw [quiet]; rfl
  have started : s.status ≠ .notStarted := by rw [running]; exact nofun
  have trails := given_trailing hs started quiet first others
  have begins := Engine.run_batch (g := .ofBook book fuel) hs idle
  have once := done.symm.trans ((begins (first ++ others)).trans (run_drained _ _))
  cases hw : ((Engine.ofBook book fuel).processPending i (Engine.ofBook book fuel).bound).run
      (w.given i (first ++ others)) with
  | mk r u =>
  rw [hw] at once
  obtain halt | ⟨⟩ := r
  · cases once
  cases once
  have unsent : u.journal.countP (Entry.accepts i) ≤ w.journal.countP (Entry.accepts i) := by
    refine Nat.le_of_eq (Eq.trans ?_ unsent)
    exact (List.countP_cons_of_neg (by simp [Entry.accepts])).symm
  obtain ⟨v', drained, remains⟩ := Engine.drain_trailing (Nat.le_refl _) trails hw unsent
  obtain ⟨v'', rest, even⟩ := sends_trailing (Nat.le_refl _) remains unsent
  refine ⟨v'', ?_, ?_⟩
  · have begun := begins first
    rw [run_drained, drained] at begun
    rw [run_bind, begun]
    exact rest
  · have left : (u.change i fun s => { s with queue := s.queue.leave false }).Tallies
      (Entry.isWork i) (Service.EvenAt i)
        (v''.change i id) :=
      even.changed fun s s' even =>
        ⟨fun hk => by show _ = _; rw [id, even.1 hk], fun other => absurd rfl other⟩
    rw [change_same] at left
    exact left.silently (by simp [Entry.isWork])

end World

/-! ### A swing that is sent to and fro -/

namespace Swing

def back : Event := ⟨"BACK", []⟩

def go : Event := ⟨"GO", []⟩

/-- A swing that starts out there, where it waits for nothing. -/
def parked : Machine := { machine with initial := .str "there" }

/-- A parked swing, with an event loop to schedule its invocations on or without. -/
def parking (loop : Bool) : World :=
  (World.start loop).after (.ofBook book 5)
    [.create parked.toValue .standard [] loop, .start 0 .null]

theorem parking_quiet (loop : Bool) :
    ∃ s, (parking loop).services[0]? = some s ∧ s.status = .running ∧
    s.queue = .empty := by
  have started : (parking loop).services[0]?.any (fun s => s.status == .running) = true := by
    cases loop <;> decide +kernel
  obtain ⟨s, hs, running⟩ := (Option.any_eq_true _ _).mp started
  have running : s.status = .running := by simpa using running
  have rest : (parking loop).AtRest := World.atRest_after book 5 loop _
  exact ⟨s, hs, running, rest.empty hs running⟩

/-- A parked swing comes back, goes and comes back again, in one drain or event by event. -/
theorem sent_together : ∃ w' v', ((Engine.ofBook book 5).batch 0 ([back] ++ [go, back])).run
    (parking true) = (.ok (), w') ∧
    (do
      (Engine.ofBook book 5).batch 0 [back]
      [go, back].forM fun e => (Engine.ofBook book 5).send 0 e.toValue).run (parking true) =
        (.ok (), v') ∧
    w'.Tallies (Entry.isWork 0) (Service.EvenAt 0) v' := by
  obtain ⟨s, hs, running, quiet⟩ := parking_quiet true
  have done : (((Engine.ofBook book 5).batch 0 ([back] ++ [go, back])).run
      (parking true)).1.toBool = true := by
    decide +kernel
  have unsent :
      (((Engine.ofBook book 5).batch 0 ([back] ++ [go, back])).run (parking true)).2.journal.countP
        (Entry.accepts 0) = (parking true).journal.countP (Entry.accepts 0) := by decide +kernel
  cases run : ((Engine.ofBook book 5).batch 0 ([back] ++ [go, back])).run (parking true) with
  | mk r w' =>
  rw [run] at done unsent
  obtain halt | ⟨⟩ := r
  · cases done
  obtain ⟨v', sent, even⟩ :=
    World.batch_as_sent book 5 hs running quiet [back] [go, back] run unsent
  exact ⟨w', v', rfl, sent, even⟩

/-- What is called is the source of the invocation. -/
def isSource : Value → Bool
  | .function .own none (.host 0) [] => true
  | _ => false

theorem source_makes {f : Value} {args : List Object} (h : isSource f = true) :
    book f args = .ask .future fun a => .done (.fresh (.tuple [a.toValue, function 2])) := by
  unfold isSource at h
  split at h
  · rfl
  · cases h

/-- Without an event loop, coming back fails, as the invocation cannot be scheduled.  No callback
fails, and none sends an event; yet what waits in the queue is dropped, and what is sent
afterwards is not. -/
theorem batch_dropped :
    let g := Engine.ofBook book 5
    let once := ((g.batch 0 ([back] ++ [go])).run (parking false)).2
    let twice := ((g.send 0 go.toValue).run ((g.batch 0 [back]).run (parking false)).2).2
    (∃ s, (parking false).services[0]? = some s ∧ s.status = .running ∧ s.queue = .empty) ∧
    (∀ owner role f args, .called owner role f args ∈ once.journal ++ twice.journal →
      book f args = .ask .future fun a => .done (.fresh (.tuple [a.toValue, function 2]))) ∧
    once.services[0]?.any (fun s => s.stateName.same (.str "here")) = true ∧
    twice.services[0]?.any (fun s => s.stateName.same (.str "there")) = true := by
  intro g once twice
  have called : (once.journal ++ twice.journal).all (Entry.callsOnly fun _ => isSource) = true := by
    decide +kernel
  refine ⟨parking_quiet false, fun owner role f args mem => ?_, by
    decide +kernel, by decide +kernel⟩
  exact source_makes (List.all_eq_true.mp called _ mem)

end Swing

end FlatMachine
