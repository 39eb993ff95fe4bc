import FlatMachine.Proofs.Service.Absorbing
import FlatMachine.Proofs.Service.Drains
import FlatMachine.Proofs.World.Tally

/-! # A queue in which more waits

While a service drains its queue, further items may wait in it, behind all others.  Nothing that
is done meanwhile depends on them.

* **`Service.Trails`**: so the service is in two worlds.  Callbacks do not see the difference
  (**`Engine.calls_trailing`**), until one has the service accept an item.
* **`Engine.drain_trailing`**: when the drain without the further items is done, the other one is
  about to take the first of them, or the service was stopped (**`Engine.Remains`**). -/

namespace FlatMachine

/-- While the queue is drained in both worlds, the items `rest` wait in the first one only,
behind the others. -/
structure Service.Trails (rest : List Item) (halted : Bool) (s s' : Service) : Prop where
  same : s' = s.withItems s'.queue.items
  draining : s.queue.draining = true
  started : s.status ≠ .notStarted
  waits : s.status = .running → s.queue.items = s'.queue.items ++ rest
  halted : halted = true → s.status ≠ .running

/-- The service trails, and all others are the same. -/
def Service.TrailsAt (i : Nat) (rest : List Item) (halted : Bool) (k : Nat)
    (s s' : Service) : Prop :=
  (k = i → s.Trails rest halted s') ∧ (k ≠ i → s = s')

namespace Entry

/-- The entry tells of more than of how many drains there were, and of what they were begun for. -/
def isWork (i : Nat) : Entry → Bool
  | accepted j _ | began j | ended j _ => j != i
  | _ => true

/-- An item was accepted by the service. -/
def accepts (i : Nat) : Entry → Bool
  | accepted j _ => j == i
  | _ => false

end Entry

/-- The service trails, until it accepts an item. -/
def Bond.trailing (i n : Nat) (rest : List Item) (halted : Bool) : Bond where
  ties w v := w.Tallies (Entry.isWork i) (Service.TrailsAt i rest halted) v ∧
    n ≤ w.journal.countP (Entry.accepts i)
  spent journal := n < journal.countP (Entry.accepts i)
  rise := fun h => Nat.lt_of_lt_of_le h ((List.sublist_cons_self _ _).countP_le)

namespace Service.Trails

variable {rest : List Item} {halted : Bool} {s s' : Service} {f : Service → Service}

/-- What is done to a service apart from its queue and its status leaves it so. -/
theorem apart (h : Trails rest halted s s')
    (hf : ∀ s items, f (withItems s items) = (f s).withItems items) (queue : (f s).queue = s.queue)
    (status : (f s).status = s.status) : Trails rest halted (f s) (f s') := by
  obtain ⟨items, rfl⟩ : ∃ items, s' = s.withItems items := ⟨_, h.same⟩
  have waits := h.waits
  rw [hf]
  refine ⟨rfl, queue ▸ h.draining, status ▸ h.started, fun running => ?_, fun hh =>
    status ▸ h.halted hh⟩
  rw [queue]
  exact waits (status ▸ running)

theorem stroke (h : Trails rest halted s s') (hf : Stroke f) : Trails rest halted (f s) (f s') :=
  h.apart hf.withItems (hf.queue s) (hf.status s)

theorem heard (h : Trails rest halted s s') (f : List Listener → List Listener) :
    Trails rest halted { s with listeners := f s.listeners }
      { s' with listeners := f s'.listeners } :=
  h.apart (f := fun s => { s with listeners := f s.listeners }) (fun _ _ => rfl) rfl rfl

/-- The queue of a service that was stopped is emptied. -/
theorem drop (h : Trails rest true s s') :
    Trails rest true { s with queue := s.queue.clear, listeners := [] }
    { s' with queue := s'.queue.clear, listeners := [] } := by
  refine ⟨?_, h.draining, h.started, fun running => absurd running (h.halted rfl), h.halted⟩
  rw [h.same]
  rfl

/-- The first item is taken in both worlds. -/
theorem take (h : Trails rest halted s s') {item : Item} {later : List Item}
    (items : s'.queue.items = item :: later) :
    Trails rest halted { s with queue := s.queue.dequeue.2 }
      { s' with queue := s'.queue.dequeue.2 } := by
  have dequeued : s'.queue.dequeue.2 = { s'.queue with items := later } := by
    unfold Queue.dequeue
    rw [items]
  refine ⟨?_, (Queue.draining_dequeue _).trans h.draining, h.started, fun running => ?_, h.halted⟩
  · rw [dequeued, h.same]
    simp [withItems]
  · have waits := h.waits running
    rw [items] at waits
    rw [dequeued]
    unfold Queue.dequeue
    rw [waits]
    rfl

theorem loosen (h : Trails rest true s s') (halted : Bool) : Trails rest halted s s' :=
  ⟨h.same, h.draining, h.started, h.waits, fun _ => h.halted rfl⟩

end Service.Trails

namespace Service.TrailsAt

variable {i k : Nat} {rest : List Item} {halted : Bool} {s s' : Service} {f : Service → Service}

theorem mono (h : TrailsAt i rest halted k s s')
    (own : ∀ {s s'}, Trails rest halted s s' → Trails rest halted (f s) (f s')) :
    TrailsAt i rest halted k (f s) (f s') :=
  SingledOut.mono h own

theorem other (h : TrailsAt i rest halted k s s') (hk : k ≠ i) (f : Service → Service) :
    TrailsAt i rest halted k (f s) (f s') :=
  SingledOut.other h hk f

theorem away (h : TrailsAt i rest halted k s s') (hk : k ≠ i) {halted' : Bool} :
    TrailsAt i rest halted' k s s' :=
  ⟨fun same => absurd same hk, h.2⟩

theorem loosen (h : TrailsAt i rest true k s s') (halted : Bool) : TrailsAt i rest halted k s s' :=
  ⟨fun hk => (h.1 hk).loosen halted, h.2⟩

/-- Once the service is stopped, it stays so. -/
theorem stop (h : TrailsAt i rest halted i s s') :
    TrailsAt i rest true i { s with status := .stopped } { s' with status := .stopped } := by
  have trails := h.1 rfl
  refine ⟨fun _ => ⟨?_, trails.draining, nofun, nofun, fun _ => nofun⟩, fun other =>
    absurd rfl other⟩
  rw [trails.same]
  rfl

end Service.TrailsAt

namespace Bond

open Run

variable {i n : Nat} {rest : List Item} {halted : Bool} {w v : World}

theorem trailing_sides : (trailing i n rest halted).Sides where
  beside := fun h => h.1.side
  moved := fun u h => ⟨h.1.moved u, h.2⟩

theorem trailing_noted (e : Entry) (h : (trailing i n rest halted).ties w v) :
    (trailing i n rest halted).ties (w.noted e) (v.noted e) :=
  ⟨h.1.noted e, Nat.le_trans h.2 (List.sublist_cons_self _ _).countP_le⟩

theorem trailing_changed {k : Nat} {f : Service → Service}
    (own : ∀ {s s'}, Service.Trails rest halted s s' → Service.Trails rest halted (f s) (f s'))
    (h : (trailing i n rest halted).ties w v) :
    (trailing i n rest halted).ties (w.change k f) (v.change k f) :=
  ⟨h.1.changed fun _ _ trails => trails.mono own, h.2⟩

theorem trailing_announced (k : Nat) (sn : Snapshot) (h : (trailing i n rest halted).ties w v) :
    (trailing i n rest halted).ties (w.announcing k sn) (v.announcing k sn) :=
  trailing_noted _ (trailing_changed (fun trails => trails.stroke (.snapshot sn)) h)

/-- What is done to the service as it is in each world leaves it trailing. -/
theorem trailing_taken {f : Service → Service} {s s' : Service}
    (h : (trailing i n rest halted).ties w v) (hs : w.services[i]? = some s)
    (hs' : v.services[i]? = some s') (trails : Service.Trails rest halted (f s) (f s')) :
    (trailing i n rest halted).ties (w.change i f) (v.change i f) := by
  rw [World.change_congr hs (g := fun _ => f s) rfl,
    World.change_congr hs' (g := fun _ => f s') rfl]
  exact ⟨h.1.changed fun _ _ _ => ⟨fun _ => trails, fun other => absurd rfl other⟩, h.2⟩

/-- Of the service, the one world has what the other has, with more waiting. -/
theorem trailing_own (h : (trailing i n rest halted).ties w v) :
    (w.services[i]? = none ∧ v.services[i]? = none) ∨
    ∃ s s', w.services[i]? = some s ∧ v.services[i]? = some s' ∧ s.Trails rest halted s' :=
  World.Tallies.own h.1

theorem trailing_same {k : Nat} (hk : k ≠ i) (h : (trailing i n rest halted).ties w v) :
    w.services[k]? = v.services[k]? :=
  World.Tallies.others h.1 hk

theorem trailing_finds (k : Nat) : (trailing i n rest halted).Finds k := by
  intro w v h
  by_cases hk : k = i
  · subst hk
    obtain none | ⟨s, s', hs, hs', trails⟩ := trailing_own h
    · exact .inl none
    · exact .inr ⟨s, ⟨s.guise, s'.queue.items⟩, hs, trails.same ▸ hs'⟩
  · have same := trailing_same hk h
    cases hs : w.services[k]? with
    | none => exact .inl ⟨rfl, same ▸ hs⟩
    | some s => exact .inr ⟨s, ⟨s.guise, s.queue.items⟩, rfl, same ▸ hs⟩

/-- What the service shows does not depend on what waits. -/
theorem trailing_shows (k : Nat) : (trailing i n rest halted).Shows k := by
  intro w v h
  by_cases hk : k = i
  · subst hk
    obtain none | ⟨s, s', hs, hs', trails⟩ := trailing_own h
    · exact .inl none
    · exact .inr ⟨s, s', hs, hs', congrArg (·.snapshot) trails.same⟩
  · have same := trailing_same hk h
    cases hs : w.services[k]? with
    | none => exact .inl ⟨rfl, same ▸ hs⟩
    | some s => exact .inr ⟨s, s, rfl, same ▸ hs, rfl⟩

end Bond

namespace Engine

open Run

variable {i n : Nat} {rest : List Item}

theorem calling_trailing {g : Engine} {halted : Bool}
    (calls : ∀ owner f args c, Mirrors (Bond.trailing i n rest halted) (g.call owner f args c)) :
    g.CallsWith g (Bond.trailing i n rest halted) False :=
  .ofCalls rfl Bond.trailing_finds (fun e _ => Bond.trailing_noted e) calls

/-- A service does the same whether or not more waits in its queue, if what it calls does. -/
theorem reflects_trailing {g : Engine} {halted : Bool}
    (calls : ∀ owner f args c, Mirrors (Bond.trailing i n rest halted) (g.call owner f args c))
    (k : Nat) :
    g.Reflects (Bond.trailing i n rest halted) k fun _ => True where
  toAttendsWith := attends_ofSides Bond.trailing_sides
    (fun e _ => Bond.trailing_noted e) Bond.trailing_announced Bond.trailing_finds
    (calling_trailing calls) k
  found := Bond.trailing_finds k
  changed := fun hf => Bond.trailing_changed fun h => h.stroke hf

theorem wholly_trailing {g : Engine} {halted : Bool}
    (calls : ∀ owner f args c, Mirrors (Bond.trailing i n rest halted) (g.call owner f args c))
    {k : Nat} (hk : k ≠ i) :
    g.Wholly (Bond.trailing i n rest halted) k fun _ => True where
  toAttendsWith := (reflects_trailing calls k).toAttendsWith
  bound := rfl
  same := fun _ _ => Bond.trailing_same hk
  changed := fun _ h => ⟨h.1.changed fun _ _ trails => trails.other hk _, h.2⟩

/-- A service that is drained is not started again. -/
theorem start_trailing (book : Book) (fuel : Nat) {halted : Bool} (override : Value) :
    Mirrors (Bond.trailing i n rest halted) ((ofBook book fuel).start i override) := by
  refine ⟨((wholly_void book fuel i).start override).grows, fun w v tied => .inr ?_⟩
  obtain ⟨hs, hs'⟩ | ⟨s, s', hs, hs', trails⟩ := Bond.trailing_own tied
  · unfold Engine.start
    rw [run_bind, run_bind, run_service_none hs, run_service_none hs']
    exact .error tied
  · have started : s'.status ≠ .notStarted := trails.same ▸ trails.started
    rw [run_start_idle hs trails.started, run_start_idle hs' started]
    exact .ok tied

/-- A service that is drained and accepts an event trails no longer. -/
theorem send_trailing (book : Book) (fuel : Nat) {halted : Bool} (event : Value) :
    Mirrors (Bond.trailing i n rest halted) ((ofBook book fuel).send i event) := by
  refine ⟨((wholly_void book fuel i).send event).grows, fun w v tied => ?_⟩
  obtain ⟨hs, hs'⟩ | ⟨s, s', hs, hs', trails⟩ := Bond.trailing_own tied
  · unfold Engine.send
    rw [run_bind, run_bind, run_service_none hs, run_service_none hs']
    exact .inr (.error tied)
  · have status : s'.status = s.status := by rw [trails.same]; rfl
    by_cases running : s.status = .running
    · cases he : Event.coerce event with
      | error f =>
        unfold Engine.send
        rw [run_bind, run_bind, run_service hs, run_service hs']
        dsimp only
        rw [if_pos running, if_pos (status.trans running), he]
        exact .inr (.error tied)
      | ok e =>
        rw [run_send_busy hs running trails.draining he]
        refine .inl (.inl (Nat.lt_of_le_of_lt tied.2 ?_))
        show _ < List.countP _ (.accepted i (.event e) :: w.journal)
        rw [List.countP_cons_of_pos (by simp [Entry.accepts])]
        exact Nat.lt_succ_self _
    · rw [run_send_idle hs running, run_send_idle hs' (status ▸ running)]
      exact .inr (.ok tied)

/-- A stop does the same in both worlds, after which nothing that waits is taken. -/
theorem stop_trailing {book : Book} {fuel : Nat} (halted : Bool)
    (calls : ∀ halted owner f args c,
      Mirrors (Bond.trailing i n rest halted) ((ofBook book fuel).call owner f args c)) :
    Mirrors (Bond.trailing i n rest halted) ((ofBook book fuel).stop i) := by
  have reflects := reflects_trailing (calls true) i
  have dropped : Matches (Bond.trailing i n rest true) (Bond.trailing i n rest true).ties (do
      (ofBook book fuel).cancelInvocation i
      update i fun s => { s with queue := s.queue.clear, listeners := [] }
      let s ← service i
      record .debug ("Stopped machine " ++ s.machine.id.shown ++ " in state " ++ s.stateName.shown))
      fun _ => (Bond.trailing i n rest true).ties := by
    refine .bind reflects.cancelInvocation fun _ =>
      .bind (Q := fun _ => (Bond.trailing i n rest true).ties)
      (.update fun w v tied => ?_) fun _ => ?_
    · exact Bond.trailing_changed Service.Trails.drop tied
    · exact reflects.peek (fun _ _ => rfl) fun _ => reflects.record
  have loosen {w v : World} (tied : (Bond.trailing i n rest true).ties w v) :
      (Bond.trailing i n rest halted).ties w v :=
    ⟨tied.1.mono fun _ _ _ trails => trails.loosen halted, tied.2⟩
  refine ⟨(wholly_void book fuel i).stop.grows, fun w v tied => ?_⟩
  obtain ⟨hs, hs'⟩ | ⟨s, s', hs, hs', trails⟩ := Bond.trailing_own tied
  · unfold Engine.stop
    rw [run_bind, run_bind, run_service_none hs, run_service_none hs']
    exact .inr (.error tied)
  · have status : s'.status = s.status := by rw [trails.same]; rfl
    by_cases running : s.status = .running
    · have stopped :
        (Bond.trailing i n rest true).ties (w.change i fun s => { s with status := .stopped })
          (v.change i fun s => { s with status := .stopped }) :=
        ⟨tied.1.remade (fun _ _ trails => trails.stop) fun _ _ _ hk trails =>
          trails.away hk, tied.2⟩
      unfold Engine.stop
      rw [run_bind, run_bind, run_service hs, run_service hs']
      dsimp only
      rw [if_pos running, if_pos (status.trans running), run_bind, run_bind, run_update, run_update]
      refine (dropped.alike _ _ stopped).imp id fun alike =>
        alike.weaken (fun _ w v => loosen) fun w v => loosen
    · rw [run_stop_idle hs running, run_stop_idle hs' (status ▸ running)]
      exact .inr (.ok tied)

/-- Whatever services are asked for matches, so callbacks do. -/
theorem opens_trailing {book : Book} {fuel : Nat}
    (calls : ∀ halted owner f args c,
      Mirrors (Bond.trailing i n rest halted) ((ofBook book fuel).call owner f args c))
    (halted : Bool) : (ofBook book fuel).Opens (Bond.trailing i n rest halted) where
  toSides := Bond.trailing_sides
  noted := fun e _ => Bond.trailing_noted e
  announced := Bond.trailing_announced
  found := Bond.trailing_finds
  changed := fun hf => Bond.trailing_changed fun h => h.stroke hf
  start := fun k override => by
    by_cases hk : k = i
    · rw [hk]
      exact start_trailing book fuel override
    · exact (wholly_trailing (calls halted) hk).start override
  stop := fun k => by
    by_cases hk : k = i
    · rw [hk]
      exact stop_trailing halted calls
    · exact (wholly_trailing (calls halted) hk).stop
  send := fun k event => by
    by_cases hk : k = i
    · rw [hk]
      exact send_trailing book fuel event
    · exact (wholly_trailing (calls halted) hk).send event
  subscribe := fun k listener => (Bond.trailing_finds k).subscribe (fun h => h.1.heard)
    (fun listener h => ⟨h.1.subscribed listener fun _ _ trails => trails.mono fun h =>
      h.heard (· ++ [listener]), h.2⟩)
    listener
  unsubscribe := Bond.unsubscribe (fun h => h.1.heard) fun _ listener h =>
    Bond.trailing_changed (fun h => h.heard (·.eraseP (·.same listener))) h
  toCallsWith := calling_trailing (calls halted)
  shown := Bond.trailing_shows

theorem calls_trailing (book : Book) (fuel : Nat) (halted : Bool) (owner : Owner) (f : Value)
    (args : List Object) (c : Option Context) :
    Mirrors (Bond.trailing i n rest halted) ((ofBook book fuel).call owner f args c) :=
  calls_ofBook (fun _ => opens_trailing) fuel halted owner f args c

/-! ### Drains -/

theorem Reflects.processTaken {g : Engine} {B : Bond} {awaits : AwaitableId → Prop}
    (h : g.Reflects B i awaits) (before : Service) (item : Item) :
    Mirrors B (g.processTaken i before item) := by
  refine .bind (h.process item) fun _ => h.peek (fun _ _ => rfl) fun after =>
    .ite (fun _ => ?_) fun _ => .pure
  exact .ite (fun _ => .bind h.publish fun _ => .pure) fun _ => .pure

/-- A drain that does not go on has found the service stopped. -/
theorem processTaken_false {g : Engine} {before : Service} {item : Item} {w w' : World}
    (done : (g.processTaken i before item).run w = (.ok false, w')) :
    ∃ s, w'.services[i]? = some s ∧ s.status ≠ .running := by
  unfold Engine.processTaken at done
  rw [run_bind] at done
  generalize (g.process i item).run w = out at done
  obtain ⟨halt | u, v⟩ := out
  · cases done
  · dsimp only at done
    rw [run_bind] at done
    cases hv : v.services[i]? with
    | none =>
      rw [run_service_none hv] at done
      cases done
    | some after =>
      rw [run_service hv] at done
      dsimp only at done
      split at done
      · split at done
        · rw [run_bind] at done
          generalize (g.publish i).run v = out at done
          obtain ⟨halt | u, v'⟩ := out <;> cases done
        · cases done
      · rename_i other
        cases done
        exact ⟨after, hv, other⟩

/-- A drain of a service that is not running takes nothing. -/
theorem run_processPending_idle {g : Engine} {w : World} {s : Service}
    (hs : w.services[i]? = some s) (other : s.status ≠ .running) (fuel : Nat) :
    (g.processPending i (fuel + 1)).run w = (.ok (), w) := by
  unfold Engine.processPending
  rw [run_bind, run_service hs]
  dsimp only
  split
  · rfl
  · rw [if_neg other]
    rfl

variable {book : Book} {fuel : Nat} {w v w' : World}

/-- The one drain is done with `v'`; the other, which ends with `w'`, is about to take the first
of the items `rest`, or done as well, since the service was stopped. -/
inductive Remains (g : Engine) (i n : Nat) (rest : List Item) (count : Nat)
    (w' v' : World) : Prop where
  | goes {left : Nat} {u : World} {s : Service} (le : left ≤ count)
      (tied : (Bond.trailing i n rest false).ties u v')
      (service : u.services[i]? = some s) (running : s.status = .running)
      (items : s.queue.items = rest)
      (done : (g.processPending i left).run u = (.ok (), w')) : Remains g i n rest count w' v'
  | stopped {s : Service} (tied : (Bond.trailing i n rest false).ties w' v')
      (service : w'.services[i]? = some s)
      (stopped : s.status ≠ .running) : Remains g i n rest count w' v'

theorem Remains.mono {g : Engine} {count count' : Nat} (h : Remains g i n rest count w' v')
    (le : count ≤ count') :
    Remains g i n rest count' w' v' := by
  cases h with
  | goes le' tied service running items done =>
    exact .goes (Nat.le_trans le' le) tied service running items done
  | stopped tied service stopped => exact .stopped tied service stopped

/-- An item that is taken in both worlds is processed alike. -/
theorem taken_trailing {s s' : Service} {item : Item} {later : List Item} {u : World} {more : Bool}
    (tied : (Bond.trailing i n rest false).ties w v) (hs : w.services[i]? = some s)
    (hs' : v.services[i]? = some s') (trails : s.Trails rest false s')
    (items : s'.queue.items = item :: later)
    (done : ((ofBook book fuel).processTaken i s item).run (w.taken i item) = (.ok more, u))
    (unsent : u.journal.countP (Entry.accepts i) ≤ n) :
    ∃ v', ((ofBook book fuel).processTaken i s' item).run (v.taken i item) = (.ok more, v') ∧
      (Bond.trailing i n rest false).ties u v' := by
  have taken : (Bond.trailing i n rest false).ties (w.taken i item) (v.taken i item) :=
    Bond.trailing_noted _ (Bond.trailing_taken tied hs hs' (trails.take items))
  have same : (ofBook book fuel).processTaken i s' item =
      (ofBook book fuel).processTaken i s item := by
    rw [trails.same]
    rfl
  have processed :=
    ((reflects_trailing (calls_trailing book fuel false) i).processTaken s item).either _ _ taken
  rw [done] at processed
  rw [same]
  obtain spent | alike := processed
  · exact absurd spent (Nat.not_lt.mpr unsent)
  · generalize ((ofBook book fuel).processTaken i s item).run (v.taken i item) = out at alike
    cases alike with
    | ok tied => exact ⟨_, rfl, tied⟩

/-- By induction on the items that the one drain may take: both take what waits in both worlds. -/
theorem drain_trailing {count bound : Nat} (le : count ≤ bound)
    (tied : (Bond.trailing i n rest false).ties w v)
    (done : ((ofBook book fuel).processPending i count).run w = (.ok (), w'))
    (unsent : w'.journal.countP (Entry.accepts i) ≤ n) :
    ∃ v', ((ofBook book fuel).processPending i bound).run v = (.ok (), v') ∧
      Remains (.ofBook book fuel) i n rest count w' v' := by
  induction count generalizing w v bound with
  | zero => cases done
  | succ count ih =>
    obtain ⟨bound, rfl⟩ : ∃ b, bound = b + 1 := ⟨bound - 1, by omega⟩
    obtain ⟨hs, hs'⟩ | ⟨s, s', hs, hs', trails⟩ := Bond.trailing_own tied
    · unfold processPending at done
      rw [run_bind, run_service_none hs] at done
      cases done
    have status : s'.status = s.status := by rw [trails.same]; rfl
    by_cases running : s.status = .running
    · have waits := trails.waits running
      cases items : s'.queue.items with
      | nil =>
        rw [items] at waits
        exact ⟨v, run_processPending_empty hs' items bound,
          .goes (Nat.le_refl _) tied hs running waits done⟩
      | cons item later =>
        rw [items] at waits
        rw [run_processPending_items hs running waits, run_bind] at done
        rw [run_processPending_items hs' (status.trans running) items, run_bind]
        cases hw : ((ofBook book fuel).processTaken i s item).run (w.taken i item) with
        | mk r u =>
        rw [hw] at done
        obtain halt | more := r
        · cases done
        have grows :
            Grows (if more = true then (ofBook book fuel).processPending i count else pure ()) :=
          Mirrors.grows
            (.ite (fun _ => (wholly_void book fuel i).processPending count) fun _ => .pure)
        have grown : u.journal <:+ w'.journal :=
          (congrArg (fun out => out.2.journal) done) ▸ (grows u).journal
        obtain ⟨v', taken, tied⟩ :=
          taken_trailing tied hs hs' trails items hw (Nat.le_trans grown.sublist.countP_le unsent)
        rw [taken]
        cases more with
        | true =>
          obtain ⟨v'', done', remains⟩ := ih (Nat.le_of_succ_le_succ le) tied done
          exact ⟨v'', done', remains.mono (Nat.le_succ count)⟩
        | false =>
          cases done
          obtain ⟨s₁, hs₁, stopped⟩ := processTaken_false hw
          exact ⟨v', rfl, .stopped tied hs₁ stopped⟩
    · refine ⟨v, run_processPending_idle hs' (status ▸ running) bound, ?_⟩
      rw [run_processPending_idle hs running] at done
      cases done
      exact .stopped tied hs running

end Engine

end FlatMachine
