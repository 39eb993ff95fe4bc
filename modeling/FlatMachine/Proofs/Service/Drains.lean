import FlatMachine.Proofs.World.Tick

/-! # Drains are apart from each other

A drain of a service begins when nobody drains its queue, and the flag of the queue is set until
it ends.  It ends with nothing left in the queue, unless the service was stopped meanwhile
(**`Service.Framed`**).  So a service that goes on is ready for the next item whatever became of
the last one.

A stop that returns drops what waits.  A stop that is halted does not; if a callback handles its
failure, the drain in progress ends like any other, and what waits in the queue of the stopped
service is left there for good.

* **`Engine.Call`**: what can be called from outside of a service.
* **`Run.Shielded`**: no ordinary failure gets out of a computation, such as a stop.
* **`World.drains_apart`**: every call leaves all flags as they were, and the queues empty that
  nobody drains, but for those of stopped services. -/

namespace FlatMachine

/-! ### The ends of drains -/

/-- The entry tells of an end of a drain of the service. -/
def Entry.frames (i : Nat) : Entry → Bool
  | began j | ended j _ => j == i
  | _ => false

/-- A drain of the service began, and did not end yet. -/
def InDrain (i : Nat) (journal : List Entry) : Prop :=
  journal.find? (Entry.frames i) = some (.began i)

/-- The drains of a service come one after the other, with the flag set in each and nothing left
in the queue at its end, unless the service was stopped and the drain ended like any other. -/
structure Service.Framed (i : Nat) (s : Service) (journal : List Entry) : Prop where
  flag : s.queue.draining = true ↔ InDrain i journal
  began : ∀ earlier, .began i :: earlier <:+ journal → ¬ InDrain i earlier
  ended : ∀ halt earlier, .ended i halt :: earlier <:+ journal → InDrain i earlier
  empty : ∀ halt, journal.head? = some (.ended i halt) → (halt = none → s.status ≠ .stopped) →
    s.queue.items = []

section Frames

variable {i : Nat} {e : Entry} {journal : List Entry}

theorem Entry.frames_of_course? (h : e.course? ≠ some i) : e.frames i = false := by
  cases e <;> first | rfl | exact beq_eq_false_iff_ne.mpr fun hij => h (congrArg some hij)

theorem inDrain_cons (h : e.frames i = false) : InDrain i (e :: journal) ↔ InDrain i journal := by
  unfold InDrain
  rw [List.find?_cons_of_neg (by rw [h]; exact nofun)]

theorem inDrain_began : InDrain i (.began i :: journal) := by
  simp [InDrain, Entry.frames]

theorem not_inDrain_ended {halt : Option Halt} : ¬ InDrain i (.ended i halt :: journal) := by
  simp [InDrain, Entry.frames]

end Frames

namespace Service.Framed

variable {i : Nat} {s s' : Service} {journal : List Entry} {e : Entry}

theorem ofFresh (fresh : s.Fresh) (silent : ∀ e ∈ journal, e.service? ≠ some i) :
    s.Framed i journal := by
  have none : journal.find? (Entry.frames i) = none := by
    rw [List.find?_eq_none]
    intro e he
    rw [Entry.frames_of_course? (mt Entry.service?_of_course? (silent e he))]
    exact nofun
  have absent : ∀ earlier e, e.service? = some i → ¬ e :: earlier <:+ journal :=
    fun earlier e he h => silent e (h.subset List.mem_cons_self) he
  refine ⟨?_, fun earlier h => absurd h (absent earlier _ rfl), fun halt earlier h =>
    absurd h (absent earlier _ rfl), ?_⟩
  · unfold InDrain
    rw [none, fresh.queue]
    exact ⟨nofun, nofun⟩
  · intro halt _ _
    rw [fresh.queue]
    rfl

theorem cons (h : s.Framed i journal) (flag : s'.queue.draining = true ↔ InDrain i (e :: journal))
    (began : e = .began i → ¬ InDrain i journal)
    (ended : ∀ halt, e = .ended i halt → InDrain i journal)
    (empty : ∀ halt, e = .ended i halt → (halt = none → s'.status ≠ .stopped) →
      s'.queue.items = []) :
    s'.Framed i (e :: journal) where
  flag := flag
  began := by
    intro earlier hs
    rcases List.suffix_cons_iff.mp hs with hs | hs
    · obtain ⟨rfl, rfl⟩ := List.cons.inj hs
      exact began rfl
    · exact h.began earlier hs
  ended := by
    intro halt earlier hs
    rcases List.suffix_cons_iff.mp hs with hs | hs
    · obtain ⟨rfl, rfl⟩ := List.cons.inj hs
      exact ended halt rfl
    · exact h.ended halt earlier hs
  empty := fun halt head => empty halt (Option.some.inj head)

/-- Entries that tell of no beginning or end of a drain leave the frame of a service as it is. -/
theorem noted (h : s.Framed i journal) (other : e.frames i = false)
    (draining : s'.queue.draining = s.queue.draining) : s'.Framed i (e :: journal) := by
  have neither {P : Prop} (frames : e.frames i = true) : P := by
    rw [other] at frames
    cases frames
  refine h.cons ?_ ?_ ?_ ?_
  · rw [inDrain_cons other, draining]
    exact h.flag
  · rintro rfl
    exact neither (beq_self_eq_true i)
  · rintro halt rfl
    exact neither (beq_self_eq_true i)
  · rintro halt rfl
    exact neither (beq_self_eq_true i)

theorem changed (h : s.Framed i journal) (draining : s'.queue.draining = s.queue.draining)
    (going : s'.status ≠ .stopped → s.status ≠ .stopped)
    (items : s.queue.items = [] → s'.queue.items = []) :
    s'.Framed i journal where
  flag := by rw [draining]; exact h.flag
  began := h.began
  ended := h.ended
  empty := fun halt head normal => items (h.empty halt head fun none => going (normal none))

theorem aside {e : Option Entry} (h : s.Framed i journal) (course : ∀ x ∈ e, x.course? ≠ some i)
    (queue : s'.queue = s.queue) (going : s'.status ≠ .stopped → s.status ≠ .stopped) :
    s'.Framed i (e.toList ++ journal) := by
  have draining : s'.queue.draining = s.queue.draining := by rw [queue]
  cases e with
  | none => exact h.changed draining going fun items => by rw [queue]; exact items
  | some x => exact h.noted (Entry.frames_of_course? (course x rfl)) draining

theorem enter (h : s.Framed i journal) (idle : s.queue.draining = false) :
    Framed i { s with queue := s.queue.enter } (.began i :: journal) := by
  refine h.cons ⟨fun _ => inDrain_began, fun _ => rfl⟩ (fun _ => ?_) nofun nofun
  rw [← h.flag, idle]
  exact nofun

theorem leave (h : s.Framed i journal) (halt : Option Halt) (busy : s.Busy)
    (drained : halt = none → s.status = .running → s.queue.items = []) :
    Framed i { s with queue := s.queue.leave halt.isSome } (.ended i halt :: journal) := by
  refine h.cons ?_ nofun (fun _ _ => h.flag.mp busy.draining) ?_
  · exact ⟨fun draining => by simp at draining, fun drain => absurd drain not_inDrain_ended⟩
  · rintro _ ⟨⟩ going
    cases halt with
    | none => exact drained rfl (Status.running_of busy.started (going rfl))
    | some halt => rfl

theorem beat {e : Option Entry} (b : Beat i s s' e) (h : s.Framed i journal) :
    s'.Framed i (e.toList ++ journal) := by
  cases b with
  | pass queue status _ passing =>
    exact h.aside (fun x hx => (passing x hx).course) queue fun going => status ▸ going
  | start notStarted _ queue _ passing =>
    exact h.aside (fun x hx => (passing x hx).course) queue fun _ => by rw [notStarted]; exact nofun
  | stop _ stopped queue _ passing =>
    exact h.aside (fun x hx => (passing x hx).course) queue fun going => absurd stopped going
  | work _ queue status _ course => exact h.aside course queue fun going => status ▸ going
  | accept => exact h.noted rfl rfl
  | drop => exact h.changed rfl id fun _ => rfl
  | enter _ idle => exact h.enter idle
  | leave halt busy drained => exact h.leave halt busy drained
  | take => exact h.noted rfl (Queue.draining_dequeue _)

end Service.Framed

/-! ### Ordinary failures of a stop -/

/-- Whether a handler of ordinary failures stops it. -/
def Halt.isOrdinary : Halt → Bool
  | raised f => f.isOrdinary
  | exhausted => false

/-- No failure gets out of the computation that a handler of ordinary failures would stop. -/
def Run.Shielded {α : Type} (x : Run α) : Prop :=
  ∀ w h, (x.run w).1 = .error h → h.isOrdinary = false

namespace Run.Shielded

variable {α β : Type} {x : Run α}

theorem pure {a : α} : Shielded (Pure.pure a : Run α) := fun _ _ => nofun

theorem record {level : Level} {text : String} : Shielded (Run.record level text) :=
  fun _ _ => nofun

theorem bind {f : α → Run β} (hx : Shielded x) (hf : ∀ a, Shielded (f a)) : Shielded (x >>= f) := by
  intro w h hr
  rw [run_bind] at hr
  have hxw := hx w
  generalize x.run w = out at hr hxw
  obtain ⟨r, w'⟩ := out
  cases r with
  | ok a => exact hf a w' h hr
  | error h' =>
    cases hr
    exact hxw h rfl

theorem rescue {handle : Failure → Run α} (hh : ∀ f, Shielded (handle f)) :
    Shielded (Run.rescue x handle) := by
  intro w h hr
  unfold Run.rescue at hr
  rw [run_tryCatch] at hr
  generalize x.run w = out at hr
  obtain ⟨r, w'⟩ := out
  match r, hr with
  | .ok a, hr => cases hr
  | .error .exhausted, hr => cases hr; rfl
  | .error (.raised f), hr =>
    by_cases ordinary : f.isOrdinary = true
    · simp only [ordinary, if_true] at hr
      exact hh f w' h hr
    · simp only [ordinary] at hr
      cases hr
      exact Bool.eq_false_iff.mpr ordinary

end Run.Shielded

/-- Whatever the cancel callback and the error hooks do, an ordinary failure of theirs ends here. -/
theorem Engine.shielded_finishCancelling {g : Engine} {i : Nat} (slot : Slot) :
    (g.finishCancelling i slot).Shielded := by
  unfold finishCancelling
  split
  · exact .pure
  · refine .bind (.rescue fun _ => .bind .record fun _ => .pure) fun failure => ?_
    cases failure with
    | none => exact .pure
    | some failure => exact .rescue fun _ => .record

/-! ### Calls -/

/-- What can be called from outside of a service, by its host, by callbacks and by the event
loop. -/
inductive Engine.Call (g : Engine) (i : Nat) : Run Unit → Prop where
  | start (override : Value) : Call g i (g.start i override)
  | send (event : Value) : Call g i (g.send i event)
  | stop : Call g i (g.stop i)
  | deliver (token : Token) (event : Event) (a : AwaitableId) (settlement : Settlement) :
      Call g i (g.deliver ⟨i, token, event⟩ a settlement)

namespace Engine

open Run

variable {g : Engine} {i : Nat} {x : Run Unit}

theorem Call.tame (h : g.Call i x) (hg : g.Tame) : x.Tame := by
  cases h with
  | start override => exact tame_start hg override
  | send event => exact tame_send hg event
  | stop => exact tame_stop hg
  | deliver token event a settlement => exact tame_deliver hg _ a settlement

/-- A drain that finds an item waiting takes it, if the service is running. -/
theorem run_processPending_items {w : World} {s : Service} {item : Item} {rest : List Item}
    (hs : w.services[i]? = some s) (running : s.status = .running)
    (items : s.queue.items = item :: rest) (fuel : Nat) :
    (g.processPending i (fuel + 1)).run w =
      (do if ← g.processTaken i s item then g.processPending i fuel).run (w.taken i item) := by
  unfold processPending
  rw [run_bind, run_service hs]
  dsimp only
  rw [items]
  dsimp only
  rw [if_pos running, run_bind, run_processNext, ← run_bind]
  cases fuel <;> rfl

/-- A drain that finds nothing waiting is done. -/
theorem run_processPending_empty {w : World} {s : Service} (hs : w.services[i]? = some s)
    (items : s.queue.items = []) (fuel : Nat) :
    (g.processPending i (fuel + 1)).run w = (.ok (), w) := by
  unfold processPending
  rw [run_bind, run_service hs]
  dsimp only
  rw [items]
  rfl

theorem run_processPending_next {w : World} {s : Service} {item : Item} (next : w.Next i s item)
    (fuel : Nat) :
    (g.processPending i (fuel + 1)).run w =
      (do if ← g.processTaken i s item then g.processPending i fuel).run (w.taken i item) := by
  obtain ⟨rest, items⟩ := next.items
  exact run_processPending_items next.service next.running items fuel

/-- An event that a running service is sent while nobody drains its queue begins a drain. -/
theorem run_send_begins {w : World} {s : Service} (hs : w.services[i]? = some s)
    (running : s.status = .running) (idle : s.queue.draining = false) {event : Value} {e : Event}
    (he : Event.coerce event = .ok e) :
    (g.send i event).run w = (drained i (g.processPending i g.bound)).run
      (w.prompted i (.event e)) := by
  unfold send
  rw [run_bind, run_service hs]
  dsimp only
  rw [if_pos running, he, run_bind, run_ofExcept_ok]
  dsimp only
  rw [run_accept_idle hs idle]

theorem bound_ofBook (book : Book) {n : Nat} (hn : 0 < n) : 0 < (ofBook book n).bound := by
  cases n with
  | zero => exact hn
  | succ n => exact Nat.succ_pos n

/-- A drain writes only its end after what its body wrote. -/
theorem journal_drained (body : Run Unit) (w : World) :
    ∃ halt, ((drained i body).run w).2.journal = .ended i halt :: (body.run w).2.journal := by
  rw [run_drained]
  generalize body.run w = out
  obtain ⟨halt | u, w'⟩ := out
  · exact ⟨some halt, rfl⟩
  · exact ⟨none, rfl⟩

end Engine

namespace World

open Run

/-- A call leaves all flags as they were, and the queues that nobody drains empty, unless the
service is stopped. -/
theorem Sane.called {g : Engine} {i : Nat} {x : Run Unit} {v : World} (hv : v.Sane) (hg : g.Tame)
    (hx : g.Call i x) {j : Nat} {s : Service} (hs : v.services[j]? = some s) :
    ∃ s', (x.run v).2.services[j]? = some s' ∧
      s'.queue.draining = s.queue.draining ∧
      (s.queue.draining = false → s'.status ≠ .stopped → s'.queue.items = []) := by
  have walk := (hx.tame hg).walk hv
  obtain ⟨s', hs', -⟩ :=
    walk.path.ticks.keeps (K := fun _ _ => True) (fun _ _ _ _ _ _ => trivial) hs trivial
  have flag : s'.queue.draining = s.queue.draining := by
    have same := walk.draining j
    rw [Bool.eq_iff_iff]
    constructor
    · intro draining
      obtain ⟨s₁, hs₁, h⟩ := same.mp ⟨s', hs', draining⟩
      cases hs.symm.trans hs₁
      exact h
    · intro draining
      obtain ⟨s₁, hs₁, h⟩ := same.mpr ⟨s, hs, draining⟩
      cases hs'.symm.trans hs₁
      exact h
  exact ⟨s', hs', flag, fun idle going => (walk.sane hv j s' hs').drained going (flag.trans idle)⟩

/-- A stop empties the queue, unless it is halted by what is no ordinary failure. -/
theorem Sane.stopped_empty {g : Engine} {i : Nat} {v : World} {s : Service} (hv : v.Sane)
    (hg : g.Tame) (hs : v.services[i]? = some s) (running : s.status = .running) :
    ∃ s', ((g.stop i).run v).2.services[i]? = some s' ∧ s'.status = .stopped ∧
      (s'.queue.items = [] ∨ ∃ halt, ((g.stop i).run v).1 = .error halt ∧
        halt.isOrdinary = false) := by
  have step : Step .stop v (v.stopped i s.slot) := .turn hs (.stop running)
  have cancelling := (Engine.tame_finishCancelling (i := i) hg s.slot).walk (step.sane hv)
  obtain ⟨s', hs', stopped⟩ := cancelling.path.stopped (stopped_self hs s.slot) rfl
  have shielded := Engine.shielded_finishCancelling (g := g) (i := i) s.slot (v.stopped i s.slot)
  rw [Engine.run_stop_turned hs running, run_bind]
  generalize (g.finishCancelling i s.slot).run (v.stopped i s.slot) = out at hs' shielded
  obtain ⟨halt | u, u'⟩ := out
  · exact ⟨s', hs', stopped, .inr ⟨halt, rfl, shielded halt rfl⟩⟩
  · dsimp only at hs' ⊢
    refine ⟨{ s' with queue := s'.queue.clear, listeners := [] }, ?_, stopped, .inl rfl⟩
    unfold finishStop
    rw [run_bind, run_update]
    dsimp only
    rw [run_bind, run_service (change_self _ hs')]
    exact change_self _ hs'

/-- A drain that is about to take an item does so. -/
theorem Next.drained {g : Engine} {i : Nat} {w : World} {s : Service} {item : Item}
    (next : w.Next i s item) (hg : g.Tame) (bound : 0 < g.bound) :
    ∃ later, ((drained i (g.processPending i g.bound)).run w).2.journal = later ++ .taken i item ::
      w.journal := by
  obtain ⟨n, hn⟩ : ∃ n, g.bound = n + 1 := ⟨g.bound - 1, by omega⟩
  have rest : (do if ← g.processTaken i s item then g.processPending i n).Goes (.drain i)
      (fun v => ∃ w : World, w.Next i s item ∧ v = w.taken i item) fun _ _ => True := by
    refine .bind ((Engine.goes_processTaken hg).widen Path.ofRound) fun more =>
      .ite (fun _ => ?_) fun _ => ?_
    · exact (Engine.goes_processPending hg n).conseq (fun _ h => h.1) fun _ _ _ => trivial
    · exact .pure fun _ _ => trivial
  obtain ⟨later, written⟩ := (rest _ ⟨w, next, rfl⟩).1.path.journal
  obtain ⟨halt, ended⟩ := Engine.journal_drained (i := i) (g.processPending i g.bound) w
  refine ⟨.ended i halt :: later, ?_⟩
  rw [ended, hn, Engine.run_processPending_next next, ← written]
  rfl

/-- While nobody drains the queue of a running service, an event that is sent is taken at once. -/
theorem AtRest.sent {g : Engine} {i : Nat} {w : World} {s : Service} {event : Value} {e : Event}
    (hw : w.AtRest) (hg : g.Tame) (bound : 0 < g.bound) (hs : w.services[i]? = some s)
    (running : s.status = .running) (he : Event.coerce event = .ok e) :
    ∃ later, ((g.send i event).run w).2.journal =
      later ++ .taken i (.event e) :: .began i :: .accepted i (.event e) :: w.journal := by
  obtain ⟨idle, empty⟩ := hw.quiet hs
  have settled := (hw.sane i s hs).settled running idle
  have started : s.status ≠ .notStarted := by rw [running]; exact nofun
  have begun : Step (.frame i) w (w.prompted i (.event e)) := .prompted (.event e) hs running idle
  have waits : (s.queue.enqueue (.event e)).items = [.event e] := by
    show s.queue.items ++ [.event e] = [.event e]
    rw [empty (by rw [running]; exact nofun)]
    rfl
  have next : (w.prompted i (.event e)).Next i
      { s with queue := (s.queue.enqueue (.event e)).enter } (.event e) :=
    ⟨begun.sane hw.sane, prompted_self (.event e) hs, ⟨rfl, started⟩, running,
      settled.mono begun.points.subset ⟨rfl, rfl, .refl _, rfl⟩, [], waits⟩
  rw [Engine.run_send_begins hs running idle he]
  exact next.drained hg bound

/-- After every command nobody drains a queue, and nothing waits in one but in that of a stopped
service; and so it was after every call but for the drains that were in progress already.  Each
drain began when the one before it had ended, and left its queue empty, unless the service was
stopped and the drain ended like any other.  A stop empties the queue, unless it is halted by
what is no ordinary failure.  And the next event that a running service takes is processed by a
drain of its own. -/
theorem drains_apart (book : Book) (fuel : Nat) (looping : Bool)
    (history : List Command) (i : Nat) :
    let w := (World.start looping).after (.ofBook book fuel) history
    (∀ s, w.services[i]? = some s → s.queue.draining = false ∧
      (s.status ≠ .stopped → s.queue.items = [])) ∧
    (∀ p ∈ w.passed, ∀ s, p.services[i]? = some s → s.Framed i p.journal) ∧
    (∀ (v : World) x, v.Sane → (Engine.ofBook book fuel).Call i x →
      ∀ (j : Nat) s, v.services[j]? = some s →
      ∃ s', (x.run v).2.services[j]? = some s' ∧ s'.queue.draining = s.queue.draining ∧
        (s.queue.draining = false → s'.status ≠ .stopped → s'.queue.items = [])) ∧
    (∀ (v : World) s, v.Sane → v.services[i]? = some s → s.status = .running →
      ∃ s', (((Engine.ofBook book fuel).stop i).run v).2.services[i]? = some s' ∧
      s'.status = .stopped ∧
        (s'.queue.items = [] ∨
          ∃ halt, (((Engine.ofBook book fuel).stop i).run v).1 = .error halt ∧
          halt.isOrdinary = false)) ∧
    ∀ s, w.services[i]? = some s → s.status = .running → ∀ event e, Event.coerce event = .ok e →
    ∀ n, 0 < n →
      ∃ later, (((Engine.ofBook book n).send i event).run w).2.journal =
        later ++ .taken i (.event e) :: .began i :: .accepted i (.event e) :: w.journal := by
  intro w
  have rest : w.AtRest := atRest_after book fuel looping history
  refine ⟨fun s hs => ?_, fun p hp s hs => ?_, fun v x hv hx j s hs => ?_,
    fun v s hv hs running => ?_,
    fun s hs running event e he n hn => ?_⟩
  · exact rest.quiet hs
  · exact holds_of_passed (J := fun i s journal => s.Framed i journal) (fun _ _ _ => .ofFresh)
      (fun _ _ _ _ _ => .beat) hp hs
  · exact hv.called (Engine.tame_ofBook book fuel) hx hs
  · exact hv.stopped_empty (Engine.tame_ofBook book fuel) hs running
  · exact rest.sent (Engine.tame_ofBook book n) (Engine.bound_ofBook book hn) hs running he

end World

/-! ### A stop whose failure is handled

A machine whose action sends an event and stops its service.  The cancel callback of its
invocation is cancelled itself, and the action goes on. -/

namespace Cutoff

def cut : Transition := ⟨.null, [Swing.function 0], .null⟩

def only : Node :=
  ⟨[(.str "GO", .tuple [cut.toValue])], [], [],
    Invocation.toValue ⟨Swing.function 1, [], [], .bool true⟩, []⟩

def machine : Machine := ⟨.str "cutoff", .str "only", .null, [(.str "only", only.toValue)]⟩

def book : Book := Book.ofCodes fun
  | .host 0, _, _ => .ask (.send (.service 0) (.str "LATER")) fun _ =>
    .handle (.stop 0) fun _ => .done (.fresh .null)
  | .host 1, _, _ => .ask .future fun a => .done (.fresh (.tuple [a.toValue, Swing.function 2]))
  | .host 2, _, _ => .fail (.raised .cancelled "")
  | _, _, _ => .done (.fresh .null)

def history : List Command :=
  [.create machine.toValue .standard [] true, .create machine.toValue .standard [] true,
  .start 0 .null, .start 1 .null, .send 0 (.str "GO")]

def world : World := (World.start true).after (.ofBook book 6) history

/-- The first service is stopped and nobody drains its queue, and the event still waits there;
the second is running, and takes the next event that is sent to it at once. -/
theorem item_left_waiting :
    (∃ s, world.services[0]? = some s ∧ s.status = .stopped ∧ s.queue.draining = false ∧
      s.queue.items.length = 1) ∧
    ∃ later, (((Engine.ofBook book 6).send 1 (.str "LATER")).run world).2.journal =
      later ++ .taken 1 (.event ⟨"LATER", []⟩) :: .began 1 :: .accepted 1 (.event ⟨"LATER", []⟩) ::
        world.journal := by
  have left : world.services[0]?.any (fun s => s.status == .stopped && s.queue.items.length == 1) =
      true := by
    decide +kernel
  have other : world.services[1]?.any (fun s => s.status == .running) = true := by decide +kernel
  obtain ⟨s, hs, left⟩ := (Option.any_eq_true _ _).mp left
  obtain ⟨stopped, one⟩ : s.status = .stopped ∧ s.queue.items.length = 1 := by simpa using left
  obtain ⟨s', hs', running⟩ := (Option.any_eq_true _ _).mp other
  have running : s'.status = .running := by simpa using running
  have coerced : Event.coerce (.str "LATER") = .ok ⟨"LATER", []⟩ := rfl
  unfold world at hs hs' ⊢
  have idle : s.queue.draining = false := ((World.drains_apart book 6 true history 0).1 s hs).1
  obtain ⟨-, -, -, -, sent⟩ := World.drains_apart book 6 true history 1
  have taken := sent s' hs' running (.str "LATER") _ coerced 6 (by decide)
  exact ⟨⟨s, hs, stopped, idle, one⟩, taken⟩

end Cutoff

end FlatMachine
