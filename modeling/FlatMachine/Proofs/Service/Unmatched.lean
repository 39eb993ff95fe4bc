import FlatMachine.Proofs.Value.Same
import FlatMachine.Proofs.World.Tally
import FlatMachine.Proofs.Service.Drains

/-! # Events that match nothing

An event that finds no candidate leaves no trace, provided that guards only compute: a history
that lacks some of the events that found none leads to the same services, and what was called or
told is the same in the same order (**`World.unmatched_invisible`**).

* **`Prog.Computes`**: a program asks for nothing but what services show, and the results of
  callables that do no more.
* **`World.Misses`**: an event that is sent now finds no candidate when it is processed.
* **`World.Thins`**: one history is another without some events that found none, each in the
  world in which it was sent. -/

namespace FlatMachine

/-- The effect only asks what a service shows. -/
def Effect.looks : Effect → Bool
  | isActive .. | state _ | status _ => true
  | _ => false

/-- The program computes a result, or fails.  As there is no pending context, what is done with
one does not matter. -/
inductive Prog.Computes (book : Book) : Prog Object → Prop where
  | done (o : Object) : Computes book (.done o)
  | fail (f : Failure) : Computes book (.fail f)
  | pending (next : Context → Prog Object) : Computes book (.pending next)
  | write (o : Object) (next : Prog Object) : Computes book (.write o next)
  | looks {r : Effect} {next : r.Reply → Prog Object} (looks : r.looks = true)
      (rest : ∀ x, Computes book (next x)) :
      Computes book (.ask r next)
  | call {f : Value} {args : List Object} {next : Object → Prog Object}
      (called : Computes book (book f args))
      (rest : ∀ o, Computes book (next o)) : Computes book (.ask (.call f args) next)
  | handleLooks {r : Effect} {next : Except Failure r.Reply → Prog Object} (looks : r.looks = true)
      (rest : ∀ x, Computes book (next x)) : Computes book (.handle r next)
  | handleCall {f : Value} {args : List Object} {next : Except Failure Object → Prog Object}
      (called : Computes book (book f args))
      (rest : ∀ x, Computes book (next x)) : Computes book (.handle (.call f args) next)

/-- The entry tells of more than of events being taken from the queue and of candidates being
weighed. -/
def Entry.isTold : Entry → Bool
  | called _ role .. => !role.judges && role != .nested
  | accepted .. | taken .. | began _ | ended .. | faulted .. | record .. => false
  | _ => true

/-- The world in which an event is processed that is sent while nobody drains the queue. -/
def World.offered (w : World) (i : Nat) (e : Event) : World :=
  (w.entered i (fun s => { s with queue := s.queue.enqueue (.event e) })
    (.accepted i (.event e))).taken i (.event e)

/-- The service is running, and an event that it is sent now finds no candidate. -/
def World.Misses (w : World) (g : Engine) (i : Nat) (event : Value) : Prop :=
  ∃ s e, w.services[i]? = some s ∧ s.status = .running ∧ Event.coerce event = .ok e ∧
    ((g.choose i e).run (w.offered i e)).1 = .ok none

/-- From the world on, the second history is the first one without some events that found no
candidate. -/
inductive World.Thins (g : Engine) : World → List Command → List Command → Prop where
  | nil (w : World) : Thins g w [] []
  | kept {w : World} {history thinned : List Command} (c : Command)
      (rest : Thins g ((g.obey c).run w).2 history thinned) :
      Thins g w (c :: history) (c :: thinned)
  | missed {w : World} {history thinned : List Command} {i : Nat} {event : Value}
      (missed : w.Misses g i event) (rest : Thins g ((g.send i event).run w).2 history thinned) :
      Thins g w (.send i event :: history) thinned

namespace Engine

open Run

variable {book : Book} {g : Engine} {i : Nat}

/-! ### Weighing candidates -/

/-- The world is as it was, as far as is told; or something was called about candidates that does
more than compute. -/
def watching (book : Book) (v : World) : Bond where
  ties w w' := w = w' ∧ v.Tallies Entry.isTold (fun _ => Eq) w
  spent journal := ∃ owner role f args, .called owner role f args ∈ journal ∧ role.judges = true ∧
    ¬ (book f args).Computes book
  rise := by
    rintro e journal ⟨owner, role, f, args, mem, unclear⟩
    exact ⟨owner, role, f, args, List.mem_cons_of_mem e mem, unclear⟩

theorem watching_same {v w w' : World} (i : Nat) (tied : (watching book v).ties w w') :
    w.services[i]? = w'.services[i]? :=
  congrArg (·.services[i]?) tied.1

theorem watching_note {v : World} {e : Entry} (he : e.isTold = false) :
    Mirrors (watching book v) (note e) := by
  refine Twins.note ?_
  rintro w _ ⟨rfl, tallies⟩
  exact ⟨rfl, tallies.silent he⟩

/-- What a service shows is the same. -/
theorem mirrors_looks {v : World} {r : Effect} (looks : r.looks = true) {fuel : Nat}
    {owner : Owner} :
    Mirrors (watching book v) ((ofBook book fuel).answer owner r) := by
  cases r with
  | isActive i t => exact Bond.peek (fun _ _ => watching_same i) fun _ => Echoes.pure
  | state i => exact Bond.peek (fun _ _ => watching_same i) fun _ => Echoes.pure
  | status i => exact Bond.peek (fun _ _ => watching_same i) fun _ => Echoes.pure
  | _ => cases looks

/-- What is called does what its program does. -/
theorem mirrors_nested {v : World} {f : Value} {args : List Object} {fuel : Nat} {owner : Owner}
    (called : ∀ fuel,
      Mirrors (watching book v) ((ofBook book fuel).exec owner (book f args) none)) :
    Mirrors (watching book v) ((ofBook book fuel).answer owner (.call f args)) := by
  refine .bind (watching_note rfl) fun _ => .bind ?_ fun _ => .pure
  cases fuel with
  | zero => exact .throw
  | succ fuel => exact called fuel

/-- A program that computes does nothing but look, so it runs the same in both worlds. -/
theorem mirrors_computes {v : World} {p : Prog Object} (h : p.Computes book) (fuel : Nat)
    (owner : Owner) :
    Mirrors (watching book v) ((ofBook book fuel).exec owner p none) := by
  induction h generalizing fuel owner with
  | done o => exact .pure
  | fail f => exact .fail
  | pending next => exact .fail
  | write o next => exact .fail
  | looks looks rest ih => exact .bind (mirrors_looks looks) fun x => ih x fuel owner
  | call called rest ihc ihr =>
    exact .bind (mirrors_nested fun fuel => ihc fuel owner) fun o => ihr o fuel owner
  | handleLooks looks rest ih =>
    exact .bind (Echoes.attempt (mirrors_looks looks)) fun x => ih x fuel owner
  | handleCall called rest ihc ihr =>
    exact .bind (Echoes.attempt (mirrors_nested fun fuel => ihc fuel owner)) fun x =>
      ihr x fuel owner

theorem weighs_watching (book : Book) (v : World) (fuel i : Nat) :
    (ofBook book fuel).Weighs (watching book v) i where
  found := Bond.finds_of_same fun _ _ => watching_same i
  faulted := by
    rintro w _ f ⟨rfl, tallies⟩
    exact ⟨rfl, tallies.silent rfl⟩
  judged := by
    intro role f args judges
    by_cases computes : (book f args).Computes book
    · refine .bind (watching_note ?_) fun _ => .bind ?_ fun _ => .pure
      · show (!role.judges && role != .nested) = false
        rw [judges]
        rfl
      · cases fuel with
        | zero => exact .throw
        | succ fuel => exact mirrors_computes computes fuel _
    · refine Twins.ended (fun _ _ _ => ⟨_, role, f, args, List.mem_cons_self, judges, computes⟩) ?_
      exact (grows_call book fuel _ _ _ _).bind fun _ => Mirrors.grows (B := Bond.void) .pure

/-! ### An event that finds nothing -/

/-- Nothing comes of an event that finds no candidate. -/
theorem run_processTaken_unmatched (before : Service) {s : Service} {e : Event} {v v' : World}
    (chosen : (g.choose i e).run v = (.ok none, v')) (hs : v'.services[i]? = some s)
    (running : s.status = .running) (name : s.stateName = before.stateName)
    (context : s.context = before.context) :
    (g.processTaken i before (.event e)).run v = (.ok true, v'.noted
      (.record .debug
        ("No transition for " ++ Text.quote e.type ++ " in state " ++ s.stateName.shown))) := by
  unfold processTaken
  show ExceptT.run (g.processEvent i e >>= _) v = _
  rw [run_bind, processEvent_eq, run_bind, chosen]
  dsimp only
  rw [run_bind, run_service hs]
  dsimp only [Run.record]
  rw [run_note]
  dsimp only
  rw [run_bind, run_service (by rw [World.noted_services]; exact hs)]
  dsimp only
  rw [if_pos running, name, context, Value.same_self, if_neg (by simp)]
  rfl

/-- Where it was all that waited, the drain is done, for want of fuel or not. -/
theorem run_processPending_unmatched {s : Service} {e : Event} {v v' : World}
    (hs : v.services[i]? = some s) (running : s.status = .running)
    (items : s.queue.items = [.event e])
    (chosen : (g.choose i e).run (v.taken i (.event e)) = (.ok none, v'))
    (still : v'.services = (v.taken i (.event e)).services) (fuel : Nat) :
    ∃ r text, (g.processPending i (fuel + 1)).run v = (r, v'.noted (.record .debug text)) := by
  have hs' := World.taken_self (.event e) hs
  rw [← still] at hs'
  have nothing : s.queue.dequeue.2.items = [] := by
    unfold Queue.dequeue
    rw [items]
  rw [run_processPending_items hs running items, run_bind,
    run_processTaken_unmatched s chosen hs' running rfl rfl]
  dsimp only
  rw [if_pos rfl]
  cases fuel with
  | zero => exact ⟨.error .exhausted, _, rfl⟩
  | succ fuel =>
    exact ⟨.ok (), _,
      run_processPending_empty (by rw [World.noted_services]; exact hs') nothing fuel⟩

/-- What is written while candidates are weighed is still there at the end of the drain. -/
theorem journal_choose (book : Book) {s : Service} {e : Event} {v : World}
    (hs : v.services[i]? = some s) (running : s.status = .running)
    (items : s.queue.items = [.event e]) (fuel n : Nat) :
    (((ofBook book fuel).choose i e).run (v.taken i (.event e))).2.journal <:+
      (((ofBook book fuel).processPending i (n + 1)).run v).2.journal := by
  have quiet := wholly_void book fuel i
  rw [run_processPending_items hs running items]
  refine World.Precedes.journal
    (.trans ?_ (Grows.through (x := (ofBook book fuel).processTaken i s (.event e))
      (fun more => ?_) _))
  · refine .trans ?_ (Grows.through (x := (ofBook book fuel).processEvent i e) (fun _ => ?_) _)
    · rw [processEvent_eq]
      refine Grows.through (fun found => ?_) _
      split
      · exact (quiet.reflects.apply _ e e).grows
      · exact (quiet.peek fun _ => quiet.reflects.record).grows
    · refine Mirrors.grows (quiet.peek fun after => .ite (fun _ => ?_) fun _ => .pure)
      exact .ite (fun _ => .bind quiet.reflects.publish fun _ => .pure) fun _ => .pure
  · exact Mirrors.grows (.ite (fun _ => quiet.processPending n) fun _ => .pure)

end Engine

namespace World

open Run

variable {book : Book} {fuel i : Nat} {w : World} {event : Value}

/-- As a drain begins for an event, only the queue is not as it was. -/
theorem Tallies.opened (w : World) (i : Nat) (e : Event) :
    (w.change i fun s => { s with queue := (s.queue.enqueue (.event e)).enter }).Tallies
      Entry.isTold (fun _ => Eq) (w.prompted i (.event e)) := by
  have accepted :=
    ((Tallies.refl Entry.isTold w).also i fun s =>
      { s with queue := s.queue.enqueue (.event e) }).silent
    (e := .accepted i (.event e)) rfl
  have begun :=
    (accepted.also i fun s => { s with queue := s.queue.enter }).silent (e := .began i) rfl
  rwa [change_change] at begun

/-- As an event is taken in a drain of its own, only the queue is not as it was. -/
theorem Tallies.offered (w : World) (i : Nat) (e : Event) :
    (w.change i fun s => { s with queue := (s.queue.enqueue (.event e)).enter.dequeue.2 }).Tallies
      Entry.isTold (fun _ => Eq) (w.offered i e) := by
  have taken :=
    ((Tallies.opened w i e).also i fun s => { s with queue := s.queue.dequeue.2 }).silent
    (e := .taken i (.event e)) rfl
  rwa [change_change] at taken

/-- If only the queue is not as it was, and what was done to it comes to nothing as the drain
ends, then all is as it was. -/
theorem Tallies.over {s : Service} {f : Service → Service} {v : World} {halt : Option Halt}
    (h : (w.change i f).Tallies Entry.isTold (fun _ => Eq) v) (hs : w.services[i]? = some s)
    (only : { f s with queue := s.queue } = s) (back : (f s).queue.leave halt.isSome = s.queue) :
    w.Tallies Entry.isTold (fun _ => Eq) (v.left i halt) := by
  have ended := (h.also i fun s => { s with queue := s.queue.leave halt.isSome }).silent
    (e := .ended i halt) rfl
  have same : { f s with queue := (f s).queue.leave halt.isSome } = s := by rw [back, only]
  rwa [change_change, change_id hs same] at ended

/-- The event leaves the world as it was, as far as is told. -/
theorem Misses.tallies (missed : w.Misses (.ofBook book fuel) i event) (rest : w.AtRest)
    (guards : ∀ owner role f args,
      .called owner role f args ∈ (((Engine.ofBook book fuel).send i event).run w).2.journal →
      role.judges = true → (book f args).Computes book) :
    w.Tallies Entry.isTold (fun _ => Eq) (((Engine.ofBook book fuel).send i event).run w).2 := by
  obtain ⟨s, e, hs, running, he, chosen⟩ := missed
  have idle := (rest.quiet hs).1
  have queue : s.queue = ⟨[], false⟩ := rest.empty hs running
  have run := (Engine.run_send_begins (g := .ofBook book fuel) hs running idle he).trans
    (run_drained _ _)
  cases hb : (Engine.ofBook book fuel).bound with
  | zero =>
    rw [hb] at run
    rw [run]
    exact (Tallies.opened w i e).over hs rfl (by rw [queue]; rfl)
  | succ n =>
    have hs₁ := prompted_self (.event e) hs
    have items : (s.queue.enqueue (.event e)).enter.items = [.event e] := by rw [queue]; rfl
    have weighed :=
      ((Engine.weighs_watching book (w.offered i e) fuel i).choose e).either _ _ ⟨rfl, .refl _ _⟩
    have written := Engine.journal_choose book hs₁ running items fuel n
    rw [hb] at run
    cases hc : ((Engine.ofBook book fuel).choose i e).run (w.offered i e) with
    | mk r v =>
    rw [hc] at chosen weighed
    have hv : ((Engine.ofBook book fuel).choose i e).run
      ((w.prompted i (.event e)).taken i (.event e)) = (r, v) := hc
    rw [hv] at written
    cases chosen
    obtain ⟨owner, role, f, args, mem, judges, unclear⟩ | alike := weighed
    · refine absurd (guards owner role f args ?_ judges) unclear
      rw [run]
      generalize ((Engine.ofBook book fuel).processPending i (n + 1)).run _ = out at written
      obtain ⟨halt | u, w'⟩ := out <;> exact List.mem_cons_of_mem _ (written.subset mem)
    · cases alike with
      | ok holds =>
      obtain ⟨r, text, done⟩ := Engine.run_processPending_unmatched hs₁ running items hv
        (Tallies.same holds.2).symm n
      have reported := ((Tallies.offered w i e).trans holds.2).silent (e := .record .debug text) rfl
      rw [run, done]
      obtain halt | u := r
      · exact reported.over hs rfl (by rw [queue]; rfl)
      · exact reported.over hs rfl (by rw [queue]; rfl)

/-- Histories that differ in events that found nothing lead to the same, as far as is told. -/
theorem Thins.tallies {v : World} {history thinned : List Command}
    (thins : Thins (.ofBook book fuel) w history thinned) (rest : w.AtRest)
    (tallies : w.Tallies Entry.isTold (fun _ => Eq) v)
    (guards : ∀ owner role f args,
      .called owner role f args ∈ (w.after (.ofBook book fuel) history).journal →
      role.judges = true → (book f args).Computes book) :
    (w.after (.ofBook book fuel) history).Tallies Entry.isTold (fun _ => Eq)
      (v.after (.ofBook book fuel) thinned) := by
  induction thins generalizing v with
  | nil w => exact tallies
  | @kept w history thinned c thins ih =>
    have open_ := Bond.tallying_open Entry.isTold
    have obeyed := Mirrors.run (open_.obey (open_.calls book fuel) c) tallies id
    exact ih ((Engine.restful_obey (Engine.tame_ofBook book fuel) c w rest).1.atRest rest)
      obeyed.2 guards
  | @missed w history thinned i event missed thins ih =>
    have written :=
      World.grows_after book fuel history (((Engine.ofBook book fuel).send i event).run w).2
    have same := missed.tallies rest fun owner role f args mem =>
      guards owner role f args (written.journal.subset mem)
    refine ih ?_ (same.symm.trans tallies) guards
    exact (Engine.restful_obey (Engine.tame_ofBook book fuel) (.send i event) w rest).1.atRest rest

/-- A history from which some events are left out that found no candidate when they were sent
leads to the same services, with the same states, contexts, slots, snapshots and listeners, and
the same was called and told in the same order, provided that what is called about candidates
only computes. -/
theorem unmatched_invisible (book : Book) (fuel : Nat) (looping : Bool)
    {history thinned : List Command}
    (thins : Thins (.ofBook book fuel) (World.start looping) history thinned)
    (guards : ∀ owner role f args, .called owner role f args ∈
      ((World.start looping).after (.ofBook book fuel) history).journal → role.judges = true →
        (book f args).Computes book) :
    let w := (World.start looping).after (.ofBook book fuel) history
    let v := (World.start looping).after (.ofBook book fuel) thinned
    v.services = w.services ∧ v.journal.filter Entry.isTold = w.journal.filter Entry.isTold := by
  have tallies := thins.tallies (atRest_start looping) (.refl _ _) guards
  exact ⟨tallies.same.symm, tallies.told⟩

end World

/-! ### A swing that is pushed in vain -/

namespace Swing

/-- A swing that can be pushed when it is here, but for a guard that holds for nobody. -/
def latched : Machine := { machine with
  states := [(.str "here", Node.toValue { here with
      on := (.str "PUSH", .tuple [Transition.toValue ⟨.str "there", [], function 3⟩]) :: here.on }),
    (.str "there", there.toValue), (.str "down", down.toValue)] }

/-- The latched swing is pushed in vain while its invocation is pending, and told to go where it is
already. -/
def pushing : List Command :=
  [.create latched.toValue .standard [] true, .start 0 .null, .send 0 (.str "PUSH"),
  .send 0 (.str "GO"), .send 0 (.str "GO"), .settle 0 (.value .null), .turn, .send 0 (.str "BACK")]

def unpushed : List Command := [.create latched.toValue .standard [] true, .start 0 .null,
  .send 0 (.str "GO"), .settle 0 (.value .null), .turn, .send 0 (.str "BACK")]

/-- The swing misses the event, as can be seen by trying. -/
theorem misses_of_tried {w : World} {g : Engine} {event : Value} {e : Event}
    (he : Event.coerce event = .ok e)
    (running : w.services[0]?.any (fun s => s.status == .running) = true)
    (tried : (match ((g.choose 0 e).run (w.offered 0 e)).1 with | .ok none => true | _ => false) =
      true) :
    w.Misses g 0 event := by
  obtain ⟨s, hs, running⟩ := (Option.any_eq_true _ _).mp running
  refine ⟨s, e, hs, by simpa using running, he, ?_⟩
  split at tried
  · assumption
  · cases tried

theorem unpushed_thins : World.Thins (.ofBook book 4) (World.start true) pushing unpushed := by
  refine .kept _
    (.kept _ (.missed ?_ (.kept _ (.missed ?_ (.kept _ (.kept _ (.kept _ (.nil _))))))))
  · exact misses_of_tried (e := ⟨"PUSH", []⟩) rfl (by decide +kernel) (by decide +kernel)
  · exact misses_of_tried (e := ⟨"GO", []⟩) rfl (by decide +kernel) (by decide +kernel)

/-- The guard that holds for nobody. -/
def isLatch : Value → Bool
  | .function .own none (.host 3) [] => true
  | _ => false

/-- The guard that holds for nobody is the only one that is called, and it computes. -/
theorem latch_computes {owner : Owner} {role : Role} {f : Value} {args : List Object}
    (called : .called owner role f args ∈
      ((World.start true).after (.ofBook book 4) pushing).journal)
    (judges : role.judges = true) : (book f args).Computes book := by
  have latches : ((World.start true).after (.ofBook book 4) pushing).journal.all
      (Entry.callsOnly fun role f => !role.judges || isLatch f) = true := by decide +kernel
  have latch : (!role.judges || isLatch f) = true := List.all_eq_true.mp latches _ called
  rw [judges] at latch
  unfold isLatch at latch
  split at latch
  · exact .done _
  · cases latch

/-- The pushes are not to be seen in what became of it. -/
theorem pushes_invisible :
    World.Thins (.ofBook book 4) (World.start true) pushing unpushed ∧
    let w := (World.start true).after (.ofBook book 4) pushing
    let v := (World.start true).after (.ofBook book 4) unpushed
    v.services = w.services ∧ v.journal.filter Entry.isTold = w.journal.filter Entry.isTold :=
  ⟨unpushed_thins, World.unmatched_invisible book 4 true unpushed_thins fun _ _ _ _ =>
    latch_computes⟩

end Swing
end FlatMachine
