import FlatMachine.Proofs.Service.Drains
import FlatMachine.Proofs.Service.RunToCompletion

/-! # Items are processed one after the other

Of the items that a service accepts, those that it has taken come first, in the order in which
they were accepted, and the others wait in its queue (**`Service.Ordered`**).  A drain that is
halted drops what waits, and so does a stop; but for that, nothing waits after a command, so
every item was processed once.

What is taken is carried out before the next item is (**`World.CarriesOut`**): what is sent
meanwhile, whoever sends it, is left to the drain in progress.  **`World.items_in_order`** says
all of this of whole histories. -/

namespace FlatMachine

/-! ### Items in the journal -/

namespace Entry

/-- The item that the service accepted. -/
def accepted? (i : Nat) : Entry → Option Item
  | accepted j item => if j = i then some item else none
  | _ => none

/-- The item that the service took. -/
def taken? (i : Nat) : Entry → Option Item
  | taken j item => if j = i then some item else none
  | _ => none

/-- A drain was halted. -/
def isHalt : Entry → Bool
  | ended _ (some _) => true
  | _ => false

variable {i : Nat} {e : Entry}

theorem itemless_of_course? (h : e.course? ≠ some i) :
    e.accepted? i = none ∧ e.taken? i = none := by
  constructor
  · cases e <;> first | rfl | exact if_neg fun hij => h (congrArg some hij)
  · cases e <;> first | rfl | exact if_neg fun hij => h (congrArg some hij)

end Entry

/-- The items that the service accepted, in their order. -/
def acceptedItems (i : Nat) (journal : List Entry) : List Item :=
  (journal.filterMap (Entry.accepted? i)).reverse

/-- The items that the service took, in their order. -/
def takenItems (i : Nat) (journal : List Entry) : List Item :=
  (journal.filterMap (Entry.taken? i)).reverse

/-- No drain of the service was halted. -/
def Unhalted (i : Nat) (journal : List Entry) : Prop := ∀ halt, .ended i (some halt) ∉ journal

section Items

variable {i : Nat} {e : Entry} {journal : List Entry}

theorem acceptedItems_cons :
    acceptedItems i (e :: journal) = acceptedItems i journal ++ (e.accepted? i).toList := by
  unfold acceptedItems
  cases h : e.accepted? i with
  | none => simp [h]
  | some item => simp [h]

theorem takenItems_cons :
    takenItems i (e :: journal) = takenItems i journal ++ (e.taken? i).toList := by
  unfold takenItems
  cases h : e.taken? i with
  | none => simp [h]
  | some item => simp [h]

theorem Unhalted.of_append {entries : List Entry} (h : Unhalted i (entries ++ journal)) :
    Unhalted i journal :=
  fun halt hmem => h halt (List.mem_append_right _ hmem)

theorem unhalted_of_all {i : Nat} {journal : List Entry}
    (h : journal.all (fun e => !e.isHalt) = true) : Unhalted i journal :=
  fun halt ended => by
    have := List.all_eq_true.mp h _ ended
    cases this

theorem Unhalted.tail {e : Entry} (h : Unhalted i (e :: journal)) : Unhalted i journal :=
  fun halt hmem => h halt (List.mem_cons_of_mem _ hmem)

end Items

/-! ### The order of the queue -/

/-- Unless a drain was halted, the items that were accepted are those that were taken and then
those that wait; once the service is stopped, those that it dropped. -/
def Service.Ordered (i : Nat) (s : Service) (journal : List Entry) : Prop :=
  Unhalted i journal → ∃ rest, acceptedItems i journal = takenItems i journal ++ rest ∧
    (s.status = .stopped ∨ rest = s.queue.items)

namespace Service

variable {i : Nat} {s s' : Service} {journal : List Entry}

theorem ordered_of_fresh (fresh : s.Fresh) (silent : ∀ e ∈ journal, e.service? ≠ some i) :
    s.Ordered i journal := by
  have itemless : ∀ e ∈ journal, e.accepted? i = none ∧ e.taken? i = none := fun e he =>
    Entry.itemless_of_course? (mt Entry.service?_of_course? (silent e he))
  have accepted : acceptedItems i journal = [] := by
    unfold acceptedItems
    rw [List.reverse_eq_nil_iff, List.filterMap_eq_nil_iff]
    exact fun e he => (itemless e he).1
  have taken : takenItems i journal = [] := by
    unfold takenItems
    rw [List.reverse_eq_nil_iff, List.filterMap_eq_nil_iff]
    exact fun e he => (itemless e he).2
  intro _
  refine ⟨[], ?_, Or.inr ?_⟩
  · rw [accepted, taken]
    rfl
  · rw [fresh.queue]
    rfl

theorem Ordered.waiting (h : s.Ordered i journal) (unhalted : Unhalted i journal)
    (goes : s.status ≠ .stopped) :
    acceptedItems i journal = takenItems i journal ++ s.queue.items := by
  obtain ⟨items, order, waiting⟩ := h unhalted
  rw [order, waiting.resolve_left goes]

/-- Entries that tell of no item accepted or taken leave the order of the items as it is. -/
theorem Ordered.aside {e : Option Entry} (h : s.Ordered i journal)
    (itemless : ∀ x ∈ e, x.accepted? i = none ∧ x.taken? i = none)
    (rest : ∀ items, s.status = .stopped ∨ items = s.queue.items → s'.status = .stopped ∨
      items = s'.queue.items) :
    s'.Ordered i (e.toList ++ journal) := by
  intro unhalted
  obtain ⟨items, order, waiting⟩ := h unhalted.of_append
  refine ⟨items, ?_, rest items waiting⟩
  cases e with
  | none => exact order
  | some x =>
    obtain ⟨unaccepted, untaken⟩ := itemless x rfl
    show acceptedItems i (x :: journal) = takenItems i (x :: journal) ++ items
    rw [acceptedItems_cons, takenItems_cons, unaccepted, untaken]
    simpa using order

theorem Ordered.beat {e : Option Entry} (b : Beat i s s' e) (h : s.Ordered i journal) :
    s'.Ordered i (e.toList ++ journal) := by
  cases b with
  | pass queue status _ passing =>
    refine h.aside (fun x hx => Entry.itemless_of_course? (passing x hx).course) fun items => ?_
    rw [queue, status]
    exact id
  | work _ queue status _ course =>
    refine h.aside (fun x hx => Entry.itemless_of_course? (course x hx)) fun items => ?_
    rw [queue, status]
    exact id
  | start notStarted running queue _ passing =>
    refine h.aside (fun x hx => Entry.itemless_of_course? (passing x hx).course) fun items => ?_
    rw [queue, notStarted]
    rintro (stopped | waiting)
    · cases stopped
    · exact Or.inr waiting
  | stop _ stopped _ _ passing =>
    exact h.aside (fun x hx => Entry.itemless_of_course? (passing x hx).course) fun _ _ =>
      Or.inl stopped
  | drop stopped => exact h.aside (fun _ hx => nomatch hx) fun _ _ => Or.inl stopped
  | accept item running =>
    intro unhalted
    have order := h.waiting unhalted.of_append (by rw [running]; exact nofun)
    refine ⟨s.queue.items ++ [item], ?_, Or.inr rfl⟩
    show acceptedItems i (.accepted i item :: journal) =
      takenItems i (.accepted i item :: journal) ++ _
    rw [acceptedItems_cons, takenItems_cons, order]
    simp [Entry.accepted?, Entry.taken?]
  | enter =>
    refine h.aside (fun x hx => ?_) fun _ => id
    cases hx
    exact ⟨rfl, rfl⟩
  | leave halt =>
    cases halt with
    | some halt => exact fun unhalted => absurd List.mem_cons_self (unhalted halt)
    | none =>
      refine h.aside (fun x hx => ?_) fun _ => id
      cases hx
      exact ⟨rfl, rfl⟩
  | @take item rest _ running items =>
    intro unhalted
    have order := h.waiting unhalted.of_append (by rw [running]; exact nofun)
    have dequeued : s.queue.dequeue.2.items = rest := by
      unfold Queue.dequeue
      rw [items]
    refine ⟨rest, ?_, Or.inr dequeued.symm⟩
    show acceptedItems i (.taken i item :: journal) =
      takenItems i (.taken i item :: journal) ++ rest
    rw [acceptedItems_cons, takenItems_cons, order, items]
    simp [Entry.accepted?, Entry.taken?]

end Service

/-! ### What is sent -/

namespace World

/-- An item waits for the drain in progress. -/
def enqueued (w : World) (i : Nat) (item : Item) : World :=
  (w.change i fun s => { s with queue := s.queue.enqueue item }).noted (.accepted i item)

end World

namespace Engine

open Run

variable {g : Engine} {i : Nat} {w : World} {s : Service}

/-- A service that is not running takes no event. -/
theorem run_send_idle (hs : w.services[i]? = some s) (other : s.status ≠ .running) (event : Value) :
    (g.send i event).run w = (.ok (), w) := by
  unfold send
  rw [run_bind, run_service hs]
  dsimp only
  rw [if_neg other]
  rfl

/-- An event that is sent during a drain waits until the drain takes it. -/
theorem run_send_busy (hs : w.services[i]? = some s) (running : s.status = .running)
    (busy : s.queue.draining = true) {event : Value} {e : Event} (he : Event.coerce event = .ok e) :
    (g.send i event).run w = (.ok (), w.enqueued i (.event e)) := by
  unfold send
  rw [run_bind, run_service hs]
  dsimp only
  rw [if_pos running, he, run_bind, run_ofExcept_ok]
  dsimp only
  rw [run_accept_busy hs busy]
  rfl

/-- A service that is not running takes no outcome. -/
theorem run_deliver_idle (hs : w.services[i]? = some s) (other : s.status ≠ .running)
    (t : Token) (e : Event) (a : AwaitableId) (settlement : Settlement) :
    (g.deliver ⟨i, t, e⟩ a settlement).run w = (.ok (), w) := by
  unfold deliver
  rw [run_bind, run_service hs]
  dsimp only
  rw [if_neg other]
  rfl

/-- An outcome that comes during a drain waits until the drain takes it. -/
theorem run_deliver_busy (hs : w.services[i]? = some s) (running : s.status = .running)
    (busy : s.queue.draining = true) (t : Token) (e : Event) (a : AwaitableId)
    (settlement : Settlement) :
    (g.deliver ⟨i, t, e⟩ a settlement).run w =
      (.ok (), w.enqueued i (.outcome (.ofSettlement t e a settlement))) := by
  unfold deliver
  rw [run_bind, run_service hs]
  dsimp only
  rw [if_pos running, run_accept_busy hs busy]
  rfl

end Engine

namespace World

variable {book : Book} {fuel : Nat} {looping : Bool} {history : List Command}

/-- Nothing is taken before the service published, or a drain of it was halted. -/
theorem announced_of_taken {p : Point} {earlier : List Point} {i : Nat} {item : Item}
    (hp : p :: earlier <:+ ((World.start looping).after (.ofBook book fuel) history).points)
    (head : p.journal.head? = some (.taken i item))
    (unhalted : Unhalted i ((World.start looping).after (.ofBook book fuel) history).journal) :
    ∃ q ∈ earlier, ∃ sn, q.journal.head? = some (.published i sn) := by
  obtain ⟨u, s, next, -, rfl⟩ := next_of_taken hp head
  obtain ⟨q, hq, announces⟩ := next.settled.announced
  rcases announces with ⟨sn, published⟩ | ⟨halt, ended⟩
  · exact ⟨q, hq, sn, published⟩
  · have passed :=
      journal_of_passed (List.mem_cons_of_mem _ (hp.subset (List.mem_cons_of_mem p hq)))
    exact absurd (passed.subset (List.mem_of_mem_head? ended)) (unhalted halt)

/-- While no drain of a service is halted, the items that it accepts are taken one after the
other in their order, and after every command all of them were taken, unless the service is
stopped.  Each is carried out before the next is taken, and the first one after a publication;
what is sent during a drain waits, and what is sent to a service that is not running is ignored. -/
theorem items_in_order (book : Book) (fuel : Nat) (looping : Bool)
    (history : List Command) (i : Nat) :
    let w := (World.start looping).after (.ofBook book fuel) history
    (∀ p ∈ w.passed, ∀ s, p.services[i]? = some s → s.Ordered i p.journal ∧
      (s.queue.draining = true ↔ InDrain i p.journal)) ∧
    (∀ s, w.services[i]? = some s → s.status ≠ .stopped → Unhalted i w.journal →
      acceptedItems i w.journal = takenItems i w.journal) ∧
    (∀ p earlier item, p :: earlier <:+ w.points → p.journal.head? = some (.taken i item) →
      (Unhalted i w.journal → ∃ q ∈ earlier, ∃ sn, q.journal.head? = some (.published i sn)) ∧
      ∃ (u : World) (s : Service), p = (u.taken i item).now ∧ earlier = u.points ∧
      u.services[i]? = some s ∧
        s.status = .running ∧ s.queue.dequeue.1 = some item ∧ CarriedOut book i w.points s item u) ∧
    ∀ (g : Engine) (v : World) s, v.services[i]? = some s →
      (s.status ≠ .running → (∀ event, (g.send i event).run v = (.ok (), v)) ∧
        ∀ t e a settlement, (g.deliver ⟨i, t, e⟩ a settlement).run v = (.ok (), v)) ∧
      (s.status = .running → s.queue.draining = true →
        (∀ event e, Event.coerce event = .ok e →
          (g.send i event).run v = (.ok (), v.enqueued i (.event e))) ∧
        ∀ t e a settlement, (g.deliver ⟨i, t, e⟩ a settlement).run v =
          (.ok (), v.enqueued i (.outcome (.ofSettlement t e a settlement)))) := by
  intro w
  have rest : w.AtRest := atRest_after book fuel looping history
  have ordered : ∀ p ∈ w.passed, ∀ s, p.services[i]? = some s → s.Ordered i p.journal :=
    fun p hp s hs =>
      holds_of_passed (J := fun i s journal => s.Ordered i journal)
        (fun _ _ _ => Service.ordered_of_fresh) (fun _ _ _ _ _ => Service.Ordered.beat) hp hs
  refine ⟨fun p hp s hs => ⟨ordered p hp s hs, ?_⟩, fun s hs goes unhalted => ?_,
    fun p earlier item hp head => ?_,
    fun g v s hs => ⟨fun other => ?_, fun running busy => ?_⟩⟩
  · have framed :=
      holds_of_passed (J := fun i s journal => s.Framed i journal) (fun _ _ _ => .ofFresh)
      (fun _ _ _ _ _ => .beat) hp hs
    exact framed.flag
  · have order := (ordered w.now List.mem_cons_self s hs).waiting unhalted goes
    rw [(rest.quiet hs).2 goes, List.append_nil] at order
    exact order
  · exact ⟨announced_of_taken hp head,
      carriesOut_after book fuel looping history i p earlier item hp head⟩
  · exact ⟨Engine.run_send_idle hs other, Engine.run_deliver_idle hs other⟩
  · exact ⟨fun event e he => Engine.run_send_busy hs running busy he,
      Engine.run_deliver_busy hs running busy⟩

end World

/-! ### A relay

A machine to look at: it sends itself an event as it starts, and two more as it processes that
one. -/

namespace Relay

def go : Transition := ⟨.str "second", [Swing.function 1], .null⟩

def first : Node := ⟨[(.str "GO", .tuple [go.toValue])], [Swing.function 0], [], .null, []⟩

def second : Node := ⟨[], [], [], .null, []⟩

def machine : Machine where
  id := .str "relay"
  initial := .str "first"
  context := .null
  states := [(.str "first", first.toValue), (.str "second", second.toValue)]

def send (event : String) (next : Prog Object) : Prog Object :=
  .ask (.send (.service 0) (.str event)) fun _ => next

def book : Book := Book.ofCodes fun
  | .host 0, _, _ => send "GO" (.done (.fresh .null))
  | .host 1, _, _ => send "ONE" (send "TWO" (.done (.fresh .null)))
  | _, _, _ => .done (.fresh .null)

def life : List Command := [.create machine.toValue .standard [] true, .start 0 .null]

def world : World := (World.start true).after (.ofBook book 9) life

/-- The moves of a machine, in their order. -/
def moves (journal : List Entry) : List (String × String) :=
  (journal.filterMap
    fun | .moved _ (.str source) (.str target) => some (source, target) | _ => none).reverse

/-- The relay takes all three events, in the order in which it sent them, and moves on the first.
A swing takes a late outcome, on which it does not move, and one that it waits for, on which it
does. -/
theorem events_taken :
    (acceptedItems 0 world.journal = takenItems 0 world.journal ∧
      (takenItems 0 world.journal).map (fun | .event e => e.type | .outcome _ => "") =
        ["GO", "ONE", "TWO"] ∧
      moves world.journal = [("first", "second")]) ∧
    let swing := (World.start true).after (.ofBook Swing.book 4) (Swing.life.take 8)
    acceptedItems 0 swing.journal = takenItems 0 swing.journal ∧
      (takenItems 0 swing.journal).map (fun | .event e => e.type | .outcome _ => "") =
        ["GO", "BACK", "", ""] ∧
      moves swing.journal = [("here", "there"), ("there", "here"), ("here", "there")] := by
  have all_taken (book : Book) (fuel : Nat) (life : List Command) :
      let w := (World.start true).after (.ofBook book fuel) life
      w.services[0]?.any (fun s => s.status == .running) = true →
      w.journal.all (fun e => !e.isHalt) = true →
        acceptedItems 0 w.journal = takenItems 0 w.journal := by
    intro w running ended
    obtain ⟨s, hs, running⟩ := (Option.any_eq_true _ _).mp running
    have goes : s.status ≠ .stopped := by
      rw [show s.status = .running by simpa using running]
      exact nofun
    exact (World.items_in_order book fuel true life 0).2.1 s hs goes (unhalted_of_all ended)
  refine ⟨⟨all_taken book 9 life (by decide +kernel) (by decide +kernel), ?_, ?_⟩,
    all_taken Swing.book 4 (Swing.life.take 8) (by decide +kernel) (by decide +kernel), ?_, ?_⟩
  all_goals decide +kernel

end Relay

end FlatMachine
