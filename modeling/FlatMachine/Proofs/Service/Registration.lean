import FlatMachine.Proofs.History
import FlatMachine.Proofs.Service.Alongside

/-! # Registrations

Whoever subscribes a listener to a service gets a number to unsubscribe by, and nothing else
tells the registration from others: what is removed is the first listener that is the same
(**`Run.run_unsubscribe`**).  So a number removes its own registration if the listener is
subscribed to the service under no other number, and only then it is sure to remove nothing when
it is used again.  A listener that is subscribed twice is removed by either number, and one
number removes both.

* **`World.Lists`**: what is registered with a service was subscribed to it, and is in the order
  of subscription; nothing that was withdrawn is registered.  It holds from then on, whatever
  happens (**`World.Lists.after`**).
* **`World.Sole`**: no listener that is the same is subscribed to the service under another
  number.
* **`World.unsubscribe_own`**: such a subscription is withdrawn by its number, once and for all. -/

namespace FlatMachine

/-- The listeners among subscriptions that are those of a service. -/
def subscribers (i : Nat) (subscriptions : List (Nat × Listener)) : List Listener :=
  (subscriptions.filter (·.1 == i)).map (·.2)

theorem subscribers_append (i : Nat) (xs ys : List (Nat × Listener)) :
    subscribers i (xs ++ ys) = subscribers i xs ++ subscribers i ys := by
  unfold subscribers
  rw [List.filter_append, List.map_append]

theorem mem_subscribers {i : Nat} {listener : Listener} {xs : List (Nat × Listener)} :
    listener ∈ subscribers i xs ↔ (i, listener) ∈ xs := by
  unfold subscribers
  rw [List.mem_map]
  constructor
  · rintro ⟨⟨j, x⟩, mem, rfl⟩
    obtain ⟨mem, hj⟩ := List.mem_filter.mp mem
    rwa [← show j = i from by simpa using hj]
  · exact fun mem => ⟨_, List.mem_filter.mpr ⟨mem, by simp⟩, rfl⟩

theorem subscribers_self (i : Nat) (listener : Listener) :
    subscribers i [(i, listener)] = [listener] := by
  unfold subscribers
  rw [List.filter_cons_of_pos (by simp)]
  rfl

/-- Since the subscriptions given, some of which remain, what is registered with the service are
remaining ones and later ones, in order. -/
def World.Lists (i : Nat) (given remaining : List (Nat × Listener)) (w : World) : Prop :=
  ∃ later, w.subscriptions = given ++ later ∧
    ∀ s : Service, w.services[i]? = some s →
    s.listeners.Sublist (subscribers i (remaining ++ later))

/-- No listener that is the same is subscribed to the service under another number. -/
def World.Sole (w : World) (n i : Nat) (listener : Listener) : Prop :=
  ∀ m other, w.subscriptions[m]? = some (i, other) → other.same listener = true → m = n

instance (w : World) (n i : Nat) (listener : Listener) : Decidable (w.Sole n i listener) :=
  decidable_of_iff
      (∀ p ∈ w.subscriptions.zipIdx, p.1.1 = i → p.1.2.same listener = true → p.2 = n) <| by
    constructor
    · exact fun h m other subscribed =>
        h ((i, other), m) (List.mem_zipIdx_iff_getElem?.mpr subscribed) rfl
    · rintro h ⟨⟨j, other⟩, m⟩ mem rfl
      exact h m other (List.mem_zipIdx_iff_getElem?.mp mem)

namespace World.Lists

open Run

variable {i : Nat} {given remaining : List (Nat × Listener)} {w : World}

theorem changed (h : w.Lists i given remaining) {j : Nat} {f : Service → Service}
    (hf : ∀ s : Service, (f s).listeners.Sublist s.listeners) :
    (w.change j f).Lists i given remaining := by
  obtain ⟨later, subscriptions, listed⟩ := h
  refine ⟨later, subscriptions, fun s hs => ?_⟩
  rw [change_services] at hs
  split at hs
  · obtain ⟨before, found, rfl⟩ := Option.map_eq_some_iff.mp hs
    exact (hf before).trans (listed before found)
  · exact listed s hs

theorem subscribed (h : w.Lists i given remaining) (j : Nat) (listener : Listener) :
    (w.subscribed j listener).Lists i given remaining := by
  obtain ⟨later, subscriptions, listed⟩ := h
  refine ⟨later ++ [(j, listener)], ?_, fun s hs => ?_⟩
  · show w.subscriptions ++ [(j, listener)] = _
    rw [subscriptions, List.append_assoc]
  rw [← List.append_assoc, subscribers_append]
  change (w.change j _).services[i]? = some s at hs
  rw [change_services] at hs
  split at hs
  · rename_i same
    subst same
    obtain ⟨before, found, rfl⟩ := Option.map_eq_some_iff.mp hs
    rw [subscribers_self]
    exact (listed before found).append_right [listener]
  · exact (listed s hs).trans (List.sublist_append_left _ _)

theorem created (h : w.Lists i given remaining) {s : Service} (hs : s.listeners = []) :
    ({ w with services := w.services ++ [s] } : World).Lists i given remaining := by
  obtain ⟨later, subscriptions, listed⟩ := h
  refine ⟨later, subscriptions, fun s' hs' => ?_⟩
  change (w.services ++ [s])[i]? = some s' at hs'
  rw [List.getElem?_append] at hs'
  split at hs'
  · exact listed s' hs'
  · rw [show s' = s from List.mem_singleton.mp (List.mem_of_getElem? hs'), hs]
    exact List.nil_sublist _

/-- Worlds that are the same, in which registrations are so. -/
def listing (i : Nat) (given remaining : List (Nat × Listener)) : Bond where
  ties w v := w = v ∧ w.Lists i given remaining
  spent := fun _ => False
  rise := id

theorem listing_open : (listing i given remaining).Open where
  beside := by rintro w _ ⟨rfl, -⟩; rfl
  moved := by rintro w _ u ⟨rfl, h⟩; exact ⟨rfl, h⟩
  same := by rintro w _ ⟨rfl, -⟩; rfl
  heard := by rintro w _ ⟨rfl, -⟩; rfl
  noted := by rintro w _ e ⟨rfl, h⟩; exact ⟨rfl, h⟩
  changed := by rintro w _ j f hf ⟨rfl, h⟩; exact ⟨rfl, h.changed fun s => (hf s).2⟩
  subscribed := by rintro w _ j listener ⟨rfl, h⟩; exact ⟨rfl, h.subscribed j listener⟩
  created := by rintro w _ s hs ⟨rfl, h⟩; exact ⟨rfl, h.created hs⟩

/-- Whatever happens, registrations stay so. -/
theorem after (book : Book) (fuel : Nat) (h : w.Lists i given remaining) (history : List Command) :
    (w.after (.ofBook book fuel) history).Lists i given remaining := by
  induction history generalizing w with
  | nil => exact h
  | cons c rest ih =>
    have open_ : (listing i given remaining).Open := listing_open
    have obeyed := Mirrors.run (open_.obey (open_.calls book fuel) c) (w := w) ⟨rfl, h⟩ id
    exact ih obeyed.2.2

theorem start (i : Nat) (looping : Bool) : (World.start looping).Lists i [] [] :=
  ⟨[], rfl, fun _ hs => absurd hs nofun⟩

/-- What is registered was subscribed. -/
theorem listed (h : w.Lists i [] []) {s : Service} (hs : w.services[i]? = some s) :
    s.listeners.Sublist (subscribers i w.subscriptions) := by
  obtain ⟨later, subscriptions, listed⟩ := h
  rw [subscriptions]
  exact listed s hs

end World.Lists

namespace Run

/-- What is unsubscribed is the first of the listeners registered with the service that is the
same; if none is, nothing happens. -/
theorem run_unsubscribe {w : World} {n i : Nat} {listener : Listener}
    (given : w.subscriptions[n]? = some (i, listener)) :
    (unsubscribe n).run w =
      (.ok (), w.change i fun s =>
        { s with listeners := s.listeners.eraseP (·.same listener) }) := by
  unfold unsubscribe
  rw [run_bind, run_get]
  dsimp only
  rw [given]
  rfl

theorem run_unsubscribe_gone {w : World} {n i : Nat} {listener : Listener}
    (given : w.subscriptions[n]? = some (i, listener))
    (gone : ∀ s, w.services[i]? = some s → ∀ other ∈ s.listeners, ¬ other.same listener = true) :
    (unsubscribe n).run w = (.ok (), w) := by
  rw [run_unsubscribe given]
  cases hs : w.services[i]? with
  | none => rw [World.change_none _ hs]
  | some s =>
    refine congrArg (Prod.mk _) (World.change_id hs ?_)
    rw [List.eraseP_of_forall_not (gone s hs)]

end Run

namespace World

open Run

variable {w : World} {n i : Nat} {listener : Listener}

/-- A sole subscription is the only one, of those to the service, whose listener is the same as its
own. -/
theorem Sole.others (sole : w.Sole n i listener) :
    ∀ other ∈ subscribers i (w.subscriptions.eraseIdx n), ¬ other.same listener = true := by
  intro other mem same
  obtain ⟨m, hm, subscribed⟩ := List.mem_eraseIdx_iff_getElem?.mp (mem_subscribers.mp mem)
  exact hm (sole m other subscribed same)

/-- Without the first that is the same, only others are registered. -/
theorem Sole.erased (sole : w.Sole n i listener) (given : w.subscriptions[n]? = some (i, listener))
    {listeners : List Listener} (listed : listeners.Sublist (subscribers i w.subscriptions)) :
    (listeners.eraseP (·.same listener)).Sublist (subscribers i (w.subscriptions.eraseIdx n)) := by
  have others := sole.others
  obtain ⟨hn, at_⟩ := List.getElem?_eq_some_iff.mp given
  have parts : w.subscriptions = w.subscriptions.take n ++ (i, listener) ::
      w.subscriptions.drop (n + 1) := by
    rw [← at_, List.getElem_cons_drop, List.take_append_drop]
  rw [List.eraseIdx_eq_take_drop_succ, subscribers_append] at others ⊢
  have listed := listed.eraseP (p := (·.same listener))
  rw [parts, subscribers_append, List.eraseP_append_right _ fun other mem =>
    others other (List.mem_append_left _ mem)] at listed
  have own : (subscribers i ((i, listener) :: w.subscriptions.drop (n + 1))).eraseP
    (·.same listener) =
      subscribers i (w.subscriptions.drop (n + 1)) := by
    rw [← List.singleton_append, subscribers_append, subscribers_self, List.singleton_append]
    exact List.eraseP_cons_of_pos listener.same_self
  rwa [own] at listed

/-- If a listener that is the same is registered, it is the one of the subscription. -/
theorem Sole.registered (sole : w.Sole n i listener)
    (given : w.subscriptions[n]? = some (i, listener)) {other : Listener}
    (mem : other ∈ subscribers i w.subscriptions) (same : other.same listener = true) :
    other = listener := by
  obtain ⟨m, subscribed⟩ := List.mem_iff_getElem?.mp (mem_subscribers.mp mem)
  obtain rfl := sole m other subscribed same
  exact (Prod.mk.inj (Option.some.inj (subscribed.symm.trans given))).2

/-- The registration of the only subscription of a listener is withdrawn. -/
def withdrawn (w : World) (i : Nat) (listener : Listener) : World :=
  w.change i fun s => { s with listeners := s.listeners.eraseP (·.same listener) }

theorem Sole.withdraws (sole : w.Sole n i listener)
    (given : w.subscriptions[n]? = some (i, listener)) (lists : w.Lists i [] []) :
    (w.withdrawn i listener).Lists i w.subscriptions (w.subscriptions.eraseIdx n) := by
  refine ⟨[], (List.append_nil _).symm, fun s hs => ?_⟩
  unfold withdrawn at hs
  rw [change_services, if_pos rfl] at hs
  obtain ⟨before, found, rfl⟩ := Option.map_eq_some_iff.mp hs
  rw [List.append_nil]
  exact sole.erased given (lists.listed found)

/-- What was withdrawn is not registered, unless it is subscribed anew. -/
theorem Lists.gone {given : List (Nat × Listener)} (lists : w.Lists i given (given.eraseIdx n))
    (hn : n < given.length) (sole : w.Sole n i listener) {s : Service}
    (hs : w.services[i]? = some s) :
    ∀ other ∈ s.listeners, ¬ other.same listener = true := by
  obtain ⟨later, subscriptions, listed⟩ := lists
  have others := sole.others
  rw [subscriptions, List.eraseIdx_append_of_lt_length hn] at others
  exact fun other mem => others other ((listed s hs).subset mem)

/-- In any history, the number of the only subscription of a listener to a service withdraws it:
if it is still registered, its registration is removed, the others stay in their order and
nothing else changes; if it is not, nothing changes at all. When the number is used again,
whatever has happened since, nothing changes, unless the listener was subscribed to the service
anew. -/
theorem unsubscribe_own (book : Book) (fuel : Nat) (looping : Bool)
    (history : List Command) {n i : Nat} {listener : Listener} :
    let g := Engine.ofBook book fuel
    let w := (World.start looping).after g history
    w.subscriptions[n]? = some (i, listener) → w.Sole n i listener →
      ∃ w', (g.obey (.unsubscribe n)).run w = (.ok (), w') ∧
        (w' = w ∨ ∃ s before after, w.services[i]? = some s ∧
          s.listeners = before ++ listener :: after ∧
          w' = w.change i fun s => { s with listeners := before ++ after }) ∧
        (∀ s, w'.services[i]? = some s → ∀ other ∈ s.listeners, ¬ other.same listener = true) ∧
        ∀ later, (w'.after g later).Sole n i listener →
          (g.obey (.unsubscribe n)).run (w'.after g later) = (.ok (), w'.after g later) := by
  intro g w given sole
  have lists : w.Lists i [] [] := (Lists.start i looping).after book fuel history
  have withdrawn := sole.withdraws given lists
  obtain ⟨hn, -⟩ := List.getElem?_eq_some_iff.mp given
  refine ⟨w.withdrawn i listener, run_unsubscribe given, ?_, fun s => withdrawn.gone hn sole,
    fun later sole' => ?_⟩
  · cases hs : w.services[i]? with
    | none => exact .inl (change_none _ hs)
    | some s =>
      by_cases registered : ∃ other ∈ s.listeners, other.same listener = true
      · obtain ⟨other, mem, same⟩ := registered
        obtain ⟨own, before, after, -, same, listeners, erased⟩ :=
          List.exists_of_eraseP (p := (·.same listener)) mem same
        have subscribed :=
          (lists.listed hs).subset (listeners ▸ List.mem_append_right before List.mem_cons_self)
        obtain rfl := sole.registered given subscribed same
        exact .inr ⟨s, before, after, rfl, listeners, change_congr hs (by rw [erased])⟩
      · refine .inl (change_id hs ?_)
        rw [List.eraseP_of_forall_not fun other mem same => registered ⟨other, mem, same⟩]
  · have lists' := withdrawn.after book fuel later
    have given' :
        (((w.withdrawn i listener).after g later).subscriptions)[n]? = some (i, listener) := by
      obtain ⟨_, subscriptions, -⟩ := lists'
      rw [subscriptions, List.getElem?_append_left hn, given]
    exact run_unsubscribe_gone given' fun s => lists'.gone hn sole'

end World

/-! ### A swing that is listened to -/

namespace Swing

/-- Three listen to a swing. -/
def listening : List Command :=
  [.create machine.toValue .standard [] true, .start 0 .null, .subscribe 0 "first" none,
  .subscribe 0 "second" none, .subscribe 0 "third" none]

/-- Another one listens, one does no longer, and the swing is stopped. -/
def parting : List Command :=
  [.subscribe 0 "fourth" none, .send 0 (.str "GO"), .unsubscribe 0, .stop 0]

/-- The second one stops listening, which makes no difference to the first and the third; doing
so again makes no difference at all. -/
theorem second_withdrawn :
    let g := Engine.ofBook book 4
    ∃ w, (g.obey (.unsubscribe 1)).run ((World.start true).after g listening) = (.ok (), w) ∧
      w.services[0]?.map (fun s => s.listeners.map (·.name)) = some ["first", "third"] ∧
      (g.obey (.unsubscribe 1)).run (w.after g parting) = (.ok (), w.after g parting) := by
  have alone : ((World.start true).after (.ofBook book 4) listening).subscriptions[1]?.any
    (fun p => p.1 == 0 &&
      decide (((World.start true).after (.ofBook book 4) listening).Sole 1 0 p.2) &&
      decide (((((Engine.ofBook book 4).obey (.unsubscribe 1)).run
        ((World.start true).after (.ofBook book 4) listening)).2.after
          (.ofBook book 4) parting).Sole 1 0 p.2)) = true := by
    decide +kernel
  have left : (((Engine.ofBook book 4).obey (.unsubscribe 1)).run
      ((World.start true).after (.ofBook book 4) listening)).2.services[0]?.map
        (fun s => s.listeners.map (·.name)) = some ["first", "third"] := by decide +kernel
  obtain ⟨⟨i, listener⟩, given, alone⟩ := (Option.any_eq_true _ _).mp alone
  obtain ⟨alone, sole'⟩ := Bool.and_eq_true_iff.mp alone
  obtain ⟨same, sole⟩ := Bool.and_eq_true_iff.mp alone
  obtain rfl : i = 0 := by simpa using same
  obtain ⟨w, run, -, -, again⟩ :=
    World.unsubscribe_own book 4 true listening given (of_decide_eq_true sole)
  rw [run] at left sole'
  exact ⟨w, run, left, again parting (of_decide_eq_true sole')⟩

/-- One who listens twice no longer listens when one of the numbers is used twice. -/
example : ((World.start true).after (.ofBook book 4)
    [.create machine.toValue .standard [] true, .subscribe 0 "first" none,
    .subscribe 0 "first" none, .unsubscribe 0, .unsubscribe 0]).services[0]?.map
      (·.listeners.length) = some 0 := by
  decide +kernel

end Swing
end FlatMachine
